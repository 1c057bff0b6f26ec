/-
Module: Quill.Proofs.Discipline
Layer: Proofs
Purpose: A logic for what running programs keep. A discipline names the machines that follow it, the values
  that are good in a machine and the scopes in which code may run, and it says that the few primitive
  computations on a machine respect these notions. `Discipline.Alike` compares two computations run from
  one machine: they do the same, end in a machine that follows the discipline, and yield what a
  postcondition asks for. Comparing a computation with itself gives plain preservation; comparing it with a
  guarded copy shows that the guards never act.
Main exports: Discipline, Discipline.Outcome, Discipline.Alike and its rules
-/
import Quill.Machine

namespace Quill

/-- Values without parts that evaluation itself makes. -/
def Value.Atomic : Value → Prop
  | .null | .integer _ | .float _ | .boolean _ | .text _ | .builtin _ => True
  | _ => False

/-- What the primitive computations on a machine keep. -/
structure Discipline where
  /-- the machines that follow the discipline -/
  sound : Machine → Prop
  /-- the machines that a machine may become -/
  later : Machine → Machine → Prop
  /-- the values that may be stored and handed around -/
  good : Machine → Value → Prop
  /-- the scopes in which code may run -/
  runs : Machine → ScopeId → Prop
  /-- the scopes in which new scopes may be made -/
  encloses : Machine → ScopeId → Prop
  later_refl : ∀ m, later m m
  later_trans : ∀ {a b c}, later a b → later b c → later a c
  good_later : ∀ {m m' v}, later m m' → good m v → good m' v
  runs_later : ∀ {m m' scope}, later m m' → runs m scope → runs m' scope
  encloses_later : ∀ {m m' scope}, later m m' → encloses m scope → encloses m' scope
  encloses_of_runs : ∀ {m scope}, runs m scope → encloses m scope
  good_atomic : ∀ {m v}, v.Atomic → good m v
  good_quote : ∀ {m} e, good m (.quote (.expr e))
  good_returned : ∀ {m v}, good m (.returned v) → good m v
  good_function : ∀ {m c}, encloses m c.scope → good m (.function c)
  encloses_function : ∀ {m c}, good m (.function c) → encloses m c.scope
  good_macro : ∀ {m c}, encloses m c.scope → good m (.macroValue c)
  encloses_macro : ∀ {m c}, good m (.macroValue c) → encloses m c.scope
  good_array : ∀ {m items}, good m (.array items) ↔ ∀ v ∈ items, good m v
  good_hash_nil : ∀ {m}, good m (.hash [])
  good_hash_set : ∀ {m entries k key value}, good m (.hash entries) → key.key? = some k → good m key →
    good m value → good m (.hash (Assoc.set k (key, value) entries))
  good_hash_entry : ∀ {m entries entry}, good m (.hash entries) → entry ∈ entries →
    good m entry.2.1 ∧ good m entry.2.2
  good_get : ∀ {m scope name v}, sound m → encloses m scope → m.store.get? scope name = some v →
    good m v
  newScope : ∀ {m parent}, sound m → encloses m parent →
    sound { m with store := (m.store.newScope (some parent)).2 } ∧
      later m { m with store := (m.store.newScope (some parent)).2 } ∧
        runs { m with store := (m.store.newScope (some parent)).2 } (m.store.newScope (some parent)).1
  define : ∀ {m scope name v owner}, (constant : Bool) → sound m → runs m scope → good m v →
    m.store.placeToDefine scope name = .ok owner →
      sound { m with store := m.store.setOwn owner name ⟨v, constant⟩ } ∧
        later m { m with store := m.store.setOwn owner name ⟨v, constant⟩ }
  assign : ∀ {m scope name v owner}, sound m → runs m scope → good m v →
    m.store.placeToAssign scope name = .ok owner →
      sound { m with store := m.store.setOwn owner name ⟨v, false⟩ } ∧
        later m { m with store := m.store.setOwn owner name ⟨v, false⟩ }
  fresh : ∀ {m}, sound m → sound { m with nextIdentity := m.nextIdentity + 1 } ∧
    later m { m with nextIdentity := m.nextIdentity + 1 }
  print : ∀ {m} bytes, sound m → sound { m with sink := (m.sink.write bytes).2 } ∧
    later m { m with sink := (m.sink.write bytes).2 }

namespace Discipline

variable {D : Discipline} {α β : Type} {m : Machine}

/-- What evaluation may yield: a good value, or a pending return of one. -/
def Outcome (D : Discipline) (m : Machine) (v : Value) : Prop :=
  D.good m v.content

theorem outcome_of_good {v : Value} (good : D.good m v) : D.Outcome m v := by
  cases v with
  | returned w => exact D.good_returned good
  | _ => exact good

/-- Run from `m`, both computations do the same, keep the discipline and yield what `post` asks for. -/
structure Alike (D : Discipline) (m : Machine) (p p' : Eval α) (post : Machine → α → Prop) : Prop where
  same : p m = p' m
  sound : D.sound (p m).2
  later : D.later m (p m).2
  yields : ∀ a, (p m).1 = .ok a → post (p m).2 a

namespace Alike

/-!
### Rules of the logic
-/

theorem weaken {p p' : Eval α} {post post' : Machine → α → Prop} (alike : D.Alike m p p' post)
    (weaker : ∀ m' a, D.sound m' → post m' a → post' m' a) : D.Alike m p p' post' :=
  ⟨alike.same, alike.sound, alike.later, fun a ok => weaker _ a alike.sound (alike.yields a ok)⟩

theorem pure {a : α} {post : Machine → α → Prop} (sound : D.sound m) (holds : post m a) :
    D.Alike m (Pure.pure a : Eval α) (Pure.pure a) post := by
  refine ⟨rfl, sound, D.later_refl m, ?_⟩
  intro b ok
  cases ok
  exact holds

theorem stop {post : Machine → α → Prop} (sound : D.sound m) (s : Stop) :
    D.Alike m (Eval.stop s : Eval α) (Eval.stop s) post := by
  refine ⟨rfl, sound, D.later_refl m, ?_⟩
  intro b ok
  cases ok

/-- One computation after another: the second one starts in whatever machine the first one reached. -/
theorem bind {p p' : Eval α} {f f' : α → Eval β} {post : Machine → α → Prop}
    {post' : Machine → β → Prop} (first : D.Alike m p p' post)
    (next : ∀ a m', D.later m m' → D.sound m' → post m' a → D.Alike m' (f a) (f' a) post') :
    D.Alike m (p >>= f) (p' >>= f') post' := by
  obtain ⟨same, sound, later, yields⟩ := first
  rcases run : p m with ⟨result, m'⟩
  rw [run] at sound later yields
  have run' : p' m = (result, m') := by rw [← same, run]
  cases result with
  | error s =>
      have left : (p >>= f) m = (.error s, m') := Eval.bind_of_error run
      have right : (p' >>= f') m = (.error s, m') := Eval.bind_of_error run'
      refine ⟨by rw [left, right], by rw [left]; exact sound, by rw [left]; exact later, ?_⟩
      intro b ok
      rw [left] at ok
      cases ok
  | ok a =>
      have left : (p >>= f) m = f a m' := Eval.bind_of_ok run
      have right : (p' >>= f') m = f' a m' := Eval.bind_of_ok run'
      have second := next a m' later sound (yields a rfl)
      refine ⟨by rw [left, right]; exact second.same, by rw [left]; exact second.sound, ?_, ?_⟩
      · rw [left]
        exact D.later_trans later second.later
      · rw [left]
        exact second.yields

/-- A part of a larger evaluation: what comes next is only reached with a good value. -/
theorem operand {p p' : Eval Value} {f f' : Value → Eval Value}
    (first : D.Alike m p p' D.Outcome)
    (next : ∀ v m', D.later m m' → D.sound m' → D.good m' v → D.Alike m' (f v) (f' v) D.Outcome) :
    D.Alike m (p.operand f) (p'.operand f') D.Outcome := by
  rw [Eval.operand_eq_bind, Eval.operand_eq_bind]
  refine bind first fun v m' later sound outcome => ?_
  cases v with
  | returned w => exact pure sound outcome
  | _ => exact next _ m' later sound outcome

theorem mapFault {p p' : Eval α} {post : Machine → α → Prop} (describe : Fault → Stop)
    (alike : D.Alike m p p' post) : D.Alike m (p.mapFault describe) (p'.mapFault describe) post := by
  obtain ⟨same, sound, later, yields⟩ := alike
  have machine : (p.mapFault describe m).2 = (p m).2 := by
    rcases run : p m with ⟨(f | x | _) | a, m'⟩ <;> simp [Eval.mapFault, run]
  refine ⟨by simp only [Eval.mapFault, same], by rw [machine]; exact sound,
    by rw [machine]; exact later, ?_⟩
  intro a ok
  rw [machine]
  refine yields a ?_
  rcases run : p m with ⟨(f | x | _) | b, m'⟩ <;> simp [Eval.mapFault, run] at ok
  exact congrArg Except.ok ok

/-!
### The primitive computations
-/

theorem ofExcept {result : Except Fault α} {post : Machine → α → Prop} (sound : D.sound m)
    (holds : ∀ a, result = .ok a → post m a) :
    D.Alike m (Eval.ofExcept result) (Eval.ofExcept result) post := by
  cases result with
  | ok a => exact pure sound (holds a rfl)
  | error f => exact stop sound (.fault f)

theorem lookup {scope : ScopeId} {name : String} (sound : D.sound m) (encloses : D.encloses m scope) :
    D.Alike m (Eval.lookup scope name) (Eval.lookup scope name)
      (fun m' found => ∀ v, found = some v → D.good m' v) := by
  refine ⟨rfl, sound, D.later_refl m, ?_⟩
  intro found ok v isSome
  simp only [Eval.lookup, Except.ok.injEq] at ok
  exact D.good_get sound encloses (ok.trans isSome)

theorem newScope {parent : ScopeId} (sound : D.sound m) (encloses : D.encloses m parent) :
    D.Alike m (Eval.newScope (some parent)) (Eval.newScope (some parent)) D.runs := by
  obtain ⟨sound', later, runs⟩ := D.newScope sound encloses
  refine ⟨rfl, sound', later, ?_⟩
  intro id ok
  simp only [Eval.newScope, Except.ok.injEq] at ok
  rw [← ok]
  exact runs

theorem freshIdentity (sound : D.sound m) :
    D.Alike m Eval.freshIdentity Eval.freshIdentity (fun _ _ => True) :=
  ⟨rfl, (D.fresh sound).1, (D.fresh sound).2, fun _ _ => trivial⟩

theorem write {text : String} (sound : D.sound m) :
    D.Alike m (Eval.write text) (Eval.write text) (fun _ _ => True) := by
  have machine : (Eval.write text m).2 = { m with sink := (m.sink.write text.toUTF8).2 } := by
    rcases written : m.sink.write text.toUTF8 with ⟨_ | _, sink⟩ <;> simp only [Eval.write, written]
  obtain ⟨sound', later⟩ := D.print text.toUTF8 sound
  exact ⟨rfl, by rw [machine]; exact sound', by rw [machine]; exact later, fun _ _ => trivial⟩

/-- Binding at a place keeps the discipline if it does so wherever the place is found. -/
theorem bindAt {place : Store → Except Fault ScopeId} {name : String} {binding : Binding}
    (sound : D.sound m)
    (keeps : ∀ owner, place m.store = .ok owner →
      D.sound { m with store := m.store.setOwn owner name binding } ∧
        D.later m { m with store := m.store.setOwn owner name binding }) :
    D.Alike m (Eval.bindAt place name binding) (Eval.bindAt place name binding)
      (fun _ _ => True) := by
  rcases found : place m.store with f | owner
  · have machine : (Eval.bindAt place name binding m).2 = m := by simp [Eval.bindAt, found]
    refine ⟨rfl, by rw [machine]; exact sound, ?_, fun _ _ => trivial⟩
    rw [machine]
    exact D.later_refl m
  · have machine : (Eval.bindAt place name binding m).2 =
        { m with store := m.store.setOwn owner name binding } := by simp [Eval.bindAt, found]
    obtain ⟨sound', later⟩ := keeps owner found
    exact ⟨rfl, by rw [machine]; exact sound', by rw [machine]; exact later, fun _ _ => trivial⟩

theorem define {scope : ScopeId} {name : String} {v : Value} (sound : D.sound m)
    (runs : D.runs m scope) (good : D.good m v) :
    D.Alike m (Eval.define scope name v) (Eval.define scope name v) (fun _ _ => True) :=
  bindAt sound fun _ found => D.define false sound runs good found

theorem defineConst {scope : ScopeId} {name : String} {v : Value} (sound : D.sound m)
    (runs : D.runs m scope) (good : D.good m v) :
    D.Alike m (Eval.defineConst scope name v) (Eval.defineConst scope name v) (fun _ _ => True) :=
  bindAt sound fun _ found => D.define true sound runs good found

theorem assign {scope : ScopeId} {name : String} {v : Value} (sound : D.sound m)
    (runs : D.runs m scope) (good : D.good m v) :
    D.Alike m (Eval.assign scope name v) (Eval.assign scope name v) (fun _ _ => True) :=
  bindAt sound fun _ found => D.assign sound runs good found

theorem defineAll {scope : ScopeId} (pairs : List (String × Value)) :
    ∀ {m}, D.sound m → D.runs m scope → (∀ pair ∈ pairs, D.good m pair.2) →
      D.Alike m (Eval.defineAll scope pairs) (Eval.defineAll scope pairs) (fun _ _ => True) := by
  induction pairs with
  | nil =>
      intro m sound _ _
      exact pure sound trivial
  | cons pair rest inductionHypothesis =>
      intro m sound runs good
      refine bind (define sound runs (good pair List.mem_cons_self)) ?_
      intro _ m' later sound' _
      exact inductionHypothesis sound' (D.runs_later later runs)
        fun other member => D.good_later later (good other (List.mem_cons_of_mem pair member))

end Alike

end Discipline

end Quill
