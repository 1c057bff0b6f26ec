/-
Module: Quill.Proofs.Locality
Layer: Proofs
Purpose: Only the scope in which code runs gains names. Evaluation declares names in the scope that it was given
  and in scopes that it made itself; in every other scope it can do no more than assign variables. A call and
  a loop with a start and a step make a scope for everything that they run, so they declare nothing in any
  scope that was there before.
Main exports: Store.declarations, ScopeLaw, ScopeLaw.discipline, locality, Machine.declarations_callValue,
  Machine.declarations_forLoop, Machine.declarations_unchanged
-/
import Quill.Proofs.Store
import Quill.Proofs.Discipline.Evaluation

namespace Quill

namespace Store

variable {s : Store} {id owner : ScopeId} {name : String} {b : Binding}

/-!
### Declarations
-/

/-- The names that a scope itself binds, and which of them it binds for good. -/
def declarations (s : Store) (id : ScopeId) : List (String × Bool) :=
  match s.scopes[id]? with
  | some scope => scope.bindings.map fun entry => (entry.1, entry.2.constant)
  | none => []

@[simp] theorem declarations_newScope (s : Store) (parent : Option ScopeId) (id : ScopeId) :
    (s.newScope parent).2.declarations id = s.declarations id := by
  by_cases isNew : id = s.scopes.size
  · subst isNew
    simp [declarations, newScope]
  · simp [declarations, newScope, Array.getElem?_push, isNew]

theorem declarations_setOwn_of_ne (other : id ≠ owner) :
    (s.setOwn owner name b).declarations id = s.declarations id := by
  simp [declarations, setOwn, Array.getElem?_modify, Ne.symm other]

/-- A variable that gets a new value stays declared as it was. -/
theorem declarations_setOwn_of_own? {old : Binding} (held : s.own? owner name = some old)
    (alike : b.constant = old.constant) (id : ScopeId) :
    (s.setOwn owner name b).declarations id = s.declarations id := by
  by_cases isOwner : id = owner
  · subst isOwner
    unfold own? at held
    split at held
    · rename_i scope inStore
      simp only [declarations, setOwn, Array.getElem?_modify, inStore, if_true, Option.map_some]
      exact Assoc.map_set_of_lookup Binding.constant held alike
    · cases held
  · exact declarations_setOwn_of_ne isOwner

end Store

/-!
### The discipline
-/

/-- What the primitive computations keep of the scopes of a machine, whatever values they store. -/
structure ScopeLaw where
  sound : Machine → Prop
  later : Machine → Machine → Prop
  runs : Machine → ScopeId → Prop
  later_refl : ∀ m, later m m
  later_trans : ∀ {a b c}, later a b → later b c → later a c
  runs_later : ∀ {m m' scope}, later m m' → runs m scope → runs m' scope
  newScope : ∀ {m} parent, sound m → sound { m with store := (m.store.newScope parent).2 } ∧
    later m { m with store := (m.store.newScope parent).2 } ∧
      runs { m with store := (m.store.newScope parent).2 } (m.store.newScope parent).1
  define : ∀ {m scope name owner} b, sound m → runs m scope → m.store.placeToDefine scope name = .ok owner →
    sound { m with store := m.store.setOwn owner name b } ∧ later m { m with store := m.store.setOwn owner name b }
  assign : ∀ {m scope name owner} v, sound m → runs m scope → m.store.placeToAssign scope name = .ok owner →
    sound { m with store := m.store.setOwn owner name ⟨v, false⟩ } ∧
      later m { m with store := m.store.setOwn owner name ⟨v, false⟩ }
  fresh : ∀ {m}, sound m → sound { m with nextIdentity := m.nextIdentity + 1 } ∧
    later m { m with nextIdentity := m.nextIdentity + 1 }
  print : ∀ {m} bytes, sound m → sound { m with sink := (m.sink.write bytes).2 } ∧
    later m { m with sink := (m.sink.write bytes).2 }

/-- The discipline of keeping a law of scopes. It asks nothing of values. -/
def ScopeLaw.discipline (law : ScopeLaw) : Discipline where
  sound := law.sound
  later := law.later
  good _ _ := True
  runs := law.runs
  encloses _ _ := True
  later_refl := law.later_refl
  later_trans := law.later_trans
  good_later _ good := good
  runs_later := law.runs_later
  encloses_later _ encloses := encloses
  encloses_of_runs _ := trivial
  good_atomic _ := trivial
  good_quote _ := trivial
  good_returned _ := trivial
  good_function _ := trivial
  encloses_function _ := trivial
  good_macro _ := trivial
  encloses_macro _ := trivial
  good_array := by simp
  good_hash_nil := trivial
  good_hash_set _ _ _ _ := trivial
  good_hash_entry _ _ := ⟨trivial, trivial⟩
  good_get _ _ _ := trivial
  newScope sound _ := law.newScope _ sound
  define constant sound runs _ place := law.define ⟨_, constant⟩ sound runs place
  assign sound runs _ place := law.assign _ sound runs place
  fresh := law.fresh
  print := law.print

/-- Where `old` scopes were there at the start, code runs in a scope that is `current` or in one that was made since,
    and the declarations of all others stay. -/
def localityLaw (old : Nat) (current : ScopeId → Prop) : ScopeLaw where
  sound m := old ≤ m.store.scopes.size
  later m m' := ∀ id < old, ¬current id → m'.store.declarations id = m.store.declarations id
  runs _ scope := current scope ∨ old ≤ scope
  later_refl _ _ _ _ := rfl
  later_trans first second id isOld notCurrent :=
    (second id isOld notCurrent).trans (first id isOld notCurrent)
  runs_later _ runs := runs
  newScope _ sound := by
    refine ⟨?_, fun id _ _ => Store.declarations_newScope _ _ id, .inr sound⟩
    rw [Store.size_newScope]
    exact Nat.le_succ_of_le sound
  define b sound runs place := by
    obtain ⟨rfl, _⟩ := Store.placeToDefine_eq_ok place
    refine ⟨by rwa [Store.size_setOwn], fun id isOld notCurrent => ?_⟩
    refine Store.declarations_setOwn_of_ne ?_
    rintro rfl
    rcases runs with isCurrent | isNew
    · exact notCurrent isCurrent
    · exact Nat.not_lt_of_le isNew isOld
  assign _ sound _ place := by
    obtain ⟨v, held⟩ := Store.placeToAssign_eq_ok place
    exact ⟨by rwa [Store.size_setOwn], fun id _ _ => Store.declarations_setOwn_of_own? held (by rfl) id⟩
  fresh sound := ⟨sound, fun _ _ _ => rfl⟩
  print _ sound := ⟨sound, fun _ _ _ => rfl⟩

/-- The discipline of declaring names in current scopes and in new ones only. -/
def locality (old : Nat) (current : ScopeId → Prop) : Discipline :=
  (localityLaw old current).discipline

/-!
### Runs of code
-/

namespace Machine

/-- A call only declares names in scopes that it makes. -/
theorem declarations_callValue (m : Machine) {id : ScopeId} (wasThere : id < m.store.scopes.size)
    (bound : Nat) (f : Value) (args : List Value) :
    (callValue bound f args m).2.store.declarations id = m.store.declarations id := by
  let D := locality m.store.scopes.size fun _ => False
  have evaluates : D.Evaluates (evalExpr bound) (evalExpr bound) := Discipline.evalExpr_alike bound
  have alike : D.Alike m (callValue bound f args) (callValue bound f args) D.good :=
    Discipline.applyValue_alike evaluates (Nat.le_refl _) trivial fun _ _ => trivial
  exact alike.later id wasThere not_false

/-- A loop with a start and a step only declares names in scopes that it makes, whatever scope it is run in. -/
theorem declarations_forLoop (m : Machine) {id : ScopeId} (wasThere : id < m.store.scopes.size)
    (bound : Nat) (scope : ScopeId) (start : Stmt) (condition : Expr) (step : Stmt) (body : Block) :
    (evalExpr bound (.forLoop start condition step body) scope m).2.store.declarations id =
      m.store.declarations id := by
  cases bound with
  | zero => rfl
  | succ bound =>
      let D := locality m.store.scopes.size fun _ => False
      have evaluates : D.Evaluates (evalExpr bound) (evalExpr bound) := Discipline.evalExpr_alike bound
      have alike : D.Alike m (evalFor (evalExpr bound) bound scope start condition step body)
          (evalFor (evalExpr bound) bound scope start condition step body) D.Outcome :=
        Discipline.evalFor_alike evaluates bound start condition step body (Nat.le_refl _) trivial
      exact alike.later id wasThere not_false

/-- Only the current scope gains names: whatever is run in a scope, and however it ends, every other scope that
    was there declares the same names, as variables or for good as before. A call and a loop with a start and a
    step leave the declarations of every scope that was there, the one that they are run in included. -/
theorem declarations_unchanged (m : Machine) (bound : Nat) (scope id : ScopeId)
    (wasThere : id < m.store.scopes.size) :
    (id ≠ scope →
      (∀ e, (evalExpr bound e scope m).2.store.declarations id = m.store.declarations id) ∧
      (∀ s, (evalStmt (evalExpr bound) scope s m).2.store.declarations id = m.store.declarations id) ∧
      (∀ b, (evalBlock (evalExpr bound) scope b m).2.store.declarations id = m.store.declarations id) ∧
      (∀ p, (evalProgram bound p scope m).2.store.declarations id = m.store.declarations id)) ∧
    (∀ f args, (callValue bound f args m).2.store.declarations id = m.store.declarations id) ∧
    (∀ start condition step body,
      (evalExpr bound (.forLoop start condition step body) scope m).2.store.declarations id =
        m.store.declarations id) := by
  refine ⟨fun different => ?_, m.declarations_callValue wasThere bound,
    m.declarations_forLoop wasThere bound scope⟩
  let D := locality m.store.scopes.size (· = scope)
  have sound : D.sound m := Nat.le_refl _
  have runs : D.runs m scope := .inl rfl
  have evaluates : D.Evaluates (evalExpr bound) (evalExpr bound) := Discipline.evalExpr_alike bound
  refine ⟨fun e => ?_, fun s => ?_, fun b => ?_, fun p => ?_⟩
  · have alike : D.Alike m (evalExpr bound e scope) (evalExpr bound e scope) D.Outcome :=
      evaluates sound runs
    exact alike.later id wasThere different
  · exact (Discipline.evalStmt_alike evaluates s sound runs).later id wasThere different
  · exact (Discipline.evalBlock_alike evaluates b sound runs).later id wasThere different
  · exact (Discipline.evalProgramBy_alike evaluates p sound runs).later id wasThere different

/-- A block in an inner scope declares a name there; of the outer scope it only assigns a variable. -/
theorem declarations_unchanged_outside :
    let m : Machine := ⟨⟨#[⟨none, [("x", ⟨.integer 1, false⟩)]⟩, ⟨some 0, []⟩]⟩, 0, Sink.unlimited⟩
    let body : Block := [.bind "y" (.integer 2), .assign "x" (.integer 3)]
    let m' : Machine := (evalBlock (evalExpr 1) 1 body m).2
    m'.store.declarations 1 = [("y", false)] ∧ m'.store.own? 0 "x" = some ⟨.integer 3, false⟩ ∧
      m'.store.declarations 0 = m.store.declarations 0 := by
  intro m body m'
  have elsewhere := declarations_unchanged m 1 1 0 (by decide)
  exact ⟨rfl, rfl, (elsewhere.1 (by decide)).2.2.1 body⟩

end Machine

end Quill
