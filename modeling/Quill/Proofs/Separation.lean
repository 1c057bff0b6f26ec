/-
Module: Quill.Proofs.Separation
Layer: Proofs
Purpose: The scopes of programs and the scopes of macros stay apart. A scope reaches the scopes around it and the
  scopes that the functions and macros in its bindings close over, and so on. In whatever state a session is, no
  scope can be reached both from the scope in which programs run and from the scope of the macros: defining and
  expanding macros leaves everything that programs can reach as it was, and running a program leaves everything
  that macros can reach as it was. Trees cross from one side to the other, and trees hold no scopes.
Main exports: Value.Captures, Store.Reaches, Store.Closed, confinement, Store.Separate, Session.Passed,
  phases_apart
-/
import Quill.Proofs.Store
import Quill.Proofs.Discipline.Sessions

namespace Quill

/-!
### Reaching
-/

/-- A function or a macro in a value, at any depth, closes over the scope. -/
inductive Value.Captures : Value → ScopeId → Prop where
  | function (c : Closure) : Captures (.function c) c.scope
  | macroValue (c : Macro) : Captures (.macroValue c) c.scope
  | item {items : List Value} {v : Value} {scope : ScopeId} (member : v ∈ items) (captures : Captures v scope) :
      Captures (.array items) scope
  | key {entries : List (Key × Value × Value)} {entry : Key × Value × Value} {scope : ScopeId}
      (member : entry ∈ entries) (captures : Captures entry.2.1 scope) : Captures (.hash entries) scope
  | entry {entries : List (Key × Value × Value)} {entry : Key × Value × Value} {scope : ScopeId}
      (member : entry ∈ entries) (captures : Captures entry.2.2 scope) : Captures (.hash entries) scope
  | returned {v : Value} {scope : ScopeId} (captures : Captures v scope) : Captures (.returned v) scope

namespace Store

variable {s s' : Store} {id other owner : ScopeId} {name : String} {b : Binding} {region outside : ScopeId → Prop}

/-- One scope leads to another, through scopes around scopes and through what is bound in them. -/
inductive Reaches (s : Store) : ScopeId → ScopeId → Prop where
  | self (id : ScopeId) : Reaches s id id
  | around {id parent other : ScopeId} (lies : s.parent? id = some parent) (onward : Reaches s parent other) :
      Reaches s id other
  | captured {id scope other : ScopeId} {name : String} {b : Binding} (own : s.own? id name = some b)
      (captures : b.value.Captures scope) (onward : Reaches s scope other) : Reaches s id other

/-- No scope of the region leads out of it in one step. -/
structure Closed (s : Store) (region : ScopeId → Prop) : Prop where
  parents : ∀ {id parent}, region id → s.parent? id = some parent → region parent
  captured : ∀ {id name b scope}, region id → s.own? id name = some b → b.value.Captures scope → region scope

theorem Reaches.within (reaches : s.Reaches id other) (closed : s.Closed region) (inside : region id) :
    region other := by
  induction reaches with
  | self => exact inside
  | around lies _ inductionHypothesis => exact inductionHypothesis (closed.parents inside lies)
  | captured own captures _ inductionHypothesis =>
      exact inductionHypothesis (closed.captured inside own captures)

theorem Reaches.trans {last : ScopeId} (first : s.Reaches id other) (second : s.Reaches other last) :
    s.Reaches id last := by
  induction first with
  | self => exact second
  | around lies _ inductionHypothesis => exact .around lies (inductionHypothesis second)
  | captured own captures _ inductionHypothesis => exact .captured own captures (inductionHypothesis second)

/-- What a scope reaches is the least closed region around it. -/
theorem closed_reaches (s : Store) (id : ScopeId) : s.Closed (s.Reaches id) where
  parents reaches lies := reaches.trans (.around lies (.self _))
  captured reaches own captures := reaches.trans (.captured own captures (.self _))

namespace Closed

/-- Looking outward for a name stays in the region. -/
theorem owner_of_findWithin (closed : s.Closed region) (steps : Nat) : ∀ {id : ScopeId}, region id →
    s.findWithin name steps id = some (owner, b) → region owner := by
  induction steps with
  | zero =>
      intro id _ found
      cases found
  | succ steps inductionHypothesis =>
      intro id inside found
      unfold findWithin at found
      split at found
      · cases found
        exact inside
      · split at found
        · rename_i parent lies
          exact inductionHypothesis (closed.parents inside lies) found
        · cases found

theorem setOwn (closed : s.Closed region) (captures : ∀ scope, b.value.Captures scope → region scope) :
    (s.setOwn owner name b).Closed region where
  parents inside lies := closed.parents inside (by rwa [parent?_setOwn] at lies)
  captured := by
    intro id asked held scope inside own capturesScope
    rw [own?_setOwn] at own
    split at own
    · cases own
      exact captures scope capturesScope
    · exact closed.captured inside own capturesScope

/-- A region whose scopes are as they were is closed if it was. -/
theorem unchanged (closed : s.Closed region) (same : ∀ id, region id → s'.scopes[id]? = s.scopes[id]?) :
    s'.Closed region where
  parents inside lies := by
    unfold parent? at lies
    rw [same _ inside] at lies
    exact closed.parents inside lies
  captured inside own captures := by
    unfold own? at own
    rw [same _ inside] at own
    exact closed.captured inside own captures

end Closed

/-!
### Confinement

Some scopes of a store are `outside`; all others, those that will be made included, are free.
-/

/-- The scopes of a store that are not outside. -/
def Free (s : Store) (outside : ScopeId → Prop) (id : ScopeId) : Prop :=
  id < s.scopes.size ∧ ¬outside id

/-- Free scopes do not lead outside. -/
structure Confined (s : Store) (outside : ScopeId → Prop) : Prop where
  known : ∀ id, outside id → id < s.scopes.size
  closed : s.Closed (s.Free outside)

/-- The scopes outside are as they were. -/
structure Spares (outside : ScopeId → Prop) (s s' : Store) : Prop where
  grows : s.scopes.size ≤ s'.scopes.size
  same : ∀ id, outside id → s'.scopes[id]? = s.scopes[id]?

theorem Spares.refl (s : Store) : Spares outside s s :=
  ⟨Nat.le_refl _, fun _ _ => rfl⟩

theorem Spares.trans {s'' : Store} (first : Spares outside s s') (second : Spares outside s' s'') :
    Spares outside s s'' :=
  ⟨Nat.le_trans first.grows second.grows,
    fun id isOutside => (second.same id isOutside).trans (first.same id isOutside)⟩

theorem Free.later (free : s.Free outside id) (spares : Spares outside s s') : s'.Free outside id :=
  ⟨Nat.lt_of_lt_of_le free.1 spares.grows, free.2⟩

namespace Confined

variable (confined : s.Confined outside)

include confined

theorem spares_newScope (parent : Option ScopeId) : Spares outside s (s.newScope parent).2 where
  grows := by simp
  same id isOutside := by
    simp [Store.newScope, Array.getElem?_push, Nat.ne_of_lt (confined.known id isOutside)]

/-- A scope that is made inside a free one is free. -/
theorem newScope {parent : ScopeId} (free : s.Free outside parent) :
    (s.newScope (some parent)).2.Confined outside := by
  have spares := confined.spares_newScope (some parent)
  refine ⟨fun id isOutside => Nat.lt_of_lt_of_le (confined.known id isOutside) spares.grows, ?_, ?_⟩
  · intro id around inside lies
    rw [parent?_newScope] at lies
    split at lies
    · cases lies
      exact free.later spares
    · exact (confined.closed.parents ⟨lt_size_of_parent? lies, inside.2⟩ lies).later spares
  · intro id name b scope inside own captures
    rw [own?_newScope] at own
    exact (confined.closed.captured ⟨lt_size_of_own? own, inside.2⟩ own captures).later spares

omit confined in
theorem spares_setOwn (free : s.Free outside owner) : Spares outside s (s.setOwn owner name b) where
  grows := by simp
  same id isOutside := by
    refine scopes_setOwn_of_ne ?_
    rintro rfl
    exact free.2 isOutside

theorem setOwn (captures : ∀ scope, b.value.Captures scope → s.Free outside scope) :
    (s.setOwn owner name b).Confined outside := by
  have same : (s.setOwn owner name b).Free outside = s.Free outside := by
    funext id
    rw [Free, size_setOwn, Free]
  refine ⟨fun id isOutside => by rw [size_setOwn]; exact confined.known id isOutside, ?_⟩
  rw [same]
  exact confined.closed.setOwn captures

/-- A name that is assigned is a free scope's. -/
theorem free_of_placeToAssign (free : s.Free outside id) (place : s.placeToAssign id name = .ok owner) :
    s.Free outside owner := by
  unfold placeToAssign at place
  split at place
  · cases place
  · cases place
  · rename_i found
    cases place
    exact confined.closed.owner_of_findWithin _ free found

end Confined

end Store

/-!
### The discipline
-/

/-- Code runs in free scopes: it makes scopes, binds names and hands values around without getting outside. -/
def confinement (outside : ScopeId → Prop) : Discipline where
  sound m := m.store.Confined outside
  later m m' := Store.Spares outside m.store m'.store
  good m v := ∀ scope, v.Captures scope → m.store.Free outside scope
  runs m scope := m.store.Free outside scope
  encloses m scope := m.store.Free outside scope
  later_refl m := .refl m.store
  later_trans first second := first.trans second
  good_later later good scope captures := (good scope captures).later later
  runs_later later runs := runs.later later
  encloses_later later encloses := encloses.later later
  encloses_of_runs runs := runs
  good_atomic := by
    intro m v atomic scope captures
    cases captures <;> cases atomic
  good_quote e scope captures := by cases captures
  good_returned good scope captures := good scope (.returned captures)
  good_function encloses scope captures := by
    cases captures
    exact encloses
  encloses_function good := good _ (.function _)
  good_macro encloses scope captures := by
    cases captures
    exact encloses
  encloses_macro good := good _ (.macroValue _)
  good_array := by
    intro m items
    constructor
    · intro good v member scope captures
      exact good scope (.item member captures)
    · rintro good scope (_ | _ | ⟨member, captures⟩)
      exact good _ member scope captures
  good_hash_nil scope captures := by
    rcases captures with _ | _ | _ | ⟨member, _⟩ | ⟨member, _⟩
    · cases member
    · cases member
  good_hash_set := by
    rintro m entries k key value among _ goodKey goodValue scope (_ | _ | _ | ⟨member, captures⟩ | ⟨member, captures⟩)
    · rcases Assoc.mem_set member with rfl | old
      · exact goodKey scope captures
      · exact among scope (.key old captures)
    · rcases Assoc.mem_set member with rfl | old
      · exact goodValue scope captures
      · exact among scope (.entry old captures)
  good_hash_entry among member :=
    ⟨fun scope captures => among scope (.key member captures), fun scope captures => among scope (.entry member captures)⟩
  good_get := by
    intro m scope name v confined free found captured captures
    obtain ⟨⟨owner, b⟩, within, rfl⟩ := Option.map_eq_some_iff.1 found
    have inside := confined.closed.owner_of_findWithin _ free within
    exact confined.closed.captured inside (Store.own?_of_findWithin _ within) captures
  newScope := by
    intro m parent confined free
    refine ⟨confined.newScope free, confined.spares_newScope _, by simp, fun isOutside => ?_⟩
    -- everything outside was there before, so the new number is not outside
    exact Nat.lt_irrefl _ (confined.known _ isOutside)
  define := by
    intro m scope name v owner constant confined free good place
    obtain ⟨rfl, _⟩ := Store.placeToDefine_eq_ok place
    exact ⟨confined.setOwn good, Store.Confined.spares_setOwn free⟩
  assign := by
    intro m scope name v owner confined free good place
    have freeOwner := confined.free_of_placeToAssign free place
    exact ⟨confined.setOwn good, Store.Confined.spares_setOwn freeOwner⟩
  fresh confined := ⟨confined, .refl _⟩
  print _ confined := ⟨confined, .refl _⟩

/-!
### Two sides
-/

namespace Store

variable {s s' : Store} {a b id : ScopeId}

/-- The scopes that cannot be reached from a scope. -/
def Beyond (s : Store) (a id : ScopeId) : Prop :=
  id < s.scopes.size ∧ ¬s.Reaches a id

/-- No scope can be reached from both, and what can be reached is there. -/
structure Separate (s : Store) (a b : ScopeId) : Prop where
  disjoint : ∀ id, s.Reaches a id → ¬s.Reaches b id
  knownLeft : ∀ id, s.Reaches a id → id < s.scopes.size
  knownRight : ∀ id, s.Reaches b id → id < s.scopes.size

namespace Separate

variable (separate : s.Separate a b)

include separate

theorem symm : s.Separate b a :=
  ⟨fun id right left => separate.disjoint id left right, separate.knownRight, separate.knownLeft⟩

theorem free_of_reaches (reaches : s.Reaches a id) : s.Free (s.Beyond a) id :=
  ⟨separate.knownLeft id reaches, fun beyond => beyond.2 reaches⟩

theorem confined : s.Confined (s.Beyond a) := by
  have reaches_of_free : ∀ {id}, s.Free (s.Beyond a) id → s.Reaches a id := by
    intro id free
    exact Classical.byContradiction fun isBeyond => free.2 ⟨free.1, isBeyond⟩
  have closed := s.closed_reaches a
  refine ⟨fun id beyond => beyond.1, ?_, ?_⟩
  · intro id parent free lies
    exact separate.free_of_reaches (closed.parents (reaches_of_free free) lies)
  · intro id name held scope free own captures
    exact separate.free_of_reaches (closed.captured (reaches_of_free free) own captures)

/-- What runs on one side leaves the other side as it was, and the sides stay apart. -/
theorem later (confined' : s'.Confined (s.Beyond a)) (spares : Spares (s.Beyond a) s s') :
    s'.Separate a b ∧ ∀ id, s.Reaches b id → s'.scopes[id]? = s.scopes[id]? := by
  have beyond : ∀ id, s.Reaches b id → s.Beyond a id := fun id right =>
    ⟨separate.knownRight id right, fun left => separate.disjoint id left right⟩
  have same : ∀ id, s.Reaches b id → s'.scopes[id]? = s.scopes[id]? := fun id right =>
    spares.same id (beyond id right)
  -- nothing that `b` reached has changed, so it reaches nothing new
  have right : ∀ id, s'.Reaches b id → s.Reaches b id := fun id reaches =>
    reaches.within ((s.closed_reaches b).unchanged same) (.self b)
  -- `a` may reach more than before, but only what was made since
  have left : ∀ id, s'.Reaches a id → s'.Free (s.Beyond a) id := fun id reaches =>
    reaches.within confined'.closed ((separate.free_of_reaches (.self a)).later spares)
  refine ⟨⟨?_, fun id reaches => (left id reaches).1, ?_⟩, same⟩
  · intro id fromLeft fromRight
    exact (left id fromLeft).2 (beyond id (right id fromRight))
  · intro id fromRight
    exact Nat.lt_of_lt_of_le (separate.knownRight id (right id fromRight)) spares.grows

end Separate

end Store

/-- A computation that keeps to one side leaves the other side as it was, and the sides stay apart. -/
theorem Discipline.Alike.separate {α : Type} {m : Machine} {a b : ScopeId} {p p' : Eval α}
    {post : Machine → α → Prop} (separate : m.store.Separate a b)
    (alike : (confinement (m.store.Beyond a)).Alike m p p' post) :
    (p m).2.store.Separate a b ∧ ∀ id, m.store.Reaches b id → (p m).2.store.scopes[id]? = m.store.scopes[id]? :=
  separate.later alike.sound alike.later

/-!
### Sessions
-/

namespace Session

variable {s : Session}

/-- The states that a session passes through, after texts and between the phases of running one: it defines
    macros, expands programs and runs programs, whatever they are and however that ends. -/
inductive Passed : Session → Prop where
  | start (sink : Sink) : Passed (Session.start sink)
  | defined {s : Session} (ss : List Stmt) (passed : Passed s) :
      Passed (s.continued (defineMacros s.macros ss s.machine).2)
  | expanded {s : Session} (bound : Nat) (p : Program) (passed : Passed s) :
      Passed (s.continued (expandMacros bound s.macros p s.machine).2)
  | ran {s : Session} (bound : Nat) (p : Program) (passed : Passed s) :
      Passed (s.continued (evalProgram bound p s.globals s.machine).2)
  | text {s : Session} (bound : Nat) (source : String) (passed : Passed s) : Passed (s.eval bound source).2

/-- The scope of programs and the scope of macros are separate. -/
def Parted (s : Session) : Prop :=
  s.machine.store.Separate s.globals s.macros

/-- Two scopes that bind nothing and lie in no scope reach only themselves. -/
theorem start_parted (sink : Sink) : (Session.start sink).Parted := by
  have closed : ∀ id, (Session.start sink).machine.store.Closed (· = id) := by
    intro id
    refine ⟨?_, ?_⟩
    · intro inner parent _ lies
      simp only [Session.start, Store.parent?_newScope] at lies
      simp [Store.parent?, Store.empty] at lies
    · intro inner name b scope _ own _
      simp only [Session.start, Store.own?_newScope] at own
      simp [Store.own?, Store.empty] at own
  have alone : ∀ {id other}, (Session.start sink).machine.store.Reaches id other → other = id :=
    fun reaches => reaches.within (closed _) rfl
  refine ⟨fun id left right => ?_, fun id left => ?_, fun id right => ?_⟩
  · cases (alone left).symm.trans (alone right)
  · rw [alone left]
    exact Nat.zero_lt_two
  · rw [alone right]
    exact Nat.one_lt_two

theorem Parted.defineMacros (parted : s.Parted) (ss : List Stmt) :
    (s.continued (defineMacros s.macros ss s.machine).2).Parted ∧
      ∀ id, s.machine.store.Reaches s.globals id →
        (defineMacros s.macros ss s.machine).2.store.scopes[id]? = s.machine.store.scopes[id]? := by
  have separate := Store.Separate.symm parted
  have alike := (confinement (s.machine.store.Beyond s.macros)).defineMacros_alike ss separate.confined
    (separate.free_of_reaches (.self s.macros))
  obtain ⟨separate', same⟩ := alike.separate separate
  exact ⟨separate'.symm, same⟩

theorem Parted.expandMacros (parted : s.Parted) (bound : Nat) (p : Program) :
    (s.continued (expandMacros bound s.macros p s.machine).2).Parted ∧
      ∀ id, s.machine.store.Reaches s.globals id →
        (expandMacros bound s.macros p s.machine).2.store.scopes[id]? = s.machine.store.scopes[id]? := by
  have separate := Store.Separate.symm parted
  have evaluates : (confinement (s.machine.store.Beyond s.macros)).Evaluates (evalExpr bound) (evalExpr bound) :=
    Discipline.evalExpr_alike bound
  have alike := Discipline.expandMacrosBy_alike evaluates p separate.confined
    (separate.free_of_reaches (.self s.macros))
  obtain ⟨separate', same⟩ := alike.separate separate
  exact ⟨separate'.symm, same⟩

theorem Parted.evalProgram (parted : s.Parted) (bound : Nat) (p : Program) :
    (s.continued (evalProgram bound p s.globals s.machine).2).Parted ∧
      ∀ id, s.machine.store.Reaches s.macros id →
        (evalProgram bound p s.globals s.machine).2.store.scopes[id]? = s.machine.store.scopes[id]? := by
  have evaluates : (confinement (s.machine.store.Beyond s.globals)).Evaluates (evalExpr bound) (evalExpr bound) :=
    Discipline.evalExpr_alike bound
  have alike := Discipline.evalProgramBy_alike evaluates p (Store.Separate.confined parted)
    (Store.Separate.free_of_reaches parted (.self s.globals))
  exact alike.separate parted

/-- A text that can be read ends where one of its phases ends: the first one that stops, or the last one. -/
theorem Parted.runProgram (parted : s.Parted) (bound : Nat) (p : Program) :
    (s.continued (runProgram (evalExpr bound) s.globals s.macros p s.machine).2).Parted := by
  have defined := (parted.defineMacros p.statements).1
  rcases define : Quill.defineMacros s.macros p.statements s.machine with ⟨stop | kept, m⟩
  · have ends : Session.runProgram (evalExpr bound) s.globals s.macros p s.machine = (.error stop, m) :=
      Eval.bind_of_error define
    rw [define] at defined
    rw [ends]
    exact defined
  have expanded := (defined.expandMacros bound ⟨kept⟩).1
  simp only [continued, define] at expanded
  rcases expand : Quill.expandMacros bound s.macros ⟨kept⟩ m with ⟨stop | rest, m'⟩
  · have ends : Session.runProgram (evalExpr bound) s.globals s.macros p s.machine = (.error stop, m') :=
      (Eval.bind_of_ok define).trans (Eval.bind_of_error expand)
    rw [expand] at expanded
    rw [ends]
    exact expanded
  have ran := (expanded.evalProgram bound rest).1
  simp only [continued, expand] at ran
  have ends : Session.runProgram (evalExpr bound) s.globals s.macros p s.machine =
      Quill.evalProgram bound rest s.globals m' :=
    (Eval.bind_of_ok define).trans (Eval.bind_of_ok expand)
  rw [ends]
  exact ran

theorem Parted.eval (parted : s.Parted) (bound : Nat) (source : String) : (s.eval bound source).2.Parted := by
  by_cases readable : (parse source).diagnostics = []
  · rw [eval_of_readable s bound readable]
    exact parted.runProgram bound _
  · rw [eval_of_unreadable s bound readable]
    exact parted

theorem Passed.parted (passed : s.Passed) : s.Parted := by
  induction passed with
  | start sink => exact start_parted sink
  | defined ss _ inductionHypothesis => exact (inductionHypothesis.defineMacros ss).1
  | expanded bound p _ inductionHypothesis => exact (inductionHypothesis.expandMacros bound p).1
  | ran bound p _ inductionHypothesis => exact (inductionHypothesis.evalProgram bound p).1
  | text bound source _ inductionHypothesis => exact inductionHypothesis.eval bound source

theorem Reachable.passed (reachable : s.Reachable) : s.Passed := by
  induction reachable with
  | start sink => exact .start sink
  | step bound source _ inductionHypothesis => exact .text bound source inductionHypothesis

end Session

/-!
### Main result
-/

/-- Whichever phase comes next, it leaves the scopes of the other side exactly as they are. -/
structure Session.Apart (s : Session) : Prop where
  disjoint : ∀ id, s.machine.store.Reaches s.globals id → ¬s.machine.store.Reaches s.macros id
  /-- only scopes that were made can be reached -/
  made : ∀ id, s.machine.store.Reaches s.globals id ∨ s.machine.store.Reaches s.macros id →
    id < s.machine.store.scopes.size
  defining : ∀ ss id, s.machine.store.Reaches s.globals id →
    (defineMacros s.macros ss s.machine).2.store.scopes[id]? = s.machine.store.scopes[id]?
  expanding : ∀ bound p id, s.machine.store.Reaches s.globals id →
    (expandMacros bound s.macros p s.machine).2.store.scopes[id]? = s.machine.store.scopes[id]?
  running : ∀ bound p id, s.machine.store.Reaches s.macros id →
    (evalProgram bound p s.globals s.machine).2.store.scopes[id]? = s.machine.store.scopes[id]?

/-- The macros of a session and its programs cannot touch each other's scopes. -/
theorem phases_apart {s : Session} (passed : s.Passed) : s.Apart where
  disjoint := passed.parted.disjoint
  made id reached := reached.elim (passed.parted.knownLeft id) (passed.parted.knownRight id)
  defining ss := (passed.parted.defineMacros ss).2
  expanding bound p := (passed.parted.expandMacros bound p).2
  running bound p := (passed.parted.evalProgram bound p).2

/-- Both sides have grown: a macro gave another name of the macros a function that closes over the scope of its
    call, and the program keeps a function that closes over the scope of a call. -/
theorem phases_apart_after_macro_call :
    ((Session.start .unlimited).eval 40
      "let k = macro() { quote(0) }; let m = macro(x) { k = fn() { x }; quote(unquote(x)) };
       let g = fn(y) { fn() { y } }; let h = m(g(1));").2.Apart :=
  phases_apart (.text 40 _ (.start .unlimited))

end Quill
