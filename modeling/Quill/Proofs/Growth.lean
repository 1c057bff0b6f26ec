/-
Module: Quill.Proofs.Growth
Layer: Proofs
Purpose: Stores only grow. Whatever is done to a machine, by operations on its scopes or by running code in
  them, every scope stays where it lies, every name that it binds stays bound, and every constant keeps its
  value. Since a scope is made inside an older one, the scopes around a scope can be counted and none of them
  lies around itself.
Main exports: Store.Grows, Store.Nested, Store.Chain, Value.within, growth, Machine.Step, Machine.Leads,
  Machine.Built, store_grows_of_leads
-/
import Quill.Proofs.Store
import Quill.Proofs.Value
import Quill.Proofs.Discipline.Stored
import Quill.Proofs.Discipline.Evaluation

namespace Quill

namespace Store

variable {s s' s'' : Store} {id owner : ScopeId} {name : String} {b : Binding}

/-!
### Growing
-/

/-- One store comes from another: the scopes that there are lie where they lay, bind the names that they bound
    and hold the constants that they held. -/
structure Grows (s s' : Store) : Prop where
  scopes : s.scopes.size ≤ s'.scopes.size
  parents : ∀ id < s.scopes.size, s'.parent? id = s.parent? id
  names : ∀ id name, (s.own? id name).isSome = true → (s'.own? id name).isSome = true
  constants : ∀ id name v, s.own? id name = some ⟨v, true⟩ → s'.own? id name = some ⟨v, true⟩

namespace Grows

theorem refl (s : Store) : s.Grows s :=
  ⟨Nat.le_refl _, fun _ _ => rfl, fun _ _ bound => bound, fun _ _ _ held => held⟩

theorem trans (first : s.Grows s') (second : s'.Grows s'') : s.Grows s'' where
  scopes := Nat.le_trans first.scopes second.scopes
  parents id inside :=
    (second.parents id (Nat.lt_of_lt_of_le inside first.scopes)).trans (first.parents id inside)
  names id name bound := second.names id name (first.names id name bound)
  constants id name v held := second.constants id name v (first.constants id name v held)

theorem newScope (s : Store) (parent : Option ScopeId) : s.Grows (s.newScope parent).2 where
  scopes := by simp
  parents id inside := by rw [parent?_newScope, if_neg (Nat.ne_of_lt inside)]
  names id name bound := by rwa [own?_newScope]
  constants id name v held := by rwa [own?_newScope]

/-- Setting a binding only changes what is no constant. -/
theorem setOwn (notConstant : ∀ v, s.own? owner name ≠ some ⟨v, true⟩) (b : Binding) :
    s.Grows (s.setOwn owner name b) where
  scopes := by simp
  parents id _ := by simp
  names id asked bound := by
    rw [own?_setOwn]
    split
    · rfl
    · exact bound
  constants id asked v held := by
    rw [own?_setOwn_of_ne]
    · exact held
    · by_cases isOwner : id = owner
      · subst isOwner
        refine .inr ?_
        rintro rfl
        exact notConstant v held
      · exact .inl isOwner

end Grows

/-!
### Nesting
-/

/-- Every scope lies inside an older one, if it lies inside one at all. -/
def Nested (s : Store) : Prop :=
  ∀ id parent, s.parent? id = some parent → parent < id

/-- A scope and the scopes around it, from the inside to the outside. -/
inductive Chain (s : Store) : ScopeId → List ScopeId → Prop where
  | outermost {id : ScopeId} (isRoot : s.parent? id = none) : Chain s id [id]
  | inside {id parent : ScopeId} {around : List ScopeId} (lies : s.parent? id = some parent)
      (others : Chain s parent around) : Chain s id (id :: around)

/-- The scopes around every scope are finitely many, and each of them is met once. -/
def Founded (s : Store) : Prop :=
  ∀ id, ∃ chain, s.Chain id chain ∧ chain.Nodup

theorem Chain.le_of_mem (nested : s.Nested) {chain : List ScopeId} (isChain : s.Chain id chain) :
    ∀ other ∈ chain, other ≤ id := by
  induction isChain with
  | outermost _ => simp
  | @inside id parent around lies _ inductionHypothesis =>
      intro other member
      rcases List.mem_cons.1 member with rfl | isAround
      · exact Nat.le_refl _
      · exact Nat.le_of_lt (Nat.lt_of_le_of_lt (inductionHypothesis other isAround) (nested id parent lies))

/-- The induction is on the number of the scope, which is smaller for the scope around it. -/
theorem Nested.founded (nested : s.Nested) : s.Founded := by
  intro id
  induction id using Nat.strongRecOn with
  | ind id inductionHypothesis =>
      cases lies : s.parent? id with
      | none => exact ⟨[id], .outermost lies, by simp⟩
      | some parent =>
          have older := nested id parent lies
          obtain ⟨around, isChain, distinct⟩ := inductionHypothesis parent older
          refine ⟨id :: around, .inside lies isChain, List.nodup_cons.2 ⟨?_, distinct⟩⟩
          intro member
          exact Nat.not_lt_of_le (isChain.le_of_mem nested id member) older

theorem Nested.newScope (nested : s.Nested) {parent : Option ScopeId}
    (known : ∀ id ∈ parent, id < s.scopes.size) : (s.newScope parent).2.Nested := by
  intro id around lies
  rw [parent?_newScope] at lies
  split at lies
  · rename_i isNew
    rw [isNew]
    exact known around lies
  · exact nested id around lies

theorem Nested.setOwn (nested : s.Nested) : (s.setOwn owner name b).Nested := by
  intro id parent lies
  rw [parent?_setOwn] at lies
  exact nested id parent lies

end Store

/-!
### Values of a store
-/

/-- The scope that a function or a macro closes over. -/
def Value.scope? : Value → Option ScopeId
  | .function c => some c.scope
  | .macroValue c => some c.scope
  | _ => none

/-- Whether the functions and macros in a value close over scopes with numbers below `count`. -/
def Value.within (count : Nat) (v : Value) : Bool :=
  v.everywhere fun part => part.scope?.all fun scope => scope < count

theorem Value.within_mono {count more : Nat} {v : Value} (fewer : count ≤ more)
    (within : v.within count = true) : v.within more = true := by
  refine v.everywhere_mono ?_ within
  intro part below
  rw [Option.all_eq_true] at below ⊢
  intro scope isScope
  have inside := of_decide_eq_true (below scope isScope)
  exact decide_eq_true (Nat.lt_of_lt_of_le inside fewer)

/-- A store in which scopes are nested and stored values belong. -/
structure Store.Coherent (s : Store) : Prop where
  nested : s.Nested
  stored : ∀ b, s.Binds b → b.value.within s.scopes.size = true

namespace Store.Coherent

variable {s : Store}

theorem newScope (coherent : s.Coherent) {parent : Option ScopeId}
    (known : ∀ id ∈ parent, id < s.scopes.size) : (s.newScope parent).2.Coherent where
  nested := coherent.nested.newScope known
  stored b binds := by
    rw [size_newScope]
    exact Value.within_mono (Nat.le_succ _) (coherent.stored b (binds_newScope binds))

theorem setOwn (coherent : s.Coherent) {owner : ScopeId} {name : String} {b : Binding}
    (within : b.value.within s.scopes.size = true) : (s.setOwn owner name b).Coherent where
  nested := coherent.nested.setOwn
  stored other binds := by
    rw [size_setOwn]
    rcases binds_setOwn binds with rfl | old
    · exact within
    · exact coherent.stored other old

end Store.Coherent

/-- The discipline of stores that grow: code runs in scopes of the store, and values belong to it. -/
def growth : Discipline where
  sound m := m.store.Coherent
  later m m' := m.store.Grows m'.store
  good m v := v.within m.store.scopes.size = true
  runs m scope := scope < m.store.scopes.size
  encloses m scope := scope < m.store.scopes.size
  later_refl m := .refl m.store
  later_trans first second := first.trans second
  good_later later good := Value.within_mono later.scopes good
  runs_later later runs := Nat.lt_of_lt_of_le runs later.scopes
  encloses_later later encloses := Nat.lt_of_lt_of_le encloses later.scopes
  encloses_of_runs runs := runs
  good_atomic := by
    intro m v atomic
    cases v <;> first | rfl | cases atomic
  good_quote _ := rfl
  good_returned good := by
    simp only [Value.within, Value.everywhere, Bool.and_eq_true] at good
    exact good.2
  good_function encloses := decide_eq_true encloses
  encloses_function good := of_decide_eq_true good
  good_macro encloses := decide_eq_true encloses
  encloses_macro good := of_decide_eq_true good
  good_array := everywhereIn_iff _
  good_hash_nil := rfl
  good_hash_set among _ ofKey ofValue := everywhereAmong_set among ofKey ofValue
  good_hash_entry among member := (everywhereAmong_iff _).1 among _ member
  good_get coherent _ found := by
    obtain ⟨b, binds, rfl⟩ := Store.binds_of_get found
    exact coherent.stored b binds
  newScope coherent encloses := by
    refine ⟨coherent.newScope ?_, .newScope _ _, ?_⟩
    · rintro id ⟨⟩
      exact encloses
    · simp
  define constant coherent _ good place := by
    obtain ⟨rfl, notConstant⟩ := Store.placeToDefine_eq_ok place
    exact ⟨coherent.setOwn good, .setOwn notConstant _⟩
  assign coherent _ good place := by
    obtain ⟨v, held⟩ := Store.placeToAssign_eq_ok place
    exact ⟨coherent.setOwn good, .setOwn (by simp [held]) _⟩
  fresh coherent := ⟨coherent, .refl _⟩
  print _ coherent := ⟨coherent, .refl _⟩

/-!
### What can be done to a machine
-/

namespace Machine

/-- One operation on the scopes of a machine, or one run of code in them, however it ends. Scopes and values
    that are handed in belong to the machine. -/
inductive Step : Machine → Machine → Prop where
  | newScope {m : Machine} (parent : Option ScopeId) (known : ∀ id ∈ parent, id < m.store.scopes.size) :
      Step m { m with store := (m.store.newScope parent).2 }
  | define {m : Machine} {store : Store} (id : ScopeId) (name : String) (b : Binding)
      (within : b.value.within m.store.scopes.size = true) (done : m.store.define id name b = .ok store) :
      Step m { m with store := store }
  | assign {m : Machine} {store : Store} (id : ScopeId) (name : String) (v : Value)
      (within : v.within m.store.scopes.size = true) (done : m.store.assign id name v = .ok store) :
      Step m { m with store := store }
  | expr {m : Machine} (bound : Nat) (e : Expr) (scope : ScopeId) (known : scope < m.store.scopes.size) :
      Step m (evalExpr bound e scope m).2
  | stmt {m : Machine} (bound : Nat) (s : Stmt) (scope : ScopeId) (known : scope < m.store.scopes.size) :
      Step m (evalStmt (evalExpr bound) scope s m).2
  | block {m : Machine} (bound : Nat) (b : Block) (scope : ScopeId) (known : scope < m.store.scopes.size) :
      Step m (evalBlock (evalExpr bound) scope b m).2
  | program {m : Machine} (bound : Nat) (p : Program) (scope : ScopeId)
      (known : scope < m.store.scopes.size) : Step m (evalProgram bound p scope m).2
  | call {m : Machine} (bound : Nat) (f : Value) (args : List Value)
      (within : f.within m.store.scopes.size = true)
      (withinArgs : ∀ v ∈ args, v.within m.store.scopes.size = true) : Step m (callValue bound f args m).2
  | defineMacros {m : Machine} (macros : ScopeId) (ss : List Stmt) (known : macros < m.store.scopes.size) :
      Step m (defineMacros macros ss m).2
  | expandMacros {m : Machine} (bound : Nat) (macros : ScopeId) (p : Program)
      (known : macros < m.store.scopes.size) : Step m (expandMacros bound macros p m).2

/-- Any number of steps. -/
inductive Leads : Machine → Machine → Prop where
  | refl (m : Machine) : Leads m m
  | step {m m' m'' : Machine} (first : Leads m m') (next : Step m' m'') : Leads m m''

/-- A machine that was made from one without scopes. -/
def Built (m : Machine) : Prop :=
  ∃ sink, Leads (Machine.start sink) m

variable {m m' : Machine}

/-- One step keeps a store coherent and makes it grow. -/
theorem Step.keeps (step : m.Step m') (coherent : m.store.Coherent) :
    m'.store.Coherent ∧ m.store.Grows m'.store := by
  have evaluates : ∀ bound, growth.Evaluates (evalExpr bound) (evalExpr bound) := Discipline.evalExpr_alike
  cases step with
  | newScope parent known => exact ⟨coherent.newScope known, .newScope _ _⟩
  | define id name b within done =>
      obtain ⟨rfl, notConstant⟩ := Store.define_eq_ok done
      exact ⟨coherent.setOwn within, .setOwn notConstant _⟩
  | assign id name v within done =>
      obtain ⟨owner, old, rfl, held⟩ := Store.assign_eq_ok done
      exact ⟨coherent.setOwn within, .setOwn (by simp [held]) _⟩
  | expr bound e scope known =>
      have alike : growth.Alike m (evalExpr bound e scope) (evalExpr bound e scope) _ :=
        evaluates bound coherent known
      exact ⟨alike.sound, alike.later⟩
  | stmt bound s scope known =>
      have alike := Discipline.evalStmt_alike (evaluates bound) s coherent known
      exact ⟨alike.sound, alike.later⟩
  | block bound b scope known =>
      have alike := Discipline.evalBlock_alike (evaluates bound) b coherent known
      exact ⟨alike.sound, alike.later⟩
  | program bound p scope known =>
      have alike := Discipline.evalProgramBy_alike (evaluates bound) p coherent known
      exact ⟨alike.sound, alike.later⟩
  | call bound f args within withinArgs =>
      have alike := Discipline.applyValue_alike (evaluates bound) coherent within withinArgs
      exact ⟨alike.sound, alike.later⟩
  | defineMacros macros ss known =>
      have alike := growth.defineMacros_alike ss coherent known
      exact ⟨alike.sound, alike.later⟩
  | expandMacros bound macros p known =>
      have alike := Discipline.expandMacrosBy_alike (evaluates bound) p coherent known
      exact ⟨alike.sound, alike.later⟩

theorem Leads.keeps (leads : m.Leads m') (coherent : m.store.Coherent) :
    m'.store.Coherent ∧ m.store.Grows m'.store := by
  induction leads with
  | refl => exact ⟨coherent, .refl _⟩
  | step _ next inductionHypothesis =>
      obtain ⟨reached, grown⟩ := inductionHypothesis
      obtain ⟨coherent', grows⟩ := next.keeps reached
      exact ⟨coherent', grown.trans grows⟩

theorem Built.coherent (built : m.Built) : m.store.Coherent := by
  obtain ⟨sink, leads⟩ := built
  refine (leads.keeps ⟨?_, ?_⟩).1
  · intro id parent lies
    cases Store.lt_size_of_parent? lies
  · rintro b ⟨scope, inStore, _⟩
    simp [Machine.start, Store.empty] at inStore

end Machine

/-- Constants are constant and scopes only grow: whatever is done to a machine that was built by operations on
    scopes and by running code, the scopes that there were keep their place, their names and their constants,
    and the scopes around every scope stay finitely many and distinct. -/
theorem store_grows_of_leads {m m' : Machine} (built : m.Built) (leads : m.Leads m') :
    m.store.Grows m'.store ∧ m'.store.Founded := by
  obtain ⟨coherent, grows⟩ := leads.keeps built.coherent
  exact ⟨grows, coherent.nested.founded⟩

/-- A program that calls a function to assign a constant fails, and the constant keeps its value. -/
theorem store_grows_of_leads_to_refused_assignment :
    let assigns : Expr := .function none [] [.assign "c" (.integer 2)]
    let m : Machine := (evalStmt (evalExpr 1) 0 (.bindConst "c" (.integer 1))
      { Machine.start Sink.unlimited with store := (Store.empty.newScope none).2 }).2
    let m' : Machine := (evalProgram 3 ⟨[.expr (.call assigns [])]⟩ 0 m).2
    m.store.own? 0 "c" = some ⟨.integer 1, true⟩ ∧
      (evalProgram 3 ⟨[.expr (.call assigns [])]⟩ 0 m).1 = .ok (.error (.constant "c")) ∧
        m.store.Grows m'.store ∧ m'.store.Founded := by
  intro assigns m m'
  have withScope : (Machine.start Sink.unlimited).Leads
      { Machine.start Sink.unlimited with store := (Store.empty.newScope none).2 } :=
    .step (.refl _) (.newScope none (by simp))
  have built : m.Built := ⟨Sink.unlimited, .step withScope (.stmt 1 _ 0 (by decide))⟩
  have leads : m.Leads m' := .step (.refl m) (.program 3 _ 0 (by decide))
  exact ⟨rfl, rfl, store_grows_of_leads built leads⟩

end Quill
