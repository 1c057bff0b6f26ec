/-
Module: Quill.Proofs.Store.Flat
Layer: Proofs
Purpose: Scopes as one flat map. The reference model of a store has a single map, from a scope and a name to a
  binding, and the list of scopes that are visible from each scope, nearest first. Whatever is asked of the
  scopes of a machine, one request after another, the answers are those of the model.
Main exports: Store.Request, Store.Requests, Store.Answer, Machine.perform, FlatStore, FlatStore.perform,
  answers_eq_flat
-/
import Mathlib.Data.Finmap
import Mathlib.Data.Finset.Sort
import Mathlib.Data.String.Basic
import Quill.Proofs.Growth

namespace Quill

/-!
### Requests
-/

namespace Store

/-- Something that is asked of scopes, of which there are `count`. -/
inductive Request (count : Nat) where
  | new
  | enclosed (parent : Fin count)
  | define (scope : Fin count) (name : String) (value : Value)
  | defineConst (scope : Fin count) (name : String) (value : Value)
  | assign (scope : Fin count) (name : String) (value : Value)
  | get (scope : Fin count) (name : String)
  | names (scope : Fin count)

/-- How many scopes a request makes. -/
def Request.made {count : Nat} : Request count → Nat
  | new | enclosed _ => 1
  | _ => 0

/-- Requests one after another, each about the scopes that there are by then. -/
inductive Requests : (count : Nat) → Type where
  | done {count : Nat} : Requests count
  | step {count : Nat} (request : Request count) (others : Requests (count + request.made)) : Requests count

/-- What comes back. -/
inductive Answer where
  | made (scope : ScopeId)
  | done
  | value (v : Option Value)
  | names (ns : List String)
  | refused (why : Stop)

/-- The answer of a computation, and the machine behind it. -/
def Answer.of {α : Type} (answer : α → Answer) : Except Stop α × Machine → Answer × Machine
  | (.ok a, m) => (answer a, m)
  | (.error why, m) => (.refused why, m)

/-- The answers to all requests, and the state at the end. -/
def Requests.run {σ : Type} (perform : {count : Nat} → σ → Request count → Answer × σ) {count : Nat} :
    Requests count → σ → List Answer × σ
  | .done, s => ([], s)
  | .step request others, s =>
    let (answer, s') := perform s request
    let (answers, s'') := others.run perform s'
    (answer :: answers, s'')

end Store

/-- A request to the scopes of a machine. -/
def Machine.perform {count : Nat} (m : Machine) : Store.Request count → Store.Answer × Machine
  | .new => Store.Answer.of .made (Eval.newScope none m)
  | .enclosed parent => Store.Answer.of .made (Eval.newScope (some parent) m)
  | .define scope name value => Store.Answer.of (fun _ => .done) (Eval.define scope name value m)
  | .defineConst scope name value => Store.Answer.of (fun _ => .done) (Eval.defineConst scope name value m)
  | .assign scope name value => Store.Answer.of (fun _ => .done) (Eval.assign scope name value m)
  | .get scope name => Store.Answer.of .value (Eval.lookup scope name m)
  | .names scope => (.names (m.store.names scope), m)

/-!
### The reference model
-/

/-- One map for all scopes. The chain of a scope are the scopes that are visible from it, nearest first. -/
structure FlatStore where
  chains : List (List ScopeId)
  bindings : Finmap fun _ : ScopeId × String => Binding

namespace FlatStore

/-- The model without scopes. -/
def empty : FlatStore :=
  ⟨[], ∅⟩

/-- A scope and the scopes around it, nearest first. -/
def chain (f : FlatStore) (scope : ScopeId) : List ScopeId :=
  f.chains[scope]?.getD []

/-- The nearest scope with a name, and what the name is there. -/
def nearest (f : FlatStore) (scope : ScopeId) (name : String) : Option (ScopeId × Binding) :=
  (f.chain scope).findSome? fun owner => (f.bindings.lookup (owner, name)).map fun b => (owner, b)

/-- The model with one more scope inside those of `around`. -/
def grow (f : FlatStore) (around : List ScopeId) : FlatStore :=
  { f with chains := f.chains ++ [f.chains.length :: around] }

/-- The model with one binding changed. -/
def put (f : FlatStore) (scope : ScopeId) (name : String) (b : Binding) : FlatStore :=
  { f with bindings := f.bindings.insert (scope, name) b }

/-- Binds a name in a scope, unless that very scope has it as a constant. -/
def bind (f : FlatStore) (scope : ScopeId) (name : String) (b : Binding) : Store.Answer × FlatStore :=
  match f.bindings.lookup (scope, name) with
  | some ⟨_, true⟩ => (.refused (.fault (.constant name)), f)
  | _ => (.done, f.put scope name b)

/-- Changes the value of a name in the nearest scope that has it, unless it is a constant there. -/
def assign (f : FlatStore) (scope : ScopeId) (name : String) (value : Value) : Store.Answer × FlatStore :=
  match f.nearest scope name with
  | none => (.refused (.fault (.unbound name)), f)
  | some (_, ⟨_, true⟩) => (.refused (.fault (.constant name)), f)
  | some (owner, ⟨_, false⟩) => (.done, f.put owner name ⟨value, false⟩)

/-- The names that were bound in a scope. -/
def namesOf (f : FlatStore) (scope : ScopeId) : Finset String :=
  (f.bindings.keys.filter fun key => key.1 = scope).image Prod.snd

/-- A request to the model. -/
def perform {count : Nat} (f : FlatStore) : Store.Request count → Store.Answer × FlatStore
  | .new => (.made f.chains.length, f.grow [])
  | .enclosed parent => (.made f.chains.length, f.grow (f.chain parent))
  | .define scope name value => f.bind scope name ⟨value, false⟩
  | .defineConst scope name value => f.bind scope name ⟨value, true⟩
  | .assign scope name value => f.assign scope name value
  | .get scope name => (.value ((f.nearest scope name).map fun found => found.2.value), f)
  | .names scope => (.names (f.namesOf scope).sort, f)

end FlatStore

/-!
### Chains of scopes
-/

namespace Store

variable {s : Store} {id : ScopeId} {name : String} {chain : List ScopeId}

/-- Outward the numbers of scopes get smaller, so the number of a scope bounds the scopes around it. -/
theorem Chain.length_le (nested : s.Nested) (isChain : s.Chain id chain) : chain.length ≤ id + 1 := by
  induction isChain with
  | outermost _ => exact Nat.succ_le_succ (Nat.zero_le _)
  | @inside id parent around lies _ inductionHypothesis =>
      exact Nat.succ_le_succ (Nat.le_trans inductionHypothesis (nested id parent lies))

/-- Looking a name up walks along the chain, if there are enough steps. -/
theorem Chain.findWithin_eq (isChain : s.Chain id chain) : ∀ {steps : Nat}, chain.length ≤ steps →
    s.findWithin name steps id = chain.findSome? fun owner => (s.own? owner name).map fun b => (owner, b) := by
  induction isChain with
  | @outermost id isRoot =>
      intro steps enough
      obtain ⟨steps, rfl⟩ := Nat.exists_eq_add_one_of_ne_zero (Nat.ne_zero_of_lt enough)
      cases own : s.own? id name with
      | none => simp [findWithin, own, isRoot]
      | some b => simp [findWithin, own]
  | @inside id parent around lies _ inductionHypothesis =>
      intro steps enough
      obtain ⟨steps, rfl⟩ := Nat.exists_eq_add_one_of_ne_zero (Nat.ne_zero_of_lt enough)
      cases own : s.own? id name with
      | none => simp [findWithin, own, lies, inductionHypothesis (Nat.le_of_succ_le_succ enough)]
      | some b => simp [findWithin, own]

theorem Chain.newScope (nested : s.Nested) (parent : Option ScopeId) (isChain : s.Chain id chain)
    (known : id < s.scopes.size) : (s.newScope parent).2.Chain id chain := by
  induction isChain with
  | outermost isRoot =>
      refine .outermost ?_
      rw [parent?_newScope, if_neg (Nat.ne_of_lt known)]
      exact isRoot
  | @inside id parent' around lies _ inductionHypothesis =>
      refine .inside ?_ (inductionHypothesis (Nat.lt_trans (nested id parent' lies) known))
      rw [parent?_newScope, if_neg (Nat.ne_of_lt known)]
      exact lies

theorem Chain.setOwn {owner : ScopeId} {asked : String} {b : Binding} (isChain : s.Chain id chain) :
    (s.setOwn owner asked b).Chain id chain := by
  induction isChain with
  | outermost isRoot => exact .outermost (by rw [parent?_setOwn]; exact isRoot)
  | inside lies _ inductionHypothesis => exact .inside (by rw [parent?_setOwn]; exact lies) inductionHypothesis

/-!
### Names
-/

/-- No scope of the store has two entries for a name. -/
def Distinct (s : Store) : Prop :=
  ∀ scope ∈ s.scopes, (Assoc.keys scope.bindings).Nodup

theorem Distinct.newScope (distinct : s.Distinct) (parent : Option ScopeId) : (s.newScope parent).2.Distinct := by
  intro scope inStore
  rcases Array.mem_push.1 inStore with old | rfl
  · exact distinct scope old
  · exact List.nodup_nil

theorem Distinct.setOwn (distinct : s.Distinct) (b : Binding) : (s.setOwn id name b).Distinct := by
  intro scope inStore
  obtain ⟨place, found⟩ := Array.mem_iff_getElem?.1 inStore
  simp only [Store.setOwn, Array.getElem?_modify] at found
  split at found
  · obtain ⟨before, was, rfl⟩ := Option.map_eq_some_iff.1 found
    exact Assoc.nodup_keys_set (distinct before (Array.mem_of_getElem? was))
  · exact distinct scope (Array.mem_of_getElem? found)

theorem insertSorted_eq_orderedInsert : insertSorted = List.orderedInsert (· < ·) := by
  funext name ns
  induction ns with
  | nil => rfl
  | cons other rest inductionHypothesis => rw [insertSorted, List.orderedInsert_cons, inductionHypothesis]

theorem mem_foldr_insertSorted {ns : List String} : name ∈ ns.foldr insertSorted [] ↔ name ∈ ns := by
  rw [insertSorted_eq_orderedInsert]
  exact List.mem_insertionSort _

theorem pairwise_insertSorted {ns : List String} (sorted : ns.Pairwise (· < ·)) (new : name ∉ ns) :
    (insertSorted name ns).Pairwise (· < ·) := by
  induction ns with
  | nil => exact List.pairwise_singleton _ _
  | cons other rest inductionHypothesis =>
      obtain ⟨before, sortedRest⟩ := List.pairwise_cons.1 sorted
      rw [List.mem_cons, not_or] at new
      obtain ⟨different, newRest⟩ := new
      unfold insertSorted
      split
      · rename_i isSmaller
        refine List.pairwise_cons.2 ⟨fun n member => ?_, sorted⟩
        rcases List.mem_cons.1 member with rfl | later
        · exact isSmaller
        · exact lt_trans isSmaller (before n later)
      · rename_i notSmaller
        refine List.pairwise_cons.2 ⟨fun n member => ?_, inductionHypothesis sortedRest newRest⟩
        rw [insertSorted_eq_orderedInsert, (List.perm_orderedInsert _ name rest).mem_iff] at member
        rcases List.mem_cons.1 member with rfl | later
        · exact lt_of_le_of_ne (not_lt.1 notSmaller) (Ne.symm different)
        · exact before n later

theorem pairwise_foldr_insertSorted {ns : List String} (distinct : ns.Nodup) :
    (ns.foldr insertSorted []).Pairwise (· < ·) := by
  induction ns with
  | nil => exact List.Pairwise.nil
  | cons n rest inductionHypothesis =>
      obtain ⟨new, distinctRest⟩ := List.nodup_cons.1 distinct
      refine pairwise_insertSorted (inductionHypothesis distinctRest) fun member => ?_
      exact new (mem_foldr_insertSorted.1 member)

/-- The names of a scope are sorted, each of them once. -/
theorem Distinct.names_sorted (distinct : s.Distinct) (id : ScopeId) : (s.names id).Pairwise (· < ·) := by
  unfold names
  split
  · rename_i scope inStore
    exact pairwise_foldr_insertSorted (distinct scope (Array.mem_of_getElem? inStore))
  · exact List.Pairwise.nil

theorem mem_names_iff : name ∈ s.names id ↔ (s.own? id name).isSome = true := by
  unfold names own?
  split
  · rw [mem_foldr_insertSorted, Assoc.mem_keys_iff]
  · simp

end Store

/-!
### The model describes the store
-/

namespace FlatStore

/-- The model knows the chain of every scope of the store, and has every binding of the store. -/
structure Describes (f : FlatStore) (s : Store) : Prop where
  count : f.chains.length = s.scopes.size
  chains : ∀ scope chain, f.chains[scope]? = some chain → s.Chain scope chain
  bindings : ∀ scope name, s.own? scope name = f.bindings.lookup (scope, name)
  nested : s.Nested
  distinct : s.Distinct

/-- After a request: both gave the same answer, and the model describes the store, which has `count` scopes. -/
structure Agrees (left : Store.Answer × Machine) (right : Store.Answer × FlatStore) (count : Nat) : Prop where
  answer : left.1 = right.1
  describes : right.2.Describes left.2.store
  count : left.2.store.scopes.size = count

namespace Describes

variable {f : FlatStore} {s : Store} {scope : ScopeId} {name : String}

theorem chain_of_lt (describes : f.Describes s) (known : scope < s.scopes.size) :
    s.Chain scope (f.chain scope) := by
  have inside : scope < f.chains.length := by rwa [describes.count]
  have found : f.chains[scope]? = some f.chains[scope] := List.getElem?_eq_getElem inside
  rw [chain, found]
  exact describes.chains scope _ found

theorem find?_eq (describes : f.Describes s) (known : scope < s.scopes.size) (name : String) :
    s.find? scope name = f.nearest scope name := by
  have isChain := describes.chain_of_lt known
  rw [Store.find?, isChain.findWithin_eq (isChain.length_le describes.nested)]
  simp only [nearest, describes.bindings]

theorem names_eq (describes : f.Describes s) : s.names scope = (f.namesOf scope).sort := by
  have sorted : (f.namesOf scope).sort.Pairwise (· < ·) := (f.namesOf scope).sortedLT_sort.pairwise
  refine (describes.distinct.names_sorted scope).eq_of_mem_iff sorted fun name => ?_
  rw [Store.mem_names_iff, describes.bindings, Finmap.lookup_isSome, Finset.mem_sort, namesOf]
  simp [Finmap.mem_keys]

/-- A new scope without a parent, or inside one whose chain is known. -/
theorem newScope (describes : f.Describes s) {parent : Option ScopeId} {around : List ScopeId}
    (known : ∀ id ∈ parent, id < s.scopes.size)
    (isChain : (s.newScope parent).2.Chain s.scopes.size (s.scopes.size :: around)) :
    (f.grow around).Describes (s.newScope parent).2 where
  count := by simp [grow, describes.count]
  chains := by
    intro id chain found
    rw [grow, List.getElem?_append, describes.count] at found
    -- either the scope was there before, or it is the new one, whose chain is the last entry
    split at found
    · rename_i isOld
      exact (describes.chains id chain found).newScope describes.nested parent isOld
    · rename_i isNotOld
      rw [List.getElem?_singleton] at found
      split at found
      · rename_i isFirst
        obtain rfl : id = s.scopes.size := Nat.le_antisymm (Nat.le_of_sub_eq_zero isFirst) (Nat.le_of_not_lt isNotOld)
        cases found
        exact isChain
      · cases found
  bindings id name := by rw [Store.own?_newScope, describes.bindings, grow]
  nested := describes.nested.newScope known
  distinct := describes.distinct.newScope parent

theorem put (describes : f.Describes s) (known : scope < s.scopes.size) (b : Binding) :
    (f.put scope name b).Describes (s.setOwn scope name b) where
  count := by simp [FlatStore.put, describes.count]
  chains id chain found := (describes.chains id chain found).setOwn
  bindings other asked := by
    rw [Store.own?_setOwn, describes.bindings, FlatStore.put]
    split
    · rename_i isPlace
      rw [isPlace.1, isPlace.2.1, Finmap.lookup_insert]
    · rename_i isElsewhere
      rw [Finmap.lookup_insert_of_ne]
      rintro same
      cases same
      exact isElsewhere ⟨rfl, rfl, known⟩
  nested := describes.nested.setOwn
  distinct := describes.distinct.setOwn b

/-!
### Requests to both
-/

variable {m : Machine}

theorem bind (describes : f.Describes m.store) (known : scope < m.store.scopes.size) (b : Binding) :
    Agrees (Store.Answer.of (fun _ => .done) (Eval.bindAt (·.placeToDefine scope name) name b m))
      (f.bind scope name b) m.store.scopes.size := by
  have same := describes.bindings scope name
  rcases found : f.bindings.lookup (scope, name) with _ | ⟨v, _ | _⟩
  all_goals
    rw [found] at same
    simp only [Eval.bindAt, Store.placeToDefine, same, Store.Answer.of, FlatStore.bind, found]
  · exact ⟨rfl, describes.put known b, m.store.size_setOwn ..⟩
  · exact ⟨rfl, describes.put known b, m.store.size_setOwn ..⟩
  · exact ⟨rfl, describes, rfl⟩

theorem assign (describes : f.Describes m.store) (known : scope < m.store.scopes.size) (value : Value) :
    Agrees (Store.Answer.of (fun _ => .done) (Eval.assign scope name value m)) (f.assign scope name value)
      m.store.scopes.size := by
  have same := describes.find?_eq known name
  rcases found : f.nearest scope name with _ | ⟨owner, v, _ | _⟩
  all_goals
    rw [found] at same
    simp only [Eval.assign, Eval.bindAt, Store.placeToAssign, same, Store.Answer.of, FlatStore.assign, found]
  · exact ⟨rfl, describes, rfl⟩
  · -- the owner is some scope of the chain, not the scope that was asked
    have inside := Store.lt_size_of_own? (Store.own?_of_findWithin _ same)
    exact ⟨rfl, describes.put inside _, m.store.size_setOwn ..⟩
  · exact ⟨rfl, describes, rfl⟩

/-- One request: the scopes that it is about are scopes of the store. -/
theorem perform (describes : f.Describes m.store) (request : Store.Request m.store.scopes.size) :
    Agrees (m.perform request) (f.perform request) (m.store.scopes.size + request.made) := by
  cases request with
  | new =>
      refine ⟨congrArg Store.Answer.made describes.count.symm, describes.newScope (by simp) (.outermost ?_), ?_⟩
      · simp [Store.parent?_newScope]
      · exact m.store.size_newScope none
  | enclosed parent =>
      have inside := (describes.chain_of_lt parent.isLt).newScope describes.nested (some parent) parent.isLt
      refine ⟨congrArg Store.Answer.made describes.count.symm, describes.newScope ?_ (.inside ?_ inside), ?_⟩
      · rintro id ⟨⟩
        exact parent.isLt
      · simp [Store.parent?_newScope]
      · exact m.store.size_newScope (some parent)
  | define scope name value => exact describes.bind scope.isLt ⟨value, false⟩
  | defineConst scope name value => exact describes.bind scope.isLt ⟨value, true⟩
  | assign scope name value => exact describes.assign scope.isLt value
  | get scope name =>
      have same := describes.find?_eq scope.isLt name
      refine ⟨?_, describes, rfl⟩
      simp only [Machine.perform, Eval.lookup, Store.get?, same, Store.Answer.of, FlatStore.perform]
  | names scope => exact ⟨congrArg Store.Answer.names describes.names_eq, describes, rfl⟩

end Describes

/-- The induction is on the requests; the model describes the store after each of them. -/
theorem Describes.run {count : Nat} (requests : Store.Requests count) : ∀ {f : FlatStore} {m : Machine},
    f.Describes m.store → m.store.scopes.size = count →
      (requests.run Machine.perform m).1 = (requests.run FlatStore.perform f).1 ∧
        (requests.run FlatStore.perform f).2.Describes (requests.run Machine.perform m).2.store := by
  induction requests with
  | done =>
      intro f m describes _
      exact ⟨rfl, describes⟩
  | step request others inductionHypothesis =>
      intro f m describes counted
      subst counted
      obtain ⟨answer, describes', counted'⟩ := describes.perform request
      obtain ⟨answers, atEnd⟩ := inductionHypothesis describes' counted'
      simp only [Store.Requests.run, answer, answers]
      exact ⟨trivial, atEnd⟩

theorem describes_empty : empty.Describes Store.empty where
  count := rfl
  chains _ _ found := by cases found
  bindings _ _ := rfl
  nested _ _ lies := by cases lies
  distinct _ inStore := by simp [Store.empty] at inStore

end FlatStore

/-!
### Main result
-/

namespace Machine

theorem bindAt_of_refused {m : Machine} {place : Store → Except Fault ScopeId} {name : String} {b : Binding}
    {why : Stop} (refused : (Store.Answer.of (fun _ => .done) (Eval.bindAt place name b m)).1 = .refused why) :
    (Store.Answer.of (fun _ => .done) (Eval.bindAt place name b m)).2 = m := by
  cases found : place m.store with
  | ok owner => simp [Eval.bindAt, found, Store.Answer.of] at refused
  | error f => simp [Eval.bindAt, found, Store.Answer.of]

/-- A request that is refused changes nothing. -/
theorem perform_of_refused {m : Machine} {count : Nat} {request : Store.Request count} {why : Stop}
    (refused : (m.perform request).1 = .refused why) : (m.perform request).2 = m := by
  cases request with
  | new => cases refused
  | enclosed parent => cases refused
  | define scope name value => exact bindAt_of_refused refused
  | defineConst scope name value => exact bindAt_of_refused refused
  | assign scope name value => exact bindAt_of_refused refused
  | get scope name => cases refused
  | names scope => cases refused

end Machine

/-- The store refines its reference model: whatever is asked of the scopes made so far, one request after another,
    the answers are those of the model, each scope ends with the bindings that the model has for it, and a request
    that is refused changes nothing. -/
theorem answers_eq_flat (sink : Sink) (requests : Store.Requests 0) :
    let reached := requests.run Machine.perform (Machine.start sink)
    let expected := requests.run FlatStore.perform FlatStore.empty
    reached.1 = expected.1 ∧
      (∀ scope name, reached.2.store.own? scope name = expected.2.bindings.lookup (scope, name)) ∧
        ∀ (request : Store.Request reached.2.store.scopes.size) why,
          (reached.2.perform request).1 = .refused why → (reached.2.perform request).2 = reached.2 := by
  obtain ⟨answers, describes⟩ := FlatStore.Describes.run requests (m := Machine.start sink)
    FlatStore.describes_empty rfl
  exact ⟨answers, describes.bindings, fun _ _ => Machine.perform_of_refused⟩

end Quill
