/-
Module: Quill.Proofs.Store
Layer: Proofs
Purpose: What the operations on a store do to each of its scopes. A store is seen through three questions: how
  many scopes it has, which scope lies around a scope, and what a scope itself binds a name to. Making a scope
  answers the second one for a new number only, and setting a binding answers the third one for one name of
  one scope only. A name is defined where no constant of that name stands, and assigned where a variable of
  that name stands.
Main exports: Store.own?_newScope, Store.parent?_newScope, Store.own?_setOwn, Store.parent?_setOwn,
  Store.get?_unchanged, Store.placeToDefine_eq_ok, Store.placeToAssign_eq_ok, Store.define_eq_ok, Store.assign_eq_ok
-/
import Quill.Proofs.Assoc
import Quill.Scope

namespace Quill

namespace Store

variable {s : Store} {id other owner : ScopeId} {name : String} {b : Binding}

/-!
### Making a scope
-/

@[simp] theorem newScope_fst (s : Store) (parent : Option ScopeId) : (s.newScope parent).1 = s.scopes.size :=
  rfl

@[simp] theorem size_newScope (s : Store) (parent : Option ScopeId) :
    (s.newScope parent).2.scopes.size = s.scopes.size + 1 := by
  simp [newScope]

/-- A new scope binds nothing, like a number that no scope has yet. -/
@[simp] theorem own?_newScope (s : Store) (parent : Option ScopeId) (id : ScopeId) (name : String) :
    (s.newScope parent).2.own? id name = s.own? id name := by
  by_cases isNew : id = s.scopes.size
  · subst isNew
    simp [own?, newScope]
  · simp [own?, newScope, Array.getElem?_push, isNew]

theorem parent?_newScope (s : Store) (parent : Option ScopeId) (id : ScopeId) :
    (s.newScope parent).2.parent? id = if id = s.scopes.size then parent else s.parent? id := by
  by_cases isNew : id = s.scopes.size
  · subst isNew
    simp [parent?, newScope]
  · simp [parent?, newScope, Array.getElem?_push, isNew]

/-!
### Setting a binding
-/

@[simp] theorem size_setOwn (s : Store) (id : ScopeId) (name : String) (b : Binding) :
    (s.setOwn id name b).scopes.size = s.scopes.size := by
  simp [setOwn]

@[simp] theorem parent?_setOwn (s : Store) (id : ScopeId) (name : String) (b : Binding) (other : ScopeId) :
    (s.setOwn id name b).parent? other = s.parent? other := by
  by_cases isOwner : id = other
  · cases found : s.scopes[other]? <;> simp [parent?, setOwn, Array.getElem?_modify, isOwner, found]
  · simp [parent?, setOwn, Array.getElem?_modify, isOwner]

theorem own?_setOwn (s : Store) (id : ScopeId) (name : String) (b : Binding) (other : ScopeId)
    (asked : String) :
    (s.setOwn id name b).own? other asked =
      if other = id ∧ asked = name ∧ id < s.scopes.size then some b else s.own? other asked := by
  simp only [own?, setOwn, Array.getElem?_modify]
  by_cases isOwner : id = other
  · subst isOwner
    by_cases inside : id < s.scopes.size
    · simp [inside, Assoc.lookup_set]
    · simp [inside]
  · have different : other ≠ id := fun same => isOwner same.symm
    simp [isOwner, different]

theorem own?_setOwn_of_ne {asked : String} (different : other ≠ id ∨ asked ≠ name) :
    (s.setOwn id name b).own? other asked = s.own? other asked := by
  rw [own?_setOwn, if_neg]
  rintro ⟨isOwner, isName, _⟩
  rcases different with otherScope | otherName
  · exact otherScope isOwner
  · exact otherName isName

theorem lt_size_of_parent? {parent : ScopeId} (lies : s.parent? id = some parent) :
    id < s.scopes.size := by
  unfold parent? at lies
  split at lies
  · rename_i scope inStore
    exact (Array.getElem?_eq_some_iff.1 inStore).1
  · cases lies

theorem lt_size_of_own? (own : s.own? id name = some b) : id < s.scopes.size := by
  unfold own? at own
  split at own
  · rename_i scope inStore
    exact (Array.getElem?_eq_some_iff.1 inStore).1
  · cases own

theorem scopes_setOwn_of_ne (elsewhere : id ≠ owner) :
    (s.setOwn owner name b).scopes[id]? = s.scopes[id]? := by
  simp [setOwn, Array.getElem?_modify, elsewhere.symm]

/-- The scope that is made next binds nothing. -/
theorem own?_newest (s : Store) (parent : Option ScopeId) (name : String) :
    (s.newScope parent).2.own? s.scopes.size name = none := by
  rw [own?_newScope]
  cases found : s.own? s.scopes.size name with
  | none => rfl
  | some b => exact absurd (lt_size_of_own? found) (Nat.lt_irrefl _)

/-!
### Looking a name up
-/

theorem get?_of_own? (own : s.own? id name = some b) : s.get? id name = some b.value := by
  simp only [get?, find?, findWithin, own, Option.map_some]

/-- What is seen from a scope depends on that scope and the scopes around it. -/
theorem get?_unchanged {s' : Store} {region : ScopeId → Prop}
    (outward : ∀ {id parent}, region id → s.parent? id = some parent → region parent)
    (same : ∀ id, region id → s'.scopes[id]? = s.scopes[id]?) (inside : region id) (name : String) :
    s'.get? id name = s.get? id name := by
  have within : ∀ steps id, region id → s'.findWithin name steps id = s.findWithin name steps id := by
    intro steps
    induction steps with
    | zero => exact fun _ _ => rfl
    | succ steps inductionHypothesis =>
        intro id inside
        have own : s'.own? id name = s.own? id name := by simp only [own?, same id inside]
        have parent : s'.parent? id = s.parent? id := by simp only [parent?, same id inside]
        simp only [findWithin, own, parent]
        split
        · rfl
        · split
          · rename_i lies
            exact inductionHypothesis _ (outward inside lies)
          · rfl
  simp only [get?, find?, within _ id inside]

/-!
### Where a binding is set
-/

/-- What is found for a name is what the scope that was found binds it to. -/
theorem own?_of_findWithin (steps : Nat) : ∀ {id : ScopeId},
    s.findWithin name steps id = some (owner, b) → s.own? owner name = some b := by
  induction steps with
  | zero =>
      intro id found
      cases found
  | succ steps inductionHypothesis =>
      intro id found
      unfold findWithin at found
      split at found
      · rename_i binding own
        cases found
        exact own
      · split at found
        · exact inductionHypothesis found
        · cases found

/-- A name is defined in the given scope, unless that scope holds it as a constant. -/
theorem placeToDefine_eq_ok (place : s.placeToDefine id name = .ok owner) :
    owner = id ∧ ∀ v, s.own? owner name ≠ some ⟨v, true⟩ := by
  unfold placeToDefine at place
  split at place
  · cases place
  · rename_i notConstant
    cases place
    exact ⟨rfl, notConstant⟩

/-- A name is assigned in a scope that holds it as a variable. -/
theorem placeToAssign_eq_ok (place : s.placeToAssign id name = .ok owner) :
    ∃ v, s.own? owner name = some ⟨v, false⟩ := by
  unfold placeToAssign at place
  split at place
  · cases place
  · cases place
  · rename_i found v isFound
    cases place
    exact ⟨v, own?_of_findWithin (id + 1) isFound⟩

theorem define_eq_ok {s' : Store} (done : s.define id name b = .ok s') :
    s' = s.setOwn id name b ∧ ∀ v, s.own? id name ≠ some ⟨v, true⟩ := by
  unfold define at done
  cases place : s.placeToDefine id name with
  | error f => simp [place, Except.map] at done
  | ok owner =>
      obtain ⟨rfl, notConstant⟩ := placeToDefine_eq_ok place
      simp only [place, Except.map, Except.ok.injEq] at done
      exact ⟨done.symm, notConstant⟩

theorem assign_eq_ok {s' : Store} {value : Value} (done : s.assign id name value = .ok s') :
    ∃ owner v, s' = s.setOwn owner name ⟨value, false⟩ ∧ s.own? owner name = some ⟨v, false⟩ := by
  unfold assign at done
  cases place : s.placeToAssign id name with
  | error f => simp [place, Except.map] at done
  | ok owner =>
      obtain ⟨v, held⟩ := placeToAssign_eq_ok place
      simp only [place, Except.map, Except.ok.injEq] at done
      exact ⟨owner, v, done.symm, held⟩

end Store

end Quill
