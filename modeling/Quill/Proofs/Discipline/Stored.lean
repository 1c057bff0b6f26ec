/-
Module: Quill.Proofs.Discipline.Stored
Layer: Proofs
Purpose: What is stored. `Store.Binds` says that a binding stands in some scope of a store, and each operation
  on stores is described by the bindings that it adds. A law of values that literals obey, and that arrays,
  hashes and their parts pass on, is then a discipline: every stored value obeys it. A test of single values that
  holds of whatever evaluation makes gives such a law: that it holds everywhere in a value.
Main exports: Store.Binds, ValueLaw, ValueLaw.everywhere, ValueLaw.discipline
-/
import Quill.Proofs.Value
import Quill.Proofs.Discipline

namespace Quill

namespace Store

variable {s : Store} {b : Binding}

/-- Some scope of the store binds some name so. -/
def Binds (s : Store) (b : Binding) : Prop :=
  ∃ scope ∈ s.scopes, ∃ name, (name, b) ∈ scope.bindings

theorem binds_of_own {id : ScopeId} {name : String} (found : s.own? id name = some b) : s.Binds b := by
  unfold own? at found
  split at found
  · rename_i scope inStore
    exact ⟨scope, Array.mem_of_getElem? inStore, name, Assoc.mem_of_lookup found⟩
  · cases found

theorem binds_of_findWithin {name : String} (steps : Nat) : ∀ {id owner : ScopeId},
    s.findWithin name steps id = some (owner, b) → s.Binds b := by
  induction steps with
  | zero =>
      intro id owner found
      cases found
  | succ steps inductionHypothesis =>
      intro id owner found
      unfold findWithin at found
      split at found
      · rename_i binding own
        cases found
        exact binds_of_own own
      · split at found
        · exact inductionHypothesis found
        · cases found

theorem binds_of_get {id : ScopeId} {name : String} {v : Value} (found : s.get? id name = some v) :
    ∃ b, s.Binds b ∧ b.value = v := by
  obtain ⟨⟨owner, b⟩, within, isValue⟩ := Option.map_eq_some_iff.1 found
  exact ⟨b, binds_of_findWithin (id + 1) within, isValue⟩

theorem binds_newScope {parent : Option ScopeId} (binds : (s.newScope parent).2.Binds b) :
    s.Binds b := by
  obtain ⟨scope, inStore, name, member⟩ := binds
  rcases Array.mem_push.1 inStore with old | isNew
  · exact ⟨scope, old, name, member⟩
  · rw [isNew] at member
    cases member

theorem binds_setOwn {id : ScopeId} {name : String} {new : Binding}
    (binds : (s.setOwn id name new).Binds b) : b = new ∨ s.Binds b := by
  obtain ⟨scope, inStore, other, member⟩ := binds
  obtain ⟨place, found⟩ := Array.mem_iff_getElem?.1 inStore
  simp only [setOwn, Array.getElem?_modify] at found
  split at found
  · obtain ⟨before, was, rfl⟩ := Option.map_eq_some_iff.1 found
    rcases Assoc.mem_set member with isNew | old
    · exact .inl (congrArg Prod.snd isNew)
    · exact .inr ⟨before, Array.mem_of_getElem? was, other, old⟩
  · exact .inr ⟨scope, Array.mem_of_getElem? found, other, member⟩

end Store

/-- A property of values that evaluation passes on. -/
structure ValueLaw where
  good : Value → Prop
  atomic : ∀ {v}, v.Atomic → good v
  quote : ∀ e, good (.quote (.expr e))
  returned : ∀ {v}, good (.returned v) → good v
  function : ∀ c, good (.function c)
  macroValue : ∀ c, good (.macroValue c)
  array : ∀ {items}, good (.array items) ↔ ∀ v ∈ items, good v
  hash_nil : good (.hash [])
  hash_set : ∀ {entries k key value}, good (.hash entries) → key.key? = some k → good key → good value →
    good (.hash (Assoc.set k (key, value) entries))
  hash_entry : ∀ {entries entry}, good (.hash entries) → entry ∈ entries → good entry.2.1 ∧ good entry.2.2

/-- The law that a test holds of a value and of every value in it, if it holds of whatever evaluation makes. -/
def ValueLaw.everywhere (test : Value → Bool) (atomic : ∀ v : Value, v.Atomic → test v = true)
    (quote : ∀ e, test (.quote (.expr e)) = true) (function : ∀ c, test (.function c) = true)
    (macroValue : ∀ c, test (.macroValue c) = true) (array : ∀ items, test (.array items) = true)
    (hash_nil : test (.hash []) = true)
    (hash_set : ∀ entries k key value, test (.hash entries) = true → key.key? = some k →
      test (.hash (Assoc.set k (key, value) entries)) = true) : ValueLaw where
  good v := v.everywhere test = true
  atomic := by
    intro v isAtomic
    cases v <;> first | exact atomic _ isAtomic | cases isAtomic
  quote := quote
  returned := by
    intro v holds
    simp only [Value.everywhere, Bool.and_eq_true] at holds
    exact holds.2
  function := function
  macroValue := macroValue
  array := by
    intro items
    simp only [Value.everywhere, array, Bool.true_and, everywhereIn_iff]
  hash_nil := by simp [Value.everywhere, hash_nil, everywhereAmong]
  hash_set := by
    intro entries k key value holds isKey ofKey ofValue
    simp only [Value.everywhere, Bool.and_eq_true] at holds ⊢
    exact ⟨hash_set entries k key value holds.1 isKey, everywhereAmong_set holds.2 ofKey ofValue⟩
  hash_entry := by
    intro entries entry holds member
    simp only [Value.everywhere, Bool.and_eq_true] at holds
    exact (everywhereAmong_iff entries).1 holds.2 entry member

/-- Every stored value obeys the law. -/
def ValueLaw.Stored (law : ValueLaw) (s : Store) : Prop :=
  ∀ b, s.Binds b → law.good b.value

/-- The discipline of storing only values that obey a law. It asks nothing of scopes. -/
def ValueLaw.discipline (law : ValueLaw) : Discipline where
  sound m := law.Stored m.store
  later _ _ := True
  good _ v := law.good v
  runs _ _ := True
  encloses _ _ := True
  later_refl _ := trivial
  later_trans _ _ := trivial
  good_later _ good := good
  runs_later _ _ := trivial
  encloses_later _ _ := trivial
  encloses_of_runs _ := trivial
  good_atomic := law.atomic
  good_quote := law.quote
  good_returned := law.returned
  good_function _ := law.function _
  encloses_function _ := trivial
  good_macro _ := law.macroValue _
  encloses_macro _ := trivial
  good_array := law.array
  good_hash_nil := law.hash_nil
  good_hash_set := law.hash_set
  good_hash_entry := law.hash_entry
  good_get sound _ found := by
    obtain ⟨b, binds, rfl⟩ := Store.binds_of_get found
    exact sound b binds
  newScope sound _ := ⟨fun b binds => sound b (Store.binds_newScope binds), trivial, trivial⟩
  define constant sound _ good _ := by
    refine ⟨fun b binds => ?_, trivial⟩
    rcases Store.binds_setOwn binds with rfl | old
    · exact good
    · exact sound b old
  assign sound _ good _ := by
    refine ⟨fun b binds => ?_, trivial⟩
    rcases Store.binds_setOwn binds with rfl | old
    · exact good
    · exact sound b old
  fresh sound := ⟨sound, trivial⟩
  print _ sound := ⟨sound, trivial⟩

end Quill
