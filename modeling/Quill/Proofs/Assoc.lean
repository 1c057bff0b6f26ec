/-
Module: Quill.Proofs.Assoc
Layer: Proofs
Purpose: What setting a key does to an association list: the entries that it has afterwards, and what is found
  for each key.
Main exports: Assoc.mem_set, Assoc.mem_of_lookup, Assoc.mem_keys_iff, Assoc.lookup_of_mem, Assoc.lookup_set,
  Assoc.keys_set, Assoc.map_set_of_lookup, Assoc.lookup_zip_map
-/
import Quill.Assoc

namespace Quill

namespace Assoc

variable {κ ν : Type} [DecidableEq κ]

/-- Setting a key adds at most its own entry. -/
theorem mem_set {key : κ} {value : ν} {entries : List (κ × ν)} {entry : κ × ν}
    (member : entry ∈ set key value entries) : entry = (key, value) ∨ entry ∈ entries := by
  induction entries with
  | nil => exact .inl (List.mem_singleton.1 member)
  | cons first rest inductionHypothesis =>
      unfold set at member
      split at member
      · rcases List.mem_cons.1 member with isNew | old
        · exact .inl isNew
        · exact .inr (List.mem_cons_of_mem first old)
      · rcases List.mem_cons.1 member with isFirst | later
        · exact .inr (isFirst ▸ List.mem_cons_self)
        · rcases inductionHypothesis later with isNew | old
          · exact .inl isNew
          · exact .inr (List.mem_cons_of_mem first old)

theorem mem_of_lookup {key : κ} {value : ν} {entries : List (κ × ν)}
    (found : entries.lookup key = some value) : (key, value) ∈ entries := by
  obtain ⟨before, behind, rfl, _⟩ := List.lookup_eq_some_iff.1 found
  exact List.mem_append_right before List.mem_cons_self

omit [DecidableEq κ] in
@[simp] theorem keys_cons (entry : κ × ν) (entries : List (κ × ν)) :
    keys (entry :: entries) = entry.1 :: keys entries :=
  rfl

theorem mem_keys_iff {key : κ} {entries : List (κ × ν)} :
    key ∈ keys entries ↔ (entries.lookup key).isSome = true := by
  induction entries with
  | nil => simp [keys]
  | cons entry rest inductionHypothesis =>
      obtain ⟨first, held⟩ := entry
      by_cases same : key = first
      · simp [same]
      · simp [List.lookup_cons, same, beq_false_of_ne same, inductionHypothesis]

/-- If no key comes twice, each entry is found. -/
theorem lookup_of_mem {entry : κ × ν} {entries : List (κ × ν)} (distinct : (keys entries).Nodup)
    (member : entry ∈ entries) : entries.lookup entry.1 = some entry.2 := by
  induction entries with
  | nil => cases member
  | cons first rest inductionHypothesis =>
      obtain ⟨key, value⟩ := first
      obtain ⟨notAgain, distinctRest⟩ := List.nodup_cons.1 distinct
      rcases List.mem_cons.1 member with rfl | inRest
      · exact List.lookup_cons_self
      · have different : entry.1 ≠ key := by
          rintro rfl
          exact notAgain (List.mem_map.2 ⟨entry, inRest, rfl⟩)
        rw [List.lookup_cons, beq_false_of_ne different]
        exact inductionHypothesis distinctRest inRest

/-- Setting a key changes what is found for that key only. -/
theorem lookup_set (key other : κ) (value : ν) (entries : List (κ × ν)) :
    (set key value entries).lookup other =
      if other = key then some value else entries.lookup other := by
  induction entries with
  | nil => by_cases same : other = key <;> simp [set, List.lookup_cons, same, beq_false_of_ne]
  | cons entry rest inductionHypothesis =>
      obtain ⟨first, held⟩ := entry
      by_cases replaced : first = key
      · subst replaced
        by_cases same : other = first <;> simp [set, List.lookup_cons, same, beq_false_of_ne]
      · by_cases same : other = first
        · subst same
          simp [set, replaced]
        · simp [set, List.lookup_cons, replaced, beq_false_of_ne same, inductionHypothesis]

/-- A key that is set keeps its place, or goes to the end. -/
theorem keys_set (key : κ) (value : ν) (entries : List (κ × ν)) :
    keys (set key value entries) = if key ∈ keys entries then keys entries else keys entries ++ [key] := by
  induction entries with
  | nil => simp [set, keys]
  | cons entry rest inductionHypothesis =>
      obtain ⟨first, held⟩ := entry
      by_cases replaced : first = key
      · simp [set, replaced]
      · by_cases member : key ∈ keys rest
        · simp [set, replaced, inductionHypothesis, member]
        · simp [set, replaced, Ne.symm replaced, inductionHypothesis, member]

theorem nodup_keys_set {key : κ} {value : ν} {entries : List (κ × ν)} (distinct : (keys entries).Nodup) :
    (keys (set key value entries)).Nodup := by
  rw [keys_set]
  split
  · exact distinct
  · rename_i notMember
    rw [List.nodup_append]
    refine ⟨distinct, List.nodup_cons.2 ⟨List.not_mem_nil, List.nodup_nil⟩, ?_⟩
    rintro other member last isLast rfl
    exact notMember (List.mem_singleton.1 isLast ▸ member)

/-- Setting a key that is there changes nothing that cannot be told from the old value. -/
theorem map_set_of_lookup {β : Type} {key : κ} {old value : ν} (view : ν → β) {entries : List (κ × ν)}
    (found : entries.lookup key = some old) (alike : view value = view old) :
    (set key value entries).map (fun entry => (entry.1, view entry.2)) =
      entries.map fun entry => (entry.1, view entry.2) := by
  induction entries with
  | nil => cases found
  | cons entry rest inductionHypothesis =>
      obtain ⟨first, held⟩ := entry
      by_cases replaced : first = key
      · subst replaced
        simp only [List.lookup_cons, beq_self_eq_true, Option.some.injEq] at found
        simp [set, alike, found]
      · have inRest : rest.lookup key = some old := by
          simpa [List.lookup_cons, beq_false_of_ne (Ne.symm replaced)] using found
        simp [set, replaced, inductionHypothesis inRest]

/-- What is found among pairs whose values are mapped is the image of what is found among the pairs. -/
theorem lookup_zip_map {β : Type} (f : ν → β) (names : List κ) (values : List ν) (name : κ) :
    (names.zip (values.map f)).lookup name = ((names.zip values).lookup name).map f := by
  induction names generalizing values with
  | nil => rfl
  | cons first names inductionHypothesis =>
      cases values with
      | nil => rfl
      | cons value values =>
          simp only [List.map_cons, List.zip_cons_cons, List.lookup_cons]
          split
          · rfl
          · exact inductionHypothesis values

end Assoc

end Quill
