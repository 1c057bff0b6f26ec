/-
Module: Quill.Proofs.Value
Layer: Proofs
Purpose: Tests of a value and of everything in it. `Value.everywhere test` looks at a value, at the elements of
  arrays, at the keys and values of hashes and at the content of pending returns, at any depth. What holds everywhere
  in an array or a hash is told from its parts, and a weaker test holds wherever a stronger one does.
Main exports: Value.everywhere, everywhereIn_iff, everywhereAmong_iff, everywhereAmong_set,
  Value.everywhere_mono
-/
import Quill.Proofs.Assoc
import Quill.Value

namespace Quill

mutual

/-- Whether a test holds of a value and of every value in it. What a function, a macro or a quotation holds is
    no value. -/
def Value.everywhere (test : Value → Bool) : Value → Bool
  | .array items => test (.array items) && everywhereIn test items
  | .hash entries => test (.hash entries) && everywhereAmong test entries
  | .returned v => test (.returned v) && v.everywhere test
  | v => test v
termination_by structural v => v

/-- Whether a test holds everywhere in some values. -/
def everywhereIn (test : Value → Bool) : List Value → Bool
  | [] => true
  | v :: vs => v.everywhere test && everywhereIn test vs
termination_by structural vs => vs

/-- Whether a test holds everywhere in the keys and values of some entries. -/
def everywhereAmong (test : Value → Bool) : List (Key × Value × Value) → Bool
  | [] => true
  | (_, key, value) :: entries => key.everywhere test && value.everywhere test && everywhereAmong test entries
termination_by structural entries => entries

end

variable {test weaker : Value → Bool}

theorem everywhereIn_iff (vs : List Value) :
    everywhereIn test vs = true ↔ ∀ v ∈ vs, v.everywhere test = true := by
  induction vs with
  | nil => simp [everywhereIn]
  | cons v vs inductionHypothesis => simp [everywhereIn, inductionHypothesis]

theorem everywhereAmong_iff (entries : List (Key × Value × Value)) :
    everywhereAmong test entries = true ↔
      ∀ entry ∈ entries, entry.2.1.everywhere test = true ∧ entry.2.2.everywhere test = true := by
  induction entries with
  | nil => simp [everywhereAmong]
  | cons entry entries inductionHypothesis =>
      obtain ⟨k, key, value⟩ := entry
      simp only [everywhereAmong, Bool.and_eq_true, inductionHypothesis, List.forall_mem_cons]

theorem everywhereAmong_set {k : Key} {key value : Value} {entries : List (Key × Value × Value)}
    (among : everywhereAmong test entries = true) (ofKey : key.everywhere test = true)
    (ofValue : value.everywhere test = true) :
    everywhereAmong test (Assoc.set k (key, value) entries) = true := by
  rw [everywhereAmong_iff] at among ⊢
  intro entry member
  rcases Assoc.mem_set member with rfl | old
  · exact ⟨ofKey, ofValue⟩
  · exact among entry old

mutual

theorem Value.everywhere_mono (weakens : ∀ v, test v = true → weaker v = true) : ∀ v : Value,
    v.everywhere test = true → v.everywhere weaker = true
  | .array items, holds => by
      simp only [Value.everywhere, Bool.and_eq_true] at holds ⊢
      exact ⟨weakens _ holds.1, everywhereIn_mono weakens items holds.2⟩
  | .hash entries, holds => by
      simp only [Value.everywhere, Bool.and_eq_true] at holds ⊢
      exact ⟨weakens _ holds.1, everywhereAmong_mono weakens entries holds.2⟩
  | .returned v, holds => by
      simp only [Value.everywhere, Bool.and_eq_true] at holds ⊢
      exact ⟨weakens _ holds.1, Value.everywhere_mono weakens v holds.2⟩
  | .null, holds | .integer _, holds | .float _, holds | .boolean _, holds | .text _, holds
  | .function _, holds | .builtin _, holds | .error _, holds | .quote _, holds
  | .macroValue _, holds => weakens _ holds
termination_by structural v => v

theorem everywhereIn_mono (weakens : ∀ v, test v = true → weaker v = true) : ∀ vs : List Value,
    everywhereIn test vs = true → everywhereIn weaker vs = true
  | [], _ => rfl
  | v :: vs, holds => by
      simp only [everywhereIn, Bool.and_eq_true] at holds ⊢
      exact ⟨Value.everywhere_mono weakens v holds.1, everywhereIn_mono weakens vs holds.2⟩
termination_by structural vs => vs

theorem everywhereAmong_mono (weakens : ∀ v, test v = true → weaker v = true) :
    ∀ entries : List (Key × Value × Value),
      everywhereAmong test entries = true → everywhereAmong weaker entries = true
  | [], _ => rfl
  | (_, key, value) :: entries, holds => by
      simp only [everywhereAmong, Bool.and_eq_true] at holds ⊢
      exact ⟨⟨Value.everywhere_mono weakens key holds.1.1, Value.everywhere_mono weakens value holds.1.2⟩,
        everywhereAmong_mono weakens entries holds.2⟩
termination_by structural entries => entries

end

end Quill
