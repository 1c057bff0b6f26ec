/-
Module: Quill.Proofs.Equality
Layer: Proofs
Purpose: What it means that values are equal. A value that holds no floating point number, at any depth and in quoted
  trees included, has a meaning: of an array the meanings of its elements, of a hash a map from keys, of a function or
  a macro its identity, of a builtin its name, of a quotation its tree. Two such values are equal exactly if they mean
  the same, so equality is an equivalence, hashes are compared regardless of the order of their entries, and the
  operators `==` and `!=` and the cases of a switch all decide the same question.
Main exports: Meaning, Value.meaning, Value.Exact, Value.same_iff_meaning, Value.same_iff_key?, ComparedExactly,
  same_compares_exactly
-/
import Mathlib.Data.List.Perm.Subperm
import Quill.Proofs.Tree.Sameness
import Quill.Proofs.Value
import Quill.Proofs.EarlyExit

namespace Quill

/-!
### Keys
-/

theorem Value.key?_eq_some_iff {v : Value} {k : Key} : v.key? = some k ↔ v = k.toValue := by
  cases v <;> cases k <;> simp [Value.key?, Key.toValue]

/-- Values that can be keys are equal if their keys are. -/
theorem Value.same_iff_key? {v w : Value} {k k' : Key} (isKey : v.key? = some k) (isKey' : w.key? = some k') :
    v.same w = true ↔ k = k' := by
  obtain rfl := Value.key?_eq_some_iff.1 isKey
  obtain rfl := Value.key?_eq_some_iff.1 isKey'
  cases k <;> cases k' <;> simp [Key.toValue, Value.same]

/-!
### Meanings
-/

/-- What of a value counts when values are compared. -/
inductive Meaning where
  | null
  | integer (n : Int64)
  | float (x : Float)
  | boolean (b : Bool)
  | text (s : String)
  | array (items : List Meaning)
  /-- what is kept for each key: the meaning of the value that was given as the key, and of the value for it -/
  | hash (entries : Key → Option (Meaning × Meaning))
  | function (identity : Nat)
  | builtin (name : String)
  | error (fault : Fault)
  | returned (content : Meaning)
  | quote (n : Node)
  | macroValue (identity : Nat)

mutual

/-- The meaning of a value. -/
def Value.meaning : Value → Meaning
  | .null => .null
  | .integer n => .integer n
  | .float x => .float x
  | .boolean b => .boolean b
  | .text s => .text s
  | .array items => .array (meanings items)
  | .hash entries => .hash fun k => (entryMeanings entries).lookup k
  | .function c => .function c.identity
  | .builtin b => .builtin b.name
  | .error fault => .error fault
  | .returned v => .returned v.meaning
  | .quote n => .quote n
  | .macroValue m => .macroValue m.identity
termination_by structural v => v

/-- The meanings of some values. -/
def meanings : List Value → List Meaning
  | [] => []
  | v :: vs => v.meaning :: meanings vs
termination_by structural vs => vs

/-- The meanings of some entries. -/
def entryMeanings : List (Key × Value × Value) → List (Key × Meaning × Meaning)
  | [] => []
  | (k, key, value) :: es => (k, key.meaning, value.meaning) :: entryMeanings es
termination_by structural es => es

end

/-- The meaning of what a hash keeps for a key. -/
def pairMeaning (pair : Value × Value) : Meaning × Meaning :=
  (pair.1.meaning, pair.2.meaning)

theorem lookup_entryMeanings (entries : List (Key × Value × Value)) (k : Key) :
    (entryMeanings entries).lookup k = (entries.lookup k).map pairMeaning := by
  induction entries with
  | nil => rfl
  | cons entry rest inductionHypothesis =>
      obtain ⟨first, key, value⟩ := entry
      simp only [entryMeanings, List.lookup_cons]
      split
      · rfl
      · exact inductionHypothesis

/-!
### Exact values
-/

/-- Whether a value is no floating point number and no tree with a floating point literal. -/
def Value.noFloat : Value → Bool
  | .float _ => false
  | .quote n => n.visits.all fun part => !part.isFloat
  | _ => true

/-- Whether a value is no hash, or a hash in which no key comes twice. -/
def Value.isMap : Value → Bool
  | .hash entries => decide (Assoc.keys entries).Nodup
  | _ => true

/-- A value without floating point numbers, in which every hash is a map. -/
structure Value.Exact (v : Value) : Prop where
  floatFree : v.everywhere Value.noFloat = true
  maps : v.everywhere Value.isMap = true

namespace Value.Exact

theorem items {items : List Value} (exact : (Value.array items).Exact) : ∀ v ∈ items, v.Exact := by
  obtain ⟨floatFree, maps⟩ := exact
  simp only [Value.everywhere, Bool.and_eq_true, everywhereIn_iff] at floatFree maps
  exact fun v member => ⟨floatFree.2 v member, maps.2 v member⟩

theorem entries {entries : List (Key × Value × Value)} (exact : (Value.hash entries).Exact) :
    ∀ entry ∈ entries, entry.2.1.Exact ∧ entry.2.2.Exact := by
  obtain ⟨floatFree, maps⟩ := exact
  simp only [Value.everywhere, Bool.and_eq_true, everywhereAmong_iff] at floatFree maps
  intro entry member
  obtain ⟨floatFreeKey, floatFreeValue⟩ := floatFree.2 entry member
  obtain ⟨mapsKey, mapsValue⟩ := maps.2 entry member
  exact ⟨⟨floatFreeKey, mapsKey⟩, ⟨floatFreeValue, mapsValue⟩⟩

theorem distinct {entries : List (Key × Value × Value)} (exact : (Value.hash entries).Exact) :
    (Assoc.keys entries).Nodup := by
  have maps := exact.maps
  simp only [Value.everywhere, Bool.and_eq_true] at maps
  exact of_decide_eq_true maps.1

theorem content {v : Value} (exact : (Value.returned v).Exact) : v.Exact := by
  obtain ⟨floatFree, maps⟩ := exact
  simp only [Value.everywhere, Bool.and_eq_true] at floatFree maps
  exact ⟨floatFree.2, maps.2⟩

theorem quoted {n : Node} (exact : (Value.quote n).Exact) : FloatFree n.visits := by
  have floatFree : (n.visits.all fun part => !part.isFloat) = true := exact.floatFree
  intro part visited
  simpa using List.all_eq_true.1 floatFree part visited

end Value.Exact

/-!
### Maps

Two association lists without repeated keys stand for the same map if they are equally long and each entry of the one
is found in the other.
-/

theorem Assoc.same_map_iff {κ ν β : Type} [DecidableEq κ] (view : ν → β) {entries others : List (κ × ν)}
    (distinct : (keys entries).Nodup) (distinct' : (keys others).Nodup) :
    (entries.length = others.length ∧
      ∀ entry ∈ entries, ∃ other, others.lookup entry.1 = some other ∧ view entry.2 = view other) ↔
    ∀ key, (entries.lookup key).map view = (others.lookup key).map view := by
  have length_keys : ∀ list : List (κ × ν), (keys list).length = list.length := fun list => List.length_map _
  constructor
  · rintro ⟨equallyLong, found⟩ key
    have subset : keys entries ⊆ keys others := by
      intro k member
      obtain ⟨entry, inEntries, rfl⟩ := List.mem_map.1 member
      obtain ⟨other, isFound, _⟩ := found entry inEntries
      exact Assoc.mem_keys_iff.2 (by rw [isFound]; rfl)
    have sameKeys : (keys entries).Perm (keys others) := by
      refine (List.subperm_of_subset distinct subset).perm_of_length_le ?_
      rw [length_keys, length_keys]
      exact Nat.le_of_eq equallyLong.symm
    cases here : entries.lookup key with
    | some value =>
        obtain ⟨other, isFound, alike⟩ := found (key, value) (Assoc.mem_of_lookup here)
        rw [isFound]
        exact congrArg some alike
    | none =>
        -- a key that is missing in the one is missing in the other, since both have the same keys
        have missing : key ∉ keys others := by
          rw [← sameKeys.mem_iff, Assoc.mem_keys_iff, here]
          exact Bool.false_ne_true
        rw [Assoc.mem_keys_iff, Option.not_isSome_iff_eq_none] at missing
        rw [missing]
  · intro sameLookups
    have sameKeys : (keys entries).Perm (keys others) := by
      refine (List.perm_ext_iff_of_nodup distinct distinct').2 fun key => ?_
      have isSome := congrArg Option.isSome (sameLookups key)
      rw [Option.isSome_map, Option.isSome_map] at isSome
      rw [Assoc.mem_keys_iff, Assoc.mem_keys_iff, isSome]
    refine ⟨by rw [← length_keys, ← length_keys, sameKeys.length_eq], fun entry member => ?_⟩
    have sameHere := sameLookups entry.1
    rw [Assoc.lookup_of_mem distinct member] at sameHere
    obtain ⟨other, isFound, alike⟩ := Option.map_eq_some_iff.1 sameHere.symm
    exact ⟨other, isFound, alike.symm⟩

/-!
### Equal values mean the same

The induction is on the first value. For a hash it says that each entry has a match; that the matches make up the whole
map is counted afterwards.
-/

theorem Builtin.name_injective {a b : Builtin} (sameName : a.name = b.name) : a = b := by
  cases a <;> cases b <;> first | rfl | (revert sameName; decide)

mutual

theorem Value.same_iff_meaning : ∀ v w : Value, v.Exact → w.Exact → (v.same w = true ↔ v.meaning = w.meaning)
  | .null, w, _, _ => by cases w <;> simp [Value.same, Value.meaning]
  | .integer _, w, _, _ => by cases w <;> simp [Value.same, Value.meaning]
  | .float x, _, exact, _ => nomatch exact.floatFree
  | .boolean _, w, _, _ => by cases w <;> simp [Value.same, Value.meaning]
  | .text _, w, _, _ => by cases w <;> simp [Value.same, Value.meaning]
  | .array items, w, exact, exact' => by
      cases w with
      | array others =>
          rw [Value.same, Value.meaning, Value.meaning, Meaning.array.injEq]
          exact sameItems_iff_meanings items others exact.items exact'.items
      | _ => simp [Value.same, Value.meaning]
  | .hash entries, w, exact, exact' => by
      cases w with
      | hash others =>
          have matched := sameEntries_iff_meanings entries others exact.entries exact'.entries
          have whole := Assoc.same_map_iff pairMeaning exact.distinct exact'.distinct
          rw [Value.same, Bool.and_eq_true, beq_iff_eq, matched, whole, Value.meaning, Value.meaning,
            Meaning.hash.injEq, funext_iff]
          simp only [lookup_entryMeanings]
      | _ => simp [Value.same, Value.meaning]
  | .function _, w, _, _ => by cases w <;> simp [Value.same, Value.meaning]
  | .builtin b, w, _, _ => by
      cases w with
      | builtin b' =>
          rw [Value.same, Value.meaning, Value.meaning, Meaning.builtin.injEq, decide_eq_true_eq]
          exact ⟨congrArg Builtin.name, Builtin.name_injective⟩
      | _ => simp [Value.same, Value.meaning]
  | .error _, w, _, _ => by cases w <;> simp [Value.same, Value.meaning]
  | .returned v, w, exact, exact' => by
      cases w with
      | returned w =>
          rw [Value.same, Value.meaning, Value.meaning, Meaning.returned.injEq]
          exact v.same_iff_meaning w exact.content exact'.content
      | _ => simp [Value.same, Value.meaning]
  | .quote n, w, exact, _ => by
      have same := Node.same_iff_eq exact.quoted
      cases w <;> simp [Value.same, Value.meaning, same]
  | .macroValue _, w, _, _ => by cases w <;> simp [Value.same, Value.meaning]
termination_by structural v => v

theorem sameItems_iff_meanings : ∀ vs ws : List Value, (∀ v ∈ vs, v.Exact) → (∀ w ∈ ws, w.Exact) →
    (sameItems vs ws = true ↔ meanings vs = meanings ws)
  | [], ws, _, _ => by cases ws <;> simp [sameItems, meanings]
  | v :: vs, [], _, _ => by simp [sameItems, meanings]
  | v :: vs, w :: ws, exact, exact' => by
      obtain ⟨exactFirst, exactRest⟩ := List.forall_mem_cons.1 exact
      obtain ⟨exactFirst', exactRest'⟩ := List.forall_mem_cons.1 exact'
      rw [sameItems, Bool.and_eq_true, v.same_iff_meaning w exactFirst exactFirst',
        sameItems_iff_meanings vs ws exactRest exactRest', meanings, meanings, List.cons.injEq]
termination_by structural vs => vs

theorem sameEntries_iff_meanings : ∀ entries others : List (Key × Value × Value),
    (∀ entry ∈ entries, entry.2.1.Exact ∧ entry.2.2.Exact) → (∀ other ∈ others, other.2.1.Exact ∧ other.2.2.Exact) →
    (sameEntries entries others = true ↔
      ∀ entry ∈ entries, ∃ other, others.lookup entry.1 = some other ∧ pairMeaning entry.2 = pairMeaning other)
  | [], _, _, _ => by simp [sameEntries]
  | (k, key, value) :: rest, others, exact, exact' => by
      obtain ⟨⟨exactKey, exactValue⟩, exactRest⟩ := List.forall_mem_cons.1 exact
      rw [sameEntries, Bool.and_eq_true, sameEntries_iff_meanings rest others exactRest exact', List.forall_mem_cons]
      refine and_congr_left fun _ => ?_
      cases found : others.lookup k with
      | none => simp
      | some pair =>
          obtain ⟨key', value'⟩ := pair
          obtain ⟨exactKey', exactValue'⟩ := exact' _ (Assoc.mem_of_lookup found)
          have sameKey := key.same_iff_meaning key' exactKey exactKey'
          have sameValue := value.same_iff_meaning value' exactValue exactValue'
          simp [sameKey, sameValue, pairMeaning]
termination_by structural entries => entries

end

/-!
### Operators and cases
-/

/-- The operators that compare decide whether two values of one type are equal. -/
theorem Operation.binary_of_kind {v w : Value} (sameKind : v.kind = w.kind) :
    Operation.binary .equal v w = .ok (.boolean (v.same w)) ∧
      Operation.binary .notEqual v w = .ok (.boolean (!v.same w)) := by
  cases v <;> cases w <;> cases sameKind <;> exact ⟨rfl, rfl⟩

section Evaluation

variable {ev : Evaluator} {call : Caller} {rounds : Nat} {scope : ScopeId} {m m₁ m₂ m₃ : Machine} {v w : Value}

theorem evalForm_switch {subject guard : Expr} {before rest : List (Expr × Block)} {body : Block}
    {otherwise : Option Block} (run : ev subject scope m = (.ok v, m₁)) (ordinary : v.Ordinary)
    (skips : Skips ev scope (fun x => x.same v) before m₁ m₂) (guardRun : ev guard scope m₂ = (.ok w, m₃))
    (guardOrdinary : w.Ordinary) :
    evalForm ev call rounds scope (.switch subject (before ++ (guard, body) :: rest) otherwise) m =
      (if w.same v then evalBlock ev scope body else evalClauses ev scope (fun x => x.same v) otherwise rest) m₃ := by
  rw [evalForm, Eval.operand_of_ordinary run ordinary, evalClauses_of_skips skips, evalClauses,
    Eval.operand_of_ordinary guardRun guardOrdinary]

end Evaluation

/-!
### Main result
-/

/-- How equality decides between three values: as an equivalence, by what they mean, as keys do, and in agreement with
    the operators and with the cases of a switch, in whatever way parts are evaluated. -/
structure ComparedExactly (v w u : Value) : Prop where
  refl : v.same v = true
  symm : v.same w = true → w.same v = true
  trans : v.same w = true → w.same u = true → v.same u = true
  meaning : v.same w = true ↔ v.meaning = w.meaning
  keys : v.key?.isSome = true → w.key?.isSome = true → (v.same w = true ↔ v.key? = w.key?)
  operations : v.kind = w.kind → Operation.binary .equal v w = .ok (.boolean (v.same w)) ∧
    Operation.binary .notEqual v w = .ok (.boolean (!v.same w))
  operators : v.kind = w.kind → ∀ {ev call rounds scope left right m m'},
    Passes [ev left scope, ev right scope] m [v, w] m' →
      evalForm ev call rounds scope (.binary .equal left right) m = (.ok (.boolean (v.same w)), m') ∧
        evalForm ev call rounds scope (.binary .notEqual left right) m = (.ok (.boolean (!v.same w)), m')
  /-- `v` is the subject of a switch and `w` the value of a case that it comes to -/
  matching : v.kind = w.kind → v.Ordinary → w.Ordinary →
    ∀ {ev call rounds scope subject before guard body rest otherwise m m₁ m₂ m₃},
      ev subject scope m = (.ok v, m₁) → Skips ev scope (fun x => x.same v) before m₁ m₂ →
        ev guard scope m₂ = (.ok w, m₃) →
          (Operation.binary .equal v w = .ok (.boolean true) →
            evalForm ev call rounds scope (.switch subject (before ++ (guard, body) :: rest) otherwise) m =
              evalBlock ev scope body m₃) ∧
          (Operation.binary .equal v w = .ok (.boolean false) →
            evalForm ev call rounds scope (.switch subject (before ++ (guard, body) :: rest) otherwise) m =
              evalClauses ev scope (fun x => x.same v) otherwise rest m₃)

/-- Equality of values without floating point numbers is an equivalence that compares what they mean, and everything
    that compares such values of one type asks this equality. -/
theorem same_compares_exactly {v w u : Value} (exactV : v.Exact) (exactW : w.Exact) (exactU : u.Exact) :
    ComparedExactly v w u := by
  have meaning := v.same_iff_meaning w exactV exactW
  have meaning' := w.same_iff_meaning v exactW exactV
  have symm : v.same w = w.same v := Bool.eq_iff_iff.2 (by rw [meaning, meaning', eq_comm])
  refine ⟨?_, ?_, ?_, meaning, ?_, Operation.binary_of_kind, ?_, ?_⟩
  · exact (v.same_iff_meaning v exactV exactV).2 rfl
  · exact fun same => symm ▸ same
  · intro first second
    rw [meaning] at first
    rw [w.same_iff_meaning u exactW exactU] at second
    exact (v.same_iff_meaning u exactV exactU).2 (first.trans second)
  · intro isKey isKey'
    obtain ⟨k, isKey⟩ := Option.isSome_iff_exists.1 isKey
    obtain ⟨k', isKey'⟩ := Option.isSome_iff_exists.1 isKey'
    rw [Value.same_iff_key? isKey isKey', isKey, isKey', Option.some.injEq]
  · intro sameKind ev call rounds scope left right m m' passes
    obtain ⟨equal, notEqual⟩ := Operation.binary_of_kind sameKind
    rw [evalForm_of_strict rfl passes, evalForm_of_strict rfl passes, equal, notEqual]
    exact ⟨rfl, rfl⟩
  · intro sameKind ordinary ordinary' ev call rounds scope subject before guard body rest otherwise m m₁ m₂ m₃
      run skips guardRun
    rw [evalForm_switch run ordinary skips guardRun ordinary', (Operation.binary_of_kind sameKind).1, ← symm]
    cases v.same w with
    | true => exact ⟨fun _ => rfl, fun otherwise => by simp at otherwise⟩
    | false => exact ⟨fun otherwise => by simp at otherwise, fun _ => rfl⟩

/-- Two hashes with the same entries in different orders, and an array of both. -/
theorem same_compares_exactly_reordered :
    let one : Value := .quote (.expr (.integer 1))
    let v : Value := .hash [(.integer 1, .integer 1, one), (.text "1", .text "1", .array [.null])]
    let w : Value := .hash [(.text "1", .text "1", .array [.null]), (.integer 1, .integer 1, one)]
    let u : Value := .array [v, w]
    v.Exact ∧ w.Exact ∧ u.Exact ∧ v.same w = true ∧ w.same u = false ∧ ComparedExactly v w u := by
  intro one v w u
  have exactV : v.Exact := ⟨by decide, by decide⟩
  have exactW : w.Exact := ⟨by decide, by decide⟩
  have exactU : u.Exact := ⟨by decide, by decide⟩
  exact ⟨exactV, exactW, exactU, by decide, by decide, same_compares_exactly exactV exactW exactU⟩

end Quill
