/-
Module: Quill.Proofs.Hashes
Layer: Proofs
Purpose: Hashes are maps, in every state of a session. A hash is kept in three views: what tells its keys apart, the
  values that were given as keys, and the values for them. In every hash that a session stores, yields or hands
  around, at any depth, no key comes twice and each key is that of the value that was given. So what is asked through
  one view agrees with what is asked through the others: the builtins that list and count the keys, and indexing. A
  literal gives for each key the value of the last pair with that key, in whatever order the other pairs come.
Main exports: KeepsKeys, hashLaw, HashAgrees, lastGiven, LiteralGives, session_keeps_hashes
-/
import Mathlib.Data.List.Nodup
import Quill.Proofs.Equality
import Quill.Proofs.Discipline.Sessions

namespace Quill

/-!
### Hashes that keep their keys
-/

/-- No key comes twice, and each one is the key of the value that is kept with it. -/
structure KeepsKeys (entries : List (Key × Value × Value)) : Prop where
  distinct : (Assoc.keys entries).Nodup
  kept : ∀ entry ∈ entries, entry.2.1.key? = some entry.1

instance (entries : List (Key × Value × Value)) : Decidable (KeepsKeys entries) :=
  decidable_of_iff ((Assoc.keys entries).Nodup ∧ ∀ entry ∈ entries, entry.2.1.key? = some entry.1)
    ⟨fun both => ⟨both.1, both.2⟩, fun keeps => ⟨keeps.distinct, keeps.kept⟩⟩

theorem keepsKeys_nil : KeepsKeys [] :=
  ⟨List.nodup_nil, fun _ member => nomatch member⟩

theorem KeepsKeys.set {entries : List (Key × Value × Value)} {k : Key} {key value : Value} (keeps : KeepsKeys entries)
    (isKey : key.key? = some k) : KeepsKeys (Assoc.set k (key, value) entries) := by
  refine ⟨Assoc.nodup_keys_set keeps.distinct, fun entry member => ?_⟩
  rcases Assoc.mem_set member with rfl | old
  · exact isKey
  · exact keeps.kept entry old

/-- Whether a value is no hash, or a hash that keeps its keys. -/
def Value.keepsKeys : Value → Bool
  | .hash entries => decide (KeepsKeys entries)
  | _ => true

/-- Whether every hash in a value, at any depth, keeps its keys. -/
def Value.hashesKeepKeys (v : Value) : Bool :=
  v.everywhere Value.keepsKeys

theorem hashesKeepKeys_hash_iff {entries : List (Key × Value × Value)} :
    (Value.hash entries).hashesKeepKeys = true ↔
      KeepsKeys entries ∧ everywhereAmong Value.keepsKeys entries = true := by
  simp only [Value.hashesKeepKeys, Value.everywhere, Value.keepsKeys, Bool.and_eq_true, decide_eq_true_eq]

/-- Keeping keys is passed on by evaluation. -/
def hashLaw : ValueLaw :=
  .everywhere Value.keepsKeys
    (fun v isAtomic => by cases v <;> first | rfl | cases isAtomic)
    (fun _ => rfl) (fun _ => rfl) (fun _ => rfl) (fun _ => rfl) (decide_eq_true keepsKeys_nil)
    (fun _ _ _ _ keeps isKey => decide_eq_true ((of_decide_eq_true keeps).set isKey))

instance : DecidablePred hashLaw.good :=
  fun v => inferInstanceAs (Decidable (v.hashesKeepKeys = true))

/-!
### The views of a hash agree
-/

namespace KeepsKeys

variable {entries : List (Key × Value × Value)} (keeps : KeepsKeys entries)

include keeps

/-- The values that were given as keys are the keys themselves. -/
theorem given_eq : entries.map (fun entry => entry.2.1) = (Assoc.keys entries).map Key.toValue := by
  rw [Assoc.keys, List.map_map]
  exact List.map_congr_left fun entry member => Value.key?_eq_some_iff.1 (keeps.kept entry member)

/-- A value is equal to one that was given as a key if there is an entry for its key. -/
theorem exists_given_iff {x : Value} {k : Key} (isKey : x.key? = some k) :
    (∃ key ∈ entries.map fun entry => entry.2.1, x.same key = true) ↔ (entries.lookup k).isSome = true := by
  rw [← Assoc.mem_keys_iff]
  constructor
  · rintro ⟨key, given, same⟩
    obtain ⟨entry, member, rfl⟩ := List.mem_map.1 given
    obtain rfl := (Value.same_iff_key? isKey (keeps.kept entry member)).1 same
    exact List.mem_map_of_mem member
  · intro inKeys
    obtain ⟨entry, member, rfl⟩ := List.mem_map.1 inKeys
    exact ⟨entry.2.1, List.mem_map_of_mem member, (Value.same_iff_key? isKey (keeps.kept entry member)).2 rfl⟩

theorem given_pairwise :
    (entries.map fun entry => entry.2.1).Pairwise fun key key' => key.same key' = false := by
  rw [keeps.given_eq, List.pairwise_map]
  refine keeps.distinct.imp fun {k k'} different => ?_
  have isKey : ∀ k : Key, k.toValue.key? = some k := fun k => Value.key?_eq_some_iff.2 rfl
  rw [Bool.eq_false_iff, Ne, Value.same_iff_key? (isKey k) (isKey k')]
  exact different

end KeepsKeys

/-- What the ways to ask a hash say together. -/
structure HashAgrees (entries : List (Key × Value × Value)) (given : List Value) : Prop where
  keys : ∀ m, Builtin.keys.call [.hash entries] m = (.ok (.array given), m)
  len : ∀ m, Builtin.len.call [.hash entries] m = (.ok (Builtin.ofCount given.length), m)
  different : given.Pairwise fun key key' => key.same key' = false
  usable : ∀ key ∈ given, key.key?.isSome = true
  found : ∀ x, x.key?.isSome = true →
    ((∃ v, Operation.index (.hash entries) x = .ok v) ↔ ∃ key ∈ given, x.same key = true)
  missing : ∀ x, x.key?.isSome = true → (∀ key ∈ given, x.same key = false) →
    Operation.index (.hash entries) x = .error (.missingKey x.render)
  unusable : ∀ x, x.key? = none → Operation.index (.hash entries) x = .error (.unusableKey x.kind)

theorem index_of_key {entries : List (Key × Value × Value)} {x : Value} {k : Key} (isKey : x.key? = some k) :
    Operation.index (.hash entries) x =
      match (entries.lookup k).map Prod.snd with
      | some v => .ok v
      | none => .error (.missingKey x.render) := by
  simp only [Operation.index, isKey]
  cases entries.lookup k <;> rfl

theorem KeepsKeys.agrees {entries : List (Key × Value × Value)} (keeps : KeepsKeys entries) :
    HashAgrees entries (entries.map fun entry => entry.2.1) where
  keys m := rfl
  len m := by rw [List.length_map]; rfl
  different := keeps.given_pairwise
  usable := by
    intro key given
    obtain ⟨entry, member, rfl⟩ := List.mem_map.1 given
    rw [keeps.kept entry member]
    rfl
  found := by
    intro x usable
    obtain ⟨k, isKey⟩ := Option.isSome_iff_exists.1 usable
    rw [keeps.exists_given_iff isKey, index_of_key isKey]
    cases entries.lookup k <;> simp
  missing := by
    intro x usable notGiven
    obtain ⟨k, isKey⟩ := Option.isSome_iff_exists.1 usable
    have notThere : ¬(entries.lookup k).isSome = true := by
      rw [← keeps.exists_given_iff isKey]
      rintro ⟨key, given, same⟩
      simp [notGiven key given] at same
    rw [index_of_key isKey, Option.not_isSome_iff_eq_none.1 notThere]
    rfl
  unusable x notKey := by simp [Operation.index, notKey]

/-!
### Literals
-/

/-- The value of the last pair whose key equals a value. -/
def lastGiven (given : List (Value × Value)) (x : Value) : Option Value :=
  (given.reverse.find? fun pair => pair.1.same x).map Prod.snd

theorem lastGiven_cons (pair : Value × Value) (rest : List (Value × Value)) (x : Value) :
    lastGiven (pair :: rest) x = (lastGiven rest x).or (if pair.1.same x then some pair.2 else none) := by
  rw [lastGiven, List.reverse_cons, List.find?_append, Option.map_or, lastGiven, List.find?_singleton]
  cases pair.1.same x <;> rfl

/-- Which pair is the last one with a key depends only on the pairs with that key. -/
theorem lastGiven_eq_getLast? (given : List (Value × Value)) (x : Value) :
    lastGiven given x = ((given.filter fun pair => pair.1.same x).getLast?).map Prod.snd := by
  rw [lastGiven, ← List.head?_filter, List.filter_reverse, List.head?_reverse]

/-- Enters pairs into a hash, one after the other, up to one that has no key. -/
def enter (entries : List (Key × Value × Value)) : List (Value × Value) → List (Key × Value × Value)
  | [] => entries
  | (key, value) :: rest =>
    match key.key? with
    | some k => enter (Assoc.set k (key, value) entries) rest
    | none => entries

theorem keepsKeys_enter {entries : List (Key × Value × Value)} (given : List (Value × Value))
    (keeps : KeepsKeys entries) : KeepsKeys (enter entries given) := by
  induction given generalizing entries with
  | nil => exact keeps
  | cons pair rest inductionHypothesis =>
      obtain ⟨key, value⟩ := pair
      rw [enter]
      split
      · rename_i k isKey
        exact inductionHypothesis (keeps.set isKey)
      · exact keeps

/-- The value for a key is the last one that was entered for it, or else the one that was there. -/
theorem lookup_enter {entries : List (Key × Value × Value)} {given : List (Value × Value)}
    (usable : ∀ pair ∈ given, pair.1.key?.isSome = true) {x : Value} {k : Key} (isKey : x.key? = some k) :
    ((enter entries given).lookup k).map Prod.snd = (lastGiven given x).or ((entries.lookup k).map Prod.snd) := by
  induction given generalizing entries with
  | nil => rfl
  | cons pair rest inductionHypothesis =>
      obtain ⟨key, value⟩ := pair
      obtain ⟨isUsable, restUsable⟩ := List.forall_mem_cons.1 usable
      obtain ⟨k', isKey'⟩ := Option.isSome_iff_exists.1 isUsable
      have entered : enter entries ((key, value) :: rest) = enter (Assoc.set k' (key, value) entries) rest := by
        rw [enter, isKey']
      rw [entered, inductionHypothesis restUsable, Assoc.lookup_set, lastGiven_cons]
      simp only [Value.same_iff_key? isKey' isKey, eq_comm (a := k)]
      by_cases same : k' = k
      · simp [same]
      · simp [same]

/-- An entry of a hash that keeps its keys is told from the value for its key. -/
theorem KeepsKeys.mem_iff {entries : List (Key × Value × Value)} {entry : Key × Value × Value}
    (keeps : KeepsKeys entries) :
    entry ∈ entries ↔
      (entries.lookup entry.1).map Prod.snd = some entry.2.2 ∧ entry.2.1 = entry.1.toValue := by
  obtain ⟨k, key, value⟩ := entry
  constructor
  · intro member
    rw [Assoc.lookup_of_mem keeps.distinct member]
    exact ⟨rfl, Value.key?_eq_some_iff.1 (keeps.kept _ member)⟩
  · rintro ⟨found, isKey⟩
    obtain ⟨⟨key', value'⟩, isFound, sameValue⟩ := Option.map_eq_some_iff.1 found
    have member := Assoc.mem_of_lookup isFound
    have isKey' : key' = k.toValue := Value.key?_eq_some_iff.1 (keeps.kept _ member)
    obtain rfl : value' = value := sameValue
    obtain rfl : key' = key := isKey'.trans isKey.symm
    exact member

theorem KeepsKeys.perm_of_lookup {entries others : List (Key × Value × Value)} (keeps : KeepsKeys entries)
    (keeps' : KeepsKeys others)
    (sameValues : ∀ k, (entries.lookup k).map Prod.snd = (others.lookup k).map Prod.snd) : entries.Perm others := by
  have nodup : entries.Nodup := List.Nodup.of_map _ keeps.distinct
  have nodup' : others.Nodup := List.Nodup.of_map _ keeps'.distinct
  -- neither list has an entry twice, so it is enough that they have the same ones
  refine (List.perm_ext_iff_of_nodup nodup nodup').2 fun entry => ?_
  rw [keeps.mem_iff, keeps'.mem_iff, sameValues]

section Evaluation

variable {ev : Evaluator} {scope : ScopeId} {m m' : Machine}

/-- The keys and values of pairs, in the order in which a literal evaluates them. -/
def alternating {α : Type} (pairs : List (α × α)) : List α :=
  pairs.flatMap fun pair => [pair.1, pair.2]

/-- A literal enters the pairs that it evaluates. The induction is on the pairs, from whatever was entered before. -/
theorem evalEntries_of_given {before rest : List (Expr × Expr)} {given : List (Value × Value)}
    {entries : List (Key × Value × Value)}
    (passes : Passes ((alternating before).map (ev · scope)) m (alternating given) m')
    (usable : ∀ pair ∈ given, pair.1.key?.isSome = true) :
    evalEntries ev scope entries (before ++ rest) m = evalEntries ev scope (enter entries given) rest m' := by
  induction before generalizing given entries m with
  | nil =>
      cases given with
      | nil =>
          cases passes
          rfl
      | cons pair given => cases passes
  | cons pair before inductionHypothesis =>
      cases given with
      | nil => cases passes
      | cons pair' given =>
          obtain ⟨key, value⟩ := pair
          obtain ⟨k, v⟩ := pair'
          obtain ⟨isUsable, restUsable⟩ := List.forall_mem_cons.1 usable
          obtain ⟨k', isKey⟩ := Option.isSome_iff_exists.1 isUsable
          rcases passes with _ | ⟨keyRun, keyOrdinary, _ | ⟨valueRun, valueOrdinary, others⟩⟩
          rw [List.cons_append, evalEntries, Eval.operand_of_ordinary keyRun keyOrdinary]
          simp only [isKey, enter]
          rw [Eval.operand_of_ordinary valueRun valueOrdinary]
          exact inductionHypothesis others restUsable

end Evaluation

/-- What a literal gives, in whatever way its parts are evaluated. -/
structure LiteralGives (ev : Evaluator) (call : Caller) (rounds : Nat) (scope : ScopeId) : Prop where
  hash : ∀ {pairs given m m'}, Passes ((alternating pairs).map (ev · scope)) m (alternating given) m' →
    (∀ pair ∈ given, pair.1.key?.isSome = true) →
      evalForm ev call rounds scope (.hash pairs) m = (.ok (.hash (enter [] given)), m')
  /-- a value that cannot be a key is met before the value for it is evaluated -/
  refused : ∀ {before key value rest given k m m' m''},
    Passes ((alternating before).map (ev · scope)) m (alternating given) m' →
    (∀ pair ∈ given, pair.1.key?.isSome = true) → ev key scope m' = (.ok k, m'') → k.Ordinary → k.key? = none →
      evalForm ev call rounds scope (.hash (before ++ (key, value) :: rest)) m =
        (.error (.fault (.unusableKey k.kind)), m'')

theorem literal_gives (ev : Evaluator) (call : Caller) (rounds : Nat) (scope : ScopeId) :
    LiteralGives ev call rounds scope where
  hash := by
    intro pairs given m m' passes usable
    have entered : evalEntries ev scope [] (pairs ++ []) m = evalEntries ev scope (enter [] given) [] m' :=
      evalEntries_of_given passes usable
    rw [List.append_nil] at entered
    exact entered
  refused := by
    intro before key value rest given k m m' m'' passes usable run ordinary notKey
    rw [evalForm, evalEntries_of_given passes usable, evalEntries, Eval.operand_of_ordinary run ordinary]
    simp only [notKey]
    rfl

/-- What the hash of some pairs holds. -/
structure HoldsLast (given : List (Value × Value)) : Prop where
  last : ∀ x, x.key?.isSome = true → Operation.index (.hash (enter [] given)) x =
    match lastGiven given x with
    | some v => .ok v
    | none => .error (.missingKey x.render)
  /-- only the order of pairs whose keys are equal counts -/
  order : ∀ given', (∀ pair ∈ given', pair.1.key?.isSome = true) →
    (∀ x, (given'.filter fun pair => pair.1.same x) = given.filter fun pair => pair.1.same x) →
      (enter [] given').Perm (enter [] given) ∧
        ∀ x, Operation.index (.hash (enter [] given')) x = Operation.index (.hash (enter [] given)) x

theorem holds_last {given : List (Value × Value)} (usable : ∀ pair ∈ given, pair.1.key?.isSome = true) :
    HoldsLast given where
  last := by
    intro x isUsable
    obtain ⟨k, isKey⟩ := Option.isSome_iff_exists.1 isUsable
    rw [index_of_key isKey, lookup_enter usable isKey]
    cases lastGiven given x <;> rfl
  order := by
    intro given' usable' samePairs
    have sameValues : ∀ k, ((enter [] given').lookup k).map Prod.snd = ((enter [] given).lookup k).map Prod.snd := by
      intro k
      have isKey : k.toValue.key? = some k := Value.key?_eq_some_iff.2 rfl
      rw [lookup_enter usable' isKey, lookup_enter usable isKey, lastGiven_eq_getLast?, lastGiven_eq_getLast?,
        samePairs]
    refine ⟨(keepsKeys_enter given' keepsKeys_nil).perm_of_lookup (keepsKeys_enter given keepsKeys_nil) sameValues, ?_⟩
    intro x
    cases isKey : x.key? with
    | none => simp only [Operation.index, isKey]
    | some k => rw [index_of_key isKey, index_of_key isKey, sameValues]

/-!
### Main result
-/

/-- Hashes in a session are maps, the ways to ask them agree, and literals fill them pair by pair. -/
structure Session.KeepsHashes (s : Session) : Prop where
  obeyed : hashLaw.Obeyed s
  agrees : ∀ entries, (Value.hash entries).hashesKeepKeys = true →
    ∃ given, HashAgrees entries given ∧ given.length = entries.length
  literal : ∀ ev call rounds scope, LiteralGives ev call rounds scope
  holds : ∀ given, (∀ pair ∈ given, pair.1.key?.isSome = true) → KeepsKeys (enter [] given) ∧ HoldsLast given

/-- In whatever state a session is, every hash keeps its keys. -/
theorem session_keeps_hashes {s : Session} (reachable : s.Reachable) : s.KeepsHashes where
  obeyed := ValueLaw.obeyed_of_reachable reachable
  agrees _ keeps := ⟨_, (hashesKeepKeys_hash_iff.1 keeps).1.agrees, List.length_map _⟩
  literal := literal_gives
  holds given usable := ⟨keepsKeys_enter given keepsKeys_nil, holds_last usable⟩

/-- Three keys of a hash look alike and one comes twice, a function makes another hash of a stored key, and the second
    text fails for want of a key. -/
theorem session_keeps_hashes_after_missing_key :
    (((Session.start .unlimited).eval 40
      "let one = \"1\"; let h = {1: 2, true: 3, one: {1: []}, 1: [fn(x) { {x: x} }]};").2.eval 40
      "let g = h[1][0](keys(h)[0]); g[len(h)]").2.KeepsHashes :=
  session_keeps_hashes (.step 40 _ (.step 40 _ (.start .unlimited)))

end Quill
