/-
Module: Quill.Proofs.Parser.Reading
Layer: Proofs
Purpose: How computations that read tokens are reasoned about. `Parse.Reads` is a run that yields something
  and reports nothing, and it splits along `>>=`. `Parse.Settles` says that a run yields something or
  reports something, so that nothing is dropped in silence. Both look at the words that lie ahead of a
  cursor, of which the end of the text is the last one and only the last one.
Main exports: Cursor.words, Cursor.ahead, Ended, Parse.Reads, Parse.reads_bind, Parse.Settles,
  Parse.Settles.bind, Room
-/
import Quill.Parser.Cursor

namespace Quill

/-!
### Words
-/

namespace Cursor

/-- The lexemes behind the current token. -/
def ahead (c : Cursor) : List Lexeme :=
  c.upcoming.map Token.lexeme

/-- The lexemes from the current token on. -/
def words (c : Cursor) : List Lexeme :=
  c.current.lexeme :: c.ahead

end Cursor

/-- The end of the text is the last word, and no other word. -/
def Ended : List Lexeme → Prop
  | [] => False
  | w :: ws => if w = .endOfText then ws = [] else Ended ws

namespace Ended

variable {w : Lexeme} {ws vs : List Lexeme}

theorem nonempty (ended : Ended ws) : ws ≠ [] := by
  rintro rfl
  exact ended

theorem tail (ended : Ended (w :: ws)) (more : w ≠ .endOfText) : Ended ws := by
  simpa [Ended, more] using ended

theorem suffix (ended : Ended ws) (isSuffix : vs <:+ ws) (some : vs ≠ []) : Ended vs := by
  induction ws with
  | nil => exact ended.elim
  | cons w ws inductionHypothesis =>
      rcases List.suffix_cons_iff.1 isSuffix with rfl | inTail
      · exact ended
      · by_cases last : w = .endOfText
        · have isEmpty : ws = [] := by simpa [Ended, last] using ended
          rw [isEmpty, List.suffix_nil] at inTail
          exact absurd inTail some
        · exact inductionHypothesis (ended.tail last) inTail

end Ended

namespace Cursor

variable {c c' : Cursor}

theorem words_ne_nil (c : Cursor) : c.words ≠ [] :=
  List.cons_ne_nil _ _

theorem advance_of_ahead {w : Lexeme} {ws : List Lexeme} (isAhead : c.ahead = w :: ws) :
    c.advance.words = w :: ws ∧ c.advance.diagnostics = c.diagnostics ∧ c.peek = c.advance.current := by
  obtain ⟨token, upcoming, diagnostics⟩ := c
  cases upcoming with
  | nil => cases isAhead
  | cons next rest => exact ⟨isAhead, rfl, rfl⟩

theorem advance_words (some : c.ahead ≠ []) : c.advance.words = c.ahead := by
  obtain ⟨w, ws, isAhead⟩ := List.exists_cons_of_ne_nil some
  rw [(advance_of_ahead isAhead).1, isAhead]

theorem peek_lexeme (c : Cursor) : c.peek.lexeme = c.ahead.headD c.current.lexeme := by
  obtain ⟨token, upcoming, diagnostics⟩ := c
  cases upcoming <;> rfl

theorem Precedes.words (precedes : c.Precedes c') : c'.words <:+ c.words := by
  obtain ⟨before, isPrefix⟩ := precedes.tokens
  refine ⟨before.map Token.lexeme, ?_⟩
  have mapped := congrArg (List.map Token.lexeme) isPrefix
  simpa [Cursor.words, Cursor.ahead] using mapped

theorem Precedes.length_le (precedes : c.Precedes c') : c'.words.length ≤ c.words.length :=
  precedes.words.length_le

theorem Precedes.ended (precedes : c.Precedes c') (ended : Ended c.words) : Ended c'.words :=
  ended.suffix precedes.words c'.words_ne_nil

/-- A diagnostic that was made along the way is still there at the end. -/
theorem Precedes.quiet {c'' : Cursor} (first : c.Precedes c') (second : c'.Precedes c'')
    (quiet : c''.diagnostics = c.diagnostics) :
    c'.diagnostics = c.diagnostics ∧ c''.diagnostics = c'.diagnostics := by
  have back : c'.diagnostics <:+ c.diagnostics := quiet ▸ second.diagnostics
  have same : c'.diagnostics = c.diagnostics :=
    back.eq_of_length (Nat.le_antisymm back.length_le first.diagnostics.length_le)
  exact ⟨same, quiet.trans same.symm⟩

end Cursor

namespace Parse

variable {α β : Type} {c c' : Cursor}

/-!
### Reading without a report
-/

/-- Run from `c`, the computation yields `a` at `c'` and reports nothing. -/
def Reads (p : Parse α) (c : Cursor) (a : α) (c' : Cursor) : Prop :=
  p.run c = (some a, c') ∧ c'.diagnostics = c.diagnostics

theorem Reads.precedes {p : Parse α} {a : α} (reads : p.Reads c a c') : c.Precedes c' := by
  have forward := p.forward c
  rwa [reads.1] at forward

@[simp] theorem reads_pure {a b : α} : (pure a : Parse α).Reads c b c' ↔ b = a ∧ c' = c := by
  constructor
  · rintro ⟨run, _⟩
    cases run
    exact ⟨rfl, rfl⟩
  · rintro ⟨rfl, rfl⟩
    exact ⟨rfl, rfl⟩

@[simp] theorem reads_bind {p : Parse α} {f : α → Parse β} {b : β} :
    (p >>= f).Reads c b c' ↔ ∃ a c₁, p.Reads c a c₁ ∧ (f a).Reads c₁ b c' := by
  constructor
  · rintro ⟨run, quiet⟩
    change (andThen p f).run c = _ at run
    rcases first : p.run c with ⟨_ | a, c₁⟩
    · simp [andThen, first] at run
    · have second : (f a).run c₁ = (some b, c') := by simpa [andThen, first] using run
      have forward := p.forward c
      have forward' := (f a).forward c₁
      rw [first] at forward
      rw [second] at forward'
      obtain ⟨quiet₁, quiet₂⟩ := forward.quiet forward' quiet
      exact ⟨a, c₁, ⟨first, quiet₁⟩, second, quiet₂⟩
  · rintro ⟨a, c₁, ⟨first, quiet₁⟩, second, quiet₂⟩
    refine ⟨?_, quiet₂.trans quiet₁⟩
    show (andThen p f).run c = _
    simp [andThen, first, second]

@[simp] theorem reads_drop {a : α} : ¬ (drop : Parse α).Reads c a c' := by
  rintro ⟨run, _⟩
  cases run

@[simp] theorem reads_report {position : Position} {problem : Problem} {a : α} :
    ¬ (report position problem : Parse α).Reads c a c' := by
  rintro ⟨run, _⟩
  cases run

@[simp] theorem reads_unexpected {token : Token} {kind : Kind} {a : α} :
    ¬ (unexpected token kind : Parse α).Reads c a c' :=
  reads_report

@[simp] theorem reads_look {view : Cursor → α} {a : α} :
    (look view).Reads c a c' ↔ a = view c ∧ c' = c := by
  constructor
  · rintro ⟨run, _⟩
    cases run
    exact ⟨rfl, rfl⟩
  · rintro ⟨rfl, rfl⟩
    exact ⟨rfl, rfl⟩

@[simp] theorem reads_current {token : Token} :
    current.Reads c token c' ↔ token = c.current ∧ c' = c :=
  reads_look

@[simp] theorem reads_peek {token : Token} : peek.Reads c token c' ↔ token = c.peek ∧ c' = c :=
  reads_look

@[simp] theorem reads_currentIs {kind : Kind} {b : Bool} :
    (currentIs kind).Reads c b c' ↔ b = c.current.hasKind kind ∧ c' = c :=
  reads_look

@[simp] theorem reads_peekIs {kind : Kind} {b : Bool} :
    (peekIs kind).Reads c b c' ↔ b = c.peek.hasKind kind ∧ c' = c :=
  reads_look

@[simp] theorem reads_advance {u : Unit} : advance.Reads c u c' ↔ c' = c.advance := by
  constructor
  · rintro ⟨run, _⟩
    cases run
    rfl
  · rintro rfl
    refine ⟨rfl, ?_⟩
    unfold Cursor.advance
    split <;> rfl

@[simp] theorem reads_expect {kind : Kind} {u : Unit} :
    (expect kind).Reads c u c' ↔ c.peek.hasKind kind = true ∧ c' = c.advance := by
  unfold expect
  by_cases isKind : c.peek.hasKind kind = true <;> simp [isKind]

@[simp] theorem reads_expectSymbol {s : Symbol} {u : Unit} :
    (expectSymbol s).Reads c u c' ↔ c.peek.hasKind (.symbol s) = true ∧ c' = c.advance :=
  reads_expect

/-- A tolerated computation that reports nothing has been read, or was dropped in silence. -/
theorem reads_tolerate {p : Parse α} {a? : Option α} :
    (tolerate p).Reads c a? c' ↔ p.run c = (a?, c') ∧ c'.diagnostics = c.diagnostics := by
  unfold Reads tolerate
  rcases run : p.run c with ⟨b?, c₁⟩
  simp [run]

/-!
### Nothing is dropped in silence
-/

/-- Run from `c`, the computation yields something or reports something. -/
def Settles (p : Parse α) (c : Cursor) : Prop :=
  (p.run c).2.diagnostics = c.diagnostics → ∃ a, (p.run c).1 = some a

namespace Settles

theorem yield (a : α) (c : Cursor) : (pure a : Parse α).Settles c :=
  fun _ => ⟨a, rfl⟩

theorem look (view : Cursor → α) (c : Cursor) : (look view).Settles c :=
  fun _ => ⟨view c, rfl⟩

theorem advance (c : Cursor) : Parse.advance.Settles c :=
  fun _ => ⟨(), rfl⟩

theorem report (position : Position) (problem : Problem) (c : Cursor) :
    (report position problem : Parse α).Settles c := by
  intro quiet
  have longer := congrArg List.length quiet
  simp [Parse.report, Cursor.report] at longer

theorem unexpected (token : Token) (kind : Kind) (c : Cursor) :
    (unexpected token kind : Parse α).Settles c :=
  report token.position _ c

theorem tolerate (p : Parse α) (c : Cursor) : (tolerate p).Settles c :=
  fun _ => ⟨(p.run c).1, rfl⟩

/-- One computation after another settles if each does, the second one wherever the first one ends. -/
theorem bind {p : Parse α} {f : α → Parse β} (first : p.Settles c)
    (next : ∀ a c₁, p.Reads c a c₁ → (f a).Settles c₁) : (p >>= f).Settles c := by
  intro quiet
  change ((andThen p f).run c).2.diagnostics = c.diagnostics at quiet
  show ∃ b, ((andThen p f).run c).1 = some b
  have forward := p.forward c
  unfold Settles at first
  rcases run : p.run c with ⟨_ | a, c₁⟩
  · rw [run] at first
    have quiet₁ : c₁.diagnostics = c.diagnostics := by simpa [andThen, run] using quiet
    obtain ⟨a, isSome⟩ := first quiet₁
    cases isSome
  · rw [run] at forward
    have runs : (andThen p f).run c = (f a).run c₁ := by simp [andThen, run]
    rw [runs] at quiet ⊢
    obtain ⟨quiet₁, quiet₂⟩ := forward.quiet ((f a).forward c₁) quiet
    exact next a c₁ ⟨run, quiet₁⟩ quiet₂

theorem expect (kind : Kind) (c : Cursor) : (expect kind).Settles c := by
  refine bind (look _ c) fun isKind c₁ _ => ?_
  cases isKind with
  | true => exact advance c₁
  | false => exact bind (look _ c₁) fun token c₂ _ => unexpected token kind c₂

theorem expectSymbol (s : Symbol) (c : Cursor) : (expectSymbol s).Settles c :=
  expect (.symbol s) c

theorem identifier (c : Cursor) : identifier.Settles c := by
  refine bind (look _ c) fun token c₁ _ => ?_
  split
  · exact yield _ c₁
  · exact unexpected token _ c₁

/-- A tolerated computation that settles has been read unless it reported something. -/
theorem reads {p : Parse α} {a? : Option α} (settles : p.Settles c)
    (reads : (Parse.tolerate p).Reads c a? c') : ∃ a, a? = some a ∧ p.Reads c a c' := by
  obtain ⟨run, quiet⟩ := reads_tolerate.1 reads
  have settled := settles
  unfold Settles at settled
  rw [run] at settled
  obtain ⟨a, isSome⟩ := settled quiet
  refine ⟨a, isSome, ?_, quiet⟩
  rw [run]
  exact congrArg (fun a? => (a?, c')) isSome

end Settles

/-- The cursor stands in a text that ends, with at most `n` words from the current one on. -/
def Room (n : Nat) (c : Cursor) : Prop :=
  Ended c.words ∧ c.words.length ≤ n

namespace Room

variable {n : Nat}

theorem precedes (room : Room n c) (later : c.Precedes c') : Room n c' :=
  ⟨later.ended room.1, Nat.le_trans later.length_le room.2⟩

theorem mono {k : Nat} (room : Room n c) (le : n ≤ k) : Room k c :=
  ⟨room.1, Nat.le_trans room.2 le⟩

theorem pos (room : Room n c) : n ≠ 0 := by
  rintro rfl
  exact c.words_ne_nil (List.length_eq_zero_iff.1 (Nat.le_zero.1 room.2))

/-- Moving on from a token that is not the last one takes up room. -/
theorem advance (room : Room (n + 1) c) (more : c.current.lexeme ≠ .endOfText) :
    Room n c.advance := by
  obtain ⟨ended, short⟩ := room
  have endedAhead : Ended c.ahead := ended.tail more
  have words := Cursor.advance_words endedAhead.nonempty
  refine ⟨words ▸ endedAhead, ?_⟩
  rw [words]
  simpa [Cursor.words] using short

/-- So does moving on behind something that starts with such a token, wherever that ends. -/
theorem advance_behind (room : Room (n + 1) c) (more : c.current.lexeme ≠ .endOfText)
    (later : c.Precedes c') : Room n c'.advance := by
  by_cases last : c'.current.lexeme = .endOfText
  · have ended : Ended c'.words := later.ended room.1
    have isEmpty : c'.ahead = [] := by simpa [Cursor.words, Ended, last] using ended
    have stays : c'.advance = c' := by
      obtain ⟨token, upcoming, diagnostics⟩ := c'
      cases upcoming with
      | nil => rfl
      | cons next rest => cases isEmpty
    have two : 0 < c.ahead.length := List.length_pos_iff.2 (room.1.tail more).nonempty
    have short : c.ahead.length + 1 ≤ n + 1 := by simpa [Cursor.words] using room.2
    rw [stays]
    refine ⟨ended, ?_⟩
    simp only [Cursor.words, isEmpty, List.length_singleton]
    omega
  · exact (room.precedes later).advance last

/-- A token behind the current one is not the last one unless it is the end of the text. -/
theorem current_of_peek (room : Room n c) (more : c.peek.lexeme ≠ .endOfText) :
    c.current.lexeme ≠ .endOfText := by
  intro last
  have isEmpty : c.ahead = [] := by
    have ended := room.1
    simpa [Cursor.words, Ended, last] using ended
  rw [Cursor.peek_lexeme, isEmpty] at more
  exact more last

theorem advance_of_peek (room : Room n c) (more : c.peek.lexeme ≠ .endOfText) :
    c.advance.current.lexeme ≠ .endOfText := by
  have endedAhead : Ended c.ahead := room.1.tail (room.current_of_peek more)
  obtain ⟨w, ws, isAhead⟩ := List.exists_cons_of_ne_nil endedAhead.nonempty
  rwa [(Cursor.advance_of_ahead isAhead).2.2] at more

end Room

end Parse

end Quill
