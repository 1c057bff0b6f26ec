/-
Module: Quill.Proofs.Rendering.Legible
Layer: Proofs
Purpose: Pieces of text that split into their words wherever they stand. A piece is legible if it can be put
  in front of any text that splits, as long as that text begins with a character that does not run into the
  piece. A piece is written, as expressions and statements are, if it moreover begins with a character that
  tells what its first word is, and does not end in a semicolon.
Main exports: Legible, isBreak, Legible.word, Legible.append, Begins, Ends, Written, Bracket,
  Written.enclosed, commaSeparated_found
-/
import Quill.Proofs.Decimal
import Quill.Proofs.Grammar

namespace Quill

/-!
### Legible pieces
-/

/-- In front of a text that splits and begins as `after` asks for, the piece splits into its words. -/
structure Legible (piece : String) (words : List Lexeme) (after : Char → Bool) : Prop where
  front : ∀ {rest : List Char} {others : List Lexeme}, Splits rest others →
    (∀ d ∈ rest.head?, after d = true) → Splits (piece.toList ++ rest) (words ++ others)

/-- What follows a piece that ends by itself. -/
def anything (_ : Char) : Bool :=
  true

/-- A character that goes on with no name and no number. -/
def isBreak (c : Char) : Bool :=
  !isNameChar c && !isNumberChar c

namespace Legible

variable {piece first second : String} {words firstWords secondWords : List Lexeme}
  {after before : Char → Bool}

theorem empty : Legible "" [] after :=
  ⟨fun splits _ => splits⟩

theorem blank : Legible " " [] after :=
  ⟨fun splits _ => splits.blank rfl⟩

theorem word {l : Lexeme} (spelled : l.spelled = true) (stops : ∀ d, after d = true → l.stops d = true) :
    Legible l.spelling [l] after :=
  ⟨fun splits follows => splits.front spelled fun d isFirst => stops d (follows d isFirst)⟩

/-- A symbol that no longer symbol begins with. -/
theorem mark {s : Symbol} (isMark : ∀ d, s.extendedBy d = false) : Legible s.spelling [.symbol s] after :=
  word (l := .symbol s) rfl fun d _ => by simp [Lexeme.stops, isMark d]

theorem weaken (legible : Legible piece words before) (weaker : ∀ d, after d = true → before d = true) :
    Legible piece words after :=
  ⟨fun splits follows => legible.front splits fun d isFirst => weaker d (follows d isFirst)⟩

theorem of_anything (legible : Legible piece words anything) : Legible piece words after :=
  legible.weaken fun _ _ => rfl

/-- Two pieces, of which the second one begins with a character that the first one stops at. -/
theorem append (legible : Legible first firstWords before) (others : Legible second secondWords after)
    (meets : ∃ d, second.toList.head? = some d ∧ before d = true) :
    Legible (first ++ second) (firstWords ++ secondWords) after := by
  constructor
  intro rest words splits follows
  obtain ⟨d, isFirst, stops⟩ := meets
  rw [String.toList_append, List.append_assoc, List.append_assoc]
  apply legible.front (others.front splits follows)
  rw [List.head?_append, isFirst]
  intro d' isFirst'
  cases isFirst'
  exact stops

/-- Two pieces, of which the first one ends by itself. -/
theorem join (legible : Legible first firstWords anything) (others : Legible second secondWords after) :
    Legible (first ++ second) (firstWords ++ secondWords) after := by
  constructor
  intro rest words splits follows
  rw [String.toList_append, List.append_assoc, List.append_assoc]
  exact legible.front (others.front splits follows) fun _ _ => rfl

end Legible

/-!
### Written pieces
-/

/-- The first characters of expressions and statements. -/
def isOpening (c : Char) : Bool :=
  isNameStart c || isDigit c || c = '"' || c = '(' || c = '[' || c = '\x7b'

/-- The first character of the piece tells whether its first word could continue an expression. -/
def Begins (piece : String) (words : List Lexeme) : Prop :=
  ∃ d chars w others, piece.toList = d :: chars ∧ words = w :: others ∧ isOpening d = true ∧
    (d ≠ '(' → d ≠ '[' → w.level = .lowest) ∧ w ≠ .symbol .semicolon

/-- The piece has a last character, which is no semicolon. -/
def Ends (piece : String) : Prop :=
  ∃ chars d, piece.toList = chars ++ [d] ∧ d ≠ ';'

theorem Begins.append_text {first second : String} {words : List Lexeme} (begins : Begins first words) :
    Begins (first ++ second) words := by
  obtain ⟨d, chars, w, more, isPiece, isWords, facts⟩ := begins
  exact ⟨d, chars ++ second.toList, w, more, by simp [isPiece], isWords, facts⟩

theorem Begins.append {first second : String} {words others : List Lexeme} (begins : Begins first words) :
    Begins (first ++ second) (words ++ others) := by
  obtain ⟨d, chars, w, more, isPiece, isWords, facts⟩ := begins
  exact ⟨d, chars ++ second.toList, w, more ++ others, by simp [isPiece], by simp [isWords], facts⟩

theorem Ends.append {first second : String} (ends : Ends second) : Ends (first ++ second) := by
  obtain ⟨chars, d, isPiece, notSemicolon⟩ := ends
  exact ⟨first.toList ++ chars, d, by simp [isPiece], notSemicolon⟩

theorem Ends.of_all {piece : String} (nonempty : piece.toList ≠ []) (all : ∀ d ∈ piece.toList, d ≠ ';') :
    Ends piece :=
  ⟨_, _, (List.dropLast_concat_getLast nonempty).symm, all _ (List.getLast_mem nonempty)⟩

/-- No word has a semicolon in it. -/
theorem ne_semicolon_of_isWord {chars : List Char} (word : isWord chars = true) : ∀ d ∈ chars, d ≠ ';' := by
  cases chars with
  | nil => nofun
  | cons c cs =>
      simp only [isWord, Bool.and_eq_true, List.all_eq_true] at word
      intro d member
      have inside : isNameChar d = true := by
        rcases List.mem_cons.1 member with rfl | inRest
        · simp [isNameChar, word.1]
        · exact word.2 d inRest
      rintro rfl
      cases inside

/-- A piece as expressions and statements are written. -/
structure Written (piece : String) (words : List Lexeme) : Prop where
  legible : Legible piece words isBreak
  begins : Begins piece words
  ends : Ends piece

namespace Written

variable {piece : String} {words : List Lexeme}

/-- Whatever stops before an opening character can stand in front. -/
theorem meets (written : Written piece words) {before : Char → Bool}
    (stops : ∀ d, isOpening d = true → before d = true) :
    ∃ d, piece.toList.head? = some d ∧ before d = true := by
  obtain ⟨d, chars, _, _, isPiece, _, opening, _⟩ := written.begins
  exact ⟨d, by simp [isPiece], stops d opening⟩

/-- A word of which the first character tells its class. -/
theorem word {l : Lexeme} (spelled : l.spelled = true) (stops : ∀ d, isBreak d = true → l.stops d = true)
    (opening : ∃ d chars, l.spelling.toList = d :: chars ∧ isOpening d = true) (loose : l.level = .lowest)
    (notSemicolon : l ≠ .symbol .semicolon) (noSemicolons : ∀ d ∈ l.spelling.toList, d ≠ ';') :
    Written l.spelling [l] := by
  obtain ⟨d, chars, isPiece, opening⟩ := opening
  constructor
  · exact .word spelled stops
  · exact ⟨d, chars, l, [], isPiece, rfl, opening, fun _ _ => loose, notSemicolon⟩
  · exact .of_all (by simp [isPiece]) noSemicolons

theorem identifier {name : String} (spelled : (Lexeme.identifier name).spelled = true) :
    Written name [.identifier name] := by
  have isWord : isWord name.toList = true := by
    simp only [Lexeme.spelled, Bool.and_eq_true] at spelled
    exact spelled.1
  have noSemicolons := ne_semicolon_of_isWord isWord
  rcases chars : name.toList with _ | ⟨c, cs⟩
  · simp [chars, Quill.isWord] at isWord
  · simp only [chars, Quill.isWord, Bool.and_eq_true, List.all_eq_true] at isWord
    apply Written.word (l := .identifier name) spelled
    · intro d breaks
      simp only [isBreak, Bool.and_eq_true] at breaks
      exact breaks.1
    · exact ⟨c, cs, chars, by simp [isOpening, isWord.1]⟩
    · rfl
    · simp
    · exact noSemicolons

theorem digits (m : Nat) : Written (toString m) [.integer (toString m)] := by
  have isDigits : (toString m).toList = Nat.toDigits 10 m := Nat.toList_repr
  rcases chars : Nat.toDigits 10 m with _ | ⟨c, cs⟩
  · exact absurd chars Nat.toDigits_ne_nil
  · have isFirst : isDigit c = true := isDigit_of_mem_toDigits (chars ▸ List.mem_cons_self)
    apply Written.word (l := .integer (toString m)) (Lexeme.digits_spelled m)
    · intro d breaks
      simp only [isBreak, Bool.and_eq_true] at breaks
      exact breaks.2
    · exact ⟨c, cs, isDigits.trans chars, by simp [isOpening, isFirst]⟩
    · rfl
    · nofun
    · intro d member
      have inside : isDigit d = true := isDigit_of_mem_toDigits (isDigits ▸ member)
      rintro rfl
      cases inside

theorem integer {n : Int64} (natural : 0 ≤ n.toInt) :
    Written (renderInteger n) [.integer (renderInteger n)] := by
  rw [renderInteger_of_natural natural]
  exact digits _

theorem quoted {content : String} (spelled : (Lexeme.quoted content).spelled = true) :
    Written (renderQuoted content) [.quoted content] := by
  constructor
  · exact Legible.word (l := .quoted content) spelled fun _ _ => rfl
  · exact ⟨'"', content.toList ++ ['"'], _, _, by simp [renderQuoted], rfl, rfl, fun _ _ => rfl, nofun⟩
  · exact ⟨'"' :: content.toList, '"', by simp [renderQuoted], by decide⟩

/-- A reserved word, which is a word of its own before any break. -/
theorem keyword (k : Keyword) : Written k.spelling [.keyword k] := by
  apply Written.word (l := .keyword k) rfl
  · intro d breaks
    simp only [isBreak, Bool.and_eq_true] at breaks
    exact breaks.1
  · cases k <;> exact ⟨_, _, rfl, rfl⟩
  · rfl
  · nofun
  · exact ne_semicolon_of_isWord k.isWord_spelling

end Written

theorem keyword_begins (k : Keyword) {piece : String} {words : List Lexeme} :
    Begins (k.spelling ++ piece) (.keyword k :: words) := by
  have begins : Begins (k.spelling ++ piece) ([.keyword k] ++ words) := (Written.keyword k).begins.append
  exact begins

/-!
### Brackets
-/

/-- The three pairs of brackets. -/
inductive Bracket where
  | round
  | square
  | curly

namespace Bracket

/-- The symbol that opens. -/
def opening : Bracket → Symbol
  | round => .leftParen
  | square => .leftBracket
  | curly => .leftCurly

/-- The symbol that closes. -/
def closing : Bracket → Symbol
  | round => .rightParen
  | square => .rightBracket
  | curly => .rightCurly

theorem opening_legible (b : Bracket) {after : Char → Bool} :
    Legible b.opening.spelling [.symbol b.opening] after := by
  cases b <;> exact .mark fun _ => rfl

theorem closing_legible (b : Bracket) {after : Char → Bool} :
    Legible b.closing.spelling [.symbol b.closing] after := by
  cases b <;> exact .mark fun _ => rfl

theorem opening_begins (b : Bracket) : Begins b.opening.spelling [.symbol b.opening] := by
  cases b with
  | round => exact ⟨'(', [], _, _, rfl, rfl, rfl, fun notParen => absurd rfl notParen, nofun⟩
  | square => exact ⟨'[', [], _, _, rfl, rfl, rfl, fun _ notBracket => absurd rfl notBracket, nofun⟩
  | curly => exact ⟨'\x7b', [], _, _, rfl, rfl, rfl, fun _ _ => rfl, nofun⟩

theorem closing_breaks (b : Bracket) : ∃ d, b.closing.spelling.toList.head? = some d ∧ isBreak d = true := by
  cases b <;> exact ⟨_, rfl, rfl⟩

theorem closing_ends (b : Bracket) : Ends b.closing.spelling := by
  cases b <;> exact ⟨[], _, rfl, by decide⟩

/-- A piece in brackets begins with a break. -/
theorem meets (b : Bracket) (inner : String) :
    ∃ d, (b.opening.spelling ++ inner ++ b.closing.spelling).toList.head? = some d ∧ isBreak d = true := by
  obtain ⟨d, _, _, _, isPiece, _⟩ := b.opening_begins
  refine ⟨d, by simp [isPiece], ?_⟩
  cases b <;> cases isPiece <;> rfl

end Bracket

/-- What stands between two brackets is kept apart from everything around them. -/
theorem Legible.enclosed (b : Bracket) {inner : String} {words : List Lexeme} {after : Char → Bool}
    (legible : Legible inner words isBreak) :
    Legible (b.opening.spelling ++ inner ++ b.closing.spelling)
      (.symbol b.opening :: words ++ [.symbol b.closing]) after :=
  (b.opening_legible.join legible).append b.closing_legible b.closing_breaks

theorem Written.enclosed (b : Bracket) {inner : String} {words : List Lexeme}
    (legible : Legible inner words isBreak) :
    Written (b.opening.spelling ++ inner ++ b.closing.spelling)
      (.symbol b.opening :: words ++ [.symbol b.closing]) := by
  constructor
  · exact legible.enclosed b
  · exact b.opening_begins.append.append
  · exact b.closing_ends.append

/-!
### Lists
-/

theorem comma_legible {after : Char → Bool} : Legible ", " [.symbol .comma] after :=
  .join (.mark (s := .comma) fun _ => rfl) .blank

/-- Written pieces with commas between them. -/
theorem commaSeparated_legible (pieces : List (String × List Lexeme)) :
    (∀ one ∈ pieces, Written one.1 one.2) →
    Legible (commaSeparated (pieces.map Prod.fst)) (separated (pieces.map Prod.snd)) isBreak := by
  induction pieces with
  | nil =>
      intro _
      exact .empty
  | cons one others inductionHypothesis =>
      intro each
      have first := (each one List.mem_cons_self).legible
      have rest := inductionHypothesis fun other member => each other (List.mem_cons_of_mem one member)
      cases others with
      | nil => simpa [commaSeparated, separated] using first
      | cons next further =>
          have whole := (first.append comma_legible ⟨',', rfl, rfl⟩).join rest
          simp only [List.map_cons, commaSeparated] at whole ⊢
          rw [String.intercalate_cons_cons]
          simpa [separated] using whole

/-- What is known of the written form of each thing in a list is known of its part of the whole list. -/
theorem commaSeparated_found {α : Type} {f : α → String} {p : α → List Lexeme → Prop} {l : List α}
    (each : ∀ x ∈ l, ∃ ws, Written (f x) ws ∧ p x ws) :
    ∃ found : List (α × List Lexeme), found.map Prod.fst = l ∧ (∀ one ∈ found, p one.1 one.2) ∧
      Legible (commaSeparated (l.map f)) (separated (found.map Prod.snd)) isBreak := by
  have listed : ∃ found : List (α × List Lexeme), found.map Prod.fst = l ∧
      ∀ one ∈ found, Written (f one.1) one.2 ∧ p one.1 one.2 := by
    induction l with
    | nil => exact ⟨[], rfl, nofun⟩
    | cons x xs inductionHypothesis =>
        obtain ⟨⟨ws, facts⟩, behind⟩ := List.forall_mem_cons.1 each
        obtain ⟨found, isRest, others⟩ := inductionHypothesis behind
        exact ⟨(x, ws) :: found, by rw [List.map_cons, isRest], List.forall_mem_cons.2 ⟨facts, others⟩⟩
  obtain ⟨found, rfl, facts⟩ := listed
  refine ⟨found, rfl, fun one member => (facts one member).2, ?_⟩
  have pieces := commaSeparated_legible (found.map fun one => (f one.1, one.2)) (by
    intro one member
    obtain ⟨other, isOther, rfl⟩ := List.mem_map.1 member
    exact (facts other isOther).1)
  simpa only [List.map_map, Function.comp_def] using pieces

end Quill
