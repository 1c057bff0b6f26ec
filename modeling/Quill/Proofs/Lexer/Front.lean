/-
Module: Quill.Proofs.Lexer.Front
Layer: Proofs
Purpose: A lexeme at the front of a text is found again. What the lexer makes of a lexeme's spelling is
  that lexeme, if the character behind it does not continue it: a name stops before what is no name
  character, a number before what is no digit and no point, a symbol before what makes no longer symbol.
  Conversely, every lexeme that the lexer finds is spelled as lexemes of its class are.
Main exports: Lexeme.spelled, Lexeme.stops, Splits.front, Lexeme.genuine, Splits.genuine
-/
import Quill.Proofs.Lexer

namespace Quill

/-!
### Characters
-/

section Characters

variable {c : Char}

theorem isDigit_iff : isDigit c = true ↔ 48 ≤ c.toNat ∧ c.toNat ≤ 57 := by
  simp only [isDigit, Char.le_def, UInt32.le_iff_toNat_le, Bool.and_eq_true, decide_eq_true_eq]
  rfl

theorem isNameStart_iff : isNameStart c = true ↔
    (97 ≤ c.toNat ∧ c.toNat ≤ 122) ∨ (65 ≤ c.toNat ∧ c.toNat ≤ 90) ∨ c.toNat = 95 := by
  have underscore : c = '_' ↔ c.toNat = 95 := Char.toNat_inj.symm
  simp only [isNameStart, underscore, Char.le_def, UInt32.le_iff_toNat_le, Bool.and_eq_true,
    Bool.or_eq_true, decide_eq_true_eq, or_assoc]
  rfl

theorem isBlank_iff : isBlank c = true ↔
    c.toNat = 32 ∨ c.toNat = 9 ∨ c.toNat = 13 ∨ c.toNat = 10 := by
  have same : ∀ d : Char, c = d ↔ c.toNat = d.toNat := fun d => Char.toNat_inj.symm
  simp only [isBlank, same, Bool.or_eq_true, decide_eq_true_eq, or_assoc]
  rfl

/-- A lexeme can begin with the character. -/
def isSolid (c : Char) : Bool :=
  !isBlank c && c ≠ '#'

theorem isSolid_of_isDigit (isDigit : isDigit c = true) : isSolid c = true := by
  rw [isDigit_iff] at isDigit
  have notBlank : isBlank c = false := by
    rw [← Bool.not_eq_true, isBlank_iff]
    omega
  have noComment : c ≠ '#' := by
    rw [ne_eq, ← Char.toNat_inj, show '#'.toNat = 35 from rfl]
    omega
  simp [isSolid, notBlank, noComment]

theorem isSolid_of_isNameStart (isStart : isNameStart c = true) : isSolid c = true := by
  rw [isNameStart_iff] at isStart
  have notBlank : isBlank c = false := by
    rw [← Bool.not_eq_true, isBlank_iff]
    omega
  have noComment : c ≠ '#' := by
    rw [ne_eq, ← Char.toNat_inj, show '#'.toNat = 35 from rfl]
    omega
  simp [isSolid, notBlank, noComment]

theorem ne_quote_of_isDigit (isDigit : isDigit c = true) : c ≠ '"' := by
  rw [isDigit_iff] at isDigit
  rw [ne_eq, ← Char.toNat_inj, show '"'.toNat = 34 from rfl]
  omega

theorem ne_quote_of_isNameStart (isStart : isNameStart c = true) : c ≠ '"' := by
  rw [isNameStart_iff] at isStart
  rw [ne_eq, ← Char.toNat_inj, show '"'.toNat = 34 from rfl]
  omega

theorem isDigit_of_isNameStart (isStart : isNameStart c = true) : isDigit c = false := by
  rw [isNameStart_iff] at isStart
  rw [← Bool.not_eq_true, isDigit_iff]
  omega

end Characters

/-!
### Spellings
-/

/-- A word: a letter or an underscore, and then letters, underscores and digits. -/
def isWord : List Char → Bool
  | [] => false
  | c :: cs => isNameStart c && cs.all isNameChar

/-- A number: a digit, and then digits and points. -/
def isNumber : List Char → Bool
  | [] => false
  | c :: cs => isDigit c && cs.all isNumberChar

/-- Some longer symbol begins with a symbol and the character behind it. -/
def Symbol.extendedBy (s : Symbol) (c : Char) : Bool :=
  longestFirst.any fun longer => (s.chars ++ [c]).isPrefixOf longer.chars

namespace Lexeme

/-- The spelling of a lexeme is one of its class; the end of the text and illegal characters have none. -/
def spelled : Lexeme → Bool
  | identifier name => isWord name.toList && (Keyword.ofSpelling? name).isNone
  | integer digits => isNumber digits.toList && !digits.toList.contains '.'
  | decimal digits => isNumber digits.toList && digits.toList.contains '.'
  | quoted content => !content.toList.contains '"'
  | symbol _ => true
  | keyword _ => true
  | endOfText => false
  | illegal _ => false

/-- A character behind the lexeme that does not continue it. -/
def stops : Lexeme → Char → Bool
  | identifier _, c | keyword _, c => !isNameChar c
  | integer _, c | decimal _, c => !isNumberChar c
  | symbol s, c => !s.extendedBy c
  | _, _ => true

/-- No lexeme goes on over a blank. -/
theorem stops_blank (l : Lexeme) : l.stops ' ' = true := by
  cases l with
  | symbol s => cases s <;> rfl
  | _ => rfl

end Lexeme

namespace Lexer

variable {c : Char} {cs rest : List Char}

/-- A run of characters of one class ends where a character of another class stands. -/
theorem run_append {p : Char → Bool} (inside : cs.all p = true)
    (boundary : ∀ d ∈ rest.head?, p d = false) :
    (cs ++ rest).takeWhile p = cs ∧ (cs ++ rest).dropWhile p = rest := by
  have each : ∀ d ∈ cs, p d = true := List.all_eq_true.1 inside
  rw [List.takeWhile_append_of_pos each, List.dropWhile_append_of_pos each]
  cases rest with
  | nil => simp
  | cons d ds => simp [boundary d rfl]

theorem lexeme_word (isStart : isNameStart c = true) (inside : cs.all isNameChar = true)
    (boundary : ∀ d ∈ rest.head?, isNameChar d = false) :
    lexeme c (cs ++ rest) = (wordLexeme (String.ofList (c :: cs)), rest) := by
  obtain ⟨taken, dropped⟩ := run_append inside boundary
  simp [lexeme, ne_quote_of_isNameStart isStart, isDigit_of_isNameStart isStart, isStart, taken, dropped]

theorem lexeme_number (isFirst : isDigit c = true) (inside : cs.all isNumberChar = true)
    (boundary : ∀ d ∈ rest.head?, isNumberChar d = false) :
    lexeme c (cs ++ rest) = (numberLexeme (c :: cs), rest) := by
  obtain ⟨taken, dropped⟩ := run_append inside boundary
  simp [lexeme, ne_quote_of_isDigit isFirst, isFirst, taken, dropped]

theorem lexeme_quoted (inside : cs.contains '"' = false) :
    lexeme '"' (cs ++ '"' :: rest) = (.quoted (String.ofList cs), rest) := by
  have each : cs.all (· ≠ '"') = true := by
    rw [List.all_eq_true]
    intro d member
    have different : d ≠ '"' := by
      rintro rfl
      simp at inside
      exact inside member
    simpa using different
  have boundary : ∀ d ∈ ('"' :: rest).head?, decide (d ≠ '"') = false := by simp
  obtain ⟨taken, dropped⟩ := run_append each boundary
  simp only [lexeme, quotedLexeme, if_true]
  rw [taken, dropped]

end Lexer

/-!
### Symbols
-/

namespace Symbol

theorem longestFirst_split (s : Symbol) :
    longestFirst = longestFirst.takeWhile (· ≠ s) ++ s :: (longestFirst.dropWhile (· ≠ s)).tail := by
  cases s <;> rfl

theorem mem_longestFirst (s : Symbol) : s ∈ longestFirst := by
  rw [longestFirst_split s]
  simp

/-- No symbol that stands before another one in the order is a part of it. -/
theorem longestFirst_before (s : Symbol) :
    ∀ t ∈ longestFirst.takeWhile (· ≠ s), t.chars.isPrefixOf s.chars = false := by
  cases s <;> decide

/-- The first symbol that fits is the symbol itself: what stands before it in the order is no part of it,
    and would have to go on with the character behind it. -/
theorem leading?_append (s : Symbol) {rest : List Char}
    (boundary : ∀ d ∈ rest.head?, s.extendedBy d = false) : leading? (s.chars ++ rest) = some s := by
  rw [leading?, List.find?_eq_some_iff_append]
  refine ⟨List.isPrefixOf_iff_prefix.2 (List.prefix_append _ _), _, _, longestFirst_split s, ?_⟩
  intro t member
  rw [Bool.not_eq_true', ← Bool.not_eq_true, List.isPrefixOf_iff_prefix]
  intro isPrefix
  rcases List.prefix_or_prefix_of_prefix isPrefix (List.prefix_append s.chars rest) with inside | ⟨more, isLonger⟩
  · have different := longestFirst_before s t member
    rw [← Bool.not_eq_true, List.isPrefixOf_iff_prefix] at different
    exact different inside
  · rw [← isLonger, List.prefix_append_right_inj] at isPrefix
    cases more with
    | nil =>
        have different := longestFirst_before s t member
        rw [← isLonger, List.append_nil, ← Bool.not_eq_true, List.isPrefixOf_iff_prefix] at different
        exact different (List.prefix_refl _)
    | cons d ds =>
        obtain ⟨behind, rfl⟩ := isPrefix
        have extended : s.extendedBy d = true := by
          rw [extendedBy, List.any_eq_true]
          refine ⟨t, t.mem_longestFirst, List.isPrefixOf_iff_prefix.2 ⟨ds, ?_⟩⟩
          rw [← isLonger]
          simp
        rw [boundary d rfl] at extended
        cases extended

/-- The first character of a symbol begins no lexeme of another class. -/
theorem chars_begin (s : Symbol) : ∃ c cs, s.chars = c :: cs ∧ c ≠ '"' ∧ isDigit c = false ∧
    isNameStart c = false ∧ isSolid c = true := by
  cases s <;> exact ⟨_, _, rfl, by decide, by decide, by decide, by decide⟩

end Symbol

namespace Keyword

theorem isWord_spelling (k : Keyword) : isWord k.spelling.toList = true := by
  cases k <;> decide

theorem ofSpelling?_spelling (k : Keyword) : ofSpelling? k.spelling = some k := by
  cases k <;> decide

end Keyword

/-!
### Lexemes at the front of a text
-/

namespace Lexer

variable {rest : List Char}

theorem lexeme_front_word {word : String} (isWord : isWord word.toList = true)
    (boundary : ∀ d ∈ rest.head?, isNameChar d = false) :
    ∃ c cs, word.toList = c :: cs ∧ isSolid c = true ∧ lexeme c (cs ++ rest) = (wordLexeme word, rest) := by
  rcases chars : word.toList with _ | ⟨c, cs⟩
  · simp [chars, Quill.isWord] at isWord
  · simp only [chars, Quill.isWord, Bool.and_eq_true] at isWord
    have same : word = String.ofList (c :: cs) := by rw [← chars, String.ofList_toList]
    rw [same]
    exact ⟨c, cs, rfl, isSolid_of_isNameStart isWord.1, lexeme_word isWord.1 isWord.2 boundary⟩

theorem lexeme_front_number {digits : String} (isNumber : isNumber digits.toList = true)
    (boundary : ∀ d ∈ rest.head?, isNumberChar d = false) :
    ∃ c cs, digits.toList = c :: cs ∧ isSolid c = true ∧
      lexeme c (cs ++ rest) = (numberLexeme digits.toList, rest) := by
  rcases chars : digits.toList with _ | ⟨c, cs⟩
  · simp [chars, Quill.isNumber] at isNumber
  · simp only [chars, Quill.isNumber, Bool.and_eq_true] at isNumber
    exact ⟨c, cs, rfl, isSolid_of_isDigit isNumber.1, lexeme_number isNumber.1 isNumber.2 boundary⟩

/-- What a lexeme's spelling begins with, and that the lexer makes the lexeme of it. -/
theorem lexeme_front {l : Lexeme} (spelled : l.spelled = true)
    (stops : ∀ d ∈ rest.head?, l.stops d = true) :
    ∃ c cs, l.spelling.toList = c :: cs ∧ isSolid c = true ∧ lexeme c (cs ++ rest) = (l, rest) := by
  cases l with
  | endOfText => cases spelled
  | illegal text => cases spelled
  | identifier name =>
      simp only [Lexeme.spelled, Bool.and_eq_true, Option.isNone_iff_eq_none] at spelled
      have boundary : ∀ d ∈ rest.head?, isNameChar d = false := by simpa [Lexeme.stops] using stops
      have word : wordLexeme name = .identifier name := by simp [wordLexeme, spelled.2]
      have found := lexeme_front_word spelled.1 boundary
      rwa [word] at found
  | keyword k =>
      have boundary : ∀ d ∈ rest.head?, isNameChar d = false := by simpa [Lexeme.stops] using stops
      have word : wordLexeme k.spelling = .keyword k := by simp [wordLexeme, k.ofSpelling?_spelling]
      have found := lexeme_front_word k.isWord_spelling boundary
      rwa [word] at found
  | integer digits =>
      simp only [Lexeme.spelled, Bool.and_eq_true, Bool.not_eq_true'] at spelled
      have boundary : ∀ d ∈ rest.head?, isNumberChar d = false := by simpa [Lexeme.stops] using stops
      have number : numberLexeme digits.toList = .integer digits := by
        simp only [numberLexeme, spelled.2, Bool.false_eq_true, if_false, String.ofList_toList]
      have found := lexeme_front_number spelled.1 boundary
      rwa [number] at found
  | decimal digits =>
      simp only [Lexeme.spelled, Bool.and_eq_true] at spelled
      have boundary : ∀ d ∈ rest.head?, isNumberChar d = false := by simpa [Lexeme.stops] using stops
      have number : numberLexeme digits.toList = .decimal digits := by
        simp only [numberLexeme, spelled.2, if_true, String.ofList_toList]
      have found := lexeme_front_number spelled.1 boundary
      rwa [number] at found
  | quoted content =>
      simp only [Lexeme.spelled, Bool.not_eq_true'] at spelled
      have found : lexeme '"' (content.toList ++ '"' :: rest) = _ := lexeme_quoted spelled
      rw [String.ofList_toList] at found
      refine ⟨'"', content.toList ++ ['"'], ?_, by decide, ?_⟩
      · simp [Lexeme.spelling]
      · rw [List.append_assoc]
        exact found
  | symbol s =>
      obtain ⟨c, cs, chars, notQuote, notDigit, notStart, solid⟩ := s.chars_begin
      have boundary : ∀ d ∈ rest.head?, s.extendedBy d = false := by simpa [Lexeme.stops] using stops
      have leading := s.leading?_append boundary
      refine ⟨c, cs, ?_, solid, ?_⟩
      · simp [Lexeme.spelling, Lexeme.content, Symbol.spelling, chars]
      · rw [chars, List.cons_append] at leading
        simp [lexeme, notQuote, notDigit, notStart, leading, chars]

end Lexer

namespace Splits

open Lexer

variable {text : List Char} {words : List Lexeme}

/-- A lexeme in front of a text that splits, if what follows does not continue it. -/
theorem front {l : Lexeme} (spelled : l.spelled = true) (splits : Splits text words)
    (stops : ∀ d ∈ text.head?, l.stops d = true) : Splits (l.spelling.toList ++ text) (l :: words) := by
  obtain ⟨c, cs, chars, solid, found⟩ := lexeme_front spelled stops
  simp only [isSolid, Bool.and_eq_true, Bool.not_eq_true', decide_eq_true_eq] at solid
  rw [chars, List.cons_append]
  have isNext := behindLayout_of_lexeme solid.1 solid.2 (cs ++ text)
  have others : Splits (lexeme c (cs ++ text)).2 words := by rwa [found]
  have whole := Splits.more isNext others
  rwa [found] at whole

end Splits

/-!
### Lexemes that were found
-/

/-- A lexeme that the lexer can find: one with a spelling of its class, an illegal one, or the end of the
    text. -/
def Lexeme.genuine : Lexeme → Bool
  | endOfText | illegal _ => true
  | l => l.spelled

namespace Lexer

theorem wordLexeme_genuine {word : String} (isWord : isWord word.toList = true) :
    (wordLexeme word).genuine = true := by
  unfold wordLexeme
  split
  · rfl
  · rename_i notKeyword
    simp [Lexeme.genuine, Lexeme.spelled, isWord, notKeyword]

theorem numberLexeme_genuine {run : List Char} (isNumber : isNumber run = true) :
    (numberLexeme run).genuine = true := by
  unfold numberLexeme
  split
  · rename_i hasPoint
    simp only [Lexeme.genuine, Lexeme.spelled, String.toList_ofList, isNumber, hasPoint, Bool.and_true]
  · rename_i noPoint
    rw [Bool.not_eq_true] at noPoint
    simp only [Lexeme.genuine, Lexeme.spelled, String.toList_ofList, isNumber, noPoint, Bool.not_false,
      Bool.and_true]

theorem quotedLexeme_genuine (text : List Char) : (quotedLexeme text).1.genuine = true := by
  unfold quotedLexeme
  split
  · have noQuote : (text.takeWhile (· ≠ '"')).contains '"' = false := by
      rw [← Bool.not_eq_true, List.contains_iff_mem]
      intro member
      have different := List.all_eq_true.1 List.all_takeWhile '"' member
      simp at different
    simp only [Lexeme.genuine, Lexeme.spelled, String.toList_ofList, noQuote, Bool.not_false]
  · rfl

theorem lexeme_genuine (c : Char) (text : List Char) : (lexeme c text).1.genuine = true := by
  unfold lexeme
  split
  · exact quotedLexeme_genuine text
  · split
    · rename_i isFirst
      apply numberLexeme_genuine
      simp [isNumber, isFirst, List.all_takeWhile]
    · split
      · rename_i isFirst
        apply wordLexeme_genuine
        simp [isWord, isFirst, List.all_takeWhile]
      · split <;> rfl

end Lexer

theorem Splits.genuine {text : List Char} {words : List Lexeme} (splits : Splits text words) :
    ∀ w ∈ words, w.genuine = true := by
  induction splits with
  | done _ =>
      intro w member
      rw [List.mem_singleton.1 member]
      rfl
  | more _ _ inductionHypothesis =>
      intro w member
      rcases List.mem_cons.1 member with rfl | member
      · exact Lexer.lexeme_genuine _ _
      · exact inductionHypothesis w member

end Quill
