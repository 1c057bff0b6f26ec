/-
Module: Quill.Proofs.Layout
Layer: Proofs
Purpose: Layout means nothing. Whatever blanks and comments a text has, the same words with one blank between
  them are split in the same way again, illegal characters and a quotation without an end included, and are
  read as the same program with the same problems.
Main exports: respaced, Splits.spaced, scan_respaced, parse_respaced
-/
import Quill.Proofs.Lexer.Front
import Quill.Proofs.Parser.Positions
import Quill.Proofs.Precedence

namespace Quill

/-!
### Words behind layout
-/

namespace Symbol

theorem contains_blank (s : Symbol) : s.chars.contains ' ' = false := by
  cases s <;> rfl

/-- Where no symbol begins, none begins if a blank follows instead. -/
theorem leading?_of_blank {c : Char} {rest tail : List Char} (noSymbol : leading? (c :: rest) = none)
    (boundary : ∀ d ∈ tail.head?, d = ' ') : leading? (c :: tail) = none := by
  rw [leading?, List.find?_eq_none] at noSymbol ⊢
  intro s member isPrefix
  apply noSymbol s member
  rw [List.isPrefixOf_iff_prefix] at isPrefix ⊢
  obtain ⟨first, others, chars, _⟩ := s.chars_begin
  rw [chars, List.cons_prefix_cons] at isPrefix ⊢
  refine ⟨isPrefix.1, ?_⟩
  cases others with
  | nil => exact List.nil_prefix
  | cons second behind =>
      obtain ⟨after, isTail⟩ := isPrefix.2
      obtain rfl : second = ' ' := boundary second (by simp [← isTail])
      have noBlank := s.contains_blank
      simp [chars] at noBlank

end Symbol

namespace Lexer

variable {c : Char} {text rest tail : List Char}

theorem isSolid_of_skipLayout (text : List Char) : ∀ (inComment : Bool) (p : Position),
    (skipLayout inComment p text).rest = c :: rest → isSolid c = true := by
  induction text with
  | nil =>
      intro inComment p isNext
      cases isNext
  | cons d ds inductionHypothesis =>
      intro inComment p isNext
      simp only [skipLayout] at isNext
      split at isNext
      · split at isNext
        · exact inductionHypothesis _ _ isNext
        · exact inductionHypothesis _ _ isNext
      · split at isNext
        · exact inductionHypothesis _ _ isNext
        · split at isNext
          · exact inductionHypothesis _ _ isNext
          · rename_i notBlank noComment
            obtain ⟨rfl, rfl⟩ := List.cons.inj isNext
            simp [isSolid, notBlank, noComment]

theorem numberLexeme_ne_illegal (run : List Char) (word : String) : numberLexeme run ≠ .illegal word := by
  unfold numberLexeme
  split <;> simp

theorem wordLexeme_ne_illegal (name word : String) : wordLexeme name ≠ .illegal word := by
  unfold wordLexeme
  split <;> simp

/-- An illegal word is found again if a blank or the end of the text follows; a quotation without an end, which
    takes up all of the text, only at its end. -/
theorem lexeme_illegal_again {word : String} (isIllegal : (lexeme c rest).1 = .illegal word)
    (boundary : ∀ d ∈ tail.head?, d = ' ') (last : (lexeme c rest).2 = [] → tail = []) :
    ∃ cs, word.toList = c :: cs ∧ lexeme c (cs ++ tail) = (.illegal word, tail) := by
  by_cases isQuote : c = '"'
  · subst isQuote
    cases noQuote : rest.dropWhile (· ≠ '"') with
    | cons quote behind =>
        simp only [lexeme, quotedLexeme, noQuote, if_true] at isIllegal
        cases isIllegal
    | nil =>
        simp only [lexeme, quotedLexeme, noQuote, if_true, Lexeme.illegal.injEq, forall_const] at isIllegal last
        rw [last, ← isIllegal]
        refine ⟨rest, String.toList_ofList, ?_⟩
        simp only [lexeme, quotedLexeme, if_true, List.append_nil, noQuote]
  · unfold lexeme at isIllegal
    rw [if_neg isQuote] at isIllegal
    split at isIllegal
    · exact absurd isIllegal (numberLexeme_ne_illegal _ word)
    · split at isIllegal
      · exact absurd isIllegal (wordLexeme_ne_illegal _ word)
      · rename_i notDigit notStart
        split at isIllegal
        · cases isIllegal
        · rename_i noSymbol
          cases isIllegal
          have still := Symbol.leading?_of_blank noSymbol boundary
          exact ⟨[], by simp, by simp [lexeme, isQuote, notDigit, notStart, still]⟩

end Lexer

open Lexer

namespace Splits

variable {text tail : List Char} {words : List Lexeme}

/-- The word at the front of one text is the word at the front of another, if a blank or the end follows. -/
theorem again {c : Char} (rest : List Char) (solid : isSolid c = true) (splits : Splits tail words)
    (boundary : ∀ d ∈ tail.head?, d = ' ') (last : (lexeme c rest).2 = [] → tail = []) :
    Splits ((lexeme c rest).1.spelling.toList ++ tail) ((lexeme c rest).1 :: words) := by
  have genuine := lexeme_genuine c rest
  have notEnd := lexeme_ne_endOfText c rest
  cases found : (lexeme c rest).1 with
  | endOfText => exact absurd found notEnd
  | illegal word =>
      obtain ⟨cs, chars, isFound⟩ := lexeme_illegal_again found boundary last
      simp only [isSolid, Bool.and_eq_true, Bool.not_eq_true', decide_eq_true_eq] at solid
      have isNext := behindLayout_of_lexeme solid.1 solid.2 (cs ++ tail)
      have whole := Splits.more isNext (by rwa [isFound])
      rw [isFound] at whole
      show Splits (word.toList ++ tail) _
      rwa [chars]
  | _ =>
      rw [found] at genuine
      refine Splits.front genuine splits fun d isHead => ?_
      rw [boundary d isHead]
      exact Lexeme.stops_blank _

/-- The induction is on the words: each one is found again in front of the blank that now follows it. -/
theorem spaced (splits : Splits text words) : Splits (Quill.spaced words.dropLast).toList words := by
  induction splits with
  | done _ => exact .done rfl
  | @more text rest c words isNext others inductionHypothesis =>
      have solid := isSolid_of_skipLayout text false _ isNext
      cases words with
      | nil => exact (others.ended).elim
      | cons w ws =>
          cases ws with
          | nil =>
              have alone := again rest solid inductionHypothesis (by simp [Quill.spaced]) fun _ => rfl
              simpa [Quill.spaced] using alone
          | cons v vs =>
              have continued : (lexeme c rest).2 ≠ [] := by
                intro isEnd
                rw [isEnd] at others
                cases others.unique (.done rfl)
              have behind := again rest solid (inductionHypothesis.blank (c := ' ') rfl) (by simp)
                fun isEnd => absurd isEnd continued
              simpa [Quill.spaced, String.toList_intercalate] using behind

end Splits

/-!
### Texts
-/

/-- The words of a text with one blank between them. -/
def respaced (source : String) : String :=
  spaced ((Token.scan source).map Token.lexeme).dropLast

/-- Words with one blank between them are split in the same way again. -/
theorem scan_respaced (source : String) :
    (Token.scan (respaced source)).map Token.lexeme = (Token.scan source).map Token.lexeme :=
  (Token.scan_splits (respaced source)).unique (Token.scan_splits source).spaced

/-- Reading does not depend on layout: a text and its words with one blank between them split into the same
    lexemes, and are read as the same program with the same problems. -/
theorem parse_respaced (source : String) :
    (Token.scan (respaced source)).map Token.lexeme = (Token.scan source).map Token.lexeme ∧
      (parse (respaced source)).program = (parse source).program ∧
        (parse (respaced source)).diagnostics.map Diagnostic.problem =
          (parse source).diagnostics.map Diagnostic.problem :=
  ⟨scan_respaced source, parseTokens_of_words (scan_respaced source)⟩

example : respaced "x=[1.2.3,\"a #b\"]# comment\n& \"open" = "x = [ 1.2.3 , \"a #b\" ] & \"open" := by
  rfl

end Quill
