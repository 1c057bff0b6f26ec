/-
Module: Quill.Proofs.Parsing
Layer: Proofs
Purpose: Reading a source text is exactly deriving it. The parser yields a program without diagnostics just
  when the lexemes of the text, all of them up to the end, derive that program in the grammar.
Main exports: parse_of_splits, splits_of_parse, parse_yields_exactly_what_derives
-/
import Quill.Proofs.Lexer
import Quill.Proofs.Parser.Completeness

namespace Quill

/-- A text that splits into words is read as the program that the words derive. -/
theorem parse_of_splits {source : String} {words : List Lexeme} {p : Program}
    (splits : Splits source.toList words) (derives : Derives (.program p) words) :
    parse source = ⟨p, []⟩ := by
  apply Parser.parseTokens_complete (Token.scan_ended source)
  rwa [(Token.scan_splits source).unique splits]

/-- A text that is read without diagnostics splits into words that derive what was read. -/
theorem splits_of_parse {source : String} {p : Program} (parsed : parse source = ⟨p, []⟩) :
    ∃ words, Splits source.toList words ∧ Derives (.program p) words :=
  ⟨_, Token.scan_splits source, Parser.parseTokens_sound (Token.scan_ended source) parsed⟩

/-- The parser reads exactly the grammar: a text has no diagnostics and yields a program just when its
    lexemes, all of them up to the end of the text, derive that program. -/
theorem parse_yields_exactly_what_derives (source : String) (p : Program) :
    ((parse source).diagnostics = [] ∧ (parse source).program = p) ↔
      Derives (.program p) ((Token.scan source).map Token.lexeme) := by
  constructor
  · rintro ⟨quiet, rfl⟩
    apply Parser.parseTokens_sound (Token.scan_ended source)
    show parse source = _
    rw [← quiet]
  · intro derives
    have parsed := parse_of_splits (Token.scan_splits source) derives
    rw [parsed]
    exact ⟨rfl, rfl⟩

end Quill
