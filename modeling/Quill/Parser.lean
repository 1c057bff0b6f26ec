/-
Module: Quill.Parser
Layer: Parsing
Purpose: Reading a whole source text. Faults do not stop the reading: each one is recorded, the construct
  it stands in is left out, and the statements around it are still read. A program that came with
  diagnostics is not meant to be run.
Main exports: Parsed, parse
-/
import Quill.Parser.Expression

namespace Quill

/-- The result of reading a source text: the statements that could be read, and every diagnostic in
    the order in which they were noticed. -/
structure Parsed where
  program : Program
  diagnostics : List Diagnostic

/-- Reads the statements of a text that was split into tokens. Each level of nesting and each round of
    a list reads a token of its own, so the number of tokens bounds both. -/
def parseTokens (tokens : List Token) : Parsed :=
  let bound := tokens.length + 1
  let sub : Parser.Sub := ⟨Parser.expression bound bound, bound⟩
  match (Parser.statementsUntil sub (· = .endOfText) bound).run (Cursor.ofTokens tokens) with
  | (statements?, cursor) => ⟨⟨statements?.getD []⟩, cursor.diagnostics.reverse⟩

/-- Reads a source text. -/
def parse (source : String) : Parsed :=
  parseTokens (Token.scan source)

end Quill
