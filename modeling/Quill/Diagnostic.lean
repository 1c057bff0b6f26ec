/-
Module: Quill.Diagnostic
Layer: Trees
Purpose: What can be wrong with a source text, and how it is said. A diagnostic is a problem at the
  position of a token. One reading of a text may find many.
Main exports: Problem, Problem.message, Diagnostic, Diagnostic.render, Diagnostic.summary
-/
import Quill.Tree.Printer

namespace Quill

/-- The ways in which a source text breaks the grammar. -/
inductive Problem where
  /-- a token stands where one of another kind has to stand -/
  | unexpected (found : Lexeme) (expected : Kind)
  /-- no expression starts with this token -/
  | noOperand (found : Lexeme)
  /-- the characters belong to no token of the language -/
  | illegal (text : String)
  /-- an integer that does not fit sixty-four signed bits -/
  | integerLiteral (digits : String)
  /-- a number with more than one point -/
  | floatLiteral (digits : String)
  /-- a step `++` or `--` behind something that is not a name -/
  | stepTarget (step : Symbol) (target : Expr)
  /-- a step of a name inside an expression -/
  | stepInExpression (step : Symbol) (name : String)
  /-- a switch without a single case -/
  | missingCase

/-- The wording of a problem. -/
def Problem.message : Problem → String
  | unexpected found expected =>
    "unexpected token '" ++ found.spelling ++ "', expected '" ++ expected.label ++ "'"
  | noOperand found => "no prefix parse rule for '" ++ found.spelling ++ "'"
  | illegal text => "illegal token '" ++ text ++ "'"
  | integerLiteral digits => "cannot parse integer literal: " ++ digits
  | floatLiteral digits => "cannot parse floating point literal: " ++ digits
  | stepTarget step target =>
    "postfix '" ++ step.spelling ++ "' needs an identifier, found '" ++ target.render ++ "'"
  | stepInExpression step name =>
    "postfix '" ++ step.spelling ++ "' on '" ++ name ++ "' is only allowed as a statement"
  | missingCase => "switch needs at least one case"

/-- A problem and the position of the token at which it was noticed. -/
structure Diagnostic where
  position : Position
  problem : Problem

namespace Diagnostic

/-- The wording of a diagnostic, position first. -/
def render (d : Diagnostic) : String :=
  d.position.render ++ ": " ++ d.problem.message

/-- All diagnostics of a text, one on each line. -/
def summary (ds : List Diagnostic) : String :=
  "\n".intercalate (ds.map (fun d => "syntax error: " ++ d.render))

end Diagnostic

end Quill
