/-
Module: Quill.Value.Printer
Layer: Values
Purpose: Showing values. A text is shown as it is, but in quotes inside arrays and hashes; a function
  is shown as the source text of its literal; a pending return is shown as its content.
Main exports: Value.render
-/
import Quill.Value

namespace Quill

/-- How a value inside an array or a hash is shown, given how it is shown on its own. -/
def renderInside (v : Value) (shown : String) : String :=
  match v with
  | .text s => renderQuoted s
  | _ => shown

mutual

/-- A value as it is shown. -/
def Value.render : Value → String
  | .null => "null"
  | .integer n => renderInteger n
  | .float x => Decimal.render x
  | .boolean b => renderBoolean b
  | .text s => s
  | .array items => "[" ++ commaSeparated (renderItems items) ++ "]"
  | .hash entries => "\x7b" ++ commaSeparated (renderEntries entries) ++ "\x7d"
  | .function c => "fn" ++ renderParams c.params ++ " " ++ renderBlock c.body
  | .builtin b => "builtin function " ++ b.name
  | .error fault => "ERROR: " ++ fault.message
  | .returned v => v.render
  | .quote n => "QUOTE(" ++ n.render ++ ")"
  | .macroValue mac => "macro" ++ renderParams mac.params ++ " " ++ renderBlock mac.body
termination_by structural v => v

/-- The elements of an array as they are shown. -/
def renderItems : List Value → List String
  | [] => []
  | v :: vs => renderInside v v.render :: renderItems vs
termination_by structural vs => vs

/-- The entries of a hash as they are shown. -/
def renderEntries : List (Key × Value × Value) → List String
  | [] => []
  | (_, key, value) :: es =>
    (renderInside key key.render ++ ": " ++ renderInside value value.render) :: renderEntries es
termination_by structural es => es

end

end Quill
