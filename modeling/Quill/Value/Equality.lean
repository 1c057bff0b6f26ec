/-
Module: Quill.Value.Equality
Layer: Values
Purpose: When two values are equal. Floating point numbers are equal when they are close; arrays are
  compared element by element and hashes as maps; functions and macros are equal only to themselves,
  which their identity tells; quotations are compared as trees. Values of different types are unequal.
Main exports: closeTo, Value.same
-/
import Quill.Value

namespace Quill

/-- Floating point numbers closer than this are equal. -/
def tolerance : Float :=
  1e-9

/-- Whether two floating point numbers are equal up to the tolerance. Infinities are not close to
    anything, since their difference is no number. -/
def closeTo (a b : Float) : Bool :=
  decide ((a - b).abs ≤ tolerance)

mutual

/-- Equality of values. -/
def Value.same : Value → Value → Bool
  | .null, .null => true
  | .integer a, .integer b => a == b
  | .float a, .float b => closeTo a b
  | .boolean a, .boolean b => a == b
  | .text a, .text b => a == b
  | .array as, .array bs => sameItems as bs
  | .hash as, .hash bs => as.length == bs.length && sameEntries as bs
  | .function a, .function b => a.identity == b.identity
  | .builtin a, .builtin b => a = b
  | .error a, .error b => a = b
  | .returned a, .returned b => a.same b
  | .quote a, .quote b => a.same b
  | .macroValue a, .macroValue b => a.identity == b.identity
  | _, _ => false
termination_by structural v => v

/-- Equality of lists of values. -/
def sameItems : List Value → List Value → Bool
  | [], [] => true
  | a :: as, b :: bs => a.same b && sameItems as bs
  | _, _ => false
termination_by structural vs => vs

/-- Whether each entry has an equal one in the other hash. -/
def sameEntries : List (Key × Value × Value) → List (Key × Value × Value) → Bool
  | [], _ => true
  | (k, key, value) :: es, others =>
    (match others.lookup k with
      | some (key', value') => key.same key' && value.same value'
      | none => false) && sameEntries es others
termination_by structural es => es

end

end Quill
