/-
Module: Quill.Operation
Layer: Running
Purpose: What operators and indexing do to values. Integers and floating point numbers mix, and the
  integer is then taken as a floating point number; other operands have to be of one type. Integer
  arithmetic wraps; a quotient or remainder by zero is a fault for both kinds of number.
Main exports: Operation.unary, Operation.integers, Operation.floats, Operation.binary, Operation.index
-/
import Quill.Arithmetic.Integer
import Quill.Arithmetic.Floating
import Quill.Value.Printer

namespace Quill.Operation

/-- A unary operator applied to a value. -/
def unary : UnaryOp → Value → Except Fault Value
  | .not, v => .ok (.boolean (!v.truthy))
  | .negate, .integer n => .ok (.integer (-n))
  | .negate, .float x => .ok (.float (-x))
  | .negate, v => .error (.unknownUnary .negate v.kind)

/-- A result that exists unless the divisor is zero. -/
def unlessZero (isZero : Bool) (result : Value) : Except Fault Value :=
  if isZero then .error .divisionByZero else .ok result

/-- A binary operator applied to integers. A power whose exponent is negative or too large is computed
    in floating point. -/
def integers (op : BinaryOp) (l r : Int64) : Except Fault Value :=
  match op with
  | .add => .ok (.integer (l + r))
  | .subtract => .ok (.integer (l - r))
  | .multiply => .ok (.integer (l * r))
  | .divide => unlessZero (r == 0) (.integer (l / r))
  | .floorDivide => unlessZero (r == 0) (.integer (Arithmetic.floorDivide l r))
  | .remainder => unlessZero (r == 0) (.integer (l % r))
  | .power =>
    match Arithmetic.power? l r with
    | some n => .ok (.integer n)
    | none => .ok (.float (l.toFloat.pow r.toFloat))
  | .equal => .ok (.boolean (l == r))
  | .notEqual => .ok (.boolean (l != r))
  | .less => .ok (.boolean (decide (l < r)))
  | .greater => .ok (.boolean (decide (r < l)))
  | .lessEqual => .ok (.boolean (decide (l ≤ r)))
  | .greaterEqual => .ok (.boolean (decide (r ≤ l)))
  | .and | .or => .error (.unknownBinary .integer op .integer)

/-- A binary operator applied to floating point numbers. Comparisons take close numbers as equal. -/
def floats (op : BinaryOp) (l r : Float) : Except Fault Value :=
  match op with
  | .add => .ok (.float (l + r))
  | .subtract => .ok (.float (l - r))
  | .multiply => .ok (.float (l * r))
  | .divide => unlessZero (r == 0.0) (.float (l / r))
  | .floorDivide => unlessZero (r == 0.0) (.float (l / r).floor)
  | .remainder => unlessZero (r == 0.0) (.float (Arithmetic.remainder l r))
  | .power => .ok (.float (l.pow r))
  | .equal => .ok (.boolean (closeTo l r))
  | .notEqual => .ok (.boolean (!closeTo l r))
  | .less => .ok (.boolean (Arithmetic.lessThan l r))
  | .greater => .ok (.boolean (Arithmetic.lessThan r l))
  | .lessEqual => .ok (.boolean (Arithmetic.atMost l r))
  | .greaterEqual => .ok (.boolean (Arithmetic.atMost r l))
  | .and | .or => .error (.unknownBinary .float op .float)

/-- A binary operator applied to values of one type that are no numbers. Texts can be joined; all can
    be compared. -/
def alike (op : BinaryOp) (l r : Value) : Except Fault Value :=
  match op, l, r with
  | .add, .text a, .text b => .ok (.text (a ++ b))
  | .equal, _, _ => .ok (.boolean (l.same r))
  | .notEqual, _, _ => .ok (.boolean (!l.same r))
  | _, _, _ => .error (.unknownBinary l.kind op r.kind)

/-- A binary operator applied to values. -/
def binary (op : BinaryOp) (l r : Value) : Except Fault Value :=
  match l, r with
  | .integer a, .integer b => integers op a b
  | .float a, .float b => floats op a b
  | .integer a, .float b => floats op a.toFloat b
  | .float a, .integer b => floats op a b.toFloat
  | _, _ =>
    if l.kind = r.kind then alike op l r else .error (.typeMismatch l.kind op r.kind)

/-- The element of a list at an index that may be negative or too large. -/
def elementAt {α : Type} (items : List α) (i : Int64) : Except Fault α :=
  match (if 0 ≤ i then items[i.toNatClampNeg]? else none) with
  | some item => .ok item
  | none => .error (.outOfBounds i items.length)

/-- The element of an array, the character of a text or the entry of a hash. -/
def index : Value → Value → Except Fault Value
  | .array items, .integer i => elementAt items i
  | .text s, .integer i => (elementAt s.toList i).map (fun c => .text (String.singleton c))
  | .hash entries, key =>
    match key.key? with
    | none => .error (.unusableKey key.kind)
    | some k =>
      match entries.lookup k with
      | some (_, v) => .ok v
      | none => .error (.missingKey key.render)
  | subject, key => .error (.unsupportedIndex subject.kind key.kind)

end Quill.Operation
