/-
Module: Quill.Decimal.Reader
Layer: Numbers
Purpose: Reading numbers. An integer is a run of digits that fits sixty-four signed bits. A floating
  point number is digits with at most one point, with an optional exponent, rounded once to the nearest
  double; a magnitude too large for a double is infinite.
Main exports: Decimal.naturalValue?, Decimal.readInteger?, Decimal.readFloat?
-/
import Quill.Token.Lexer

namespace Quill.Decimal

/-- The value of a digit. -/
def digitValue (c : Char) : Nat :=
  c.toNat - '0'.toNat

/-- The number that digits spell after a number already read. -/
def appendDigits (value : Nat) (digits : List Char) : Nat :=
  digits.foldl (fun acc c => acc * 10 + digitValue c) value

/-- The number spelled by a non-empty run of digits. -/
def naturalValue? (cs : List Char) : Option Nat :=
  if cs.isEmpty || !cs.all isDigit then none else some (appendDigits 0 cs)

/-- Splits off a leading sign. -/
def splitSign : List Char → Bool × List Char
  | '-' :: cs => (true, cs)
  | '+' :: cs => (false, cs)
  | cs => (false, cs)

/-- The integer spelled by an optional sign and digits, if it fits sixty-four signed bits. -/
def readInteger? (text : String) : Option Int64 :=
  let (negative, digits) := splitSign text.toList
  match naturalValue? digits with
  | none => none
  | some n =>
    if negative then
      if n ≤ Nat.pow 2 63 then some (Int64.ofInt (-(n : Int))) else none
    else
      if n < Nat.pow 2 63 then some (Int64.ofInt n) else none

/-- The exponent behind the digits: nothing, or a mark, an optional sign and digits. -/
def readExponent? : List Char → Option Int
  | [] => some 0
  | mark :: cs =>
    if mark = 'e' ∨ mark = 'E' then
      let (negative, digits) := splitSign cs
      (naturalValue? digits).map (fun n => if negative then -(n : Int) else n)
    else
      none

/-- The double nearest to `digits * 10 ^ exponent`. A number whose leading digit stands four hundred
    places away from the point is far outside the range of doubles, so no power is computed for it. -/
def nearest (digits : Nat) (exponent : Int) : Float :=
  if digits = 0 then
    0.0
  else
    let leading := (toString digits).length + exponent
    if leading < -400 then 0.0
    else if 400 < leading then 1.0 / 0.0
    else Float.ofScientific digits (decide (exponent < 0)) exponent.natAbs

/-- An unsigned number: digits before the point, digits behind it, at least one of the two. -/
def readMagnitude? (cs : List Char) : Option Float :=
  let whole := cs.takeWhile isDigit
  let behindWhole := cs.dropWhile isDigit
  let (fraction, tail) :=
    match behindWhole with
    | '.' :: more => (more.takeWhile isDigit, more.dropWhile isDigit)
    | _ => ([], behindWhole)
  if whole.isEmpty && fraction.isEmpty then
    none
  else
    (readExponent? tail).map fun exponent =>
      nearest (appendDigits (appendDigits 0 whole) fraction) (exponent - fraction.length)

/-- The floating point number that a text spells: a sign, then a magnitude or the name of a special
    value, in letters of either case. -/
def readFloat? (text : String) : Option Float :=
  let (negative, cs) := splitSign text.toList
  let magnitude :=
    match String.ofList (cs.map Char.toLower) with
    | "inf" => some (1.0 / 0.0)
    | "infinity" => some (1.0 / 0.0)
    | "nan" => some (0.0 / 0.0)
    | _ => readMagnitude? cs
  magnitude.map (fun x => if negative then -x else x)

end Quill.Decimal
