/-
Module: Quill.Decimal.Layout
Layer: Numbers
Purpose: How a floating point number is written. The digits are the shortest ones that read back; a
  layout says where the plain form ends and how the form with an exponent looks. The language uses one
  layout, for literals in trees and for values alike.
Main exports: Decimal.Layout, Decimal.Layout.numeral, Decimal.render
-/
import Quill.Decimal.Shortest

namespace Quill.Decimal

/-- The decisions of a floating point format. -/
structure Layout where
  /-- the least exponent of the leading digit that is written plainly -/
  plainFrom : Int
  /-- the first exponent of the leading digit that is too large to be written plainly -/
  plainBelow : Int
  /-- what stands between the digits and the exponent -/
  exponentMark : List Char
  /-- the text of an infinite magnitude -/
  infinite : List Char
  /-- the text of a result that is not a number -/
  undefinedResult : List Char

namespace Layout

/-- Numbers from `0.0001` up to, but not including, ten to the sixteenth are written plainly and keep
    at least one digit behind the point; other numbers have a bare exponent. -/
def numeral : Layout where
  plainFrom := -4
  plainBelow := 16
  exponentMark := ['e']
  infinite := "inf".toList
  undefinedResult := "NaN".toList

/-- Digits with a point in front of, inside or behind them. `point` counts the digits before the
    point; it may be negative or beyond the last digit, and zeros then fill the gap. -/
def plain (digits : List Char) (point : Int) : List Char :=
  if point ≤ 0 then
    '0' :: '.' :: List.replicate (-point).toNat '0' ++ digits
  else if (digits.length : Int) ≤ point then
    digits ++ List.replicate (point.toNat - digits.length) '0' ++ ['.', '0']
  else
    digits.take point.toNat ++ '.' :: digits.drop point.toNat

/-- One digit before the point, the others behind it, and the exponent of the first digit. -/
def scientific (layout : Layout) (digits : List Char) (exponent : Int) : List Char :=
  let mantissa :=
    match digits with
    | d :: e :: rest => d :: '.' :: e :: rest
    | short => short
  mantissa ++ layout.exponentMark ++ (toString exponent).toList

/-- The text of a decimal. -/
def ofScaled (layout : Layout) (d : Scaled) : List Char :=
  let digits := (toString d.digits).toList
  let point := (digits.length : Int) + d.exponent
  if d.digits = 0 ∨ (layout.plainFrom ≤ point - 1 ∧ point - 1 < layout.plainBelow) then
    plain digits point
  else
    scientific layout digits (point - 1)

/-- The text of a double, with a sign whenever its sign bit is set. -/
def ofFloat (layout : Layout) (x : Float) : String :=
  let bits := x.toBits
  if x.isNaN then
    String.ofList layout.undefinedResult
  else
    let sign := if bits >>> 63 = 0 then [] else ['-']
    let magnitude :=
      if x.isInf then layout.infinite else layout.ofScaled (Binary.ofBits bits).shortest
    String.ofList (sign ++ magnitude)

end Layout

/-- A floating point number as the language writes it. -/
def render (x : Float) : String :=
  Layout.numeral.ofFloat x

end Quill.Decimal
