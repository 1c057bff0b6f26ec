/-
Module: Quill.Arithmetic.Floating
Layer: Numbers
Purpose: Arithmetic on floating point numbers beyond what they bring along: the remainder of a division
  rounded toward zero, which is computed without rounding, and comparisons up to the tolerance.
Main exports: Arithmetic.remainder, Arithmetic.lessThan, Arithmetic.atMost
-/
import Quill.Decimal.Shortest
import Quill.Value.Equality

namespace Quill.Arithmetic

/-- Whether the sign of a floating point number is minus; zeros have a sign, too. -/
def signed (x : Float) : Bool :=
  decide (x.toBits >>> 63 = 1)

/-- The remainder of one magnitude by another, exactly: both are counted in units of the smaller power
    of two, and the remainder is less than either mantissa in that unit. -/
def remainderMagnitude (x y : Decimal.Binary) : Float :=
  let unit := min x.exponent y.exponent
  let count (z : Decimal.Binary) : Nat := z.mantissa * Nat.pow 2 (z.exponent - unit).toNat
  (Float.ofNat (count x % count y)).scaleB unit

/-- The remainder of a division rounded toward zero. It has the sign of the dividend; a dividend is its
    own remainder by an infinity, and an infinity has none. -/
def remainder (l r : Float) : Float :=
  if l.isNaN || r.isNaN || l.isInf then
    l - l + r
  else if r.isInf then
    l
  else
    let magnitude := remainderMagnitude (.ofBits l.toBits) (.ofBits r.toBits)
    if signed l then -magnitude else magnitude

/-- Whether a number is less than another one and not close to it. -/
def lessThan (l r : Float) : Bool :=
  decide (l < r) && !closeTo l r

/-- Whether a number is less than another one or close to it. -/
def atMost (l r : Float) : Bool :=
  decide (l < r) || closeTo l r

end Quill.Arithmetic
