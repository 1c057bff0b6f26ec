/-
Module: Quill.Decimal.Shortest
Layer: Numbers
Purpose: The shortest decimal that identifies a double. A finite double is a mantissa times a power of
  two; the reals that round to it form an interval around it, and any decimal in that interval reads
  back as the same double. The search tries grids of one, two, three significant digits and so on, and
  on each grid only the two neighbours of the value, all in exact natural number arithmetic.
Main exports: Decimal.Binary, Decimal.Scaled, Decimal.Binary.readsBack, Decimal.Binary.shortest
-/

namespace Quill.Decimal

/-- A finite non-negative double, `mantissa * 2 ^ exponent`. The gap to the next smaller double is half
    the gap to the next larger one exactly at powers of two, which `narrowBelow` records. -/
structure Binary where
  mantissa : Nat
  exponent : Int
  narrowBelow : Bool

/-- A decimal, `digits * 10 ^ exponent`. -/
structure Scaled where
  digits : Nat
  exponent : Int
deriving DecidableEq

/-- The magnitude of the double with the given bits; the bits of an infinity or of a NaN stand for no
    such value. -/
def Binary.ofBits (bits : UInt64) : Binary :=
  let biased := ((bits >>> 52) &&& 0x7FF).toNat
  let fraction := (bits &&& 0xFFFFFFFFFFFFF).toNat
  if biased = 0 then
    ⟨fraction, -1074, false⟩
  else
    ⟨Nat.pow 2 52 + fraction, (biased : Int) - 1075, decide (fraction = 0) && decide (1 < biased)⟩

/-- Compares `a * 10 ^ i` with `n * 2 ^ j`, exactly: both sides are multiplied by what makes them
    natural numbers. -/
def compareScaled (a : Nat) (i : Int) (n : Nat) (j : Int) : Ordering :=
  compare (a * Nat.pow 10 i.toNat * Nat.pow 2 (-j).toNat) (n * Nat.pow 2 j.toNat * Nat.pow 10 (-i).toNat)

namespace Binary

/-- Whether a decimal rounds to this double. The interval reaches half way to each neighbour, and its
    ends belong to it exactly when the mantissa is even. -/
def readsBack (x : Binary) (d : Scaled) : Bool :=
  let low := if x.narrowBelow then 4 * x.mantissa - 1 else 4 * x.mantissa - 2
  let high := 4 * x.mantissa + 2
  let closed := x.mantissa % 2 == 0
  let atLow := compareScaled d.digits d.exponent low (x.exponent - 2)
  let atHigh := compareScaled d.digits d.exponent high (x.exponent - 2)
  (atLow == .gt || (closed && atLow == .eq)) && (atHigh == .lt || (closed && atHigh == .eq))

/-- The least `k` with `value < 10 ^ k`, for a value that is not zero. The binary logarithm gives an
    estimate that is never too large and at most two too small. -/
def scale (x : Binary) : Int :=
  let estimate := ((x.mantissa.log2 : Int) + x.exponent) * 30103 / 100000
  let fits (k : Int) : Bool := compareScaled 1 k x.mantissa x.exponent == .gt
  if fits estimate then estimate
  else if fits (estimate + 1) then estimate + 1
  else estimate + 2

/-- The largest multiple of `10 ^ grid` that does not exceed the value, counted in that unit. -/
def floorOn (x : Binary) (grid : Int) : Nat :=
  (x.mantissa * Nat.pow 2 x.exponent.toNat * Nat.pow 10 (-grid).toNat) /
    (Nat.pow 2 (-x.exponent).toNat * Nat.pow 10 grid.toNat)

/-- The better of the value's two neighbours on a grid, if one of them reads back. Of two that do, the
    nearer one is taken, and the upper one when they are equally near. -/
def onGrid? (x : Binary) (grid : Int) : Option Scaled :=
  let low : Scaled := ⟨x.floorOn grid, grid⟩
  let high : Scaled := ⟨low.digits + 1, grid⟩
  match x.readsBack low, x.readsBack high with
  | true, true =>
    match compareScaled (2 * low.digits + 1) grid x.mantissa (x.exponent + 1) with
    | .gt => some low
    | _ => some high
  | true, false => some low
  | false, true => some high
  | false, false => none

/-- The exact decimal value, which always reads back. -/
def exactDecimal (x : Binary) : Scaled :=
  if 0 ≤ x.exponent then
    ⟨x.mantissa * Nat.pow 2 x.exponent.toNat, 0⟩
  else
    ⟨x.mantissa * Nat.pow 5 (-x.exponent).toNat, x.exponent⟩

/-- The first hit on the grids of `count`, `count + 1`, … significant digits. -/
def search (x : Binary) (scale : Int) : (remaining : Nat) → (count : Nat) → Scaled
  | 0, _ => x.exactDecimal
  | remaining + 1, count =>
    match x.onGrid? (scale - count) with
    | some d => d
    | none => x.search scale remaining (count + 1)

end Binary

/-- Moves trailing zeros of the digits into the exponent, at most `bound` of them. -/
def Scaled.strip : (bound : Nat) → Scaled → Scaled
  | 0, d => d
  | bound + 1, d =>
    if d.digits % 10 = 0 ∧ d.digits ≠ 0 then strip bound ⟨d.digits / 10, d.exponent + 1⟩ else d

/-- The shortest decimal that reads back as this double, the nearest of them if there are several, and
    of two equally near ones the larger. Seventeen digits always suffice. -/
def Binary.shortest (x : Binary) : Scaled :=
  if x.mantissa = 0 then ⟨0, 0⟩ else (x.search x.scale 17 1).strip 17

end Quill.Decimal
