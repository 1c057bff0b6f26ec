/-
Module: Quill.Arithmetic.Integer
Layer: Numbers
Purpose: Arithmetic on 64 bit words in two's complement beyond what words bring along: division that
  rounds down, and powers. All results wrap.
Main exports: Arithmetic.floorDivide, Arithmetic.power
-/

namespace Quill.Arithmetic

/-- The quotient rounded down. Division of words rounds toward zero, which is one too high exactly when
    there is a remainder and the signs differ. -/
def floorDivide (l r : Int64) : Int64 :=
  if l % r ≠ 0 ∧ (l < 0 ↔ ¬ r < 0) then l / r - 1 else l / r

/-- The power with an exponent of at most `bits` binary digits, by repeated squaring. -/
def powerWithin (base : Int64) : (bits : Nat) → (exponent : Nat) → Int64
  | 0, _ => 1
  | bits + 1, exponent =>
    let rest := powerWithin (base * base) bits (exponent / 2)
    if exponent % 2 = 1 then base * rest else rest

/-- The exponents up to which powers of integers are integers have this many binary digits. -/
def exponentBits : Nat := 32

/-- The power of an integer, for an exponent that is neither negative nor too large. -/
def power? (base exponent : Int64) : Option Int64 :=
  if 0 ≤ exponent ∧ exponent.toNatClampNeg < Nat.pow 2 exponentBits then
    some (powerWithin base exponentBits exponent.toNatClampNeg)
  else
    none

end Quill.Arithmetic
