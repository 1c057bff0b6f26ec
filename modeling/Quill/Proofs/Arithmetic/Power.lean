/-
Module: Quill.Proofs.Arithmetic.Power
Layer: Proofs
Purpose: Powers of integers. Repeated squaring computes the power of the integer that a word stands for, wrapped into
  a word, as long as the exponent has no more binary digits than there are rounds. There are 32 rounds, so the power is
  an integer for the exponents from 0 up to 2³² - 1; it is a floating point number for a negative exponent, and also
  for the exponents from 2³² on, although their powers could be wrapped in the same way.
Main exports: Arithmetic.powerWithin_ofInt, Arithmetic.power?_eq, integer_power_below_limit
-/
import Mathlib.Algebra.Group.Nat.Defs
import Mathlib.Algebra.Ring.Int.Defs
import Quill.Parser
import Quill.Proofs.EarlyExit

namespace Quill

namespace Arithmetic

/-- The power of an even or odd exponent, from that of the square. -/
theorem pow_halved (b : Int) (exponent : Nat) : b ^ exponent = b ^ (exponent % 2) * (b * b) ^ (exponent / 2) := by
  rw [← pow_two, ← pow_mul, ← pow_add, Nat.mod_add_div]

/-- Repeated squaring is exact up to wrapping. Each round halves the exponent and squares the base, and both the base
    and its square stand for integers up to multiples of 2⁶⁴ only. -/
theorem powerWithin_ofInt (bits : Nat) : ∀ (b : Int) (exponent : Nat), exponent < 2 ^ bits →
    powerWithin (.ofInt b) bits exponent = .ofInt (b ^ exponent) := by
  induction bits with
  | zero =>
      intro b exponent fits
      obtain rfl : exponent = 0 := by omega
      rw [pow_zero]
      rfl
  | succ bits inductionHypothesis =>
      intro b exponent fits
      have half : exponent / 2 < 2 ^ bits := by omega
      have rest : powerWithin (.ofInt b * .ofInt b) bits (exponent / 2) = .ofInt ((b * b) ^ (exponent / 2)) := by
        rw [← Int64.ofInt_mul]
        exact inductionHypothesis (b * b) (exponent / 2) half
      rw [powerWithin, rest, pow_halved b exponent]
      split
      case isTrue isOdd => rw [isOdd, pow_one, Int64.ofInt_mul]
      case isFalse isEven =>
        have even : exponent % 2 = 0 := by omega
        rw [even, pow_zero, one_mul]

/-- The exponents for which the power is an integer. -/
theorem power?_eq (l r : Int64) :
    power? l r = if 0 ≤ r.toInt ∧ r.toInt < 2 ^ 32 then some (.ofInt (l.toInt ^ r.toInt.toNat)) else none := by
  have within : (0 ≤ r ∧ r.toInt.toNat < Nat.pow 2 exponentBits) ↔ 0 ≤ r.toInt ∧ r.toInt < 2 ^ 32 := by
    rw [Int64.le_iff_toInt_le, Int64.toInt_zero, show Nat.pow 2 exponentBits = 2 ^ 32 from rfl]
    omega
  show (if 0 ≤ r ∧ r.toInt.toNat < Nat.pow 2 exponentBits then
    some (powerWithin l exponentBits r.toInt.toNat) else none) = _
  by_cases fits : 0 ≤ r.toInt ∧ r.toInt < 2 ^ 32
  · have exact := powerWithin_ofInt exponentBits l.toInt r.toInt.toNat (within.2 fits).2
    rw [Int64.ofInt_toInt] at exact
    rw [if_pos fits, if_pos (within.2 fits), exact]
  · rw [if_neg fits, if_neg (mt within.1 fits)]

end Arithmetic

theorem Operation.binary_power (l r : Int64) :
    Operation.binary .power (.integer l) (.integer r) =
      .ok (if 0 ≤ r.toInt ∧ r.toInt < 2 ^ 32 then .integer (.ofInt (l.toInt ^ r.toInt.toNat))
        else .float (l.toFloat.pow r.toFloat)) := by
  rw [binary, integers, Arithmetic.power?_eq]
  by_cases within : 0 ≤ r.toInt ∧ r.toInt < 2 ^ 32
  · rw [if_pos within, if_pos within]
  · rw [if_neg within, if_neg within]

/-!
### Main result
-/

/-- If the operands are evaluated to integers, then for the exponents below 2³² the power is an integer, that of the
    integers wrapped into a word. For a negative exponent, and for one from 2³² on, it is a floating point number. -/
theorem integer_power_below_limit {ev : Evaluator} {call : Caller} {rounds : Nat} {scope : ScopeId}
    {left right : Expr} {m m' : Machine} {l r : Int64}
    (passes : Passes [ev left scope, ev right scope] m [.integer l, .integer r] m') :
    (0 ≤ r.toInt → r.toInt < 2 ^ 32 →
      evalForm ev call rounds scope (.binary .power left right) m =
        (.ok (.integer (.ofInt (l.toInt ^ r.toInt.toNat))), m')) ∧
    (r.toInt < 0 ∨ 2 ^ 32 ≤ r.toInt →
      evalForm ev call rounds scope (.binary .power left right) m =
        (.ok (.float (l.toFloat.pow r.toFloat)), m')) := by
  rw [evalForm_of_strict rfl passes, Operation.binary_power]
  constructor
  · intro natural small
    rw [if_pos ⟨natural, small⟩]
    rfl
  · intro outside
    rw [if_neg (by omega)]
    rfl

/-- The power wraps in `(-3) ** 41`; it is a floating point number in `1 ** -1` and in `1 ** 4294967296`. -/
theorem integer_power_below_limit_of_literals :
    let m := Machine.start .unlimited
    evalExpr 2 (.binary .power (.integer (-3)) (.integer 41)) 0 m = (.ok (.integer 420491770248316829), m) ∧
    evalExpr 2 (.binary .power (.integer 1) (.integer (-1))) 0 m =
      (.ok (.float ((1 : Int64).toFloat.pow (-1 : Int64).toFloat)), m) ∧
    evalExpr 2 (.binary .power (.integer 1) (.integer 4294967296)) 0 m =
      (.ok (.float ((1 : Int64).toFloat.pow (4294967296 : Int64).toFloat)), m) := by
  intro m
  have passes : ∀ l r : Int64, Passes [evalExpr 1 (.integer l) 0, evalExpr 1 (.integer r) 0] m
      [.integer l, .integer r] m := fun l r => .cons rfl nofun (.cons rfl nofun .nil)
  have wrapped : Int64.ofInt ((-3 : Int64).toInt ^ (41 : Int64).toInt.toNat) = 420491770248316829 := by decide +kernel
  refine ⟨?_, ?_, ?_⟩
  · rw [← wrapped]
    exact (integer_power_below_limit (passes _ _)).1 (by decide) (by decide)
  · exact (integer_power_below_limit (passes _ _)).2 (.inl (by decide))
  · exact (integer_power_below_limit (passes _ _)).2 (.inr (by decide))

/-- No integer comes out of `1 ** 4294967296`, although the exponent is not negative and the power is one. -/
theorem integer_power_lost_at_limit :
    let p := parse "1 ** 4294967296"
    p.diagnostics = [] ∧ p.program.statements = [.expr (.binary .power (.integer 1) (.integer 4294967296))] ∧
      0 ≤ (4294967296 : Int64).toInt ∧ (1 : Int64).toInt ^ (4294967296 : Int64).toInt.toNat = 1 ∧
      ∀ n m, evalProgram 2 p.program 0 (Machine.start .unlimited) ≠ (.ok (.integer n), m) := by
  refine ⟨rfl, rfl, by decide, one_pow _, ?_⟩
  intro n m isInteger
  cases isInteger

end Quill
