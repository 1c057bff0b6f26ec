/-
Module: Quill.Proofs.Arithmetic
Layer: Proofs
Purpose: Arithmetic on integers is exact up to multiples of 2⁶⁴. Sums, differences and products are those of the
  integers that the words stand for, wrapped into a word. Quotients and remainders exist unless the divisor is
  zero. Rounding down starts from the quotient rounded toward zero and takes one off where the signs differ and
  something is left over; at these places the quotient is far from the smallest word, so that taking one off it
  never wraps.
Main exports: Arithmetic.floorDivide_eq, Arithmetic.step_fits, Arithmetic.Exact, integer_arithmetic_exact
-/
import Mathlib.Data.Rat.Floor
import Quill.Operation

namespace Quill

namespace Arithmetic

/-!
### Words and the integers that they stand for
-/

section Words

variable (l r : Int64)

theorem divide_eq : l / r = .ofInt (l.toInt.tdiv r.toInt) := by
  rw [← Int64.toInt_inj, Int64.toInt_div, Int64.toInt_ofInt]

/-- A quotient and its remainder give the dividend back. The quotient of the smallest word by minus one is that word
    itself, and even then the parts fit together. -/
theorem recombined : l / r * r + l % r = l := by
  have exact : l.toInt.tdiv r.toInt * r.toInt + l.toInt.tmod r.toInt = l.toInt := by
    rw [Int.tmod_def, Int.mul_comm]
    omega
  have remainder : l % r = .ofInt (l.toInt.tmod r.toInt) := by
    rw [← Int64.toInt_mod, Int64.ofInt_toInt]
  calc l / r * r + l % r
      = .ofInt (l.toInt.tdiv r.toInt) * .ofInt r.toInt + .ofInt (l.toInt.tmod r.toInt) := by
        rw [divide_eq, remainder, Int64.ofInt_toInt]
    _ = .ofInt (l.toInt.tdiv r.toInt * r.toInt + l.toInt.tmod r.toInt) := by
        rw [Int64.ofInt_add, Int64.ofInt_mul]
    _ = l := by
        rw [exact, Int64.ofInt_toInt]

variable {l r}

theorem toInt_ne_zero (nonzero : r ≠ 0) : r.toInt ≠ 0 := by
  rwa [← Int64.toInt_zero, ne_eq, Int64.toInt_inj]

theorem remainder_ne_zero_iff : l % r ≠ 0 ↔ ¬ r.toInt ∣ l.toInt := by
  rw [Int.dvd_iff_tmod_eq_zero, ← Int64.toInt_mod, ← Int64.toInt_zero, Int64.toInt_inj]

/-- The places at which rounding down takes one off the quotient. -/
theorem takes_off_iff :
    l % r ≠ 0 ∧ (l < 0 ↔ ¬ r < 0) ↔ ¬ r.toInt ∣ l.toInt ∧ (l.toInt < 0 ↔ 0 ≤ r.toInt) := by
  rw [remainder_ne_zero_iff, Int64.lt_iff_toInt_lt, Int64.lt_iff_toInt_lt, Int64.toInt_zero, Int.not_lt]

end Words

/-!
### Rounding down
-/

/-- The two ways of rounding differ by one, exactly where the signs differ and something is left over. -/
theorem fdiv_eq_tdiv_sub {a b : Int} (nonzero : b ≠ 0) :
    a.fdiv b = a.tdiv b - if ¬ b ∣ a ∧ (a < 0 ↔ 0 ≤ b) then 1 else 0 := by
  rw [Int.fdiv_eq_tdiv]
  by_cases divides : b ∣ a
  · simp [divides]
  · by_cases nonnegative : 0 ≤ b
    · have sign : b.sign = 1 := Int.sign_eq_one_of_pos (by omega)
      by_cases dividend : 0 ≤ a <;> simp [divides, nonnegative, dividend, sign, Int.not_lt.2, Int.not_le.1]
    · have sign : b.sign = -1 := Int.sign_eq_neg_one_of_neg (by omega)
      by_cases dividend : 0 ≤ a <;> simp [divides, nonnegative, dividend, sign, Int.not_lt.2, Int.not_le.1]

theorem floor_eq_fdiv (a b : Int) : ⌊(a : ℚ) / b⌋ = a.fdiv b := by
  obtain ⟨n, rfl | rfl⟩ := b.eq_nat_or_neg
  · rw [Int.fdiv_eq_ediv_of_nonneg a (Int.natCast_nonneg n), ← Rat.floor_intCast_div_natCast, Int.cast_natCast]
  · have flipped : (a : ℚ) / ((-n : Int) : ℚ) = ((-a : Int) : ℚ) / n := by
      rw [Int.cast_neg, Int.cast_neg, div_neg, neg_div, Int.cast_natCast]
    rw [flipped, Rat.floor_intCast_div_natCast, ← Int.fdiv_eq_ediv_of_nonneg _ (Int.natCast_nonneg n),
      ← Int.neg_fdiv_neg, Int.neg_neg]

/-- Division that rounds down wraps the quotient rounded down. -/
theorem floorDivide_eq {l r : Int64} (nonzero : r ≠ 0) :
    floorDivide l r = .ofInt ⌊(l.toInt : ℚ) / r.toInt⌋ := by
  rw [floor_eq_fdiv, fdiv_eq_tdiv_sub (toInt_ne_zero nonzero), Int64.ofInt_sub, ← divide_eq]
  unfold floorDivide
  split
  · rename_i takesOff
    rw [if_pos (takes_off_iff.1 takesOff)]
    rfl
  · rename_i stays
    rw [if_neg (mt takes_off_iff.2 stays)]
    exact (Int64.sub_zero _).symm

/-- Where one is taken off, the divisor is neither one nor minus one, so that the quotient has at most half the
    magnitude of a word. -/
theorem step_fits {l r : Int64} (nonzero : r ≠ 0) (leftOver : l % r ≠ 0) :
    Int64.minValue.toInt ≤ (l / r).toInt - 1 := by
  have notDivides := remainder_ne_zero_iff.1 leftOver
  have notUnit : ∀ u : Int, u.natAbs = 1 → r.toInt ≠ u := by
    rintro u isUnit rfl
    exact notDivides (Int.natAbs_dvd.1 (by rw [isUnit]; exact one_dvd _))
  have large : 2 ≤ r.toInt.natAbs := by
    have := toInt_ne_zero nonzero
    have := notUnit 1 rfl
    have := notUnit (-1) rfl
    omega
  have quotient : (l / r).toInt = l.toInt.tdiv r.toInt := by
    refine Int64.toInt_div_of_ne_right l r ?_
    rintro rfl
    exact notUnit (-1) rfl rfl
  have small : (l.toInt.tdiv r.toInt).natAbs ≤ l.toInt.natAbs / 2 := by
    rw [Int.natAbs_tdiv]
    exact Nat.div_le_div_left large (by decide)
  have lower := Int64.le_toInt l
  have upper := Int64.toInt_lt l
  rw [quotient, Int64.toInt_minValue]
  omega

/-!
### Main result
-/

/-- What the operators yield for two integers. The words that integers wrap to are given by `Int64.ofInt`. -/
structure Exact (l r : Int64) : Prop where
  add : Operation.binary .add (.integer l) (.integer r) = .ok (.integer (.ofInt (l.toInt + r.toInt)))
  subtract : Operation.binary .subtract (.integer l) (.integer r) = .ok (.integer (.ofInt (l.toInt - r.toInt)))
  multiply : Operation.binary .multiply (.integer l) (.integer r) = .ok (.integer (.ofInt (l.toInt * r.toInt)))
  /-- a zero divisor is the one reason for a quotient or remainder to fail -/
  byZero : ∀ op ∈ [BinaryOp.divide, .floorDivide, .remainder], ∀ f,
    Operation.binary op (.integer l) (.integer r) = .error f ↔ r = 0 ∧ f = .divisionByZero
  /-- the quotient is rounded toward zero -/
  divide : r ≠ 0 →
    Operation.binary .divide (.integer l) (.integer r) = .ok (.integer (.ofInt (l.toInt.tdiv r.toInt)))
  floorDivide : r ≠ 0 →
    Operation.binary .floorDivide (.integer l) (.integer r) = .ok (.integer (.ofInt ⌊(l.toInt : ℚ) / r.toInt⌋))
  /-- the remainder is that of the quotient rounded toward zero, without any wrapping -/
  remainder : r ≠ 0 → ∃ n : Int64, Operation.binary .remainder (.integer l) (.integer r) = .ok (.integer n) ∧
    n.toInt = l.toInt.tmod r.toInt ∧ (n.toInt = 0 ∨ n.toInt.sign = l.toInt.sign) ∧ n.toInt.natAbs < r.toInt.natAbs
  recombine : r ≠ 0 → ∃ quotient product rest : Value,
    Operation.binary .divide (.integer l) (.integer r) = .ok quotient ∧
    Operation.binary .multiply quotient (.integer r) = .ok product ∧
    Operation.binary .remainder (.integer l) (.integer r) = .ok rest ∧
    Operation.binary .add product rest = .ok (.integer l)
  /-- taking one off the quotient, as rounding down does, stays within the words -/
  step : r ≠ 0 → l % r ≠ 0 → (l < 0 ↔ ¬ r < 0) →
    Int64.minValue.toInt ≤ (l / r).toInt - 1 ∧ (Arithmetic.floorDivide l r).toInt = (l / r).toInt - 1
  negate : Operation.unary .negate (.integer l) = .ok (.integer (.ofInt (-l.toInt)))

variable {l r : Int64}

theorem unlessZero_of_ne (nonzero : r ≠ 0) (v : Value) : Operation.unlessZero (r == 0) v = .ok v := by
  simp [Operation.unlessZero, nonzero]

theorem unlessZero_eq_error_iff {v : Value} {f : Fault} :
    Operation.unlessZero (r == 0) v = .error f ↔ r = 0 ∧ f = .divisionByZero := by
  by_cases isZero : r = 0
  · simp [Operation.unlessZero, isZero, eq_comm]
  · simp [Operation.unlessZero, isZero]

theorem sign_of_remainder (n l r : Int) (isRemainder : n = l.tmod r) : n = 0 ∨ n.sign = l.sign := by
  have sign := Int.sign_tmod l r
  rw [← isRemainder] at sign
  split at sign
  · exact .inl (Int.sign_eq_zero_iff_zero.1 sign)
  · exact .inr sign

/-- Where one is taken off, it is taken off the integer that the quotient stands for. -/
theorem toInt_floorDivide (nonzero : r ≠ 0) (leftOver : l % r ≠ 0) (differ : l < 0 ↔ ¬ r < 0) :
    (floorDivide l r).toInt = (l / r).toInt - 1 := by
  have fits := step_fits nonzero leftOver
  have upper := Int64.toInt_lt (l / r)
  have word : l / r - 1 = .ofInt ((l / r).toInt - 1) := by
    rw [Int64.ofInt_sub, Int64.ofInt_toInt]
    rfl
  unfold floorDivide
  rw [if_pos ⟨leftOver, differ⟩, word]
  exact Int64.toInt_ofInt_of_le fits (by omega)

end Arithmetic

open Arithmetic in
/-- Arithmetic on integers is exact modulo 2⁶⁴. -/
theorem integer_arithmetic_exact (l r : Int64) : Arithmetic.Exact l r where
  add := by
    rw [Int64.ofInt_add, Int64.ofInt_toInt, Int64.ofInt_toInt]
    rfl
  subtract := by
    rw [Int64.ofInt_sub, Int64.ofInt_toInt, Int64.ofInt_toInt]
    rfl
  multiply := by
    rw [Int64.ofInt_mul, Int64.ofInt_toInt, Int64.ofInt_toInt]
    rfl
  byZero := by
    intro op isDivision f
    simp only [List.mem_cons, List.not_mem_nil, or_false] at isDivision
    rcases isDivision with rfl | rfl | rfl <;> exact unlessZero_eq_error_iff
  divide nonzero := by
    rw [← divide_eq]
    exact unlessZero_of_ne nonzero _
  floorDivide nonzero := by
    rw [← floorDivide_eq nonzero]
    exact unlessZero_of_ne nonzero _
  remainder nonzero := by
    refine ⟨l % r, unlessZero_of_ne nonzero _, Int64.toInt_mod l r, ?_, ?_⟩
    · exact sign_of_remainder _ _ _ (Int64.toInt_mod l r)
    · rw [Int64.toInt_mod, Int.natAbs_tmod]
      exact Nat.mod_lt _ (Int.natAbs_pos.2 (toInt_ne_zero nonzero))
  recombine nonzero := by
    refine ⟨_, _, _, unlessZero_of_ne nonzero _, rfl, unlessZero_of_ne nonzero _, ?_⟩
    exact congrArg (fun n => Except.ok (Value.integer n)) (recombined l r)
  step nonzero leftOver differ := ⟨step_fits nonzero leftOver, toInt_floorDivide nonzero leftOver differ⟩
  negate := by
    rw [Int64.ofInt_neg, Int64.ofInt_toInt]
    rfl

/-- The one quotient that wraps. -/
example : Operation.binary .floorDivide (.integer Int64.minValue) (.integer (-1)) = .ok (.integer Int64.minValue) := by
  rfl

end Quill
