/-
Module: Quill.Proofs.Decimal
Layer: Proofs
Purpose: An integer is written as the digits of its magnitude, behind a minus sign if it is negative. Reading the
  digits gives the magnitude if it fits, and digits are never read as a negative integer.
Main exports: renderInteger_of_natural, renderInteger_of_negative, Lexeme.digits_spelled,
  Decimal.readInteger?_digits, Decimal.readInteger?_renderInteger, Decimal.natural_of_readInteger?
-/
import Quill.Tree.Printer
import Quill.Decimal.Reader
import Quill.Proofs.Lexer.Front

namespace Quill

/-- An integer that is not negative is written by its digits. -/
theorem renderInteger_of_natural {n : Int64} (natural : 0 ≤ n.toInt) : renderInteger n = toString n.toInt.natAbs := by
  obtain ⟨m, isNat⟩ := Int.eq_ofNat_of_zero_le natural
  simp only [renderInteger, isNat]
  rfl

/-- A negative integer is written by a minus sign and the digits of its magnitude. -/
theorem renderInteger_of_negative {n : Int64} (negative : n.toInt < 0) :
    renderInteger n = "-" ++ toString n.toInt.natAbs := by
  obtain ⟨m, isNegative⟩ := Int.eq_negSucc_of_lt_zero negative
  simp only [renderInteger, isNegative]
  rfl

theorem isDigit_of_mem_toDigits {m : Nat} {c : Char} (member : c ∈ Nat.toDigits 10 m) : isDigit c = true := by
  have digit := Nat.isDigit_of_mem_toDigits (by decide) (by decide) member
  simpa [Char.isDigit, isDigit, Char.le_def] using digit

/-- The digits of a number are a lexeme, however large it is. -/
theorem Lexeme.digits_spelled (m : Nat) : (Lexeme.integer (toString m)).spelled = true := by
  have chars : (toString m).toList = Nat.toDigits 10 m := Nat.toList_repr
  have digits : ∀ c ∈ Nat.toDigits 10 m, isDigit c = true := fun c member => isDigit_of_mem_toDigits member
  have noPoint : (Nat.toDigits 10 m).contains '.' = false := by
    rw [← Bool.not_eq_true, List.contains_iff_mem]
    intro member
    cases digits '.' member
  simp only [Lexeme.spelled, chars, noPoint, Bool.not_false, Bool.and_true]
  rcases chars : Nat.toDigits 10 m with _ | ⟨c, cs⟩
  · exact absurd chars Nat.toDigits_ne_nil
  · rw [chars] at digits
    simp only [isNumber, Bool.and_eq_true, List.all_eq_true]
    refine ⟨digits c List.mem_cons_self, ?_⟩
    intro d member
    simp [isNumberChar, digits d (List.mem_cons_of_mem c member)]

/-- The digits of an integer are a lexeme. -/
theorem Lexeme.integer_spelled {value : Int64} (natural : 0 ≤ value.toInt) :
    (Lexeme.integer (renderInteger value)).spelled = true := by
  rw [renderInteger_of_natural natural]
  exact digits_spelled _

namespace Decimal

theorem appendDigits_eq (cs : List Char) (value : Nat) :
    appendDigits value cs = Nat.ofDigitChars 10 cs value := by
  simp only [appendDigits, Nat.ofDigitChars, digitValue, Nat.mul_comm]

theorem naturalValue?_toDigits (m : Nat) : naturalValue? (Nat.toDigits 10 m) = some m := by
  have digits : (Nat.toDigits 10 m).all isDigit = true :=
    List.all_eq_true.2 fun c member => isDigit_of_mem_toDigits member
  have nonempty : (Nat.toDigits 10 m).isEmpty = false := by
    simp [Nat.toDigits_ne_nil]
  simp [naturalValue?, digits, nonempty, appendDigits_eq, Nat.ofDigitChars_ten_toDigits]

theorem splitSign_of_digits {cs : List Char} (digits : ∀ c ∈ cs, isDigit c = true) :
    splitSign cs = (false, cs) := by
  unfold splitSign
  split
  · exact absurd (digits '-' List.mem_cons_self) (by decide)
  · exact absurd (digits '+' List.mem_cons_self) (by decide)
  · rfl

/-- The first number that does not fit. -/
theorem pow_two_sixtyThree : Nat.pow 2 63 = 9223372036854775808 := rfl

/-- Digits are read if the number fits. -/
theorem readInteger?_digits (m : Nat) :
    readInteger? (toString m) = if m < Nat.pow 2 63 then some (.ofInt m) else none := by
  have chars : (toString m).toList = Nat.toDigits 10 m := Nat.toList_repr
  have digits : ∀ c ∈ Nat.toDigits 10 m, isDigit c = true := fun c member => isDigit_of_mem_toDigits member
  simp only [readInteger?, chars, splitSign_of_digits digits, naturalValue?_toDigits, Bool.false_eq_true, if_false]

/-- Reading what was written. -/
theorem readInteger?_renderInteger {n : Int64} (natural : 0 ≤ n.toInt) :
    readInteger? (renderInteger n) = some n := by
  have small : n.toInt.natAbs < Nat.pow 2 63 := by
    have upper := n.toInt_lt
    rw [pow_two_sixtyThree]
    omega
  have same : ((n.toInt.natAbs : Nat) : Int) = n.toInt := Int.natAbs_of_nonneg natural
  rw [renderInteger_of_natural natural, readInteger?_digits, if_pos small, same, Int64.ofInt_toInt]

/-- The digits of a negative integer are read as its opposite, unless it is the smallest integer. -/
theorem readInteger?_magnitude {n : Int64} (negative : n.toInt < 0) (opposed : n ≠ Int64.minValue) :
    readInteger? (toString n.toInt.natAbs) = some (-n) := by
  have above : n.toInt ≠ -2 ^ 63 := fun isLeast => opposed (Int64.toInt_inj.1 isLeast)
  have lower := n.le_toInt
  have small : n.toInt.natAbs < Nat.pow 2 63 := by
    rw [pow_two_sixtyThree]
    omega
  have same : ((n.toInt.natAbs : Nat) : Int) = -n.toInt := Int.ofNat_natAbs_of_nonpos (Int.le_of_lt negative)
  rw [readInteger?_digits, if_pos small, same, Int64.ofInt_neg, Int64.ofInt_toInt]

/-- A lexeme of digits has no sign, so what it spells is not negative. -/
theorem natural_of_readInteger? {digits : String} {n : Int64} (spelled : (Lexeme.integer digits).spelled = true)
    (read : readInteger? digits = some n) : 0 ≤ n.toInt := by
  simp only [Lexeme.spelled, Bool.and_eq_true, Bool.not_eq_true'] at spelled
  have unsigned : splitSign digits.toList = (false, digits.toList) := by
    rcases chars : digits.toList with _ | ⟨c, cs⟩
    · simp [isNumber, chars] at spelled
    · simp only [isNumber, chars, Bool.and_eq_true] at spelled
      unfold splitSign
      split
      · rename_i isMinus
        rw [(List.cons.inj isMinus).1] at spelled
        cases spelled.1.1
      · rename_i isPlus
        rw [(List.cons.inj isPlus).1] at spelled
        cases spelled.1.1
      · rfl
  simp only [readInteger?, unsigned] at read
  split at read
  · cases read
  · rename_i m _
    simp only [Bool.false_eq_true, if_false] at read
    split at read
    · rename_i small
      rw [pow_two_sixtyThree] at small
      cases read
      rw [Int64.toInt_ofInt_of_le (by omega) (by omega)]
      omega
    · cases read

end Decimal

end Quill
