import Core6502.Byte
import Mathlib.Algebra.BigOperators.Intervals
import Mathlib.Algebra.Order.Ring.Int
import Mathlib.Tactic.LinearCombination
import Mathlib.Tactic.Positivity

/-!
# Numbers of several bytes

A row of bytes is a number in base 256, least significant digit first, and a signed number in two's
complement. The sign depends on the last byte only, and so does the question whether a sum of signed
numbers fits: these are facts about one byte and the carry into it.
-/

namespace Core6502.Digits

variable {x : Nat → UInt8} {n : Nat}

/-- The number that the first `n` bytes of a row make up. -/
def value (x : Nat → UInt8) (n : Nat) : Nat := ∑ i ∈ Finset.range n, (x i).toNat * 256 ^ i

/-- The number that the first `n` bytes of a row make up in two's complement. -/
def signedValue (x : Nat → UInt8) (n : Nat) : Int :=
  if value x n < 2 ^ (8 * n - 1) then value x n else value x n - 2 ^ (8 * n)

/-- In two's complement, `n` bytes can hold the number. -/
def Fits (n : Nat) (s : Int) : Prop := -2 ^ (8 * n - 1) ≤ s ∧ s ≤ 2 ^ (8 * n - 1) - 1

theorem value_succ (x : Nat → UInt8) (n : Nat) :
    value x (n + 1) = value x n + (x n).toNat * 256 ^ n := Finset.sum_range_succ _ n

theorem value_lt (x : Nat → UInt8) (n : Nat) : value x n < 256 ^ n := by
  induction n with
  | zero => exact Nat.one_pos
  | succ n ih =>
      have hdigit := Nat.mul_le_mul_right (256 ^ n) (Nat.le_of_lt_succ (x n).toNat_lt)
      rw [value_succ, Nat.pow_succ]
      omega

/-- The complements of the digits of a number make up the difference to the greatest number with as
many digits. -/
theorem value_complement (x : Nat → UInt8) (n : Nat) :
    value (fun i => ~~~x i) n + value x n + 1 = 256 ^ n := by
  induction n with
  | zero => rfl
  | succ n ih =>
      have hdigit : (~~~x n).toNat * 256 ^ n + (x n).toNat * 256 ^ n = 255 * 256 ^ n := by
        have hx := (x n).toNat_lt
        have hnot : (~~~x n).toNat = 255 - (x n).toNat := UInt8.toNat_not (x n)
        rw [← Nat.add_mul, hnot]
        congr 1
        omega
      rw [value_succ, value_succ, Nat.pow_succ]
      omega

/-! ## The last byte -/

theorem two_pow_pred (n : Nat) : 2 ^ (8 * (n + 1) - 1) = 128 * 256 ^ n := by
  have hexponent : 8 * (n + 1) - 1 = 7 + 8 * n := by omega
  rw [hexponent, Nat.pow_add, Nat.pow_mul]

theorem toInt_toInt8_eq_ite (v : UInt8) :
    v.toInt8.toInt = if v.toNat < 128 then (v.toNat : Int) else v.toNat - 256 := by
  have hv := v.toNat_lt
  rw [Byte.toInt_toInt8, Int.bmod_def]
  omega

theorem toInt_toInt8_not (v : UInt8) : (~~~v).toInt8.toInt = -1 - v.toInt8.toInt := by
  have hv := v.toNat_lt
  rw [toInt_toInt8_eq_ite, toInt_toInt8_eq_ite, UInt8.toNat_not, UInt8.size]
  omega

theorem signedValue_succ (x : Nat → UInt8) (n : Nat) :
    signedValue x (n + 1) = value x n + (x n).toInt8.toInt * 256 ^ n := by
  have hlow := value_lt x n
  have hpow : (2 : Int) ^ (8 * (n + 1)) = 256 * 256 ^ n := by
    rw [pow_mul, pow_succ, mul_comm]
    rfl
  rw [signedValue, toInt_toInt8_eq_ite, two_pow_pred, value_succ]
  by_cases hsign : (x n).toNat < 128
  · have hdigit := Nat.mul_le_mul_right (256 ^ n) (Nat.le_of_lt_succ hsign)
    rw [if_pos hsign, if_pos (by omega)]
    push_cast
    rfl
  · have hdigit := Nat.mul_le_mul_right (256 ^ n) (Nat.le_of_not_lt hsign)
    rw [if_neg hsign, if_neg (by omega), hpow]
    push_cast
    rw [sub_mul, add_sub_assoc]

theorem signedValue_complement (x : Nat → UInt8) (n : Nat) :
    signedValue (fun i => ~~~x i) (n + 1) = -1 - signedValue x (n + 1) := by
  have hlow : (value (fun i => ~~~x i) n : Int) + value x n + 1 = 256 ^ n := by
    exact_mod_cast value_complement x n
  rw [signedValue_succ, signedValue_succ, toInt_toInt8_not]
  linear_combination hlow

/-- Whether a number fits is up to its part above the last but one byte. -/
theorem fits_succ_iff {low : Nat} (hlow : low < 256 ^ n) (t : Int) :
    Fits (n + 1) (low + t * 256 ^ n) ↔ -128 ≤ t ∧ t ≤ 127 := by
  have hpos : (0 : Int) < 256 ^ n := by positivity
  have hpow : (2 : Int) ^ (8 * (n + 1) - 1) = 128 * 256 ^ n := by
    exact_mod_cast two_pow_pred n
  have hfloor : ((low : Int) + t * 256 ^ n) / 256 ^ n = t := by
    rw [Int.add_mul_ediv_right _ _ hpos.ne', Int.ediv_eq_zero_of_lt (Int.natCast_nonneg low)
      (by exact_mod_cast hlow), zero_add]
  have hleast : -2 ^ (8 * (n + 1) - 1) ≤ (low : Int) + t * 256 ^ n ↔ -128 ≤ t := by
    rw [hpow, ← neg_mul, ← Int.le_ediv_iff_mul_le hpos, hfloor]
  have hgreatest : (low : Int) + t * 256 ^ n ≤ 2 ^ (8 * (n + 1) - 1) - 1 ↔ t ≤ 127 := by
    rw [hpow, Int.le_sub_one_iff, ← Int.ediv_lt_iff_lt_mul hpos, hfloor, Int.lt_iff_add_one_le]
    omega
  rw [Fits, hleast, hgreatest]

end Core6502.Digits
