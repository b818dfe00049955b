/-!
# Bits of a byte

Flags, shifts and signs all look at single bits of a byte. Bit `i` is read from the number
that the byte denotes, so `Nat.testBit` and its lemmas apply.
-/

namespace Core6502.Byte

/-- Bit `i` of `v`, bit 0 being the least significant. -/
def bit (v : UInt8) (i : Nat) : Bool := v.toNat.testBit i

/-- Bit 7 is the sign: set exactly for the upper half of the byte range. -/
theorem bit_seven (v : UInt8) : bit v 7 = decide (128 ≤ v.toNat) := by
  have hv := v.toNat_lt
  rw [bit, Nat.testBit_eq_decide_div_mod_eq, decide_eq_decide]
  omega

theorem bit_zero (v : UInt8) : bit v 0 = decide (v.toNat % 2 = 1) := by
  rw [bit, Nat.testBit_eq_decide_div_mod_eq, decide_eq_decide]
  omega

/-- The signed number of a byte, in two's complement. -/
theorem toInt_toInt8 (v : UInt8) : v.toInt8.toInt = (v.toNat : Int).bmod 256 :=
  BitVec.toInt_eq_toNat_bmod v.toBitVec

/-- A property of bytes holds of all once it holds of the 256 numbers below 256. -/
theorem forall_of_lt {p : UInt8 → Prop} (h : ∀ n < 256, p (UInt8.ofNat n)) (v : UInt8) : p v := by
  have hv := h v.toNat v.toNat_lt
  rwa [UInt8.ofNat_toNat] at hv

end Core6502.Byte
