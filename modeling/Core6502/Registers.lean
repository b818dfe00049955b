import Core6502.Status

/-!
# Registers and what instructions compute in them

The registers with the rules of arithmetic on them: addition through the carry, comparison,
shifts by one place. Every rule says which flags it sets; a flag it does not mention stays.
-/

namespace Core6502

/-- The accumulator, the two index registers, the stack pointer and the flags. -/
structure Registers where
  a : UInt8 := 0
  x : UInt8 := 0
  y : UInt8 := 0
  /-- The offset of the next free cell in the stack page. -/
  sp : UInt8 := 0
  status : Status := {}
deriving DecidableEq, Inhabited

namespace Registers

/-- Z and N describe `v`. -/
def describe (r : Registers) (v : UInt8) : Registers := { r with status := r.status.describe v }

def setA (v : UInt8) (r : Registers) : Registers := { r with a := v }.describe v

def setX (v : UInt8) (r : Registers) : Registers := { r with x := v }.describe v

def setY (v : UInt8) (r : Registers) : Registers := { r with y := v }.describe v

/-- Adds `v` and the carry to A. C is the carry out of bit 7; V says that the operands agree in
sign and the sum does not. -/
def addWithCarry (v : UInt8) (r : Registers) : Registers :=
  let sum := r.a.toNat + v.toNat + r.status.carry.toNat
  let result := UInt8.ofNat sum
  { r with status := { r.status with
      carry := decide (255 < sum)
      overflow := (Byte.bit r.a 7 != Byte.bit result 7) && (Byte.bit v 7 != Byte.bit result 7) }
  }.setA result

/-- Subtracts `v` and the borrow, a clear carry, from A: an addition of the complement. -/
def subtractWithCarry (v : UInt8) (r : Registers) : Registers := r.addWithCarry (~~~v)

/-- Compares `reg` with `v`: C says that `reg` is not below `v`, Z and N describe the
difference. -/
def compare (reg v : UInt8) (r : Registers) : Registers :=
  { r with status := { r.status with carry := decide (v ≤ reg) } }.describe (reg - v)

/-- Compares A with the bits of `v`: Z says that they have none in common, N and V copy bits 7
and 6 of `v`. -/
def testBits (v : UInt8) (r : Registers) : Registers :=
  { r with status := { r.status with
      zero := r.a &&& v == 0
      negative := Byte.bit v 7
      overflow := Byte.bit v 6 } }

/-- Moves the bits of `v` up one place. `carryIn` comes in below, and C is the bit that
leaves. -/
def shiftLeft (carryIn : Bool) (v : UInt8) (r : Registers) : UInt8 × Registers :=
  let result := 2 * v + carryIn.toUInt8
  (result, { r with status := { r.status with carry := Byte.bit v 7 } }.describe result)

/-- Moves the bits of `v` down one place. `carryIn` comes in above, and C is the bit that
leaves. -/
def shiftRight (carryIn : Bool) (v : UInt8) (r : Registers) : UInt8 × Registers :=
  let result := v / 2 + 128 * carryIn.toUInt8
  (result, { r with status := { r.status with carry := Byte.bit v 0 } }.describe result)

/-- A shift upwards doubles, and C is what does not fit. -/
theorem toNat_shiftLeft (c : Bool) (v : UInt8) (r : Registers) :
    (r.shiftLeft c v).1.toNat + 256 * (r.shiftLeft c v).2.status.carry.toNat =
      2 * v.toNat + c.toNat := by
  have hv := v.toNat_lt
  have hc := Bool.toNat_le c
  have hcarry : (r.shiftLeft c v).2.status.carry = decide (128 ≤ v.toNat) := Byte.bit_seven v
  have hresult : (r.shiftLeft c v).1.toNat = (2 * v.toNat + c.toNat) % 256 := by
    show (2 * v + c.toUInt8).toNat = _
    cases c <;> simp [Bool.toUInt8, UInt8.toNat_add, UInt8.toNat_mul]
  rw [hcarry, hresult]
  by_cases hbit : 128 ≤ v.toNat
  · rw [decide_eq_true hbit, Bool.toNat_true]
    omega
  · rw [decide_eq_false hbit, Bool.toNat_false]
    omega

/-- A shift downwards halves, and C is what is left over. -/
theorem toNat_shiftRight (c : Bool) (v : UInt8) (r : Registers) :
    2 * (r.shiftRight c v).1.toNat + (r.shiftRight c v).2.status.carry.toNat =
      v.toNat + 256 * c.toNat := by
  have hv := v.toNat_lt
  have hc := Bool.toNat_le c
  have hcarry : (r.shiftRight c v).2.status.carry = decide (v.toNat % 2 = 1) := Byte.bit_zero v
  have hresult : (r.shiftRight c v).1.toNat = v.toNat / 2 + 128 * c.toNat := by
    show (v / 2 + 128 * c.toUInt8).toNat = _
    cases c with
    | false => simp [Bool.toUInt8]
    | true =>
        simp [Bool.toUInt8]
        omega
  rw [hcarry, hresult]
  by_cases hodd : v.toNat % 2 = 1
  · rw [decide_eq_true hodd, Bool.toNat_true]
    omega
  · rw [decide_eq_false hodd, Bool.toNat_false]
    omega

def andA (v : UInt8) (r : Registers) : Registers := r.setA (r.a &&& v)

def orA (v : UInt8) (r : Registers) : Registers := r.setA (r.a ||| v)

def xorA (v : UInt8) (r : Registers) : Registers := r.setA (r.a ^^^ v)

def increment (v : UInt8) (r : Registers) : UInt8 × Registers := (v + 1, r.describe (v + 1))

def decrement (v : UInt8) (r : Registers) : UInt8 × Registers := (v - 1, r.describe (v - 1))

def asl (v : UInt8) (r : Registers) : UInt8 × Registers := r.shiftLeft false v

def lsr (v : UInt8) (r : Registers) : UInt8 × Registers := r.shiftRight false v

def rol (v : UInt8) (r : Registers) : UInt8 × Registers := r.shiftLeft r.status.carry v

def ror (v : UInt8) (r : Registers) : UInt8 × Registers := r.shiftRight r.status.carry v

def pullStatus (copy : UInt8) (r : Registers) : Registers :=
  { r with status := r.status.pull (Status.ofByte copy) }

end Registers

end Core6502
