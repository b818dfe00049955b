import Core6502.Byte

/-!
# The status register

Eight flags, one per bit of the byte P. Each flag is a field, so an instruction that leaves a
flag alone visibly does not mention it; `toByte` and `ofByte` pass between the two forms and
undo each other.
-/

namespace Core6502

/-- The flags of P, from bit 0 up. -/
structure Status where
  carry : Bool := false
  zero : Bool := false
  interruptDisable : Bool := false
  /-- Bit 3, D: stored, but arithmetic is binary whatever it says. -/
  decimal : Bool := false
  /-- Bit 4, B: means something only in the copy of P on the stack. -/
  breakMark : Bool := false
  /-- Bit 5: always set in the copy of P on the stack. -/
  unused : Bool := false
  overflow : Bool := false
  negative : Bool := false
deriving DecidableEq, Inhabited

namespace Status

/-- The byte whose bits are the flags. -/
def toByte (s : Status) : UInt8 :=
  s.carry.toUInt8 + 2 * s.zero.toUInt8 + 4 * s.interruptDisable.toUInt8 + 8 * s.decimal.toUInt8 +
    16 * s.breakMark.toUInt8 + 32 * s.unused.toUInt8 + 64 * s.overflow.toUInt8 +
    128 * s.negative.toUInt8

def ofByte (v : UInt8) : Status where
  carry := Byte.bit v 0
  zero := Byte.bit v 1
  interruptDisable := Byte.bit v 2
  decimal := Byte.bit v 3
  breakMark := Byte.bit v 4
  unused := Byte.bit v 5
  overflow := Byte.bit v 6
  negative := Byte.bit v 7

@[simp] theorem toByte_ofByte (v : UInt8) : (ofByte v).toByte = v :=
  Byte.forall_of_lt (p := fun v => (ofByte v).toByte = v) (by decide +kernel) v

@[simp] theorem ofByte_toByte (s : Status) : ofByte s.toByte = s := by
  obtain ⟨c, z, i, d, b, u, v, n⟩ := s
  revert c z i d b u v n
  decide +kernel

def zipWith (f : Bool → Bool → Bool) (s t : Status) : Status where
  carry := f s.carry t.carry
  zero := f s.zero t.zero
  interruptDisable := f s.interruptDisable t.interruptDisable
  decimal := f s.decimal t.decimal
  breakMark := f s.breakMark t.breakMark
  unused := f s.unused t.unused
  overflow := f s.overflow t.overflow
  negative := f s.negative t.negative

def union (s t : Status) : Status := zipWith (· || ·) s t

def diff (s mask : Status) : Status := zipWith (fun a b => a && !b) s mask

/-- Sets every flag of `mask`, or clears every one. -/
def set (s mask : Status) (on : Bool) : Status := if on then s.union mask else s.diff mask

def contains (s mask : Status) : Bool := s.union mask == s

/-- The flags that a push of P always sets in the pushed copy. -/
def pushed : Status := { breakMark := true, unused := true }

/-- P after power-on. -/
def powerOn : Status := { interruptDisable := true, unused := true }

/-- Z and N describe `v`; the other flags stay. -/
def describe (s : Status) (v : UInt8) : Status :=
  { s with zero := v == 0, negative := Byte.bit v 7 }

/-- P after pulling it from the stack: six flags come from the pulled copy, while bits 4 and 5
keep what they have. -/
def pull (live copy : Status) : Status :=
  { copy with breakMark := live.breakMark, unused := live.unused }

end Status

end Core6502
