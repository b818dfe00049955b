import Core6502.Isa.Instruction
import Core6502.Memory

/-!
# Listings

Memory read as a row of instructions, without executing any. A byte that is no opcode counts as
an instruction of one byte, so a walk always gets on. Counted from address zero, every address
belongs to one instruction of the row.
-/

namespace Core6502.Listing

/-- The bytes of the instruction that starts with `opcode`. -/
def size (opcode : UInt8) : Nat :=
  match decode opcode with
  | some instruction => instruction.bytes
  | none => 1

theorem size_pos (opcode : UInt8) : 0 < size opcode := by
  unfold size
  split
  · next instruction _ => exact instruction.mode.bytes_pos
  · exact Nat.one_pos

theorem size_le (opcode : UInt8) : size opcode ≤ 3 := by
  unfold size
  split
  · next instruction _ => exact instruction.mode.bytes_le
  · decide

def sizeAt (m : Memory) (a : UInt16) : Nat := size (m.read a)

def next (m : Memory) (a : UInt16) : UInt16 := a + UInt16.ofNat (sizeAt m a)

/-- The address before `a` by the size of the instruction at `a`. Code cannot be read backwards,
so this is only a guess at where the instruction before starts. -/
def previous (m : Memory) (a : UInt16) : UInt16 := a - UInt16.ofNat (sizeAt m a)

/-- The address `n` instructions on from `a`, or back if `n` is negative. -/
def advance (m : Memory) (a : UInt16) : Int → UInt16
  | .ofNat n => Nat.repeat (next m) n a
  | .negSucc n => Nat.repeat (previous m) (n + 1) a

def encoding (m : Memory) (a : UInt16) : List UInt8 :=
  (List.range (sizeAt m a)).map fun i => m.read (a + UInt16.ofNat i)

/-- The number of the instruction that holds `target`, if the instruction at `start` has the
number `index` and `start` is not past `target`. -/
def indexFrom (m : Memory) (target start index : Nat) : Nat :=
  let following := start + sizeAt m (UInt16.ofNat start)
  if following ≤ target then indexFrom m target following (index + 1) else index
termination_by target - start
decreasing_by
  have h := size_pos (m.read (UInt16.ofNat start))
  simp only [following, sizeAt] at *
  omega

/-- The number of the instruction that holds `a`, counted from the one at address zero. -/
def indexOf (m : Memory) (a : UInt16) : Nat := indexFrom m a.toNat 0 0

/-- The address of instruction number `n`, counted from the one at address zero. -/
def addressOf (m : Memory) (n : Nat) : UInt16 := Nat.repeat (next m) n 0

end Core6502.Listing
