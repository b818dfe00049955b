import Core6502.ByteReader
import Core6502.Machine

/-!
# Checkpoints

A checkpoint holds a whole machine, so that a session can go back to it, and has a binary form.
The form has a fixed head (registers, cycles, number of memory bytes) and then the memory. It
says where it ends, so bytes after it are ignored.
-/

namespace Core6502

/-- The state of a machine between two instructions. A checkpoint that was read or edited may
carry too few or too many bytes of memory. -/
structure Checkpoint where
  a : UInt8
  x : UInt8
  y : UInt8
  pc : UInt16
  sp : UInt8
  status : UInt8
  cycles : UInt64
  ram : ByteArray

/-- Why a checkpoint cannot be gone back to, or cannot be read. -/
inductive CheckpointError where
  /-- The memory does not fill the address space. -/
  | ramSize (size : Nat)
  | tooShort
deriving DecidableEq

namespace CheckpointError

def parts : CheckpointError → List String
  | ramSize size => ["snapshot RAM is ", toString size, " bytes, expected 65536"]
  | tooShort => ["failed to decode snapshot: ", "io error: unexpected end of file"]

def message (e : CheckpointError) : String := String.join e.parts

end CheckpointError

namespace Checkpoint

/-- The state of a machine. -/
def capture (m : Machine) : Checkpoint where
  a := m.registers.a
  x := m.registers.x
  y := m.registers.y
  pc := m.pc
  sp := m.registers.sp
  status := m.registers.status.toByte
  cycles := m.cycles
  ram := m.memory.bytes

/-- The machine whose state a checkpoint holds, if its memory has the right size. -/
def machine? (c : Checkpoint) : Option Machine :=
  if h : c.ram.size = Memory.size then
    some {
      registers := { a := c.a, x := c.x, y := c.y, sp := c.sp, status := .ofByte c.status }
      pc := c.pc
      memory := ⟨c.ram, h⟩
      cycles := c.cycles }
  else none

/-- Goes back to a checkpoint. One with a memory of the wrong size changes nothing. -/
def restore (c : Checkpoint) (m : Machine) : Except CheckpointError Unit × Machine :=
  match c.machine? with
  | some restored => (.ok (), restored)
  | none => (.error (.ramSize c.ram.size), m)

/-- The bytes before the memory. -/
def head (c : Checkpoint) : List UInt8 :=
  [c.a, c.x, c.y] ++ LittleEndian.encode 2 c.pc.toNat ++ [c.sp, c.status] ++
    LittleEndian.encode 8 c.cycles.toNat ++ LittleEndian.encode 8 c.ram.size

/-- The binary form. Writing cannot fail: every field has a fixed width, and the size of a memory
is a number in eight bytes. -/
def encode (c : Checkpoint) : List UInt8 := c.head ++ c.ram.data.toList

/-- Reads the fields in the order in which they are written. -/
def read : ByteReader Checkpoint := do
  let a ← .byte
  let x ← .byte
  let y ← .byte
  let pc ← .word
  let sp ← .byte
  let status ← .byte
  let cycles ← .long
  let ram ← .row
  return { a, x, y, pc, sp, status, cycles, ram }

/-- Reads the binary form from the front of a row of bytes. It fails in one way only: a field ends
after the last byte. -/
def decode (bytes : List UInt8) : Except CheckpointError Checkpoint :=
  match read bytes with
  | some (c, _) => .ok c
  | none => .error .tooShort

end Checkpoint

end Core6502
