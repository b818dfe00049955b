import Core6502.LittleEndian

/-!
# Reading a row of bytes

A reader takes a value from the front of a row of bytes and leaves the bytes after it. Readers
follow each other, each going on where the one before stopped; wherever a byte is missing, the
whole reading fails.
-/

namespace Core6502

/-- Reads a value, and says which bytes are left. -/
abbrev ByteReader (α : Type) := StateT (List UInt8) Option α

namespace ByteReader

def byte : ByteReader UInt8
  | [] => none
  | v :: rest => some (v, rest)

/-- The next `count` bytes, one after another. -/
def bytes : (count : Nat) → ByteReader (List UInt8)
  | 0 => pure []
  | count + 1 => do
    let v ← byte
    let vs ← bytes count
    return v :: vs

/-- A number in `width` bytes. -/
def number (width : Nat) : ByteReader Nat := do
  return LittleEndian.decode (← bytes width)

def word : ByteReader UInt16 := do
  return UInt16.ofNat (← number 2)

/-- A number in eight bytes. -/
def long : ByteReader UInt64 := do
  return UInt64.ofNat (← number 8)

/-- A row of bytes that has its length in front of it. -/
def row : ByteReader ByteArray := do
  let size ← long
  let vs ← bytes size.toNat
  return vs.toByteArray

end ByteReader

end Core6502
