import Core6502.Listing
import Core6502.Machine
import Core6502.Text.Hex

/-!
# Trace lines

A line that shows a machine just before an instruction: the program counter, the bytes of the
instruction, its mnemonic, the registers and the cycle count. Every part but the last has a
fixed width.
-/

namespace Core6502

/-- The registers in the order A, X, Y, P, SP. -/
def Registers.line (r : Registers) : List Char :=
  ['A', ':'] ++ Hex.byte r.a ++ [' ', 'X', ':'] ++ Hex.byte r.x ++ [' ', 'Y', ':'] ++
    Hex.byte r.y ++ [' ', 'P', ':'] ++ Hex.byte r.status.toByte ++ [' ', 'S', 'P', ':'] ++
    Hex.byte r.sp

/-- A machine as a trace shows it. -/
structure TraceEntry where
  pc : UInt16
  bytes : List UInt8
  mnemonic : String
  registers : Registers
  cycles : UInt64

namespace TraceEntry

/-- What stands for a mnemonic where there is no instruction. -/
def unknownMnemonic : String := "???"

/-- The entry for a machine about to execute an instruction. -/
def ofMachine (m : Machine) : TraceEntry where
  pc := m.pc
  bytes := Listing.encoding m.memory m.pc
  mnemonic :=
    match decode (m.memory.read m.pc) with
    | some instruction => instruction.operation.mnemonic
    | none => unknownMnemonic
  registers := m.registers
  cycles := m.cycles

/-- The columns for the bytes of an instruction: three bytes with single blanks between them. -/
def bytesWidth : Nat := 8

def bytesText (bytes : List UInt8) : List Char := [' '].intercalate (bytes.map Hex.byte)

/-- The columns of the line, in order. -/
def line (e : TraceEntry) : List Char :=
  Hex.word e.pc ++ [' ', ' '] ++ (bytesText e.bytes).rightpad bytesWidth ' ' ++ [' ', ' '] ++
    e.mnemonic.toList ++ [' ', ' '] ++ e.registers.line ++ [' ', 'C', 'Y', 'C', ':'] ++
    Nat.toDigits 10 e.cycles.toNat

def text (e : TraceEntry) : String := String.ofList e.line

end TraceEntry

end Core6502
