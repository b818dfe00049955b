import Core6502.Text.Hex

/-!
# Faults

The one way in which execution stops by itself.
-/

namespace Core6502

/-- Why an instruction could not be executed. -/
inductive Fault where
  /-- The byte at the program counter is no opcode of this machine. -/
  | unknownOpcode (opcode : UInt8)
deriving DecidableEq

namespace Fault

def opcode : Fault → UInt8
  | unknownOpcode opcode => opcode

def message (fault : Fault) : String :=
  String.join ["unknown opcode: 0x", String.ofList (Hex.byte fault.opcode)]

end Fault

end Core6502
