import Core6502.Memory
import Core6502.Registers

/-!
# The machine

The processor with its address space and cycle count. An instruction's outcome is a `Change`:
new registers, a list of stores, the next program counter and the cycles spent. `apply` makes
it, so what a change does to one part of the machine can be read off its field.
-/

namespace Core6502

/-- The processor, the memory it works on, and the cycles since power-on. -/
structure Machine where
  registers : Registers := {}
  /-- The address of the next opcode. -/
  pc : UInt16 := 0
  memory : Memory := .blank
  cycles : UInt64 := 0

/-- What one instruction does to a machine. -/
structure Change where
  registers : Registers
  stores : List (UInt16 × UInt8)
  pc : UInt16
  cycles : Nat

namespace Machine

/-- The first byte of the word from which power-on and reset take the program counter. -/
def resetVector : UInt16 := 0xFFFC

/-- The first of the device registers that power-on clears. -/
def deviceBase : UInt16 := 0x4000

/-- The number of device registers that power-on clears. -/
def deviceCount : Nat := 24

/-- The cell of the stack page at an offset. -/
def stackCell (offset : UInt8) : UInt16 := Word.ofBytes offset 1

def apply (m : Machine) (change : Change) : Machine where
  registers := change.registers
  pc := change.pc
  memory := m.memory.writeAll change.stores
  cycles := m.cycles + UInt64.ofNat change.cycles

/-- The state in which a program starts: registers and device registers cleared, the stack
pointer at its usual start, seven cycles spent. The rest of the memory stays. -/
def powerOn (m : Machine) : Machine :=
  let memory := m.memory.load deviceBase (List.replicate deviceCount 0)
  { registers := { sp := 0xFD, status := .powerOn }
    pc := memory.readWord resetVector
    memory
    cycles := 7 }

/-- A warm reset: execution restarts while the registers stay, but for a stack pointer lowered
as if an interrupt had pushed three bytes, and a set I. -/
def reset (m : Machine) : Machine :=
  { m with
    registers := { m.registers with
      sp := m.registers.sp - 3
      status := { m.registers.status with interruptDisable := true } }
    pc := m.memory.readWord resetVector
    cycles := m.cycles + 7 }

def load (m : Machine) (a : UInt16) (bytes : List UInt8) : Machine :=
  { m with memory := m.memory.load a bytes }

end Machine

end Core6502
