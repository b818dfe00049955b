import Core6502.Isa.AddressingMode
import Core6502.Memory
import Core6502.Registers

/-!
# Operands

What an addressing mode makes of the bytes after an opcode. Finding an operand only looks at
the registers and the memory. Sums in the zero page stay in the zero page, sums with a 16-bit
base wrap at $FFFF.
-/

namespace Core6502

/-- What an instruction works on. -/
inductive Operand where
  | implied
  | accumulator
  | immediate (value : UInt8)
  /-- A cell of memory; `pageCrossed` says that an index moved it off the page of its base. -/
  | memory (address : UInt16) (pageCrossed : Bool)
  /-- The distance of a branch, counted from the following instruction. -/
  | relative (displacement : Int8)
deriving DecidableEq, Inhabited

namespace Operand

def address? : Operand → Option UInt16
  | memory address _ => some address
  | _ => none

def pageCrossed : Operand → Bool
  | memory _ crossed => crossed
  | _ => false

/-- The byte that an instruction reads from its operand. -/
def value (operand : Operand) (r : Registers) (m : Memory) : UInt8 :=
  match operand with
  | accumulator => r.a
  | immediate v => v
  | memory address _ => m.read address
  | implied | relative _ => 0

/-- The cell at `base + index`. -/
def indexed (base : UInt16) (index : UInt8) : Operand :=
  let address := base + index.toUInt16
  memory address (Word.high base != Word.high address)

/-- The cell at `offset + index` in the zero page. -/
def zeroPageIndexed (offset index : UInt8) : UInt16 := (offset + index).toUInt16

/-- The operand of an instruction in `mode` whose opcode is at `pc`. -/
def resolve (r : Registers) (m : Memory) (mode : AddressingMode) (pc : UInt16) : Operand :=
  let byte := m.read (pc + 1)
  let word := m.readWord (pc + 1)
  match mode with
  | .implied => implied
  | .accumulator => accumulator
  | .immediate => immediate byte
  | .zeroPage => memory byte.toUInt16 false
  | .zeroPageX => memory (zeroPageIndexed byte r.x) false
  | .zeroPageY => memory (zeroPageIndexed byte r.y) false
  | .absolute => memory word false
  | .absoluteX => indexed word r.x
  | .absoluteY => indexed word r.y
  | .indirect => memory (m.readInPage word) false
  | .indirectX => memory (m.readZeroPage (byte + r.x)) false
  | .indirectY => indexed (m.readZeroPage byte) r.y
  | .relative => relative byte.toInt8

end Operand

end Core6502
