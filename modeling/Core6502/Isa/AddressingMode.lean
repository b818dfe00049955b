/-!
# Addressing modes

The thirteen ways in which an instruction names its operand. The mode alone decides how many
bytes the instruction takes.
-/

namespace Core6502

/-- How an instruction names its operand. -/
inductive AddressingMode where
  | implied
  | accumulator
  | immediate
  | zeroPage
  | zeroPageX
  | zeroPageY
  | absolute
  | absoluteX
  | absoluteY
  /-- The operand is the address of a pointer; only a jump has this mode. -/
  | indirect
  /-- X selects one of a row of pointers in the zero page. -/
  | indirectX
  /-- Y is added to a pointer in the zero page. -/
  | indirectY
  | relative
deriving DecidableEq, Inhabited

namespace AddressingMode

def operandBytes : AddressingMode → Nat
  | implied | accumulator => 0
  | immediate | zeroPage | zeroPageX | zeroPageY | indirectX | indirectY | relative => 1
  | absolute | absoluteX | absoluteY | indirect => 2

def bytes (mode : AddressingMode) : Nat := 1 + mode.operandBytes

/-- Whether an index is added to a 16-bit base, so that the address may leave the base's
page. -/
def mayCrossPage : AddressingMode → Bool
  | absoluteX | absoluteY | indirectY => true
  | _ => false

theorem operandBytes_le (mode : AddressingMode) : mode.operandBytes ≤ 2 := by
  cases mode <;> decide

theorem bytes_pos (mode : AddressingMode) : 0 < mode.bytes := Nat.add_pos_left Nat.one_pos _

theorem bytes_le (mode : AddressingMode) : mode.bytes ≤ 3 :=
  Nat.add_le_add_left mode.operandBytes_le 1

end AddressingMode

end Core6502
