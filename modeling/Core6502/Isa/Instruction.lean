import Core6502.Isa.AddressingMode
import Core6502.Isa.Operation

/-!
# Instructions and their opcodes

One row per operation lists its opcodes, each with the addressing mode and the cycles that it
takes before conditional extras. `decode` finds the instruction of an opcode; no opcode stands
in two places, so the order of the rows does not matter.
-/

namespace Core6502

/-- What one opcode stands for. -/
structure Instruction where
  opcode : UInt8
  operation : Operation
  mode : AddressingMode
  /-- The cycles without the extras for branches and page crossings. -/
  baseCycles : Nat
deriving DecidableEq, Inhabited

namespace Instruction

def bytes (i : Instruction) : Nat := i.mode.bytes

/-- Whether a page crossing costs one cycle more. Stores and read-modify-write forms have the
worst case in their base cycles. -/
def paysPageCross (i : Instruction) : Bool := i.mode.mayCrossPage && i.operation.readsIndexed

/-- The opcodes that repeat a documented operation outside the data sheet: six NOP and one
SBC. -/
def duplicates : List UInt8 := [0x1A, 0x3A, 0x5A, 0x7A, 0xDA, 0xFA, 0xEB]

def isOfficial (i : Instruction) : Bool :=
  i.operation.isDocumented && !duplicates.contains i.opcode

end Instruction

namespace Isa

/-- For each operation its opcodes, with addressing mode and base cycles. -/
def encodings : List (Operation × List (UInt8 × AddressingMode × Nat)) := [
  -- Loads and stores
  (.lda, [(0xA9, .immediate, 2), (0xA5, .zeroPage, 3), (0xB5, .zeroPageX, 4), (0xAD, .absolute, 4),
    (0xBD, .absoluteX, 4), (0xB9, .absoluteY, 4), (0xA1, .indirectX, 6), (0xB1, .indirectY, 5)]),
  (.ldx, [(0xA2, .immediate, 2), (0xA6, .zeroPage, 3), (0xB6, .zeroPageY, 4), (0xAE, .absolute, 4),
    (0xBE, .absoluteY, 4)]),
  (.ldy, [(0xA0, .immediate, 2), (0xA4, .zeroPage, 3), (0xB4, .zeroPageX, 4), (0xAC, .absolute, 4),
    (0xBC, .absoluteX, 4)]),
  (.sta, [(0x85, .zeroPage, 3), (0x95, .zeroPageX, 4), (0x8D, .absolute, 4), (0x9D, .absoluteX, 5),
    (0x99, .absoluteY, 5), (0x81, .indirectX, 6), (0x91, .indirectY, 6)]),
  (.stx, [(0x86, .zeroPage, 3), (0x96, .zeroPageY, 4), (0x8E, .absolute, 4)]),
  (.sty, [(0x84, .zeroPage, 3), (0x94, .zeroPageX, 4), (0x8C, .absolute, 4)]),
  -- Transfers between registers
  (.tax, [(0xAA, .implied, 2)]),
  (.tay, [(0xA8, .implied, 2)]),
  (.txa, [(0x8A, .implied, 2)]),
  (.tya, [(0x98, .implied, 2)]),
  (.tsx, [(0xBA, .implied, 2)]),
  (.txs, [(0x9A, .implied, 2)]),
  -- Logic and arithmetic
  (.and, [(0x29, .immediate, 2), (0x25, .zeroPage, 3), (0x35, .zeroPageX, 4), (0x2D, .absolute, 4),
    (0x3D, .absoluteX, 4), (0x39, .absoluteY, 4), (0x21, .indirectX, 6), (0x31, .indirectY, 5)]),
  (.ora, [(0x09, .immediate, 2), (0x05, .zeroPage, 3), (0x15, .zeroPageX, 4), (0x0D, .absolute, 4),
    (0x1D, .absoluteX, 4), (0x19, .absoluteY, 4), (0x01, .indirectX, 6), (0x11, .indirectY, 5)]),
  (.eor, [(0x49, .immediate, 2), (0x45, .zeroPage, 3), (0x55, .zeroPageX, 4), (0x4D, .absolute, 4),
    (0x5D, .absoluteX, 4), (0x59, .absoluteY, 4), (0x41, .indirectX, 6), (0x51, .indirectY, 5)]),
  (.adc, [(0x69, .immediate, 2), (0x65, .zeroPage, 3), (0x75, .zeroPageX, 4), (0x6D, .absolute, 4),
    (0x7D, .absoluteX, 4), (0x79, .absoluteY, 4), (0x61, .indirectX, 6), (0x71, .indirectY, 5)]),
  (.sbc, [(0xE9, .immediate, 2), (0xEB, .immediate, 2), (0xE5, .zeroPage, 3), (0xF5, .zeroPageX, 4),
    (0xED, .absolute, 4), (0xFD, .absoluteX, 4), (0xF9, .absoluteY, 4), (0xE1, .indirectX, 6),
    (0xF1, .indirectY, 5)]),
  (.cmp, [(0xC9, .immediate, 2), (0xC5, .zeroPage, 3), (0xD5, .zeroPageX, 4), (0xCD, .absolute, 4),
    (0xDD, .absoluteX, 4), (0xD9, .absoluteY, 4), (0xC1, .indirectX, 6), (0xD1, .indirectY, 5)]),
  (.cpx, [(0xE0, .immediate, 2), (0xE4, .zeroPage, 3), (0xEC, .absolute, 4)]),
  (.cpy, [(0xC0, .immediate, 2), (0xC4, .zeroPage, 3), (0xCC, .absolute, 4)]),
  (.bit, [(0x24, .zeroPage, 3), (0x2C, .absolute, 4)]),
  -- Increments and decrements
  (.inc, [(0xE6, .zeroPage, 5), (0xF6, .zeroPageX, 6), (0xEE, .absolute, 6),
    (0xFE, .absoluteX, 7)]),
  (.dec, [(0xC6, .zeroPage, 5), (0xD6, .zeroPageX, 6), (0xCE, .absolute, 6),
    (0xDE, .absoluteX, 7)]),
  (.inx, [(0xE8, .implied, 2)]),
  (.iny, [(0xC8, .implied, 2)]),
  (.dex, [(0xCA, .implied, 2)]),
  (.dey, [(0x88, .implied, 2)]),
  -- Shifts and rotates
  (.asl, [(0x0A, .accumulator, 2), (0x06, .zeroPage, 5), (0x16, .zeroPageX, 6),
    (0x0E, .absolute, 6), (0x1E, .absoluteX, 7)]),
  (.lsr, [(0x4A, .accumulator, 2), (0x46, .zeroPage, 5), (0x56, .zeroPageX, 6),
    (0x4E, .absolute, 6), (0x5E, .absoluteX, 7)]),
  (.rol, [(0x2A, .accumulator, 2), (0x26, .zeroPage, 5), (0x36, .zeroPageX, 6),
    (0x2E, .absolute, 6), (0x3E, .absoluteX, 7)]),
  (.ror, [(0x6A, .accumulator, 2), (0x66, .zeroPage, 5), (0x76, .zeroPageX, 6),
    (0x6E, .absolute, 6), (0x7E, .absoluteX, 7)]),
  -- Flags
  (.clc, [(0x18, .implied, 2)]),
  (.sec, [(0x38, .implied, 2)]),
  (.cli, [(0x58, .implied, 2)]),
  (.sei, [(0x78, .implied, 2)]),
  (.clv, [(0xB8, .implied, 2)]),
  (.cld, [(0xD8, .implied, 2)]),
  (.sed, [(0xF8, .implied, 2)]),
  -- Stack
  (.pha, [(0x48, .implied, 3)]),
  (.php, [(0x08, .implied, 3)]),
  (.pla, [(0x68, .implied, 4)]),
  (.plp, [(0x28, .implied, 4)]),
  -- Transfer of control
  (.jmp, [(0x4C, .absolute, 3), (0x6C, .indirect, 5)]),
  (.jsr, [(0x20, .absolute, 6)]),
  (.rts, [(0x60, .implied, 6)]),
  (.rti, [(0x40, .implied, 6)]),
  (.brk, [(0x00, .implied, 7)]),
  (.bpl, [(0x10, .relative, 2)]),
  (.bmi, [(0x30, .relative, 2)]),
  (.bvc, [(0x50, .relative, 2)]),
  (.bvs, [(0x70, .relative, 2)]),
  (.bcc, [(0x90, .relative, 2)]),
  (.bcs, [(0xB0, .relative, 2)]),
  (.bne, [(0xD0, .relative, 2)]),
  (.beq, [(0xF0, .relative, 2)]),
  -- No effect
  (.nop, [(0x1A, .implied, 2), (0x3A, .implied, 2), (0x5A, .implied, 2), (0x7A, .implied, 2),
    (0xDA, .implied, 2), (0xEA, .implied, 2), (0xFA, .implied, 2)]),
  -- Two operations in one, undocumented
  (.slo, [(0x07, .zeroPage, 5), (0x17, .zeroPageX, 6), (0x0F, .absolute, 6), (0x1F, .absoluteX, 7),
    (0x1B, .absoluteY, 7), (0x03, .indirectX, 8), (0x13, .indirectY, 8)]),
  (.rla, [(0x27, .zeroPage, 5), (0x37, .zeroPageX, 6), (0x2F, .absolute, 6), (0x3F, .absoluteX, 7),
    (0x3B, .absoluteY, 7), (0x23, .indirectX, 8), (0x33, .indirectY, 8)]),
  (.sre, [(0x47, .zeroPage, 5), (0x57, .zeroPageX, 6), (0x4F, .absolute, 6), (0x5F, .absoluteX, 7),
    (0x5B, .absoluteY, 7), (0x43, .indirectX, 8), (0x53, .indirectY, 8)]),
  (.rra, [(0x67, .zeroPage, 5), (0x77, .zeroPageX, 6), (0x6F, .absolute, 6), (0x7F, .absoluteX, 7),
    (0x7B, .absoluteY, 7), (0x63, .indirectX, 8), (0x73, .indirectY, 8)]),
  (.dcp, [(0xC7, .zeroPage, 5), (0xD7, .zeroPageX, 6), (0xCF, .absolute, 6), (0xDF, .absoluteX, 7),
    (0xDB, .absoluteY, 7), (0xC3, .indirectX, 8), (0xD3, .indirectY, 8)]),
  (.isc, [(0xE7, .zeroPage, 5), (0xF7, .zeroPageX, 6), (0xEF, .absolute, 6), (0xFF, .absoluteX, 7),
    (0xFB, .absoluteY, 7), (0xE3, .indirectX, 8), (0xF3, .indirectY, 8)]),
  (.lax, [(0xA7, .zeroPage, 3), (0xB7, .zeroPageY, 4), (0xAF, .absolute, 4), (0xBF, .absoluteY, 4),
    (0xA3, .indirectX, 6), (0xB3, .indirectY, 5)]),
  (.sax, [(0x87, .zeroPage, 3), (0x97, .zeroPageY, 4), (0x8F, .absolute, 4),
    (0x83, .indirectX, 6)]),
  -- No effect on an operand, undocumented
  (.ign, [(0x04, .zeroPage, 3), (0x44, .zeroPage, 3), (0x64, .zeroPage, 3), (0x14, .zeroPageX, 4),
    (0x34, .zeroPageX, 4), (0x54, .zeroPageX, 4), (0x74, .zeroPageX, 4), (0xD4, .zeroPageX, 4),
    (0xF4, .zeroPageX, 4), (0x0C, .absolute, 4), (0x1C, .absoluteX, 4), (0x3C, .absoluteX, 4),
    (0x5C, .absoluteX, 4), (0x7C, .absoluteX, 4), (0xDC, .absoluteX, 4), (0xFC, .absoluteX, 4)]),
  (.skb, [(0x80, .immediate, 2), (0x82, .immediate, 2), (0x89, .immediate, 2),
    (0xC2, .immediate, 2), (0xE2, .immediate, 2)])]

def instructions : List Instruction :=
  encodings.flatMap fun (operation, codes) =>
    codes.map fun (opcode, mode, baseCycles) => ⟨opcode, operation, mode, baseCycles⟩

/-- The instruction of an opcode, found by search. -/
def lookup (opcode : UInt8) : Option Instruction :=
  instructions.find? fun i => i.opcode == opcode

/-- The answers of `lookup`, tabulated once. -/
def table : Vector (Option Instruction) 256 := Vector.ofFn fun i => lookup (UInt8.ofNat i)

end Isa

/-- The instruction that an opcode stands for, if there is one. Proofs go through
`decode_eq_lookup`, so that nothing unfolds the table. -/
@[irreducible] def decode (opcode : UInt8) : Option Instruction :=
  have h := opcode.toNat_lt
  Isa.table[opcode.toNat]

theorem decode_eq_lookup (opcode : UInt8) : decode opcode = Isa.lookup opcode := by
  unfold decode
  simp [Isa.table]

theorem mem_instructions_of_decode {opcode : UInt8} {i : Instruction}
    (h : decode opcode = some i) : i ∈ Isa.instructions := by
  rw [decode_eq_lookup] at h
  exact List.mem_of_find?_eq_some h

theorem opcode_of_decode {opcode : UInt8} {i : Instruction} (h : decode opcode = some i) :
    i.opcode = opcode := by
  rw [decode_eq_lookup] at h
  simpa using List.find?_some h

end Core6502
