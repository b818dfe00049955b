import Core6502.Proofs.Timing

/-!
# Addresses as numbers

Where the operand of each addressing mode is, said once more with natural numbers and remainders:
sums in the zero page are taken modulo 256, other sums modulo 65536, and the second byte of a
pointer stays in the page of the first. An index crosses a page exactly if it carries out of the
low byte of its base, also at the top of memory.
-/

namespace Core6502

namespace Word

/-- The first address of a page, by a mask. -/
theorem toNat_and_page (w : UInt16) : (w &&& 0xFF00).toNat = 256 * (w.toNat / 256) := by
  have hw := w.toNat_lt
  have hmask : w.toNat &&& 2 ^ 8 * (2 ^ 8 - 1) = 2 ^ 8 * (w.toNat / 2 ^ 8) := by
    apply Nat.eq_of_testBit_eq
    intro i
    rw [Nat.testBit_and, Nat.testBit_two_pow_mul, Nat.testBit_two_pow_mul,
      Nat.testBit_two_pow_sub_one, Nat.testBit_div_two_pow]
    by_cases hi : 8 ≤ i
    · rw [Nat.sub_add_cancel hi]
      by_cases htop : i - 8 < 8
      · simp [hi, htop]
      · have hle : 2 ^ 16 ≤ 2 ^ i := Nat.pow_le_pow_right (by decide) (by omega)
        simp [Nat.testBit_lt_two_pow (Nat.lt_of_lt_of_le hw hle)]
    · simp [hi]
  exact (UInt16.toNat_and w 0xFF00).trans hmask

theorem and_low_eq_iff (w : UInt16) : w &&& 0x00FF = 0x00FF ↔ w.toNat % 256 = 255 := by
  have hmask : (w &&& 0x00FF).toNat = w.toNat % 256 :=
    (UInt16.toNat_and w 0x00FF).trans (Nat.and_two_pow_sub_one_eq_mod w.toNat 8)
  rw [← UInt16.toNat_inj, hmask]
  rfl

/-- Pages can be compared by the mask as well. -/
theorem and_page_bne (v w : UInt16) : (v &&& 0xFF00 != w &&& 0xFF00) = (high v != high w) := by
  rw [Bool.eq_iff_iff, bne_iff_ne, bne_iff_ne, Ne, Ne, ← UInt16.toNat_inj, ← UInt8.toNat_inj,
    toNat_and_page, toNat_and_page, toNat_high, toNat_high]
  omega

end Word

namespace Memory

/-- The byte in cell number `n`, where the cells are counted modulo 65536. -/
def cell (m : Memory) (n : Nat) : Nat := (m.read (UInt16.ofNat n)).toNat

/-- The number in two cells, its low byte first. -/
def pair (m : Memory) (first second : Nat) : Nat := m.cell first + 256 * m.cell second

variable {m : Memory}

theorem cell_toNat (a : UInt16) : m.cell a.toNat = (m.read a).toNat := by
  rw [cell, UInt16.ofNat_toNat]

theorem cell_toNat_add (a : UInt16) (k : Nat) :
    m.cell (a.toNat + k) = (m.read (a + UInt16.ofNat k)).toNat := by
  rw [cell, UInt16.ofNat_add, UInt16.ofNat_toNat]

theorem cell_toNat_succ (a : UInt16) : m.cell (a.toNat + 1) = (m.read (a + 1)).toNat :=
  cell_toNat_add a 1

theorem toNat_readInPage (a : UInt16) :
    (m.readInPage a).toNat = m.pair a.toNat (256 * (a.toNat / 256) + (a.toNat + 1) % 256) := by
  have hsecond : (Word.ofBytes (Word.low a + 1) (Word.high a)).toNat =
      256 * (a.toNat / 256) + (a.toNat + 1) % 256 := by
    rw [Word.toNat_ofBytes, UInt8.toNat_add, Word.toNat_low, Word.toNat_high]
    simp only [UInt8.reduceToNat]
    omega
  rw [readInPage, Word.toNat_ofBytes, pair, cell_toNat, ← hsecond, cell_toNat]

/-- Only at the last cell of a page is the word in its page another than the word there. -/
theorem readInPage_eq_ite (a : UInt16) :
    m.readInPage a =
      if a &&& 0x00FF = 0x00FF then Word.ofBytes (m.read a) (m.read (a &&& 0xFF00))
      else m.readWord a := by
  have ha := a.toNat_lt
  have hnext : (Word.ofBytes (Word.low a + 1) (Word.high a)).toNat =
      (a.toNat % 256 + 1) % 256 + 256 * (a.toNat / 256) := by
    rw [Word.toNat_ofBytes, UInt8.toNat_add, Word.toNat_low, Word.toNat_high]
    rfl
  rw [readInPage]
  split
  · next hlast =>
      have hsecond : Word.ofBytes (Word.low a + 1) (Word.high a) = a &&& 0xFF00 := by
        rw [Word.and_low_eq_iff] at hlast
        rw [← UInt16.toNat_inj, hnext, Word.toNat_and_page]
        omega
      rw [hsecond]
  · next hinside =>
      have hsecond : Word.ofBytes (Word.low a + 1) (Word.high a) = a + 1 := by
        rw [Word.and_low_eq_iff] at hinside
        rw [← UInt16.toNat_inj, hnext, UInt16.toNat_add]
        simp only [UInt16.reduceToNat]
        omega
      rw [hsecond, readWord]

theorem readZeroPage_eq_readInPage (offset : UInt8) :
    m.readZeroPage offset = m.readInPage offset.toUInt16 := by
  have hlow : Word.low offset.toUInt16 = offset := by
    rw [← UInt8.toNat_inj, Word.toNat_low, UInt8.toNat_toUInt16]
    exact Nat.mod_eq_of_lt offset.toNat_lt
  have hhigh : Word.high offset.toUInt16 = 0 := by
    rw [← UInt8.toNat_inj, Word.toNat_high, UInt8.toNat_toUInt16]
    exact Nat.div_eq_of_lt offset.toNat_lt
  have hsecond : (offset + 1).toUInt16 = Word.ofBytes (offset + 1) 0 := by
    rw [← UInt16.toNat_inj, Word.toNat_ofBytes, UInt8.toNat_toUInt16]
    rfl
  rw [readZeroPage, readInPage, hlow, hhigh, hsecond]

theorem toNat_readZeroPage (offset : UInt8) :
    (m.readZeroPage offset).toNat = m.pair offset.toNat ((offset.toNat + 1) % 256) := by
  have hpage : offset.toNat / 256 = 0 := Nat.div_eq_of_lt offset.toNat_lt
  rw [readZeroPage_eq_readInPage, toNat_readInPage, UInt8.toNat_toUInt16, hpage, Nat.mul_zero,
    Nat.zero_add]

end Memory

namespace AddressingMode

/-- The number of the cell on which an instruction in a mode works, where `p` is the number of the
cell with its opcode. -/
def cellNumber? (mode : AddressingMode) (r : Registers) (m : Memory) (p : Nat) : Option Nat :=
  let o := m.cell (p + 1)
  let w := m.pair (p + 1) (p + 2)
  match mode with
  | implied | accumulator | immediate | relative => none
  | zeroPage => some o
  | zeroPageX => some ((o + r.x.toNat) % 256)
  | zeroPageY => some ((o + r.y.toNat) % 256)
  | absolute => some w
  | absoluteX => some ((w + r.x.toNat) % 65536)
  | absoluteY => some ((w + r.y.toNat) % 65536)
  | indirect => some (m.pair w (256 * (w / 256) + (w + 1) % 256))
  | indirectX => some (m.pair ((o + r.x.toNat) % 256) ((o + r.x.toNat + 1) % 256))
  | indirectY => some ((m.pair o ((o + 1) % 256) + r.y.toNat) % 65536)

/-- Whether the index of a mode carries out of the low byte of its base. -/
def carries (mode : AddressingMode) (r : Registers) (m : Memory) (p : Nat) : Bool :=
  let o := m.cell (p + 1)
  let w := m.pair (p + 1) (p + 2)
  match mode with
  | absoluteX => 256 ≤ w % 256 + r.x.toNat
  | absoluteY => 256 ≤ w % 256 + r.y.toNat
  | indirectY => 256 ≤ m.pair o ((o + 1) % 256) % 256 + r.y.toNat
  | _ => false

end AddressingMode

namespace Operand

variable {r s : Registers} {m n : Memory}

theorem toNat_zeroPageIndexed (offset index : UInt8) :
    (zeroPageIndexed offset index).toNat = (offset.toNat + index.toNat) % 256 := by
  rw [zeroPageIndexed, UInt8.toNat_toUInt16, UInt8.toNat_add]

theorem address?_indexed (base : UInt16) (index : UInt8) :
    (indexed base index).address?.map UInt16.toNat =
      some ((base.toNat + index.toNat) % 65536) := by
  rw [indexed, address?, Option.map_some, UInt16.toNat_add, UInt8.toNat_toUInt16]

/-- Whether an index leaves the page of its base, told by the mask. -/
theorem indexed_eq_memory (base : UInt16) (index : UInt8) :
    indexed base index =
      let address := base + index.toUInt16
      memory address (base &&& 0xFF00 != address &&& 0xFF00) := by
  rw [indexed]
  dsimp only
  rw [Word.and_page_bne]

/-- The cell behind a pointer in the zero page, in one piece. -/
theorem resolve_indirectY (r : Registers) (m : Memory) (pc : UInt16) :
    resolve r m .indirectY pc =
      let base := m.readZeroPage (m.read (pc + 1))
      let address := base + r.y.toUInt16
      memory address (base &&& 0xFF00 != address &&& 0xFF00) :=
  indexed_eq_memory _ r.y

theorem toNat_fetched (m : Memory) (pc : UInt16) :
    (m.readWord (pc + 1)).toNat = m.pair (pc.toNat + 1) (pc.toNat + 2) := by
  have hsecond : pc + 1 + 1 = pc + UInt16.ofNat 2 := UInt16.add_assoc pc 1 1
  rw [Memory.readWord, Word.toNat_ofBytes, Memory.pair, hsecond, Memory.cell_toNat_succ,
    Memory.cell_toNat_add]

theorem address?_resolve (mode : AddressingMode) (pc : UInt16) :
    (resolve r m mode pc).address?.map UInt16.toNat = mode.cellNumber? r m pc.toNat := by
  have hbyte : (m.read (pc + 1)).toNat = m.cell (pc.toNat + 1) := (Memory.cell_toNat_succ pc).symm
  have hword := toNat_fetched m pc
  cases mode with
  | implied | accumulator | immediate | relative => rfl
  | zeroPage =>
      rw [AddressingMode.cellNumber?, ← hbyte, ← UInt8.toNat_toUInt16]
      rfl
  | zeroPageX | zeroPageY =>
      rw [AddressingMode.cellNumber?, ← hbyte, ← toNat_zeroPageIndexed]
      rfl
  | absolute =>
      rw [AddressingMode.cellNumber?, ← hword]
      rfl
  | absoluteX | absoluteY =>
      rw [resolve, address?_indexed, hword]
      rfl
  | indirect =>
      rw [AddressingMode.cellNumber?, ← hword, ← Memory.toNat_readInPage]
      rfl
  | indirectX =>
      have hpointer := Memory.toNat_readZeroPage (m := m) (m.read (pc + 1) + r.x)
      rw [UInt8.toNat_add, hbyte, Nat.mod_add_mod] at hpointer
      rw [AddressingMode.cellNumber?, ← hpointer]
      rfl
  | indirectY =>
      rw [resolve, address?_indexed, Memory.toNat_readZeroPage, hbyte]
      rfl

theorem pageCrossed_resolve (mode : AddressingMode) (pc : UInt16) :
    (resolve r m mode pc).pageCrossed = mode.carries r m pc.toNat := by
  cases mode with
  | absoluteX | absoluteY =>
      rw [resolve, pageCrossed_indexed, Word.toNat_low, toNat_fetched]
      rfl
  | indirectY =>
      rw [resolve, pageCrossed_indexed, Word.toNat_low, Memory.toNat_readZeroPage,
        ← Memory.cell_toNat_succ]
      rfl
  | _ => rfl

/-- The operand of every mode by arithmetic on numbers. A pointer in the zero page with Y behaves
like a base in the instruction, and is read like the target of an indirect jump. -/
theorem resolve_arithmetic (r : Registers) (m : Memory) :
    (∀ mode pc,
      (resolve r m mode pc).address?.map UInt16.toNat = mode.cellNumber? r m pc.toNat ∧
        (resolve r m mode pc).pageCrossed = mode.carries r m pc.toNat) ∧
    (∀ pc, resolve r m .implied pc = .implied ∧ resolve r m .accumulator pc = .accumulator ∧
      (∃ v, resolve r m .immediate pc = .immediate v ∧ v.toNat = m.cell (pc.toNat + 1)) ∧
      ∃ d, resolve r m .relative pc = .relative d ∧
        d.toInt = (m.cell (pc.toNat + 1) : Int).bmod 256) ∧
    (∀ mode ∈ [AddressingMode.zeroPage, .zeroPageX, .zeroPageY], ∀ pc, ∃ address,
      resolve r m mode pc = .memory address false ∧ address < 0x100) ∧
    (∀ pc (s : Registers) (n : Memory) (q : UInt16),
      m.readZeroPage (m.read (pc + 1)) = n.readWord (q + 1) → r.y = s.y →
        resolve r m .indirectY pc = resolve s n .absoluteY q) ∧
    ∀ offset : UInt8, m.readZeroPage offset = m.readInPage offset.toUInt16 := by
  refine ⟨fun mode pc => ⟨address?_resolve mode pc, pageCrossed_resolve mode pc⟩,
    fun pc => ⟨rfl, rfl, ⟨_, rfl, ?_⟩, ⟨_, rfl, ?_⟩⟩, fun mode hmode pc => ?_,
    fun pc s n q hbase hy => ?_, fun offset => Memory.readZeroPage_eq_readInPage offset⟩
  · exact (Memory.cell_toNat_succ pc).symm
  · rw [Byte.toInt_toInt8, Memory.cell_toNat_succ]
  · have hlow (v : UInt8) : v.toUInt16 < 0x100 := by
      rw [UInt16.lt_iff_toNat_lt, UInt8.toNat_toUInt16]
      exact v.toNat_lt
    simp only [List.mem_cons, List.not_mem_nil, or_false] at hmode
    rcases hmode with rfl | rfl | rfl <;> exact ⟨_, rfl, hlow _⟩
  · rw [resolve, resolve, hbase, hy]

/-- A pointer in the last cell of the zero page, to the last cell of memory. -/
theorem resolve_arithmetic_wrapping :
    let r : Registers := { y := 1 }
    let m := (Memory.blank.write 0xFF 0xFF).write 0 0xFF
    let n := Memory.blank.load 1 [0xFF, 0xFF]
    m.readZeroPage (m.read (0xFE + 1)) = n.readWord (0 + 1) ∧
      resolve r m .indirectY 0xFE = .memory 0 true ∧
      resolve r n .absoluteY 0 = .memory 0 true ∧
      ∃ address, resolve r m .zeroPageY 0xFE = .memory address false ∧ address < 0x100 := by
  intro r m n
  have hbase : m.readZeroPage (m.read (0xFE + 1)) = n.readWord (0 + 1) := by decide +kernel
  obtain ⟨-, -, hzero, hpointer, -⟩ := resolve_arithmetic r m
  have hsame := hpointer 0xFE r n 0 hbase rfl
  have hwraps : resolve r n .absoluteY 0 = .memory 0 true := by decide +kernel
  exact ⟨hbase, hsame.trans hwraps, hwraps, hzero .zeroPageY (by decide) 0xFE⟩

end Operand

end Core6502
