import Core6502.Proofs.Control.ProgramCounter
import Core6502.Proofs.Flags.Description
import Core6502.Proofs.Flags.Inert
import Core6502.Proofs.Timing

/-!
# Comparisons are subtractions

A comparison computes its three flags directly, a subtraction adds the complement of its operand.
Without a borrow the two come to the same flags, in the same time: a comparison is a subtraction
whose result nobody keeps.
-/

namespace Core6502

namespace Registers

variable {r s : Registers} {reg v : UInt8}

/-- The flags say how a byte compares with `v`: C that it is not below, Z and N what the difference
is. -/
structure Compared (r : Registers) (reg v : UInt8) : Prop where
  carry_iff : r.status.carry = true ↔ v.toNat ≤ reg.toNat
  describes : r.Describes (reg - v)

theorem Compared.flags_eq (hr : r.Compared reg v) (hs : s.Compared reg v) :
    r.status.carry = s.status.carry ∧ r.status.zero = s.status.zero ∧
      r.status.negative = s.status.negative :=
  ⟨Bool.eq_iff_iff.mpr (hr.carry_iff.trans hs.carry_iff.symm),
    Bool.eq_iff_iff.mpr (hr.describes.zero_iff.trans hs.describes.zero_iff.symm),
    hr.describes.negative_eq.trans hs.describes.negative_eq.symm⟩

/-- The three flags of a comparison, each from a test of its own. -/
theorem compare_eq (reg v : UInt8) (r : Registers) :
    r.compare reg v =
      { r with status := { r.status with
          carry := decide (v ≤ reg)
          zero := reg == v
          negative := (reg - v) &&& 0x80 != 0 } } := by
  have hzero : (reg - v == 0) = (reg == v) := by
    rw [Bool.eq_iff_iff, beq_iff_eq, beq_iff_eq, sub_eq_zero]
  have hnegative : Byte.bit (reg - v) 7 = ((reg - v) &&& 0x80 != 0) :=
    Byte.forall_of_lt (p := fun b => Byte.bit b 7 = (b &&& 0x80 != 0)) (by decide +kernel) _
  rw [compare, describe, Status.describe, hzero, hnegative]

theorem compared_compare (reg v : UInt8) (r : Registers) : (r.compare reg v).Compared reg v :=
  ⟨decide_eq_true_iff.trans UInt8.le_iff_toNat_le, describes_compare reg v r⟩

/-- With C set nothing is borrowed. -/
theorem a_subtractWithCarry (hcarry : r.status.carry = true) (v : UInt8) :
    (r.subtractWithCarry v).a = r.a - v := by
  have hv := v.toNat_lt
  obtain ⟨ha, -⟩ := holds_subtractWithCarry v r
  rw [hcarry] at ha
  apply UInt8.toNat_inj.mp
  rw [ha, UInt8.toNat_sub]
  congr 1
  rw [Bool.not_true, Bool.toNat_false]
  omega

theorem compared_subtractWithCarry (hcarry : r.status.carry = true) (v : UInt8) :
    (r.subtractWithCarry v).Compared r.a v := by
  have hv := v.toNat_lt
  constructor
  · obtain ⟨-, hholds⟩ := holds_subtractWithCarry v r
    rw [hholds, hcarry, decide_eq_true_iff, Bool.not_true, Bool.toNat_false]
    omega
  · rw [← a_subtractWithCarry hcarry v]
    exact describes_describe _ _

end Registers

namespace Operation

/-- The operations that subtract their operand from a register, whether or not they keep the
difference. -/
def subtractions : List Operation := [.sbc, .cmp, .cpx, .cpy]

/-- The register from which a subtraction subtracts. -/
def minuend : Operation → Registers → UInt8
  | cpx => Registers.x
  | cpy => Registers.y
  | _ => Registers.a

variable {operation : Operation}

theorem mem_subtractions_iff : operation ∈ subtractions ↔
    operation = sbc ∨ operation = cmp ∨ operation = cpx ∨ operation = cpy := by
  simp [subtractions]

theorem compared_compute (h : operation ∈ subtractions) (v : UInt8) {r : Registers}
    (hcarry : operation = .sbc → r.status.carry = true) :
    (operation.effect.compute v r).Compared (operation.minuend r) v := by
  rcases mem_subtractions_iff.mp h with rfl | rfl | rfl | rfl
  · exact Registers.compared_subtractWithCarry (hcarry rfl) v
  · exact Registers.compared_compare r.a v r
  · exact Registers.compared_compare r.x v r
  · exact Registers.compared_compare r.y v r

theorem plain_of_mem_subtractions (h : operation ∈ subtractions) :
    operation ≠ .brk ∧ operation.pulls = 0 ∧ operation ∉ shifts ∧ operation.isBranch = false ∧
      operation.effect.transfers = false := by
  rcases mem_subtractions_iff.mp h with rfl | rfl | rfl | rfl <;>
    exact ⟨by decide, rfl, by decide, rfl, rfl⟩

end Operation

theorem Instruction.cycles_of_mem_subtractions {i : Instruction}
    (h : i.operation ∈ Operation.subtractions) (carries : Bool) :
    i.cycles carries = i.mode.cycles .read carries := by
  rcases Operation.mem_subtractions_iff.mp h with h | h | h | h <;> rw [cycles, h] <;> rfl

/-- Both ways to subtract from A come in every mode in which anything is compared. -/
theorem exists_same_mode {opcode : UInt8} {i : Instruction} (hi : decode opcode = some i)
    (hcompares : i.operation ∈ [.cmp, .cpx, .cpy]) {operation : Operation}
    (hoperation : operation ∈ [.sbc, .cmp]) :
    ∃ opcode j, decode opcode = some j ∧ j.operation = operation ∧ j.mode = i.mode := by
  have hall : ∀ i ∈ Isa.instructions, i.operation ∈ [.cmp, .cpx, .cpy] →
      ∀ operation ∈ [Operation.sbc, .cmp], ∃ j ∈ Isa.instructions,
        j.operation = operation ∧ j.mode = i.mode ∧ Isa.lookup j.opcode = some j := by
    decide +kernel
  obtain ⟨j, -, hop, hmode, hj⟩ :=
    hall i (mem_instructions_of_decode hi) hcompares operation hoperation
  exact ⟨j.opcode, j, (decode_eq_lookup _).trans hj, hop, hmode⟩

namespace Machine

/-- The cells of the pointer to an operand and of the operand. -/
def operandCells (m : Machine) (i : Instruction) : List UInt16 :=
  Operand.pointerCells m.registers m.memory i.mode m.pc ++ (m.effectiveAddress? i).toList

/-- The same machine with a byte in A, C set and another opcode at the program counter. -/
def instead (m : Machine) (v opcode : UInt8) : Machine :=
  { m.poke m.pc opcode with
    registers := { m.registers with a := v, status := { m.registers.status with carry := true } } }

variable {m : Machine} {i j : Instruction} {v opcode : UInt8}

theorem step_of_mem_subtractions (hi : decode (m.memory.read m.pc) = some i)
    (h : i.operation ∈ Operation.subtractions) :
    m.step.1 = .ok (i.mode.cycles .read (m.operand i.mode).pageCrossed) ∧
      m.step.2.pc = m.pc + UInt16.ofNat i.mode.bytes ∧
      m.step.2.registers = i.operation.effect.compute (m.operandValue i) m.registers := by
  obtain ⟨hbrk, hpulls, hshift, hbranch, htransfers⟩ := Operation.plain_of_mem_subtractions h
  have hinstruction : m.instruction? = some i := instruction?_eq_some_iff.mpr ⟨hi, hbrk⟩
  refine ⟨step_fst_of_instruction? hinstruction ?_, ?_,
    registers_step_of_notMem_shifts hinstruction hpulls hshift⟩
  · rw [cycles_change hi hbrk, cost, branchCycles, Operation.branches_eq_false hbranch,
      Instruction.cycles_of_mem_subtractions h, pageCrossed_operand]
    rfl
  · rw [step_of_instruction? hinstruction]
    exact Effect.pc_change_of_not_transfers htransfers

theorem compared_step (hi : decode (m.memory.read m.pc) = some i)
    (h : i.operation ∈ Operation.subtractions)
    (hcarry : i.operation = .sbc → m.registers.status.carry = true) :
    m.step.2.registers.Compared (i.operation.minuend m.registers) (m.operandValue i) := by
  rw [(step_of_mem_subtractions hi h).2.2]
  exact Operation.compared_compute h (m.operandValue i) hcarry

/-- The operand is found where it was, and it is the same byte. -/
theorem operand_instead (hself : m.pc ∉ m.operandCells i) (hmode : i.mode ≠ .accumulator) :
    (m.instead v opcode).operand i.mode = m.operand i.mode ∧
      (m.instead v opcode).operandValue i = m.operandValue i := by
  have hread {a : UInt16} (ha : a ≠ m.pc) :
      m.memory.read a = (m.instead v opcode).memory.read a :=
    (Memory.read_write_of_ne m.memory opcode ha.symm).symm
  obtain ⟨hpointer, haddress⟩ : m.pc ∉ Operand.pointerCells m.registers m.memory i.mode m.pc ∧
      m.pc ∉ (m.effectiveAddress? i).toList := by
    rwa [operandCells, List.mem_append, not_or] at hself
  have hoperand : (m.instead v opcode).operand i.mode = m.operand i.mode := by
    have hresolve : m.operand i.mode =
        Operand.resolve m.registers (m.instead v opcode).memory i.mode m.pc :=
      Operand.resolve_congr
        (fun a ha => hread (ne_of_mem_of_not_mem ha (Operand.pc_notMem_fetchedCells _ _)))
        fun a ha => hread (ne_of_mem_of_not_mem ha hpointer)
    rw [hresolve]
    exact Operand.resolve_of_index_eq rfl rfl _ _ _
  refine ⟨hoperand, ?_⟩
  rw [operandValue, operandValue, hoperand]
  cases hcell : m.operand i.mode with
  | accumulator => exact absurd (operand_eq_accumulator_iff.mp hcell) hmode
  | memory a crossed =>
      have ha : a ≠ m.pc := by
        rintro rfl
        rw [effectiveAddress?, hcell] at haddress
        exact haddress (List.mem_singleton_self _)
      exact (hread ha).symm
  | implied | immediate | relative => rfl

/-- With `v` in A the other opcode takes as long as the instruction itself would, and compares `v`
with the same operand. -/
theorem step_instead (hself : m.pc ∉ m.operandCells i) (hplace : i.mode ≠ .accumulator)
    (hj : decode opcode = some j) (hop : j.operation ∈ [.sbc, .cmp]) (hmode : j.mode = i.mode) :
    let t := m.instead v opcode
    t.step.1 = .ok (i.mode.cycles .read (m.operand i.mode).pageCrossed) ∧
      t.step.2.pc = m.pc + UInt16.ofNat i.mode.bytes ∧
      t.step.2.registers.Compared v (m.operandValue i) ∧
      (j.operation = .sbc → t.step.2.registers.a = v - m.operandValue i) := by
  intro t
  have hopcode : decode (t.memory.read t.pc) = some j :=
    (congrArg decode (Memory.read_write_self m.memory m.pc opcode)).trans hj
  have hmem : j.operation ∈ Operation.subtractions := by
    rcases List.mem_pair.mp hop with h | h <;> rw [h] <;> decide
  have hminuend : j.operation.minuend t.registers = v := by
    rcases List.mem_pair.mp hop with h | h <;> rw [h] <;> rfl
  obtain ⟨hoperand, hvalue⟩ : t.operand j.mode = m.operand i.mode ∧
      t.operandValue j = m.operandValue i := by
    rw [operandValue, hmode]
    exact operand_instead hself hplace
  obtain ⟨hcost, hpc, hregisters⟩ := step_of_mem_subtractions hopcode hmem
  have hcompared := compared_step hopcode hmem fun _ => rfl
  rw [hminuend, hvalue] at hcompared
  rw [hoperand, hmode] at hcost
  rw [hmode] at hpc
  refine ⟨hcost, hpc, hcompared, fun hkeeps => ?_⟩
  rw [hregisters, hvalue, hkeeps]
  exact Registers.a_subtractWithCarry rfl _

theorem keeps_step_of_compares (hi : decode (m.memory.read m.pc) = some i)
    (hcompares : i.operation ∈ [.cmp, .cpx, .cpy]) :
    m.step.2.registers.a = m.registers.a ∧
      m.step.2.registers.status.overflow = m.registers.status.overflow := by
  rw [(step_of_mem_subtractions hi (List.mem_cons_of_mem _ hcompares)).2.2]
  simp only [List.mem_cons, List.not_mem_nil, or_false] at hcompares
  rcases hcompares with h | h | h <;> rw [h] <;> exact ⟨rfl, rfl⟩

/-- A comparison finds out C, Z and N as a subtraction without a borrow does that has the compared
register in A, and takes as long. The subtraction keeps the difference, the comparison keeps A. -/
theorem compare_eq_subtract (m : Machine) (i : Instruction)
    (hi : decode (m.memory.read m.pc) = some i) (hcompares : i.operation ∈ [.cmp, .cpx, .cpy]) :
    let reg := i.operation.minuend m.registers
    let v := m.operandValue i
    let r := m.step.2.registers
    ((∃ cost, m.step.1 = .ok cost) ∧ (r.status.carry = true ↔ v.toNat ≤ reg.toNat) ∧
      r.a = m.registers.a ∧ r.status.overflow = m.registers.status.overflow) ∧
    (∀ operation ∈ [.sbc, .cmp],
      ∃ opcode j, decode opcode = some j ∧ j.operation = operation ∧ j.mode = i.mode) ∧
    (m.pc ∉ m.operandCells i → ∀ opcode j, decode opcode = some j → j.operation ∈ [.sbc, .cmp] →
      j.mode = i.mode →
        let t := m.instead reg opcode
        (∃ cost, m.step.1 = .ok cost ∧ t.step.1 = .ok cost) ∧ m.step.2.pc = t.step.2.pc ∧
          (r.status.carry = t.step.2.registers.status.carry ∧
            r.status.zero = t.step.2.registers.status.zero ∧
            r.status.negative = t.step.2.registers.status.negative) ∧
          (j.operation = .sbc → t.step.2.registers.a = reg - v)) := by
  intro reg v r
  have hmem : i.operation ∈ Operation.subtractions := List.mem_cons_of_mem _ hcompares
  have hsbc : i.operation ≠ .sbc := ne_of_mem_of_not_mem hcompares (by decide)
  have hcompared : r.Compared reg v := compared_step hi hmem (absurd · hsbc)
  obtain ⟨hcost, hpc, -⟩ := step_of_mem_subtractions hi hmem
  refine ⟨⟨⟨_, hcost⟩, hcompared.carry_iff, keeps_step_of_compares hi hcompares⟩,
    fun operation => exists_same_mode hi hcompares, fun hself opcode j hj hop hmode => ?_⟩
  have hplace : i.mode ≠ .accumulator := fun h =>
    (Operation.plain_of_mem_subtractions hmem).2.2.1 (mem_shifts_of_accumulator hi h)
  obtain ⟨htcost, htpc, htcompared, hkeeps⟩ := step_instead hself hplace hj hop hmode
  exact ⟨⟨_, hcost, htcost⟩, hpc.trans htpc.symm, hcompared.flags_eq htcompared, hkeeps⟩

/-- A pointer that wraps in the zero page to an operand past the end of a page, and a comparison of
X in whose mode two opcodes subtract. -/
theorem compare_eq_subtract_crossing :
    let m := (((({ registers := { a := 0x10, y := 1 }, pc := 0x10 } : Machine).load 0x10
      [0xD1, 0xFF]).load 0xFF [0xFF]).load 0 [0x01]).load 0x200 [0x20]
    let n := ({ registers := { x := 5 } } : Machine).load 0 [0xE0, 5]
    m.step.1 = .ok 6 ∧ (m.instead 0x10 0xF1).step.1 = .ok 6 ∧
      m.step.2.registers.status.carry = false ∧
      (m.instead 0x10 0xF1).step.2.registers.a = 0xF0 ∧
      n.step.2.registers.status.zero = (n.instead 5 0xEB).step.2.registers.status.zero := by
  intro m n
  have hcmp : m.instruction? = some ⟨0xD1, .cmp, .indirectY, 5⟩ :=
    instruction?_of_lookup (by decide +kernel) (by decide)
  have hcpx : n.instruction? = some ⟨0xE0, .cpx, .immediate, 2⟩ :=
    instruction?_of_lookup (by decide +kernel) (by decide)
  have hsbc : decode 0xF1 = some ⟨0xF1, .sbc, .indirectY, 5⟩ :=
    (decode_eq_lookup _).trans (by decide +kernel)
  have hsbc' : decode 0xEB = some ⟨0xEB, .sbc, .immediate, 2⟩ :=
    (decode_eq_lookup _).trans (by decide +kernel)
  have hcost : m.step.1 = .ok 6 := step_fst_of_instruction? hcmp (by decide +kernel)
  have hvalue : m.operandValue ⟨0xD1, .cmp, .indirectY, 5⟩ = 0x20 := by decide +kernel
  obtain ⟨⟨-, hcarry, -⟩, -, hcross⟩ :=
    compare_eq_subtract m _ (instruction?_eq_some_iff.mp hcmp).1 (by decide)
  obtain ⟨-, -, hshort⟩ :=
    compare_eq_subtract n _ (instruction?_eq_some_iff.mp hcpx).1 (by decide)
  obtain ⟨⟨cost, hm, ht⟩, -, -, ha⟩ :=
    hcross (by decide +kernel) 0xF1 _ hsbc (by decide) rfl
  obtain ⟨-, -, ⟨-, hzero, -⟩, -⟩ := hshort (by decide +kernel) 0xEB _ hsbc' (by decide) rfl
  rw [hvalue] at hcarry ha
  refine ⟨hcost, ht.trans (hm.symm.trans hcost), ?_, (ha rfl).trans (by decide), hzero⟩
  rw [Bool.eq_false_iff, Ne, hcarry]
  decide

end Machine

end Core6502
