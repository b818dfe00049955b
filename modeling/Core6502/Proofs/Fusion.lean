import Core6502.Proofs.OperandEffect

/-!
# Combined operations

Seven undocumented operations do the work of two documented ones on the same cell. One step of
such an operation, in whatever mode, and two steps of the pair it stands for end with the same
registers, flags and byte, the carry and the flags of the first half included where the second
half uses or replaces them.
-/

namespace Core6502

namespace Operation

/-- The two documented operations that a combined operation does one after the other. -/
def parts? : Operation → Option (Operation × Operation)
  | slo => some (asl, ora)
  | rla => some (rol, and)
  | sre => some (lsr, eor)
  | rra => some (ror, adc)
  | dcp => some (dec, cmp)
  | isc => some (inc, sbc)
  | lax => some (lda, ldx)
  | _ => none

/-- The effects of the combined operations without the documented ones, one assignment after
another. -/
def writtenOut? : Operation → Option Effect
  | slo => some (.modify fun v r =>
    let (shifted, r) := r.asl v
    let r := { r with a := r.a ||| shifted }
    (shifted, r.describe r.a))
  | rla => some (.modify fun v r =>
    let (rotated, r) := r.rol v
    let r := { r with a := r.a &&& rotated }
    (rotated, r.describe r.a))
  | sre => some (.modify fun v r =>
    let (shifted, r) := r.lsr v
    let r := { r with a := r.a ^^^ shifted }
    (shifted, r.describe r.a))
  | rra => some (.modify fun v r =>
    let (rotated, r) := r.ror v
    (rotated, r.addWithCarry rotated))
  | dcp => some (.modify fun v r => (v - 1, r.compare r.a (v - 1)))
  | isc => some (.modify fun v r => (v + 1, r.subtractWithCarry (v + 1)))
  | lax => some (.read fun v r => { r with a := v, x := v }.describe v)
  | _ => none

variable {operation first second : Operation}

theorem effect?_of_writtenOut? {effect : Effect} (h : operation.writtenOut? = some effect) :
    operation.effect? = some effect := by
  cases operation <;> cases h <;> rfl

theorem isSome_writtenOut? (operation : Operation) :
    operation.writtenOut?.isSome = operation.parts?.isSome := by
  cases operation <;> rfl

theorem transform_of_parts? (h : operation.parts? = some (first, second)) (v : UInt8)
    (r : Registers) :
    operation.effect.transform v r =
      second.effect.transform (first.effect.transform v r).1 (first.effect.transform v r).2 := by
  cases operation <;> cases h <;> rfl

theorem usesOperand_of_parts? (h : operation.parts? = some (first, second)) :
    operation.effect.usesOperand ∧ first.effect.usesOperand ∧ second.effect.usesOperand := by
  cases operation <;> cases h <;> exact ⟨rfl, rfl, rfl⟩

theorem ne_brk_of_usesOperand (h : operation.effect.usesOperand) : operation ≠ .brk := by
  rintro rfl
  cases h

end Operation

def AddressingMode.namesCell : AddressingMode → Bool
  | implied | accumulator | immediate | relative => false
  | _ => true

theorem namesCell_of_parts? {opcode : UInt8} {i : Instruction} (hi : decode opcode = some i)
    (hparts : i.operation.parts?.isSome) : i.mode.namesCell := by
  have hall : ∀ i ∈ Isa.instructions, i.operation.parts?.isSome → i.mode.namesCell := by
    decide +kernel
  exact hall i (mem_instructions_of_decode hi) hparts

namespace Machine

variable {m : Machine} {i : Instruction} {operation : Operation} {pc address : UInt16}

theorem exists_effectiveAddress? (m : Machine) (h : i.mode.namesCell) :
    ∃ address, m.effectiveAddress? i = some address := by
  rw [effectiveAddress?, operand]
  cases hmode : i.mode with
  | implied | accumulator | immediate | relative => rw [hmode] at h; cases h
  | _ => exact ⟨_, rfl⟩

/-- At `pc` stands an instruction that does `operation` on the cell whose address is spelled out
after the opcode. -/
def HoldsAbsolute (m : Machine) (pc : UInt16) (operation : Operation) (address : UInt16) :
    Prop :=
  ∃ i, decode (m.memory.read pc) = some i ∧ i.operation = operation ∧ i.mode = .absolute ∧
    m.memory.readWord (pc + 1) = address

theorem HoldsAbsolute.congr {n : Machine} (h : m.HoldsAbsolute pc operation address)
    (hread : ∀ k < 3, n.memory.read (pc + UInt16.ofNat k) = m.memory.read (pc + UInt16.ofNat k)) :
    n.HoldsAbsolute pc operation address := by
  obtain ⟨i, hi, hoperation, hmode, hword⟩ := h
  have h₀ : n.memory.read pc = m.memory.read pc := by simpa using hread 0 (by omega)
  have h₁ : n.memory.read (pc + 1) = m.memory.read (pc + 1) := hread 1 (by omega)
  have h₂ : n.memory.read (pc + 1 + 1) = m.memory.read (pc + 1 + 1) := by
    rw [UInt16.add_assoc]
    exact hread 2 (by omega)
  refine ⟨i, h₀ ▸ hi, hoperation, hmode, ?_⟩
  rw [Memory.readWord, h₁, h₂]
  exact hword

theorem step_of_holdsAbsolute (h : m.HoldsAbsolute m.pc operation address)
    (huses : operation.effect.usesOperand) :
    (∃ i, m.instruction? = some i) ∧
      m.step.2.registers =
        (operation.effect.transform (m.memory.read address) m.registers).2 ∧
      m.step.2.memory.read address =
        (operation.effect.transform (m.memory.read address) m.registers).1 ∧
      (∀ a, a ≠ address → m.step.2.memory.read a = m.memory.read a) ∧
      m.step.2.pc = m.pc + 3 := by
  obtain ⟨i, hi, rfl, hmode, hword⟩ := h
  have hinstruction : m.instruction? = some i :=
    instruction?_eq_some_iff.mpr ⟨hi, Operation.ne_brk_of_usesOperand huses⟩
  have haddress : m.effectiveAddress? i = some address := by
    rw [effectiveAddress?, operand, hmode, ← hword]
    rfl
  obtain ⟨hregisters, hbyte, hothers, hpc⟩ := step_of_effectiveAddress? hinstruction huses haddress
  refine ⟨⟨i, hinstruction⟩, hregisters, hbyte, hothers, ?_⟩
  rw [hpc, Instruction.bytes, hmode]
  rfl

/-- A combined operation on a cell does in one step what its two parts do in two, when these
stand anywhere but on the cell itself. -/
theorem step_eq_steps_of_parts? {s : Machine} {first second : Operation}
    (hi : decode (s.memory.read s.pc) = some i)
    (hparts : i.operation.parts? = some (first, second)) :
    ∃ address, s.effectiveAddress? i = some address ∧
      ∀ t : Machine, t.registers = s.registers →
        t.memory.read address = s.memory.read address →
        t.HoldsAbsolute t.pc first address →
        t.HoldsAbsolute (t.pc + 3) second address →
        (∀ k < 6, address ≠ t.pc + UInt16.ofNat k) →
        (∃ cost, s.step.1 = .ok cost) ∧ (t.steps 2).fault = none ∧
          s.step.2.registers = (t.steps 2).machine.registers ∧
          s.step.2.memory.read address = (t.steps 2).machine.memory.read address := by
  obtain ⟨address, haddress⟩ := s.exists_effectiveAddress?
    (namesCell_of_parts? hi (by rw [hparts]; rfl))
  refine ⟨address, haddress, fun t hregisters hbyte hfirst hsecond hout => ?_⟩
  obtain ⟨huses, hfirstUses, hsecondUses⟩ := Operation.usesOperand_of_parts? hparts
  have hinstruction : s.instruction? = some i :=
    instruction?_eq_some_iff.mpr ⟨hi, Operation.ne_brk_of_usesOperand huses⟩
  obtain ⟨hsr, hsb, -, -⟩ := step_of_effectiveAddress? hinstruction huses haddress
  -- The first half leaves the second in place: its cell is none of the six code bytes.
  obtain ⟨⟨j₁, hj₁⟩, hr₁, hb₁, hothers, hpc⟩ := step_of_holdsAbsolute hfirst hfirstUses
  have hsecond' : t.step.2.HoldsAbsolute t.step.2.pc second address := by
    rw [hpc]
    refine hsecond.congr fun k hk => hothers _ fun heq => hout (3 + k) (by omega) ?_
    rw [← heq, UInt16.ofNat_add, UInt16.add_assoc]
    rfl
  obtain ⟨⟨j₂, hj₂⟩, hr₂, hb₂, -, -⟩ := step_of_holdsAbsolute hsecond' hsecondUses
  have hone : t.after 1 = t.step.2 := t.after_succ 0
  have htwo : (t.steps 2).machine = t.step.2.step.2 := by
    rw [← hone]
    exact t.after_succ 1
  refine ⟨⟨_, step_fst_of_instruction? hinstruction rfl⟩, ?_, ?_, ?_⟩
  · rw [steps_fault_eq_none_iff]
    intro k hk
    obtain rfl | rfl : k = 0 ∨ k = 1 := by omega
    · exact ⟨j₁, hj₁⟩
    · exact ⟨j₂, hone ▸ hj₂⟩
  · rw [htwo, hr₂, hb₁, hr₁, hsr, hbyte, hregisters, Operation.transform_of_parts? hparts]
  · rw [htwo, hb₂, hb₁, hr₁, hsb, hbyte, hregisters, Operation.transform_of_parts? hparts]

/-- The combined instruction at $0000 counts up and subtracts its own second byte. -/
theorem step_eq_steps_inc_sbc :
    let s := ({ registers := { a := 0x80, y := 1 } } : Machine).load 0 [0xF3, 0x10]
    let t := { s.load 0x20 [0xEE, 1, 0, 0xED, 1, 0] with pc := 0x20 }
    s.effectiveAddress? ⟨0xF3, .isc, .indirectY, 8⟩ = some 1 ∧ (t.steps 2).fault = none ∧
      s.step.2.registers = (t.steps 2).machine.registers ∧
      s.step.2.memory.read 1 = (t.steps 2).machine.memory.read 1 := by
  intro s t
  obtain ⟨address, haddress, h⟩ := step_eq_steps_of_parts? (s := s)
    (i := ⟨0xF3, .isc, .indirectY, 8⟩) ((decode_eq_lookup _).trans (by decide +kernel)) rfl
  have hone : s.effectiveAddress? ⟨0xF3, .isc, .indirectY, 8⟩ = some 1 := by decide +kernel
  obtain rfl : address = 1 := Option.some.inj (haddress.symm.trans hone)
  have hinc : t.HoldsAbsolute t.pc .inc 1 :=
    ⟨⟨0xEE, .inc, .absolute, 6⟩, (decode_eq_lookup _).trans (by decide +kernel), rfl, rfl,
      by decide +kernel⟩
  have hsbc : t.HoldsAbsolute (t.pc + 3) .sbc 1 :=
    ⟨⟨0xED, .sbc, .absolute, 4⟩, (decode_eq_lookup _).trans (by decide +kernel), rfl, rfl,
      by decide +kernel⟩
  have hout : ∀ k < 6, (1 : UInt16) ≠ t.pc + UInt16.ofNat k := by decide +kernel
  exact ⟨hone, (h t rfl (by decide +kernel) hinc hsbc hout).2⟩

end Machine

end Core6502
