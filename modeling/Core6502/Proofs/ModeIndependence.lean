import Core6502.Proofs.Footprint.Read
import Core6502.Proofs.OperandEffect

/-!
# Operations do the same in every mode

An addressing mode only decides where the operand is. Two machines with equal registers that
execute the same operation on equal bytes compute the same registers and flags and leave the
same byte behind, whatever modes they use and whatever else is in their memories. Only the
accumulator can differ: it is a register and may be the operand as well.
-/

namespace Core6502

def Operand.isPlace : Operand → Bool
  | accumulator | memory _ _ => true
  | _ => false

namespace Effect

/-- The registers that an effect computes from the byte in its operand. What it puts back into
the operand is not among them. -/
def compute : Effect → UInt8 → Registers → Registers
  | update next, _, r => next r
  | push _, _, r => { r with sp := r.sp - 1 }
  | call, _, r => { r with sp := r.sp - 2 }
  | effect, v, r => (effect.transform v r).2

variable {effect : Effect} {operand : Operand} {m : Memory} {through : Change}
  {v w : UInt8} {r : Registers}

theorem compute_congr (h : effect.readsOperand → v = w) :
    effect.compute v r = effect.compute w r := by
  cases effect with
  | read | modify => rw [h rfl]
  | _ => rfl

theorem transform_fst_congr (hstores : effect.storesOperand)
    (h : effect.readsOperand → v = w) : (effect.transform v r).1 = (effect.transform w r).1 := by
  cases effect with
  | write => rfl
  | modify => rw [h rfl]
  | _ => cases hstores

/-- The accumulator aside, the mode of the operand makes no difference to the registers. -/
theorem registers_change (hpulls : effect.pulls = 0) :
    (effect.change operand m through).registers =
      { effect.compute (operand.value through.registers m) through.registers with
        a :=
          if effect.storesOperand && operand == .accumulator then
            (effect.transform (operand.value through.registers m) through.registers).1
          else (effect.compute (operand.value through.registers m) through.registers).a } := by
  cases effect with
  | pull | returnFromCall | returnFromInterrupt => cases hpulls
  | branch taken => exact registers_branch taken
  | write | modify => cases operand <;> rfl
  | _ => rfl

theorem value_change (hstores : effect.storesOperand) (hplace : operand.isPlace) :
    operand.value (effect.change operand m through).registers
        (m.writeAll (effect.change operand m through).stores) =
      (effect.transform (operand.value through.registers m) through.registers).1 := by
  cases effect with
  | write | modify =>
      cases operand with
      | accumulator => rfl
      | memory address => exact Memory.read_write_self m address _
      | _ => cases hplace
  | _ => cases hstores

end Effect

namespace Machine

/-- The byte in the operand of an instruction at the program counter. -/
def operandValue (m : Machine) (i : Instruction) : UInt8 :=
  (m.operand i.mode).value m.registers m.memory

/-- The byte that a step leaves in the place that was the operand before it. -/
def resultValue (m : Machine) (i : Instruction) : UInt8 :=
  (m.operand i.mode).value m.step.2.registers m.step.2.memory

variable {m : Machine} {i : Instruction}

theorem operand_eq_accumulator_iff {mode : AddressingMode} :
    m.operand mode = .accumulator ↔ mode = .accumulator := by
  refine ⟨accumulator_of_operand, ?_⟩
  rintro rfl
  rfl

theorem isPlace_of_storesOperand {opcode : UInt8} (hi : decode opcode = some i)
    (hstores : i.operation.storesOperand) : (m.operand i.mode).isPlace := by
  have hall : ∀ i ∈ Isa.instructions, i.operation.storesOperand →
      i.mode ≠ .implied ∧ i.mode ≠ .immediate ∧ i.mode ≠ .relative := by
    decide +kernel
  obtain ⟨himplied, himmediate, hrelative⟩ := hall i (mem_instructions_of_decode hi) hstores
  rw [operand]
  cases hmode : i.mode with
  | implied => exact absurd hmode himplied
  | immediate => exact absurd hmode himmediate
  | relative => exact absurd hmode hrelative
  | _ => rfl

theorem registers_step (hi : m.instruction? = some i) (hpulls : i.operation.pulls = 0) :
    m.step.2.registers =
      { i.operation.effect.compute (m.operandValue i) m.registers with
        a :=
          if i.operation.storesOperand && i.mode == .accumulator then
            (i.operation.effect.transform (m.operandValue i) m.registers).1
          else (i.operation.effect.compute (m.operandValue i) m.registers).a } := by
  have hmode : (m.operand i.mode == .accumulator) = (i.mode == .accumulator) := by
    rw [Bool.eq_iff_iff, beq_iff_eq, beq_iff_eq, operand_eq_accumulator_iff]
  rw [← Operation.pulls_effect] at hpulls
  rw [step_of_instruction? hi, ← Operation.storesOperand_effect, ← hmode]
  exact Effect.registers_change hpulls

/-- Only a shift has the accumulator as its operand, so other operations leave in A what they
compute. -/
theorem registers_step_of_notMem_shifts (hi : m.instruction? = some i)
    (hpulls : i.operation.pulls = 0) (hshift : i.operation ∉ Operation.shifts) :
    m.step.2.registers = i.operation.effect.compute (m.operandValue i) m.registers := by
  have hmode : (i.mode == .accumulator) = false :=
    beq_eq_false_iff_ne.mpr fun hmode =>
      hshift (mem_shifts_of_accumulator (instruction?_eq_some_iff.mp hi).1 hmode)
  rw [registers_step hi hpulls, hmode, Bool.and_false]
  rfl

theorem resultValue_eq (hi : m.instruction? = some i) (hstores : i.operation.storesOperand) :
    m.resultValue i = (i.operation.effect.transform (m.operandValue i) m.registers).1 := by
  have hplace : (m.operand i.mode).isPlace :=
    isPlace_of_storesOperand (instruction?_eq_some_iff.mp hi).1 hstores
  rw [← Operation.storesOperand_effect] at hstores
  rw [resultValue, step_of_instruction? hi]
  exact Effect.value_change hstores hplace

/-- Two machines that execute the same operation on equal operands, with equal registers. -/
theorem step_uniform {s t : Machine} {i j : Instruction}
    (hi : decode (s.memory.read s.pc) = some i) (hj : decode (t.memory.read t.pc) = some j)
    (hoperation : i.operation = j.operation)
    (hplain : i.operation ∉ [.brk, .pla, .plp, .rts, .rti])
    (hregisters : s.registers = t.registers)
    (hvalue : i.operation.effect.readsOperand → s.operandValue i = t.operandValue j) :
    (∃ cost, s.step.1 = .ok cost) ∧ (∃ cost, t.step.1 = .ok cost) ∧
      s.step.2.registers.x = t.step.2.registers.x ∧
      s.step.2.registers.y = t.step.2.registers.y ∧
      s.step.2.registers.sp = t.step.2.registers.sp ∧
      s.step.2.registers.status = t.step.2.registers.status ∧
      ((i.mode = .accumulator ↔ j.mode = .accumulator) →
        s.step.2.registers.a = t.step.2.registers.a) ∧
      (i.operation.storesOperand → s.resultValue i = t.resultValue j) := by
  have hbrk : i.operation ≠ .brk := fun h => hplain (by rw [h]; decide)
  have hpulls : i.operation.pulls = 0 := by
    revert hplain
    cases i.operation <;> decide
  have hsi : s.instruction? = some i := instruction?_eq_some_iff.mpr ⟨hi, hbrk⟩
  have htj : t.instruction? = some j := instruction?_eq_some_iff.mpr ⟨hj, hoperation ▸ hbrk⟩
  have hcompute : i.operation.effect.compute (s.operandValue i) t.registers =
      i.operation.effect.compute (t.operandValue j) t.registers := Effect.compute_congr hvalue
  have hleft := registers_step hsi hpulls
  have hright := registers_step htj (hoperation ▸ hpulls)
  rw [hregisters, hcompute] at hleft
  rw [← hoperation] at hright
  rw [hleft, hright]
  refine ⟨⟨_, step_fst_of_instruction? hsi rfl⟩, ⟨_, step_fst_of_instruction? htj rfl⟩,
    rfl, rfl, rfl, rfl, fun hmodes => ?_, fun hstores => ?_⟩
  · have hbool : (i.mode == .accumulator) = (j.mode == .accumulator) := by
      rw [Bool.eq_iff_iff, beq_iff_eq, beq_iff_eq, hmodes]
    dsimp only
    rw [hbool]
    split
    · next hboth =>
        rw [Bool.and_eq_true] at hboth
        exact Effect.transform_fst_congr (Operation.storesOperand_effect _ ▸ hboth.1) hvalue
    · rfl
  · rw [resultValue_eq hsi hstores, resultValue_eq htj (hoperation ▸ hstores), hregisters,
      ← hoperation]
    exact Effect.transform_fst_congr (Operation.storesOperand_effect _ ▸ hstores) hvalue

/-- A shift of the accumulator and one of a cell that holds the same byte. -/
theorem step_uniform_asl :
    let s := ({ registers := { a := 0x81 } } : Machine).load 0 [0x0A]
    let t := ({ registers := { a := 0x81 } } : Machine).load 0 [0x06, 0x02, 0x81]
    s.operandValue ⟨0x0A, .asl, .accumulator, 2⟩ = t.operandValue ⟨0x06, .asl, .zeroPage, 5⟩ ∧
      s.step.2.registers.status = t.step.2.registers.status ∧
      s.step.2.registers.a = t.step.2.memory.read 2 := by
  intro s t
  have hs : decode (s.memory.read s.pc) = some ⟨0x0A, .asl, .accumulator, 2⟩ :=
    (decode_eq_lookup _).trans (by decide +kernel)
  have ht : decode (t.memory.read t.pc) = some ⟨0x06, .asl, .zeroPage, 5⟩ :=
    (decode_eq_lookup _).trans (by decide +kernel)
  have hleft : s.operandValue ⟨0x0A, .asl, .accumulator, 2⟩ = 0x81 := by decide +kernel
  have hright : t.operandValue ⟨0x06, .asl, .zeroPage, 5⟩ = 0x81 := by decide +kernel
  have hvalue := hleft.trans hright.symm
  have hregisters : s.registers = { a := 0x81 } := rfl
  obtain ⟨-, -, -, -, -, hstatus, -, hresult⟩ :=
    step_uniform hs ht rfl (by decide) hregisters fun _ => hvalue
  have hacc : s.operand .accumulator = .accumulator := rfl
  have hcell : t.operand .zeroPage = .memory 2 false := by decide +kernel
  have hbyte := hresult rfl
  rw [resultValue, resultValue, hacc, hcell] at hbyte
  exact ⟨hvalue, hstatus, hbyte⟩

end Machine

end Core6502
