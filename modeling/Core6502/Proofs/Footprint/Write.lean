import Core6502.Proofs.Execution
import Core6502.Proofs.Stack.Cells

/-!
# What an instruction may write

Each operation owns a few places: a cell of memory or some cells of the stack page, a register,
some flags. A step leaves every other place as it was. What an effect does to memory and to the
stack pointer follows from its kind; what it does to a register or flag, from the one
computation in it.
-/

namespace Core6502

namespace Operation

/-- Whether a byte is put back into the operand: stores and read-modify-write operations. -/
def storesOperand : Operation → Bool
  | sta | stx | sty | sax | inc | dec | asl | lsr | rol | ror => true
  | slo | rla | sre | rra | dcp | isc => true
  | _ => false

def pushes : Operation → Nat
  | pha | php => 1
  | jsr => 2
  | _ => 0

def pulls : Operation → Nat
  | pla | plp => 1
  | rts => 2
  | rti => 3
  | _ => 0

def stackPointer (operation : Operation) (r : Registers) : UInt8 :=
  if operation = txs then r.x
  else r.sp - UInt8.ofNat operation.pushes + UInt8.ofNat operation.pulls

/-- The shifts and rotates that also come with the accumulator as their operand. -/
def shifts : List Operation := [asl, lsr, rol, ror]

theorem mem_shifts_iff {operation : Operation} : operation ∈ shifts ↔
    operation = asl ∨ operation = lsr ∨ operation = rol ∨ operation = ror := by
  simp [shifts]

end Operation

/-! ## Effects -/

namespace Effect

def storesOperand : Effect → Bool
  | write _ | modify _ => true
  | _ => false

def pushes : Effect → Nat
  | push _ => 1
  | call => 2
  | _ => 0

def pulls : Effect → Nat
  | pull _ => 1
  | returnFromCall => 2
  | returnFromInterrupt => 3
  | _ => 0

/-- The computation in the effect leaves `f` of the registers as it is. -/
def Keeps {α : Type} (f : Registers → α) : Effect → Prop
  | update next => ∀ r, f (next r) = f r
  | read use | pull use => ∀ v r, f (use v r) = f r
  | modify replace => ∀ v r, f (replace v r).2 = f r
  | returnFromInterrupt => ∀ v r, f (r.pullStatus v) = f r
  | _ => True

variable {α : Type} {f : Registers → α} {effect : Effect} {operand : Operand} {m : Memory}
  {through : Change}

theorem stores_store (v : UInt8) (r : Registers) (h : through.stores = []) :
    (store operand v r through).stores.map Prod.fst = operand.address?.toList := by
  cases operand <;> simp [store, Operand.address?, h]

theorem registers_store (v : UInt8) (r : Registers)
    (hoperand : operand = .accumulator → f { r with a := v } = f r) :
    f (store operand v r through).registers = f r := by
  cases operand with
  | accumulator => exact hoperand rfl
  | _ => rfl

theorem stores_branch (taken : Status → Bool) :
    ((branch taken).change operand m through).stores = through.stores := by
  simp only [change]
  split
  · split <;> rfl
  · rfl

theorem registers_branch (taken : Status → Bool) :
    ((branch taken).change operand m through).registers = through.registers := by
  simp only [change]
  split
  · split <;> rfl
  · rfl

theorem stores_change (h : through.stores = []) :
    (effect.change operand m through).stores.map Prod.fst =
      (if effect.storesOperand then operand.address?.toList else []) ++
        Machine.cellsBelow through.registers.sp effect.pushes := by
  cases effect with
  | write value => exact (stores_store _ _ h).trans (List.append_nil _).symm
  | modify replace => exact (stores_store _ _ h).trans (List.append_nil _).symm
  | branch taken => rw [stores_branch, h]; rfl
  | push | call => rfl
  | _ => exact congrArg (List.map Prod.fst) h

theorem Keeps.change (h : effect.Keeps f) (hsp : ∀ r sp, f { r with sp := sp } = f r)
    (ha : effect.storesOperand → operand = .accumulator → ∀ v r, f { r with a := v } = f r) :
    f (effect.change operand m through).registers = f through.registers := by
  cases effect with
  | skip | jump => rfl
  | push | call | returnFromCall => exact hsp _ _
  | update next => exact h _
  | read use => exact h _ _
  | pull use => exact (h _ _).trans (hsp _ _)
  | returnFromInterrupt => exact (h _ _).trans (hsp _ _)
  | write value => exact registers_store _ _ fun hacc => ha rfl hacc _ _
  | modify replace => exact (registers_store _ _ fun hacc => ha rfl hacc _ _).trans (h _ _)
  | branch taken => rw [registers_branch]

theorem sp_change (h : effect.Keeps Registers.sp) :
    (effect.change operand m through).registers.sp =
      through.registers.sp - UInt8.ofNat effect.pushes + UInt8.ofNat effect.pulls := by
  have hstay (sp : UInt8) : sp - UInt8.ofNat 0 + UInt8.ofNat 0 = sp := by simp
  have hpull (sp : UInt8) (n : Nat) : sp - UInt8.ofNat 0 + UInt8.ofNat n = sp + UInt8.ofNat n := by
    simp
  have hpush (sp : UInt8) (n : Nat) : sp - UInt8.ofNat n + UInt8.ofNat 0 = sp - UInt8.ofNat n := by
    simp
  cases effect with
  | skip | jump => exact (hstay _).symm
  | push | call => exact (hpush _ _).symm
  | returnFromCall => exact (hpull _ _).symm
  | pull use => exact (h _ _).trans (hpull _ _).symm
  | returnFromInterrupt => exact (h _ _).trans (hpull _ _).symm
  | update next => exact (h _).trans (hstay _).symm
  | read use => exact (h _ _).trans (hstay _).symm
  | write value =>
      exact (registers_store (f := Registers.sp) _ _ fun _ => rfl).trans (hstay _).symm
  | modify replace =>
      have hstore (v : UInt8) (r : Registers) :
          (store operand v r through).registers.sp = r.sp :=
        registers_store (f := Registers.sp) v r fun _ => rfl
      exact ((hstore _ _).trans (h _ _)).trans (hstay _).symm
  | branch taken => rw [registers_branch]; exact (hstay _).symm

end Effect

theorem Operation.storesOperand_effect (operation : Operation) :
    operation.effect.storesOperand = operation.storesOperand := by
  cases operation <;> rfl

theorem Operation.pushes_effect (operation : Operation) :
    operation.effect.pushes = operation.pushes := by
  cases operation <;> rfl

theorem Operation.pulls_effect (operation : Operation) :
    operation.effect.pulls = operation.pulls := by
  cases operation <;> rfl

theorem Operation.keeps_sp {operation : Operation} (h : operation ≠ .txs) :
    operation.effect.Keeps Registers.sp := by
  cases operation with
  | txs => exact absurd rfl h
  | _ => first | exact trivial | exact fun _ => rfl | exact fun _ _ => rfl

/-! ## Registers and flags -/

/-- A register other than the stack pointer, or a flag. -/
inductive Place where
  | a | x | y
  | carry | zero | interruptDisable | decimal | breakMark | unused | overflow | negative
deriving DecidableEq

namespace Place

def Content : Place → Type
  | a | x | y => UInt8
  | _ => Bool

def read : (place : Place) → Registers → place.Content
  | a, r => r.a
  | x, r => r.x
  | y, r => r.y
  | carry, r => r.status.carry
  | zero, r => r.status.zero
  | interruptDisable, r => r.status.interruptDisable
  | decimal, r => r.status.decimal
  | breakMark, r => r.status.breakMark
  | unused, r => r.status.unused
  | overflow, r => r.status.overflow
  | negative, r => r.status.negative

/-- The operations that may change a place, whatever their addressing mode. -/
def owners : Place → List Operation
  | a => [.lda, .txa, .tya, .and, .ora, .eor, .adc, .sbc, .pla, .lax, .slo, .rla, .sre, .rra,
      .isc]
  | x => [.ldx, .tax, .tsx, .inx, .dex, .lax]
  | y => [.ldy, .tay, .iny, .dey]
  | carry => [.adc, .sbc, .cmp, .cpx, .cpy, .asl, .lsr, .rol, .ror, .clc, .sec, .plp, .rti,
    .slo, .rla, .sre, .rra, .dcp, .isc]
  | overflow => [.adc, .sbc, .bit, .clv, .plp, .rti, .rra, .isc]
  | interruptDisable => [.cli, .sei, .plp, .rti]
  | decimal => [.cld, .sed, .plp, .rti]
  | zero | negative => [.lda, .ldx, .ldy, .lax, .tax, .tay, .txa, .tya, .tsx, .and, .ora, .eor,
    .adc, .sbc, .cmp, .cpx, .cpy, .bit, .inc, .dec, .inx, .iny, .dex, .dey, .asl, .lsr, .rol,
    .ror, .pla, .plp, .rti, .slo, .rla, .sre, .rra, .dcp, .isc]
  | breakMark | unused => []

end Place

theorem Operation.keeps_read {operation : Operation} {place : Place}
    (h : operation ∉ place.owners) : operation.effect.Keeps place.read := by
  -- Operations without a computation keep every place, so only the others are taken place by
  -- place.
  cases operation with
  | sta | stx | sty | sax | pha | php | jmp | jsr | rts | nop | ign | skb | brk
  | bpl | bmi | bvc | bvs | bcc | bcs | bne | beq => exact trivial
  | _ =>
      cases place <;>
        first
        | exact fun _ => rfl
        | exact fun _ _ => rfl
        | exact absurd (by decide) h

/-! ## The footprint of a step -/

theorem mem_shifts_of_accumulator {opcode : UInt8} {i : Instruction}
    (hi : decode opcode = some i) (hmode : i.mode = .accumulator) :
    i.operation ∈ Operation.shifts := by
  have hall : ∀ i ∈ Isa.instructions, i.mode = .accumulator → i.operation ∈ Operation.shifts := by
    decide +kernel
  exact hall i (mem_instructions_of_decode hi) hmode

/-- An instruction may change the places that its operation owns, and one with the accumulator
as its operand may change the accumulator. -/
def Instruction.MayChange (i : Instruction) (place : Place) : Prop :=
  i.operation ∈ place.owners ∨
    place = .a ∧ i.mode = .accumulator ∧ i.operation ∈ Operation.shifts

namespace Machine

variable {m : Machine} {i : Instruction}

/-- The address of the operand in memory that an instruction at the program counter has. -/
def effectiveAddress? (m : Machine) (i : Instruction) : Option UInt16 :=
  (m.operand i.mode).address?

/-- The cells that an instruction at the program counter writes: its operand in memory, or the
next free cells of the stack page. -/
def writeFootprint (m : Machine) (i : Instruction) : List UInt16 :=
  (if i.operation.storesOperand then (m.effectiveAddress? i).toList else []) ++
    cellsBelow m.registers.sp i.operation.pushes

theorem stores_change (m : Machine) (i : Instruction) :
    (m.change i).stores.map Prod.fst = m.writeFootprint i := by
  rw [change, outcome, Effect.stores_change rfl, Operation.storesOperand_effect,
    Operation.pushes_effect]
  rfl

theorem read_apply_change {address : UInt16} (h : address ∉ m.writeFootprint i) :
    (m.apply (m.change i)).memory.read address = m.memory.read address := by
  rw [← stores_change] at h
  exact Memory.read_writeAll_of_notMem h

theorem sp_change (m : Machine) (i : Instruction) :
    (m.change i).registers.sp = i.operation.stackPointer m.registers := by
  by_cases htxs : i.operation = .txs
  · rw [Operation.stackPointer, if_pos htxs, change, htxs]
    rfl
  · rw [Operation.stackPointer, if_neg htxs, change, outcome,
      Effect.sp_change (Operation.keeps_sp htxs), Operation.pushes_effect,
      Operation.pulls_effect]

theorem accumulator_of_operand {mode : AddressingMode} (h : m.operand mode = .accumulator) :
    mode = .accumulator := by
  cases mode <;> first | rfl | cases h

theorem read_change {opcode : UInt8} {place : Place} (hi : decode opcode = some i)
    (h : ¬ i.MayChange place) :
    place.read (m.change i).registers = place.read m.registers := by
  rw [Instruction.MayChange, not_or] at h
  have hkeeps := Operation.keeps_read h.1
  have hsp (r : Registers) (sp : UInt8) : place.read { r with sp := sp } = place.read r := by
    cases place <;> rfl
  refine hkeeps.change hsp fun _ hacc v r => ?_
  cases place with
  | a =>
      have hmode := accumulator_of_operand hacc
      exact absurd ⟨rfl, hmode, mem_shifts_of_accumulator hi hmode⟩ h.2
  | _ => rfl

/-- A register other than A, or a flag, that the operation at the program counter does not own
stays, whether the step succeeds or not. -/
theorem read_step_of_notMem_owners {place : Place} (hplace : place ≠ .a)
    (h : ∀ operation ∈ m.operation?, operation ∉ place.owners) :
    place.read m.step.2.registers = place.read m.registers := by
  cases hi : m.instruction? with
  | none => rw [step_of_instruction?_eq_none hi]
  | some i =>
      have hkeeps : ¬ i.MayChange place := by
        rintro (hown | ⟨hacc, -⟩)
        · exact h i.operation (operation?_of_instruction? hi) hown
        · exact hplace hacc
      rw [step_of_instruction? hi]
      exact read_change (instruction?_eq_some_iff.mp hi).1 hkeeps

/-- A step that succeeds leaves every cell outside the write footprint as it was, every register
and flag that the instruction does not own, and moves the stack pointer by what is pushed and
pulled. -/
theorem step_write_footprint {cost : Nat} (hi : decode (m.memory.read m.pc) = some i)
    (hstep : m.step.1 = .ok cost) :
    (∀ address ∉ m.writeFootprint i,
        m.step.2.memory.read address = m.memory.read address) ∧
      (∀ place : Place, ¬ i.MayChange place →
        place.read m.step.2.registers = place.read m.registers) ∧
      m.step.2.registers.sp = i.operation.stackPointer m.registers := by
  rw [step_of_instruction? (instruction?_of_step_ok hi hstep)]
  exact ⟨fun _ h => read_apply_change h, fun _ h => read_change hi h, sp_change m i⟩

/-- The operand of the instruction is its own second byte. -/
theorem step_write_footprint_slo :
    let m := ({ registers := { a := 0x10, sp := 0xFD } } : Machine).load 0 [0x07, 0x01]
    decode (m.memory.read m.pc) = some ⟨0x07, .slo, .zeroPage, 5⟩ ∧ m.step.1 = .ok 5 ∧
      (∀ address, address ≠ 1 → m.step.2.memory.read address = m.memory.read address) ∧
      m.step.2.registers.x = 0 ∧ m.step.2.registers.sp = 0xFD := by
  intro m
  have hi : decode (m.memory.read m.pc) = some ⟨0x07, .slo, .zeroPage, 5⟩ :=
    (decode_eq_lookup _).trans (by decide +kernel)
  have hstep : m.step.1 = .ok 5 :=
    step_fst_of_instruction? (instruction?_eq_some_iff.mpr ⟨hi, by decide⟩) (by decide +kernel)
  obtain ⟨hmemory, hplace, hsp⟩ := step_write_footprint hi hstep
  have hcells : m.writeFootprint ⟨0x07, .slo, .zeroPage, 5⟩ = [1] := by decide +kernel
  refine ⟨hi, hstep, fun address h => hmemory address ?_, hplace .x ?_,
    hsp.trans (by decide +kernel)⟩
  · rw [hcells]
    exact fun hmem => h (List.mem_singleton.mp hmem)
  · rintro (hown | ⟨hplace, -⟩)
    · exact absurd hown (by decide)
    · cases hplace

end Machine

end Core6502
