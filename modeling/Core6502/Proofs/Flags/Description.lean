import Core6502.Proofs.ModeIndependence
import Mathlib.Data.UInt

/-!
# What Z and N say

Z and N describe the byte that an operation leaves in its destination, not one on the way there;
after a comparison they describe the difference. A byte that is zero has a clear bit 7, so the two
flags exclude each other until an instruction copies them from elsewhere.
-/

namespace Core6502

namespace Status

/-- Z and N are not both set. -/
def Exclusive (s : Status) : Prop := ¬ (s.zero = true ∧ s.negative = true)

end Status

namespace Registers

variable {r : Registers} {v : UInt8}

/-- Z says whether a byte is zero, and N is its bit 7. -/
structure Describes (r : Registers) (v : UInt8) : Prop where
  zero_iff : r.status.zero = true ↔ v = 0
  negative_eq : r.status.negative = Byte.bit v 7

theorem describes_describe (r : Registers) (v : UInt8) : (r.describe v).Describes v :=
  ⟨beq_iff_eq, rfl⟩

theorem describes_compare (reg v : UInt8) (r : Registers) :
    (r.compare reg v).Describes (reg - v) := describes_describe _ _

theorem Describes.exclusive (h : r.Describes v) : r.status.Exclusive := by
  rintro ⟨hzero, hnegative⟩
  have hbit : Byte.bit 0 7 = true := by
    rw [← h.zero_iff.mp hzero, ← h.negative_eq]
    exact hnegative
  exact absurd hbit (by decide)

end Registers

/-- A place in which an operation leaves its result. -/
inductive Destination where
  | a | x | y
  /-- The operand, in memory or in A. -/
  | operand
deriving DecidableEq

/-- The byte in a destination, where `v` is the one in the operand. -/
def Destination.content (d : Destination) (r : Registers) (v : UInt8) : UInt8 :=
  match d with
  | a => r.a
  | x => r.x
  | y => r.y
  | operand => v

namespace Operation

/-- Where an operation leaves its result, if Z and N are about it. -/
def destinations : Operation → List Destination
  | lda | txa | tya | and | ora | eor | adc | sbc | pla | slo | rla | sre | rra | isc => [.a]
  | ldx | tax | tsx | inx | dex => [.x]
  | ldy | tay | iny | dey => [.y]
  | lax => [.a, .x]
  | inc | dec | asl | lsr | rol | ror => [.operand]
  | _ => []

/-- The register that an operation compares. -/
def compared? : Operation → Option (Registers → UInt8)
  | cmp | dcp => some Registers.a
  | cpx => some Registers.x
  | cpy => some Registers.y
  | _ => none

/-- The byte with which a comparison compares, from the one in the operand. -/
def comparand (operation : Operation) (v : UInt8) : UInt8 := if operation = dcp then v - 1 else v

variable {operation : Operation} {d : Destination} {reg : Registers → UInt8}

theorem describes_compute (h : d ∈ operation.destinations) (hpla : operation ≠ .pla) (v : UInt8)
    (r : Registers) :
    (operation.effect.compute v r).Describes
      (d.content (operation.effect.compute v r) (operation.effect.transform v r).1) := by
  cases operation with
  | pla => exact absurd rfl hpla
  | lda | txa | tya | and | ora | eor | adc | sbc | slo | rla | sre | rra | isc | ldx | tax | tsx
  | inx | dex | ldy | tay | iny | dey | inc | dec | asl | lsr | rol | ror =>
      obtain rfl := List.mem_singleton.mp h
      exact Registers.describes_describe _ _
  | lax =>
      rcases List.mem_pair.mp h with rfl | rfl <;> exact Registers.describes_describe _ _
  | _ => cases h

theorem compute_of_compared? (h : operation.compared? = some reg) (v : UInt8) (r : Registers) :
    operation.effect.compute v r = r.compare (reg r) (operation.comparand v) := by
  cases operation <;> cases h <;> rfl

theorem pulls_eq_zero_of_compared? (h : operation.compared? = some reg) : operation.pulls = 0 := by
  cases operation <;> first | rfl | cases h

theorem pulls_eq_zero_of_mem_destinations (h : d ∈ operation.destinations)
    (hpla : operation ≠ .pla) : operation.pulls = 0 := by
  cases operation with
  | pla => exact absurd rfl hpla
  | _ => first | rfl | cases h

theorem notMem_shifts_of_compared? (h : operation.compared? = some reg) :
    operation ∉ shifts := by
  cases operation <;> first | decide | cases h

theorem ne_brk_of_mem_destinations (h : d ∈ operation.destinations) : operation ≠ .brk := by
  rintro rfl
  cases h

theorem ne_brk_of_compared? (h : operation.compared? = some reg) : operation ≠ .brk := by
  rintro rfl
  cases h

theorem storesOperand_of_operand (h : .operand ∈ operation.destinations) :
    operation.storesOperand := by
  cases operation <;> first | rfl | exact absurd h (by decide)

theorem notMem_shifts_of_register (h : d ∈ operation.destinations) (hd : d ≠ .operand) :
    operation ∉ shifts := by
  intro hshift
  rcases mem_shifts_iff.mp hshift with rfl | rfl | rfl | rfl <;> exact hd (List.mem_singleton.mp h)

/-- An operation that sets Z and N either leaves a result, compares, or copies them. -/
theorem sets_zero_cases (h : operation ∈ Place.zero.owners)
    (hcopies : operation ∉ [.bit, .plp, .rti]) :
    (∃ d, d ∈ operation.destinations) ∨ ∃ reg, operation.compared? = some reg := by
  cases operation with
  | bit | plp | rti => exact absurd (by decide) hcopies
  | cmp | cpx | cpy | dcp => exact .inr ⟨_, rfl⟩
  | _ => first | exact .inl ⟨_, List.mem_cons_self ..⟩ | exact absurd h (by decide)

end Operation

namespace Machine

variable {m : Machine} {i : Instruction} {d : Destination}

/-- The byte that a step leaves in a destination. -/
def result (m : Machine) (i : Instruction) (d : Destination) : UInt8 :=
  d.content m.step.2.registers (m.resultValue i)

theorem result_eq (hi : m.instruction? = some i) (hpla : i.operation ≠ .pla)
    (h : d ∈ i.operation.destinations) :
    m.result i d = d.content (i.operation.effect.compute (m.operandValue i) m.registers)
      (i.operation.effect.transform (m.operandValue i) m.registers).1 := by
  by_cases hd : d = .operand
  · subst hd
    exact resultValue_eq hi (Operation.storesOperand_of_operand h)
  · rw [result, registers_step_of_notMem_shifts hi
      (Operation.pulls_eq_zero_of_mem_destinations h hpla)
      (Operation.notMem_shifts_of_register h hd)]
    cases d with
    | operand => exact absurd rfl hd
    | a | x | y => rfl

theorem describes_step (hi : m.instruction? = some i) (h : d ∈ i.operation.destinations) :
    m.step.2.registers.Describes (m.result i d) := by
  by_cases hpla : i.operation = .pla
  · have hd : d = .a := by
      rw [hpla] at h
      exact List.mem_singleton.mp h
    have hstep : m.step.2.registers = Registers.setA
        (m.memory.read (stackCell (m.registers.sp + 1)))
        { m.registers with sp := m.registers.sp + 1 } := by
      rw [step_of_instruction? hi, change, hpla]
      rfl
    rw [hd, result, Destination.content, hstep]
    exact Registers.describes_describe _ _
  · have hstep := registers_step hi (Operation.pulls_eq_zero_of_mem_destinations h hpla)
    obtain ⟨hzero, hnegative⟩ :=
      Operation.describes_compute h hpla (m.operandValue i) m.registers
    rw [result_eq hi hpla h, hstep]
    exact ⟨hzero, hnegative⟩

theorem registers_step_of_compared? {reg : Registers → UInt8} (hi : m.instruction? = some i)
    (h : i.operation.compared? = some reg) :
    m.step.2.registers = m.registers.compare (reg m.registers)
      (i.operation.comparand (m.operandValue i)) := by
  rw [registers_step_of_notMem_shifts hi (Operation.pulls_eq_zero_of_compared? h)
    (Operation.notMem_shifts_of_compared? h), Operation.compute_of_compared? h]

theorem describes_step_of_compared? {reg : Registers → UInt8} (hi : m.instruction? = some i)
    (h : i.operation.compared? = some reg) :
    m.step.2.registers.Describes
      (reg m.registers - i.operation.comparand (m.operandValue i)) := by
  rw [registers_step_of_compared? hi h]
  exact Registers.describes_compare _ _ _

theorem exclusive_step (h : m.registers.status.Exclusive)
    (hcopies : ∀ operation ∈ m.operation?, operation ∉ [.bit, .plp, .rti]) :
    m.step.2.registers.status.Exclusive := by
  by_cases hsets : ∃ operation ∈ m.operation?, operation ∈ Place.zero.owners
  · obtain ⟨operation, hoperation, hown⟩ := hsets
    obtain ⟨i, hi, rfl⟩ := operation?_eq_some_iff.mp hoperation
    obtain ⟨d, hd⟩ | ⟨reg, hreg⟩ := Operation.sets_zero_cases hown (hcopies _ hoperation)
    · exact (describes_step hi hd).exclusive
    · exact (describes_step_of_compared? hi hreg).exclusive
  · have hkeeps : ∀ operation ∈ m.operation?, operation ∉ Place.zero.owners :=
      fun operation hoperation hown => hsets ⟨operation, hoperation, hown⟩
    have hzero : Place.zero.read m.step.2.registers = Place.zero.read m.registers :=
      read_step_of_notMem_owners (by decide) hkeeps
    have hnegative : Place.negative.read m.step.2.registers = Place.negative.read m.registers :=
      read_step_of_notMem_owners (by decide) hkeeps
    rintro ⟨hz, hn⟩
    exact h ⟨hzero.symm.trans hz, hnegative.symm.trans hn⟩

theorem exclusive_after {n : Nat} (h : m.registers.status.Exclusive)
    (hcopies : ∀ k < n, ∀ operation ∈ (m.after k).operation?, operation ∉ [.bit, .plp, .rti]) :
    (m.after n).registers.status.Exclusive := by
  induction n with
  | zero => exact h
  | succ n ih =>
      rw [after_succ]
      exact exclusive_step (ih fun k hk => hcopies k (Nat.lt_succ_of_lt hk))
        (hcopies n (Nat.lt_succ_self n))

/-- After a step Z and N describe the byte in every destination of the operation, and after a
comparison the difference. In a run they exclude each other if they do at the start, as long as
nothing copies them from a byte. -/
theorem flags_describe_result (m : Machine) :
    (∀ i, decode (m.memory.read m.pc) = some i →
      (∀ d ∈ i.operation.destinations,
        (∃ cost, m.step.1 = .ok cost) ∧ m.step.2.registers.Describes (m.result i d)) ∧
      ∀ reg ∈ i.operation.compared?,
        let v := i.operation.comparand (m.operandValue i)
        (∃ cost, m.step.1 = .ok cost) ∧
          (m.step.2.registers.status.zero = true ↔ reg m.registers = v) ∧
          m.step.2.registers.status.negative = Byte.bit (reg m.registers - v) 7) ∧
    ∀ n, m.registers.status.Exclusive →
      (∀ k < n, ∀ operation ∈ (m.after k).operation?, operation ∉ [.bit, .plp, .rti]) →
        ∀ k ≤ n, (m.after k).registers.status.Exclusive := by
  refine ⟨fun i hdecode => ⟨fun d hd => ?_, fun reg hreg => ?_⟩, fun n h hcopies k hk => ?_⟩
  · have hi : m.instruction? = some i :=
      instruction?_eq_some_iff.mpr ⟨hdecode, Operation.ne_brk_of_mem_destinations hd⟩
    exact ⟨⟨_, step_fst_of_instruction? hi rfl⟩, describes_step hi hd⟩
  · have hi : m.instruction? = some i :=
      instruction?_eq_some_iff.mpr ⟨hdecode, Operation.ne_brk_of_compared? hreg⟩
    obtain ⟨hzero, hnegative⟩ := describes_step_of_compared? hi hreg
    exact ⟨⟨_, step_fst_of_instruction? hi rfl⟩, hzero.trans sub_eq_zero, hnegative⟩
  · exact exclusive_after h fun j hj => hcopies j (Nat.lt_of_lt_of_le hj hk)

/-- A shift whose address wraps to its own opcode, and then a comparison of A with the opcode of the
comparison, counted down. -/
theorem flags_describe_result_overwriting :
    let m := ({ registers := { a := 0xC6, x := 1 } } : Machine).load 0
      [0x5E, 0xFF, 0xFF, 0xC7, 0x03]
    m.step.2.registers.Describes 0x2F ∧ (m.after 1).step.2.registers.status.zero = true ∧
      m.registers.status.Exclusive ∧ (m.after 2).registers.status.Exclusive := by
  intro m
  have hlsr : m.instruction? = some ⟨0x5E, .lsr, .absoluteX, 7⟩ :=
    instruction?_of_lookup (by decide +kernel) (by decide)
  have hone : m.after 1 = m.apply (m.change ⟨0x5E, .lsr, .absoluteX, 7⟩) :=
    after_succ_of_instruction? hlsr
  have hdcp : (m.after 1).instruction? = some ⟨0xC7, .dcp, .zeroPage, 5⟩ := by
    rw [hone]
    exact instruction?_of_lookup (by decide +kernel) (by decide)
  have hresult : m.result ⟨0x5E, .lsr, .absoluteX, 7⟩ .operand = 0x2F := by
    rw [result_eq hlsr (by decide) (by decide)]
    decide +kernel
  have hcomparand : Operation.comparand .dcp
      ((m.after 1).operandValue ⟨0xC7, .dcp, .zeroPage, 5⟩) = (m.after 1).registers.a := by
    rw [hone]
    decide +kernel
  have hexclusive : m.registers.status.Exclusive := by
    rintro ⟨hzero, -⟩
    cases hzero
  have hcopies : ∀ k < 2, ∀ operation ∈ (m.after k).operation?, operation ∉ [.bit, .plp, .rti] := by
    intro k hk operation hoperation
    obtain rfl | rfl : k = 0 ∨ k = 1 := by omega
    · obtain rfl := Option.some.inj ((operation?_of_instruction? hlsr).symm.trans hoperation)
      decide
    · obtain rfl := Option.some.inj ((operation?_of_instruction? hdcp).symm.trans hoperation)
      decide
  obtain ⟨hstep, hrun⟩ := flags_describe_result m
  have hdescribes := ((hstep _ (instruction?_eq_some_iff.mp hlsr).1).1 .operand (by decide)).2
  rw [hresult] at hdescribes
  obtain ⟨hnext, -⟩ := flags_describe_result (m.after 1)
  have hcompared := (hnext _ (instruction?_eq_some_iff.mp hdcp).1).2 Registers.a rfl
  exact ⟨hdescribes, hcompared.2.1.mpr hcomparand.symm, hexclusive,
    hrun 2 hexclusive hcopies 2 (Nat.le_refl 2)⟩

end Machine

end Core6502
