import Core6502.Proofs.Flags.Consulted
import Core6502.Proofs.ModeIndependence

/-!
# Flags without influence

Two pairs of flags of P only exist for those who look at P. Bits 4 and 5 are consulted by nothing:
a push sets them in its copy, a pull leaves them as they are, and the live ones never change. The
flags I and D are consulted by a push of P alone; arithmetic is binary whatever D says.
-/

namespace Core6502

namespace Status

/-- Bits 4 and 5 of P. -/
def marks (s : Status) : Bool × Bool := (s.breakMark, s.unused)

/-- The flags that elsewhere choose how interrupts and arithmetic work: I and D. -/
def modes : Status := { interruptDisable := true, decimal := true }

end Status

theorem Operation.ignores_pushed (operation : Operation) : operation.Ignores Status.pushed := by
  cases operation <;> rfl

theorem Operation.ignores_modes {operation : Operation} (h : operation ≠ .php) :
    operation.Ignores Status.modes := by
  cases operation with
  | php => exact absurd rfl h
  | _ => rfl

/-- What can happen to a machine that is on, between steps and by them. -/
inductive Event where
  | step
  | reset
  | load (address : UInt16) (bytes : List UInt8)
  | write (address : UInt16) (v : UInt8)

namespace Machine

def occur (m : Machine) : Event → Machine
  | .step => m.step.2
  | .reset => m.reset
  | .load address bytes => m.load address bytes
  | .write address v => m.poke address v

variable {m s t : Machine}

/-! ## Bits 4 and 5 -/

theorem marks_step (m : Machine) : m.step.2.registers.status.marks = m.registers.status.marks := by
  have hbreak : Place.breakMark.read m.step.2.registers = Place.breakMark.read m.registers :=
    read_step_of_notMem_owners (by decide) fun _ _ => List.not_mem_nil
  have hunused : Place.unused.read m.step.2.registers = Place.unused.read m.registers :=
    read_step_of_notMem_owners (by decide) fun _ _ => List.not_mem_nil
  exact Prod.ext hbreak hunused

theorem marks_after (m : Machine) (n : Nat) :
    (m.after n).registers.status.marks = m.registers.status.marks := by
  induction n with
  | zero => rfl
  | succ n ih => rw [after_succ, marks_step, ih]

theorem marks_occur (m : Machine) (event : Event) :
    (m.occur event).registers.status.marks = m.registers.status.marks := by
  cases event with
  | step => exact marks_step m
  | reset | load | write => rfl

theorem marks_foldl_occur (m : Machine) (events : List Event) :
    (events.foldl occur m).registers.status.marks = m.registers.status.marks := by
  induction events generalizing m with
  | nil => rfl
  | cons event events ih => rw [List.foldl_cons, ih, marks_occur]

/-- Machines that are equal but for bits 4 and 5 of P answer alike and stay equal but for them,
while these bits stay what they are: after power-on, clear and set. -/
theorem marks_inert :
    (∀ s t : Machine, s.clear Status.pushed = t.clear Status.pushed → ∀ n,
      s.answers n = t.answers n ∧
        (s.after n).clear Status.pushed = (t.after n).clear Status.pushed) ∧
    (∀ (m : Machine) (n : Nat),
      (m.after n).registers.status.marks = m.registers.status.marks) ∧
    ∀ (m : Machine) (events : List Event),
      (events.foldl occur m.powerOn).registers.status.marks = (false, true) := by
  refine ⟨fun s t h n => ?_, marks_after, fun m events => ?_⟩
  · have hignores : ∀ k < n, ∀ operation ∈ (s.after k).operation?,
        operation.Ignores Status.pushed := fun _ _ operation _ => operation.ignores_pushed
    exact ⟨answers_of_clear_eq h hignores, after_of_clear_eq h hignores n (Nat.le_refl n)⟩
  · rw [marks_foldl_occur]
    rfl

/-- A push of P, a pull of the same byte, and a byte that is no opcode. -/
theorem marks_inert_push_pull :
    let s := ({ registers := { status := { breakMark := true } } } : Machine).load 0 [0x08, 0x28, 2]
    let t := ({ registers := { status := { unused := true } } } : Machine).load 0 [0x08, 0x28, 2]
    s.clear Status.pushed = t.clear Status.pushed ∧ s.answers 3 = t.answers 3 ∧
      (s.after 3).memory.read 0x100 = (t.after 3).memory.read 0x100 ∧
      (s.after 3).registers.status.marks = (true, false) ∧
      (t.after 3).registers.status.marks = (false, true) := by
  intro s t
  have h : s.clear Status.pushed = t.clear Status.pushed := rfl
  obtain ⟨hrun, hmarks, -⟩ := marks_inert
  obtain ⟨hanswers, hafter⟩ := hrun s t h 3
  exact ⟨h, hanswers, congrArg (fun m => m.memory.read 0x100) hafter, hmarks s 3, hmarks t 3⟩

/-! ## The flags I and D -/

end Machine

/-- The sum that arithmetic on A and an operand forms in binary. A difference is formed from 256
more, so that it stays at 256 or above exactly if nothing is borrowed. -/
def Operation.total? (operation : Operation) (a v : UInt8) (carry : Bool) : Option Nat :=
  match operation with
  | .adc => some (a.toNat + v.toNat + carry.toNat)
  | .sbc => some (256 + a.toNat - v.toNat - (!carry).toNat)
  | .rra => some (a.toNat + (v.toNat / 2 + 128 * carry.toNat) + v.toNat % 2)
  | .isc => some (256 + a.toNat - (v + 1).toNat - (!carry).toNat)
  | _ => none

namespace Registers

variable {r : Registers}

/-- A and C hold a sum of up to nine bits. -/
def Holds (r : Registers) (total : Nat) : Prop :=
  r.a.toNat = total % 256 ∧ r.status.carry = decide (256 ≤ total)

theorem holds_addWithCarry (v : UInt8) (r : Registers) :
    (r.addWithCarry v).Holds (r.a.toNat + v.toNat + r.status.carry.toNat) := by
  refine ⟨UInt8.toNat_ofNat', ?_⟩
  rfl

theorem holds_subtractWithCarry (v : UInt8) (r : Registers) :
    (r.subtractWithCarry v).Holds (256 + r.a.toNat - v.toNat - (!r.status.carry).toNat) := by
  have hv := v.toNat_lt
  have htotal : r.a.toNat + (~~~v).toNat + r.status.carry.toNat =
      256 + r.a.toNat - v.toNat - (!r.status.carry).toNat := by
    rw [UInt8.toNat_not]
    cases r.status.carry <;> simp <;> omega
  rw [← htotal]
  exact holds_addWithCarry (~~~v) r

theorem holds_ror_addWithCarry (v : UInt8) (r : Registers) :
    ((r.ror v).2.addWithCarry (r.ror v).1).Holds
      (r.a.toNat + (v.toNat / 2 + 128 * r.status.carry.toNat) + v.toNat % 2) := by
  have hshift : 2 * (r.ror v).1.toNat + (r.ror v).2.status.carry.toNat =
      v.toNat + 256 * r.status.carry.toNat := toNat_shiftRight _ v r
  have hc := Bool.toNat_le (r.ror v).2.status.carry
  have htotal : (r.ror v).2.a.toNat + (r.ror v).1.toNat + (r.ror v).2.status.carry.toNat =
      r.a.toNat + (v.toNat / 2 + 128 * r.status.carry.toNat) + v.toNat % 2 := by
    have ha : (r.ror v).2.a = r.a := rfl
    rw [ha]
    omega
  rw [← htotal]
  exact holds_addWithCarry (r.ror v).1 (r.ror v).2

theorem holds_compute {operation : Operation} {v : UInt8} {total : Nat}
    (h : operation.total? r.a v r.status.carry = some total) :
    (operation.effect.compute v r).Holds total := by
  cases operation with
  | adc =>
      cases h
      exact holds_addWithCarry v r
  | sbc =>
      cases h
      exact holds_subtractWithCarry v r
  | rra =>
      cases h
      exact holds_ror_addWithCarry v r
  | isc =>
      cases h
      exact holds_subtractWithCarry (v + 1) (r.describe (v + 1))
  | _ => cases h

end Registers

namespace Machine

variable {m s t : Machine} {i : Instruction}

theorem holds_step {total : Nat} (hi : m.instruction? = some i)
    (h : i.operation.total? m.registers.a (m.operandValue i) m.registers.status.carry =
      some total) : m.step.2.registers.Holds total := by
  have hpulls : i.operation.pulls = 0 := by
    revert h
    cases i.operation <;> simp [Operation.total?, Operation.pulls]
  have hshift : i.operation ∉ Operation.shifts := by
    revert h
    cases i.operation <;> simp [Operation.total?, Operation.shifts]
  rw [registers_step_of_notMem_shifts hi hpulls hshift]
  exact Registers.holds_compute h

/-- The steps of two machines that push P do the same, up to flags of `mask` in P and in the byte
that is pushed. -/
structure PushAlike (mask : Status) (s t : Machine) : Prop where
  answer : s.step.1 = t.step.1
  registers : s.step.2.registers.clear mask = t.step.2.registers.clear mask
  pc : s.step.2.pc = t.step.2.pc
  cycles : s.step.2.cycles = t.step.2.cycles
  others : ∀ address, address ≠ stackCell s.registers.sp →
    s.step.2.memory.read address = t.step.2.memory.read address
  copy : (Status.ofByte (s.step.2.memory.read (stackCell s.registers.sp))).diff mask =
    (Status.ofByte (t.step.2.memory.read (stackCell s.registers.sp))).diff mask

theorem change_of_php (m : Machine) (hphp : i.operation = .php) :
    m.change i =
      { registers := { m.registers with sp := m.registers.sp - 1 }
        stores := [(stackCell m.registers.sp, (m.registers.status.union Status.pushed).toByte)]
        pc := m.pc + UInt16.ofNat i.bytes
        cycles := i.baseCycles + (i.paysPageCross && (m.operand i.mode).pageCrossed).toNat } := by
  rw [change, hphp]
  rfl

theorem pushAlike_of_php {mask : Status} (h : s.clear mask = t.clear mask)
    (hphp : s.operation? = some .php) : PushAlike mask s t := by
  obtain ⟨i, hs, hop⟩ := operation?_eq_some_iff.mp hphp
  have ht : t.instruction? = some i := by
    rw [← instruction?_clear mask t, ← h]
    exact hs
  have hoperand : s.operand i.mode = t.operand i.mode := by
    rw [← operand_clear mask s, h, operand_clear]
  obtain ⟨hregisters, hpc, hmemory, hcycles⟩ := clear_eq_iff.mp h
  obtain ⟨-, -, -, hsp, hstatus⟩ := Registers.mk.inj hregisters
  have hstep := step_of_instruction? hs
  have htstep := step_of_instruction? ht
  rw [change_of_php s hop] at hstep
  rw [change_of_php t hop, ← hsp, ← hoperand, ← hpc] at htstep
  constructor
  · rw [hstep, htstep]
  · rw [hstep, htstep]
    exact congrArg (fun r => { r with sp := s.registers.sp - 1 }) hregisters
  · rw [hstep, htstep]
    rfl
  · rw [hstep, htstep, apply, apply, hcycles]
  · intro address haddress
    rw [hstep, htstep, apply, apply, hmemory]
    simp only [Memory.writeAll_cons, Memory.writeAll_nil,
      Memory.read_write_of_ne _ _ haddress.symm]
  · rw [hstep, htstep]
    simp only [apply, Memory.writeAll_cons, Memory.writeAll_nil, Memory.read_write_self,
      Status.ofByte_toByte]
    rw [Status.diff_union, hstatus, ← Status.diff_union]

/-- Machines that are equal but for I and D answer alike and stay equal but for the two, as long
as no copy of P is pushed; a push puts them into the byte that it writes and nowhere else. Sums
and differences are binary whatever the two are. -/
theorem modes_inert {s t : Machine} (h : s.clear Status.modes = t.clear Status.modes) :
    (∀ n, (∀ k < n, (s.after k).operation? ≠ some .php) →
      s.answers n = t.answers n ∧
        ∀ k ≤ n, (s.after k).clear Status.modes = (t.after k).clear Status.modes) ∧
    (s.operation? = some .php → PushAlike Status.modes s t) ∧
    ∀ i total, s.instruction? = some i →
      i.operation.total? s.registers.a (s.operandValue i) s.registers.status.carry = some total →
      s.step.2.registers.Holds total := by
  refine ⟨fun n hphp => ?_, pushAlike_of_php h, fun i total => holds_step⟩
  have hignores : ∀ k < n, ∀ operation ∈ (s.after k).operation?,
      operation.Ignores Status.modes := by
    intro k hk operation hoperation
    refine Operation.ignores_modes fun hop => hphp k hk ?_
    rw [← hop]
    exact hoperation
  exact ⟨answers_of_clear_eq h hignores, after_of_clear_eq h hignores⟩

/-- Nine and five make fourteen with D set, and a push of P with D set. -/
theorem modes_inert_adc_php :
    let on : Registers := { a := 9, status := { decimal := true } }
    let off : Registers := { a := 9 }
    let s := ({ registers := on } : Machine).load 0 [0x69, 5]
    let t := ({ registers := off } : Machine).load 0 [0x69, 5]
    let u := ({ registers := on } : Machine).load 0 [0x08]
    let v := ({ registers := off } : Machine).load 0 [0x08]
    s.clear Status.modes = t.clear Status.modes ∧ s.answers 1 = t.answers 1 ∧
      s.step.2.registers.a.toNat = 14 ∧
      u.operation? = some .php ∧ PushAlike Status.modes u v := by
  intro on off s t u v
  have hst : s.clear Status.modes = t.clear Status.modes := rfl
  have huv : u.clear Status.modes = v.clear Status.modes := rfl
  have hadc : s.instruction? = some ⟨0x69, .adc, .immediate, 2⟩ :=
    instruction?_of_lookup (by decide +kernel) (by decide)
  have hphp : u.operation? = some .php :=
    operation?_of_instruction? (i := ⟨0x08, .php, .implied, 3⟩)
      (instruction?_of_lookup (by decide +kernel) (by decide))
  obtain ⟨hrun, -, hbinary⟩ := modes_inert hst
  obtain ⟨-, hpush, -⟩ := modes_inert huv
  have hplain : ∀ k < 1, (s.after k).operation? ≠ some .php := by
    intro k hk
    obtain rfl : k = 0 := by omega
    show s.operation? ≠ some .php
    rw [operation?_of_instruction? hadc]
    decide
  have htotal : Operation.adc.total? s.registers.a (s.operandValue ⟨0x69, .adc, .immediate, 2⟩)
      s.registers.status.carry = some 14 := by
    decide +kernel
  exact ⟨hst, (hrun 1 hplain).1, (hbinary _ _ hadc htotal).1, hphp, hpush hphp⟩

end Machine

end Core6502
