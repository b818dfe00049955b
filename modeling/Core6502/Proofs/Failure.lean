import Core6502.Debug.Debugger
import Core6502.Proofs.Execution

/-!
# Machines that cannot go on

A step fails exactly at an opcode without an instruction and at the software interrupt, and then
nothing has happened yet. So the next attempt meets the same machine and fails in the same way,
whether it is made directly or through a debugger, which does not count it.
-/

namespace Core6502

theorem brk_iff_of_decode {opcode : UInt8} {i : Instruction} (hi : decode opcode = some i) :
    i.operation = .brk ↔ opcode = 0 := by
  have hall : ∀ i ∈ Isa.instructions, i.operation = .brk ↔ i.opcode = 0 := by
    decide +kernel
  rw [← opcode_of_decode hi]
  exact hall i (mem_instructions_of_decode hi)

namespace Machine

/-- There is nothing to execute at the program counter. -/
def Stuck (m : Machine) : Prop :=
  decode (m.memory.read m.pc) = none ∨ m.memory.read m.pc = 0

variable {m : Machine}

theorem instruction?_eq_none_iff : m.instruction? = none ↔ m.Stuck := by
  cases hi : decode (m.memory.read m.pc) with
  | none => simp [Stuck, instruction?, hi]
  | some i =>
      rw [Stuck, hi, instruction?, hi, ← brk_iff_of_decode hi]
      simp [Option.filter_some]

theorem Stuck.step (h : m.Stuck) :
    m.step = (.error (.unknownOpcode (m.memory.read m.pc)), m) :=
  step_of_instruction?_eq_none (instruction?_eq_none_iff.mpr h)

theorem exists_cost_of_not_stuck (h : ¬ m.Stuck) : ∃ cost, m.step.1 = .ok cost := by
  rw [← instruction?_eq_none_iff] at h
  obtain ⟨i, hi⟩ := Option.ne_none_iff_exists'.mp h
  exact ⟨_, step_fst_of_instruction? hi rfl⟩

end Machine

namespace Debugger

variable {d : Debugger} {m : Machine} {fault : Fault}

theorem executed_observe (d : Debugger) (m : Machine) : (d.observe m).executed = d.executed := by
  unfold observe
  split <;> rfl

theorem step_of_fault (h : m.step = (.error fault, m)) :
    d.step m = (.error fault, d.observe m, m) := by
  simp only [step, h]

theorem run_of_fault (h : m.step = (.error fault, m)) {budget : Nat} (hbudget : budget ≠ 0) :
    d.run m budget = (.error fault, d.observe m, m) := by
  obtain ⟨rest, rfl⟩ := Nat.exists_eq_succ_of_ne_zero hbudget
  simp only [run, turn, step_of_fault h]

end Debugger

/-- A call that asks for instructions to be executed, of a machine or of the debugger that drives
it. -/
inductive Attempt where
  | step
  | debugStep
  | run (budget : Nat)
deriving DecidableEq

namespace Attempt

/-- What a call answers, the cycles of one instruction or why a run ended, and what it leaves. -/
def perform (attempt : Attempt) (d : Debugger) (m : Machine) :
    Except Fault (Nat ⊕ StopReason) × Debugger × Machine :=
  match attempt with
  | step =>
    let (answer, m) := m.step
    (answer.map .inl, d, m)
  | debugStep =>
    let (answer, d, m) := d.step m
    (answer.map .inl, d, m)
  | run budget =>
    let (answer, d, m) := d.run m budget
    (answer.map .inr, d, m)

def performAll (d : Debugger) (m : Machine) :
    List Attempt → List (Except Fault (Nat ⊕ StopReason)) × Debugger × Machine
  | [] => ([], d, m)
  | attempt :: attempts =>
    let (answer, d, m) := attempt.perform d m
    let (answers, d, m) := performAll d m attempts
    (answer :: answers, d, m)

theorem perform_of_stuck {attempt : Attempt} {m : Machine} (hstuck : m.Stuck)
    (hrun : attempt ≠ .run 0) (d : Debugger) :
    ∃ d' : Debugger, d'.executed = d.executed ∧
      attempt.perform d m = (.error (.unknownOpcode (m.memory.read m.pc)), d', m) := by
  cases attempt with
  | step => exact ⟨d, rfl, by rw [perform, hstuck.step]; rfl⟩
  | debugStep =>
      refine ⟨d.observe m, d.executed_observe m, ?_⟩
      rw [perform, Debugger.step_of_fault hstuck.step]
      rfl
  | run budget =>
      have hbudget : budget ≠ 0 := fun h => hrun (congrArg run h)
      refine ⟨d.observe m, d.executed_observe m, ?_⟩
      rw [perform, Debugger.run_of_fault hstuck.step hbudget]
      rfl

theorem performAll_of_stuck {attempts : List Attempt} {m : Machine} (hstuck : m.Stuck)
    (hrun : .run 0 ∉ attempts) (d : Debugger) :
    ∃ d' : Debugger, d'.executed = d.executed ∧
      performAll d m attempts =
        (List.replicate attempts.length (.error (.unknownOpcode (m.memory.read m.pc))), d', m) := by
  induction attempts generalizing d with
  | nil => exact ⟨d, rfl, rfl⟩
  | cons attempt attempts ih =>
      rw [List.mem_cons, not_or] at hrun
      obtain ⟨d₁, hcount₁, hone⟩ := perform_of_stuck hstuck (Ne.symm hrun.1) d
      obtain ⟨d₂, hcount₂, hrest⟩ := ih hrun.2 d₁
      refine ⟨d₂, hcount₂.trans hcount₁, ?_⟩
      rw [performAll, hone]
      dsimp only
      rw [hrest]
      rfl

end Attempt

namespace Machine

/-- When a step fails, with what, and that a machine whose step fails stays as it is. -/
theorem step_failure (m : Machine) :
    (decode 0).map (·.operation) = some .brk ∧
    (∀ fault, m.step.1 = .error fault ↔
      m.Stuck ∧ fault = .unknownOpcode (m.memory.read m.pc)) ∧
    (m.Stuck → m.step.2 = m) ∧
    (¬ m.Stuck → ∃ cost, m.step.1 = .ok cost) ∧
    (m.Stuck → ∀ (d : Debugger) (attempts : List Attempt), .run 0 ∉ attempts →
      ∃ d' : Debugger, d'.executed = d.executed ∧
        Attempt.performAll d m attempts =
          (List.replicate attempts.length (.error (.unknownOpcode (m.memory.read m.pc))),
            d', m)) := by
  refine ⟨?_, fun fault => ?_, fun h => congrArg Prod.snd h.step, exists_cost_of_not_stuck,
    fun hstuck d attempts hrun => Attempt.performAll_of_stuck hstuck hrun d⟩
  · rw [decode_eq_lookup]
    decide +kernel
  · constructor
    · intro hfault
      have hstuck : m.Stuck := by
        by_contra h
        obtain ⟨cost, hcost⟩ := exists_cost_of_not_stuck h
        rw [hcost] at hfault
        cases hfault
      rw [hstuck.step] at hfault
      exact ⟨hstuck, (Except.error.inj hfault).symm⟩
    · rintro ⟨hstuck, rfl⟩
      rw [hstuck.step]

/-- A byte that is no opcode, met three times by a debugger that keeps a trace. -/
theorem step_failure_repeated :
    let m := ({} : Machine).load 0 [0x02]
    let d := { Debugger.new with tracing := true, executed := 7 }
    m.Stuck ∧ m.step.1 = .error (.unknownOpcode 0x02) ∧
      ∃ d' : Debugger, d'.executed = 7 ∧
        Attempt.performAll d m [.step, .debugStep, .run 5] =
          ([.error (.unknownOpcode 0x02), .error (.unknownOpcode 0x02),
            .error (.unknownOpcode 0x02)], d', m) := by
  intro m d
  have hopcode : m.memory.read m.pc = 0x02 := by decide +kernel
  have hstuck : m.Stuck := by
    refine Or.inl ?_
    rw [hopcode, decode_eq_lookup]
    decide +kernel
  obtain ⟨-, hfault, -, -, hcalls⟩ := step_failure m
  rw [hopcode] at hfault hcalls
  exact ⟨hstuck, (hfault _).mpr ⟨hstuck, rfl⟩, hcalls hstuck d _ (by decide)⟩

end Machine

end Core6502
