import Core6502.Proofs.Debug.Stop
import Mathlib.Algebra.GroupWithZero.Nat

/-!
# Runs in parts

A run looks at its budget only to see whether some is left. So a budget can be spent in parts, where
each part goes on from what the one before left, as long as nothing but the budget ended that one:
neither the machine nor the breakpoints, the count or the history can tell where the cuts were.
-/

namespace Core6502.Debugger

variable {d : Debugger} {m : Machine} {outcome : Except Fault StopReason × Debugger × Machine}

/-- Goes on with a run that only its budget ended. A run that anything else ended stays ended. -/
def resume (budget : Nat) (outcome : Except Fault StopReason × Debugger × Machine) :
    Except Fault StopReason × Debugger × Machine :=
  match outcome with
  | (.ok .stepLimit, d, m) => d.run m budget
  | ended => ended

theorem resume_of_stepLimit (h : outcome.1 = .ok .stepLimit) (budget : Nat) :
    resume budget outcome = outcome.2.1.run outcome.2.2 budget := by
  obtain ⟨result, d, m⟩ := outcome
  obtain rfl : result = .ok .stepLimit := h
  rfl

theorem resume_of_ended (h : outcome.1 ≠ .ok .stepLimit) (budget : Nat) :
    resume budget outcome = outcome := by
  unfold resume
  split
  · exact absurd rfl h
  · rfl

/-- The end of the budget is not seen from within a turn. -/
theorem turn_ne_stepLimit (d : Debugger) (m : Machine) :
    (d.turn m).1 ≠ some (.ok .stepLimit) := by
  cases hi : m.instruction? with
  | none =>
      rw [turn, step_of_fault (Machine.step_of_instruction?_eq_none hi)]
      simp
  | some i =>
      rw [turn_of_ok (Machine.step_of_instruction? hi)]
      by_cases hpc : d.breakpoints.contains (m.apply (m.change i)).pc
      · simp [hpc]
      · by_cases hmode : d.mode = .single <;> simp [hpc, hmode]

theorem run_of_turn_eq_some {result : Except Fault StopReason} {d' : Debugger} {m' : Machine}
    (h : d.turn m = (some result, d', m')) (budget : Nat) :
    d.run m (budget + 1) = (result, d', m') := by
  rw [run, h]

theorem run_of_turn_eq_none {d' : Debugger} {m' : Machine}
    (h : d.turn m = (none, d', m')) (budget : Nat) : d.run m (budget + 1) = d'.run m' budget := by
  rw [run, h]

/-- A run with two budgets together is one with the first, resumed with the second. -/
theorem run_add (d : Debugger) (m : Machine) (j k : Nat) :
    d.run m (j + k) = resume k (d.run m j) := by
  induction j generalizing d m with
  | zero =>
      rw [Nat.zero_add]
      rfl
  | succ j ih =>
      rw [Nat.succ_add]
      -- the first turn ends both runs alike, or leaves both of them the rest of their budgets
      rcases hturn : d.turn m with ⟨ending, d', m'⟩
      cases ending with
      | none => rw [run_of_turn_eq_none hturn, run_of_turn_eq_none hturn, ih]
      | some result =>
          have hended : result ≠ .ok .stepLimit := by
            rintro rfl
            exact d.turn_ne_stepLimit m (congrArg Prod.fst hturn)
          rw [run_of_turn_eq_some hturn, run_of_turn_eq_some hturn, resume_of_ended hended]

theorem resume_resume (j k : Nat) (outcome : Except Fault StopReason × Debugger × Machine) :
    resume k (resume j outcome) = resume (j + k) outcome := by
  by_cases h : outcome.1 = .ok .stepLimit
  · rw [resume_of_stepLimit h, resume_of_stepLimit h, run_add]
  · rw [resume_of_ended h, resume_of_ended h, resume_of_ended h]

theorem resume_zero (outcome : Except Fault StopReason × Debugger × Machine) :
    resume 0 outcome = outcome := by
  by_cases h : outcome.1 = .ok .stepLimit
  · rw [resume_of_stepLimit h, run, ← h]
  · exact resume_of_ended h 0

theorem foldl_resume (budgets : List Nat)
    (outcome : Except Fault StopReason × Debugger × Machine) :
    budgets.foldl (fun outcome budget => resume budget outcome) outcome =
      resume budgets.sum outcome := by
  induction budgets generalizing outcome with
  | nil => exact (resume_zero outcome).symm
  | cons budget budgets ih => rw [List.foldl_cons, ih, resume_resume, List.sum_cons]

/-- A run with two budgets together is one with the first alone if something else ended that, and
else goes on from there with the second. The same holds of any number of parts. -/
theorem run_in_parts (d : Debugger) (m : Machine) :
    (∀ j k : Nat,
      let first := d.run m j
      (first.1 = .ok .stepLimit → d.run m (j + k) = first.2.1.run first.2.2 k) ∧
      (first.1 ≠ .ok .stepLimit → d.run m (j + k) = first)) ∧
    ∀ budgets : List Nat,
      budgets.foldl (fun outcome budget => resume budget outcome) (d.run m 0) =
        d.run m budgets.sum := by
  refine ⟨fun j k => ⟨fun h => ?_, fun h => ?_⟩, fun budgets => ?_⟩
  · rw [run_add, resume_of_stepLimit h]
  · rw [run_add, resume_of_ended h]
  · rw [foldl_resume, ← run_add, Nat.zero_add]

/-- A loop of two instructions under a breakpoint, cut before the one that comes back to it. -/
theorem run_in_parts_loop :
    let m := ({} : Machine).load 0 [0xEA, 0x4C, 0, 0]
    let d := { new with breakpoints := ({} : Breakpoints).add 0, tracing := true }
    (d.run m 1).1 = .ok .stepLimit ∧ d.run m 2 = (d.run m 1).2.1.run (d.run m 1).2.2 1 ∧
      (d.run m 2).1 = .ok (.breakpoint 0) ∧ (d.run m 2).1 ≠ .ok .stepLimit ∧
      d.run m 7 = d.run m 2 := by
  intro m d
  have hfinds : m.finds [⟨0xEA, .nop, .implied, 2⟩, ⟨0x4C, .jmp, .absolute, 3⟩] := by
    decide +kernel
  obtain ⟨hnop, hrest⟩ := Machine.finds_cons hfinds
  obtain ⟨hjmp, -⟩ := Machine.finds_cons hrest
  have hset (address : UInt16) : d.breakpoints.contains address = decide (0 = address) := by
    rw [Breakpoints.contains, Breakpoints.get?_add, Breakpoints.get?_empty]
    by_cases h : 0 = address <;> simp [h]
  obtain ⟨hparts, -⟩ := run_in_parts d m
  generalize hn : m.apply (m.change ⟨0xEA, .nop, .implied, 2⟩) = n at hjmp
  have hone : n.pc = 1 := by
    rw [← hn]
    decide +kernel
  have hback : (n.apply (n.change ⟨0x4C, .jmp, .absolute, 3⟩)).pc = 0 := by
    rw [← hn]
    decide +kernel
  have hgo (budget : Nat) : d.run m (budget + 1) = (d.advance m).run n budget := by
    rw [run_succ_of_ok (Machine.step_of_instruction? hnop), hn, hset, hone]
    rfl
  have hfirst : (d.run m 1).1 = .ok .stepLimit := by
    rw [hgo]
    rfl
  have hstop : (d.run m 2).1 = .ok (.breakpoint 0) := by
    rw [hgo, run_succ_of_ok (Machine.step_of_instruction? hjmp), breakpoints_advance, hset, hback]
    rfl
  have hended : (d.run m 2).1 ≠ .ok .stepLimit := by
    rw [hstop]
    simp
  exact ⟨hfirst, (hparts 1 1).1 hfirst, hstop, hended, (hparts 2 5).2 hended⟩

end Core6502.Debugger
