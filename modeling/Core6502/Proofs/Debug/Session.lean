import Core6502.Proofs.Debug.Stop
import Mathlib.Algebra.GroupWithZero.Nat

/-!
# Sessions of the debugger

A session makes calls of a debugger one after another. However the calls are mixed, the machine
has executed as many instructions as the debugger counts, and nothing but the history depends on
what is recorded in it. For the latter a debugger is compared to itself without its history:
`untraced` commutes with one call, hence with a session.
-/

namespace Core6502

/-- A change of breakpoints. -/
inductive Breakpoints.Edit where
  | add (address : UInt16)
  | remove (address : UInt16)
  | toggle (address : UInt16)
  | setEnabled (address : UInt16) (enabled : Bool)
  | clear
deriving DecidableEq

namespace Breakpoints.Edit

/-- What an edit answers, if it answers anything, and the breakpoints it leaves. -/
def perform (edit : Edit) (b : Breakpoints) : Option Bool × Breakpoints :=
  match edit with
  | add address => (none, b.add address)
  | remove address => (b.remove address).map some id
  | toggle address => (b.toggle address).map some id
  | setEnabled address enabled => (b.setEnabled address enabled).map some id
  | clear => (none, {})

end Breakpoints.Edit

namespace Debugger

/-- A call of a debugger. -/
inductive Call where
  | edit (edit : Breakpoints.Edit)
  | setMode (mode : StepMode)
  | setTracing (tracing : Bool)
  | clearTrace
  | step
  | run (budget : Nat)
deriving DecidableEq

/-- What a call answers. -/
inductive Answer where
  | done
  | edited (answer : Option Bool)
  | stepped (answer : Except Fault Nat)
  | ran (answer : Except Fault StopReason)

namespace Call

def perform (call : Call) (d : Debugger) (m : Machine) : Answer × Debugger × Machine :=
  match call with
  | edit e =>
    let (answer, breakpoints) := e.perform d.breakpoints
    (.edited answer, { d with breakpoints }, m)
  | setMode mode => (.done, { d with mode }, m)
  | setTracing tracing => (.done, { d with tracing }, m)
  | clearTrace => (.done, d.clearTrace, m)
  | step =>
    let (answer, d, m) := d.step m
    (.stepped answer, d, m)
  | run budget =>
    let (answer, d, m) := d.run m budget
    (.ran answer, d, m)

/-- How many instructions a call may execute. -/
def budget : Call → Nat
  | step => 1
  | run budget => budget
  | _ => 0

/-- Whether a call is about anything but the history. -/
def isPlain : Call → Bool
  | setTracing _ | clearTrace => false
  | _ => true

end Call

/-- The calls made, each with its answer, and what they leave. -/
structure Session where
  transcript : List (Call × Answer)
  debugger : Debugger
  machine : Machine

/-- The session of a debugger that makes some calls in turn. -/
def session (d : Debugger) (m : Machine) : List Call → Session
  | [] => ⟨[], d, m⟩
  | call :: calls =>
    let (answer, d, m) := call.perform d m
    let rest := d.session m calls
    { rest with transcript := (call, answer) :: rest.transcript }

variable {call : Call}

theorem session_cons (d : Debugger) (m : Machine) (call : Call) (calls : List Call) :
    d.session m (call :: calls) =
      let rest := (call.perform d m).2.1.session (call.perform d m).2.2 calls
      { rest with transcript := (call, (call.perform d m).1) :: rest.transcript } := rfl

/-! ## What a session executes -/

theorem executes_step (d : Debugger) (m : Machine) :
    ∃ k ≤ 1, m.Executes k (d.step m).2.2 ∧
      (d.step m).2.1.executed = d.executed + UInt64.ofNat k := by
  cases hi : m.instruction? with
  | none =>
      refine ⟨0, Nat.zero_le 1, ?_⟩
      rw [step_of_fault (Machine.step_of_instruction?_eq_none hi)]
      exact ⟨.refl m, (d.executed_observe m).trans (UInt64.add_zero _).symm⟩
  | some i =>
      have h := Machine.step_of_instruction? hi
      refine ⟨1, Nat.le_refl 1, ?_⟩
      rw [step_of_ok h]
      exact ⟨.single h, rfl⟩

theorem executes_perform (call : Call) (d : Debugger) (m : Machine) :
    ∃ k ≤ call.budget, m.Executes k (call.perform d m).2.2 ∧
      (call.perform d m).2.1.executed = d.executed + UInt64.ofNat k := by
  cases call with
  | edit | setMode | setTracing | clearTrace =>
      exact ⟨0, Nat.zero_le _, .refl m, (UInt64.add_zero _).symm⟩
  | step => exact d.executes_step m
  | run budget =>
      obtain ⟨k, h⟩ := d.exists_endsAt m budget
      exact ⟨k, h.le_budget, h.executes, h.executed⟩

theorem executes_session (d : Debugger) (m : Machine) (calls : List Call) :
    ∃ k ≤ (calls.map Call.budget).sum, m.Executes k (d.session m calls).machine ∧
      (d.session m calls).debugger.executed = d.executed + UInt64.ofNat k := by
  induction calls generalizing d m with
  | nil => exact ⟨0, Nat.zero_le _, .refl m, (UInt64.add_zero _).symm⟩
  | cons call calls ih =>
      obtain ⟨k, hk, hone, hcount⟩ := executes_perform call d m
      obtain ⟨l, hl, hrest, htotal⟩ :=
        ih (call.perform d m).2.1 (call.perform d m).2.2
      refine ⟨k + l, Nat.add_le_add hk hl, hone.trans hrest, ?_⟩
      rw [session, htotal, hcount, UInt64.ofNat_add, UInt64.add_assoc]

/-! ## A session without its history -/

/-- A debugger without its history, and with none to come. -/
def untraced (d : Debugger) : Debugger :=
  { withCapacity 0 with breakpoints := d.breakpoints, mode := d.mode, executed := d.executed }

theorem untraced_eq_iff {d e : Debugger} :
    d.untraced = e.untraced ↔
      d.breakpoints = e.breakpoints ∧ d.mode = e.mode ∧ d.executed = e.executed := by
  simp [untraced]

theorem untraced_observe (d : Debugger) (m : Machine) : (d.observe m).untraced = d.untraced := by
  unfold observe
  split <;> rfl

theorem observe_untraced (d : Debugger) (m : Machine) : d.untraced.observe m = d.untraced := rfl

theorem untraced_advance (d : Debugger) (m : Machine) :
    (d.advance m).untraced = d.untraced.advance m := by
  calc (d.advance m).untraced
      = { (d.observe m).untraced with executed := d.executed + 1 } := rfl
    _ = { d.untraced with executed := d.executed + 1 } := by rw [untraced_observe]
    _ = d.untraced.advance m := rfl

theorem step_untraced (d : Debugger) (m : Machine) :
    d.untraced.step m = ((d.step m).1, (d.step m).2.1.untraced, (d.step m).2.2) := by
  cases hi : m.instruction? with
  | none =>
      have h := Machine.step_of_instruction?_eq_none hi
      rw [step_of_fault h, step_of_fault h, untraced_observe, observe_untraced]
  | some i =>
      have h := Machine.step_of_instruction? hi
      rw [step_of_ok h, step_of_ok h, untraced_advance]

theorem run_untraced (d : Debugger) (m : Machine) (budget : Nat) :
    d.untraced.run m budget =
      ((d.run m budget).1, (d.run m budget).2.1.untraced, (d.run m budget).2.2) := by
  induction budget generalizing d m with
  | zero => rfl
  | succ budget ih =>
      cases hi : m.instruction? with
      | none =>
          have h := Machine.step_of_instruction?_eq_none hi
          rw [run_of_fault h (Nat.succ_ne_zero budget), run_of_fault h (Nat.succ_ne_zero budget),
            untraced_observe, observe_untraced]
      | some i =>
          have h := Machine.step_of_instruction? hi
          rw [run_succ_of_ok h, run_succ_of_ok h, ← untraced_advance, ih]
          -- a debugger keeps its breakpoints and its mode without its history
          by_cases hpc : d.breakpoints.contains (m.apply (m.change i)).pc
          · rw [if_pos hpc, if_pos (show d.untraced.breakpoints.contains _ from hpc)]
            rfl
          · rw [if_neg hpc, if_neg (show ¬ d.untraced.breakpoints.contains _ from hpc)]
            by_cases hmode : d.mode = .single
            · rw [if_pos hmode, if_pos (show d.untraced.mode = .single from hmode)]
            · rw [if_neg hmode, if_neg (show ¬ d.untraced.mode = .single from hmode)]

/-- A call that is not about the history answers and does the same without one. -/
theorem perform_untraced (d : Debugger) (m : Machine) (hplain : call.isPlain) :
    call.perform d.untraced m =
      ((call.perform d m).1, (call.perform d m).2.1.untraced, (call.perform d m).2.2) := by
  cases call with
  | edit | setMode => rfl
  | setTracing | clearTrace => cases hplain
  | step => rw [Call.perform, Call.perform, step_untraced]
  | run budget => rw [Call.perform, Call.perform, run_untraced]

/-- A call that is about the history does nothing without one. -/
theorem untraced_perform (d : Debugger) (m : Machine) (hplain : call.isPlain = false) :
    (call.perform d m).2.1.untraced = d.untraced ∧ (call.perform d m).2.2 = m := by
  cases call with
  | edit | setMode | step | run => cases hplain
  | setTracing | clearTrace => exact ⟨rfl, rfl⟩

/-- What is left of a session without its history. -/
def Session.untraced (s : Session) : Session where
  transcript := s.transcript.filter (·.1.isPlain)
  debugger := s.debugger.untraced
  machine := s.machine

theorem session_untraced (d : Debugger) (m : Machine) (calls : List Call) :
    d.untraced.session m (calls.filter Call.isPlain) = (d.session m calls).untraced := by
  induction calls generalizing d m with
  | nil => rfl
  | cons call calls ih =>
      cases hplain : call.isPlain with
      | true =>
          rw [List.filter_cons_of_pos hplain, session_cons, session_cons,
            perform_untraced d m hplain, ih]
          simp [Session.untraced, hplain]
      | false =>
          obtain ⟨hdebugger, hmachine⟩ := untraced_perform d m hplain
          rw [List.filter_cons_of_neg (Bool.eq_false_iff.mp hplain), session_cons, ← hdebugger, ih,
            hmachine]
          simp [Session.untraced, hplain]

/-- A session executes as many instructions as its debugger counts, up to the width of the counter,
and no more than the calls allow. Sessions that differ only in what they record answer the same and
leave the same. -/
theorem session_transparent (m : Machine) (capacity : Nat) (calls : List Call) :
    let s := (withCapacity capacity).session m calls
    (∃ k ≤ (calls.map Call.budget).sum,
      m.Executes k s.machine ∧ s.debugger.executed = UInt64.ofNat k ∧
        (k < UInt64.size → m.Executes s.debugger.executed.toNat s.machine)) ∧
    ∀ (otherCapacity : Nat) (otherCalls : List Call),
      otherCalls.filter Call.isPlain = calls.filter Call.isPlain →
        let t := (withCapacity otherCapacity).session m otherCalls
        t.transcript.filter (·.1.isPlain) = s.transcript.filter (·.1.isPlain) ∧
          t.machine = s.machine ∧
          t.debugger.breakpoints = s.debugger.breakpoints ∧
          t.debugger.mode = s.debugger.mode ∧
          t.debugger.executed = s.debugger.executed := by
  obtain ⟨k, hk, hexecutes, hcount⟩ := executes_session (withCapacity capacity) m calls
  have hexecuted : ((withCapacity capacity).session m calls).debugger.executed = UInt64.ofNat k :=
    hcount.trans (UInt64.zero_add _)
  refine ⟨⟨k, hk, hexecutes, hexecuted, fun hlt => ?_⟩, fun otherCapacity otherCalls hcalls => ?_⟩
  · rw [hexecuted, UInt64.toNat_ofNat_of_lt' hlt]
    exact hexecutes
  · have hfresh : (withCapacity otherCapacity).untraced = (withCapacity capacity).untraced := rfl
    have hsame := session_untraced (withCapacity otherCapacity) m otherCalls
    rw [hfresh, hcalls, session_untraced] at hsame
    obtain ⟨htranscript, hdebugger, hmachine⟩ := Session.mk.inj hsame.symm
    exact ⟨htranscript, hmachine, untraced_eq_iff.mp hdebugger⟩

/-- A jump to itself under a breakpoint, with a history of one entry and with none. -/
theorem session_transparent_loop :
    let m := ({} : Machine).load 0 [0x4C, 0, 0]
    let calls := [.setTracing true, .edit (.add 0), .run 5, .clearTrace, .step]
    let others := [.edit (.add 0), .setTracing false, .run 5, .step]
    let s := (withCapacity 1).session m calls
    let t := (withCapacity 0).session m others
    others.filter Call.isPlain = calls.filter Call.isPlain ∧
      (calls.map Call.budget).sum < UInt64.size ∧
      m.Executes s.debugger.executed.toNat s.machine ∧
      t.transcript.filter (·.1.isPlain) = s.transcript.filter (·.1.isPlain) ∧
      t.machine = s.machine ∧ t.debugger.executed = s.debugger.executed := by
  intro m calls others s t
  have hcalls : others.filter Call.isPlain = calls.filter Call.isPlain := by decide
  have hbudget : (calls.map Call.budget).sum < UInt64.size := by decide
  obtain ⟨⟨k, hk, -, -, hexecutes⟩, hsame⟩ := session_transparent m 1 calls
  obtain ⟨htranscript, hmachine, -, -, hexecuted⟩ := hsame 0 others hcalls
  exact ⟨hcalls, hbudget, hexecutes (Nat.lt_of_le_of_lt hk hbudget), htranscript, hmachine,
    hexecuted⟩

/-! ## Calls on any machine -/

/-- A call and the machine that it meets. This need not be the machine that the call before left:
it may have been changed in between. -/
structure Use where
  call : Call
  machine : Machine

/-- A debugger after some uses, the latest of which comes first. -/
def used (d : Debugger) : List Use → Debugger
  | [] => d
  | use :: earlier => (use.call.perform (d.used earlier) use.machine).2.1

/-- The calls made in some uses, each with its answer, the latest first. -/
def transcript (d : Debugger) : List Use → List (Call × Answer)
  | [] => []
  | use :: earlier =>
    (use.call, (use.call.perform (d.used earlier) use.machine).1) :: d.transcript earlier

end Debugger

end Core6502
