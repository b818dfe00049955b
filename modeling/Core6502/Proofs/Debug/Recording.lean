import Core6502.Proofs.Debug.Session
import Mathlib.Data.List.DropRight
import Mathlib.Data.Nat.Find

/-!
# What a trace shows

Without a bound, a trace would hold an entry for every instruction attempted while tracing was on
and since it was last cleared: `recorded` is this row. The trace shows its end, as long as the
capacity of the history allows, whatever calls were made and whatever happened to the machine
between them. The attempts of a run are told from the rule by which it ends, not from the run.
-/

namespace Core6502

namespace History

variable {α : Type}

theorem take_append_take (l m : List α) (n : Nat) : (l ++ m.take n).take n = (l ++ m).take n := by
  rw [List.take_append, List.take_append, List.take_take, Nat.min_eq_left (Nat.sub_le n l.length)]

theorem capacity_foldl_record (h : History α) (items : List α) :
    (items.foldl record h).capacity = h.capacity := by
  induction items generalizing h with
  | nil => rfl
  | cons item items ih => rw [List.foldl_cons, ih, capacity_record]

theorem latest_foldl_record (h : History α) (items : List α) :
    (items.foldl record h).latest = (items.reverse ++ h.latest).take h.capacity := by
  induction items generalizing h with
  | nil => rw [List.foldl_nil, List.reverse_nil, List.nil_append, latest, List.take_take, min_self]
  | cons item items ih =>
      rw [List.foldl_cons, ih, capacity_record, latest_record, take_append_take, List.reverse_cons,
        List.append_assoc, List.singleton_append]

end History

namespace Debugger

variable {d : Debugger} {m n : Machine} {cost budget k : Nat} {call : Call} {past later : List Use}

/-! ## Attempts -/

theorem exists_ending (d : Debugger) (m : Machine) (budget : Nat) :
    ∃ k, (d.ending? m budget k).isSome :=
  ⟨budget, Option.isSome_iff_ne_none.mpr (d.ending?_budget_ne_none m budget)⟩

/-- The first number of executed instructions at which something ends a run. -/
def runLength (d : Debugger) (m : Machine) (budget : Nat) : Nat :=
  Nat.find (d.exists_ending m budget)

/-- How many instructions a run attempts: those that it executes, and the one whose failure ends
it, if one does. -/
def attemptCount (d : Debugger) (m : Machine) (budget : Nat) : Nat :=
  let k := d.runLength m budget
  if (d.ending? m budget k).all Except.isOk then k else k + 1

/-- The machines on which a run attempts an instruction, in order. -/
def attempted (d : Debugger) (m : Machine) (budget : Nat) : List Machine :=
  (List.range (d.attemptCount m budget)).map m.after

theorem attemptCount_of_endsAt {outcome : Except Fault StopReason × Debugger × Machine}
    (h : d.EndsAt m budget k outcome) :
    d.attemptCount m budget = if outcome.1.isOk then k else k + 1 := by
  have hlength : d.runLength m budget = k := by
    rw [runLength, Nat.find_eq_iff, h.ends]
    exact ⟨rfl, fun j hj => by rw [h.first j hj]; exact Bool.false_ne_true⟩
  rw [attemptCount, hlength, h.ends]
  rfl

theorem attempted_zero (d : Debugger) (m : Machine) : d.attempted m 0 = [] := by
  rw [attempted, attemptCount_of_endsAt (d.endsAt_zero m)]
  rfl

theorem attempted_of_fault {fault : Fault} (h : m.step = (.error fault, m)) :
    d.attempted m (budget + 1) = [m] := by
  rw [attempted, attemptCount_of_endsAt (endsAt_of_fault h),
    run_of_fault h (Nat.succ_ne_zero budget)]
  rfl

/-- A run that something stops after its first instruction makes no other attempt. -/
theorem attempted_of_stop {reason : StopReason} {d' : Debugger}
    (h : d.EndsAt m (budget + 1) 1 (.ok reason, d', n)) : d.attempted m (budget + 1) = [m] := by
  rw [attempted, attemptCount_of_endsAt h]
  rfl

/-- A run that nothing stops after its first instruction attempts what the rest of it does. -/
theorem attempted_of_go_on (h : m.step = (.ok cost, n))
    (hpc : d.breakpoints.contains n.pc = false) (hmode : d.mode ≠ .single) :
    d.attempted m (budget + 1) = m :: (d.advance m).attempted n budget := by
  obtain ⟨k, hrest⟩ := (d.advance m).exists_endsAt n budget
  have hcount : d.attemptCount m (budget + 1) = (d.advance m).attemptCount n budget + 1 := by
    rw [attemptCount_of_endsAt hrest, attemptCount_of_endsAt (hrest.succ h hpc hmode)]
    split <;> rfl
  rw [attempted, hcount, List.range_succ_eq_map, List.map_cons, List.map_map, attempted]
  congr 1
  exact List.map_congr_left fun k _ => Machine.after_succ_of_step_ok h k

/-! ## What calls record -/

/-- The history after attempts on some machines. -/
def remember (d : Debugger) (machines : List Machine) : History TraceEntry :=
  if d.tracing then (machines.map TraceEntry.ofMachine).foldl History.record d.history
  else d.history

theorem remember_nil (d : Debugger) : d.remember [] = d.history := by
  unfold remember
  split <;> rfl

theorem tracing_observe (d : Debugger) (m : Machine) : (d.observe m).tracing = d.tracing := by
  unfold observe
  split <;> rfl

theorem history_observe (d : Debugger) (m : Machine) :
    (d.observe m).history = d.remember [m] := by
  unfold observe remember
  split <;> rfl

theorem remember_cons (d : Debugger) (m : Machine) (machines : List Machine) :
    d.remember (m :: machines) = (d.advance m).remember machines := by
  have htracing : (d.advance m).tracing = d.tracing := d.tracing_observe m
  have hhistory : (d.advance m).history = d.remember [m] := d.history_observe m
  rw [remember, remember, htracing, hhistory, remember]
  split <;> rfl

/-- What becomes of tracing and of the history when some machines are attempted. -/
structure Records (d : Debugger) (machines : List Machine) (d' : Debugger) : Prop where
  tracing : d'.tracing = d.tracing
  history : d'.history = d.remember machines

theorem records_observe (d : Debugger) (m : Machine) : d.Records [m] (d.observe m) :=
  ⟨d.tracing_observe m, d.history_observe m⟩

theorem records_advance (d : Debugger) (m : Machine) : d.Records [m] (d.advance m) :=
  ⟨d.tracing_observe m, d.history_observe m⟩

theorem Records.cons {d' : Debugger} {machines : List Machine}
    (h : (d.advance m).Records machines d') : d.Records (m :: machines) d' :=
  ⟨h.tracing.trans (d.tracing_observe m), h.history.trans (d.remember_cons m machines).symm⟩

theorem records_step (d : Debugger) (m : Machine) : d.Records [m] (d.step m).2.1 := by
  cases hi : m.instruction? with
  | none =>
      rw [step_of_fault (Machine.step_of_instruction?_eq_none hi)]
      exact d.records_observe m
  | some i =>
      rw [step_of_ok (Machine.step_of_instruction? hi)]
      exact d.records_advance m

theorem records_run (d : Debugger) (m : Machine) (budget : Nat) :
    d.Records (d.attempted m budget) (d.run m budget).2.1 := by
  induction budget generalizing d m with
  | zero =>
      rw [attempted_zero]
      exact ⟨rfl, d.remember_nil.symm⟩
  | succ budget ih =>
      cases hi : m.instruction? with
      | none =>
          have h := Machine.step_of_instruction?_eq_none hi
          rw [attempted_of_fault h, run_of_fault h (Nat.succ_ne_zero budget)]
          exact d.records_observe m
      | some i =>
          have h := Machine.step_of_instruction? hi
          cases hpc : d.breakpoints.contains (m.apply (m.change i)).pc with
          | true =>
              have hends : d.EndsAt m (budget + 1) 1 _ := endsAt_of_breakpoint h hpc
              rw [run_succ_of_ok h, if_pos hpc] at hends ⊢
              rw [attempted_of_stop hends]
              exact ⟨d.tracing_observe m, d.history_observe m⟩
          | false =>
              by_cases hmode : d.mode = .single
              · have hends : d.EndsAt m (budget + 1) 1 _ := endsAt_of_single h hpc hmode
                rw [run_succ_of_ok h, hpc, if_neg Bool.false_ne_true, if_pos hmode] at hends ⊢
                rw [attempted_of_stop hends]
                exact d.records_advance m
              · rw [run_succ_of_ok h, hpc, if_neg Bool.false_ne_true, if_neg hmode,
                  attempted_of_go_on h hpc hmode]
                exact (ih (d.advance m) _).cons

namespace Call

/-- The machines on which a call attempts an instruction, in order. -/
def attempted (call : Call) (d : Debugger) (m : Machine) : List Machine :=
  match call with
  | step => [m]
  | run budget => d.attempted m budget
  | edit _ | setMode _ | setTracing _ | clearTrace => []

/-- What a call asks of tracing, if it is about that. -/
def tracing? : Call → Option Bool
  | setTracing tracing => some tracing
  | _ => none

end Call

theorem tracing_perform (call : Call) (d : Debugger) (m : Machine) :
    (call.perform d m).2.1.tracing = call.tracing?.getD d.tracing := by
  cases call with
  | edit | setMode | setTracing | clearTrace => rfl
  | step => exact (d.records_step m).tracing
  | run budget => exact (d.records_run m budget).tracing

theorem history_perform (d : Debugger) (m : Machine) (hclear : call ≠ .clearTrace) :
    (call.perform d m).2.1.history = d.remember (call.attempted d m) := by
  cases call with
  | edit | setMode | setTracing => exact d.remember_nil.symm
  | clearTrace => exact absurd rfl hclear
  | step => exact (d.records_step m).history
  | run budget => exact (d.records_run m budget).history

/-! ## The row of all entries -/

/-- Whether the latest call about tracing switched it on. -/
def traced : List Use → Bool
  | [] => false
  | use :: earlier => use.call.tracing?.getD (traced earlier)

/-- The entries for all attempts made while tracing was on and since the last clearing, in order. -/
def recorded (d : Debugger) : List Use → List TraceEntry
  | [] => []
  | use :: earlier =>
    if use.call = .clearTrace then []
    else if traced earlier then
      d.recorded earlier ++
        (use.call.attempted (d.used earlier) use.machine).map TraceEntry.ofMachine
    else d.recorded earlier

theorem tracing_used (capacity : Nat) (past : List Use) :
    ((withCapacity capacity).used past).tracing = traced past := by
  induction past with
  | nil => rfl
  | cons use earlier ih => rw [used, traced, tracing_perform, ih]

theorem capacity_used (capacity : Nat) (past : List Use) :
    ((withCapacity capacity).used past).history.capacity = capacity := by
  induction past with
  | nil => rfl
  | cons use earlier ih =>
      rw [used]
      by_cases hclear : use.call = .clearTrace
      · rw [hclear]
        exact ih
      · rw [history_perform _ _ hclear, remember]
        split
        · rw [History.capacity_foldl_record, ih]
        · exact ih

theorem latest_used (capacity : Nat) (past : List Use) :
    ((withCapacity capacity).used past).history.latest =
      ((withCapacity capacity).recorded past).reverse.take capacity := by
  induction past with
  | nil =>
      rw [recorded, List.reverse_nil, List.take_nil]
      exact History.latest_clear (withCapacity capacity).history
  | cons use earlier ih =>
      rw [used, recorded]
      by_cases hclear : use.call = .clearTrace
      · rw [if_pos hclear, hclear]
        exact (History.latest_clear _).trans List.take_nil.symm
      · rw [if_neg hclear, history_perform _ _ hclear, remember, tracing_used]
        split
        · rw [History.latest_foldl_record, capacity_used, ih, History.take_append_take,
            List.reverse_append]
        · exact ih

theorem trace_used (capacity : Nat) (past : List Use) :
    ((withCapacity capacity).used past).trace =
      ((withCapacity capacity).recorded past).rtake capacity := by
  rw [trace, History.toList, latest_used, List.rtake_eq_reverse_take_reverse]

theorem recorded_append_of_off (d : Debugger) (hoff : traced past = false)
    (hlater : ∀ use ∈ later, use.call ≠ .setTracing true ∧ use.call ≠ .clearTrace) :
    traced (later ++ past) = false ∧ d.recorded (later ++ past) = d.recorded past := by
  induction later with
  | nil => exact ⟨hoff, rfl⟩
  | cons use later ih =>
      obtain ⟨⟨hon, hclear⟩, hrest⟩ := List.forall_mem_cons.mp hlater
      obtain ⟨htraced, hrecorded⟩ := ih hrest
      rw [List.cons_append, traced, recorded, if_neg hclear, htraced,
        if_neg Bool.false_ne_true]
      refine ⟨?_, hrecorded⟩
      cases hcall : use.call with
      | setTracing tracing =>
          rw [hcall] at hon
          exact Bool.eq_false_iff.mpr fun h => hon (h ▸ rfl)
      | edit | setMode | clearTrace | step | run => rfl

/-- The trace shows the last entries of the row of all entries, as many as the capacity allows, and
it does not change while tracing is off. -/
theorem trace_shows_last (capacity : Nat) (past : List Use) :
    let d := withCapacity capacity
    (d.used past).trace = (d.recorded past).rtake capacity ∧
    (d.used past).trace <:+ d.recorded past ∧
    (d.used past).trace.length = min capacity (d.recorded past).length ∧
    ∀ later : List Use, traced past = false →
      (∀ use ∈ later, use.call ≠ .setTracing true ∧ use.call ≠ .clearTrace) →
        (d.used (later ++ past)).trace = (d.used past).trace := by
  intro d
  refine ⟨trace_used capacity past, ?_, ?_, fun later hoff hlater => ?_⟩
  · rw [trace_used]
    exact List.drop_suffix _ _
  · rw [trace_used, List.rtake, List.length_drop]
    exact (Nat.sub_sub_eq_min _ _).trans (Nat.min_comm _ _)
  · rw [trace_used, trace_used, (recorded_append_of_off _ hoff hlater).2]

/-- Two attempts on a machine that cannot go on, the second in a run, with room for one entry. -/
theorem trace_shows_last_stuck :
    let d := withCapacity 1
    let m : Machine := {}
    let past := [⟨.setTracing false, m⟩, ⟨.run 5, m⟩, ⟨.step, m⟩, ⟨.setTracing true, m⟩]
    let later := [⟨.step, m.powerOn⟩, ⟨.edit (.add 0), m⟩]
    traced past = false ∧
      (∀ use ∈ later, use.call ≠ .setTracing true ∧ use.call ≠ .clearTrace) ∧
      d.recorded past = [.ofMachine m, .ofMachine m] ∧
      (d.used (later ++ past)).trace = [.ofMachine m] := by
  intro d m past later
  have hlater : ∀ use ∈ later, use.call ≠ .setTracing true ∧ use.call ≠ .clearTrace := by
    simp [later]
  have hfault : m.step = (.error (.unknownOpcode (m.memory.read m.pc)), m) :=
    Machine.Stuck.step (Or.inr (Memory.read_blank _))
  have hrecorded : d.recorded past = [.ofMachine m, .ofMachine m] := by
    simp [past, recorded, traced, Call.tracing?, Call.attempted, attempted_of_fault hfault]
  obtain ⟨hshown, -, -, hkept⟩ := trace_shows_last 1 past
  refine ⟨rfl, hlater, hrecorded, (hkept later rfl hlater).trans ?_⟩
  rw [hshown, hrecorded]
  rfl

end Debugger

end Core6502
