import Core6502.Proofs.Debug.Session

/-!
# Breakpoints told from the calls

What a debugger keeps for an address can be told from the calls made and their answers: whether
there is a breakpoint from a replay of what each call does to its presence alone, whether it is on
from the last call that touched its switch, and its hits from the runs that answered that they had
stopped there since it was put there. `recalled` puts the three together, one call keeps it true,
and so do all.
-/

namespace Core6502

namespace Breakpoints.Edit

/-- Whether an edit is about an address. -/
def concerns (address : UInt16) : Edit → Bool
  | add a | remove a | toggle a | setEnabled a _ => a = address
  | clear => true

/-- Whether a breakpoint is at an address after an edit, given whether one was there before. -/
@[simp] def leavesPresent (address : UInt16) (present : Bool) : Edit → Bool
  | add a => if a = address then true else present
  | remove a => if a = address then false else present
  | toggle a => if a = address then !present else present
  | setEnabled _ _ => present
  | clear => false

/-- The position in which an edit leaves the switch of a breakpoint at an address, if it touches
it. A toggle touches it by putting a breakpoint there that is on. -/
@[simp] def switch? (address : UInt16) : Edit → Option Bool
  | add a => if a = address then some true else none
  | remove _ => none
  | toggle a => if a = address then some true else none
  | setEnabled a on => if a = address then some on else none
  | clear => none

theorem get?_perform {address : UInt16} (edit : Edit) (h : edit.concerns address = false)
    {b : Breakpoints} : (edit.perform b).2.get? address = b.get? address := by
  cases edit with
  | add a => exact (b.get?_add a address).trans (if_neg (of_decide_eq_false h))
  | remove a => exact (b.get?_remove a address).trans (if_neg (of_decide_eq_false h))
  | toggle a => exact (b.get?_toggle a address).trans (if_neg (of_decide_eq_false h))
  | setEnabled a on => exact (b.get?_setEnabled a address on).trans (if_neg (of_decide_eq_false h))
  | clear => cases h

end Breakpoints.Edit

namespace Debugger

/-! ## The replay for one address -/

namespace Call

/-- Whether a breakpoint is at an address after a call, given whether one was there before. -/
@[simp] def leavesPresent (address : UInt16) (present : Bool) : Call → Bool
  | edit e => e.leavesPresent address present
  | _ => present

/-- The position in which a call leaves the switch of a breakpoint at an address, if it touches
it. -/
@[simp] def switch? (address : UInt16) : Call → Option Bool
  | edit e => e.switch? address
  | _ => none

end Call

/-- Whether an answer is that a run has stopped at the breakpoint at an address. -/
def Answer.isStop (address : UInt16) : Answer → Bool
  | ran (.ok (.breakpoint a)) => a = address
  | _ => false

/-- Whether a breakpoint is at an address after some calls. Here and below the latest call comes
first. -/
def present (address : UInt16) : List (Call × Answer) → Bool
  | [] => false
  | (call, _) :: earlier => call.leavesPresent address (present address earlier)

/-- The position in which the last call that touched the switch left it. -/
def switchedOn (address : UInt16) : List (Call × Answer) → Bool
  | [] => false
  | (call, _) :: earlier => (call.switch? address).getD (switchedOn address earlier)

/-- Whether a call puts a breakpoint at an address where none is. -/
def inserts (address : UInt16) (call : Call) (earlier : List (Call × Answer)) : Bool :=
  (call = .edit (.add address) || call = .edit (.toggle address)) && !present address earlier

/-- The calls since the last one that put a breakpoint at an address. -/
def sinceInsertion (address : UInt16) : List (Call × Answer) → List (Call × Answer)
  | [] => []
  | (call, answer) :: earlier =>
    if inserts address call earlier then [] else (call, answer) :: sinceInsertion address earlier

/-- How many runs stopped at the breakpoint at an address. -/
def stops (address : UInt16) (past : List (Call × Answer)) : Nat :=
  past.countP fun entry => entry.2.isStop address

/-- What is kept for an address after some calls. -/
def recalled (address : UInt16) (past : List (Call × Answer)) : Option Breakpoint :=
  if present address past then
    some {
      enabled := switchedOn address past
      hits := UInt32.ofNat (stops address (sinceInsertion address past)) }
  else none

variable {address : UInt16} {call : Call} {answer : Answer} {past : List (Call × Answer)}
  {b : Breakpoints} {d : Debugger} {m : Machine}

theorem isSome_recalled (address : UInt16) (past : List (Call × Answer)) :
    (recalled address past).isSome = present address past := by
  rw [recalled]
  cases present address past <;> rfl

theorem stops_sinceInsertion_le (address : UInt16) (past : List (Call × Answer)) :
    stops address (sinceInsertion address past) ≤ stops address past := by
  induction past with
  | nil => exact Nat.le_refl _
  | cons entry earlier ih =>
      rw [sinceInsertion]
      split
      · exact Nat.zero_le _
      · rw [stops, stops, List.countP_cons, List.countP_cons]
        exact Nat.add_le_add_right ih _

/-- A call that does not touch what is kept for an address. -/
theorem recalled_cons_of_idle
    (hpresent : call.leavesPresent address (present address past) = present address past)
    (hswitch : call.switch? address = none) (hstop : answer.isStop address = false) :
    recalled address ((call, answer) :: past) = recalled address past := by
  have hinserts : inserts address call past = false := by
    by_contra hne
    rw [Bool.not_eq_false, inserts, Bool.and_eq_true, Bool.or_eq_true, decide_eq_true_eq,
      decide_eq_true_eq] at hne
    obtain ⟨rfl | rfl, -⟩ := hne <;> simp at hswitch
  have hsince : stops address ((call, answer) :: sinceInsertion address past) =
      stops address (sinceInsertion address past) :=
    List.countP_cons_of_neg (by simp [hstop])
  rw [recalled, present, switchedOn, sinceInsertion, hpresent, hswitch, hinserts,
    if_neg Bool.false_ne_true, hsince]
  rfl

/-! ## One call -/

theorem recalled_add (answer : Option Bool) :
    recalled address ((.edit (.add address), .edited answer) :: past) =
      some { (recalled address past).getD {} with enabled := true } := by
  cases hpresent : present address past with
  | true => simp [recalled, present, switchedOn, sinceInsertion, inserts, stops, Answer.isStop,
      hpresent]
  | false => simp [recalled, present, switchedOn, sinceInsertion, inserts, stops, hpresent]

theorem recalled_remove (answer : Option Bool) :
    recalled address ((.edit (.remove address), .edited answer) :: past) = none := by
  simp [recalled, present]

theorem recalled_toggle (answer : Option Bool) :
    recalled address ((.edit (.toggle address), .edited answer) :: past) =
      if present address past then none else some {} := by
  cases hpresent : present address past with
  | true => simp [recalled, present, hpresent]
  | false => simp [recalled, present, switchedOn, sinceInsertion, inserts, stops, hpresent]

theorem recalled_setEnabled (on : Bool) (answer : Option Bool) :
    recalled address ((.edit (.setEnabled address on), .edited answer) :: past) =
      (recalled address past).map ({ · with enabled := on }) := by
  cases hpresent : present address past <;>
    simp [recalled, present, switchedOn, sinceInsertion, inserts, stops, Answer.isStop, hpresent]

theorem recalled_clear (answer : Option Bool) :
    recalled address ((.edit .clear, .edited answer) :: past) = none := by
  simp [recalled, present]

theorem recalled_edit_of_not_concerns {edit : Breakpoints.Edit}
    (h : edit.concerns address = false) (answer : Option Bool) :
    recalled address ((.edit edit, .edited answer) :: past) = recalled address past := by
  apply recalled_cons_of_idle <;>
    cases edit <;> simp_all [Breakpoints.Edit.concerns, Answer.isStop]

theorem get?_edit (edit : Breakpoints.Edit) (h : b.get? address = recalled address past) :
    (edit.perform b).2.get? address =
      recalled address ((.edit edit, .edited (edit.perform b).1) :: past) := by
  cases hconcerns : edit.concerns address with
  | false => rw [edit.get?_perform hconcerns, recalled_edit_of_not_concerns hconcerns, h]
  | true =>
      cases edit with
      | add a =>
          obtain rfl : a = address := of_decide_eq_true hconcerns
          rw [recalled_add, ← h]
          exact (b.get?_add a a).trans (if_pos rfl)
      | remove a =>
          obtain rfl : a = address := of_decide_eq_true hconcerns
          rw [recalled_remove]
          exact (b.get?_remove a a).trans (if_pos rfl)
      | toggle a =>
          obtain rfl : a = address := of_decide_eq_true hconcerns
          rw [recalled_toggle, ← isSome_recalled, ← h]
          exact (b.get?_toggle a a).trans (if_pos rfl)
      | setEnabled a on =>
          obtain rfl : a = address := of_decide_eq_true hconcerns
          rw [recalled_setEnabled, ← h]
          exact (b.get?_setEnabled a a on).trans (if_pos rfl)
      | clear => exact (Breakpoints.get?_empty address).trans (recalled_clear none).symm

theorem breakpoints_step (d : Debugger) (m : Machine) :
    (d.step m).2.1.breakpoints = d.breakpoints := by
  cases hi : m.instruction? with
  | none =>
      rw [step_of_fault (Machine.step_of_instruction?_eq_none hi)]
      exact d.breakpoints_observe m
  | some i =>
      rw [step_of_ok (Machine.step_of_instruction? hi)]
      exact d.breakpoints_advance m

theorem isStop_ran {result : Except Fault StopReason} :
    (Answer.ran result).isStop address ↔ result = .ok (.breakpoint address) := by
  cases result with
  | error => simp [Answer.isStop]
  | ok reason => cases reason <;> simp [Answer.isStop]

theorem recalled_run_of_stop {budget : Nat} {entry : Breakpoint}
    (h : recalled address past = some entry) :
    recalled address ((.run budget, .ran (.ok (.breakpoint address))) :: past) =
      some { entry with hits := entry.hits + 1 } := by
  have hpresent : present address past = true := by rw [← isSome_recalled, h, Option.isSome_some]
  rw [recalled, if_pos hpresent] at h
  obtain rfl := Option.some.inj h
  simp [recalled, present, switchedOn, sinceInsertion, inserts, stops, Answer.isStop, hpresent]

theorem get?_run (d : Debugger) (m : Machine) (budget : Nat)
    (h : d.breakpoints.get? address = recalled address past) :
    (d.run m budget).2.1.breakpoints.get? address =
      recalled address ((.run budget, .ran (d.run m budget).1) :: past) := by
  obtain ⟨k, hends⟩ := d.exists_endsAt m budget
  by_cases hstop : (d.run m budget).1 = .ok (.breakpoint address)
  · obtain ⟨entry, hentry, -, hhit⟩ := hends.hit address hstop
    rw [hstop, hhit, recalled_run_of_stop (h.symm.trans hentry)]
  · rw [hends.others address hstop, h, recalled_cons_of_idle rfl rfl]
    exact Bool.eq_false_iff.mpr fun hne => hstop (isStop_ran.mp hne)

/-! ## All calls -/

theorem get?_used (capacity : Nat) (address : UInt16) (uses : List Use) :
    ((withCapacity capacity).used uses).breakpoints.get? address =
      recalled address ((withCapacity capacity).transcript uses) := by
  induction uses with
  | nil => exact Breakpoints.get?_empty address
  | cons use earlier ih =>
      obtain ⟨call, m⟩ := use
      rw [used, transcript]
      cases call with
      | edit edit => exact get?_edit edit ih
      | setMode | setTracing | clearTrace => exact ih.trans (recalled_cons_of_idle rfl rfl rfl).symm
      | step =>
          refine Eq.trans ?_ (ih.trans (recalled_cons_of_idle rfl rfl rfl).symm)
          exact congrArg (·.get? address) (breakpoints_step _ m)
      | run budget => exact get?_run _ m budget ih

theorem any_enabled_recalled (address : UInt16) (past : List (Call × Answer)) :
    (recalled address past).any Breakpoint.enabled =
      (present address past && switchedOn address past) := by
  rw [recalled]
  cases present address past <;> rfl

theorem hits_of_recalled {entry : Breakpoint} (h : recalled address past = some entry)
    (hstops : stops address past < UInt32.size) :
    entry.hits.toNat = stops address (sinceInsertion address past) := by
  have hpresent : present address past = true := by rw [← isSome_recalled, h, Option.isSome_some]
  rw [recalled, if_pos hpresent] at h
  obtain rfl := Option.some.inj h
  exact UInt32.toNat_ofNat_of_lt' (Nat.lt_of_le_of_lt (stops_sinceInsertion_le address past) hstops)

/-- The breakpoints of a debugger after any calls, on any machines, are those that the calls and
their answers tell, and so is what a call that edits them answers. -/
theorem breakpoints_replay (capacity : Nat) (uses : List Use) :
    let d := withCapacity capacity
    let b := (d.used uses).breakpoints
    let past := d.transcript uses
    (b.toList.map Prod.fst).Pairwise (· < ·) ∧
    (∀ address entry, (address, entry) ∈ b.toList ↔ b.get? address = some entry) ∧
    b.toList.length = b.size ∧
    ∀ address,
      (b.get? address).isSome = present address past ∧
      b.contains address = (present address past && switchedOn address past) ∧
      (∀ entry, b.get? address = some entry → stops address past < UInt32.size →
        entry.hits.toNat = stops address (sinceInsertion address past)) ∧
      ∀ m on,
        ((Call.edit (.remove address)).perform (d.used uses) m).1 =
          .edited (some (present address past)) ∧
        ((Call.edit (.setEnabled address on)).perform (d.used uses) m).1 =
          .edited (some (present address past)) ∧
        ((Call.edit (.toggle address)).perform (d.used uses) m).1 =
          .edited
            (some (present address (d.transcript (⟨.edit (.toggle address), m⟩ :: uses)))) := by
  intro d b past
  refine ⟨b.pairwise_toList, fun address entry => b.mem_toList, b.length_toList, fun address => ?_⟩
  have hget : b.get? address = recalled address past := get?_used capacity address uses
  have hsome : (b.get? address).isSome = present address past := by rw [hget, isSome_recalled]
  refine ⟨hsome, ?_, fun entry hentry hstops => ?_, fun m on => ⟨?_, ?_, ?_⟩⟩
  · rw [Breakpoints.contains, hget, any_enabled_recalled]
  · exact hits_of_recalled (hget.symm.trans hentry) hstops
  · rw [← hsome]
    rfl
  · rw [← hsome, ← Breakpoints.fst_setEnabled b address on]
    rfl
  · have htoggle : present address (d.transcript (⟨.edit (.toggle address), m⟩ :: uses)) =
        !present address past := if_pos rfl
    rw [htoggle, ← hsome, ← Breakpoints.fst_toggle]
    rfl

/-- A breakpoint that was hit, switched off and put there again keeps its hit. -/
theorem breakpoints_replay_put_again :
    let m := ({} : Machine).load 0 [0x4C, 0, 0]
    let d := withCapacity 0
    let uses := [⟨.edit (.add 0), m⟩, ⟨.edit (.setEnabled 0 false), m⟩, ⟨.run 5, m⟩,
      ⟨.edit (.add 0), m⟩]
    ∃ entry, (d.used uses).breakpoints.get? 0 = some entry ∧
      stops 0 (d.transcript uses) < UInt32.size ∧
      (d.used uses).breakpoints.contains 0 ∧ entry.hits.toNat = 1 := by
  intro m d uses
  have hinstruction : m.instruction? = some ⟨0x4C, .jmp, .absolute, 3⟩ :=
    Machine.instruction?_of_lookup (by decide +kernel) (by decide)
  have hloop : (m.apply (m.change ⟨0x4C, .jmp, .absolute, 3⟩)).pc = 0 := by decide +kernel
  have hset : (d.used [⟨.edit (.add 0), m⟩]).breakpoints.contains 0 := by
    rw [Breakpoints.contains, get?_used, any_enabled_recalled]
    rfl
  have hrun : ((d.used [⟨.edit (.add 0), m⟩]).run m 5).1 = .ok (.breakpoint 0) := by
    rw [run_succ_of_ok (Machine.step_of_instruction? hinstruction), hloop, if_pos hset]
  obtain ⟨answer, hpast⟩ : ∃ answer, d.transcript uses =
      [(.edit (.add 0), .edited none), (.edit (.setEnabled 0 false), .edited answer),
        (.run 5, .ran (.ok (.breakpoint 0))), (.edit (.add 0), .edited none)] :=
    ⟨_, by rw [← hrun]; rfl⟩
  obtain ⟨-, -, -, hreplay⟩ := breakpoints_replay 0 uses
  obtain ⟨hsome, hcontains, hhits, -⟩ := hreplay 0
  rw [hpast] at hsome hcontains hhits
  have hstops : stops 0 (d.transcript uses) < UInt32.size := by
    rw [hpast]
    exact (by decide : 1 < UInt32.size)
  obtain ⟨entry, hentry⟩ := Option.isSome_iff_exists.mp hsome
  exact ⟨entry, hentry, hstops, hcontains, hhits entry hentry (hpast ▸ hstops)⟩

end Debugger

end Core6502
