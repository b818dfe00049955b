import Core6502.Proofs.Failure

/-!
# Where a run of the debugger ends

A run executes instructions until the first number of them at which something asks it to end:
the program counter has come to an enabled breakpoint, the mode is to execute one at a time, the
budget is used up, or the next instruction cannot be executed. `ending?` lists these in the order
in which they win. What a run leaves behind follows from that number.
-/

namespace Core6502

namespace Debugger

/-- Why a run ends once it has executed `k` instructions, if it does. -/
def ending? (d : Debugger) (m : Machine) (budget k : Nat) : Option (Except Fault StopReason) :=
  if 1 ≤ k ∧ d.breakpoints.contains (m.after k).pc then
    some (.ok (.breakpoint (m.after k).pc))
  else if k = 1 ∧ d.mode = .single then some (.ok .stepped)
  else if k = budget then some (.ok .stepLimit)
  else
    match (m.after k).step.1 with
    | .error fault => some (.error fault)
    | .ok _ => none

/-- The debugger after it has executed an instruction of a machine. -/
def advance (d : Debugger) (m : Machine) : Debugger :=
  { d.observe m with executed := d.executed + 1 }

variable {d : Debugger} {m n : Machine} {cost budget k : Nat}

theorem breakpoints_observe (d : Debugger) (m : Machine) :
    (d.observe m).breakpoints = d.breakpoints := by
  unfold observe
  split <;> rfl

theorem mode_observe (d : Debugger) (m : Machine) : (d.observe m).mode = d.mode := by
  unfold observe
  split <;> rfl

theorem breakpoints_advance (d : Debugger) (m : Machine) :
    (d.advance m).breakpoints = d.breakpoints := d.breakpoints_observe m

theorem mode_advance (d : Debugger) (m : Machine) : (d.advance m).mode = d.mode :=
  d.mode_observe m

theorem step_of_ok (h : m.step = (.ok cost, n)) : d.step m = (.ok cost, d.advance m, n) := by
  simp only [step, h, executed_observe, advance]

/-- What a turn does after a step that succeeds. -/
theorem turn_of_ok (h : m.step = (.ok cost, n)) :
    d.turn m =
      if d.breakpoints.contains n.pc then
        (some (.ok (.breakpoint n.pc)),
          { d.advance m with breakpoints := (d.breakpoints.hit n.pc).2 }, n)
      else (if d.mode = .single then some (.ok .stepped) else none, d.advance m, n) := by
  have hhit : d.breakpoints.hit n.pc =
      (d.breakpoints.contains n.pc, (d.breakpoints.hit n.pc).2) :=
    Prod.ext (d.breakpoints.fst_hit n.pc) rfl
  rw [turn, step_of_ok h]
  dsimp only
  rw [breakpoints_advance, mode_advance, hhit]
  cases d.breakpoints.contains n.pc <;> rfl

/-! ## The first ending -/

theorem ending?_zero (h : m.step = (.ok cost, n)) (hbudget : budget ≠ 0) :
    d.ending? m budget 0 = none := by
  have hstep : (m.after 0).step.1 = .ok cost := congrArg Prod.fst h
  simp [ending?, hstep, hbudget.symm]

/-- After a turn that ends nothing, the rest of the run ends where the run does. -/
theorem ending?_succ (h : m.step = (.ok cost, n))
    (hpc : d.breakpoints.contains n.pc = false) (hmode : d.mode ≠ .single) :
    d.ending? m (budget + 1) (k + 1) = (d.advance m).ending? n budget k := by
  rw [ending?, ending?, Machine.after_succ_of_step_ok h, breakpoints_advance, mode_advance]
  cases k with
  | zero =>
      have hstart : n.after 0 = n := rfl
      simp [hstart, hpc, hmode, @eq_comm _ 0 budget]
  | succ k => simp [hmode]

/-- What holds of a run and what it leaves behind, if it ends after `k` instructions. -/
structure EndsAt (d : Debugger) (m : Machine) (budget k : Nat)
    (outcome : Except Fault StopReason × Debugger × Machine) : Prop where
  ends : d.ending? m budget k = some outcome.1
  first : ∀ j < k, d.ending? m budget j = none
  executes : m.Executes k outcome.2.2
  executed : outcome.2.1.executed = d.executed + UInt64.ofNat k
  hit : ∀ address, outcome.1 = .ok (.breakpoint address) → ∃ entry : Breakpoint,
    d.breakpoints.get? address = some entry ∧ entry.enabled ∧
      outcome.2.1.breakpoints.get? address = some { entry with hits := entry.hits + 1 }
  others : ∀ address, outcome.1 ≠ .ok (.breakpoint address) →
    outcome.2.1.breakpoints.get? address = d.breakpoints.get? address

theorem endsAt_zero (d : Debugger) (m : Machine) : d.EndsAt m 0 0 (d.run m 0) where
  ends := rfl
  first := fun j hj => absurd hj (Nat.not_lt_zero j)
  executes := .refl m
  executed := (UInt64.add_zero _).symm
  hit := fun _ h => nomatch h
  others := fun _ _ => rfl

theorem endsAt_of_fault {fault : Fault} (h : m.step = (.error fault, m)) :
    d.EndsAt m (budget + 1) 0 (d.run m (budget + 1)) := by
  rw [run_of_fault h (Nat.succ_ne_zero budget)]
  have hstep : (m.after 0).step.1 = .error fault := congrArg Prod.fst h
  refine ⟨?_, fun j hj => absurd hj (Nat.not_lt_zero j), .refl m, ?_, fun _ h => (nomatch h), ?_⟩
  · simp [ending?, hstep]
  · rw [executed_observe]
    exact (UInt64.add_zero _).symm
  · intro address _
    rw [breakpoints_observe]

theorem run_succ_of_ok (h : m.step = (.ok cost, n)) (budget : Nat) :
    d.run m (budget + 1) =
      if d.breakpoints.contains n.pc then
        (.ok (.breakpoint n.pc),
          { d.advance m with breakpoints := (d.breakpoints.hit n.pc).2 }, n)
      else if d.mode = .single then (.ok .stepped, d.advance m, n)
      else (d.advance m).run n budget := by
  rw [run, turn_of_ok h]
  by_cases hpc : d.breakpoints.contains n.pc
  · rw [if_pos hpc, if_pos hpc]
  · by_cases hmode : d.mode = .single
    · rw [if_neg hpc, if_neg hpc, if_pos hmode, if_pos hmode]
    · rw [if_neg hpc, if_neg hpc, if_neg hmode, if_neg hmode]

theorem first_one (h : m.step = (.ok cost, n)) :
    ∀ j < 1, d.ending? m (budget + 1) j = none := by
  intro j hj
  obtain rfl : j = 0 := by omega
  exact ending?_zero h (Nat.succ_ne_zero budget)

theorem endsAt_of_breakpoint (h : m.step = (.ok cost, n))
    (hpc : d.breakpoints.contains n.pc) :
    d.EndsAt m (budget + 1) 1 (d.run m (budget + 1)) := by
  have hone : m.after 1 = n := Machine.after_succ_of_step_ok h 0
  rw [run_succ_of_ok h, if_pos hpc]
  refine ⟨?_, first_one h, .single h, rfl, fun address haddress => ?_, fun address haddress => ?_⟩
  · simp [ending?, hone, hpc]
  · obtain rfl : n.pc = address := StopReason.breakpoint.inj (Except.ok.inj haddress)
    obtain ⟨entry, hentry, henabled⟩ := (Option.any_eq_true _ _).mp hpc
    refine ⟨entry, hentry, henabled, ?_⟩
    rw [Breakpoints.get?_hit, if_pos ⟨rfl, hpc⟩, hentry]
    rfl
  · have hne : n.pc ≠ address := fun heq => haddress (heq ▸ rfl)
    rw [Breakpoints.get?_hit, if_neg fun hboth => hne hboth.1]

theorem endsAt_of_single (h : m.step = (.ok cost, n))
    (hpc : d.breakpoints.contains n.pc = false) (hmode : d.mode = .single) :
    d.EndsAt m (budget + 1) 1 (d.run m (budget + 1)) := by
  have hone : m.after 1 = n := Machine.after_succ_of_step_ok h 0
  rw [run_succ_of_ok h, hpc, if_neg Bool.false_ne_true, if_pos hmode]
  refine ⟨?_, first_one h, .single h, rfl, fun _ h => (nomatch h), fun address _ => ?_⟩
  · simp [ending?, hone, hpc, hmode]
  · rw [breakpoints_advance]

theorem EndsAt.succ {outcome : Except Fault StopReason × Debugger × Machine}
    (hrest : (d.advance m).EndsAt n budget k outcome) (h : m.step = (.ok cost, n))
    (hpc : d.breakpoints.contains n.pc = false) (hmode : d.mode ≠ .single) :
    d.EndsAt m (budget + 1) (k + 1) outcome where
  ends := (ending?_succ h hpc hmode).trans hrest.ends
  first := by
    intro j hj
    cases j with
    | zero => exact ending?_zero h (Nat.succ_ne_zero budget)
    | succ j => exact (ending?_succ h hpc hmode).trans (hrest.first j (Nat.lt_of_succ_lt_succ hj))
  executes := .cons h hrest.executes
  executed := by
    rw [hrest.executed, advance, UInt64.ofNat_add, UInt64.add_assoc, UInt64.add_comm 1]
    rfl
  hit := fun address haddress => d.breakpoints_advance m ▸ hrest.hit address haddress
  others := fun address haddress =>
    (hrest.others address haddress).trans (by rw [breakpoints_advance])

theorem exists_endsAt (d : Debugger) (m : Machine) (budget : Nat) :
    ∃ k, d.EndsAt m budget k (d.run m budget) := by
  induction budget generalizing d m with
  | zero => exact ⟨0, endsAt_zero d m⟩
  | succ budget ih =>
      cases hi : m.instruction? with
      | none => exact ⟨0, endsAt_of_fault (Machine.step_of_instruction?_eq_none hi)⟩
      | some i =>
          have h := Machine.step_of_instruction? hi
          cases hpc : d.breakpoints.contains (m.apply (m.change i)).pc with
          | true => exact ⟨1, endsAt_of_breakpoint h hpc⟩
          | false =>
              by_cases hmode : d.mode = .single
              · exact ⟨1, endsAt_of_single h hpc hmode⟩
              · obtain ⟨k, hrest⟩ := ih (d.advance m) (m.apply (m.change i))
                rw [run_succ_of_ok h, hpc, if_neg Bool.false_ne_true, if_neg hmode]
                exact ⟨k + 1, hrest.succ h hpc hmode⟩

theorem ending?_budget_ne_none (d : Debugger) (m : Machine) (budget : Nat) :
    d.ending? m budget budget ≠ none := by
  unfold ending?
  split
  · exact Option.some_ne_none _
  · split
    · exact Option.some_ne_none _
    · rw [if_pos rfl]
      exact Option.some_ne_none _

theorem EndsAt.le_budget {outcome : Except Fault StopReason × Debugger × Machine}
    (h : d.EndsAt m budget k outcome) : k ≤ budget := by
  by_contra hlt
  exact d.ending?_budget_ne_none m budget (h.first budget (Nat.lt_of_not_le hlt))

theorem ending?_eq_breakpoint {address : UInt16}
    (h : d.ending? m budget k = some (.ok (.breakpoint address))) :
    1 ≤ k ∧ (m.after k).pc = address := by
  unfold ending? at h
  split at h
  · next hstop =>
      exact ⟨hstop.1, StopReason.breakpoint.inj (Except.ok.inj (Option.some.inj h))⟩
  · exfalso
    split at h
    · cases h
    · split at h
      · cases h
      · split at h <;> cases h

/-- A run ends at the first number of executed instructions that has an ending, with that ending.
A breakpoint does not end it before the first instruction, and wins over a budget that is used
up at the same time. -/
theorem run_ends_first (d : Debugger) (m : Machine) (budget : Nat) :
    ∃ k ≤ budget, d.EndsAt m budget k (d.run m budget) ∧
      (∀ address, (d.run m budget).1 = .ok (.breakpoint address) →
        1 ≤ k ∧ (m.after k).pc = address) ∧
      (1 ≤ k → d.breakpoints.contains (m.after k).pc →
        (d.run m budget).1 = .ok (.breakpoint (m.after k).pc)) := by
  obtain ⟨k, h⟩ := d.exists_endsAt m budget
  have hends := h.ends
  refine ⟨k, h.le_budget, h, fun address haddress => ?_, fun hk hpc => ?_⟩
  · exact ending?_eq_breakpoint (haddress ▸ hends)
  · rw [ending?, if_pos ⟨hk, hpc⟩] at hends
    exact (Option.some.inj hends).symm

/-- A jump to itself, with a breakpoint on it and a budget of one. -/
theorem run_ends_first_loop :
    let m := ({} : Machine).load 0 [0x4C, 0, 0]
    let d := { new with breakpoints := ({} : Breakpoints).add 0 }
    m.pc = 0 ∧ (d.run m 1).1 = .ok (.breakpoint 0) ∧ (m.after 1).pc = 0 ∧
      ∃ entry : Breakpoint, d.breakpoints.get? 0 = some entry ∧
        (d.run m 1).2.1.breakpoints.get? 0 = some { entry with hits := entry.hits + 1 } := by
  intro m d
  have hinstruction : m.instruction? = some ⟨0x4C, .jmp, .absolute, 3⟩ :=
    Machine.instruction?_of_lookup (by decide +kernel) (by decide)
  have hloop : (m.after 1).pc = 0 := by
    rw [Machine.after_succ_of_step_ok (Machine.step_of_instruction? hinstruction)]
    decide +kernel
  have hset : d.breakpoints.contains 0 := by
    rw [Breakpoints.contains, Breakpoints.get?_add]
    rfl
  obtain ⟨k, hk, h, -, hwins⟩ := d.run_ends_first m 1
  have hpositive : 1 ≤ k := by
    by_contra hzero
    obtain rfl : k = 0 := by omega
    have hends := h.ends
    rw [ending?_zero (Machine.step_of_instruction? hinstruction) Nat.one_ne_zero] at hends
    cases hends
  obtain rfl : k = 1 := by omega
  have hstop := hwins hpositive (by rwa [hloop])
  rw [hloop] at hstop
  obtain ⟨entry, hentry, -, hhits⟩ := h.hit 0 hstop
  exact ⟨rfl, hstop, hloop, entry, hentry, hhits⟩

end Debugger

end Core6502
