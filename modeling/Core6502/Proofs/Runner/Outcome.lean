import Core6502.Proofs.Debug.Recording
import Core6502.Proofs.Runner.CommandLine
import Core6502.Proofs.Runner.Start

/-!
# What a run of an image prints

The program executes instructions of the image until one of the breakpoints of the command line is
reached, the budget is used up, or there is nothing to execute. What it prints is told from the
machine that it started with and the number of instructions until then.
-/

namespace Core6502

namespace Debugger

variable {d : Debugger}

/-- What a run with an empty history leaves as its trace. -/
theorem trace_run (hempty : d.history.latest = []) (m : Machine) (budget : Nat) :
    (d.run m budget).2.1.trace =
      if d.tracing then
        ((d.attempted m budget).map TraceEntry.ofMachine).rtake d.history.capacity
      else [] := by
  rw [trace, (d.records_run m budget).history, remember, History.toList]
  split
  · rw [History.latest_foldl_record, hempty, List.append_nil, List.rtake_eq_reverse_take_reverse]
  · rw [hempty, List.reverse_nil]

end Debugger

namespace Machine

/-- Why the next step fails, if it does. -/
def fault? (m : Machine) : Option Fault :=
  match m.step.1 with
  | .error fault => some fault
  | .ok _ => none

/-- Why the program stops once it has executed `k` instructions from `c`, if it does. -/
def stop? (c : Machine) (breakpoints : List UInt16) (budget k : Nat) :
    Option (Except Fault StopReason) :=
  if 1 ≤ k ∧ (c.after k).pc ∈ breakpoints then some (.ok (.breakpoint (c.after k).pc))
  else if k = budget then some (.ok .stepLimit)
  else (c.after k).fault?.map .error

/-- The first number of executed instructions at which the program stops, and why. -/
structure StopsFirst (c : Machine) (breakpoints : List UInt16) (budget k : Nat)
    (cause : Except Fault StopReason) : Prop where
  succeeds : (c.steps k).fault = none
  stops : c.stop? breakpoints budget k = some cause
  first : ∀ j < k, c.stop? breakpoints budget j = none

variable {c : Machine} {breakpoints : List UInt16} {budget k : Nat} {fault : Fault}

/-- There is one first stop. -/
theorem StopsFirst.eq {i : Nat} {cause found : Except Fault StopReason}
    (h : c.StopsFirst breakpoints budget k cause)
    (hbefore : ∀ j < i, c.stop? breakpoints budget j = none)
    (hfound : c.stop? breakpoints budget i = some found) : k = i ∧ cause = found := by
  have hle : ¬ i < k := fun hlt => by
    rw [h.first i hlt] at hfound
    cases hfound
  have hge : ¬ k < i := fun hlt => by
    have hstops := h.stops
    rw [hbefore k hlt] at hstops
    cases hstops
  obtain rfl : k = i := by omega
  exact ⟨rfl, Option.some.inj (h.stops.symm.trans hfound)⟩

/-- Before its first instruction a program stops only because there is none, or none is allowed. -/
theorem stop?_zero {i : Instruction} (hi : c.instruction? = some i) (hbudget : 0 ≠ budget) :
    c.stop? breakpoints budget 0 = none := by
  have hfault : (c.after 0).fault? = none := by
    show c.fault? = none
    rw [fault?, step_of_instruction? hi]
  rw [stop?, if_neg fun h => Nat.not_succ_le_zero 0 h.1, if_neg hbudget, hfault]
  rfl

theorem fault?_eq_some {m : Machine} (h : m.fault? = some fault) :
    fault = .unknownOpcode (m.memory.read m.pc) := by
  cases hi : m.instruction? with
  | none =>
      rw [fault?, step_of_instruction?_eq_none hi] at h
      exact (Option.some.inj h).symm
  | some i =>
      rw [fault?, step_of_instruction? hi] at h
      cases h

/-- What ends a run with a fault is the opcode at the program counter. -/
theorem fault_of_stop? (h : c.stop? breakpoints budget k = some (.error fault)) :
    fault = .unknownOpcode ((c.after k).memory.read (c.after k).pc) := by
  unfold stop? at h
  split at h
  · cases h
  · split at h
    · cases h
    · obtain ⟨found, hfound, heq⟩ := Option.map_eq_some_iff.mp h
      exact Except.error.inj heq ▸ fault?_eq_some hfound

end Machine

namespace Options

variable {o : Options} {env : Environment} {c : Machine} {budget k : Nat}

theorem contains_debugger (o : Options) (env : Environment) (address : UInt16) :
    (o.debugger env).breakpoints.contains address ↔ address ∈ o.breakpoints := by
  rw [Breakpoints.contains, debugger, Breakpoints.get?_foldl_add, Breakpoints.get?_empty]
  by_cases h : address ∈ o.breakpoints
  · simp [h]
  · simp [h]

theorem ending?_debugger (o : Options) (env : Environment) (c : Machine) (budget k : Nat) :
    (o.debugger env).ending? c budget k = c.stop? o.breakpoints budget k := by
  have hmode : (o.debugger env).mode ≠ .single := StepMode.noConfusion
  rw [Debugger.ending?, Machine.stop?, Machine.fault?]
  simp only [contains_debugger, hmode, and_false, if_false]
  cases (c.after k).step.1 <;> rfl

/-- A budget that the program accepts, from the command line or the environment, is a number that
the count of executed instructions can reach. -/
theorem budget_lt {gs : List Group} (hvalid : ∀ g ∈ gs, g.Valid)
    (value? : String → Option String) :
    (Group.options gs).budget (.ofVariables value?) < UInt64.size := by
  rw [budget]
  cases hsteps : (Group.options gs).steps with
  | some n =>
      have hmem : n ∈ Group.values .steps gs := List.mem_of_getLast? hsteps
      exact Group.lt_bound_of_mem_values hvalid hmem
  | none =>
      rw [Option.getD_none, Environment.ofVariables]
      cases hcount : (value? "NES_CPU_MAX_STEPS").bind Numeral.count? with
      | none => exact (by decide : 1000000 < UInt64.size)
      | some n =>
          obtain ⟨text, -, htext⟩ := Option.bind_eq_some_iff.mp hcount
          exact (Group.below?_eq_some.mp htext).2

end Options

namespace Report

variable {gs : List Group} {words : List String} {name : String} {image : List UInt8}
  {o : Options} {env : Environment} {c : Machine} {k : Nat}

theorem exists_stopsFirst (o : Options) (env : Environment) (c : Machine) (budget : Nat) :
    ∃ k, (o.debugger env).EndsAt c budget k ((o.debugger env).run c budget) ∧
      c.StopsFirst o.breakpoints budget k ((o.debugger env).run c budget).1 := by
  obtain ⟨k, h⟩ := (o.debugger env).exists_endsAt c budget
  refine ⟨k, h, h.executes.succeeds, ?_, fun j hj => ?_⟩
  · rw [← o.ending?_debugger env]
    exact h.ends
  · rw [← o.ending?_debugger env]
    exact h.first j hj

/-- The summary of a run that executed `k` instructions and led to a machine. -/
def summary (reason : StopReason) (k : Nat) (m : Machine) : List String :=
  [String.join ["stopped: ", reason.message],
    String.join ["PC:", String.ofList (Hex.word m.pc), " ", String.ofList m.registers.line,
      " CYC:", toString m.cycles.toNat, " instructions:", toString k]]

/-- The lines for the last attempts of a run that executed `k` instructions and could not go on. -/
def lastAttempts (k : Nat) (c : Machine) : List String :=
  (((List.range (k + 1)).map c.after).map fun m => (TraceEntry.ofMachine m).text).rtake 1000

theorem ofRun_ok {budget : Nat} {reason : StopReason}
    {outcome : Except Fault StopReason × Debugger × Machine}
    (h : (o.debugger env).EndsAt c budget k outcome) (hbudget : budget < UInt64.size)
    (hreason : outcome.1 = .ok reason) :
    ofRun env outcome =
      { exitCode := 0
        out := if env.quiet then [] else summary reason k (c.after k)
        err := [] } := by
  obtain ⟨result, d, m⟩ := outcome
  obtain rfl : result = .ok reason := hreason
  have hexecuted : d.executed.toNat = k := by
    have hlt : k < UInt64.size := Nat.lt_of_le_of_lt h.le_budget hbudget
    have heq : d.executed = 0 + UInt64.ofNat k := h.executed
    rw [heq, UInt64.zero_add, UInt64.toNat_ofNat_of_lt' hlt]
  have hm : c.after k = m := h.executes.machine_eq
  rw [ofRun, summary, stateLine, hexecuted, hm]
  split <;> rfl

theorem errorLine_eq (fault : Fault) :
    String.join ["error: ", fault.message] =
      "error: unknown opcode: 0x" ++ String.ofList (Hex.byte fault.opcode) := by
  rw [Fault.message]
  generalize String.ofList (Hex.byte fault.opcode) = opcode
  simp only [String.join, List.foldl_cons, List.foldl_nil, ← String.append_assoc]
  rfl

theorem ofRun_error {budget : Nat} {fault : Fault}
    (h : (o.debugger env).EndsAt c budget k ((o.debugger env).run c budget))
    (hfault : ((o.debugger env).run c budget).1 = .error fault) :
    ofRun env ((o.debugger env).run c budget) =
      { exitCode := 1
        out := []
        err := (if o.trace || env.trace then lastAttempts k c else []) ++
          ["error: unknown opcode: 0x" ++ String.ofList (Hex.byte fault.opcode)] } := by
  have htrace := Debugger.trace_run (d := o.debugger env) rfl c budget
  have hattempted : (o.debugger env).attempted c budget = (List.range (k + 1)).map c.after := by
    rw [Debugger.attempted, Debugger.attemptCount_of_endsAt h, hfault]
    rfl
  rw [hattempted] at htrace
  rcases hrun : (o.debugger env).run c budget with ⟨result, d, m⟩
  rw [hrun] at hfault htrace
  obtain rfl : result = .error fault := hfault
  have hlines : d.trace.map TraceEntry.text =
      if o.trace || env.trace then lastAttempts k c else [] := by
    rw [htrace, apply_ite (List.map TraceEntry.text), lastAttempts]
    simp only [List.rtake, List.map_drop, List.length_map, List.map_map]
    rfl
  rw [ofRun, errorLine_eq, hlines]

/-- What the program prints for a command line that launches an image that can be read: it starts on
the machine that the image and the options make, and runs until a breakpoint of the command line,
the budget or an opcode that cannot be executed stops it, in this order if several do. -/
theorem headless_run (h : Group.Launches words gs name) (value? : String → Option String)
    (image? : String → Except ReadError (List UInt8)) (himage : image? name = .ok image) :
    let o := Group.options gs
    let on := fun key => (value? key).any ["1", "true", "TRUE", "on", "ON"].contains
    let budget := o.steps.getD (((value? "NES_CPU_MAX_STEPS").bind Numeral.count?).getD 1000000)
    let report := ofWords words (.ofVariables value?) image?
    ∃ c k cause, o.StartsAs image c ∧ c.StopsFirst o.breakpoints budget k cause ∧
      (∀ reason, cause = .ok reason → report =
        { exitCode := 0
          out := if on "NES_CPU_QUIET" then [] else summary reason k (c.after k)
          err := [] }) ∧
      ∀ fault, cause = .error fault → report =
        { exitCode := 1
          out := []
          err := (if o.trace || on "NES_CPU_TRACE" then lastAttempts k c else []) ++
            ["error: unknown opcode: 0x" ++
              String.ofList (Hex.byte ((c.after k).memory.read (c.after k).pc))] } := by
  intro o on budget report
  obtain ⟨k, hends, hstops⟩ := exists_stopsFirst o (.ofVariables value?) (o.machine image) budget
  have hreport : report = ofImage o (.ofVariables value?) image :=
    Group.report_of_image h _ himage
  refine ⟨o.machine image, k, _, o.startsAs_machine image, hstops, fun reason hreason => ?_,
    fun fault hfault => ?_⟩
  · exact hreport.trans (ofRun_ok hends (Options.budget_lt h.valid value?) hreason)
  · have hopcode := Machine.fault_of_stop? (hfault ▸ hstops.stops)
    rw [hreport, ofImage]
    refine (ofRun_error hends hfault).trans ?_
    rw [hopcode]
    rfl

/-- A jump to itself, with a breakpoint on it and a budget of one, and a traced run that comes to a
byte that is no opcode. -/
theorem headless_run_loop :
    let looping : List Group := [.option .load "--load" "0", .option .breakAt "-b" "0",
      .option .steps "--steps" "1", .image "rom"]
    let failing : List Group := [.trace, .option .load "--load" "0", .image "rom"]
    Group.Launches ["--load", "0", "-b", "0", "--steps", "1", "rom"] looping "rom" ∧
      ofWords ["--load", "0", "-b", "0", "--steps", "1", "rom"] (.ofVariables fun _ => none)
        (fun _ => .ok [0x4C, 0, 0]) =
      { exitCode := 0
        out := ["stopped: breakpoint at $0000",
          "PC:0000 A:00 X:00 Y:00 P:24 SP:FD CYC:10 instructions:1"]
        err := [] } ∧
      Group.Launches ["--trace", "--load", "0", "rom"] failing "rom" ∧
      ofWords ["--trace", "--load", "0", "rom"] (.ofVariables fun _ => none)
        (fun _ => .ok [0xE8, 0x02]) =
      { exitCode := 1
        out := []
        err := ["0000  E8        INX  A:00 X:00 Y:00 P:24 SP:FD CYC:7",
          "0001  02        ???  A:00 X:01 Y:00 P:24 SP:FD CYC:9",
          "error: unknown opcode: 0x02"] } := by
  intro looping failing
  have hlooping :
      Group.Launches ["--load", "0", "-b", "0", "--steps", "1", "rom"] looping "rom" :=
    ⟨rfl, by decide +kernel, rfl⟩
  have hfailing : Group.Launches ["--trace", "--load", "0", "rom"] failing "rom" :=
    ⟨rfl, by decide +kernel, rfl⟩
  refine ⟨hlooping, ?_, hfailing, ?_⟩
  · have hoptions :
        Group.options looping = { load := some 0, steps := some 1, breakpoints := [0] } := by
      decide +kernel
    obtain ⟨c, k, cause, hstart, hstops, hreport, -⟩ :=
      headless_run hlooping (fun _ => none) (fun _ => .ok [0x4C, 0, 0]) rfl
    rw [hoptions] at hstart hstops
    obtain rfl := hstart.eq (Options.startsAs_machine _ _)
    generalize hm : Options.machine _ _ = m at *
    replace hstops : m.StopsFirst [0] 1 k cause := hstops
    have hinstruction : m.instruction? = some ⟨0x4C, .jmp, .absolute, 3⟩ := by
      rw [← hm]
      exact Machine.instruction?_of_lookup (by decide +kernel) (by decide)
    have hone : m.after 1 = m.apply (m.change ⟨0x4C, .jmp, .absolute, 3⟩) :=
      Machine.after_succ_of_instruction? hinstruction
    have hpc : (m.after 1).pc = 0 := by
      rw [hone, ← hm]
      decide +kernel
    have hgoes : m.stop? [0] 1 0 = none := Machine.stop?_zero hinstruction (by decide)
    have hreached : m.stop? [0] 1 1 = some (.ok (.breakpoint 0)) := by
      rw [Machine.stop?, if_pos ⟨Nat.le_refl 1, hpc ▸ List.mem_singleton_self _⟩, hpc]
    obtain ⟨rfl, rfl⟩ := hstops.eq (by simpa using hgoes) hreached
    refine (hreport _ rfl).trans ?_
    rw [hone, ← hm]
    decide +kernel
  · have hoptions : Group.options failing = { load := some 0, trace := true } := by decide +kernel
    obtain ⟨c, k, cause, hstart, hstops, -, hreport⟩ :=
      headless_run hfailing (fun _ => none) (fun _ => .ok [0xE8, 0x02]) rfl
    rw [hoptions] at hstart hstops
    obtain rfl := hstart.eq (Options.startsAs_machine _ _)
    generalize hm : Options.machine _ _ = m at *
    replace hstops : m.StopsFirst [] 1000000 k cause := hstops
    have hinstruction : m.instruction? = some ⟨0xE8, .inx, .implied, 2⟩ := by
      rw [← hm]
      exact Machine.instruction?_of_lookup (by decide +kernel) (by decide)
    have hone : m.after 1 = m.apply (m.change ⟨0xE8, .inx, .implied, 2⟩) :=
      Machine.after_succ_of_instruction? hinstruction
    have hstuck : (m.after 1).fault? = some (.unknownOpcode 0x02) := by
      rw [hone, ← hm]
      decide +kernel
    have hgoes : m.stop? [] 1000000 0 = none := Machine.stop?_zero hinstruction (by decide)
    have hreached : m.stop? [] 1000000 1 = some (.error (.unknownOpcode 0x02)) := by
      rw [Machine.stop?, hstuck]
      rfl
    obtain ⟨rfl, rfl⟩ := hstops.eq (by simpa using hgoes) hreached
    have hlines : lastAttempts 1 m =
        [(TraceEntry.ofMachine m).text, (TraceEntry.ofMachine (m.after 1)).text] := by
      rw [lastAttempts, List.rtake, List.length_map, List.length_map, List.length_range]
      rfl
    refine (hreport _ rfl).trans ?_
    rw [hlines, hone, ← hm]
    decide +kernel

end Report

end Core6502
