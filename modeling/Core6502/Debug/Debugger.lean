import Core6502.Debug.Breakpoints
import Core6502.Debug.History
import Core6502.Debug.Trace
import Core6502.Step

/-!
# The debugger

A debugger drives a machine one instruction at a time. It stops at breakpoints, keeps a bounded
history of the instructions attempted, and counts those executed. It never changes the machine
but by `Machine.step`.
-/

namespace Core6502

/-- How far a run goes when neither a breakpoint nor a fault ends it. -/
inductive StepMode where
  | run
  | single
deriving DecidableEq

/-- Why a run ended without a fault. -/
inductive StopReason where
  /-- The program counter reached an enabled breakpoint; the instruction there has not run. -/
  | breakpoint (address : UInt16)
  | stepped
  | stepLimit
deriving DecidableEq

namespace StopReason

def parts : StopReason → List String
  | breakpoint address => ["breakpoint at $", String.ofList (Hex.word address)]
  | stepped => ["single step"]
  | stepLimit => ["step limit reached"]

def message (reason : StopReason) : String := String.join reason.parts

end StopReason

/-- The state of a debugging session besides the machine. -/
structure Debugger where
  breakpoints : Breakpoints := {}
  mode : StepMode := .run
  /-- Whether attempts are recorded in the history. -/
  tracing : Bool := false
  history : History TraceEntry
  executed : UInt64 := 0

namespace Debugger

/-- The entries that a trace shows unless another number is asked for. -/
def defaultCapacity : Nat := 1000

/-- A fresh debugger whose trace shows the last `capacity` attempts. -/
def withCapacity (capacity : Nat) : Debugger where
  history := { capacity }

def new : Debugger := withCapacity defaultCapacity

/-- Records the instruction about to be attempted, if tracing is on. -/
def observe (d : Debugger) (m : Machine) : Debugger :=
  if d.tracing then { d with history := d.history.record (TraceEntry.ofMachine m) } else d

def step (d : Debugger) (m : Machine) : Except Fault Nat × Debugger × Machine :=
  let d := d.observe m
  match m.step with
  | (.ok cost, m) => (.ok cost, { d with executed := d.executed + 1 }, m)
  | (.error fault, m) => (.error fault, d, m)

/-- One turn of a run: an attempt, and then the result of the run if it ends here. A breakpoint
that was reached counts the hit, and wins over the mode. -/
def turn (d : Debugger) (m : Machine) : Option (Except Fault StopReason) × Debugger × Machine :=
  match d.step m with
  | (.error fault, d, m) => (some (.error fault), d, m)
  | (.ok _, d, m) =>
    match d.breakpoints.hit m.pc with
    | (true, breakpoints) => (some (.ok (.breakpoint m.pc)), { d with breakpoints }, m)
    | (false, _) => (if d.mode = .single then some (.ok .stepped) else none, d, m)

/-- Executes instructions until the program counter lands on an enabled breakpoint, the mode
asks to stop, or as many have run as the budget allows. A breakpoint at the start does not
stop the first instruction. -/
def run (d : Debugger) (m : Machine) : Nat → Except Fault StopReason × Debugger × Machine
  | 0 => (.ok .stepLimit, d, m)
  | budget + 1 =>
    match d.turn m with
    | (some result, d, m) => (result, d, m)
    | (none, d, m) => d.run m budget

def trace (d : Debugger) : List TraceEntry := d.history.toList

def clearTrace (d : Debugger) : Debugger := { d with history := d.history.clear }

end Debugger

end Core6502
