import Core6502.Effect
import Core6502.Fault
import Core6502.Isa.Instruction
import Core6502.Machine
import Core6502.Operand

/-!
# Execution of one instruction

`Machine.next` computes the change that the instruction at the program counter makes. All of
it (operand, targets, stores, cycles) is computed from the machine before the instruction, so
an instruction that overwrites itself still does what it was. `Machine.step` makes the change;
where there is no instruction to execute, it reports the opcode and leaves the machine alone.
-/

namespace Core6502

namespace Effect

/-- The change that replaces the operand by `v`, given the registers that it leaves. A value for
an operand that is no place is dropped. -/
def store (operand : Operand) (v : UInt8) (r : Registers) (through : Change) : Change :=
  match operand with
  | .accumulator => { through with registers := { r with a := v } }
  | .memory address _ => { through with registers := r, stores := [(address, v)] }
  | .implied | .immediate _ | .relative _ => { through with registers := r }

/-- The change that an effect makes. `through` is the change that only goes on to the next
instruction, at `through.pc`, and leaves the registers as they are. -/
def change (effect : Effect) (operand : Operand) (m : Memory) (through : Change) : Change :=
  let r := through.registers
  match effect with
  | skip => through
  | update next => { through with registers := next r }
  | read use => { through with registers := use (operand.value r m) r }
  | write value => store operand (value r) r through
  | modify replace =>
    let (v, r) := replace (operand.value r m) r
    store operand v r through
  | push value =>
    { through with
      registers := { r with sp := r.sp - 1 }
      stores := [(Machine.stackCell r.sp, value r)] }
  | pull use =>
    { through with
      registers := use (m.read (Machine.stackCell (r.sp + 1))) { r with sp := r.sp + 1 } }
  | branch taken =>
    match operand with
    | .relative displacement =>
      if taken r.status then
        let target := through.pc + displacement.toInt16.toUInt16
        let farther := if Word.high through.pc == Word.high target then 1 else 2
        { through with pc := target, cycles := through.cycles + farther }
      else through
    | _ => through
  | jump => { through with pc := operand.address?.getD through.pc }
  | call =>
    let last := through.pc - 1
    { through with
      registers := { r with sp := r.sp - 2 }
      stores := [(Machine.stackCell r.sp, Word.high last),
        (Machine.stackCell (r.sp - 1), Word.low last)]
      pc := operand.address?.getD through.pc }
  | returnFromCall =>
    let last := Word.ofBytes (m.read (Machine.stackCell (r.sp + 1)))
      (m.read (Machine.stackCell (r.sp + 2)))
    { through with registers := { r with sp := r.sp + 2 }, pc := last + 1 }
  | returnFromInterrupt =>
    { through with
      registers := { r with sp := r.sp + 3 }.pullStatus (m.read (Machine.stackCell (r.sp + 1)))
      pc := Word.ofBytes (m.read (Machine.stackCell (r.sp + 2)))
        (m.read (Machine.stackCell (r.sp + 3))) }

end Effect

namespace Machine

def operand (m : Machine) (mode : AddressingMode) : Operand :=
  Operand.resolve m.registers m.memory mode m.pc

/-- The change that an instruction with a known effect makes at the program counter. -/
def outcome (m : Machine) (instruction : Instruction) (effect : Effect) : Change :=
  let operand := m.operand instruction.mode
  let crossing := instruction.paysPageCross && operand.pageCrossed
  effect.change operand m.memory
    { registers := m.registers
      stores := []
      pc := m.pc + UInt16.ofNat instruction.bytes
      cycles := instruction.baseCycles + crossing.toNat }

/-- The change that the instruction at the program counter makes. -/
def next (m : Machine) : Except Fault Change :=
  let opcode := m.memory.read m.pc
  match decode opcode with
  | none => .error (.unknownOpcode opcode)
  | some instruction =>
    match instruction.operation.effect? with
    | none => .error (.unknownOpcode opcode)
    | some effect => .ok (m.outcome instruction effect)

def step (m : Machine) : Except Fault Nat × Machine :=
  match m.next with
  | .error fault => (.error fault, m)
  | .ok change => (.ok change.cycles, m.apply change)

theorem next_eq_ok {m : Machine} {i : Instruction} {effect : Effect}
    (hi : decode (m.memory.read m.pc) = some i) (he : i.operation.effect? = some effect) :
    m.next = .ok (m.outcome i effect) := by
  simp only [next, hi, he]

theorem next_eq_error {m : Machine}
    (h : (decode (m.memory.read m.pc)).bind (·.operation.effect?) = none) :
    m.next = .error (.unknownOpcode (m.memory.read m.pc)) := by
  cases hi : decode (m.memory.read m.pc) with
  | none => simp only [next, hi]
  | some i =>
    rw [hi, Option.bind_some] at h
    simp only [next, hi, h]

theorem step_of_next_ok {m : Machine} {change : Change} (h : m.next = .ok change) :
    m.step = (.ok change.cycles, m.apply change) := by
  simp only [step, h]

theorem step_of_next_error {m : Machine} {fault : Fault} (h : m.next = .error fault) :
    m.step = (.error fault, m) := by
  simp only [step, h]

/-- What a row of steps left behind. -/
structure Steps where
  costs : List Nat
  /-- The fault that ended the row early. -/
  fault : Option Fault
  machine : Machine

/-- Executes up to `n` more instructions after steps with the given costs, latest first. -/
def stepsAfter (costs : List Nat) : Nat → Machine → Steps
  | 0, m => ⟨costs.reverse, none, m⟩
  | n + 1, m =>
    match m.step with
    | (.ok cost, m) => stepsAfter (cost :: costs) n m
    | (.error fault, m) => ⟨costs.reverse, some fault, m⟩

/-- Executes `n` instructions, or fewer if one cannot be executed. -/
def steps (n : Nat) (m : Machine) : Steps := stepsAfter [] n m

end Machine

end Core6502
