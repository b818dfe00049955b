import Core6502.Step
import Mathlib.Logic.Function.Iterate

/-!
# Steps and runs

`instruction?` is the instruction that a machine is about to execute, and `change` is what it
does. A step succeeds exactly if there is such an instruction, and a run of steps is the
iteration of single ones, so what one step preserves a run preserves.
-/

namespace Core6502

/-- The effect of an operation; nothing for the one operation without an effect. -/
def Operation.effect (operation : Operation) : Effect := operation.effect?.getD .skip

theorem Operation.effect?_eq_some {operation : Operation} (h : operation ≠ .brk) :
    operation.effect? = some operation.effect := by
  cases operation <;> first | rfl | exact absurd rfl h

namespace Machine

/-- The instruction at the program counter, if the machine can execute it. -/
def instruction? (m : Machine) : Option Instruction :=
  (decode (m.memory.read m.pc)).filter fun i => i.operation != .brk

def operation? (m : Machine) : Option Operation := m.instruction?.map (·.operation)

def change (m : Machine) (i : Instruction) : Change := m.outcome i i.operation.effect

theorem instruction?_eq_some_iff {m : Machine} {i : Instruction} :
    m.instruction? = some i ↔
      decode (m.memory.read m.pc) = some i ∧ i.operation ≠ .brk := by
  simp [instruction?, Option.filter_eq_some_iff]

/-- Searching the rows for one opcode is cheaper than tabulating them all. -/
theorem instruction?_of_lookup {m : Machine} {i : Instruction}
    (h : Isa.lookup (m.memory.read m.pc) = some i) (hbrk : i.operation ≠ .brk) :
    m.instruction? = some i :=
  instruction?_eq_some_iff.mpr ⟨(decode_eq_lookup _).trans h, hbrk⟩

theorem operation?_of_instruction? {m : Machine} {i : Instruction} (h : m.instruction? = some i) :
    m.operation? = some i.operation := by
  rw [operation?, h, Option.map_some]

theorem operation?_eq_some_iff {m : Machine} {operation : Operation} :
    m.operation? = some operation ↔
      ∃ i, m.instruction? = some i ∧ i.operation = operation := by
  rw [operation?, Option.map_eq_some_iff]

theorem next_of_instruction? {m : Machine} {i : Instruction} (h : m.instruction? = some i) :
    m.next = .ok (m.change i) := by
  obtain ⟨hi, hbrk⟩ := instruction?_eq_some_iff.mp h
  exact next_eq_ok hi (Operation.effect?_eq_some hbrk)

theorem next_of_instruction?_eq_none {m : Machine} (h : m.instruction? = none) :
    m.next = .error (.unknownOpcode (m.memory.read m.pc)) := by
  apply next_eq_error
  rw [Option.bind_eq_none_iff]
  intro i hi
  have hbrk : i.operation = .brk := by
    by_contra hne
    rw [instruction?_eq_some_iff.mpr ⟨hi, hne⟩] at h
    exact Option.some_ne_none i h
  rw [hbrk]
  rfl

theorem step_of_instruction? {m : Machine} {i : Instruction} (h : m.instruction? = some i) :
    m.step = (.ok (m.change i).cycles, m.apply (m.change i)) :=
  step_of_next_ok (next_of_instruction? h)

theorem step_fst_of_instruction? {m : Machine} {i : Instruction} {cost : Nat}
    (h : m.instruction? = some i) (hcost : (m.change i).cycles = cost) :
    m.step.1 = .ok cost := by
  rw [step_of_instruction? h, hcost]

theorem step_of_instruction?_eq_none {m : Machine} (h : m.instruction? = none) :
    m.step = (.error (.unknownOpcode (m.memory.read m.pc)), m) :=
  step_of_next_error (next_of_instruction?_eq_none h)

theorem step_of_operation? {m : Machine} {operation : Operation}
    (h : m.operation? = some operation) :
    ∃ i, m.step.2 = m.apply (m.outcome i operation.effect) := by
  obtain ⟨i, hi, rfl⟩ := operation?_eq_some_iff.mp h
  exact ⟨i, congrArg Prod.snd (step_of_instruction? hi)⟩

theorem step_eq_ok_iff {m m' : Machine} {cost : Nat} :
    m.step = (.ok cost, m') ↔
      ∃ i, m.instruction? = some i ∧ cost = (m.change i).cycles ∧
        m' = m.apply (m.change i) := by
  cases hi : m.instruction? with
  | none => simp [step_of_instruction?_eq_none hi]
  | some i =>
      rw [step_of_instruction? hi]
      simp [eq_comm]

theorem exists_instruction?_of_step_ok {m : Machine} {cost : Nat} (h : m.step.1 = .ok cost) :
    ∃ i, m.instruction? = some i ∧ cost = (m.change i).cycles := by
  obtain ⟨i, hi, hcost, -⟩ := step_eq_ok_iff.mp (Prod.ext h rfl : m.step = (.ok cost, m.step.2))
  exact ⟨i, hi, hcost⟩

theorem instruction?_of_step_ok {m : Machine} {i : Instruction} {cost : Nat}
    (hi : decode (m.memory.read m.pc) = some i) (hstep : m.step.1 = .ok cost) :
    m.instruction? = some i := by
  obtain ⟨j, hj, -⟩ := exists_instruction?_of_step_ok hstep
  have hji := (instruction?_eq_some_iff.mp hj).1
  rw [hi] at hji
  rwa [Option.some.inj hji]

/-! ## Runs -/

/-- The machine after `n` steps. A step that fails leaves it as it is. -/
def after (m : Machine) (n : Nat) : Machine := (m.steps n).machine

theorem stepsAfter_machine (costs : List Nat) (n : Nat) (m : Machine) :
    (stepsAfter costs n m).machine = (fun m => m.step.2)^[n] m := by
  induction n generalizing costs m with
  | zero => rfl
  | succ n ih =>
      cases hi : m.instruction? with
      | none =>
          have hm : m.step.2 = m := by rw [step_of_instruction?_eq_none hi]
          rw [Function.iterate_fixed hm, stepsAfter, step_of_instruction?_eq_none hi]
      | some i =>
          rw [Function.iterate_succ_apply, stepsAfter, step_of_instruction? hi]
          exact ih _ _

theorem after_succ (m : Machine) (n : Nat) : m.after (n + 1) = (m.after n).step.2 := by
  simp only [after, steps, stepsAfter_machine, Function.iterate_succ_apply']

theorem after_succ_of_instruction? {m : Machine} {n : Nat} {i : Instruction}
    (h : (m.after n).instruction? = some i) :
    m.after (n + 1) = (m.after n).apply ((m.after n).change i) := by
  rw [after_succ, step_of_instruction? h]

theorem stepsAfter_eq (costs : List Nat) (n : Nat) (m : Machine) :
    stepsAfter costs n m =
      { m.steps n with costs := costs.reverse ++ (m.steps n).costs } := by
  induction n generalizing costs m with
  | zero => simp [steps, stepsAfter]
  | succ n ih =>
      cases hi : m.instruction? with
      | none => simp [steps, stepsAfter, step_of_instruction?_eq_none hi]
      | some i =>
          simp only [steps, stepsAfter, step_of_instruction? hi]
          rw [ih, ih [_], List.reverse_cons, List.append_assoc]
          rfl

theorem steps_succ_of_step_ok {m m' : Machine} {cost : Nat} (h : m.step = (.ok cost, m'))
    (n : Nat) :
    m.steps (n + 1) = { m'.steps n with costs := cost :: (m'.steps n).costs } := by
  rw [steps, stepsAfter, h]
  exact stepsAfter_eq [cost] n m'

theorem steps_succ_of_step_error {m m' : Machine} {fault : Fault}
    (h : m.step = (.error fault, m')) (n : Nat) : m.steps (n + 1) = ⟨[], some fault, m'⟩ := by
  rw [steps, stepsAfter, h]
  rfl

theorem after_succ_of_step_ok {m m' : Machine} {cost : Nat} (h : m.step = (.ok cost, m'))
    (n : Nat) : m.after (n + 1) = m'.after n := by
  rw [after, steps_succ_of_step_ok h]
  rfl

/-- A row of steps ends without a fault exactly if each of them found an instruction. -/
theorem steps_fault_eq_none_iff {m : Machine} {n : Nat} :
    (m.steps n).fault = none ↔ ∀ k < n, ∃ i, (m.after k).instruction? = some i := by
  suffices h : ∀ costs m, (stepsAfter costs n m).fault = none ↔
      ∀ k < n, ∃ i, ((fun m => m.step.2)^[k] m).instruction? = some i by
    simpa only [after, steps, stepsAfter_machine] using h [] m
  induction n with
  | zero => simp [stepsAfter]
  | succ n ih =>
      intro costs m
      rw [stepsAfter, Nat.forall_lt_succ_left]
      cases hi : m.instruction? with
      | none => simp [step_of_instruction?_eq_none hi, hi]
      | some i =>
          have hm : m.step.2 = m.apply (m.change i) := by rw [step_of_instruction? hi]
          simp only [Function.iterate_succ_apply, Function.iterate_zero, id_eq, hm]
          rw [step_of_instruction? hi, ih]
          simp [hi]

/-- Executing `k` instructions, all of them with success, leads from one machine to another. -/
structure Executes (m : Machine) (k : Nat) (n : Machine) : Prop where
  succeeds : (m.steps k).fault = none
  machine_eq : m.after k = n

namespace Executes

variable {m n p : Machine} {k l : Nat}

theorem refl (m : Machine) : m.Executes 0 m := ⟨rfl, rfl⟩

theorem cons {cost : Nat} (h : m.step = (.ok cost, n)) (hrest : n.Executes k p) :
    m.Executes (k + 1) p := by
  have hsteps := steps_succ_of_step_ok h k
  refine ⟨?_, (after_succ_of_step_ok h k).trans hrest.machine_eq⟩
  rw [hsteps]
  exact hrest.succeeds

theorem single {cost : Nat} (h : m.step = (.ok cost, n)) : m.Executes 1 n := cons h (refl n)

theorem exists_head (h : m.Executes (k + 1) p) :
    ∃ cost n, m.step = (.ok cost, n) ∧ n.Executes k p := by
  obtain ⟨hsucceeds, hmachine⟩ := h
  obtain ⟨i, hi⟩ := steps_fault_eq_none_iff.mp hsucceeds 0 (Nat.succ_pos k)
  have hstep : m.step = (.ok (m.change i).cycles, m.apply (m.change i)) := step_of_instruction? hi
  have hsteps := steps_succ_of_step_ok hstep k
  rw [hsteps] at hsucceeds
  rw [after_succ_of_step_ok hstep] at hmachine
  exact ⟨_, _, hstep, hsucceeds, hmachine⟩

theorem trans (h : m.Executes k n) (hrest : n.Executes l p) : m.Executes (k + l) p := by
  induction k generalizing m with
  | zero =>
      have hm : m = n := h.machine_eq
      rw [Nat.zero_add, hm]
      exact hrest
  | succ k ih =>
      obtain ⟨cost, q, hstep, htail⟩ := h.exists_head
      rw [Nat.succ_add]
      exact cons hstep (ih htail)

end Executes

/-! ## Programs without branches -/

/-- The machine after the changes that some instructions make in turn. -/
def applied (m : Machine) (row : List Instruction) : Machine :=
  row.foldl (fun m i => m.apply (m.change i)) m

/-- Whether a machine executes the given instructions in turn. -/
def finds (m : Machine) : List Instruction → Bool
  | [] => true
  | i :: row =>
    Isa.lookup (m.memory.read m.pc) == some i && i.operation != .brk &&
      (m.apply (m.change i)).finds row

theorem finds_cons {m : Machine} {i : Instruction} {row : List Instruction}
    (h : m.finds (i :: row)) :
    m.instruction? = some i ∧ (m.apply (m.change i)).finds row := by
  simp only [finds, Bool.and_eq_true, beq_iff_eq, bne_iff_ne] at h
  exact ⟨instruction?_of_lookup h.1.1 h.1.2, h.2⟩

theorem after_of_finds {row : List Instruction} {m : Machine} {k : Nat} (h : m.finds row)
    (hk : k ≤ row.length) : m.after k = m.applied (row.take k) := by
  induction row generalizing m k with
  | nil =>
      obtain rfl : k = 0 := Nat.le_zero.mp hk
      rfl
  | cons i row ih =>
      obtain ⟨hi, hrest⟩ := finds_cons h
      cases k with
      | zero => rfl
      | succ k =>
          rw [after_succ_of_step_ok (step_of_instruction? hi), ih hrest (Nat.le_of_succ_le_succ hk)]
          rfl

theorem instruction?_of_finds {row : List Instruction} {i : Instruction} {m : Machine} {k : Nat}
    (h : m.finds row) (hk : row[k]? = some i) : (m.after k).instruction? = some i := by
  induction row generalizing m k with
  | nil => cases hk
  | cons j row ih =>
      obtain ⟨hj, hrest⟩ := finds_cons h
      cases k with
      | zero =>
          obtain rfl := Option.some.inj hk
          exact hj
      | succ k =>
          rw [after_succ_of_step_ok (step_of_instruction? hj)]
          exact ih hrest hk

end Machine

end Core6502
