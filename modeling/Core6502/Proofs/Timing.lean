import Core6502.Proofs.Control.Branch
import Mathlib.Algebra.GroupWithZero.Nat

/-!
# Cycle counts

What a step costs, said once more without the table of base cycles: by addressing mode, by what
is done to the operand, and by two carries, the one out of the low byte of an indexed address
and the one that takes a branch to another page. The cycle counter adds the costs up.
-/

namespace Core6502

/-- What an operation does to an operand in memory, as far as time goes. -/
inductive Access where
  | read
  | write
  | modify
deriving DecidableEq

def Operation.access : Operation → Access
  | sta | stx | sty | sax => .write
  | inc | dec | asl | lsr | rol | ror | slo | rla | sre | rra | dcp | isc => .modify
  | _ => .read

/-- The cycles that a mode takes, where `carries` says that the index carries into the high byte
of the address. A read that can do without the carry saves a cycle. -/
def AddressingMode.cycles (mode : AddressingMode) (access : Access) (carries : Bool) : Nat :=
  match mode, access with
  | implied, _ | accumulator, _ | immediate, _ | relative, _ => 2
  | zeroPage, .modify => 5
  | zeroPage, _ => 3
  | zeroPageX, .modify | zeroPageY, .modify | absolute, .modify => 6
  | zeroPageX, _ | zeroPageY, _ | absolute, _ => 4
  | absoluteX, .read | absoluteY, .read => 4 + carries.toNat
  | absoluteX, .write | absoluteY, .write => 5
  | absoluteX, .modify | absoluteY, .modify => 7
  | indirect, _ => 5
  | indirectX, .modify => 8
  | indirectX, _ => 6
  | indirectY, .read => 5 + carries.toNat
  | indirectY, .write => 6
  | indirectY, .modify => 8

/-- The cycles of an instruction, up to those that a taken branch adds. -/
def Instruction.cycles (i : Instruction) (carries : Bool) : Nat :=
  match i.operation with
  | .pha | .php => 3
  | .pla | .plp => 4
  | .rts | .rti | .jsr => 6
  | .jmp => if i.mode = .indirect then 5 else 3
  | operation => i.mode.cycles operation.access carries

section Table

variable {opcode : UInt8} {i : Instruction}

theorem baseCycles_add_eq_cycles (hi : decode opcode = some i) (hbrk : i.operation ≠ .brk)
    (carries : Bool) :
    i.baseCycles + (i.paysPageCross && carries).toNat = i.cycles carries := by
  have hall : ∀ i ∈ Isa.instructions, i.operation ≠ .brk → ∀ carries : Bool,
      i.baseCycles + (i.paysPageCross && carries).toNat = i.cycles carries := by
    decide +kernel
  exact hall i (mem_instructions_of_decode hi) hbrk carries

theorem cycles_bounds (hi : decode opcode = some i) (carries : Bool) :
    2 ≤ i.cycles carries ∧ i.cycles carries ≤ if i.operation.isBranch then 2 else 8 := by
  have hall : ∀ i ∈ Isa.instructions, ∀ carries : Bool,
      2 ≤ i.cycles carries ∧ i.cycles carries ≤ if i.operation.isBranch then 2 else 8 := by
    decide +kernel
  exact hall i (mem_instructions_of_decode hi) carries

end Table

/-! ## Carries -/

theorem Operand.pageCrossed_indexed (base : UInt16) (index : UInt8) :
    (indexed base index).pageCrossed =
      decide (256 ≤ (Word.low base).toNat + index.toNat) := by
  have hb := base.toNat_lt
  have hx := index.toNat_lt
  have hhigh : Word.high base ≠ Word.high (base + index.toUInt16) ↔
      base.toNat / 256 ≠ (base.toNat + index.toNat) % 65536 / 256 := by
    rw [Ne, ← UInt8.toNat_inj, Word.toNat_high, Word.toNat_high, UInt16.toNat_add,
      UInt8.toNat_toUInt16]
  rw [indexed, pageCrossed, Bool.eq_iff_iff, bne_iff_ne, hhigh, decide_eq_true_iff,
    Word.toNat_low]
  omega

namespace Effect

variable {effect : Effect} {operand : Operand} {m : Memory} {through : Change}

theorem cycles_change (h : ∀ taken, effect ≠ .branch taken) :
    (effect.change operand m through).cycles = through.cycles := by
  cases effect with
  | branch taken => exact absurd rfl (h taken)
  | write | modify => cases operand <;> rfl
  | _ => rfl

end Effect

theorem Operation.effect_ne_branch {operation : Operation} (h : operation.isBranch = false)
    (taken : Status → Bool) : operation.effect ≠ .branch taken := by
  cases operation with
  | bpl | bmi | bvc | bvs | bcc | bcs | bne | beq => cases h
  | _ => exact Effect.noConfusion

namespace Machine

/-- Whether the index carries out of the low byte of the address or pointer that it is added
to. -/
def indexCarries (m : Machine) : AddressingMode → Bool
  | .absoluteX => 256 ≤ (m.memory.read (m.pc + 1)).toNat + m.registers.x.toNat
  | .absoluteY => 256 ≤ (m.memory.read (m.pc + 1)).toNat + m.registers.y.toNat
  | .indirectY =>
    256 ≤ (m.memory.read (m.memory.read (m.pc + 1)).toUInt16).toNat + m.registers.y.toNat
  | _ => false

/-- What a branch costs beyond its two cycles. -/
def branchCycles (m : Machine) (operation : Operation) : Nat :=
  if operation.branches m.registers.status then
    if Word.high (m.pc + 2) = Word.high m.branchTarget then 1 else 2
  else 0

def cost (m : Machine) (i : Instruction) : Nat :=
  i.cycles (m.indexCarries i.mode) + m.branchCycles i.operation

variable {m : Machine} {i : Instruction}

theorem pageCrossed_operand (m : Machine) (mode : AddressingMode) :
    (m.operand mode).pageCrossed = m.indexCarries mode := by
  cases mode with
  | absoluteX | absoluteY | indirectY =>
      rw [operand, Operand.resolve, Operand.pageCrossed_indexed, indexCarries]
      simp only [Memory.readWord, Memory.readZeroPage, Word.low_ofBytes]
  | _ => rfl

theorem cycles_change (hi : decode (m.memory.read m.pc) = some i)
    (hbrk : i.operation ≠ .brk) : (m.change i).cycles = m.cost i := by
  rw [cost, ← baseCycles_add_eq_cycles hi hbrk, branchCycles]
  cases hbranch : i.operation.isBranch with
  | true =>
      have hcarries : m.indexCarries i.mode = false := by
        rw [relative_of_isBranch hi hbranch]
        rfl
      rw [(change_of_isBranch hi hbranch).2, hcarries, Bool.and_false]
      rfl
  | false =>
      rw [Operation.branches_eq_false hbranch, change, outcome,
        Effect.cycles_change (Operation.effect_ne_branch hbranch), pageCrossed_operand]
      rfl

theorem cost_bounds (hi : decode (m.memory.read m.pc) = some i) :
    2 ≤ m.cost i ∧ m.cost i ≤ 8 := by
  have hbounds := cycles_bounds hi (m.indexCarries i.mode)
  rw [cost, branchCycles]
  cases hbranch : i.operation.isBranch with
  | true =>
      rw [hbranch, if_pos rfl] at hbounds
      split
      · split <;> omega
      · omega
  | false =>
      rw [hbranch] at hbounds
      rw [Operation.branches_eq_false hbranch]
      exact hbounds

theorem cycles_steps (m : Machine) (n : Nat) :
    (m.steps n).machine.cycles = m.cycles + UInt64.ofNat (m.steps n).costs.sum := by
  induction n generalizing m with
  | zero => exact (UInt64.add_zero m.cycles).symm
  | succ n ih =>
      cases hi : m.instruction? with
      | none =>
          rw [steps_succ_of_step_error (step_of_instruction?_eq_none hi)]
          exact (UInt64.add_zero m.cycles).symm
      | some i =>
          rw [steps_succ_of_step_ok (step_of_instruction? hi), List.sum_cons,
            UInt64.ofNat_add, ← UInt64.add_assoc]
          exact ih _

/-- What a step costs, and that the counter is their sum as long as it has room for it. -/
theorem step_cost (m : Machine) :
    (∀ cost, m.step.1 = .ok cost →
      ∃ i, decode (m.memory.read m.pc) = some i ∧ cost = m.cost i ∧ 2 ≤ cost ∧ cost ≤ 8) ∧
    ∀ n, m.cycles.toNat + (m.steps n).costs.sum < UInt64.size →
      (m.steps n).machine.cycles.toNat = m.cycles.toNat + (m.steps n).costs.sum := by
  constructor
  · intro cost hstep
    obtain ⟨i, hi, rfl⟩ := exists_instruction?_of_step_ok hstep
    obtain ⟨hdecode, hbrk⟩ := instruction?_eq_some_iff.mp hi
    rw [cycles_change hdecode hbrk]
    exact ⟨i, hdecode, rfl, cost_bounds hdecode⟩
  · intro n hroom
    have hsum : (m.steps n).costs.sum < UInt64.size := by omega
    rw [cycles_steps, UInt64.toNat_add, UInt64.toNat_ofNat_of_lt' hsum]
    exact Nat.mod_eq_of_lt hroom

/-- A load whose address wraps to $0000, and a branch back over $0000. -/
theorem step_cost_wrapping :
    let m := ({ registers := { x := 1 }, cycles := 7 } : Machine).load 0
      [0xBD, 0xFF, 0xFF, 0x30, 0xF0]
    m.step.1 = .ok 5 ∧ m.cost ⟨0xBD, .lda, .absoluteX, 4⟩ = 5 ∧
      (m.steps 2).costs = [5, 4] ∧ (m.steps 2).machine.cycles.toNat = 16 := by
  intro m
  have hlda : m.instruction? = some ⟨0xBD, .lda, .absoluteX, 4⟩ :=
    instruction?_of_lookup (by decide +kernel) (by decide)
  have hbmi : (m.apply (m.change ⟨0xBD, .lda, .absoluteX, 4⟩)).instruction? =
      some ⟨0x30, .bmi, .relative, 2⟩ :=
    instruction?_of_lookup (by decide +kernel) (by decide)
  have hstep : m.step.1 = .ok 5 := step_fst_of_instruction? hlda (by decide +kernel)
  have hcosts : (m.steps 2).costs = [5, 4] := by
    rw [steps_succ_of_step_ok (step_of_instruction? hlda),
      steps_succ_of_step_ok (step_of_instruction? hbmi)]
    decide +kernel
  obtain ⟨hone, hrun⟩ := step_cost m
  obtain ⟨i, hi, hcost, -⟩ := hone 5 hstep
  rw [(instruction?_eq_some_iff.mp hlda).1] at hi
  obtain rfl := Option.some.inj hi
  refine ⟨hstep, hcost.symm, hcosts, ?_⟩
  rw [hrun 2 (by rw [hcosts]; decide), hcosts]
  rfl

end Machine

end Core6502
