import Core6502.Listing
import Core6502.Proofs.Control.Branch
import Core6502.Proofs.Footprint.Read

/-!
# The program counter

A step goes on to the next instruction of the listing unless it transfers control. So a run that
transfers none walks along the listing, as long as it finds the opcodes that the listing shows.
-/

namespace Core6502

namespace Effect

def transfers : Effect → Bool
  | branch _ | jump | call | returnFromCall | returnFromInterrupt => true
  | _ => false

theorem pc_change_of_not_transfers {effect : Effect} {operand : Operand} {m : Memory}
    {through : Change} (h : effect.transfers = false) :
    (effect.change operand m through).pc = through.pc := by
  cases effect with
  | branch | jump | call | returnFromCall | returnFromInterrupt => cases h
  | write | modify => cases operand <;> rfl
  | _ => rfl

end Effect

theorem Listing.next_of_decode {m : Memory} {a : UInt16} {i : Instruction}
    (hi : decode (m.read a) = some i) : next m a = a + UInt16.ofNat i.bytes := by
  rw [next, sizeAt, size, hi]

theorem absolute_or_indirect_of_jump {opcode : UInt8} {i : Instruction}
    (hi : decode opcode = some i) (h : i.operation = .jmp ∨ i.operation = .jsr) :
    i.mode = .absolute ∨ i.mode = .indirect := by
  have hall : ∀ i ∈ Isa.instructions, i.operation = .jmp ∨ i.operation = .jsr →
      i.mode = .absolute ∨ i.mode = .indirect := by
    decide +kernel
  exact hall i (mem_instructions_of_decode hi) h

namespace Machine

/-- The word that comes off the stack after `skip` other bytes. -/
def pulledWord (m : Machine) (skip : UInt8) : UInt16 :=
  Word.ofBytes (m.memory.read (stackCell (m.registers.sp + skip + 1)))
    (m.memory.read (stackCell (m.registers.sp + skip + 2)))

theorem pulledWord_zero (m : Machine) :
    m.pulledWord 0 = Word.ofBytes (m.memory.read (stackCell (m.registers.sp + 1)))
      (m.memory.read (stackCell (m.registers.sp + 2))) := by
  rw [pulledWord, UInt8.add_zero]

theorem pulledWord_one (m : Machine) :
    m.pulledWord 1 = Word.ofBytes (m.memory.read (stackCell (m.registers.sp + 2)))
      (m.memory.read (stackCell (m.registers.sp + 3))) := by
  have htwo : m.registers.sp + 1 + 1 = m.registers.sp + 2 := UInt8.add_assoc _ 1 1
  have hthree : m.registers.sp + 1 + 2 = m.registers.sp + 3 := UInt8.add_assoc _ 1 2
  rw [pulledWord, htwo, hthree]

/-- The address to which an instruction at the program counter transfers control, if it does. -/
def transfer? (m : Machine) (i : Instruction) : Option UInt16 :=
  match i.operation with
  | .jmp | .jsr => m.effectiveAddress? i
  | .rts => some (m.pulledWord 0 + 1)
  | .rti => some (m.pulledWord 1)
  | operation => if operation.branches m.registers.status then some m.branchTarget else none

variable {m : Machine} {i : Instruction}

theorem effectiveAddress?_isSome_of_jump (hi : decode (m.memory.read m.pc) = some i)
    (h : i.operation = .jmp ∨ i.operation = .jsr) : (m.effectiveAddress? i).isSome := by
  rw [effectiveAddress?, operand]
  rcases absolute_or_indirect_of_jump hi h with hmode | hmode <;> rw [hmode] <;> rfl

theorem pc_change (hi : decode (m.memory.read m.pc) = some i) :
    (m.change i).pc = (m.transfer? i).getD (Listing.next m.memory m.pc) := by
  have hnext := Listing.next_of_decode hi
  cases hop : i.operation with
  | jmp | jsr =>
      rw [hnext, transfer?, hop, change, outcome, hop]
      rfl
  | rts =>
      have htransfer : m.transfer? i = some (m.pulledWord 0 + 1) := by rw [transfer?, hop]
      rw [htransfer, pulledWord_zero, change, outcome, hop]
      rfl
  | rti =>
      have htransfer : m.transfer? i = some (m.pulledWord 1) := by rw [transfer?, hop]
      rw [htransfer, pulledWord_one, change, outcome, hop]
      rfl
  | bpl | bmi | bvc | bvs | bcc | bcs | bne | beq =>
      have hbranch : i.operation.isBranch := by rw [hop]; rfl
      have htwo : Listing.next m.memory m.pc = m.pc + 2 := by
        rw [hnext, Instruction.bytes, relative_of_isBranch hi hbranch]
        rfl
      rw [(change_of_isBranch hi hbranch).1, htwo, transfer?, hop]
      dsimp only
      split <;> rfl
  | _ =>
      rw [transfer?, hop, change, outcome, hop, Effect.pc_change_of_not_transfers rfl, hnext]
      rfl

/-! ## Runs along the listing -/

theorem read_step {address : UInt16} (h : address ∉ m.written) :
    m.step.2.memory.read address = m.memory.read address := by
  cases hi : m.instruction? with
  | none => rw [step_of_instruction?_eq_none hi]
  | some i =>
      rw [written, hi] at h
      rw [step_of_instruction? hi]
      exact read_apply_change h

theorem read_after {n : Nat} {address : UInt16} (h : ∀ k < n, address ∉ (m.after k).written) :
    (m.after n).memory.read address = m.memory.read address := by
  induction n with
  | zero => rfl
  | succ n ih =>
      rw [after_succ, read_step (h n (Nat.lt_succ_self n))]
      exact ih fun k hk => h k (Nat.lt_succ_of_lt hk)

/-- A run of `n` successful steps without a transfer of control, in which no step writes the
opcode of an instruction still to be executed. Its operand bytes may change. -/
structure Straight (m : Machine) (n : Nat) : Prop where
  succeeds : (m.steps n).fault = none
  no_transfer : ∀ k < n, ∀ i, (m.after k).instruction? = some i → (m.after k).transfer? i = none
  no_overwrite : ∀ j k, j < k → k < n → (m.after k).pc ∉ (m.after j).written

/-- The program counter is where the listing of the first memory has its `k`-th instruction. -/
theorem Straight.pc_after {n : Nat} (h : m.Straight n) :
    ∀ k ≤ n, (m.after k).pc = Listing.advance m.memory m.pc k := by
  intro k
  induction k with
  | zero => exact fun _ => rfl
  | succ k ih =>
      intro hk
      obtain ⟨i, hi⟩ := steps_fault_eq_none_iff.mp h.succeeds k hk
      have hopcode : (m.after k).memory.read (m.after k).pc = m.memory.read (m.after k).pc :=
        read_after fun j hj => h.no_overwrite j k hj hk
      calc (m.after (k + 1)).pc = ((m.after k).change i).pc := by
            rw [after_succ_of_instruction? hi]
            rfl
        _ = Listing.next (m.after k).memory (m.after k).pc := by
            rw [pc_change (instruction?_eq_some_iff.mp hi).1, h.no_transfer k hk i hi]
            rfl
        _ = Listing.next m.memory (m.after k).pc := by
            rw [Listing.next, Listing.sizeAt, hopcode]
            rfl
        _ = Listing.next m.memory (Listing.advance m.memory m.pc k) := by rw [ih (by omega)]

/-- Where a step and a run without transfers go on. Of two opposite branches, one is taken. -/
theorem step_pc (m : Machine) :
    (∀ i cost, decode (m.memory.read m.pc) = some i → m.step.1 = .ok cost →
      m.step.2.pc = (m.transfer? i).getD (Listing.next m.memory m.pc) ∧
        (i.operation = .jmp ∨ i.operation = .jsr →
          m.effectiveAddress? i = some m.step.2.pc)) ∧
    (∀ first second, (first, second) ∈ Operation.oppositeBranches →
      first.branches m.registers.status = !second.branches m.registers.status) ∧
    ∀ n, m.Straight n → ∀ k ≤ n, (m.after k).pc = Listing.advance m.memory m.pc k := by
  refine ⟨fun i cost hi hstep => ?_, fun first second h => ?_, fun n h => h.pc_after⟩
  · have hpc : m.step.2.pc = (m.transfer? i).getD (Listing.next m.memory m.pc) := by
      rw [step_of_instruction? (instruction?_of_step_ok hi hstep)]
      exact pc_change hi
    refine ⟨hpc, fun hjump => ?_⟩
    obtain ⟨address, haddress⟩ :=
      Option.isSome_iff_exists.mp (effectiveAddress?_isSome_of_jump hi hjump)
    have htransfer : m.transfer? i = some address := by
      rw [transfer?, ← haddress]
      rcases hjump with hop | hop <;> rw [hop]
    rw [haddress, hpc, htransfer]
    rfl
  · exact Operation.branches_eq_not_of_opposite h _

/-- A store to its own opcode, and a branch that is not taken. -/
theorem step_pc_overwriting :
    let m := ({ registers := { a := 0x60 } } : Machine).load 0 [0x85, 0x00, 0x30, 0x05]
    m.step.2.pc = 2 ∧ m.step.2.memory.read 0 = 0x60 ∧ m.Straight 2 ∧ (m.after 2).pc = 4 := by
  intro m
  have hsta : m.instruction? = some ⟨0x85, .sta, .zeroPage, 3⟩ :=
    instruction?_of_lookup (by decide +kernel) (by decide)
  have hone : m.after 1 = m.apply (m.change ⟨0x85, .sta, .zeroPage, 3⟩) :=
    after_succ_of_instruction? hsta
  have hbmi : (m.after 1).instruction? = some ⟨0x30, .bmi, .relative, 2⟩ := by
    rw [hone]
    exact instruction?_of_lookup (by decide +kernel) (by decide)
  have hstraight : m.Straight 2 := by
    refine ⟨steps_fault_eq_none_iff.mpr fun k hk => ?_, fun k hk i hi => ?_,
      fun j k hj hk => ?_⟩
    · obtain rfl | rfl : k = 0 ∨ k = 1 := by omega
      · exact ⟨_, hsta⟩
      · exact ⟨_, hbmi⟩
    · obtain rfl | rfl : k = 0 ∨ k = 1 := by omega
      · obtain rfl := Option.some.inj (hsta.symm.trans hi)
        rfl
      · obtain rfl := Option.some.inj (hbmi.symm.trans hi)
        rw [hone]
        decide +kernel
    · obtain ⟨rfl, rfl⟩ : j = 0 ∧ k = 1 := by omega
      have hwritten : m.written = m.writeFootprint ⟨0x85, .sta, .zeroPage, 3⟩ := by
        rw [written, hsta]
        rfl
      show _ ∉ m.written
      rw [hone, hwritten]
      decide +kernel
  obtain ⟨hstep, -, hrun⟩ := step_pc m
  have hdecode := (instruction?_eq_some_iff.mp hsta).1
  have hpc := (hstep _ _ hdecode (step_fst_of_instruction? hsta rfl)).1
  refine ⟨hpc.trans (Listing.next_of_decode hdecode), ?_, hstraight, ?_⟩
  · rw [step_of_instruction? hsta]
    decide +kernel
  · rw [hrun 2 hstraight 2 (Nat.le_refl 2)]
    decide +kernel

end Machine

end Core6502
