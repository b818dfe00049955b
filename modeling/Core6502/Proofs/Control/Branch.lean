import Core6502.Proofs.Execution

/-!
# Branches

A branch looks at one flag and is taken on one of its two values; the other value has a branch
of its own. It goes to the address that its operand, a signed byte, is away from the instruction
behind it. No other operation looks at a flag to find its successor.
-/

namespace Core6502

namespace Operation

/-- The flag that a branch tests, and the value on which it is taken. -/
def branchTest? : Operation → Option ((Status → Bool) × Bool)
  | bpl => some (Status.negative, false)
  | bmi => some (Status.negative, true)
  | bvc => some (Status.overflow, false)
  | bvs => some (Status.overflow, true)
  | bcc => some (Status.carry, false)
  | bcs => some (Status.carry, true)
  | bne => some (Status.zero, false)
  | beq => some (Status.zero, true)
  | _ => none

def isBranch (operation : Operation) : Bool := operation.branchTest?.isSome

def branches (operation : Operation) (s : Status) : Bool :=
  operation.branchTest?.any fun (flag, value) => flag s == value

/-- The branches that test the same flag for opposite values. -/
def oppositeBranches : List (Operation × Operation) :=
  [(bpl, bmi), (bvc, bvs), (bcc, bcs), (bne, beq)]

variable {operation : Operation}

theorem branches_eq_not_of_opposite {first second : Operation}
    (h : (first, second) ∈ oppositeBranches) (s : Status) :
    first.branches s = !second.branches s := by
  simp only [oppositeBranches, List.mem_cons, List.not_mem_nil, or_false, Prod.mk.injEq] at h
  rcases h with ⟨rfl, rfl⟩ | ⟨rfl, rfl⟩ | ⟨rfl, rfl⟩ | ⟨rfl, rfl⟩ <;>
    simp [branches, branchTest?]

theorem branches_eq_false (h : operation.isBranch = false) (s : Status) :
    operation.branches s = false := by
  rw [isBranch, Option.isSome_eq_false_iff, Option.isNone_iff_eq_none] at h
  rw [branches, h, Option.any_none]

theorem effect_eq_branch (h : operation.isBranch) :
    operation.effect = .branch operation.branches := by
  cases operation with
  | bpl | bmi | bvc | bvs | bcc | bcs | bne | beq =>
      refine congrArg Effect.branch (funext fun s => ?_)
      simp [branches, branchTest?]
  | _ => cases h

end Operation

theorem relative_of_isBranch {opcode : UInt8} {i : Instruction} (hi : decode opcode = some i)
    (h : i.operation.isBranch) : i.mode = .relative := by
  have hall : ∀ i ∈ Isa.instructions, i.operation.isBranch → i.mode = .relative := by
    decide +kernel
  exact hall i (mem_instructions_of_decode hi) h

namespace Word

theorem ofInt_toInt (d : Int16) : UInt16.ofInt d.toInt = d.toUInt16 := by
  have h : (BitVec.ofInt 16 d.toInt).toNat = d.toBitVec.toNat :=
    congrArg BitVec.toNat BitVec.ofInt_toInt
  rw [BitVec.toNat_ofInt] at h
  exact (congrArg UInt16.ofNat h).trans UInt16.ofNat_toNat

theorem ofInt_toNat (a : UInt16) : UInt16.ofInt a.toNat = a := by
  have ha := a.toNat_lt
  rw [UInt16.ofInt, UInt16.ofNat_eq_iff_mod_eq_toNat]
  omega

/-- Moving by a sign-extended byte is addition of its signed value, up to wrapping. -/
theorem add_signExtend (a : UInt16) (d : Int8) :
    a + d.toInt16.toUInt16 = UInt16.ofInt (a.toNat + d.toInt) := by
  rw [UInt16.ofInt_add, ofInt_toNat, ← Int8.toInt_toInt16, ofInt_toInt]

end Word

namespace Effect

variable {m : Memory} {through : Change}

theorem pc_change_branch (taken : Status → Bool) (d : Int8) :
    ((branch taken).change (.relative d) m through).pc =
      if taken through.registers.status then through.pc + d.toInt16.toUInt16
      else through.pc := by
  simp only [change]
  split <;> rfl

theorem cycles_change_branch (taken : Status → Bool) (d : Int8) :
    ((branch taken).change (.relative d) m through).cycles =
      through.cycles + if taken through.registers.status then
        (if Word.high through.pc = Word.high (through.pc + d.toInt16.toUInt16) then 1 else 2)
      else 0 := by
  simp only [change, beq_iff_eq]
  split <;> rfl

end Effect

namespace Machine

/-- The address that a branch at the program counter goes to if it is taken. -/
def branchTarget (m : Machine) : UInt16 :=
  UInt16.ofInt (m.pc.toNat + 2 + (m.memory.read (m.pc + 1)).toInt8.toInt)

variable {m : Machine} {i : Instruction}

theorem add_displacement_eq_branchTarget (m : Machine) :
    m.pc + 2 + (m.memory.read (m.pc + 1)).toInt8.toInt16.toUInt16 = m.branchTarget := by
  rw [UInt16.add_assoc, UInt16.add_comm 2, ← UInt16.add_assoc, Word.add_signExtend,
    branchTarget, Int.add_right_comm, UInt16.ofInt_add _ 2]
  rfl

theorem change_of_isBranch (hi : decode (m.memory.read m.pc) = some i)
    (h : i.operation.isBranch) :
    (m.change i).pc =
        (if i.operation.branches m.registers.status then m.branchTarget else m.pc + 2) ∧
      (m.change i).cycles = i.baseCycles +
        if i.operation.branches m.registers.status then
          (if Word.high (m.pc + 2) = Word.high m.branchTarget then 1 else 2)
        else 0 := by
  have hmode := relative_of_isBranch hi h
  have hbytes : m.pc + UInt16.ofNat i.bytes = m.pc + 2 := by
    rw [Instruction.bytes, hmode]
    rfl
  have hpays : i.paysPageCross = false := by
    rw [Instruction.paysPageCross, hmode]
    rfl
  have hoperand : m.operand i.mode = .relative (m.memory.read (m.pc + 1)).toInt8 := by
    rw [hmode]
    rfl
  rw [change, outcome, Operation.effect_eq_branch h, hoperand, Effect.pc_change_branch,
    Effect.cycles_change_branch, hbytes, add_displacement_eq_branchTarget, hpays]
  exact ⟨rfl, rfl⟩

end Machine

end Core6502
