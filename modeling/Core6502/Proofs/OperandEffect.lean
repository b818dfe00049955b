import Core6502.Proofs.Footprint.Write

/-!
# Instructions with an operand in memory

What a load, a store or a read-modify-write instruction does is a function of the byte at its
effective address and the registers. `transform` is that function; the addressing mode only
decides where the byte is.
-/

namespace Core6502

namespace Effect

def usesOperand : Effect → Bool
  | read _ | write _ | modify _ => true
  | _ => false

/-- The byte left in the operand, and the registers, from the byte found there. -/
def transform : Effect → UInt8 → Registers → UInt8 × Registers
  | read use, v, r => (v, use v r)
  | write value, _, r => (value r, r)
  | modify replace, v, r => replace v r
  | _, v, r => (v, r)

variable {effect : Effect} {m : Memory} {through : Change} {address : UInt16} {crossed : Bool}

theorem registers_change_memory (huses : effect.usesOperand) :
    (effect.change (.memory address crossed) m through).registers =
      (effect.transform (m.read address) through.registers).2 := by
  cases effect with
  | read | write | modify => rfl
  | _ => cases huses

theorem read_change_memory (huses : effect.usesOperand) (hstores : through.stores = []) :
    (m.writeAll (effect.change (.memory address crossed) m through).stores).read address =
      (effect.transform (m.read address) through.registers).1 := by
  cases effect with
  | read => exact congrArg (fun stores => (m.writeAll stores).read address) hstores
  | write | modify => exact Memory.read_write_self m address _
  | _ => cases huses

theorem pc_change_memory (huses : effect.usesOperand) :
    (effect.change (.memory address crossed) m through).pc = through.pc := by
  cases effect with
  | read | write | modify => rfl
  | _ => cases huses

theorem pushes_of_usesOperand (huses : effect.usesOperand) : effect.pushes = 0 := by
  cases effect with
  | read | write | modify => rfl
  | _ => cases huses

end Effect

namespace Machine

variable {m : Machine} {i : Instruction} {address : UInt16}

theorem operand_of_effectiveAddress? (h : m.effectiveAddress? i = some address) :
    ∃ crossed, m.operand i.mode = .memory address crossed := by
  rw [effectiveAddress?] at h
  cases hoperand : m.operand i.mode with
  | memory a crossed =>
      rw [hoperand] at h
      exact ⟨crossed, congrArg (Operand.memory · crossed) (Option.some.inj h)⟩
  | _ => simp [hoperand, Operand.address?] at h

theorem step_of_effectiveAddress? (hi : m.instruction? = some i)
    (huses : i.operation.effect.usesOperand) (haddress : m.effectiveAddress? i = some address) :
    m.step.2.registers =
        (i.operation.effect.transform (m.memory.read address) m.registers).2 ∧
      m.step.2.memory.read address =
        (i.operation.effect.transform (m.memory.read address) m.registers).1 ∧
      (∀ a, a ≠ address → m.step.2.memory.read a = m.memory.read a) ∧
      m.step.2.pc = m.pc + UInt16.ofNat i.bytes := by
  obtain ⟨crossed, hoperand⟩ := operand_of_effectiveAddress? haddress
  rw [step_of_instruction? hi]
  refine ⟨?_, ?_, fun a ha => read_apply_change fun hmem => ha ?_, ?_⟩
  · show (m.change i).registers = _
    rw [change, outcome, hoperand, Effect.registers_change_memory huses]
  · show (m.memory.writeAll (m.change i).stores).read address = _
    rw [change, outcome, hoperand, Effect.read_change_memory huses rfl]
  · have hpushes := Effect.pushes_of_usesOperand huses
    rw [Operation.pushes_effect] at hpushes
    rw [writeFootprint, haddress, hpushes, cellsBelow, List.append_nil] at hmem
    split at hmem
    · exact List.mem_singleton.mp hmem
    · exact absurd hmem List.not_mem_nil
  · show (m.change i).pc = _
    rw [change, outcome, hoperand, Effect.pc_change_memory huses]

end Machine

end Core6502
