import Core6502.Proofs.Execution

/-!
# Flags that make no difference

An operation consults few flags: a branch tests one, additions and rotations take the carry in,
and a push of P copies six. `clear` takes the flags of a mask out of a machine. A step whose
operation consults none of them does the same with and without them, up to these flags, so two
machines that are equal but for such flags answer alike and stay so, over runs of any length.
-/

namespace Core6502

namespace Operation

/-- The flags that an operation consults. One that it only sets is not among them. -/
def consulted : Operation → Status
  | adc | sbc | rol | ror | rla | rra | isc | bcc | bcs => { carry := true }
  | bne | beq => { zero := true }
  | bvc | bvs => { overflow := true }
  | bpl | bmi => { negative := true }
  | php =>
    { carry := true, zero := true, interruptDisable := true, decimal := true, overflow := true
      negative := true }
  | _ => {}

/-- No flag of `mask` is consulted. -/
def Ignores (operation : Operation) (mask : Status) : Prop :=
  operation.consulted.diff mask = operation.consulted

end Operation

/-! ## Cleared flags -/

namespace Status

variable {mask : Status}

theorem diff_diff (s mask : Status) : (s.diff mask).diff mask = s.diff mask := by
  simp [diff, zipWith]

theorem carry_diff (h : mask.carry = false) (s : Status) : (s.diff mask).carry = s.carry := by
  simp [diff, zipWith, h]

theorem diff_describe (s mask : Status) (v : UInt8) :
    ((s.diff mask).describe v).diff mask = (s.describe v).diff mask := by
  simp [diff, zipWith, describe]

theorem diff_pull (s mask copy : Status) :
    ((s.diff mask).pull copy).diff mask = (s.pull copy).diff mask := by
  simp [diff, zipWith, pull]

theorem diff_union (s mask other : Status) :
    (s.union other).diff mask = ((s.diff mask).union other).diff mask := by
  simp [diff, zipWith, union, Bool.and_or_distrib_right]

/-- A push of P sets bits 4 and 5 whatever they are, and consults the others. -/
theorem union_pushed_diff (h : Operation.php.Ignores mask) (s : Status) :
    (s.diff mask).union pushed = s.union pushed := by
  have hmask : mask.carry = false ∧ mask.zero = false ∧ mask.interruptDisable = false ∧
      mask.decimal = false ∧ mask.overflow = false ∧ mask.negative = false := by
    simpa [Operation.Ignores, Operation.consulted, diff, zipWith] using h
  simp [union, pushed, diff, zipWith, hmask]

end Status

namespace Registers

def clear (mask : Status) (r : Registers) : Registers := { r with status := r.status.diff mask }

theorem clear_clear (mask : Status) (r : Registers) : (r.clear mask).clear mask = r.clear mask :=
  congrArg (fun s => { r with status := s }) (r.status.diff_diff mask)

theorem clear_describe (mask : Status) (v : UInt8) (r : Registers) :
    ((r.clear mask).describe v).clear mask = (r.describe v).clear mask :=
  congrArg (fun s => { r with status := s }) (r.status.diff_describe mask v)

theorem clear_setA (mask : Status) (v : UInt8) (r : Registers) :
    ((r.clear mask).setA v).clear mask = (r.setA v).clear mask :=
  clear_describe mask v { r with a := v }

theorem clear_setX (mask : Status) (v : UInt8) (r : Registers) :
    ((r.clear mask).setX v).clear mask = (r.setX v).clear mask :=
  clear_describe mask v { r with x := v }

theorem clear_setA_setX (mask : Status) (v : UInt8) (r : Registers) :
    (((r.clear mask).setA v).setX v).clear mask = ((r.setA v).setX v).clear mask := by
  rw [← clear_setX, clear_setA, clear_setX]

theorem clear_setY (mask : Status) (v : UInt8) (r : Registers) :
    ((r.clear mask).setY v).clear mask = (r.setY v).clear mask :=
  clear_describe mask v { r with y := v }

theorem clear_compare (mask : Status) (reg v : UInt8) (r : Registers) :
    ((r.clear mask).compare reg v).clear mask = (r.compare reg v).clear mask := by
  simp [compare, describe, Status.describe, clear, Status.diff, Status.zipWith]

theorem clear_testBits (mask : Status) (v : UInt8) (r : Registers) :
    ((r.clear mask).testBits v).clear mask = (r.testBits v).clear mask := by
  simp [testBits, clear, Status.diff, Status.zipWith]

theorem clear_pullStatus (mask : Status) (copy : UInt8) (r : Registers) :
    ((r.clear mask).pullStatus copy).clear mask = (r.pullStatus copy).clear mask :=
  congrArg (fun s => { r with status := s }) (r.status.diff_pull mask (Status.ofByte copy))

theorem clear_addWithCarry {mask : Status} (hcarry : mask.carry = false) (v : UInt8)
    (r : Registers) :
    ((r.clear mask).addWithCarry v).clear mask = (r.addWithCarry v).clear mask := by
  simp [addWithCarry, setA, describe, Status.describe, clear, Status.diff, Status.zipWith, hcarry]

theorem clear_shiftLeft (mask : Status) (carryIn : Bool) (v : UInt8) (r : Registers) :
    ((r.clear mask).shiftLeft carryIn v).2.clear mask = (r.shiftLeft carryIn v).2.clear mask := by
  simp [shiftLeft, describe, Status.describe, clear, Status.diff, Status.zipWith]

theorem clear_shiftRight (mask : Status) (carryIn : Bool) (v : UInt8) (r : Registers) :
    ((r.clear mask).shiftRight carryIn v).2.clear mask =
      (r.shiftRight carryIn v).2.clear mask := by
  simp [shiftRight, describe, Status.describe, clear, Status.diff, Status.zipWith]

end Registers

/-! ## Effects -/

namespace Change

def clear (mask : Status) (change : Change) : Change :=
  { change with registers := change.registers.clear mask }

theorem clear_congr {mask : Status} {c d : Change}
    (hregisters : c.registers.clear mask = d.registers.clear mask) (hstores : c.stores = d.stores)
    (hpc : c.pc = d.pc) (hcycles : c.cycles = d.cycles) : c.clear mask = d.clear mask := by
  rw [clear, clear, hregisters, hstores, hpc, hcycles]

end Change

namespace Effect

/-- The computation in the effect gives the same, up to the flags of `mask`, with and without
them. -/
def Ignores (mask : Status) : Effect → Prop
  | update next => ∀ r, (next (r.clear mask)).clear mask = (next r).clear mask
  | read use | pull use => ∀ v r, (use v (r.clear mask)).clear mask = (use v r).clear mask
  | write value | push value => ∀ r, value (r.clear mask) = value r
  | modify replace => ∀ v r, (replace v (r.clear mask)).1 = (replace v r).1 ∧
      (replace v (r.clear mask)).2.clear mask = (replace v r).2.clear mask
  | branch taken => ∀ s, taken (s.diff mask) = taken s
  | skip | jump | call | returnFromCall | returnFromInterrupt => True

variable {mask : Status} {effect : Effect} {operand : Operand} {through : Change}
  {r s : Registers}

theorem Ignores.fuse {replace : UInt8 → Registers → UInt8 × Registers}
    {use : UInt8 → Registers → Registers} (hreplace : (modify replace).Ignores mask)
    (huse : (read use).Ignores mask) : (fuse replace use).Ignores mask := by
  intro v r
  obtain ⟨hfst, hsnd⟩ := hreplace v r
  refine ⟨hfst, ?_⟩
  calc (use (replace v (r.clear mask)).1 (replace v (r.clear mask)).2).clear mask
      = (use (replace v r).1 ((replace v (r.clear mask)).2.clear mask)).clear mask := by
        rw [huse, hfst]
    _ = (use (replace v r).1 (replace v r).2).clear mask := by rw [hsnd, huse]

theorem value_clear (mask : Status) (operand : Operand) (r : Registers) (m : Memory) :
    operand.value (r.clear mask) m = operand.value r m := by
  cases operand <;> rfl

theorem clear_store (h : r.clear mask = s.clear mask) (v : UInt8) :
    (store operand v r (through.clear mask)).clear mask =
      (store operand v s through).clear mask := by
  cases operand with
  | accumulator => exact Change.clear_congr (congrArg (fun r => { r with a := v }) h) rfl rfl rfl
  | _ => exact Change.clear_congr h rfl rfl rfl

/-- An effect that ignores flags makes the same change without them. -/
theorem Ignores.change (h : effect.Ignores mask) (operand : Operand) (m : Memory)
    (through : Change) :
    (effect.change operand m (through.clear mask)).clear mask =
      (effect.change operand m through).clear mask := by
  have hsp (sp : UInt8) : ({ through.registers.clear mask with sp := sp } : Registers).clear mask =
      ({ through.registers with sp := sp } : Registers).clear mask :=
    Registers.clear_clear mask { through.registers with sp := sp }
  have hvalue := value_clear mask operand through.registers m
  cases effect with
  | skip | jump => exact Change.clear_congr (Registers.clear_clear _ _) rfl rfl rfl
  | call | returnFromCall => exact Change.clear_congr (hsp _) rfl rfl rfl
  | returnFromInterrupt =>
      refine Change.clear_congr ?_ rfl rfl rfl
      exact Registers.clear_pullStatus mask _ { through.registers with sp := _ }
  | update next => exact Change.clear_congr (h _) rfl rfl rfl
  | read use =>
      refine Change.clear_congr ?_ rfl rfl rfl
      show (use (operand.value (through.registers.clear mask) m) _).clear mask = _
      rw [hvalue]
      exact h _ _
  | pull use => exact Change.clear_congr (h _ { through.registers with sp := _ }) rfl rfl rfl
  | write value =>
      show (store operand (value (through.registers.clear mask)) _ _).clear mask = _
      rw [h]
      exact clear_store (Registers.clear_clear _ _) _
  | push value =>
      refine Change.clear_congr (hsp _) ?_ rfl rfl
      show [(_, value (through.registers.clear mask))] = _
      rw [h]
      rfl
  | modify replace =>
      obtain ⟨hfst, hsnd⟩ := h (operand.value through.registers m) through.registers
      have hstore : (modify replace).change operand m (through.clear mask) =
          store operand
            (replace (operand.value through.registers m) (through.registers.clear mask)).1
            (replace (operand.value through.registers m) (through.registers.clear mask)).2
            (through.clear mask) := by
        rw [← hvalue]
        rfl
      rw [hstore, hfst]
      exact clear_store hsnd _
  | branch taken =>
      cases operand with
      | relative displacement =>
          show (if taken (through.registers.status.diff mask) then _ else _ : Change).clear mask =
            (if taken through.registers.status then _ else _ : Change).clear mask
          rw [h]
          split <;> exact Change.clear_congr (Registers.clear_clear _ _) rfl rfl rfl
      | _ => exact Change.clear_congr (Registers.clear_clear _ _) rfl rfl rfl

theorem ignores_increment (mask : Status) : (modify Registers.increment).Ignores mask :=
  fun v r => ⟨rfl, Registers.clear_describe mask (v + 1) r⟩

theorem ignores_decrement (mask : Status) : (modify Registers.decrement).Ignores mask :=
  fun v r => ⟨rfl, Registers.clear_describe mask (v - 1) r⟩

theorem ignores_asl (mask : Status) : (modify Registers.asl).Ignores mask :=
  fun v r => ⟨rfl, Registers.clear_shiftLeft mask false v r⟩

theorem ignores_lsr (mask : Status) : (modify Registers.lsr).Ignores mask :=
  fun v r => ⟨rfl, Registers.clear_shiftRight mask false v r⟩

theorem ignores_compare (mask : Status) (reg : Registers → UInt8)
    (hreg : ∀ r, reg (r.clear mask) = reg r) :
    (read fun v r => r.compare (reg r) v).Ignores mask := by
  intro v r
  show ((r.clear mask).compare (reg (r.clear mask)) v).clear mask = _
  rw [hreg]
  exact Registers.clear_compare mask (reg r) v r

theorem ignores_addWithCarry (hcarry : mask.carry = false) :
    (read Registers.addWithCarry).Ignores mask :=
  fun v r => Registers.clear_addWithCarry hcarry v r

theorem ignores_subtractWithCarry (hcarry : mask.carry = false) :
    (read Registers.subtractWithCarry).Ignores mask :=
  fun v r => Registers.clear_addWithCarry hcarry (~~~v) r

theorem ignores_rol (hcarry : mask.carry = false) : (modify Registers.rol).Ignores mask := by
  intro v r
  have hin : (r.clear mask).status.carry = r.status.carry := Status.carry_diff hcarry r.status
  rw [Registers.rol, Registers.rol, hin]
  exact ⟨rfl, Registers.clear_shiftLeft mask _ v r⟩

theorem ignores_ror (hcarry : mask.carry = false) : (modify Registers.ror).Ignores mask := by
  intro v r
  have hin : (r.clear mask).status.carry = r.status.carry := Status.carry_diff hcarry r.status
  rw [Registers.ror, Registers.ror, hin]
  exact ⟨rfl, Registers.clear_shiftRight mask _ v r⟩

end Effect

namespace Operation.Ignores

variable {operation : Operation} {mask : Status}

/-- A flag that is consulted is not in the mask. -/
theorem flag_eq_false (h : operation.Ignores mask) (flag : Status → Bool)
    (hdiff : ∀ s t, flag (s.diff t) = (flag s && !flag t)) (hflag : flag operation.consulted) :
    flag mask = false := by
  have hmask := congrArg flag h
  rw [hdiff, hflag] at hmask
  simpa using hmask

theorem flag_diff (h : operation.Ignores mask) (flag : Status → Bool)
    (hdiff : ∀ s t, flag (s.diff t) = (flag s && !flag t)) (hflag : flag operation.consulted)
    (s : Status) : flag (s.diff mask) = flag s := by
  rw [hdiff, h.flag_eq_false flag hdiff hflag, Bool.not_false, Bool.and_true]

theorem effect (h : operation.Ignores mask) : operation.effect.Ignores mask := by
  have hcarry : operation.consulted.carry → mask.carry = false :=
    h.flag_eq_false Status.carry fun _ _ => rfl
  cases operation with
  | nop | ign | skb | brk | jmp | jsr | rts | rti => exact trivial
  | sta | stx | sty | sax | pha => exact fun _ => rfl
  | lda | and | ora | eor | pla => exact fun _ r => Registers.clear_setA mask _ r
  | ldx => exact fun _ r => Registers.clear_setX mask _ r
  | ldy => exact fun _ r => Registers.clear_setY mask _ r
  | lax => exact fun v r => Registers.clear_setA_setX mask v r
  | txa | tya => exact fun r => Registers.clear_setA mask _ r
  | tax | tsx | inx | dex => exact fun r => Registers.clear_setX mask _ r
  | tay | iny | dey => exact fun r => Registers.clear_setY mask _ r
  | txs => exact fun r => Registers.clear_clear mask { r with sp := r.x }
  | cmp => exact Effect.ignores_compare mask Registers.a fun _ => rfl
  | cpx => exact Effect.ignores_compare mask Registers.x fun _ => rfl
  | cpy => exact Effect.ignores_compare mask Registers.y fun _ => rfl
  | bit => exact fun v r => Registers.clear_testBits mask v r
  | plp => exact fun v r => Registers.clear_pullStatus mask v r
  | clc | sec | cli | sei | clv | cld | sed =>
      intro r
      simp [Registers.clear, Status.diff, Status.zipWith]
  | php => exact fun r => congrArg Status.toByte (Status.union_pushed_diff h r.status)
  | bcs => exact h.flag_diff Status.carry (fun _ _ => rfl) rfl
  | bcc => exact fun s => congrArg Bool.not (h.flag_diff Status.carry (fun _ _ => rfl) rfl s)
  | beq => exact h.flag_diff Status.zero (fun _ _ => rfl) rfl
  | bne => exact fun s => congrArg Bool.not (h.flag_diff Status.zero (fun _ _ => rfl) rfl s)
  | bvs => exact h.flag_diff Status.overflow (fun _ _ => rfl) rfl
  | bvc => exact fun s => congrArg Bool.not (h.flag_diff Status.overflow (fun _ _ => rfl) rfl s)
  | bmi => exact h.flag_diff Status.negative (fun _ _ => rfl) rfl
  | bpl => exact fun s => congrArg Bool.not (h.flag_diff Status.negative (fun _ _ => rfl) rfl s)
  | adc => exact Effect.ignores_addWithCarry (hcarry rfl)
  | sbc => exact Effect.ignores_subtractWithCarry (hcarry rfl)
  | inc => exact Effect.ignores_increment mask
  | dec => exact Effect.ignores_decrement mask
  | asl => exact Effect.ignores_asl mask
  | lsr => exact Effect.ignores_lsr mask
  | rol => exact Effect.ignores_rol (hcarry rfl)
  | ror => exact Effect.ignores_ror (hcarry rfl)
  | slo => exact .fuse (Effect.ignores_asl mask) fun _ r => Registers.clear_setA mask _ r
  | rla => exact .fuse (Effect.ignores_rol (hcarry rfl)) fun _ r => Registers.clear_setA mask _ r
  | sre => exact .fuse (Effect.ignores_lsr mask) fun _ r => Registers.clear_setA mask _ r
  | rra => exact .fuse (Effect.ignores_ror (hcarry rfl)) (Effect.ignores_addWithCarry (hcarry rfl))
  | dcp =>
      exact .fuse (Effect.ignores_decrement mask)
        (Effect.ignores_compare mask Registers.a fun _ => rfl)
  | isc =>
      exact .fuse (Effect.ignores_increment mask) (Effect.ignores_subtractWithCarry (hcarry rfl))

end Operation.Ignores

/-! ## Steps and runs -/

namespace Machine

def clear (mask : Status) (m : Machine) : Machine :=
  { m with registers := m.registers.clear mask }

/-- The answers of the first `n` steps: what each of them costs, or why it fails. -/
def answers (m : Machine) (n : Nat) : List (Except Fault Nat) :=
  (List.range n).map fun k => (m.after k).step.1

variable {mask : Status} {m s t : Machine}

theorem clear_clear (mask : Status) (m : Machine) : (m.clear mask).clear mask = m.clear mask :=
  congrArg (fun r => { m with registers := r }) (m.registers.clear_clear mask)

theorem clear_eq_iff : s.clear mask = t.clear mask ↔
    s.registers.clear mask = t.registers.clear mask ∧ s.pc = t.pc ∧ s.memory = t.memory ∧
      s.cycles = t.cycles := by
  rw [clear, clear, Machine.mk.injEq]

theorem instruction?_clear (mask : Status) (m : Machine) :
    (m.clear mask).instruction? = m.instruction? := rfl

theorem operation?_clear (mask : Status) (m : Machine) :
    (m.clear mask).operation? = m.operation? := rfl

theorem operand_clear (mask : Status) (m : Machine) (mode : AddressingMode) :
    (m.clear mask).operand mode = m.operand mode := by
  cases mode <;> rfl

theorem clear_change {i : Instruction} (h : i.operation.Ignores mask) :
    ((m.clear mask).change i).clear mask = (m.change i).clear mask := by
  rw [change, outcome, operand_clear]
  exact h.effect.change (m.operand i.mode) m.memory
    { registers := m.registers
      stores := []
      pc := m.pc + UInt16.ofNat i.bytes
      cycles := i.baseCycles + (i.paysPageCross && (m.operand i.mode).pageCrossed).toNat }

/-- A step does not use flags that its operation ignores. -/
theorem step_clear (h : ∀ operation ∈ m.operation?, operation.Ignores mask) :
    (m.clear mask).step.1 = m.step.1 ∧
      (m.clear mask).step.2.clear mask = m.step.2.clear mask := by
  have hclear := m.instruction?_clear mask
  cases hi : m.instruction? with
  | none =>
      rw [step_of_instruction?_eq_none hi, step_of_instruction?_eq_none (hclear.trans hi)]
      exact ⟨rfl, clear_clear mask m⟩
  | some i =>
      have hchange : ((m.clear mask).change i).clear mask = (m.change i).clear mask :=
        clear_change (h i.operation (operation?_of_instruction? hi))
      have hcycles := congrArg Change.cycles hchange
      rw [step_of_instruction? hi, step_of_instruction? (hclear.trans hi)]
      refine ⟨congrArg Except.ok hcycles, ?_⟩
      show m.apply (((m.clear mask).change i).clear mask) = m.apply ((m.change i).clear mask)
      rw [hchange]

theorem step_of_clear_eq (h : s.clear mask = t.clear mask)
    (hignores : ∀ operation ∈ s.operation?, operation.Ignores mask) :
    s.step.1 = t.step.1 ∧ s.step.2.clear mask = t.step.2.clear mask := by
  have hs := step_clear hignores
  have hoperation : s.operation? = t.operation? := by
    rw [← operation?_clear mask s, h, operation?_clear]
  have ht := step_clear (hoperation ▸ hignores)
  rw [h] at hs
  exact ⟨hs.1.symm.trans ht.1, hs.2.symm.trans ht.2⟩

theorem after_of_clear_eq {n : Nat} (h : s.clear mask = t.clear mask)
    (hignores : ∀ k < n, ∀ operation ∈ (s.after k).operation?, operation.Ignores mask) :
    ∀ k ≤ n, (s.after k).clear mask = (t.after k).clear mask := by
  intro k
  induction k with
  | zero => exact fun _ => h
  | succ k ih =>
      intro hk
      rw [after_succ, after_succ]
      exact (step_of_clear_eq (ih (Nat.le_of_succ_le hk)) (hignores k hk)).2

theorem answers_of_clear_eq {n : Nat} (h : s.clear mask = t.clear mask)
    (hignores : ∀ k < n, ∀ operation ∈ (s.after k).operation?, operation.Ignores mask) :
    s.answers n = t.answers n := by
  refine List.map_congr_left fun k hk => ?_
  have hk' : k < n := List.mem_range.mp hk
  have hmachines := after_of_clear_eq h hignores k (Nat.le_of_lt hk')
  exact (step_of_clear_eq hmachines (hignores k hk')).1

end Machine

end Core6502
