import Core6502.Proofs.Footprint.Write

/-!
# What an instruction may read

`readFootprint` lists the cells that one step can depend on: the opcode, the operand bytes, a
pointer, the operand itself and the bytes pulled off the stack. Two machines with the same
registers that agree on these cells make the same change, so a byte anywhere else passes
through the step untouched and unseen.
-/

namespace Core6502

/-- Whether the byte at the address of the operand matters: stores and transfers of control only
use the address, and one operation drops its operand. -/
def Operation.readsOperand : Operation → Bool
  | sta | stx | sty | sax | ign | jmp | jsr => false
  | _ => true

def Effect.readsOperand : Effect → Bool
  | read _ | modify _ => true
  | _ => false

theorem Operation.readsOperand_of_effect {operation : Operation}
    (h : operation.effect.readsOperand) : operation.readsOperand := by
  cases operation <;> first | rfl | cases h

namespace Memory

variable {m n : Memory}

/-- The cells of a word in the zero page. -/
def zeroPageCells (offset : UInt8) : List UInt16 := [offset.toUInt16, (offset + 1).toUInt16]

def inPageCells (address : UInt16) : List UInt16 :=
  [address, Word.ofBytes (Word.low address + 1) (Word.high address)]

theorem readZeroPage_congr {offset : UInt8} (h : ∀ a ∈ zeroPageCells offset, m.read a = n.read a) :
    m.readZeroPage offset = n.readZeroPage offset := by
  rw [readZeroPage, readZeroPage, h _ (by simp [zeroPageCells]), h _ (by simp [zeroPageCells])]

theorem readInPage_congr {address : UInt16} (h : ∀ a ∈ inPageCells address, m.read a = n.read a) :
    m.readInPage address = n.readInPage address := by
  rw [readInPage, readInPage, h _ (by simp [inPageCells]), h _ (by simp [inPageCells])]

theorem read_writeAll_congr {stores : List (UInt16 × UInt8)} {a : UInt16}
    (h : a ∈ stores.map Prod.fst ∨ m.read a = n.read a) :
    (m.writeAll stores).read a = (n.writeAll stores).read a := by
  induction stores generalizing m n with
  | nil => exact h.resolve_left List.not_mem_nil
  | cons store stores ih =>
      apply ih
      rw [read_write, read_write]
      by_cases hstore : store.1 = a
      · right
        rw [if_pos hstore, if_pos hstore]
      · rw [if_neg hstore, if_neg hstore]
        rw [List.map_cons, List.mem_cons] at h
        exact h.imp_left fun hmem => hmem.resolve_left (Ne.symm hstore)

/-- A byte written before a row of stores stays exactly if none of them is to its cell. -/
theorem writeAll_write (m : Memory) (a : UInt16) (v : UInt8) (stores : List (UInt16 × UInt8)) :
    (m.write a v).writeAll stores =
      if a ∈ stores.map Prod.fst then m.writeAll stores else (m.writeAll stores).write a v := by
  apply ext_read
  intro b
  by_cases hmem : a ∈ stores.map Prod.fst
  · rw [if_pos hmem]
    by_cases hab : a = b
    · exact read_writeAll_congr (Or.inl (hab ▸ hmem))
    · exact read_writeAll_congr (Or.inr (read_write_of_ne m v hab))
  · rw [if_neg hmem, read_write]
    by_cases hab : a = b
    · subst hab
      rw [if_pos rfl, read_writeAll_of_notMem hmem, read_write_self]
    · rw [if_neg hab]
      exact read_writeAll_congr (Or.inr (read_write_of_ne m v hab))

end Memory

/-! ## Operands -/

namespace Operand

variable {m n : Memory} {r : Registers} {mode : AddressingMode} {pc : UInt16}

/-- The cells of the bytes after the opcode at `pc`. -/
def fetchedCells (mode : AddressingMode) (pc : UInt16) : List UInt16 :=
  (List.range mode.operandBytes).map fun k => pc + 1 + UInt16.ofNat k

/-- The cells of the pointer to the operand, in the modes that have one. -/
def pointerCells (r : Registers) (m : Memory) (mode : AddressingMode) (pc : UInt16) :
    List UInt16 :=
  match mode with
  | .indirect => Memory.inPageCells (m.readWord (pc + 1))
  | .indirectX => Memory.zeroPageCells (m.read (pc + 1) + r.x)
  | .indirectY => Memory.zeroPageCells (m.read (pc + 1))
  | _ => []

theorem pc_notMem_fetchedCells (mode : AddressingMode) (pc : UInt16) :
    pc ∉ fetchedCells mode pc := by
  intro hmem
  obtain ⟨k, hk, hpc⟩ := List.mem_map.mp hmem
  have hsmall := mode.operandBytes_le
  have hlt := pc.toNat_lt
  have hnat := congrArg UInt16.toNat hpc
  rw [UInt16.toNat_add, UInt16.toNat_add, UInt16.toNat_ofNat', UInt16.toNat_one] at hnat
  rw [List.mem_range] at hk
  omega

theorem resolve_congr (hfetched : ∀ a ∈ fetchedCells mode pc, m.read a = n.read a)
    (hpointer : ∀ a ∈ pointerCells r m mode pc, m.read a = n.read a) :
    resolve r m mode pc = resolve r n mode pc := by
  have hfirst (h : 0 < mode.operandBytes) : m.read (pc + 1) = n.read (pc + 1) := by
    simpa using hfetched (pc + 1 + UInt16.ofNat 0) (List.mem_map_of_mem (List.mem_range.mpr h))
  have hword (h : 1 < mode.operandBytes) : m.readWord (pc + 1) = n.readWord (pc + 1) := by
    have hsecond := hfetched (pc + 1 + UInt16.ofNat 1) (List.mem_map_of_mem (List.mem_range.mpr h))
    exact congrArg₂ Word.ofBytes (hfirst (Nat.zero_lt_of_lt h)) hsecond
  cases mode with
  | implied | accumulator => rfl
  | immediate | zeroPage | zeroPageX | zeroPageY | relative =>
      simp only [resolve, hfirst Nat.one_pos]
  | absolute | absoluteX | absoluteY => simp only [resolve, hword Nat.one_lt_two]
  | indirect =>
      simp only [resolve, ← hword Nat.one_lt_two, Memory.readInPage_congr hpointer]
  | indirectX | indirectY =>
      simp only [resolve, ← hfirst Nat.one_pos, Memory.readZeroPage_congr hpointer]

/-- Of the registers only X and Y count. -/
theorem resolve_of_index_eq {r s : Registers} (hx : r.x = s.x) (hy : r.y = s.y) (m : Memory)
    (mode : AddressingMode) (pc : UInt16) : resolve r m mode pc = resolve s m mode pc := by
  cases mode <;> simp only [resolve, hx, hy]

theorem value_congr {operand : Operand}
    (h : ∀ a ∈ operand.address?, m.read a = n.read a) : operand.value r m = operand.value r n := by
  cases operand with
  | memory address _ => exact h address rfl
  | _ => rfl

end Operand

theorem Effect.change_congr {effect : Effect} {operand : Operand} {m n : Memory}
    {through : Change}
    (hoperand : effect.readsOperand → ∀ a ∈ operand.address?, m.read a = n.read a)
    (hstack : ∀ a ∈ Machine.cellsAbove through.registers.sp effect.pulls,
      m.read a = n.read a) :
    effect.change operand m through = effect.change operand n through := by
  have hcell (k : Nat) (hk : k < effect.pulls) :
      m.read (Machine.stackCell (through.registers.sp + UInt8.ofNat (k + 1))) =
        n.read (Machine.stackCell (through.registers.sp + UInt8.ofNat (k + 1))) :=
    hstack _ (Machine.mem_cellsAbove.mpr ⟨k, hk, rfl⟩)
  have hfirst (h : 0 < effect.pulls) :
      m.read (Machine.stackCell (through.registers.sp + 1)) =
        n.read (Machine.stackCell (through.registers.sp + 1)) := hcell 0 h
  have hsecond (h : 1 < effect.pulls) :
      m.read (Machine.stackCell (through.registers.sp + 2)) =
        n.read (Machine.stackCell (through.registers.sp + 2)) := hcell 1 h
  have hthird (h : 2 < effect.pulls) :
      m.read (Machine.stackCell (through.registers.sp + 3)) =
        n.read (Machine.stackCell (through.registers.sp + 3)) := hcell 2 h
  cases effect with
  | read use => simp only [change, Operand.value_congr (hoperand rfl)]
  | modify replace => simp only [change, Operand.value_congr (hoperand rfl)]
  | pull use => simp only [change, hfirst Nat.one_pos]
  | returnFromCall => simp only [change, hfirst Nat.two_pos, hsecond Nat.one_lt_two]
  | returnFromInterrupt =>
      simp only [change, hfirst (Nat.succ_pos 2), hsecond (Nat.lt_succ_of_lt Nat.one_lt_two),
        hthird (Nat.lt_succ_self 2)]
  | _ => rfl

namespace Machine

/-- The cells that an instruction at the program counter reads besides its opcode. -/
def operandFootprint (m : Machine) (i : Instruction) : List UInt16 :=
  Operand.fetchedCells i.mode m.pc ++ Operand.pointerCells m.registers m.memory i.mode m.pc ++
    (if i.operation.readsOperand then (m.effectiveAddress? i).toList else []) ++
      cellsAbove m.registers.sp i.operation.pulls

/-- The cells that a step reads. Of what cannot be executed only the opcode is looked at. -/
def readFootprint (m : Machine) : List UInt16 :=
  m.pc :: (m.instruction?.map m.operandFootprint).getD []

def written (m : Machine) : List UInt16 := (m.instruction?.map m.writeFootprint).getD []

variable {m n : Machine}

theorem change_congr {i : Instruction} (hregisters : n.registers = m.registers)
    (hpc : n.pc = m.pc)
    (h : ∀ a ∈ m.operandFootprint i, m.memory.read a = n.memory.read a) :
    n.change i = m.change i := by
  have hresolve : m.operand i.mode = n.operand i.mode := by
    rw [operand, operand, hregisters, hpc]
    exact Operand.resolve_congr (fun a ha => h a (by simp [operandFootprint, ha]))
      fun a ha => h a (by simp [operandFootprint, ha])
  rw [change, change, outcome, outcome, ← hresolve, hregisters, hpc]
  symm
  refine Effect.change_congr (fun hreads a ha => h a ?_) fun a ha => h a ?_
  · rw [operandFootprint, if_pos (Operation.readsOperand_of_effect hreads)]
    have haddress : a ∈ (m.effectiveAddress? i).toList := Option.mem_toList.mpr ha
    simp [haddress]
  · rw [Operation.pulls_effect] at ha
    simp [operandFootprint, ha]

/-- A step depends on the registers, the program counter and the read footprint only. -/
theorem next_congr (hregisters : n.registers = m.registers) (hpc : n.pc = m.pc)
    (h : ∀ a ∈ m.readFootprint, m.memory.read a = n.memory.read a) :
    n.instruction? = m.instruction? ∧ n.next = m.next := by
  have hopcode : n.memory.read n.pc = m.memory.read m.pc := by
    rw [hpc]
    exact (h m.pc (List.mem_cons_self ..)).symm
  have hinstruction : n.instruction? = m.instruction? := by
    rw [instruction?, instruction?, hopcode]
  refine ⟨hinstruction, ?_⟩
  cases hi : m.instruction? with
  | none =>
      rw [next_of_instruction?_eq_none hi, next_of_instruction?_eq_none (hinstruction.trans hi),
        hopcode]
  | some i =>
      rw [next_of_instruction? hi, next_of_instruction? (hinstruction.trans hi)]
      refine congrArg Except.ok (change_congr hregisters hpc fun a ha => h a ?_)
      simp [readFootprint, hi, ha]

def poke (m : Machine) (address : UInt16) (v : UInt8) : Machine :=
  { m with memory := m.memory.write address v }

theorem next_poke {address : UInt16} (v : UInt8) (h : address ∉ m.readFootprint) :
    (m.poke address v).instruction? = m.instruction? ∧ (m.poke address v).next = m.next := by
  refine next_congr rfl rfl fun a ha => ?_
  have hne : address ≠ a := fun heq => h (heq ▸ ha)
  exact (Memory.read_write_of_ne m.memory v hne).symm

/-- A byte outside the read footprint does not influence a step: result, registers, program
counter and cycles are the same whatever it is. It stays where it is, unless the step
overwrites it. -/
theorem step_poke (m : Machine) (address : UInt16) (v : UInt8)
    (h : address ∉ m.readFootprint) :
    (m.poke address v).step.1 = m.step.1 ∧
      (m.poke address v).step.2.registers = m.step.2.registers ∧
      (m.poke address v).step.2.pc = m.step.2.pc ∧
      (m.poke address v).step.2.cycles = m.step.2.cycles ∧
      (m.poke address v).step.2.memory =
        if address ∈ m.written then m.step.2.memory else m.step.2.memory.write address v := by
  obtain ⟨-, hnext⟩ := next_poke v h
  cases hi : m.instruction? with
  | none =>
      have hfault := next_of_instruction?_eq_none hi
      rw [step_of_next_error hfault, step_of_next_error (hnext.trans hfault)]
      have hwritten : m.written = [] := by rw [written, hi]; rfl
      rw [hwritten, if_neg List.not_mem_nil]
      exact ⟨rfl, rfl, rfl, rfl, rfl⟩
  | some i =>
      have hchange := next_of_instruction? hi
      rw [step_of_next_ok hchange, step_of_next_ok (hnext.trans hchange)]
      have hwritten : m.written = (m.change i).stores.map Prod.fst := by
        rw [written, hi, stores_change]
        rfl
      refine ⟨rfl, rfl, rfl, rfl, ?_⟩
      rw [hwritten]
      exact Memory.writeAll_write m.memory address v (m.change i).stores

/-- The pointer at $FF has its high byte at $00, so the byte at $0100 is not looked at. -/
theorem step_poke_past_zero_page :
    let m := ({ registers := { y := 1 }, pc := 0x10 } : Machine).load 0x10 [0xB1, 0xFF]
    0x100 ∉ m.readFootprint ∧ (m.poke 0x100 7).step.1 = m.step.1 ∧
      (m.poke 0x100 7).step.2.registers = m.step.2.registers := by
  intro m
  have h : 0x100 ∉ m.readFootprint := by decide +kernel
  obtain ⟨hresult, hregisters, -⟩ := step_poke m 0x100 7 h
  exact ⟨h, hresult, hregisters⟩

end Machine

end Core6502
