import Core6502.Proofs.Footprint.Write

/-!
# The stack as a list

Seven operations move bytes to the stack page and back. `live` follows a run and keeps the
bytes pushed and not yet pulled, the latest first; `depth` counts them. As long as a run keeps
to the discipline (no stack pointer set from outside, no more pulls than pushes, no more than
the page holds, no store to a live cell), the list is what stands above the stack pointer, and
every pull takes its head. A pull at the depth that a push left behind, with no lower depth in
between, gets what was pushed.
-/

namespace Core6502

theorem Operation.pushes_eq_zero_or_pulls_eq_zero (operation : Operation) :
    operation.pushes = 0 ∨ operation.pulls = 0 := by
  cases operation <;> first | exact Or.inl rfl | exact Or.inr rfl

theorem absolute_of_jsr {opcode : UInt8} {i : Instruction} (hi : decode opcode = some i)
    (hjsr : i.operation = .jsr) : i.mode = .absolute := by
  have hall : ∀ i ∈ Isa.instructions, i.operation = .jsr → i.mode = .absolute := by
    decide +kernel
  exact hall i (mem_instructions_of_decode hi) hjsr

namespace Machine

/-- The bytes that an operation at the program counter pushes, in the order of the pushes. A
call pushes the address of its own last byte. -/
def pushed (m : Machine) : Operation → List UInt8
  | .pha => [m.registers.a]
  | .php => [(m.registers.status.union Status.pushed).toByte]
  | .jsr => [Word.high (m.pc + 2), Word.low (m.pc + 2)]
  | _ => []

@[simp] theorem length_pushed (m : Machine) (operation : Operation) :
    (m.pushed operation).length = operation.pushes := by
  cases operation <;> rfl

/-- The live bytes after `n` steps, the latest first: those pushed and not yet pulled. -/
def live (m : Machine) : (n : Nat) → List UInt8
  | 0 => []
  | n + 1 =>
    match (m.after n).operation? with
    | some operation =>
      ((m.after n).pushed operation).reverse ++ (m.live n).drop operation.pulls
    | none => m.live n

/-- The number of live bytes after `n` steps, below zero if more were pulled than pushed. -/
def depth (m : Machine) : (n : Nat) → Int
  | 0 => 0
  | n + 1 =>
    match (m.after n).operation? with
    | some operation => m.depth n + operation.pushes - operation.pulls
    | none => m.depth n

/-- A run of `n` successful steps without a transfer to the stack pointer, whose depth stays
within the page and whose stores stay off the live cells. -/
structure StackDiscipline (m : Machine) (n : Nat) : Prop where
  succeeds : (m.steps n).fault = none
  no_transfer : ∀ k < n, (m.after k).operation? ≠ some .txs
  depth_bounds : ∀ k ≤ n, 0 ≤ m.depth k ∧ m.depth k ≤ 256
  no_live_store : ∀ k < n, ∀ i address, (m.after k).instruction? = some i →
    i.operation.storesOperand → (m.after k).effectiveAddress? i = some address →
    address ∉ cellsBelow m.registers.sp (m.depth k).toNat

/-- The live bytes stand above the stack pointer, which is as far below its start as there are
live bytes. -/
structure HoldsStack (start : UInt8) (m : Machine) (live : List UInt8) : Prop where
  sp : m.registers.sp = start - UInt8.ofNat live.length
  cells : (cellsAbove m.registers.sp live.length).map m.memory.read = live

variable {m : Machine} {i : Instruction} {start : UInt8} {live : List UInt8}

theorem stores_change_of_jsr (hi : m.instruction? = some i) (hjsr : i.operation = .jsr) :
    (m.change i).stores = [(stackCell m.registers.sp, Word.high (m.pc + 2)),
      (stackCell (m.registers.sp - 1), Word.low (m.pc + 2))] := by
  have hmode := absolute_of_jsr (instruction?_eq_some_iff.mp hi).1 hjsr
  have hlast : m.pc + UInt16.ofNat i.bytes - 1 = m.pc + 2 := by
    rw [Instruction.bytes, hmode]
    show m.pc + 3 - 1 = m.pc + 2
    grind
  rw [← hlast, change, hjsr]
  rfl

theorem read_pushed (hi : m.instruction? = some i) :
    (cellsBelow m.registers.sp i.operation.pushes).map
        (m.apply (m.change i)).memory.read =
      m.pushed i.operation := by
  have hsingle (v : UInt8) (h : (m.change i).stores = [(stackCell m.registers.sp, v)]) :
      (m.apply (m.change i)).memory.read (stackCell m.registers.sp) = v := by
    rw [apply, h]
    exact Memory.read_write_self _ _ _
  cases hoperation : i.operation with
  | pha => exact congrArg (fun v => [v]) (hsingle _ (by rw [change, hoperation]; rfl))
  | php => exact congrArg (fun v => [v]) (hsingle _ (by rw [change, hoperation]; rfl))
  | jsr =>
      have hcells : stackCell (m.registers.sp - 1) ≠ stackCell m.registers.sp := by
        intro hcell
        have hoffset := stackCell_inj.mp hcell
        grind
      have hstores := stores_change_of_jsr hi hoperation
      simp only [Operation.pushes, cellsBelow, List.map_cons, List.map_nil, pushed, apply,
        hstores, Memory.writeAll_cons, Memory.writeAll_nil, Memory.read_write_self,
        Memory.read_write_of_ne _ _ hcells]
  | _ => rfl

/-- A step that keeps to the discipline pushes onto the list and pulls from it. -/
theorem HoldsStack.step (h : HoldsStack start m live) (hi : m.instruction? = some i)
    (htxs : i.operation ≠ .txs) (hfit : live.length + i.operation.pushes ≤ 256)
    (hpulls : i.operation.pulls ≤ live.length)
    (hstore : ∀ address, i.operation.storesOperand → m.effectiveAddress? i = some address →
      address ∉ cellsAbove m.registers.sp live.length) :
    HoldsStack start (m.apply (m.change i))
      ((m.pushed i.operation).reverse ++ live.drop i.operation.pulls) := by
  have hsp : (m.apply (m.change i)).registers.sp =
      m.registers.sp - UInt8.ofNat i.operation.pushes + UInt8.ofNat i.operation.pulls := by
    have hchange := sp_change m i
    rwa [Operation.stackPointer, if_neg htxs] at hchange
  have hkept : (cellsAbove m.registers.sp live.length).map (m.apply (m.change i)).memory.read =
      live := by
    refine Eq.trans (List.map_congr_left fun address hlive => ?_) h.cells
    apply read_apply_change
    rw [writeFootprint, List.mem_append, not_or]
    refine ⟨fun hoperand => ?_, fun hbelow =>
      notMem_cellsAbove_of_mem_cellsBelow hfit hbelow hlive⟩
    split at hoperand
    · exact hstore address ‹_› (Option.mem_toList.mp hoperand) hlive
    · exact List.not_mem_nil hoperand
  have hlength : ((m.pushed i.operation).reverse ++ live.drop i.operation.pulls).length =
      i.operation.pushes + (live.length - i.operation.pulls) := by
    simp
  constructor
  · rw [hsp, h.sp, hlength]
    obtain ⟨rest, hrest⟩ := Nat.exists_eq_add_of_le hpulls
    rw [hrest, Nat.add_sub_cancel_left, UInt8.ofNat_add, UInt8.ofNat_add]
    grind
  · rw [hsp, hlength]
    rcases i.operation.pushes_eq_zero_or_pulls_eq_zero with hpush | hpull
    · have hnothing : m.pushed i.operation = [] :=
        List.eq_nil_of_length_eq_zero ((m.length_pushed _).trans hpush)
      have hzero : m.registers.sp - UInt8.ofNat 0 = m.registers.sp := UInt8.sub_zero _
      rw [hnothing, hpush, hzero, Nat.zero_add, ← drop_cellsAbove, List.map_drop, hkept]
      rfl
    · have hzero (sp : UInt8) : sp + UInt8.ofNat 0 = sp := UInt8.add_zero _
      rw [hpull, hzero, Nat.sub_zero, cellsAbove_sub, List.map_append, List.map_reverse,
        read_pushed hi, hkept, List.drop_zero]

/-! ## Pulls -/

/-- What the pulling operations make of the latest live bytes. -/
structure PullsTop (m : Machine) (live : List UInt8) : Prop where
  pla : m.operation? = some .pla →
    ∃ v rest, live = v :: rest ∧ m.step.2.registers.a = v
  plp : m.operation? = some .plp →
    ∃ v rest, live = v :: rest ∧
      m.step.2.registers.status = m.registers.status.pull (Status.ofByte v)
  rts : m.operation? = some .rts →
    ∃ low high rest, live = low :: high :: rest ∧
      m.step.2.pc = Word.ofBytes low high + 1
  rti : m.operation? = some .rti →
    ∃ v low high rest, live = v :: low :: high :: rest ∧
      m.step.2.registers.status = m.registers.status.pull (Status.ofByte v) ∧
      m.step.2.pc = Word.ofBytes low high

theorem HoldsStack.top (h : HoldsStack start m live) {count : Nat} (hcount : count ≤ live.length) :
    live = (cellsAbove m.registers.sp count).map m.memory.read ++ live.drop count := by
  have htake : live.take count = (cellsAbove m.registers.sp count).map m.memory.read := by
    rw [← take_cellsAbove m.registers.sp hcount, List.map_take, h.cells]
  rw [← htake, List.take_append_drop]

theorem HoldsStack.pullsTop (h : HoldsStack start m live)
    (hpulls : ∀ operation, m.operation? = some operation → operation.pulls ≤ live.length) :
    m.PullsTop live := by
  have htwo : m.registers.sp + 1 + 1 = m.registers.sp + 2 := UInt8.add_assoc _ 1 1
  have hthree : m.registers.sp + 1 + 1 + 1 = m.registers.sp + 3 := by
    rw [htwo]
    exact UInt8.add_assoc _ 2 1
  constructor
  · intro hop
    obtain ⟨i, hstep⟩ := step_of_operation? hop
    refine ⟨_, _, h.top (hpulls _ hop), ?_⟩
    rw [hstep]
    rfl
  · intro hop
    obtain ⟨i, hstep⟩ := step_of_operation? hop
    refine ⟨_, _, h.top (hpulls _ hop), ?_⟩
    rw [hstep]
    rfl
  · intro hop
    obtain ⟨i, hstep⟩ := step_of_operation? hop
    refine ⟨_, _, _, h.top (hpulls _ hop), ?_⟩
    rw [hstep, htwo]
    rfl
  · intro hop
    obtain ⟨i, hstep⟩ := step_of_operation? hop
    refine ⟨_, _, _, _, h.top (hpulls _ hop), ?_⟩
    rw [hstep, hthree, htwo]
    exact ⟨rfl, rfl⟩

/-! ## Runs -/

theorem live_succ {n : Nat} {operation : Operation}
    (h : (m.after n).operation? = some operation) :
    m.live (n + 1) =
      ((m.after n).pushed operation).reverse ++ (m.live n).drop operation.pulls := by
  rw [live, h]

theorem depth_succ {n : Nat} {operation : Operation}
    (h : (m.after n).operation? = some operation) :
    m.depth (n + 1) = m.depth n + operation.pushes - operation.pulls := by
  rw [depth, h]

namespace StackDiscipline

variable {n k : Nat}

theorem exists_instruction (h : m.StackDiscipline n) (hk : k < n) :
    ∃ i, (m.after k).instruction? = some i ∧ (m.after k).operation? = some i.operation := by
  obtain ⟨i, hi⟩ := steps_fault_eq_none_iff.mp h.succeeds k hk
  exact ⟨i, hi, operation?_of_instruction? hi⟩

/-- A run without stores to operands keeps to the discipline if its depth does. -/
theorem of_no_stores (hplain : ∀ k < n, ∃ i, (m.after k).instruction? = some i ∧
      i.operation ≠ .txs ∧ i.operation.storesOperand = false)
    (hdepth : ∀ k ≤ n, 0 ≤ m.depth k ∧ m.depth k ≤ 256) : m.StackDiscipline n where
  succeeds := steps_fault_eq_none_iff.mpr fun k hk => by
    obtain ⟨i, hi, -⟩ := hplain k hk
    exact ⟨i, hi⟩
  no_transfer := fun k hk htransfer => by
    obtain ⟨i, hi, htxs, -⟩ := hplain k hk
    rw [operation?_of_instruction? hi] at htransfer
    exact htxs (Option.some.inj htransfer)
  depth_bounds := hdepth
  no_live_store := fun k hk j address hj hstores => by
    obtain ⟨i, hi, -, hno⟩ := hplain k hk
    rw [hi] at hj
    rw [← Option.some.inj hj, hno] at hstores
    cases hstores

/-- The invariant of a run: the list has the counted length and is what the stack holds. -/
theorem holdsStack (h : m.StackDiscipline n) : ∀ k ≤ n,
    ((m.live k).length : Int) = m.depth k ∧
      HoldsStack m.registers.sp (m.after k) (m.live k) := by
  intro k
  induction k with
  | zero => exact fun _ => ⟨rfl, ⟨(UInt8.sub_zero _).symm, rfl⟩⟩
  | succ k ih =>
      intro hk
      obtain ⟨hlength, hholds⟩ := ih (by omega)
      obtain ⟨i, hi, hop⟩ := h.exists_instruction hk
      have hnow := h.depth_bounds k (by omega)
      have hthen := h.depth_bounds (k + 1) hk
      rw [depth_succ hop] at hthen
      have hone := i.operation.pushes_eq_zero_or_pulls_eq_zero
      have hpulls : i.operation.pulls ≤ (m.live k).length := by omega
      have hfit : (m.live k).length + i.operation.pushes ≤ 256 := by omega
      have htxs : i.operation ≠ .txs := fun htxs => h.no_transfer k hk (htxs ▸ hop)
      rw [live_succ hop, depth_succ hop, after_succ_of_instruction? hi]
      refine ⟨?_, hholds.step hi htxs hfit hpulls fun address hstores haddress hlive => ?_⟩
      · simp only [List.length_append, List.length_reverse, length_pushed, List.length_drop]
        omega
      · apply h.no_live_store k hk i address hi hstores haddress
        rw [hholds.sp, mem_cellsAbove_sub] at hlive
        rwa [← hlength, Int.toNat_natCast]

theorem pulls_le (h : m.StackDiscipline n) (hk : k < n) {operation : Operation}
    (hop : (m.after k).operation? = some operation) : operation.pulls ≤ (m.live k).length := by
  have hlength := (h.holdsStack k (by omega)).1
  have hnow := h.depth_bounds k (by omega)
  have hthen := h.depth_bounds (k + 1) hk
  rw [depth_succ hop] at hthen
  have hone := operation.pushes_eq_zero_or_pulls_eq_zero
  omega

end StackDiscipline

/-- As long as the depth is no lower than at `p`, the bytes live at `p` stay at the bottom. -/
theorem StackDiscipline.exists_append_live {n p : Nat} (h : m.StackDiscipline n) (d : Nat)
    (hd : p + d ≤ n) (hlow : ∀ k, p ≤ k → k ≤ p + d → m.depth p ≤ m.depth k) :
    ∃ top, m.live (p + d) = top ++ m.live p := by
  induction d with
  | zero => exact ⟨[], rfl⟩
  | succ d ih =>
      obtain ⟨top, htop⟩ := ih (by omega) fun k hk hk' => hlow k hk (by omega)
      obtain ⟨i, hi, hop⟩ := h.exists_instruction (show p + d < n by omega)
      have hnext := hlow (p + d + 1) (by omega) (by omega)
      rw [depth_succ hop] at hnext
      have hsplit := congrArg List.length htop
      rw [List.length_append] at hsplit
      have hnow := (h.holdsStack (p + d) (by omega)).1
      have hstart := (h.holdsStack p (by omega)).1
      have hkeep := hlow (p + d) (by omega) (by omega)
      have hone := i.operation.pushes_eq_zero_or_pulls_eq_zero
      -- What is pulled is part of `top`, or the depth would be lower than at `p`.
      have hpulls : i.operation.pulls ≤ top.length := by omega
      refine ⟨((m.after (p + d)).pushed i.operation).reverse ++ top.drop i.operation.pulls, ?_⟩
      rw [← Nat.add_assoc, live_succ hop, htop, List.drop_append_of_le_length hpulls,
        List.append_assoc]

/-- The pull at `q` takes what the push at `p` left: it starts at the depth behind the push, and
the depth was never lower in between. -/
structure Matching (m : Machine) (p q : Nat) : Prop where
  lt : p < q
  depth_eq : m.depth q = m.depth (p + 1)
  le_depth : ∀ k, p < k → k ≤ q → m.depth (p + 1) ≤ m.depth k

theorem StackDiscipline.live_of_matching {n p q : Nat} (h : m.StackDiscipline n)
    (hmatch : m.Matching p q) (hq : q ≤ n) : m.live q = m.live (p + 1) := by
  have hlt := hmatch.lt
  obtain ⟨top, htop⟩ := h.exists_append_live (p := p + 1) (q - (p + 1)) (by omega)
    fun k hk hk' => hmatch.le_depth k hk (by omega)
  rw [Nat.add_sub_cancel' hlt] at htop
  have hsplit := congrArg List.length htop
  rw [List.length_append] at hsplit
  have hend := (h.holdsStack q hq).1
  have hstart := (h.holdsStack (p + 1) (by omega)).1
  have hdepth := hmatch.depth_eq
  have hnil : top = [] := List.eq_nil_of_length_eq_zero (by omega)
  rw [htop, hnil, List.nil_append]

theorem StackDiscipline.pullsTop {n k : Nat} (h : m.StackDiscipline n) (hk : k < n) :
    (m.after k).PullsTop (m.live k) := by
  have hholds := (h.holdsStack k (Nat.le_of_lt hk)).2
  exact hholds.pullsTop fun _ hop => h.pulls_le hk hop

section Matching

variable {n p q : Nat}

theorem StackDiscipline.a_of_matching (h : m.StackDiscipline n) (hmatch : m.Matching p q)
    (hq : q < n) (hpha : (m.after p).operation? = some .pha)
    (hpla : (m.after q).operation? = some .pla) :
    (m.after (q + 1)).registers.a = (m.after p).registers.a := by
  have htop := h.live_of_matching hmatch (Nat.le_of_lt hq)
  obtain ⟨v, rest, hlive, ha⟩ := (h.pullsTop hq).pla hpla
  rw [htop, live_succ hpha] at hlive
  rw [after_succ, ha, ← (List.cons.inj hlive).1]

theorem pull_pushed (now s : Status) :
    now.pull (Status.ofByte (s.union Status.pushed).toByte) =
      { s with breakMark := now.breakMark, unused := now.unused } := by
  rw [Status.ofByte_toByte]
  simp [Status.pull, Status.union, Status.zipWith, Status.pushed]

theorem StackDiscipline.status_of_matching (h : m.StackDiscipline n) (hmatch : m.Matching p q)
    (hq : q < n) (hphp : (m.after p).operation? = some .php)
    (hplp : (m.after q).operation? = some .plp) :
    (m.after (q + 1)).registers.status =
      { (m.after p).registers.status with
        breakMark := (m.after q).registers.status.breakMark
        unused := (m.after q).registers.status.unused } := by
  have htop := h.live_of_matching hmatch (Nat.le_of_lt hq)
  obtain ⟨v, rest, hlive, hstatus⟩ := (h.pullsTop hq).plp hplp
  rw [htop, live_succ hphp] at hlive
  rw [after_succ, hstatus, ← (List.cons.inj hlive).1, pull_pushed]

/-- The call pushes the address of its last byte and the return adds one. -/
theorem StackDiscipline.pc_of_matching (h : m.StackDiscipline n) (hmatch : m.Matching p q)
    (hq : q < n) (hjsr : (m.after p).operation? = some .jsr)
    (hrts : (m.after q).operation? = some .rts) :
    (m.after (q + 1)).pc = (m.after p).pc + 3 := by
  have htop := h.live_of_matching hmatch (Nat.le_of_lt hq)
  obtain ⟨low, high, rest, hlive, hpc⟩ := (h.pullsTop hq).rts hrts
  rw [htop, live_succ hjsr] at hlive
  obtain ⟨hlow, hrest⟩ := List.cons.inj hlive
  rw [after_succ, hpc, ← hlow, ← (List.cons.inj hrest).1, Word.ofBytes_low_high]
  exact UInt16.add_assoc _ 2 1

end Matching

/-- Along a disciplined run the stack is the list of live bytes: it stands above the stack
pointer, pulls take its head, and what a push and its matching pull pass on is the
accumulator, the flags, or the place after the call. -/
theorem stack_refines_list {n : Nat} (h : m.StackDiscipline n) :
    (∀ k ≤ n, ((m.live k).length : Int) = m.depth k ∧
        (m.after k).registers.sp = m.registers.sp - UInt8.ofNat (m.live k).length ∧
        (cellsAbove (m.after k).registers.sp (m.live k).length).map (m.after k).memory.read =
          m.live k) ∧
      (∀ k < n, (m.after k).PullsTop (m.live k)) ∧
      ∀ p q, m.Matching p q → q < n →
        ((m.after p).operation? = some .pha → (m.after q).operation? = some .pla →
          (m.after (q + 1)).registers.a = (m.after p).registers.a) ∧
        ((m.after p).operation? = some .php → (m.after q).operation? = some .plp →
          (m.after (q + 1)).registers.status =
            { (m.after p).registers.status with
              breakMark := (m.after q).registers.status.breakMark
              unused := (m.after q).registers.status.unused }) ∧
        ((m.after p).operation? = some .jsr → (m.after q).operation? = some .rts →
          (m.after (q + 1)).pc = (m.after p).pc + 3) := by
  refine ⟨fun k hk => ?_, fun k hk => h.pullsTop hk, fun p q hmatch hq => ⟨?_, ?_, ?_⟩⟩
  · obtain ⟨hlength, hholds⟩ := h.holdsStack k hk
    exact ⟨hlength, hholds.sp, hholds.cells⟩
  · exact h.a_of_matching hmatch hq
  · exact h.status_of_matching hmatch hq
  · exact h.pc_of_matching hmatch hq

/-- A call and its return. The stack pointer starts at the bottom of the page, so the frame of
the call wraps. -/
theorem stack_refines_list_call :
    let m := ({ registers := { sp := 0 } } : Machine).load 0 [0x20, 3, 0, 0x60]
    m.StackDiscipline 2 ∧ m.Matching 0 1 ∧ (m.after 2).pc = 3 := by
  intro m
  have hjsr : (m.after 0).instruction? = some ⟨0x20, .jsr, .absolute, 6⟩ :=
    instruction?_of_lookup (by decide +kernel) (by decide)
  have hrts : (m.after 1).instruction? = some ⟨0x60, .rts, .implied, 6⟩ := by
    rw [after_succ_of_instruction? hjsr]
    exact instruction?_of_lookup (by decide +kernel) (by decide)
  have hone : m.depth 1 = 2 := depth_succ (operation?_of_instruction? hjsr)
  have htwo : m.depth 2 = 0 := by
    rw [depth_succ (operation?_of_instruction? hrts), hone]
    rfl
  have hdiscipline : m.StackDiscipline 2 := by
    refine .of_no_stores (fun k hk => ?_) fun k hk => ?_
    · obtain rfl | rfl : k = 0 ∨ k = 1 := by omega
      · exact ⟨_, hjsr, by decide, rfl⟩
      · exact ⟨_, hrts, by decide, rfl⟩
    · obtain rfl | rfl | rfl : k = 0 ∨ k = 1 ∨ k = 2 := by omega
      · decide
      · rw [hone]
        decide
      · rw [htwo]
        decide
  have hcall : m.Matching 0 1 := by
    refine ⟨Nat.one_pos, rfl, fun k hk hk' => ?_⟩
    have hlast : 1 = k := Nat.le_antisymm hk hk'
    exact Int.le_of_eq (congrArg m.depth hlast)
  obtain ⟨-, -, hmatched⟩ := stack_refines_list hdiscipline
  exact ⟨hdiscipline, hcall, (hmatched 0 1 hcall Nat.one_lt_two).2.2
    (operation?_of_instruction? hjsr) (operation?_of_instruction? hrts)⟩

end Machine

end Core6502
