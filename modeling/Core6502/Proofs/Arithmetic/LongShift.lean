import Core6502.Proofs.Arithmetic.ShiftRow
import Core6502.Proofs.Footprint.Read
import Core6502.Proofs.Fusion

/-!
# Programs that shift long numbers

A program shifts a long number where it is, one instruction for each byte and in whatever modes. It
finds its code and its cells as they were at the start, because nothing but the cells changes, and
so it does what the row of its shifts does.
-/

namespace Core6502

namespace Machine

/-- The cells of an instruction at `pc` and of the pointer that it uses. -/
def codeCells (m : Machine) (i : Instruction) (pc : UInt16) : List UInt16 :=
  pc :: (Operand.fetchedCells i.mode pc ++ Operand.pointerCells m.registers m.memory i.mode pc)

/-- From `pc` on stand the instructions of a row, one after another, in whatever modes. None of
`cells` belongs to their code. -/
def CodeAt (m : Machine) (cells : List UInt16) : UInt16 → Row → Prop
  | _, [] => True
  | pc, (operation, a) :: row =>
    ∃ i, decode (m.memory.read pc) = some i ∧ i.operation = operation ∧
      (Operand.resolve m.registers m.memory i.mode pc).address? = some a ∧
      (∀ b ∈ m.codeCells i pc, b ∉ cells) ∧ m.CodeAt cells (pc + UInt16.ofNat i.bytes) row

/-- Besides the program counter and the cycles, `t` differs from `m` in `cells` and in the flags
that shifts set, if at all. -/
structure Follows (m : Machine) (cells : List UInt16) (t : Machine) : Prop where
  registers : t.registers.clear .shifted = m.registers.clear .shifted
  memory : ∀ a ∉ cells, t.memory.read a = m.memory.read a

variable {m n : Machine} {cells : List UInt16} {row : Row} {operation : Operation} {a : UInt16}

theorem apart_of_all {code : List UInt16} (h : code.all fun b => !cells.contains b) :
    ∀ b ∈ code, b ∉ cells := by
  simpa using h

theorem Follows.refl (m : Machine) (cells : List UInt16) : m.Follows cells m :=
  ⟨rfl, fun _ _ => rfl⟩

/-- The code is found as it was, and so is what it needs to find its cells. -/
theorem step_of_codeAt (hcode : m.CodeAt cells n.pc ((operation, a) :: row))
    (hfollows : m.Follows cells n) (hshift : operation ∈ Operation.shifts) (ha : a ∈ cells) :
    ∃ cost t, n.step = (.ok cost, t) ∧
      (t.registers, t.memory) = Row.alterCell (n.registers, n.memory) (operation, a) ∧
      m.Follows cells t ∧ m.CodeAt cells t.pc row := by
  obtain ⟨i, hi, rfl, haddress, hapart, hrest⟩ := hcode
  have huses := Operation.usesOperand_of_mem_shifts hshift
  have hread (b : UInt16) (hb : b ∈ m.codeCells i n.pc) : m.memory.read b = n.memory.read b :=
    (hfollows.memory b (hapart b hb)).symm
  have hinstruction : n.instruction? = some i := by
    rw [hread n.pc (List.mem_cons_self ..)] at hi
    exact instruction?_eq_some_iff.mpr ⟨hi, Operation.ne_brk_of_usesOperand huses⟩
  have hoperand : n.operand i.mode = Operand.resolve m.registers m.memory i.mode n.pc := by
    have hx : m.registers.x = n.registers.x := (congrArg Registers.x hfollows.registers).symm
    have hy : m.registers.y = n.registers.y := (congrArg Registers.y hfollows.registers).symm
    rw [operand, ← Operand.resolve_of_index_eq hx hy]
    symm
    exact Operand.resolve_congr (fun b hb => hread b (by simp [codeCells, hb]))
      fun b hb => hread b (by simp [codeCells, hb])
  have heffective : n.effectiveAddress? i = some a := by
    rw [effectiveAddress?, hoperand, haddress]
  obtain ⟨hregisters, hbyte, hothers, hpc⟩ :=
    step_of_effectiveAddress? hinstruction huses heffective
  refine ⟨_, n.step.2, Prod.ext (step_fst_of_instruction? hinstruction rfl) rfl, ?_, ⟨?_, ?_⟩, ?_⟩
  · refine Prod.ext hregisters (Memory.ext_read fun b => ?_)
    show n.step.2.memory.read b = (n.memory.write a _).read b
    rw [Memory.read_write]
    split
    · next hab =>
        rw [← hab]
        exact hbyte
    · next hab => exact hothers b (Ne.symm hab)
  · rw [hregisters, Operation.clear_transform_of_mem_shifts hshift, hfollows.registers]
  · intro b hb
    rw [hothers b fun hba => hb (hba ▸ ha), hfollows.memory b hb]
  · rwa [hpc]

theorem executes_of_codeAt (hcode : m.CodeAt cells n.pc row) (hfollows : m.Follows cells n)
    (hrow : row.Works cells) :
    ∃ t, n.Executes row.length t ∧ m.Follows cells t ∧
      (t.registers, t.memory) = row.alter (n.registers, n.memory) := by
  induction row generalizing n with
  | nil => exact ⟨n, .refl n, hfollows, rfl⟩
  | cons p row ih =>
      obtain ⟨hp, hrest⟩ := List.forall_mem_cons.mp hrow
      obtain ⟨cost, t, hstep, halter, htfollows, htcode⟩ :=
        step_of_codeAt hcode hfollows hp.1 hp.2
      obtain ⟨u, hrun, hufollows, hualter⟩ := ih htcode htfollows hrest
      refine ⟨u, .cons hstep hrun, hufollows, ?_⟩
      rw [hualter, halter]
      rfl

theorem executes_upward {first : Operation} (hfirst : first = .rol ∨ first = .asl)
    (hcells : cells ≠ []) (hdistinct : cells.Nodup)
    (hcode : m.CodeAt cells m.pc (.upward first cells)) :
    ∃ t, m.Executes cells.length t ∧ m.Follows cells t ∧
      Row.Doubles cells (first.carryIn m.registers.status.carry) m.memory
        (t.registers, t.memory) := by
  obtain ⟨t, hrun, hfollows, halter⟩ := executes_of_codeAt hcode (.refl m cells)
    (Row.works_upward hfirst cells)
  rw [Row.length_upward] at hrun
  refine ⟨t, hrun, hfollows, ?_⟩
  rw [halter]
  exact Row.doubles_upward hfirst (absurd · hcells) hdistinct (m.registers, m.memory)

theorem executes_downward {first : Operation} (hfirst : first = .ror ∨ first = .lsr)
    (hcells : cells ≠ []) (hdistinct : cells.Nodup)
    (hcode : m.CodeAt cells m.pc (.downward first cells)) :
    ∃ t, m.Executes cells.length t ∧ m.Follows cells t ∧
      Row.Halves cells (first.carryIn m.registers.status.carry) m.memory
        (t.registers, t.memory) := by
  obtain ⟨t, hrun, hfollows, halter⟩ := executes_of_codeAt hcode (.refl m cells)
    (Row.works_downward hfirst cells)
  rw [Row.length_downward] at hrun
  refine ⟨t, hrun, hfollows, ?_⟩
  rw [halter]
  exact Row.halves_downward hfirst (absurd · hcells) hdistinct (m.registers, m.memory)

/-- Two rows after each other that bring back the number and the carry bring back the memory. -/
theorem executes_back {row row' : Row} (hrow : row.Works cells) (hrow' : row'.Works cells)
    (hcode : m.CodeAt cells m.pc (row ++ row'))
    (hback : (row'.alter (row.alter (m.registers, m.memory))).2.number cells =
        m.memory.number cells ∧
      (row'.alter (row.alter (m.registers, m.memory))).1.status.carry =
        m.registers.status.carry) :
    ∃ t, m.Executes (row.length + row'.length) t ∧ m.Follows cells t ∧ t.memory = m.memory ∧
      t.registers.status.carry = m.registers.status.carry := by
  obtain ⟨t, hrun, hfollows, halter⟩ := executes_of_codeAt hcode (.refl m cells)
    (List.forall_mem_append.mpr ⟨hrow, hrow'⟩)
  rw [List.length_append] at hrun
  rw [Row.alter_append] at halter
  rw [← halter] at hback
  exact ⟨t, hrun, hfollows, Memory.eq_of_number_eq hback.1 hfollows.memory, hback.2⟩

/-- Rotating the bytes of a number in turn, each with the carry of the one before, shifts the whole
number by one bit and puts C in. A plain shift of the first byte puts in nothing. Rotating to and
fro changes nothing. -/
theorem long_shift (m : Machine) (cells : List UInt16) (hcells : cells ≠ [])
    (hdistinct : cells.Nodup) :
    let n := cells.length
    let x := m.memory.number cells
    let c := m.registers.status.carry
    (∀ first ∈ [Operation.rol, .asl], m.CodeAt cells m.pc (.upward first cells) →
      ∃ t, m.Executes n t ∧ m.Follows cells t ∧
        t.memory.number cells = (2 * x + (first.carryIn c).toNat) % 256 ^ n ∧
        t.registers.status.carry = x.testBit (8 * n - 1)) ∧
    (∀ first ∈ [Operation.ror, .lsr], m.CodeAt cells m.pc (.downward first cells) →
      ∃ t, m.Executes n t ∧ m.Follows cells t ∧
        t.memory.number cells = x / 2 + (first.carryIn c).toNat * 2 ^ (8 * n - 1) ∧
        t.registers.status.carry = decide (x % 2 = 1)) ∧
    (m.CodeAt cells m.pc (.upward .rol cells ++ .downward .ror cells) →
      ∃ t, m.Executes (n + n) t ∧ m.Follows cells t ∧ t.memory = m.memory ∧
        t.registers.status.carry = c) ∧
    (m.CodeAt cells m.pc (.downward .ror cells ++ .upward .rol cells) →
      ∃ t, m.Executes (n + n) t ∧ m.Follows cells t ∧ t.memory = m.memory ∧
        t.registers.status.carry = c) := by
  intro n x c
  have hnil {p : Prop} : cells = [] → p := (absurd · hcells)
  refine ⟨fun first hfirst hcode => ?_, fun first hfirst hcode => ?_, fun hcode => ?_,
    fun hcode => ?_⟩
  · obtain ⟨t, hrun, hfollows, hdoubles⟩ :=
      executes_upward (List.mem_pair.mp hfirst) hcells hdistinct hcode
    exact ⟨t, hrun, hfollows, hdoubles.eq_mod, hdoubles.carry_eq hcells⟩
  · obtain ⟨t, hrun, hfollows, hhalves⟩ :=
      executes_downward (List.mem_pair.mp hfirst) hcells hdistinct hcode
    exact ⟨t, hrun, hfollows, hhalves.eq_div hcells, hhalves.carry_eq hcells⟩
  · have hdoubles := Row.doubles_upward (.inl rfl) hnil hdistinct (m.registers, m.memory)
    have hhalves := Row.halves_downward (.inl rfl) hnil hdistinct
      ((Row.upward .rol cells).alter (m.registers, m.memory))
    have hback := executes_back (Row.works_upward (.inl rfl) cells)
      (Row.works_downward (.inl rfl) cells) hcode (hdoubles.halves hhalves)
    rwa [Row.length_upward, Row.length_downward] at hback
  · have hhalves := Row.halves_downward (.inl rfl) hnil hdistinct (m.registers, m.memory)
    have hdoubles := Row.doubles_upward (.inl rfl) hnil hdistinct
      ((Row.downward .ror cells).alter (m.registers, m.memory))
    have hback := executes_back (Row.works_downward (.inl rfl) cells)
      (Row.works_upward (.inl rfl) cells) hcode (hhalves.doubles hdoubles)
    rwa [Row.length_upward, Row.length_downward] at hback

/-- Two bytes, the lower one at the higher address, with a carry into them. -/
theorem long_shift_two_bytes :
    let cells : List UInt16 := [0x20, 0x10]
    let m (code : List UInt8) : Machine :=
      ((({ registers := { x := 1, status := { carry := true } } } : Machine).load 0 code).load
        0x10 [0x80]).load 0x20 [0x81]
    let s := m [0x36, 0x1F, 0x2E, 0x10, 0x00, 0x66, 0x10, 0x76, 0x1F]
    let t := m [0x46, 0x10, 0x76, 0x1F]
    cells ≠ [] ∧ cells.Nodup ∧
      (∃ u, s.Executes 2 u ∧ u.memory.number cells = 0x0103 ∧ u.registers.status.carry = true) ∧
      (∃ u, s.Executes 4 u ∧ u.memory = s.memory ∧ u.registers.status.carry = true) ∧
      ∃ u, t.Executes 2 u ∧ u.memory.number cells = 0x4040 ∧ u.registers.status.carry = true := by
  intro cells m s t
  have hup : s.CodeAt cells s.pc (.upward .rol cells) :=
    ⟨⟨0x36, .rol, .zeroPageX, 6⟩, (decode_eq_lookup _).trans (by decide +kernel), rfl,
      by decide +kernel, apart_of_all (by decide +kernel),
      ⟨0x2E, .rol, .absolute, 6⟩, (decode_eq_lookup _).trans (by decide +kernel), rfl,
      by decide +kernel, apart_of_all (by decide +kernel), trivial⟩
  have hround : s.CodeAt cells s.pc (.upward .rol cells ++ .downward .ror cells) :=
    ⟨⟨0x36, .rol, .zeroPageX, 6⟩, (decode_eq_lookup _).trans (by decide +kernel), rfl,
      by decide +kernel, apart_of_all (by decide +kernel),
      ⟨0x2E, .rol, .absolute, 6⟩, (decode_eq_lookup _).trans (by decide +kernel), rfl,
      by decide +kernel, apart_of_all (by decide +kernel),
      ⟨0x66, .ror, .zeroPage, 5⟩, (decode_eq_lookup _).trans (by decide +kernel), rfl,
      by decide +kernel, apart_of_all (by decide +kernel),
      ⟨0x76, .ror, .zeroPageX, 6⟩, (decode_eq_lookup _).trans (by decide +kernel), rfl,
      by decide +kernel, apart_of_all (by decide +kernel), trivial⟩
  have hdown : t.CodeAt cells t.pc (.downward .lsr cells) :=
    ⟨⟨0x46, .lsr, .zeroPage, 5⟩, (decode_eq_lookup _).trans (by decide +kernel), rfl,
      by decide +kernel, apart_of_all (by decide +kernel),
      ⟨0x76, .ror, .zeroPageX, 6⟩, (decode_eq_lookup _).trans (by decide +kernel), rfl,
      by decide +kernel, apart_of_all (by decide +kernel), trivial⟩
  have hcells : cells ≠ [] := List.cons_ne_nil _ _
  have hdistinct : cells.Nodup := by decide
  have hs : s.memory.number cells = 0x8081 := by decide +kernel
  have ht : t.memory.number cells = 0x8081 := by decide +kernel
  obtain ⟨hleft, -, hback, -⟩ := long_shift s cells hcells hdistinct
  obtain ⟨-, hright, -⟩ := long_shift t cells hcells hdistinct
  obtain ⟨u, hu, -, hunumber, hucarry⟩ := hleft .rol (by decide) hup
  obtain ⟨v, hv, -, hvmemory, hvcarry⟩ := hback hround
  obtain ⟨w, hw, -, hwnumber, hwcarry⟩ := hright .lsr (by decide) hdown
  rw [hs] at hunumber hucarry
  rw [ht] at hwnumber hwcarry
  exact ⟨hcells, hdistinct, ⟨u, hu, hunumber.trans (by decide +kernel), hucarry.trans (by decide)⟩,
    ⟨v, hv, hvmemory, hvcarry⟩,
    ⟨w, hw, hwnumber.trans (by decide +kernel), hwcarry.trans (by decide)⟩⟩

end Machine

end Core6502
