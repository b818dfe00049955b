import Core6502.Proofs.Arithmetic.Digits
import Core6502.Proofs.Arithmetic.LittleEndian
import Core6502.Proofs.Flags.Consulted
import Core6502.Proofs.OperandEffect
import Mathlib.Algebra.Order.Ring.Nat
import Mathlib.Data.List.Induction
import Mathlib.Data.List.Nodup
import Mathlib.Tactic.LinearCombination

/-!
# Shifts along the bytes of a number

A row of shifts takes the bytes of a number in turn, each with the carry that the one before has
left. From the lowest byte on it doubles the number, from the highest one on it halves it; in both
directions the number and C together lose nothing, so one undoes the other. What is said here is
about the cells and the registers only, without the instructions that do it.
-/

namespace Core6502

/-! ## One byte -/

namespace Status

/-- The flags that a shift sets: C, Z and N. -/
def shifted : Status := { carry := true, zero := true, negative := true }

end Status

namespace Registers

theorem clear_shifted_shiftLeft (c : Bool) (v : UInt8) (r : Registers) :
    (r.shiftLeft c v).2.clear .shifted = r.clear .shifted := by
  simp [shiftLeft, describe, Status.describe, clear, Status.diff, Status.zipWith, Status.shifted]

theorem clear_shifted_shiftRight (c : Bool) (v : UInt8) (r : Registers) :
    (r.shiftRight c v).2.clear .shifted = r.clear .shifted := by
  simp [shiftRight, describe, Status.describe, clear, Status.diff, Status.zipWith, Status.shifted]

end Registers

namespace Operation

variable {operation : Operation}

/-- The bit that a shift takes in, given C: a rotation takes C, the others none. -/
def carryIn (operation : Operation) (c : Bool) : Bool :=
  match operation with
  | rol | ror => c
  | _ => false

theorem usesOperand_of_mem_shifts (h : operation ∈ shifts) : operation.effect.usesOperand := by
  rcases mem_shifts_iff.mp h with rfl | rfl | rfl | rfl <;> rfl

theorem clear_transform_of_mem_shifts (h : operation ∈ shifts) (v : UInt8) (r : Registers) :
    (operation.effect.transform v r).2.clear .shifted = r.clear .shifted := by
  rcases mem_shifts_iff.mp h with rfl | rfl | rfl | rfl
  · exact Registers.clear_shifted_shiftLeft _ v r
  · exact Registers.clear_shifted_shiftRight _ v r
  · exact Registers.clear_shifted_shiftLeft _ v r
  · exact Registers.clear_shifted_shiftRight _ v r

theorem toNat_transform_left (h : operation = rol ∨ operation = asl) (v : UInt8) (r : Registers) :
    (operation.effect.transform v r).1.toNat +
        256 * (operation.effect.transform v r).2.status.carry.toNat =
      2 * v.toNat + (operation.carryIn r.status.carry).toNat := by
  rcases h with rfl | rfl <;> exact Registers.toNat_shiftLeft _ v r

theorem toNat_transform_right (h : operation = ror ∨ operation = lsr) (v : UInt8)
    (r : Registers) :
    2 * (operation.effect.transform v r).1.toNat +
        (operation.effect.transform v r).2.status.carry.toNat =
      v.toNat + 256 * (operation.carryIn r.status.carry).toNat := by
  rcases h with rfl | rfl <;> exact Registers.toNat_shiftRight _ v r

end Operation

/-! ## Rows of cells -/

namespace Memory

variable {m n : Memory} {a : UInt16} {cells : List UInt16}

/-- The number in a row of cells, least significant byte first. -/
def number (m : Memory) (cells : List UInt16) : Nat := LittleEndian.decode (cells.map m.read)

theorem number_cons (m : Memory) (a : UInt16) (cells : List UInt16) :
    m.number (a :: cells) = (m.read a).toNat + 256 * m.number cells := rfl

theorem number_concat (m : Memory) (cells : List UInt16) (a : UInt16) :
    m.number (cells ++ [a]) = m.number cells + 256 ^ cells.length * (m.read a).toNat := by
  rw [number, List.map_append, LittleEndian.decode_append, List.length_map]
  rfl

theorem number_lt (m : Memory) (cells : List UInt16) : m.number cells < 256 ^ cells.length := by
  have h := LittleEndian.decode_lt (cells.map m.read)
  rwa [List.length_map] at h

theorem number_congr (h : ∀ a ∈ cells, m.read a = n.read a) : m.number cells = n.number cells :=
  congrArg LittleEndian.decode (List.map_congr_left h)

theorem number_write_of_notMem (m : Memory) (v : UInt8) (h : a ∉ cells) :
    (m.write a v).number cells = m.number cells :=
  number_congr fun _ hb => read_write_of_ne m v fun hab => h (hab ▸ hb)

/-- The number in some cells and the bytes in all others make up a memory. -/
theorem eq_of_number_eq (h : m.number cells = n.number cells)
    (hothers : ∀ a ∉ cells, m.read a = n.read a) : m = n := by
  have hbytes : cells.map m.read = cells.map n.read :=
    LittleEndian.eq_of_decode_eq (by rw [List.length_map, List.length_map]) h
  apply ext_read
  intro a
  by_cases ha : a ∈ cells
  · exact List.map_inj_left.mp hbytes a ha
  · exact hothers a ha

end Memory

/-- Operations with the cells that they work on, one after another. -/
abbrev Row := List (Operation × UInt16)

namespace Row

variable {row : Row} {cells : List UInt16} {a : UInt16} {first : Operation}

/-- What an operation makes of its cell and of the registers. -/
def alterCell (s : Registers × Memory) (p : Operation × UInt16) : Registers × Memory :=
  let (v, r) := p.1.effect.transform (s.2.read p.2) s.1
  (r, s.2.write p.2 v)

def alter (row : Row) (s : Registers × Memory) : Registers × Memory := row.foldl alterCell s

/-- One operation on the first cell, and another one on each of the rest. -/
def along (first rest : Operation) : List UInt16 → Row
  | [] => []
  | a :: cells => (first, a) :: cells.map (rest, ·)

/-- A doubling along the cells of a number, from the lowest byte on. -/
def upward (first : Operation) (cells : List UInt16) : Row := along first .rol cells

/-- A halving along the cells of a number, from the highest byte on. -/
def downward (first : Operation) (cells : List UInt16) : Row := along first .ror cells.reverse

theorem length_along (first rest : Operation) (cells : List UInt16) :
    (along first rest cells).length = cells.length := by
  cases cells <;> simp [along]

theorem length_upward (first : Operation) (cells : List UInt16) :
    (upward first cells).length = cells.length := length_along ..

theorem length_downward (first : Operation) (cells : List UInt16) :
    (downward first cells).length = cells.length := by
  rw [downward, length_along, List.length_reverse]

theorem along_self (operation : Operation) (cells : List UInt16) :
    along operation operation cells = cells.map (operation, ·) := by
  cases cells <;> rfl

theorem mem_along {first rest : Operation} {p : Operation × UInt16}
    (h : p ∈ along first rest cells) : (p.1 = first ∨ p.1 = rest) ∧ p.2 ∈ cells := by
  cases cells with
  | nil => cases h
  | cons a cells =>
      obtain rfl | hp := List.mem_cons.mp h
      · exact ⟨.inl rfl, List.mem_cons_self ..⟩
      · obtain ⟨b, hb, rfl⟩ := List.mem_map.mp hp
        exact ⟨.inr rfl, List.mem_cons_of_mem a hb⟩

/-- A row consists of shifts of some of `cells`. -/
def Works (cells : List UInt16) (row : Row) : Prop :=
  ∀ p ∈ row, p.1 ∈ Operation.shifts ∧ p.2 ∈ cells

theorem works_along {rest : Operation} {part : List UInt16} (hfirst : first ∈ Operation.shifts)
    (hrest : rest ∈ Operation.shifts) (hcells : ∀ b ∈ part, b ∈ cells) :
    (along first rest part).Works cells := by
  intro p hp
  obtain ⟨hoperation, hcell⟩ := mem_along hp
  refine ⟨?_, hcells _ hcell⟩
  rcases hoperation with h | h <;> rwa [h]

theorem works_upward (hfirst : first = .rol ∨ first = .asl) (cells : List UInt16) :
    (upward first cells).Works cells :=
  works_along (by rcases hfirst with rfl | rfl <;> decide) (by decide) fun _ hb => hb

theorem works_downward (hfirst : first = .ror ∨ first = .lsr) (cells : List UInt16) :
    (downward first cells).Works cells :=
  works_along (by rcases hfirst with rfl | rfl <;> decide) (by decide) fun _ hb =>
    List.mem_reverse.mp hb

theorem alter_append (row row' : Row) (s : Registers × Memory) :
    (row ++ row').alter s = row'.alter (row.alter s) := List.foldl_append

theorem read_alter (s : Registers × Memory) (h : a ∉ row.map Prod.snd) :
    (row.alter s).2.read a = s.2.read a := by
  induction row generalizing s with
  | nil => rfl
  | cons p row ih =>
      rw [List.map_cons, List.mem_cons, not_or] at h
      exact (ih (alterCell s p) h.2).trans (Memory.read_write_of_ne s.2 _ (Ne.symm h.1))

/-- A cell keeps what an operation leaves in it while others are altered. -/
theorem read_alter_alterCell (operation others : Operation) (s : Registers × Memory)
    (h : a ∉ cells) :
    (alter (cells.map (others, ·)) (alterCell s (operation, a))).2.read a =
      (operation.effect.transform (s.2.read a) s.1).1 := by
  rw [read_alter _ (by simpa using h)]
  exact Memory.read_write_self _ _ _

/-! ## The number in the cells -/

/-- Some cells and the carry above them hold twice the number that was in the cells, and the bit
`c` in the place that became free. -/
def Doubles (cells : List UInt16) (c : Bool) (m : Memory) (t : Registers × Memory) : Prop :=
  t.2.number cells + 256 ^ cells.length * t.1.status.carry.toNat = 2 * m.number cells + c.toNat

/-- Some cells and the carry below them hold the number that was in the cells, and the bit `c`
above it. -/
def Halves (cells : List UInt16) (c : Bool) (m : Memory) (t : Registers × Memory) : Prop :=
  2 * t.2.number cells + t.1.status.carry.toNat = m.number cells + 256 ^ cells.length * c.toNat

variable {c : Bool} {m : Memory} {r : Registers} {t u : Registers × Memory}

theorem Doubles.cons (hfirst : first = .rol ∨ first = .asl)
    (hread : t.2.read a = (first.effect.transform (m.read a) r).1)
    (h : Doubles cells (first.effect.transform (m.read a) r).2.status.carry m t) :
    Doubles (a :: cells) (first.carryIn r.status.carry) m t := by
  have hbyte := Operation.toNat_transform_left hfirst (m.read a) r
  rw [← hread] at hbyte
  rw [Doubles] at h
  rw [Doubles, Memory.number_cons, Memory.number_cons, List.length_cons, pow_succ]
  linear_combination hbyte + 256 * h

theorem Halves.concat (hfirst : first = .ror ∨ first = .lsr)
    (hread : t.2.read a = (first.effect.transform (m.read a) r).1)
    (h : Halves cells (first.effect.transform (m.read a) r).2.status.carry m t) :
    Halves (cells ++ [a]) (first.carryIn r.status.carry) m t := by
  have hbyte := Operation.toNat_transform_right hfirst (m.read a) r
  rw [← hread] at hbyte
  rw [Halves] at h
  rw [Halves, Memory.number_concat, Memory.number_concat, List.length_append,
    List.length_singleton, pow_succ]
  linear_combination h + 256 ^ cells.length * hbyte

theorem doubles_upward (hfirst : first = .rol ∨ first = .asl) (hnil : cells = [] → first = .rol)
    (hdistinct : cells.Nodup) (s : Registers × Memory) :
    Doubles cells (first.carryIn s.1.status.carry) s.2 ((upward first cells).alter s) := by
  induction cells generalizing first s with
  | nil =>
      simp [hnil, Operation.carryIn, Doubles, Memory.number, LittleEndian.decode, upward, along,
        alter]
  | cons a cells ih =>
      obtain ⟨ha, hcells⟩ := List.nodup_cons.mp hdistinct
      have hrest := ih (.inl rfl) (fun _ => rfl) hcells (alterCell s (first, a))
      rw [upward, along_self] at hrest
      refine Doubles.cons hfirst (read_alter_alterCell first .rol s ha) ?_
      rw [Doubles, ← Memory.number_write_of_notMem s.2 _ ha]
      exact hrest

theorem halves_downward (hfirst : first = .ror ∨ first = .lsr) (hnil : cells = [] → first = .ror)
    (hdistinct : cells.Nodup) (s : Registers × Memory) :
    Halves cells (first.carryIn s.1.status.carry) s.2 ((downward first cells).alter s) := by
  induction cells using List.reverseRecOn generalizing first s with
  | nil =>
      simp [hnil, Operation.carryIn, Halves, Memory.number, LittleEndian.decode, downward, along,
        alter]
  | append_singleton cells a ih =>
      rw [← List.concat_eq_append, List.nodup_concat] at hdistinct
      obtain ⟨ha, hcells⟩ := hdistinct
      have hrest := ih (.inl rfl) (fun _ => rfl) hcells (alterCell s (first, a))
      have hread : (alter (cells.reverse.map (.ror, ·)) (alterCell s (first, a))).2.read a =
          (first.effect.transform (s.2.read a) s.1).1 :=
        read_alter_alterCell first .ror s (by simpa using ha)
      rw [downward, along_self] at hrest
      rw [downward, List.reverse_concat]
      refine Halves.concat hfirst hread ?_
      rw [Halves, ← Memory.number_write_of_notMem s.2 _ ha]
      exact hrest

theorem Doubles.eq_mod (h : Doubles cells c m t) :
    t.2.number cells = (2 * m.number cells + c.toNat) % 256 ^ cells.length := by
  rw [← h, Nat.add_mul_mod_self_left, Nat.mod_eq_of_lt (Memory.number_lt t.2 cells)]

/-- The weight of the highest bit is half of the first number that does not fit. -/
theorem two_mul_two_pow_pred (hcells : cells ≠ []) :
    2 * 2 ^ (8 * cells.length - 1) = 256 ^ cells.length := by
  obtain ⟨n, hn⟩ := Nat.exists_eq_succ_of_ne_zero (List.length_eq_zero_iff.not.mpr hcells)
  rw [hn, Digits.two_pow_pred, pow_succ]
  omega

theorem Doubles.carry_eq (h : Doubles cells c m t) (hcells : cells ≠ []) :
    t.1.status.carry = (m.number cells).testBit (8 * cells.length - 1) := by
  have hc := Bool.toNat_le c
  have hbefore := Memory.number_lt m cells
  have hafter := Memory.number_lt t.2 cells
  rw [Doubles, ← two_mul_two_pow_pred hcells] at h
  rw [← two_mul_two_pow_pred hcells] at hbefore hafter
  rw [Nat.testBit_eq_decide_div_mod_eq]
  cases hcarry : t.1.status.carry with
  | false =>
      rw [hcarry, Bool.toNat_false] at h
      rw [Nat.div_eq_of_lt (by omega)]
      rfl
  | true =>
      rw [hcarry, Bool.toNat_true] at h
      rw [Nat.div_eq_of_lt_le (k := 1) (by omega) (by omega)]
      rfl

theorem Halves.eq_div (h : Halves cells c m t) (hcells : cells ≠ []) :
    t.2.number cells = m.number cells / 2 + c.toNat * 2 ^ (8 * cells.length - 1) := by
  have hcarry := Bool.toNat_le t.1.status.carry
  rw [Halves, ← two_mul_two_pow_pred hcells, mul_assoc, mul_comm (2 ^ _)] at h
  omega

theorem Halves.carry_eq (h : Halves cells c m t) (hcells : cells ≠ []) :
    t.1.status.carry = decide (m.number cells % 2 = 1) := by
  rw [Halves, ← two_mul_two_pow_pred hcells, mul_assoc] at h
  cases hcarry : t.1.status.carry with
  | false =>
      rw [hcarry, Bool.toNat_false] at h
      exact (decide_eq_false (by omega)).symm
  | true =>
      rw [hcarry, Bool.toNat_true] at h
      exact (decide_eq_true (by omega)).symm

theorem eq_of_toNat_eq {c d : Bool} (h : c.toNat = d.toNat) : c = d := by
  rw [← Bool.toNat_beq_one c, h, Bool.toNat_beq_one]

/-- Halving after doubling brings back the number and the carry. -/
theorem Doubles.halves (hd : Doubles cells c m t) (hh : Halves cells t.1.status.carry t.2 u) :
    u.2.number cells = m.number cells ∧ u.1.status.carry = c := by
  have hc := Bool.toNat_le c
  have hcarry := Bool.toNat_le u.1.status.carry
  rw [Halves, hd] at hh
  exact ⟨by omega, eq_of_toNat_eq (by omega)⟩

/-- Doubling after halving brings back the number and the carry. -/
theorem Halves.doubles (hh : Halves cells c m t) (hd : Doubles cells t.1.status.carry t.2 u) :
    u.2.number cells = m.number cells ∧ u.1.status.carry = c := by
  rw [Doubles, hh] at hd
  have hcarry : u.1.status.carry.toNat = c.toNat := by
    have hpos : 0 < 256 ^ cells.length := Nat.pow_pos (by decide)
    have hquotient := congrArg (· / 256 ^ cells.length) hd
    simpa only [Nat.add_mul_div_left _ _ hpos, Nat.div_eq_of_lt (Memory.number_lt _ cells),
      Nat.zero_add] using hquotient
  rw [hcarry] at hd
  exact ⟨Nat.add_right_cancel hd, eq_of_toNat_eq hcarry⟩

end Row

end Core6502
