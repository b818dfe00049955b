import Core6502.Proofs.Image.Placement
import Mathlib.Order.Bounds.Defs

/-!
# Loading rows of any length

A row of bytes may be longer than the address space and then overwrites itself. Counted from the
start of the row, the cells are taken modulo 65536, and of the bytes for one cell the one with the
greatest number stays. Loading in parts is loading at once.
-/

namespace Core6502

namespace Memory

variable {a z : UInt16} {n i : Nat}

theorem add_ofNat_eq_iff : a + UInt16.ofNat i = z ↔ (a.toNat + i) % 65536 = z.toNat := by
  rw [← UInt16.toNat_inj, UInt16.toNat_add, UInt16.toNat_ofNat', Nat.add_mod_mod]

theorem lastOffset?_eq_some_iff_isGreatest :
    lastOffset? a z n = some i ↔
      IsGreatest {i | i < n ∧ (a.toNat + i) % 65536 = z.toNat} i := by
  rw [lastOffset?_eq_some_iff]
  constructor
  · rintro ⟨hi, hz, hlast⟩
    refine ⟨⟨hi, add_ofNat_eq_iff.mp hz⟩, ?_⟩
    rintro j ⟨hj, hjz⟩
    by_contra hlt
    exact hlast j (Nat.lt_of_not_le hlt) hj (add_ofNat_eq_iff.mpr hjz)
  · rintro ⟨⟨hi, hz⟩, hgreatest⟩
    refine ⟨hi, add_ofNat_eq_iff.mpr hz, fun j hij hj hjz => ?_⟩
    have hle : j ≤ i := hgreatest ⟨hj, add_ofNat_eq_iff.mp hjz⟩
    exact Nat.not_lt_of_le hle hij

theorem lastOffset?_eq_none (h : ∀ i < n, (a.toNat + i) % 65536 ≠ z.toNat) :
    lastOffset? a z n = none := by
  rw [Option.eq_none_iff_forall_ne_some]
  intro i hi
  obtain ⟨hlt, hz, -⟩ := lastOffset?_eq_some_iff.mp hi
  exact h i hlt (add_ofNat_eq_iff.mp hz)

/-- Loading is a row of stores, the number of a byte cut down to sixteen bits. -/
theorem load_eq_writeAll (m : Memory) (a : UInt16) (bytes : List UInt8) :
    m.load a bytes = m.writeAll (bytes.zipIdx.map fun (v, i) => (a + UInt16.ofNat i, v)) := by
  induction bytes using List.reverseRecOn with
  | nil => rfl
  | append_singleton vs v ih =>
      rw [load_concat, ih, List.zipIdx_append, List.map_append, writeAll, writeAll,
        List.foldl_append, Nat.zero_add]
      rfl

end Memory

namespace Machine

theorem load_append (m : Machine) (a : UInt16) (bytes more : List UInt8) :
    m.load a (bytes ++ more) = (m.load a bytes).load (a + UInt16.ofNat bytes.length) more := by
  rw [load, Memory.load_append]
  rfl

/-- Loading stores the bytes in turn and touches nothing but memory. Of the bytes for a cell the one
with the greatest number stays in it, and a cell for which there is none keeps its own; a row can be
loaded in two parts. -/
theorem load_keeps_last (m : Machine) (a : UInt16) (bytes : List UInt8) :
    (∀ (z : UInt16) (i : Nat),
      IsGreatest {i | i < bytes.length ∧ (a.toNat + i) % 65536 = z.toNat} i →
        bytes[i]? = some ((m.load a bytes).memory.read z)) ∧
    (∀ z : UInt16, (∀ i < bytes.length, (a.toNat + i) % 65536 ≠ z.toNat) →
      (m.load a bytes).memory.read z = m.memory.read z) ∧
    m.load a bytes = { m with
      memory := m.memory.writeAll (bytes.zipIdx.map fun (v, i) => (a + UInt16.ofNat i, v)) } ∧
    ∀ more : List UInt8,
      m.load a (bytes ++ more) = (m.load a bytes).load (a + UInt16.ofNat bytes.length) more := by
  have hread (z : UInt16) : (m.load a bytes).memory.read z =
      ((Memory.lastOffset? a z bytes.length).bind (bytes[·]?)).getD (m.memory.read z) :=
    m.memory.read_load a z bytes
  refine ⟨fun z i h => ?_, fun z h => ?_, ?_, m.load_append a bytes⟩
  · have hi : i < bytes.length := h.1.1
    rw [hread, Memory.lastOffset?_eq_some_iff_isGreatest.mpr h, Option.bind_some,
      List.getElem?_eq_getElem hi, Option.getD_some]
  · rw [hread, Memory.lastOffset?_eq_none h, Option.bind_none, Option.getD_none]
  · rw [load, Memory.load_eq_writeAll]

/-- A row of one byte more than there are cells, and a row of one byte, from the last cell on. -/
theorem load_keeps_last_around :
    let m : Machine := {}
    let around := List.replicate 65536 1 ++ [2]
    IsGreatest {i | i < around.length ∧
        ((0xFFFF : UInt16).toNat + i) % 65536 = (0xFFFF : UInt16).toNat} 65536 ∧
      (m.load 0xFFFF around).memory.read 0xFFFF = 2 ∧
      (∀ i < [(3 : UInt8)].length, ((0xFFFF : UInt16).toNat + i) % 65536 ≠ (0 : UInt16).toNat) ∧
      (m.load 0xFFFF [3]).memory.read 0 = 0 := by
  intro m around
  have hlength : around.length = 65537 := by
    rw [List.length_append, List.length_replicate, List.length_singleton]
  have hgreatest : IsGreatest {i | i < around.length ∧
      ((0xFFFF : UInt16).toNat + i) % 65536 = (0xFFFF : UInt16).toNat} 65536 := by
    refine ⟨⟨by omega, rfl⟩, ?_⟩
    rintro i ⟨hi, -⟩
    omega
  have hfree : ∀ i < [(3 : UInt8)].length,
      ((0xFFFF : UInt16).toNat + i) % 65536 ≠ (0 : UInt16).toNat := by
    decide
  obtain ⟨hlast, -⟩ := load_keeps_last m 0xFFFF around
  obtain ⟨-, hstays, -⟩ := load_keeps_last m 0xFFFF [3]
  have hbyte : around[65536]? = some 2 := by
    rw [List.getElem?_append_right (Nat.le_of_eq List.length_replicate), List.length_replicate]
    rfl
  refine ⟨hgreatest, ?_, hfree, ?_⟩
  · have hread := hlast 0xFFFF 65536 hgreatest
    rw [hbyte] at hread
    exact (Option.some.inj hread).symm
  · rw [hstays 0 hfree]
    exact Memory.read_blank 0

end Machine

end Core6502
