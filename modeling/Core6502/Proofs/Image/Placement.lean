import Core6502.Image
import Mathlib.Data.List.Induction

/-!
# Where bytes come to stand

Loading bytes puts the one of number `i` at the address `i` cells further, past $FFFF at $0000
again, so a long row of bytes comes back to a cell and the last byte for it stays. A row that does
not go round the space has one byte at most for a cell, found by subtraction; the image of a
cartridge and the device registers are such rows.
-/

namespace Core6502

namespace Memory

variable {a z : UInt16} {n i : Nat}

/-- The last of the `n` cells from `a` on that is the cell `z`, as its distance from `a`. -/
def lastOffset? (a z : UInt16) : Nat → Option Nat
  | 0 => none
  | n + 1 => if a + UInt16.ofNat n = z then some n else lastOffset? a z n

theorem lastOffset?_eq_some_iff :
    lastOffset? a z n = some i ↔
      i < n ∧ a + UInt16.ofNat i = z ∧ ∀ j, i < j → j < n → a + UInt16.ofNat j ≠ z := by
  induction n with
  | zero => simp [lastOffset?]
  | succ n ih =>
      rw [lastOffset?]
      split
      · next h =>
          rw [Option.some.injEq]
          constructor
          · rintro rfl
            exact ⟨Nat.lt_succ_self _, h, fun j hij hj => by omega⟩
          · rintro ⟨hi, -, hlast⟩
            by_contra hne
            exact hlast n (by omega) (Nat.lt_succ_self n) h
      · next h =>
          rw [ih]
          constructor
          · rintro ⟨hi, hz, hlast⟩
            refine ⟨by omega, hz, fun j hij hj => ?_⟩
            by_cases hjn : j = n
            · rwa [hjn]
            · exact hlast j hij (by omega)
          · rintro ⟨hi, hz, hlast⟩
            have hne : i ≠ n := fun heq => h (heq ▸ hz)
            exact ⟨by omega, hz, fun j hij hj => hlast j hij (by omega)⟩

theorem lastOffset?_lt (h : lastOffset? a z n = some i) : i < n := (lastOffset?_eq_some_iff.mp h).1

/-- Of a row that does not go round the space no two cells are the same. -/
theorem lastOffset?_of_le (hn : n ≤ size) :
    lastOffset? a z n = if (z - a).toNat < n then some (z - a).toNat else none := by
  induction n with
  | zero => rfl
  | succ n ih =>
      have hiff : a + UInt16.ofNat n = z ↔ (z - a).toNat = n := by
        constructor
        · rintro rfl
          rw [UInt16.add_comm, UInt16.add_sub_cancel, UInt16.toNat_ofNat_of_lt' hn]
        · rintro rfl
          rw [UInt16.ofNat_toNat, UInt16.add_comm, UInt16.sub_add_cancel]
      rw [lastOffset?, ih (by omega)]
      by_cases h : (z - a).toNat = n
      · rw [if_pos (hiff.mpr h), if_pos (by omega), h]
      · rw [if_neg fun heq => h (hiff.mp heq)]
        by_cases hlt : (z - a).toNat < n
        · rw [if_pos hlt, if_pos (by omega)]
        · rw [if_neg hlt, if_neg (by omega)]

theorem load_concat (m : Memory) (a : UInt16) (vs : List UInt8) (v : UInt8) :
    m.load a (vs ++ [v]) = (m.load a vs).write (a + UInt16.ofNat vs.length) v :=
  m.load_append a vs [v]

/-- A cell holds the last of the loaded bytes that are for it. -/
theorem read_load (m : Memory) (a z : UInt16) (vs : List UInt8) :
    (m.load a vs).read z = ((lastOffset? a z vs.length).bind (vs[·]?)).getD (m.read z) := by
  induction vs using List.reverseRecOn with
  | nil => rfl
  | append_singleton vs v ih =>
      rw [load_concat, read_write, List.length_append, List.length_singleton, lastOffset?]
      split
      · rw [Option.bind_some, List.getElem?_concat_length, Option.getD_some]
      · rw [ih]
        cases hi : lastOffset? a z vs.length with
        | none => rfl
        | some i =>
            rw [Option.bind_some, Option.bind_some,
              List.getElem?_append_left (lastOffset?_lt hi)]

theorem read_load_of_le (m : Memory) (a z : UInt16) (vs : List UInt8) (h : vs.length ≤ size) :
    (m.load a vs).read z = (vs[(z - a).toNat]?).getD (m.read z) := by
  rw [read_load, lastOffset?_of_le h]
  by_cases hlt : (z - a).toNat < vs.length
  · rw [if_pos hlt, Option.bind_some]
  · rw [if_neg hlt, List.getElem?_eq_none (by omega)]
    rfl

end Memory

namespace Nrom

variable {prg : List UInt8}

theorem fits_iff {size : Nat} : fits size = true ↔ size = bankSize ∨ size = 2 * bankSize := by
  rw [fits, Bool.or_eq_true, beq_iff_eq, beq_iff_eq]

theorem length_pos (h : fits prg.length) : 0 < prg.length := by
  rcases fits_iff.mp h with hone | htwo
  · exact hone ▸ Nat.succ_pos _
  · exact htwo ▸ Nat.succ_pos _

theorem length_window (h : fits prg.length) : (window prg).length = 2 * bankSize := by
  rw [window]
  split
  · next hone => rw [List.length_append, hone, Nat.two_mul]
  · next hone => exact (fits_iff.mp h).resolve_left hone

/-- The window shows an image again and again. -/
theorem getElem?_window (h : fits prg.length) {k : Nat} (hk : k < 2 * bankSize) :
    (window prg)[k]? = prg[k % prg.length]? := by
  rw [window]
  split
  · next hone =>
      rw [hone]
      by_cases hlt : k < bankSize
      · rw [List.getElem?_append_left (by omega), Nat.mod_eq_of_lt hlt]
      · rw [List.getElem?_append_right (by omega), Nat.mod_eq_sub_mod (by omega), hone,
          Nat.mod_eq_of_lt (by omega)]
  · next hone => rw [(fits_iff.mp h).resolve_left hone, Nat.mod_eq_of_lt hk]

end Nrom

namespace Machine

/-- A mapped image fills the upper half of the space, and the rest stays. -/
theorem read_mapNrom {prg : List UInt8} (h : Nrom.fits prg.length) (m : Machine) (z : UInt16) :
    (m.mapNrom prg).2.memory.read z =
      if Nrom.base ≤ z then (prg[(z.toNat - Nrom.base.toNat) % prg.length]?).getD 0
      else m.memory.read z := by
  have hlength : (Nrom.window prg).length = 2 * Nrom.bankSize := Nrom.length_window h
  have hread := m.memory.read_load_of_le Nrom.base z (Nrom.window prg)
    (by rw [hlength]; decide)
  rw [mapNrom, if_pos h]
  refine hread.trans ?_
  split
  · next hz =>
      have hlt : z.toNat - Nrom.base.toNat < 2 * Nrom.bankSize := by
        have hz := z.toNat_lt
        simp only [Nrom.base, Nrom.bankSize, UInt16.reduceToNat]
        omega
      have hin : (z.toNat - Nrom.base.toNat) % prg.length < prg.length :=
        Nat.mod_lt _ (Nrom.length_pos h)
      rw [UInt16.toNat_sub_of_le z Nrom.base hz, Nrom.getElem?_window h hlt,
        List.getElem?_eq_getElem hin, Option.getD_some, Option.getD_some]
  · next hz =>
      have hout : 2 * Nrom.bankSize ≤ (z - Nrom.base).toNat := by
        rw [UInt16.le_iff_toNat_le] at hz
        simp only [Nrom.base, Nrom.bankSize, UInt16.reduceToNat, UInt16.toNat_sub] at hz ⊢
        omega
      rw [List.getElem?_eq_none (hlength ▸ hout), Option.getD_none]

/-- Power-on clears the device registers and keeps the rest of the memory. -/
theorem read_powerOn (m : Machine) (z : UInt16) :
    m.powerOn.memory.read z = if 0x4000 ≤ z ∧ z ≤ 0x4017 then 0 else m.memory.read z := by
  have hread := m.memory.read_load_of_le deviceBase z (List.replicate deviceCount 0)
    (by rw [List.length_replicate]; decide)
  have hdevice : (z - deviceBase).toNat < deviceCount ↔ 0x4000 ≤ z ∧ z ≤ 0x4017 := by
    have hz := z.toNat_lt
    simp only [deviceBase, deviceCount, UInt16.le_iff_toNat_le, UInt16.reduceToNat,
      UInt16.toNat_sub]
    omega
  refine hread.trans ?_
  rw [List.getElem?_replicate]
  simp only [hdevice]
  split <;> rfl

theorem pc_powerOn (m : Machine) : m.powerOn.pc = m.powerOn.memory.readWord resetVector := rfl

/-- An image of either size starts where the word in its last bytes but two says. -/
theorem pc_powerOn_mapNrom {prg : List UInt8} (h : Nrom.fits prg.length) (m : Machine) :
    (m.mapNrom prg).2.powerOn.pc =
      Word.ofBytes ((prg[prg.length - 4]?).getD 0) ((prg[prg.length - 3]?).getD 0) := by
  have hread : ∀ z : UInt16, Nrom.base ≤ z → (m.mapNrom prg).2.powerOn.memory.read z =
      (prg[(z.toNat - Nrom.base.toNat) % prg.length]?).getD 0 := by
    intro z hz
    have hdevice : ¬ (0x4000 ≤ z ∧ z ≤ 0x4017) := fun hboth =>
      absurd (UInt16.le_trans hz hboth.2) (by decide)
    rw [read_powerOn, if_neg hdevice, read_mapNrom h, if_pos hz]
  rw [pc_powerOn, Memory.readWord, hread _ (by decide), hread _ (by decide)]
  rcases Nrom.fits_iff.mp h with hone | htwo
  · rw [hone]
    rfl
  · rw [htwo]
    rfl

end Machine

end Core6502
