import Core6502.Proofs.Image.Loading

/-!
# Mapping cartridges

An image is mapped as it would be by copying each bank over its range of cells, where a copy fails
if its range is not in memory or is not as long as what is copied. For the two sizes that are
accepted the ranges fit and cover the window exactly; any other image is refused before anything
happens.
-/

namespace Core6502

namespace Memory

variable {start stop : Nat} {bytes : List UInt8}

theorem getElem?_toList (m : Memory) (z : UInt16) :
    m.bytes.data.toList[z.toNat]? = some (m.read z) := by
  rw [Array.getElem?_toList]
  exact Array.getElem?_eq_getElem (m.lt_size_bytes z)

/-- Copies bytes over the cells from `start` to before `stop`. Fails where these are not cells, or
not as many as there are bytes. -/
def copy? (m : Memory) (start stop : Nat) (bytes : List UInt8) : Option Memory :=
  if h : start ≤ stop ∧ stop ≤ size ∧ bytes.length = stop - start then
    some {
      bytes := ⟨(m.bytes.data.toList.take start ++ bytes ++ m.bytes.data.toList.drop stop).toArray⟩
      size_bytes := by
        have hsize : m.bytes.data.toList.length = size := m.size_bytes
        have hall : (m.bytes.data.toList.take start ++ bytes ++
            m.bytes.data.toList.drop stop).length = size := by
          simp only [List.length_append, List.length_take, List.length_drop]
          omega
        exact hall }
  else none

theorem getElem?_overwrite {α : Type} {cells bytes : List α} (hstop : stop ≤ cells.length)
    (hlength : bytes.length = stop - start) (hrange : start ≤ stop) (i : Nat) :
    (cells.take start ++ bytes ++ cells.drop stop)[i]? =
      if start ≤ i ∧ i < stop then bytes[i - start]? else cells[i]? := by
  have htake : (cells.take start).length = start := List.length_take_of_le (by omega)
  rw [List.append_assoc]
  by_cases hbefore : i < start
  · rw [if_neg (by omega), List.getElem?_append_left (by omega), List.getElem?_take_of_lt hbefore]
  · rw [List.getElem?_append_right (by omega), htake]
    by_cases hin : i < stop
    · rw [if_pos (by omega), List.getElem?_append_left (by omega)]
    · rw [if_neg (by omega), List.getElem?_append_right (by omega), List.getElem?_drop, hlength]
      congr 1
      omega

theorem copy?_eq_load (a : UInt16) (hstop : a.toNat + bytes.length ≤ size) (m : Memory) :
    m.copy? a.toNat (a.toNat + bytes.length) bytes = some (m.load a bytes) := by
  have hlength : bytes.length = a.toNat + bytes.length - a.toNat := by omega
  have hrange : a.toNat ≤ a.toNat + bytes.length := by omega
  rw [copy?, dif_pos ⟨hrange, hstop, hlength⟩, Option.some.injEq]
  refine ext_read fun z => Option.some.inj ?_
  have hsize : m.bytes.data.toList.length = size := m.size_bytes
  have hsmall : bytes.length ≤ size := by omega
  have ha : a.toNat < 65536 := a.toNat_lt
  have hz : z.toNat < 65536 := z.toNat_lt
  rw [← getElem?_toList, read_load_of_le _ _ _ _ hsmall]
  refine (getElem?_overwrite (hsize ▸ hstop) hlength hrange z.toNat).trans ?_
  simp only [size] at hstop
  split
  · next hin =>
      have hoffset : (z - a).toNat = z.toNat - a.toNat := by
        rw [UInt16.toNat_sub]
        omega
      have hlt : z.toNat - a.toNat < bytes.length := by omega
      rw [hoffset, List.getElem?_eq_getElem hlt, Option.getD_some]
  · next hout =>
      have hoffset : bytes.length ≤ (z - a).toNat := by
        rw [UInt16.toNat_sub]
        omega
      rw [List.getElem?_eq_none hoffset, Option.getD_none, getElem?_toList]

end Memory

/-- Where the second bank starts, or a single bank starts again. -/
def Nrom.mirror : UInt16 := 0xC000

namespace Machine

variable {prg : List UInt8}

/-- Maps an image by copying its banks. Fails where a copy fails. -/
def copyBanks? (m : Machine) (prg : List UInt8) : Option (Except ImageError Unit × Machine) :=
  let base := Nrom.base.toNat
  let mirror := Nrom.mirror.toNat
  if prg.length = Nrom.bankSize then
    (m.memory.copy? base (base + Nrom.bankSize) prg).bind fun memory =>
      (memory.copy? mirror (mirror + Nrom.bankSize) prg).map fun memory =>
        (.ok (), { m with memory, pc := Nrom.base })
  else if prg.length = 2 * Nrom.bankSize then
    (m.memory.copy? base Memory.size prg).map fun memory =>
      (.ok (), { m with memory, pc := Nrom.base })
  else some (.error (.unexpectedSize prg.length), m)

/-- The window is loaded bank by bank. -/
theorem load_window (m : Machine) (prg : List UInt8) :
    m.load Nrom.base (Nrom.window prg) =
      if prg.length = Nrom.bankSize then (m.load Nrom.base prg).load Nrom.mirror prg
      else m.load Nrom.base prg := by
  have hmirror : Nrom.base + UInt16.ofNat Nrom.bankSize = Nrom.mirror := by decide
  rw [Nrom.window]
  split
  · next hone => rw [load_append, hone, hmirror]
  · rfl

theorem mapNrom_of_fits (h : Nrom.fits prg.length) (m : Machine) :
    m.mapNrom prg =
      (.ok (), { m with
        memory :=
          (if prg.length = Nrom.bankSize then (m.load Nrom.base prg).load Nrom.mirror prg
            else m.load Nrom.base prg).memory
        pc := Nrom.base }) := by
  rw [mapNrom, if_pos h, ← load_window]
  rfl

theorem mapNrom_of_not_fits (h : ¬ Nrom.fits prg.length) (m : Machine) :
    m.mapNrom prg = (.error (.unexpectedSize prg.length), m) := by
  rw [mapNrom, if_neg h]

theorem copyBanks?_eq (m : Machine) (prg : List UInt8) :
    m.copyBanks? prg = some (m.mapNrom prg) := by
  rw [copyBanks?]
  by_cases hone : prg.length = Nrom.bankSize
  · have hfits : Nrom.fits prg.length := Nrom.fits_iff.mpr (.inl hone)
    have hfirst : Nrom.base.toNat + prg.length ≤ Memory.size := by
      rw [hone]
      decide
    have hsecond : Nrom.mirror.toNat + prg.length ≤ Memory.size := by
      rw [hone]
      decide
    rw [mapNrom_of_fits hfits, if_pos hone, if_pos hone, ← hone,
      Memory.copy?_eq_load Nrom.base hfirst, Option.bind_some,
      Memory.copy?_eq_load Nrom.mirror hsecond]
    rfl
  · rw [if_neg hone]
    by_cases htwo : prg.length = 2 * Nrom.bankSize
    · have hfits : Nrom.fits prg.length := Nrom.fits_iff.mpr (.inr htwo)
      have hall : Memory.size = Nrom.base.toNat + prg.length := by
        rw [htwo]
        decide
      rw [mapNrom_of_fits hfits, if_neg hone, if_pos htwo, hall,
        Memory.copy?_eq_load Nrom.base (Nat.le_of_eq hall.symm)]
      rfl
    · have hfits : ¬ Nrom.fits prg.length := fun h => (Nrom.fits_iff.mp h).elim hone htwo
      rw [mapNrom_of_not_fits hfits, if_neg htwo]

/-- A mapped image is shown again and again from the start of the window on. -/
theorem getElem?_mapNrom (h : Nrom.fits prg.length) (m : Machine) {z : UInt16}
    (hz : Nrom.base ≤ z) :
    prg[(z.toNat - Nrom.base.toNat) % prg.length]? =
      some ((m.mapNrom prg).2.memory.read z) := by
  have hin : (z.toNat - Nrom.base.toNat) % prg.length < prg.length :=
    Nat.mod_lt _ (Nrom.length_pos h)
  rw [read_mapNrom h, if_pos hz, List.getElem?_eq_getElem hin, Option.getD_some]

theorem mapNrom_fst_eq_ok_iff (m : Machine) (prg : List UInt8) :
    (m.mapNrom prg).1 = .ok () ↔ Nrom.fits prg.length := by
  by_cases h : Nrom.fits prg.length
  · rw [mapNrom_of_fits h]
    exact iff_of_true rfl h
  · rw [mapNrom_of_not_fits h]
    exact iff_of_false (by simp) h

/-- Mapping an image of one bank or of two fills the window and goes to its start, and no other
image changes anything. The copies of the banks never fail, loading the banks one by one comes to
the same, and power-on afterwards starts where the last bytes but two of the image say. -/
theorem mapNrom_fills_window (m : Machine) (prg : List UInt8) :
    m.copyBanks? prg = some (m.mapNrom prg) ∧
    (Nrom.fits prg.length ↔ prg.length = 16384 ∨ prg.length = 32768) ∧
    ((m.mapNrom prg).1 = .ok () ↔ Nrom.fits prg.length) ∧
    (¬ Nrom.fits prg.length → m.mapNrom prg = (.error (.unexpectedSize prg.length), m)) ∧
    (Nrom.fits prg.length →
      let mapped := (m.mapNrom prg).2
      (∀ z : UInt16, 0x8000 ≤ z →
        prg[(z.toNat - 0x8000) % prg.length]? = some (mapped.memory.read z)) ∧
      (∀ z : UInt16, z < 0x8000 → mapped.memory.read z = m.memory.read z) ∧
      mapped.registers = m.registers ∧ mapped.cycles = m.cycles ∧ mapped.pc = 0x8000 ∧
      mapped.memory =
        (if prg.length = 16384 then (m.load 0x8000 prg).load 0xC000 prg
          else m.load 0x8000 prg).memory ∧
      ∃ low high, prg[prg.length - 4]? = some low ∧ prg[prg.length - 3]? = some high ∧
        mapped.powerOn.pc.toNat = low.toNat + 256 * high.toNat) := by
  refine ⟨m.copyBanks?_eq prg, Nrom.fits_iff, m.mapNrom_fst_eq_ok_iff prg,
    fun h => mapNrom_of_not_fits h m, fun h => ?_⟩
  have hmapped := mapNrom_of_fits h m
  have hlow : prg.length - 4 < prg.length := Nat.sub_lt (Nrom.length_pos h) (by decide)
  have hhigh : prg.length - 3 < prg.length := Nat.sub_lt (Nrom.length_pos h) (by decide)
  refine ⟨fun z hz => getElem?_mapNrom h m hz, fun z hz => ?_, by rw [hmapped], by rw [hmapped],
    ?_, ?_, _, _, List.getElem?_eq_getElem hlow, List.getElem?_eq_getElem hhigh, ?_⟩
  · exact (read_mapNrom h m z).trans (if_neg (UInt16.not_le.mpr hz))
  · rw [hmapped]
    rfl
  · rw [hmapped]
    rfl
  · rw [pc_powerOn_mapNrom h, Word.toNat_ofBytes, List.getElem?_eq_getElem hlow,
      List.getElem?_eq_getElem hhigh, Option.getD_some, Option.getD_some]

/-- One bank, seen twice and started through the vector at its end, and the same with one byte
more. -/
theorem mapNrom_fills_window_one_bank :
    let m : Machine := {}
    let prg := List.replicate 16380 0xEA ++ [0x34, 0x92, 0, 0]
    Nrom.fits prg.length ∧ (m.mapNrom prg).1 = .ok () ∧
      (m.mapNrom prg).2.memory.read 0xBFFC = 0x34 ∧ (m.mapNrom prg).2.memory.read 0xFFFC = 0x34 ∧
      (m.mapNrom prg).2.memory.read 0x7FFF = 0 ∧ (m.mapNrom prg).2.powerOn.pc.toNat = 0x9234 ∧
      ¬ Nrom.fits (prg ++ [0]).length ∧
      m.mapNrom (prg ++ [0]) = (.error (.unexpectedSize 16385), m) := by
  -- the mapped machine has no name here: comparing it with its name, the kernel would compute it
  intro m prg
  have hlength : prg.length = 16384 := by
    rw [List.length_append, List.length_replicate]
    rfl
  have hlonger : (prg ++ [0]).length = 16385 := by
    rw [List.length_append, hlength, List.length_singleton]
  have hvector (i : Nat) : prg[16380 + i]? = [0x34, 0x92, 0, 0][i]? := by
    have hle : (List.replicate 16380 (0xEA : UInt8)).length ≤ 16380 + i := by
      rw [List.length_replicate]
      omega
    rw [List.getElem?_append_right hle, List.length_replicate, Nat.add_sub_cancel_left]
  have hlowByte : prg[16380]? = some 0x34 := hvector 0
  have hhighByte : prg[16381]? = some 0x92 := hvector 1
  obtain ⟨-, hfits, hok, -, hshown⟩ := mapNrom_fills_window m prg
  obtain ⟨-, hfitsLonger, -, hrefused, -⟩ := mapNrom_fills_window m (prg ++ [0])
  have hone : Nrom.fits prg.length := hfits.mpr (.inl hlength)
  have hnot : ¬ Nrom.fits (prg ++ [0]).length := by
    rw [hfitsLonger, hlonger]
    decide
  obtain ⟨hread, hbelow, -, -, -, -, low, high, hlow, hhigh, hstart⟩ := hshown hone
  rw [hlength] at hlow hhigh
  have hbyte (z : UInt16) (hz : 0x8000 ≤ z) (hcell : (z.toNat - 0x8000) % 16384 = 16380) :
      (m.mapNrom prg).2.memory.read z = 0x34 := by
    have hshows := hread z hz
    rw [hlength, hcell, hlowByte] at hshows
    exact (Option.some.inj hshows).symm
  refine ⟨hone, hok.mpr hone, hbyte _ (by decide) (by decide), hbyte _ (by decide) (by decide),
    (hbelow 0x7FFF (by decide)).trans (Memory.read_blank _), ?_, hnot, ?_⟩
  · rw [hstart, Option.some.inj (hlow.symm.trans hlowByte),
      Option.some.inj (hhigh.symm.trans hhighByte)]
    rfl
  · rw [hrefused hnot, hlonger]

end Machine

end Core6502
