import Core6502.Proofs.Image.Placement
import Core6502.Runner.Report

/-!
# Where a program starts

The machine on which the program runs an image is described by what can be seen of it: the cells one
by one, the program counter, and the registers and the cycle count of power-on. The device
registers are cleared after the image was loaded, so what it put there is lost.
-/

namespace Core6502

namespace Options

/-- Whether an image is mapped as a cartridge. -/
def IsCartridge (o : Options) (image : List UInt8) : Prop :=
  o.load = none ∧ (image.length = 16384 ∨ image.length = 32768)

/-- The machine on which an image starts. -/
structure StartsAs (o : Options) (image : List UInt8) (c : Machine) : Prop where
  registers : c.registers = { a := 0, x := 0, y := 0, sp := 0xFD, status := .ofByte 0x24 }
  cycles : c.cycles = 7
  devices : ∀ z : UInt16, 0x4000 ≤ z → z ≤ 0x4017 → c.memory.read z = 0
  cartridge : o.IsCartridge image → ∀ z : UInt16, ¬ (0x4000 ≤ z ∧ z ≤ 0x4017) →
    c.memory.read z =
      if 0x8000 ≤ z then (image[(z.toNat - 0x8000) % image.length]?).getD 0 else 0
  /-- The last byte for a cell stays, if the image goes round the address space. -/
  raw : ¬ o.IsCartridge image → ∀ z : UInt16, ¬ (0x4000 ≤ z ∧ z ≤ 0x4017) →
    c.memory.read z =
      ((Memory.lastOffset? (o.load.getD 0x8000) z image.length).bind (image[·]?)).getD 0
  pc_given : ∀ address, o.pc = some address → c.pc = address
  pc_cartridge : o.pc = none → o.IsCartridge image → c.pc =
    Word.ofBytes ((image[image.length - 4]?).getD 0) ((image[image.length - 3]?).getD 0)
  pc_raw : o.pc = none → ¬ o.IsCartridge image → c.pc = o.load.getD 0x8000

variable {o : Options} {image : List UInt8}

theorem mapsCartridge_iff (o : Options) (image : List UInt8) :
    o.mapsCartridge image.length = true ↔ o.IsCartridge image := by
  rw [mapsCartridge, Bool.and_eq_true, Option.isNone_iff_eq_none, Nrom.fits_iff]
  rfl

theorem startsAs_of_cartridge (h : o.IsCartridge image) : o.StartsAs image (o.machine image) := by
  have hfits : Nrom.fits image.length := Nrom.fits_iff.mpr h.2
  have hread := Machine.read_powerOn (Machine.mapNrom {} image).2
  have hpc := Machine.pc_powerOn_mapNrom hfits {}
  rw [machine, if_pos ((o.mapsCartridge_iff image).mpr h)]
  generalize hm : (Machine.mapNrom {} image).2 = m at *
  refine ⟨rfl, rfl, fun z hlow hhigh => ?_, fun _ z hz => ?_, fun hraw => absurd h hraw,
    fun address haddress => ?_, fun hnone _ => ?_, fun _ hraw => absurd h hraw⟩
  · exact (hread z).trans (if_pos ⟨hlow, hhigh⟩)
  · refine (hread z).trans ((if_neg hz).trans ?_)
    rw [← hm, Machine.read_mapNrom hfits, Memory.read_blank]
    rfl
  · exact congrArg (Option.getD · m.powerOn.pc) haddress
  · exact (congrArg (Option.getD · m.powerOn.pc) hnone).trans hpc

theorem startsAs_of_raw (h : ¬ o.IsCartridge image) : o.StartsAs image (o.machine image) := by
  have hread := Machine.read_powerOn (Machine.load {} (o.load.getD 0x8000) image)
  rw [machine, if_neg fun hmaps => h ((o.mapsCartridge_iff image).mp hmaps)]
  refine ⟨rfl, rfl, fun z hlow hhigh => ?_, fun hcart => absurd hcart h, fun _ z hz => ?_,
    fun address haddress => ?_, fun _ hcart => absurd hcart h, fun hnone _ => ?_⟩
  · exact (hread z).trans (if_pos ⟨hlow, hhigh⟩)
  · refine (hread z).trans ((if_neg hz).trans ?_)
    rw [Machine.load, Memory.read_load, Memory.read_blank]
  · exact congrArg (Option.getD · (o.load.getD 0x8000)) haddress
  · exact congrArg (Option.getD · (o.load.getD 0x8000)) hnone

/-- The description leaves nothing open. -/
theorem StartsAs.eq {c c' : Machine} (h : o.StartsAs image c) (h' : o.StartsAs image c') :
    c = c' := by
  have hmemory : c.memory = c'.memory := by
    refine Memory.ext_read fun z => ?_
    by_cases hdevice : 0x4000 ≤ z ∧ z ≤ 0x4017
    · rw [h.devices z hdevice.1 hdevice.2, h'.devices z hdevice.1 hdevice.2]
    · by_cases hcartridge : o.IsCartridge image
      · rw [h.cartridge hcartridge z hdevice, h'.cartridge hcartridge z hdevice]
      · rw [h.raw hcartridge z hdevice, h'.raw hcartridge z hdevice]
  have hpc : c.pc = c'.pc := by
    cases hgiven : o.pc with
    | some address => rw [h.pc_given address hgiven, h'.pc_given address hgiven]
    | none =>
        by_cases hcartridge : o.IsCartridge image
        · rw [h.pc_cartridge hgiven hcartridge, h'.pc_cartridge hgiven hcartridge]
        · rw [h.pc_raw hgiven hcartridge, h'.pc_raw hgiven hcartridge]
  have hregisters := h.registers.trans h'.registers.symm
  have hcycles := h.cycles.trans h'.cycles.symm
  obtain ⟨registers, pc, memory, cycles⟩ := c
  obtain ⟨registers', pc', memory', cycles'⟩ := c'
  dsimp only at hregisters hpc hmemory hcycles
  rw [hregisters, hpc, hmemory, hcycles]

theorem startsAs_machine (o : Options) (image : List UInt8) :
    o.StartsAs image (o.machine image) := by
  by_cases h : o.IsCartridge image
  · exact startsAs_of_cartridge h
  · exact startsAs_of_raw h

end Options

end Core6502
