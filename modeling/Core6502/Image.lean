import Core6502.Machine

/-!
# Program images

An NROM cartridge carries one or two banks of 16 KiB. They fill the upper half of the address
space, a single bank twice, so its vectors stand at the top either way.
-/

namespace Core6502

/-- Why an image cannot be mapped. -/
inductive ImageError where
  /-- The image is neither one bank nor two. -/
  | unexpectedSize (size : Nat)
deriving DecidableEq

namespace ImageError

def size : ImageError → Nat
  | unexpectedSize size => size

def message (e : ImageError) : String :=
  String.join ["unexpected NROM PRG size: ", toString e.size,
    " bytes (expected 16384 or 32768)"]

end ImageError

namespace Nrom

def bankSize : Nat := 16384

/-- The first address of the window that the banks fill. -/
def base : UInt16 := 0x8000

def fits (size : Nat) : Bool := size == bankSize || size == 2 * bankSize

/-- What the window shows of an image: two banks, or one bank twice. -/
def window (prg : List UInt8) : List UInt8 := if prg.length = bankSize then prg ++ prg else prg

end Nrom

/-- Maps an image into the upper half of the address space and goes to its start. An image of
any other size changes nothing. -/
def Machine.mapNrom (m : Machine) (prg : List UInt8) : Except ImageError Unit × Machine :=
  if Nrom.fits prg.length then
    (.ok (), { m.load Nrom.base (Nrom.window prg) with pc := Nrom.base })
  else (.error (.unexpectedSize prg.length), m)

end Core6502
