/-!
# Sixteen-bit words

Addresses and pointers are words made of two bytes, stored low byte first. The high byte of
an address is its page. Reading a word's bytes and putting them together undo each other.
-/

namespace Core6502.Word

/-- The word with the given low and high bytes. -/
def ofBytes (low high : UInt8) : UInt16 := high.toUInt16 * 256 + low.toUInt16

def low (w : UInt16) : UInt8 := w.toUInt8

/-- The more significant byte; for an address, its page. -/
def high (w : UInt16) : UInt8 := (w / 256).toUInt8

theorem toNat_ofBytes (l h : UInt8) : (ofBytes l h).toNat = l.toNat + 256 * h.toNat := by
  have hl := l.toNat_lt
  have hh := h.toNat_lt
  simp only [ofBytes, UInt16.toNat_add, UInt16.toNat_mul, UInt8.toNat_toUInt16]
  simp only [UInt16.reduceToNat]
  omega

theorem toNat_low (w : UInt16) : (low w).toNat = w.toNat % 256 := by
  simp [low]

theorem toNat_high (w : UInt16) : (high w).toNat = w.toNat / 256 := by
  have hw := w.toNat_lt
  simp only [high, UInt16.toNat_toUInt8, UInt16.toNat_div]
  simp only [UInt16.reduceToNat]
  omega

@[simp] theorem low_ofBytes (l h : UInt8) : low (ofBytes l h) = l := by
  have hl := l.toNat_lt
  apply UInt8.toNat_inj.mp
  rw [toNat_low, toNat_ofBytes]
  omega

@[simp] theorem high_ofBytes (l h : UInt8) : high (ofBytes l h) = h := by
  have hl := l.toNat_lt
  apply UInt8.toNat_inj.mp
  rw [toNat_high, toNat_ofBytes]
  omega

@[simp] theorem ofBytes_low_high (w : UInt16) : ofBytes (low w) (high w) = w := by
  apply UInt16.toNat_inj.mp
  rw [toNat_ofBytes, toNat_low, toNat_high]
  omega

end Core6502.Word
