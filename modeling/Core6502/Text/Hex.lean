import Core6502.Word

/-!
# Hexadecimal text

Bytes take two digits and words four, most significant first, with letters in upper case.
-/

namespace Core6502.Hex

/-- The digit for a number below 16. -/
def digit (n : Nat) : Char := (Nat.digitChar n).toUpper

/-- The two digits of a byte. -/
def byte (v : UInt8) : List Char := [digit (v.toNat / 16), digit (v.toNat % 16)]

/-- The four digits of a word. -/
def word (w : UInt16) : List Char := byte (Word.high w) ++ byte (Word.low w)

theorem length_byte (v : UInt8) : (byte v).length = 2 := rfl

theorem length_word (w : UInt16) : (word w).length = 4 := rfl

end Core6502.Hex
