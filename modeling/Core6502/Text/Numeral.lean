import Core6502.Text.Blank

/-!
# Numerals

Numbers as people write addresses and counts: decimal, or hexadecimal after a dollar sign, `0x`
or `0X`. One plus sign may stand before the digits. Blanks around the numeral are ignored, and
nothing else may stand beside it.
-/

namespace Core6502.Numeral

/-- The value of a digit; letters of either case count from ten. -/
def digitValue? (c : Char) : Option Nat :=
  if '0' ≤ c ∧ c ≤ '9' then some (c.toNat - '0'.toNat)
  else if 'a' ≤ c ∧ c ≤ 'f' then some (c.toNat - 'a'.toNat + 10)
  else if 'A' ≤ c ∧ c ≤ 'F' then some (c.toNat - 'A'.toNat + 10)
  else none

/-- The value of a character that is a digit in `base`. -/
def digitIn? (base : Nat) (c : Char) : Option Nat := (digitValue? c).filter (· < base)

/-- Appends digits to a number already read. -/
def appendDigits? (base : Nat) (n : Nat) : List Char → Option Nat
  | [] => some n
  | c :: cs => (digitIn? base c).bind fun d => appendDigits? base (n * base + d) cs

/-- The number denoted by a row of at least one digit. -/
def digits? (base : Nat) : List Char → Option Nat
  | [] => none
  | cs => appendDigits? base 0 cs

/-- The number denoted by digits after an optional plus sign. -/
def signed? (base : Nat) : List Char → Option Nat
  | '+' :: cs => digits? base cs
  | cs => digits? base cs

/-- The number denoted by a numeral. -/
def value? : List Char → Option Nat
  | '0' :: 'x' :: cs | '0' :: 'X' :: cs | '$' :: cs => signed? 16 cs
  | cs => signed? 10 cs

/-- Reads a text as a number below `bound`. -/
def below? (bound : Nat) (text : String) : Option Nat :=
  (value? (Blank.trim text.toList)).filter (· < bound)

def count? (text : String) : Option Nat := below? UInt64.size text

def address? (text : String) : Option UInt16 := (below? UInt16.size text).map UInt16.ofNat

end Core6502.Numeral
