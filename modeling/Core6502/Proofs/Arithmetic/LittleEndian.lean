import Core6502.LittleEndian
import Core6502.Word
import Mathlib.Data.Nat.Digits.Defs

/-!
# The theory of little-endian numbers

The bytes of a number are its digits in base 256, and a number written in too few of them is taken
modulo a power of 256. With a given count of bytes a number has one form only.
-/

namespace Core6502

namespace LittleEndian

theorem decode_eq_ofDigits (bytes : List UInt8) :
    decode bytes = Nat.ofDigits 256 (bytes.map UInt8.toNat) := by
  induction bytes with
  | nil => rfl
  | cons v vs ih => rw [decode, ih, List.map_cons, Nat.ofDigits_cons]

theorem encode_eq_map_range (width n : Nat) :
    encode width n = (List.range width).map fun i => UInt8.ofNat (n / 256 ^ i) := by
  induction width generalizing n with
  | zero => rfl
  | succ width ih =>
      rw [encode, ih, List.range_succ_eq_map, List.map_cons, List.map_map, Nat.pow_zero,
        Nat.div_one]
      congr 1
      apply List.map_congr_left
      intro i _
      rw [Function.comp_apply, Nat.div_div_eq_div_mul, Nat.succ_eq_add_one, Nat.pow_succ']

theorem decode_encode (width n : Nat) : decode (encode width n) = n % 256 ^ width := by
  induction width generalizing n with
  | zero => rw [encode, decode, Nat.pow_zero, Nat.mod_one]
  | succ width ih => rw [encode, decode, ih, Nat.pow_succ', Nat.mod_mul, UInt8.toNat_ofNat']

theorem decode_take_encode_append {width n : Nat} (h : n < 256 ^ width) (rest : List UInt8) :
    decode ((encode width n ++ rest).take width) = n := by
  rw [List.take_left' (length_encode width n), decode_encode, Nat.mod_eq_of_lt h]

theorem decode_lt (bytes : List UInt8) : decode bytes < 256 ^ bytes.length := by
  induction bytes with
  | nil => exact Nat.one_pos
  | cons v vs ih =>
      have hv := v.toNat_lt
      rw [decode, List.length_cons, Nat.pow_succ]
      omega

theorem encode_word (w : UInt16) : encode 2 w.toNat = [Word.low w, Word.high w] := by
  have hlow : UInt8.ofNat w.toNat = Word.low w := rfl
  have hhigh : UInt8.ofNat (w.toNat / 256) = Word.high w := by
    have hw := w.toNat_lt
    apply UInt8.toNat_inj.mp
    rw [Word.toNat_high, UInt8.toNat_ofNat']
    omega
  rw [encode, encode, encode, hlow, hhigh]

theorem decode_append (vs ws : List UInt8) :
    decode (vs ++ ws) = decode vs + 256 ^ vs.length * decode ws := by
  rw [decode_eq_ofDigits, decode_eq_ofDigits, decode_eq_ofDigits, List.map_append,
    Nat.ofDigits_append, List.length_map]

/-- A number has one form with a given count of bytes. -/
theorem eq_of_decode_eq {vs ws : List UInt8} (hlength : vs.length = ws.length)
    (h : decode vs = decode ws) : vs = ws := by
  rw [← encode_decode vs, ← encode_decode ws, hlength, h]

end LittleEndian

end Core6502
