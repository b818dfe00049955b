/-!
# Little-endian numbers

A number in a fixed count of bytes, least significant first. Reading is the inverse of writing
for the numbers that fit.
-/

namespace Core6502.LittleEndian

/-- The lowest `width` bytes of a number. -/
def encode : (width n : Nat) → List UInt8
  | 0, _ => []
  | width + 1, n => UInt8.ofNat n :: encode width (n / 256)

/-- The number that the bytes make up. -/
def decode : List UInt8 → Nat
  | [] => 0
  | v :: vs => v.toNat + 256 * decode vs

@[simp] theorem length_encode (width n : Nat) : (encode width n).length = width := by
  induction width generalizing n with
  | zero => rfl
  | succ width ih => simp [encode, ih]

theorem encode_decode (bytes : List UInt8) : encode bytes.length (decode bytes) = bytes := by
  induction bytes with
  | nil => rfl
  | cons v vs ih =>
    have hv := v.toNat_lt
    have hq : (v.toNat + 256 * decode vs) / 256 = decode vs := by omega
    rw [List.length_cons, decode, encode, hq, ih]
    congr 1
    apply UInt8.toNat_inj.mp
    rw [UInt8.toNat_ofNat']
    omega

end Core6502.LittleEndian
