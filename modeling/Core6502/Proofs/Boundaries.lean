import Core6502.Listing
import Mathlib.Data.Nat.PSub
import Mathlib.Order.Monotone.Basic

/-!
# Instruction boundaries

The instructions of a listing divide the memory into intervals. The number of an instruction and
the address at which it starts are two ways to name such an interval, so one function undoes the
other, also for a last instruction that reaches past the end of the memory.
-/

namespace Core6502.Listing

variable {m : Memory} {a : UInt16} {k n : Nat}

/-- Where instruction number `k` starts, if addresses did not wrap at $FFFF. Only what is below
65536 is an address. -/
def boundary (m : Memory) : Nat → Nat
  | 0 => 0
  | k + 1 => boundary m k + sizeAt m (UInt16.ofNat (boundary m k))

theorem boundary_lt_succ (m : Memory) (k : Nat) : boundary m k < boundary m (k + 1) :=
  Nat.lt_add_of_pos_right (size_pos _)

theorem boundary_strictMono (m : Memory) : StrictMono (boundary m) :=
  strictMono_nat_of_lt_succ (boundary_lt_succ m)

/-- Instruction number `k` holds position `p`. -/
def Holds (m : Memory) (k p : Nat) : Prop := boundary m k ≤ p ∧ p < boundary m (k + 1)

theorem holds_boundary (m : Memory) (k : Nat) : Holds m k (boundary m k) :=
  ⟨Nat.le_refl _, boundary_lt_succ m k⟩

/-- Of two positions the earlier one has the instruction with the lower number. -/
theorem Holds.mono {l p q : Nat} (hk : Holds m k p) (hl : Holds m l q) (h : p ≤ q) : k ≤ l := by
  have hlt : boundary m k < boundary m (l + 1) := by
    calc boundary m k ≤ p := hk.1
      _ ≤ q := h
      _ < boundary m (l + 1) := hl.2
  exact Nat.le_of_lt_succ ((boundary_strictMono m).lt_iff_lt.mp hlt)

theorem Holds.unique {l p : Nat} (hk : Holds m k p) (hl : Holds m l p) : k = l :=
  Nat.le_antisymm (hk.mono hl (Nat.le_refl p)) (hl.mono hk (Nat.le_refl p))

theorem holds_indexFrom {target start : Nat} (hstart : start = boundary m k)
    (h : start ≤ target) : Holds m (indexFrom m target start k) target := by
  induction start, k using indexFrom.induct m target with
  | case1 start k following hle ih =>
      rw [indexFrom, if_pos hle]
      refine ih ?_ hle
      simp only [following, hstart, boundary]
  | case2 start k following hlt =>
      rw [indexFrom, if_neg hlt]
      refine ⟨hstart ▸ h, ?_⟩
      rw [boundary, ← hstart]
      exact Nat.lt_of_not_le hlt

theorem holds_indexOf (m : Memory) (a : UInt16) : Holds m (indexOf m a) a.toNat :=
  holds_indexFrom rfl (Nat.zero_le _)

theorem indexOf_eq_iff : indexOf m a = k ↔ Holds m k a.toNat := by
  refine ⟨?_, fun h => (holds_indexOf m a).unique h⟩
  rintro rfl
  exact holds_indexOf m a

theorem addressOf_eq (m : Memory) (n : Nat) : addressOf m n = UInt16.ofNat (boundary m n) := by
  induction n with
  | zero => rfl
  | succ n ih =>
      have hsucc : addressOf m (n + 1) = next m (addressOf m n) := rfl
      rw [hsucc, ih, next, boundary, UInt16.ofNat_add]

theorem toNat_addressOf (h : boundary m n < UInt16.size) :
    (addressOf m n).toNat = boundary m n := by
  rw [addressOf_eq, UInt16.toNat_ofNat_of_lt' h]

theorem indexOf_addressOf (h : boundary m n < UInt16.size) : indexOf m (addressOf m n) = n := by
  rw [indexOf_eq_iff, toNat_addressOf h]
  exact holds_boundary m n

theorem toNat_addressOf_indexOf (m : Memory) (a : UInt16) :
    (addressOf m (indexOf m a)).toNat = boundary m (indexOf m a) :=
  toNat_addressOf (Nat.lt_of_le_of_lt (holds_indexOf m a).1 a.toNat_lt)

theorem addressOf_indexOf_le (m : Memory) (a : UInt16) : addressOf m (indexOf m a) ≤ a := by
  rw [UInt16.le_iff_toNat_le, toNat_addressOf_indexOf]
  exact (holds_indexOf m a).1

theorem addressOf_indexOf_eq_iff :
    addressOf m (indexOf m a) = a ↔ ∃ k, boundary m k = a.toNat := by
  rw [← UInt16.toNat_inj, toNat_addressOf_indexOf]
  refine ⟨fun h => ⟨_, h⟩, ?_⟩
  rintro ⟨k, hk⟩
  have hindex : indexOf m a = k := by
    rw [indexOf_eq_iff, ← hk]
    exact holds_boundary m k
  rw [hindex, hk]

theorem indexOf_mono {b : UInt16} (h : a ≤ b) : indexOf m a ≤ indexOf m b :=
  (holds_indexOf m a).mono (holds_indexOf m b) (UInt16.le_iff_toNat_le.mp h)

/-- No instruction is empty, so the next position is in the same or in the next one. -/
theorem Holds.succ_le {l p : Nat} (hk : Holds m k p) (hl : Holds m l (p + 1)) : l ≤ k + 1 :=
  hl.mono (holds_boundary m (k + 1)) hk.2

/-! ## Counting with checks -/

/-- Counts the instructions before `target` and takes one back if the last of them reaches past it.
Fails where a byte outside the memory is read, and where one is taken from zero. -/
def scanFrom? (m : Memory) (target cursor count : Nat) : Option Nat :=
  if cursor < target then
    match m.bytes[cursor]? with
    | some opcode => scanFrom? m target (cursor + size opcode) (count + 1)
    | none => none
  else if target < cursor then count.ppred
  else some count
termination_by target - cursor
decreasing_by
  have h := size_pos opcode
  omega

def scan? (m : Memory) (a : UInt16) : Option Nat := scanFrom? m a.toNat 0 0

theorem getElem?_bytes {p : Nat} (h : p < UInt16.size) :
    m.bytes[p]? = some (m.read (UInt16.ofNat p)) := by
  have hread : m.bytes[(UInt16.ofNat p).toNat]? = some (m.read (UInt16.ofNat p)) :=
    getElem?_pos m.bytes _ (m.lt_size_bytes _)
  rwa [UInt16.toNat_ofNat_of_lt' h] at hread

/-- The count goes through the boundaries up to the one at or after the target. -/
theorem scanFrom?_boundary {target count : Nat} (htarget : target < UInt16.size)
    (hk : Holds m k target) (hcount : count ≤ k) :
    scanFrom? m target (boundary m count) count = some k := by
  have hread {l : Nat} (hl : boundary m l < target) :
      scanFrom? m target (boundary m l) l = scanFrom? m target (boundary m (l + 1)) (l + 1) := by
    rw [scanFrom?, if_pos hl, getElem?_bytes (hl.trans htarget)]
    rfl
  induction hcount using Nat.decreasingInduction with
  | of_succ l hl ih =>
      rw [hread (Nat.lt_of_lt_of_le (boundary_strictMono m hl) hk.1), ih]
  | self =>
      obtain heq | hlt := Nat.eq_or_lt_of_le hk.1
      · rw [scanFrom?, heq, if_neg (Nat.lt_irrefl _), if_neg (Nat.lt_irrefl _)]
      · rw [hread hlt, scanFrom?, if_neg (Nat.not_lt_of_gt hk.2), if_pos hk.2, Nat.ppred_succ]

theorem scan?_eq (m : Memory) (a : UInt16) : scan? m a = some (indexOf m a) :=
  scanFrom?_boundary a.toNat_lt (holds_indexOf m a) (Nat.zero_le _)

/-- The number of an address is that of the interval in which it is; numbers and boundaries undo
each other. Counting instructions neither leaves the memory nor takes one from zero. -/
theorem index_inverts_address (m : Memory) :
    (∀ a k, indexOf m a = k ↔ boundary m k ≤ a.toNat ∧ a.toNat < boundary m (k + 1)) ∧
    (∀ k, boundary m k < 65536 →
      (addressOf m k).toNat = boundary m k ∧ indexOf m (addressOf m k) = k) ∧
    (∀ a, addressOf m (indexOf m a) ≤ a ∧
      (addressOf m (indexOf m a) = a ↔ ∃ k, boundary m k = a.toNat)) ∧
    (∀ a b, a ≤ b → indexOf m a ≤ indexOf m b) ∧
    (∀ a : UInt16, a.toNat + 1 < 65536 → indexOf m (a + 1) ≤ indexOf m a + 1) ∧
    ∀ a, scan? m a = some (indexOf m a) := by
  refine ⟨fun a k => indexOf_eq_iff, fun k hk => ⟨toNat_addressOf hk, indexOf_addressOf hk⟩,
    fun a => ⟨addressOf_indexOf_le m a, addressOf_indexOf_eq_iff⟩, fun a b => indexOf_mono,
    fun a ha => ?_, scan?_eq m⟩
  have hnext : (a + 1).toNat = a.toNat + 1 := by
    rw [UInt16.toNat_add]
    exact Nat.mod_eq_of_lt ha
  refine (holds_indexOf m a).succ_le ?_
  rw [← hnext]
  exact holds_indexOf m (a + 1)

/-- A jump of three bytes in the last two cells, after nothing but instructions of one byte. -/
theorem index_inverts_address_straddling :
    let m := Memory.blank.load 0xFFFE [0x4C]
    boundary m 0xFFFE = 0xFFFE ∧ boundary m 0xFFFF = 0x10001 ∧
      (addressOf m 0xFFFE).toNat = 0xFFFE ∧ indexOf m 0xFFFF = 0xFFFE ∧
      addressOf m (indexOf m 0xFFFF) < 0xFFFF ∧ scan? m 0xFFFF = some 0xFFFE := by
  intro m
  have hbrk : size 0 = 1 := by
    have hdecode : decode 0 = some ⟨0, .brk, .implied, 7⟩ :=
      (decode_eq_lookup _).trans (by decide +kernel)
    rw [size, hdecode]
    rfl
  have hjmp : size 0x4C = 3 := by
    have hdecode : decode 0x4C = some ⟨0x4C, .jmp, .absolute, 3⟩ :=
      (decode_eq_lookup _).trans (by decide +kernel)
    rw [size, hdecode]
    rfl
  have hblank {a : UInt16} (ha : 0xFFFE ≠ a) : sizeAt m a = 1 := by
    rw [sizeAt, ← hbrk]
    exact congrArg size ((Memory.read_write_of_ne _ _ ha).trans (Memory.read_blank a))
  have hones : ∀ k ≤ 0xFFFE, boundary m k = k := by
    intro k hk
    induction k with
    | zero => rfl
    | succ k ih =>
        have hsmall : k < UInt16.size := Nat.lt_trans hk (by decide)
        have hne : (0xFFFE : UInt16) ≠ UInt16.ofNat k := by
          rw [Ne, ← UInt16.toNat_inj, UInt16.toNat_ofNat_of_lt' hsmall]
          exact Nat.ne_of_gt hk
        rw [boundary, ih (Nat.le_of_lt hk), hblank hne]
  have hlast : boundary m 0xFFFE = 0xFFFE := hones 0xFFFE (Nat.le_refl _)
  have hend : boundary m 0xFFFF = 0x10001 := by
    have hsize : sizeAt m 0xFFFE = 3 := (congrArg size (Memory.read_write_self ..)).trans hjmp
    rw [boundary, hlast]
    exact congrArg (0xFFFE + ·) hsize
  obtain ⟨hindex, haddress, -, -, -, hscan⟩ := index_inverts_address m
  have hinside : indexOf m 0xFFFF = 0xFFFE := by
    rw [hindex, hlast, hend]
    decide
  obtain ⟨hstart, -⟩ := haddress 0xFFFE (by rw [hlast]; decide)
  rw [hlast] at hstart
  refine ⟨hlast, hend, hstart, hinside, ?_, (hscan 0xFFFF).trans (congrArg some hinside)⟩
  rw [hinside, UInt16.lt_iff_toNat_lt, hstart]
  decide

end Core6502.Listing
