import Core6502.Listing

/-!
# Instructions tile memory

A walk along a listing goes on by the sizes of the instructions that it passes, so their bytes put
together are the cells from its start to its end, none left out and none shown twice, also where it
goes round the address space. Walks in one direction can be made in parts.
-/

namespace Core6502

/-- The `n` bytes from `a` on; past $FFFF comes $0000. -/
def Memory.row (m : Memory) (a : UInt16) (n : Nat) : List UInt8 :=
  (List.range n).map fun i => m.read (a + UInt16.ofNat i)

@[simp] theorem Memory.length_row (m : Memory) (a : UInt16) (n : Nat) : (m.row a n).length = n := by
  rw [row, List.length_map, List.length_range]

theorem Memory.row_add (m : Memory) (a : UInt16) (i j : Nat) :
    m.row a (i + j) = m.row a i ++ m.row (a + UInt16.ofNat i) j := by
  have hshift (k : Nat) : a + UInt16.ofNat (i + k) = a + UInt16.ofNat i + UInt16.ofNat k := by
    rw [UInt16.ofNat_add, UInt16.add_assoc]
  rw [row, List.range_add, List.map_append, List.map_map]
  congr 1
  exact List.map_congr_left fun k _ => congrArg m.read (hshift k)

namespace Listing

variable {m : Memory} {a : UInt16}

theorem encoding_eq_row (m : Memory) (a : UInt16) : encoding m a = m.row a (sizeAt m a) := rfl

theorem size_of_lookup {opcode : UInt8} {i : Instruction} (h : Isa.lookup opcode = some i) :
    size opcode = i.bytes := by
  rw [size, decode_eq_lookup, h]

/-! ## The bytes of a walk -/

/-- The bytes of `n` instructions from `a` on, each found by a walk that starts at `a`. -/
def code (m : Memory) (a : UInt16) (n : Nat) : List UInt8 :=
  (List.range n).flatMap fun k : Nat => encoding m (advance m a k)

theorem advance_succ (m : Memory) (a : UInt16) (n : Nat) :
    advance m a (n + 1 : Nat) = next m (advance m a n) := rfl

theorem code_succ (m : Memory) (a : UInt16) (n : Nat) :
    code m a (n + 1) = code m a n ++ encoding m (advance m a n) := by
  rw [code, List.range_succ, List.flatMap_append, List.flatMap_singleton]
  rfl

theorem length_code_succ (m : Memory) (a : UInt16) (n : Nat) :
    (code m a (n + 1)).length = (code m a n).length + sizeAt m (advance m a n) := by
  rw [code_succ, List.length_append, encoding_eq_row, Memory.length_row]

/-- A walk ends as far from its start as the bytes that it passed reach. -/
theorem advance_eq_add_length (m : Memory) (a : UInt16) (n : Nat) :
    advance m a n = a + UInt16.ofNat (code m a n).length := by
  induction n with
  | zero => exact (UInt16.add_zero a).symm
  | succ n ih =>
      calc advance m a (n + 1 : Nat)
          = advance m a n + UInt16.ofNat (sizeAt m (advance m a n)) := advance_succ m a n
        _ = a + UInt16.ofNat (code m a n).length +
              UInt16.ofNat (sizeAt m (advance m a n)) := congrArg (· + _) ih
        _ = a + UInt16.ofNat (code m a (n + 1)).length := by
            rw [length_code_succ, UInt16.ofNat_add, UInt16.add_assoc]

theorem code_eq_row (m : Memory) (a : UInt16) (n : Nat) :
    code m a n = m.row a (code m a n).length := by
  induction n with
  | zero => rfl
  | succ n ih =>
      -- the next instruction is found where the row of the earlier ones ends
      rw [length_code_succ, Memory.row_add, ← ih, ← advance_eq_add_length, ← encoding_eq_row,
        code_succ]

theorem le_length_code (m : Memory) (a : UInt16) (n : Nat) : n ≤ (code m a n).length := by
  induction n with
  | zero => exact Nat.le_refl 0
  | succ n ih =>
      have hpos : 0 < sizeAt m (advance m a n) := size_pos _
      rw [length_code_succ]
      omega

theorem length_code_le (m : Memory) (a : UInt16) (n : Nat) : (code m a n).length ≤ 3 * n := by
  induction n with
  | zero => exact Nat.le_refl 0
  | succ n ih =>
      have hle : sizeAt m (advance m a n) ≤ 3 := size_le _
      rw [length_code_succ]
      omega

/-! ## Walks in parts -/

theorem repeat_add {α : Type} (f : α → α) (j k : Nat) (x : α) :
    Nat.repeat f (j + k) x = Nat.repeat f k (Nat.repeat f j x) := by
  induction k with
  | zero => rfl
  | succ k ih => exact congrArg f ih

theorem advance_natCast (m : Memory) (a : UInt16) (n : Nat) :
    advance m a n = Nat.repeat (next m) n a := rfl

theorem advance_neg_natCast (m : Memory) (a : UInt16) (n : Nat) :
    advance m a (-n : Int) = Nat.repeat (previous m) n a := by
  cases n <;> rfl

/-- Two walks in the same direction, the second from where the first ends, make one walk. -/
theorem advance_add {j k : Int} (h : 0 ≤ j ∧ 0 ≤ k ∨ j ≤ 0 ∧ k ≤ 0) :
    advance m a (j + k) = advance m (advance m a j) k := by
  obtain ⟨hj, hk⟩ | ⟨hj, hk⟩ := h
  · obtain ⟨j, rfl⟩ := Int.eq_ofNat_of_zero_le hj
    obtain ⟨k, rfl⟩ := Int.eq_ofNat_of_zero_le hk
    rw [← Int.natCast_add, advance_natCast, advance_natCast, advance_natCast, repeat_add]
  · obtain ⟨j, rfl⟩ := Int.exists_eq_neg_ofNat hj
    obtain ⟨k, rfl⟩ := Int.exists_eq_neg_ofNat hk
    rw [← Int.neg_add, ← Int.natCast_add, advance_neg_natCast, advance_neg_natCast,
      advance_neg_natCast, repeat_add]

/-- The instructions that a walk passes cover the cells from its start to its end, each once. A walk
can be made in parts, and one from address zero finds the instructions by their numbers. -/
theorem walk_covers (m : Memory) (a : UInt16) :
    (∀ n : Nat,
      let bytes := (List.range n).flatMap fun k : Nat => encoding m (advance m a k)
      bytes = (List.range bytes.length).map (fun i => m.read (a + UInt16.ofNat i)) ∧
      n ≤ bytes.length ∧ bytes.length ≤ 3 * n ∧
      advance m a n = a + UInt16.ofNat bytes.length) ∧
    (∀ j k : Int, 0 ≤ j ∧ 0 ≤ k ∨ j ≤ 0 ∧ k ≤ 0 →
      advance m a (j + k) = advance m (advance m a j) k) ∧
    ∀ n : Nat, addressOf m n = advance m 0 n :=
  ⟨fun n => ⟨code_eq_row m a n, le_length_code m a n, length_code_le m a n,
    advance_eq_add_length m a n⟩, fun _ _ => advance_add, fun n => (advance_natCast m 0 n).symm⟩

/-- A jump in the last cell, with its operand at the start of the space, and the longest walk
back. -/
theorem walk_covers_wrapping :
    let m := Memory.blank.load 0xFFFF [0x4C, 0x34, 0x12]
    (List.range 1).flatMap (fun k : Nat => encoding m (advance m 0xFFFF k)) = [0x4C, 0x34, 0x12] ∧
      advance m 0xFFFF 1 = 2 ∧ ((-2147483647 : Int) ≤ 0 ∧ (-1 : Int) ≤ 0) ∧
      advance m 0xFFFF (-2147483648) = advance m (advance m 0xFFFF (-2147483647)) (-1) := by
  intro m
  have hopcode : m.read 0xFFFF = 0x4C := by simp [m, Memory.load, Memory.read_write]
  have hjmp : Isa.lookup 0x4C = some ⟨0x4C, .jmp, .absolute, 3⟩ := by decide +kernel
  have hsize : sizeAt m 0xFFFF = 3 := (congrArg size hopcode).trans (size_of_lookup hjmp)
  have hcode : (List.range 1).flatMap (fun k : Nat => encoding m (advance m 0xFFFF k)) =
      [0x4C, 0x34, 0x12] := by
    rw [List.range_one, List.flatMap_singleton]
    show encoding m 0xFFFF = _
    rw [encoding, hsize]
    simp [List.range_succ, m, Memory.load, Memory.read_write]
  obtain ⟨hcovers, hparts, -⟩ := walk_covers m 0xFFFF
  obtain ⟨-, -, -, hend⟩ := hcovers 1
  have hback : (-2147483647 : Int) ≤ 0 ∧ (-1 : Int) ≤ 0 := by decide
  have hsum : (-2147483648 : Int) = -2147483647 + -1 := by decide
  refine ⟨hcode, ?_, hback, ?_⟩
  · rw [hcode] at hend
    exact hend
  · rw [hsum]
    exact hparts (-2147483647) (-1) (.inr hback)

end Listing

end Core6502
