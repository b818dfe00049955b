import Core6502.Machine

/-!
# The stack page

The cells that pushes fill and pulls empty. Offsets wrap inside the page, so up to 256 cells
in a row are distinct: the cells below a stack pointer that a push is about to fill are none
of those in use above it, as long as both together fit the page.
-/

namespace Core6502.Machine

/-- The first `n` cells above the stack pointer, nearest first. -/
def cellsAbove (sp : UInt8) : (n : Nat) → List UInt16
  | 0 => []
  | n + 1 => stackCell (sp + 1) :: cellsAbove (sp + 1) n

/-- The next `n` cells that pushes fill, in the order in which they fill them. -/
def cellsBelow (sp : UInt8) : (n : Nat) → List UInt16
  | 0 => []
  | n + 1 => stackCell sp :: cellsBelow (sp - 1) n

theorem stackCell_inj {a b : UInt8} : stackCell a = stackCell b ↔ a = b := by
  constructor
  · intro h
    have hlow := congrArg Word.low h
    rwa [stackCell, stackCell, Word.low_ofBytes, Word.low_ofBytes] at hlow
  · rintro rfl
    rfl

theorem ofNat_succ (n : Nat) : UInt8.ofNat (n + 1) = UInt8.ofNat n + 1 := UInt8.ofNat_add n 1

theorem mem_cellsAbove {sp : UInt8} {n : Nat} {address : UInt16} :
    address ∈ cellsAbove sp n ↔ ∃ k < n, address = stackCell (sp + UInt8.ofNat (k + 1)) := by
  induction n generalizing sp with
  | zero => simp [cellsAbove]
  | succ n ih =>
      have hstep (k : Nat) : sp + 1 + UInt8.ofNat (k + 1) = sp + UInt8.ofNat (k + 1 + 1) := by
        rw [ofNat_succ (k + 1), UInt8.add_assoc, UInt8.add_comm 1]
      simp only [cellsAbove, List.mem_cons, ih, hstep]
      constructor
      · rintro (rfl | ⟨k, hk, rfl⟩)
        · exact ⟨0, by omega, rfl⟩
        · exact ⟨k + 1, by omega, rfl⟩
      · rintro ⟨k, hk, rfl⟩
        cases k with
        | zero => exact Or.inl rfl
        | succ k => exact Or.inr ⟨k, by omega, rfl⟩

theorem mem_cellsBelow {sp : UInt8} {n : Nat} {address : UInt16} :
    address ∈ cellsBelow sp n ↔ ∃ k < n, address = stackCell (sp - UInt8.ofNat k) := by
  induction n generalizing sp with
  | zero => simp [cellsBelow]
  | succ n ih =>
      have hstep (k : Nat) : sp - 1 - UInt8.ofNat k = sp - UInt8.ofNat (k + 1) := by
        rw [ofNat_succ]
        grind
      simp only [cellsBelow, List.mem_cons, ih, hstep]
      constructor
      · rintro (rfl | ⟨k, hk, rfl⟩)
        · exact ⟨0, by omega, by simp⟩
        · exact ⟨k + 1, by omega, rfl⟩
      · rintro ⟨k, hk, rfl⟩
        cases k with
        | zero => exact Or.inl (by simp)
        | succ k => exact Or.inr ⟨k, by omega, rfl⟩

theorem notMem_cellsAbove_of_mem_cellsBelow {sp : UInt8} {n count : Nat} {address : UInt16}
    (hfit : n + count ≤ 256) (hbelow : address ∈ cellsBelow sp count) :
    address ∉ cellsAbove sp n := by
  intro habove
  obtain ⟨j, hj, rfl⟩ := mem_cellsBelow.mp hbelow
  obtain ⟨k, hk, hcell⟩ := mem_cellsAbove.mp habove
  have hwrap : UInt8.ofNat (j + (k + 1)) = 0 := by
    rw [UInt8.ofNat_add]
    have hoffset := stackCell_inj.mp hcell
    grind
  have hmod : (j + (k + 1)) % 256 = 0 := by
    have hnat := congrArg UInt8.toNat hwrap
    rwa [UInt8.toNat_ofNat'] at hnat
  omega

theorem take_cellsAbove (sp : UInt8) {n count : Nat} (h : count ≤ n) :
    (cellsAbove sp n).take count = cellsAbove sp count := by
  induction count generalizing sp n with
  | zero => rfl
  | succ count ih =>
      obtain ⟨n, rfl⟩ : ∃ k, n = k + 1 := ⟨n - 1, by omega⟩
      rw [cellsAbove, cellsAbove, List.take_succ_cons, ih _ (by omega)]

theorem drop_cellsAbove (sp : UInt8) (n count : Nat) :
    (cellsAbove sp n).drop count = cellsAbove (sp + UInt8.ofNat count) (n - count) := by
  induction count generalizing sp n with
  | zero => simp
  | succ count ih =>
      cases n with
      | zero => simp [cellsAbove]
      | succ n =>
          have hsp : sp + UInt8.ofNat (count + 1) = sp + 1 + UInt8.ofNat count := by
            rw [ofNat_succ, UInt8.add_assoc, UInt8.add_comm 1]
          rw [cellsAbove, List.drop_succ_cons, ih, Nat.add_sub_add_right, hsp]

/-- After `count` pushes the filled cells come first, the last one filled in front. -/
theorem cellsAbove_sub (sp : UInt8) (n count : Nat) :
    cellsAbove (sp - UInt8.ofNat count) (count + n) =
      (cellsBelow sp count).reverse ++ cellsAbove sp n := by
  induction count generalizing sp n with
  | zero => simp [cellsBelow]
  | succ count ih =>
      have hsp : sp - UInt8.ofNat (count + 1) = sp - 1 - UInt8.ofNat count := by
        rw [ofNat_succ]
        grind
      have hcell : cellsAbove (sp - 1) (n + 1) = stackCell sp :: cellsAbove sp n := by
        rw [cellsAbove, UInt8.sub_add_cancel]
      rw [hsp, Nat.add_assoc, Nat.add_comm 1 n, ih, hcell, cellsBelow, List.reverse_cons,
        List.append_assoc, List.singleton_append]

theorem mem_cellsAbove_sub {sp : UInt8} {count : Nat} {address : UInt16} :
    address ∈ cellsAbove (sp - UInt8.ofNat count) count ↔ address ∈ cellsBelow sp count := by
  have hcells := cellsAbove_sub sp 0 count
  rw [Nat.add_zero, cellsAbove, List.append_nil] at hcells
  rw [hcells, List.mem_reverse]

end Core6502.Machine
