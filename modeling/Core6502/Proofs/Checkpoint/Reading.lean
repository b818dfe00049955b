import Core6502.ByteReader
import Core6502.Proofs.Arithmetic.LittleEndian

/-!
# What readers accept

A reader is described from two sides: which rows of bytes it reads as which value, and how many
bytes it takes. The first says that reading undoes writing and the converse, the second also when
the reading fails. Both descriptions of a reading come from those of its parts.
-/

namespace Core6502

namespace ByteReader

variable {α β : Type} {r : ByteReader α} {f : α → ByteReader β} {l vs rest : List UInt8}
  {width n k : Nat}

theorem bind_of_eq_none (h : r l = none) : (r >>= f) l = none := by
  show (r l).bind (fun p => f p.1 p.2) = none
  rw [h, Option.bind_none]

theorem bind_of_eq_some {a : α} (h : r l = some (a, rest)) : (r >>= f) l = f a rest := by
  show (r l).bind (fun p => f p.1 p.2) = f a rest
  rw [h, Option.bind_some]

/-! ## Which values are read -/

theorem pure_eq_some_iff {a b : α} :
    (pure a : ByteReader α) l = some (b, rest) ↔ a = b ∧ l = rest := by
  show some (a, l) = some (b, rest) ↔ _
  rw [Option.some.injEq, Prod.mk.injEq]

theorem bind_eq_some_iff {b : β} :
    (r >>= f) l = some (b, rest) ↔
      ∃ a more, r l = some (a, more) ∧ f a more = some (b, rest) := by
  show (r l).bind (fun p => f p.1 p.2) = some (b, rest) ↔ _
  rw [Option.bind_eq_some_iff, Prod.exists]

theorem byte_eq_some_iff {v : UInt8} : byte l = some (v, rest) ↔ l = v :: rest := by
  cases l with
  | nil => simp [byte]
  | cons w l => simp [byte]

theorem bytes_eq_some_iff :
    bytes n l = some (vs, rest) ↔ vs.length = n ∧ l = vs ++ rest := by
  induction n generalizing l vs rest with
  | zero =>
      rw [bytes, pure_eq_some_iff, List.length_eq_zero_iff]
      constructor
      · rintro ⟨rfl, rfl⟩
        exact ⟨rfl, rfl⟩
      · rintro ⟨rfl, rfl⟩
        exact ⟨rfl, rfl⟩
  | succ n ih =>
      simp only [bytes, bind_eq_some_iff, pure_eq_some_iff, byte_eq_some_iff, ih]
      constructor
      · rintro ⟨v, _, rfl, ws, _, ⟨hlength, rfl⟩, rfl, rfl⟩
        exact ⟨congrArg (· + 1) hlength, rfl⟩
      · rintro ⟨hlength, rfl⟩
        obtain ⟨v, ws, rfl⟩ := List.exists_cons_of_length_eq_add_one hlength
        exact ⟨v, ws ++ rest, rfl, ws, rest, ⟨Nat.succ.inj hlength, rfl⟩, rfl, rfl⟩

theorem number_eq_some_iff :
    number width l = some (n, rest) ↔
      n < 256 ^ width ∧ l = LittleEndian.encode width n ++ rest := by
  simp only [number, bind_eq_some_iff, pure_eq_some_iff, bytes_eq_some_iff]
  constructor
  · rintro ⟨vs, _, ⟨rfl, rfl⟩, rfl, rfl⟩
    rw [LittleEndian.encode_decode]
    exact ⟨LittleEndian.decode_lt vs, rfl⟩
  · rintro ⟨hlt, rfl⟩
    refine ⟨_, _, ⟨LittleEndian.length_encode width n, rfl⟩, ?_, rfl⟩
    rw [LittleEndian.decode_encode, Nat.mod_eq_of_lt hlt]

theorem word_eq_some_iff {w : UInt16} :
    word l = some (w, rest) ↔ l = LittleEndian.encode 2 w.toNat ++ rest := by
  simp only [word, bind_eq_some_iff, pure_eq_some_iff, number_eq_some_iff]
  constructor
  · rintro ⟨n, _, ⟨hlt, rfl⟩, rfl, rfl⟩
    rw [UInt16.toNat_ofNat_of_lt' hlt]
  · rintro rfl
    exact ⟨w.toNat, rest, ⟨w.toNat_lt, rfl⟩, UInt16.ofNat_toNat, rfl⟩

theorem long_eq_some_iff {n : UInt64} :
    long l = some (n, rest) ↔ l = LittleEndian.encode 8 n.toNat ++ rest := by
  simp only [long, bind_eq_some_iff, pure_eq_some_iff, number_eq_some_iff]
  constructor
  · rintro ⟨n, _, ⟨hlt, rfl⟩, rfl, rfl⟩
    rw [UInt64.toNat_ofNat_of_lt' hlt]
  · rintro rfl
    exact ⟨n.toNat, rest, ⟨n.toNat_lt, rfl⟩, UInt64.ofNat_toNat, rfl⟩

theorem row_eq_some_iff {ram : ByteArray} :
    row l = some (ram, rest) ↔
      ram.size < UInt64.size ∧
        l = LittleEndian.encode 8 ram.size ++ (ram.data.toList ++ rest) := by
  simp only [row, bind_eq_some_iff, pure_eq_some_iff, long_eq_some_iff, bytes_eq_some_iff]
  constructor
  · rintro ⟨n, _, rfl, vs, _, ⟨hlength, rfl⟩, rfl, rfl⟩
    rw [List.size_toByteArray, List.toList_data_toByteArray, hlength]
    exact ⟨n.toNat_lt, rfl⟩
  · rintro ⟨hsize, rfl⟩
    have hn : (UInt64.ofNat ram.size).toNat = ram.size := UInt64.toNat_ofNat_of_lt' hsize
    refine ⟨.ofNat ram.size, _, by rw [hn], ram.data.toList, rest, ⟨hn.symm, rfl⟩, ?_, rfl⟩
    exact ByteArray.ext List.data_toByteArray

/-! ## How many bytes are taken -/

/-- Of a row of bytes the reader takes `n`, and fails if there are fewer. -/
structure Takes (r : ByteReader α) (l : List UInt8) (n : Nat) : Prop where
  fails : l.length < n → r l = none
  reads : n ≤ l.length → ∃ a, r l = some (a, l.drop n)

theorem takes_pure (a : α) (l : List UInt8) : Takes (pure a) l 0 where
  fails := fun h => absurd h (Nat.not_lt_zero _)
  reads := fun _ => ⟨a, rfl⟩

theorem takes_byte (l : List UInt8) : Takes byte l 1 := by
  cases l with
  | nil => exact ⟨fun _ => rfl, fun h => absurd h (Nat.not_succ_le_zero 0)⟩
  | cons v l => exact ⟨fun h => absurd h (by simp), fun _ => ⟨v, rfl⟩⟩

/-- Two readings, the second of which takes what the first left. -/
theorem Takes.bind (hr : Takes r l n)
    (hf : ∀ a, r l = some (a, l.drop n) → Takes (f a) (l.drop n) k) :
    Takes (r >>= f) l (n + k) := by
  have hlength : (l.drop n).length = l.length - n := List.length_drop
  constructor
  · intro hshort
    by_cases hle : n ≤ l.length
    · obtain ⟨a, ha⟩ := hr.reads hle
      rw [bind_of_eq_some ha]
      exact (hf a ha).fails (by omega)
    · exact bind_of_eq_none (hr.fails (by omega))
  · intro hle
    obtain ⟨a, ha⟩ := hr.reads (by omega)
    rw [bind_of_eq_some ha, ← List.drop_drop]
    exact (hf a ha).reads (by omega)

/-- What is made of a value takes no bytes. -/
theorem Takes.map (hr : Takes r l n) (g : α → β) : Takes (r >>= fun a => pure (g a)) l n :=
  hr.bind fun a _ => takes_pure (g a) _

theorem takes_bytes (n : Nat) (l : List UInt8) : Takes (bytes n) l n := by
  induction n generalizing l with
  | zero => exact takes_pure [] l
  | succ n ih =>
      rw [bytes, Nat.add_comm]
      exact (takes_byte l).bind fun v _ => (ih (l.drop 1)).map (v :: ·)

theorem takes_number (width : Nat) (l : List UInt8) : Takes (number width) l width :=
  (takes_bytes width l).map LittleEndian.decode

theorem takes_word (l : List UInt8) : Takes word l 2 := (takes_number 2 l).map UInt16.ofNat

theorem takes_long (l : List UInt8) : Takes long l 8 := (takes_number 8 l).map UInt64.ofNat

/-- A row takes the eight bytes of its length and as many as these say. -/
theorem takes_row (l : List UInt8) : Takes row l (8 + LittleEndian.decode (l.take 8)) := by
  refine (takes_long l).bind fun n hn => ?_
  have hsize : LittleEndian.decode (l.take 8) = n.toNat := by
    rw [long_eq_some_iff.mp hn]
    exact LittleEndian.decode_take_encode_append n.toNat_lt _
  rw [hsize]
  exact (takes_bytes n.toNat _).map List.toByteArray

end ByteReader

end Core6502
