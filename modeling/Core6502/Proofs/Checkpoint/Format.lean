import Core6502.Checkpoint
import Core6502.Proofs.Checkpoint.Reading

/-!
# The binary form of a checkpoint

The form of a checkpoint reads back, whatever follows it, and no part of it is enough. A row of
bytes can be read exactly if it is as long as its head announces, and what is read has the front of
the row as its form. So no form is the front of another. All this comes from the two descriptions
of the reading: `read_eq_some_iff` says what is read, `takes_read` how many bytes it takes.
-/

namespace Core6502

namespace Checkpoint

variable {bytes rest : List UInt8} {k : Nat} {c c' : Checkpoint}

/-! ## Writing -/

/-- The form as its fields from first to last. -/
theorem encode_append (c : Checkpoint) (rest : List UInt8) :
    c.encode ++ rest =
      c.a :: c.x :: c.y :: (LittleEndian.encode 2 c.pc.toNat ++ (c.sp :: c.status ::
        (LittleEndian.encode 8 c.cycles.toNat ++ (LittleEndian.encode 8 c.ram.size ++
          (c.ram.data.toList ++ rest))))) := by
  simp only [encode, head, List.append_assoc, List.cons_append, List.nil_append]

theorem length_encode (c : Checkpoint) : c.encode.length = 23 + c.ram.size := by
  have hram : c.ram.data.toList.length = c.ram.size := rfl
  simp only [encode, head, List.length_append, List.length_cons, List.length_nil,
    LittleEndian.length_encode, hram]

/-- The number of memory bytes that a form announces. -/
def announced (bytes : List UInt8) : Nat := LittleEndian.decode ((bytes.drop 15).take 8)

theorem announced_encode_append (hsize : c.ram.size < UInt64.size) (rest : List UInt8) :
    announced (c.encode ++ rest) = c.ram.size := by
  have hfields : c.encode ++ rest =
      [c.a, c.x, c.y] ++ LittleEndian.encode 2 c.pc.toNat ++ [c.sp, c.status] ++
        LittleEndian.encode 8 c.cycles.toNat ++
          (LittleEndian.encode 8 c.ram.size ++ (c.ram.data.toList ++ rest)) := by
    simp only [encode_append, List.append_assoc, List.cons_append, List.nil_append]
  rw [announced, hfields, List.drop_left']
  · exact LittleEndian.decode_take_encode_append hsize _
  · simp only [List.length_append, LittleEndian.length_encode, List.length_cons, List.length_nil]

/-! ## Reading -/

theorem read_eq_some_iff :
    read bytes = some (c, rest) ↔ c.ram.size < UInt64.size ∧ bytes = c.encode ++ rest := by
  simp only [read, ByteReader.bind_eq_some_iff, ByteReader.pure_eq_some_iff,
    ByteReader.byte_eq_some_iff, ByteReader.word_eq_some_iff, ByteReader.long_eq_some_iff,
    ByteReader.row_eq_some_iff]
  constructor
  · rintro ⟨a, _, rfl, x, _, rfl, y, _, rfl, pc, _, rfl, sp, _, rfl, status, _, rfl, cycles, _, rfl,
      ram, _, ⟨hsize, rfl⟩, rfl, rfl⟩
    exact ⟨hsize, by rw [encode_append]⟩
  · rintro ⟨hsize, rfl⟩
    rw [encode_append]
    exact ⟨_, _, rfl, _, _, rfl, _, _, rfl, _, _, rfl, _, _, rfl, _, _, rfl, _, _, rfl,
      _, _, ⟨hsize, rfl⟩, rfl, rfl⟩

theorem takes_read (bytes : List UInt8) : ByteReader.Takes read bytes (23 + announced bytes) := by
  have h := (ByteReader.takes_byte bytes).bind fun a _ =>
    (ByteReader.takes_byte _).bind fun x _ =>
    (ByteReader.takes_byte _).bind fun y _ =>
    (ByteReader.takes_word _).bind fun pc _ =>
    (ByteReader.takes_byte _).bind fun sp _ =>
    (ByteReader.takes_byte _).bind fun status _ =>
    (ByteReader.takes_long _).bind fun cycles _ =>
    (ByteReader.takes_row _).map fun ram =>
      ({ a, x, y, pc, sp, status, cycles, ram } : Checkpoint)
  simp only [List.drop_drop, ← Nat.add_assoc, Nat.reduceAdd] at h
  exact h

theorem decode_of_read (h : read bytes = some (c, rest)) : decode bytes = .ok c := by
  rw [decode, h]

theorem decode_of_read_eq_none (h : read bytes = none) : decode bytes = .error .tooShort := by
  rw [decode, h]

theorem read_of_decode (h : decode bytes = .ok c) : ∃ rest, read bytes = some (c, rest) := by
  cases hread : read bytes with
  | none =>
      rw [decode_of_read_eq_none hread] at h
      cases h
  | some p =>
      rw [decode_of_read hread] at h
      exact ⟨p.2, by rw [← Except.ok.inj h]⟩

theorem decode_encode_append (hsize : c.ram.size < UInt64.size) (rest : List UInt8) :
    decode (c.encode ++ rest) = .ok c :=
  decode_of_read (read_eq_some_iff.mpr ⟨hsize, rfl⟩)

theorem exists_decode_iff :
    (∃ c, decode bytes = .ok c) ↔ 23 ≤ bytes.length ∧ 23 + announced bytes ≤ bytes.length := by
  have htakes := takes_read bytes
  constructor
  · rintro ⟨c, hc⟩
    obtain ⟨rest, hread⟩ := read_of_decode hc
    have hle : 23 + announced bytes ≤ bytes.length := by
      by_contra hshort
      rw [htakes.fails (Nat.lt_of_not_le hshort)] at hread
      cases hread
    exact ⟨Nat.le_trans (Nat.le_add_right 23 _) hle, hle⟩
  · rintro ⟨-, hle⟩
    obtain ⟨c, hread⟩ := htakes.reads hle
    exact ⟨c, decode_of_read hread⟩

theorem encode_of_decode (h : decode bytes = .ok c) :
    c.encode = bytes.take (23 + announced bytes) := by
  obtain ⟨rest, hread⟩ := read_of_decode h
  obtain ⟨hsize, rfl⟩ := read_eq_some_iff.mp hread
  rw [announced_encode_append hsize, List.take_left' (length_encode c)]

/-- A form that begins another is the whole of it: reading the longer one would give both. -/
theorem eq_of_encode_prefix (hsize : c.ram.size < UInt64.size) (hsize' : c'.ram.size < UInt64.size)
    (h : c.encode <+: c'.encode) : c = c' := by
  obtain ⟨rest, hrest⟩ := h
  have hc := decode_encode_append hsize rest
  have hc' := decode_encode_append hsize' []
  rw [hrest] at hc
  rw [List.append_nil, hc] at hc'
  exact Except.ok.inj hc'

theorem decode_take (hsize : c.ram.size < UInt64.size) (h : k < c.encode.length) :
    decode (c.encode.take k) = .error .tooShort := by
  refine decode_of_read_eq_none (Option.eq_none_iff_forall_ne_some.mpr ?_)
  rintro ⟨c', rest⟩ hread
  obtain ⟨hsize', htake⟩ := read_eq_some_iff.mp hread
  have hfront : c'.encode <+: c.encode.take k := ⟨rest, htake.symm⟩
  obtain rfl : c' = c := eq_of_encode_prefix hsize' hsize (hfront.trans (List.take_prefix k _))
  have hle := hfront.length_le
  rw [List.length_take] at hle
  omega

/-- The layout of the binary form, that reading undoes writing and the converse, and that no proper
front of a form is a form. The numbers in the form have their bytes in ascending order. -/
theorem binary_form :
    (∀ c : Checkpoint,
      c.encode = [c.a, c.x, c.y, Word.low c.pc, Word.high c.pc, c.sp, c.status] ++
        (List.range 8).map (fun i => UInt8.ofNat (c.cycles.toNat / 256 ^ i)) ++
        (List.range 8).map (fun i => UInt8.ofNat (c.ram.size / 256 ^ i)) ++ c.ram.data.toList) ∧
    (∀ c : Checkpoint, c.ram.size < UInt64.size →
      (∀ rest, decode (c.encode ++ rest) = .ok c) ∧
      ∀ k < c.encode.length, decode (c.encode.take k) = .error .tooShort) ∧
    (∀ bytes : List UInt8,
      let n := Nat.ofDigits 256 (((bytes.drop 15).take 8).map UInt8.toNat)
      ((∃ c, decode bytes = .ok c) ↔ 23 ≤ bytes.length ∧ 23 + n ≤ bytes.length) ∧
      ∀ c, decode bytes = .ok c → c.encode = bytes.take (23 + n)) ∧
    ∀ c c' : Checkpoint, c.ram.size < UInt64.size → c'.ram.size < UInt64.size →
      (c.encode = c'.encode → c = c') ∧ (c.encode <+: c'.encode → c = c') := by
  refine ⟨fun c => ?_, fun c hsize => ⟨decode_encode_append hsize, fun k => decode_take hsize⟩,
    fun bytes => ?_, fun c c' hsize hsize' => ⟨fun h => ?_, eq_of_encode_prefix hsize hsize'⟩⟩
  · rw [← LittleEndian.encode_eq_map_range, ← LittleEndian.encode_eq_map_range, encode, head,
      LittleEndian.encode_word]
    rfl
  · have hannounced :
        announced bytes = Nat.ofDigits 256 (((bytes.drop 15).take 8).map UInt8.toNat) :=
      LittleEndian.decode_eq_ofDigits _
    rw [← hannounced]
    exact ⟨exists_decode_iff, fun c => encode_of_decode⟩
  · exact eq_of_encode_prefix hsize hsize' (h ▸ List.prefix_refl _)

/-- Two bytes of memory: a byte more is ignored, and a byte less is not enough. -/
theorem binary_form_two_bytes :
    let c : Checkpoint := ⟨1, 2, 3, 0x8000, 0xFD, 0x24, 7, ⟨#[0xE8, 0x00]⟩⟩
    c.ram.size < UInt64.size ∧ 24 < c.encode.length ∧
      c.encode = [1, 2, 3, 0x00, 0x80, 0xFD, 0x24, 7, 0, 0, 0, 0, 0, 0, 0, 2, 0, 0, 0, 0, 0, 0, 0,
        0xE8, 0x00] ∧
      decode (c.encode ++ [9]) = .ok c ∧ decode (c.encode.take 24) = .error .tooShort ∧
      c.encode = (c.encode ++ [9]).take 25 ∧
      ∀ c' : Checkpoint, c'.ram.size < UInt64.size → c.encode <+: c'.encode → c = c' := by
  intro c
  have hsize : c.ram.size < UInt64.size := by decide
  have hlength : 24 < c.encode.length := by decide
  obtain ⟨hlayout, hreads, hexact, hfront⟩ := binary_form
  have hread := (hreads c hsize).1 [9]
  have hbytes : Nat.ofDigits 256 ((((c.encode ++ [9]).drop 15).take 8).map UInt8.toNat) = 2 := by
    rw [← LittleEndian.decode_eq_ofDigits]
    exact announced_encode_append hsize [9]
  have hfrom := (hexact _).2 c hread
  rw [hbytes] at hfrom
  refine ⟨hsize, hlength, (hlayout c).trans ?_, hread, (hreads c hsize).2 24 hlength, hfrom,
    fun c' hsize' => (hfront c c' hsize hsize').2⟩
  decide

end Checkpoint

end Core6502
