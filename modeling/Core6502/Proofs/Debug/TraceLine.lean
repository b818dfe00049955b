import Core6502.Debug.Trace
import Core6502.Proofs.Tiling
import Mathlib.Algebra.BigOperators.Group.List.Lemmas

/-!
# What a trace line shows

A trace line has its parts in fixed columns, the cycle count last, so each part can be cut out of it
without reading the others. Numbers are written in one way only and a byte never begins with a
blank, so a line belongs to one program counter, one row of instruction bytes, one set of registers
and one cycle count.
-/

namespace Core6502

/-! ## Hexadecimal numbers -/

namespace Hex

variable {m n : Nat}

/-- A number in hexadecimal with letters in upper case, filled up with zeros to a width. -/
def padded (width n : Nat) : List Char :=
  ((Nat.toDigits 16 n).map Char.toUpper).leftpad width '0'

theorem padded_of_lt (h : n < 16) (width : Nat) :
    padded (width + 1) n = List.replicate width '0' ++ [digit n] := by
  rw [padded, Nat.toDigits_of_lt_base h]
  rfl

theorem padded_succ (width n : Nat) :
    padded (width + 2) n = padded (width + 1) (n / 16) ++ [digit (n % 16)] := by
  by_cases h : n < 16
  · have hzero : digit 0 = '0' := rfl
    rw [padded_of_lt h, Nat.div_eq_of_lt h, padded_of_lt (by decide), Nat.mod_eq_of_lt h, hzero,
      List.replicate_succ']
  · rw [padded, Nat.toDigits_of_base_le (by decide) (Nat.le_of_not_lt h), padded, List.leftpad,
      List.leftpad, List.map_append, List.length_append, List.append_assoc]
    congr 2
    simp

theorem padded_two (v : UInt8) : padded 2 v.toNat = byte v := by
  have hv := v.toNat_lt
  rw [padded_succ, padded_of_lt (by omega)]
  rfl

theorem padded_four (w : UInt16) : padded 4 w.toNat = word w := by
  have hw := w.toNat_lt
  have hhigh : w.toNat / 16 / 16 = (Word.high w).toNat := by
    rw [Word.toNat_high]
    omega
  have hlow : w.toNat % 16 = (Word.low w).toNat % 16 ∧
      w.toNat / 16 % 16 = (Word.low w).toNat / 16 := by
    rw [Word.toNat_low]
    omega
  rw [padded_succ, padded_succ, hhigh, padded_two, hlow.1, hlow.2, List.append_assoc]
  rfl

theorem digit_inj (hm : m < 16) (hn : n < 16) (h : digit m = digit n) : m = n := by
  have hall : ∀ m < 16, ∀ n < 16, digit m = digit n → m = n := by decide
  exact hall m hm n hn h

theorem digit_ne_blank (h : n < 16) : digit n ≠ ' ' := by
  revert n
  decide

theorem byte_inj {u v : UInt8} (h : byte u = byte v) : u = v := by
  have hu := u.toNat_lt
  have hv := v.toNat_lt
  obtain ⟨hhigh, hlow⟩ : digit (u.toNat / 16) = digit (v.toNat / 16) ∧
      digit (u.toNat % 16) = digit (v.toNat % 16) := by
    simpa [byte] using h
  have hdiv := digit_inj (by omega) (by omega) hhigh
  have hmod := digit_inj (by omega) (by omega) hlow
  apply UInt8.toNat_inj.mp
  omega

theorem word_inj {u v : UInt16} (h : word u = word v) : u = v := by
  obtain ⟨hhigh, hlow⟩ := List.append_inj h rfl
  rw [← Word.ofBytes_low_high u, ← Word.ofBytes_low_high v, byte_inj hhigh, byte_inj hlow]

end Hex

/-! ## The parts of a line -/

theorem Operation.length_mnemonic (op : Operation) : op.mnemonic.toList.length = 3 := by
  cases op <;> decide

theorem Status.toByte_inj {s t : Status} (h : s.toByte = t.toByte) : s = t := by
  rw [← ofByte_toByte s, h, ofByte_toByte]

theorem Registers.length_line (r : Registers) : r.line.length = 25 := by
  simp only [line, List.length_append, Hex.length_byte, List.length_cons, List.length_nil]

theorem Hex.append_byte_inj {xs ys name : List Char} {u v : UInt8}
    (h : xs ++ name ++ byte u = ys ++ name ++ byte v) : xs = ys ∧ u = v := by
  obtain ⟨hnamed, hbyte⟩ := List.append_inj' h rfl
  exact ⟨List.append_cancel_right hnamed, byte_inj hbyte⟩

theorem Registers.line_inj {r s : Registers} (h : r.line = s.line) : r = s := by
  -- the line is put together from the left, so the last register comes off first
  obtain ⟨h, hsp⟩ := Hex.append_byte_inj h
  obtain ⟨h, hstatus⟩ := Hex.append_byte_inj h
  obtain ⟨h, hy⟩ := Hex.append_byte_inj h
  obtain ⟨h, hx⟩ := Hex.append_byte_inj h
  have ha := Hex.byte_inj (List.append_cancel_left h)
  calc r = ⟨r.a, r.x, r.y, r.sp, r.status⟩ := rfl
    _ = s := by rw [ha, hx, hy, hsp, Status.toByte_inj hstatus]

namespace TraceEntry

variable {bytes others : List UInt8} {line : List Char} {m other : Machine}

/-- A byte as it stands in a row of bytes, with the blank that divides it from the next one. -/
def cell (v : UInt8) : List Char := Hex.byte v ++ [' ']

theorem bytesText_cons_cons (v w : UInt8) (bytes : List UInt8) :
    bytesText (v :: w :: bytes) = cell v ++ bytesText (w :: bytes) :=
  List.intercalate_cons_cons

theorem bytesText_append_blank (h : bytes ≠ []) :
    bytesText bytes ++ [' '] = bytes.flatMap cell := by
  induction bytes with
  | nil => exact absurd rfl h
  | cons v bytes ih =>
      cases bytes with
      | nil => rfl
      | cons w bytes =>
          rw [bytesText_cons_cons, List.append_assoc, ih (List.cons_ne_nil w bytes),
            List.flatMap_cons (x := v)]

theorem length_flatMap_cell (bytes : List UInt8) :
    (bytes.flatMap cell).length = 3 * bytes.length := by
  induction bytes with
  | nil => rfl
  | cons v bytes ih =>
      have hcell : (cell v).length = 3 := rfl
      rw [List.flatMap_cons, List.length_append, hcell, ih, List.length_cons, Nat.mul_succ,
        Nat.add_comm]

theorem length_bytesText_le (h : bytes.length ≤ 3) : (bytesText bytes).length ≤ bytesWidth := by
  cases bytes with
  | nil => exact Nat.zero_le _
  | cons v bytes =>
      have hlength := congrArg List.length (bytesText_append_blank (List.cons_ne_nil v bytes))
      rw [length_flatMap_cell, List.length_append, List.length_singleton] at hlength
      rw [bytesWidth]
      omega

/-- A row of bytes filled up with blanks, and one blank more. -/
theorem exists_rightpad_append_blank (width : Nat) (bytes : List UInt8) :
    ∃ k, (bytesText bytes).rightpad width ' ' ++ [' '] =
      bytes.flatMap cell ++ List.replicate k ' ' := by
  rw [List.rightpad, List.append_assoc, ← List.replicate_succ']
  by_cases h : bytes = []
  · subst h
    exact ⟨_, rfl⟩
  · rw [List.replicate_succ, ← List.singleton_append, ← List.append_assoc,
      bytesText_append_blank h]
    exact ⟨_, rfl⟩

theorem cell_append_ne_replicate (v : UInt8) (rest : List Char) (j : Nat) :
    cell v ++ rest ≠ List.replicate j ' ' := by
  intro heq
  have hv := v.toNat_lt
  have hmem : Hex.digit (v.toNat / 16) ∈ List.replicate j ' ' := heq ▸ List.mem_cons_self
  exact Hex.digit_ne_blank (by omega) (List.eq_of_mem_replicate hmem)

/-- Filling a row of bytes up with blanks loses nothing, since no byte begins with one. -/
theorem flatMap_cell_append_inj {j k : Nat}
    (h : bytes.flatMap cell ++ List.replicate j ' ' = others.flatMap cell ++ List.replicate k ' ') :
    bytes = others := by
  induction bytes generalizing others with
  | nil =>
      cases others with
      | nil => rfl
      | cons w others =>
          rw [List.flatMap_cons, List.append_assoc] at h
          exact absurd h.symm (cell_append_ne_replicate w _ j)
  | cons v bytes ih =>
      cases others with
      | nil =>
          rw [List.flatMap_cons, List.append_assoc] at h
          exact absurd h (cell_append_ne_replicate v _ k)
      | cons w others =>
          rw [List.flatMap_cons, List.flatMap_cons, List.append_assoc, List.append_assoc] at h
          obtain ⟨hcell, hrest⟩ := List.append_inj h rfl
          rw [Hex.byte_inj (List.append_cancel_right hcell), ih hrest]

theorem rightpad_bytesText_inj {width : Nat}
    (h : (bytesText bytes).rightpad width ' ' = (bytesText others).rightpad width ' ') :
    bytes = others := by
  obtain ⟨j, hbytes⟩ := exists_rightpad_append_blank width bytes
  obtain ⟨k, hothers⟩ := exists_rightpad_append_blank width others
  rw [h] at hbytes
  exact flatMap_cell_append_inj (hbytes.symm.trans hothers)

/-! ## Columns -/

/-- The parts of a line, in order. -/
def parts (e : TraceEntry) : List (List Char) :=
  [Hex.word e.pc, [' ', ' '], (bytesText e.bytes).rightpad bytesWidth ' ', [' ', ' '],
    e.mnemonic.toList, [' ', ' '], e.registers.line, [' ', 'C', 'Y', 'C', ':'],
    Nat.toDigits 10 e.cycles.toNat]

theorem flatten_parts (e : TraceEntry) : e.parts.flatten = e.line := by
  simp only [parts, line, List.flatten_cons, List.flatten_nil, List.append_nil, List.append_assoc]

/-- The columns of a line from `first` on, up to `last` and without it. -/
def columns (first last : Nat) (line : List Char) : List Char := (line.take last).drop first

/-- What stands in which columns of the line for a machine. -/
structure Shows (line : List Char) (m : Machine) : Prop where
  pc : columns 0 4 line = Hex.padded 4 m.pc.toNat
  bytes : columns 6 14 line = ([' '].intercalate
    ((m.memory.row m.pc (Listing.sizeAt m.memory m.pc)).map fun v =>
      Hex.padded 2 v.toNat)).rightpad 8 ' '
  mnemonic : columns 16 19 line =
    (((decode (m.memory.read m.pc)).map fun i => i.operation.mnemonic).getD "???").toList
  registers : columns 21 46 line =
    "A:".toList ++ Hex.padded 2 m.registers.a.toNat ++
      " X:".toList ++ Hex.padded 2 m.registers.x.toNat ++
      " Y:".toList ++ Hex.padded 2 m.registers.y.toNat ++
      " P:".toList ++ Hex.padded 2 m.registers.status.toByte.toNat ++
      " SP:".toList ++ Hex.padded 2 m.registers.sp.toNat
  cycles : line.drop 51 = Nat.toDigits 10 m.cycles.toNat
  between : columns 4 6 line = [' ', ' '] ∧ columns 14 16 line = [' ', ' '] ∧
    columns 19 21 line = [' ', ' '] ∧ columns 46 51 line = " CYC:".toList

theorem mnemonic_ofMachine (m : Machine) : (ofMachine m).mnemonic =
    ((decode (m.memory.read m.pc)).map fun i => i.operation.mnemonic).getD "???" := by
  rw [ofMachine]
  cases decode (m.memory.read m.pc) <;> rfl

theorem length_mnemonic_ofMachine (m : Machine) : (ofMachine m).mnemonic.toList.length = 3 := by
  rw [mnemonic_ofMachine]
  cases decode (m.memory.read m.pc) with
  | none => rfl
  | some i => exact i.operation.length_mnemonic

theorem length_bytes_ofMachine_le (m : Machine) : (ofMachine m).bytes.length ≤ 3 := by
  have hbytes : (ofMachine m).bytes = m.memory.row m.pc (Listing.sizeAt m.memory m.pc) := rfl
  rw [hbytes, Memory.length_row]
  exact Listing.size_le _

/-- The widths of the parts; only the last depends on the machine. -/
def widths (m : Machine) : List Nat :=
  [4, 2, 8, 2, 3, 2, 25, 5, (Nat.toDigits 10 m.cycles.toNat).length]

theorem map_length_parts (m : Machine) : (ofMachine m).parts.map List.length = widths m := by
  have hbytes := length_bytesText_le (length_bytes_ofMachine_le m)
  simp only [parts, List.map_cons, List.map_nil, List.length_rightpad, Nat.max_eq_left hbytes,
    Hex.length_word, length_mnemonic_ofMachine, Registers.length_line]
  rfl

theorem drop_line (m : Machine) :
    (ofMachine m).line.drop 51 = Nat.toDigits 10 m.cycles.toNat := by
  have hdrop := List.drop_sum_flatten (ofMachine m).parts 8
  rw [map_length_parts, flatten_parts] at hdrop
  exact hdrop.trans (List.append_nil _)

theorem intercalate_padded (bytes : List UInt8) :
    [' '].intercalate (bytes.map fun v => Hex.padded 2 v.toNat) = bytesText bytes := by
  rw [bytesText, List.map_congr_left fun v _ => Hex.padded_two v]

theorem shows_line (m : Machine) : Shows (ofMachine m).line m := by
  -- a part stands between the sums of the widths before it and up to it
  have hpart (k : Nat) (part : List Char) (h : (ofMachine m).parts[k]? = some part) :
      columns ((widths m).take k).sum ((widths m).take (k + 1)).sum (ofMachine m).line = part := by
    obtain ⟨hk, rfl⟩ := List.getElem?_eq_some_iff.mp h
    rw [columns, ← map_length_parts, ← flatten_parts]
    exact List.drop_take_succ_flatten_eq_getElem (ofMachine m).parts k hk
  have hbytes : columns 6 14 (ofMachine m).line =
      (bytesText (ofMachine m).bytes).rightpad bytesWidth ' ' := hpart 2 _ rfl
  have hmnemonic : columns 16 19 (ofMachine m).line = (ofMachine m).mnemonic.toList :=
    hpart 4 _ rfl
  have hregisters : columns 21 46 (ofMachine m).line = m.registers.line := hpart 6 _ rfl
  refine ⟨(hpart 0 _ rfl).trans (Hex.padded_four m.pc).symm, ?_, ?_, ?_, drop_line m,
    hpart 1 _ rfl, hpart 3 _ rfl, hpart 5 _ rfl, hpart 7 _ rfl⟩
  · rw [intercalate_padded]
    exact hbytes
  · rw [← mnemonic_ofMachine]
    exact hmnemonic
  · simp only [Hex.padded_two]
    exact hregisters

/-! ## Lines and machines -/

theorem toDigits_ten_inj {j k : Nat} (h : Nat.toDigits 10 j = Nat.toDigits 10 k) : j = k := by
  rw [← Nat.ofDigitChars_ten_toDigits (n := j), h, Nat.ofDigitChars_ten_toDigits]

theorem eq_zero_of_head?_toDigits {n : Nat} (h : (Nat.toDigits 10 n).head? = some '0') : n = 0 := by
  induction n using Nat.strong_induction_on with
  | _ n ih =>
      by_cases hlt : n < 10
      · rw [Nat.toDigits_of_lt_base hlt] at h
        exact Nat.digitChar_eq_zero.mp (Option.some.inj h)
      · -- the first digit is that of the number without its last one, which is not zero
        have hle : 10 ≤ n := Nat.le_of_not_lt hlt
        rw [Nat.toDigits_of_base_le (by decide) hle,
          List.head?_append_of_ne_nil _ Nat.toDigits_ne_nil] at h
        have hzero := ih (n / 10) (by omega) h
        omega

/-- A line shows at most one program counter, row of bytes, set of registers and cycle count. -/
theorem Shows.unique (hm : Shows line m) (hother : Shows line other) :
    other.pc = m.pc ∧
      Listing.encoding other.memory other.pc = Listing.encoding m.memory m.pc ∧
      other.registers = m.registers ∧ other.cycles = m.cycles := by
  have hpc := hother.pc.symm.trans hm.pc
  have hbytes := hother.bytes.symm.trans hm.bytes
  have hregisters := hother.registers.symm.trans hm.registers
  have hcycles := hother.cycles.symm.trans hm.cycles
  rw [Hex.padded_four, Hex.padded_four] at hpc
  rw [intercalate_padded, intercalate_padded] at hbytes
  simp only [Hex.padded_two] at hregisters
  exact ⟨Hex.word_inj hpc, rightpad_bytesText_inj hbytes, Registers.line_inj hregisters,
    UInt64.toNat_inj.mp (toDigits_ten_inj hcycles)⟩

/-- A trace line has its columns whatever the instruction, also where its bytes go round the address
space, and two machines with the same line agree in all that it shows. -/
theorem text_columns (m : Machine) :
    let line := (ofMachine m).text.toList
    let size := Listing.sizeAt m.memory m.pc
    Shows line m ∧ (1 ≤ size ∧ size ≤ 3) ∧ 51 < line.length ∧
      ((line.drop 51).head? = some '0' → m.cycles = 0) ∧
      ∀ other : Machine, (ofMachine other).text = (ofMachine m).text →
        other.pc = m.pc ∧
        Listing.encoding other.memory other.pc = Listing.encoding m.memory m.pc ∧
        other.registers = m.registers ∧ other.cycles = m.cycles := by
  intro line size
  have htext (m : Machine) : Shows (ofMachine m).text.toList m := by
    rw [text, String.toList_ofList]
    exact shows_line m
  have hcycles : line.drop 51 = Nat.toDigits 10 m.cycles.toNat := (htext m).cycles
  refine ⟨htext m, ⟨Listing.size_pos _, Listing.size_le _⟩, ?_, fun hzero => ?_,
    fun other h => (htext m).unique (h ▸ htext other)⟩
  · by_contra hshort
    have hnil : line.drop 51 = [] := List.drop_eq_nil_of_le (Nat.le_of_not_lt hshort)
    exact Nat.toDigits_ne_nil (hcycles.symm.trans hnil)
  · rw [hcycles] at hzero
    exact UInt64.toNat_inj.mp (eq_zero_of_head?_toDigits hzero)

/-- A jump in the last cell, with its operand at the start of the space, in two machines that differ
in a cell that the line does not show. -/
theorem text_columns_wrapping :
    let memory := Memory.blank.load 0xFFFF [0x4C, 0xF5, 0xC5]
    let m : Machine := { pc := 0xFFFF, memory }
    let other : Machine := { pc := 0xFFFF, memory := memory.write 0x8000 1 }
    (ofMachine m).text = "FFFF  4C F5 C5  JMP  A:00 X:00 Y:00 P:00 SP:00 CYC:0" ∧
      ((ofMachine m).text.toList.drop 51).head? = some '0' ∧ m.cycles = 0 ∧
      (ofMachine other).text = (ofMachine m).text ∧
      other.pc = m.pc ∧
      Listing.encoding other.memory other.pc = Listing.encoding m.memory m.pc ∧
      other.registers = m.registers ∧ other.cycles = m.cycles := by
  intro memory m other
  have hjmp : Isa.lookup 0x4C = some ⟨0x4C, .jmp, .absolute, 3⟩ := by decide +kernel
  have hentry (memory : Memory) (hopcode : memory.read 0xFFFF = 0x4C)
      (hlow : memory.read 0 = 0xF5) (hhigh : memory.read 1 = 0xC5) :
      ofMachine { pc := 0xFFFF, memory } = ⟨0xFFFF, [0x4C, 0xF5, 0xC5], "JMP", {}, 0⟩ := by
    have hsize : Listing.sizeAt memory 0xFFFF = 3 :=
      (congrArg Listing.size hopcode).trans (Listing.size_of_lookup hjmp)
    have hbytes : Listing.encoding memory 0xFFFF = [0x4C, 0xF5, 0xC5] := by
      rw [Listing.encoding, hsize]
      simp [List.range_succ, hopcode, hlow, hhigh]
    rw [ofMachine]
    dsimp only
    rw [hbytes, hopcode, decode_eq_lookup, hjmp]
    rfl
  have hreads : memory.read 0xFFFF = 0x4C ∧ memory.read 0 = 0xF5 ∧ memory.read 1 = 0xC5 := by
    simp [memory, Memory.load, Memory.read_write]
  have hstay : ∀ a : UInt16, 0x8000 ≠ a → (memory.write 0x8000 1).read a = memory.read a :=
    fun _ => memory.read_write_of_ne 1
  obtain ⟨hopcode, hlow, hhigh⟩ := hreads
  have hm : ofMachine m = ⟨0xFFFF, [0x4C, 0xF5, 0xC5], "JMP", {}, 0⟩ :=
    hentry memory hopcode hlow hhigh
  have hother : ofMachine other = ⟨0xFFFF, [0x4C, 0xF5, 0xC5], "JMP", {}, 0⟩ :=
    hentry _ ((hstay _ (by decide)).trans hopcode) ((hstay _ (by decide)).trans hlow)
      ((hstay _ (by decide)).trans hhigh)
  have htext : (ofMachine m).text = "FFFF  4C F5 C5  JMP  A:00 X:00 Y:00 P:00 SP:00 CYC:0" := by
    rw [hm]
    decide +kernel
  have hzero : ((ofMachine m).text.toList.drop 51).head? = some '0' := by
    rw [htext]
    decide +kernel
  have hsame : (ofMachine other).text = (ofMachine m).text := by rw [hother, hm]
  obtain ⟨-, -, -, hcycles, hunique⟩ := text_columns m
  exact ⟨htext, hzero, hcycles hzero, hsame, hunique other hsame⟩

/-- The line for a byte that is no opcode, after power-on. -/
example : (⟨0x8000, [0x02], unknownMnemonic, { sp := 0xFD, status := .powerOn }, 7⟩ :
    TraceEntry).text = "8000  02        ???  A:00 X:00 Y:00 P:24 SP:FD CYC:7" := by
  decide +kernel

end TraceEntry

end Core6502
