import Core6502.Proofs.Runner.Groups
import Mathlib.Data.List.DropRight
import Mathlib.Data.Nat.Digits.Lemmas

/-!
# Which texts are numbers

The grammar of numerals, said without reading them: blanks, a mark that says the base, at most one
plus sign, and digits, whose number is their value by position. Reading accepts exactly these texts
and answers with that number if it is below the bound, so a number is read back from each of its
spellings.
-/

namespace Core6502

/-! ## Blanks at the ends -/

namespace Blank

variable {cs t front : List Char}

/-- What is left of a text when the blanks at both of its ends are taken away. -/
def Stripped (cs t : List Char) : Prop :=
  ∃ front back, cs = front ++ t ++ back ∧ (∀ c ∈ front ++ back, isBlank c = true) ∧
    ∀ c, t.head? = some c ∨ t.getLast? = some c → isBlank c = false

theorem trimStart_of_head? (h : ∀ c, t.head? = some c → isBlank c = false) : trimStart t = t := by
  cases t with
  | nil => rfl
  | cons c t => exact List.dropWhile_cons_of_neg (Bool.eq_false_iff.mp (h c rfl))

theorem trimStart_append (h : ∀ c ∈ front, isBlank c = true) (cs : List Char) :
    trimStart (front ++ cs) = trimStart cs :=
  List.dropWhile_append_of_pos h

theorem isBlank_head?_trimStart {c : Char} (h : (trimStart cs).head? = some c) :
    isBlank c = false := by
  have hhead := List.head?_dropWhile_not isBlank cs
  rw [trimStart] at h
  rw [h] at hhead
  exact hhead

theorem trim_eq_of_stripped (h : Stripped cs t) : trim cs = t := by
  obtain ⟨front, back, rfl, hblank, hends⟩ := h
  rw [List.forall_mem_append] at hblank
  have hback : ∀ c ∈ back.reverse, isBlank c = true := fun c hc =>
    hblank.2 c (List.mem_reverse.mp hc)
  have hlast : trimStart t.reverse = t.reverse := by
    refine trimStart_of_head? fun c hc => hends c (.inr ?_)
    rwa [List.head?_reverse] at hc
  cases t with
  | nil =>
      -- nothing but blanks: the first pass takes them all
      have hall : trimStart (front ++ [] ++ back) = [] :=
        List.dropWhile_eq_nil_iff.mpr (by simpa [or_imp, forall_and] using hblank)
      rw [trim, hall]
      rfl
  | cons c t =>
      have hfront : trimStart (front ++ (c :: t ++ back)) = c :: t ++ back := by
        rw [trimStart_append hblank.1]
        exact trimStart_of_head? fun d hd => hends d (.inl hd)
      rw [trim, List.append_assoc, hfront, List.reverse_append, trimStart_append hback, hlast,
        List.reverse_reverse]

theorem stripped_trim (cs : List Char) : Stripped cs (trim cs) := by
  have hstart : trim cs ++ (trimStart cs).rtakeWhile isBlank = trimStart cs :=
    List.rdropWhile_append_rtakeWhile
  refine ⟨cs.takeWhile isBlank, (trimStart cs).rtakeWhile isBlank, ?_, ?_, ?_⟩
  · rw [List.append_assoc, hstart]
    exact List.takeWhile_append_dropWhile.symm
  · rw [List.forall_mem_append]
    exact ⟨fun c hc => List.mem_takeWhile_imp hc, fun c hc => List.mem_rtakeWhile_imp hc⟩
  · rintro c (hfirst | hlast)
    · have hhead : (trimStart cs).head? = some c := by
        rw [← hstart, List.head?_append, hfirst, Option.some_or]
      exact isBlank_head?_trimStart hhead
    · rw [trim, List.getLast?_reverse] at hlast
      exact isBlank_head?_trimStart hlast

theorem isBlank_eq_false {c : Char} (hlow : 32 < c.toNat) (hhigh : c.toNat < 133) :
    isBlank c = false := by
  rw [isBlank, List.any_eq_false]
  simp only [ranges, List.forall_mem_cons, List.not_mem_nil, false_implies, implies_true, and_true,
    Bool.and_eq_true, decide_eq_true_eq]
  omega

end Blank

namespace Numeral

variable {base n v d : Nat} {c : Char} {cs : List Char} {text : String}

/-- A row of at least one digit, letters of either case, with the number that the digits have by
their positions. -/
def Digits (base : Nat) (cs : List Char) (n : Nat) : Prop :=
  ∃ ds : List Nat, ds ≠ [] ∧ (∀ d ∈ ds, d < base) ∧ cs.map Char.toLower = ds.map Nat.digitChar ∧
    n = Nat.ofDigits base ds.reverse

/-- What can stand in front of a numeral, with the base that it says. -/
def marks : List (List Char × Nat) := [([], 10), (['0', 'x'], 16), (['0', 'X'], 16), (['$'], 16)]

def signs : List (List Char) := [[], ['+']]

/-- A numeral for `n`: a mark, a sign, and digits of the base that the mark says. -/
def Denotes (cs : List Char) (n : Nat) : Prop :=
  ∃ mark base sign digits, (mark, base) ∈ marks ∧ sign ∈ signs ∧ cs = mark ++ sign ++ digits ∧
    Digits base digits n

/-! ## Digits -/

theorem toNat_toLower (c : Char) :
    c.toLower.toNat = if 65 ≤ c.toNat ∧ c.toNat ≤ 90 then c.toNat + 32 else c.toNat := by
  unfold Char.toLower
  split
  · next h =>
      have hupper : 65 ≤ c.toNat ∧ c.toNat ≤ 90 := h
      have hsum : (c.val + 32).toNat = (c.toNat + 32) % 2 ^ 32 := UInt32.toNat_add c.val 32
      rw [if_pos hupper, ← Nat.mod_eq_of_lt (show c.toNat + 32 < 2 ^ 32 by omega)]
      exact hsum
  · next h => exact (if_neg h).symm

theorem toNat_digitChar (h : d < 16) :
    d.digitChar.toNat = if d < 10 then 48 + d else 87 + d := by
  revert d
  decide

theorem digitValue?_eq (c : Char) :
    digitValue? c =
      if 48 ≤ c.toNat ∧ c.toNat ≤ 57 then some (c.toNat - 48)
      else if 97 ≤ c.toNat ∧ c.toNat ≤ 102 then some (c.toNat - 97 + 10)
      else if 65 ≤ c.toNat ∧ c.toNat ≤ 70 then some (c.toNat - 65 + 10)
      else none := by
  have hle (a b : Char) : a ≤ b ↔ a.toNat ≤ b.toNat := Iff.rfl
  simp only [digitValue?, hle]
  rfl

/-- The characters of a digit are those that `Nat.digitChar` gives, and their upper-case forms. -/
theorem digitValue?_eq_some_iff (h : d < 16) :
    digitValue? c = some d ↔ c.toLower = d.digitChar := by
  rw [← Char.toNat_inj, toNat_toLower, toNat_digitChar h, digitValue?_eq]
  split_ifs <;> simp only [Option.some.injEq, false_iff] <;> omega

theorem digitIn?_eq_some_iff (hbase : base ≤ 16) :
    digitIn? base c = some d ↔ d < base ∧ c.toLower = d.digitChar := by
  rw [digitIn?, Option.filter_eq_some_iff, decide_eq_true_iff, and_comm]
  exact and_congr_right fun hd => digitValue?_eq_some_iff (Nat.lt_of_lt_of_le hd hbase)

theorem ofDigits_reverse (base : Nat) (ds : List Nat) :
    Nat.ofDigits base ds.reverse = ds.foldl (fun n d => n * base + d) 0 := by
  rw [Nat.ofDigits_eq_foldr, List.foldr_reverse]
  congr
  funext n d
  rw [Nat.cast_id, Nat.mul_comm, Nat.add_comm]

theorem appendDigits?_eq_some_iff (hbase : base ≤ 16) :
    appendDigits? base n cs = some v ↔
      ∃ ds : List Nat, (∀ d ∈ ds, d < base) ∧ cs.map Char.toLower = ds.map Nat.digitChar ∧
        v = ds.foldl (fun n d => n * base + d) n := by
  -- the number already read changes at each digit
  induction cs generalizing n with
  | nil =>
      rw [appendDigits?, Option.some.injEq]
      constructor
      · rintro rfl
        exact ⟨[], List.forall_mem_nil _, rfl, rfl⟩
      · rintro ⟨ds, -, hds, rfl⟩
        obtain rfl : ds = [] := List.map_eq_nil_iff.mp hds.symm
        rfl
  | cons c cs ih =>
      rw [appendDigits?, Option.bind_eq_some_iff]
      constructor
      · rintro ⟨d, hd, hcs⟩
        obtain ⟨hlt, hc⟩ := (digitIn?_eq_some_iff hbase).mp hd
        obtain ⟨ds, hds, hmap, rfl⟩ := ih.mp hcs
        refine ⟨d :: ds, List.forall_mem_cons.mpr ⟨hlt, hds⟩, ?_, rfl⟩
        rw [List.map_cons, List.map_cons, hc, hmap]
      · rintro ⟨ds, hds, hmap, rfl⟩
        obtain ⟨d, ds, rfl, hc, hmap⟩ := List.map_eq_cons_iff.mp hmap.symm
        rw [List.forall_mem_cons] at hds
        exact ⟨d, (digitIn?_eq_some_iff hbase).mpr ⟨hds.1, hc.symm⟩,
          ih.mpr ⟨ds, hds.2, hmap.symm, rfl⟩⟩

theorem digits?_eq_some_iff (hbase : base ≤ 16) :
    digits? base cs = some n ↔ Digits base cs n := by
  cases cs with
  | nil =>
      constructor
      · intro h
        cases h
      · rintro ⟨ds, hne, -, hmap, -⟩
        exact absurd (List.map_eq_nil_iff.mp hmap.symm) hne
  | cons c cs =>
      rw [digits?, appendDigits?_eq_some_iff hbase]
      · constructor
        · rintro ⟨ds, hds, hmap, hn⟩
          refine ⟨ds, ?_, hds, hmap, hn.trans (ofDigits_reverse base ds).symm⟩
          rintro rfl
          cases hmap
        · rintro ⟨ds, -, hds, hmap, hn⟩
          exact ⟨ds, hds, hmap, hn.trans (ofDigits_reverse base ds)⟩
      · exact fun h => nomatch h

/-! ## Numerals -/

theorem digits?_plus (base : Nat) (cs : List Char) : digits? base ('+' :: cs) = none := rfl

theorem signed?_eq_some_iff (hbase : base ≤ 16) :
    signed? base cs = some n ↔
      ∃ sign ∈ signs, ∃ digits, cs = sign ++ digits ∧ Digits base digits n := by
  constructor
  · intro h
    unfold signed? at h
    split at h
    · next digits => exact ⟨['+'], by decide, digits, rfl, (digits?_eq_some_iff hbase).mp h⟩
    · exact ⟨[], by decide, cs, rfl, (digits?_eq_some_iff hbase).mp h⟩
  · rintro ⟨sign, hsign, digits, rfl, hdigits⟩
    rw [← digits?_eq_some_iff hbase] at hdigits
    rw [signs, List.mem_pair] at hsign
    rcases hsign with rfl | rfl
    · rw [List.nil_append]
      unfold signed?
      split
      · next cs =>
          rw [digits?_plus] at hdigits
          cases hdigits
      · exact hdigits
    · exact hdigits

/-- No decimal numeral begins as a mark does. -/
theorem value?_of_signed? (h : signed? 10 cs = some n) : value? cs = some n := by
  unfold value?
  split
  · next rest => exact nomatch (h : none = some n)
  · next rest => exact nomatch (h : none = some n)
  · next rest => exact nomatch (h : none = some n)
  · exact h

theorem le_of_mem_marks {mark : List Char} (h : (mark, base) ∈ marks) : base ≤ 16 := by
  have hall : ∀ entry ∈ marks, entry.2 ≤ 16 := by decide
  exact hall _ h

theorem value?_eq_some_iff : value? cs = some n ↔ Denotes cs n := by
  constructor
  · intro h
    obtain ⟨mark, base, rest, hmark, rfl, hrest⟩ :
        ∃ mark base rest, (mark, base) ∈ marks ∧ cs = mark ++ rest ∧
          signed? base rest = some n := by
      unfold value? at h
      split at h
      · next rest => exact ⟨['0', 'x'], 16, rest, by decide, rfl, h⟩
      · next rest => exact ⟨['0', 'X'], 16, rest, by decide, rfl, h⟩
      · next rest => exact ⟨['$'], 16, rest, by decide, rfl, h⟩
      · exact ⟨[], 10, cs, by decide, rfl, h⟩
    obtain ⟨sign, hsign, digits, rfl, hdigits⟩ :=
      (signed?_eq_some_iff (le_of_mem_marks hmark)).mp hrest
    exact ⟨mark, base, sign, digits, hmark, hsign, (List.append_assoc ..).symm, hdigits⟩
  · rintro ⟨mark, base, sign, digits, hmark, hsign, rfl, hdigits⟩
    have h : signed? base (sign ++ digits) = some n :=
      (signed?_eq_some_iff (le_of_mem_marks hmark)).mpr ⟨sign, hsign, digits, rfl, hdigits⟩
    rw [List.append_assoc]
    simp only [marks, List.mem_cons, List.not_mem_nil, or_false, Prod.mk.injEq] at hmark
    rcases hmark with ⟨rfl, rfl⟩ | ⟨rfl, rfl⟩ | ⟨rfl, rfl⟩ | ⟨rfl, rfl⟩
    · exact value?_of_signed? h
    · exact h
    · exact h
    · exact h

/-! ## Spellings of a number -/

theorem toDigits_eq_map (hbase : 1 < base) (n : Nat) :
    ∃ ds : List Nat, ds ≠ [] ∧ (∀ d ∈ ds, d < base) ∧
      Nat.toDigits base n = ds.map Nat.digitChar ∧ n = Nat.ofDigits base ds.reverse := by
  induction n using Nat.strong_induction_on with
  | _ n ih =>
      by_cases hlt : n < base
      · refine ⟨[n], List.cons_ne_nil n [], List.forall_mem_singleton.mpr hlt, ?_, ?_⟩
        · exact Nat.toDigits_of_lt_base hlt
        · exact Nat.ofDigits_singleton.symm
      · have hle : base ≤ n := Nat.le_of_not_lt hlt
        have hpos : 0 < n := by omega
        obtain ⟨ds, -, hds, hmap, hn⟩ := ih (n / base) (Nat.div_lt_self hpos hbase)
        have hlast : n % base < base := Nat.mod_lt n (by omega)
        refine ⟨ds ++ [n % base], by simp, ?_, ?_, ?_⟩
        · exact List.forall_mem_append.mpr ⟨hds, List.forall_mem_singleton.mpr hlast⟩
        · rw [Nat.toDigits_of_base_le hbase hle, hmap, List.map_append, List.map_singleton]
        · rw [List.reverse_append, List.reverse_singleton, List.singleton_append,
            Nat.ofDigits_cons, ← hn, Nat.mod_add_div]

/-- Zeros in front of a number do not change it, and neither does the case of letters. -/
theorem digits_of_toDigits (hbase : 1 < base) {zeros : Nat}
    (h : cs.map Char.toLower = List.replicate zeros '0' ++ Nat.toDigits base n) :
    Digits base cs n := by
  obtain ⟨ds, hne, hds, hmap, hn⟩ := toDigits_eq_map hbase n
  refine ⟨List.replicate zeros 0 ++ ds, by simp [hne], ?_, ?_, ?_⟩
  · refine List.forall_mem_append.mpr ⟨fun d hd => ?_, hds⟩
    rw [List.eq_of_mem_replicate hd]
    omega
  · rw [h, hmap, List.map_append, List.map_replicate]
    rfl
  · rw [List.reverse_append, List.reverse_replicate, Nat.ofDigits_append_replicate_zero]
    exact hn

theorem isBlank_of_digits (h : Digits base cs n) (hbase : base ≤ 16) (hc : c ∈ cs) :
    Blank.isBlank c = false := by
  obtain ⟨ds, -, hds, hmap, -⟩ := h
  have hlower : c.toLower ∈ ds.map Nat.digitChar := hmap ▸ List.mem_map_of_mem hc
  obtain ⟨d, hd, hdigit⟩ := List.mem_map.mp hlower
  have hlt : d < 16 := Nat.lt_of_lt_of_le (hds d hd) hbase
  have hcode := congrArg Char.toNat hdigit
  rw [toNat_toLower, toNat_digitChar hlt] at hcode
  apply Blank.isBlank_eq_false <;> split_ifs at hcode <;> omega

theorem isBlank_of_denotes (h : Denotes cs n) (hc : c ∈ cs) : Blank.isBlank c = false := by
  obtain ⟨mark, base, sign, digits, hmark, hsign, rfl, hdigits⟩ := h
  have hmarks : ∀ entry ∈ marks, entry.1.all (!Blank.isBlank ·) = true := by decide
  have hsigns : ∀ sign ∈ signs, sign.all (!Blank.isBlank ·) = true := by decide
  rw [List.mem_append, List.mem_append] at hc
  rcases hc with (hc | hc) | hc
  · simpa using List.all_eq_true.mp (hmarks _ hmark) c hc
  · simpa using List.all_eq_true.mp (hsigns sign hsign) c hc
  · exact isBlank_of_digits hdigits (le_of_mem_marks hmark) hc

/-- Blanks beside a numeral are all that is taken away from it. -/
theorem stripped_of_denotes (h : Denotes cs n) {front back : List Char}
    (hblank : ∀ c ∈ front ++ back, Blank.isBlank c = true) :
    Blank.Stripped (front ++ cs ++ back) cs := by
  refine ⟨front, back, rfl, hblank, fun c hc => isBlank_of_denotes h ?_⟩
  exact hc.elim List.mem_of_head? List.mem_of_getLast?

/-! ## Texts -/

theorem count?_eq_some_iff :
    count? text = some n ↔ Denotes (Blank.trim text.toList) n ∧ n < UInt64.size :=
  Group.below?_eq_some.trans (and_congr_left' value?_eq_some_iff)

theorem count?_eq_none_iff :
    count? text = none ↔ ∀ n, Denotes (Blank.trim text.toList) n → UInt64.size ≤ n := by
  simp only [Option.eq_none_iff_forall_ne_some, ne_eq, count?_eq_some_iff, not_and, Nat.not_lt]

theorem map_address?_eq_some_iff :
    (address? text).map UInt16.toNat = some n ↔ count? text = some n ∧ n < UInt16.size := by
  have hsize : UInt16.size < UInt64.size := by decide
  rw [address?, Option.map_map, Option.map_eq_some_iff, count?, Group.below?_eq_some]
  constructor
  · rintro ⟨v, hv, rfl⟩
    obtain ⟨hnumber, hlt⟩ := Group.below?_eq_some.mp hv
    rw [Function.comp_apply, UInt16.toNat_ofNat_of_lt' hlt]
    exact ⟨⟨hnumber, Nat.lt_trans hlt hsize⟩, hlt⟩
  · rintro ⟨⟨hnumber, -⟩, hlt⟩
    exact ⟨n, Group.below?_eq_some.mpr ⟨hnumber, hlt⟩, UInt16.toNat_ofNat_of_lt' hlt⟩

/-- Reading accepts the numerals, with blanks around them, whose number is below the bound, and
nothing else. So a number is read back from every spelling: in decimal or after each of the marks,
with a sign or without one, in letters of either case, with zeros in front and blanks around. -/
theorem reads_numerals (text : String) :
    let t := Blank.trim text.toList
    Blank.Stripped text.toList t ∧
    (∀ n, count? text = some n ↔ Denotes t n ∧ n < UInt64.size) ∧
    (count? text = none ↔ ∀ n, Denotes t n → UInt64.size ≤ n) ∧
    (∀ n, (address? text).map UInt16.toNat = some n ↔ count? text = some n ∧ n < UInt16.size) ∧
    ∀ mark base sign digits front back zeros n, (mark, base) ∈ marks → sign ∈ signs →
      digits.map Char.toLower = List.replicate zeros '0' ++ Nat.toDigits base n →
      (∀ c ∈ front ++ back, Blank.isBlank c = true) →
      text.toList = front ++ (mark ++ sign ++ digits) ++ back → n < UInt64.size →
        count? text = some n := by
  intro t
  refine ⟨Blank.stripped_trim _, fun n => count?_eq_some_iff, count?_eq_none_iff,
    fun n => map_address?_eq_some_iff, ?_⟩
  intro mark base sign digits front back zeros n hmark hsign hdigits hblank htext hlt
  have hbase : ∀ entry ∈ marks, 1 < entry.2 := by decide
  have hdenotes : Denotes (mark ++ sign ++ digits) n :=
    ⟨mark, base, sign, digits, hmark, hsign, rfl, digits_of_toDigits (hbase _ hmark) hdigits⟩
  have htrim : Blank.trim text.toList = mark ++ sign ++ digits :=
    Blank.trim_eq_of_stripped (htext ▸ stripped_of_denotes hdenotes hblank)
  exact count?_eq_some_iff.mpr ⟨htrim ▸ hdenotes, hlt⟩

/-- The greatest address with everything that its spelling allows. -/
theorem reads_numerals_greatest_address :
    let text := "\t0X+00fFfF "
    let digits := ['0', '0', 'f', 'F', 'f', 'F']
    (['0', 'X'], 16) ∈ marks ∧ ['+'] ∈ signs ∧
      digits.map Char.toLower = List.replicate 2 '0' ++ Nat.toDigits 16 65535 ∧
      (∀ c ∈ ['\t'] ++ [' '], Blank.isBlank c = true) ∧
      text.toList = ['\t'] ++ (['0', 'X'] ++ ['+'] ++ digits) ++ [' '] ∧ 65535 < UInt64.size ∧
      count? text = some 65535 ∧ (address? text).map UInt16.toNat = some 65535 := by
  intro text digits
  have hmark : (['0', 'X'], 16) ∈ marks := by decide
  have hsign : ['+'] ∈ signs := by decide
  have hdigits : digits.map Char.toLower = List.replicate 2 '0' ++ Nat.toDigits 16 65535 := by
    decide
  have hblank : ∀ c ∈ ['\t'] ++ [' '], Blank.isBlank c = true :=
    List.forall_mem_cons.mpr ⟨rfl, List.forall_mem_singleton.mpr rfl⟩
  have htext : text.toList = ['\t'] ++ (['0', 'X'] ++ ['+'] ++ digits) ++ [' '] := by decide
  have hlt : 65535 < UInt64.size := by decide
  obtain ⟨-, -, -, haddress, hspelled⟩ := reads_numerals text
  have hcount : count? text = some 65535 :=
    hspelled ['0', 'X'] 16 ['+'] digits ['\t'] [' '] 2 65535 hmark hsign hdigits hblank htext hlt
  exact ⟨hmark, hsign, hdigits, hblank, htext, hlt, hcount,
    (haddress 65535).mpr ⟨hcount, by decide⟩⟩

/-- Texts that are no numerals, and the least number that is too great. -/
example : ["", "$", "+", "-1", "1 2", "1_0", "0x0x1", "18446744073709551616"].map count? =
    List.replicate 8 none := by
  decide +kernel

end Numeral

end Core6502
