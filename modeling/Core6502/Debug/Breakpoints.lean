import Std.Data.ExtTreeMap

/-!
# Breakpoints

Addresses at which a run stops, in address order. A breakpoint can be switched off without
forgetting how often it was hit; removing it forgets. `get?` is all there is to a set of
breakpoints: sets that agree under it are equal, and the lemmas say what it answers after each
operation.
-/

namespace Core6502

/-- What is kept for an address. The address itself is no field: it is what the breakpoint is found
by, and a list of all breakpoints has it beside each of them. -/
structure Breakpoint where
  enabled : Bool := true
  /-- How many runs stopped here. -/
  hits : UInt32 := 0
deriving DecidableEq

/-- The breakpoints of a debugger, by address. -/
structure Breakpoints where
  entries : Std.ExtTreeMap UInt16 Breakpoint := ∅

namespace Breakpoints

def get? (b : Breakpoints) (address : UInt16) : Option Breakpoint := b.entries[address]?

def contains (b : Breakpoints) (address : UInt16) : Bool :=
  (b.get? address).any Breakpoint.enabled

def toList (b : Breakpoints) : List (UInt16 × Breakpoint) := b.entries.toList

def size (b : Breakpoints) : Nat := b.entries.size

/-- Puts an enabled breakpoint at an address. One that is already there keeps its hits. -/
def add (b : Breakpoints) (address : UInt16) : Breakpoints where
  entries := b.entries.insert address { (b.get? address).getD {} with enabled := true }

/-- Takes away the breakpoint at an address, and says whether there was one. -/
def remove (b : Breakpoints) (address : UInt16) : Bool × Breakpoints :=
  ((b.get? address).isSome, ⟨b.entries.erase address⟩)

/-- Takes away the breakpoint at an address or else puts one there, and says whether there is
one now. -/
def toggle (b : Breakpoints) (address : UInt16) : Bool × Breakpoints :=
  match b.remove address with
  | (true, b) => (false, b)
  | (false, b) => (true, b.add address)

/-- Switches the breakpoint at an address on or off, and says whether there is one. -/
def setEnabled (b : Breakpoints) (address : UInt16) (enabled : Bool) : Bool × Breakpoints :=
  match b.get? address with
  | none => (false, b)
  | some breakpoint => (true, ⟨b.entries.insert address { breakpoint with enabled }⟩)

/-- Counts a hit if an enabled breakpoint is at `pc`, and says whether one is. -/
def hit (b : Breakpoints) (pc : UInt16) : Bool × Breakpoints :=
  match b.get? pc with
  | none => (false, b)
  | some breakpoint =>
    if breakpoint.enabled then
      (true, ⟨b.entries.insert pc { breakpoint with hits := breakpoint.hits + 1 }⟩)
    else (false, b)

theorem ext_get? {b c : Breakpoints} (h : ∀ address, b.get? address = c.get? address) : b = c := by
  obtain ⟨b⟩ := b
  obtain ⟨c⟩ := c
  congr 1
  exact Std.ExtTreeMap.ext_getElem? h

@[simp] theorem get?_empty (address : UInt16) : get? {} address = none :=
  Std.ExtTreeMap.getElem?_empty

theorem get?_insert (b : Breakpoints) (address other : UInt16) (entry : Breakpoint) :
    get? ⟨b.entries.insert address entry⟩ other =
      if address = other then some entry else b.get? other := by
  simp only [get?, Std.ExtTreeMap.getElem?_insert, Std.LawfulEqCmp.compare_eq_iff_eq]

theorem get?_add (b : Breakpoints) (address other : UInt16) :
    (b.add address).get? other =
      if address = other then some { (b.get? address).getD {} with enabled := true }
      else b.get? other :=
  get?_insert b address other _

theorem get?_remove (b : Breakpoints) (address other : UInt16) :
    (b.remove address).2.get? other = if address = other then none else b.get? other := by
  simp only [get?, remove, Std.ExtTreeMap.getElem?_erase, Std.LawfulEqCmp.compare_eq_iff_eq]

theorem get?_setEnabled (b : Breakpoints) (address other : UInt16) (enabled : Bool) :
    (b.setEnabled address enabled).2.get? other =
      if address = other then (b.get? address).map ({ · with enabled }) else b.get? other := by
  unfold setEnabled
  split
  · next h =>
    split
    · next e => rw [← e, h, Option.map_none]
    · rfl
  · next entry h => rw [get?_insert, h, Option.map_some]

theorem get?_hit (b : Breakpoints) (pc other : UInt16) :
    (b.hit pc).2.get? other =
      if pc = other ∧ b.contains pc then
        (b.get? pc).map fun entry => { entry with hits := entry.hits + 1 }
      else b.get? other := by
  unfold hit contains
  split
  · next h => simp [h]
  · next entry h =>
    by_cases he : entry.enabled
    · simp [h, he, get?_insert]
    · simp [h, he]

theorem fst_hit (b : Breakpoints) (pc : UInt16) : (b.hit pc).1 = b.contains pc := by
  unfold hit contains
  split
  · next h => simp [h]
  · next entry h => by_cases he : entry.enabled <;> simp [h, he]

theorem fst_setEnabled (b : Breakpoints) (address : UInt16) (enabled : Bool) :
    (b.setEnabled address enabled).1 = (b.get? address).isSome := by
  unfold setEnabled
  split
  · next h => rw [h, Option.isSome_none]
  · next h => rw [h, Option.isSome_some]

theorem toggle_eq (b : Breakpoints) (address : UInt16) :
    b.toggle address =
      if (b.get? address).isSome then (false, (b.remove address).2)
      else (true, (b.remove address).2.add address) := by
  unfold toggle
  cases h : (b.get? address).isSome <;> simp [remove, h]

theorem fst_toggle (b : Breakpoints) (address : UInt16) :
    (b.toggle address).1 = !(b.get? address).isSome := by
  rw [toggle_eq]
  split <;> simp [*]

theorem get?_toggle (b : Breakpoints) (address other : UInt16) :
    (b.toggle address).2.get? other =
      if address = other then (if (b.get? address).isSome then none else some {})
      else b.get? other := by
  rw [toggle_eq]
  split
  · rw [get?_remove]
  · rw [get?_add, get?_remove, get?_remove, if_pos rfl]
    split <;> rfl

theorem mem_toList (b : Breakpoints) {address : UInt16} {entry : Breakpoint} :
    (address, entry) ∈ b.toList ↔ b.get? address = some entry :=
  Std.ExtTreeMap.mem_toList_iff_getElem?_eq_some

theorem length_toList (b : Breakpoints) : b.toList.length = b.size :=
  Std.ExtTreeMap.length_toList

theorem pairwise_toList (b : Breakpoints) : (b.toList.map Prod.fst).Pairwise (· < ·) := by
  have hordered := Std.ExtTreeMap.ordered_keys_toList (t := b.entries)
  rw [List.pairwise_map]
  exact hordered.imp fun h => compareOfLessAndEq_eq_lt.mp h

end Breakpoints

end Core6502
