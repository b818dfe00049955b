import Core6502.Proofs.Debug.Recording

/-!
# Histories as rings

A ring keeps its items in one row, oldest first, and drops its oldest item to make room for another
once it is full. That it is full is told by an equality, which is enough because it is never longer
than its capacity. What a history shows is such a ring, and every call of a debugger does the same
to both.
-/

namespace Core6502

/-- A row of at most `capacity` items, oldest first. -/
structure Ring (α : Type) where
  capacity : Nat
  items : List α := []

namespace Ring

variable {α : Type}

def record (r : Ring α) (item : α) : Ring α :=
  if r.capacity = 0 then r
  else
    let kept := if r.items.length = r.capacity then r.items.tail else r.items
    { r with items := kept ++ [item] }

def clear (r : Ring α) : Ring α := { r with items := [] }

theorem capacity_record (r : Ring α) (item : α) : (r.record item).capacity = r.capacity := by
  unfold record
  split <;> rfl

/-- A ring that is not longer than its capacity does not become so. -/
theorem length_record_le {r : Ring α} (h : r.items.length ≤ r.capacity) (item : α) :
    (r.record item).items.length ≤ r.capacity := by
  unfold record
  split
  · exact h
  · next hcapacity =>
      rw [List.length_append, List.length_singleton]
      split
      · rw [List.length_tail]
        omega
      · omega

end Ring

namespace History

variable {α : Type}

/-- What a history shows, as a ring. -/
def ring (h : History α) : Ring α := ⟨h.capacity, h.toList⟩

theorem length_toList_le (h : History α) : h.toList.length ≤ h.capacity := by
  rw [toList, List.length_reverse, latest]
  exact List.length_take_le _ _

theorem toList_record (h : History α) (item : α) :
    (h.record item).toList = (h.ring.record item).items := by
  have hle := h.length_toList_le
  rw [toList, latest_record, Ring.record]
  by_cases hcapacity : h.capacity = 0
  · have hnil : h.toList = [] := List.eq_nil_of_length_eq_zero (by omega)
    rw [if_pos (show h.ring.capacity = 0 from hcapacity), hcapacity, List.take_zero]
    exact hnil.symm
  · obtain ⟨n, hn⟩ := Nat.exists_eq_succ_of_ne_zero hcapacity
    rw [if_neg (show h.ring.capacity ≠ 0 from hcapacity), hn, List.take_succ_cons,
      List.reverse_cons]
    congr 1
    -- of the items latest first all but the last stay when there are as many as fit
    rw [toList, List.length_reverse] at hle
    split
    · next hfull =>
        have hlength : h.latest.length = n + 1 := by
          rw [← List.length_reverse]
          exact hfull.trans hn
        rw [ring, toList, List.tail_reverse, List.dropLast_eq_take, hlength]
        rfl
    · next hroom =>
        have hlength : h.latest.length ≤ n := by
          have hne : h.latest.length ≠ n + 1 := fun heq =>
            hroom (List.length_reverse.trans (heq.trans hn.symm))
          omega
        rw [List.take_of_length_le hlength]
        rfl

theorem ring_record (h : History α) (item : α) : (h.record item).ring = h.ring.record item := by
  have hcapacity : (h.ring.record item).capacity = h.capacity := h.ring.capacity_record item
  rw [ring, capacity_record, toList_record, ← hcapacity]

theorem ring_clear (h : History α) : h.clear.ring = h.ring.clear := by
  rw [ring, toList, latest_clear]
  rfl

theorem ring_foldl_record (h : History α) (items : List α) :
    (items.foldl record h).ring = items.foldl Ring.record h.ring := by
  induction items generalizing h with
  | nil => rfl
  | cons item items ih => rw [List.foldl_cons, ih, ring_record, List.foldl_cons]

end History

namespace Debugger

/-- What a call does to a ring that records the attempts of a debugger. -/
def Call.recordIn (call : Call) (d : Debugger) (m : Machine) (r : Ring TraceEntry) :
    Ring TraceEntry :=
  if call = .clearTrace then r.clear
  else if d.tracing then ((call.attempted d m).map TraceEntry.ofMachine).foldl Ring.record r
  else r

theorem ring_perform (call : Call) (d : Debugger) (m : Machine) :
    (call.perform d m).2.1.history.ring = call.recordIn d m d.history.ring := by
  rw [Call.recordIn]
  by_cases hclear : call = .clearTrace
  · rw [if_pos hclear, hclear]
    exact d.history.ring_clear
  · rw [if_neg hclear, history_perform d m hclear, remember]
    split
    · exact d.history.ring_foldl_record _
    · rfl

/-- The ring that the uses of a debugger leave, the latest of which comes first. -/
def ringUsed (d : Debugger) : List Use → Ring TraceEntry
  | [] => d.history.ring
  | use :: earlier => use.call.recordIn (d.used earlier) use.machine (d.ringUsed earlier)

theorem ring_used (d : Debugger) (past : List Use) :
    (d.used past).history.ring = d.ringUsed past := by
  induction past with
  | nil => rfl
  | cons use earlier ih => rw [used, ringUsed, ring_perform, ih]

/-- Whatever calls are made, a debugger shows what a ring would hold. -/
theorem trace_eq_ringUsed (d : Debugger) (past : List Use) :
    (d.used past).trace = (d.ringUsed past).items := by
  rw [← ring_used]
  rfl

end Debugger

end Core6502
