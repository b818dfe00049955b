/-!
# Bounded histories

The last few items of a row that keeps growing. Items are gathered until there are as many as
the history may show; then the gathering starts again, and the full one is kept behind it. The
two together always hold enough, and no item is ever moved.
-/

namespace Core6502

/-- The last `capacity` items of those recorded. -/
structure History (α : Type) where
  capacity : Nat
  /-- The gathering that grows, latest first. -/
  recent : List α := []
  /-- The gathering before it, latest first. -/
  earlier : List α := []
  count : Nat := recent.length
  count_eq : count = recent.length := by rfl

namespace History

variable {α : Type}

def record (h : History α) (item : α) : History α :=
  if h.count < h.capacity then
    { h with
      recent := item :: h.recent
      count := h.count + 1
      count_eq := congrArg (· + 1) h.count_eq }
  else { capacity := h.capacity, recent := [item], earlier := h.recent }

def clear (h : History α) : History α := { capacity := h.capacity }

/-- The items, latest first. -/
def latest (h : History α) : List α := (h.recent ++ h.earlier).take h.capacity

def toList (h : History α) : List α := h.latest.reverse

@[simp] theorem capacity_record (h : History α) (item : α) :
    (h.record item).capacity = h.capacity := by
  rw [record]
  split <;> rfl

theorem latest_record (h : History α) (item : α) :
    (h.record item).latest = (item :: h.latest).take h.capacity := by
  rw [record]
  split
  · next hc => cases hn : h.capacity <;> simp [latest, hn, List.take_take]
  · next hc =>
    rw [h.count_eq, Nat.not_lt] at hc
    cases hn : h.capacity with
    | zero => simp [latest, hn]
    | succ n =>
      rw [hn] at hc
      simp only [latest, hn, List.cons_append, List.nil_append, List.take_succ_cons]
      rw [List.take_take, Nat.min_eq_left (Nat.le_succ n), List.take_append_of_le_length (by omega)]

@[simp] theorem latest_clear (h : History α) : h.clear.latest = [] := by
  simp [latest, clear]

end History

end Core6502
