import Mathlib.Data.List.Basic

/-!
# Channel — bounded queues between two threads

A bounded channel is a list with room for a fixed number of elements. A
sender that does not wait fails on a full one, a receiver that does not
wait fails on an empty one; neither failure changes it. The bound is a
field of the channel, so no sequence of operations overfills it.
-/

namespace ScxMlfq

/-- A channel with room for `cap` elements, oldest first. -/
structure Channel (α : Type*) (cap : Nat) where
  items : List α
  bounded : items.length ≤ cap

namespace Channel

variable {α : Type*} {cap : Nat}

/-- A new channel. -/
def empty : Channel α cap := ⟨[], Nat.zero_le cap⟩

/-- `try_send`: none where the channel is full. -/
def trySend (c : Channel α cap) (x : α) : Option (Channel α cap) :=
  if h : c.items.length < cap then
    some ⟨c.items ++ [x], by rw [List.length_append, List.length_singleton]; exact h⟩
  else none

/-- `try_recv`: none where the channel is empty. -/
def tryRecv (c : Channel α cap) : Option (α × Channel α cap) :=
  match h : c.items with
  | [] => none
  | x :: rest => some (x, ⟨rest, by
      have hc := c.bounded
      rw [h, List.length_cons] at hc
      exact Nat.le_of_succ_le hc⟩)

@[simp] theorem items_empty : (empty : Channel α cap).items = [] := rfl

theorem ext {c d : Channel α cap} (h : c.items = d.items) : c = d := by
  obtain ⟨items, hc⟩ := c
  obtain ⟨items', hd⟩ := d
  obtain rfl : items = items' := h
  rfl

/-- **A send** that succeeds puts its element behind the others. -/
theorem trySend_items {c d : Channel α cap} {x : α} (h : c.trySend x = some d) :
    d.items = c.items ++ [x] := by
  rw [trySend] at h
  split at h
  · cases h
    rfl
  · cases h

theorem trySend_eq_none {c : Channel α cap} {x : α} :
    c.trySend x = none ↔ c.items.length = cap := by
  have hc := c.bounded
  rw [trySend]
  split
  · rename_i hlt
    exact iff_of_false (Option.some_ne_none _) (Nat.ne_of_lt hlt)
  · rename_i hge
    exact iff_of_true rfl (by omega)

/-- A channel with room takes an element. -/
theorem exists_trySend {c : Channel α cap} (h : c.items.length < cap) (x : α) :
    ∃ d, c.trySend x = some d := by
  rw [trySend, dif_pos h]
  exact ⟨_, rfl⟩

/-- **A receive** that succeeds takes the oldest element. -/
theorem tryRecv_items {c d : Channel α cap} {x : α} (h : c.tryRecv = some (x, d)) :
    c.items = x :: d.items := by
  rw [tryRecv] at h
  split at h
  · cases h
  · rename_i y rest hitems
    cases h
    exact hitems

theorem tryRecv_eq_none {c : Channel α cap} : c.tryRecv = none ↔ c.items = [] := by
  rw [tryRecv]
  split
  · rename_i hitems
    exact iff_of_true rfl hitems
  · rename_i x rest hitems
    exact iff_of_false (Option.some_ne_none _) (by rw [hitems]; exact List.cons_ne_nil x rest)

/-- A channel that is not empty yields an element. -/
theorem exists_tryRecv {c : Channel α cap} (h : c.items ≠ []) :
    ∃ x d, c.tryRecv = some (x, d) := by
  cases hr : c.tryRecv with
  | none => exact absurd (tryRecv_eq_none.mp hr) h
  | some r => exact ⟨r.1, r.2, rfl⟩

end Channel

end ScxMlfq
