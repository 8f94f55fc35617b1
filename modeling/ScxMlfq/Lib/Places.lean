import Mathlib.Data.List.Perm.Basic
import Mathlib.Data.List.Nodup
import Mathlib.Logic.Function.Basic

/-!
# Places — elements that are in one list at a time

A family of lists and, for each element, the list it is in. The two
agree when every list holds just the elements that are there, each once.
Putting an element that is nowhere into a list and taking one out keep
them in agreement, at whatever position.

The position of an element is the number of others in front of it. A
list loses elements, or gains them at any position; the position then
moves by those in front.
-/

namespace ScxMlfq.Places

variable {ι α : Type*} [DecidableEq α]

/-- The lists hold the elements where they are. -/
structure Holds (contents : ι → List α) (place : α → Option ι) : Prop where
  nodup : ∀ i, (contents i).Nodup
  mem : ∀ i a, a ∈ contents i ↔ place a = some i

/-- **Putting an element** that is nowhere into a list. -/
theorem Holds.put {contents contents' : ι → List α} {place : α → Option ι}
    (h : Holds contents place) {i : ι} {a : α} (hfree : place a = none)
    (hi : (contents' i).Perm (a :: contents i)) (hother : ∀ j, j ≠ i → contents' j = contents j) :
    Holds contents' (Function.update place a (some i)) := by
  have hnew : ∀ j, a ∉ contents j := by
    intro j hmem
    rw [(h.mem j a).mp hmem] at hfree
    cases hfree
  refine ⟨fun j => ?_, fun j b => ?_⟩
  · by_cases hj : j = i
    · subst hj
      exact hi.nodup_iff.mpr (List.nodup_cons.mpr ⟨hnew j, h.nodup j⟩)
    · rw [hother j hj]
      exact h.nodup j
  · by_cases hb : b = a
    · subst hb
      rw [Function.update_self, Option.some.injEq]
      by_cases hj : j = i
      · subst hj
        exact iff_of_true (hi.mem_iff.mpr List.mem_cons_self) rfl
      · rw [hother j hj]
        exact iff_of_false (hnew j) (Ne.symm hj)
    · rw [Function.update_of_ne hb, ← h.mem j b]
      by_cases hj : j = i
      · subst hj
        rw [hi.mem_iff, List.mem_cons, or_iff_right hb]
      · rw [hother j hj]

/-- **Taking an element** out of its list. -/
theorem Holds.take {contents contents' : ι → List α} {place : α → Option ι}
    (h : Holds contents place) {i : ι} {a : α} (hi : (contents i).Perm (a :: contents' i))
    (hother : ∀ j, j ≠ i → contents' j = contents j) :
    Holds contents' (Function.update place a none) := by
  obtain ⟨hnotin, hnodup⟩ := List.nodup_cons.mp (hi.nodup_iff.mp (h.nodup i))
  have hplace : place a = some i := (h.mem i a).mp (hi.mem_iff.mpr List.mem_cons_self)
  refine ⟨fun j => ?_, fun j b => ?_⟩
  · by_cases hj : j = i
    · rw [hj]
      exact hnodup
    · rw [hother j hj]
      exact h.nodup j
  · by_cases hb : b = a
    · subst hb
      rw [Function.update_self]
      refine iff_of_false ?_ nofun
      by_cases hj : j = i
      · rw [hj]
        exact hnotin
      · rw [hother j hj, h.mem j b, hplace, Option.some.injEq]
        exact Ne.symm hj
    · rw [Function.update_of_ne hb, ← h.mem j b]
      by_cases hj : j = i
      · subst hj
        rw [hi.mem_iff, List.mem_cons, or_iff_right hb]
      · rw [hother j hj]

/-! ## Positions -/

variable {β : Type*} (key : β → α)

/-- The elements in front of the one with key `a`. -/
def ahead (a : α) (l : List β) : Nat := (l.takeWhile fun x => decide (key x ≠ a)).length

/-- An element at a position. -/
def putAt (pos : Nat) (x : β) (l : List β) : List β := l.take pos ++ x :: l.drop pos

theorem putAt_perm (pos : Nat) (x : β) (l : List β) : (putAt pos x l).Perm (x :: l) := by
  have hmiddle := @List.perm_middle _ x (l.take pos) (l.drop pos)
  rw [List.take_append_drop] at hmiddle
  exact hmiddle

@[simp] theorem ahead_cons_self {a : α} {x : β} (hx : key x = a) (l : List β) :
    ahead key a (x :: l) = 0 := by
  rw [ahead, List.takeWhile_cons_of_neg (by simp [hx]), List.length_nil]

@[simp] theorem ahead_cons_of_ne {a : α} {x : β} (hx : key x ≠ a) (l : List β) :
    ahead key a (x :: l) = ahead key a l + 1 := by
  rw [ahead, ahead, List.takeWhile_cons_of_pos (by simp [hx]), List.length_cons]

/-- In front of the element, an append counts its first part. -/
theorem ahead_append_of_notMem {a : α} {l₁ : List β} (h : ∀ x ∈ l₁, key x ≠ a) (l₂ : List β) :
    ahead key a (l₁ ++ l₂) = l₁.length + ahead key a l₂ := by
  induction l₁ with
  | nil => rw [List.nil_append, List.length_nil, Nat.zero_add]
  | cons x l₁ ih =>
      rw [List.cons_append, ahead_cons_of_ne key (h x List.mem_cons_self),
        ih fun y hy => h y (List.mem_cons_of_mem _ hy), List.length_cons]
      omega

/-- Behind the element, an append counts nothing. -/
theorem ahead_append_of_mem {a : α} {l₁ : List β} (h : a ∈ l₁.map key) (l₂ : List β) :
    ahead key a (l₁ ++ l₂) = ahead key a l₁ := by
  induction l₁ with
  | nil => cases h
  | cons x l₁ ih =>
      rw [List.cons_append]
      by_cases hx : key x = a
      · rw [ahead_cons_self key hx, ahead_cons_self key hx]
      · have hmem : a ∈ l₁.map key := by
          rw [List.map_cons, List.mem_cons] at h
          exact h.resolve_left fun heq => hx heq.symm
        rw [ahead_cons_of_ne key hx, ahead_cons_of_ne key hx, ih hmem]

/-- **An element taken from the front** brings the others forward. -/
theorem ahead_remove {a : α} {l₁ l₂ : List β} {x : β} (hx : key x ≠ a) :
    ahead key a (l₁ ++ l₂) ≤ ahead key a (l₁ ++ x :: l₂)
      ∧ (a ∉ l₁.map key → ahead key a (l₁ ++ l₂) + 1 = ahead key a (l₁ ++ x :: l₂)) := by
  by_cases hmem : a ∈ l₁.map key
  · rw [ahead_append_of_mem key hmem, ahead_append_of_mem key hmem]
    exact ⟨Nat.le_refl _, fun hno => absurd hmem hno⟩
  · have hfront : ∀ y ∈ l₁, key y ≠ a := fun y hy heq =>
      hmem (List.mem_map.mpr ⟨y, hy, heq⟩)
    rw [ahead_append_of_notMem key hfront, ahead_append_of_notMem key hfront,
      ahead_cons_of_ne key hx]
    exact ⟨by omega, fun _ => by omega⟩

/-- **An element put in** holds the other back where it goes in front. -/
theorem ahead_putAt {a : α} {x : β} (hx : key x ≠ a) {pos : Nat} {l : List β}
    (h : a ∈ l.map key) :
    ahead key a (putAt pos x l)
      = ahead key a l + if pos ≤ ahead key a l then 1 else 0 := by
  induction l generalizing pos with
  | nil => cases h
  | cons y l ih =>
      cases pos with
      | zero =>
          have hput : putAt 0 x (y :: l) = x :: y :: l := rfl
          rw [hput, ahead_cons_of_ne key hx, if_pos (Nat.zero_le _)]
      | succ pos =>
          have hput : putAt (pos + 1) x (y :: l) = y :: putAt pos x l := rfl
          rw [hput]
          by_cases hy : key y = a
          · rw [ahead_cons_self key hy, ahead_cons_self key hy, if_neg (by omega)]
          · have hmem : a ∈ l.map key := by
              rw [List.map_cons, List.mem_cons] at h
              exact h.resolve_left fun heq => hy heq.symm
            rw [ahead_cons_of_ne key hy, ahead_cons_of_ne key hy, ih hmem]
            simp only [Nat.add_le_add_iff_right]
            omega

end ScxMlfq.Places
