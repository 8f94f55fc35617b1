import Mathlib.Data.List.Nodup

/-!
# Lone — the only element that passes a test

One pass over a list that keeps the index of the first element that
passes a test, and whether a second one passed. An index is reported
only when its element is the only one.
-/

namespace ScxMlfq.Lone

variable {α : Type*} (ok : α → Bool)

/-- One element of the pass, with its index. -/
def note (s : Option Nat × Bool) (x : α × Nat) : Option Nat × Bool :=
  if ok x.1 then
    if s.1.isSome then (s.1, true) else (some x.2, s.2)
  else s

/-- The index of the only element that passes. -/
def lone (l : List α) : Option Nat :=
  let r := l.zipIdx.foldl (note ok) (none, false)
  if r.2 then none else r.1

/-- The indices of the elements that pass. -/
def hits (l : List (α × Nat)) : List Nat := (l.filter fun x => ok x.1).map Prod.snd

variable {ok}

theorem mem_hits {l : List α} {j : Nat} :
    j ∈ hits ok l.zipIdx ↔ ∃ x, l[j]? = some x ∧ ok x = true := by
  rw [hits, List.mem_map]
  constructor
  · intro h
    obtain ⟨x, hx, rfl⟩ := h
    obtain ⟨hmem, hok⟩ := List.mem_filter.mp hx
    exact ⟨x.1, List.mem_zipIdx_iff_getElem?.mp hmem, hok⟩
  · intro h
    obtain ⟨x, hx, hok⟩ := h
    have hmem : (x, j) ∈ l.zipIdx := List.mem_zipIdx_iff_getElem?.mpr hx
    exact ⟨(x, j), List.mem_filter.mpr ⟨hmem, hok⟩, rfl⟩

theorem hits_nodup (l : List α) : (hits ok l.zipIdx).Nodup := by
  have hsub : (hits ok l.zipIdx).Sublist (l.zipIdx.map Prod.snd) :=
    List.filter_sublist.map Prod.snd
  rw [List.zipIdx_map_snd] at hsub
  exact hsub.nodup List.nodup_range'

/-- Once an element passed, the pass keeps it. -/
theorem foldl_note_some (l : List (α × Nat)) (i : Nat) (tied : Bool) :
    l.foldl (note ok) (some i, tied) = (some i, tied || !(hits ok l).isEmpty) := by
  induction l generalizing tied with
  | nil => simp [hits]
  | cons x l ih =>
      rw [List.foldl_cons, note]
      cases hx : ok x.1 with
      | true =>
          rw [if_pos rfl, Option.isSome_some, if_pos rfl, ih]
          simp [hits, hx]
      | false =>
          rw [if_neg Bool.false_ne_true, ih]
          simp [hits, hx]

/-- The pass keeps the first hit, and whether there is another. -/
theorem foldl_note (l : List (α × Nat)) :
    l.foldl (note ok) (none, false)
      = ((hits ok l).head?, !(hits ok l).tail.isEmpty) := by
  induction l with
  | nil => rfl
  | cons x l ih =>
      rw [List.foldl_cons, note]
      cases hx : ok x.1 with
      | true =>
          have hhits : hits ok (x :: l) = x.2 :: hits ok l := by simp [hits, hx]
          rw [if_pos rfl, if_neg (by simp), foldl_note_some, hhits, Bool.false_or]
          rfl
      | false =>
          have hhits : hits ok (x :: l) = hits ok l := by simp [hits, hx]
          rw [if_neg Bool.false_ne_true, ih, hhits]

theorem eq_singleton_iff {l : List Nat} (h : l.Nodup) {i : Nat} :
    l = [i] ↔ i ∈ l ∧ ∀ j ∈ l, j = i := by
  constructor
  · rintro rfl
    exact ⟨List.mem_singleton.mpr rfl, fun j hj => List.mem_singleton.mp hj⟩
  · intro hi
    cases l with
    | nil => exact absurd hi.1 List.not_mem_nil
    | cons a l =>
        obtain rfl := hi.2 a List.mem_cons_self
        cases l with
        | nil => rfl
        | cons b l =>
            have hb := hi.2 b (List.mem_cons_of_mem _ List.mem_cons_self)
            exact absurd (hb ▸ List.mem_cons_self) (List.nodup_cons.mp h).1

/-- **What a pass reports.** The element at the index passes, and no other
does. -/
theorem lone_eq_some {l : List α} {i : Nat} :
    lone ok l = some i
      ↔ (∃ x, l[i]? = some x ∧ ok x = true) ∧ ∀ j x, l[j]? = some x → ok x = true → j = i := by
  have hhits : lone ok l = some i ↔ hits ok l.zipIdx = [i] := by
    rw [lone, foldl_note]
    cases hits ok l.zipIdx with
    | nil => simp
    | cons a rest =>
        cases rest with
        | nil => simp
        | cons b rest => simp
  rw [hhits, eq_singleton_iff (hits_nodup l), mem_hits]
  simp only [mem_hits]
  constructor
  · intro h
    exact ⟨h.1, fun j x hj hx => h.2 j ⟨x, hj, hx⟩⟩
  · intro h
    refine ⟨h.1, fun j hj => ?_⟩
    obtain ⟨x, hx, hok⟩ := hj
    exact h.2 j x hx hok

end ScxMlfq.Lone
