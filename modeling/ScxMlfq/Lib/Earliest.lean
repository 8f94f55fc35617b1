import ScxMlfq.Lib.Serial

/-!
# Earliest — the first reading of a wrapping clock

A scan that keeps the earlier of two candidates, by the wrapping order of
their readings. It returns nothing only where there is no candidate, and
a candidate otherwise. Where all readings lie within half of the circle
of one of them, no candidate is before the one it returns.
-/

namespace ScxMlfq.Serial

variable {α : Type*} {w : Nat}

/-- One candidate against the best so far. -/
def earlierOf (reading : α → BitVec w) (best : Option α) (a : α) : Option α :=
  match best with
  | none => some a
  | some b => if Before (reading a) (reading b) then some a else some b

/-- The scan. -/
def earliest (reading : α → BitVec w) (candidates : List α) : Option α :=
  candidates.foldl (earlierOf reading) none

/-- All readings lie ahead of `base` by less than half of the circle. -/
def Within (reading : α → BitVec w) (base : BitVec w) (candidates : List α) : Prop :=
  ∀ a ∈ candidates, 2 * gap base (reading a) < 2 ^ w

/-- On half of the circle the order is that of the distances. -/
theorem before_iff_gap_lt {base a b : BitVec w} (ha : 2 * gap base a < 2 ^ w)
    (hb : 2 * gap base b < 2 ^ w) : Before a b ↔ gap base a < gap base b := by
  have hea := add_gap base a
  have heb := add_gap base b
  constructor
  · intro h
    by_contra hle
    rw [← hea, ← heb] at h
    exact not_before_add_add base (by omega) (by omega) h
  · intro h
    rw [← hea, ← heb]
    exact before_add_add base h (by omega)

variable {reading : α → BitVec w}

theorem earlierOf_ne_none (best : Option α) (a : α) : earlierOf reading best a ≠ none := by
  cases best with
  | none => simp [earlierOf]
  | some b =>
      rw [earlierOf]
      split <;> simp

/-- The scan from a candidate in hand: it finds one, from hand or list. -/
theorem foldl_earlierOf_mem (l : List α) (best : Option α) {r : α}
    (h : l.foldl (earlierOf reading) best = some r) : best = some r ∨ r ∈ l := by
  induction l generalizing best with
  | nil => exact .inl h
  | cons a l ih =>
      rcases ih _ h with hbest | hmem
      · cases best with
        | none =>
            obtain rfl := Option.some.inj hbest
            exact .inr List.mem_cons_self
        | some b =>
            rw [earlierOf] at hbest
            split at hbest
            · obtain rfl := Option.some.inj hbest
              exact .inr List.mem_cons_self
            · exact .inl hbest
      · exact .inr (List.mem_cons_of_mem a hmem)

theorem foldl_earlierOf_eq_none (l : List α) (best : Option α) :
    l.foldl (earlierOf reading) best = none ↔ best = none ∧ l = [] := by
  induction l generalizing best with
  | nil => simp
  | cons a l ih => simp [ih, earlierOf_ne_none]

/-- **Nothing is found only where there is nothing.** -/
@[simp] theorem earliest_eq_none {l : List α} : earliest reading l = none ↔ l = [] := by
  simp [earliest, foldl_earlierOf_eq_none]

theorem earliest_mem {l : List α} {r : α} (h : earliest reading l = some r) : r ∈ l := by
  rcases foldl_earlierOf_mem l none h with hnone | hmem
  · cases hnone
  · exact hmem

/-- The distance of the result from the base is least. -/
theorem foldl_earlierOf_least {base : BitVec w} (l : List α) (best : Option α)
    (hl : Within reading base l) (hbest : ∀ b, best = some b → 2 * gap base (reading b) < 2 ^ w)
    {r : α} (h : l.foldl (earlierOf reading) best = some r) :
    (∀ b, best = some b → gap base (reading r) ≤ gap base (reading b))
      ∧ ∀ a ∈ l, gap base (reading r) ≤ gap base (reading a) := by
  induction l generalizing best with
  | nil =>
      refine ⟨fun b hb => ?_, by simp⟩
      obtain rfl := Option.some.inj (hb.symm.trans h)
      exact Nat.le_refl _
  | cons a l ih =>
      have ha := hl a List.mem_cons_self
      have hrest : Within reading base l := fun x hx => hl x (List.mem_cons_of_mem a hx)
      -- the better of the two in hand is no later than either
      have hstep : ∃ c, earlierOf reading best a = some c
          ∧ 2 * gap base (reading c) < 2 ^ w
          ∧ gap base (reading c) ≤ gap base (reading a)
          ∧ ∀ b, best = some b → gap base (reading c) ≤ gap base (reading b) := by
        cases best with
        | none => exact ⟨a, rfl, ha, Nat.le_refl _, nofun⟩
        | some b =>
            have hb := hbest b rfl
            rw [earlierOf]
            split
            · rename_i hbefore
              have hlt := (before_iff_gap_lt ha hb).mp hbefore
              refine ⟨a, rfl, ha, Nat.le_refl _, fun b' hb' => ?_⟩
              obtain rfl := Option.some.inj hb'
              omega
            · rename_i hnot
              rw [before_iff_gap_lt ha hb] at hnot
              refine ⟨b, rfl, hb, by omega, fun b' hb' => ?_⟩
              obtain rfl := Option.some.inj hb'
              exact Nat.le_refl _
      obtain ⟨c, hc, hcw, hca, hcb⟩ := hstep
      rw [List.foldl_cons, hc] at h
      obtain ⟨hr, hmem⟩ := ih (some c) hrest (fun b hb => by cases hb; exact hcw) h
      have hrc := hr c rfl
      refine ⟨fun b hb => Nat.le_trans hrc (hcb b hb), fun x hx => ?_⟩
      rcases List.mem_cons.mp hx with rfl | hx
      · exact Nat.le_trans hrc hca
      · exact hmem x hx

/-- **No candidate is before the result**, within half of the circle. -/
theorem not_before_earliest {base : BitVec w} {l : List α} (hl : Within reading base l) {r : α}
    (h : earliest reading l = some r) {a : α} (ha : a ∈ l) :
    ¬ Before (reading a) (reading r) := by
  have hle := (foldl_earlierOf_least l none hl nofun h).2 a ha
  rw [before_iff_gap_lt (hl a ha) (hl r (earliest_mem h))]
  omega

end ScxMlfq.Serial
