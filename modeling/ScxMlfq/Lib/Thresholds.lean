import Mathlib.Order.Lattice
import Mathlib.Order.MinMax

/-!
# Thresholds — satisfiable sets of one-sided tests

A decision path compares coordinates of a point with thresholds and
remembers which side it took. Some point takes the path if and only if
no test is impossible on its own and no two tests on one coordinate
contradict each other. The point is explicit: each coordinate at the
least of its upper bounds.
-/

namespace ScxMlfq.Thresholds

variable {ι V : Type*} [LinearOrder V]

/-- One comparison of a coordinate, with its outcome: `above` when the
coordinate exceeded the threshold. -/
structure Test (ι V : Type*) where
  coord : ι
  threshold : V
  above : Bool

/-- The point `x` takes the test's side. -/
def Test.Holds (x : ι → V) (t : Test ι V) : Prop :=
  if t.above then t.threshold < x t.coord else x t.coord ≤ t.threshold

/-- No threshold to exceed is the top of its coordinate or beyond, and
none is at or above a threshold of the same coordinate that was not
exceeded. -/
structure Consistent (top : ι → V) (ts : List (Test ι V)) : Prop where
  room : ∀ t ∈ ts, t.above = true → t.threshold < top t.coord
  ordered : ∀ t ∈ ts, t.above = true → ∀ u ∈ ts, u.above = false →
    u.coord = t.coord → t.threshold < u.threshold

/-- The least upper bound the tests leave a coordinate. -/
def bound [DecidableEq ι] (top : ι → V) (ts : List (Test ι V)) (i : ι) : V :=
  match ts with
  | [] => top i
  | t :: ts =>
      if t.above = false ∧ t.coord = i then min t.threshold (bound top ts i)
      else bound top ts i

variable [DecidableEq ι] {top : ι → V} {ts : List (Test ι V)}

theorem bound_le_top (i : ι) : bound top ts i ≤ top i := by
  induction ts with
  | nil => exact le_refl _
  | cons t ts ih =>
      rw [bound]
      split
      · exact le_trans (min_le_right _ _) ih
      · exact ih

theorem bound_le {t : Test ι V} (ht : t ∈ ts) (habove : t.above = false) :
    bound top ts t.coord ≤ t.threshold := by
  induction ts with
  | nil => cases ht
  | cons u ts ih =>
      rw [bound]
      rcases List.mem_cons.mp ht with rfl | hmem
      · rw [if_pos ⟨habove, rfl⟩]
        exact min_le_left _ _
      · split
        · exact le_trans (min_le_right _ _) (ih hmem)
        · exact ih hmem

/-- The bound is one of the thresholds, or the top. -/
theorem lt_bound {v : V} {i : ι} (htop : v < top i)
    (h : ∀ u ∈ ts, u.above = false → u.coord = i → v < u.threshold) :
    v < bound top ts i := by
  induction ts with
  | nil => exact htop
  | cons u ts ih =>
      have hrest := ih fun u' hu' => h u' (List.mem_cons_of_mem _ hu')
      rw [bound]
      split
      · rename_i hu
        exact lt_min (h u List.mem_cons_self hu.1 hu.2) hrest
      · exact hrest

/-- **A path of tests is taken by some point if and only if it is
consistent.** -/
theorem exists_holds_iff :
    (∃ x : ι → V, (∀ i, x i ≤ top i) ∧ ∀ t ∈ ts, t.Holds x) ↔ Consistent top ts := by
  constructor
  · rintro ⟨x, hx, hts⟩
    refine ⟨fun t ht habove => ?_, fun t ht habove u hu hbelow hcoord => ?_⟩
    · have h := hts t ht
      rw [Test.Holds, if_pos habove] at h
      exact lt_of_lt_of_le h (hx t.coord)
    · have h := hts t ht
      have k := hts u hu
      rw [Test.Holds, if_pos habove] at h
      rw [Test.Holds, hbelow, if_neg Bool.false_ne_true, hcoord] at k
      exact lt_of_lt_of_le h k
  · intro hts
    refine ⟨bound top ts, bound_le_top, fun t ht => ?_⟩
    rw [Test.Holds]
    split
    · rename_i habove
      exact lt_bound (hts.room t ht habove) (hts.ordered t ht habove)
    · rename_i hbelow
      exact bound_le ht (Bool.not_eq_true _ ▸ hbelow)

end ScxMlfq.Thresholds
