import Mathlib.Algebra.BigOperators.Fin
import Mathlib.Algebra.Order.BigOperators.Group.List
import Mathlib.Algebra.Order.BigOperators.Ring.Finset
import Mathlib.Algebra.Order.Field.Basic
import Mathlib.Tactic.Linarith
import Mathlib.Tactic.Ring

/-!
# Correlation — moments and means of a list

Sums over a list in an ordered field: the square of a sum of products is
bounded by the product of the sums of squares, so their quotient by its
root lies between minus one and one; and what a weighted mean is between.
-/

namespace ScxMlfq.Correlation

variable {α K : Type*} [Field K] [LinearOrder K]

variable [IsStrictOrderedRing K]

/-- **The square of the covariance** is bounded by the two variances. -/
theorem sum_mul_sq_le (l : List α) (f g : α → K) :
    (l.map fun a => f a * g a).sum ^ 2
      ≤ (l.map fun a => f a * f a).sum * (l.map fun a => g a * g a).sum := by
  have h := Finset.sum_mul_sq_le_sq_mul_sq Finset.univ (fun i : Fin l.length => f l[i.1])
    (fun i : Fin l.length => g l[i.1])
  simp only [sq, Fin.sum_univ_fun_getElem l (fun a => f a * g a),
    Fin.sum_univ_fun_getElem l (fun a => f a * f a),
    Fin.sum_univ_fun_getElem l (fun a => g a * g a)] at h
  rw [sq]
  exact h

theorem sum_sq_nonneg (l : List α) (f : α → K) : 0 ≤ (l.map fun a => f a * f a).sum := by
  apply List.sum_nonneg
  intro x hx
  obtain ⟨a, -, rfl⟩ := List.mem_map.mp hx
  exact mul_self_nonneg (f a)

/-- A sum of squares vanishes with each of them. -/
theorem eq_zero_of_sum_sq {l : List α} {f : α → K} (h : (l.map fun a => f a * f a).sum = 0) {a : α}
    (ha : a ∈ l) : f a = 0 := by
  have hle : f a * f a ≤ (l.map fun a => f a * f a).sum := by
    refine List.single_le_sum (fun x hx => ?_) _ (List.mem_map_of_mem ha)
    obtain ⟨b, -, rfl⟩ := List.mem_map.mp hx
    exact mul_self_nonneg (f b)
  rw [h] at hle
  exact mul_self_eq_zero.mp (le_antisymm hle (mul_self_nonneg (f a)))

/-- A value divided by a root of a bound of its square. -/
theorem div_root_mem {cov v root : K} (hroot : 0 ≤ root) (hv : root * root = v)
    (h : cov ^ 2 ≤ v) : -1 ≤ cov / root ∧ cov / root ≤ 1 := by
  rcases eq_or_lt_of_le hroot with hzero | hpos
  · rw [← hzero, div_zero]
    exact ⟨by linarith [zero_lt_one (α := K)], zero_le_one⟩
  · have habs : |cov| ≤ root := by
      apply abs_le_of_sq_le_sq _ hroot
      rw [sq root, hv]
      exact h
    have hbounds := abs_le.mp habs
    constructor
    · rw [le_div_iff₀ hpos, neg_one_mul]
      exact hbounds.1
    · rw [div_le_one hpos]
      exact hbounds.2

/-- **A correlation** of two functions on a list lies between minus one
and one. -/
theorem correlation_mem (l : List α) (f g : α → K) {root : K} (hroot : 0 ≤ root)
    (hv : root * root = (l.map fun a => f a * f a).sum * (l.map fun a => g a * g a).sum) :
    -1 ≤ (l.map fun a => f a * g a).sum / root ∧ (l.map fun a => f a * g a).sum / root ≤ 1 :=
  div_root_mem hroot hv (sum_mul_sq_le l f g)

/-! ## Weighted means -/

/-- The sum of products with positive weights is between the multiples of
the sum of the weights. -/
theorem sum_weighted_mem {l : List α} {w e : α → K} {lo hi : K} (hw : ∀ a ∈ l, 0 < w a)
    (he : ∀ a ∈ l, lo ≤ e a ∧ e a ≤ hi) :
    lo * (l.map w).sum ≤ (l.map fun a => w a * e a).sum
      ∧ (l.map fun a => w a * e a).sum ≤ hi * (l.map w).sum := by
  induction l with
  | nil => simp
  | cons a l ih =>
      obtain ⟨hlo, hhi⟩ := ih (fun b hb => hw b (List.mem_cons_of_mem a hb))
        fun b hb => he b (List.mem_cons_of_mem a hb)
      obtain ⟨hl, hh⟩ := he a List.mem_cons_self
      have hpos := hw a List.mem_cons_self
      have hl' := mul_le_mul_of_nonneg_left hl (le_of_lt hpos)
      have hh' := mul_le_mul_of_nonneg_left hh (le_of_lt hpos)
      simp only [List.map_cons, List.sum_cons, mul_add]
      constructor
      · linarith
      · linarith

theorem sum_pos_of_ne_nil {l : List α} {w : α → K} (hne : l ≠ []) (hw : ∀ a ∈ l, 0 < w a) :
    0 < (l.map w).sum := by
  apply List.sum_pos
  · intro x hx
    obtain ⟨a, ha, rfl⟩ := List.mem_map.mp hx
    exact hw a ha
  · exact fun hnil => hne (List.map_eq_nil_iff.mp hnil)

/-- **A weighted mean** lies between the least and the greatest value. -/
theorem mean_mem {l : List α} {w e : α → K} {lo hi : K} (hne : l ≠ []) (hw : ∀ a ∈ l, 0 < w a)
    (he : ∀ a ∈ l, lo ≤ e a ∧ e a ≤ hi) :
    lo ≤ (l.map fun a => w a * e a).sum / (l.map w).sum
      ∧ (l.map fun a => w a * e a).sum / (l.map w).sum ≤ hi := by
  have hpos := sum_pos_of_ne_nil hne hw
  obtain ⟨hlo, hhi⟩ := sum_weighted_mem hw he
  exact ⟨(le_div_iff₀ hpos).mpr hlo, (div_le_iff₀ hpos).mpr hhi⟩

/-- A weighted sum of values that are not negative vanishes with them
only. -/
theorem sum_weighted_eq_zero {l : List α} {w e : α → K} (hw : ∀ a ∈ l, 0 < w a)
    (he : ∀ a ∈ l, 0 ≤ e a) : (l.map fun a => w a * e a).sum = 0 ↔ ∀ a ∈ l, e a = 0 := by
  induction l with
  | nil => simp
  | cons a l ih =>
      have hrest := ih (fun b hb => hw b (List.mem_cons_of_mem a hb))
        fun b hb => he b (List.mem_cons_of_mem a hb)
      have hpos := hw a List.mem_cons_self
      have hhead := mul_nonneg (le_of_lt hpos) (he a List.mem_cons_self)
      have htail : 0 ≤ (l.map fun a => w a * e a).sum := by
        apply List.sum_nonneg
        intro x hx
        obtain ⟨b, hb, rfl⟩ := List.mem_map.mp hx
        exact mul_nonneg (le_of_lt (hw b (List.mem_cons_of_mem a hb)))
          (he b (List.mem_cons_of_mem a hb))
      rw [List.map_cons, List.sum_cons, add_eq_zero_iff_of_nonneg hhead htail, hrest,
        mul_eq_zero, List.forall_mem_cons]
      constructor
      · rintro ⟨hzero | hzero, hall⟩
        · exact absurd hzero (ne_of_gt hpos)
        · exact ⟨hzero, hall⟩
      · exact fun h => ⟨.inr h.1, h.2⟩

end ScxMlfq.Correlation
