import Mathlib.Algebra.Order.Group.Abs
import Mathlib.Algebra.Order.Group.Int

/-!
# Slew — a value that follows a target at a limited rate

Each step moves the value toward its target by at most a fixed amount.
The value never leaves an interval that holds it and its targets, and
while the target stays put every step closes the distance to it by the
full amount, until the target is reached.
-/

namespace ScxMlfq.Slew

/-- One step toward `target`, of at most `limit`. -/
def slew (limit prev target : Int) : Int :=
  prev + max (-limit) (min limit (target - prev))

variable {limit prev target lo hi : Int}

/-- A step moves the value by at most the limit. -/
theorem abs_slew_sub_le (hlimit : 0 ≤ limit) : |slew limit prev target - prev| ≤ limit := by
  rw [abs_le, slew]
  omega

/-- A step stays between the value and its target. -/
theorem slew_mem (hlimit : 0 ≤ limit) (hprev : lo ≤ prev ∧ prev ≤ hi)
    (htarget : lo ≤ target ∧ target ≤ hi) :
    lo ≤ slew limit prev target ∧ slew limit prev target ≤ hi := by
  rw [slew]
  omega

/-- **A step closes the distance by the limit**, or all of it. -/
theorem abs_target_sub_slew (hlimit : 0 ≤ limit) :
    |target - slew limit prev target| = max 0 (|target - prev| - limit) := by
  rw [slew]
  rcases le_total 0 (target - prev) with hup | hdown
  · have hrest : 0 ≤ target - (prev + max (-limit) (min limit (target - prev))) := by omega
    rw [abs_of_nonneg hup, abs_of_nonneg hrest]
    omega
  · have hrest : target - (prev + max (-limit) (min limit (target - prev))) ≤ 0 := by omega
    rw [abs_of_nonpos hdown, abs_of_nonpos hrest]
    omega

end ScxMlfq.Slew
