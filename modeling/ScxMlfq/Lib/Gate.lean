import Mathlib.Algebra.Order.Ring.Nat
import ScxMlfq.Lib.Earliest
import ScxMlfq.Lib.Spacing

/-!
# Gate — a stamp that opens once per window

A gate keeps the reading it was last passed at. It opens when it was
never passed, or when the stamp lies more than a window behind, by the
wrapping order. The readings it lets through are more than a window
apart, as long as they are on the first half of the circle.
-/

namespace ScxMlfq.Gate

open Serial Spacing

variable {w : Nat}

/-- The gate opens at `now`. -/
def Opens (window stamp now : BitVec w) : Prop := stamp = 0 ∨ Before (stamp + window) now

instance (window stamp now : BitVec w) : Decidable (Opens window stamp now) :=
  inferInstanceAs (Decidable (_ ∨ _))

/-- On the first half of the circle the order is that of the numbers. -/
theorem before_iff_toNat {a b : BitVec w} (ha : 2 * a.toNat < 2 ^ w) (hb : 2 * b.toNat < 2 ^ w) :
    Before a b ↔ a.toNat < b.toNat := by
  have hgap (c : BitVec w) : gap 0 c = c.toNat := by rw [gap, sub_zero]
  have hiff := @before_iff_gap_lt w 0 a b
  rw [hgap, hgap] at hiff
  exact hiff ha hb

theorem opens_iff {window stamp now : BitVec w} (hs : 2 * (stamp.toNat + window.toNat) < 2 ^ w)
    (hn : 2 * now.toNat < 2 ^ w) :
    Opens window stamp now ↔ stamp = 0 ∨ stamp.toNat + window.toNat < now.toNat := by
  have hsum : (stamp + window).toNat = stamp.toNat + window.toNat := by
    rw [BitVec.toNat_add, Nat.mod_eq_of_lt (by omega)]
  rw [Opens, before_iff_toNat (by rw [hsum]; exact hs) hn, hsum]

/-- The readings a gate was passed at, oldest first, against its stamp. -/
structure Passed (window : Nat) (log : List Nat) (stamp : Nat) : Prop where
  spaced : Spaced (window + 1) log
  positive : ∀ t ∈ log, 0 < t
  latest : ∀ t ∈ log, t ≤ stamp

theorem Passed.never (window : Nat) : Passed window [] 0 :=
  ⟨List.Pairwise.nil, nofun, nofun⟩

/-- **One passage.** -/
theorem Passed.pass {window stamp now : Nat} {log : List Nat} (h : Passed window log stamp)
    (hopen : stamp = 0 ∨ stamp + window < now) (hnow : 0 < now) :
    Passed window (log ++ [now]) now := by
  have hbefore : ∀ t ∈ log, t + (window + 1) ≤ now := by
    intro t ht
    have hle := h.latest t ht
    have hpos := h.positive t ht
    omega
  constructor
  · rw [Spaced, List.pairwise_append]
    refine ⟨h.spaced, List.pairwise_singleton _ _, fun t ht u hu => ?_⟩
    obtain rfl := List.mem_singleton.mp hu
    exact hbefore t ht
  · intro t ht
    rcases List.mem_append.mp ht with ht | ht
    · exact h.positive t ht
    · obtain rfl := List.mem_singleton.mp ht
      exact hnow
  · intro t ht
    rcases List.mem_append.mp ht with ht | ht
    · have hle := hbefore t ht
      omega
    · obtain rfl := List.mem_singleton.mp ht
      exact Nat.le_refl _

/-- **Only so many passages up to a stamp.** -/
theorem Passed.length_le {window stamp : Nat} {log : List Nat} (h : Passed window log stamp) :
    (log.length - 1) * (window + 1) ≤ stamp := by
  by_cases hnil : log = []
  · rw [hnil, List.length_nil, Nat.zero_sub, Nat.zero_mul]
    exact Nat.zero_le _
  · have hspan := h.spaced.span 0 stamp (fun _ _ => Nat.zero_le _) h.latest hnil
    rw [Nat.zero_add, nsmul_eq_mul, Nat.cast_id] at hspan
    exact hspan

end ScxMlfq.Gate
