import Mathlib.Algebra.Order.Monoid.Unbundled.Basic
import Mathlib.Algebra.Order.Monoid.Defs
import Mathlib.Algebra.Group.Basic

/-!
# Spacing — values a gap apart

A list of values that grow by at least a gap from each to the next spans
a gap less than it has elements, so between two bounds there is room for
only so many.
-/

namespace ScxMlfq.Spacing

variable {R : Type*} [AddCommMonoid R] [Preorder R] [IsOrderedAddMonoid R]

/-- Each value is at least a gap beyond all before it. -/
def Spaced (gap : R) (l : List R) : Prop := l.Pairwise fun a b => a + gap ≤ b

/-- **The span of spaced values.** -/
theorem Spaced.span {gap : R} {l : List R} (h : Spaced gap l) (lo hi : R)
    (hlo : ∀ x ∈ l, lo ≤ x) (hhi : ∀ x ∈ l, x ≤ hi) (hne : l ≠ []) :
    lo + (l.length - 1) • gap ≤ hi := by
  induction l generalizing lo with
  | nil => exact absurd rfl hne
  | cons a l ih =>
      have hfirst := hlo a List.mem_cons_self
      cases l with
      | nil =>
          rw [List.length_singleton, Nat.sub_self, zero_nsmul, add_zero]
          exact hfirst.trans (hhi a List.mem_cons_self)
      | cons b l =>
          obtain ⟨hnext, hrest⟩ := List.pairwise_cons.mp h
          have hspan := ih hrest (a + gap) (fun x hx => hnext x hx)
            (fun x hx => hhi x (List.mem_cons_of_mem _ hx)) (List.cons_ne_nil b l)
          have hlen : (a :: b :: l).length - 1 = ((b :: l).length - 1) + 1 := rfl
          rw [hlen, succ_nsmul', ← add_assoc]
          exact (add_le_add_left (add_le_add_left hfirst gap) _).trans hspan

end ScxMlfq.Spacing
