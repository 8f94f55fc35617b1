import Mathlib.Algebra.BigOperators.Group.Finset.Basic
import Mathlib.Algebra.BigOperators.Ring.Finset
import Mathlib.Data.BitVec

/-!
# Meter — counters in machine words, read from outside

A counter in a word holds the number of events so far, modulo the word.
Each writer may keep a counter of its own: the sum over the writers is
the counter of them all. A reader that keeps its last reading and
subtracts it gets the number of events since, whatever the word has
wrapped to.
-/

namespace ScxMlfq.Meter

variable {w : Nat} {β : Type*}

/-- The counters of the writers make up one counter. -/
theorem sum_ofNat (n : Nat) (f : Nat → Nat) :
    ∑ i ∈ Finset.range n, BitVec.ofNat w (f i) = BitVec.ofNat w (∑ i ∈ Finset.range n, f i) := by
  induction n with
  | zero => rfl
  | succ n ih => rw [Finset.sum_range_succ, Finset.sum_range_succ, ih, BitVec.ofNat_add]

/-- A loop that adds up a word over the writers. -/
theorem foldl_add (n : Nat) (f : Nat → BitVec w) (a : BitVec w) :
    (List.range n).foldl (fun acc i => acc + f i) a = a + ∑ i ∈ Finset.range n, f i := by
  induction n with
  | zero =>
      rw [Finset.sum_range_zero]
      exact (add_zero a).symm
  | succ n ih =>
      rw [List.range_succ, List.foldl_append, ih, Finset.sum_range_succ, ← add_assoc]
      rfl

/-- **Every event is one of its writer's**: the events of the writers add
up to the events. -/
theorem sum_countP (l : List β) (p : β → Bool) (writer : β → Nat) {n : Nat}
    (h : ∀ x ∈ l, p x = true → writer x < n) :
    ∑ i ∈ Finset.range n, l.countP (fun x => p x && decide (writer x = i)) = l.countP p := by
  induction l with
  | nil => simp
  | cons x l ih =>
      have hrest := ih fun y hy => h y (List.mem_cons_of_mem _ hy)
      simp only [List.countP_cons, Finset.sum_add_distrib, hrest]
      congr 1
      cases hp : p x with
      | false => simp
      | true =>
          have hlt := h x List.mem_cons_self hp
          simp [Finset.sum_ite_eq, hlt]

/-- **A difference of two readings** is what was counted in between. -/
theorem ofNat_add_sub (n k : Nat) :
    BitVec.ofNat w (n + k) - BitVec.ofNat w k = BitVec.ofNat w n := by
  rw [BitVec.ofNat_add, add_sub_cancel_right]

end ScxMlfq.Meter
