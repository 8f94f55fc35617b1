import Mathlib.Data.Nat.Count

/-!
# LevelOrder — binary trees stored breadth first

A binary tree grown breadth first, each node stored at the place it was
created at. The children of a node that splits are created together, when
it is taken up, behind all nodes created before. Which nodes split thus
fixes all links: the first child of a node stands behind the root and two
places for each split before it, and every place but the root belongs to
the children of exactly one node.
-/

namespace ScxMlfq.LevelOrder

variable (split : Nat → Prop) [DecidablePred split]

/-- The place of the first child of node `i`, where it has children. -/
def firstChild (i : Nat) : Nat := 2 * Nat.count split i + 1

/-- Node `j` is a child of node `i`. -/
def Child (i j : Nat) : Prop :=
  split i ∧ (j = firstChild split i ∨ j = firstChild split i + 1)

variable {split}

theorem firstChild_zero : firstChild split 0 = 1 := by
  rw [firstChild, Nat.count_zero]

theorem firstChild_succ_of_split {i : Nat} (h : split i) :
    firstChild split (i + 1) = firstChild split i + 2 := by
  rw [firstChild, firstChild, Nat.count_succ, if_pos h]
  omega

theorem firstChild_succ_of_not {i : Nat} (h : ¬ split i) :
    firstChild split (i + 1) = firstChild split i := by
  rw [firstChild, firstChild, Nat.count_succ, if_neg h]
  rfl

theorem firstChild_mono {i j : Nat} (h : i ≤ j) : firstChild split i ≤ firstChild split j := by
  have := Nat.count_monotone split h
  simp only [firstChild]
  omega

/-- The children of a split stand before those of a later one. -/
theorem firstChild_add_two_le {i j : Nat} (h : split i) (hij : i < j) :
    firstChild split i + 2 ≤ firstChild split j := by
  rw [← firstChild_succ_of_split h]
  exact firstChild_mono hij

/-- The place depends on the splits before the node only. -/
theorem firstChild_congr {split' : Nat → Prop} [DecidablePred split'] {n : Nat}
    (h : ∀ i, i < n → (split i ↔ split' i)) : firstChild split n = firstChild split' n := by
  have hle := Nat.count_mono_left fun k hk => (h k hk).mp
  have hge := Nat.count_mono_left fun k hk => (h k hk).mpr
  rw [firstChild, firstChild, Nat.le_antisymm hle hge]

/-- A node has one parent at most. -/
theorem Child.parent_unique {i i' j : Nat} (h : Child split i j) (h' : Child split i' j) :
    i = i' := by
  obtain ⟨hs, hj⟩ := h
  obtain ⟨hs', hj'⟩ := h'
  rcases Nat.lt_trichotomy i i' with hlt | heq | hlt
  · have := firstChild_add_two_le hs hlt
    omega
  · exact heq
  · have := firstChild_add_two_le hs' hlt
    omega

/-- **Every node but the root has exactly one parent.** -/
theorem existsUnique_parent {n j : Nat} (h0 : 0 < j) (h : j < firstChild split n) :
    ∃! i, i < n ∧ Child split i j := by
  have hexists : ∃ i, i < n ∧ Child split i j := by
    induction n with
    | zero =>
        rw [firstChild_zero] at h
        omega
    | succ n ih =>
        rcases Nat.lt_or_ge j (firstChild split n) with hlt | hge
        · obtain ⟨i, hi, hchild⟩ := ih hlt
          exact ⟨i, by omega, hchild⟩
        · -- the place was created by node `n`
          by_cases hs : split n
          · rw [firstChild_succ_of_split hs] at h
            exact ⟨n, by omega, hs, by omega⟩
          · rw [firstChild_succ_of_not hs] at h
            omega
  obtain ⟨i, hi, hchild⟩ := hexists
  exact ⟨i, ⟨hi, hchild⟩, fun i' h' => h'.2.parent_unique hchild⟩

end ScxMlfq.LevelOrder
