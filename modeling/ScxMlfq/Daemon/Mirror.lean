import ScxMlfq.Daemon.TreeWalk

/-!
# Daemon — Mirror

The two walks on any node list that fits the buffer, validated or not.
`predict` is the Rust mirror of `mlfq_tree_walk`, and the two mask and
cut every walk alike, with one difference: at a split on a slot beyond
the populated ones the scheduler's walk returns 0, and the daemon's
reads the zeroed or carried-along slot and goes on.
-/

namespace ScxMlfq

/-! ## The padded reading -/

/-- The buffer reads as the list does, zeroed nodes behind its end. -/
theorem MlfqTreeStore.ofNodes_node (tree : SerializedTree) (idx : U32) :
    (MlfqTreeStore.ofNodes tree.nodes).nodes (maskIdx idx) = tree.node (maskIdx idx) := rfl

/-- A node behind the end of the list is a leaf that predicts 0. -/
theorem SerializedTree.node_of_ge {tree : SerializedTree} {i : Nat} (h : tree.nr ≤ i) :
    tree.node i = {} := by
  rw [node, List.getD_eq_getElem?_getD, List.getElem?_eq_none h]
  rfl

/-- The slot a walk reads at a node. -/
def maskedSlot (node : TreeNode) : Nat := (node.feature &&& 0xF).toNat

/-- The child a feature vector turns to, by the slot a walk reads. -/
def maskedTurn (node : TreeNode) (f : TreeFeats) : U32 :=
  if featSlot f (maskedSlot node) ≤ node.threshold then node.left else node.right

/-- The daemon's walk ends at a leaf, in the list or behind it. -/
theorem predictFrom_value_leaf {tree : SerializedTree} {i : Nat}
    (hleaf : (tree.node i).right = 0) (f : TreeFeats) (fuel : Nat) :
    (predictFrom tree f fuel i).value = (tree.node i).left.setWidth 64 := by
  by_cases hi : i < tree.nr
  · rw [predictFrom_leaf hi hleaf]
  · have hge : tree.nr ≤ i := Nat.not_lt.mp hi
    rw [SerializedTree.node_of_ge hge]
    cases fuel with
    | zero =>
        rw [predictFrom, if_pos hge]
        rfl
    | succ fuel =>
        rw [predictFrom, if_pos hge]
        rfl

/-- An internal node is in the list. -/
theorem SerializedTree.lt_nr_of_internal {tree : SerializedTree} {i : Nat}
    (h : (tree.node i).right ≠ 0) : i < tree.nr := by
  by_contra hi
  rw [node_of_ge (Nat.not_lt.mp hi)] at h
  exact h rfl

theorem predictFrom_masked {tree : SerializedTree} {i : Nat}
    (hnode : (tree.node i).right ≠ 0) (f : TreeFeats) (fuel : Nat) :
    predictFrom tree f (fuel + 1) i
      = predictFrom tree f fuel (maskIdx (maskedTurn (tree.node i) f)) := by
  have hi := SerializedTree.lt_nr_of_internal hnode
  rw [predictFrom, if_neg (Nat.not_le.mpr hi)]
  simp only [if_neg hnode]
  rfl

theorem walkFrom_value_leaf {tree : SerializedTree} {idx : U32}
    (hleaf : (tree.node (maskIdx idx)).right = 0) (f : TreeFeats) (fuel : Nat) :
    (walkFrom (.ofNodes tree.nodes) f fuel idx).value
      = (tree.node (maskIdx idx)).left.setWidth 64 := by
  cases fuel with
  | zero =>
      rw [walkFrom, MlfqTreeStore.ofNodes_node]
      simp only [if_pos hleaf]
  | succ fuel =>
      rw [walkFrom, MlfqTreeStore.ofNodes_node, nodeStep, if_pos hleaf]

/-- At an internal node the scheduler's walk stops on a slot beyond the
populated ones, and else turns where the daemon's does. -/
theorem walkFrom_masked {tree : SerializedTree} {idx : U32}
    (hnode : (tree.node (maskIdx idx)).right ≠ 0) (f : TreeFeats) (fuel : Nat) :
    walkFrom (.ofNodes tree.nodes) f (fuel + 1) idx
      = if mlfqTreeNrFeatures ≤ maskedSlot (tree.node (maskIdx idx))
        then ⟨.badFeature (maskIdx idx), 0⟩
        else walkFrom (.ofNodes tree.nodes) f fuel (maskedTurn (tree.node (maskIdx idx)) f) := by
  rw [walkFrom, MlfqTreeStore.ofNodes_node, nodeStep, if_neg hnode]
  by_cases hslot : mlfqTreeNrFeatures ≤ maskedSlot (tree.node (maskIdx idx))
  · rw [if_pos hslot]
    simp only [maskedSlot] at hslot
    simp only [ge_iff_le, if_pos hslot]
  · rw [if_neg hslot]
    simp only [maskedSlot] at hslot
    simp only [ge_iff_le, if_neg hslot]
    rfl

/-! ## The ways of both walks -/

/-- The test a walk puts to a feature vector, with its outcome. -/
def maskedTest (node : TreeNode) (right : Bool) : Thresholds.Test Nat Nat :=
  ⟨maskedSlot node, node.threshold.toNat, right⟩

/-- A list of turns from node `i` with every child index masked: the
tests along the way and the node it ends at. None where the way runs
past a leaf. -/
def maskedDescend (tree : SerializedTree) :
    Nat → List Bool → Option (List (Thresholds.Test Nat Nat) × Nat)
  | i, [] => some ([], i)
  | i, right :: turns =>
      let node := tree.node i
      if node.right = 0 then none
      else
        (maskedDescend tree (maskIdx (if right then node.right else node.left)) turns).map
          fun r => (maskedTest node right :: r.1, r.2)

theorem maskedTest_holds_iff (node : TreeNode) (f : TreeFeats) (right : Bool) :
    (maskedTest node right).Holds (featValue f)
      ↔ decide (¬ featSlot f (maskedSlot node) ≤ node.threshold) = right :=
  test_holds_iff ..

theorem maskedTurn_eq (node : TreeNode) (f : TreeFeats) :
    maskedTurn node f
      = if decide (¬ featSlot f (maskedSlot node) ≤ node.threshold)
        then node.right else node.left := by
  by_cases hle : featSlot f (maskedSlot node) ≤ node.threshold
  · simp [maskedTurn, hle]
  · simp [maskedTurn, hle]

/-- A way that `f` takes from node `i` to node `j`, in `fuel` turns at
most. -/
structure Takes (tree : SerializedTree) (f : TreeFeats) (fuel i : Nat)
    (tests : List (Thresholds.Test Nat Nat)) (j : Nat) : Prop where
  way : ∃ turns, turns.length ≤ fuel ∧ maskedDescend tree i turns = some (tests, j)
  holds : ∀ t ∈ tests, t.Holds (featValue f)

theorem Takes.nil (tree : SerializedTree) (f : TreeFeats) (fuel i : Nat) :
    Takes tree f fuel i [] i :=
  ⟨⟨[], Nat.zero_le _, rfl⟩, fun _ h => nomatch h⟩

/-- The way of a walk, one turn longer at its start. -/
theorem Takes.cons {tree : SerializedTree} {f : TreeFeats} {fuel i j : Nat}
    {tests : List (Thresholds.Test Nat Nat)} (hnode : (tree.node i).right ≠ 0)
    (h : Takes tree f fuel (maskIdx (maskedTurn (tree.node i) f)) tests j) :
    ∃ right, Takes tree f (fuel + 1) i (maskedTest (tree.node i) right :: tests) j := by
  obtain ⟨⟨turns, hlen, hway⟩, hts⟩ := h
  let right := decide (¬ featSlot f (maskedSlot (tree.node i)) ≤ (tree.node i).threshold)
  have hturn : maskedTurn (tree.node i) f
      = if right then (tree.node i).right else (tree.node i).left := maskedTurn_eq _ f
  refine ⟨right, ⟨right :: turns, Nat.succ_le_succ hlen, ?_⟩, ?_⟩
  · rw [maskedDescend]
    simp only [if_neg hnode]
    rw [← hturn, hway]
    rfl
  · intro t ht
    rcases List.mem_cons.mp ht with rfl | hmem
    · exact (maskedTest_holds_iff _ f right).mpr rfl
    · exact hts t hmem

/-- **The way to a leaf decides both walks**: the daemon's returns the
leaf, the scheduler's the leaf or, past a slot beyond the populated
ones, 0. -/
theorem Takes.values {tree : SerializedTree} {f : TreeFeats} {fuel j : Nat} {idx : U32}
    {tests : List (Thresholds.Test Nat Nat)} (h : Takes tree f fuel (maskIdx idx) tests j)
    (hleaf : (tree.node j).right = 0) :
    (predictFrom tree f fuel (maskIdx idx)).value = (tree.node j).left.setWidth 64 ∧
    (walkFrom (.ofNodes tree.nodes) f fuel idx).value
      = if ∃ t ∈ tests, mlfqTreeNrFeatures ≤ t.coord then 0
        else (tree.node j).left.setWidth 64 := by
  obtain ⟨⟨turns, hlen, hway⟩, hts⟩ := h
  induction turns generalizing fuel idx tests with
  | nil =>
      cases hway
      rw [predictFrom_value_leaf hleaf, walkFrom_value_leaf hleaf]
      simp
  | cons right turns ih =>
      have hnode : (tree.node (maskIdx idx)).right ≠ 0 := by
        intro hzero
        rw [maskedDescend] at hway
        simp only [if_pos hzero] at hway
        cases hway
      rw [maskedDescend] at hway
      simp only [if_neg hnode] at hway
      obtain ⟨r, hr, hcons⟩ := Option.map_eq_some_iff.mp hway
      cases hcons
      obtain ⟨rest, j⟩ := r
      have hside := (maskedTest_holds_iff _ f right).mp (hts _ List.mem_cons_self)
      have hturn : maskedTurn (tree.node (maskIdx idx)) f
          = if right then (tree.node (maskIdx idx)).right
            else (tree.node (maskIdx idx)).left := by
        rw [maskedTurn_eq, hside]
      cases fuel with
      | zero => simp at hlen
      | succ fuel =>
          rw [← hturn] at hr
          obtain ⟨hpredict, hwalk⟩ := ih
            (fun t ht => hts t (List.mem_cons_of_mem _ ht)) (Nat.le_of_succ_le_succ hlen) hr
          rw [predictFrom_masked hnode, walkFrom_masked hnode]
          refine ⟨hpredict, ?_⟩
          by_cases hslot : mlfqTreeNrFeatures ≤ maskedSlot (tree.node (maskIdx idx))
          · have hpast : ∃ t ∈ maskedTest (tree.node (maskIdx idx)) right :: rest,
                mlfqTreeNrFeatures ≤ t.coord := ⟨_, List.mem_cons_self, hslot⟩
            rw [if_pos hslot, if_pos hpast]
          · rw [if_neg hslot, hwalk]
            simp [maskedTest, hslot]

/-- A prediction other than 0 is the leaf at the end of a way. -/
theorem exists_takes_of_value {tree : SerializedTree} {f : TreeFeats} {fuel i : Nat}
    (h : (predictFrom tree f fuel i).value ≠ 0) :
    ∃ tests j, Takes tree f fuel i tests j ∧ (tree.node j).right = 0
      ∧ (tree.node j).left ≠ 0 := by
  induction fuel generalizing i with
  | zero =>
      by_cases hleaf : (tree.node i).right = 0
      · refine ⟨[], i, .nil tree f 0 i, hleaf, ?_⟩
        intro hzero
        rw [predictFrom_value_leaf hleaf, hzero] at h
        exact h rfl
      · have hi := SerializedTree.lt_nr_of_internal hleaf
        rw [predictFrom_exhausted hi hleaf] at h
        exact absurd rfl h
  | succ fuel ih =>
      by_cases hleaf : (tree.node i).right = 0
      · refine ⟨[], i, .nil tree f _ i, hleaf, ?_⟩
        intro hzero
        rw [predictFrom_value_leaf hleaf, hzero] at h
        exact h rfl
      · rw [predictFrom_masked hleaf] at h
        obtain ⟨tests, j, htakes, hj⟩ := ih h
        obtain ⟨right, hcons⟩ := htakes.cons hleaf
        exact ⟨_, j, hcons, hj⟩

/-- The walks part only on a way to a leaf past such a slot. -/
theorem exists_takes_of_ne {tree : SerializedTree} {f : TreeFeats} {fuel : Nat} {idx : U32}
    (h : (predictFrom tree f fuel (maskIdx idx)).value
      ≠ (walkFrom (.ofNodes tree.nodes) f fuel idx).value) :
    ∃ tests j, Takes tree f fuel (maskIdx idx) tests j ∧ (tree.node j).right = 0
      ∧ (tree.node j).left ≠ 0 ∧ ∃ t ∈ tests, mlfqTreeNrFeatures ≤ t.coord := by
  induction fuel generalizing idx with
  | zero =>
      by_cases hleaf : (tree.node (maskIdx idx)).right = 0
      · rw [predictFrom_value_leaf hleaf, walkFrom_value_leaf hleaf] at h
        exact absurd rfl h
      · have hi := SerializedTree.lt_nr_of_internal hleaf
        rw [predictFrom_exhausted hi hleaf, walkFrom, MlfqTreeStore.ofNodes_node] at h
        simp only [if_neg hleaf] at h
        exact absurd rfl h
  | succ fuel ih =>
      by_cases hleaf : (tree.node (maskIdx idx)).right = 0
      · rw [predictFrom_value_leaf hleaf, walkFrom_value_leaf hleaf] at h
        exact absurd rfl h
      · rw [predictFrom_masked hleaf, walkFrom_masked hleaf] at h
        by_cases hslot : mlfqTreeNrFeatures ≤ maskedSlot (tree.node (maskIdx idx))
        · rw [if_pos hslot] at h
          obtain ⟨tests, j, htakes, hj, hvalue⟩ := exists_takes_of_value h
          obtain ⟨right, hcons⟩ := htakes.cons hleaf
          exact ⟨_, j, hcons, hj, hvalue, _, List.mem_cons_self, hslot⟩
        · rw [if_neg hslot] at h
          obtain ⟨tests, j, htakes, hj, hvalue, t, ht, hpast⟩ := ih h
          obtain ⟨right, hcons⟩ := htakes.cons hleaf
          exact ⟨_, j, hcons, hj, hvalue, t, List.mem_cons_of_mem _ ht, hpast⟩

/-! ## Where the mirror holds -/

/-- On its way through the tree `f` passes a split on a slot beyond the
populated ones, and the way ends at a leaf that predicts. -/
def SerializedTree.Misroutes (tree : SerializedTree) (f : TreeFeats) : Prop :=
  ∃ tests j, Takes tree f mlfqTreeMaxDepth 0 tests j ∧ (tree.node j).right = 0
    ∧ (tree.node j).left ≠ 0 ∧ ∃ t ∈ tests, mlfqTreeNrFeatures ≤ t.coord

/-- The tree has such a way, with tests that do not contradict each
other. -/
def SerializedTree.Misrouted (tree : SerializedTree) : Prop :=
  ∃ turns tests j, turns.length ≤ mlfqTreeMaxDepth
    ∧ maskedDescend tree 0 turns = some (tests, j) ∧ (tree.node j).right = 0
    ∧ (tree.node j).left ≠ 0 ∧ (∃ t ∈ tests, mlfqTreeNrFeatures ≤ t.coord)
    ∧ Thresholds.Consistent slotTop tests

theorem SerializedTree.exists_misroutes_iff {tree : SerializedTree} :
    (∃ f, tree.Misroutes f) ↔ tree.Misrouted := by
  constructor
  · rintro ⟨f, tests, j, ⟨⟨turns, hlen, hway⟩, hts⟩, hleaf, hvalue, hpast⟩
    refine ⟨turns, tests, j, hlen, hway, hleaf, hvalue, hpast, ?_⟩
    exact Thresholds.exists_holds_iff.mp ⟨featValue f, featValue_le_slotTop f, hts⟩
  · rintro ⟨turns, tests, j, hlen, hway, hleaf, hvalue, hpast, hts⟩
    obtain ⟨x, hx, hpass⟩ := Thresholds.exists_holds_iff.mpr hts
    obtain ⟨f, hf⟩ := exists_featValue hx
    have hfx : featValue f = x := funext hf
    rw [← hfx] at hpass
    exact ⟨f, tests, j, ⟨⟨turns, hlen, hway⟩, hpass⟩, hleaf, hvalue, hpast⟩

/-- The mirror, for one feature vector. -/
theorem predict_eq_walk_iff_takes (tree : SerializedTree) (f : TreeFeats) :
    predict tree f = mlfqTreeWalk (.ofNodes tree.nodes) f ↔ ¬ tree.Misroutes f := by
  show (predictFrom tree f mlfqTreeMaxDepth (maskIdx 0)).value
      = (walkFrom (.ofNodes tree.nodes) f mlfqTreeMaxDepth 0).value ↔ _
  constructor
  · rintro heq ⟨tests, j, htakes, hleaf, hvalue, hpast⟩
    change Takes tree f mlfqTreeMaxDepth (maskIdx 0) tests j at htakes
    obtain ⟨hpredict, hwalk⟩ := htakes.values hleaf
    rw [if_pos hpast] at hwalk
    rw [hpredict, hwalk] at heq
    apply hvalue
    have hnat := congrArg BitVec.toNat heq
    rw [toNat_setWidth_counter] at hnat
    exact BitVec.eq_of_toNat_eq hnat
  · intro h
    by_contra hne
    exact h (exists_takes_of_ne hne)

/-- **Where the daemon's walk mirrors the scheduler's.** On one feature
vector the two agree exactly when its way through the tree passes no
split on a slot beyond the populated ones or ends at no predicting leaf,
and they agree on all exactly when no consistent way of the tree does
both. -/
theorem predict_mirrors_walk_iff (tree : SerializedTree) :
    (∀ f, predict tree f = mlfqTreeWalk (.ofNodes tree.nodes) f ↔ ¬ tree.Misroutes f) ∧
    ((∀ f, predict tree f = mlfqTreeWalk (.ofNodes tree.nodes) f) ↔ ¬ tree.Misrouted) := by
  refine ⟨predict_eq_walk_iff_takes tree, ?_⟩
  rw [← SerializedTree.exists_misroutes_iff, not_exists]
  exact forall_congr' (predict_eq_walk_iff_takes tree)

/-- A stump that splits on slot nine, the variance the feature vector
carries along. -/
def carriedStump : SerializedTree where
  nodes := [{ left := 1, right := 2, feature := 9 }, { left := 900000 }, { left := 7000000 }]

/-- The daemon predicts a leaf of it and the scheduler 0. -/
theorem carriedStump_parts :
    ¬ ∀ tree : SerializedTree, 1 ≤ tree.nr → tree.nr ≤ mlfqTreeMaxNodes →
      ∀ f, predict tree f = mlfqTreeWalk (.ofNodes tree.nodes) f := by
  intro hclaim
  have hsame := hclaim carriedStump (by decide) (by decide) {}
  exact absurd hsame (by decide)

end ScxMlfq
