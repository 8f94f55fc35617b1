import Mathlib.Data.Rat.Floor
import Mathlib.Tactic.Linarith
import ScxMlfq.Daemon.FitWalk

/-!
# Daemon — Routing

Where the walk of a grown tree ends. A node is reached by a feature vector
when the tests above it turn that way; the samples of a node's job are the
training samples that reach it, and a walk ends at the one leaf it
reaches. So a leaf answers with the weighted mean label of exactly the
samples that end there, which lies between their labels.
-/

namespace ScxMlfq

variable {K : Type*} [Field K] [LinearOrder K] [FloorSemiring K]

/-- A walk that is not cut short gets to node `i`. -/
inductive Reach (tree : SerializedTree) (f : TreeFeats) : Nat → Prop
  | root : Reach tree f 0
  | turn {i : Nat} : Reach tree f i → (tree.node i).right ≠ 0 →
      Reach tree f (turn tree i f).toNat

/-- The node a walk ends at. -/
def WalkExit.idx : WalkExit → Nat
  | .leaf _ idx => idx
  | .exhausted idx => idx
  | .tail idx => idx
  | .badFeature idx => idx

/-- The samples the walk of `predict` ends at node `l` for. -/
def routed (tree : SerializedTree) (l : Nat) (samples : List (WeightedSample K)) :
    List (WeightedSample K) :=
  samples.filter fun x => decide ((predictWalk tree x.1.feats).exit.idx = l)

/-- The weighted mean label. -/
def meanLabel (samples : List (WeightedSample K)) : K :=
  (labelTotals samples).wy / (labelTotals samples).w

/-! ## The way of a walk -/

/-- A walk stays on the nodes it reaches. -/
theorem Reach.exit {tree : SerializedTree} (h : tree.WellFormed) {f : TreeFeats} {i : Nat}
    (hreach : Reach tree f i) (hi : i < tree.nr) (fuel : Nat) :
    Reach tree f (predictFrom tree f fuel i).exit.idx := by
  induction fuel generalizing i with
  | zero =>
      by_cases hleaf : (tree.node i).right = 0
      · rw [predictFrom_leaf hi hleaf]
        exact hreach
      · rw [predictFrom_exhausted hi hleaf]
        exact hreach
  | succ fuel ih =>
      by_cases hleaf : (tree.node i).right = 0
      · rw [predictFrom_leaf hi hleaf]
        exact hreach
      · rw [predictFrom_internal h hi hleaf]
        exact ih (hreach.turn hleaf) ((h.node i hi hleaf).turn f).2

/-- The two sides of a split, told by their place. -/
theorem turn_toNat {tree : SerializedTree} {i l : Nat} (hl : (tree.node i).left.toNat = l)
    (hr : (tree.node i).right.toNat = l + 1) (f : TreeFeats) :
    (turn tree i f).toNat
      = if featSlot f (tree.node i).feature.toNat ≤ (tree.node i).threshold then l else l + 1 := by
  simp only [turn]
  split
  · exact hl
  · exact hr

namespace Grown

variable {caps : FitCaps K} {root : List (WeightedSample K)} {jobs : List (NodeSpec K)}
  {tree : SerializedTree}

/-- The child a walk turns to has a job, one level down. -/
theorem turn_job (h : Grown caps root jobs tree) {i : Nat} (hi : i < tree.nr)
    (hsplit : (tree.node i).right ≠ 0) {spec : NodeSpec K} (hspec : jobs[i]? = some spec)
    (f : TreeFeats) :
    spec.depth < caps.maxDepth ∧
      ∃ job, jobs[(turn tree i f).toNat]? = some job ∧ job.depth = spec.depth + 1 := by
  obtain ⟨spec', hspec', hfilled⟩ := h.node hi
  obtain rfl := Option.some.inj (hspec.symm.trans hspec')
  have hat := hfilled.split hsplit
  refine ⟨hat.depth, ?_⟩
  rw [turn_toNat hat.left hat.right]
  split
  · exact ⟨_, hat.leftJob, rfl⟩
  · exact ⟨_, hat.rightJob, rfl⟩

theorem reach_lt (h : Grown caps root jobs tree) (hmax : caps.maxNodes ≤ mlfqTreeMaxNodes)
    {f : TreeFeats} {i : Nat} (hreach : Reach tree f i) : i < tree.nr := by
  induction hreach with
  | root => exact h.nr_pos
  | turn _ hsplit ih => exact (((h.wellFormed hmax).node _ ih hsplit).turn f).2

/-- A walk arrives at a node it reaches with the turns of its depth
taken. -/
theorem predictWalk_reach (h : Grown caps root jobs tree)
    (hmaxDepth : caps.maxDepth ≤ mlfqTreeMaxDepth) (hmax : caps.maxNodes ≤ mlfqTreeMaxNodes)
    {f : TreeFeats} {i : Nat} (hreach : Reach tree f i) {spec : NodeSpec K}
    (hspec : jobs[i]? = some spec) :
    predictWalk tree f = predictFrom tree f (mlfqTreeMaxDepth - spec.depth) i := by
  induction hreach generalizing spec with
  | root =>
      obtain rfl := Option.some.inj (h.head.symm.trans hspec)
      rfl
  | @turn i hreach hsplit ih =>
      have hi := h.reach_lt hmax hreach
      obtain ⟨above, habove, -⟩ := h.node hi
      obtain ⟨hshallow, job, hjob, hdepth⟩ := h.turn_job hi hsplit habove f
      obtain rfl := Option.some.inj (hspec.symm.trans hjob)
      have hturns : mlfqTreeMaxDepth - above.depth = mlfqTreeMaxDepth - spec.depth + 1 := by omega
      rw [ih habove, hturns, predictFrom_internal (h.wellFormed hmax) hi hsplit]

/-- **Every walk ends at a leaf.** -/
theorem stopsAtLeaf (h : Grown caps root jobs tree)
    (hmaxDepth : caps.maxDepth ≤ mlfqTreeMaxDepth) (hmax : caps.maxNodes ≤ mlfqTreeMaxNodes)
    (f : TreeFeats) : StopsAtLeaf tree (predictWalk tree f) := by
  rcases predictFrom_cases (h.wellFormed hmax) f (Nat.le_refl _) h.nr_pos
    with hstop | ⟨turns, tests, j, hlen, hway, hj, -⟩
  · exact hstop
  · have := h.depth_lt hway hj
    omega

/-- A walk ends at the leaf it reaches, and nowhere else. -/
theorem exit_eq_iff (h : Grown caps root jobs tree)
    (hmaxDepth : caps.maxDepth ≤ mlfqTreeMaxDepth) (hmax : caps.maxNodes ≤ mlfqTreeMaxNodes)
    {l : Nat} (hl : l < tree.nr) (hleaf : (tree.node l).right = 0) (f : TreeFeats) :
    (predictWalk tree f).exit.idx = l ↔ Reach tree f l := by
  constructor
  · intro hend
    rw [← hend]
    exact Reach.root.exit (h.wellFormed hmax) h.nr_pos _
  · intro hreach
    obtain ⟨spec, hspec, -⟩ := h.node hl
    rw [h.predictWalk_reach hmaxDepth hmax hreach hspec, predictFrom_leaf hl hleaf]
    rfl

/-! ## The samples of a node -/

/-- A child is reached through its parent, by the side of the test. -/
theorem reach_child (h : Grown caps root jobs tree) (hmax : caps.maxNodes ≤ mlfqTreeMaxNodes)
    {i l : Nat} (hi : i < tree.nr) (hsplit : (tree.node i).right ≠ 0)
    (hl : (tree.node i).left.toNat = l) (hr : (tree.node i).right.toNat = l + 1) (f : TreeFeats) :
    (Reach tree f l ↔ Reach tree f i
        ∧ featSlot f (tree.node i).feature.toNat ≤ (tree.node i).threshold)
      ∧ (Reach tree f (l + 1) ↔ Reach tree f i
        ∧ ¬ featSlot f (tree.node i).feature.toNat ≤ (tree.node i).threshold) := by
  have hok := (h.wellFormed hmax).node i hi hsplit
  have hleft := hok.left
  have hright := hok.right
  rw [hl] at hleft
  rw [hr] at hright
  have hturn := turn_toNat hl hr f
  -- a reached child was turned to from its only parent
  have hparent {j : Nat} (hj : j = l ∨ j = l + 1) (hreach : Reach tree f j) :
      Reach tree f i ∧ (turn tree i f).toNat = j := by
    obtain ⟨p, -, hunique⟩ := h.existsUnique_parent (j := j) (by omega) (by omega)
    have hip : i = p := hunique i ⟨hi, hsplit, by omega⟩
    generalize hk : j = k at hreach
    cases hreach with
    | root => omega
    | @turn i' hreach' hsplit' =>
        have hi' := h.reach_lt hmax hreach'
        have hat' : (tree.node i').left.toNat = j ∨ (tree.node i').right.toNat = j := by
          rw [hk]
          simp only [ScxMlfq.turn]
          split
          · exact Or.inl rfl
          · exact Or.inr rfl
        obtain rfl : i = i' := hip.trans (hunique i' ⟨hi', hsplit', hat'⟩).symm
        exact ⟨hreach', rfl⟩
  constructor
  · constructor
    · intro hreach
      obtain ⟨habove, hto⟩ := hparent (Or.inl rfl) hreach
      refine ⟨habove, ?_⟩
      by_contra hgt
      rw [hturn, if_neg hgt] at hto
      omega
    · rintro ⟨habove, hle⟩
      rw [if_pos hle] at hturn
      exact hturn ▸ habove.turn hsplit
  · constructor
    · intro hreach
      obtain ⟨habove, hto⟩ := hparent (Or.inr rfl) hreach
      refine ⟨habove, fun hle => ?_⟩
      rw [hturn, if_pos hle] at hto
      omega
    · rintro ⟨habove, hgt⟩
      rw [if_neg hgt] at hturn
      exact hturn ▸ habove.turn hsplit

/-- A node below the root has the samples its parent sent to its side. -/
theorem parent_job (h : Grown caps root jobs tree) {j : Nat} (hpos : 0 < j) {spec : NodeSpec K}
    (hspec : jobs[j]? = some spec) :
    ∃ i above, i < j ∧ i < tree.nr ∧ (tree.node i).right ≠ 0 ∧ jobs[i]? = some above
      ∧ SplitAt caps tree.nodes jobs i above (tree.node i)
      ∧ ((tree.node i).left.toNat = j ∧ spec.samples
            = leftSamples (tree.node i).feature.toNat (tree.node i).threshold above.samples
        ∨ (tree.node i).right.toNat = j ∧ spec.samples
            = rightSamples (tree.node i).feature.toNat (tree.node i).threshold above.samples) := by
  have hj : j < tree.nr := by
    rw [h.nr_eq]
    exact (List.getElem?_eq_some_iff.mp hspec).1
  obtain ⟨i, ⟨hi, hsplit, hside⟩, -⟩ := h.existsUnique_parent hpos hj
  obtain ⟨above, habove, hfilled⟩ := h.node hi
  have hat := hfilled.split hsplit
  have hbehind := hfilled.behind
  obtain ⟨hleft, hright⟩ : (tree.node i).left.toNat = _ ∧ (tree.node i).right.toNat = _ :=
    ⟨hat.left, hat.right⟩
  refine ⟨i, above, by omega, hi, hsplit, habove, hat, ?_⟩
  rcases hside with hl | hr
  · have hjob := hat.leftJob
    rw [← hleft, hl] at hjob
    obtain rfl := Option.some.inj (hjob.symm.trans hspec)
    exact .inl ⟨hl, rfl⟩
  · have hjob := hat.rightJob
    rw [← hright, hr] at hjob
    obtain rfl := Option.some.inj (hjob.symm.trans hspec)
    exact .inr ⟨hr, rfl⟩

open Classical in
/-- **The samples of a job are those that reach its node.** -/
theorem samples_eq (h : Grown caps root jobs tree) (hmax : caps.maxNodes ≤ mlfqTreeMaxNodes)
    {j : Nat} {spec : NodeSpec K} (hspec : jobs[j]? = some spec) :
    spec.samples = root.filter fun x => decide (Reach tree x.1.feats j) := by
  induction j using Nat.strong_induction_on generalizing spec with
  | _ j ih =>
      rcases Nat.eq_zero_or_pos j with rfl | hpos
      · obtain rfl := Option.some.inj (h.head.symm.trans hspec)
        exact (List.filter_eq_self.mpr fun x _ => decide_eq_true Reach.root).symm
      · obtain ⟨i, above, hij, hi, hsplit, habove, hat, hside⟩ := h.parent_job hpos hspec
        have hright : (tree.node i).right.toNat = (tree.node i).left.toNat + 1 := by
          rw [hat.left, hat.right]
        have hchild := h.reach_child hmax hi hsplit rfl hright
        have hsamples := ih i hij habove
        rcases hside with ⟨hl, heq⟩ | ⟨hr, heq⟩
        · rw [heq, leftSamples, hsamples, List.filter_filter]
          refine List.filter_congr fun x _ => ?_
          rw [← hl, ← Bool.decide_and, decide_eq_decide, (hchild x.1.feats).1]
          exact and_comm
        · rw [heq, rightSamples, hsamples, List.filter_filter]
          refine List.filter_congr fun x _ => ?_
          rw [← hr, hright, ← Bool.decide_and, decide_eq_decide, (hchild x.1.feats).2]
          exact and_comm

/-- **A leaf was made for the samples that end there.** -/
theorem routed_eq (h : Grown caps root jobs tree)
    (hmaxDepth : caps.maxDepth ≤ mlfqTreeMaxDepth) (hmax : caps.maxNodes ≤ mlfqTreeMaxNodes)
    {l : Nat} {spec : NodeSpec K} (hspec : jobs[l]? = some spec)
    (hleaf : (tree.node l).right = 0) : routed tree l root = spec.samples := by
  classical
  have hl : l < tree.nr := by
    rw [h.nr_eq]
    exact (List.getElem?_eq_some_iff.mp hspec).1
  rw [h.samples_eq hmax hspec, routed]
  refine List.filter_congr fun x _ => ?_
  rw [decide_eq_decide]
  exact h.exit_eq_iff hmaxDepth hmax hl hleaf x.1.feats

/-- A node below the root has as many samples as a leaf must have. -/
theorem samples_length (h : Grown caps root jobs tree) {j : Nat} (hpos : 0 < j)
    {spec : NodeSpec K} (hspec : jobs[j]? = some spec) :
    0 < spec.samples.length ∧ caps.minSamplesLeaf ≤ spec.samples.length := by
  obtain ⟨i, above, -, -, -, -, hat, ⟨-, heq⟩ | ⟨-, heq⟩⟩ := h.parent_job hpos hspec
  · rw [heq]
    exact hat.admissible.left
  · rw [heq]
    exact hat.admissible.right

/-- Below a split root every node has samples of one of its sides. -/
theorem samples_side (h : Grown caps root jobs tree) {j : Nat} (hpos : 0 < j)
    {spec : NodeSpec K} (hspec : jobs[j]? = some spec) :
    spec.samples ⊆ leftSamples (tree.node 0).feature.toNat (tree.node 0).threshold root
      ∨ spec.samples ⊆ rightSamples (tree.node 0).feature.toNat (tree.node 0).threshold root := by
  induction j using Nat.strong_induction_on generalizing spec with
  | _ j ih =>
      obtain ⟨i, above, hij, -, -, habove, -, hside⟩ := h.parent_job hpos hspec
      rcases Nat.eq_zero_or_pos i with rfl | hi
      · -- a child of the root
        obtain rfl := Option.some.inj (h.head.symm.trans habove)
        rcases hside with ⟨-, heq⟩ | ⟨-, heq⟩
        · exact .inl fun x hx => heq ▸ hx
        · exact .inr fun x hx => heq ▸ hx
      · have hsub : spec.samples ⊆ above.samples := by
          rcases hside with ⟨-, heq⟩ | ⟨-, heq⟩
          · rw [heq]
            exact List.filter_subset_self _
          · rw [heq]
            exact List.filter_subset_self _
        exact (ih i hij hi habove).imp (List.Subset.trans hsub) (List.Subset.trans hsub)

/-- The value of a walk: the leaf of the samples that end where it
does. -/
theorem predict_eq (h : Grown caps root jobs tree)
    (hmaxDepth : caps.maxDepth ≤ mlfqTreeMaxDepth) (hmax : caps.maxNodes ≤ mlfqTreeMaxNodes)
    (f : TreeFeats) :
    predict tree f = (leafPrediction (toU64 (meanLabel
        (routed tree (predictWalk tree f).exit.idx root)))).setWidth 64 := by
  obtain ⟨edges, l, hexit, -, hl, hleaf, hvalue⟩ := h.stopsAtLeaf hmaxDepth hmax f
  obtain ⟨spec, hspec, hfilled⟩ := h.node hl
  have hnode : tree.node l = leafNode spec.samples := hfilled.leaf (not_not.mpr hleaf)
  rw [predict, hvalue, hexit, WalkExit.idx, h.routed_eq hmaxDepth hmax hspec hleaf, hnode]
  rfl

end Grown

end ScxMlfq
