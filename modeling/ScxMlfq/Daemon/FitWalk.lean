import ScxMlfq.Daemon.Growth

/-!
# Daemon — FitWalk

A grown tree under the validator and under the walk. The validator takes
the nodes in the order they were grown in, so it accepts the tree; the
walk of a feature vector turns at every node the way its samples were
sent, so a training sample ends at the leaf it was counted in.
-/

namespace ScxMlfq

open LevelOrder

variable {K : Type*} [Field K] [LinearOrder K] [FloorSemiring K]

/-- A finished growth of `tree`. -/
abbrev Grown (caps : FitCaps K) (root : List (WeightedSample K)) (jobs : List (NodeSpec K))
    (tree : SerializedTree) : Prop :=
  Growth caps root jobs.length jobs { nodes := tree.nodes, queue := [] }

namespace Grown

variable {caps : FitCaps K} {root : List (WeightedSample K)} {jobs : List (NodeSpec K)}
  {tree : SerializedTree}

theorem nr_eq (h : Grown caps root jobs tree) : tree.nr = jobs.length := h.length

theorem nr_pos (h : Grown caps root jobs tree) : 0 < tree.nr := by
  rw [h.nr_eq]
  exact (List.getElem?_eq_some_iff.mp h.head).1

/-- Every node has its job, and is finished. -/
theorem node (h : Grown caps root jobs tree) {i : Nat} (hi : i < tree.nr) :
    ∃ spec, jobs[i]? = some spec ∧ Filled caps tree.nodes jobs i spec := by
  rw [h.nr_eq] at hi
  have hspec := List.getElem?_eq_getElem hi
  exact ⟨_, hspec, h.filled i _ hi hspec⟩

/-- All nodes are children, but the root. -/
theorem firstChild_nr (h : Grown caps root jobs tree) :
    firstChild (isSplit tree.nodes) tree.nr = tree.nr := by
  rw [h.nr_eq]
  exact h.count.symm

/-- The links of a split are in range and behind it. -/
theorem wellFormed (h : Grown caps root jobs tree) (hmax : caps.maxNodes ≤ mlfqTreeMaxNodes) :
    tree.WellFormed := by
  refine ⟨h.nr_pos, ?_, fun i hi hsplit => ?_⟩
  · rw [h.nr_eq]
    exact Nat.le_trans h.budget hmax
  · obtain ⟨spec, -, hfilled⟩ := h.node hi
    obtain ⟨hl, hr, -, hadm, hljob, hrjob⟩ := hfilled.split hsplit
    have hbehind := hfilled.behind
    have hlt := (List.getElem?_eq_some_iff.mp hljob).1
    have hlt' := (List.getElem?_eq_some_iff.mp hrjob).1
    rw [← h.nr_eq] at hlt hlt'
    change (tree.node i).left.toNat = _ at hl
    change (tree.node i).right.toNat = _ at hr
    exact ⟨hadm.slot, ⟨by omega, by omega⟩, ⟨by omega, by omega⟩⟩

end Grown

/-! ## The validator -/

/-- The search after it has checked the nodes before `k`: it has reached
the children of these, and knows their depths. -/
structure Swept (tree : SerializedTree) (jobs : List (NodeSpec K)) (k : Nat) (s : Bfs) : Prop where
  length : s.depth.length = tree.nr
  queue : s.queue = List.range' k (firstChild (isSplit tree.nodes) k - k)
  known : ∀ (j : Nat) (spec : NodeSpec K), j < firstChild (isSplit tree.nodes) k →
    jobs[j]? = some spec → s.depth.getD j 0 = spec.depth
  unknown : ∀ j, firstChild (isSplit tree.nodes) k ≤ j → j < tree.nr →
    s.depth.getD j 0 = usizeMax

/-- A child not reached before gets its depth and enters the queue. -/
theorem visitChild_new {nr i : Nat} {s : Bfs} {child : U32} (hlt : child.toNat < nr)
    (hbehind : i < child.toNat) (hnew : s.depth.getD child.toNat 0 = usizeMax) :
    visitChild nr i s child
      = .ok { depth := s.depth.set child.toNat (s.depth.getD i 0 + 1)
              queue := s.queue ++ [child.toNat] } := by
  simp only [visitChild]
  rw [if_neg (by omega), if_neg (by omega), if_pos hnew]

/-- The children of a split enter the search one after the other. -/
theorem visitNode_split {tree : SerializedTree} {k l depth : Nat} {s : Bfs}
    (hsplit : isSplit tree.nodes k) (hfeature : (tree.node k).feature.toNat < mlfqTreeNrFeatures)
    (hdepth : s.depth.getD k 0 = depth) (hshallow : depth < mlfqTreeMaxDepth)
    (hlen : s.depth.length = tree.nr) (hl : (tree.node k).left.toNat = l)
    (hr : (tree.node k).right.toNat = l + 1) (hkl : k < l) (hlt : l + 1 < tree.nr)
    (hnew : ∀ j, l ≤ j → j < tree.nr → s.depth.getD j 0 = usizeMax) :
    visitNode tree k s
      = .ok { depth := (s.depth.set l (depth + 1)).set (l + 1) (depth + 1)
              queue := s.queue ++ [l] ++ [l + 1] } := by
  have hin : ¬ (tree.node k).feature ≥ BitVec.ofNat 8 mlfqTreeNrFeatures := by
    rw [ge_iff_le, BitVec.le_def]
    exact Nat.not_le.mpr hfeature
  have hleft : visitChild tree.nr k s (tree.node k).left
      = .ok { depth := s.depth.set l (depth + 1), queue := s.queue ++ [l] } := by
    rw [visitChild_new (by omega) (by omega) (by rw [hl]; exact hnew l (Nat.le_refl l) (by omega)),
      hl, hdepth]
  have hright : visitChild tree.nr k
      { depth := s.depth.set l (depth + 1), queue := s.queue ++ [l] } (tree.node k).right
      = .ok { depth := (s.depth.set l (depth + 1)).set (l + 1) (depth + 1)
              queue := s.queue ++ [l] ++ [l + 1] } := by
    have hsame : (s.depth.set l (depth + 1)).getD k 0 = depth := by
      rw [getD_set (by omega), if_neg (by omega), hdepth]
    have hother : (s.depth.set l (depth + 1)).getD (l + 1) 0 = usizeMax := by
      rw [getD_set (by omega), if_neg (by omega)]
      exact hnew (l + 1) (by omega) hlt
    rw [visitChild_new (by omega) (by omega) (by rw [hr]; exact hother), hr]
    simp only [hsame]
  simp only [visitNode]
  rw [if_neg (show ¬ (tree.node k).right = 0 from hsplit), if_neg hin,
    if_neg (by rw [hdepth]; omega), hleft]
  exact hright

section Visit
variable {caps : FitCaps K} {root : List (WeightedSample K)} {jobs : List (NodeSpec K)}
  {tree : SerializedTree} {k n : Nat} {s : Bfs}

omit [Field K] [LinearOrder K] [FloorSemiring K] in
/-- A leaf queues nothing and gives no node a depth. -/
theorem Swept.visit_leaf (hs : Swept tree jobs k s) (hleaf : ¬ isSplit tree.nodes k)
    (hn : firstChild (isSplit tree.nodes) k - k = n + 1) :
    visitNode tree k { s with queue := List.range' (k + 1) n }
        = .ok { s with queue := List.range' (k + 1) n }
      ∧ Swept tree jobs (k + 1) { s with queue := List.range' (k + 1) n } := by
  have hnext := firstChild_succ_of_not hleaf
  refine ⟨?_, ⟨hs.length, ?_, ?_, ?_⟩⟩
  · simp only [visitNode]
    rw [if_pos (not_not.mp hleaf : (tree.node k).right = 0)]
  · have hrest : firstChild (isSplit tree.nodes) k - (k + 1) = n := by omega
    rw [hnext, hrest]
  · rw [hnext]
    exact hs.known
  · rw [hnext]
    exact hs.unknown

/-- A split queues its children, one level below it. -/
theorem Swept.visit_split (h : Grown caps root jobs tree)
    (hmaxDepth : caps.maxDepth ≤ mlfqTreeMaxDepth) (hs : Swept tree jobs k s) {spec : NodeSpec K}
    (hspec : jobs[k]? = some spec) (hfilled : Filled caps tree.nodes jobs k spec)
    (hsplit : isSplit tree.nodes k) (hn : firstChild (isSplit tree.nodes) k - k = n + 1) :
    ∃ s', visitNode tree k { s with queue := List.range' (k + 1) n } = .ok s'
      ∧ Swept tree jobs (k + 1) s' := by
  have hbehind := hfilled.behind
  have hlen := hs.length
  obtain ⟨hl, hr, hdepth, hadm, hljob, hrjob⟩ := hfilled.split hsplit
  change (tree.node k).left.toNat = _ at hl
  change (tree.node k).right.toNat = _ at hr
  have hlt := (List.getElem?_eq_some_iff.mp hrjob).1
  rw [← h.nr_eq] at hlt
  have hknown := hs.known
  have hunknown := hs.unknown
  have hdk : s.depth.getD k 0 = spec.depth := hknown k spec hbehind hspec
  have hnext := firstChild_succ_of_split hsplit
  have hvisit := @visitNode_split tree k _ spec.depth
    { s with queue := List.range' (k + 1) n } hsplit hadm.slot hdk (by omega) hlen hl hr hbehind
    hlt hunknown
  generalize firstChild (isSplit tree.nodes) k = l at *
  refine ⟨_, hvisit, ⟨?_, ?_, ?_, ?_⟩⟩
  · simpa using hlen
  · have hrest : l + 2 - (k + 1) = n + 1 + 1 := by omega
    have hend : l = k + 1 + n := by omega
    rw [hnext, hrest, List.range'_1_concat, List.range'_1_concat, ← Nat.add_assoc, ← hend]
  · -- the depths known are the earlier ones and those of the two children
    intro j job hj hjob
    rw [hnext] at hj
    simp only
    rw [getD_set (by simpa using by omega), getD_set (by omega)]
    by_cases hjr : l + 1 = j
    · subst hjr
      obtain rfl := Option.some.inj (hrjob.symm.trans hjob)
      rw [if_pos rfl]
    · rw [if_neg hjr]
      by_cases hjl : l = j
      · subst hjl
        obtain rfl := Option.some.inj (hljob.symm.trans hjob)
        rw [if_pos rfl]
      · rw [if_neg hjl]
        exact hknown j job (by omega) hjob
  · intro j hj hjn
    rw [hnext] at hj
    simp only
    rw [getD_set (by simpa using by omega), getD_set (by omega), if_neg (by omega),
      if_neg (by omega)]
    exact hunknown j (by omega) hjn

/-- **One node of the search**, taken in the order of the growth. -/
theorem Swept.visit (h : Grown caps root jobs tree) (hmaxDepth : caps.maxDepth ≤ mlfqTreeMaxDepth)
    (hk : k < tree.nr) (hs : Swept tree jobs k s) :
    ∃ queue s', s.queue = k :: queue ∧ visitNode tree k { s with queue } = .ok s'
      ∧ Swept tree jobs (k + 1) s' := by
  obtain ⟨spec, hspec, hfilled⟩ := h.node hk
  have hbehind := hfilled.behind
  obtain ⟨n, hn⟩ : ∃ n, firstChild (isSplit tree.nodes) k - k = n + 1 :=
    ⟨firstChild (isSplit tree.nodes) k - k - 1, by omega⟩
  have hqueue : s.queue = k :: List.range' (k + 1) n := by
    rw [hs.queue, hn, List.range'_succ]
  refine ⟨List.range' (k + 1) n, ?_⟩
  by_cases hsplit : isSplit tree.nodes k
  · obtain ⟨s', hvisit, hnext⟩ := hs.visit_split h hmaxDepth hspec hfilled hsplit hn
    exact ⟨s', hqueue, hvisit, hnext⟩
  · obtain ⟨hvisit, hnext⟩ := hs.visit_leaf hsplit hn
    exact ⟨_, hqueue, hvisit, hnext⟩

end Visit

/-- **The search passes every node** and ends with all depths known. -/
theorem Swept.bfs {caps : FitCaps K} {root : List (WeightedSample K)}
    {jobs : List (NodeSpec K)} {tree : SerializedTree} (h : Grown caps root jobs tree)
    (hmaxDepth : caps.maxDepth ≤ mlfqTreeMaxDepth) {fuel k : Nat} (hfuel : k + fuel = tree.nr)
    {s : Bfs} (hs : Swept tree jobs k s) :
    ∃ s', ScxMlfq.bfs tree fuel s = .ok s' ∧ Swept tree jobs tree.nr s' := by
  induction fuel generalizing k s with
  | zero =>
      obtain rfl : k = tree.nr := hfuel
      exact ⟨s, rfl, hs⟩
  | succ fuel ih =>
      obtain ⟨queue, s', hqueue, hvisit, hs'⟩ := hs.visit h hmaxDepth (by omega)
      rw [ScxMlfq.bfs, hqueue]
      simp only [hvisit]
      exact ih (by omega) hs'

/-- At the start only the depth of the root is known. -/
theorem Swept.start {caps : FitCaps K} {root : List (WeightedSample K)}
    {jobs : List (NodeSpec K)} {tree : SerializedTree} (h : Grown caps root jobs tree) :
    Swept tree jobs 0 (bfsStart tree) := by
  have hpos := h.nr_pos
  have hlen : 0 < (List.replicate tree.nr usizeMax).length := by simpa using hpos
  refine ⟨by simp [bfsStart], ?_, fun j spec hj hspec => ?_, fun j hj hjn => ?_⟩
  · rw [firstChild_zero]
    rfl
  · rw [firstChild_zero] at hj
    obtain rfl : j = 0 := by omega
    obtain rfl := Option.some.inj (h.head.symm.trans hspec)
    rw [bfsStart, getD_set hlen, if_pos rfl]
  · rw [firstChild_zero] at hj
    rw [bfsStart, getD_set hlen, if_neg (by omega)]
    simp [List.getD_eq_getElem?_getD, hjn]

/-- The pass over the depths accepts small ones. -/
theorem checkDepths_of_le {ds : List Nat} (i : Nat) (h : ∀ d ∈ ds, d ≤ mlfqTreeMaxDepth) :
    checkDepths i ds = .ok () := by
  induction ds generalizing i with
  | nil => rfl
  | cons d ds ih =>
      have hd := h d List.mem_cons_self
      have hmax : mlfqTreeMaxDepth < usizeMax := by decide
      rw [checkDepths, if_neg (by omega), if_neg (by omega)]
      exact ih (i + 1) fun d' hd' => h d' (List.mem_cons_of_mem d hd')

/-- **The validator accepts a grown tree.** -/
theorem Grown.serializeValidate_ok {caps : FitCaps K} {root : List (WeightedSample K)}
    {jobs : List (NodeSpec K)} {tree : SerializedTree} (h : Grown caps root jobs tree)
    (hmaxDepth : caps.maxDepth ≤ mlfqTreeMaxDepth) (hmax : caps.maxNodes ≤ mlfqTreeMaxNodes) :
    serializeValidate tree = .ok () := by
  have hpos := h.nr_pos
  have hbudget := h.budget
  rw [← h.nr_eq] at hbudget
  obtain ⟨s, hbfs, hs⟩ := Swept.bfs h hmaxDepth (Nat.zero_add _) (Swept.start h)
  rw [serializeValidate, if_neg (by omega), if_neg (by omega), hbfs]
  refine checkDepths_of_le 0 fun d hd => ?_
  obtain ⟨j, hj, rfl⟩ := List.mem_iff_getElem.mp hd
  have hjn : j < tree.nr := by
    rw [← hs.length]
    exact hj
  obtain ⟨spec, hspec, -⟩ := h.node hjn
  have hdepth := hs.known j spec (by rw [h.firstChild_nr]; exact hjn) hspec
  rw [List.getD_eq_getElem?_getD, List.getElem?_eq_getElem hj, Option.getD_some] at hdepth
  rw [hdepth]
  exact Nat.le_trans (h.job j spec hspec).2 hmaxDepth

/-! ## The parents -/

namespace Grown

variable {caps : FitCaps K} {root : List (WeightedSample K)} {jobs : List (NodeSpec K)}
  {tree : SerializedTree}

/-- The links of a node are its places in the level order. -/
theorem child_iff (h : Grown caps root jobs tree) {i : Nat} (hi : i < tree.nr) (j : Nat) :
    Child (isSplit tree.nodes) i j
      ↔ (tree.node i).right ≠ 0
        ∧ ((tree.node i).left.toNat = j ∨ (tree.node i).right.toNat = j) := by
  refine and_congr_right fun hsplit => ?_
  obtain ⟨spec, -, hfilled⟩ := h.node hi
  have hat := hfilled.split hsplit
  have hl : (tree.node i).left.toNat = _ := hat.left
  have hr : (tree.node i).right.toNat = _ := hat.right
  omega

/-- **Every node but the root has exactly one parent.** -/
theorem existsUnique_parent (h : Grown caps root jobs tree) {j : Nat} (h0 : 0 < j)
    (hj : j < tree.nr) :
    ∃! i, i < tree.nr ∧ (tree.node i).right ≠ 0
      ∧ ((tree.node i).left.toNat = j ∨ (tree.node i).right.toNat = j) := by
  have hplace : j < firstChild (isSplit tree.nodes) tree.nr := by
    rw [h.firstChild_nr]
    exact hj
  obtain ⟨i, ⟨hi, hchild⟩, hunique⟩ := LevelOrder.existsUnique_parent h0 hplace
  refine ⟨i, ⟨hi, (h.child_iff hi j).mp hchild⟩, fun i' hi' => ?_⟩
  exact hunique i' ⟨hi'.1, (h.child_iff hi'.1 j).mpr hi'.2⟩

/-! ## The depths -/

/-- A way down the tree adds a level for each turn. -/
theorem depth_descend (h : Grown caps root jobs tree) {turns : List Bool} {i j : Nat}
    {tests : List (Thresholds.Test Nat Nat)} (hi : i < tree.nr)
    (hway : descend tree i turns = some (tests, j)) {spec : NodeSpec K}
    (hspec : jobs[i]? = some spec) :
    j < tree.nr ∧ ∃ job, jobs[j]? = some job ∧ job.depth = spec.depth + turns.length := by
  induction turns generalizing i tests spec with
  | nil =>
      cases hway
      exact ⟨hi, spec, hspec, rfl⟩
  | cons right turns ih =>
      by_cases hleaf : (tree.node i).right = 0
      · rw [descend] at hway
        simp only [if_pos hleaf] at hway
        cases hway
      · rw [descend] at hway
        simp only [if_neg hleaf] at hway
        obtain ⟨r, hr, hcons⟩ := Option.map_eq_some_iff.mp hway
        cases hcons
        obtain ⟨spec', hspec', hfilled⟩ := h.node hi
        obtain rfl := Option.some.inj (hspec.symm.trans hspec')
        have hat := hfilled.split hleaf
        have hl : (tree.node i).left.toNat = _ := hat.left
        have hr' : (tree.node i).right.toNat = _ := hat.right
        have hlt := (List.getElem?_eq_some_iff.mp hat.leftJob).1
        have hlt' := (List.getElem?_eq_some_iff.mp hat.rightJob).1
        rw [← h.nr_eq] at hlt hlt'
        cases right with
        | false =>
            rw [if_neg Bool.false_ne_true, hl] at hr
            obtain ⟨hj, job, hjob, hdepth⟩ := ih hlt hr hat.leftJob
            refine ⟨hj, job, hjob, ?_⟩
            rw [hdepth, List.length_cons]
            simp only
            omega
        | true =>
            rw [if_pos rfl, hr'] at hr
            obtain ⟨hj, job, hjob, hdepth⟩ := ih hlt' hr hat.rightJob
            refine ⟨hj, job, hjob, ?_⟩
            rw [hdepth, List.length_cons]
            simp only
            omega

/-- **No split at the depth limit.** -/
theorem depth_lt (h : Grown caps root jobs tree) {turns : List Bool} {j : Nat}
    {tests : List (Thresholds.Test Nat Nat)} (hway : descend tree 0 turns = some (tests, j))
    (hsplit : (tree.node j).right ≠ 0) : turns.length < caps.maxDepth := by
  obtain ⟨hj, job, hjob, hdepth⟩ := h.depth_descend h.nr_pos hway h.head
  obtain ⟨spec, hspec, hfilled⟩ := h.node hj
  obtain rfl := Option.some.inj (hjob.symm.trans hspec)
  have hlt := (hfilled.split hsplit).depth
  simp only at hdepth
  omega

end Grown

end ScxMlfq
