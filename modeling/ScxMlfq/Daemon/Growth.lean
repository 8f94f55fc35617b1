import ScxMlfq.Daemon.Fit

/-!
# Daemon — Growth

What the growth of a tree keeps. Every node is made for the samples of one
queue entry, its job, and the jobs stand in the queue in the order of the
nodes. So the nodes before the head of the queue are finished, those from
it on are placeholders, and a finished split has its children where the
level order puts them, with the samples it sent to either side.
-/

namespace ScxMlfq

open LevelOrder

variable {K : Type*} [Field K] [LinearOrder K] [FloorSemiring K]

/-- Node `i` splits. -/
def isSplit (nodes : List TreeNode) (i : Nat) : Prop := (nodes.getD i {}).right ≠ 0

instance (nodes : List TreeNode) : DecidablePred (isSplit nodes) :=
  fun _ => inferInstanceAs (Decidable (_ ≠ _))

/-- A finished split: its links, its depth, and the jobs of its children. -/
structure SplitAt (caps : FitCaps K) (nodes : List TreeNode) (jobs : List (NodeSpec K)) (i : Nat)
    (spec : NodeSpec K) (node : TreeNode) : Prop where
  left : node.left.toNat = firstChild (isSplit nodes) i
  right : node.right.toNat = firstChild (isSplit nodes) i + 1
  depth : spec.depth < caps.maxDepth
  admissible : Admissible spec.samples caps.minSamplesLeaf node.feature.toNat node.threshold
  leftJob : jobs[firstChild (isSplit nodes) i]? = some
    { idx := firstChild (isSplit nodes) i
      samples := leftSamples node.feature.toNat node.threshold spec.samples
      depth := spec.depth + 1 }
  rightJob : jobs[firstChild (isSplit nodes) i + 1]? = some
    { idx := firstChild (isSplit nodes) i + 1
      samples := rightSamples node.feature.toNat node.threshold spec.samples
      depth := spec.depth + 1 }

/-- A finished node: a leaf of its samples for which no split was chosen
while the nodes were those before its children, or a finished split. -/
structure Filled (caps : FitCaps K) (nodes : List TreeNode) (jobs : List (NodeSpec K)) (i : Nat)
    (spec : NodeSpec K) : Prop where
  behind : i < firstChild (isSplit nodes) i
  leaf : ¬ isSplit nodes i → nodes.getD i {} = leafNode spec.samples
  kept : ¬ isSplit nodes i → ∃ st : FitState K,
    st.nodes.length = firstChild (isSplit nodes) i ∧ chosenSplit caps st spec = none
  split : isSplit nodes i → SplitAt caps nodes jobs i spec (nodes.getD i {})

/-- The growth after `k` nodes. -/
structure Growth (caps : FitCaps K) (root : List (WeightedSample K)) (k : Nat)
    (jobs : List (NodeSpec K)) (st : FitState K) : Prop where
  queue : st.queue = jobs.drop k
  length : st.nodes.length = jobs.length
  started : k ≤ jobs.length
  count : jobs.length = firstChild (isSplit st.nodes) k
  budget : jobs.length ≤ caps.maxNodes
  job : ∀ (i : Nat) (spec : NodeSpec K), jobs[i]? = some spec →
    spec.idx = i ∧ spec.depth ≤ caps.maxDepth
  head : jobs[0]? = some { idx := 0, samples := root, depth := 0 }
  filled : ∀ (i : Nat) (spec : NodeSpec K), i < k → jobs[i]? = some spec →
    Filled caps st.nodes jobs i spec

/-- The root placeholder and its job. -/
theorem Growth.start (caps : FitCaps K) (hnodes : 1 ≤ caps.maxNodes)
    (root : List (WeightedSample K)) :
    Growth caps root 0 [{ idx := 0, samples := root, depth := 0 }]
      { nodes := [{}], queue := [{ idx := 0, samples := root, depth := 0 }] } := by
  refine ⟨rfl, rfl, Nat.zero_le _, firstChild_zero.symm, hnodes, fun i spec h => ?_, rfl,
    fun i _ h => absurd h (Nat.not_lt_zero i)⟩
  cases i with
  | zero =>
      obtain rfl := Option.some.inj h
      exact ⟨rfl, Nat.zero_le _⟩
  | succ i => cases h

/-! ## One node -/

/-- The nodes after one was finished and others were put behind them. -/
theorem getD_finished {nodes : List TreeNode} {k : Nat} (hk : k < nodes.length) (node : TreeNode)
    (more : List TreeNode) : (nodes.set k node ++ more).getD k {} = node := by
  rw [List.getD_eq_getElem?_getD, List.getElem?_append_left (by simpa using hk),
    List.getElem?_set_self hk]
  rfl

theorem getD_before {nodes : List TreeNode} {k j : Nat} (hk : k < nodes.length) (hj : j < k)
    (node : TreeNode) (more : List TreeNode) :
    (nodes.set k node ++ more).getD j {} = nodes.getD j {} := by
  rw [List.getD_eq_getElem?_getD, List.getElem?_append_left (by simp; omega),
    List.getElem?_set_ne (by omega), List.getD_eq_getElem?_getD]

/-- Finished nodes stay finished. -/
theorem Filled.mono {caps : FitCaps K} {nodes nodes' : List TreeNode}
    {jobs more : List (NodeSpec K)} {i : Nat} {spec : NodeSpec K}
    (h : Filled caps nodes jobs i spec)
    (hsame : ∀ j, j ≤ i → nodes'.getD j {} = nodes.getD j {}) :
    Filled caps nodes' (jobs ++ more) i spec := by
  have hsplit : ∀ j, j ≤ i → (isSplit nodes' j ↔ isSplit nodes j) := by
    intro j hj
    rw [isSplit, isSplit, hsame j hj]
  have hfirst : firstChild (isSplit nodes') i = firstChild (isSplit nodes) i :=
    firstChild_congr fun j hj => hsplit j (Nat.le_of_lt hj)
  have hgrow : ∀ (j : Nat) (job : NodeSpec K), jobs[j]? = some job →
      (jobs ++ more)[j]? = some job := by
    intro j job hjob
    rw [List.getElem?_append_left (List.getElem?_eq_some_iff.mp hjob).1]
    exact hjob
  refine ⟨by rw [hfirst]; exact h.behind, fun hleaf => ?_, fun hleaf => ?_, fun hs => ?_⟩
  · rw [hsame i (Nat.le_refl i)]
    exact h.leaf ((hsplit i (Nat.le_refl i)).not.mp hleaf)
  · rw [hfirst]
    exact h.kept ((hsplit i (Nat.le_refl i)).not.mp hleaf)
  · obtain ⟨hl, hr, hdepth, hadm, hljob, hrjob⟩ := h.split ((hsplit i (Nat.le_refl i)).mp hs)
    rw [hsame i (Nat.le_refl i)]
    refine ⟨?_, ?_, hdepth, hadm, ?_, ?_⟩
    · rw [hfirst]
      exact hl
    · rw [hfirst]
      exact hr
    · rw [hfirst]
      exact hgrow _ _ hljob
    · rw [hfirst]
      exact hgrow _ _ hrjob

omit [FloorSemiring K] in
/-- A node that takes a split was allowed to. -/
theorem chosenSplit_ok {caps : FitCaps K} {st : FitState K} {spec : NodeSpec K} {feature : Nat}
    {threshold : U64} (h : chosenSplit caps st spec = some (feature, threshold)) :
    spec.depth < caps.maxDepth ∧ st.nodes.length + 2 ≤ caps.maxNodes
      ∧ Admissible spec.samples caps.minSamplesLeaf feature threshold := by
  rw [chosenSplit] at h
  split at h
  · rename_i hsplittable
    exact ⟨hsplittable.1, hsplittable.2.2.1, bestSplit_ok h⟩
  · cases h

/-- The growth with its next node finished, and the jobs of its children
behind the others. -/
theorem Growth.finish {caps : FitCaps K} {root : List (WeightedSample K)} {k : Nat}
    {jobs : List (NodeSpec K)} {st : FitState K} (h : Growth caps root k jobs st)
    (hk : k < jobs.length) {node : TreeNode} {more : List TreeNode} {next : List (NodeSpec K)}
    (hmore : more.length = next.length)
    (hcount : jobs.length + next.length
      = firstChild (isSplit (st.nodes.set k node ++ more)) (k + 1))
    (hbudget : jobs.length + next.length ≤ caps.maxNodes)
    (hnext : ∀ (i : Nat) (job : NodeSpec K), next[i]? = some job →
      job.idx = jobs.length + i ∧ job.depth ≤ caps.maxDepth)
    (hfilled : ∀ spec, jobs[k]? = some spec →
      Filled caps (st.nodes.set k node ++ more) (jobs ++ next) k spec) :
    Growth caps root (k + 1) (jobs ++ next)
      { nodes := st.nodes.set k node ++ more, queue := jobs.drop (k + 1) ++ next } := by
  have hlen := h.length
  have hkn : k < st.nodes.length := by omega
  refine ⟨?_, ?_, ?_, ?_, ?_, fun i job hjob => ?_, ?_, fun i spec hi hspec => ?_⟩
  · rw [List.drop_append_of_le_length hk]
  · rw [List.length_append, List.length_set, List.length_append, hmore, hlen]
  · rw [List.length_append]
    omega
  · rw [List.length_append, hcount]
  · rw [List.length_append]
    exact hbudget
  · rcases Nat.lt_or_ge i jobs.length with hlt | hge
    · rw [List.getElem?_append_left hlt] at hjob
      exact h.job i job hjob
    · rw [List.getElem?_append_right hge] at hjob
      obtain ⟨hidx, hdepth⟩ := hnext (i - jobs.length) job hjob
      exact ⟨by omega, hdepth⟩
  · rw [List.getElem?_append_left (by omega)]
    exact h.head
  · rw [List.getElem?_append_left (by omega)] at hspec
    rcases Nat.lt_or_ge i k with hlt | hge
    · refine (h.filled i spec hlt hspec).mono fun j hj => ?_
      exact getD_before hkn (by omega) node more
    · obtain rfl : i = k := by omega
      exact hfilled spec hspec

section Turn
variable {caps : FitCaps K} {root : List (WeightedSample K)} {k : Nat} {jobs : List (NodeSpec K)}
  {st : FitState K}

/-- The head of the queue is the job of node `k`. -/
theorem Growth.head_job (h : Growth caps root k jobs st) {spec : NodeSpec K}
    {queue : List (NodeSpec K)} (hq : st.queue = spec :: queue) :
    jobs[k]? = some spec ∧ queue = jobs.drop (k + 1) := by
  have hdrop : jobs.drop k = spec :: queue := h.queue.symm.trans hq
  constructor
  · have hhead := congrArg (fun l : List (NodeSpec K) => l[0]?) hdrop
    simpa using hhead
  · have htail := congrArg List.tail hdrop
    rw [List.tail_drop] at htail
    exact htail.symm

/-- The children of node `k` go behind the nodes there are. -/
theorem Growth.firstChild_finished (h : Growth caps root k jobs st) (hk : k < st.nodes.length)
    (node : TreeNode) (more : List TreeNode) :
    firstChild (isSplit (st.nodes.set k node ++ more)) k = jobs.length := by
  rw [h.count]
  refine firstChild_congr fun j hj => ?_
  rw [isSplit, isSplit, getD_before hk hj]

/-- A node that is finished as a leaf. -/
theorem Growth.finish_leaf (h : Growth caps root k jobs st) {spec : NodeSpec K}
    (hspec : jobs[k]? = some spec) {queue : List (NodeSpec K)}
    (hnone : chosenSplit caps { st with queue } spec = none) :
    Growth caps root (k + 1) jobs
      { st with nodes := st.nodes.set k (leafNode spec.samples), queue := jobs.drop (k + 1) } := by
  have hk : k < jobs.length := (List.getElem?_eq_some_iff.mp hspec).1
  have hkn : k < st.nodes.length := by
    rw [h.length]
    exact hk
  have hfirst := h.firstChild_finished hkn
  have hnode := getD_finished hkn (leafNode spec.samples) []
  have hleaf : ¬ isSplit (st.nodes.set k (leafNode spec.samples) ++ []) k := by
    rw [isSplit, hnode]
    exact not_not.mpr rfl
  have hcount := firstChild_succ_of_not hleaf
  rw [hfirst] at hcount
  have hgrowth := @Growth.finish _ _ _ _ caps root k jobs st h hk (leafNode spec.samples) [] []
    rfl hcount.symm h.budget nofun fun spec' hspec' => by
      obtain rfl := Option.some.inj (hspec.symm.trans hspec')
      refine ⟨?_, fun _ => hnode, fun _ => ⟨_, ?_, hnone⟩, fun hs => absurd hs hleaf⟩
      · rw [hfirst]
        exact hk
      · rw [hfirst]
        exact h.length
  simp only [List.append_nil] at hgrowth
  exact hgrowth

/-- **One turn of the loop** finishes the node at the head of the queue. -/
theorem Growth.fitNode (hmax : caps.maxNodes ≤ mlfqTreeMaxNodes)
    (h : Growth caps root k jobs st) {spec : NodeSpec K} {queue : List (NodeSpec K)}
    (hq : st.queue = spec :: queue) :
    ∃ jobs', Growth caps root (k + 1) jobs' (fitNode caps { st with queue } spec) := by
  have hbound : mlfqTreeMaxNodes = 2048 := rfl
  have hbudget := h.budget
  have hlen := h.length
  obtain ⟨hspec, hrest⟩ := h.head_job hq
  have hk : k < jobs.length := (List.getElem?_eq_some_iff.mp hspec).1
  obtain ⟨hidx, hdepth⟩ := h.job k spec hspec
  have hkn : k < st.nodes.length := by omega
  have hfirst := h.firstChild_finished hkn
  rw [ScxMlfq.fitNode, hidx, hrest]
  cases hchosen : chosenSplit caps { st with queue := jobs.drop (k + 1) } spec with
  | none => exact ⟨jobs, h.finish_leaf hspec hchosen⟩
  | some choice =>
      obtain ⟨feature, threshold⟩ := choice
      obtain ⟨hshallow, hroom, hadm⟩ := chosenSplit_ok hchosen
      have hroom' : jobs.length + 2 ≤ caps.maxNodes := by
        rw [← hlen]
        exact hroom
      -- the indices and the feature slot fit their words
      have hleft : (BitVec.ofNat 32 st.nodes.length).toNat = jobs.length := by
        rw [BitVec.toNat_ofNat, Nat.mod_eq_of_lt (by omega), hlen]
      have hright : (BitVec.ofNat 32 st.nodes.length + 1).toNat = jobs.length + 1 := by
        rw [BitVec.toNat_add_of_lt (by rw [hleft]; show jobs.length + 1 < _; omega), hleft]
        rfl
      have hslot : (BitVec.ofNat 8 feature).toNat = feature := by
        have hlt := hadm.slot
        have hnine : mlfqTreeNrFeatures = 9 := rfl
        rw [BitVec.toNat_ofNat]
        exact Nat.mod_eq_of_lt (by omega)
      generalize hnode : ({ threshold, left := BitVec.ofNat 32 st.nodes.length
                            right := BitVec.ofNat 32 st.nodes.length + 1
                            feature := BitVec.ofNat 8 feature } : TreeNode) = node
      have hget := getD_finished hkn node [{}, {}]
      have hs : isSplit (st.nodes.set k node ++ ([{}, {}] : List TreeNode)) k := by
        rw [isSplit, hget, ← hnode]
        intro hzero
        have := congrArg BitVec.toNat hzero
        rw [hright] at this
        cases this
      have hcount := firstChild_succ_of_split hs
      rw [hfirst] at hcount
      dsimp only
      rw [hnode]
      refine ⟨_, h.finish hk rfl hcount.symm hroom' (fun i job hjob => ?_) fun spec' hspec' => ?_⟩
      · match i, hjob with
        | 0, hjob =>
            obtain rfl := Option.some.inj hjob
            exact ⟨hleft, hshallow⟩
        | 1, hjob =>
            obtain rfl := Option.some.inj hjob
            exact ⟨hright, hshallow⟩
      · obtain rfl := Option.some.inj (hspec.symm.trans hspec')
        refine ⟨?_, fun hleaf => absurd hs hleaf, fun hleaf => absurd hs hleaf, fun _ => ?_⟩
        · rw [hfirst]
          exact hk
        · rw [hget, ← hnode]
          constructor
          · rw [hfirst]
            exact hleft
          · rw [hfirst]
            exact hright
          · exact hshallow
          · simp only [hslot]
            exact hadm
          · rw [hfirst, List.getElem?_append_right (Nat.le_refl _), Nat.sub_self, hslot, hleft]
            rfl
          · rw [hfirst, List.getElem?_append_right (show jobs.length ≤ jobs.length + 1 by omega),
              Nat.add_sub_cancel_left, hslot, hright]
            rfl

end Turn

/-! ## The loop -/

/-- A node is queued while there are unfinished ones. -/
theorem Growth.queue_eq_nil {caps : FitCaps K} {root : List (WeightedSample K)} {k : Nat}
    {jobs : List (NodeSpec K)} {st : FitState K} (h : Growth caps root k jobs st) :
    st.queue = [] ↔ k = jobs.length := by
  have hstarted := h.started
  rw [h.queue, List.drop_eq_nil_iff]
  omega

/-- **The loop terminates** within the node budget, with every node
finished. -/
theorem fitLoop_finishes {caps : FitCaps K} (hmax : caps.maxNodes ≤ mlfqTreeMaxNodes)
    {root : List (WeightedSample K)} {fuel k : Nat} (hfuel : caps.maxNodes ≤ k + fuel)
    {jobs : List (NodeSpec K)} {st : FitState K} (h : Growth caps root k jobs st) :
    ∃ st' jobs', fitLoop caps fuel st = some st' ∧ Growth caps root jobs'.length jobs' st' := by
  induction fuel generalizing k jobs st with
  | zero =>
      have hbudget := h.budget
      have hstarted := h.started
      have hdone : k = jobs.length := by omega
      refine ⟨st, jobs, ?_, hdone ▸ h⟩
      rw [fitLoop, h.queue_eq_nil.mpr hdone]
  | succ fuel ih =>
      rw [fitLoop]
      cases hq : st.queue with
      | nil => exact ⟨st, jobs, rfl, (h.queue_eq_nil.mp hq) ▸ h⟩
      | cons spec queue =>
          obtain ⟨jobs', h'⟩ := h.fitNode hmax hq
          exact ih (by omega) h'

/-- The weighted samples of a window. -/
def window (samples : List TreeSample) (weights : List K) : List (WeightedSample K) :=
  samples.zip weights

/-- **A fit returns a tree**, all of whose nodes are finished. -/
theorem fitWithScratch_grown {samples : List TreeSample} (hne : samples ≠ []) (weights : List K)
    {caps : FitCaps K} (hpos : 1 ≤ caps.maxNodes) (hmax : caps.maxNodes ≤ mlfqTreeMaxNodes) :
    ∃ tree jobs, fitWithScratch samples weights caps = some tree
      ∧ Growth caps (window samples weights) jobs.length jobs
          { nodes := tree.nodes, queue := [] } := by
  have hstart := Growth.start caps hpos (window samples weights)
  have hfuel : caps.maxNodes ≤ 0 + caps.maxNodes := by omega
  obtain ⟨st, jobs, hloop, h⟩ := fitLoop_finishes hmax hfuel hstart
  refine ⟨{ nodes := st.nodes }, jobs, ?_, ?_⟩
  · rw [fitWithScratch, if_neg (by simp only [hne, false_or]; omega)]
    show (fitLoop caps caps.maxNodes _).map _ = _
    rw [window] at hloop
    rw [hloop]
    rfl
  · have hq := h.queue_eq_nil.mpr rfl
    obtain ⟨nodes, queue⟩ := st
    simp only at hq
    subst hq
    exact h

end ScxMlfq
