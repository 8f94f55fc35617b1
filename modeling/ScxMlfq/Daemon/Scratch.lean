import ScxMlfq.Daemon.Bounds
import ScxMlfq.Daemon.Prediction

/-!
# Daemon — Scratch

The training path of `src/mlfq_tree.rs` and `src/main.rs` on the scratch
arena: the ten buffers are kept from one training to the next, cleared,
refilled and swapped out on the way. Every index, slice and assertion of
the path is a step that may panic, written as a missing result. The
power of two of the recency weights and the square root of the
correlation are parameters.
-/

namespace ScxMlfq

variable {K : Type*} [Field K] [LinearOrder K]

/-! ## The buffers -/

/-- `struct FitScratch`. -/
structure FitScratch (K : Type*) where
  weights : List K := []
  sorted : List (WeightedSample K) := []
  left : List (WeightedSample K) := []
  right : List (WeightedSample K) := []
  nodes : List TreeNode := []
  queue : List (NodeSpec K) := []
  preds : List U64 := []
  actuals : List U64 := []
  emaPreds : List U64 := []
  weightsFull : List K := []

def vecPush {α : Type*} (xs : List α) (x : α) : List α := xs ++ [x]

/-- `xs[i] = x`. -/
def vecSet {α : Type*} (xs : List α) (i : Nat) (x : α) : Option (List α) :=
  if i < xs.length then some (xs.set i x) else none

/-- `&xs[from..]`. -/
def sliceFrom {α : Type*} (xs : List α) (start : Nat) : Option (List α) :=
  if start ≤ xs.length then some (xs.drop start) else none

/-- The weight of sample `i` of `n`. -/
def recencyWeight (exp2 : K → K) (n i : Nat) : K :=
  exp2 (-((n - i : Nat) : K) / ((n : K) / (2 : Nat)))

/-- `sample_weights`. -/
def sampleWeights (exp2 : K → K) (n : Nat) : List K :=
  (List.range n).map (recencyWeight exp2 n)

/-- `sample_weights_into`. -/
def sampleWeightsInto (exp2 : K → K) (n : Nat) (out : List K) : List K :=
  (List.range n).foldl (fun out i => vecPush out (recencyWeight exp2 n i)) (vecClear out)

/-- One sample to its side of a split. -/
def pushSide (feature : Nat) (threshold : U64)
    (sides : List (WeightedSample K) × List (WeightedSample K)) (x : WeightedSample K) :
    List (WeightedSample K) × List (WeightedSample K) :=
  if sampleValue feature x ≤ threshold then (vecPush sides.1 x, sides.2)
  else (sides.1, vecPush sides.2 x)

/-! ## The fit -/

namespace FitScratch

/-- What the growth reads of the arena. -/
def growth (s : FitScratch K) : FitState K := ⟨s.nodes, s.queue⟩

/-- The split of a node, searched on the sorting buffer. -/
def searchNode (caps : FitCaps K) (s : FitScratch K) (spec : NodeSpec K) :
    Option (Option (Nat × U64) × FitScratch K) :=
  if splittable caps s.growth spec then
    (bestSplitIndexed spec.samples caps.minSamplesLeaf (labelTotals spec.samples).sse
      caps.minRelVarReduction s.sorted).map fun r => (r.1, { s with sorted := r.2 })
  else some (none, s)

/-- The node becomes a split: the sides are filled into the buffers, which
are swapped for new ones. -/
def splitNode (s : FitScratch K) (spec : NodeSpec K) (choice : Nat × U64) :
    Option (FitScratch K) :=
  let leftIdx := BitVec.ofNat 32 s.nodes.length
  let rightIdx := leftIdx + 1
  let node : TreeNode :=
    { threshold := choice.2, left := leftIdx, right := rightIdx
      feature := BitVec.ofNat 8 choice.1 }
  (vecSet s.nodes spec.idx node).map fun nodes =>
    let sides := spec.samples.foldl (pushSide choice.1 choice.2) (vecClear s.left, vecClear s.right)
    let queue := vecPush s.queue
      { idx := leftIdx.toNat, samples := sides.1, depth := spec.depth + 1 }
    { s with
      nodes := vecPush (vecPush nodes {}) {}
      left := []
      right := []
      queue := vecPush queue
        { idx := rightIdx.toNat, samples := sides.2, depth := spec.depth + 1 } }

variable [FloorSemiring K]

/-- The node becomes a leaf. -/
def fillLeaf (s : FitScratch K) (spec : NodeSpec K) : Option (FitScratch K) :=
  (vecSet s.nodes spec.idx (leafNode spec.samples)).map fun nodes => { s with nodes := nodes }

/-- The node taken off the queue. -/
def fillNode (caps : FitCaps K) (s : FitScratch K) (spec : NodeSpec K) :
    Option (FitScratch K) :=
  (s.searchNode caps spec).bind fun r =>
    r.1.elim (r.2.fillLeaf spec) fun choice => r.2.splitNode spec choice

/-- The loop over the queue, `fuel` nodes at most. -/
def growLoop (caps : FitCaps K) : Nat → FitScratch K → Option (FitScratch K)
  | fuel, s =>
      match s.queue with
      | [] => some s
      | spec :: queue =>
          match fuel with
          | 0 => none
          | fuel + 1 => (fillNode caps { s with queue := queue } spec).bind (growLoop caps fuel)

/-- `fit_with_scratch`: the tree, and the arena it leaves. -/
def fitWithScratch (exp2 : K → K) (samples : List TreeSample) (caps : FitCaps K)
    (s : FitScratch K) : Option (SerializedTree × FitScratch K) :=
  if samples = [] ∨ caps.maxNodes = 0 then some ({ nodes := [] }, s)
  else
    let weights := sampleWeightsInto exp2 samples.length s.weights
    let nodes := vecClear s.nodes
    let queue := vecClear s.queue
    let nodes := vecPush nodes {}
    -- the root samples are filled into the left buffer, which is swapped for a new one
    let left := (samples.zip weights).foldl vecPush (vecClear s.left)
    let queue := vecPush queue { idx := 0, samples := left, depth := 0 }
    (growLoop caps caps.maxNodes
      { s with
        weights := weights
        nodes := nodes
        left := []
        queue := queue }).map fun s => ({ nodes := s.nodes }, { s with nodes := [] })

end FitScratch

/-- `fit`. -/
def fit [FloorSemiring K] (exp2 : K → K) (samples : List TreeSample) (caps : FitCaps K) :
    Option SerializedTree :=
  (FitScratch.fitWithScratch exp2 samples caps {}).map Prod.fst

/-! ## The evaluation -/

/-- `split_holdout`. `split_at` panics behind the end. -/
def splitHoldout (samples : List TreeSample) :
    Option (Except String (List TreeSample × List TreeSample)) :=
  if samples.length ≥ 20 then
    let cut := samples.length - samples.length / 10
    if cut ≤ samples.length then some (.ok (samples.take cut, samples.drop cut)) else none
  else
    some (.error (s!"training window holds only {samples.length} samples; {20} are needed for " ++
      "a 90/10 holdout split"))

/-- `tree_distinct_pids`. -/
def treeDistinctPids (samples : List TreeSample) : Nat :=
  (samples.foldl (fun (seen : Finset Nat) s => insert s.pid seen) ∅).card

/-- The error of one prediction, and its weight. -/
def addError (acc : K × K) (x : (U64 × U64) × K) : K × K :=
  let err : U64 := if x.1.1 ≥ x.1.2 then x.1.1 - x.1.2 else x.1.2 - x.1.1
  (acc.1 + x.2, acc.2 + x.2 * (err.toNat : K))

/-- `weighted_holdout_mae`, with its assertions on the lengths. -/
def weightedHoldoutMae (preds actuals : List U64) (weights : List K) : Option K :=
  if preds.length ≠ actuals.length then none
  else if preds.length ≠ weights.length then none
  else if preds = [] then some 0
  else
    let sums := ((preds.zip actuals).zip weights).foldl addError (0, 0)
    some (if sums.1 = 0 then 0 else sums.2 / sums.1)

/-- The mean of a vector of words. -/
def wordMean (xs : List U64) : K :=
  xs.foldl (fun acc v => acc + (v.toNat : K)) 0 / (xs.length : K)

/-- The products of one pair of deviations. -/
def addMoments (meanX meanY : K) (acc : K × K × K) (p : U64 × U64) : K × K × K :=
  let dx := (p.1.toNat : K) - meanX
  let dy := (p.2.toNat : K) - meanY
  (acc.1 + dx * dy, acc.2.1 + dx * dx, acc.2.2 + dy * dy)

/-- `pearson`, with its assertion on the lengths. -/
def pearson (sqrt : K → K) (x y : List U64) : Option K :=
  if x.length ≠ y.length then none
  else if x.length = 0 then some 0
  else
    let m := (x.zip y).foldl (addMoments (wordMean x) (wordMean y)) (0, 0, 0)
    some (if m.2.1 = 0 ∨ m.2.2 = 0 then 0 else m.1 / sqrt (m.2.1 * m.2.2))

/-- The second half of `train_model_with_scratch`. -/
def FitScratch.evaluate (exp2 sqrt : K → K) (samples train holdout : List TreeSample)
    (tree : SerializedTree) (s : FitScratch K) : Option (TrainResult K × FitScratch K) :=
  let actuals := vecClear s.actuals ++ holdout.map fun x => x.labelNs
  (holdout.foldlM (fun preds x => (predictAt tree x.feats).map (vecPush preds))
      (vecClear s.preds)).bind fun preds =>
    let weightsFull := sampleWeightsInto exp2 samples.length (vecClear s.weightsFull)
    (sliceFrom weightsFull train.length).bind fun holdoutWeights =>
      let emaPreds := vecClear s.emaPreds ++ holdout.map fun x => x.feats.ema
      (weightedHoldoutMae preds actuals holdoutWeights).bind fun maeTree =>
        (weightedHoldoutMae emaPreds actuals holdoutWeights).bind fun maeEma =>
          (pearson sqrt preds actuals).map fun corr =>
            ({ tree := tree
               nrTrain := train.length
               nrPidsTrain := treeDistinctPids train
               holdoutLen := holdout.length
               maeTree := maeTree
               maeEma := maeEma
               corr := corr },
              { s with
                preds := preds
                actuals := actuals
                emaPreds := emaPreds
                weightsFull := weightsFull })

/-- `train_model_with_scratch`: the result, and the arena it leaves. -/
def FitScratch.trainModelWithScratch [FloorSemiring K] (exp2 sqrt : K → K)
    (samples : List TreeSample) (s : FitScratch K) :
    Option (Except String (TrainResult K) × FitScratch K) :=
  (splitHoldout samples).bind fun r =>
    match r with
    | .error e => some (.error e, s)
    | .ok parts =>
        (s.fitWithScratch exp2 parts.1 daemonCaps).bind fun fitted =>
          (serializeValidateAt fitted.1).bind fun valid =>
            match valid with
            | .error e => some (.error s!"tree failed validation: {e}", fitted.2)
            | .ok _ =>
                (fitted.2.evaluate exp2 sqrt samples parts.1 parts.2 fitted.1).map fun out =>
                  (.ok out.1, out.2)

/-- `train_model`. -/
def trainModel [FloorSemiring K] (exp2 sqrt : K → K) (samples : List TreeSample) :
    Option (Except String (TrainResult K)) :=
  (FitScratch.trainModelWithScratch exp2 sqrt samples {}).map Prod.fst

/-! ## What the refills leave -/

theorem foldl_vecPush {α β : Type*} (f : α → β) (xs : List α) (acc : List β) :
    xs.foldl (fun out x => vecPush out (f x)) acc = acc ++ xs.map f := by
  induction xs generalizing acc with
  | nil => simp
  | cons x xs ih =>
      rw [List.foldl_cons, ih, vecPush, List.append_assoc]
      rfl

omit [LinearOrder K] in
/-- The weights do not depend on what the buffer held. -/
theorem sampleWeightsInto_eq (exp2 : K → K) (n : Nat) (out : List K) :
    sampleWeightsInto exp2 n out = sampleWeights exp2 n := by
  rw [sampleWeightsInto, foldl_vecPush]
  rfl

omit [LinearOrder K] in
theorem sampleWeights_length (exp2 : K → K) (n : Nat) : (sampleWeights exp2 n).length = n := by
  rw [sampleWeights, List.length_map, List.length_range]

omit [Field K] [LinearOrder K] in
theorem foldl_pushSide (feature : Nat) (threshold : U64) (xs : List (WeightedSample K))
    (sides : List (WeightedSample K) × List (WeightedSample K)) :
    xs.foldl (pushSide feature threshold) sides
      = (sides.1 ++ leftSamples feature threshold xs,
          sides.2 ++ rightSamples feature threshold xs) := by
  induction xs generalizing sides with
  | nil => simp [leftSamples, rightSamples]
  | cons x xs ih =>
      rw [List.foldl_cons, ih, pushSide]
      by_cases h : sampleValue feature x ≤ threshold
      · rw [if_pos h]
        simp [leftSamples, rightSamples, vecPush, h]
      · have hlt := BitVec.not_le.mp h
        rw [if_neg h]
        simp [leftSamples, rightSamples, vecPush, hlt]

theorem vecSet_eq {α : Type*} {xs : List α} {i : Nat} (h : i < xs.length) (x : α) :
    vecSet xs i x = some (xs.set i x) := if_pos h

/-! ## The growth is the growth without an arena -/

variable [FloorSemiring K]

/-- The nodes and the queue while a tree grows: `done` nodes are finished,
every queued one has its place. -/
structure InPlace (caps : FitCaps K) (done : Nat) (st : FitState K) : Prop where
  count : done + st.queue.length = st.nodes.length
  budget : st.nodes.length ≤ caps.maxNodes
  place : ∀ spec ∈ st.queue, spec.idx < st.nodes.length

omit [FloorSemiring K] in
theorem FitScratch.searchNode_eq (caps : FitCaps K) (s : FitScratch K) (spec : NodeSpec K) :
    ∃ sorted, s.searchNode caps spec
      = some (chosenSplit caps s.growth spec, { s with sorted := sorted }) := by
  rw [searchNode, chosenSplit]
  split
  · rw [bestSplitIndexed_eq, Option.map_some, bestSplitWithScratch_fst]
    exact ⟨_, rfl⟩
  · exact ⟨s.sorted, rfl⟩

/-- **One node on the arena** is one node without it. -/
theorem FitScratch.fillNode_eq (caps : FitCaps K) {s : FitScratch K} {spec : NodeSpec K}
    (h : spec.idx < s.nodes.length) :
    ∃ s', s.fillNode caps spec = some s' ∧ s'.growth = fitNode caps s.growth spec := by
  obtain ⟨sorted, hsearch⟩ := s.searchNode_eq caps spec
  rw [fillNode, hsearch, Option.bind_some, fitNode]
  cases hchosen : chosenSplit caps s.growth spec with
  | none =>
      rw [Option.elim_none, fillLeaf, vecSet_eq h]
      exact ⟨_, rfl, rfl⟩
  | some choice =>
      rw [Option.elim_some, splitNode]
      simp only [vecSet_eq h, Option.map_some, foldl_pushSide]
      refine ⟨_, rfl, ?_⟩
      simp [growth, vecPush, vecClear, leftSamples, rightSamples]

/-- One node: it is finished, and its children have their places. -/
theorem InPlace.step {caps : FitCaps K} {done : Nat} {st : FitState K}
    (h : InPlace caps done st) {spec : NodeSpec K} {queue : List (NodeSpec K)}
    (hq : st.queue = spec :: queue) :
    InPlace caps (done + 1) (fitNode caps { st with queue := queue } spec) := by
  have hcount := h.count
  rw [hq, List.length_cons] at hcount
  have hplace : ∀ job ∈ queue, job.idx < st.nodes.length := fun job hjob =>
    h.place job (hq ▸ List.mem_cons_of_mem _ hjob)
  rw [fitNode]
  cases hchosen : chosenSplit caps { st with queue := queue } spec with
  | none =>
      -- a leaf is written in its place
      have hlen : (st.nodes.set spec.idx (leafNode spec.samples)).length = st.nodes.length :=
        List.length_set
      refine ⟨?_, ?_, fun job hjob => ?_⟩
      · show done + 1 + queue.length = (st.nodes.set spec.idx (leafNode spec.samples)).length
        omega
      · show (st.nodes.set spec.idx (leafNode spec.samples)).length ≤ caps.maxNodes
        rw [hlen]
        exact h.budget
      · show job.idx < (st.nodes.set spec.idx (leafNode spec.samples)).length
        rw [hlen]
        exact hplace job hjob
  | some choice =>
      -- a split appends the places of its children
      obtain ⟨feature, threshold⟩ := choice
      have hroom := (chosenSplit_ok hchosen).2.1
      have hleft : (BitVec.ofNat 32 st.nodes.length).toNat ≤ st.nodes.length := by
        rw [BitVec.toNat_ofNat]
        exact Nat.mod_le _ _
      have hright : (BitVec.ofNat 32 st.nodes.length + 1).toNat ≤ st.nodes.length + 1 := by
        rw [BitVec.toNat_add]
        exact Nat.le_trans (Nat.mod_le _ _) (Nat.add_le_add_right hleft 1)
      refine ⟨?_, ?_, fun job hjob => ?_⟩
      · simp only [List.length_append, List.length_set, List.length_cons, List.length_nil]
        omega
      · simp only [List.length_append, List.length_set, List.length_cons, List.length_nil]
        exact hroom
      · simp only [List.length_append, List.length_set, List.length_cons, List.length_nil]
        rcases List.mem_append.mp hjob with hin | hin
        · have hlt := hplace job hin
          omega
        · rcases List.mem_cons.mp hin with rfl | hin
          · show (BitVec.ofNat 32 st.nodes.length).toNat < _
            omega
          · rw [List.mem_singleton.mp hin]
            show (BitVec.ofNat 32 st.nodes.length + 1).toNat < _
            omega

/-- **The loop on the arena** ends, without a panic, where the loop
without it ends. -/
theorem FitScratch.growLoop_eq {caps : FitCaps K} {fuel done : Nat} {s : FitScratch K}
    (h : InPlace caps done s.growth) (hfuel : caps.maxNodes ≤ done + fuel) :
    ∃ s', growLoop caps fuel s = some s' ∧ fitLoop caps fuel s.growth = some s'.growth := by
  induction fuel generalizing done s with
  | zero =>
      have hcount := h.count
      have hbudget := h.budget
      -- the nodes done use up the budget, so none is queued
      have hq : s.queue = [] := List.length_eq_zero_iff.mp (by
        show s.growth.queue.length = 0
        omega)
      refine ⟨s, ?_, ?_⟩
      · rw [growLoop, hq]
      · rw [fitLoop, show s.growth.queue = [] from hq]
  | succ fuel ih =>
      rw [growLoop, fitLoop]
      cases hq : s.queue with
      | nil => exact ⟨s, rfl, by rw [show s.growth.queue = [] from hq]⟩
      | cons spec queue =>
          have hgq : s.growth.queue = spec :: queue := hq
          have hplace : spec.idx < s.nodes.length := h.place spec (hgq ▸ List.mem_cons_self)
          obtain ⟨s', hfill, hgrowth⟩ :=
            @FitScratch.fillNode_eq K _ _ _ caps { s with queue := queue } spec hplace
          have hstep := h.step hgq
          have hsame : s'.growth = fitNode caps { s.growth with queue := queue } spec := hgrowth
          rw [← hsame] at hstep
          obtain ⟨s'', hloop, hfit⟩ := ih hstep (by omega)
          refine ⟨s'', ?_, ?_⟩
          · show (fillNode caps { s with queue := queue } spec).bind (growLoop caps fuel) = _
            rw [hfill]
            exact hloop
          · rw [hgq]
            show fitLoop caps fuel (fitNode caps { s.growth with queue := queue } spec) = _
            rw [← hsame]
            exact hfit

/-- **The fit leaks nothing**: on every arena it returns, without a panic,
the tree of the fit without one. -/
theorem FitScratch.fitWithScratch_eq (exp2 : K → K) (samples : List TreeSample)
    (caps : FitCaps K) :
    ∃ tree, ScxMlfq.fitWithScratch samples (sampleWeights exp2 samples.length) caps = some tree
      ∧ ∀ s : FitScratch K, ∃ s', s.fitWithScratch exp2 samples caps = some (tree, s') := by
  by_cases hempty : samples = [] ∨ caps.maxNodes = 0
  · refine ⟨{ nodes := [] }, ?_, fun s => ⟨s, ?_⟩⟩
    · rw [ScxMlfq.fitWithScratch, if_pos hempty]
    · rw [fitWithScratch, if_pos hempty]
  · have hstart : InPlace caps 0
        { nodes := [{}]
          queue := [{ idx := 0, samples := samples.zip (sampleWeights exp2 samples.length)
                      depth := 0 }] } := by
      refine ⟨rfl, ?_, fun spec hspec => ?_⟩
      · show 1 ≤ caps.maxNodes
        have := not_or.mp hempty
        omega
      · rw [List.mem_singleton.mp hspec]
        exact Nat.zero_lt_one
    generalize hst : ({ nodes := [{}]
                        queue := [{ idx := 0
                                    samples := samples.zip (sampleWeights exp2 samples.length)
                                    depth := 0 }] } : FitState K) = st at hstart
    have hrun : ∀ s : FitScratch K, s.growth = st →
        ∃ s', growLoop caps caps.maxNodes s = some s'
          ∧ fitLoop caps caps.maxNodes st = some s'.growth := by
      rintro s rfl
      exact growLoop_eq hstart (by omega)
    have hroot : (samples.zip (sampleWeights exp2 samples.length)).foldl vecPush []
        = samples.zip (sampleWeights exp2 samples.length) := by
      have hfill := foldl_vecPush id (samples.zip (sampleWeights exp2 samples.length)) []
      rwa [List.map_id, List.nil_append] at hfill
    obtain ⟨s₀, -, hfit⟩ := hrun { nodes := st.nodes, queue := st.queue } rfl
    refine ⟨{ nodes := s₀.nodes }, ?_, fun s => ?_⟩
    · rw [ScxMlfq.fitWithScratch, if_neg hempty, hst, hfit]
      rfl
    · rw [fitWithScratch, if_neg hempty, sampleWeightsInto_eq]
      -- cleared and refilled, nothing of the old arena is left in the growth
      have harena : FitScratch.growth
          { s with
            weights := sampleWeights exp2 samples.length
            nodes := vecPush (vecClear s.nodes) {}
            left := []
            queue := vecPush (vecClear s.queue)
              { idx := 0
                samples := (samples.zip (sampleWeights exp2 samples.length)).foldl vecPush
                  (vecClear s.left)
                depth := 0 } } = st := by
        rw [← hst, growth]
        simp only [vecClear, hroot]
        rfl
      obtain ⟨s', hgrow, hfit'⟩ := hrun _ harena
      have hnodes : s'.nodes = s₀.nodes :=
        congrArg FitState.nodes (Option.some.inj (hfit'.symm.trans hfit))
      refine ⟨{ s' with nodes := [] }, ?_⟩
      simp only [hgrow, Option.map_some, hnodes]

/-! ## The evaluation does not panic -/

omit [FloorSemiring K] in
theorem weightedHoldoutMae_some {preds actuals : List U64} {weights : List K}
    (ha : preds.length = actuals.length) (hw : preds.length = weights.length) :
    ∃ mae, weightedHoldoutMae preds actuals weights = some mae := by
  rw [weightedHoldoutMae, if_neg (not_not.mpr ha), if_neg (not_not.mpr hw)]
  split
  · exact ⟨_, rfl⟩
  · exact ⟨_, rfl⟩

omit [FloorSemiring K] in
theorem pearson_some (sqrt : K → K) {x y : List U64} (h : x.length = y.length) :
    ∃ corr, pearson sqrt x y = some corr := by
  rw [pearson, if_neg (not_not.mpr h)]
  split
  · exact ⟨_, rfl⟩
  · exact ⟨_, rfl⟩

/-- The predictions of a tree for the samples of a slice. -/
def predictions (tree : SerializedTree) (slice : List TreeSample) : List U64 :=
  slice.map fun x => predict tree x.feats

def labels (slice : List TreeSample) : List U64 := slice.map fun x => x.labelNs

/-- The gauges captured with the samples, the baseline. -/
def gauges (slice : List TreeSample) : List U64 := slice.map fun x => x.feats.ema

/-- What a training reports of a holdout under its weights. -/
structure Evaluated (sqrt : K → K) (holdout : List TreeSample) (weights : List K)
    (res : TrainResult K) : Prop where
  maeTree : weightedHoldoutMae (predictions res.tree holdout) (labels holdout) weights
    = some res.maeTree
  maeEma : weightedHoldoutMae (gauges holdout) (labels holdout) weights = some res.maeEma
  corr : pearson sqrt (predictions res.tree holdout) (labels holdout) = some res.corr
  holdoutLen : res.holdoutLen = holdout.length

omit [FloorSemiring K] in
/-- **The evaluation leaks nothing**: on every arena it returns, without a
panic, the same metrics. -/
theorem FitScratch.evaluate_eq (exp2 sqrt : K → K) {samples train holdout : List TreeSample}
    (hsplit : train ++ holdout = samples) (tree : SerializedTree) :
    ∃ res, Evaluated sqrt holdout ((sampleWeights exp2 samples.length).drop train.length) res
      ∧ res.tree = tree ∧ res.nrTrain = train.length ∧ res.nrPidsTrain = treeDistinctPids train
      ∧ ∀ s : FitScratch K, ∃ s',
        s.evaluate exp2 sqrt samples train holdout tree = some (res, s') := by
  have hlen : ((sampleWeights exp2 samples.length).drop train.length).length
      = holdout.length := by
    rw [List.length_drop, sampleWeights_length, ← hsplit, List.length_append]
    omega
  have hslice : sliceFrom (sampleWeights exp2 samples.length) train.length
      = some ((sampleWeights exp2 samples.length).drop train.length) := by
    refine if_pos ?_
    rw [sampleWeights_length, ← hsplit, List.length_append]
    omega
  generalize (sampleWeights exp2 samples.length).drop train.length = weights at hlen hslice
  have hpreds : (predictions tree holdout).length = (labels holdout).length := by
    rw [predictions, labels, List.length_map, List.length_map]
  have hgauges : (gauges holdout).length = (labels holdout).length := by
    rw [gauges, labels, List.length_map, List.length_map]
  have hlabels : (labels holdout).length = weights.length := by
    rw [labels, List.length_map, hlen]
  obtain ⟨maeTree, hmaeTree⟩ := weightedHoldoutMae_some hpreds (hpreds.trans hlabels)
  obtain ⟨maeEma, hmaeEma⟩ := weightedHoldoutMae_some hgauges (hgauges.trans hlabels)
  obtain ⟨corr, hcorr⟩ := pearson_some sqrt hpreds
  refine ⟨{ tree := tree, nrTrain := train.length, nrPidsTrain := treeDistinctPids train
            holdoutLen := holdout.length, maeTree := maeTree, maeEma := maeEma, corr := corr },
    ⟨hmaeTree, hmaeEma, hcorr, rfl⟩, rfl, rfl, rfl, fun s => ?_⟩
  have hpush : ∀ (preds : List U64) (x : TreeSample),
      (predictAt tree x.feats).map (vecPush preds)
        = some (vecPush preds (predict tree x.feats)) := by
    intro preds x
    rw [predictAt_eq, Option.map_some]
  have hfold : holdout.foldlM (fun preds x => (predictAt tree x.feats).map (vecPush preds))
      (vecClear s.preds) = some (predictions tree holdout) := by
    rw [foldlM_eq_some hpush, foldl_vecPush]
    rfl
  -- each buffer is cleared before the holdout fills it
  have hactuals : vecClear s.actuals ++ (holdout.map fun x => x.labelNs) = labels holdout := rfl
  have hemas : vecClear s.emaPreds ++ (holdout.map fun x => x.feats.ema) = gauges holdout := rfl
  rw [evaluate, hfold, Option.bind_some, sampleWeightsInto_eq]
  simp only [hslice, hactuals, hemas, Option.bind_some, hmaeTree, hmaeEma, hcorr,
    Option.map_some]
  exact ⟨_, rfl⟩

/-- The slices of a window. -/
theorem splitHoldout_eq {samples : List TreeSample} (h : 20 ≤ samples.length) :
    splitHoldout samples
      = some (.ok (samples.take (samples.length - samples.length / 10),
          samples.drop (samples.length - samples.length / 10))) := by
  rw [splitHoldout, if_pos h]
  exact if_pos (Nat.sub_le _ _)

/-- **The training leaks nothing**: on every arena it returns, without a
panic, the same result; a metric it reports is the one of the window's
last tenth under its own weights. -/
theorem FitScratch.trainModelWithScratch_eq (exp2 sqrt : K → K) (samples : List TreeSample) :
    ∃ r : Except String (TrainResult K),
      (∀ s : FitScratch K, ∃ s', s.trainModelWithScratch exp2 sqrt samples = some (r, s'))
      ∧ ∀ res, r = .ok res → 20 ≤ samples.length
        ∧ Evaluated sqrt (samples.drop (samples.length - samples.length / 10))
          ((sampleWeights exp2 samples.length).drop (samples.length - samples.length / 10))
          res := by
  by_cases h20 : 20 ≤ samples.length
  · have hsplit := splitHoldout_eq h20
    generalize hcut : samples.length - samples.length / 10 = cut at hsplit
    have htake : (samples.take cut).length = cut := by
      rw [List.length_take]
      omega
    obtain ⟨tree, -, hfit⟩ := fitWithScratch_eq exp2 (samples.take cut) (daemonCaps : FitCaps K)
    -- the validation sees the tree alone
    cases hvalid : serializeValidate tree with
    | error e =>
        refine ⟨.error s!"tree failed validation: {e}", fun s => ?_, fun res hres => ?_⟩
        · obtain ⟨s', hs'⟩ := hfit s
          refine ⟨s', ?_⟩
          simp only [trainModelWithScratch, hsplit, Option.bind_some, hs', serializeValidateAt_eq,
            hvalid]
        · cases hres
    | ok u =>
        obtain ⟨res, heval, -, -, -, hrun⟩ := @evaluate_eq K _ _ exp2 sqrt samples
          (samples.take cut) (samples.drop cut) (List.take_append_drop cut samples) tree
        rw [htake] at heval
        refine ⟨.ok res, fun s => ?_, fun res' hres => ?_⟩
        · obtain ⟨s', hs'⟩ := hfit s
          obtain ⟨s'', hs''⟩ := hrun s'
          refine ⟨s'', ?_⟩
          simp only [trainModelWithScratch, hsplit, Option.bind_some, hs', serializeValidateAt_eq,
            hvalid, hs'', Option.map_some]
        · obtain rfl := Except.ok.inj hres
          exact ⟨h20, heval⟩
  · refine ⟨.error (s!"training window holds only {samples.length} samples; {20} are needed for " ++
      "a 90/10 holdout split"), fun s => ⟨s, ?_⟩, fun res hres => ?_⟩
    · rw [trainModelWithScratch, splitHoldout, if_neg h20]
      rfl
    · cases hres

omit [LinearOrder K] [FloorSemiring K] in
theorem getElem?_sampleWeights (exp2 : K → K) {n i : Nat} (h : i < n) :
    (sampleWeights exp2 n)[i]? = some (recencyWeight exp2 n i) := by
  rw [sampleWeights, List.getElem?_map, List.getElem?_range h]
  rfl

/-- **The arena carries nothing from one training to the next.** Whatever
the ten buffers hold, a fit under any limits returns the tree of a fresh
arena and a training its result, and neither panics. What a training
reports is taken over the window's last tenth, each sample under its own
weight. -/
theorem scratch_leaks_nothing (exp2 sqrt : K → K) (samples : List TreeSample) :
    (∀ caps : FitCaps K, ∃ tree, fit exp2 samples caps = some tree
      ∧ ∀ s : FitScratch K, (s.fitWithScratch exp2 samples caps).map Prod.fst = some tree)
    ∧ (∃ r, trainModel exp2 sqrt samples = some r
      ∧ (∀ s : FitScratch K, (s.trainModelWithScratch exp2 sqrt samples).map Prod.fst = some r)
      ∧ ∀ res, r = .ok res → 20 ≤ samples.length
        ∧ Evaluated sqrt (samples.drop (samples.length - samples.length / 10))
          ((sampleWeights exp2 samples.length).drop (samples.length - samples.length / 10)) res)
    ∧ ∀ holdout weights, holdout = samples.drop (samples.length - samples.length / 10) →
      weights = (sampleWeights exp2 samples.length).drop (samples.length - samples.length / 10) →
      holdout.length = samples.length / 10 ∧ weights.length = samples.length / 10
        ∧ ∀ (j : Nat) (x : TreeSample), holdout[j]? = some x →
          samples[samples.length - samples.length / 10 + j]? = some x
          ∧ weights[j]? = some (recencyWeight exp2 samples.length
              (samples.length - samples.length / 10 + j)) := by
  refine ⟨fun caps => ?_, ?_, ?_⟩
  · obtain ⟨tree, -, hfit⟩ := FitScratch.fitWithScratch_eq exp2 samples caps
    have hall : ∀ s : FitScratch K,
        (s.fitWithScratch exp2 samples caps).map Prod.fst = some tree := by
      intro s
      obtain ⟨s', hs'⟩ := hfit s
      rw [hs', Option.map_some]
    exact ⟨tree, hall {}, hall⟩
  · obtain ⟨r, hrun, hok⟩ := FitScratch.trainModelWithScratch_eq exp2 sqrt samples
    have hall : ∀ s : FitScratch K,
        (s.trainModelWithScratch exp2 sqrt samples).map Prod.fst = some r := by
      intro s
      obtain ⟨s', hs'⟩ := hrun s
      rw [hs', Option.map_some]
    exact ⟨r, hall {}, hall, hok⟩
  · rintro holdout weights rfl rfl
    refine ⟨?_, ?_, fun j x hx => ?_⟩
    · rw [List.length_drop]
      omega
    · rw [List.length_drop, sampleWeights_length]
      omega
    · rw [List.getElem?_drop] at hx ⊢
      have hlt := (List.getElem?_eq_some_iff.mp hx).1
      exact ⟨hx, getElem?_sampleWeights exp2 hlt⟩

end ScxMlfq
