import Mathlib.Algebra.Order.Field.Basic
import Mathlib.Algebra.Order.Floor.Semiring
import Mathlib.Data.List.Sort
import ScxMlfq.Bpf.Lifecycle
import ScxMlfq.Daemon.TreeWalk
import ScxMlfq.Lib.LevelOrder

/-!
# Daemon — Fit

The growth of a regression tree in `src/mlfq_tree.rs`, breadth first from
the weighted samples of the window. The sums the source takes in `f64`
are taken exactly, in an ordered field, and the recency weights are
whatever positive numbers the window has been given.

The buffers of the scratch arena are cleared before each use; what the
growth carries from node to node is the nodes and the queue.
-/

namespace ScxMlfq

variable {K : Type*} [Field K] [LinearOrder K]

/-- `WeightedSample`. -/
abbrev WeightedSample (K : Type*) := TreeSample × K

/-- The weight, the weighted label and the weighted squared label of a set
of samples. -/
structure LabelTotals (K : Type*) where
  w : K
  wy : K
  wy2 : K

namespace LabelTotals

/-- One sample more. -/
def add (t : LabelTotals K) (x : WeightedSample K) : LabelTotals K :=
  let y : K := x.1.labelNs.toNat
  { w := t.w + x.2, wy := t.wy + x.2 * y, wy2 := t.wy2 + x.2 * y * y }

/-- `swy2 - swy * swy / sw`. -/
def sse (t : LabelTotals K) : K := t.wy2 - t.wy * t.wy / t.w

/-- What is left of the node's totals. -/
def rest (total left : LabelTotals K) : LabelTotals K :=
  { w := total.w - left.w, wy := total.wy - left.wy, wy2 := total.wy2 - left.wy2 }

end LabelTotals

/-- `label_totals`. -/
def labelTotals (samples : List (WeightedSample K)) : LabelTotals K :=
  samples.foldl LabelTotals.add { w := 0, wy := 0, wy2 := 0 }

/-- `midpoint`. -/
def midpoint (v w : U64) : U64 := v + (w - v) / 2

/-- `feat_value` of a sample. -/
def sampleValue (feature : Nat) (x : WeightedSample K) : U64 := featSlot x.1.feats feature

/-! ## The split of a node -/

/-- The best split so far. -/
structure Split (K : Type*) where
  feature : Nat
  threshold : U64
  reduction : K

/-- What a split search has fixed: the number of samples, their totals, and
the limits. -/
structure SplitSearch (K : Type*) where
  n : Nat
  total : LabelTotals K
  minSamplesLeaf : Nat
  sse : K
  minReduction : K

/-- One candidate, with the totals of its left group, against the best so
far. -/
def SplitSearch.consider (p : SplitSearch K) (feature : Nat) (threshold : U64)
    (left : LabelTotals K) (best : Option (Split K)) : Option (Split K) :=
  let reduction := p.sse - left.sse - (p.total.rest left).sse
  if reduction > p.minReduction then
    match best with
    | none => some ⟨feature, threshold, reduction⟩
    | some b => if reduction > b.reduction then some ⟨feature, threshold, reduction⟩ else best
  else best

/-- The sweep over the sorted samples of one feature, from the one after
the first `nL`. Where the next value differs the group of equal values
ends, and the split behind it is a candidate. -/
def SplitSearch.sweep (p : SplitSearch K) (feature : Nat) :
    List (WeightedSample K) → Nat → LabelTotals K → Option (Split K) → Option (Split K)
  | [], _, _, best => best
  | x :: xs, nL, left, best =>
      let left := left.add x
      let nL := nL + 1
      match xs with
      | [] => best
      | next :: _ =>
          if sampleValue feature next = sampleValue feature x then
            p.sweep feature xs nL left best
          else
            p.sweep feature xs nL left
              (if nL ≥ p.minSamplesLeaf ∧ p.n - nL ≥ p.minSamplesLeaf then
                p.consider feature
                  (midpoint (sampleValue feature x) (sampleValue feature next)) left best
              else best)

/-- `sort_by_key`, which is stable. -/
def sortByFeature (feature : Nat) (samples : List (WeightedSample K)) :
    List (WeightedSample K) :=
  samples.insertionSort fun x y => sampleValue feature x ≤ sampleValue feature y

/-- `best_split_with_scratch`. -/
def bestSplit (samples : List (WeightedSample K)) (minSamplesLeaf : Nat) (sse : K)
    (minRelVarReduction : K) : Option (Nat × U64) :=
  let p : SplitSearch K :=
    { n := samples.length, total := labelTotals samples, minSamplesLeaf, sse
      minReduction := sse * minRelVarReduction }
  let best := (List.range mlfqTreeNrFeatures).foldl
    (fun best feature =>
      p.sweep feature (sortByFeature feature samples) 0 { w := 0, wy := 0, wy2 := 0 } best) none
  best.map fun b => (b.feature, b.threshold)

/-! ## The growth -/

/-- `NodeSpec`. -/
structure NodeSpec (K : Type*) where
  idx : Nat
  samples : List (WeightedSample K)
  depth : Nat

/-- The limits of a fit. -/
structure FitCaps (K : Type*) where
  maxDepth : Nat
  minSamplesLeaf : Nat
  maxNodes : Nat
  minRelVarReduction : K

/-- The nodes so far, placeholders included, and the queue. -/
structure FitState (K : Type*) where
  nodes : List TreeNode
  queue : List (NodeSpec K)

/-- `leaf_prediction`. -/
def leafPrediction (meanNs : U64) : U32 :=
  if meanNs ≤ 0xFFFFFFFF then meanNs.setWidth 32 else 0xFFFFFFFF

/-- `x as u64`: truncated, and saturated at both ends. -/
def toU64 [FloorSemiring K] (x : K) : U64 := BitVec.ofNat 64 (min ⌊x⌋₊ (2 ^ 64 - 1))

/-- The leaf of a set of samples. -/
def leafNode [FloorSemiring K] (samples : List (WeightedSample K)) : TreeNode :=
  let t := labelTotals samples
  { left := leafPrediction (toU64 (t.wy / t.w)) }

/-- Whether a node may split at all. -/
def splittable (caps : FitCaps K) (st : FitState K) (spec : NodeSpec K) : Prop :=
  let t := labelTotals spec.samples
  spec.depth < caps.maxDepth ∧ spec.samples.length ≥ 2 * caps.minSamplesLeaf
    ∧ st.nodes.length + 2 ≤ caps.maxNodes ∧ t.sse > 1 / ((10 ^ 12 : Nat) : K) * t.wy2

instance (caps : FitCaps K) (st : FitState K) (spec : NodeSpec K) :
    Decidable (splittable caps st spec) := inferInstanceAs (Decidable (_ ∧ _))

/-- The split a node takes. -/
def chosenSplit (caps : FitCaps K) (st : FitState K) (spec : NodeSpec K) :
    Option (Nat × U64) :=
  if splittable caps st spec then
    bestSplit spec.samples caps.minSamplesLeaf (labelTotals spec.samples).sse
      caps.minRelVarReduction
  else none

/-- The node taken off the queue becomes a split with two new nodes behind
the others, or a leaf. -/
def fitNode [FloorSemiring K] (caps : FitCaps K) (st : FitState K) (spec : NodeSpec K) :
    FitState K :=
  match chosenSplit caps st spec with
  | some (feature, threshold) =>
      let leftIdx := BitVec.ofNat 32 st.nodes.length
      let rightIdx := leftIdx + 1
      { nodes := st.nodes.set spec.idx
            { threshold, left := leftIdx, right := rightIdx, feature := BitVec.ofNat 8 feature }
          ++ [{}, {}]
        queue := st.queue
          ++ [{ idx := leftIdx.toNat
                samples := spec.samples.filter fun x =>
                  decide (sampleValue feature x ≤ threshold)
                depth := spec.depth + 1 },
              { idx := rightIdx.toNat
                samples := spec.samples.filter fun x =>
                  decide (¬ sampleValue feature x ≤ threshold)
                depth := spec.depth + 1 }] }
  | none => { st with nodes := st.nodes.set spec.idx (leafNode spec.samples) }

/-- The loop over the queue, `fuel` nodes at most. -/
def fitLoop [FloorSemiring K] (caps : FitCaps K) : Nat → FitState K → Option (FitState K)
  | fuel, st =>
      match st.queue with
      | [] => some st
      | spec :: queue =>
          match fuel with
          | 0 => none
          | fuel + 1 => fitLoop caps fuel (fitNode caps { st with queue } spec)

/-- `fit_with_scratch`, with the weights of the window. Every turn of the
loop finishes a node, so the node budget bounds the turns. -/
def fitWithScratch [FloorSemiring K] (samples : List TreeSample) (weights : List K)
    (caps : FitCaps K) : Option SerializedTree :=
  if samples = [] ∨ caps.maxNodes = 0 then some { nodes := [] }
  else
    (fitLoop caps caps.maxNodes
      { nodes := [{}], queue := [{ idx := 0, samples := samples.zip weights, depth := 0 }] }).map
      fun st => { nodes := st.nodes }

/-! ## What the search finds -/

/-- The midpoint of two values lies between them, on the left. -/
theorem midpoint_between {v w : U64} (h : v < w) : v ≤ midpoint v w ∧ midpoint v w < w := by
  rw [BitVec.lt_def] at h
  have hw := w.isLt
  have hsub : (w - v).toNat = w.toNat - v.toNat :=
    BitVec.toNat_sub_of_le (BitVec.le_def.mpr (Nat.le_of_lt h))
  have hhalf : ((w - v) / 2).toNat = (w.toNat - v.toNat) / 2 := by
    rw [BitVec.toNat_udiv, hsub]
    rfl
  have hmid : (midpoint v w).toNat = v.toNat + (w.toNat - v.toNat) / 2 := by
    rw [midpoint, BitVec.toNat_add_of_lt (by rw [hhalf]; omega), hhalf]
  rw [BitVec.le_def, BitVec.lt_def, hmid]
  omega

/-- The samples a split sends to the left, and to the right. -/
def leftSamples (feature : Nat) (threshold : U64) (samples : List (WeightedSample K)) :
    List (WeightedSample K) :=
  samples.filter fun x => decide (sampleValue feature x ≤ threshold)

def rightSamples (feature : Nat) (threshold : U64) (samples : List (WeightedSample K)) :
    List (WeightedSample K) :=
  samples.filter fun x => decide (¬ sampleValue feature x ≤ threshold)

omit [Field K] [LinearOrder K] in
theorem mem_leftSamples {feature : Nat} {threshold : U64} {samples : List (WeightedSample K)}
    {x : WeightedSample K} :
    x ∈ leftSamples feature threshold samples
      ↔ x ∈ samples ∧ sampleValue feature x ≤ threshold := by
  rw [leftSamples, List.mem_filter, decide_eq_true_eq]

omit [Field K] [LinearOrder K] in
theorem mem_rightSamples {feature : Nat} {threshold : U64} {samples : List (WeightedSample K)}
    {x : WeightedSample K} :
    x ∈ rightSamples feature threshold samples
      ↔ x ∈ samples ∧ ¬ sampleValue feature x ≤ threshold := by
  rw [rightSamples, List.mem_filter, decide_eq_true_eq]

/-- A split on a populated slot that leaves both sides samples, and as many
as a leaf must have. -/
structure Admissible (samples : List (WeightedSample K)) (minSamplesLeaf feature : Nat)
    (threshold : U64) : Prop where
  slot : feature < mlfqTreeNrFeatures
  left : 0 < (leftSamples feature threshold samples).length
    ∧ minSamplesLeaf ≤ (leftSamples feature threshold samples).length
  right : 0 < (rightSamples feature threshold samples).length
    ∧ minSamplesLeaf ≤ (rightSamples feature threshold samples).length

omit [Field K] [LinearOrder K] in
/-- A split between two neighbours of the sorted samples sends everything
up to the first to the left, and everything from the second to the
right. -/
theorem sides_perm {feature : Nat} {samples pre post : List (WeightedSample K)}
    {x next : WeightedSample K} (hperm : (pre ++ x :: next :: post).Perm samples)
    (hsorted : (pre ++ x :: next :: post).Pairwise fun x y =>
      sampleValue feature x ≤ sampleValue feature y)
    {threshold : U64} (hx : sampleValue feature x ≤ threshold)
    (hnext : threshold < sampleValue feature next) :
    (pre ++ [x]).Perm (leftSamples feature threshold samples)
      ∧ (next :: post).Perm (rightSamples feature threshold samples) := by
  obtain ⟨-, hrest, hpre⟩ := List.pairwise_append.mp hsorted
  obtain ⟨-, hpost⟩ := List.pairwise_cons.mp hrest
  obtain ⟨hafter, -⟩ := List.pairwise_cons.mp hpost
  have hle : ∀ y ∈ pre, sampleValue feature y ≤ threshold := fun y hy =>
    BitVec.le_trans (hpre y hy x List.mem_cons_self) hx
  have hgt : ∀ y ∈ post, ¬ sampleValue feature y ≤ threshold := by
    intro y hy hle
    have := hafter y hy
    bv_omega
  have hnot : ¬ sampleValue feature next ≤ threshold := BitVec.not_le.mpr hnext
  constructor
  · have h := hperm.filter fun y => decide (sampleValue feature y ≤ threshold)
    rwa [List.filter_append, List.filter_cons, if_pos (decide_eq_true hx), List.filter_cons,
      if_neg (by simpa using hnot), List.filter_eq_self.mpr fun y hy => decide_eq_true (hle y hy),
      List.filter_eq_nil_iff.mpr fun y hy => by simpa using hgt y hy] at h
  · have h := hperm.filter fun y => decide (¬ sampleValue feature y ≤ threshold)
    rwa [List.filter_append, List.filter_cons, if_neg (by simpa using hx), List.filter_cons,
      if_pos (decide_eq_true hnot), List.filter_eq_nil_iff.mpr fun y hy => by simpa using hle y hy,
      List.filter_eq_self.mpr fun y hy => decide_eq_true (hgt y hy), List.nil_append] at h

omit [Field K] [LinearOrder K] in
theorem length_sides {feature : Nat} {samples pre post : List (WeightedSample K)}
    {x next : WeightedSample K} (hperm : (pre ++ x :: next :: post).Perm samples)
    (hsorted : (pre ++ x :: next :: post).Pairwise fun x y =>
      sampleValue feature x ≤ sampleValue feature y)
    {threshold : U64} (hx : sampleValue feature x ≤ threshold)
    (hnext : threshold < sampleValue feature next) :
    (leftSamples feature threshold samples).length = pre.length + 1
      ∧ (rightSamples feature threshold samples).length = post.length + 1 := by
  obtain ⟨hleft, hright⟩ := sides_perm hperm hsorted hx hnext
  constructor
  · rw [← hleft.length_eq, List.length_append, List.length_singleton]
  · rw [← hright.length_eq, List.length_cons]

omit [Field K] [LinearOrder K] in
theorem sortByFeature_perm (feature : Nat) (samples : List (WeightedSample K)) :
    (sortByFeature feature samples).Perm samples :=
  List.perm_insertionSort _ samples

omit [Field K] [LinearOrder K] in
theorem sortByFeature_pairwise (feature : Nat) (samples : List (WeightedSample K)) :
    (sortByFeature feature samples).Pairwise fun x y =>
      sampleValue feature x ≤ sampleValue feature y :=
  haveI : Std.Total fun x y : WeightedSample K => sampleValue feature x ≤ sampleValue feature y :=
    ⟨fun _ _ => BitVec.le_total _ _⟩
  haveI : IsTrans (WeightedSample K) fun x y => sampleValue feature x ≤ sampleValue feature y :=
    ⟨fun _ _ _ => BitVec.le_trans⟩
  List.pairwise_insertionSort _ samples

/-- A best split so far that is admissible. -/
def BestOk (samples : List (WeightedSample K)) (minSamplesLeaf : Nat)
    (best : Option (Split K)) : Prop :=
  ∀ b, best = some b → Admissible samples minSamplesLeaf b.feature b.threshold

theorem SplitSearch.consider_ok {p : SplitSearch K} {samples : List (WeightedSample K)}
    {best : Option (Split K)} (hbest : BestOk samples p.minSamplesLeaf best) {feature : Nat}
    {threshold : U64} (h : Admissible samples p.minSamplesLeaf feature threshold)
    (left : LabelTotals K) :
    BestOk samples p.minSamplesLeaf (p.consider feature threshold left best) := by
  have hnew (reduction : K) :
      BestOk samples p.minSamplesLeaf (some ⟨feature, threshold, reduction⟩) := by
    intro b hb
    obtain rfl := Option.some.inj hb
    exact h
  cases best with
  | none =>
      simp only [SplitSearch.consider]
      split
      · exact hnew _
      · exact hbest
  | some b₀ =>
      simp only [SplitSearch.consider]
      split
      · split
        · exact hnew _
        · exact hbest
      · exact hbest

/-- **The sweep of one feature** finds admissible splits only. -/
theorem SplitSearch.sweep_ok {p : SplitSearch K} {samples sorted : List (WeightedSample K)}
    (hn : p.n = samples.length) {feature : Nat} (hfeature : feature < mlfqTreeNrFeatures)
    (hperm : sorted.Perm samples)
    (hsorted : sorted.Pairwise fun x y => sampleValue feature x ≤ sampleValue feature y)
    {pre xs : List (WeightedSample K)} (hsplit : sorted = pre ++ xs) (left : LabelTotals K)
    {best : Option (Split K)} (hbest : BestOk samples p.minSamplesLeaf best) :
    BestOk samples p.minSamplesLeaf (p.sweep feature xs pre.length left best) := by
  induction xs generalizing pre left best with
  | nil => exact hbest
  | cons x xs ih =>
      have hnext : sorted = (pre ++ [x]) ++ xs := by
        rw [hsplit, List.append_assoc]
        rfl
      have hlen : (pre ++ [x]).length = pre.length + 1 := by simp
      cases xs with
      | nil => exact hbest
      | cons next post =>
          rw [SplitSearch.sweep, ← hlen]
          split
          · exact ih hnext _ hbest
          · rename_i hdiffer
            refine ih hnext _ ?_
            split
            · rename_i hmin
              -- sorted neighbours with different values
              have hle : sampleValue feature x ≤ sampleValue feature next := by
                rw [hsplit] at hsorted
                obtain ⟨-, hrest, -⟩ := List.pairwise_append.mp hsorted
                exact (List.pairwise_cons.mp hrest).1 next List.mem_cons_self
              have hlt : sampleValue feature x < sampleValue feature next := by
                bv_omega
              obtain ⟨hmid, hmid'⟩ := midpoint_between hlt
              rw [hsplit] at hperm hsorted
              obtain ⟨hleft, hright⟩ := length_sides hperm hsorted hmid hmid'
              have hall := hperm.length_eq
              simp only [List.length_append, List.length_cons] at hall
              rw [hlen] at hmin
              refine SplitSearch.consider_ok hbest ⟨hfeature, ?_, ?_⟩ _
              · omega
              · omega
            · exact hbest

/-- **A chosen split is admissible.** -/
theorem bestSplit_ok {samples : List (WeightedSample K)} {minSamplesLeaf : Nat}
    {sse minRelVarReduction : K} {feature : Nat} {threshold : U64}
    (h : bestSplit samples minSamplesLeaf sse minRelVarReduction = some (feature, threshold)) :
    Admissible samples minSamplesLeaf feature threshold := by
  rw [bestSplit] at h
  obtain ⟨b, hb, heq⟩ := Option.map_eq_some_iff.mp h
  obtain ⟨rfl, rfl⟩ := Prod.mk.inj heq
  generalize hp : (SplitSearch.mk samples.length (labelTotals samples) minSamplesLeaf sse
    (sse * minRelVarReduction) : SplitSearch K) = p at hb
  have hmin : p.minSamplesLeaf = minSamplesLeaf := by rw [← hp]
  have hn : p.n = samples.length := by rw [← hp]
  -- the search keeps an admissible split through every feature
  have hfold : ∀ (features : List Nat) (best : Option (Split K)),
      (∀ f ∈ features, f < mlfqTreeNrFeatures) → BestOk samples p.minSamplesLeaf best →
      BestOk samples p.minSamplesLeaf (features.foldl (fun best feature =>
        p.sweep feature (sortByFeature feature samples) 0 { w := 0, wy := 0, wy2 := 0 } best)
        best) := by
    intro features
    induction features with
    | nil => exact fun _ _ hbest => hbest
    | cons f features ih =>
        intro best hlt hbest
        rw [List.foldl_cons]
        refine ih _ (fun f' hf' => hlt f' (List.mem_cons_of_mem f hf')) ?_
        exact @SplitSearch.sweep_ok _ _ _ p samples _ hn f (hlt f List.mem_cons_self)
          (sortByFeature_perm f samples) (sortByFeature_pairwise f samples) [] _ rfl _ _ hbest
  have hall := hfold (List.range mlfqTreeNrFeatures) none
    (fun f hf => List.mem_range.mp hf) nofun
  rw [hmin] at hall
  exact hall b hb

end ScxMlfq
