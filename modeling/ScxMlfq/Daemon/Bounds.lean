import Mathlib.Tactic.IntervalCases
import ScxMlfq.Daemon.MlfqTree
import ScxMlfq.Daemon.SplitSearch

/-!
# Daemon — Bounds

The indexing of `src/mlfq_tree.rs`. The split search, the validation and
the walk are written once more with every index and assertion of the
source as a step that may panic; none does, and each returns what its
plain form returns.
-/

namespace ScxMlfq

variable {K : Type*} [Field K] [LinearOrder K]

/-! ## The split search, by index -/

/-- The inner loop with `fuel` samples before the end: `sorted[j]` panics
out of range. -/
def groupEnd (feature : Nat) (v : U64) (sorted : List (WeightedSample K)) :
    Nat → Nat → LabelTotals K → Option (Nat × LabelTotals K)
  | 0, j, left => some (j, left)
  | fuel + 1, j, left =>
      sorted[j]?.bind fun x =>
        if sampleValue feature x = v then groupEnd feature v sorted fuel (j + 1) (left.add x)
        else some (j, left)

/-- The candidate behind the group that ends before `sorted[j]`, with the
assertion of `midpoint`. -/
def SplitSearch.tryIndexed (p : SplitSearch K) (feature : Nat) (v : U64)
    (sorted : List (WeightedSample K)) (j : Nat) (left : LabelTotals K)
    (best : Option (Split K)) : Option (Option (Split K)) :=
  if (j ≥ p.minSamplesLeaf ∧ p.n - j ≥ p.minSamplesLeaf) ∧ j < p.n then
    sorted[j]?.bind fun next =>
      if v < sampleValue feature next then
        some (p.consider feature (midpoint v (sampleValue feature next)) left best)
      else none
  else some best

/-- The outer loop, `fuel` groups at most. -/
def SplitSearch.sweepIndexed (p : SplitSearch K) (feature : Nat)
    (sorted : List (WeightedSample K)) :
    Nat → Nat → LabelTotals K → Option (Split K) → Option (Option (Split K))
  | 0, _, _, best => some best
  | fuel + 1, i, left, best =>
      if i < p.n then
        sorted[i]?.bind fun x =>
          (groupEnd feature (sampleValue feature x) sorted (p.n - i) i left).bind fun g =>
            (p.tryIndexed feature (sampleValue feature x) sorted g.1 g.2 best).bind fun best =>
              p.sweepIndexed feature sorted fuel g.1 g.2 best
      else some best

/-- One feature of `best_split_with_scratch`. -/
def SplitSearch.searchIndexed (p : SplitSearch K) (samples : List (WeightedSample K))
    (r : Option (Split K) × List (WeightedSample K)) (feature : Nat) :
    Option (Option (Split K) × List (WeightedSample K)) :=
  let scratch := vecClear r.2
  let scratch := scratch ++ samples
  let scratch := sortByFeature feature scratch
  (p.sweepIndexed feature scratch p.n 0 { w := 0, wy := 0, wy2 := 0 } r.1).map fun best =>
    (best, scratch)

/-- `best_split_with_scratch`, with its panics. -/
def bestSplitIndexed (samples : List (WeightedSample K)) (minSamplesLeaf : Nat) (sse : K)
    (minRelVarReduction : K) (scratch : List (WeightedSample K)) :
    Option (Option (Nat × U64) × List (WeightedSample K)) :=
  let p := searchOf samples minSamplesLeaf sse minRelVarReduction
  ((List.range mlfqTreeNrFeatures).foldlM (p.searchIndexed samples) (none, scratch)).map fun r =>
    (r.1.map fun b => (b.feature, b.threshold), r.2)

omit [LinearOrder K] in
/-- The loop over indices is the loop over what is left of the buffer. -/
theorem groupEnd_eq (feature : Nat) (v : U64) {sorted : List (WeightedSample K)} {fuel j : Nat}
    (hj : j + fuel = sorted.length) (left : LabelTotals K) :
    let g := sumGroup feature v (sorted.drop j) j left
    groupEnd feature v sorted fuel j left = some (g.2.1, g.2.2)
      ∧ g.1 = sorted.drop g.2.1 ∧ j ≤ g.2.1 ∧ g.2.1 ≤ sorted.length
      ∧ ∀ next, sorted[g.2.1]? = some next → sampleValue feature next ≠ v := by
  induction fuel generalizing j left with
  | zero =>
      have hnil : sorted.drop j = [] := List.drop_of_length_le (by omega)
      have hnone : sorted[j]? = none := List.getElem?_eq_none (by omega)
      simp only [hnil, sumGroup]
      refine ⟨rfl, trivial, Nat.le_refl _, by omega, fun next hnext => ?_⟩
      rw [hnone] at hnext
      cases hnext
  | succ fuel ih =>
      have hlt : j < sorted.length := by omega
      have hget : sorted[j]? = some sorted[j] := List.getElem?_eq_getElem hlt
      rw [groupEnd, hget, Option.bind_some, List.drop_eq_getElem_cons hlt, sumGroup]
      -- the group goes on as long as the value stays
      by_cases hv : sampleValue feature sorted[j] = v
      · rw [if_pos hv, if_pos hv]
        obtain ⟨heq, hrest, hle, hlen, hend⟩ := @ih (j + 1) (by omega) (left.add sorted[j])
        exact ⟨heq, hrest, by omega, hlen, hend⟩
      · rw [if_neg hv, if_neg hv]
        refine ⟨rfl, (List.drop_eq_getElem_cons hlt).symm, Nat.le_refl _, Nat.le_of_lt hlt, ?_⟩
        intro next hnext
        rw [hget] at hnext
        obtain rfl := Option.some.inj hnext
        exact hv

/-- A group that ends inside a sorted buffer ends before a greater value. -/
theorem SplitSearch.tryIndexed_eq (p : SplitSearch K) {feature i j : Nat}
    {sorted rest : List (WeightedSample K)} (hn : sorted.length = p.n)
    (hsorted : sorted.Pairwise fun x y => sampleValue feature x ≤ sampleValue feature y)
    {x : WeightedSample K} (hi : sorted[i]? = some x) (hij : i ≤ j)
    (hend : ∀ next, sorted[j]? = some next → sampleValue feature next ≠ sampleValue feature x)
    (left : LabelTotals K) (best : Option (Split K)) (hrest : rest = sorted.drop j) :
    p.tryIndexed feature (sampleValue feature x) sorted j left best
      = some (p.tryGroup feature (sampleValue feature x) (rest, j, left) best) := by
  rw [tryIndexed, tryGroup, hrest]
  by_cases hj : j < sorted.length
  · have hget : sorted[j]? = some sorted[j] := List.getElem?_eq_getElem hj
    -- the buffer is sorted and the group has ended: the next value is greater
    have hlt : sampleValue feature x < sampleValue feature sorted[j] := by
      obtain ⟨hilt, hx⟩ := List.getElem?_eq_some_iff.mp hi
      have hneq : i ≠ j := by
        intro heq
        exact hend x (heq ▸ hi) rfl
      have hle := List.pairwise_iff_getElem.mp hsorted i j hilt hj (by omega)
      have hne := hend _ hget
      rw [hx] at hle
      bv_omega
    rw [List.drop_eq_getElem_cons hj]
    by_cases hsides : j ≥ p.minSamplesLeaf ∧ p.n - j ≥ p.minSamplesLeaf
    · rw [if_pos ⟨hsides, by omega⟩, hget, Option.bind_some, if_pos hlt]
      simp only [if_pos hsides]
    · rw [if_neg fun h => hsides h.1]
      simp only [if_neg hsides]
  · rw [List.drop_of_length_le (by omega), if_neg fun h => hj (by omega)]

theorem SplitSearch.sweepIndexed_eq (p : SplitSearch K) {feature : Nat}
    {sorted : List (WeightedSample K)} (hn : sorted.length = p.n)
    (hsorted : sorted.Pairwise fun x y => sampleValue feature x ≤ sampleValue feature y)
    {fuel i : Nat} (hfuel : p.n ≤ i + fuel) (left : LabelTotals K)
    (best : Option (Split K)) :
    p.sweepIndexed feature sorted fuel i left best
      = some (p.sweepGroups feature (sorted.drop i) i left best) := by
  induction fuel generalizing i left best with
  | zero =>
      rw [List.drop_of_length_le (by omega), sweepIndexed, sweepGroups]
  | succ fuel ih =>
      rw [sweepIndexed]
      by_cases hi : i < p.n
      · have hlt : i < sorted.length := by omega
        have hget : sorted[i]? = some sorted[i] := List.getElem?_eq_getElem hlt
        obtain ⟨hgroup, hrest, hle, hlen, hend⟩ :=
          @groupEnd_eq K _ feature (sampleValue feature sorted[i]) sorted (p.n - i) i (by omega)
            left
        have hshort := sumGroup_length_lt feature sorted[i] (sorted.drop (i + 1)) i left
        have hcons := List.drop_eq_getElem_cons hlt
        -- both sweeps go on from the end of the same group
        obtain ⟨g, hg⟩ : ∃ g, g = sumGroup feature (sampleValue feature sorted[i])
            (sorted.drop i) i left := ⟨_, rfl⟩
        rw [← hg] at hgroup hrest hle hlen hend
        rw [← hcons, ← hg, hrest, List.length_drop, List.length_drop] at hshort
        have hfuel' : p.n ≤ g.2.1 + fuel := by omega
        rw [if_pos hi, hget, Option.bind_some, hgroup, Option.bind_some,
          p.tryIndexed_eq hn hsorted hget hle hend g.2.2 best hrest, Option.bind_some,
          ih hfuel', hcons, sweepGroups, ← hcons, ← hg, ← hrest]
      · rw [if_neg hi, List.drop_of_length_le (by omega), sweepGroups]

/-- A loop in which no turn panics. -/
theorem foldlM_eq_some {α β : Type*} {f : β → α → Option β} {g : β → α → β}
    (h : ∀ b a, f b a = some (g b a)) (xs : List α) (b : β) :
    xs.foldlM f b = some (xs.foldl g b) := by
  induction xs generalizing b with
  | nil => rfl
  | cons x xs ih =>
      rw [List.foldlM_cons, h, List.foldl_cons]
      exact ih _

/-- **The split search does not panic**, whatever the buffer holds. -/
theorem bestSplitIndexed_eq (samples : List (WeightedSample K)) (minSamplesLeaf : Nat)
    (sse minRelVarReduction : K) (scratch : List (WeightedSample K)) :
    bestSplitIndexed samples minSamplesLeaf sse minRelVarReduction scratch
      = some (bestSplitWithScratch samples minSamplesLeaf sse minRelVarReduction scratch) := by
  generalize hp : searchOf samples minSamplesLeaf sse minRelVarReduction = p
  have hn : p.n = samples.length := by
    rw [← hp]
    rfl
  have hstep : ∀ (r : Option (Split K) × List (WeightedSample K)) (feature : Nat),
      p.searchIndexed samples r feature = some (p.searchFeature samples r feature) := by
    intro r feature
    have hlen : (sortByFeature feature samples).length = p.n := by
      rw [(sortByFeature_perm feature samples).length_eq, hn]
    have hsweep := @SplitSearch.sweepIndexed_eq K _ _ p feature _ hlen
      (sortByFeature_pairwise feature samples) p.n 0 (by omega) { w := 0, wy := 0, wy2 := 0 } r.1
    show (p.sweepIndexed feature (sortByFeature feature samples) p.n 0 _ r.1).map _ = _
    rw [hsweep]
    rfl
  rw [bestSplitIndexed, hp, foldlM_eq_some hstep, ← hp]
  rfl

/-! ## The validation, by index -/

/-- One child of node `i`: `depth[c]` and `depth[i]` panic out of range. -/
def visitChildAt (nr i : Nat) (s : Bfs) (child : U32) : Option (Except String Bfs) :=
  let c := child.toNat
  if c ≥ nr then some (.error s!"node {i} child index {c} is out of range (nr_nodes {nr})")
  else if c ≤ i then
    some (.error s!"node {i} child index {c} precedes its parent, the BFS order is violated")
  else
    s.depth[c]?.bind fun dc =>
      if dc = usizeMax then
        s.depth[i]?.bind fun di =>
          some (.ok { depth := s.depth.set c (di + 1), queue := s.queue ++ [c] })
      else some (.ok s)

/-- One node taken off the queue: `tree.nodes[i]` and `depth[i]`. -/
def visitNodeAt (tree : SerializedTree) (i : Nat) (s : Bfs) : Option (Except String Bfs) :=
  tree.nodes[i]?.bind fun node =>
    if node.right = 0 then some (.ok s)
    else if node.feature ≥ BitVec.ofNat 8 mlfqTreeNrFeatures then
      some (.error (s!"node {i} splits on feature {node.feature.toNat} beyond the " ++
        s!"{mlfqTreeNrFeatures} populated slots"))
    else
      s.depth[i]?.bind fun d =>
        if d ≥ mlfqTreeMaxDepth then
          some (.error (s!"node {i} at depth {d} is an internal node at or beyond " ++
            s!"the walk bound {mlfqTreeMaxDepth}"))
        else
          (visitChildAt tree.nr i s node.left).bind fun r =>
            match r with
            | .error e => some (.error e)
            | .ok s => visitChildAt tree.nr i s node.right

def bfsAt (tree : SerializedTree) : Nat → Bfs → Option (Except String Bfs)
  | 0, s => some (.ok s)
  | fuel + 1, s =>
      match s.queue with
      | [] => some (.ok s)
      | i :: queue =>
          (visitNodeAt tree i { s with queue := queue }).bind fun r =>
            match r with
            | .error e => some (.error e)
            | .ok s => bfsAt tree fuel s

/-- `serialize_validate`, with its panics: `depth[0]` is behind the test
for an empty tree. -/
def serializeValidateAt (tree : SerializedTree) : Option (Except String Unit) :=
  if tree.nr < 1 then some (.error "empty tree: the root node is required")
  else if tree.nr > mlfqTreeMaxNodes then
    some (.error s!"{tree.nr} nodes exceed the store bound {mlfqTreeMaxNodes}")
  else
    (List.replicate tree.nr usizeMax)[0]?.bind fun _ =>
      (bfsAt tree tree.nr (bfsStart tree)).bind fun r =>
        match r with
        | .error e => some (.error e)
        | .ok s => some (checkDepths 0 s.depth)

/-- What keeps the search in bounds. -/
structure Bfs.InRange (nr : Nat) (s : Bfs) : Prop where
  length : s.depth.length = nr
  queue : ∀ i ∈ s.queue, i < nr

theorem getElem?_of_lt {depth : List Nat} {i : Nat} (h : i < depth.length) :
    depth[i]? = some (depth.getD i 0) := by
  rw [List.getD_eq_getElem?_getD, List.getElem?_eq_getElem h]
  rfl

theorem visitChildAt_eq {nr i : Nat} (hi : i < nr) {s : Bfs} (h : s.InRange nr) (child : U32) :
    visitChildAt nr i s child = some (visitChild nr i s child)
      ∧ ∀ s', visitChild nr i s child = .ok s' → s'.InRange nr := by
  simp only [visitChildAt, visitChild]
  split
  · refine ⟨rfl, fun s' hs => ?_⟩
    cases hs
  · rename_i hrange
    split
    · refine ⟨rfl, fun s' hs => ?_⟩
      cases hs
    · -- past the range check the child has a depth
      have hc : child.toNat < s.depth.length := by
        have hlen := h.length
        omega
      have hi' : i < s.depth.length := h.length ▸ hi
      rw [getElem?_of_lt hc, Option.bind_some]
      split
      · rw [getElem?_of_lt hi', Option.bind_some]
        refine ⟨rfl, fun s' hs => ?_⟩
        cases hs
        refine ⟨List.length_set.trans h.length, fun j hj => ?_⟩
        rcases List.mem_append.mp hj with hin | hin
        · exact h.queue j hin
        · rw [List.mem_singleton.mp hin]
          exact h.length ▸ hc
      · refine ⟨rfl, fun s' hs => ?_⟩
        cases hs
        exact h

theorem visitNodeAt_eq {tree : SerializedTree} {i : Nat} (hi : i < tree.nr) {s : Bfs}
    (h : s.InRange tree.nr) :
    visitNodeAt tree i s = some (visitNode tree i s)
      ∧ ∀ s', visitNode tree i s = .ok s' → s'.InRange tree.nr := by
  have hget : tree.nodes[i]? = some (tree.node i) := by
    rw [SerializedTree.node, List.getD_eq_getElem?_getD, List.getElem?_eq_getElem hi]
    rfl
  have hdepth : s.depth[i]? = some (s.depth.getD i 0) := getElem?_of_lt (h.length ▸ hi)
  simp only [visitNodeAt, visitNode, hget, Option.bind_some]
  split
  · refine ⟨rfl, fun s' hs => ?_⟩
    cases hs
    exact h
  · split
    · refine ⟨rfl, fun s' hs => ?_⟩
      cases hs
    · rw [hdepth, Option.bind_some]
      split
      · refine ⟨rfl, fun s' hs => ?_⟩
        cases hs
      · -- the right child is visited on the depths the left one leaves
        obtain ⟨hleft, hkeep⟩ := visitChildAt_eq hi h (tree.node i).left
        rw [hleft, Option.bind_some]
        cases hvisit : visitChild tree.nr i s (tree.node i).left with
        | error e =>
            refine ⟨rfl, fun s' hs => ?_⟩
            cases hs
        | ok s₁ => exact visitChildAt_eq hi (hkeep s₁ hvisit) (tree.node i).right

theorem bfsAt_eq {tree : SerializedTree} {fuel : Nat} {s : Bfs} (h : s.InRange tree.nr) :
    bfsAt tree fuel s = some (bfs tree fuel s) := by
  induction fuel generalizing s with
  | zero => rfl
  | succ fuel ih =>
      rw [bfsAt, bfs]
      cases hq : s.queue with
      | nil => rfl
      | cons i queue =>
          have hi : i < tree.nr := h.queue i (hq ▸ List.mem_cons_self)
          have hpop : Bfs.InRange tree.nr { s with queue := queue } :=
            ⟨h.length, fun j hj => h.queue j (hq ▸ List.mem_cons_of_mem _ hj)⟩
          obtain ⟨hnode, hkeep⟩ := visitNodeAt_eq hi hpop
          simp only [hnode, Option.bind_some]
          cases hvisit : visitNode tree i { s with queue := queue } with
          | error e => rfl
          | ok s' => exact ih (hkeep s' hvisit)

/-- **The validation does not panic**, on any tree. -/
theorem serializeValidateAt_eq (tree : SerializedTree) :
    serializeValidateAt tree = some (serializeValidate tree) := by
  rw [serializeValidateAt, serializeValidate]
  split
  · rfl
  · rename_i hpos
    split
    · rfl
    · have hroot : (List.replicate tree.nr usizeMax)[0]? = some usizeMax := by
        rw [List.getElem?_replicate, if_pos (by omega)]
      have hstart : (bfsStart tree).InRange tree.nr := by
        refine ⟨by simp [bfsStart], fun i hi => ?_⟩
        rw [List.mem_singleton.mp hi]
        omega
      rw [hroot, Option.bind_some, bfsAt_eq hstart, Option.bind_some]
      cases bfs tree tree.nr (bfsStart tree) with
      | error e => rfl
      | ok s => rfl

/-! ## The walk, by index -/

/-- The feature array of `predict`. -/
def featArray (f : TreeFeats) : List U64 :=
  [f.prevBurstNs, f.sleepNs, f.ema, f.ioWait.setWidth 64, f.wakeCnt.setWidth 64,
    f.wakeLatUs.setWidth 64, f.queueWaitUs.setWidth 64, f.sqEma, f.gpuSubmit.setWidth 64,
    f.sleepVarRatio.setWidth 64, 0, 0, 0, 0, 0, 0]

/-- The loop of `predict`: `tree.nodes[idx]` and `feat[feature]` panic out
of range. -/
def predictFromAt (tree : SerializedTree) (f : TreeFeats) : Nat → Nat → Option U64
  | 0, idx =>
      if idx ≥ tree.nr then some 0
      else
        tree.nodes[idx]?.bind fun node =>
          some (if node.right = 0 then node.left.setWidth 64 else 0)
  | fuel + 1, idx =>
      if idx ≥ tree.nr then some 0
      else
        tree.nodes[idx]?.bind fun node =>
          if node.right = 0 then some (node.left.setWidth 64)
          else
            (featArray f)[(node.feature &&& 0xF).toNat]?.bind fun value =>
              predictFromAt tree f fuel
                (maskIdx (if value ≤ node.threshold then node.left else node.right))

/-- `predict`, with its panics. -/
def predictAt (tree : SerializedTree) (f : TreeFeats) : Option U64 :=
  if tree.nodes = [] then some 0 else predictFromAt tree f mlfqTreeMaxDepth 0

theorem featArray_eq (f : TreeFeats) {i : Nat} (h : i < 16) :
    (featArray f)[i]? = some (featSlot f i) := by
  interval_cases i <;> rfl

theorem predictFromAt_eq (tree : SerializedTree) (f : TreeFeats) (fuel idx : Nat) :
    predictFromAt tree f fuel idx = some (predictFrom tree f fuel idx).value := by
  have hget : ∀ {idx : Nat}, ¬ idx ≥ tree.nr → tree.nodes[idx]? = some (tree.node idx) := by
    intro idx h
    rw [SerializedTree.node, List.getD_eq_getElem?_getD, List.getElem?_eq_getElem (Nat.not_le.mp h)]
    rfl
  induction fuel generalizing idx with
  | zero =>
      rw [predictFromAt, predictFrom]
      split
      · rfl
      · rename_i hin
        rw [hget hin, Option.bind_some]
        dsimp only
        split <;> rfl
  | succ fuel ih =>
      rw [predictFromAt, predictFrom]
      split
      · rfl
      · rename_i hin
        rw [hget hin, Option.bind_some]
        dsimp only
        split
        · rfl
        · -- the feature number is masked to four bits
          have hslot : ((tree.node idx).feature &&& 0xF).toNat < 16 := by
            rw [BitVec.toNat_and]
            exact Nat.lt_of_le_of_lt Nat.and_le_right (by decide)
          rw [featArray_eq f hslot, Option.bind_some]
          exact ih _

/-- **The walk does not panic**, on any tree. -/
theorem predictAt_eq (tree : SerializedTree) (f : TreeFeats) :
    predictAt tree f = some (predict tree f) := by
  rw [predictAt, predict, predictWalk]
  split
  · rename_i hempty
    have hnr : tree.nr = 0 := by rw [SerializedTree.nr, hempty]; rfl
    rw [← predictFromAt_eq, show mlfqTreeMaxDepth = 11 + 1 from rfl, predictFromAt,
      if_pos (by omega)]
  · exact predictFromAt_eq tree f mlfqTreeMaxDepth 0

end ScxMlfq
