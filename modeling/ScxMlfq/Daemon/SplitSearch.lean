import Mathlib.Algebra.Order.BigOperators.Group.List
import Mathlib.Algebra.Order.Field.Rat
import Mathlib.Data.Prod.Lex
import ScxMlfq.Daemon.Fit
import ScxMlfq.Lib.Selection
import ScxMlfq.Lib.Spread

/-!
# Daemon — SplitSearch

The split search of `src/mlfq_tree.rs` with its sorting buffer, group by
group as the source sweeps it, and what it finds: the candidate of
maximum reduction, the smallest feature and then the smallest threshold
among ties.
-/

namespace ScxMlfq

variable {K : Type*} [Field K] [LinearOrder K]

/-! ## The loops of the source -/

/-- `clear`. The capacity a buffer keeps is not observable. -/
def vecClear {α : Type*} (_ : List α) : List α := []

/-- The inner loop: the samples from `j` on whose value is `v` join the
left group. What is left of the buffer is `sorted[j..]`. -/
def sumGroup (feature : Nat) (v : U64) :
    List (WeightedSample K) → Nat → LabelTotals K →
      List (WeightedSample K) × Nat × LabelTotals K
  | [], j, left => ([], j, left)
  | x :: xs, j, left =>
      if sampleValue feature x = v then sumGroup feature v xs (j + 1) (left.add x)
      else (x :: xs, j, left)

omit [LinearOrder K] in
theorem sumGroup_length_le (feature : Nat) (v : U64) (xs : List (WeightedSample K)) (j : Nat)
    (left : LabelTotals K) : (sumGroup feature v xs j left).1.length ≤ xs.length := by
  induction xs generalizing j left with
  | nil => exact Nat.le_refl _
  | cons x xs ih =>
      rw [sumGroup]
      split
      · exact Nat.le_succ_of_le (ih _ _)
      · exact Nat.le_refl _

omit [LinearOrder K] in
/-- A group holds the sample that names it. -/
theorem sumGroup_length_lt (feature : Nat) (x : WeightedSample K)
    (xs : List (WeightedSample K)) (j : Nat) (left : LabelTotals K) :
    (sumGroup feature (sampleValue feature x) (x :: xs) j left).1.length < (x :: xs).length := by
  rw [sumGroup, if_pos rfl]
  exact Nat.lt_succ_of_le (sumGroup_length_le ..)

/-- The candidate behind a group that ends before the `n`-th sample. -/
def SplitSearch.tryGroup (p : SplitSearch K) (feature : Nat) (v : U64)
    (g : List (WeightedSample K) × Nat × LabelTotals K) (best : Option (Split K)) :
    Option (Split K) :=
  match g.1 with
  | [] => best
  | next :: _ =>
      if g.2.1 ≥ p.minSamplesLeaf ∧ p.n - g.2.1 ≥ p.minSamplesLeaf then
        p.consider feature (midpoint v (sampleValue feature next)) g.2.2 best
      else best

/-- The outer loop, from the `i`-th sample of the sorted buffer. -/
def SplitSearch.sweepGroups (p : SplitSearch K) (feature : Nat)
    (sorted : List (WeightedSample K)) (i : Nat) (left : LabelTotals K)
    (best : Option (Split K)) : Option (Split K) :=
  match sorted with
  | [] => best
  | x :: xs =>
      let v := sampleValue feature x
      let g := sumGroup feature v (x :: xs) i left
      p.sweepGroups feature g.1 g.2.1 g.2.2 (p.tryGroup feature v g best)
termination_by sorted.length
decreasing_by exact sumGroup_length_lt feature x xs i left

/-- One feature: the buffer refilled and sorted, then swept. -/
def SplitSearch.searchFeature (p : SplitSearch K) (samples : List (WeightedSample K))
    (r : Option (Split K) × List (WeightedSample K)) (feature : Nat) :
    Option (Split K) × List (WeightedSample K) :=
  let scratch := vecClear r.2
  let scratch := scratch ++ samples
  let scratch := sortByFeature feature scratch
  (p.sweepGroups feature scratch 0 { w := 0, wy := 0, wy2 := 0 } r.1, scratch)

/-- `best_split_with_scratch`: the split, and the buffer it leaves. -/
def bestSplitWithScratch (samples : List (WeightedSample K)) (minSamplesLeaf : Nat) (sse : K)
    (minRelVarReduction : K) (scratch : List (WeightedSample K)) :
    Option (Nat × U64) × List (WeightedSample K) :=
  let p : SplitSearch K :=
    { n := samples.length, total := labelTotals samples, minSamplesLeaf, sse
      minReduction := sse * minRelVarReduction }
  let r := (List.range mlfqTreeNrFeatures).foldl (p.searchFeature samples) (none, scratch)
  (r.1.map fun b => (b.feature, b.threshold), r.2)

/-! ## The sweep by groups is the sweep by samples -/

/-- Up to the end of its first group the sweep has one candidate. -/
theorem SplitSearch.sweep_group (p : SplitSearch K) (feature : Nat) (x : WeightedSample K)
    (xs : List (WeightedSample K)) (i : Nat) (left : LabelTotals K) (best : Option (Split K)) :
    p.sweep feature (x :: xs) i left best
      = let g := sumGroup feature (sampleValue feature x) (x :: xs) i left
        p.sweep feature g.1 g.2.1 g.2.2 (p.tryGroup feature (sampleValue feature x) g best) := by
  induction xs generalizing x i left with
  | nil =>
      rw [sumGroup, if_pos rfl, sumGroup]
      rfl
  | cons y ys ih =>
      rw [sumGroup, if_pos rfl]
      by_cases hy : sampleValue feature y = sampleValue feature x
      · rw [SplitSearch.sweep, if_pos hy, ih y (i + 1) (left.add x), hy]
      · rw [SplitSearch.sweep, if_neg hy, sumGroup, if_neg hy]
        rfl

theorem SplitSearch.sweepGroups_eq (p : SplitSearch K) (feature : Nat)
    (sorted : List (WeightedSample K)) (i : Nat) (left : LabelTotals K)
    (best : Option (Split K)) :
    p.sweepGroups feature sorted i left best = p.sweep feature sorted i left best := by
  induction hlen : sorted.length using Nat.strong_induction_on generalizing sorted i left best with
  | _ len ih =>
      cases sorted with
      | nil =>
          rw [SplitSearch.sweepGroups]
          rfl
      | cons x xs =>
          rw [SplitSearch.sweepGroups, SplitSearch.sweep_group]
          exact ih _ (hlen ▸ sumGroup_length_lt feature x xs i left) _ _ _ _ rfl

/-- **The buffer changes nothing**: the search returns what `best_split`
returns, which allocates its own for every feature. -/
theorem bestSplitWithScratch_fst (samples : List (WeightedSample K)) (minSamplesLeaf : Nat)
    (sse minRelVarReduction : K) (scratch : List (WeightedSample K)) :
    (bestSplitWithScratch samples minSamplesLeaf sse minRelVarReduction scratch).1
      = bestSplit samples minSamplesLeaf sse minRelVarReduction := by
  generalize hp : (SplitSearch.mk samples.length (labelTotals samples) minSamplesLeaf sse
    (sse * minRelVarReduction) : SplitSearch K) = p
  have hfold : ((List.range mlfqTreeNrFeatures).foldl (p.searchFeature samples)
        (none, scratch)).1
      = (List.range mlfqTreeNrFeatures).foldl (fun best feature =>
          p.sweep feature (sortByFeature feature samples) 0 { w := 0, wy := 0, wy2 := 0 } best)
          none := by
    have hstep : ∀ (r : Option (Split K) × List (WeightedSample K)) (feature : Nat),
        p.sweep feature (sortByFeature feature samples) 0 { w := 0, wy := 0, wy2 := 0 } r.1
          = (p.searchFeature samples r feature).1 := by
      intro r feature
      show _ = p.sweepGroups feature (sortByFeature feature samples) 0 _ r.1
      rw [SplitSearch.sweepGroups_eq]
    exact (@List.foldl_hom _ _ _ Prod.fst (p.searchFeature samples) _ _ (none, scratch)
      hstep).symm
  rw [bestSplitWithScratch, bestSplit, hp]
  show Option.map _ ((List.range mlfqTreeNrFeatures).foldl (p.searchFeature samples)
    (none, scratch)).1 = _
  rw [hfold]

/-! ## The candidates -/

/-- A place where the sweep can cut: behind the first `nL` sorted samples,
with their totals. -/
structure Cut (K : Type*) where
  feature : Nat
  threshold : U64
  nL : Nat
  left : LabelTotals K

/-- The cuts of one sweep: where two neighbours differ. -/
def cuts (feature : Nat) : List (WeightedSample K) → Nat → LabelTotals K → List (Cut K)
  | [], _, _ => []
  | x :: xs, nL, left =>
      match xs with
      | [] => []
      | next :: _ =>
          if sampleValue feature next = sampleValue feature x then
            cuts feature xs (nL + 1) (left.add x)
          else
            ⟨feature, midpoint (sampleValue feature x) (sampleValue feature next), nL + 1,
              left.add x⟩ :: cuts feature xs (nL + 1) (left.add x)

namespace SplitSearch

variable (p : SplitSearch K)

/-- `sse - sse_l - sse_r` at a cut. -/
def reduction (c : Cut K) : K := p.sse - c.left.sse - (p.total.rest c.left).sse

/-- The tests a cut must pass. -/
def eligible (c : Cut K) : Bool :=
  decide ((c.nL ≥ p.minSamplesLeaf ∧ p.n - c.nL ≥ p.minSamplesLeaf)
    ∧ p.reduction c > p.minReduction)

/-- The best so far stays: the comparison of the source. -/
def stays (b a : Cut K) : Prop := p.reduction a ≤ p.reduction b

instance : DecidableRel p.stays := fun b a =>
  inferInstanceAs (Decidable (p.reduction a ≤ p.reduction b))

def toSplit (c : Cut K) : Split K := ⟨c.feature, c.threshold, p.reduction c⟩

theorem tryCut_eq (c : Cut K) (best : Option (Cut K)) :
    (if c.nL ≥ p.minSamplesLeaf ∧ p.n - c.nL ≥ p.minSamplesLeaf then
        p.consider c.feature c.threshold c.left (best.map p.toSplit)
      else best.map p.toSplit)
      = (Selection.improve p.stays p.eligible best c).map p.toSplit := by
  unfold Selection.improve
  by_cases hsides : c.nL ≥ p.minSamplesLeaf ∧ p.n - c.nL ≥ p.minSamplesLeaf
  · by_cases hred : p.reduction c > p.minReduction
    · have hok : p.eligible c = true := decide_eq_true ⟨hsides, hred⟩
      rw [if_pos hsides, if_pos hok]
      unfold consider
      show (if p.reduction c > p.minReduction then _ else _) = _
      rw [if_pos hred]
      cases best with
      | none => rfl
      | some b =>
          show (if p.reduction c > p.reduction b then some (p.toSplit c)
              else some (p.toSplit b))
            = (if p.stays b c then some b else some c).map p.toSplit
          -- a greater reduction replaces the best, an equal one does not
          by_cases hle : p.stays b c
          · rw [if_neg (not_lt.mpr hle), if_pos hle]
            rfl
          · rw [if_pos (not_le.mp hle), if_neg hle]
            rfl
    · have hok : ¬ p.eligible c = true := fun h => hred (of_decide_eq_true h).2
      rw [if_pos hsides, if_neg hok]
      unfold consider
      show (if p.reduction c > p.minReduction then _ else _) = _
      rw [if_neg hred]
  · have hok : ¬ p.eligible c = true := fun h => hsides (of_decide_eq_true h).1
    rw [if_neg hsides, if_neg hok]

/-- **The sweep is a scan of its cuts.** -/
theorem sweep_eq_foldl (feature : Nat) (xs : List (WeightedSample K)) (nL : Nat)
    (left : LabelTotals K) (best : Option (Cut K)) :
    p.sweep feature xs nL left (best.map p.toSplit)
      = ((cuts feature xs nL left).foldl (Selection.improve p.stays p.eligible) best).map
          p.toSplit := by
  induction xs generalizing nL left best with
  | nil => rfl
  | cons x xs ih =>
      cases xs with
      | nil => rfl
      | cons next post =>
          rw [sweep, cuts]
          by_cases heq : sampleValue feature next = sampleValue feature x
          · rw [if_pos heq, if_pos heq]
            exact ih _ _ _
          · rw [if_neg heq, if_neg heq, List.foldl_cons, ← ih]
            rw [← p.tryCut_eq]

end SplitSearch

/-- The cuts of a search, feature by feature. -/
def allCuts (samples : List (WeightedSample K)) : List (Cut K) :=
  (List.range mlfqTreeNrFeatures).flatMap fun feature =>
    cuts feature (sortByFeature feature samples) 0 { w := 0, wy := 0, wy2 := 0 }

/-- What a search over the samples has fixed. -/
def searchOf (samples : List (WeightedSample K)) (minSamplesLeaf : Nat)
    (sse minRelVarReduction : K) : SplitSearch K where
  n := samples.length
  total := labelTotals samples
  minSamplesLeaf := minSamplesLeaf
  sse := sse
  minReduction := sse * minRelVarReduction

/-- **The search is a scan of all cuts.** -/
theorem bestSplit_eq_foldl (samples : List (WeightedSample K)) (minSamplesLeaf : Nat)
    (sse minRelVarReduction : K) :
    let p := searchOf samples minSamplesLeaf sse minRelVarReduction
    bestSplit samples minSamplesLeaf sse minRelVarReduction
      = ((allCuts samples).foldl (Selection.improve p.stays p.eligible) none).map fun c =>
          (c.feature, c.threshold) := by
  intro p
  -- the sweeps, feature by feature, are one scan of all cuts
  have hfold : ∀ (features : List Nat) (best : Option (Cut K)),
      features.foldl (fun best feature =>
          p.sweep feature (sortByFeature feature samples) 0 { w := 0, wy := 0, wy2 := 0 } best)
          (best.map p.toSplit)
        = ((features.flatMap fun feature =>
            cuts feature (sortByFeature feature samples) 0 { w := 0, wy := 0, wy2 := 0 }).foldl
            (Selection.improve p.stays p.eligible) best).map p.toSplit := by
    intro features
    induction features with
    | nil =>
        intro best
        rfl
    | cons feature features ih =>
        intro best
        rw [List.foldl_cons, List.flatMap_cons, List.foldl_append, p.sweep_eq_foldl, ih]
  have h := hfold (List.range mlfqTreeNrFeatures) none
  rw [Option.map_none] at h
  show Option.map _ ((List.range mlfqTreeNrFeatures).foldl (fun best feature =>
    p.sweep feature (sortByFeature feature samples) 0 { w := 0, wy := 0, wy2 := 0 } best) none) = _
  rw [h, Option.map_map]
  rfl

/-! ## Where the cuts are -/

/-- Two neighbours of a list are its first two elements or lie behind the
first. -/
theorem exists_neighbours_cons {α : Type*} {P : List α → α → α → Prop} {y z : α}
    {zs : List α} :
    (∃ pre x next post, y :: z :: zs = pre ++ x :: next :: post ∧ P pre x next)
      ↔ P [] y z
        ∨ ∃ pre x next post, z :: zs = pre ++ x :: next :: post ∧ P (y :: pre) x next := by
  constructor
  · rintro ⟨pre, x, next, post, heq, hP⟩
    cases pre with
    | nil =>
        obtain ⟨rfl, hrest⟩ := List.cons.inj heq
        obtain ⟨rfl, -⟩ := List.cons.inj hrest
        exact .inl hP
    | cons y' pre =>
        obtain ⟨rfl, hrest⟩ := List.cons.inj heq
        exact .inr ⟨pre, x, next, post, hrest, hP⟩
  · rintro (hP | ⟨pre, x, next, post, heq, hP⟩)
    · exact ⟨[], y, z, zs, rfl, hP⟩
    · exact ⟨y :: pre, x, next, post, congrArg (y :: ·) heq, hP⟩

omit [LinearOrder K] in
theorem mem_cuts {feature : Nat} {xs : List (WeightedSample K)} {nL : Nat}
    {left : LabelTotals K} {c : Cut K} :
    c ∈ cuts feature xs nL left
      ↔ ∃ pre x next post, xs = pre ++ x :: next :: post
        ∧ sampleValue feature next ≠ sampleValue feature x
        ∧ c = ⟨feature, midpoint (sampleValue feature x) (sampleValue feature next),
            nL + pre.length + 1, (pre ++ [x]).foldl LabelTotals.add left⟩ := by
  induction xs generalizing nL left with
  | nil => simp [cuts]
  | cons y ys ih =>
      cases ys with
      | nil =>
          constructor
          · intro h
            cases h
          · rintro ⟨pre, x, next, post, heq, -⟩
            have hlen := congrArg List.length heq
            simp only [List.length_append, List.length_cons, List.length_nil] at hlen
            omega
      | cons z zs =>
          have htail : (∃ pre x next post, z :: zs = pre ++ x :: next :: post
              ∧ sampleValue feature next ≠ sampleValue feature x
              ∧ c = ⟨feature, midpoint (sampleValue feature x) (sampleValue feature next),
                  nL + (y :: pre).length + 1, ((y :: pre) ++ [x]).foldl LabelTotals.add left⟩)
              ↔ c ∈ cuts feature (z :: zs) (nL + 1) (left.add y) := by
            rw [ih]
            refine exists_congr fun pre => exists_congr fun x => exists_congr fun next =>
              exists_congr fun post => ?_
            have hlen : nL + (y :: pre).length + 1 = nL + 1 + pre.length + 1 := by
              rw [List.length_cons]
              omega
            rw [hlen, List.cons_append, List.foldl_cons]
          rw [exists_neighbours_cons, htail, cuts]
          by_cases heq : sampleValue feature z = sampleValue feature y
          · simp [heq]
          · simp [heq]

omit [LinearOrder K] in
/-- The thresholds of one sweep grow. -/
theorem cuts_pairwise {feature : Nat} {xs : List (WeightedSample K)}
    (hsorted : xs.Pairwise fun x y => sampleValue feature x ≤ sampleValue feature y) (nL : Nat)
    (left : LabelTotals K) :
    (cuts feature xs nL left).Pairwise fun b a => b.threshold < a.threshold := by
  induction xs generalizing nL left with
  | nil => exact List.Pairwise.nil
  | cons x xs ih =>
      obtain ⟨hhead, htail⟩ := List.pairwise_cons.mp hsorted
      cases xs with
      | nil => exact List.Pairwise.nil
      | cons next post =>
          rw [cuts]
          split
          · exact ih htail _ _
          · rename_i hne
            refine List.pairwise_cons.mpr ⟨fun c hc => ?_, ih htail _ _⟩
            have hlt : sampleValue feature x < sampleValue feature next := by
              have hle := hhead next List.mem_cons_self
              bv_omega
            -- a later cut lies between two values from `next` on
            obtain ⟨pre, y, z, rest, heq, hne', rfl⟩ := mem_cuts.mp hc
            rw [heq] at htail
            have hyz : sampleValue feature y < sampleValue feature z := by
              have hle := (List.pairwise_cons.mp (List.pairwise_append.mp htail).2.1).1 z
                List.mem_cons_self
              bv_omega
            have hnext : sampleValue feature next ≤ sampleValue feature y := by
              cases pre with
              | nil =>
                  obtain ⟨rfl, -⟩ := List.cons.inj heq
                  exact BitVec.le_refl _
              | cons n pre =>
                  obtain ⟨rfl, -⟩ := List.cons.inj heq
                  exact (List.pairwise_cons.mp htail).1 y
                    (List.mem_append_right _ List.mem_cons_self)
            have hmid := (midpoint_between hlt).2
            have hmid' := (midpoint_between hyz).1
            show midpoint (sampleValue feature x) (sampleValue feature next)
              < midpoint (sampleValue feature y) (sampleValue feature z)
            bv_omega

/-- A list that crosses from `P` to its opposite does so between two
neighbours. -/
theorem exists_crossing {α : Type*} {P : α → Prop} {l : List α} {a b : α} (ha : a ∈ l)
    (hb : b ∈ l) (hPa : P a) (hPb : ¬ P b) (hdown : l.Pairwise fun x y => P y → P x) :
    ∃ pre x next post, l = pre ++ x :: next :: post ∧ P x ∧ ¬ P next := by
  induction l generalizing a with
  | nil => cases ha
  | cons x l ih =>
      obtain ⟨hhead, htail⟩ := List.pairwise_cons.mp hdown
      have hx : P x := by
        rcases List.mem_cons.mp ha with rfl | hin
        · exact hPa
        · exact hhead a hin hPa
      have hb' : b ∈ l := by
        rcases List.mem_cons.mp hb with rfl | hin
        · exact absurd hx hPb
        · exact hin
      cases l with
      | nil => cases hb'
      | cons next post =>
          by_cases hnext : P next
          · obtain ⟨pre, y, z, rest, heq, hy, hz⟩ := ih List.mem_cons_self hb' hnext htail
            exact ⟨x :: pre, y, z, rest, by rw [heq, List.cons_append], hy, hz⟩
          · exact ⟨[], x, next, post, rfl, hx, hnext⟩

/-! ## The pairs of adjacent values -/

/-- `v` and `w` are distinct values of the feature with none in between. -/
structure Adjacent (samples : List (WeightedSample K)) (feature : Nat) (v w : U64) : Prop where
  lower : ∃ x ∈ samples, sampleValue feature x = v
  upper : ∃ x ∈ samples, sampleValue feature x = w
  lt : v < w
  between : ∀ x ∈ samples, sampleValue feature x ≤ v ∨ w ≤ sampleValue feature x

omit [Field K] [LinearOrder K] in
/-- **The midpoint separates what the pair separates**, also between
consecutive integers, where it is the lower value. -/
theorem Adjacent.sides {samples : List (WeightedSample K)} {feature : Nat} {v w : U64}
    (h : Adjacent samples feature v w) :
    leftSamples feature (midpoint v w) samples = leftSamples feature v samples
      ∧ rightSamples feature (midpoint v w) samples = rightSamples feature v samples := by
  obtain ⟨hmid, hmid'⟩ := midpoint_between h.lt
  have hiff : ∀ x ∈ samples, sampleValue feature x ≤ midpoint v w ↔ sampleValue feature x ≤ v := by
    intro x hx
    have hlt := h.lt
    rcases h.between x hx with hle | hge
    · exact ⟨fun _ => hle, fun _ => BitVec.le_trans hle hmid⟩
    · constructor
      · intro hle
        bv_omega
      · intro hle
        bv_omega
  constructor
  · exact List.filter_congr fun x hx => decide_eq_decide.mpr (hiff x hx)
  · exact List.filter_congr fun x hx => decide_eq_decide.mpr (not_congr (hiff x hx))

omit [Field K] [LinearOrder K] in
/-- Two neighbours of the sorted samples that differ are adjacent values. -/
theorem adjacent_of_split {samples pre post : List (WeightedSample K)} {feature : Nat}
    {x next : WeightedSample K} (hperm : (pre ++ x :: next :: post).Perm samples)
    (hsorted : (pre ++ x :: next :: post).Pairwise fun x y =>
      sampleValue feature x ≤ sampleValue feature y)
    (hne : sampleValue feature next ≠ sampleValue feature x) :
    Adjacent samples feature (sampleValue feature x) (sampleValue feature next) := by
  obtain ⟨-, hrest, hpre⟩ := List.pairwise_append.mp hsorted
  obtain ⟨hx, hpost⟩ := List.pairwise_cons.mp hrest
  obtain ⟨hafter, -⟩ := List.pairwise_cons.mp hpost
  have hle := hx next List.mem_cons_self
  refine ⟨⟨x, ?_, rfl⟩, ⟨next, ?_, rfl⟩, ?_, ?_⟩
  · exact hperm.mem_iff.mp (List.mem_append_right _ List.mem_cons_self)
  · exact hperm.mem_iff.mp (List.mem_append_right _ (List.mem_cons_of_mem _ List.mem_cons_self))
  · bv_omega
  · intro y hy
    rcases List.mem_append.mp (hperm.mem_iff.mpr hy) with hin | hin
    · exact .inl (hpre y hin x List.mem_cons_self)
    · rcases List.mem_cons.mp hin with rfl | hin
      · exact .inl (BitVec.le_refl _)
      · rcases List.mem_cons.mp hin with rfl | hin
        · exact .inr (BitVec.le_refl _)
        · exact .inr (hafter y hin)

omit [Field K] [LinearOrder K] in
/-- Adjacent values are the values of two neighbours. -/
theorem Adjacent.split {samples sorted : List (WeightedSample K)} {feature : Nat} {v w : U64}
    (h : Adjacent samples feature v w) (hperm : sorted.Perm samples)
    (hsorted : sorted.Pairwise fun x y => sampleValue feature x ≤ sampleValue feature y) :
    ∃ pre x next post, sorted = pre ++ x :: next :: post
      ∧ sampleValue feature x = v ∧ sampleValue feature next = w := by
  obtain ⟨a, ha, hav⟩ := h.lower
  obtain ⟨b, hb, hbw⟩ := h.upper
  have hlt := h.lt
  have hdown : sorted.Pairwise fun x y => sampleValue feature y ≤ v → sampleValue feature x ≤ v :=
    hsorted.imp fun hle hy => BitVec.le_trans hle hy
  obtain ⟨pre, x, next, post, rfl, hx, hnext⟩ := exists_crossing
    (hperm.mem_iff.mpr ha) (hperm.mem_iff.mpr hb) (by rw [hav]; exact BitVec.le_refl _)
    (by rw [hbw]; exact BitVec.not_le.mpr hlt) hdown
  obtain ⟨-, hrest, hpre⟩ := List.pairwise_append.mp hsorted
  obtain ⟨-, hpost⟩ := List.pairwise_cons.mp hrest
  obtain ⟨hafter, -⟩ := List.pairwise_cons.mp hpost
  have hsides := sides_perm hperm hsorted hx (BitVec.not_le.mp hnext)
  refine ⟨pre, x, next, post, rfl, ?_, ?_⟩
  · -- the sample with the lower value is among those up to `x`
    have hmem : a ∈ pre ++ [x] := by
      have hle : sampleValue feature a ≤ v := by
        rw [hav]
        exact BitVec.le_refl _
      exact hsides.1.mem_iff.mpr (List.mem_filter.mpr ⟨ha, decide_eq_true hle⟩)
    rcases List.mem_append.mp hmem with hin | hin
    · have hle := hpre a hin x List.mem_cons_self
      bv_omega
    · rw [← List.mem_singleton.mp hin]
      exact hav
  · -- and the one with the upper value among those from `next` on
    have hmem : b ∈ next :: post := by
      have hgt : ¬ sampleValue feature b ≤ v := by
        rw [hbw]
        exact BitVec.not_le.mpr hlt
      exact hsides.2.mem_iff.mpr (List.mem_filter.mpr ⟨hb, decide_eq_true hgt⟩)
    have hge : w ≤ sampleValue feature next := by
      have hin : next ∈ samples := hperm.mem_iff.mp
        (List.mem_append_right _ (List.mem_cons_of_mem _ List.mem_cons_self))
      exact (h.between next hin).resolve_left hnext
    rcases List.mem_cons.mp hmem with heq | hin
    · rw [← heq]
      exact hbw
    · have hle := hafter b hin
      bv_omega

/-! ## The running sums -/

/-- The recency weight of a sample, and its label. -/
def sampleWeight (x : WeightedSample K) : K := x.2

def sampleLabel (x : WeightedSample K) : K := x.1.labelNs.toNat

/-- The weighted sum of squared deviations of the labels. -/
def labelSse (samples : List (WeightedSample K)) : K :=
  Spread.squaredDeviations sampleWeight sampleLabel samples

omit [LinearOrder K] in
theorem foldl_add_eq (samples : List (WeightedSample K)) (t : LabelTotals K) :
    samples.foldl LabelTotals.add t
      = { w := t.w + Spread.weight sampleWeight samples
          wy := t.wy + Spread.moment sampleWeight sampleLabel samples
          wy2 := t.wy2 + Spread.square sampleWeight sampleLabel samples } := by
  induction samples generalizing t with
  | nil => simp [Spread.weight, Spread.moment, Spread.square]
  | cons x xs ih =>
      rw [List.foldl_cons, ih]
      simp only [LabelTotals.add, Spread.weight, Spread.moment, Spread.square, List.map_cons,
        List.sum_cons, sampleWeight, sampleLabel, add_assoc]

omit [LinearOrder K] in
theorem labelTotals_eq (samples : List (WeightedSample K)) :
    labelTotals samples
      = { w := Spread.weight sampleWeight samples
          wy := Spread.moment sampleWeight sampleLabel samples
          wy2 := Spread.square sampleWeight sampleLabel samples } := by
  rw [labelTotals, foldl_add_eq]
  simp

omit [LinearOrder K] in
/-- The totals do not depend on the order. -/
theorem labelTotals_perm {xs ys : List (WeightedSample K)} (h : xs.Perm ys) :
    labelTotals xs = labelTotals ys := by
  rw [labelTotals_eq, labelTotals_eq, Spread.weight, Spread.moment, Spread.square,
    (h.map _).sum_eq, (h.map _).sum_eq, (h.map _).sum_eq]
  rfl

omit [LinearOrder K] in
theorem labelTotals_append (xs ys : List (WeightedSample K)) :
    (labelTotals (xs ++ ys)).rest (labelTotals xs) = labelTotals ys := by
  rw [labelTotals_eq, labelTotals_eq, labelTotals_eq]
  simp [LabelTotals.rest, Spread.weight, Spread.moment, Spread.square]

omit [Field K] [LinearOrder K] in
theorem sides_append_perm (feature : Nat) (v : U64) (samples : List (WeightedSample K)) :
    (leftSamples feature v samples ++ rightSamples feature v samples).Perm samples := by
  have hright : rightSamples feature v samples
      = samples.filter fun x => !decide (sampleValue feature x ≤ v) := by
    rw [rightSamples]
    exact List.filter_congr fun x _ => decide_not
  rw [hright]
  exact List.filter_append_perm _ _

omit [LinearOrder K] in
/-- What is left of the totals are the totals of the right side. -/
theorem rest_leftSamples (feature : Nat) (v : U64) (samples : List (WeightedSample K)) :
    (labelTotals samples).rest (labelTotals (leftSamples feature v samples))
      = labelTotals (rightSamples feature v samples) := by
  rw [← labelTotals_perm (sides_append_perm feature v samples), labelTotals_append]

theorem weight_ne_zero [IsStrictOrderedRing K] {samples : List (WeightedSample K)}
    (hne : samples ≠ []) (hpos : ∀ x ∈ samples, 0 < x.2) :
    Spread.weight sampleWeight samples ≠ 0 := by
  refine ne_of_gt (List.sum_pos _ ?_ (by simpa using hne))
  intro k hk
  obtain ⟨x, hx, rfl⟩ := List.mem_map.mp hk
  exact hpos x hx

theorem labelTotals_sse [IsStrictOrderedRing K] {samples : List (WeightedSample K)}
    (hne : samples ≠ []) (hpos : ∀ x ∈ samples, 0 < x.2) :
    (labelTotals samples).sse = labelSse samples := by
  rw [labelSse, Spread.squaredDeviations_eq _ _ (weight_ne_zero hne hpos), labelTotals_eq]
  rfl

/-! ## The optimum -/

/-- The cut at a pair of adjacent values. -/
def cutAt (samples : List (WeightedSample K)) (feature : Nat) (v w : U64) : Cut K where
  feature := feature
  threshold := midpoint v w
  nL := (leftSamples feature v samples).length
  left := labelTotals (leftSamples feature v samples)

omit [LinearOrder K] in
/-- **The cuts of a sweep are the pairs of adjacent values.** -/
theorem mem_cuts_sorted {samples : List (WeightedSample K)} {feature : Nat} {c : Cut K} :
    c ∈ cuts feature (sortByFeature feature samples) 0 { w := 0, wy := 0, wy2 := 0 }
      ↔ ∃ v w, Adjacent samples feature v w ∧ c = cutAt samples feature v w := by
  have hperm := sortByFeature_perm feature samples
  have hsorted := sortByFeature_pairwise feature samples
  -- the record of a cut, read off the two sides
  have hcut : ∀ {pre post : List (WeightedSample K)} {x next : WeightedSample K},
      sortByFeature feature samples = pre ++ x :: next :: post →
      sampleValue feature x < sampleValue feature next →
      (⟨feature, midpoint (sampleValue feature x) (sampleValue feature next),
          0 + pre.length + 1, (pre ++ [x]).foldl LabelTotals.add { w := 0, wy := 0, wy2 := 0 }⟩
          : Cut K)
        = cutAt samples feature (sampleValue feature x) (sampleValue feature next) := by
    intro pre post x next heq hlt
    rw [heq] at hperm hsorted
    have hsides := sides_perm hperm hsorted (BitVec.le_refl _) hlt
    have htotals := labelTotals_perm hsides.1
    have hlen := hsides.1.length_eq
    rw [List.length_append, List.length_singleton] at hlen
    rw [cutAt, ← htotals, ← hlen, Nat.zero_add]
    rfl
  rw [mem_cuts]
  constructor
  · rintro ⟨pre, x, next, post, heq, hne, rfl⟩
    have hadj : Adjacent samples feature (sampleValue feature x) (sampleValue feature next) := by
      rw [heq] at hperm hsorted
      exact adjacent_of_split hperm hsorted hne
    exact ⟨_, _, hadj, hcut heq hadj.lt⟩
  · rintro ⟨v, w, hadj, rfl⟩
    obtain ⟨pre, x, next, post, heq, rfl, rfl⟩ := hadj.split hperm hsorted
    have hne : sampleValue feature next ≠ sampleValue feature x := by
      have hlt := hadj.lt
      bv_omega
    exact ⟨pre, x, next, post, heq, hne, (hcut heq hadj.lt).symm⟩

omit [LinearOrder K] in
theorem mem_allCuts {samples : List (WeightedSample K)} {c : Cut K} :
    c ∈ allCuts samples
      ↔ ∃ feature v w, feature < mlfqTreeNrFeatures ∧ Adjacent samples feature v w
        ∧ c = cutAt samples feature v w := by
  rw [allCuts, List.mem_flatMap]
  constructor
  · rintro ⟨feature, hf, hc⟩
    obtain ⟨v, w, hadj, heq⟩ := mem_cuts_sorted.mp hc
    exact ⟨feature, v, w, List.mem_range.mp hf, hadj, heq⟩
  · rintro ⟨feature, v, w, hf, hadj, heq⟩
    exact ⟨feature, List.mem_range.mpr hf, mem_cuts_sorted.mpr ⟨v, w, hadj, heq⟩⟩

omit [LinearOrder K] in
/-- The cuts come by feature, and within a feature by threshold. -/
theorem allCuts_pairwise (samples : List (WeightedSample K)) :
    (allCuts samples).Pairwise fun b a =>
      b.feature < a.feature ∨ b.feature = a.feature ∧ b.threshold ≤ a.threshold := by
  rw [allCuts, List.pairwise_flatMap]
  constructor
  · intro feature _
    refine (cuts_pairwise (sortByFeature_pairwise feature samples) 0 _).imp_of_mem ?_
    intro b a hb ha hlt
    obtain ⟨v, w, -, rfl⟩ := mem_cuts_sorted.mp hb
    obtain ⟨v', w', -, rfl⟩ := mem_cuts_sorted.mp ha
    exact .inr ⟨rfl, BitVec.le_of_lt hlt⟩
  · refine List.pairwise_lt_range.imp ?_
    intro f f' hlt b hb a ha
    obtain ⟨v, w, -, rfl⟩ := mem_cuts_sorted.mp hb
    obtain ⟨v', w', -, rfl⟩ := mem_cuts_sorted.mp ha
    exact .inl hlt

/-- `b` is the better cut: the greater reduction, then the smaller
feature, then the smaller threshold. -/
def SplitSearch.better (p : SplitSearch K) (b a : Cut K) : Prop :=
  p.reduction a < p.reduction b
    ∨ p.reduction a = p.reduction b
      ∧ (b.feature < a.feature ∨ b.feature = a.feature ∧ b.threshold ≤ a.threshold)

/-- The place of a cut in the order. -/
def SplitSearch.rank (p : SplitSearch K) (c : Cut K) : Kᵒᵈ ×ₗ Nat ×ₗ Nat :=
  toLex (OrderDual.toDual (p.reduction c), toLex (c.feature, c.threshold.toNat))

theorem SplitSearch.rank_le_iff (p : SplitSearch K) (b a : Cut K) :
    p.rank b ≤ p.rank a ↔ p.better b a := by
  rw [rank, rank, Prod.Lex.toLex_le_toLex, Prod.Lex.toLex_le_toLex, better, BitVec.le_def]
  exact or_congr_right (and_congr_left fun _ => eq_comm)

instance (p : SplitSearch K) : Std.Total p.better where
  total b a := by
    rw [← p.rank_le_iff, ← p.rank_le_iff]
    exact le_total _ _

instance (p : SplitSearch K) : IsTrans (Cut K) p.better where
  trans c b a := by
    rw [← p.rank_le_iff, ← p.rank_le_iff, ← p.rank_le_iff]
    exact le_trans

/-- **A scan in the order of the source selects the better cut**: the
comparison is strict, so the first of equals stays. -/
theorem SplitSearch.scan_isBest (p : SplitSearch K) {cands : List (Cut K)}
    (h : cands.Pairwise fun b a =>
      b.feature < a.feature ∨ b.feature = a.feature ∧ b.threshold ≤ a.threshold) :
    Selection.IsBest p.better (fun c => c ∈ cands ∧ p.eligible c = true)
      (cands.foldl (Selection.improve p.stays p.eligible) none) := by
  have : DecidableRel p.better := Classical.decRel _
  have hagree : cands.Pairwise fun b a => (p.stays b a ↔ p.better b a) := by
    refine h.imp fun hkey => ?_
    rw [stays, better, le_iff_lt_or_eq]
    exact or_congr_right ⟨fun heq => ⟨heq, hkey⟩, fun heq => heq.1⟩
  have hnone : ∀ b, none = some b → ∀ a ∈ cands, (p.stays b a ↔ p.better b a) := by
    intro b hb
    cases hb
  rw [Selection.foldl_improve_congr hnone hagree]
  exact Selection.isBest_foldl cands

/-- A pair of adjacent values of a populated feature that leaves both
sides as many samples as a leaf must have. -/
structure Candidate (samples : List (WeightedSample K)) (minSamplesLeaf feature : Nat)
    (v w : U64) : Prop where
  slot : feature < mlfqTreeNrFeatures
  adjacent : Adjacent samples feature v w
  left : minSamplesLeaf ≤ (leftSamples feature v samples).length
  right : minSamplesLeaf ≤ (rightSamples feature v samples).length

/-- What the squared deviations lose by the split at `v`. -/
def reductionAt (samples : List (WeightedSample K)) (feature : Nat) (v : U64) : K :=
  labelSse samples - labelSse (leftSamples feature v samples)
    - labelSse (rightSamples feature v samples)

variable [IsStrictOrderedRing K] {samples : List (WeightedSample K)}

/-- **The running sums give the deviations of the two sides.** -/
theorem cutAt_sse (hpos : ∀ x ∈ samples, 0 < x.2) {feature : Nat} {v w : U64}
    (h : Adjacent samples feature v w) :
    (cutAt samples feature v w).left.sse = labelSse (leftSamples feature v samples)
      ∧ ((labelTotals samples).rest (cutAt samples feature v w).left).sse
        = labelSse (rightSamples feature v samples) := by
  obtain ⟨a, ha, hav⟩ := h.lower
  obtain ⟨b, hb, hbw⟩ := h.upper
  have hlt := h.lt
  have hleft : a ∈ leftSamples feature v samples := by
    have hle : sampleValue feature a ≤ v := by
      rw [hav]
      exact BitVec.le_refl _
    exact List.mem_filter.mpr ⟨ha, decide_eq_true hle⟩
  have hright : b ∈ rightSamples feature v samples := by
    have hgt : ¬ sampleValue feature b ≤ v := by
      rw [hbw]
      exact BitVec.not_le.mpr hlt
    exact List.mem_filter.mpr ⟨hb, decide_eq_true hgt⟩
  constructor
  · exact labelTotals_sse (List.ne_nil_of_mem hleft) fun x hx => hpos x (List.mem_filter.mp hx).1
  · show ((labelTotals samples).rest (labelTotals (leftSamples feature v samples))).sse = _
    rw [rest_leftSamples]
    exact labelTotals_sse (List.ne_nil_of_mem hright) fun x hx => hpos x (List.mem_filter.mp hx).1

theorem reduction_cutAt (hpos : ∀ x ∈ samples, 0 < x.2) (minSamplesLeaf : Nat)
    (minRelVarReduction : K) {feature : Nat} {v w : U64} (h : Adjacent samples feature v w) :
    (searchOf samples minSamplesLeaf (labelSse samples) minRelVarReduction).reduction
        (cutAt samples feature v w)
      = reductionAt samples feature v := by
  obtain ⟨hleft, hright⟩ := cutAt_sse hpos h
  rw [SplitSearch.reduction, hleft]
  show labelSse samples - _ - ((labelTotals samples).rest (cutAt samples feature v w).left).sse = _
  rw [hright, reductionAt]

/-- The tests of the source are the conditions on the pair. -/
theorem eligible_cutAt (hpos : ∀ x ∈ samples, 0 < x.2) (minSamplesLeaf : Nat)
    (minRelVarReduction : K) {feature : Nat} (hf : feature < mlfqTreeNrFeatures) {v w : U64}
    (h : Adjacent samples feature v w) :
    (searchOf samples minSamplesLeaf (labelSse samples) minRelVarReduction).eligible
        (cutAt samples feature v w) = true
      ↔ Candidate samples minSamplesLeaf feature v w
        ∧ reductionAt samples feature v > labelSse samples * minRelVarReduction := by
  have hlen := (sides_append_perm feature v samples).length_eq
  rw [List.length_append] at hlen
  rw [SplitSearch.eligible, decide_eq_true_eq, reduction_cutAt hpos _ _ h]
  show ((leftSamples feature v samples).length ≥ minSamplesLeaf
    ∧ samples.length - (leftSamples feature v samples).length ≥ minSamplesLeaf) ∧ _ ↔ _
  refine and_congr_left fun _ => ⟨fun hsides => ⟨hf, h, hsides.1, ?_⟩, fun hc => ⟨hc.left, ?_⟩⟩
  · omega
  · have hright := hc.right
    omega

section Found

variable (hpos : ∀ x ∈ samples, 0 < x.2) (minSamplesLeaf : Nat) (minRelVarReduction : K)
include hpos

/-- The eligible cuts are the candidates above the relative bound. -/
theorem above_iff {feature : Nat} {v w : U64} :
    (Candidate samples minSamplesLeaf feature v w
        ∧ reductionAt samples feature v > labelSse samples * minRelVarReduction)
      ↔ (feature < mlfqTreeNrFeatures ∧ Adjacent samples feature v w)
        ∧ (searchOf samples minSamplesLeaf (labelSse samples) minRelVarReduction).eligible
          (cutAt samples feature v w) = true := by
  constructor
  · intro h
    exact ⟨⟨h.1.slot, h.1.adjacent⟩, (eligible_cutAt hpos _ _ h.1.slot h.1.adjacent).mpr h⟩
  · rintro ⟨⟨hf, hadj⟩, hok⟩
    exact (eligible_cutAt hpos _ _ hf hadj).mp hok

/-- The search finds nothing exactly when there is nothing to find. -/
theorem bestSplit_eq_none_iff :
    bestSplit samples minSamplesLeaf (labelSse samples) minRelVarReduction = none
      ↔ ∀ feature v w, ¬ (Candidate samples minSamplesLeaf feature v w
        ∧ reductionAt samples feature v > labelSse samples * minRelVarReduction) := by
  rw [bestSplit_eq_foldl, Option.map_eq_none_iff]
  have hbest := (searchOf samples minSamplesLeaf (labelSse samples)
    minRelVarReduction).scan_isBest (allCuts_pairwise samples)
  cases hscan : (allCuts samples).foldl (Selection.improve
      (searchOf samples minSamplesLeaf (labelSse samples) minRelVarReduction).stays
      (searchOf samples minSamplesLeaf (labelSse samples) minRelVarReduction).eligible) none with
  | none =>
      rw [hscan] at hbest
      refine ⟨fun _ feature v w habove => ?_, fun _ => rfl⟩
      obtain ⟨⟨hf, hadj⟩, hok⟩ := (above_iff hpos _ _).mp habove
      exact hbest _ ⟨mem_allCuts.mpr ⟨feature, v, w, hf, hadj, rfl⟩, hok⟩
  | some c =>
      rw [hscan] at hbest
      obtain ⟨⟨hc, hok⟩, -⟩ := hbest
      obtain ⟨feature, v, w, hf, hadj, rfl⟩ := mem_allCuts.mp hc
      refine ⟨fun hnone => ?_, fun hno => ?_⟩
      · cases hnone
      · exact absurd ((above_iff hpos _ _).mpr ⟨⟨hf, hadj⟩, hok⟩) (hno feature v w)

/-- What it finds is first among the best. -/
theorem bestSplit_eq_some {feature : Nat} {threshold : U64}
    (hsome : bestSplit samples minSamplesLeaf (labelSse samples) minRelVarReduction
      = some (feature, threshold)) :
    ∃ v w, threshold = midpoint v w
      ∧ (Candidate samples minSamplesLeaf feature v w
        ∧ reductionAt samples feature v > labelSse samples * minRelVarReduction)
      ∧ ∀ feature' v' w', (Candidate samples minSamplesLeaf feature' v' w'
          ∧ reductionAt samples feature' v' > labelSse samples * minRelVarReduction) →
        reductionAt samples feature' v' < reductionAt samples feature v
          ∨ reductionAt samples feature' v' = reductionAt samples feature v
            ∧ (feature < feature' ∨ feature = feature' ∧ threshold ≤ midpoint v' w') := by
  have hbest := (searchOf samples minSamplesLeaf (labelSse samples)
    minRelVarReduction).scan_isBest (allCuts_pairwise samples)
  rw [bestSplit_eq_foldl] at hsome
  obtain ⟨c, hscan, hkey⟩ := Option.map_eq_some_iff.mp hsome
  rw [hscan] at hbest
  obtain ⟨⟨hc, hok⟩, hall⟩ := hbest
  obtain ⟨f, v, w, hf, hadj, rfl⟩ := mem_allCuts.mp hc
  obtain ⟨rfl, rfl⟩ := Prod.mk.inj hkey
  refine ⟨v, w, rfl, (above_iff hpos _ _).mpr ⟨⟨hf, hadj⟩, hok⟩, ?_⟩
  intro f' v' w' habove
  obtain ⟨⟨hf', hadj'⟩, hok'⟩ := (above_iff hpos _ _).mp habove
  have hle := hall _ ⟨mem_allCuts.mpr ⟨f', v', w', hf', hadj', rfl⟩, hok'⟩
  rw [SplitSearch.better, reduction_cutAt hpos _ _ hadj, reduction_cutAt hpos _ _ hadj'] at hle
  exact hle

/-- The running sums at a cut are the deviations of its two sides. -/
theorem allCuts_sse {c : Cut K} (hc : c ∈ allCuts samples) :
    c.left.sse = labelSse (leftSamples c.feature c.threshold samples)
      ∧ ((labelTotals samples).rest c.left).sse
        = labelSse (rightSamples c.feature c.threshold samples) := by
  obtain ⟨f, v, w, -, hadj, rfl⟩ := mem_allCuts.mp hc
  have hsides := hadj.sides
  show _ = labelSse (leftSamples f (midpoint v w) samples)
    ∧ _ = labelSse (rightSamples f (midpoint v w) samples)
  rw [hsides.1, hsides.2]
  exact cutAt_sse hpos hadj

end Found

/-- **What the search finds.** With the weights positive and the sums
taken exactly, whatever the buffer holds: the search finds nothing exactly
when no pair of adjacent values is a candidate above the relative bound;
what it finds is such a candidate of maximum reduction, the first by
feature and threshold among equals; the running sums are the deviations of
the partition by the threshold; and a search without the buffer finds the
same. -/
theorem bestSplitWithScratch_optimal (hpos : ∀ x ∈ samples, 0 < x.2) (minSamplesLeaf : Nat)
    (minRelVarReduction : K) (scratch : List (WeightedSample K)) :
    let sse := labelSse samples
    let found := (bestSplitWithScratch samples minSamplesLeaf sse minRelVarReduction scratch).1
    let above := fun (feature : Nat) (v w : U64) =>
      Candidate samples minSamplesLeaf feature v w
        ∧ reductionAt samples feature v > sse * minRelVarReduction
    found = bestSplit samples minSamplesLeaf sse minRelVarReduction
    ∧ (found = none ↔ ∀ feature v w, ¬ above feature v w)
    ∧ (∀ feature threshold, found = some (feature, threshold) →
        ∃ v w, threshold = midpoint v w ∧ above feature v w
          ∧ ∀ feature' v' w', above feature' v' w' →
            reductionAt samples feature' v' < reductionAt samples feature v
              ∨ reductionAt samples feature' v' = reductionAt samples feature v
                ∧ (feature < feature' ∨ feature = feature' ∧ threshold ≤ midpoint v' w'))
    ∧ (∀ c ∈ allCuts samples,
        c.left.sse = labelSse (leftSamples c.feature c.threshold samples)
        ∧ ((labelTotals samples).rest c.left).sse
          = labelSse (rightSamples c.feature c.threshold samples))
    ∧ (samples ≠ [] → (labelTotals samples).sse = sse) := by
  intro sse found above
  have hfound : found = bestSplit samples minSamplesLeaf sse minRelVarReduction :=
    bestSplitWithScratch_fst samples minSamplesLeaf sse minRelVarReduction scratch
  refine ⟨hfound, ?_, ?_, fun c hc => allCuts_sse hpos hc,
    fun hne => labelTotals_sse hne hpos⟩
  · rw [hfound]
    exact bestSplit_eq_none_iff hpos minSamplesLeaf minRelVarReduction
  · intro feature threshold hsome
    rw [hfound] at hsome
    exact bestSplit_eq_some hpos minSamplesLeaf minRelVarReduction hsome

/-- Two samples of equal weight: a short burst after a short one, and a
long one after a long one. -/
def burstPair : List (WeightedSample ℚ) :=
  [({ pid := 1, queue := 1, feats := { prevBurstNs := 1 }, labelNs := 2 }, 1),
    ({ pid := 1, queue := 1, feats := { prevBurstNs := 8 }, labelNs := 4 }, 1)]

/-- The search over the pair splits behind the first, whatever the buffer
held before. -/
theorem bestSplitWithScratch_burstPair :
    (bestSplitWithScratch burstPair 1 (labelSse burstPair) (1 / 1000) burstPair).1
      = some (0, 4) := by
  have hpos : ∀ x ∈ burstPair, 0 < x.2 := by decide
  have hfresh : (bestSplitWithScratch burstPair 1 (labelSse burstPair) (1 / 1000) burstPair).1
      = bestSplit burstPair 1 (labelSse burstPair) (1 / 1000) :=
    (bestSplitWithScratch_optimal hpos 1 (1 / 1000) burstPair).1
  rw [hfresh]
  decide +kernel

end ScxMlfq
