import ScxMlfq.Daemon.Routing
import ScxMlfq.Daemon.SplitSearch

/-!
# Daemon — Bands

Two kinds of burst. Where a feature tells them apart, and there is a leaf
of either, the search finds a split that parts them, the growth takes it
at the root, and the tree answers each kind with its own length.
-/

namespace ScxMlfq

variable {K : Type*} [Field K] [LinearOrder K]

/-- A kind of burst: the features at its wakeup, and its length. -/
structure Band where
  feats : TreeFeats
  labelNs : U64

/-- The sample is one of the kind. -/
def Band.Has (b : Band) (x : TreeSample) : Prop := x.feats = b.feats ∧ x.labelNs = b.labelNs

/-- The samples with these features. -/
def bandSamples (f : TreeFeats) (samples : List (WeightedSample K)) : List (WeightedSample K) :=
  samples.filter fun x => decide (x.1.feats = f)

omit [Field K] [LinearOrder K] in
theorem mem_bandSamples {f : TreeFeats} {samples : List (WeightedSample K)}
    {x : WeightedSample K} : x ∈ bandSamples f samples ↔ x ∈ samples ∧ x.1.feats = f := by
  rw [bandSamples, List.mem_filter, decide_eq_true_eq]

/-- Samples of two kinds that a feature tells apart, a leaf of either,
with labels that spread. -/
structure TwoBands (minSamplesLeaf feature : Nat) (a b : Band)
    (samples : List (WeightedSample K)) : Prop where
  each : ∀ x ∈ samples, a.Has x.1 ∨ b.Has x.1
  slot : feature < mlfqTreeNrFeatures
  apart : featSlot a.feats feature < featSlot b.feats feature
  leaf : 1 ≤ minSamplesLeaf
  first : minSamplesLeaf ≤ (bandSamples a.feats samples).length
  second : minSamplesLeaf ≤ (bandSamples b.feats samples).length
  spread : (labelTotals samples).sse > 1 / ((10 ^ 12 : Nat) : K) * (labelTotals samples).wy2

namespace TwoBands

variable {minSamplesLeaf feature : Nat} {a b : Band} {samples : List (WeightedSample K)}

theorem feats_ne (h : TwoBands minSamplesLeaf feature a b samples) : a.feats ≠ b.feats := by
  intro heq
  have hlt := h.apart
  rw [heq] at hlt
  exact absurd hlt (BitVec.lt_irrefl _)

/-- The lower side of the slot is the first kind, the upper the second. -/
theorem sides (h : TwoBands minSamplesLeaf feature a b samples) :
    leftSamples feature (featSlot a.feats feature) samples = bandSamples a.feats samples
      ∧ rightSamples feature (featSlot a.feats feature) samples = bandSamples b.feats samples := by
  have hne := h.feats_ne
  have hgt : ¬ featSlot b.feats feature ≤ featSlot a.feats feature := BitVec.not_le.mpr h.apart
  constructor
  · refine List.filter_congr fun x hx => ?_
    rw [decide_eq_decide, sampleValue]
    rcases h.each x hx with ⟨hf, -⟩ | ⟨hf, -⟩
    · rw [hf]
      exact iff_of_true (BitVec.le_refl _) rfl
    · rw [hf]
      exact iff_of_false hgt (Ne.symm hne)
  · refine List.filter_congr fun x hx => ?_
    rw [decide_eq_decide, sampleValue]
    rcases h.each x hx with ⟨hf, -⟩ | ⟨hf, -⟩
    · rw [hf]
      exact iff_of_false (not_not.mpr (BitVec.le_refl _)) hne
    · rw [hf]
      exact iff_of_true hgt rfl

/-- There are samples of either kind. -/
theorem exists_sample (h : TwoBands minSamplesLeaf feature a b samples) :
    (∃ x ∈ samples, x.1.feats = a.feats) ∧ ∃ x ∈ samples, x.1.feats = b.feats := by
  have hleaf := h.leaf
  have hfirst := h.first
  have hsecond := h.second
  obtain ⟨x, hx⟩ := List.exists_mem_of_length_pos
    (show 0 < (bandSamples a.feats samples).length by omega)
  obtain ⟨y, hy⟩ := List.exists_mem_of_length_pos
    (show 0 < (bandSamples b.feats samples).length by omega)
  exact ⟨⟨x, (List.mem_filter.mp hx).1, of_decide_eq_true (List.mem_filter.mp hx).2⟩,
    y, (List.mem_filter.mp hy).1, of_decide_eq_true (List.mem_filter.mp hy).2⟩

theorem ne_nil (h : TwoBands minSamplesLeaf feature a b samples) : samples ≠ [] := by
  obtain ⟨⟨x, hx, -⟩, -⟩ := h.exists_sample
  exact List.ne_nil_of_mem hx

/-- The two values of the slot are a candidate of the search. -/
theorem candidate (h : TwoBands minSamplesLeaf feature a b samples) :
    Candidate samples minSamplesLeaf feature (featSlot a.feats feature)
      (featSlot b.feats feature) := by
  obtain ⟨⟨x, hx, hxa⟩, y, hy, hyb⟩ := h.exists_sample
  refine ⟨h.slot, ⟨⟨x, hx, ?_⟩, ⟨y, hy, ?_⟩, h.apart, fun z hz => ?_⟩, ?_, ?_⟩
  · rw [sampleValue, hxa]
  · rw [sampleValue, hyb]
  · rw [sampleValue]
    rcases h.each z hz with ⟨hf, -⟩ | ⟨hf, -⟩
    · rw [hf]
      exact .inl (BitVec.le_refl _)
    · rw [hf]
      exact .inr (BitVec.le_refl _)
  · rw [h.sides.1]
    exact h.first
  · rw [h.sides.2]
    exact h.second

/-- A label of the first kind, and of the second. -/
theorem label (h : TwoBands minSamplesLeaf feature a b samples) {x : WeightedSample K}
    (hx : x ∈ samples) :
    (x.1.feats = a.feats → x.1.labelNs = a.labelNs)
      ∧ (x.1.feats = b.feats → x.1.labelNs = b.labelNs) := by
  have hne := h.feats_ne
  rcases h.each x hx with ⟨hf, hl⟩ | ⟨hf, hl⟩
  · exact ⟨fun _ => hl, fun hb => absurd (hf.symm.trans hb) hne⟩
  · exact ⟨fun ha => absurd (ha.symm.trans hf) hne, fun _ => hl⟩

theorem label_eq (h : TwoBands minSamplesLeaf feature a b samples) {x y : WeightedSample K}
    (hx : x ∈ samples) (hy : y ∈ samples) (hfeats : x.1.feats = y.1.feats) :
    x.1.labelNs = y.1.labelNs := by
  rcases h.each y hy with ⟨hf, hl⟩ | ⟨hf, hl⟩
  · rw [(h.label hx).1 (hfeats.trans hf), hl]
  · rw [(h.label hx).2 (hfeats.trans hf), hl]

/-- Two samples that differ are of the two kinds. -/
theorem feats_eq_or (h : TwoBands minSamplesLeaf feature a b samples) {x y z : WeightedSample K}
    (hx : x ∈ samples) (hy : y ∈ samples) (hz : z ∈ samples) (hne : x.1.feats ≠ y.1.feats) :
    z.1.feats = x.1.feats ∨ z.1.feats = y.1.feats := by
  have hkind : ∀ w ∈ samples, w.1.feats = a.feats ∨ w.1.feats = b.feats :=
    fun w hw => (h.each w hw).imp And.left And.left
  rcases hkind x hx with hxf | hxf
  · have hyf : y.1.feats = b.feats :=
      (hkind y hy).resolve_left fun hya => hne (hxf.trans hya.symm)
    rw [hxf, hyf]
    exact hkind z hz
  · have hyf : y.1.feats = a.feats :=
      (hkind y hy).resolve_right fun hyb => hne (hxf.trans hyb.symm)
    rw [hxf, hyf]
    exact (hkind z hz).symm

/-- **A side of a split holds one kind only**: with both on it, nothing is
left for the other side. -/
theorem uniform_sides (h : TwoBands minSamplesLeaf feature a b samples) {n slot : Nat}
    {threshold : U64} (hadm : Admissible samples n slot threshold) :
    (∀ x ∈ leftSamples slot threshold samples, ∀ y ∈ leftSamples slot threshold samples,
        x.1.feats = y.1.feats)
      ∧ ∀ x ∈ rightSamples slot threshold samples, ∀ y ∈ rightSamples slot threshold samples,
        x.1.feats = y.1.feats := by
  obtain ⟨l, hl⟩ := List.exists_mem_of_length_pos hadm.left.1
  obtain ⟨r, hr⟩ := List.exists_mem_of_length_pos hadm.right.1
  rw [mem_leftSamples] at hl
  rw [mem_rightSamples] at hr
  constructor
  · intro x hx y hy
    rw [mem_leftSamples] at hx hy
    by_contra hne
    rcases h.feats_eq_or hx.1 hy.1 hr.1 hne with hf | hf
    · exact hr.2 (by rw [sampleValue, hf]; exact hx.2)
    · exact hr.2 (by rw [sampleValue, hf]; exact hy.2)
  · intro x hx y hy
    rw [mem_rightSamples] at hx hy
    by_contra hne
    rcases h.feats_eq_or hx.1 hy.1 hl.1 hne with hf | hf
    · exact hx.2 (by rw [sampleValue, ← hf]; exact hl.2)
    · exact hy.2 (by rw [sampleValue, ← hf]; exact hl.2)

end TwoBands

/-! ## The search -/

section
variable [IsStrictOrderedRing K] {samples : List (WeightedSample K)}

theorem labelSse_const {y : U64} (hne : samples ≠ []) (hpos : ∀ x ∈ samples, 0 < x.2)
    (h : ∀ x ∈ samples, x.1.labelNs = y) : labelSse samples = 0 := by
  refine Spread.squaredDeviations_const sampleWeight sampleLabel (weight_ne_zero hne hpos)
    (c := (y.toNat : K)) fun x hx => ?_
  rw [sampleLabel, h x hx]

/-- The mean of labels that are all the same. -/
theorem meanLabel_const {y : U64} (hne : samples ≠ []) (hpos : ∀ x ∈ samples, 0 < x.2)
    (h : ∀ x ∈ samples, x.1.labelNs = y) : meanLabel samples = (y.toNat : K) := by
  have hmoment := Spread.moment_const sampleWeight sampleLabel (c := (y.toNat : K))
    fun x hx => by rw [sampleLabel, h x hx]
  rw [meanLabel, labelTotals_eq, hmoment, mul_div_cancel_right₀ _ (weight_ne_zero hne hpos)]

namespace TwoBands

variable {minSamplesLeaf feature : Nat} {a b : Band}

/-- The split between the kinds takes away all the deviation there is. -/
theorem reductionAt_eq (h : TwoBands minSamplesLeaf feature a b samples)
    (hpos : ∀ x ∈ samples, 0 < x.2) :
    reductionAt samples feature (featSlot a.feats feature) = labelSse samples := by
  have hpure : ∀ (f : TreeFeats) (y : U64), (∃ x ∈ samples, x.1.feats = f) →
      (∀ x ∈ samples, x.1.feats = f → x.1.labelNs = y) →
      labelSse (bandSamples f samples) = 0 := by
    rintro f y ⟨x, hx, hxf⟩ hlabel
    refine labelSse_const (y := y) (List.ne_nil_of_mem (mem_bandSamples.mpr ⟨hx, hxf⟩)) ?_ ?_
    · exact fun z hz => hpos z (mem_bandSamples.mp hz).1
    · exact fun z hz => hlabel z (mem_bandSamples.mp hz).1 (mem_bandSamples.mp hz).2
  obtain ⟨hfirst, hsecond⟩ := h.exists_sample
  rw [reductionAt, h.sides.1, h.sides.2, hpure _ _ hfirst fun x hx => (h.label hx).1,
    hpure _ _ hsecond fun x hx => (h.label hx).2, sub_zero, sub_zero]

theorem labelSse_pos (h : TwoBands minSamplesLeaf feature a b samples)
    (hpos : ∀ x ∈ samples, 0 < x.2) : 0 < labelSse samples := by
  have hsquare : 0 ≤ (labelTotals samples).wy2 := by
    rw [labelTotals_eq]
    refine List.sum_nonneg fun k hk => ?_
    obtain ⟨x, hx, rfl⟩ := List.mem_map.mp hk
    have hw : 0 ≤ sampleWeight x := (hpos x hx).le
    have hy : 0 ≤ sampleLabel x := Nat.cast_nonneg _
    positivity
  rw [← labelTotals_sse h.ne_nil hpos]
  refine lt_of_le_of_lt ?_ h.spread
  positivity

/-- **The search finds a split.** -/
theorem exists_bestSplit (h : TwoBands minSamplesLeaf feature a b samples)
    (hpos : ∀ x ∈ samples, 0 < x.2) {minRelVarReduction : K} (hrel : minRelVarReduction < 1) :
    bestSplit samples minSamplesLeaf (labelTotals samples).sse minRelVarReduction ≠ none := by
  intro hnone
  rw [labelTotals_sse h.ne_nil hpos] at hnone
  refine (bestSplit_eq_none_iff hpos minSamplesLeaf minRelVarReduction).mp hnone _ _ _
    ⟨h.candidate, ?_⟩
  rw [h.reductionAt_eq hpos]
  exact mul_lt_of_lt_one_right (h.labelSse_pos hpos) hrel

end TwoBands

/-- Two labels far apart spread, under weights that are not too small. -/
theorem labelTotals_spread {least : K} (hleast : 0 < least) (hlow : ∀ x ∈ samples, least ≤ x.2)
    (hhigh : ∀ x ∈ samples, x.2 ≤ 1) {top gap : Nat}
    (htop : ∀ x ∈ samples, x.1.labelNs.toNat ≤ top) {x y : WeightedSample K} (hx : x ∈ samples)
    (hy : y ∈ samples) (hgap : x.1.labelNs.toNat + gap ≤ y.1.labelNs.toNat)
    (hfar : 4 * ((samples.length : K) * top ^ 2) < 10 ^ 12 * (least * gap ^ 2)) :
    (labelTotals samples).sse > 1 / ((10 ^ 12 : Nat) : K) * (labelTotals samples).wy2 := by
  have hpos : ∀ z ∈ samples, 0 < z.2 := fun z hz => lt_of_lt_of_le hleast (hlow z hz)
  have hsquare : (labelTotals samples).wy2 ≤ (samples.length : K) * top ^ 2 := by
    have hsum := List.sum_le_card_nsmul
      (samples.map fun z => sampleWeight z * sampleLabel z * sampleLabel z) ((top : K) ^ 2) ?_
    · rw [List.length_map, nsmul_eq_mul] at hsum
      rw [labelTotals_eq]
      exact hsum
    · intro k hk
      obtain ⟨z, hz, rfl⟩ := List.mem_map.mp hk
      have hw : sampleWeight z ≤ 1 := hhigh z hz
      have hl : sampleLabel z ≤ (top : K) := Nat.cast_le.mpr (htop z hz)
      have hl0 : (0 : K) ≤ sampleLabel z := Nat.cast_nonneg _
      calc sampleWeight z * sampleLabel z * sampleLabel z
          = sampleWeight z * (sampleLabel z * sampleLabel z) := mul_assoc _ _ _
        _ ≤ 1 * (sampleLabel z * sampleLabel z) := by gcongr
        _ ≤ 1 * ((top : K) * top) := by gcongr
        _ = (top : K) ^ 2 := by ring
  -- one of the two labels is half the gap from the mean
  generalize hmean : Spread.mean sampleWeight sampleLabel samples = mean
  have hterm : ∀ z ∈ samples, least * (sampleLabel z - mean) ^ 2 ≤ labelSse samples := by
    intro z hz
    rw [labelSse, Spread.squaredDeviations, hmean]
    refine le_trans (mul_le_mul_of_nonneg_right (hlow z hz) (sq_nonneg _)) ?_
    refine List.single_le_sum (fun k hk => ?_) _ (List.mem_map_of_mem hz)
    obtain ⟨u, hu, rfl⟩ := List.mem_map.mp hk
    exact mul_nonneg (hpos u hu).le (sq_nonneg _)
  have hdeviation : least * gap ^ 2 / 4 ≤ labelSse samples := by
    have hcast : sampleLabel x + gap ≤ (sampleLabel y : K) := by
      rw [sampleLabel, sampleLabel]
      exact_mod_cast hgap
    have happart : (gap : K) ^ 2 ≤ (sampleLabel y - sampleLabel x) ^ 2 :=
      pow_le_pow_left₀ (Nat.cast_nonneg _) (by linarith) 2
    have hmiddle := sq_nonneg ((sampleLabel x - mean) + (sampleLabel y - mean))
    have hsquares : (gap : K) ^ 2
        ≤ 2 * ((sampleLabel x - mean) ^ 2 + (sampleLabel y - mean) ^ 2) := by linarith
    have hscaled := mul_le_mul_of_nonneg_left hsquares hleast.le
    linarith [hterm x hx, hterm y hy]
  rw [labelTotals_sse (List.ne_nil_of_mem hx) hpos]
  push_cast
  linarith

/-! ## The tree -/

variable [FloorSemiring K] {minSamplesLeaf feature : Nat} {a b : Band}

/-- **The root is split.** -/
theorem Grown.root_split {caps : FitCaps K} {jobs : List (NodeSpec K)} {tree : SerializedTree}
    (hgrown : Grown caps samples jobs tree)
    (h : TwoBands caps.minSamplesLeaf feature a b samples) (hpos : ∀ x ∈ samples, 0 < x.2)
    (hdepth : 1 ≤ caps.maxDepth) (hnodes : 3 ≤ caps.maxNodes)
    (hrel : caps.minRelVarReduction < 1) : (tree.node 0).right ≠ 0 := by
  intro hleaf
  obtain ⟨spec, hspec, hfilled⟩ := hgrown.node hgrown.nr_pos
  obtain rfl := Option.some.inj (hgrown.head.symm.trans hspec)
  obtain ⟨st, hlen, hnone⟩ := hfilled.kept (not_not.mpr hleaf)
  rw [LevelOrder.firstChild_zero] at hlen
  have hcount : samples.length = (bandSamples a.feats samples).length
      + (bandSamples b.feats samples).length := by
    rw [← h.sides.1, ← h.sides.2, ← List.length_append]
    exact (sides_append_perm _ _ samples).length_eq.symm
  have hfirst := h.first
  have hsecond := h.second
  have hsplittable : splittable caps st { idx := 0, samples := samples, depth := 0 } :=
    ⟨hdepth, show 2 * caps.minSamplesLeaf ≤ samples.length by omega, by omega, h.spread⟩
  rw [chosenSplit, if_pos hsplittable] at hnone
  exact h.exists_bestSplit hpos hrel hnone

/-- A word survives the conversion of its leaf. -/
theorem toU64_natCast (y : U64) : toU64 (y.toNat : K) = y := by
  have hlt := y.isLt
  rw [toU64, Nat.floor_natCast, Nat.min_eq_left (by omega), BitVec.ofNat_toNat,
    BitVec.setWidth_eq]

theorem leafPrediction_setWidth {y : U64} (h : y ≤ 0xFFFFFFFF) :
    (leafPrediction y).setWidth 64 = y := by
  rw [leafPrediction, if_pos h]
  bv_omega

/-- **Each kind is answered with its own length.** -/
theorem Grown.predict_band {caps : FitCaps K} {jobs : List (NodeSpec K)} {tree : SerializedTree}
    (hgrown : Grown caps samples jobs tree) (hmaxDepth : caps.maxDepth ≤ mlfqTreeMaxDepth)
    (hmax : caps.maxNodes ≤ mlfqTreeMaxNodes)
    (h : TwoBands caps.minSamplesLeaf feature a b samples) (hpos : ∀ x ∈ samples, 0 < x.2)
    (hdepth : 1 ≤ caps.maxDepth) (hnodes : 3 ≤ caps.maxNodes)
    (hrel : caps.minRelVarReduction < 1) {x : WeightedSample K} (hx : x ∈ samples)
    (hlabel : x.1.labelNs ≤ 0xFFFFFFFF) : predict tree x.1.feats = x.1.labelNs := by
  have hroot := hgrown.root_split h hpos hdepth hnodes hrel
  obtain ⟨edges, l, hexit, -, hl, hleaf, -⟩ := hgrown.stopsAtLeaf hmaxDepth hmax x.1.feats
  have hne : 0 < l := by
    rcases Nat.eq_zero_or_pos l with rfl | hl0
    · exact absurd hleaf hroot
    · exact hl0
  obtain ⟨spec, hspec, -⟩ := hgrown.node hl
  have hrouted := hgrown.routed_eq hmaxDepth hmax hspec hleaf
  have hxl : x ∈ spec.samples := by
    rw [← hrouted]
    exact List.mem_filter.mpr ⟨hx, decide_eq_true (by rw [hexit]; rfl)⟩
  -- the leaf lies on one side of the root, where its kind is alone
  have hsub : ∀ z ∈ spec.samples, z ∈ samples := by
    intro z hz
    rw [← hrouted] at hz
    exact (List.mem_filter.mp hz).1
  have hall : ∀ z ∈ spec.samples, z.1.labelNs = x.1.labelNs := by
    obtain ⟨root, hrootjob, hfilled⟩ := hgrown.node hgrown.nr_pos
    obtain rfl := Option.some.inj (hgrown.head.symm.trans hrootjob)
    obtain ⟨hleft, hright⟩ := h.uniform_sides (hfilled.split hroot).admissible
    intro z hz
    have hfeats : z.1.feats = x.1.feats := by
      rcases hgrown.samples_side hne hspec with hside | hside
      · exact hleft z (hside hz) x (hside hxl)
      · exact hright z (hside hz) x (hside hxl)
    exact h.label_eq (hsub z hz) hx hfeats
  have hmean := meanLabel_const (List.ne_nil_of_mem hxl) (fun z hz => hpos z (hsub z hz)) hall
  rw [hgrown.predict_eq hmaxDepth hmax, hexit, WalkExit.idx, hrouted, hmean, toU64_natCast,
    leafPrediction_setWidth hlabel]

end

end ScxMlfq
