import ScxMlfq.Bpf.Init
import ScxMlfq.Daemon.Bands
import ScxMlfq.Daemon.TrainResult

/-!
# Daemon — Prediction

What a fitted tree predicts. A fit of any window passes the validator and
answers every training sample with the mean of the samples at its leaf;
and since a burst is never emitted as zero nanoseconds nor as more than
the label bound, a tree fitted to emitted samples never answers with the
zero that stands for an untrained model.
-/

namespace ScxMlfq

open Trace

variable {K : Type*} [Field K] [LinearOrder K]

/-! ## The mean of a group -/

/-- Totals of labels between two bounds. -/
structure LabelTotals.Within (lo hi : K) (t : LabelTotals K) : Prop where
  weight : 0 ≤ t.w
  lower : lo * t.w ≤ t.wy
  upper : t.wy ≤ hi * t.w

section
variable [IsStrictOrderedRing K]

theorem LabelTotals.Within.add {lo hi : K} {t : LabelTotals K} (h : t.Within lo hi)
    {x : WeightedSample K} (hx : 0 < x.2) (hlo : lo ≤ x.1.labelNs.toNat)
    (hhi : (x.1.labelNs.toNat : K) ≤ hi) : (t.add x).Within lo hi ∧ 0 < (t.add x).w := by
  have hl := mul_le_mul_of_nonneg_left hlo (le_of_lt hx)
  have hu := mul_le_mul_of_nonneg_left hhi (le_of_lt hx)
  have hw : 0 < (t.add x).w := add_pos_of_nonneg_of_pos h.weight hx
  refine ⟨⟨le_of_lt hw, ?_, ?_⟩, hw⟩
  · show lo * (t.w + x.2) ≤ t.wy + x.2 * x.1.labelNs.toNat
    calc lo * (t.w + x.2) = lo * t.w + x.2 * lo := by ring
      _ ≤ t.wy + x.2 * x.1.labelNs.toNat := add_le_add h.lower hl
  · show t.wy + x.2 * x.1.labelNs.toNat ≤ hi * (t.w + x.2)
    calc t.wy + x.2 * x.1.labelNs.toNat ≤ hi * t.w + x.2 * hi := add_le_add h.upper hu
      _ = hi * (t.w + x.2) := by ring

theorem labelTotals_within {lo hi : K} {samples : List (WeightedSample K)} (hne : samples ≠ [])
    (hpos : ∀ x ∈ samples, 0 < x.2) (hlo : ∀ x ∈ samples, lo ≤ (x.1.labelNs.toNat : K))
    (hhi : ∀ x ∈ samples, (x.1.labelNs.toNat : K) ≤ hi) :
    (labelTotals samples).Within lo hi ∧ 0 < (labelTotals samples).w := by
  -- the totals of the samples taken so far, and one more for the weight
  have hfold : ∀ (rest : List (WeightedSample K)) (t : LabelTotals K),
      (∀ x ∈ rest, x ∈ samples) → t.Within lo hi → rest ≠ [] ∨ 0 < t.w →
      (rest.foldl LabelTotals.add t).Within lo hi ∧ 0 < (rest.foldl LabelTotals.add t).w := by
    intro rest
    induction rest with
    | nil => exact fun t _ h hw => ⟨h, hw.resolve_left (fun hnil => hnil rfl)⟩
    | cons x rest ih =>
        intro t hmem h _
        have hx := hmem x List.mem_cons_self
        obtain ⟨hadd, hw⟩ := h.add (hpos x hx) (hlo x hx) (hhi x hx)
        exact ih _ (fun y hy => hmem y (List.mem_cons_of_mem x hy)) hadd (Or.inr hw)
  have hzero : (LabelTotals.mk 0 0 0 : LabelTotals K).Within lo hi :=
    ⟨le_refl 0, le_of_eq (mul_zero lo), le_of_eq (mul_zero hi).symm⟩
  exact hfold samples _ (fun _ hx => hx) hzero (Or.inl hne)

/-- **A mean lies between its labels.** -/
theorem meanLabel_mem {lo hi : K} {samples : List (WeightedSample K)} (hne : samples ≠ [])
    (hpos : ∀ x ∈ samples, 0 < x.2) (hlo : ∀ x ∈ samples, lo ≤ (x.1.labelNs.toNat : K))
    (hhi : ∀ x ∈ samples, (x.1.labelNs.toNat : K) ≤ hi) :
    lo ≤ meanLabel samples ∧ meanLabel samples ≤ hi := by
  obtain ⟨h, hw⟩ := labelTotals_within hne hpos hlo hhi
  exact ⟨(le_div_iff₀ hw).mpr h.lower, (div_le_iff₀ hw).mpr h.upper⟩

variable [FloorSemiring K]

/-- The mean of a group, truncated, lies between its labels too. -/
theorem floor_meanLabel_mem {lo hi : Nat} {samples : List (WeightedSample K)} (hne : samples ≠ [])
    (hpos : ∀ x ∈ samples, 0 < x.2) (hlo : ∀ x ∈ samples, lo ≤ x.1.labelNs.toNat)
    (hhi : ∀ x ∈ samples, x.1.labelNs.toNat ≤ hi) :
    lo ≤ ⌊meanLabel samples⌋₊ ∧ ⌊meanLabel samples⌋₊ ≤ hi := by
  obtain ⟨hl, hu⟩ := @meanLabel_mem K _ _ _ lo hi samples hne hpos
    (fun x hx => Nat.cast_le.mpr (hlo x hx)) (fun x hx => Nat.cast_le.mpr (hhi x hx))
  exact ⟨Nat.le_floor hl, Nat.floor_le_of_le hu⟩

end

/-! ## The round trip -/

variable [FloorSemiring K]

/-- What a fit promises of its tree. -/
structure Fitted (samples : List TreeSample) (weights : List K) (caps : FitCaps K)
    (tree : SerializedTree) : Prop where
  accepted : serializeValidate tree = .ok ()
  budget : tree.nr ≤ caps.maxNodes
  depth : ∀ (turns : List Bool) (tests : List (Thresholds.Test Nat Nat)) (i : Nat),
    descend tree 0 turns = some (tests, i) → (tree.node i).right ≠ 0 →
    turns.length < caps.maxDepth
  parent : ∀ j, 0 < j → j < tree.nr → ∃! i, i < tree.nr ∧ (tree.node i).right ≠ 0
    ∧ ((tree.node i).left.toNat = j ∨ (tree.node i).right.toNat = j)
  leaf : ∀ l, 0 < l → l < tree.nr → (tree.node l).right = 0 →
    caps.minSamplesLeaf ≤ (routed tree l (window samples weights)).length
  stops : ∀ f, StopsAtLeaf tree (predictWalk tree f)
  predicts : ∀ s ∈ samples,
    let leaf := routed tree (predictWalk tree s.feats).exit.idx (window samples weights)
    ⌊meanLabel leaf⌋₊ < 2 ^ 64
      ∧ predict tree s.feats
        = (leafPrediction (BitVec.ofNat 64 ⌊meanLabel leaf⌋₊)).setWidth 64

omit [Field K] [LinearOrder K] [FloorSemiring K] in
/-- A weighted sample is a sample of the window with one of its weights. -/
theorem mem_window {samples : List TreeSample} {weights : List K} {x : WeightedSample K}
    (h : x ∈ window samples weights) : x.1 ∈ samples ∧ x.2 ∈ weights :=
  List.of_mem_zip h

omit [Field K] [LinearOrder K] [FloorSemiring K] in
theorem window_ne_nil {samples : List TreeSample} {weights : List K} (hne : samples ≠ [])
    (hlen : weights.length = samples.length) : window samples weights ≠ [] := by
  intro hnil
  have hzip := congrArg List.length hnil
  rw [window, List.length_zip, hlen, Nat.min_self] at hzip
  exact hne (List.length_eq_zero_iff.mp hzip)

/-- The samples at the leaf a walk ends at: there are some. -/
theorem Grown.routed_ne_nil {caps : FitCaps K}
    {root : List (WeightedSample K)} {jobs : List (NodeSpec K)} {tree : SerializedTree}
    (h : Grown caps root jobs tree) (hmaxDepth : caps.maxDepth ≤ mlfqTreeMaxDepth)
    (hmax : caps.maxNodes ≤ mlfqTreeMaxNodes) (hroot : root ≠ []) (f : TreeFeats) :
    routed tree (predictWalk tree f).exit.idx root ≠ [] := by
  obtain ⟨edges, l, hexit, -, hl, hleaf, -⟩ := h.stopsAtLeaf hmaxDepth hmax f
  obtain ⟨spec, hspec, -⟩ := h.node hl
  rw [hexit, WalkExit.idx, h.routed_eq hmaxDepth hmax hspec hleaf]
  rcases Nat.eq_zero_or_pos l with rfl | hpos
  · obtain rfl := Option.some.inj (h.head.symm.trans hspec)
    exact hroot
  · exact List.ne_nil_of_length_pos (h.samples_length hpos hspec).1

/-- **Fit, validate, walk.** A fit of any window of samples with positive
weights returns a tree that keeps the limits, is accepted, and answers
every sample with the truncated mean of the samples that end at the same
leaf. -/
theorem fitWithScratch_fitted [IsStrictOrderedRing K] {samples : List TreeSample}
    (hne : samples ≠ []) {weights : List K} (hlen : weights.length = samples.length)
    (hpos : ∀ w ∈ weights, 0 < w) {caps : FitCaps K} (hmaxDepth : caps.maxDepth ≤ 12)
    (hnodes : 1 ≤ caps.maxNodes) (hmax : caps.maxNodes ≤ 2048) :
    ∃ tree, fitWithScratch samples weights caps = some tree ∧ Fitted samples weights caps tree := by
  obtain ⟨tree, jobs, hfit, h⟩ := fitWithScratch_grown hne weights hnodes hmax
  have hgrown : Grown caps (window samples weights) jobs tree := h
  have hbudget := h.budget
  rw [← hgrown.nr_eq] at hbudget
  have hroot := window_ne_nil hne hlen
  refine ⟨tree, hfit, hgrown.serializeValidate_ok hmaxDepth hmax, hbudget,
    fun turns tests i hway hsplit => hgrown.depth_lt hway hsplit,
    fun j h0 hj => hgrown.existsUnique_parent h0 hj, fun l h0 hl hleaf => ?_,
    fun f => hgrown.stopsAtLeaf hmaxDepth hmax f, fun s _ => ?_⟩
  · obtain ⟨spec, hspec, -⟩ := hgrown.node hl
    rw [hgrown.routed_eq hmaxDepth hmax hspec hleaf]
    exact (hgrown.samples_length h0 hspec).2
  · have hmean := @floor_meanLabel_mem K _ _ _ _ 0 (2 ^ 64 - 1) _
      (hgrown.routed_ne_nil hmaxDepth hmax hroot s.feats)
      (fun x hx => hpos _ (mem_window (List.mem_filter.mp hx).1).2) (fun _ _ => Nat.zero_le _)
      (fun x _ => Nat.le_sub_one_of_lt x.1.labelNs.isLt)
    refine ⟨by omega, ?_⟩
    rw [hgrown.predict_eq hmaxDepth hmax, toU64, Nat.min_eq_left hmean.2]

/-- **A fit parts two kinds of burst**, and answers each with its own
length. -/
theorem fitWithScratch_bands [IsStrictOrderedRing K] {samples : List TreeSample}
    {weights : List K} (hpos : ∀ w ∈ weights, 0 < w) {caps : FitCaps K}
    (hmaxDepth : caps.maxDepth ≤ 12) (hmax : caps.maxNodes ≤ 2048) (hdepth : 1 ≤ caps.maxDepth)
    (hnodes : 3 ≤ caps.maxNodes) (hrel : caps.minRelVarReduction < 1) {feature : Nat} {a b : Band}
    (h : TwoBands caps.minSamplesLeaf feature a b (window samples weights))
    (ha : a.labelNs ≤ 0xFFFFFFFF) (hb : b.labelNs ≤ 0xFFFFFFFF) {tree : SerializedTree}
    (hfit : fitWithScratch samples weights caps = some tree) :
    (tree.node 0).right ≠ 0 ∧ predict tree a.feats = a.labelNs
      ∧ predict tree b.feats = b.labelNs := by
  have hwindow : ∀ x ∈ window samples weights, 0 < x.2 := fun x hx => hpos _ (mem_window hx).2
  have hne : samples ≠ [] := by
    rintro rfl
    exact h.ne_nil rfl
  obtain ⟨tree', jobs, hgrow, hgrown⟩ := fitWithScratch_grown hne weights
    (show 1 ≤ caps.maxNodes by omega) hmax
  obtain rfl := Option.some.inj (hgrow.symm.trans hfit)
  have hgrown : Grown caps (window samples weights) jobs tree' := hgrown
  have hpredict := fun (x : WeightedSample K) hx hlabel =>
    hgrown.predict_band hmaxDepth hmax h hwindow hdepth hnodes hrel (x := x) hx hlabel
  obtain ⟨⟨x, hx, hxa⟩, y, hy, hyb⟩ := h.exists_sample
  have hxl := (h.label hx).1 hxa
  have hyl := (h.label hy).2 hyb
  have hpx := hpredict x hx (by rw [hxl]; exact ha)
  have hpy := hpredict y hy (by rw [hyl]; exact hb)
  rw [hxa, hxl] at hpx
  rw [hyb, hyl] at hpy
  exact ⟨hgrown.root_split h hwindow hdepth hnodes hrel, hpx, hpy⟩

/-- A burst behind a nap, and one behind a long sleep. -/
def napped : Band := ⟨{ sleepNs := 1000 }, 7000000⟩

def rested : Band := ⟨{ sleepNs := 4000000 }, 900000⟩

/-- Two tasks told apart by their sleep. -/
def twoBands : List TreeSample :=
  [{ pid := 1, queue := 1, feats := rested.feats, labelNs := rested.labelNs },
    { pid := 2, queue := 2, feats := napped.feats, labelNs := napped.labelNs }]

/-- One split at most. -/
def stumpCaps : FitCaps ℚ where
  maxDepth := 3
  minSamplesLeaf := 1
  maxNodes := 3
  minRelVarReduction := 0

/-- The round trip of a fit that splits once. -/
theorem fitWithScratch_fitted_twoBands :
    ∃ tree, fitWithScratch twoBands [1 / 2, (1 : ℚ)] stumpCaps = some tree
      ∧ Fitted twoBands [1 / 2, (1 : ℚ)] stumpCaps tree ∧ (tree.node 0).right ≠ 0
      ∧ predict tree { sleepNs := 1000 } = 7000000
      ∧ predict tree { sleepNs := 4000000 } = 900000 := by
  have hne : twoBands ≠ [] := List.cons_ne_nil _ _
  have hpos : ∀ w ∈ [1 / 2, (1 : ℚ)], 0 < w := by simp
  have hlen : [1 / 2, (1 : ℚ)].length = twoBands.length := rfl
  obtain ⟨tree, hfit, hfitted⟩ := fitWithScratch_fitted hne hlen hpos
    (show stumpCaps.maxDepth ≤ 12 by decide) (show 1 ≤ stumpCaps.maxNodes by decide)
    (show stumpCaps.maxNodes ≤ 2048 by decide)
  have hbands : TwoBands stumpCaps.minSamplesLeaf 1 napped rested
      (window twoBands [1 / 2, (1 : ℚ)]) := by
    constructor
    · simp [window, twoBands, Band.Has]
    · decide
    · decide
    · decide
    · decide
    · decide
    · decide +kernel
  have hlearnt := fitWithScratch_bands hpos (by decide) (by decide) (by decide) (by decide)
    (show stumpCaps.minRelVarReduction < 1 from zero_lt_one) hbands (by decide) (by decide) hfit
  exact ⟨tree, hfit, hfitted, hlearnt⟩

/-! ## Emitted samples -/

/-- A stop of some task somewhere emitted the sample. -/
def Emitted (s : TreeSample) : Prop :=
  ∃ m p t runnable now, (mlfqStopping m p t runnable now).sample = some s

/-- The label of an emitted sample: a burst, cut at the bound. -/
theorem Emitted.label {s : TreeSample} (h : Emitted s) :
    1 ≤ s.labelNs.toNat ∧ s.labelNs.toNat ≤ mlfqTreeLabelMaxNs.toNat := by
  obtain ⟨m, p, t, runnable, now, hs⟩ := h
  rw [mlfqStopping] at hs
  simp only [stopSegment] at hs
  split at hs
  · rename_i hdelta
    simp only [emitSample] at hs
    split at hs
    · split at hs
      · cases hs
      · obtain rfl := Option.some.inj hs
        have hpos : 1 ≤ (segmentNs t now).toNat := by
          rw [Nat.one_le_iff_ne_zero]
          exact fun hzero => hdelta (BitVec.eq_of_toNat_eq hzero)
        simp only [sampleOf]
        split
        · rename_i hlt
          exact ⟨hpos, Nat.le_of_lt (BitVec.lt_def.mp hlt)⟩
        · exact ⟨by decide, Nat.le_refl _⟩
    · cases hs
  · cases hs

/-! ## A stream of two kinds -/

/-- A task with the capture of a kind of burst pending. -/
def bandTask (b : Band) : TaskCtx where
  lastRunAt := 1000
  pendingValid := 1
  pendingQueue := 2
  pendingFeats := b.feats

/-- The samples of sixteen tasks, every other one of either kind. -/
def bandBurst (i : Nat) : TreeSample :=
  let b := if i % 2 = 0 then rested else napped
  sampleOf { pid := i % 16 } (bandTask b) b.labelNs

def bandStream (n : Nat) : List TreeSample := (List.range n).map bandBurst

theorem length_bandStream (n : Nat) : (bandStream n).length = n := by
  rw [bandStream, List.length_map, List.length_range]

theorem take_bandStream {m n : Nat} (h : m ≤ n) : (bandStream n).take m = bandStream m := by
  rw [bandStream, bandStream, ← List.map_take, List.take_range, Nat.min_eq_left h]

theorem bandBurst_even {i : Nat} (h : i % 2 = 0) : rested.Has (bandBurst i) := by
  rw [bandBurst, if_pos h]
  exact ⟨rfl, rfl⟩

theorem bandBurst_odd {i : Nat} (h : i % 2 = 1) : napped.Has (bandBurst i) := by
  rw [bandBurst, if_neg (by omega)]
  exact ⟨rfl, rfl⟩

/-- A stop at the end of such a burst emits the sample. -/
theorem bandBurst_emitted (i : Nat) : Emitted (bandBurst i) := by
  rcases Nat.mod_two_eq_zero_or_one i with h | h
  · rw [bandBurst, if_pos h]
    exact ⟨Machine.zeroed {} 1, { pid := i % 16 }, bandTask rested, false, 901000, rfl⟩
  · rw [bandBurst, if_neg (by omega)]
    exact ⟨Machine.zeroed {} 1, { pid := i % 16 }, bandTask napped, false, 7001000, rfl⟩

theorem bandStream_emitted (n : Nat) : ∀ x ∈ bandStream n, Emitted x := by
  intro x hx
  obtain ⟨i, -, rfl⟩ := List.mem_map.mp hx
  exact bandBurst_emitted i

theorem bandStream_has (n : Nat) : ∀ x ∈ bandStream n, napped.Has x ∨ rested.Has x := by
  intro x hx
  obtain ⟨i, -, rfl⟩ := List.mem_map.mp hx
  rcases Nat.mod_two_eq_zero_or_one i with h | h
  · exact .inr (bandBurst_even h)
  · exact .inl (bandBurst_odd h)

omit [Field K] [LinearOrder K] [FloorSemiring K] in
theorem window_map_fst {samples : List TreeSample} {weights : List K}
    (hlen : weights.length = samples.length) :
    (window samples weights).map Prod.fst = samples := by
  rw [window, List.map_fst_zip]
  exact Nat.le_of_eq hlen.symm

omit [Field K] [LinearOrder K] [FloorSemiring K] in
theorem exists_mem_window {samples : List TreeSample} {weights : List K}
    (hlen : weights.length = samples.length) {x : TreeSample} (hx : x ∈ samples) :
    ∃ y ∈ window samples weights, y.1 = x := by
  rw [← window_map_fst hlen] at hx
  exact List.mem_map.mp hx

omit [Field K] [LinearOrder K] [FloorSemiring K] in
/-- Half of the first 64 samples are of either kind. -/
theorem bandStream_leaf {n : Nat} (h : 64 ≤ n) {weights : List K} (hlen : weights.length = n)
    {f : TreeFeats} (hf : (bandStream 64).countP (fun x => decide (x.feats = f)) = 32) :
    32 ≤ (bandSamples f (window (bandStream n) weights)).length := by
  have hsub : (bandStream 64).Sublist (bandStream n) := (List.range_sublist.mpr h).map _
  have hmap : bandStream n = (window (bandStream n) weights).map Prod.fst :=
    (window_map_fst (by rw [hlen, length_bandStream])).symm
  have hcount : (bandSamples f (window (bandStream n) weights)).length
      = (bandStream n).countP fun x => decide (x.feats = f) := by
    rw [bandSamples, ← List.countP_eq_length_filter]
    nth_rewrite 2 [hmap]
    rw [List.countP_map]
    rfl
  rw [hcount, ← hf]
  exact hsub.countP_le

/-- **The stream is of two kinds**, under weights between a quarter and
one. -/
theorem bandStream_twoBands [IsStrictOrderedRing K] {n : Nat} (h : 64 ≤ n) (hn : n ≤ 16384)
    {weights : List K} (hlen : weights.length = n) (hlow : ∀ w ∈ weights, 1 / 4 ≤ w)
    (hhigh : ∀ w ∈ weights, w ≤ 1) :
    TwoBands 32 1 napped rested (window (bandStream n) weights) := by
  have hstream : weights.length = (bandStream n).length := by rw [hlen, length_bandStream]
  have hin : ∀ x ∈ window (bandStream n) weights, napped.Has x.1 ∨ rested.Has x.1 :=
    fun x hx => bandStream_has n _ (mem_window hx).1
  have hmem : ∀ i < n, bandBurst i ∈ bandStream n :=
    fun i hi => List.mem_map_of_mem (List.mem_range.mpr hi)
  obtain ⟨x, hx, hxe⟩ := exists_mem_window hstream (hmem 0 (by omega))
  obtain ⟨y, hy, hye⟩ := exists_mem_window hstream (hmem 1 (by omega))
  refine ⟨hin, by decide, by decide, by decide, bandStream_leaf h hlen (by decide),
    bandStream_leaf h hlen (by decide), ?_⟩
  refine @labelTotals_spread K _ _ _ _ (1 / 4) (by norm_num) (fun z hz => hlow _ (mem_window hz).2)
    (fun z hz => hhigh _ (mem_window hz).2) 7000000 6100000 (fun z hz => ?_) x y hx hy ?_ ?_
  · rcases hin z hz with ⟨-, hl⟩ | ⟨-, hl⟩
    · rw [hl]
      exact Nat.le_refl _
    · rw [hl]
      decide
  · rw [hxe, hye]
    decide
  · have hlength : ((window (bandStream n) weights).length : K) ≤ 16384 := by
      rw [window, List.length_zip, ← hstream, Nat.min_self, hlen]
      exact_mod_cast hn
    push_cast
    linarith

/-! ## The untrained answer -/

/-- The limits the daemon fits with. -/
def daemonCaps : FitCaps K where
  maxDepth := mlfqTreeMaxDepth
  minSamplesLeaf := 32
  maxNodes := mlfqTreeMaxNodes
  minRelVarReduction := 1 / 1000

/-- A tree the daemon fits to samples the scheduler emitted. -/
def FitToEmitted (K : Type*) [Field K] [LinearOrder K] [FloorSemiring K]
    (tree : SerializedTree) : Prop :=
  ∃ (samples : List TreeSample) (weights : List K), (∀ s ∈ samples, Emitted s)
    ∧ weights.length = samples.length ∧ (∀ w ∈ weights, 0 < w)
    ∧ fitWithScratch samples weights daemonCaps = some tree

/-- An answer a burst can be. -/
def InLabelRange (v : U64) : Prop := 1 ≤ v.toNat ∧ v.toNat ≤ mlfqTreeLabelMaxNs.toNat

/-- A small mean is the value of its leaf. -/
theorem leafPrediction_ofNat {n : Nat} (h : n ≤ 0xFFFFFFFF) :
    ((leafPrediction (BitVec.ofNat 64 n)).setWidth 64).toNat = n := by
  have hword : (BitVec.ofNat 64 n).toNat = n := by
    rw [BitVec.toNat_ofNat]
    exact Nat.mod_eq_of_lt (by omega)
  have hle : BitVec.ofNat 64 n ≤ 0xFFFFFFFF := by
    rw [BitVec.le_def, hword]
    exact h
  rw [leafPrediction, if_pos hle, BitVec.toNat_setWidth, BitVec.toNat_setWidth, hword]
  omega

/-- **Every walk of an accepted fit answers with a possible burst.** -/
theorem FitToEmitted.inLabelRange [IsStrictOrderedRing K] {tree : SerializedTree}
    (h : FitToEmitted K tree) (hvalid : serializeValidate tree = .ok ()) (f : TreeFeats) :
    InLabelRange (mlfqTreeWalk (.ofNodes tree.nodes) f) := by
  obtain ⟨samples, weights, hem, hlen, hpos, hfit⟩ := h
  have hwf := serializeValidate_ok hvalid
  have hne : samples ≠ [] := by
    rintro rfl
    rw [fitWithScratch, if_pos (Or.inl rfl)] at hfit
    obtain rfl := Option.some.inj hfit
    exact absurd hwf.nonempty (Nat.lt_irrefl 0)
  have hbound : mlfqTreeMaxNodes = 2048 := rfl
  obtain ⟨tree', jobs, hfit', h⟩ := @fitWithScratch_grown K _ _ _ _ hne weights daemonCaps
    (show 1 ≤ mlfqTreeMaxNodes by omega) (Nat.le_refl _)
  obtain rfl := Option.some.inj (hfit'.symm.trans hfit)
  have hgrown : Grown daemonCaps (window samples weights) jobs tree' := h
  have hroot := window_ne_nil hne hlen
  have hlabel (l : Nat) : ∀ x ∈ routed tree' l (window samples weights),
      1 ≤ x.1.labelNs.toNat ∧ x.1.labelNs.toNat ≤ mlfqTreeLabelMaxNs.toNat :=
    fun x hx => (hem _ (mem_window (List.mem_filter.mp hx).1).1).label
  have hmean := @floor_meanLabel_mem K _ _ _ _ 1 mlfqTreeLabelMaxNs.toNat _
    (hgrown.routed_ne_nil (Nat.le_refl _) (Nat.le_refl _) hroot f)
    (fun x hx => hpos _ (mem_window (List.mem_filter.mp hx).1).2)
    (fun x hx => (hlabel _ x hx).1) (fun x hx => (hlabel _ x hx).2)
  have hwalk : mlfqTreeWalk (.ofNodes tree'.nodes) f = predict tree' f :=
    congrArg Walk.value (walkFrom_ofNodes hwf f mlfqTreeMaxDepth hwf.nonempty)
  rw [hwalk, hgrown.predict_eq (Nat.le_refl _) (Nat.le_refl _), toU64]
  generalize ⌊meanLabel (routed tree' (predictWalk tree' f).exit.idx
    (window samples weights))⌋₊ = mean at hmean ⊢
  -- the mean is far below what either conversion cuts
  have hmax : mlfqTreeLabelMaxNs.toNat = 192000000 := rfl
  rw [Nat.min_eq_left (by omega), InLabelRange, leafPrediction_ofNat (by omega)]
  exact hmean

/-- The committed model, if there is one, answers with possible bursts. -/
def AnswersBursts (s : Publisher K) : Prop :=
  metaTrained s.ctrlMeta = true →
    ∀ f, InLabelRange (mlfqTreeWalk (s.map (metaActive s.ctrlMeta)) f)

/-- **One result** keeps the model or commits a fit. -/
theorem AnswersBursts.step [IsStrictOrderedRing K] {s : Publisher K} (h : AnswersBursts s)
    {e : TrainResult K × MapUpdate} (hfit : FitToEmitted K e.1.tree) :
    AnswersBursts (applyTrainResult s e.1 e.2).1 := by
  rcases applyTrainResult_cases s e.1 e.2 with
    ⟨-, map, hpost, hactive⟩ | ⟨-, hvalid, -, -, hpost⟩
  · rw [hpost]
    intro htrained
    show ∀ f, InLabelRange (mlfqTreeWalk (map (metaActive s.ctrlMeta)) f)
    rw [hactive]
    exact h htrained
  · rw [hpost]
    intro _
    simp only [metaActive_treeMeta, activeEntry_newActive, Function.update_self]
    exact hfit.inLabelRange hvalid

/-- **No trained model answers with zero.** A walk of an accepted fit to
emitted samples answers with a possible burst for every feature vector;
and in every run of the daemon that fits to emitted samples, a prediction
of zero means that nothing has been published. -/
theorem predict_zero_untrained [IsStrictOrderedRing K] :
    (∀ tree, FitToEmitted K tree → serializeValidate tree = .ok () →
      ∀ f, InLabelRange (mlfqTreeWalk (.ofNodes tree.nodes) f))
    ∧ ∀ (tr : List (TrainEntry K)) (s : Publisher K), TrainRun tr s →
      (∀ x ∈ tr, FitToEmitted K x.event.1.tree) →
      ∀ f, mlfqTreePredict s.ctrlMeta s.map f = 0 → metaTrained s.ctrlMeta = false := by
  refine ⟨fun tree hfit hvalid => hfit.inLabelRange hvalid, fun tr s hrun hfits f hzero => ?_⟩
  have hanswers : AnswersBursts s := by
    clear hzero
    induction hrun with
    | start hinit =>
        subst hinit
        intro htrained
        exact absurd (show metaTrained 0 = true from htrained) (by decide)
    | snoc _ hstep ih =>
        subst hstep
        exact (ih fun x hx => hfits x (List.mem_cons_of_mem _ hx)).step
          (hfits _ List.mem_cons_self)
  by_contra htrained
  have htrained : metaTrained s.ctrlMeta = true := Bool.eq_true_of_not_eq_false htrained
  have hrange := (hanswers htrained f).1
  rw [mlfqTreePredict, if_neg (by simp [htrained])] at hzero
  rw [hzero] at hrange
  exact absurd hrange (by decide)

/-- A fit to the stream of two kinds splits, and behind its publish no
feature vector is answered with zero. -/
theorem predict_zero_untrained_bandStream :
    ∃ tree, FitToEmitted ℚ tree ∧ serializeValidate tree = .ok () ∧ (tree.node 0).right ≠ 0
      ∧ (∀ f, InLabelRange (mlfqTreeWalk (.ofNodes tree.nodes) f))
      ∧ ∃ (tr : List (TrainEntry ℚ)) (s : Publisher ℚ), TrainRun tr s
        ∧ metaTrained s.ctrlMeta = true
        ∧ ∀ f, mlfqTreePredict s.ctrlMeta s.map f ≠ 0 := by
  have hlen : (List.replicate 64 (1 : ℚ)).length = (bandStream 64).length := rfl
  have hone : ∀ w ∈ List.replicate 64 (1 : ℚ), w = 1 := fun w hw => List.eq_of_mem_replicate hw
  have hpos : ∀ w ∈ List.replicate 64 (1 : ℚ), 0 < w := fun w hw => hone w hw ▸ one_pos
  obtain ⟨tree, hfit, hfitted⟩ := @fitWithScratch_fitted ℚ _ _ _ _ (bandStream 64)
    (List.cons_ne_nil _ _) _ hlen hpos daemonCaps (Nat.le_refl 12) (by decide) (Nat.le_refl 2048)
  have hfits : FitToEmitted ℚ tree := ⟨_, _, bandStream_emitted 64, hlen, hpos, hfit⟩
  have hbands : TwoBands 32 1 napped rested (window (bandStream 64) (List.replicate 64 (1 : ℚ))) :=
    bandStream_twoBands (Nat.le_refl 64) (by decide) rfl
      (fun w hw => by rw [hone w hw]; norm_num) fun w hw => (hone w hw).le
  have hsplit := (fitWithScratch_bands hpos (Nat.le_refl 12) (Nat.le_refl 2048) (by decide)
    (by decide) (by norm_num [daemonCaps]) hbands (by decide) (by decide) hfit).1
  let res : TrainResult ℚ := ⟨tree, 64, 16, 7, 1, 2, 1 / 2⟩
  have hpub := @applyTrainResult_initial ℚ _ _ _ res hfitted.accepted
    (show mlfqTreeMinPids ≤ 16 by decide)
    (show (1 : ℚ) ≤ 2 by norm_num) (show (3 / 10 : ℚ) ≤ 1 / 2 by norm_num)
  let e : TrainResult ℚ × MapUpdate := (res, .ok)
  have hrun : TrainRun [⟨Publisher.initial, e, (applyTrainResult Publisher.initial res .ok).1⟩]
      (applyTrainResult Publisher.initial res .ok).1 := .snoc (.start rfl) rfl
  have htrained : metaTrained (applyTrainResult Publisher.initial res .ok).1.ctrlMeta = true :=
    (commits_of_outcome (e := e) .initial hpub).trained
  refine ⟨tree, hfits, hfitted.accepted, hsplit,
    predict_zero_untrained.1 tree hfits hfitted.accepted, _, _, hrun, htrained, fun f hzero => ?_⟩
  have hnone := predict_zero_untrained.2 _ _ hrun
    (fun x hx => List.mem_singleton.mp hx ▸ hfits) f hzero
  rw [htrained] at hnone
  cases hnone

end ScxMlfq
