import Mathlib.Analysis.SpecialFunctions.Pow.Real
import ScxMlfq.Daemon.Scratch
import ScxMlfq.Lib.Correlation

/-!
# Daemon — Metrics

What `train_model` returns for a window that can be split: never an
error, a tree the validator accepts, and metrics that are what their
names say. The correlation lies between minus one and one, the errors
between the least and the greatest error of the holdout.

The weights are positive powers of two, the square root is exact.
-/

namespace ScxMlfq

variable {K : Type*} [Field K] [LinearOrder K]

/-- `sqrt` is the square root of the numbers that have one. -/
def IsSqrt (sqrt : K → K) : Prop := ∀ x, 0 ≤ x → 0 ≤ sqrt x ∧ sqrt x * sqrt x = x

/-! ## The sums of the metrics -/

/-- The deviations of a pair of words from two means. -/
def deviationX (mean : K) (p : U64 × U64) : K := (p.1.toNat : K) - mean

def deviationY (mean : K) (p : U64 × U64) : K := (p.2.toNat : K) - mean

omit [LinearOrder K] in
theorem foldl_addMoments (mx my : K) (ps : List (U64 × U64)) (acc : K × K × K) :
    ps.foldl (addMoments mx my) acc
      = (acc.1 + (ps.map fun p => deviationX mx p * deviationY my p).sum,
        acc.2.1 + (ps.map fun p => deviationX mx p * deviationX mx p).sum,
        acc.2.2 + (ps.map fun p => deviationY my p * deviationY my p).sum) := by
  induction ps generalizing acc with
  | nil => simp
  | cons p ps ih =>
      rw [List.foldl_cons, ih]
      simp only [addMoments, deviationX, deviationY, List.map_cons, List.sum_cons, add_assoc]

/-- The distance of a prediction from its label. -/
def absError (x : (U64 × U64) × K) : U64 :=
  if x.1.1 ≥ x.1.2 then x.1.1 - x.1.2 else x.1.2 - x.1.1

omit [Field K] [LinearOrder K] in
theorem absError_eq_zero {x : (U64 × U64) × K} : absError x = 0 ↔ x.1.1 = x.1.2 := by
  obtain ⟨⟨p, a⟩, w⟩ := x
  unfold absError
  split
  · constructor
    · intro h
      exact sub_eq_zero.mp h
    · exact fun h => sub_eq_zero.mpr h
  · constructor
    · intro h
      exact (sub_eq_zero.mp h).symm
    · exact fun h => sub_eq_zero.mpr h.symm

omit [LinearOrder K] in
theorem foldl_addError (xs : List ((U64 × U64) × K)) (acc : K × K) :
    xs.foldl addError acc = (acc.1 + (xs.map Prod.snd).sum,
      acc.2 + (xs.map fun x => x.2 * ((absError x).toNat : K)).sum) := by
  induction xs generalizing acc with
  | nil => simp
  | cons x xs ih =>
      rw [List.foldl_cons, ih]
      simp only [addError, absError, List.map_cons, List.sum_cons, add_assoc]

/-! ## The correlation -/

/-- The moments of two vectors. -/
theorem pearson_eq (sqrt : K → K) {x y : List U64} {c : K} (h : pearson sqrt x y = some c) :
    c = 0 ∨ ∃ mx my : K, c = ((x.zip y).map fun p => deviationX mx p * deviationY my p).sum
      / sqrt (((x.zip y).map fun p => deviationX mx p * deviationX mx p).sum
        * ((x.zip y).map fun p => deviationY my p * deviationY my p).sum) := by
  rw [pearson] at h
  split at h
  · cases h
  · split at h
    · exact .inl (Option.some.inj h).symm
    · simp only [foldl_addMoments, zero_add] at h
      have hc := Option.some.inj h
      split at hc
      · exact .inl hc.symm
      · exact .inr ⟨_, _, hc.symm⟩

/-- **The correlation is one**: between minus one and one. -/
theorem pearson_mem [IsStrictOrderedRing K] {sqrt : K → K} (hsqrt : IsSqrt sqrt)
    {x y : List U64} {c : K} (h : pearson sqrt x y = some c) : -1 ≤ c ∧ c ≤ 1 := by
  rcases pearson_eq sqrt h with rfl | ⟨mx, my, rfl⟩
  · exact ⟨by linarith [zero_lt_one (α := K)], zero_le_one⟩
  · obtain ⟨hnonneg, hroot⟩ := hsqrt _ (mul_nonneg
      (Correlation.sum_sq_nonneg (x.zip y) (deviationX mx))
      (Correlation.sum_sq_nonneg (x.zip y) (deviationY my)))
    exact Correlation.correlation_mem (x.zip y) (deviationX mx) (deviationY my) hnonneg hroot

/-- **Exact predictions correlate fully**, where the labels differ. -/
theorem pearson_self [IsStrictOrderedRing K] {sqrt : K → K} (hsqrt : IsSqrt sqrt) {x : List U64}
    {u v : U64} (hu : u ∈ x) (hv : v ∈ x) (hne : u ≠ v) : pearson sqrt x x = some 1 := by
  have hlen : ¬ x.length = 0 := fun h => List.ne_nil_of_mem hu (List.length_eq_zero_iff.mp h)
  rw [pearson, if_neg (not_not.mpr rfl), if_neg hlen]
  simp only [foldl_addMoments, zero_add]
  have hself : ∀ p ∈ x.zip x, p.1 = p.2 := by
    intro p hp
    obtain ⟨i, hi, rfl⟩ := List.mem_iff_getElem.mp hp
    rw [List.getElem_zip]
  generalize (wordMean x : K) = mean
  have hxy : ((x.zip x).map fun p => deviationX mean p * deviationY mean p)
      = (x.zip x).map fun p => deviationX mean p * deviationX mean p :=
    List.map_congr_left fun p hp => by rw [deviationX, deviationY, hself p hp]
  have hyy : ((x.zip x).map fun p => deviationY mean p * deviationY mean p)
      = (x.zip x).map fun p => deviationX mean p * deviationX mean p :=
    List.map_congr_left fun p hp => by rw [deviationX, deviationY, hself p hp]
  rw [hxy, hyy]
  have hnonneg := Correlation.sum_sq_nonneg (x.zip x) (deviationX mean)
  have hvar : ((x.zip x).map fun p => deviationX mean p * deviationX mean p).sum ≠ 0 := by
    intro hzero
    have hword : ∀ w ∈ x, (w.toNat : K) = mean := by
      intro w hw
      have hpair : (w, w) ∈ x.zip x := by
        obtain ⟨i, hi, rfl⟩ := List.mem_iff_getElem.mp hw
        exact List.mem_iff_getElem.mpr ⟨i, by simpa using hi, by simp⟩
      exact sub_eq_zero.mp (Correlation.eq_zero_of_sum_sq hzero hpair)
    exact hne (BitVec.eq_of_toNat_eq (Nat.cast_injective ((hword u hu).trans (hword v hv).symm)))
  generalize ((x.zip x).map fun p => deviationX mean p * deviationX mean p).sum = var at *
  obtain ⟨hroot, hsq⟩ := hsqrt (var * var) (mul_nonneg hnonneg hnonneg)
  rw [if_neg (by simp [hvar]), mul_self_inj hroot hnonneg |>.mp hsq, div_self hvar]

/-! ## The error -/

section
variable [IsStrictOrderedRing K] {preds actuals : List U64} {weights : List K}

/-- **The weighted error of a holdout**: between the least and the
greatest error, and zero for exact predictions only. -/
theorem weightedHoldoutMae_mem (hlen : preds.length = actuals.length)
    (hweights : preds.length = weights.length) (hne : preds ≠ []) (hpos : ∀ w ∈ weights, 0 < w)
    {mae : K} (h : weightedHoldoutMae preds actuals weights = some mae) :
    (∀ lo hi : Nat, (∀ x ∈ (preds.zip actuals).zip weights,
        lo ≤ (absError x).toNat ∧ (absError x).toNat ≤ hi) → (lo : K) ≤ mae ∧ mae ≤ hi)
      ∧ (mae = 0 ↔ preds = actuals) := by
  have hzip : (preds.zip actuals).zip weights ≠ [] := by
    intro hnil
    have hlength := congrArg List.length hnil
    rw [List.length_zip, List.length_zip, ← hlen, ← hweights, Nat.min_self, Nat.min_self,
      List.length_nil, List.length_eq_zero_iff] at hlength
    exact hne hlength
  have hw : ∀ x ∈ (preds.zip actuals).zip weights, 0 < x.2 :=
    fun x hx => hpos _ (List.of_mem_zip (a := x.1) (b := x.2) hx).2
  have hsum := Correlation.sum_pos_of_ne_nil hzip hw
  rw [weightedHoldoutMae, if_neg (not_not.mpr hlen), if_neg (not_not.mpr hweights),
    if_neg hne] at h
  simp only [foldl_addError, zero_add] at h
  rw [if_neg (ne_of_gt hsum)] at h
  obtain rfl := Option.some.inj h
  refine ⟨fun lo hi hall => ?_, ?_⟩
  · exact Correlation.mean_mem hzip hw fun x hx =>
      ⟨Nat.cast_le.mpr (hall x hx).1, Nat.cast_le.mpr (hall x hx).2⟩
  · rw [div_eq_zero_iff, or_iff_left (ne_of_gt hsum),
      Correlation.sum_weighted_eq_zero hw fun x _ => Nat.cast_nonneg _]
    have hexact : (∀ x ∈ (preds.zip actuals).zip weights, ((absError x).toNat : K) = 0)
        ↔ ∀ p ∈ preds.zip actuals, p.1 = p.2 := by
      have hword : ∀ x : (U64 × U64) × K, ((absError x).toNat : K) = 0 ↔ x.1.1 = x.1.2 := by
        intro x
        rw [Nat.cast_eq_zero, ← absError_eq_zero]
        exact ⟨fun hz => BitVec.eq_of_toNat_eq hz, fun hz => by rw [hz]; rfl⟩
      simp only [hword]
      constructor
      · intro hall p hp
        have hmem : p ∈ ((preds.zip actuals).zip weights).map Prod.fst := by
          rw [List.map_fst_zip]
          · exact hp
          · rw [List.length_zip, ← hlen, Nat.min_self, hweights]
        obtain ⟨x, hx, rfl⟩ := List.mem_map.mp hmem
        exact hall x hx
      · exact fun hall x hx => hall x.1 (List.of_mem_zip (a := x.1) (b := x.2) hx).1
    rw [hexact]
    constructor
    · intro hall
      apply List.ext_getElem hlen
      intro i hi hi'
      have hmem : (preds[i], actuals[i]) ∈ preds.zip actuals := by
        rw [List.mem_iff_getElem]
        exact ⟨i, by rw [List.length_zip, ← hlen, Nat.min_self]; exact hi, List.getElem_zip⟩
      exact hall _ hmem
    · rintro rfl p hp
      obtain ⟨i, hi, heq⟩ := List.mem_iff_getElem.mp hp
      rw [List.getElem_zip] at heq
      rw [← heq]

end

/-! ## The result of a training -/

/-- The cut of the window: nine tenths are fitted. -/
def holdoutCut (n : Nat) : Nat := n - n / 10

/-- What a training returns of a window: the fit of its older part, and
the metrics over the rest. -/
structure Trained [FloorSemiring K] (exp2 sqrt : K → K) (samples : List TreeSample)
    (res : TrainResult K) : Prop where
  fitted : fitWithScratch (samples.take (holdoutCut samples.length))
    (sampleWeights exp2 (samples.take (holdoutCut samples.length)).length) daemonCaps
      = some res.tree
  valid : serializeValidate res.tree = .ok ()
  nrTrain : res.nrTrain = holdoutCut samples.length
  nrPidsTrain : res.nrPidsTrain = treeDistinctPids (samples.take (holdoutCut samples.length))
  evaluated : Evaluated sqrt (samples.drop (holdoutCut samples.length))
    ((sampleWeights exp2 samples.length).drop (holdoutCut samples.length)) res

variable [FloorSemiring K]

/-- **A window that can be split is trained on**, without an error. -/
theorem trainModel_ok (exp2 sqrt : K → K) {samples : List TreeSample} (h : 20 ≤ samples.length) :
    ∃ res, trainModel exp2 sqrt samples = some (.ok res) ∧ Trained exp2 sqrt samples res := by
  have hsplit := splitHoldout_eq h
  have hcut : holdoutCut samples.length = samples.length - samples.length / 10 := rfl
  rw [← hcut] at hsplit
  generalize holdoutCut samples.length = cut at hsplit hcut
  have htake : (samples.take cut).length = cut := by
    rw [List.length_take]
    omega
  have hne : samples.take cut ≠ [] := by
    intro hnil
    rw [hnil, List.length_nil] at htake
    omega
  obtain ⟨tree, hplain, hfit⟩ := FitScratch.fitWithScratch_eq exp2 (samples.take cut)
    (daemonCaps : FitCaps K)
  obtain ⟨tree', jobs, hgrow, hgrown⟩ := @fitWithScratch_grown K _ _ _ _ hne
    (sampleWeights exp2 (samples.take cut).length) daemonCaps
    (show 1 ≤ mlfqTreeMaxNodes by decide) (Nat.le_refl _)
  obtain rfl := Option.some.inj (hgrow.symm.trans hplain)
  have hvalid : serializeValidate tree' = .ok () :=
    Grown.serializeValidate_ok hgrown (Nat.le_refl _) (Nat.le_refl _)
  obtain ⟨res, heval, htree, hnr, hpids, hrun⟩ := @FitScratch.evaluate_eq K _ _ exp2 sqrt samples
    (samples.take cut) (samples.drop cut) (List.take_append_drop cut samples) tree'
  rw [htake] at heval hnr
  obtain ⟨s₁, hs₁⟩ := hfit {}
  obtain ⟨s₂, hs₂⟩ := hrun s₁
  refine ⟨res, ?_, ?_⟩
  · simp only [trainModel, FitScratch.trainModelWithScratch, hsplit, Option.bind_some, hs₁,
      serializeValidateAt_eq, hvalid, hs₂, Option.map_some]
  · subst hcut
    exact ⟨htree ▸ hplain, htree ▸ hvalid, hnr, hpids, heval⟩

omit [FloorSemiring K] in
theorem sampleWeights_pos {exp2 : K → K} (hexp : ∀ x, 0 < exp2 x) (n : Nat) :
    ∀ w ∈ sampleWeights exp2 n, 0 < w := by
  intro w hw
  obtain ⟨i, -, rfl⟩ := List.mem_map.mp hw
  exact hexp _

/-- The fit of a window of emitted samples. -/
theorem Trained.fitToEmitted {exp2 sqrt : K → K} {samples : List TreeSample} {res : TrainResult K}
    (h : Trained exp2 sqrt samples res) (hexp : ∀ x, 0 < exp2 x)
    (hem : ∀ x ∈ samples, Emitted x) : FitToEmitted K res.tree :=
  ⟨_, _, fun x hx => hem x (List.mem_of_mem_take hx), sampleWeights_length ..,
    sampleWeights_pos hexp _, h.fitted⟩

theorem Trained.corr_mem [IsStrictOrderedRing K] {exp2 sqrt : K → K} {samples : List TreeSample}
    {res : TrainResult K} (h : Trained exp2 sqrt samples res) (hsqrt : IsSqrt sqrt) :
    -1 ≤ res.corr ∧ res.corr ≤ 1 := pearson_mem hsqrt h.evaluated.corr

omit [LinearOrder K] [FloorSemiring K] in
/-- The last tenth of a window, and its weights. -/
theorem holdout_length (exp2 : K → K) {samples : List TreeSample} (h : 20 ≤ samples.length) :
    (samples.drop (holdoutCut samples.length)).length = samples.length / 10
      ∧ ((sampleWeights exp2 samples.length).drop (holdoutCut samples.length)).length
        = samples.length / 10 ∧ samples.drop (holdoutCut samples.length) ≠ [] := by
  have hcut : holdoutCut samples.length = samples.length - samples.length / 10 := rfl
  have hdrop : (samples.drop (holdoutCut samples.length)).length = samples.length / 10 := by
    rw [List.length_drop, hcut]
    omega
  refine ⟨hdrop, ?_, fun hnil => ?_⟩
  · rw [List.length_drop, sampleWeights_length, hcut]
    omega
  · rw [hnil, List.length_nil] at hdrop
    omega

omit [FloorSemiring K] in
/-- The error of one predictor over the holdout. -/
theorem holdoutMae_mem [IsStrictOrderedRing K] {exp2 : K → K} (hexp : ∀ x, 0 < exp2 x)
    {samples : List TreeSample} (h : 20 ≤ samples.length) (f : TreeSample → U64) {mae : K}
    (hmae : weightedHoldoutMae ((samples.drop (holdoutCut samples.length)).map f)
      (labels (samples.drop (holdoutCut samples.length)))
      ((sampleWeights exp2 samples.length).drop (holdoutCut samples.length)) = some mae) :
    (mae = 0 ↔ ∀ x ∈ samples.drop (holdoutCut samples.length), f x = x.labelNs) ∧ 0 ≤ mae
      ∧ ∀ bound : Nat, (∀ x ∈ samples.drop (holdoutCut samples.length),
        (absError (K := K) ((f x, x.labelNs), 0)).toNat ≤ bound) → mae ≤ bound := by
  obtain ⟨hdrop, hw, hne⟩ := holdout_length exp2 h
  have hpos : ∀ w ∈ (sampleWeights exp2 samples.length).drop (holdoutCut samples.length), 0 < w :=
    fun w hw => sampleWeights_pos hexp _ w (List.mem_of_mem_drop hw)
  have hlen : ((samples.drop (holdoutCut samples.length)).map f).length
      = (labels (samples.drop (holdoutCut samples.length))).length := by
    rw [labels, List.length_map, List.length_map]
  have hmem := weightedHoldoutMae_mem hlen (by rw [List.length_map, hdrop, hw])
    (fun hnil => hne (List.map_eq_nil_iff.mp hnil)) hpos hmae
  have hpairs : ((samples.drop (holdoutCut samples.length)).map f).zip
      (labels (samples.drop (holdoutCut samples.length)))
      = (samples.drop (holdoutCut samples.length)).map fun x => (f x, x.labelNs) :=
    List.zip_map' ..
  refine ⟨?_, ?_, fun bound hbound => ?_⟩
  · rw [hmem.2, labels]
    exact List.map_inj_left
  · have hany := hmem.1 0 (2 ^ 64) fun x _ => ⟨Nat.zero_le _, Nat.le_of_lt (BitVec.isLt _)⟩
    rw [Nat.cast_zero] at hany
    exact hany.1
  · refine (hmem.1 0 bound fun x hx => ⟨Nat.zero_le _, ?_⟩).2
    have hpair := (List.of_mem_zip (a := x.1) (b := x.2) hx).1
    rw [hpairs] at hpair
    obtain ⟨y, hy, hxy⟩ := List.mem_map.mp hpair
    have hsame : absError x = absError (K := K) ((f y, y.labelNs), 0) := by
      rw [absError, absError, hxy]
    rw [hsame]
    exact hbound y hy

/-- **A training returns what it says.** On a window of at least twenty
samples it returns neither an error nor a panic: the fit of the first
nine tenths, which the validator accepts, and over the last tenth a
correlation between minus one and one, an error that is zero exactly for
exact predictions, and for both predictors an error no greater than the
greatest of the holdout. -/
theorem trainModel_sound [IsStrictOrderedRing K] {exp2 sqrt : K → K} (hexp : ∀ x, 0 < exp2 x)
    (hsqrt : IsSqrt sqrt) (samples : List TreeSample) (h : 20 ≤ samples.length) :
    ∃ res, trainModel exp2 sqrt samples = some (.ok res)
      ∧ serializeValidate res.tree = .ok ()
      ∧ res.nrTrain + res.holdoutLen = samples.length ∧ res.holdoutLen = samples.length / 10
      ∧ -1 ≤ res.corr ∧ res.corr ≤ 1
      ∧ (let holdout := samples.drop res.nrTrain
        (res.maeTree = 0 ↔ ∀ x ∈ holdout, predict res.tree x.feats = x.labelNs)
        ∧ (res.maeEma = 0 ↔ ∀ x ∈ holdout, x.feats.ema = x.labelNs)
        ∧ 0 ≤ res.maeTree ∧ 0 ≤ res.maeEma
        ∧ ∀ bound : Nat,
          ((∀ x ∈ holdout, (absError (K := K) ((predict res.tree x.feats, x.labelNs), 0)).toNat
            ≤ bound) → res.maeTree ≤ bound)
          ∧ ((∀ x ∈ holdout, (absError (K := K) ((x.feats.ema, x.labelNs), 0)).toNat ≤ bound) →
            res.maeEma ≤ bound)) := by
  obtain ⟨res, hrun, ht⟩ := trainModel_ok exp2 sqrt h
  have hcut : holdoutCut samples.length = samples.length - samples.length / 10 := rfl
  have hholdout := ht.evaluated.holdoutLen.trans (holdout_length exp2 h).1
  obtain ⟨htree, htree0, htreeB⟩ := holdoutMae_mem hexp h _ ht.evaluated.maeTree
  obtain ⟨hema, hema0, hemaB⟩ := holdoutMae_mem hexp h _ ht.evaluated.maeEma
  have hcorr := ht.corr_mem hsqrt
  refine ⟨res, hrun, ht.valid, ?_, hholdout, hcorr.1, hcorr.2, ?_⟩
  · rw [ht.nrTrain, hholdout, hcut]
    omega
  · rw [ht.nrTrain]
    exact ⟨htree, hema, htree0, hema0, fun bound => ⟨htreeB bound, hemaB bound⟩⟩

/-- **A window of two kinds is learnt exactly**: the fit of its older part
splits, the error over the rest is zero, and the correlation is one. -/
theorem Trained.bands [IsStrictOrderedRing K] {exp2 sqrt : K → K} (hexp : ∀ x, 0 < exp2 x)
    (hsqrt : IsSqrt sqrt) {samples : List TreeSample} (h20 : 20 ≤ samples.length)
    {res : TrainResult K} (h : Trained exp2 sqrt samples res) {feature : Nat} {a b : Band}
    (hbands : TwoBands 32 feature a b (window (samples.take (holdoutCut samples.length))
      (sampleWeights exp2 (samples.take (holdoutCut samples.length)).length)))
    (ha : a.labelNs ≤ 0xFFFFFFFF) (hb : b.labelNs ≤ 0xFFFFFFFF)
    (hkind : ∀ x ∈ samples.drop (holdoutCut samples.length), a.Has x ∨ b.Has x)
    {x y : TreeSample} (hx : x ∈ samples.drop (holdoutCut samples.length))
    (hy : y ∈ samples.drop (holdoutCut samples.length)) (hne : x.labelNs ≠ y.labelNs) :
    (res.tree.node 0).right ≠ 0 ∧ res.maeTree = 0 ∧ res.corr = 1 := by
  have hrel : (daemonCaps : FitCaps K).minRelVarReduction < 1 := by
    show (1 / 1000 : K) < 1
    norm_num
  obtain ⟨hsplit, hpa, hpb⟩ := @fitWithScratch_bands K _ _ _ _ _ _ (sampleWeights_pos hexp _)
    daemonCaps (Nat.le_refl 12) (Nat.le_refl 2048) (show 1 ≤ mlfqTreeMaxDepth by decide)
    (show 3 ≤ mlfqTreeMaxNodes by decide) hrel feature a b hbands ha hb _ h.fitted
  have hexact : ∀ z ∈ samples.drop (holdoutCut samples.length),
      predict res.tree z.feats = z.labelNs := by
    intro z hz
    rcases hkind z hz with ⟨hf, hl⟩ | ⟨hf, hl⟩
    · rw [hf, hl, hpa]
    · rw [hf, hl, hpb]
  have hpreds : predictions res.tree (samples.drop (holdoutCut samples.length))
      = labels (samples.drop (holdoutCut samples.length)) := List.map_congr_left hexact
  refine ⟨hsplit, ?_, ?_⟩
  · exact (holdoutMae_mem hexp h20 _ h.evaluated.maeTree).1.mpr hexact
  · have hone : pearson sqrt (labels (samples.drop (holdoutCut samples.length)))
        (labels (samples.drop (holdoutCut samples.length))) = some (1 : K) :=
      pearson_self hsqrt (List.mem_map_of_mem hx) (List.mem_map_of_mem hy) hne
    have hcorr := h.evaluated.corr
    rw [hpreds, hone] at hcorr
    exact (Option.some.inj hcorr).symm

/-! ## The stream of two kinds -/

theorem isSqrt_sqrt : IsSqrt Real.sqrt :=
  fun x hx => ⟨Real.sqrt_nonneg x, Real.mul_self_sqrt hx⟩

/-- The weights grow from a quarter to one. -/
theorem sampleWeights_mem (n : Nat) :
    ∀ w ∈ sampleWeights (fun x => (2 : ℝ) ^ x) n, 1 / 4 ≤ w ∧ w ≤ 1 := by
  intro w hw
  obtain ⟨i, hi, rfl⟩ := List.mem_map.mp hw
  have hn : (0 : ℝ) < n := Nat.cast_pos.mpr (Nat.zero_lt_of_lt (List.mem_range.mp hi))
  have hage : ((n - i : Nat) : ℝ) ≤ n := Nat.cast_le.mpr (Nat.sub_le n i)
  have hratio : ((n - i : Nat) : ℝ) / ((n : ℝ) / (2 : Nat)) ≤ 2 := by
    rw [div_le_iff₀ (by positivity)]
    push_cast
    linarith
  have hzero : 0 ≤ ((n - i : Nat) : ℝ) / ((n : ℝ) / (2 : Nat)) := by positivity
  constructor
  · calc (1 / 4 : ℝ) = 2 ^ (-2 : ℝ) := by
          rw [Real.rpow_neg two_pos.le, Real.rpow_two]
          norm_num
      _ ≤ 2 ^ (-((n - i : Nat) : ℝ) / ((n : ℝ) / (2 : Nat))) :=
          Real.rpow_le_rpow_of_exponent_le one_le_two (by rw [neg_div]; linarith)
  · calc (2 : ℝ) ^ (-((n - i : Nat) : ℝ) / ((n : ℝ) / (2 : Nat))) ≤ 2 ^ (0 : ℝ) :=
          Real.rpow_le_rpow_of_exponent_le one_le_two (by rw [neg_div]; linarith)
      _ = 1 := Real.rpow_zero 2

/-- The training on a stream of two kinds. -/
theorem exists_trained_bandStream {n : Nat} (h : 80 ≤ n) (hn : n ≤ 16384) :
    ∃ res, trainModel (fun x => (2 : ℝ) ^ x) Real.sqrt (bandStream n) = some (.ok res)
      ∧ Trained (fun x => (2 : ℝ) ^ x) Real.sqrt (bandStream n) res
      ∧ (res.tree.node 0).right ≠ 0 ∧ res.maeTree = 0 ∧ res.corr = 1 := by
  have hlen := length_bandStream n
  obtain ⟨res, hrun, htrained⟩ := trainModel_ok (fun x => (2 : ℝ) ^ x) Real.sqrt
    (show 20 ≤ (bandStream n).length by omega)
  refine ⟨res, hrun, htrained, ?_⟩
  have hcut : holdoutCut (bandStream n).length = n - n / 10 := by rw [hlen, holdoutCut]
  have htake : (bandStream n).take (holdoutCut (bandStream n).length)
      = bandStream (n - n / 10) := by
    rw [hcut, take_bandStream (Nat.sub_le _ _)]
  have hdrop : ∀ i < n, n - n / 10 ≤ i →
      bandBurst i ∈ (bandStream n).drop (holdoutCut (bandStream n).length) := by
    intro i hi hcuti
    rw [hcut, bandStream, ← List.map_drop]
    refine List.mem_map_of_mem (List.mem_iff_getElem.mpr ⟨i - (n - n / 10), ?_, ?_⟩)
    · rw [List.length_drop, List.length_range]
      omega
    · rw [List.getElem_drop, List.getElem_range]
      omega
  have hbands : TwoBands 32 1 napped rested
      (window ((bandStream n).take (holdoutCut (bandStream n).length))
        (sampleWeights (fun x => (2 : ℝ) ^ x)
          ((bandStream n).take (holdoutCut (bandStream n).length)).length)) := by
    rw [htake, length_bandStream]
    exact bandStream_twoBands (by omega) (by omega) (sampleWeights_length ..)
      (fun w hw => (sampleWeights_mem _ w hw).1) fun w hw => (sampleWeights_mem _ w hw).2
  -- of the last two samples each is of one kind
  have hne : (bandBurst (n - 2)).labelNs ≠ (bandBurst (n - 1)).labelNs := by
    have happart : rested.labelNs ≠ napped.labelNs := by decide
    rcases Nat.mod_two_eq_zero_or_one n with hn2 | hn2
    · rw [(bandBurst_even (show (n - 2) % 2 = 0 by omega)).2,
        (bandBurst_odd (show (n - 1) % 2 = 1 by omega)).2]
      exact happart
    · rw [(bandBurst_odd (show (n - 2) % 2 = 1 by omega)).2,
        (bandBurst_even (show (n - 1) % 2 = 0 by omega)).2]
      exact happart.symm
  exact htrained.bands (fun x => Real.rpow_pos_of_pos two_pos x) isSqrt_sqrt (by omega) hbands
    (by decide) (by decide) (fun x hx => bandStream_has n x (List.mem_of_mem_drop hx))
    (hdrop (n - 2) (by omega) (by omega)) (hdrop (n - 1) (by omega) (by omega)) hne

/-- The training on eighty samples of two kinds: a split, and no error. -/
theorem trainModel_sound_bandStream :
    ∃ res : TrainResult ℝ, trainModel (fun x => (2 : ℝ) ^ x) Real.sqrt (bandStream 80)
        = some (.ok res)
      ∧ res.nrTrain + res.holdoutLen = 80 ∧ res.holdoutLen = 8 ∧ (res.tree.node 0).right ≠ 0
      ∧ res.maeTree = 0 ∧ 0 < res.maeEma ∧ res.corr = 1 := by
  have hlen : (bandStream 80).length = 80 := rfl
  obtain ⟨res, hrun, -, hsum, hholdout, -, -, hmetrics⟩ := trainModel_sound
    (fun x => Real.rpow_pos_of_pos two_pos x : ∀ x : ℝ, 0 < (2 : ℝ) ^ x) isSqrt_sqrt
    (bandStream 80) (by rw [hlen]; decide)
  obtain ⟨res', hrun', -, hsplit, hmae, hcorr⟩ := exists_trained_bandStream (n := 80)
    (Nat.le_refl 80) (by decide)
  obtain rfl := Except.ok.inj (Option.some.inj (hrun'.symm.trans hrun))
  rw [hlen] at hsum hholdout
  refine ⟨res', hrun, hsum, hholdout, hsplit, hmae, ?_, hcorr⟩
  -- the gauge is zero, and no burst is
  obtain ⟨-, hema, -, hnonneg, -⟩ := hmetrics
  refine lt_of_le_of_ne hnonneg fun hzero => ?_
  have hlast : bandBurst 79 ∈ (bandStream 80).drop res'.nrTrain := by
    rw [show res'.nrTrain = 72 by omega]
    decide
  have hlabel := hema.mp hzero.symm _ hlast
  exact absurd hlabel (by decide)

end ScxMlfq
