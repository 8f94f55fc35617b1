import ScxMlfq.Intf.Adapt
import ScxMlfq.Bpf.Lifecycle

/-!
# Bpf — Cadence

The sleep cadence of `src/bpf/lifecycle.bpf.c` over words that refuse to
wrap, and the ranges its gauges stay in. A sleep enters the gauges
clamped to 64 ms, so the mean stays within the clamp, the variance within
its square, and the ratio within its saturation.
-/

namespace ScxMlfq

/-- The decay of a long idle, checked. -/
def decayCadenceChecked (tctx : TaskCtx) (sleepNs : U64) : Option TaskCtx := do
  let mean ← mlfqEmaDecayChecked tctx.sleepMeanEma sleepNs mlfqEmaHalfLifeNs
  let var ← mlfqEmaDecayChecked tctx.sleepVarEma sleepNs mlfqEmaHalfLifeNs
  some { tctx with
    sleepMeanEma := mean
    sleepVarEma := if mean = 0 then 0 else var
    gpuSubmit := if tctx.gpuSubmit ≠ 0 then tctx.gpuSubmit - 1 else 0 }

/-- The distance of a sleep from the mean, checked. -/
def cadenceDiffChecked (mean sleepNs : U64) : Option U64 := do
  let sdiff ← Checked.ssub sleepNs mean
  if sdiff.toInt < 0 then Checked.sneg sdiff else some sdiff

/-- One sleep of the window, checked. -/
def averageCadenceChecked (tctx : TaskCtx) (sleepNs : U64) : Option TaskCtx := do
  let oldMean := tctx.sleepMeanEma
  let meanOld ← Checked.mul oldMean 248
  let meanNew ← Checked.mul sleepNs 8
  let meanSum ← Checked.add meanOld meanNew
  let mean ← Checked.div meanSum 256
  let diff ← cadenceDiffChecked oldMean sleepNs
  let diff2 ← Checked.mul diff diff
  let varOld ← Checked.mul tctx.sleepVarEma 248
  let varNew ← Checked.mul diff2 8
  let varSum ← Checked.add varOld varNew
  let var ← Checked.div varSum 256
  some { tctx with sleepMeanEma := mean, sleepVarEma := var }

/-- The variance ratio, checked. -/
def sleepVarRatioChecked (mean var : U64) : Option U32 :=
  if mean > 0 then do
    let mean2 ← Checked.mul mean mean
    if mean2 ≠ 0 then do
      let scaled ← Checked.mul var fpOne
      let ratio ← Checked.div scaled mean2
      some ((if ratio > 1024 then 1024 else ratio).setWidth 32)
    else some 0
  else some 0

/-- `mlfq_sleep_ema_update`, checked. -/
def mlfqSleepEmaUpdateChecked (tctx : TaskCtx) (sleepNs : U64) : Option TaskCtx := do
  let sleepNs := cadenceClamp sleepNs
  let tctx ← if sleepNs > mlfqLongSleepNs then decayCadenceChecked tctx sleepNs
    else averageCadenceChecked tctx sleepNs
  let ratio ← sleepVarRatioChecked tctx.sleepMeanEma tctx.sleepVarEma
  some { tctx with sleepVarRatio := ratio }

/-- The clamp of a sleep, 64 ms. -/
def cadenceMaxNs : Nat := 64000000

/-- The ranges of the cadence gauges. -/
structure CadenceBounded (t : TaskCtx) : Prop where
  mean : t.sleepMeanEma.toNat ≤ cadenceMaxNs
  var : t.sleepVarEma.toNat ≤ cadenceMaxNs * cadenceMaxNs
  ratio : t.sleepVarRatio.toNat ≤ 1024

theorem cadenceClamp_le (s : U64) : (cadenceClamp s).toNat ≤ cadenceMaxNs :=
  Checked.toNat_cap_le s (64 * nsecPerMsec)

/-- The clamp lies below the long sleep, so no update takes the decay. -/
theorem cadenceClamp_not_long (s : U64) : ¬ cadenceClamp s > mlfqLongSleepNs := by
  have h := cadenceClamp_le s
  simp only [cadenceMaxNs] at h
  simp only [mlfqLongSleepNs]
  bv_omega

theorem cadenceStep_eq (t : TaskCtx) (s : U64) :
    cadenceStep t (cadenceClamp s) = averageCadence t (cadenceClamp s) :=
  if_neg (cadenceClamp_not_long s)

/-! ## One sleep of the window -/

/-- The distance of a sleep from the mean. -/
def cadenceDiff (mean sleepNs : U64) : U64 :=
  if (sleepNs - mean).toInt < 0 then -(sleepNs - mean) else sleepNs - mean

section Average

variable {mean var s : U64}

/-- The signed difference of two words within the clamp is exact. -/
theorem toInt_cadence_sub (hm : mean.toNat ≤ cadenceMaxNs) (hs : s.toNat ≤ cadenceMaxNs) :
    (s - mean).toInt = s.toNat - mean.toNat := by
  simp only [cadenceMaxNs] at hm hs
  rw [BitVec.toInt_eq_toNat_cond, BitVec.toNat_sub]
  split <;> omega

theorem toInt_cadence (hs : s.toNat ≤ cadenceMaxNs) : s.toInt = s.toNat := by
  simp only [cadenceMaxNs] at hs
  exact BitVec.toInt_eq_toNat_of_lt (by omega)

/-- **The distance does not wrap**, in two's complement, and is within
the clamp. -/
theorem cadenceDiffChecked_eq (hm : mean.toNat ≤ cadenceMaxNs) (hs : s.toNat ≤ cadenceMaxNs) :
    cadenceDiffChecked mean s = some (cadenceDiff mean s)
      ∧ (cadenceDiff mean s).toNat ≤ cadenceMaxNs := by
  have hfwd := toInt_cadence_sub hm hs
  have hback := toInt_cadence_sub hs hm
  have hneg : -(s - mean) = mean - s := neg_sub s mean
  have hsub : (s - mean).toInt = s.toInt - mean.toInt := by
    rw [hfwd, toInt_cadence hm, toInt_cadence hs]
  have hsneg : (-(s - mean)).toInt = -(s - mean).toInt := by
    rw [hneg, hback, hfwd]
    omega
  refine ⟨?_, ?_⟩
  · simp only [cadenceDiffChecked, Checked.ssub_eq hsub, Checked.sneg_eq hsneg,
      Option.bind_eq_bind, Option.bind_some, cadenceDiff]
    split <;> rfl
  · rw [cadenceDiff, hneg, hfwd]
    split
    · rw [Checked.toNat_sub (by omega)]
      omega
    · rw [Checked.toNat_sub (by omega)]
      omega

/-- One step of the average with weight 8 / 256: exact below the bound,
which it keeps. -/
theorem average_spec {old new : U64} {bound : Nat} (hbound : bound * 256 < 2 ^ 64)
    (hold : old.toNat ≤ bound) (hnew : new.toNat ≤ bound) :
    old.toNat * (248 : U64).toNat < 2 ^ 64 ∧ new.toNat * (8 : U64).toNat < 2 ^ 64
      ∧ (old * 248).toNat + (new * 8).toNat < 2 ^ 64
      ∧ ((old * 248 + new * 8) / 256).toNat ≤ bound := by
  have hmulOld : old.toNat * (248 : U64).toNat < 2 ^ 64 :=
    lt_of_le_of_lt (Nat.mul_le_mul hold (by decide)) hbound
  have hmulNew : new.toNat * (8 : U64).toNat < 2 ^ 64 :=
    lt_of_le_of_lt (Nat.mul_le_mul hnew (by decide)) hbound
  have hOld : (old * 248).toNat = old.toNat * 248 := BitVec.toNat_mul_of_lt hmulOld
  have hNew : (new * 8).toNat = new.toNat * 8 := BitVec.toNat_mul_of_lt hmulNew
  have hsum : (old * 248).toNat + (new * 8).toNat < 2 ^ 64 := by
    rw [hOld, hNew]
    calc old.toNat * 248 + new.toNat * 8 ≤ bound * 248 + bound * 8 := by omega
      _ = bound * 256 := by omega
      _ < 2 ^ 64 := hbound
  refine ⟨hmulOld, hmulNew, hsum, ?_⟩
  rw [BitVec.toNat_udiv, BitVec.toNat_add_of_lt hsum, hOld, hNew]
  show (old.toNat * 248 + new.toNat * 8) / 256 ≤ bound
  omega

/-- The square of the distance. -/
theorem cadenceDiff_sq (hm : mean.toNat ≤ cadenceMaxNs) (hs : s.toNat ≤ cadenceMaxNs) :
    (cadenceDiff mean s).toNat * (cadenceDiff mean s).toNat < 2 ^ 64
      ∧ (cadenceDiff mean s * cadenceDiff mean s).toNat ≤ cadenceMaxNs * cadenceMaxNs := by
  have hle := (cadenceDiffChecked_eq hm hs).2
  have hsq := Nat.mul_le_mul hle hle
  have hfits : (cadenceDiff mean s).toNat * (cadenceDiff mean s).toNat < 2 ^ 64 :=
    lt_of_le_of_lt hsq (by decide)
  refine ⟨hfits, ?_⟩
  rw [BitVec.toNat_mul_of_lt hfits]
  exact hsq

end Average

theorem averageCadence_eq (t : TaskCtx) (s : U64) :
    averageCadence t s = { t with
      sleepMeanEma := (t.sleepMeanEma * 248 + s * 8) / 256
      sleepVarEma := (t.sleepVarEma * 248
        + cadenceDiff t.sleepMeanEma s * cadenceDiff t.sleepMeanEma s * 8) / 256 } := rfl

theorem averageCadenceChecked_eq {t : TaskCtx} {s : U64} (h : CadenceBounded t)
    (hs : s.toNat ≤ cadenceMaxNs) :
    averageCadenceChecked t s = some (averageCadence t s) := by
  have hdiff := (cadenceDiffChecked_eq h.mean hs).1
  obtain ⟨hsq, hsqLe⟩ := cadenceDiff_sq h.mean hs
  obtain ⟨hmeanOld, hmeanNew, hmeanSum, -⟩ := average_spec (by decide) h.mean hs
  obtain ⟨hvarOld, hvarNew, hvarSum, -⟩ := average_spec (by decide) h.var hsqLe
  have hdiv : (256 : U64).toNat ≠ 0 := by decide
  simp only [averageCadenceChecked, Checked.mul_eq hmeanOld, Checked.mul_eq hmeanNew,
    Checked.add_eq hmeanSum, Checked.div_eq hdiv, hdiff,
    Checked.mul_eq hsq, Checked.mul_eq hvarOld, Checked.mul_eq hvarNew,
    Checked.add_eq hvarSum, Option.bind_eq_bind, Option.bind_some]
  rw [averageCadence_eq]

/-! ## The ratio -/

theorem sleepVarRatioOf_le (mean var : U64) : (sleepVarRatioOf mean var).toNat ≤ 1024 := by
  simp only [sleepVarRatioOf]
  split
  · split
    · have h := Checked.toNat_cap_le (var * fpOne / (mean * mean)) 1024
      generalize (if var * fpOne / (mean * mean) > 1024 then 1024
        else var * fpOne / (mean * mean)) = r at h ⊢
      bv_omega
    · decide
  · decide

theorem sleepVarRatioChecked_eq {mean var : U64} (hm : mean.toNat ≤ cadenceMaxNs)
    (hv : var.toNat ≤ cadenceMaxNs * cadenceMaxNs) :
    sleepVarRatioChecked mean var = some (sleepVarRatioOf mean var) := by
  have hsq : mean.toNat * mean.toNat < 2 ^ 64 :=
    lt_of_le_of_lt (Nat.mul_le_mul hm hm) (by decide)
  have hscaled : var.toNat * fpOne.toNat < 2 ^ 64 :=
    lt_of_le_of_lt (Nat.mul_le_mul_right _ hv) (by decide)
  rw [sleepVarRatioChecked, sleepVarRatioOf]
  split
  · simp only [Checked.mul_eq hsq, Option.bind_eq_bind, Option.bind_some]
    by_cases hzero : mean * mean ≠ 0
    · have hdiv : (mean * mean).toNat ≠ 0 := by
        intro h
        exact hzero (BitVec.eq_of_toNat_eq h)
      rw [if_pos hzero, if_pos hzero]
      simp only [Checked.mul_eq hscaled, Checked.div_eq hdiv, Option.bind_some]
    · rw [if_neg hzero, if_neg hzero]
  · rfl

/-! ## The update -/

/-- **The cadence update does not wrap**, for a sleep of any length. -/
theorem mlfqSleepEmaUpdateChecked_eq {t : TaskCtx} (h : CadenceBounded t) (s : U64) :
    mlfqSleepEmaUpdateChecked t s = some (mlfqSleepEmaUpdate t s) := by
  have hs := cadenceClamp_le s
  obtain ⟨-, hsqLe⟩ := cadenceDiff_sq h.mean hs
  obtain ⟨-, -, -, hmean⟩ := average_spec (by decide) h.mean hs
  obtain ⟨-, -, -, hvar⟩ := average_spec (by decide) h.var hsqLe
  simp only [mlfqSleepEmaUpdateChecked, if_neg (cadenceClamp_not_long s),
    averageCadenceChecked_eq h hs, Option.bind_eq_bind, Option.bind_some]
  rw [averageCadence_eq, sleepVarRatioChecked_eq hmean hvar, Option.bind_some,
    mlfqSleepEmaUpdate, cadenceStep_eq, averageCadence_eq]

/-- **The cadence update keeps the ranges** and the submission count. -/
theorem mlfqSleepEmaUpdate_bounded {t : TaskCtx} (h : CadenceBounded t) (s : U64) :
    CadenceBounded (mlfqSleepEmaUpdate t s)
      ∧ (mlfqSleepEmaUpdate t s).gpuSubmit = t.gpuSubmit := by
  have hs := cadenceClamp_le s
  obtain ⟨-, hsqLe⟩ := cadenceDiff_sq h.mean hs
  obtain ⟨-, -, -, hmean⟩ := average_spec (by decide) h.mean hs
  obtain ⟨-, -, -, hvar⟩ := average_spec (by decide) h.var hsqLe
  rw [mlfqSleepEmaUpdate, cadenceStep_eq, averageCadence_eq]
  exact ⟨⟨hmean, hvar, sleepVarRatioOf_le _ _⟩, rfl⟩

/-! ## A long idle -/

/-- The cadence after a sleep at the clamp or beyond it, in numbers. -/
structure FoldsAtClamp (t t' : TaskCtx) : Prop where
  mean : t'.sleepMeanEma.toNat = (t.sleepMeanEma.toNat * 248 + cadenceMaxNs * 8) / 256
  var : t'.sleepVarEma.toNat = (t.sleepVarEma.toNat * 248
    + (cadenceMaxNs - t.sleepMeanEma.toNat) * (cadenceMaxNs - t.sleepMeanEma.toNat) * 8) / 256
  gpuSubmit : t'.gpuSubmit = t.gpuSubmit

/-- One step of the average in numbers. -/
theorem average_toNat {old new : U64} {bound : Nat} (hbound : bound * 256 < 2 ^ 64)
    (hold : old.toNat ≤ bound) (hnew : new.toNat ≤ bound) :
    ((old * 248 + new * 8) / 256).toNat = (old.toNat * 248 + new.toNat * 8) / 256 := by
  obtain ⟨hmulOld, hmulNew, hsum, -⟩ := average_spec hbound hold hnew
  rw [BitVec.toNat_udiv, BitVec.toNat_add_of_lt hsum, BitVec.toNat_mul_of_lt hmulOld,
    BitVec.toNat_mul_of_lt hmulNew]
  rfl

/-- **A long sleep is averaged in as the clamp.** -/
theorem mlfqSleepEmaUpdate_atClamp {t : TaskCtx} (hmean : t.sleepMeanEma.toNat ≤ cadenceMaxNs)
    (hvar : t.sleepVarEma.toNat ≤ cadenceMaxNs * cadenceMaxNs) {s : U64}
    (hs : mlfqLongSleepNs < s) : FoldsAtClamp t (mlfqSleepEmaUpdate t s) := by
  have hclamp : cadenceClamp s = 64 * nsecPerMsec := by
    have hlong : (64 * nsecPerMsec : U64) < mlfqLongSleepNs := by decide
    exact if_pos (BitVec.lt_trans hlong hs)
  have hC : (64 * nsecPerMsec : U64).toNat = cadenceMaxNs := rfl
  have hle : (64 * nsecPerMsec : U64).toNat ≤ cadenceMaxNs := Nat.le_refl _
  obtain ⟨hsqFits, hsqLe⟩ := cadenceDiff_sq hmean hle
  have hdiff : (cadenceDiff t.sleepMeanEma (64 * nsecPerMsec)).toNat
      = cadenceMaxNs - t.sleepMeanEma.toNat := by
    have hfwd := toInt_cadence_sub hmean hle
    have hsign : ¬ ((64 * nsecPerMsec : U64) - t.sleepMeanEma).toInt < 0 := by
      rw [hfwd, hC]
      omega
    rw [cadenceDiff, if_neg hsign, Checked.toNat_sub (by rw [hC]; exact hmean), hC]
  rw [mlfqSleepEmaUpdate, cadenceStep_eq, hclamp, averageCadence_eq]
  constructor
  · show ((t.sleepMeanEma * 248 + 64 * nsecPerMsec * 8) / 256).toNat = _
    rw [average_toNat (by decide) hmean hle, hC]
  · show ((t.sleepVarEma * 248 + cadenceDiff t.sleepMeanEma (64 * nsecPerMsec)
      * cadenceDiff t.sleepMeanEma (64 * nsecPerMsec) * 8) / 256).toNat = _
    rw [average_toNat (by decide) hvar hsqLe, BitVec.toNat_mul_of_lt hsqFits, hdiff]
  · rfl

/-- What the comment of the update asks of a long idle. -/
structure AgesOut (t t' : TaskCtx) : Prop where
  mean : t'.sleepMeanEma.toNat ≤ t.sleepMeanEma.toNat
  var : t'.sleepVarEma.toNat ≤ t.sleepVarEma.toNat
  gpuSubmit : t'.gpuSubmit.toNat = t.gpuSubmit.toNat - 1

/-- The contexts a long idle ages out: no submission on record, and the
gauges where one more sleep of 64 ms leaves them. -/
structure AgesAtClamp (t : TaskCtx) : Prop where
  gpuSubmit : t.gpuSubmit = 0
  mean : cadenceMaxNs < t.sleepMeanEma.toNat + 32
  var : (cadenceMaxNs - t.sleepMeanEma.toNat) * (cadenceMaxNs - t.sleepMeanEma.toNat)
    < t.sleepVarEma.toNat + 32

/-- An average with weight 8 / 256 does not rise if and only if the new
value is less than 32 above it. -/
theorem average_le_iff (old new : Nat) : (old * 248 + new * 8) / 256 ≤ old ↔ new < old + 32 := by
  omega

theorem FoldsAtClamp.agesOut_iff {t t' : TaskCtx} (h : FoldsAtClamp t t') :
    AgesOut t t' ↔ AgesAtClamp t := by
  constructor
  · intro hages
    obtain ⟨hmean, hvar, hgpu⟩ := hages
    rw [h.mean, average_le_iff] at hmean
    rw [h.var, average_le_iff] at hvar
    rw [h.gpuSubmit] at hgpu
    have hzero : t.gpuSubmit.toNat = (0 : U32).toNat := by
      show t.gpuSubmit.toNat = 0
      omega
    exact ⟨BitVec.eq_of_toNat_eq hzero, hmean, hvar⟩
  · intro hclamp
    obtain ⟨hgpu, hmean, hvar⟩ := hclamp
    constructor
    · rw [h.mean, average_le_iff]
      exact hmean
    · rw [h.var, average_le_iff]
      exact hvar
    · rw [h.gpuSubmit, hgpu]
      rfl

/-- A blocking stop after a long idle: the sleep it folds exceeds the
bound, or it has no sleep to fold and takes the call for that. -/
def LongIdle (t : TaskCtx) (now : U64) : Prop :=
  mlfqLongSleepNs < foldedSleepNs t now
    ∨ (foldedSleepNs t now = 0 ∧ t.sleepMeanEma ≠ 0)

instance (t : TaskCtx) (now : U64) : Decidable (LongIdle t now) :=
  inferInstanceAs (Decidable (_ ∨ _))

theorem foldSleep_atClamp {t : TaskCtx} (hmean : t.sleepMeanEma.toNat ≤ cadenceMaxNs)
    (hvar : t.sleepVarEma.toNat ≤ cadenceMaxNs * cadenceMaxNs) {now : U64} (h : LongIdle t now) :
    FoldsAtClamp t (foldSleep t now) := by
  rw [foldSleep]
  rcases h with hlong | hnone
  · have hne : foldedSleepNs t now ≠ 0 := by
      intro hzero
      rw [hzero] at hlong
      exact absurd hlong (by decide)
    rw [if_pos hne]
    exact mlfqSleepEmaUpdate_atClamp hmean hvar hlong
  · have hzero : ¬ foldedSleepNs t now ≠ 0 := fun hne => hne hnone.1
    rw [if_neg hzero, if_pos hnone.2]
    exact mlfqSleepEmaUpdate_atClamp hmean hvar (by decide)

/-- **A blocking stop after a long idle averages the clamp in.** -/
theorem mlfqStopping_atClamp {t : TaskCtx} (hmean : t.sleepMeanEma.toNat ≤ cadenceMaxNs)
    (hvar : t.sleepVarEma.toNat ≤ cadenceMaxNs * cadenceMaxNs) {now : U64} (h : LongIdle t now)
    (m : Machine) (p : TaskStruct) : FoldsAtClamp t (mlfqStopping m p t false now).tctx := by
  obtain ⟨burst, at_, hseg⟩ := stopSegment_frame m p t false now
  have hfields : (stopSegment m p t false now).2.1.sleepMeanEma = t.sleepMeanEma
      ∧ (stopSegment m p t false now).2.1.sleepVarEma = t.sleepVarEma
      ∧ (stopSegment m p t false now).2.1.gpuSubmit = t.gpuSubmit := by
    rw [hseg]
    exact ⟨rfl, rfl, rfl⟩
  obtain ⟨hsegMean, hsegVar, hsegGpu⟩ := hfields
  have hsleep : foldedSleepNs (stopSegment m p t false now).2.1 now = foldedSleepNs t now := by
    rw [hseg]
    rfl
  have hidle : LongIdle (stopSegment m p t false now).2.1 now := by
    rw [LongIdle, hsleep, hsegMean]
    exact h
  have hfold : FoldsAtClamp (stopSegment m p t false now).2.1
      (foldSleep (stopSegment m p t false now).2.1 now) := by
    apply foldSleep_atClamp _ _ hidle
    · rw [hsegMean]
      exact hmean
    · rw [hsegVar]
      exact hvar
  obtain ⟨hfoldMean, hfoldVar, hfoldGpu⟩ := hfold
  rw [hsegMean] at hfoldMean hfoldVar
  rw [hsegVar] at hfoldVar
  rw [hsegGpu] at hfoldGpu
  rw [mlfqStopping_tctx, stopBlock_blocks]
  exact ⟨hfoldMean, hfoldVar, hfoldGpu⟩

end ScxMlfq
