import ScxMlfq.Bpf.Adapt
import ScxMlfq.Daemon.Config

/-!
# Daemon — Limits

What the arithmetic of the scheduler needs of a configuration, against
what `Config::validate` asks of it. The validator bounds every field
from below and orders the thresholds; only the batch has an upper bound.
The products of the gauges, the scaled lag limits and the fixed bounds
of the band edges need more.
-/

namespace ScxMlfq

/-! ## What the scheduler computes with the configuration -/

/-- One update of a gauge with the ceiling, the aggressiveness and the
half-life of the rodata. -/
inductive GaugeUpdate where
  | climb (delta : U64)
  | decay (sleepNs : U64)

def GaugeUpdate.apply (rod : Rodata) (ema : U64) : GaugeUpdate → U64
  | .climb delta => mlfqEmaClimb ema delta rod.budgetMaxNs rod.alpha
  | .decay sleepNs => mlfqEmaDecay ema sleepNs rod.emaHalfLifeNs

def GaugeUpdate.checked (rod : Rodata) (ema : U64) : GaugeUpdate → Option U64
  | .climb delta => mlfqEmaClimbChecked ema delta rod.budgetMaxNs rod.alpha
  | .decay sleepNs => mlfqEmaDecayChecked ema sleepNs rod.emaHalfLifeNs

/-- A gauge after a list of updates, from zero. -/
def gaugeAfter (rod : Rodata) (us : List GaugeUpdate) : U64 :=
  us.foldl (GaugeUpdate.apply rod) 0

/-- Over every run of a gauge, it stays within the ceiling and no update
wraps or divides by zero. -/
def GaugesExact (rod : Rodata) : Prop :=
  ∀ us : List GaugeUpdate,
    (gaugeAfter rod us).toNat ≤ rod.budgetMaxNs.toNat
      ∧ ∀ u : GaugeUpdate,
        u.checked rod (gaugeAfter rod us) = some (u.apply rod (gaugeAfter rod us))

/-- `mlfq_lag_limit`, checked. -/
def mlfqLagLimitChecked (q : QueueCtx) (weight : U32) : Option U64 := do
  let request ← Checked.add q.maxSliceNs mlfqTickNs
  calcDeltaFairChecked request weight

/-- No lag limit wraps, for the weights the kernel gives. -/
def LagsExact (rod : Rodata) : Prop :=
  ∀ (q : Queue) (clock : U64) (weight : U32), 1 ≤ weight.toNat → weight.toNat ≤ 10000 →
    mlfqLagLimitChecked ⟨clock, mlfqQueueSlice rod q⟩ weight
      = some (mlfqLagLimit ⟨clock, mlfqQueueSlice rod q⟩ weight)

/-- `mlfq_init` accepts the rodata, where the CPU count is in range and
the kernel creates the DSQs. -/
def InitAccepts (rod : Rodata) : Prop :=
  ∀ (m : Machine) (createDsq : U64 → Int), m.rod = rod → 0 < m.nrCpuIds →
    m.nrCpuIds ≤ mlfqMaxCpus → (∀ id, 0 ≤ createDsq id) → mlfqInit m createDsq = .ok m.seed

/-- What the validator is to protect. -/
structure Protected (rod : Rodata) : Prop where
  init : InitAccepts rod
  gauges : GaugesExact rod
  lags : LagsExact rod
  edges : EdgesAtBase rod (adaptBands rod (seedAdapt rod) 0)

/-- The bounds a configuration needs besides its validation. -/
structure WithinLimits (rod : Rodata) : Prop where
  climb : rod.budgetMaxNs.toNat * rod.budgetMaxNs.toNat * rod.alpha.toNat < 2 ^ 64
  halfLife : rod.emaHalfLifeNs.toNat ≤ 2 ^ 56
  slices : ∀ q, ((mlfqQueueSlice rod q).toNat + 1000000) * 100 < 2 ^ 64
  bases : BasesWithin rod

/-! ## The gauges -/

section Gauges

variable {rod : Rodata}

theorem gaugeAfter_append (us : List GaugeUpdate) (u : GaugeUpdate) :
    gaugeAfter rod (us ++ [u]) = u.apply rod (gaugeAfter rod us) := by
  rw [gaugeAfter, List.foldl_append]
  rfl

theorem toNat_pos {x : U64} (h : x ≠ 0) : 0 < x.toNat :=
  Nat.pos_of_ne_zero fun hzero => h (BitVec.eq_of_toNat_eq hzero)

/-- The bound on the largest rise bounds its parts. -/
theorem climbFits_of_rise {budgetMax alpha : U64} (halpha : alpha ≠ 0)
    (h : budgetMax.toNat * budgetMax.toNat * alpha.toNat < 2 ^ 64) :
    ClimbFits budgetMax alpha ∧ budgetMax.toNat < 2 ^ 32 := by
  have hpos : 0 < alpha.toNat := toNat_pos halpha
  have harea : budgetMax.toNat * budgetMax.toNat < 2 ^ 64 :=
    lt_of_le_of_lt (Nat.le_mul_of_pos_right _ hpos) h
  have hsmall : budgetMax.toNat < 2 ^ 32 := by
    by_contra hbig
    have hsq := Nat.mul_le_mul (Nat.not_lt.mp hbig) (Nat.not_lt.mp hbig)
    omega
  exact ⟨⟨harea, h, by omega⟩, hsmall⟩

/-- One update within the limits: the ceiling holds and nothing wraps. -/
theorem GaugeUpdate.exact (hclimb : ClimbFits rod.budgetMaxNs rod.alpha)
    (hdecay : DecayFits rod.emaHalfLifeNs) {ema : U64}
    (hema : ema.toNat ≤ rod.budgetMaxNs.toNat) (u : GaugeUpdate) :
    u.checked rod ema = some (u.apply rod ema)
      ∧ (u.apply rod ema).toNat ≤ rod.budgetMaxNs.toNat := by
  have hfits : ema.toNat * 256 < 2 ^ 64 :=
    Nat.lt_of_le_of_lt (Nat.mul_le_mul_right 256 hema) hclimb.scale
  cases u with
  | climb delta => exact ⟨mlfqEmaClimbChecked_eq hclimb hema, mlfqEmaClimb_le hema⟩
  | decay sleepNs =>
      exact ⟨mlfqEmaDecayChecked_eq hdecay hfits,
        Nat.le_trans (mlfqEmaDecay_le hdecay hfits) hema⟩

theorem gaugesExact_of_fits (hclimb : ClimbFits rod.budgetMaxNs rod.alpha)
    (hdecay : DecayFits rod.emaHalfLifeNs) : GaugesExact rod := by
  intro us
  have hle : (gaugeAfter rod us).toNat ≤ rod.budgetMaxNs.toNat := by
    induction us using List.reverseRecOn with
    | nil => exact Nat.zero_le _
    | append_singleton us u ih =>
        rw [gaugeAfter_append]
        exact (GaugeUpdate.exact hclimb hdecay ih u).2
  exact ⟨hle, fun u => (GaugeUpdate.exact hclimb hdecay hle u).1⟩

/-- **The largest rise must fit**: a full segment on an empty gauge forms
it. -/
theorem rise_of_checked {budgetMax alpha r : U64} (hb : budgetMax ≠ 0)
    (h : mlfqEmaClimbChecked 0 budgetMax budgetMax alpha = some r) :
    budgetMax.toNat * budgetMax.toNat * alpha.toNat < 2 ^ 64 := by
  have hself : ¬ budgetMax > budgetMax := BitVec.lt_irrefl _
  have hgap : Checked.sub budgetMax 0 = some budgetMax := by
    rw [Checked.sub_eq (Nat.zero_le _), sub_zero]
  simp only [mlfqEmaClimbChecked, if_neg hself, hgap, Option.bind_eq_bind, Option.bind_some,
    if_neg hb] at h
  obtain ⟨area, harea, h⟩ := Option.bind_eq_some_iff.mp h
  obtain ⟨rise, hrise, -⟩ := Option.bind_eq_some_iff.mp h
  obtain ⟨hfits, rfl⟩ := Checked.of_mul_eq_some harea
  have hlast := (Checked.of_mul_eq_some hrise).1
  rwa [BitVec.toNat_mul_of_lt hfits] at hlast

/-- The first full segment moves an empty gauge, where the rise covers
the fixed point. -/
theorem climb_ne_zero {budgetMax alpha : U64} (hb : budgetMax ≠ 0)
    (hclimb : ClimbFits budgetMax alpha) (hmove : 256 ≤ budgetMax.toNat * alpha.toNat) :
    mlfqEmaClimb 0 budgetMax budgetMax alpha ≠ 0 := by
  have hself : ¬ budgetMax > budgetMax := BitVec.lt_irrefl _
  have hpos : 0 < budgetMax.toNat := toNat_pos hb
  have hone : fpOne.toNat = 256 := rfl
  have hscale : (budgetMax * fpOne).toNat = budgetMax.toNat * 256 :=
    BitVec.toNat_mul_of_lt hclimb.scale
  have hrise : (budgetMax * budgetMax * alpha).toNat
      = budgetMax.toNat * budgetMax.toNat * alpha.toNat := by
    rw [BitVec.toNat_mul_of_lt, BitVec.toNat_mul_of_lt hclimb.area]
    rw [BitVec.toNat_mul_of_lt hclimb.area]
    exact hclimb.rise
  have hstep : 1 ≤ (budgetMax * budgetMax * alpha / (budgetMax * fpOne)).toNat := by
    rw [BitVec.toNat_udiv, hrise, hscale, Nat.one_le_div_iff (by omega), Nat.mul_assoc]
    exact Nat.mul_le_mul_left _ hmove
  simp only [mlfqEmaClimb, if_neg hself, sub_zero, if_neg hb, zero_add]
  split
  · exact hb
  · intro hzero
    rw [hzero] at hstep
    exact absurd hstep (by decide)

/-- **The half-life must leave room for the fraction**: the longest sleep
below one half-life forms it. -/
theorem halfLife_of_checked {ema halfLife r : U64} (hema : ema ≠ 0)
    (h : mlfqEmaDecayChecked ema (halfLife - 1) halfLife = some r) :
    halfLife.toNat ≤ 2 ^ 56 := by
  by_contra hbig
  have hbig := Nat.not_le.mp hbig
  have hlt := halfLife.isLt
  rw [mlfqEmaDecayChecked] at h
  obtain ⟨horizon, hhorizon, h⟩ := Option.bind_eq_some_iff.mp h
  obtain ⟨hfits, rfl⟩ := Checked.of_shl_eq_some hhorizon
  have hpred : (halfLife - 1).toNat = halfLife.toNat - 1 := by bv_omega
  have hshort : ¬ (halfLife - (1 : U64)) ≥ halfLife <<< 6 := by
    rw [ge_iff_le, BitVec.le_def, Checked.toNat_shl hfits, hpred]
    omega
  have hpos : halfLife.toNat ≠ 0 := by omega
  have hperiods : ((halfLife - 1) / halfLife).toNat = 0 := by
    rw [BitVec.toNat_udiv, hpred]
    exact Nat.div_eq_of_lt (by omega)
  have hrest : ((halfLife - 1) % halfLife).toNat = halfLife.toNat - 1 := by
    rw [BitVec.toNat_umod, hpred]
    exact Nat.mod_eq_of_lt (by omega)
  rw [if_neg hshort, Checked.div_eq hpos, Checked.mod_eq hpos] at h
  simp only [Option.bind_eq_bind, Option.bind_some, hperiods] at h
  have hgo : ¬ ((halfLife - 1) % halfLife = 0 ∨ ema >>> 0 = 0) := by
    rw [not_or]
    constructor
    · intro hzero
      rw [hzero] at hrest
      have : (0 : U64).toNat = 0 := rfl
      omega
    · rw [BitVec.ushiftRight_zero]
      exact hema
  rw [if_neg hgo] at h
  obtain ⟨scaled, hscaled, -⟩ := Option.bind_eq_some_iff.mp h
  have hroom := (Checked.of_mul_eq_some hscaled).1
  have hone : fpOne.toNat = 256 := rfl
  rw [hrest, hone] at hroom
  omega

/-- What exact gauges need of their parameters. -/
theorem GaugesExact.limits (h : GaugesExact rod) (hb : rod.budgetMaxNs ≠ 0)
    (halpha : rod.alpha ≠ 0) (hmove : 256 ≤ rod.budgetMaxNs.toNat * rod.alpha.toNat) :
    rod.budgetMaxNs.toNat * rod.budgetMaxNs.toNat * rod.alpha.toNat < 2 ^ 64
      ∧ rod.emaHalfLifeNs.toNat ≤ 2 ^ 56 := by
  have hrise := rise_of_checked hb ((h []).2 (.climb rod.budgetMaxNs))
  refine ⟨hrise, ?_⟩
  -- a full segment leaves the gauge off zero, and then it sleeps
  have hmoved := climb_ne_zero hb (climbFits_of_rise halpha hrise).1 hmove
  exact halfLife_of_checked hmoved
    ((h [.climb rod.budgetMaxNs]).2 (.decay (rod.emaHalfLifeNs - 1)))

end Gauges

/-! ## The lag limits -/

section Lags

variable {rod : Rodata}

/-- A lag limit is exact when the scaled request fits. -/
theorem mlfqLagLimitChecked_eq {clock slice : U64} {weight : U32}
    (h : (slice.toNat + 1000000) * 100 < 2 ^ 64) (hweight : weight ≠ 0) :
    mlfqLagLimitChecked ⟨clock, slice⟩ weight = some (mlfqLagLimit ⟨clock, slice⟩ weight) := by
  have htick : mlfqTickNs.toNat = 1000000 := rfl
  have hsum : slice.toNat + mlfqTickNs.toNat < 2 ^ 64 := by omega
  have hscaled : (slice + mlfqTickNs).toNat * 100 < 2 ^ 64 := by
    rw [BitVec.toNat_add_of_lt hsum, htick]
    exact h
  rw [mlfqLagLimitChecked, mlfqLagLimit]
  rw [Checked.add_eq hsum, Option.bind_eq_bind, Option.bind_some]
  exact calcDeltaFairChecked_eq hscaled hweight

theorem request_of_checked {clock slice : U64} {weight : U32} {r : U64}
    (h : mlfqLagLimitChecked ⟨clock, slice⟩ weight = some r) :
    (slice.toNat + 1000000) * 100 < 2 ^ 64 := by
  rw [mlfqLagLimitChecked] at h
  obtain ⟨request, hrequest, h⟩ := Option.bind_eq_some_iff.mp h
  obtain ⟨hsum, rfl⟩ := Checked.of_add_eq_some hrequest
  rw [calcDeltaFairChecked] at h
  obtain ⟨scaled, hscaled, -⟩ := Option.bind_eq_some_iff.mp h
  have hfits := (Checked.of_mul_eq_some hscaled).1
  rw [BitVec.toNat_add_of_lt hsum] at hfits
  exact hfits

/-- **The lag limits are exact** exactly when the scaled requests fit. -/
theorem lagsExact_iff :
    LagsExact rod ↔ ∀ q, ((mlfqQueueSlice rod q).toNat + 1000000) * 100 < 2 ^ 64 := by
  constructor
  · intro h q
    exact request_of_checked (h q 0 1 (by decide) (by decide))
  · intro h q clock weight hlow _
    have hweight : weight ≠ 0 := by
      rintro rfl
      exact absurd hlow (by decide)
    exact mlfqLagLimitChecked_eq (h q) hweight

end Lags

/-! ## The validator -/

/-- What `validate` promises of the fields the arithmetic reads. -/
theorem Config.arithmetic {c : Config} (h : c.validate = .ok ()) :
    c.budgetMaxNs ≠ 0 ∧ c.alpha ≠ 0 ∧ c.tHNs < c.budgetMaxNs ∧ c.emaHalfLifeNs ≠ 0 := by
  have hbudget := @Config.bails_eq_false c h 1 _ rfl
  have halpha := @Config.bails_eq_false c h 2 _ rfl
  have hth := @Config.bails_eq_false c h 5 _ rfl
  have hhalf := @Config.bails_eq_false c h 6 _ rfl
  simp only [nonZero, decide_eq_false_iff_not] at hbudget halpha hth hhalf
  exact ⟨hbudget, halpha, BitVec.not_le.mp hth, hhalf⟩

/-- **What the validator protects.** For a configuration it accepts, the
scheduler starts, its gauges and lag limits are exact over every run and
its edges at shift zero are the bases, if and only if the configuration
is also within the limits. -/
theorem protected_iff {c : Config} (h : c.validate = .ok ()) (rod : Rodata) :
    Protected (c.apply rod) ↔ WithinLimits (c.apply rod) := by
  obtain ⟨hbudget, halpha, hth, hhalf⟩ := Config.arithmetic h
  constructor
  · intro hp
    have hbases := adaptBands_zero_iff.mp hp.edges
    -- a budget above the floor of T_H moves the gauge
    have hmove : 256 ≤ c.budgetMaxNs.toNat * c.alpha.toNat := by
      have hfloor : mlfqAdaptTHFloorNs.toNat = 1200000 := rfl
      have hlow : mlfqAdaptTHFloorNs.toNat ≤ c.tHNs.toNat := hbases.tH.1
      have habove : c.tHNs.toNat < c.budgetMaxNs.toNat := hth
      have hpos : 0 < c.alpha.toNat := toNat_pos halpha
      exact Nat.le_trans (by omega) (Nat.le_mul_of_pos_right _ hpos)
    obtain ⟨hclimb, hlife⟩ := GaugesExact.limits hp.gauges hbudget halpha hmove
    exact ⟨hclimb, hlife, lagsExact_iff.mp hp.lags, hbases⟩
  · intro hw
    have hclimb : ClimbFits c.budgetMaxNs c.alpha := (climbFits_of_rise halpha hw.climb).1
    have hlife : c.emaHalfLifeNs.toNat ≤ 2 ^ 56 := hw.halfLife
    have hdecay : DecayFits c.emaHalfLifeNs := ⟨toNat_pos hhalf, by omega⟩
    refine ⟨?_, gaugesExact_of_fits hclimb hdecay, lagsExact_iff.mpr hw.slices,
      adaptBands_zero_iff.mpr hw.bases⟩
    intro m createDsq hrod hpos hmax hdsq
    exact mlfqInit_of_valid h hrod hpos hmax hdsq

/-- The default configuration is within the limits. -/
theorem protected_iff_default : Protected (({} : Config).apply {}) := by
  refine (protected_iff Config.default_valid {}).mpr ⟨by decide, by decide, ?_, ?_⟩
  · intro q
    cases q <;> decide
  · constructor <;> decide

/-- A budget of 2^32 ns passes the checks, and the first full segment on
an empty gauge wraps. -/
theorem validate_unprotected :
    ¬ ∀ c : Config, c.validate = .ok () → ∀ rod : Rodata, Protected (c.apply rod) := by
  intro hclaim
  have hp := hclaim { budgetMaxNs := 0x100000000 } rfl {}
  have hexact := (hp.gauges []).2 (.climb 0x100000000)
  have hwraps : mlfqEmaClimbChecked 0 0x100000000 0x100000000 3072 = none := by decide
  exact absurd (hwraps.symm.trans hexact) nofun

end ScxMlfq
