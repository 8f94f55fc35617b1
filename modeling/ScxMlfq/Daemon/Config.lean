import ScxMlfq.Bpf.Init

/-!
# Daemon — Config

`src/config.rs`: the scheduling constants of the front-end, their
validation and their write-through into the rodata.
-/

namespace ScxMlfq

/-- `Config`. The defaults are those of `Config::default()`. -/
structure Config where
  q1SliceNs : U64 := 1000000
  q2SliceNs : U64 := 2000000
  q3SliceNs : U64 := 4000000
  budgetMaxNs : U64 := 6000000
  alpha : U64 := 3072
  tLNs : U64 := 250000
  tHNs : U64 := 2000000
  emaHalfLifeNs : U64 := 24000000
  agingPeriodNs : U64 := 1000000000
  shortSleepNs : U64 := 32000000
  shortSleepRateLimitNs : U64 := 2000000
  hysteresisSleepNs : U64 := 4000000
  longSleepNs : U64 := 120000000
  sameqPreemptMinRunNs : U64 := 0
  preemptSliceNs : U64 := 150000
  q1Quota : U32 := 4
  q2Quota : U32 := 8
  dispatchMaxBatch : U32 := 32
  rtdlDrainIntervalNs : U64 := 1000000
  treeTIntNs : U64 := 1000000
  treeTBoundNs : U64 := 3000000
  adaptEnabled : Bool := true

/-- `MLFQ_DISPATCH_MAX_BATCH`, the move budget of the ops table. -/
def mlfqDispatchMaxBatch : U32 := 32

/-- One `bail!` of `validate`: the condition and the text. -/
structure Check where
  bails : Bool
  text : String

/-- The checks of one non-zero field. -/
def nonZero (what : String) (v : U64) : Check := ⟨decide (v = 0), what ++ " must be non-zero"⟩

/-- The checks of `validate`, in order. -/
def Config.checks (c : Config) : List Check :=
  [⟨decide (c.q1SliceNs = 0) || decide (c.q2SliceNs = 0) || decide (c.q3SliceNs = 0),
      s!"queue slices must be non-zero (got Q1={c.q1SliceNs.toNat} " ++
        s!"Q2={c.q2SliceNs.toNat} Q3={c.q3SliceNs.toNat})"⟩,
    nonZero "budget_max" c.budgetMaxNs,
    nonZero "alpha" c.alpha,
    nonZero "T_L" c.tLNs,
    ⟨decide (c.tLNs ≥ c.tHNs),
      s!"T_L ({c.tLNs.toNat}) must be strictly below T_H ({c.tHNs.toNat})"⟩,
    ⟨decide (c.tHNs ≥ c.budgetMaxNs),
      s!"T_H ({c.tHNs.toNat}) must be strictly below BUDGET_MAX ({c.budgetMaxNs.toNat})"⟩,
    nonZero "EMA half-life" c.emaHalfLifeNs,
    nonZero "aging period" c.agingPeriodNs,
    nonZero "short-sleep window" c.shortSleepNs,
    nonZero "short-sleep rate limit" c.shortSleepRateLimitNs,
    nonZero "hysteresis sleep window" c.hysteresisSleepNs,
    nonZero "long-sleep window" c.longSleepNs,
    ⟨decide (c.q1Quota = 0) || decide (c.q2Quota = 0),
      s!"dispatch quotas must be non-zero (got Q1={c.q1Quota.toNat} Q2={c.q2Quota.toNat})"⟩,
    ⟨decide (c.dispatchMaxBatch = 0), "dispatch_max_batch must be non-zero"⟩,
    -- the sum is taken in 64 bits
    ⟨decide (c.q1Quota.setWidth 64 + c.q2Quota.setWidth 64 ≥ c.dispatchMaxBatch.setWidth 64),
      s!"Q1+Q2 quotas ({c.q1Quota.toNat}+{c.q2Quota.toNat}) must leave headroom for Q3 " ++
        s!"within the dispatch batch ({c.dispatchMaxBatch.toNat})"⟩,
    ⟨decide (c.dispatchMaxBatch > mlfqDispatchMaxBatch),
      s!"dispatch_max_batch ({c.dispatchMaxBatch.toNat}) exceeds the ops-table bound " ++
        s!"({mlfqDispatchMaxBatch.toNat})"⟩,
    nonZero "rtdl drain interval" c.rtdlDrainIntervalNs,
    nonZero "tree T_INT" c.treeTIntNs,
    ⟨decide (c.treeTIntNs ≥ c.treeTBoundNs),
      s!"tree T_INT ({c.treeTIntNs.toNat}) must be strictly below T_BOUND " ++
        s!"({c.treeTBoundNs.toNat})"⟩]

/-- `Config::validate`: the first check that bails. -/
def Config.validate (c : Config) : Except String Unit :=
  match c.checks.find? Check.bails with
  | some check => .error check.text
  | none => .ok ()

/-- `Config::apply`, as far as the modelled callbacks read the rodata. -/
def Config.apply (c : Config) (rod : Rodata) : Rodata :=
  { rod with
    q1SliceNs := c.q1SliceNs
    q2SliceNs := c.q2SliceNs
    q3SliceNs := c.q3SliceNs
    budgetMaxNs := c.budgetMaxNs
    alpha := c.alpha
    tLNs := c.tLNs
    tHNs := c.tHNs
    emaHalfLifeNs := c.emaHalfLifeNs
    agingPeriodNs := c.agingPeriodNs
    shortSleepNs := c.shortSleepNs
    shortSleepRateLimitNs := c.shortSleepRateLimitNs
    hysteresisSleepNs := c.hysteresisSleepNs
    longSleepNs := c.longSleepNs
    sameqPreemptMinRunNs := c.sameqPreemptMinRunNs
    preemptSliceNs := c.preemptSliceNs
    q1Quota := c.q1Quota
    q2Quota := c.q2Quota
    dispatchMaxBatch := c.dispatchMaxBatch
    treeTIntNs := c.treeTIntNs
    treeTBoundNs := c.treeTBoundNs }

/-- The production configuration passes its own checks. -/
theorem Config.default_valid : (({} : Config).validate) = .ok () := by
  rfl

/-- **A valid configuration bails nowhere.** -/
theorem Config.bails_eq_false {c : Config} (h : c.validate = .ok ()) {i : Nat} {check : Check}
    (hi : c.checks[i]? = some check) : check.bails = false := by
  rw [Config.validate] at h
  split at h
  · cases h
  · rename_i hnone
    exact Bool.eq_false_iff.mpr (List.find?_eq_none.mp hnone check (List.mem_of_getElem? hi))

/-- What the dispatch relies on of a valid configuration: quotas that are
not zero and leave Q3 a share of a batch within the move budget. -/
structure QuotasFit (q1Quota q2Quota batch : U32) : Prop where
  q1 : 0 < q1Quota.toNat
  q2 : 0 < q2Quota.toNat
  share : q1Quota.toNat + q2Quota.toNat < batch.toNat
  budget : batch.toNat ≤ 32

theorem Config.quotasFit {c : Config} (h : c.validate = .ok ()) :
    QuotasFit c.q1Quota c.q2Quota c.dispatchMaxBatch := by
  have hzero := Config.bails_eq_false h (i := 12) rfl
  have hsum := Config.bails_eq_false h (i := 14) rfl
  have hmax := Config.bails_eq_false h (i := 15) rfl
  simp only [Bool.or_eq_false_iff, decide_eq_false_iff_not] at hzero hsum hmax
  have hmax' : c.dispatchMaxBatch.toNat ≤ 32 := Nat.le_of_not_lt hmax
  refine ⟨?_, ?_, ?_, hmax'⟩
  · have := hzero.1
    bv_omega
  · have := hzero.2
    bv_omega
  · bv_omega

/-- The check of `mlfq_init`, in 32 bits, passes. -/
theorem QuotasFit.not_ge {q1Quota q2Quota batch : U32} (h : QuotasFit q1Quota q2Quota batch) :
    ¬ q1Quota + q2Quota ≥ batch := by
  have hshare := h.share
  have hbudget := h.budget
  bv_omega

/-- The queue DSQ ids of the supported CPUs stay below the local ones. -/
theorem mlfqDsqId_not_local {cpu : Nat} (h : cpu < 1024) :
    ¬ mlfqDsqId .q3 cpu ≥ scxDsqLocalOn := by
  have hcpu : (BitVec.ofInt 64 cpu : U64).toNat = cpu := by
    rw [BitVec.ofInt_natCast, BitVec.toNat_ofNat, Nat.mod_eq_of_lt (by omega)]
  have hmul : (BitVec.ofInt 64 cpu * mlfqDsqStride : U64).toNat = cpu * 3 := by
    rw [BitVec.toNat_mul_of_lt (by rw [hcpu]; show cpu * 3 < _; omega), hcpu]
    rfl
  have hbase : (mlfqDsqBase + BitVec.ofInt 64 cpu * mlfqDsqStride : U64).toNat
      = 4096 + cpu * 3 := by
    rw [BitVec.toNat_add_of_lt (by rw [hmul]; show 4096 + cpu * 3 < _; omega), hmul]
    rfl
  have hid : (mlfqDsqId .q3 cpu).toNat = 4096 + cpu * 3 + 2 := by
    rw [mlfqDsqId, BitVec.toNat_add_of_lt (by rw [hbase]; show 4096 + cpu * 3 + 2 < _; omega),
      hbase]
    rfl
  have hlocal : scxDsqLocalOn.toNat = 13835058055282163712 := rfl
  intro hge
  have hle : scxDsqLocalOn.toNat ≤ (mlfqDsqId .q3 cpu).toNat := hge
  omega

/-- **`mlfq_init` accepts what `validate` accepted**, where the CPU count
is in range and the kernel creates the DSQs. -/
theorem mlfqInit_of_valid {c : Config} (h : c.validate = .ok ()) {m : Machine} {rod : Rodata}
    (hrod : m.rod = c.apply rod) (hpos : 0 < m.nrCpuIds) (hmax : m.nrCpuIds ≤ mlfqMaxCpus)
    {createDsq : U64 → Int} (hdsq : ∀ id, 0 ≤ createDsq id) :
    mlfqInit m createDsq = .ok m.seed := by
  have hq := Config.quotasFit h
  have htree := Config.bails_eq_false h (i := 18) rfl
  simp only [decide_eq_false_iff_not] at htree
  have hquota : ¬ m.rod.q1Quota + m.rod.q2Quota ≥ m.rod.dispatchMaxBatch := by
    rw [hrod]
    exact hq.not_ge
  have hfind : (initDsqs m.nrCpuIds).find? (fun d =>
      decide (createDsq (mlfqDsqId d.1 d.2) < 0)
        && decide (createDsq (mlfqDsqId d.1 d.2) ≠ eExist)) = none := by
    rw [List.find?_eq_none]
    intro d _
    have := hdsq (mlfqDsqId d.1 d.2)
    simp only [Bool.and_eq_true, decide_eq_true_eq, not_and]
    omega
  have hid : ¬ mlfqDsqId .q3 (m.nrCpuIds - 1 : Nat) ≥ scxDsqLocalOn :=
    mlfqDsqId_not_local (by simp only [mlfqMaxCpus] at hmax; omega)
  simp only [mlfqInit, if_neg (Nat.not_lt.mpr hmax), if_neg (Nat.ne_of_gt hpos), hfind,
    if_neg hquota]
  rw [if_neg (by rw [hrod]; exact htree), if_neg hid]

end ScxMlfq
