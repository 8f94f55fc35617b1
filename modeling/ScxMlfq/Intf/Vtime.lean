import ScxMlfq.Intf.Types
import ScxMlfq.Lib.Serial

/-!
# Intf — Vtime

The pure virtual-time arithmetic of `src/bpf/intf.h` and
`src/bpf/vtime.bpf.c`: the wrapping comparison, the weighted time scale,
the queue clock and the placement.
-/

namespace ScxMlfq

/-- `mlfq_time_before`. -/
def mlfqTimeBefore (a b : U64) : Bool := decide ((b - a).toInt > 0)

/-- The code's comparison is the wrapping order of the word clock. -/
@[simp] theorem mlfqTimeBefore_iff {a b : U64} :
    mlfqTimeBefore a b = true ↔ Serial.Before a b := by
  simp [mlfqTimeBefore, Serial.Before]

theorem mlfqTimeBefore_false_iff {a b : U64} :
    mlfqTimeBefore a b = false ↔ ¬ Serial.Before a b := by
  rw [← mlfqTimeBefore_iff, Bool.not_eq_true]

/-- `mlfq_ss_boost_allowed`. -/
def mlfqSsBoostAllowed (lastBoostAt now rateLimit : U64) : Bool :=
  if lastBoostAt = 0 then true
  else mlfqTimeBefore (lastBoostAt + rateLimit) now

/-- `mlfq_boost_eligible`. -/
def mlfqBoostEligible (sleepNs windowNs : U64) (ioWait : Bool) : Bool :=
  if ioWait then true
  else decide (sleepNs ≠ 0) && decide (sleepNs ≤ windowNs)

/-- `mlfq_ss_boost_pending`. -/
def mlfqSsBoostPending (tctx : TaskCtx) (sleepNs : U64) (ioWait : Bool)
    (now shortSleep rateLimit : U64) : Bool :=
  mlfqBoostEligible sleepNs shortSleep ioWait
    && mlfqSsBoostAllowed tctx.lastSsBoostAt now rateLimit

/-- `calc_delta_fair_bpf`. -/
def calcDeltaFairBpf (delta : U64) (weight : U32) : U64 :=
  delta * 100 / weight.setWidth 64

/-- `mlfq_lag_limit`. -/
def mlfqLagLimit (q : QueueCtx) (weight : U32) : U64 :=
  calcDeltaFairBpf (q.maxSliceNs + mlfqTickNs) weight

/-- `mlfq_queue_advance_clock`, with nothing landing between the read
and the compare-and-swap. -/
def mlfqQueueAdvanceClock (q : QueueCtx) (vruntime : U64) : QueueCtx :=
  if mlfqTimeBefore q.clock vruntime then { q with clock := vruntime } else q

/-- The unclamped lag: zero for a task ahead of the clock. -/
def clockLag (q : QueueCtx) (tctx : TaskCtx) : U64 :=
  if mlfqTimeBefore q.clock tctx.vruntime then 0 else q.clock - tctx.vruntime

/-- The clamped lag both placement functions compute. -/
def placementLag (q : QueueCtx) (tctx : TaskCtx) : U64 :=
  if clockLag q tctx > mlfqLagLimit q tctx.weight
  then mlfqLagLimit q tctx.weight else clockLag q tctx

/-- The virtual slice: a first run starts with half of it. -/
def placementVslice (q : QueueCtx) (tctx : TaskCtx) : U64 :=
  if tctx.flags.firstRun then calcDeltaFairBpf q.maxSliceNs tctx.weight / 2
  else calcDeltaFairBpf q.maxSliceNs tctx.weight

/-- `mlfq_place_entity_deadline`. -/
def mlfqPlaceEntityDeadline (q : QueueCtx) (tctx : TaskCtx) : U64 :=
  let vruntimeNew := q.clock - placementLag q tctx
  let deadline := vruntimeNew + placementVslice q tctx
  -- a deadline on the wrap point moves off the failed-placement sentinel
  if deadline = 0 then 1 else deadline

/-- `mlfq_place_entity`: the updated task; the deadline it returns is
the one it stores. -/
def mlfqPlaceEntity (q : QueueCtx) (tctx : TaskCtx) : TaskCtx :=
  let lag := placementLag q tctx
  { tctx with
    vruntime := q.clock - lag
    vlag := lag.toInt
    deadline := mlfqPlaceEntityDeadline q tctx }

/-- `mlfq_update_vruntime`. -/
def mlfqUpdateVruntime (tctx : TaskCtx) (deltaNs : U64) : TaskCtx :=
  { tctx with vruntime := tctx.vruntime + calcDeltaFairBpf deltaNs tctx.weight }

/-- `mlfq_sameq_preempt_owed`. -/
def mlfqSameqPreemptOwed (qid runningQueue : Nat)
    (wakeeDeadline runningDeadline runStartAt now minRunNs : U64) : Bool :=
  let runElapsed := if runStartAt ≠ 0 ∧ mlfqTimeBefore now runStartAt = false
    then now - runStartAt else 0
  if mlfqTimeBefore runElapsed minRunNs then false
  else if qid = 1 ∧ runningQueue = 1 then true
  else if runningDeadline = 0 ∨ wakeeDeadline = 0 then false
  else mlfqTimeBefore wakeeDeadline runningDeadline

/-- `mlfq_cpuperf_from_ema`. -/
def mlfqCpuperfFromEma (ema : U64) : U64 :=
  let perf := ema * mlfqCpuperfQ1 / mlfqBudgetMaxNs
  if perf > mlfqCpuperfQ1 then mlfqCpuperfQ1 else perf

/-! ## The clock -/

/-- The queue clock is the forward-only register of `Serial`. -/
@[simp] theorem mlfqQueueAdvanceClock_clock (q : QueueCtx) (v : U64) :
    (mlfqQueueAdvanceClock q v).clock = Serial.advance q.clock v := by
  rw [mlfqQueueAdvanceClock, Serial.advance]
  by_cases h : Serial.Before q.clock v
  · rw [if_pos (mlfqTimeBefore_iff.mpr h), if_pos h]
  · rw [if_neg (by rw [mlfqTimeBefore_iff]; exact h), if_neg h]

@[simp] theorem mlfqQueueAdvanceClock_maxSliceNs (q : QueueCtx) (v : U64) :
    (mlfqQueueAdvanceClock q v).maxSliceNs = q.maxSliceNs := by
  rw [mlfqQueueAdvanceClock]
  split <;> rfl

/-! ## The placement -/

@[simp] theorem mlfqPlaceEntity_deadline (q : QueueCtx) (t : TaskCtx) :
    (mlfqPlaceEntity q t).deadline = mlfqPlaceEntityDeadline q t := rfl

@[simp] theorem mlfqPlaceEntity_vruntime (q : QueueCtx) (t : TaskCtx) :
    (mlfqPlaceEntity q t).vruntime = q.clock - placementLag q t := rfl

theorem mlfqPlaceEntity_eq (q : QueueCtx) (t : TaskCtx) :
    mlfqPlaceEntity q t = { t with
      vruntime := q.clock - placementLag q t
      vlag := (placementLag q t).toInt
      deadline := mlfqPlaceEntityDeadline q t } := rfl

@[simp] theorem mlfqPlaceEntity_weight (q : QueueCtx) (t : TaskCtx) :
    (mlfqPlaceEntity q t).weight = t.weight := by
  rw [mlfqPlaceEntity_eq]

@[simp] theorem mlfqPlaceEntity_flags (q : QueueCtx) (t : TaskCtx) :
    (mlfqPlaceEntity q t).flags = t.flags := by
  rw [mlfqPlaceEntity_eq]

/-- A placement moves the three placement fields only. -/
theorem mlfqPlaceEntity_frame (q : QueueCtx) (t : TaskCtx) :
    ∃ v lag d, mlfqPlaceEntity q t
      = { t with vruntime := v, vlag := lag, deadline := d } :=
  ⟨_, _, _, rfl⟩

/-- A deadline is never the failed-placement sentinel. -/
theorem mlfqPlaceEntityDeadline_ne_zero (q : QueueCtx) (t : TaskCtx) :
    mlfqPlaceEntityDeadline q t ≠ 0 := by
  simp only [mlfqPlaceEntityDeadline]
  split
  · decide
  · assumption

theorem placementLag_le_limit (q : QueueCtx) (t : TaskCtx) :
    placementLag q t ≤ mlfqLagLimit q t.weight := by
  rw [placementLag]
  split <;> bv_omega

theorem placementLag_le_clockLag (q : QueueCtx) (t : TaskCtx) :
    placementLag q t ≤ clockLag q t := by
  rw [placementLag]
  split <;> bv_omega

/-- The task is never more than half of the circle behind the clock. -/
theorem clockLag_le_half (q : QueueCtx) (t : TaskCtx) :
    2 * (clockLag q t).toNat ≤ 2 ^ 64 := by
  rw [clockLag]
  split
  · decide
  · rename_i h
    rw [mlfqTimeBefore_iff, Serial.before_iff_gap, Serial.gap] at h
    bv_omega

/-- **A placed task is at or behind the clock**, whatever vruntime it
carried. -/
theorem not_before_mlfqPlaceEntity (q : QueueCtx) (t : TaskCtx) :
    ¬ Serial.Before q.clock (mlfqPlaceEntity q t).vruntime := by
  have hle := placementLag_le_clockLag q t
  have hhalf := clockLag_le_half q t
  rw [mlfqPlaceEntity_vruntime, Serial.before_iff_gap, Serial.gap]
  bv_omega

/-! ## The placement in numbers -/

theorem calcDeltaFairBpf_toNat {delta : U64} {weight : U32}
    (h : delta.toNat * 100 < 2 ^ 64) :
    (calcDeltaFairBpf delta weight).toNat = delta.toNat * 100 / weight.toNat := by
  have hmul : (delta * 100).toNat = delta.toNat * 100 := by
    rw [BitVec.toNat_mul]
    exact Nat.mod_eq_of_lt h
  have hw : (weight.setWidth 64).toNat = weight.toNat := by
    rw [BitVec.toNat_setWidth]
    exact Nat.mod_eq_of_lt (Nat.lt_trans weight.isLt (by decide))
  rw [calcDeltaFairBpf, BitVec.toNat_udiv, hmul, hw]

/-- The lag bound of a queue for a weight, as a number. -/
def QueueCtx.lagBound (q : QueueCtx) (weight : U32) : Nat :=
  (q.maxSliceNs.toNat + mlfqTickNs.toNat) * 100 / weight.toNat

/-- The virtual slice of a placement, as a number: the floor of
`S * 100 / weight`, halved on a first run. -/
def QueueCtx.fairSlice (q : QueueCtx) (t : TaskCtx) : Nat :=
  if t.flags.firstRun then q.maxSliceNs.toNat * 100 / t.weight.toNat / 2
  else q.maxSliceNs.toNat * 100 / t.weight.toNat

/-- The lag a placement law asks for: the distance behind the clock in
the wrapping order, at most the bound. -/
def QueueCtx.boundedLag (q : QueueCtx) (t : TaskCtx) : Nat :=
  if Serial.Before q.clock t.vruntime then 0
  else min (q.clock - t.vruntime).toNat (q.lagBound t.weight)

/-- The deadline a placement law asks for. -/
def QueueCtx.lawDeadline (q : QueueCtx) (t : TaskCtx) : U64 :=
  let sum := q.clock - BitVec.ofNat 64 (q.boundedLag t) + BitVec.ofNat 64 (q.fairSlice t)
  if sum = 0 then 1 else sum

section Law
variable {q : QueueCtx}

/-- A slice whose weighted request fits a signed word. -/
def QueueCtx.SliceFits (q : QueueCtx) : Prop :=
  (q.maxSliceNs.toNat + mlfqTickNs.toNat) * 100 < 2 ^ 63

theorem QueueCtx.SliceFits.request (h : q.SliceFits) :
    (q.maxSliceNs + mlfqTickNs).toNat = q.maxSliceNs.toNat + mlfqTickNs.toNat := by
  rw [SliceFits] at h
  rw [BitVec.toNat_add]
  exact Nat.mod_eq_of_lt (by omega)

theorem mlfqLagLimit_toNat (h : q.SliceFits) (weight : U32) :
    (mlfqLagLimit q weight).toNat = q.lagBound weight := by
  have hsum := h.request
  rw [QueueCtx.SliceFits] at h
  rw [mlfqLagLimit, calcDeltaFairBpf_toNat (by rw [hsum]; omega), hsum]
  rfl

theorem QueueCtx.lagBound_lt (h : q.SliceFits) (weight : U32) :
    q.lagBound weight < 2 ^ 63 := by
  rw [QueueCtx.SliceFits] at h
  exact Nat.lt_of_le_of_lt (Nat.div_le_self _ _) h

theorem placementVslice_toNat (h : q.SliceFits) (t : TaskCtx) :
    (placementVslice q t).toNat = q.fairSlice t := by
  rw [QueueCtx.SliceFits] at h
  have hcalc : (calcDeltaFairBpf q.maxSliceNs t.weight).toNat
      = q.maxSliceNs.toNat * 100 / t.weight.toNat := calcDeltaFairBpf_toNat (by omega)
  rw [placementVslice, QueueCtx.fairSlice]
  split
  · rw [BitVec.toNat_udiv, hcalc]
    rfl
  · exact hcalc

/-- The clamp of the code is the bounded lag. -/
theorem placementLag_toNat (h : q.SliceFits) (t : TaskCtx) :
    (placementLag q t).toNat = q.boundedLag t := by
  have hlim := mlfqLagLimit_toNat h t.weight
  rw [placementLag, clockLag, QueueCtx.boundedLag]
  simp only [mlfqTimeBefore_iff]
  by_cases hb : Serial.Before q.clock t.vruntime
  · rw [if_pos hb, if_pos hb, if_neg (by bv_omega)]
    rfl
  · rw [if_neg hb, if_neg hb, ← hlim]
    split
    · rename_i hgt
      have := BitVec.lt_def.mp hgt
      omega
    · rename_i hle
      have := BitVec.le_def.mp (BitVec.not_lt.mp hle)
      omega

theorem QueueCtx.boundedLag_le (q : QueueCtx) (t : TaskCtx) :
    q.boundedLag t ≤ q.lagBound t.weight := by
  rw [boundedLag]
  split
  · exact Nat.zero_le _
  · exact Nat.min_le_right _ _

theorem mlfqPlaceEntityDeadline_eq_law (h : q.SliceFits) (t : TaskCtx) :
    mlfqPlaceEntityDeadline q t = q.lawDeadline t := by
  have hlag : placementLag q t = BitVec.ofNat 64 (q.boundedLag t) := by
    rw [← placementLag_toNat h, BitVec.ofNat_toNat, BitVec.setWidth_eq]
  have hslice : placementVslice q t = BitVec.ofNat 64 (q.fairSlice t) := by
    rw [← placementVslice_toNat h, BitVec.ofNat_toNat, BitVec.setWidth_eq]
  simp only [mlfqPlaceEntityDeadline, QueueCtx.lawDeadline, hlag, hslice]

/-- The stored lag is the bounded lag as a signed number: the bound keeps
it off the sign bit. -/
theorem mlfqPlaceEntity_vlag (h : q.SliceFits) (t : TaskCtx) :
    (mlfqPlaceEntity q t).vlag = (q.boundedLag t : Int) := by
  have hlt : (placementLag q t).toNat < 2 ^ 63 := by
    rw [placementLag_toNat h]
    exact Nat.lt_of_le_of_lt (q.boundedLag_le t) (QueueCtx.lagBound_lt h _)
  show (placementLag q t).toInt = _
  rw [BitVec.toInt_eq_toNat_of_lt (by omega), placementLag_toNat h]

end Law

/-- A second placement measures the lag the first one stored. -/
theorem placementLag_mlfqPlaceEntity (q : QueueCtx) (t : TaskCtx) :
    placementLag q (mlfqPlaceEntity q t) = placementLag q t := by
  have hahead := not_before_mlfqPlaceEntity q t
  have hlag : clockLag q (mlfqPlaceEntity q t) = placementLag q t := by
    rw [clockLag, if_neg (by rw [mlfqTimeBefore_iff]; exact hahead), mlfqPlaceEntity_vruntime]
    exact sub_sub_cancel _ _
  have hle := placementLag_le_limit q t
  rw [placementLag, hlag, mlfqPlaceEntity_weight, if_neg (BitVec.not_lt.mpr hle)]

/-- **Placing again without a clock change moves nothing.** -/
theorem mlfqPlaceEntity_idem (q : QueueCtx) (t : TaskCtx) :
    mlfqPlaceEntity q (mlfqPlaceEntity q t) = mlfqPlaceEntity q t := by
  have hlag := placementLag_mlfqPlaceEntity q t
  have hdeadline : mlfqPlaceEntityDeadline q (mlfqPlaceEntity q t)
      = mlfqPlaceEntityDeadline q t := by
    have hslice : placementVslice q (mlfqPlaceEntity q t) = placementVslice q t := by
      rw [placementVslice, placementVslice, mlfqPlaceEntity_flags, mlfqPlaceEntity_weight]
    simp only [mlfqPlaceEntityDeadline, hlag, hslice]
  rw [mlfqPlaceEntity_eq q (mlfqPlaceEntity q t), hlag, hdeadline, mlfqPlaceEntity_eq q t]

/-- **The placement law.** -/
theorem placement_law (q : QueueCtx) (t : TaskCtx)
    (hslice : (q.maxSliceNs.toNat + mlfqTickNs.toNat) * 100 < 2 ^ 63) :
    mlfqPlaceEntity q t
        = { t with
            vruntime := q.clock - BitVec.ofNat 64 (q.boundedLag t)
            vlag := (q.boundedLag t : Int)
            deadline := q.lawDeadline t } ∧
      mlfqPlaceEntityDeadline q t = (mlfqPlaceEntity q t).deadline ∧
      mlfqPlaceEntity q (mlfqPlaceEntity q t) = mlfqPlaceEntity q t ∧
      0 ≤ (mlfqPlaceEntity q t).vlag ∧
      (mlfqPlaceEntity q t).vlag ≤ (q.lagBound t.weight : Int) ∧
      ¬ Serial.Before q.clock (mlfqPlaceEntity q t).vruntime := by
  have hvlag := mlfqPlaceEntity_vlag hslice t
  have hbound := q.boundedLag_le t
  refine ⟨?_, rfl, mlfqPlaceEntity_idem q t, by omega, by omega,
    not_before_mlfqPlaceEntity q t⟩
  have hlag : placementLag q t = BitVec.ofNat 64 (q.boundedLag t) := by
    rw [← placementLag_toNat hslice, BitVec.ofNat_toNat, BitVec.setWidth_eq]
  rw [← hvlag, ← hlag, ← mlfqPlaceEntityDeadline_eq_law hslice]
  rfl

/-- A task half of the circle behind the clock, at the clamp. -/
theorem placement_law_half :
    (mlfqPlaceEntity { clock := 5, maxSliceNs := 2000000 }
        { vruntime := 0x8000000000000005, weight := 50 }).vlag = 6000000 := by
  have h := placement_law { clock := 5, maxSliceNs := 2000000 }
    { vruntime := 0x8000000000000005, weight := 50 } (by decide)
  rw [h.1]
  decide

end ScxMlfq
