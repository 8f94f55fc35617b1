import ScxMlfq.Bpf.Enqueue

/-!
# Bpf — Settle

What the first half of `mlfq_enqueue` leaves of the task: the exhaustion
counter, the stay clock and the queue, for every kind of enqueue.
-/

namespace ScxMlfq

/-- The task between the `SCHED_IDLE` pin and the stay bookkeeping. -/
def classified (m : Machine) (p : TaskStruct) (flags : EnqFlags) (tctx : TaskCtx)
    (now : U64) : TaskCtx :=
  mlfqApplySchedIdle p (enqueueClassify m p flags tctx now).1

/-- The task between the stay bookkeeping and the aging test. -/
def stayed (m : Machine) (p : TaskStruct) (flags : EnqFlags) (tctx : TaskCtx)
    (now : U64) : TaskCtx :=
  stayBookkeeping tctx.queue flags (classified m p flags tctx now) now

theorem settleQueue_eq (m : Machine) (p : TaskStruct) (flags : EnqFlags) (t : TaskCtx)
    (now : U64) :
    (settleQueue m p flags t now).1 = (age m.rod p (stayed m p flags t now) now).1 := rfl

theorem isZero_wakeup {flags : EnqFlags} (h : flags.isZero = true) :
    flags.wakeup = false := by
  rw [EnqFlags.isZero, decide_eq_true_eq] at h
  rw [h]

/-! ## The steps, one by one -/

theorem age_due {rod : Rodata} {p : TaskStruct} {t : TaskCtx} {now : U64}
    (h : agingDue rod p t now = true) :
    (age rod p t now).1 = { t with queue := .q1, reenqCnt := 0 } := by
  rw [age, if_pos h]

theorem age_not_due {rod : Rodata} {p : TaskStruct} {t : TaskCtx} {now : U64}
    (h : agingDue rod p t now = false) : (age rod p t now).1 = t := by
  rw [age, h]
  rfl

theorem mlfqApplySchedIdle_frame (p : TaskStruct) (t : TaskCtx) :
    ∃ q, mlfqApplySchedIdle p t = { t with queue := q } := by
  rw [mlfqApplySchedIdle]
  split
  · exact ⟨_, rfl⟩
  · exact ⟨t.queue, rfl⟩

@[simp] theorem mlfqApplySchedIdle_of_policy {p : TaskStruct} (h : schedIdle p = false)
    (t : TaskCtx) : mlfqApplySchedIdle p t = t := by
  rw [mlfqApplySchedIdle, h]
  rfl

/-- The stay bookkeeping moves the stay clock and the counter only. -/
theorem stayBookkeeping_frame (q : Queue) (flags : EnqFlags) (t : TaskCtx) (now : U64) :
    ∃ at_ cnt, stayBookkeeping q flags t now
      = { t with queuedAt := at_, reenqCnt := cnt } := by
  rw [stayBookkeeping]
  split
  · exact ⟨_, _, rfl⟩
  · split
    · exact ⟨_, t.reenqCnt, rfl⟩
    · exact ⟨t.queuedAt, t.reenqCnt, rfl⟩

theorem stayBookkeeping_reenqCnt (q : Queue) (flags : EnqFlags) (t : TaskCtx)
    (now : U64) :
    (stayBookkeeping q flags t now).reenqCnt
      = if t.queue ≠ q then 0 else t.reenqCnt := by
  rw [stayBookkeeping]
  split
  · rfl
  · split <;> rfl

/-- The counter after the classification: cleared by every enqueue that
is not a run-out. -/
theorem enqueueClassify_reenqCnt {m : Machine} {p : TaskStruct} {flags : EnqFlags}
    (h : flags.isZero = false) (t : TaskCtx) (now : U64) :
    (enqueueClassify m p flags t now).1.reenqCnt = 0 := by
  rw [enqueueClassify, h]
  split
  · obtain ⟨q, w, b, hr⟩ := mlfqWakeupClassify_frame m p t now
    rw [hr, wakeupCaptured, capture_frame]
    rfl
  · rfl

theorem enqueueClassify_runout {flags : EnqFlags} (h : flags.isZero = true)
    (m : Machine) (p : TaskStruct) (t : TaskCtx) (now : U64) :
    (enqueueClassify m p flags t now).1 = (mlfqRunoutClassify m p t).1 := by
  rw [enqueueClassify, isZero_wakeup h, h]
  rfl

/-! ## The exhaustion counter -/

/-- Whether an enqueue clears the exhaustion counter: every enqueue but
a run-out that keeps the task in its queue and does not age. -/
def enqueueClears (m : Machine) (p : TaskStruct) (flags : EnqFlags) (tctx : TaskCtx)
    (now : U64) : Bool :=
  !flags.isZero || decide ((classified m p flags tctx now).queue ≠ tctx.queue)
    || agingDue m.rod p (stayed m p flags tctx now) now

theorem isZero_of_not_clears {m : Machine} {p : TaskStruct} {flags : EnqFlags} {t : TaskCtx}
    {now : U64} (h : enqueueClears m p flags t now = false) : flags.isZero = true := by
  rw [enqueueClears, Bool.or_eq_false_iff, Bool.or_eq_false_iff, Bool.not_eq_false'] at h
  exact h.1.1

/-- A run-out that is not cleared counts. A demotion clears, because it
changes the queue whatever the policy. -/
theorem runout_classified_reenqCnt {m : Machine} {p : TaskStruct} {flags : EnqFlags}
    {t : TaskCtx} {now : U64} (h : flags.isZero = true)
    (hq : (classified m p flags t now).queue = t.queue) :
    (classified m p flags t now).reenqCnt = t.reenqCnt + 1 := by
  obtain ⟨q, hidle⟩ := mlfqApplySchedIdle_frame p (enqueueClassify m p flags t now).1
  have hcnt : (classified m p flags t now).reenqCnt
      = (mlfqRunoutClassify m p t).1.reenqCnt := by
    rw [classified, hidle, ← enqueueClassify_runout h m p t now]
  rcases mlfqRunoutClassify_cases m p t with ⟨-, hr⟩ | ⟨-, ⟨hne, -⟩, hr⟩ | ⟨-, -, hr⟩
  · rw [hcnt, hr]
  · have hnext : (mlfqRunoutClassify m p t).1.queue = t.queue.next := by rw [hr]
    rw [classified, mlfqApplySchedIdle, enqueueClassify_runout h] at hq
    split at hq
    · exact absurd hq.symm hne
    · rw [hnext] at hq
      exact absurd hq (Queue.next_ne hne)
  · rw [hcnt, hr]

/-- **One enqueue moves the counter by the rule of its kind.** -/
theorem settleQueue_reenqCnt (m : Machine) (p : TaskStruct) (flags : EnqFlags)
    (t : TaskCtx) (now : U64) :
    (settleQueue m p flags t now).1.reenqCnt
      = if enqueueClears m p flags t now then 0 else t.reenqCnt + 1 := by
  rw [settleQueue_eq, enqueueClears]
  cases hage : agingDue m.rod p (stayed m p flags t now) now with
  | true => simp [age_due hage]
  | false =>
      rw [age_not_due hage, stayed, stayBookkeeping_reenqCnt]
      by_cases hq : (classified m p flags t now).queue = t.queue
      · cases hz : flags.isZero with
        | true => simp [hq, runout_classified_reenqCnt hz hq]
        | false =>
            obtain ⟨q, hidle⟩ :=
              mlfqApplySchedIdle_frame p (enqueueClassify m p flags t now).1
            have hcnt : (classified m p flags t now).reenqCnt = 0 := by
              rw [classified, hidle, ← enqueueClassify_reenqCnt hz t now]
            simp [hq, hcnt]
      · simp [hq]

/-! ## The stay clock -/

/-- The fields the classifications write: the queue and its hysteresis,
the gauge and the sleep stamp, and the pending sample. -/
theorem enqueueClassify_frame (m : Machine) (p : TaskStruct) (flags : EnqFlags)
    (t : TaskCtx) (now : U64) :
    ∃ q w n b ema at_ feats pq pv, (enqueueClassify m p flags t now).1
      = { t with
          queue := q, wakeCnt := w, reenqCnt := n, lastSsBoostAt := b
          ema := ema, lastSleepAt := at_
          pendingFeats := feats, pendingQueue := pq, pendingValid := pv } := by
  rw [enqueueClassify]
  split
  · obtain ⟨q, w, b, hr⟩ := mlfqWakeupClassify_frame m p t now
    rw [hr, wakeupCaptured, capture_frame]
    exact ⟨q, w, _, b, _, _, _, _, _, rfl⟩
  · split
    · rcases mlfqRunoutClassify_cases m p t with ⟨-, hr⟩ | ⟨-, -, hr⟩ | ⟨-, -, hr⟩
      all_goals
        rw [hr, capture_frame]
        exact ⟨_, _, _, t.lastSsBoostAt, t.ema, t.lastSleepAt, _, _, _, rfl⟩
    · exact ⟨t.queue, _, _, t.lastSsBoostAt, t.ema, t.lastSleepAt, t.pendingFeats,
        t.pendingQueue, t.pendingValid, rfl⟩

/-- No classification touches the stay clock. -/
theorem enqueueClassify_queuedAt (m : Machine) (p : TaskStruct) (flags : EnqFlags)
    (t : TaskCtx) (now : U64) :
    (enqueueClassify m p flags t now).1.queuedAt = t.queuedAt := by
  obtain ⟨q, w, n, b, ema, at_, feats, pq, pv, h⟩ := enqueueClassify_frame m p flags t now
  rw [h]

theorem classified_queuedAt (m : Machine) (p : TaskStruct) (flags : EnqFlags)
    (t : TaskCtx) (now : U64) : (classified m p flags t now).queuedAt = t.queuedAt := by
  obtain ⟨q, h⟩ := mlfqApplySchedIdle_frame p (enqueueClassify m p flags t now).1
  rw [classified, h, ← enqueueClassify_queuedAt m p flags t now]

@[simp] theorem stayed_queue (m : Machine) (p : TaskStruct) (flags : EnqFlags)
    (t : TaskCtx) (now : U64) :
    (stayed m p flags t now).queue = (classified m p flags t now).queue := by
  obtain ⟨at_, cnt, h⟩ :=
    stayBookkeeping_frame t.queue flags (classified m p flags t now) now
  rw [stayed, h]

/-- The enqueues that write the stay clock. -/
def arms (m : Machine) (p : TaskStruct) (flags : EnqFlags) (tctx : TaskCtx) (now : U64) :
    Bool :=
  flags.wakeup || flags.isZero
    || decide ((classified m p flags tctx now).queue ≠ tctx.queue)

theorem arms_runout {flags : EnqFlags} (h : flags.isZero = true) (m : Machine)
    (p : TaskStruct) (t : TaskCtx) (now : U64) : arms m p flags t now = true := by
  simp [arms, h]

/-- **The stay clock after an enqueue**: stamped by the enqueues that
write it, kept by the others. The aging test does not touch it. -/
theorem settleQueue_queuedAt (m : Machine) (p : TaskStruct) (flags : EnqFlags)
    (t : TaskCtx) (now : U64) :
    (settleQueue m p flags t now).1.queuedAt
      = if arms m p flags t now then stayStamp (classified m p flags t now).queue now
        else t.queuedAt := by
  have hage : (settleQueue m p flags t now).1.queuedAt
      = (stayed m p flags t now).queuedAt := by
    rw [settleQueue_eq, age]
    split <;> rfl
  rw [hage, stayed, stayBookkeeping, arms]
  by_cases hq : (classified m p flags t now).queue = t.queue
  · by_cases hk : flags.wakeup = true ∨ flags.isZero = true
    · rw [if_neg (not_not.mpr hq), if_pos hk, if_pos (by rcases hk with h | h <;> simp [h])]
    · rw [if_neg (not_not.mpr hq), if_neg hk, classified_queuedAt, if_neg]
      simpa [hq] using hk
  · rw [if_pos hq, if_pos (by simp [hq])]

/-- A neutral enqueue of a task that is not `SCHED_IDLE` classifies
nothing. -/
theorem classified_neutral {m : Machine} {p : TaskStruct} {flags : EnqFlags}
    (hw : flags.wakeup = false) (hz : flags.isZero = false) (hp : schedIdle p = false)
    (t : TaskCtx) (now : U64) : (classified m p flags t now).queue = t.queue := by
  rw [classified, mlfqApplySchedIdle_of_policy hp, enqueueClassify, hw, hz]
  rfl

theorem classified_of_not_arms {m : Machine} {p : TaskStruct} {flags : EnqFlags} {t : TaskCtx}
    {now : U64} (h : arms m p flags t now = false) :
    (classified m p flags t now).queue = t.queue := by
  simp only [arms, Bool.or_eq_false_iff, decide_eq_false_iff_not, not_not] at h
  exact h.2

/-- The enqueues that leave the stay clock alone. -/
theorem arms_eq_false_iff {m : Machine} {p : TaskStruct} {flags : EnqFlags} {t : TaskCtx}
    {now : U64} :
    arms m p flags t now = false
      ↔ flags.wakeup = false ∧ flags.isZero = false ∧ (schedIdle p = true → t.queue = .q3) := by
  cases hw : flags.wakeup with
  | true => simp [arms, hw]
  | false =>
      cases hz : flags.isZero with
      | true => simp [arms, hz]
      | false =>
          cases hidle : schedIdle p with
          | false => simp [arms, hw, hz, classified_neutral hw hz hidle]
          | true =>
              have hcls : (classified m p flags t now).queue = .q3 := by
                rw [classified, mlfqApplySchedIdle, if_pos hidle]
              simp [arms, hw, hz, hcls, @eq_comm _ Queue.q3]

theorem arms_neutral {p : TaskStruct} {flags : EnqFlags} (hw : flags.wakeup = false)
    (hz : flags.isZero = false) (hp : schedIdle p = false) (m : Machine) (t : TaskCtx)
    (now : U64) : arms m p flags t now = false := by
  refine arms_eq_false_iff.mpr ⟨hw, hz, fun hidle => ?_⟩
  rw [hp] at hidle
  cases hidle

theorem settleQueue_queue_of_due {m : Machine} {p : TaskStruct} {flags : EnqFlags}
    {t : TaskCtx} {now : U64}
    (h : agingDue m.rod p (stayed m p flags t now) now = true) :
    (settleQueue m p flags t now).1.queue = .q1 := by
  rw [settleQueue_eq, age_due h]

theorem settleQueue_queue_of_not_due {m : Machine} {p : TaskStruct} {flags : EnqFlags}
    {t : TaskCtx} {now : U64}
    (h : agingDue m.rod p (stayed m p flags t now) now = false) :
    (settleQueue m p flags t now).1.queue = (classified m p flags t now).queue := by
  rw [settleQueue_eq, age_not_due h, stayed_queue]

/-- The stay clock the aging test reads is the one the enqueue leaves. -/
theorem stayed_queuedAt (m : Machine) (p : TaskStruct) (flags : EnqFlags) (t : TaskCtx)
    (now : U64) :
    (stayed m p flags t now).queuedAt = (settleQueue m p flags t now).1.queuedAt := by
  rw [settleQueue_eq, age]
  split <;> rfl

/-! ## The gauge and the sleep stamp -/

/-- The bookkeeping and the aging leave the gauge, the sleep stamp and
the pending features to the classification. -/
theorem settleQueue_frame (m : Machine) (p : TaskStruct) (flags : EnqFlags) (t : TaskCtx)
    (now : U64) :
    ∃ q at_ cnt, (settleQueue m p flags t now).1
      = { (enqueueClassify m p flags t now).1 with
          queue := q, queuedAt := at_, reenqCnt := cnt } := by
  obtain ⟨q, hidle⟩ := mlfqApplySchedIdle_frame p (enqueueClassify m p flags t now).1
  obtain ⟨at_, cnt, hstay⟩ := stayBookkeeping_frame t.queue flags
    (mlfqApplySchedIdle p (enqueueClassify m p flags t now).1) now
  cases hage : agingDue m.rod p (stayed m p flags t now) now with
  | true =>
      refine ⟨.q1, at_, 0, ?_⟩
      rw [settleQueue_eq, age_due hage, stayed, classified, hstay, hidle]
  | false =>
      refine ⟨q, at_, cnt, ?_⟩
      rw [settleQueue_eq, age_not_due hage, stayed, classified, hstay, hidle]

/-- **A wakeup charges the sleep and consumes its stamp.** -/
theorem settleQueue_wakeup {m : Machine} {p : TaskStruct} {flags : EnqFlags}
    (h : flags.wakeup = true) (t : TaskCtx) (now : U64) :
    (settleQueue m p flags t now).1.ema = (chargeSleep m.rod t now).ema
      ∧ (settleQueue m p flags t now).1.lastSleepAt = 0 := by
  obtain ⟨q, at_, cnt, hset⟩ := settleQueue_frame m p flags t now
  obtain ⟨q', w, b, hwake⟩ := mlfqWakeupClassify_frame m p t now
  have hcls : (enqueueClassify m p flags t now).1 = (mlfqWakeupClassify m p t now).1 := by
    rw [enqueueClassify, if_pos h]
  rw [hset, hcls, hwake, wakeupCaptured, capture_frame]
  exact ⟨rfl, rfl⟩

/-- Every other enqueue leaves the gauge and the stamp. -/
theorem settleQueue_not_wakeup {m : Machine} {p : TaskStruct} {flags : EnqFlags}
    (h : flags.wakeup = false) (t : TaskCtx) (now : U64) :
    (settleQueue m p flags t now).1.ema = t.ema
      ∧ (settleQueue m p flags t now).1.lastSleepAt = t.lastSleepAt := by
  obtain ⟨q, at_, cnt, hset⟩ := settleQueue_frame m p flags t now
  have hcap : (capture p t 0 false).ema = t.ema
      ∧ (capture p t 0 false).lastSleepAt = t.lastSleepAt := by
    rw [capture_frame]
    exact ⟨rfl, rfl⟩
  rw [hset, enqueueClassify, h]
  cases flags.isZero with
  | true =>
      rcases mlfqRunoutClassify_cases m p t with ⟨-, hr⟩ | ⟨-, -, hr⟩ | ⟨-, -, hr⟩
      all_goals
        simp only [Bool.false_eq_true, if_false, if_true, hr]
        exact hcap
  | false => exact ⟨rfl, rfl⟩

/-- A `SCHED_IDLE` task keeps the vector of its last capture. -/
theorem capture_pendingFeats {p : TaskStruct} (h : schedIdle p = true) (t : TaskCtx)
    (s : U64) (io : Bool) : (capture p t s io).pendingFeats = t.pendingFeats := by
  rw [capture, if_pos h]

/-- **The pending vector outlives every enqueue that captures nothing**:
those of a `SCHED_IDLE` task, and those that are neither a wakeup nor a
run-out. -/
theorem settleQueue_pendingFeats (m : Machine) {p : TaskStruct} (flags : EnqFlags)
    (h : schedIdle p = true ∨ (flags.wakeup = false ∧ flags.isZero = false))
    (t : TaskCtx) (now : U64) :
    (settleQueue m p flags t now).1.pendingFeats = t.pendingFeats := by
  obtain ⟨q, at_, cnt, hset⟩ := settleQueue_frame m p flags t now
  have hcls : (settleQueue m p flags t now).1.pendingFeats
      = (enqueueClassify m p flags t now).1.pendingFeats := by rw [hset]
  rw [hcls, enqueueClassify]
  rcases h with hidle | ⟨hw, hz⟩
  · split
    · obtain ⟨q', w, b, hwake⟩ := mlfqWakeupClassify_frame m p t now
      rw [hwake]
      exact capture_pendingFeats hidle ..
    · split
      · rcases mlfqRunoutClassify_cases m p t with ⟨-, hr⟩ | ⟨-, -, hr⟩ | ⟨-, -, hr⟩
        all_goals
          rw [hr]
          exact capture_pendingFeats hidle ..
      · rfl
  · rw [hw, hz]
    rfl

/-- The sleep the pending vector holds after an enqueue: a wakeup captures
the one it ends, a run-out none, and everything else keeps the vector. -/
theorem settleQueue_sleepNs (m : Machine) (p : TaskStruct) (flags : EnqFlags) (t : TaskCtx)
    (now : U64) :
    (settleQueue m p flags t now).1.pendingFeats.sleepNs
      = if schedIdle p then t.pendingFeats.sleepNs
        else if flags.wakeup then wakeupSleepNs t now
        else if flags.isZero then 0
        else t.pendingFeats.sleepNs := by
  by_cases hidle : schedIdle p = true
  · rw [if_pos hidle, settleQueue_pendingFeats m flags (.inl hidle)]
  rw [if_neg hidle]
  obtain ⟨q, at_, cnt, hset⟩ := settleQueue_frame m p flags t now
  have hcls : (settleQueue m p flags t now).1.pendingFeats
      = (enqueueClassify m p flags t now).1.pendingFeats := by rw [hset]
  by_cases hw : flags.wakeup = true
  · obtain ⟨q', w, b, hwake⟩ := mlfqWakeupClassify_frame m p t now
    rw [if_pos hw, hcls, enqueueClassify, if_pos hw, hwake, wakeupCaptured, capture,
      if_neg hidle]
    rfl
  rw [if_neg hw]
  by_cases hz : flags.isZero = true
  · rw [if_pos hz, hcls, enqueueClassify, if_neg hw, if_pos hz]
    rcases mlfqRunoutClassify_cases m p t with ⟨-, hr⟩ | ⟨-, -, hr⟩ | ⟨-, -, hr⟩
    all_goals
      rw [hr, capture, if_neg hidle]
      rfl
  · rw [if_neg hz, settleQueue_pendingFeats m flags (.inr ⟨?_, ?_⟩)]
    · exact Bool.not_eq_true _ ▸ hw
    · exact Bool.not_eq_true _ ▸ hz

/-- No enqueue touches the cadence gauges. -/
theorem settleQueue_cadence (m : Machine) (p : TaskStruct) (flags : EnqFlags) (t : TaskCtx)
    (now : U64) :
    (settleQueue m p flags t now).1.sleepMeanEma = t.sleepMeanEma
      ∧ (settleQueue m p flags t now).1.sleepVarEma = t.sleepVarEma := by
  obtain ⟨q, at_, cnt, hset⟩ := settleQueue_frame m p flags t now
  obtain ⟨q', w, n, b, ema, st, feats, pq, pv, h⟩ := enqueueClassify_frame m p flags t now
  rw [hset, h]
  exact ⟨rfl, rfl⟩

/-- Settling the queue places nothing. -/
theorem settleQueue_vruntime (m : Machine) (p : TaskStruct) (flags : EnqFlags)
    (t : TaskCtx) (now : U64) :
    (settleQueue m p flags t now).1.vruntime = t.vruntime := by
  obtain ⟨q, at_, cnt, hset⟩ := settleQueue_frame m p flags t now
  obtain ⟨q', w, n, b, ema, st, feats, pq, pv, h⟩ := enqueueClassify_frame m p flags t now
  rw [hset, h]

end ScxMlfq
