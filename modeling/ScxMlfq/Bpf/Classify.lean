import ScxMlfq.Bpf.Machine

/-!
# Bpf — Classify

`src/bpf/classify.bpf.c`: the wakeup classification and the run-out
classification. Each rule that may rewrite the queue is a definition of
its own, in the order the source applies them, and each comes with the
one lemma that says what it can do to the queue.
-/

namespace ScxMlfq

/-- `mlfq_demotion_blocked`, with the `uclamp_min` guard compiled out. -/
def mlfqDemotionBlocked (_p : TaskStruct) : Bool := false

/-- `mlfq_task_io_wait`. -/
def mlfqTaskIoWait (p : TaskStruct) : Bool := p.inIowait

/-- `p->policy == MLFQ_SCHED_IDLE`. -/
def schedIdle (p : TaskStruct) : Bool := decide (p.policy = mlfqSchedIdle)

/-- `mlfq_apply_sched_idle`. -/
def mlfqApplySchedIdle (p : TaskStruct) (tctx : TaskCtx) : TaskCtx :=
  if schedIdle p then { tctx with queue := .q3 } else tctx

/-- `mlfq_ema_climb_task`. -/
def mlfqEmaClimbTask (rod : Rodata) (tctx : TaskCtx) (deltaNs : U64) : TaskCtx :=
  { tctx with ema := mlfqEmaClimb tctx.ema deltaNs rod.budgetMaxNs rod.alpha }

/-! ## The rules of the wakeup -/

/-- The sleep a wakeup at `now` ends: zero unless the stamp lies in the
past. -/
def wakeupSleepNs (tctx : TaskCtx) (now : U64) : U64 :=
  if tctx.lastSleepAt ≠ 0 ∧ mlfqTimeBefore tctx.lastSleepAt now
  then now - tctx.lastSleepAt else 0

/-- The decay over the sleep, which consumes the stamp. -/
def chargeSleep (rod : Rodata) (tctx : TaskCtx) (now : U64) : TaskCtx :=
  { tctx with
    ema := if tctx.lastSleepAt ≠ 0 ∧ mlfqTimeBefore tctx.lastSleepAt now
      then mlfqEmaDecay tctx.ema (now - tctx.lastSleepAt) rod.emaHalfLifeNs
      else tctx.ema
    lastSleepAt := 0
    reenqCnt := 0 }

/-- The feature vector both classifications capture. -/
def captureFeats (tctx : TaskCtx) (sleepNs : U64) (ioWait : Bool) : TreeFeats where
  prevBurstNs := tctx.prevBurstNs
  sleepNs := sleepNs
  ema := tctx.ema
  ioWait := if ioWait then 1 else 0
  wakeCnt := tctx.wakeCnt.setWidth 32
  wakeLatUs := ((tctx.lastWakeLatNs.setWidth 64) / nsecPerUsec).setWidth 32
  queueWaitUs := ((tctx.lastQWaitNs.setWidth 64) / nsecPerUsec).setWidth 32
  sqEma := tctx.sqEma
  sleepVarRatio := tctx.sleepVarRatio
  gpuSubmit := tctx.gpuSubmit

/-- The capture of the pending sample. A `SCHED_IDLE` task only drops
its pending block. -/
def capture (p : TaskStruct) (tctx : TaskCtx) (sleepNs : U64) (ioWait : Bool) :
    TaskCtx :=
  if schedIdle p then { tctx with pendingValid := 0 }
  else { tctx with
    pendingFeats := captureFeats tctx sleepNs ioWait
    pendingQueue := BitVec.ofNat 32 tctx.queue.num
    pendingValid := 1 }

/-- The inference on the captured vector. -/
def inferPred (predict : TreeFeats → U64) (p : TaskStruct) (tctx : TaskCtx) : U64 :=
  if schedIdle p then 0 else predict tctx.pendingFeats

/-- The Q3 clamp: a recent GPU submission keeps a Q3 prediction in Q2
unless the sleep or the burst speak for Q3 too. -/
def clampPred (rod : Rodata) (a : AdaptState) (tctx : TaskCtx) (sleepNs pred : U64) :
    U64 :=
  if pred ≥ a.tBndEffNs ∧ tctx.gpuSubmit > 0
      ∧ ¬ (sleepNs > rod.shortSleepNs ∨ tctx.prevBurstNs > a.tHEffNs)
  then a.tBndEffNs - 1 else pred

/-- The tree mapping, or the fallback count. -/
def mapPred (a : AdaptState) (p : TaskStruct) (pred : U64) (tctx : TaskCtx) :
    TaskCtx × List Stat :=
  if pred ≠ 0 then
    let tctx := { tctx with
      queue := mlfqTreeMapQueue pred tctx.queue a.tIntEffNs a.tBndEffNs }
    let baseQ := mlfqQueueFromEma tctx.ema a.tLEffNs a.tHEffNs
    (tctx, .treeInference :: if tctx.queue ≠ baseQ then [.treeDisagree] else [])
  else (tctx, if schedIdle p then [] else [.treeFallback])

/-- Whether the short-sleep and I/O boost fires. -/
def boostFires (rod : Rodata) (p : TaskStruct) (tctx : TaskCtx) (sleepNs : U64)
    (ioWait : Bool) (now : U64) : Bool :=
  !schedIdle p && mlfqSsBoostPending tctx sleepNs ioWait now rod.shortSleepNs
    rod.shortSleepRateLimitNs

/-- The IPC boost. -/
def boost (rod : Rodata) (p : TaskStruct) (tctx : TaskCtx) (sleepNs : U64)
    (ioWait : Bool) (now : U64) : TaskCtx × List Stat :=
  if boostFires rod p tctx sleepNs ioWait now
  then ({ tctx with queue := .q1, lastSsBoostAt := now }, [.shortSleepBoosts])
  else (tctx, [])

/-- The band-hysteresis promotion. -/
def promote (rod : Rodata) (a : AdaptState) (tctx : TaskCtx) (sleepNs : U64) :
    TaskCtx × List Stat :=
  let r := mlfqPromoteOnWakeup tctx sleepNs a.tLEffNs a.tHEffNs rod.hysteresisSleepNs
  (r.1, if r.2 then [.promotions] else [])

/-- The long-sleep remap of the untrained fallback. -/
def longSleepRemap (rod : Rodata) (a : AdaptState) (pred : U64) (tctx : TaskCtx)
    (sleepNs : U64) : TaskCtx × List Stat :=
  let baseQ := mlfqQueueFromEma tctx.ema a.tLEffNs a.tHEffNs
  if pred = 0 ∧ sleepNs > rod.longSleepNs ∧ baseQ.num < tctx.queue.num
  then ({ tctx with queue := baseQ }, [.promotions])
  else (tctx, [])

/-- The condition of the Q3 seed at the wakeup. -/
def wakeupSeed (rod : Rodata) (a : AdaptState) (tctx : TaskCtx) (sleepNs : U64)
    (ioWait : Bool) : Bool :=
  !ioWait && decide (tctx.gpuSubmit = 0) && decide (tctx.prevBurstNs > a.tHEffNs)
    && decide (sleepNs > rod.shortSleepNs)

/-- The Q3 seed at the wakeup. -/
def seedOnWakeup (rod : Rodata) (a : AdaptState) (tctx : TaskCtx) (sleepNs : U64)
    (ioWait : Bool) : TaskCtx :=
  if wakeupSeed rod a tctx sleepNs ioWait ∧ tctx.queue ≠ .q3
  then { tctx with queue := .q3 } else tctx

/-- The four rules that can only raise the task, in order. -/
def wakeupPromotions (m : Machine) (p : TaskStruct) (tctx : TaskCtx)
    (sleepNs pred now : U64) : TaskCtx × List Stat :=
  let r₁ := mapPred m.adapt p pred tctx
  let r₂ := boost m.rod p r₁.1 sleepNs (mlfqTaskIoWait p) now
  let r₃ := promote m.rod m.adapt r₂.1 sleepNs
  let r₄ := longSleepRemap m.rod m.adapt pred r₃.1 sleepNs
  (r₄.1, r₁.2 ++ r₂.2 ++ r₃.2 ++ r₄.2)

/-- `mlfq_wakeup_classify`. -/
def mlfqWakeupClassify (m : Machine) (p : TaskStruct) (tctx : TaskCtx) (now : U64) :
    TaskCtx × List Stat :=
  let sleepNs := wakeupSleepNs tctx now
  let tctx := chargeSleep m.rod tctx now
  let tctx := capture p tctx sleepNs (mlfqTaskIoWait p)
  let pred := clampPred m.rod m.adapt tctx sleepNs (inferPred m.predict p tctx)
  let r := wakeupPromotions m p tctx sleepNs pred now
  (seedOnWakeup m.rod m.adapt r.1 sleepNs (mlfqTaskIoWait p), r.2)

/-! ## The run-out -/

/-- The condition of the Q3 seed on the run-out. -/
def runoutSeed (a : AdaptState) (tctx : TaskCtx) : Bool :=
  decide (tctx.gpuSubmit = 0) && decide (tctx.prevBurstNs > a.tHEffNs)

/-- The Q3 seed on the run-out. -/
def seedOnRunout (a : AdaptState) (tctx : TaskCtx) : TaskCtx :=
  if runoutSeed a tctx ∧ tctx.queue ≠ .q3 then { tctx with queue := .q3 } else tctx

/-- The inference counters of the run-out. -/
def runoutStats (p : TaskStruct) (pred : U64) : List Stat :=
  if schedIdle p then [] else if pred ≠ 0 then [.treeInference] else [.treeFallback]

/-- `mlfq_runout_classify`. -/
def mlfqRunoutClassify (m : Machine) (p : TaskStruct) (tctx : TaskCtx) :
    TaskCtx × List Stat :=
  let tctx := capture p tctx 0 false
  let pred := inferPred m.predict p tctx
  let tctx := { tctx with wakeCnt := 0 }
  let tctx := seedOnRunout m.adapt tctx
  if mlfqDemotionBlocked p then (tctx, runoutStats p pred)
  else
    let r := mlfqDemoteOnReenq tctx m.adapt.tHEffNs m.adapt.tBndEffNs pred
    (r.1, runoutStats p pred ++ if r.2 then [.demotions] else [])

/-! ## What the rules can do to the task -/

/-- `t'` comes from `t` by raising the queue: only the queue and the two
promotion records differ. -/
structure Raised (t t' : TaskCtx) : Prop where
  le : t'.queue.num ≤ t.queue.num
  frame : t' = { t with queue := t'.queue, wakeCnt := t'.wakeCnt,
                        lastSsBoostAt := t'.lastSsBoostAt }

namespace Raised

theorem refl (t : TaskCtx) : Raised t t := ⟨Nat.le_refl _, rfl⟩

theorem trans {t u v : TaskCtx} (h : Raised t u) (k : Raised u v) : Raised t v := by
  refine ⟨Nat.le_trans k.le h.le, ?_⟩
  rw [k.frame, h.frame]

theorem gpuSubmit_eq {t t' : TaskCtx} (h : Raised t t') :
    t'.gpuSubmit = t.gpuSubmit := by
  rw [h.frame]

theorem prevBurstNs_eq {t t' : TaskCtx} (h : Raised t t') :
    t'.prevBurstNs = t.prevBurstNs := by
  rw [h.frame]

/-- Nothing is above the interactive queue. -/
theorem q1 {t t' : TaskCtx} (h : Raised t t') (hq : t.queue = .q1) :
    t'.queue = .q1 := by
  have hle := h.le
  rw [hq] at hle
  exact Queue.num_injective (Nat.le_antisymm hle t'.queue.num_pos)

end Raised

theorem mapPred_raised (a : AdaptState) (p : TaskStruct) (pred : U64) (t : TaskCtx) :
    Raised t (mapPred a p pred t).1 := by
  simp only [mapPred]
  split
  · exact ⟨mlfqTreeMapQueue_le .., rfl⟩
  · exact Raised.refl t

@[simp] theorem mapPred_lastSsBoostAt (a : AdaptState) (p : TaskStruct) (pred : U64)
    (t : TaskCtx) : (mapPred a p pred t).1.lastSsBoostAt = t.lastSsBoostAt := by
  simp only [mapPred]
  split <;> rfl

theorem boost_raised (rod : Rodata) (p : TaskStruct) (t : TaskCtx) (s : U64) (io : Bool)
    (now : U64) : Raised t (boost rod p t s io now).1 := by
  rw [boost]
  split
  · exact ⟨t.queue.num_pos, rfl⟩
  · exact Raised.refl t

theorem promote_raised (rod : Rodata) (a : AdaptState) (t : TaskCtx) (s : U64) :
    Raised t (promote rod a t s).1 := by
  refine ⟨mlfqPromoteOnWakeup_le .., ?_⟩
  simp only [promote, mlfqPromoteOnWakeup, countWake]
  split <;> split <;> (try split) <;> rfl

theorem longSleepRemap_raised (rod : Rodata) (a : AdaptState) (pred : U64) (t : TaskCtx)
    (s : U64) : Raised t (longSleepRemap rod a pred t s).1 := by
  rw [longSleepRemap]
  split
  · rename_i h
    exact ⟨Nat.le_of_lt h.2.2, rfl⟩
  · exact Raised.refl t

/-- The whole block of promotion rules raises the task or leaves it. -/
theorem wakeupPromotions_raised (m : Machine) (p : TaskStruct) (t : TaskCtx)
    (s pred now : U64) : Raised t (wakeupPromotions m p t s pred now).1 :=
  (((mapPred_raised ..).trans (boost_raised ..)).trans (promote_raised ..)).trans
    (longSleepRemap_raised ..)

/-- A boost that fires is not undone by the rules after it. -/
theorem wakeupPromotions_boost {m : Machine} {p : TaskStruct} {t : TaskCtx}
    {s now : U64} (pred : U64)
    (h : boostFires m.rod p t s (mlfqTaskIoWait p) now = true) :
    (wakeupPromotions m p t s pred now).1.queue = .q1 := by
  have hfire : boostFires m.rod p (mapPred m.adapt p pred t).1 s (mlfqTaskIoWait p) now
      = true := by
    rw [← h, boostFires, boostFires, mlfqSsBoostPending, mlfqSsBoostPending,
      mapPred_lastSsBoostAt]
  have hq : (boost m.rod p (mapPred m.adapt p pred t).1 s (mlfqTaskIoWait p) now).1.queue
      = .q1 := by
    rw [boost, if_pos hfire]
  exact ((promote_raised ..).trans (longSleepRemap_raised ..)).q1 hq

/-! ## The wakeup classification -/

/-- The task the promotion rules start from: the sleep charged and the
sample captured. -/
def wakeupCaptured (m : Machine) (p : TaskStruct) (tctx : TaskCtx) (now : U64) :
    TaskCtx :=
  capture p (chargeSleep m.rod tctx now) (wakeupSleepNs tctx now) (mlfqTaskIoWait p)

/-- The prediction the promotion rules see. -/
def wakeupPred (m : Machine) (p : TaskStruct) (tctx : TaskCtx) (now : U64) : U64 :=
  clampPred m.rod m.adapt (wakeupCaptured m p tctx now) (wakeupSleepNs tctx now)
    (inferPred m.predict p (wakeupCaptured m p tctx now))

/-- The task the seed finds. -/
def wakeupRaised (m : Machine) (p : TaskStruct) (tctx : TaskCtx) (now : U64) :
    TaskCtx × List Stat :=
  wakeupPromotions m p (wakeupCaptured m p tctx now) (wakeupSleepNs tctx now)
    (wakeupPred m p tctx now) now

theorem mlfqWakeupClassify_eq (m : Machine) (p : TaskStruct) (t : TaskCtx) (now : U64) :
    mlfqWakeupClassify m p t now
      = (seedOnWakeup m.rod m.adapt (wakeupRaised m p t now).1 (wakeupSleepNs t now)
          (mlfqTaskIoWait p), (wakeupRaised m p t now).2) := rfl

theorem capture_frame (p : TaskStruct) (t : TaskCtx) (s : U64) (io : Bool) :
    capture p t s io
      = { t with pendingFeats := (capture p t s io).pendingFeats
                 pendingQueue := (capture p t s io).pendingQueue
                 pendingValid := (capture p t s io).pendingValid } := by
  rw [capture]
  split <;> rfl

@[simp] theorem wakeupCaptured_queue (m : Machine) (p : TaskStruct) (t : TaskCtx)
    (now : U64) : (wakeupCaptured m p t now).queue = t.queue := by
  rw [wakeupCaptured, capture_frame]
  rfl

/-- The seed reads fields the earlier steps leave alone. -/
theorem wakeupSeed_raised (m : Machine) (p : TaskStruct) (t : TaskCtx) (now s : U64)
    (io : Bool) :
    wakeupSeed m.rod m.adapt (wakeupRaised m p t now).1 s io
      = wakeupSeed m.rod m.adapt t s io := by
  have hr : Raised (wakeupCaptured m p t now) (wakeupRaised m p t now).1 :=
    wakeupPromotions_raised ..
  have hc := capture_frame p (chargeSleep m.rod t now) (wakeupSleepNs t now)
    (mlfqTaskIoWait p)
  rw [wakeupSeed, wakeupSeed, hr.gpuSubmit_eq, hr.prevBurstNs_eq, wakeupCaptured, hc]
  rfl

/-- The boost reads fields the earlier steps leave alone. -/
theorem boostFires_captured (m : Machine) (p : TaskStruct) (t : TaskCtx) (now s : U64)
    (io : Bool) :
    boostFires m.rod p (wakeupCaptured m p t now) s io now
      = boostFires m.rod p t s io now := by
  rw [boostFires, boostFires, mlfqSsBoostPending, mlfqSsBoostPending, wakeupCaptured,
    capture_frame]
  rfl

/-- The seed and the boost exclude each other: the boost wants an I/O
wakeup or a short sleep, the seed neither. -/
theorem wakeupSeed_boostFires {rod : Rodata} {a : AdaptState} {p : TaskStruct}
    {t u : TaskCtx} {s now : U64} {io : Bool} (h : wakeupSeed rod a t s io = true) :
    boostFires rod p u s io now = false := by
  simp only [wakeupSeed, Bool.and_eq_true, Bool.not_eq_true', decide_eq_true_eq] at h
  obtain ⟨⟨⟨hio, -⟩, -⟩, hs⟩ := h
  have hlt : ¬ s ≤ rod.shortSleepNs := BitVec.not_le.mpr hs
  simp [boostFires, mlfqSsBoostPending, mlfqBoostEligible, hio, hlt]

/-- **The wakeup either seeds Q3 or raises the task.** Everything the
later results need of the classification's effect on the queue. -/
theorem mlfqWakeupClassify_queue_cases (m : Machine) (p : TaskStruct) (t : TaskCtx)
    (now : U64) :
    (wakeupSeed m.rod m.adapt t (wakeupSleepNs t now) (mlfqTaskIoWait p) = true
        ∧ (mlfqWakeupClassify m p t now).1.queue = .q3)
    ∨ (wakeupSeed m.rod m.adapt t (wakeupSleepNs t now) (mlfqTaskIoWait p) = false
        ∧ Raised (wakeupCaptured m p t now) (mlfqWakeupClassify m p t now).1
        ∧ (boostFires m.rod p t (wakeupSleepNs t now) (mlfqTaskIoWait p) now = true →
            (mlfqWakeupClassify m p t now).1.queue = .q1)) := by
  rw [mlfqWakeupClassify_eq, seedOnWakeup, wakeupSeed_raised]
  cases hs : wakeupSeed m.rod m.adapt t (wakeupSleepNs t now) (mlfqTaskIoWait p) with
  | true =>
    refine Or.inl ⟨rfl, ?_⟩
    by_cases hq : (wakeupRaised m p t now).1.queue = .q3
    · simp [hq]
    · simp [hq]
  | false =>
    refine Or.inr ⟨rfl, ?_, ?_⟩
    · simpa [wakeupRaised] using wakeupPromotions_raised m p (wakeupCaptured m p t now)
        (wakeupSleepNs t now) (wakeupPred m p t now) now
    · intro hb
      rw [← boostFires_captured] at hb
      simpa [wakeupRaised] using wakeupPromotions_boost (wakeupPred m p t now) hb

/-- The boost counter counts the boosts. -/
theorem shortSleepBoosts_mem_iff (m : Machine) (p : TaskStruct) (t : TaskCtx)
    (now : U64) :
    Stat.shortSleepBoosts ∈ (mlfqWakeupClassify m p t now).2
      ↔ boostFires m.rod p t (wakeupSleepNs t now) (mlfqTaskIoWait p) now = true := by
  rw [mlfqWakeupClassify_eq, ← boostFires_captured]
  have hfire : boostFires m.rod p
      (mapPred m.adapt p (wakeupPred m p t now) (wakeupCaptured m p t now)).1
      (wakeupSleepNs t now) (mlfqTaskIoWait p) now
      = boostFires m.rod p (wakeupCaptured m p t now) (wakeupSleepNs t now)
        (mlfqTaskIoWait p) now := by
    rw [boostFires, boostFires, mlfqSsBoostPending, mlfqSsBoostPending,
      mapPred_lastSsBoostAt]
  have hmap : Stat.shortSleepBoosts
      ∉ (mapPred m.adapt p (wakeupPred m p t now) (wakeupCaptured m p t now)).2 := by
    simp only [mapPred]
    split <;> (try split) <;> simp
  simp only [wakeupRaised, wakeupPromotions, List.mem_append, hmap, false_or]
  rw [boost, hfire]
  cases boostFires m.rod p (wakeupCaptured m p t now) (wakeupSleepNs t now)
      (mlfqTaskIoWait p) now with
  | true => simp
  | false =>
    simp only [promote, longSleepRemap, Bool.false_eq_true, if_false, iff_false]
    intro h
    rcases h with (h | h) | h
    · simp at h
    · split at h <;> simp at h
    · split at h <;> simp at h

/-- After the capture the wakeup moves the queue and the two promotion
records only. -/
theorem mlfqWakeupClassify_frame (m : Machine) (p : TaskStruct) (t : TaskCtx) (now : U64) :
    ∃ q w b, (mlfqWakeupClassify m p t now).1
      = { wakeupCaptured m p t now with queue := q, wakeCnt := w, lastSsBoostAt := b } := by
  have hr : Raised (wakeupCaptured m p t now) (wakeupRaised m p t now).1 :=
    wakeupPromotions_raised ..
  rw [mlfqWakeupClassify_eq]
  simp only [seedOnWakeup]
  split
  · refine ⟨.q3, (wakeupRaised m p t now).1.wakeCnt,
      (wakeupRaised m p t now).1.lastSsBoostAt, ?_⟩
    rw [hr.frame]
  · exact ⟨_, _, _, hr.frame⟩

/-- **The rules of the wakeup classification**, for every prediction.
A boost that fires leaves the task in Q1. The queue number grows only
through the Q3 seed, whose condition then holds, and is 3 whenever that
condition holds; in every other case the task does not move down, and
an I/O wakeup never does. -/
theorem mlfqWakeupClassify_rules (m : Machine) (p : TaskStruct) (t : TaskCtx)
    (now : U64) :
    let r := mlfqWakeupClassify m p t now
    let seed := p.inIowait = false ∧ t.gpuSubmit = 0 ∧ t.prevBurstNs > m.adapt.tHEffNs
      ∧ wakeupSleepNs t now > m.rod.shortSleepNs
    (Stat.shortSleepBoosts ∈ r.2 → r.1.queue = .q1)
    ∧ (t.queue.num < r.1.queue.num → seed ∧ r.1.queue = .q3)
    ∧ (seed → r.1.queue = .q3)
    ∧ (¬ seed → r.1.queue.num ≤ t.queue.num)
    ∧ (p.inIowait = true → r.1.queue.num ≤ t.queue.num) := by
  intro r seed
  have hseed : wakeupSeed m.rod m.adapt t (wakeupSleepNs t now) (mlfqTaskIoWait p) = true
      ↔ seed := by
    simp [seed, wakeupSeed, mlfqTaskIoWait, and_assoc]
  rcases mlfqWakeupClassify_queue_cases m p t now with ⟨hs, hq⟩ | ⟨hs, hr, hb⟩
  · have hseeded := hseed.mp hs
    refine ⟨?_, fun _ => ⟨hseeded, hq⟩, fun _ => hq, fun hn => absurd hseeded hn, ?_⟩
    · intro hstat
      rw [shortSleepBoosts_mem_iff, wakeupSeed_boostFires hs] at hstat
      exact absurd hstat (by decide)
    · intro hio
      exact absurd hseeded.1 (by rw [hio]; decide)
  · have hunseeded : ¬ seed := by
      rw [← hseed, hs]
      decide
    have hle : r.1.queue.num ≤ t.queue.num := by
      have h := hr.le
      rwa [wakeupCaptured_queue] at h
    refine ⟨fun hstat => hb ((shortSleepBoosts_mem_iff ..).mp hstat), ?_,
      fun h => absurd h hunseeded, fun _ => hle, fun _ => hle⟩
    intro hlt
    exact absurd hle (Nat.not_le.mpr hlt)

/-! ## The run-out classification -/

/-- **The run-out seeds Q3, demotes by one, or only counts.** The seed
comes first, and a seeded task is in Q3, where nothing demotes it. -/
theorem mlfqRunoutClassify_cases (m : Machine) (p : TaskStruct) (t : TaskCtx) :
    let cap := capture p t 0 false
    let r := (mlfqRunoutClassify m p t).1
    let seed := runoutSeed m.adapt t = true ∧ t.queue ≠ .q3
    let gate := t.queue ≠ .q3
      ∧ cpuBound t m.adapt.tHEffNs m.adapt.tBndEffNs (inferPred m.predict p cap) = true
      ∧ 8 ≤ t.reenqCnt + 1
    (seed ∧ r = { cap with wakeCnt := 0, queue := .q3, reenqCnt := t.reenqCnt + 1 })
    ∨ (¬ seed ∧ gate ∧ r = { cap with wakeCnt := 0, queue := t.queue.next, reenqCnt := 0 })
    ∨ (¬ seed ∧ ¬ gate ∧ r = { cap with wakeCnt := 0, reenqCnt := t.reenqCnt + 1 }) := by
  intro cap r seed gate
  have hcap : cap = { t with pendingFeats := cap.pendingFeats
                             pendingQueue := cap.pendingQueue
                             pendingValid := cap.pendingValid } := capture_frame ..
  have hseed : runoutSeed m.adapt { cap with wakeCnt := 0 } = runoutSeed m.adapt t := by
    rw [hcap]
    rfl
  have hbound : cpuBound { cap with wakeCnt := 0 } m.adapt.tHEffNs m.adapt.tBndEffNs
      (inferPred m.predict p cap)
      = cpuBound t m.adapt.tHEffNs m.adapt.tBndEffNs (inferPred m.predict p cap) := by
    have hema : cap.ema = t.ema := by rw [hcap]
    rw [cpuBound, cpuBound, hema]
  have hr : r = (mlfqDemoteOnReenq (seedOnRunout m.adapt { cap with wakeCnt := 0 })
      m.adapt.tHEffNs m.adapt.tBndEffNs (inferPred m.predict p cap)).1 := rfl
  have hqueue : cap.queue = t.queue := by rw [hcap]
  have hcnt : cap.reenqCnt = t.reenqCnt := by rw [hcap]
  by_cases hs : seed
  · refine Or.inl ⟨hs, ?_⟩
    rw [hr, seedOnRunout, hseed, if_pos (by rw [hqueue]; exact hs)]
    rcases mlfqDemoteOnReenq_cases { cap with wakeCnt := 0, queue := .q3 } m.adapt.tHEffNs
      m.adapt.tBndEffNs (inferPred m.predict p cap) with ⟨⟨hne, -⟩, -⟩ | ⟨-, h⟩
    · exact absurd rfl hne
    · rw [h, hcnt]
  · have hseeded : seedOnRunout m.adapt { cap with wakeCnt := 0 }
        = { cap with wakeCnt := 0 } := by
      rw [seedOnRunout, hseed, if_neg (by rw [hqueue]; exact hs)]
    rw [hr, hseeded]
    rcases mlfqDemoteOnReenq_cases { cap with wakeCnt := 0 } m.adapt.tHEffNs
      m.adapt.tBndEffNs (inferPred m.predict p cap) with ⟨hg, h⟩ | ⟨hg, h⟩
    · rw [hbound, hqueue, hcnt] at hg
      exact Or.inr (Or.inl ⟨hs, hg, by rw [h, ← hqueue]⟩)
    · rw [hbound, hqueue, hcnt] at hg
      exact Or.inr (Or.inr ⟨hs, hg, by rw [h, hcnt]⟩)

end ScxMlfq
