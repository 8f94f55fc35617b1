import ScxMlfq.Bpf.Classify

/-!
# Bpf — Lifecycle

`src/bpf/lifecycle.bpf.c` and the GPU tracepoint of `main.bpf.c`: the
reset of a task context, the two ends of a run segment, the release of
the runnable ownership and the idle transitions.

The adaptation step at the head of `mlfq_stopping` runs on the system
gauges alone, before any state of the task is touched, and is not part
of the function modelled here.
-/

namespace ScxMlfq

/-! ## The sleep cadence -/

/-- The variance ratio of the two cadence gauges, saturated. -/
def sleepVarRatioOf (mean var : U64) : U32 :=
  if mean > 0 then
    let mean2 := mean * mean
    if mean2 ≠ 0 then
      let ratio := var * fpOne / mean2
      (if ratio > 1024 then 1024 else ratio).setWidth 32
    else 0
  else 0

/-- The gauges after the decay of a long idle. -/
def decayCadence (tctx : TaskCtx) (sleepNs : U64) : TaskCtx :=
  let mean := mlfqEmaDecay tctx.sleepMeanEma sleepNs mlfqEmaHalfLifeNs
  let var := mlfqEmaDecay tctx.sleepVarEma sleepNs mlfqEmaHalfLifeNs
  { tctx with
    sleepMeanEma := mean
    sleepVarEma := if mean = 0 then 0 else var
    gpuSubmit := if tctx.gpuSubmit ≠ 0 then tctx.gpuSubmit - 1 else 0 }

/-- The gauges after one sleep of the window. -/
def averageCadence (tctx : TaskCtx) (sleepNs : U64) : TaskCtx :=
  let oldMean := tctx.sleepMeanEma
  let sdiff := sleepNs - oldMean
  let diff := if sdiff.toInt < 0 then -sdiff else sdiff
  let diff2 := diff * diff
  { tctx with
    sleepMeanEma := (oldMean * 248 + sleepNs * 8) / 256
    sleepVarEma := (tctx.sleepVarEma * 248 + diff2 * 8) / 256 }

/-- The window of the update: 64 ms. -/
def cadenceClamp (sleepNs : U64) : U64 :=
  if sleepNs > 64 * nsecPerMsec then 64 * nsecPerMsec else sleepNs

/-- The update of the two gauges. -/
def cadenceStep (tctx : TaskCtx) (sleepNs : U64) : TaskCtx :=
  if sleepNs > mlfqLongSleepNs then decayCadence tctx sleepNs
  else averageCadence tctx sleepNs

/-- `mlfq_sleep_ema_update`. -/
def mlfqSleepEmaUpdate (tctx : TaskCtx) (sleepNs : U64) : TaskCtx :=
  let tctx := cadenceStep tctx (cadenceClamp sleepNs)
  { tctx with sleepVarRatio := sleepVarRatioOf tctx.sleepMeanEma tctx.sleepVarEma }

theorem cadenceStep_frame (t : TaskCtx) (s : U64) :
    ∃ mean var gpu, cadenceStep t s
      = { t with sleepMeanEma := mean, sleepVarEma := var, gpuSubmit := gpu } := by
  rw [cadenceStep]
  split
  · exact ⟨_, _, _, rfl⟩
  · exact ⟨_, _, t.gpuSubmit, rfl⟩

/-- The update moves the cadence block only. -/
theorem mlfqSleepEmaUpdate_frame (t : TaskCtx) (s : U64) :
    ∃ mean var ratio gpu, mlfqSleepEmaUpdate t s
      = { t with sleepMeanEma := mean, sleepVarEma := var, sleepVarRatio := ratio,
                 gpuSubmit := gpu } := by
  obtain ⟨mean, var, gpu, h⟩ := cadenceStep_frame t (cadenceClamp s)
  refine ⟨mean, var, sleepVarRatioOf mean var, gpu, ?_⟩
  rw [mlfqSleepEmaUpdate, h]

/-! ## The reset -/

/-- `mlfq_reset_task_ctx`. The pending block, the previous burst and the
sample spacing are not in the list of fields it writes. -/
def mlfqResetTaskCtx (tctx : TaskCtx) (p : TaskStruct) (now : U64) : TaskCtx :=
  mlfqResetClassification { tctx with
    vruntime := 0
    vlag := 0
    deadline := 0
    lastRunAt := 0
    lastSleepAt := if p.running then 0 else now
    queuedAt := 0
    weight := if p.weight = 0 then 1 else p.weight
    flags := { firstRun := true }
    wakeCpuState := {}
    sleepMeanEma := 0
    sleepVarEma := 0
    sleepVarRatio := 0
    gpuSubmit := 0
    lastGpuSubmitAt := 0
    lastLlc := mlfqLlcUnowned
    lastQid := 0
    enqAt := 0
    lastWakeLatNs := 0
    lastQWaitNs := 0
    sqEma := 0 }

def eNoMem : Int := -12

/-- `mlfq_init_task`; `alloc` is what `mlfq_alloc_task_ctx` returns. -/
def mlfqInitTask (alloc : Option TaskCtx) (p : TaskStruct) (now : U64) :
    Except Int TaskCtx :=
  match alloc with
  | none => .error eNoMem
  | some tctx => .ok (mlfqResetTaskCtx tctx p now)

/-- `mlfq_enable`. -/
def mlfqEnable (tctx : Option TaskCtx) (p : TaskStruct) (now : U64) : Option TaskCtx :=
  tctx.map fun tctx => mlfqResetTaskCtx tctx p now

/-! ## The start of a run segment -/

/-- The enqueue-to-run measurement at the first run of an episode. -/
def measureWait (rod : Rodata) (tctx : TaskCtx) (now : U64) : TaskCtx × Option U64 :=
  if tctx.enqAt ≠ 0 ∧ mlfqTimeBefore now tctx.enqAt = false then
    let wait := now - tctx.enqAt
    let wait := if wait > 0xFFFFFFFF then 0xFFFFFFFF else wait
    let tctx := { tctx with lastQWaitNs := wait.setWidth 32 }
    if tctx.flags.enqWakeup then
      ({ tctx with lastWakeLatNs := wait.setWidth 32
                   sqEma := mlfqEmaClimb tctx.sqEma wait mlfqSqEmaMaxNs rod.alpha },
        some wait)
    else (tctx, none)
  else (tctx, none)

/-- The machine after a wakeup wait was added to the system gauge. -/
def Machine.addWait (m : Machine) : Option U64 → Machine
  | none => m
  | some wait => { m with sysWaitTotal := m.sysWaitTotal + wait
                          sysWaitCount := m.sysWaitCount + 1 }

/-- The running-task record of the CPU. -/
def recordRunning (p : TaskStruct) (tctx : TaskCtx) (now : U64) (c : CpuState) : CpuState :=
  { c with
    runningQueue := tctx.queue.num
    runningPid := p.pid
    runningDeadline := tctx.deadline
    runStartAt := now
    runningGpuSubmit := tctx.gpuSubmit }

structure RunningResult where
  machine : Machine
  tctx : TaskCtx
  /-- The level of `scx_bpf_cpuperf_set`. -/
  cpuperf : Option U64
  stats : List Stat

/-- The ownership acquisition of a global-parked task. -/
def acquireOnRunning (m : Machine) (tctx : TaskCtx) : Gauges × TaskCtx :=
  if tctx.lastLlc = mlfqLlcUnowned
  then mlfqRunnableEnter m.gauges tctx tctx.queue (m.llcOfCpu m.cpu)
  else (m.gauges, tctx)

/-- The task at the start of a segment, and the wait to add to the
system gauge. -/
def startSegment (m : Machine) (tctx : TaskCtx) (now : U64) : TaskCtx × Option U64 :=
  let owned := (acquireOnRunning m tctx).2
  let started := { owned with
    lastRunAt := now, flags := { owned.flags with firstRun := false } }
  let waited := measureWait m.rod started now
  ({ waited.1 with enqAt := 0, flags := { waited.1.flags with enqWakeup := false } },
    waited.2)

/-- The machine at the start of a segment: the running-task record, the
gauges, the occupancy slot and the wakeup wait. -/
def startMachine (m : Machine) (p : TaskStruct) (tctx : TaskCtx) (now : U64) : Machine :=
  let owned := { m.storeCpuState (recordRunning p tctx now) with
    gauges := (acquireOnRunning m tctx).1 }
  (owned.q1Set m.cpu (decide (tctx.queue = .q1))).addWait (startSegment m tctx now).2

/-- `mlfq_running`. -/
def mlfqRunning (m : Machine) (p : TaskStruct) (tctx : TaskCtx) (now : U64) :
    RunningResult where
  machine := startMachine m p tctx now
  tctx := (startSegment m tctx now).1
  cpuperf := if tctx.queue = .q1 then some mlfqCpuperfQ1
    else (m.lookupCpuState m.cpu).map fun c => mlfqCpuperfFromEma c.cpuEma
  stats := if tctx.queue = .q1 then [.cpuperfBoosts] else []

/-! ## The end of a run segment -/

/-- `struct mlfq_tree_sample`. -/
structure TreeSample where
  pid : Nat
  queue : U32
  feats : TreeFeats
  labelNs : U64
  version : U32 := mlfqTreeSampleVersion
deriving DecidableEq, Repr

/-- The length of the segment that ends now. -/
def segmentNs (tctx : TaskCtx) (now : U64) : U64 :=
  if tctx.lastRunAt ≠ 0 ∧ mlfqTimeBefore tctx.lastRunAt now
  then now - tctx.lastRunAt else 0

/-- The busy gauge of the CPU over a segment. -/
def chargeCpu (rod : Rodata) (now delta : U64) (c : CpuState) : CpuState :=
  let elapsed := if c.cpuEmaAt ≠ 0 ∧ mlfqTimeBefore c.cpuEmaAt now
    then now - c.cpuEmaAt else 0
  { c with
    cpuEma := mlfqEmaClimb (mlfqEmaDecay c.cpuEma elapsed rod.emaHalfLifeNs) delta
      rod.budgetMaxNs rod.alpha
    cpuEmaAt := now }

/-- The machine with the clock of queue `q` advanced to `vruntime`. -/
def Machine.advanceClock (m : Machine) (q : Queue) (vruntime : U64) : Machine :=
  { m with
    queues := Function.update m.queues q (mlfqQueueAdvanceClock (m.queues q) vruntime) }

/-- The charge of a segment: vruntime and gauge of the task, busy gauge
of the CPU, clock of the owning queue. -/
def chargeSegment (m : Machine) (tctx : TaskCtx) (now delta : U64) : Machine × TaskCtx :=
  let tctx := mlfqUpdateVruntime tctx delta
  let tctx := mlfqEmaClimbTask m.rod tctx delta
  let m := m.storeCpuState (chargeCpu m.rod now delta)
  let m := m.advanceClock tctx.queue tctx.vruntime
  (m, { tctx with prevBurstNs := delta })

/-- Whether the emission wins its window. -/
def sampleDue (m : Machine) (tctx : TaskCtx) (now : U64) : Bool :=
  (decide (m.sampleLastAt = 0)
      || mlfqTimeBefore (m.sampleLastAt + mlfqTreeSampleRateLimitNs) now)
    && (decide (tctx.lastSampleAt = 0)
      || mlfqTimeBefore (tctx.lastSampleAt + mlfqTreePerTaskLimitNs) now)

/-- The sample of a completed segment. -/
def sampleOf (p : TaskStruct) (tctx : TaskCtx) (delta : U64) : TreeSample where
  pid := p.pid
  queue := tctx.pendingQueue
  feats := tctx.pendingFeats
  labelNs := if delta < mlfqTreeLabelMaxNs then delta else mlfqTreeLabelMaxNs

/-- The emission of the pending sample on the blocking path. -/
def emitSample (m : Machine) (p : TaskStruct) (tctx : TaskCtx) (runnable : Bool)
    (now delta : U64) : Machine × TaskCtx × Option TreeSample × List Stat :=
  if runnable = false ∧ tctx.pendingValid ≠ 0 ∧ sampleDue m tctx now = true then
    let m := { m with sampleLastAt := now }
    if m.ringbufFull then (m, tctx, none, [.treeSamplesDropped])
    else (m, { tctx with lastSampleAt := now }, some (sampleOf p tctx delta),
      [.treeSamplesEmitted])
  else (m, tctx, none, [])

/-- The sleep a blocking stop folds: the captured one, else the time
since a stamp no wakeup has consumed. -/
def foldedSleepNs (tctx : TaskCtx) (now : U64) : U64 :=
  if tctx.pendingFeats.sleepNs ≠ 0 then tctx.pendingFeats.sleepNs
  else if tctx.lastSleepAt ≠ 0 ∧ mlfqTimeBefore tctx.lastSleepAt now
  then now - tctx.lastSleepAt else 0

/-- The cadence update of a blocking stop. -/
def foldSleep (tctx : TaskCtx) (now : U64) : TaskCtx :=
  if foldedSleepNs tctx now ≠ 0 then mlfqSleepEmaUpdate tctx (foldedSleepNs tctx now)
  else if tctx.sleepMeanEma ≠ 0 then mlfqSleepEmaUpdate tctx (mlfqLongSleepNs + 1)
  else tctx

/-- The cleared running-task record. -/
def clearRunning (c : CpuState) : CpuState :=
  { c with runningQueue := 0, runningPid := 0, runningDeadline := 0, runStartAt := 0,
           runningGpuSubmit := 0 }

structure StoppingResult where
  machine : Machine
  tctx : TaskCtx
  sample : Option TreeSample
  stats : List Stat

/-- The part of `mlfq_stopping` behind `if (delta)`. -/
def stopSegment (m : Machine) (p : TaskStruct) (tctx : TaskCtx) (runnable : Bool)
    (now : U64) : Machine × TaskCtx × Option TreeSample × List Stat :=
  let delta := segmentNs tctx now
  let tctx := { tctx with lastRunAt := 0 }
  if delta ≠ 0 then
    let r := chargeSegment m tctx now delta
    emitSample r.1 p r.2 runnable now delta
  else (m, tctx, none, [])

/-- The bookkeeping of a stop: the cadence fold and the sleep stamp when
the task blocks. -/
def stopBlock (tctx : TaskCtx) (runnable : Bool) (now : U64) : TaskCtx :=
  if runnable then { tctx with pendingValid := 0 }
  else { foldSleep tctx now with pendingValid := 0, lastSleepAt := now }

/-- `mlfq_stopping`. -/
def mlfqStopping (m : Machine) (p : TaskStruct) (tctx : TaskCtx) (runnable : Bool)
    (now : U64) : StoppingResult :=
  let r := stopSegment m p tctx runnable now
  let m := r.1.q1Set r.1.cpu false
  { machine := if runnable then m else m.storeCpuState clearRunning
    tctx := stopBlock r.2.1 runnable now
    sample := r.2.2.1
    stats := r.2.2.2 }

/-! ## The other callbacks -/

/-- `mlfq_quiescent`. -/
def mlfqQuiescent (m : Machine) (tctx : TaskCtx) : Machine × TaskCtx :=
  let r := mlfqRunnableExit m.gauges tctx
  ({ m with gauges := r.1 }, r.2)

/-- `mlfq_update_idle`. -/
def mlfqUpdateIdle (m : Machine) (cpu : Int) (idle : Bool) : Machine :=
  match m.lookupCpuState cpu with
  | none => m
  | some _ =>
      let step := fun c : U32 => if idle then c + 1 else c - 1
      let m := { m with idleCount := step m.idleCount }
      if 0 ≤ cpu ∧ cpu < mlfqMaxCpus then
        let llc := m.rod.cpuLlc cpu.toNat
        if llc < mlfqMaxLlcs ∧ llc < m.rod.nrLlcs
        then { m with llcIdle := Function.update m.llcIdle llc (step (m.llcIdle llc)) }
        else m
      else m

/-- `mlfq_gpu_submit_inc`. -/
def mlfqGpuSubmitInc (tctx : TaskCtx) (now : U64) : TaskCtx :=
  if tctx.lastGpuSubmitAt ≠ 0
      ∧ mlfqTimeBefore (tctx.lastGpuSubmitAt + mlfqTreePerTaskLimitNs) now = false
  then tctx
  else { tctx with
    lastGpuSubmitAt := now
    gpuSubmit := if tctx.gpuSubmit < 4 then tctx.gpuSubmit + 1 else 4
    flags := { tctx.flags with drmWake := true } }

/-- `mlfq_exit_task`: the slot of the task's last CPU is cleared for a
task of the first queue, and the context deleted. -/
def mlfqExitTask (m : Machine) (p : TaskStruct) (tctx : Option TaskCtx) :
    Machine × Option TaskCtx :=
  match tctx with
  | none => (m, none)
  | some tctx =>
      if tctx.queue = .q1 ∧ 0 ≤ p.cpu ∧ p.cpu < mlfqMaxCpus ∧ m.q1IsOccupied p.cpu.toNat
      then (m.q1Set p.cpu.toNat false, none)
      else (m, none)

/-- `mlfq_cpu_release`, up to the drain of the local queue, which is the
kernel's. -/
def mlfqCpuRelease (m : Machine) (cpu : Int) : Machine :=
  if 0 ≤ cpu ∧ cpu < mlfqMaxCpus then m.q1Set cpu.toNat false else m

/-- The `keep` grant of `mlfq_dispatch`, as far as the task's context
goes: only the measurement stamp is cleared. -/
def mlfqKeepRunning (tctx : TaskCtx) : TaskCtx := { tctx with enqAt := 0 }

/-! ## What the callbacks change in the task -/

theorem measureWait_frame (rod : Rodata) (t : TaskCtx) (now : U64) :
    ∃ qw wl sq, (measureWait rod t now).1
      = { t with lastQWaitNs := qw, lastWakeLatNs := wl, sqEma := sq } := by
  rw [measureWait]
  split
  · simp only
    split
    · exact ⟨_, _, _, rfl⟩
    · exact ⟨_, t.lastWakeLatNs, t.sqEma, rfl⟩
  · exact ⟨t.lastQWaitNs, t.lastWakeLatNs, t.sqEma, rfl⟩

theorem acquireOnRunning_frame (m : Machine) (t : TaskCtx) :
    ∃ llc qid, (acquireOnRunning m t).2 = { t with lastLlc := llc, lastQid := qid } := by
  rw [acquireOnRunning]
  split
  · exact mlfqRunnableEnter_task ..
  · exact ⟨t.lastLlc, t.lastQid, rfl⟩

/-- The start of a segment: the run stamp, the measurement block and the
ownership record. -/
theorem mlfqRunning_frame (m : Machine) (p : TaskStruct) (t : TaskCtx) (now : U64) :
    ∃ llc qid qw wl sq, (mlfqRunning m p t now).tctx
      = { t with
          lastLlc := llc, lastQid := qid, lastRunAt := now, lastQWaitNs := qw
          lastWakeLatNs := wl, sqEma := sq, enqAt := 0
          flags := { t.flags with firstRun := false, enqWakeup := false } } := by
  obtain ⟨llc, qid, hown⟩ := acquireOnRunning_frame m t
  obtain ⟨qw, wl, sq, hwait⟩ := measureWait_frame m.rod
    { t with lastLlc := llc, lastQid := qid, lastRunAt := now
             flags := { t.flags with firstRun := false } } now
  refine ⟨llc, qid, qw, wl, sq, ?_⟩
  simp only [mlfqRunning, startSegment, hown, hwait]

theorem emitSample_frame (m : Machine) (p : TaskStruct) (t : TaskCtx) (runnable : Bool)
    (now delta : U64) :
    ∃ at_, (emitSample m p t runnable now delta).2.1 = { t with lastSampleAt := at_ } := by
  rw [emitSample]
  split
  · simp only
    split
    · exact ⟨t.lastSampleAt, rfl⟩
    · exact ⟨now, rfl⟩
  · exact ⟨t.lastSampleAt, rfl⟩

/-- The charge of a segment of length `delta`: nothing of a segment that
did not run. -/
theorem stopSegment_frame (m : Machine) (p : TaskStruct) (t : TaskCtx) (runnable : Bool)
    (now : U64) :
    ∃ burst at_, (stopSegment m p t runnable now).2.1
      = { t with
          vruntime := t.vruntime + calcDeltaFairBpf (segmentNs t now) t.weight
          ema := if segmentNs t now = 0 then t.ema
            else mlfqEmaClimb t.ema (segmentNs t now) m.rod.budgetMaxNs m.rod.alpha
          lastRunAt := 0, prevBurstNs := burst, lastSampleAt := at_ } := by
  by_cases h : segmentNs t now = 0
  · refine ⟨t.prevBurstNs, t.lastSampleAt, ?_⟩
    simp [stopSegment, h, calcDeltaFairBpf]
  · obtain ⟨at_, hs⟩ := emitSample_frame
      (chargeSegment m { t with lastRunAt := 0 } now (segmentNs t now)).1 p
      (chargeSegment m { t with lastRunAt := 0 } now (segmentNs t now)).2 runnable now
      (segmentNs t now)
    refine ⟨segmentNs t now, at_, ?_⟩
    rw [stopSegment, if_pos h, hs, if_neg h]
    rfl

theorem foldSleep_frame (t : TaskCtx) (now : U64) :
    ∃ mean var ratio gpu, foldSleep t now
      = { t with sleepMeanEma := mean, sleepVarEma := var, sleepVarRatio := ratio
                 gpuSubmit := gpu } := by
  rw [foldSleep]
  split
  · exact mlfqSleepEmaUpdate_frame ..
  · split
    · exact mlfqSleepEmaUpdate_frame ..
    · exact ⟨t.sleepMeanEma, t.sleepVarEma, t.sleepVarRatio, t.gpuSubmit, rfl⟩

theorem stopBlock_frame (t : TaskCtx) (runnable : Bool) (now : U64) :
    ∃ mean var ratio gpu, stopBlock t runnable now
      = { t with
          sleepMeanEma := mean, sleepVarEma := var, sleepVarRatio := ratio
          gpuSubmit := gpu, pendingValid := 0
          lastSleepAt := if runnable then t.lastSleepAt else now } := by
  cases runnable with
  | true => exact ⟨t.sleepMeanEma, t.sleepVarEma, t.sleepVarRatio, t.gpuSubmit, rfl⟩
  | false =>
      obtain ⟨mean, var, ratio, gpu, h⟩ := foldSleep_frame t now
      refine ⟨mean, var, ratio, gpu, ?_⟩
      simp [stopBlock, h]

/-- A blocking stop folds the sleep and stamps the next one. -/
theorem stopBlock_blocks (t : TaskCtx) (now : U64) : stopBlock t false now
    = { foldSleep t now with pendingValid := 0, lastSleepAt := now } := rfl

/-- The task after a stop: the segment charged, then the bookkeeping. -/
theorem mlfqStopping_tctx (m : Machine) (p : TaskStruct) (t : TaskCtx) (runnable : Bool)
    (now : U64) : (mlfqStopping m p t runnable now).tctx
      = stopBlock (stopSegment m p t runnable now).2.1 runnable now := rfl

/-- **The end of a segment**: vruntime and gauge take the charge, the
cadence block may move, the pending sample is dropped, and a blocking
stop stamps the sleep. -/
theorem mlfqStopping_frame (m : Machine) (p : TaskStruct) (t : TaskCtx)
    (runnable : Bool) (now : U64) :
    ∃ burst at_ mean var ratio gpu, (mlfqStopping m p t runnable now).tctx
      = { t with
          vruntime := t.vruntime + calcDeltaFairBpf (segmentNs t now) t.weight
          ema := if segmentNs t now = 0 then t.ema
            else mlfqEmaClimb t.ema (segmentNs t now) m.rod.budgetMaxNs m.rod.alpha
          lastRunAt := 0, prevBurstNs := burst, lastSampleAt := at_
          sleepMeanEma := mean, sleepVarEma := var, sleepVarRatio := ratio
          gpuSubmit := gpu, pendingValid := 0
          lastSleepAt := if runnable then t.lastSleepAt else now } := by
  obtain ⟨burst, at_, hseg⟩ := stopSegment_frame m p t runnable now
  obtain ⟨mean, var, ratio, gpu, hblk⟩ :=
    stopBlock_frame (stopSegment m p t runnable now).2.1 runnable now
  refine ⟨burst, at_, mean, var, ratio, gpu, ?_⟩
  rw [mlfqStopping_tctx, hblk, hseg]

@[simp] theorem emitSample_queues (m : Machine) (p : TaskStruct) (t : TaskCtx)
    (runnable : Bool) (now delta : U64) :
    (emitSample m p t runnable now delta).1.queues = m.queues := by
  rw [emitSample]
  split
  · simp only
    split <;> rfl
  · rfl

@[simp] theorem Machine.q1Set_queues (m : Machine) (cpu : Nat) (occupied : Bool) :
    (m.q1Set cpu occupied).queues = m.queues := by
  rw [Machine.q1Set]
  split <;> rfl

@[simp] theorem Machine.addWait_queues (m : Machine) (wait : Option U64) :
    (m.addWait wait).queues = m.queues := by
  cases wait <;> rfl

/-- No clock moves when a segment starts. -/
theorem mlfqRunning_queues (m : Machine) (p : TaskStruct) (t : TaskCtx) (now : U64) :
    (mlfqRunning m p t now).machine.queues = m.queues := by
  simp only [mlfqRunning, startMachine, Machine.addWait_queues, Machine.q1Set_queues]
  rfl

/-- **The clocks after a stop**: a segment that ran proposes the charged
vruntime to the clock of the task's queue, and to no other. -/
theorem mlfqStopping_queues (m : Machine) (p : TaskStruct) (t : TaskCtx)
    (runnable : Bool) (now : U64) :
    (mlfqStopping m p t runnable now).machine.queues
      = if segmentNs t now = 0 then m.queues
        else Function.update m.queues t.queue
          (mlfqQueueAdvanceClock (m.queues t.queue)
            (t.vruntime + calcDeltaFairBpf (segmentNs t now) t.weight)) := by
  have hstop : (mlfqStopping m p t runnable now).machine.queues
      = (stopSegment m p t runnable now).1.queues := by
    rw [mlfqStopping]
    cases runnable
    · exact Machine.q1Set_queues ..
    · exact Machine.q1Set_queues ..
  rw [hstop, stopSegment]
  by_cases h : segmentNs t now = 0
  · simp [h]
  · rw [if_pos h, if_neg h]
    exact emitSample_queues ..

theorem mlfqGpuSubmitInc_frame (t : TaskCtx) (now : U64) :
    ∃ at_ gpu drm, mlfqGpuSubmitInc t now
      = { t with lastGpuSubmitAt := at_, gpuSubmit := gpu
                 flags := { t.flags with drmWake := drm } } := by
  rw [mlfqGpuSubmitInc]
  split
  · exact ⟨t.lastGpuSubmitAt, t.gpuSubmit, t.flags.drmWake, rfl⟩
  · exact ⟨_, _, _, rfl⟩

end ScxMlfq
