import ScxMlfq.Bpf.Cadence
import ScxMlfq.Bpf.Insert
import ScxMlfq.Intf.Decay
import ScxMlfq.Run.System

/-!
# Run — Meters

The ranges of the gauges over whole runs, with the default constants. All
tasks run at once, on any CPUs, with their callbacks in any order, also in
orders the kernel does not deliver. The queue clocks, the busy gauges of
the CPUs and the system gauges are shared, and everything else of a
machine is free at every callback. Each callback lists the calls of the
gauge arithmetic it can make, with their operands. Within the ranges, none
of the calls wraps, and no callback leaves the ranges.
-/

namespace ScxMlfq

open Trace

variable {ι : Type*}

/-! ## The calls -/

/-- One call of the gauge arithmetic. -/
inductive MeterCall where
  | climb (ema delta budgetMax alpha : U64)
  | decay (ema sleepNs halfLife : U64)
  | sleepUpdate (tctx : TaskCtx) (sleepNs : U64)
  | deltaFair (delta : U64) (weight : U32)
  | cpuperf (ema : U64)

/-- No step of the call wraps, and no divisor is zero. -/
def MeterCall.Exact : MeterCall → Prop
  | .climb ema delta budgetMax alpha =>
      mlfqEmaClimbChecked ema delta budgetMax alpha
        = some (mlfqEmaClimb ema delta budgetMax alpha)
  | .decay ema sleepNs halfLife =>
      mlfqEmaDecayChecked ema sleepNs halfLife = some (mlfqEmaDecay ema sleepNs halfLife)
  | .sleepUpdate tctx sleepNs =>
      mlfqSleepEmaUpdateChecked tctx sleepNs = some (mlfqSleepEmaUpdate tctx sleepNs)
  | .deltaFair delta weight =>
      calcDeltaFairChecked delta weight = some (calcDeltaFairBpf delta weight)
  | .cpuperf ema => mlfqCpuperfFromEmaChecked ema = some (mlfqCpuperfFromEma ema)

/-- The ranges in which a call is exact. -/
def MeterCall.Fits : MeterCall → Prop
  | .climb ema _ budgetMax alpha => ClimbFits budgetMax alpha ∧ ema.toNat ≤ budgetMax.toNat
  | .decay ema _ halfLife =>
      ema.toNat < 2 ^ 56 ∧ 0 < halfLife.toNat ∧ halfLife.toNat < 2 ^ 56
  | .sleepUpdate tctx _ => CadenceBounded tctx
  | .deltaFair delta weight => delta.toNat * 100 < 2 ^ 64 ∧ weight ≠ 0
  | .cpuperf ema => ema.toNat ≤ mlfqBudgetMaxNs.toNat

theorem MeterCall.Fits.exact {c : MeterCall} (h : c.Fits) : c.Exact := by
  cases c with
  | climb ema delta budgetMax alpha => exact mlfqEmaClimbChecked_eq h.1 h.2
  | decay ema sleepNs halfLife => exact (DecaySandwich.of_lt h.1 h.2.1 h.2.2 sleepNs).checked
  | sleepUpdate tctx sleepNs => exact mlfqSleepEmaUpdateChecked_eq h sleepNs
  | deltaFair delta weight => exact calcDeltaFairChecked_eq h.1 h.2
  | cpuperf ema => exact mlfqCpuperfFromEmaChecked_eq h

/-- What the call returns; of the two cadence gauges, the mean. -/
def MeterCall.result : MeterCall → U64
  | .climb ema delta budgetMax alpha => mlfqEmaClimb ema delta budgetMax alpha
  | .decay ema sleepNs halfLife => mlfqEmaDecay ema sleepNs halfLife
  | .sleepUpdate tctx sleepNs => (mlfqSleepEmaUpdate tctx sleepNs).sleepMeanEma
  | .deltaFair delta weight => calcDeltaFairBpf delta weight
  | .cpuperf ema => mlfqCpuperfFromEma ema

/-- The wait a segment start folds into the gauge of the wakeup waits. -/
def foldedWait (t : TaskCtx) (now : U64) : Option U64 :=
  if t.enqAt ≠ 0 ∧ mlfqTimeBefore now t.enqAt = false ∧ t.flags.enqWakeup = true then
    some (if now - t.enqAt > 0xFFFFFFFF then 0xFFFFFFFF else now - t.enqAt)
  else none

/-- The wall time since the last segment of a CPU. -/
def cpuElapsed (c : CpuState) (now : U64) : U64 :=
  if c.cpuEmaAt ≠ 0 ∧ mlfqTimeBefore c.cpuEmaAt now then now - c.cpuEmaAt else 0

/-- The calls of the charge of a segment. -/
def chargeCalls (m : Machine) (t : TaskCtx) (now : U64) : List MeterCall :=
  let delta := segmentNs t now
  if delta = 0 then []
  else [.deltaFair delta t.weight, .climb t.ema delta m.rod.budgetMaxNs m.rod.alpha] ++
    match m.lookupCpuState m.cpu with
    | none => []
    | some c =>
        [.decay c.cpuEma (cpuElapsed c now) m.rod.emaHalfLifeNs,
          .climb (mlfqEmaDecay c.cpuEma (cpuElapsed c now) m.rod.emaHalfLifeNs) delta
            m.rod.budgetMaxNs m.rod.alpha]

/-- The calls of a blocking stop, for the task its segment left. -/
def foldCalls (t : TaskCtx) (now : U64) : List MeterCall :=
  if foldedSleepNs t now ≠ 0 then [.sleepUpdate t (foldedSleepNs t now)]
  else if t.sleepMeanEma ≠ 0 then [.sleepUpdate t (mlfqLongSleepNs + 1)]
  else []

/-- The calls a callback of a task can make. A placement and the
preemption test scale the request of the queue, with and without the
tick of the lag limit. -/
def TaskEvent.calls (t : TaskCtx) : TaskEvent → List MeterCall
  | .enqueue m p flags now =>
      if p.weight = 0 then []
      else
        (if flags.wakeup ∧ t.lastSleepAt ≠ 0 ∧ mlfqTimeBefore t.lastSleepAt now then
          [.decay t.ema (now - t.lastSleepAt) m.rod.emaHalfLifeNs] else []) ++
        let settled := settledTask m p flags t now
        let q := m.queues settled.queue
        [.deltaFair (q.maxSliceNs + mlfqTickNs) settled.weight,
          .deltaFair q.maxSliceNs settled.weight]
  | .running m _ now =>
      ((foldedWait t now).toList.map fun wait =>
        .climb t.sqEma wait mlfqSqEmaMaxNs m.rod.alpha) ++
      if t.queue = .q1 then []
      else (m.lookupCpuState m.cpu).toList.map fun c => .cpuperf c.cpuEma
  | .stopping m p runnable now =>
      chargeCalls m t now ++
      if runnable then [] else foldCalls (stopSegment m p t runnable now).2.1 now
  | _ => []

/-! ## The system -/

structure MeterState (ι : Type*) where
  tasks : ι → TaskCtx
  queues : Queue → QueueCtx
  /-- `mlfq_cpu_state.cpu_ema`. -/
  cpuEma : Nat → U64
  /-- `mlfq_sys_gauge.lat_ema`. -/
  latEma : U64
  /-- `mlfq_sys_gauge.rate_ema`. -/
  rateEma : U64

/-- A callback of a task, or the fold of the system gauges by the winner
of an adaptation window. -/
inductive MeterEvent (ι : Type*) where
  | task (i : ι) (e : TaskEvent)
  | fold (waitTotal waitCount : U64) (wakeupCnt : U32) (elapsed : U64) (adapts : Bool)

/-- A machine with the shared clocks and busy gauges. -/
def MeterState.on (S : MeterState ι) (m : Machine) : Machine :=
  { m with
    queues := S.queues
    cpuState := fun cpu => (m.cpuState cpu).map fun c => { c with cpuEma := S.cpuEma cpu } }

/-- The callback on another machine. -/
def TaskEvent.mapMachine (f : Machine → Machine) : TaskEvent → TaskEvent
  | .select m p prevCpu sync now => .select (f m) p prevCpu sync now
  | .enqueue m p flags now => .enqueue (f m) p flags now
  | .running m p now => .running (f m) p now
  | .steal m qid cpu => .steal (f m) qid cpu
  | .stopping m p runnable now => .stopping (f m) p runnable now
  | .quiescent m => .quiescent (f m)
  | .reset p now => .reset p now
  | .keep => .keep
  | .gpuSubmit now => .gpuSubmit now

/-- The busy gauge of a CPU in the machine a callback leaves. -/
def busyOf (m : Machine) (old : Nat → U64) (cpu : Nat) : U64 :=
  ((m.cpuState cpu).map CpuState.cpuEma).getD (old cpu)

/-- The busy gauges a callback leaves; the two ends of a segment store
into the record of their CPU. -/
def TaskEvent.busy (old : Nat → U64) (t : TaskCtx) : TaskEvent → Nat → U64
  | .running m p now => busyOf (mlfqRunning m p t now).machine old
  | .stopping m p runnable now => busyOf (mlfqStopping m p t runnable now).machine old
  | _ => old

/-- One event. -/
def stepMeters [DecidableEq ι] (S : MeterState ι) : MeterEvent ι → Option (MeterState ι)
  | .task i e =>
      let e := e.mapMachine S.on
      (e.after (S.tasks i)).map fun t' =>
        { S with
          tasks := Function.update S.tasks i t'
          queues := e.leaving S.queues (S.tasks i)
          cpuEma := e.busy S.cpuEma (S.tasks i) }
  | .fold waitTotal waitCount wakeupCnt elapsed adapts =>
      some { S with
        latEma := mlfqSysLatFold S.latEma waitTotal waitCount elapsed mlfqSysGaugeHalfLifeNs
          mlfqSysLatMaxNs
        rateEma := if adapts then mlfqSysRateStep S.rateEma wakeupCnt elapsed else S.rateEma }

/-- The calls an event can make. -/
def MeterEvent.calls (S : MeterState ι) : MeterEvent ι → List MeterCall
  | .task i e => (e.mapMachine S.on).calls (S.tasks i)
  | .fold _ waitCount _ elapsed adapts =>
      (if waitCount = 0 then []
        else [.decay fpOne elapsed mlfqSysGaugeHalfLifeNs,
          .decay S.latEma elapsed mlfqSysGaugeHalfLifeNs]) ++
      if adapts then [.decay fpOne (rateWindow elapsed) mlfqSysGaugeHalfLifeNs] else []

/-- The default constants of the gauges. -/
structure DefaultMeters (rod : Rodata) : Prop where
  budget : rod.budgetMaxNs = mlfqBudgetMaxNs
  alpha : rod.alpha = 3072
  halfLife : rod.emaHalfLifeNs = mlfqEmaHalfLifeNs
  slices : ∀ q, mlfqQueueSlice rod q = mlfqQueueSlice {} q

instance (rod : Rodata) : Decidable (DefaultMeters rod) :=
  decidable_of_iff
    (rod.budgetMaxNs = mlfqBudgetMaxNs ∧ rod.alpha = 3072
      ∧ rod.emaHalfLifeNs = mlfqEmaHalfLifeNs ∧ ∀ q ∈ [Queue.q1, .q2, .q3],
        mlfqQueueSlice rod q = mlfqQueueSlice {} q)
    ⟨fun h => ⟨h.1, h.2.1, h.2.2.1, fun q => h.2.2.2 q (by cases q <;> decide)⟩,
      fun h => ⟨h.budget, h.alpha, h.halfLife, fun q _ => h.slices q⟩⟩

/-- The state `mlfq_init` and `mlfq_init_task` leave, with the default
constants. -/
def MeterState.Fresh (S : MeterState ι) : Prop :=
  (∀ i, ∃ p now, S.tasks i = mlfqResetTaskCtx {} p now)
    ∧ (∃ rod n createDsq m, DefaultMeters rod
        ∧ mlfqInit (Machine.zeroed rod n) createDsq = .ok m ∧ S.queues = m.queues)
    ∧ (∀ cpu, S.cpuEma cpu = 0) ∧ S.latEma = 0 ∧ S.rateEma = 0

/-- The machine a callback runs on. -/
def TaskEvent.machine : TaskEvent → Option Machine
  | .select m _ _ _ _ => some m
  | .enqueue m _ _ _ => some m
  | .running m _ _ => some m
  | .steal m _ _ => some m
  | .stopping m _ _ _ => some m
  | .quiescent m => some m
  | .reset _ _ => none
  | .keep => none
  | .gpuSubmit _ => none

/-- The weight a callback reads. -/
def TaskEvent.weight : TaskEvent → Option U32
  | .enqueue _ p _ _ => some p.weight
  | .reset p _ => some p.weight
  | _ => none

/-- The run segment a callback ends. -/
def TaskEvent.segment (t : TaskCtx) : TaskEvent → U64
  | .stopping _ _ _ now => segmentNs t now
  | _ => 0

/-- An event as the claimed ranges allow it: the default constants,
weights from 1 to 10000, and segments the time scale has room for. -/
def MeterEvent.Regular (S : MeterState ι) : MeterEvent ι → Prop
  | .task i e =>
      (∀ m ∈ e.machine, DefaultMeters m.rod)
        ∧ (∀ w ∈ e.weight, 1 ≤ w.toNat ∧ w.toNat ≤ 10000)
        ∧ (e.segment (S.tasks i)).toNat * 100 < 2 ^ 64
  | .fold .. => True

instance (S : MeterState ι) (e : MeterEvent ι) : Decidable (e.Regular S) :=
  match e with
  | .task _ _ => @instDecidableAnd _ _ (Option.decidableForallMem _)
      (@instDecidableAnd _ _ (Option.decidableForallMem _) (Nat.decLt _ _))
  | .fold .. => .isTrue trivial

abbrev MeterEntry (ι : Type*) := Entry (MeterState ι) (MeterEvent ι)

abbrev MeterRun [DecidableEq ι] : List (MeterEntry ι) → MeterState ι → Prop :=
  Run (fun S e S' => stepMeters S e = some S') MeterState.Fresh

/-- `mlfq_lag_limit` of the last placement of a task since its reset. -/
def lastLagLimit [DecidableEq ι] (i : ι) : List (MeterEntry ι) → U64
  | [] => 0
  | ⟨S, .task j (.enqueue m p flags now), _⟩ :: tr =>
      if j = i ∧ (enqueueTask (S.on m) p (S.tasks i) flags now).route.places then
        let settled := settledTask (S.on m) p flags (S.tasks i) now
        mlfqLagLimit (S.queues settled.queue) settled.weight
      else lastLagLimit i tr
  | ⟨_, .task j (.reset _ _), _⟩ :: tr => if j = i then 0 else lastLagLimit i tr
  | _ :: tr => lastLagLimit i tr

/-! ## The ranges -/

/-- The ranges of the gauges of a task. -/
structure InRange (t : TaskCtx) : Prop where
  ema : t.ema.toNat ≤ mlfqBudgetMaxNs.toNat
  queue : 1 ≤ t.queue.num ∧ t.queue.num ≤ 3
  sqEma : t.sqEma.toNat ≤ mlfqSqEmaMaxNs.toNat
  gpuSubmit : t.gpuSubmit.toNat ≤ 4
  cadence : CadenceBounded t
  weight : t.weight ≠ 0

/-- The ranges of the whole system. -/
structure MetersBounded [DecidableEq ι] (tr : List (MeterEntry ι)) (S : MeterState ι) :
    Prop where
  tasks : ∀ i, InRange (S.tasks i)
  lag : ∀ i, 0 ≤ (S.tasks i).vlag ∧ (S.tasks i).vlag ≤ (lastLagLimit i tr).toNat
  busy : ∀ cpu, (S.cpuEma cpu).toNat ≤ mlfqBudgetMaxNs.toNat
  lat : S.latEma.toNat ≤ mlfqSysLatMaxNs.toNat
  slices : ∀ q, (S.queues q).maxSliceNs = mlfqQueueSlice {} q

/-! ## The constants -/

theorem climbFits_budget : ClimbFits mlfqBudgetMaxNs 3072 :=
  ⟨by decide, by decide, by decide⟩

theorem climbFits_sqEma : ClimbFits mlfqSqEmaMaxNs 3072 :=
  ⟨by decide, by decide, by decide⟩

theorem slice_le (q : Queue) : (mlfqQueueSlice {} q).toNat ≤ 4000000 := by
  cases q <;> decide

/-- A gauge below its ceiling stays below it over a sleep. -/
theorem decayed_le_budget {ema : U64} (h : ema.toNat ≤ mlfqBudgetMaxNs.toNat) (sleepNs : U64) :
    (mlfqEmaDecay ema sleepNs mlfqEmaHalfLifeNs).toNat ≤ mlfqBudgetMaxNs.toNat := by
  have hfit : DecayFits mlfqEmaHalfLifeNs := ⟨by decide, by decide⟩
  have hroom : ema.toNat * 256 < 2 ^ 64 :=
    lt_of_le_of_lt (Nat.mul_le_mul_right 256 h) (by decide)
  exact Nat.le_trans (mlfqEmaDecay_le hfit hroom) h

theorem InRange.congr {t t' : TaskCtx} (h : InRange t) (hema : t'.ema = t.ema)
    (hsq : t'.sqEma = t.sqEma) (hgpu : t'.gpuSubmit = t.gpuSubmit)
    (hmean : t'.sleepMeanEma = t.sleepMeanEma) (hvar : t'.sleepVarEma = t.sleepVarEma)
    (hratio : t'.sleepVarRatio = t.sleepVarRatio) (hweight : t'.weight = t.weight) :
    InRange t' := by
  refine ⟨?_, ⟨t'.queue.num_pos, t'.queue.num_le⟩, ?_, ?_, ⟨?_, ?_, ?_⟩, ?_⟩
  · rw [hema]
    exact h.ema
  · rw [hsq]
    exact h.sqEma
  · rw [hgpu]
    exact h.gpuSubmit
  · rw [hmean]
    exact h.cadence.mean
  · rw [hvar]
    exact h.cadence.var
  · rw [hratio]
    exact h.cadence.ratio
  · rw [hweight]
    exact h.weight

/-! ## One callback -/

theorem mlfqResetTaskCtx_inRange (t : TaskCtx) (p : TaskStruct) (now : U64) :
    InRange (mlfqResetTaskCtx t p now) := by
  refine ⟨Nat.zero_le _, ⟨Nat.le_succ 1, Nat.le_succ 2⟩, Nat.zero_le _, Nat.zero_le _,
    ⟨Nat.zero_le _, Nat.zero_le _, Nat.zero_le _⟩, ?_⟩
  show (if p.weight = 0 then 1 else p.weight) ≠ 0
  split
  · decide
  · assumption

/-- The gauge after the sleep of a wakeup. -/
theorem chargeSleep_ema_le {rod : Rodata} (hd : DefaultMeters rod) {t : TaskCtx}
    (h : t.ema.toNat ≤ mlfqBudgetMaxNs.toNat) (now : U64) :
    (chargeSleep rod t now).ema.toNat ≤ mlfqBudgetMaxNs.toNat := by
  rw [chargeSleep, hd.halfLife]
  show (if _ then _ else _ : U64).toNat ≤ _
  split
  · exact decayed_le_budget h _
  · exact h

/-- Settling the queue moves the interactivity gauge only. -/
theorem settledTask_meters (m : Machine) (p : TaskStruct) (flags : EnqFlags) (t : TaskCtx)
    (now : U64) :
    ∃ q at_ cnt w b ema st feats pq pv, settledTask m p flags t now
      = { t with
          weight := p.weight, queue := q, queuedAt := at_, reenqCnt := cnt, wakeCnt := w
          lastSsBoostAt := b, ema := ema, lastSleepAt := st
          pendingFeats := feats, pendingQueue := pq, pendingValid := pv } := by
  obtain ⟨q, at_, cnt, hset⟩ := settleQueue_frame m p flags { t with weight := p.weight } now
  obtain ⟨q', w, n, b, ema, st, feats, pq, pv, h⟩ :=
    enqueueClassify_frame m p flags { t with weight := p.weight } now
  refine ⟨q, at_, cnt, w, b, ema, st, feats, pq, pv, ?_⟩
  rw [settledTask, hset, h]

theorem settledTask_ema_le {m : Machine} (hd : DefaultMeters m.rod) {t : TaskCtx}
    (h : t.ema.toNat ≤ mlfqBudgetMaxNs.toNat) (p : TaskStruct) (flags : EnqFlags) (now : U64) :
    (settledTask m p flags t now).ema.toNat ≤ mlfqBudgetMaxNs.toNat := by
  rw [settledTask]
  cases hw : flags.wakeup with
  | true =>
      rw [(settleQueue_wakeup hw _ now).1]
      exact chargeSleep_ema_le hd h now
  | false =>
      rw [(settleQueue_not_wakeup hw _ now).1]
      exact h

theorem settledTask_inRange {m : Machine} (hd : DefaultMeters m.rod) {t : TaskCtx}
    (h : InRange t) {p : TaskStruct} (hw : p.weight ≠ 0) (flags : EnqFlags) (now : U64) :
    InRange (settledTask m p flags t now) := by
  have hema := settledTask_ema_le hd h.ema p flags now
  obtain ⟨q, at_, cnt, w, b, ema, st, feats, pq, pv, hset⟩ :=
    settledTask_meters m p flags t now
  rw [hset] at hema ⊢
  exact ⟨hema, ⟨q.num_pos, q.num_le⟩, h.sqEma, h.gpuSubmit,
    ⟨h.cadence.mean, h.cadence.var, h.cadence.ratio⟩, hw⟩

/-- The wakeup waits keep their ceiling. -/
theorem measureWait_sqEma_le {rod : Rodata} {t : TaskCtx}
    (h : t.sqEma.toNat ≤ mlfqSqEmaMaxNs.toNat) (now : U64) :
    (measureWait rod t now).1.sqEma.toNat ≤ mlfqSqEmaMaxNs.toNat := by
  rw [measureWait]
  split
  · simp only
    split
    · dsimp only
      exact mlfqEmaClimb_le h
    · exact h
  · exact h

theorem mlfqRunning_inRange (m : Machine) (p : TaskStruct) {t : TaskCtx} (h : InRange t)
    (now : U64) : InRange (mlfqRunning m p t now).tctx := by
  have hsq : (mlfqRunning m p t now).tctx.sqEma.toNat ≤ mlfqSqEmaMaxNs.toNat := by
    obtain ⟨llc, qid, hown⟩ := acquireOnRunning_frame m t
    simp only [mlfqRunning, startSegment, hown]
    apply measureWait_sqEma_le
    exact h.sqEma
  obtain ⟨llc, qid, qw, wl, sq, hrun⟩ := mlfqRunning_frame m p t now
  rw [hrun] at hsq ⊢
  exact ⟨h.ema, h.queue, hsq, h.gpuSubmit,
    ⟨h.cadence.mean, h.cadence.var, h.cadence.ratio⟩, h.weight⟩

/-- The fold of a blocking stop keeps the cadence ranges. -/
theorem foldSleep_bounded {t : TaskCtx} (h : CadenceBounded t) (now : U64) :
    CadenceBounded (foldSleep t now) ∧ (foldSleep t now).gpuSubmit = t.gpuSubmit := by
  rw [foldSleep]
  split
  · exact mlfqSleepEmaUpdate_bounded h _
  · split
    · exact mlfqSleepEmaUpdate_bounded h _
    · exact ⟨h, rfl⟩

theorem stopSegment_inRange {m : Machine} (hd : DefaultMeters m.rod) {t : TaskCtx}
    (h : InRange t) (p : TaskStruct) (runnable : Bool) (now : U64) :
    InRange (stopSegment m p t runnable now).2.1 := by
  obtain ⟨burst, at_, hseg⟩ := stopSegment_frame m p t runnable now
  have hema : (stopSegment m p t runnable now).2.1.ema.toNat ≤ mlfqBudgetMaxNs.toNat := by
    rw [hseg, hd.budget, hd.alpha]
    show (if _ then _ else _ : U64).toNat ≤ _
    split
    · exact h.ema
    · exact mlfqEmaClimb_le h.ema
  rw [hseg] at hema ⊢
  exact ⟨hema, h.queue, h.sqEma, h.gpuSubmit,
    ⟨h.cadence.mean, h.cadence.var, h.cadence.ratio⟩, h.weight⟩

theorem mlfqStopping_inRange {m : Machine} (hd : DefaultMeters m.rod) {t : TaskCtx}
    (h : InRange t) (p : TaskStruct) (runnable : Bool) (now : U64) :
    InRange (mlfqStopping m p t runnable now).tctx := by
  have hseg := stopSegment_inRange hd h p runnable now
  rw [mlfqStopping_tctx]
  generalize (stopSegment m p t runnable now).2.1 = u at hseg ⊢
  cases runnable with
  | true => exact hseg.congr rfl rfl rfl rfl rfl rfl rfl
  | false =>
      obtain ⟨hcad, hgpu⟩ := foldSleep_bounded hseg.cadence now
      obtain ⟨mean, var, ratio, gpu, hfold⟩ := foldSleep_frame u now
      rw [hfold] at hcad hgpu
      rw [stopBlock_blocks, hfold]
      have hgpu' : gpu = u.gpuSubmit := hgpu
      exact ⟨hseg.ema, hseg.queue, hseg.sqEma, by rw [hgpu']; exact hseg.gpuSubmit,
        ⟨hcad.mean, hcad.var, hcad.ratio⟩, hseg.weight⟩

theorem mlfqGpuSubmitInc_inRange {t : TaskCtx} (h : InRange t) (now : U64) :
    InRange (mlfqGpuSubmitInc t now) := by
  rw [mlfqGpuSubmitInc]
  split
  · exact h
  · refine ⟨h.ema, h.queue, h.sqEma, ?_, ⟨h.cadence.mean, h.cadence.var, h.cadence.ratio⟩,
      h.weight⟩
    have := h.gpuSubmit
    show (if t.gpuSubmit < 4 then t.gpuSubmit + 1 else 4 : U32).toNat ≤ 4
    split <;> bv_omega

/-! ## The busy gauges of the CPUs -/

/-- Every record of the machine holds a busy gauge below the ceiling. -/
def BusyBounded (m : Machine) : Prop :=
  ∀ cpu c, m.cpuState cpu = some c → c.cpuEma.toNat ≤ mlfqBudgetMaxNs.toNat

theorem BusyBounded.store {m : Machine} (h : BusyBounded m) {f : CpuState → CpuState}
    (hf : ∀ c, c.cpuEma.toNat ≤ mlfqBudgetMaxNs.toNat →
      (f c).cpuEma.toNat ≤ mlfqBudgetMaxNs.toNat) : BusyBounded (m.storeCpuState f) := by
  intro cpu c hc
  rw [Machine.storeCpuState] at hc
  by_cases hcpu : cpu = m.cpu
  · rw [hcpu] at hc
    simp only [Function.update_self, Option.map_eq_some_iff] at hc
    obtain ⟨c', hc', rfl⟩ := hc
    exact hf c' (h _ c' hc')
  · simp only [Function.update_of_ne hcpu] at hc
    exact h cpu c hc

theorem BusyBounded.congr {m m' : Machine} (h : BusyBounded m) (hs : m'.cpuState = m.cpuState) :
    BusyBounded m' := by
  rw [BusyBounded, hs]
  exact h

theorem busyOf_le {m : Machine} (h : BusyBounded m) {old : Nat → U64} {cpu : Nat}
    (hold : (old cpu).toNat ≤ mlfqBudgetMaxNs.toNat) :
    (busyOf m old cpu).toNat ≤ mlfqBudgetMaxNs.toNat := by
  rw [busyOf]
  cases hc : m.cpuState cpu with
  | none => exact hold
  | some c => exact h cpu c hc

@[simp] theorem Machine.q1Set_cpuState (m : Machine) (cpu : Nat) (occupied : Bool) :
    (m.q1Set cpu occupied).cpuState = m.cpuState := by
  rw [Machine.q1Set]
  split <;> rfl

@[simp] theorem Machine.addWait_cpuState (m : Machine) (wait : Option U64) :
    (m.addWait wait).cpuState = m.cpuState := by
  cases wait <;> rfl

theorem emitSample_cpuState (m : Machine) (p : TaskStruct) (t : TaskCtx) (runnable : Bool)
    (now delta : U64) : (emitSample m p t runnable now delta).1.cpuState = m.cpuState := by
  rw [emitSample]
  split
  · simp only
    split <;> rfl
  · rfl

/-- The start of a segment keeps the busy gauges. -/
theorem mlfqRunning_busy {m : Machine} (h : BusyBounded m) (p : TaskStruct) (t : TaskCtx)
    (now : U64) : BusyBounded (mlfqRunning m p t now).machine := by
  have hstore : BusyBounded (m.storeCpuState (recordRunning p t now)) :=
    h.store fun c hc => hc
  refine hstore.congr ?_
  show (startMachine m p t now).cpuState = _
  rw [startMachine, Machine.addWait_cpuState, Machine.q1Set_cpuState]

/-- The charge of a segment decays and climbs below the ceiling. -/
theorem chargeCpu_le {rod : Rodata} (hd : DefaultMeters rod) (now delta : U64) {c : CpuState}
    (h : c.cpuEma.toNat ≤ mlfqBudgetMaxNs.toNat) :
    (chargeCpu rod now delta c).cpuEma.toNat ≤ mlfqBudgetMaxNs.toNat := by
  simp only [chargeCpu, hd.budget, hd.halfLife]
  apply mlfqEmaClimb_le
  exact decayed_le_budget h _

theorem mlfqStopping_busy {m : Machine} (hd : DefaultMeters m.rod) (h : BusyBounded m)
    (p : TaskStruct) (t : TaskCtx) (runnable : Bool) (now : U64) :
    BusyBounded (mlfqStopping m p t runnable now).machine := by
  have hseg : BusyBounded (stopSegment m p t runnable now).1 := by
    simp only [stopSegment]
    split
    · have hcharge : BusyBounded (m.storeCpuState (chargeCpu m.rod now (segmentNs t now))) :=
        h.store fun c hc => chargeCpu_le hd now _ hc
      refine hcharge.congr ?_
      rw [emitSample_cpuState]
      exact rfl
    · exact h
  have hset := hseg.congr (Machine.q1Set_cpuState (stopSegment m p t runnable now).1
    (stopSegment m p t runnable now).1.cpu false)
  simp only [mlfqStopping]
  split
  · exact hset
  · exact hset.store fun c hc => hc

/-! ## The lag -/

/-- A lag within the limit of a slice is not negative as a signed word. -/
theorem placementLag_range {q : QueueCtx} {t : TaskCtx} (hq : q.maxSliceNs.toNat ≤ 4000000) :
    0 ≤ (placementLag q t).toInt
      ∧ (placementLag q t).toInt ≤ (mlfqLagLimit q t.weight).toNat := by
  have hadd : (q.maxSliceNs + mlfqTickNs).toNat ≤ 5000000 := by
    rw [BitVec.toNat_add_of_lt (by show q.maxSliceNs.toNat + 1000000 < _; omega)]
    show q.maxSliceNs.toNat + 1000000 ≤ _
    omega
  have hlimit : (mlfqLagLimit q t.weight).toNat ≤ 500000000 := by
    have h := @calcDeltaFair_le (q.maxSliceNs + mlfqTickNs) t.weight (by omega)
    rw [mlfqLagLimit]
    omega
  have hle : (placementLag q t).toNat ≤ (mlfqLagLimit q t.weight).toNat :=
    placementLag_le_limit q t
  rw [BitVec.toInt_eq_toNat_of_lt (by omega)]
  omega

theorem placedTask_vlag (m : Machine) (t : TaskCtx) :
    (placedTask m t).vlag = (placementLag (m.queues t.queue) t).toInt := rfl

/-- **The lag after an enqueue**: of the placement, or the one it had. -/
theorem enqueueTask_vlag {m : Machine} {p : TaskStruct} {t t' : TaskCtx} {flags : EnqFlags}
    {now : U64} (hw : p.weight ≠ 0) (ht : (enqueueTask m p t flags now).tctx = some t') :
    t'.vlag = if (enqueueTask m p t flags now).route.places
      then (placementLag (m.queues (settledTask m p flags t now).queue)
        (settledTask m p flags t now)).toInt
      else t.vlag := by
  have hkeep : (settledTask m p flags t now).vlag = t.vlag := by
    obtain ⟨q, at_, cnt, w, b, ema, st, feats, pq, pv, hset⟩ :=
      settledTask_meters m p flags t now
    rw [hset]
  rw [← placedTask_vlag]
  have hexits := enqueueTask_exits m p t flags now
  generalize settledTask m p flags t now = settled at hkeep hexits ⊢
  have hins {placed : TaskCtx} {owner : Nat} {insert : DsqInsert}
      (h : InsertsFor m placed flags now owner insert (enqueueTask m p t flags now)) :
      t'.vlag = placed.vlag := by
    obtain rfl := Option.some.inj (h.tctx.symm.trans ht)
    obtain ⟨llc, qid, hent⟩ :=
      mlfqRunnableEnter_task m.gauges placed placed.queue (m.llcOfCpu owner)
    rw [hent, mlfqStampEnqAt]
  -- a route that places nothing leaves the lag of the settled task
  have hdefer (h : (enqueueTask m p t flags now).route.places = false)
      (hv : t'.vlag = settled.vlag) :
      t'.vlag = if (enqueueTask m p t flags now).route.places then (placedTask m settled).vlag
        else t.vlag := by
    rw [h, if_neg Bool.false_ne_true, hv, hkeep]
  have hplaces (h : (enqueueTask m p t flags now).route.places = true)
      (hv : t'.vlag = (placedTask m settled).vlag) :
      t'.vlag = if (enqueueTask m p t flags now).route.places then (placedTask m settled).vlag
        else t.vlag := by
    rw [h, if_pos rfl, hv]
  rcases hexits with ⟨hzero, -⟩ | ⟨-, hexit⟩
  · exact absurd hzero hw
  cases hexit with
  | noCpu route pinned cpu insert error tctx machine =>
      obtain rfl := Option.some.inj (tctx.symm.trans ht)
      exact hdefer (by rw [route]; rfl) rfl
  | pinnedGlobal route pinned gauges tctx insert error =>
      obtain ⟨llc, qid, hex⟩ := mlfqRunnableExit_task m.gauges settled
      obtain rfl := Option.some.inj (tctx.symm.trans ht)
      exact hdefer (by rw [route]; rfl) (by rw [hex])
  | pinnedIdle route pinned allowed inserts =>
      exact hdefer (by rw [route]; rfl) (hins inserts)
  | pinnedBusy route pinned allowed inserts =>
      exact hplaces (by rw [route]; rfl) (hins inserts)
  | fastPath route free idle inserts => exact hdefer (by rw [route]; rfl) (hins inserts)
  | preempt route free slow wakeup stays allowed slice inserts =>
      exact hdefer (by rw [route]; rfl) (hins inserts)
  | regular route free slow inserts => exact hplaces (by rw [route]; rfl) (hins inserts)

/-! ## One event -/

/-- **An enqueue that takes a route** found a weight and settled the
task. -/
theorem after_enqueue {t t' : TaskCtx} {m : Machine} {p : TaskStruct} {flags : EnqFlags}
    {now : U64} (h : (TaskEvent.enqueue m p flags now).after t = some t') :
    p.weight ≠ 0 ∧ (enqueueTask m p t flags now).tctx = some t'
      ∧ Placement m (settledTask m p flags t now) (enqueueTask m p t flags now) t' := by
  have hp := after_placement h
  simp only [TaskEvent.after] at h
  split at h
  · cases h
  rename_i hroute
  refine ⟨?_, h, hp⟩
  intro hw
  rcases enqueueTask_exits m p t flags now with ⟨-, heq⟩ | ⟨hne, -⟩
  · rw [heq] at hroute
    exact hroute rfl
  · exact hne hw

/-- **A callback keeps the ranges of its task.** -/
theorem after_inRange {t t' : TaskCtx} {e : TaskEvent} (hs : e.after t = some t')
    (hd : ∀ m, e.machine = some m → DefaultMeters m.rod) (h : InRange t) : InRange t' := by
  cases e with
  | reset p now =>
      obtain rfl := Option.some.inj hs
      exact mlfqResetTaskCtx_inRange ..
  | enqueue m p flags now =>
      obtain ⟨hw, -, hplace⟩ := after_enqueue hs
      have hset := settledTask_inRange (hd m rfl) h hw flags now
      have hr := hplace.routed
      rw [hr]
      exact hset.congr rfl rfl rfl rfl rfl rfl rfl
  | stopping m p runnable now =>
      obtain rfl := Option.some.inj hs
      exact mlfqStopping_inRange (hd m rfl) h p runnable now
  | select m p prevCpu sync now =>
      obtain ⟨w, drm, rfl⟩ := after_select hs
      exact h.congr rfl rfl rfl rfl rfl rfl rfl
  | running m p now =>
      obtain rfl := Option.some.inj hs
      exact mlfqRunning_inRange m p h now
  | keep =>
      obtain rfl := Option.some.inj hs
      exact h.congr rfl rfl rfl rfl rfl rfl rfl
  | steal m qid cpu =>
      obtain rfl := Option.some.inj hs
      obtain ⟨llc, q, hent⟩ := mlfqRunnableEnter_task m.gauges t qid (m.llcOfCpu cpu)
      rw [hent]
      exact h.congr rfl rfl rfl rfl rfl rfl rfl
  | gpuSubmit now =>
      obtain rfl := Option.some.inj hs
      exact mlfqGpuSubmitInc_inRange h now
  | quiescent m =>
      obtain rfl := Option.some.inj hs
      obtain ⟨llc, qid, hex⟩ := mlfqRunnableExit_task m.gauges t
      rw [mlfqQuiescent, hex]
      exact h.congr rfl rfl rfl rfl rfl rfl rfl

/-- The callbacks that neither place a task nor reset it. -/
def TaskEvent.keepsLag : TaskEvent → Bool
  | .enqueue .. => false
  | .reset .. => false
  | _ => true

theorem after_vlag {t t' : TaskCtx} {e : TaskEvent} (hs : e.after t = some t')
    (he : e.keepsLag = true) : t'.vlag = t.vlag := by
  rcases e.quiet_cases with hquiet | ⟨p, now, rfl⟩ | ⟨m, p, flags, now, rfl⟩
    | ⟨m, p, runnable, now, rfl⟩
  · rw [after_quiet_frame hquiet hs]
  · cases he
  · cases he
  · obtain rfl := Option.some.inj hs
    obtain ⟨burst, at_, mean, var, ratio, gpu, hstop⟩ := mlfqStopping_frame m p t runnable now
    rw [hstop]

/-- No callback changes the request of a queue. -/
theorem leaving_maxSliceNs {S : MeterState ι} {t t' : TaskCtx} {e : TaskEvent}
    (hs : (e.mapMachine S.on).after t = some t') (q : Queue) :
    ((e.mapMachine S.on).leaving S.queues t q).maxSliceNs = (S.queues q).maxSliceNs := by
  cases e with
  | stopping m p runnable now =>
      show ((mlfqStopping (S.on m) p t runnable now).machine.queues q).maxSliceNs = _
      rw [mlfqStopping_queues]
      split
      · rfl
      · show (Function.update S.queues t.queue _ q).maxSliceNs = _
        by_cases hq : q = t.queue
        · rw [hq, Function.update_self, mlfqQueueAdvanceClock_maxSliceNs]
          rfl
        · rw [Function.update_of_ne hq]
  | select m p prevCpu sync now =>
      obtain ⟨idle, h⟩ := mlfqSelectCpu_machine (S.on m) p (some t) prevCpu sync now
      simp only [TaskEvent.mapMachine, TaskEvent.leaving, h]
      rfl
  | enqueue m p flags now =>
      obtain ⟨-, -, hplace⟩ := after_enqueue hs
      simp only [TaskEvent.mapMachine, TaskEvent.leaving, hplace.queues]
      rfl
  | running m p now =>
      simp only [TaskEvent.mapMachine, TaskEvent.leaving, mlfqRunning_queues]
      rfl
  | reset p now => rfl
  | keep => rfl
  | steal m qid cpu => rfl
  | gpuSubmit now => rfl
  | quiescent m => rfl

/-- The shared records of a state are bounded. -/
theorem on_busyBounded {S : MeterState ι}
    (h : ∀ cpu, (S.cpuEma cpu).toNat ≤ mlfqBudgetMaxNs.toNat) (m : Machine) :
    BusyBounded (S.on m) := by
  intro cpu c hc
  obtain ⟨c', -, rfl⟩ := Option.map_eq_some_iff.mp hc
  exact h cpu

theorem mapMachine_machine {S : MeterState ι} {e : TaskEvent}
    (hd : ∀ m, e.machine = some m → DefaultMeters m.rod) (m : Machine)
    (hm : (e.mapMachine S.on).machine = some m) : DefaultMeters m.rod := by
  have hon : ∃ m', e.machine = some m' ∧ m = S.on m' := by
    cases e with
    | select m' p prevCpu sync now => exact ⟨m', rfl, (Option.some.inj hm).symm⟩
    | enqueue m' p flags now => exact ⟨m', rfl, (Option.some.inj hm).symm⟩
    | running m' p now => exact ⟨m', rfl, (Option.some.inj hm).symm⟩
    | steal m' qid cpu => exact ⟨m', rfl, (Option.some.inj hm).symm⟩
    | stopping m' p runnable now => exact ⟨m', rfl, (Option.some.inj hm).symm⟩
    | quiescent m' => exact ⟨m', rfl, (Option.some.inj hm).symm⟩
    | reset p now => cases hm
    | keep => cases hm
    | gpuSubmit now => cases hm
  obtain ⟨m', he, rfl⟩ := hon
  exact hd m' he

/-! ## The calls are those of the callbacks

Every gauge a callback moves is set to what a call of its list returns. -/

/-- A gauge is left alone, or set to what a listed call returns. -/
def MovedBy (calls : List MeterCall) (old new : U64) : Prop :=
  new = old ∨ ∃ c ∈ calls, new = c.result

/-- A busy gauge is left alone, or climbs over `delta` from what a listed
decay returns. -/
def BusyMovedBy (calls : List MeterCall) (rod : Rodata) (delta old new : U64) : Prop :=
  new = old ∨ ∃ rested ∈ calls,
    .climb rested.result delta rod.budgetMaxNs rod.alpha ∈ calls
      ∧ new = mlfqEmaClimb rested.result delta rod.budgetMaxNs rod.alpha

theorem MovedBy.mono {calls calls' : List MeterCall} {old new : U64}
    (h : MovedBy calls old new) (hsub : calls ⊆ calls') : MovedBy calls' old new :=
  h.imp_right fun ⟨c, hc, hres⟩ => ⟨c, hsub hc, hres⟩

theorem BusyMovedBy.mono {calls calls' : List MeterCall} {rod : Rodata} {delta old new : U64}
    (h : BusyMovedBy calls rod delta old new) (hsub : calls ⊆ calls') :
    BusyMovedBy calls' rod delta old new :=
  h.imp_right fun ⟨rested, hrested, hclimb, hres⟩ => ⟨rested, hsub hrested, hsub hclimb, hres⟩

/-- The cadence block. -/
def cadenceOf (t : TaskCtx) : U64 × U64 × U32 :=
  (t.sleepMeanEma, t.sleepVarEma, t.sleepVarRatio)

theorem chargeCalls_of_ran (m : Machine) {t : TaskCtx} {now : U64} (h : segmentNs t now ≠ 0) :
    chargeCalls m t now
      = .deltaFair (segmentNs t now) t.weight
        :: .climb t.ema (segmentNs t now) m.rod.budgetMaxNs m.rod.alpha
        :: match m.lookupCpuState m.cpu with
          | none => []
          | some c => [.decay c.cpuEma (cpuElapsed c now) m.rod.emaHalfLifeNs,
              .climb (mlfqEmaDecay c.cpuEma (cpuElapsed c now) m.rod.emaHalfLifeNs)
                (segmentNs t now) m.rod.budgetMaxNs m.rod.alpha] :=
  if_neg h

/-- The charge of a segment: the vruntime and the gauge of the task. -/
theorem stopSegment_calls (m : Machine) (p : TaskStruct) (t : TaskCtx) (runnable : Bool)
    (now : U64) :
    let charged := (stopSegment m p t runnable now).2.1
    MovedBy (chargeCalls m t now) t.ema charged.ema
      ∧ (charged.vruntime = t.vruntime
        ∨ ∃ c ∈ chargeCalls m t now, charged.vruntime = t.vruntime + c.result) := by
  obtain ⟨burst, at_, hseg⟩ := stopSegment_frame m p t runnable now
  by_cases hdelta : segmentNs t now = 0
  · rw [hseg]
    refine ⟨.inl (if_pos hdelta), .inl ?_⟩
    show t.vruntime + calcDeltaFairBpf (segmentNs t now) t.weight = t.vruntime
    simp [hdelta, calcDeltaFairBpf]
  · rw [hseg, chargeCalls_of_ran m hdelta]
    refine ⟨.inr ⟨.climb t.ema (segmentNs t now) m.rod.budgetMaxNs m.rod.alpha, ?_,
      if_neg hdelta⟩, .inr ⟨.deltaFair (segmentNs t now) t.weight, List.mem_cons_self, rfl⟩⟩
    exact List.mem_cons_of_mem _ List.mem_cons_self

/-- The charge of a segment: the busy gauge of its CPU climbs from what
the decay over the time since the last one leaves. -/
theorem stopSegment_busy_calls (m : Machine) (p : TaskStruct) (t : TaskCtx) (runnable : Bool)
    (now : U64) {cpu : Nat} {c : CpuState} (hc : m.cpuState cpu = some c) :
    ∃ c', (stopSegment m p t runnable now).1.cpuState cpu = some c'
      ∧ BusyMovedBy (chargeCalls m t now) m.rod (segmentNs t now) c.cpuEma c'.cpuEma := by
  by_cases hdelta : segmentNs t now = 0
  · refine ⟨c, ?_, .inl rfl⟩
    simp only [stopSegment, hdelta, ne_eq, not_true_eq_false, if_false]
    exact hc
  have hstate : (stopSegment m p t runnable now).1.cpuState
      = (m.storeCpuState (chargeCpu m.rod now (segmentNs t now))).cpuState := by
    rw [stopSegment, if_pos hdelta, emitSample_cpuState]
    rfl
  rw [hstate, Machine.storeCpuState]
  by_cases hcpu : cpu = m.cpu
  · subst hcpu
    have hown : m.lookupCpuState m.cpu = some c := hc
    rw [chargeCalls_of_ran m hdelta, hown]
    refine ⟨chargeCpu m.rod now (segmentNs t now) c, by simp [hc], .inr
      ⟨.decay c.cpuEma (cpuElapsed c now) m.rod.emaHalfLifeNs, by simp, ?_, rfl⟩⟩
    simp [MeterCall.result]
  · refine ⟨c, ?_, .inl rfl⟩
    show Function.update m.cpuState m.cpu _ cpu = some c
    rw [Function.update_of_ne hcpu]
    exact hc

/-- A blocking stop folds one sleep into the cadence block, or none. -/
theorem foldSleep_calls (t : TaskCtx) (now : U64) :
    cadenceOf (foldSleep t now) = cadenceOf t
      ∨ ∃ sleepNs, .sleepUpdate t sleepNs ∈ foldCalls t now
        ∧ cadenceOf (foldSleep t now) = cadenceOf (mlfqSleepEmaUpdate t sleepNs) := by
  rw [foldSleep, foldCalls]
  split
  · exact .inr ⟨foldedSleepNs t now, List.mem_singleton.mpr rfl, rfl⟩
  · split
    · exact .inr ⟨mlfqLongSleepNs + 1, List.mem_singleton.mpr rfl, rfl⟩
    · exact .inl rfl

/-- A stop keeps the gauge and the vruntime its charge left. -/
theorem mlfqStopping_charged (m : Machine) (p : TaskStruct) (t : TaskCtx) (runnable : Bool)
    (now : U64) :
    let charged := (stopSegment m p t runnable now).2.1
    (mlfqStopping m p t runnable now).tctx.ema = charged.ema
      ∧ (mlfqStopping m p t runnable now).tctx.vruntime = charged.vruntime := by
  obtain ⟨mean, var, ratio, gpu, hblock⟩ :=
    stopBlock_frame (stopSegment m p t runnable now).2.1 runnable now
  refine ⟨?_, ?_⟩
  · show (stopBlock _ runnable now).ema = _
    rw [hblock]
  · show (stopBlock _ runnable now).vruntime = _
    rw [hblock]

/-- The cadence block changes at a blocking stop only, by one fold. -/
theorem mlfqStopping_cadence (m : Machine) (p : TaskStruct) (t : TaskCtx) (runnable : Bool)
    (now : U64) :
    let stopped := (mlfqStopping m p t runnable now).tctx
    cadenceOf stopped = cadenceOf t ∨ ∃ charged sleepNs,
      .sleepUpdate charged sleepNs ∈ (TaskEvent.stopping m p runnable now).calls t
        ∧ cadenceOf stopped = cadenceOf (mlfqSleepEmaUpdate charged sleepNs) := by
  obtain ⟨burst, at_, hseg⟩ := stopSegment_frame m p t runnable now
  have hsame : cadenceOf (stopSegment m p t runnable now).2.1 = cadenceOf t := by
    rw [hseg]
    rfl
  cases runnable with
  | true => exact .inl hsame
  | false =>
      rcases foldSleep_calls (stopSegment m p t false now).2.1 now with hnone | ⟨s, hs, hfold⟩
      · exact .inl (hnone.trans hsame)
      · exact .inr ⟨_, s, List.mem_append_right _ hs, hfold⟩

/-- A stop keeps the busy gauges its charge left. -/
theorem mlfqStopping_cpuEma (m : Machine) (p : TaskStruct) (t : TaskCtx) (runnable : Bool)
    (now : U64) {cpu : Nat} {c : CpuState}
    (hc : (stopSegment m p t runnable now).1.cpuState cpu = some c) :
    ∃ c', (mlfqStopping m p t runnable now).machine.cpuState cpu = some c'
      ∧ c'.cpuEma = c.cpuEma := by
  rw [mlfqStopping]
  split
  · exact ⟨c, by rw [Machine.q1Set_cpuState]; exact hc, rfl⟩
  · by_cases hcpu : cpu = ((stopSegment m p t runnable now).1.q1Set
        (stopSegment m p t runnable now).1.cpu false).cpu
    · refine ⟨clearRunning c, ?_, rfl⟩
      simp [Machine.storeCpuState, ← hcpu, hc]
    · refine ⟨c, ?_, rfl⟩
      simp only [Machine.storeCpuState, Function.update_of_ne hcpu, Machine.q1Set_cpuState]
      exact hc

/-- **The gauges a stop moves.** -/
theorem mlfqStopping_calls (m : Machine) (p : TaskStruct) (t : TaskCtx) (runnable : Bool)
    (now : U64) :
    let calls := (TaskEvent.stopping m p runnable now).calls t
    let stopped := mlfqStopping m p t runnable now
    MovedBy calls t.ema stopped.tctx.ema
      ∧ (stopped.tctx.vruntime = t.vruntime
        ∨ ∃ c ∈ calls, stopped.tctx.vruntime = t.vruntime + c.result)
      ∧ (cadenceOf stopped.tctx = cadenceOf t ∨ ∃ charged sleepNs,
        .sleepUpdate charged sleepNs ∈ calls
          ∧ cadenceOf stopped.tctx = cadenceOf (mlfqSleepEmaUpdate charged sleepNs))
      ∧ ∀ cpu c, m.cpuState cpu = some c → ∃ c', stopped.machine.cpuState cpu = some c'
        ∧ BusyMovedBy calls m.rod (segmentNs t now) c.cpuEma c'.cpuEma := by
  intro calls stopped
  have hcharge : chargeCalls m t now ⊆ calls := List.subset_append_left _ _
  obtain ⟨hema, hvruntime⟩ := stopSegment_calls m p t runnable now
  obtain ⟨hkeepEma, hkeepVruntime⟩ := mlfqStopping_charged m p t runnable now
  refine ⟨?_, ?_, mlfqStopping_cadence m p t runnable now, ?_⟩
  · rw [hkeepEma]
    exact hema.mono hcharge
  · rw [hkeepVruntime]
    exact hvruntime.imp_right fun ⟨c, hc, hres⟩ => ⟨c, hcharge hc, hres⟩
  · intro cpu c hc
    obtain ⟨c', hc', hbusy⟩ := stopSegment_busy_calls m p t runnable now hc
    obtain ⟨c'', hc'', hkeep⟩ := mlfqStopping_cpuEma m p t runnable now hc'
    refine ⟨c'', hc'', ?_⟩
    rw [hkeep]
    exact hbusy.mono hcharge

/-- The wakeup waits fold the wait, if there is one. -/
theorem measureWait_sqEma (rod : Rodata) (t : TaskCtx) (now : U64) :
    (measureWait rod t now).1.sqEma
      = match foldedWait t now with
        | some wait => mlfqEmaClimb t.sqEma wait mlfqSqEmaMaxNs rod.alpha
        | none => t.sqEma := by
  rw [measureWait, foldedWait]
  by_cases hwait : t.enqAt ≠ 0 ∧ mlfqTimeBefore now t.enqAt = false
  · by_cases hwoken : t.flags.enqWakeup = true
    · have hfolds : t.enqAt ≠ 0 ∧ mlfqTimeBefore now t.enqAt = false
          ∧ t.flags.enqWakeup = true := ⟨hwait.1, hwait.2, hwoken⟩
      rw [if_pos hwait, if_pos hwoken, if_pos hfolds]
    · have hkeeps : ¬ (t.enqAt ≠ 0 ∧ mlfqTimeBefore now t.enqAt = false
          ∧ t.flags.enqWakeup = true) := fun hall => hwoken hall.2.2
      rw [if_pos hwait, if_neg hwoken, if_neg hkeeps]
  · rw [if_neg hwait, if_neg fun hall => hwait ⟨hall.1, hall.2.1⟩]

/-- **The gauges a start moves**: the wakeup waits and the frequency. -/
theorem mlfqRunning_calls (m : Machine) (p : TaskStruct) (t : TaskCtx) (now : U64) :
    let calls := (TaskEvent.running m p now).calls t
    MovedBy calls t.sqEma (mlfqRunning m p t now).tctx.sqEma
      ∧ ∀ level, (mlfqRunning m p t now).cpuperf = some level →
        level = mlfqCpuperfQ1 ∨ ∃ c ∈ calls, level = c.result := by
  intro calls
  constructor
  · obtain ⟨llc, qid, hown⟩ := acquireOnRunning_frame m t
    have hsq : (mlfqRunning m p t now).tctx.sqEma
        = (match foldedWait t now with
          | some wait => mlfqEmaClimb t.sqEma wait mlfqSqEmaMaxNs m.rod.alpha
          | none => t.sqEma) := by
      simp only [mlfqRunning, startSegment, hown]
      exact measureWait_sqEma m.rod _ now
    rw [hsq]
    cases hwait : foldedWait t now with
    | none => exact .inl rfl
    | some wait =>
        refine .inr ⟨.climb t.sqEma wait mlfqSqEmaMaxNs m.rod.alpha, ?_, rfl⟩
        exact List.mem_append_left _ (List.mem_map.mpr ⟨wait, by rw [hwait]; simp, rfl⟩)
  · intro level hlevel
    simp only [mlfqRunning] at hlevel
    split at hlevel
    · exact .inl (Option.some.inj hlevel).symm
    · rename_i hq
      obtain ⟨c, hc, rfl⟩ := Option.map_eq_some_iff.mp hlevel
      refine .inr ⟨.cpuperf c.cpuEma, List.mem_append_right _ ?_, rfl⟩
      rw [if_neg hq, hc]
      exact List.mem_singleton.mpr rfl

/-- **The gauges an enqueue moves**: the interactivity over the sleep, and
the two scaled requests behind a placement. -/
theorem enqueueTask_calls {m : Machine} {p : TaskStruct} {t t' : TaskCtx} {flags : EnqFlags}
    {now : U64} (h : (TaskEvent.enqueue m p flags now).after t = some t') :
    let calls := (TaskEvent.enqueue m p flags now).calls t
    let settled := settledTask m p flags t now
    let q := m.queues settled.queue
    MovedBy calls t.ema t'.ema
      ∧ ∃ limit ∈ calls, ∃ slice ∈ calls,
        placementLag q settled = (if clockLag q settled > limit.result then limit.result
            else clockLag q settled)
          ∧ (placementVslice q settled = slice.result
            ∨ placementVslice q settled = slice.result / 2) := by
  intro calls settled q
  obtain ⟨hw, -, hplace⟩ := after_enqueue h
  have hkeep : t'.ema = settled.ema := by
    rw [hplace.routed]
  have hcalls : calls = (if flags.wakeup ∧ t.lastSleepAt ≠ 0
        ∧ mlfqTimeBefore t.lastSleepAt now then
          [.decay t.ema (now - t.lastSleepAt) m.rod.emaHalfLifeNs] else []) ++
      [.deltaFair (q.maxSliceNs + mlfqTickNs) settled.weight,
        .deltaFair q.maxSliceNs settled.weight] :=
    if_neg hw
  constructor
  · rw [hkeep, hcalls]
    by_cases hwoken : flags.wakeup = true
    · have hema : settled.ema = (chargeSleep m.rod { t with weight := p.weight } now).ema :=
        (settleQueue_wakeup hwoken _ now).1
      rw [hema, chargeSleep]
      by_cases hslept : t.lastSleepAt ≠ 0 ∧ mlfqTimeBefore t.lastSleepAt now = true
      · refine .inr ⟨.decay t.ema (now - t.lastSleepAt) m.rod.emaHalfLifeNs, ?_, if_pos hslept⟩
        rw [if_pos ⟨hwoken, hslept⟩]
        exact List.mem_cons_self
      · exact .inl (if_neg hslept)
    · exact .inl (settleQueue_not_wakeup (Bool.eq_false_iff.mpr hwoken) _ now).1
  · refine ⟨.deltaFair (q.maxSliceNs + mlfqTickNs) settled.weight, by rw [hcalls]; simp,
      .deltaFair q.maxSliceNs settled.weight, by rw [hcalls]; simp, rfl, ?_⟩
    rw [placementVslice]
    split
    · exact .inr rfl
    · exact .inl rfl

/-! ## The calls within the ranges -/

section Calls

variable {m : Machine} {t : TaskCtx}

theorem decay_fits (hd : DefaultMeters m.rod) {ema : U64}
    (h : ema.toNat ≤ mlfqBudgetMaxNs.toNat) (sleepNs : U64) :
    (MeterCall.decay ema sleepNs m.rod.emaHalfLifeNs).Fits := by
  rw [hd.halfLife]
  exact ⟨lt_of_le_of_lt h (by decide), by decide, by decide⟩

theorem climb_fits (hd : DefaultMeters m.rod) {ema : U64}
    (h : ema.toNat ≤ mlfqBudgetMaxNs.toNat) (delta : U64) :
    (MeterCall.climb ema delta m.rod.budgetMaxNs m.rod.alpha).Fits := by
  rw [hd.budget, hd.alpha]
  exact ⟨climbFits_budget, h⟩

theorem lookupCpuState_busy (h : BusyBounded m) {cpu : Int} {c : CpuState}
    (hc : m.lookupCpuState cpu = some c) : c.cpuEma.toNat ≤ mlfqBudgetMaxNs.toNat := by
  rw [Machine.lookupCpuState] at hc
  split at hc
  · cases hc
  · exact h _ c hc

theorem chargeCalls_fit (hd : DefaultMeters m.rod) (hb : BusyBounded m) (h : InRange t)
    {now : U64} (hseg : (segmentNs t now).toNat * 100 < 2 ^ 64) :
    ∀ c ∈ chargeCalls m t now, c.Fits := by
  intro c hc
  simp only [chargeCalls] at hc
  split at hc
  · cases hc
  rcases List.mem_append.mp hc with hc | hc
  · rcases List.mem_cons.mp hc with rfl | hc
    · exact ⟨hseg, h.weight⟩
    · obtain rfl := List.mem_singleton.mp hc
      exact climb_fits hd h.ema _
  · cases hcpu : m.lookupCpuState m.cpu with
    | none =>
        rw [hcpu] at hc
        cases hc
    | some cpu =>
        have hema := lookupCpuState_busy hb hcpu
        rw [hcpu] at hc
        rcases List.mem_cons.mp hc with rfl | hc
        · exact decay_fits hd hema _
        · obtain rfl := List.mem_singleton.mp hc
          refine climb_fits hd ?_ _
          rw [hd.halfLife]
          exact decayed_le_budget hema _

theorem foldCalls_fit (h : CadenceBounded t) (now : U64) :
    ∀ c ∈ foldCalls t now, c.Fits := by
  intro c hc
  rw [foldCalls] at hc
  split at hc
  · obtain rfl := List.mem_singleton.mp hc
    exact h
  · split at hc
    · obtain rfl := List.mem_singleton.mp hc
      exact h
    · cases hc

theorem enqueueCalls_fit (hd : DefaultMeters m.rod)
    (hq : ∀ q, (m.queues q).maxSliceNs.toNat ≤ 4000000) (h : InRange t) {p : TaskStruct}
    (flags : EnqFlags) (now : U64) :
    ∀ c ∈ (TaskEvent.enqueue m p flags now).calls t, c.Fits := by
  intro c hc
  simp only [TaskEvent.calls] at hc
  split at hc
  · cases hc
  rename_i hw
  rcases List.mem_append.mp hc with hc | hc
  · split at hc
    · obtain rfl := List.mem_singleton.mp hc
      exact decay_fits hd h.ema _
    · cases hc
  · have hset := settledTask_inRange hd h hw flags now
    generalize settledTask m p flags t now = u at hset hc
    have hslice := hq u.queue
    rcases List.mem_cons.mp hc with rfl | hc
    · refine ⟨?_, hset.weight⟩
      rw [BitVec.toNat_add_of_lt (by show _ + 1000000 < _; omega)]
      show (_ + 1000000) * 100 < _
      omega
    · obtain rfl := List.mem_singleton.mp hc
      exact ⟨by omega, hset.weight⟩

theorem runningCalls_fit (hd : DefaultMeters m.rod) (hb : BusyBounded m) (h : InRange t)
    (p : TaskStruct) (now : U64) :
    ∀ c ∈ (TaskEvent.running m p now).calls t, c.Fits := by
  intro c hc
  simp only [TaskEvent.calls] at hc
  rcases List.mem_append.mp hc with hc | hc
  · obtain ⟨wait, -, rfl⟩ := List.mem_map.mp hc
    show (MeterCall.climb t.sqEma wait mlfqSqEmaMaxNs m.rod.alpha).Fits
    rw [hd.alpha]
    exact ⟨climbFits_sqEma, h.sqEma⟩
  · split at hc
    · cases hc
    · obtain ⟨cpu, hcpu, rfl⟩ := List.mem_map.mp hc
      rw [Option.mem_toList] at hcpu
      exact lookupCpuState_busy hb hcpu

theorem stoppingCalls_fit (hd : DefaultMeters m.rod) (hb : BusyBounded m) (h : InRange t)
    (p : TaskStruct) (runnable : Bool) {now : U64}
    (hseg : (segmentNs t now).toNat * 100 < 2 ^ 64) :
    ∀ c ∈ (TaskEvent.stopping m p runnable now).calls t, c.Fits := by
  intro c hc
  simp only [TaskEvent.calls] at hc
  rcases List.mem_append.mp hc with hc | hc
  · exact chargeCalls_fit hd hb h hseg c hc
  · split at hc
    · cases hc
    · exact foldCalls_fit (stopSegment_inRange hd h p runnable now).cadence now c hc

end Calls

/-! ## The runs -/

variable [DecidableEq ι]

/-- **Within the ranges every call fits.** -/
theorem MetersBounded.calls_fit {tr : List (MeterEntry ι)} {S : MeterState ι}
    (h : MetersBounded tr S) {e : MeterEvent ι} (he : e.Regular S) :
    ∀ c ∈ e.calls S, c.Fits := by
  intro c hc
  cases e with
  | fold waitTotal waitCount wakeupCnt elapsed adapts =>
      -- the fold decays one in fixed point and the latency gauge
      have hdecay (ema sleepNs : U64) (hema : ema.toNat ≤ mlfqSysLatMaxNs.toNat) :
          (MeterCall.decay ema sleepNs mlfqSysGaugeHalfLifeNs).Fits :=
        ⟨lt_of_le_of_lt hema (by decide), by decide, by decide⟩
      simp only [MeterEvent.calls] at hc
      rcases List.mem_append.mp hc with hc | hc
      · split at hc
        · cases hc
        · rcases List.mem_cons.mp hc with rfl | hc
          · exact hdecay _ _ (by decide)
          · obtain rfl := List.mem_singleton.mp hc
            exact hdecay _ _ h.lat
      · split at hc
        · obtain rfl := List.mem_singleton.mp hc
          exact hdecay _ _ (by decide)
        · cases hc
  | task i e =>
      obtain ⟨hd, -, hseg⟩ := he
      have hrange := h.tasks i
      cases e with
      | enqueue m p flags now =>
          have hd' : DefaultMeters (S.on m).rod := hd m rfl
          refine enqueueCalls_fit hd' (fun q => ?_) hrange flags now c hc
          rw [show ((S.on m).queues q).maxSliceNs = _ from h.slices q]
          exact slice_le q
      | running m p now =>
          have hd' : DefaultMeters (S.on m).rod := hd m rfl
          exact runningCalls_fit hd' (on_busyBounded h.busy m) hrange p now c hc
      | stopping m p runnable now =>
          have hd' : DefaultMeters (S.on m).rod := hd m rfl
          exact stoppingCalls_fit hd' (on_busyBounded h.busy m) hrange p runnable hseg c hc
      | reset p now => cases hc
      | select m p prevCpu sync now => cases hc
      | keep => cases hc
      | steal m qid cpu => cases hc
      | gpuSubmit now => cases hc
      | quiescent m => cases hc

theorem MeterState.Fresh.bounded {S : MeterState ι} (h : S.Fresh) : MetersBounded [] S := by
  obtain ⟨htasks, ⟨rod, n, createDsq, m, hd, hinit, hq⟩, hcpu, hlat, -⟩ := h
  refine ⟨fun i => ?_, fun i => ?_, fun cpu => ?_, ?_, fun q => ?_⟩
  · obtain ⟨p, now, hi⟩ := htasks i
    rw [hi]
    exact mlfqResetTaskCtx_inRange ..
  · obtain ⟨p, now, hi⟩ := htasks i
    rw [hi]
    exact ⟨Int.le_refl 0, Int.le_refl 0⟩
  · rw [hcpu]
    exact Nat.zero_le _
  · rw [hlat]
    exact Nat.zero_le _
  · obtain ⟨rfl, -, -⟩ := mlfqInit_ok hinit
    rw [hq, ← hd.slices q]
    rfl

/-- The lag of every task after a callback of one of them. -/
theorem MetersBounded.lag_step {tr : List (MeterEntry ι)} {S : MeterState ι}
    (h : MetersBounded tr S) {i : ι} {e : TaskEvent} {t' : TaskCtx}
    (hs : (e.mapMachine S.on).after (S.tasks i) = some t') (S' : MeterState ι) :
    0 ≤ t'.vlag ∧ t'.vlag ≤ (lastLagLimit i (⟨S, .task i e, S'⟩ :: tr)).toNat := by
  have hkeep (he : t'.vlag = (S.tasks i).vlag)
      (hl : lastLagLimit i (⟨S, .task i e, S'⟩ :: tr) = lastLagLimit i tr) :
      0 ≤ t'.vlag ∧ t'.vlag ≤ (lastLagLimit i (⟨S, .task i e, S'⟩ :: tr)).toNat := by
    rw [he, hl]
    exact h.lag i
  cases e with
  | reset p now =>
      obtain rfl := Option.some.inj hs
      exact ⟨Int.le_refl 0, Int.natCast_nonneg _⟩
  | enqueue m p flags now =>
      obtain ⟨hw, ht, -⟩ := after_enqueue hs
      have hvlag := enqueueTask_vlag hw ht
      by_cases hroute : (enqueueTask (S.on m) p (S.tasks i) flags now).route.places = true
      · rw [hvlag, if_pos hroute, lastLagLimit, if_pos ⟨rfl, hroute⟩]
        apply placementLag_range
        rw [show ((S.on m).queues _).maxSliceNs = _ from h.slices _]
        exact slice_le _
      · refine hkeep ?_ ?_
        · rw [hvlag, if_neg hroute]
        · rw [lastLagLimit, if_neg fun hc => hroute hc.2]
  | select m p prevCpu sync now => exact hkeep (after_vlag hs rfl) rfl
  | running m p now => exact hkeep (after_vlag hs rfl) rfl
  | keep => exact hkeep (after_vlag hs rfl) rfl
  | steal m qid cpu => exact hkeep (after_vlag hs rfl) rfl
  | gpuSubmit now => exact hkeep (after_vlag hs rfl) rfl
  | stopping m p runnable now => exact hkeep (after_vlag hs rfl) rfl
  | quiescent m => exact hkeep (after_vlag hs rfl) rfl

/-- The callbacks of one task leave the last placement of another. -/
theorem lastLagLimit_of_ne {i j : ι} (hij : i ≠ j) (S : MeterState ι) (e : TaskEvent)
    (S' : MeterState ι) (tr : List (MeterEntry ι)) :
    lastLagLimit j (⟨S, .task i e, S'⟩ :: tr) = lastLagLimit j tr := by
  cases e with
  | enqueue m p flags now => rw [lastLagLimit, if_neg fun hc => hij hc.1]
  | reset p now => rw [lastLagLimit, if_neg hij]
  | _ => rfl

/-- The busy gauges after a callback. -/
theorem MetersBounded.busy_step {tr : List (MeterEntry ι)} {S : MeterState ι}
    (h : MetersBounded tr S) {e : TaskEvent}
    (hd : ∀ m, (e.mapMachine S.on).machine = some m → DefaultMeters m.rod) (t : TaskCtx)
    (cpu : Nat) :
    ((e.mapMachine S.on).busy S.cpuEma t cpu).toNat ≤ mlfqBudgetMaxNs.toNat := by
  cases e with
  | running m p now =>
      exact busyOf_le (mlfqRunning_busy (on_busyBounded h.busy m) p t now) (h.busy cpu)
  | stopping m p runnable now =>
      exact busyOf_le (mlfqStopping_busy (hd _ rfl) (on_busyBounded h.busy m) p t runnable now)
        (h.busy cpu)
  | _ => exact h.busy cpu

/-- **One event keeps the ranges.** -/
theorem MetersBounded.step {tr : List (MeterEntry ι)} {S S' : MeterState ι} {e : MeterEvent ι}
    (h : MetersBounded tr S) (hs : stepMeters S e = some S') (he : e.Regular S) :
    MetersBounded (⟨S, e, S'⟩ :: tr) S' := by
  cases e with
  | fold waitTotal waitCount wakeupCnt elapsed adapts =>
      obtain rfl := Option.some.inj hs
      exact ⟨h.tasks, h.lag, h.busy, mlfqSysLatFold_le h.lat .., h.slices⟩
  | task i e =>
      obtain ⟨t', ht', rfl⟩ := Option.map_eq_some_iff.mp hs
      have hd := fun m => mapMachine_machine (S := S) he.1 m
      refine ⟨fun j => ?_, fun j => ?_, h.busy_step hd _, h.lat, fun q => ?_⟩
      · by_cases hj : j = i
        · rw [hj]
          simp only [Function.update_self]
          exact after_inRange ht' hd (h.tasks i)
        · simp only [Function.update_of_ne hj]
          exact h.tasks j
      · by_cases hj : j = i
        · rw [hj]
          simp only [Function.update_self]
          exact h.lag_step ht' _
        · simp only [Function.update_of_ne hj]
          rw [lastLagLimit_of_ne (Ne.symm hj)]
          exact h.lag j
      · exact (leaving_maxSliceNs ht' q).trans (h.slices q)

/-- The ranges over a run of regular events. -/
theorem MeterRun.bounded {tr : List (MeterEntry ι)} {S : MeterState ι} (h : MeterRun tr S)
    (hr : ∀ x ∈ tr, x.event.Regular x.pre) : MetersBounded tr S := by
  apply Run.invariant_where (C := fun x => x.event.Regular x.pre) _ _ h hr
  · intro S hS
    exact hS.bounded
  · intro tr S e S' hI hs hC
    exact hI.step hs hC

/-- **The gauges stay in their ranges, and their arithmetic never wraps.**
In every run with the default constants: the ranges of every task, the
lag between zero and the limit of the last placement, the busy gauges
and the level they map to, and an exact result of every call the next
event can make. -/
theorem meters_bounded {tr : List (MeterEntry ι)} {S : MeterState ι} (h : MeterRun tr S)
    (hr : ∀ x ∈ tr, x.event.Regular x.pre) :
    (∀ i, InRange (S.tasks i))
      ∧ (∀ i, 0 ≤ (S.tasks i).vlag
          ∧ (S.tasks i).vlag ≤ (lastLagLimit i tr).toNat)
      ∧ (∀ cpu, (S.cpuEma cpu).toNat ≤ mlfqBudgetMaxNs.toNat
          ∧ (mlfqCpuperfFromEma (S.cpuEma cpu)).toNat ≤ 1024)
      ∧ ∀ e : MeterEvent ι, e.Regular S → ∀ c ∈ e.calls S, c.Exact := by
  have hb := h.bounded hr
  exact ⟨hb.tasks, hb.lag, fun cpu => ⟨hb.busy cpu, mlfqCpuperfFromEma_le _⟩,
    fun e he c hc => (hb.calls_fit he c hc).exact⟩

/-- The system as attached: one CPU, the default configuration. -/
def MeterState.attached : MeterState Unit where
  tasks _ := mlfqResetTaskCtx {} { pid := 1 } 1
  queues := (Machine.zeroed {} 1).seed.queues
  cpuEma _ := 0
  latEma := 0
  rateEma := 0

theorem MeterState.attached_fresh : attached.Fresh := by
  have hd : DefaultMeters {} := ⟨rfl, rfl, rfl, fun _ => rfl⟩
  refine ⟨fun _ => ⟨{ pid := 1 }, 1, rfl⟩, ?_, fun _ => rfl, rfl, rfl⟩
  exact ⟨{}, 1, fun _ => 0, (Machine.zeroed {} 1).seed, hd, rfl, rfl⟩

/-- A wakeup, a segment of 300 us that blocks, a second wakeup and a fold
of the system gauges. -/
def meteredSegment : List (MeterEvent Unit) :=
  let m := (Machine.zeroed {} 1).seed
  [.task () (.enqueue m { pid := 1 } { wakeup := true } 2000000),
    .task () (.running m { pid := 1 } 2100000),
    .task () (.stopping m { pid := 1 } false 2400000),
    .task () (.enqueue m { pid := 1 } { wakeup := true } 30000000),
    .fold 100000 1 2 1000000000 true]

theorem meters_bounded_segment :
    ∃ tr S, @MeterRun Unit _ tr S ∧ (S.tasks ()).ema ≠ 0 ∧ S.latEma ≠ 0
      ∧ InRange (S.tasks ()) := by
  obtain ⟨tr, S, h, htest⟩ :=
    exec_reaches stepMeters MeterState.attached_fresh meteredSegment
      (fun tr S => decide ((∀ x ∈ tr, x.event.Regular x.pre)
        ∧ (S.tasks ()).ema ≠ 0 ∧ S.latEma ≠ 0))
      (by decide +kernel)
  obtain ⟨hr, hema, hlat⟩ := of_decide_eq_true htest
  exact ⟨tr, S, h, hema, hlat, (meters_bounded h hr).1 ()⟩

/-- **The decay sandwich.** It holds of every gauge and half-life below
`2 ^ 56` and every sleep, and every decay of a gauge in a run is one of
these: of the task, of a CPU, and of the two of the system. -/
theorem decay_sandwich :
    (∀ ema sleepNs halfLife : U64, ema.toNat < 2 ^ 56 → 0 < halfLife.toNat →
        halfLife.toNat < 2 ^ 56 → DecaySandwich ema sleepNs halfLife) ∧
      ∀ (tr : List (MeterEntry ι)) (S : MeterState ι), MeterRun tr S →
        (∀ x ∈ tr, x.event.Regular x.pre) → ∀ e : MeterEvent ι, e.Regular S →
          ∀ ema sleepNs halfLife, .decay ema sleepNs halfLife ∈ e.calls S →
            DecaySandwich ema sleepNs halfLife := by
  constructor
  · intro ema sleepNs halfLife hema hpos hhalf
    exact .of_lt hema hpos hhalf sleepNs
  · intro tr S h hr e he ema sleepNs halfLife hc
    obtain ⟨hema, hpos, hhalf⟩ := (h.bounded hr).calls_fit he _ hc
    exact .of_lt hema hpos hhalf sleepNs

/-- One half-life and a half by the first part; the sleep before the second
wakeup of a run by the second. -/
theorem decay_sandwich_segment :
    ((1500000 : U64) ≤ mlfqEmaDecay 6000000 36000000 mlfqEmaHalfLifeNs
        ∧ mlfqEmaDecay 6000000 36000000 mlfqEmaHalfLifeNs ≤ 3000000)
      ∧ ∃ tr S, @MeterRun Unit _ tr S ∧ (S.tasks ()).ema ≠ 0
        ∧ DecaySandwich (S.tasks ()).ema 27600000 mlfqEmaHalfLifeNs := by
  have hhalf := (@decay_sandwich Unit _).1 6000000 36000000 mlfqEmaHalfLifeNs (by decide)
    (by decide) (by decide)
  refine ⟨⟨hhalf.lower, hhalf.upper⟩, ?_⟩
  let wakeup : MeterEvent Unit :=
    .task () (.enqueue (Machine.zeroed {} 1).seed { pid := 1 } { wakeup := true } 30000000)
  obtain ⟨tr, S, h, htest⟩ :=
    exec_reaches stepMeters MeterState.attached_fresh (meteredSegment.take 3)
      (fun tr S => decide ((∀ x ∈ tr, x.event.Regular x.pre) ∧ wakeup.Regular S
        ∧ (S.tasks ()).ema ≠ 0 ∧ (S.tasks ()).lastSleepAt = 2400000))
      (by decide +kernel)
  obtain ⟨hr, he, hema, hslept⟩ := of_decide_eq_true htest
  refine ⟨tr, S, h, hema, (@decay_sandwich Unit _).2 tr S h hr wakeup he _ _ _ ?_⟩
  have hasleep : (S.tasks ()).lastSleepAt ≠ 0
      ∧ mlfqTimeBefore (S.tasks ()).lastSleepAt 30000000 = true := by
    rw [hslept]
    decide
  simp only [wakeup, MeterEvent.calls, TaskEvent.mapMachine, TaskEvent.calls]
  rw [if_neg (by decide), if_pos ⟨trivial, hasleep⟩, hslept]
  exact List.mem_cons_self

end ScxMlfq
