import ScxMlfq.Bpf.Settle
import ScxMlfq.Bpf.SelectCpu
import ScxMlfq.Lib.Trace

/-!
# Run — Task

One task under the callbacks, in every order the kernel can deliver
them. The machine around the task is free at every event: other CPUs
run in between, so each callback brings the machine it finds, and a
result about every run holds whatever the rest of the system does.

A wakeup the selection inserts itself (the `sync` exit) does not reach
`mlfq_enqueue`; every other wakeup does. A task whose properties are
changed while it runs is stopped, leaves the runnable set and runs again
with no enqueue between; one that is switched into the class while it
runs starts from its reset.
-/

namespace ScxMlfq

open Trace

/-- Where a task stands between two callbacks. `asleep` is a task that
left its CPU not runnable; `off` one that left the runnable set
otherwise, or has not entered it yet. `ready` is a task put off its CPU
while still runnable: the kernel re-enqueues it, or keeps it at the head
of the local DSQ. -/
inductive Phase where
  | off
  | asleep
  | queued
  | running
  | ready
deriving DecidableEq, Repr

/-- Not in the runnable set. -/
def Phase.down : Phase → Bool
  | .off => true
  | .asleep => true
  | _ => false

structure TaskState where
  phase : Phase
  tctx : TaskCtx

/-- The callbacks of a task, with what they read. -/
inductive TaskEvent where
  | reset (p : TaskStruct) (now : U64)
  | select (m : Machine) (p : TaskStruct) (prevCpu : Int) (sync : Bool) (now : U64)
  | enqueue (m : Machine) (p : TaskStruct) (flags : EnqFlags) (now : U64)
  | running (m : Machine) (p : TaskStruct) (now : U64)
  | keep
  | steal (m : Machine) (qid : Queue) (cpu : Nat)
  | gpuSubmit (now : U64)
  | stopping (m : Machine) (p : TaskStruct) (runnable : Bool) (now : U64)
  | quiescent (m : Machine)

/-- The phases an enqueue can come from: a wakeup from a task that is
down, a run-out from one just put off its CPU, any other enqueue from a
task that neither runs nor sleeps. -/
def enqueueFrom (flags : EnqFlags) (phase : Phase) : Bool :=
  if flags.wakeup then phase.down
  else if flags.isZero then decide (phase = .ready)
  else decide (phase ≠ .running ∧ phase ≠ .asleep)

/-- Only a wakeup enqueues a task that blocked. -/
theorem enqueueFrom_asleep {flags : EnqFlags} (h : enqueueFrom flags .asleep = true) :
    flags.wakeup = true := by
  by_contra hw
  rw [enqueueFrom, if_neg hw] at h
  split at h <;> exact absurd h (by decide)

/-- The task after an insert by the selection, or still down. -/
def selectState (r : SelectResult) (s : TaskState) : TaskState where
  phase := if r.exit = .sync then .queued else s.phase
  tctx := r.tctx.getD s.tctx

/-- One callback. `none` where the phase of the task rules it out, and
where the scheduler exits with an error. -/
def stepTask (s : TaskState) : TaskEvent → Option TaskState
  | .reset p now =>
      if s.phase.down then some ⟨.off, mlfqResetTaskCtx s.tctx p now⟩ else none
  | .select m p prevCpu sync now =>
      if s.phase.down
      then some (selectState (mlfqSelectCpu m p (some s.tctx) prevCpu sync now) s)
      else none
  | .enqueue m p flags now =>
      if enqueueFrom flags s.phase then
        let r := enqueueTask m p s.tctx flags now
        if r.route = .error then none else some ⟨.queued, r.tctx.getD s.tctx⟩
      else none
  | .running m p now =>
      if s.phase = .running then none else some ⟨.running, (mlfqRunning m p s.tctx now).tctx⟩
  | .keep =>
      if s.phase = .running then some ⟨.running, mlfqKeepRunning s.tctx⟩ else none
  | .steal m qid cpu =>
      if s.phase = .queued then
        some ⟨.queued, (mlfqRunnableEnter m.gauges s.tctx qid (m.llcOfCpu cpu)).2⟩
      else none
  | .gpuSubmit now =>
      if s.phase = .running then some ⟨.running, mlfqGpuSubmitInc s.tctx now⟩ else none
  | .stopping m p runnable now =>
      if s.phase = .running then
        some ⟨if runnable then .ready else .asleep,
          (mlfqStopping m p s.tctx runnable now).tctx⟩
      else none
  | .quiescent m =>
      if s.phase = .running then none
      else some ⟨if s.phase = .asleep then .asleep else .off, (mlfqQuiescent m s.tctx).2⟩

/-- The task after a callback; none where the scheduler exits with an
error. -/
def TaskEvent.after (t : TaskCtx) : TaskEvent → Option TaskCtx
  | .reset p now => some (mlfqResetTaskCtx t p now)
  | .select m p prevCpu sync now =>
      some ((mlfqSelectCpu m p (some t) prevCpu sync now).tctx.getD t)
  | .enqueue m p flags now =>
      let r := enqueueTask m p t flags now
      if r.route = .error then none else r.tctx
  | .running m p now => some (mlfqRunning m p t now).tctx
  | .keep => some (mlfqKeepRunning t)
  | .steal m qid cpu => some (mlfqRunnableEnter m.gauges t qid (m.llcOfCpu cpu)).2
  | .gpuSubmit now => some (mlfqGpuSubmitInc t now)
  | .stopping m p runnable now => some (mlfqStopping m p t runnable now).tctx
  | .quiescent m => some (mlfqQuiescent m t).2

/-- The state `mlfq_init_task` leaves: a fresh allocation, reset. -/
def TaskState.initTask (p : TaskStruct) (now : U64) : TaskState :=
  ⟨.off, mlfqResetTaskCtx {} p now⟩

/-- A task `mlfq_init_task` has just run for. -/
def TaskState.Fresh (s : TaskState) : Prop :=
  ∃ p now, s = initTask p now

/-- The initial states are those a successful `mlfq_init_task` leaves, for
a context that is allocated zeroed. -/
theorem TaskState.fresh_iff {s : TaskState} :
    s.Fresh ↔ s.phase = .off ∧ ∃ p now, mlfqInitTask (some {}) p now = .ok s.tctx := by
  constructor
  · intro h
    obtain ⟨p, now, rfl⟩ := h
    exact ⟨rfl, p, now, rfl⟩
  · intro h
    obtain ⟨hphase, p, now, hinit⟩ := h
    refine ⟨p, now, ?_⟩
    cases s
    cases hphase
    cases hinit
    rfl

theorem TaskState.initTask_fresh (p : TaskStruct) (now : U64) : (initTask p now).Fresh :=
  ⟨p, now, rfl⟩

abbrev TaskEntry := Entry TaskState TaskEvent

/-- The runs of one task, from its initialisation. -/
abbrev TaskRun : List TaskEntry → TaskState → Prop :=
  Run (fun s e s' => stepTask s e = some s') TaskState.Fresh

/-! ## What one callback can do -/

/-- The fields the classification, the accounting and the aging live on,
unchanged. -/
structure Kept (t t' : TaskCtx) : Prop where
  queue : t'.queue = t.queue
  reenqCnt : t'.reenqCnt = t.reenqCnt
  queuedAt : t'.queuedAt = t.queuedAt
  ema : t'.ema = t.ema
  lastSleepAt : t'.lastSleepAt = t.lastSleepAt
  pendingFeats : t'.pendingFeats = t.pendingFeats
  vruntime : t'.vruntime = t.vruntime
  weight : t'.weight = t.weight

/-! Each callback that neither classifies nor charges nor resets, by what
it leaves of the task. -/

theorem stepTask_select {s s' : TaskState} {m : Machine} {p : TaskStruct} {prevCpu : Int}
    {sync : Bool} {now : U64} (h : stepTask s (.select m p prevCpu sync now) = some s') :
    s.phase.down = true
      ∧ s'.phase = (selectState (mlfqSelectCpu m p (some s.tctx) prevCpu sync now) s).phase
      ∧ ∃ w drm, s'.tctx
        = { s.tctx with wakeCpuState := w, flags := { s.tctx.flags with drmWake := drm } } := by
  rw [stepTask] at h
  split at h
  · rename_i hdown
    cases h
    obtain ⟨w, drm, hsel⟩ := mlfqSelectCpu_frame m p s.tctx prevCpu sync now
    refine ⟨hdown, rfl, w, drm, ?_⟩
    rw [selectState, hsel, Option.getD_some]
  · cases h

theorem stepTask_running {s s' : TaskState} {m : Machine} {p : TaskStruct} {now : U64}
    (h : stepTask s (.running m p now) = some s') :
    s.phase ≠ .running ∧ s' = ⟨.running, (mlfqRunning m p s.tctx now).tctx⟩ := by
  rw [stepTask] at h
  split at h
  · cases h
  · rename_i hp
    exact ⟨hp, (Option.some.inj h).symm⟩

theorem stepTask_keep {s s' : TaskState} (h : stepTask s .keep = some s') :
    s.phase = .running ∧ s' = ⟨.running, mlfqKeepRunning s.tctx⟩ := by
  rw [stepTask] at h
  split at h
  · rename_i hp
    exact ⟨hp, (Option.some.inj h).symm⟩
  · cases h

theorem stepTask_steal {s s' : TaskState} {m : Machine} {qid : Queue} {cpu : Nat}
    (h : stepTask s (.steal m qid cpu) = some s') :
    s.phase = .queued ∧ s'.phase = .queued
      ∧ ∃ llc q, s'.tctx = { s.tctx with lastLlc := llc, lastQid := q } := by
  rw [stepTask] at h
  split at h
  · rename_i hp
    cases h
    exact ⟨hp, rfl, mlfqRunnableEnter_task ..⟩
  · cases h

theorem stepTask_gpuSubmit {s s' : TaskState} {now : U64}
    (h : stepTask s (.gpuSubmit now) = some s') :
    s.phase = .running ∧ s' = ⟨.running, mlfqGpuSubmitInc s.tctx now⟩ := by
  rw [stepTask] at h
  split at h
  · rename_i hp
    exact ⟨hp, (Option.some.inj h).symm⟩
  · cases h

theorem stepTask_quiescent {s s' : TaskState} {m : Machine}
    (h : stepTask s (.quiescent m) = some s') :
    s.phase ≠ .running ∧ s'.phase = (if s.phase = .asleep then .asleep else .off)
      ∧ ∃ llc q, s'.tctx = { s.tctx with lastLlc := llc, lastQid := q } := by
  rw [stepTask] at h
  split at h
  · cases h
  · rename_i hp
    cases h
    exact ⟨hp, rfl, mlfqRunnableExit_task ..⟩

/-- The callbacks that neither classify nor charge nor reset. -/
def TaskEvent.quiet : TaskEvent → Bool
  | .reset .. => false
  | .enqueue .. => false
  | .stopping .. => false
  | _ => true

/-- A callback is quiet, resets, enqueues or stops. -/
theorem TaskEvent.quiet_cases (e : TaskEvent) :
    e.quiet = true ∨ (∃ p now, e = .reset p now) ∨ (∃ m p flags now, e = .enqueue m p flags now)
      ∨ ∃ m p runnable now, e = .stopping m p runnable now := by
  cases e with
  | reset p now => exact .inr (.inl ⟨p, now, rfl⟩)
  | enqueue m p flags now => exact .inr (.inr (.inl ⟨m, p, flags, now, rfl⟩))
  | stopping m p runnable now => exact .inr (.inr (.inr ⟨m, p, runnable, now, rfl⟩))
  | _ => exact .inl rfl

/-- `t'` is `t` after a quiet callback: only the selection's record, the
ownership record, the stamps and the measurement of the wait, and the GPU
submissions differ. -/
def Undisturbed (t t' : TaskCtx) : Prop :=
  t' = { t with
    wakeCpuState := t'.wakeCpuState
    flags := t'.flags
    lastLlc := t'.lastLlc
    lastQid := t'.lastQid
    lastRunAt := t'.lastRunAt
    enqAt := t'.enqAt
    lastQWaitNs := t'.lastQWaitNs
    lastWakeLatNs := t'.lastWakeLatNs
    sqEma := t'.sqEma
    gpuSubmit := t'.gpuSubmit
    lastGpuSubmitAt := t'.lastGpuSubmitAt }

/-- What the selection leaves of the task. -/
theorem after_select {t t' : TaskCtx} {m : Machine} {p : TaskStruct} {prevCpu : Int}
    {sync : Bool} {now : U64} (h : (TaskEvent.select m p prevCpu sync now).after t = some t') :
    ∃ w drm, t' = { t with wakeCpuState := w, flags := { t.flags with drmWake := drm } } := by
  obtain ⟨w, drm, hsel⟩ := mlfqSelectCpu_frame m p t prevCpu sync now
  rw [TaskEvent.after, hsel, Option.getD_some] at h
  exact ⟨w, drm, (Option.some.inj h).symm⟩

theorem after_quiet_frame {t t' : TaskCtx} {e : TaskEvent} (hq : e.quiet = true)
    (h : e.after t = some t') : Undisturbed t t' := by
  cases e with
  | reset p now => cases hq
  | enqueue m p flags now => cases hq
  | stopping m p runnable now => cases hq
  | select m p prevCpu sync now =>
      obtain ⟨w, drm, rfl⟩ := after_select h
      rfl
  | running m p now =>
      obtain rfl := Option.some.inj h
      obtain ⟨llc, qid, qw, wl, sq, hrun⟩ := mlfqRunning_frame m p t now
      rw [Undisturbed, hrun]
  | keep =>
      obtain rfl := Option.some.inj h
      rfl
  | steal m qid cpu =>
      obtain rfl := Option.some.inj h
      obtain ⟨llc, q, hent⟩ := mlfqRunnableEnter_task m.gauges t qid (m.llcOfCpu cpu)
      rw [Undisturbed, hent]
  | gpuSubmit now =>
      obtain rfl := Option.some.inj h
      obtain ⟨at_, gpu, drm, hinc⟩ := mlfqGpuSubmitInc_frame t now
      rw [Undisturbed, hinc]
  | quiescent m =>
      obtain rfl := Option.some.inj h
      obtain ⟨llc, q, hex⟩ := mlfqRunnableExit_task m.gauges t
      rw [Undisturbed, mlfqQuiescent, hex]

/-- A callback the kernel makes leaves the task the callback leaves. -/
theorem stepTask_after {s s' : TaskState} {e : TaskEvent} (h : stepTask s e = some s') :
    e.after s.tctx = some s'.tctx := by
  cases e with
  | enqueue m p flags now =>
      simp only [stepTask] at h
      split at h
      · split at h
        · cases h
        · rename_i hroute
          cases h
          rcases enqueueTask_placement m p s.tctx flags now with ⟨t', hp⟩ | ⟨herr, -⟩
          · simp only [TaskEvent.after]
            rw [if_neg hroute, hp.tctx, Option.getD_some]
          · exact absurd herr hroute
      · cases h
  | _ =>
      rw [stepTask] at h
      split at h
      all_goals cases h
      rfl

theorem stepTask_quiet_frame {s s' : TaskState} {e : TaskEvent} (hq : e.quiet = true)
    (h : stepTask s e = some s') : Undisturbed s.tctx s'.tctx :=
  after_quiet_frame hq (stepTask_after h)

/-- **A quiet callback keeps the task's classification.** -/
theorem stepTask_quiet {s s' : TaskState} {e : TaskEvent} (hq : e.quiet = true)
    (h : stepTask s e = some s') : Kept s.tctx s'.tctx := by
  rw [stepTask_quiet_frame hq h]
  exact ⟨rfl, rfl, rfl, rfl, rfl, rfl, rfl, rfl⟩

theorem stepTask_reset {s s' : TaskState} {p : TaskStruct} {now : U64}
    (h : stepTask s (.reset p now) = some s') :
    s.phase.down = true ∧ s' = ⟨.off, mlfqResetTaskCtx s.tctx p now⟩ := by
  rw [stepTask] at h
  split at h
  · rename_i hp
    exact ⟨hp, (Option.some.inj h).symm⟩
  · cases h

/-- The task an enqueue settles: `mlfq_enqueue` refreshes the weight
first. -/
def weighed (p : TaskStruct) (t : TaskCtx) : TaskCtx := { t with weight := p.weight }

@[simp] theorem weighed_queue (p : TaskStruct) (t : TaskCtx) :
    (weighed p t).queue = t.queue := rfl

@[simp] theorem weighed_queuedAt (p : TaskStruct) (t : TaskCtx) :
    (weighed p t).queuedAt = t.queuedAt := rfl

@[simp] theorem weighed_vruntime (p : TaskStruct) (t : TaskCtx) :
    (weighed p t).vruntime = t.vruntime := rfl

/-- The task an enqueue leaves, its queue settled and a route taken. -/
theorem after_placement {t t' : TaskCtx} {m : Machine} {p : TaskStruct} {flags : EnqFlags}
    {now : U64} (h : (TaskEvent.enqueue m p flags now).after t = some t') :
    Placement m (settleQueue m p flags (weighed p t) now).1 (enqueueTask m p t flags now) t' := by
  simp only [TaskEvent.after] at h
  split at h
  · cases h
  · rename_i hroute
    rcases enqueueTask_placement m p t flags now with ⟨u, hp⟩ | ⟨herr, -⟩
    · obtain rfl := Option.some.inj (hp.tctx.symm.trans h)
      exact hp
    · exact absurd herr hroute

theorem stepTask_enqueue {s s' : TaskState} {m : Machine} {p : TaskStruct}
    {flags : EnqFlags} {now : U64}
    (h : stepTask s (.enqueue m p flags now) = some s') :
    enqueueFrom flags s.phase = true ∧ s'.phase = .queued
      ∧ Placement m (settleQueue m p flags (weighed p s.tctx) now).1
          (enqueueTask m p s.tctx flags now) s'.tctx := by
  have hplace := after_placement (stepTask_after h)
  simp only [stepTask] at h
  split at h
  · rename_i hfrom
    split at h
    · cases h
    · cases h
      exact ⟨hfrom, rfl, hplace⟩
  · cases h

theorem stepTask_stopping {s s' : TaskState} {m : Machine} {p : TaskStruct}
    {runnable : Bool} {now : U64}
    (h : stepTask s (.stopping m p runnable now) = some s') :
    s.phase = .running
      ∧ s' = ⟨if runnable then .ready else .asleep,
          (mlfqStopping m p s.tctx runnable now).tctx⟩ := by
  rw [stepTask] at h
  split at h
  · rename_i hp
    exact ⟨hp, (Option.some.inj h).symm⟩
  · cases h

/-- The callbacks that can move a task that is down. -/
def TaskEvent.wakes : TaskEvent → Bool
  | .reset .. => true
  | .select .. => true
  | .enqueue .. => true
  | .running .. => true
  | _ => false

/-- Any other callback leaves it where it is. -/
theorem stepTask_down {s s' : TaskState} {e : TaskEvent} (hw : e.wakes = false)
    (hdown : s.phase.down = true) (h : stepTask s e = some s') : s'.phase = s.phase := by
  have hup {phase : Phase} (hphase : s.phase = phase) (hup : phase.down = false) :
      s'.phase = s.phase := by
    rw [hphase, hup] at hdown
    cases hdown
  cases e with
  | reset p now => cases hw
  | select m p prevCpu sync now => cases hw
  | enqueue m p flags now => cases hw
  | running m p now => cases hw
  | keep => exact hup (stepTask_keep h).1 rfl
  | steal m qid cpu => exact hup (stepTask_steal h).1 rfl
  | gpuSubmit now => exact hup (stepTask_gpuSubmit h).1 rfl
  | stopping m p runnable now => exact hup (stepTask_stopping h).1 rfl
  | quiescent m =>
      obtain ⟨-, hphase, -⟩ := stepTask_quiescent h
      rw [hphase]
      cases hs : s.phase with
      | asleep => rfl
      | off => rfl
      | _ =>
          rw [hs] at hdown
          cases hdown

/-- The fields a stop leaves alone. -/
theorem mlfqStopping_kept (m : Machine) (p : TaskStruct) (t : TaskCtx) (runnable : Bool)
    (now : U64) :
    (mlfqStopping m p t runnable now).tctx.queue = t.queue
      ∧ (mlfqStopping m p t runnable now).tctx.reenqCnt = t.reenqCnt
      ∧ (mlfqStopping m p t runnable now).tctx.queuedAt = t.queuedAt
      ∧ (mlfqStopping m p t runnable now).tctx.pendingFeats = t.pendingFeats
      ∧ (mlfqStopping m p t runnable now).tctx.weight = t.weight := by
  obtain ⟨burst, at_, mean, var, ratio, gpu, h⟩ := mlfqStopping_frame m p t runnable now
  rw [h]
  exact ⟨rfl, rfl, rfl, rfl, rfl⟩

namespace Routed

variable {t t' : TaskCtx}

theorem queue_eq (h : Routed t t') : t'.queue = t.queue := by rw [h]
theorem reenqCnt_eq (h : Routed t t') : t'.reenqCnt = t.reenqCnt := by rw [h]
theorem queuedAt_eq (h : Routed t t') : t'.queuedAt = t.queuedAt := by rw [h]
theorem ema_eq (h : Routed t t') : t'.ema = t.ema := by rw [h]
theorem lastSleepAt_eq (h : Routed t t') : t'.lastSleepAt = t.lastSleepAt := by rw [h]
theorem pendingFeats_eq (h : Routed t t') : t'.pendingFeats = t.pendingFeats := by rw [h]
end Routed

end ScxMlfq
