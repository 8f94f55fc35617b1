import ScxMlfq.Run.Task

/-!
# Run — System

All tasks of a scheduler at once, with the queue clocks they share. One
callback of one task is one step, and the steps of different tasks come
in any order; everything but the clocks is free at every callback, as in
the runs of one task.

A clock takes the vruntime of a task that stops, so how far it moves
depends on where the task stood when it became runnable. A placement
puts the task at or behind the clock of its queue. The paths that defer
the placement keep the vruntime it had, which may come from another
queue's clock; a start with no enqueue before it is one of them.
-/

namespace ScxMlfq

open Trace

variable {ι : Type*}

structure SystemState (ι : Type*) where
  tasks : ι → TaskState
  queues : Queue → QueueCtx

/-- The callback, finding the clocks of the system. -/
def TaskEvent.seeing (queues : Queue → QueueCtx) : TaskEvent → TaskEvent
  | .select m p prevCpu sync now => .select { m with queues := queues } p prevCpu sync now
  | .enqueue m p flags now => .enqueue { m with queues := queues } p flags now
  | .running m p now => .running { m with queues := queues } p now
  | .steal m qid cpu => .steal { m with queues := queues } qid cpu
  | .stopping m p runnable now => .stopping { m with queues := queues } p runnable now
  | .quiescent m => .quiescent { m with queues := queues }
  | .reset p now => .reset p now
  | .keep => .keep
  | .gpuSubmit now => .gpuSubmit now

/-- The clocks the callback leaves. The callbacks without a machine of
their own, and a steal, do not reach them. -/
def TaskEvent.leaving (queues : Queue → QueueCtx) (t : TaskCtx) :
    TaskEvent → Queue → QueueCtx
  | .select m p prevCpu sync now =>
      (mlfqSelectCpu m p (some t) prevCpu sync now).machine.queues
  | .enqueue m p flags now => (enqueueTask m p t flags now).machine.queues
  | .running m p now => (mlfqRunning m p t now).machine.queues
  | .stopping m p runnable now => (mlfqStopping m p t runnable now).machine.queues
  | .quiescent m => (mlfqQuiescent m t).1.queues
  | _ => queues

/-- One callback of one task. -/
def stepSystem [DecidableEq ι] (S : SystemState ι) (x : ι × TaskEvent) :
    Option (SystemState ι) :=
  let e := x.2.seeing S.queues
  (stepTask (S.tasks x.1) e).map fun s' =>
    { tasks := Function.update S.tasks x.1 s'
      queues := e.leaving S.queues (S.tasks x.1).tctx }

/-- Every task as `mlfq_init_task` left it, and the clocks as `mlfq_init`
seeded them. -/
def SystemState.Fresh (S : SystemState ι) : Prop :=
  (∀ i, (S.tasks i).Fresh) ∧ ∃ rod n createDsq m,
    mlfqInit (Machine.zeroed rod n) createDsq = .ok m ∧ S.queues = m.queues

/-- The system as attached: one CPU, the default configuration. -/
def SystemState.attached : SystemState ι where
  tasks _ := TaskState.initTask { pid := 1 } 1
  queues := (Machine.zeroed {} 1).seed.queues

theorem SystemState.attached_fresh : (attached : SystemState ι).Fresh :=
  ⟨fun _ => TaskState.initTask_fresh { pid := 1 } 1, {}, 1, fun _ => 0,
    (Machine.zeroed {} 1).seed, rfl, rfl⟩

abbrev SystemEntry (ι : Type*) := Entry (SystemState ι) (ι × TaskEvent)

/-- The runs of the system. -/
abbrev SystemRun [DecidableEq ι] : List (SystemEntry ι) → SystemState ι → Prop :=
  Run (fun S x S' => stepSystem S x = some S') SystemState.Fresh

theorem stepSystem_cases [DecidableEq ι] {S S' : SystemState ι} {i : ι} {e : TaskEvent}
    (h : stepSystem S (i, e) = some S') :
    ∃ s', stepTask (S.tasks i) (e.seeing S.queues) = some s' ∧
      S' = { tasks := Function.update S.tasks i s'
             queues := (e.seeing S.queues).leaving S.queues (S.tasks i).tctx } := by
  obtain ⟨s', hs, rfl⟩ := Option.map_eq_some_iff.mp h
  exact ⟨s', hs, rfl⟩

/-! ## The clocks -/

/-- The virtual time a callback charges to its task. -/
def TaskEvent.charge (t : TaskCtx) : TaskEvent → U64
  | .stopping _ _ _ now => calcDeltaFairBpf (segmentNs t now) t.weight
  | _ => 0

/-- The queue a callback makes the task runnable in without placing it
there. -/
def TaskEvent.defers (s : TaskState) : TaskEvent → Option Queue
  | .select m p prevCpu sync now =>
      if (mlfqSelectCpu m p (some s.tctx) prevCpu sync now).exit = .sync
      then some s.tctx.queue else none
  | .enqueue m p flags now =>
      if (enqueueTask m p s.tctx flags now).route.places then none
      else some (settleQueue m p flags (weighed p s.tctx) now).1.queue
  | .running _ _ _ => if s.phase.down then some s.tctx.queue else none
  | _ => none

/-- Only a stop moves a clock. -/
theorem leaving_of_not_stopping {queues : Queue → QueueCtx} {s s' : TaskState}
    {e : TaskEvent} (hs : stepTask s (e.seeing queues) = some s')
    (he : ∀ m p runnable now, e ≠ .stopping m p runnable now) :
    (e.seeing queues).leaving queues s.tctx = queues := by
  cases e with
  | select m p prevCpu sync now =>
      obtain ⟨idle, h⟩ :=
        mlfqSelectCpu_machine { m with queues := queues } p (some s.tctx) prevCpu sync now
      simp only [TaskEvent.seeing, TaskEvent.leaving, h]
  | enqueue m p flags now =>
      obtain ⟨-, -, hplace⟩ := stepTask_enqueue hs
      exact hplace.queues
  | running m p now => exact mlfqRunning_queues ..
  | stopping m p runnable now => exact absurd rfl (he m p runnable now)
  | quiescent m => rfl
  | reset p now => rfl
  | keep => rfl
  | steal m qid cpu => rfl
  | gpuSubmit now => rfl

/-- The clock of the task's queue after a stop of a task that stood at
or behind it. -/
theorem mlfqStopping_clock {m : Machine} {t : TaskCtx}
    (h : ¬ Serial.Before (m.queues t.queue).clock t.vruntime) (p : TaskStruct)
    (runnable : Bool) (now : U64) :
    ((mlfqStopping m p t runnable now).machine.queues t.queue).clock
      = Serial.advance (m.queues t.queue).clock
          (t.vruntime + calcDeltaFairBpf (segmentNs t now) t.weight) := by
  rw [mlfqStopping_queues]
  by_cases hseg : segmentNs t now = 0
  · rw [if_pos hseg, hseg]
    simp [calcDeltaFairBpf, Serial.advance, h]
  · rw [if_neg hseg, Function.update_self, mlfqQueueAdvanceClock_clock]

theorem mlfqStopping_other (m : Machine) (p : TaskStruct) (t : TaskCtx) (runnable : Bool)
    (now : U64) {q : Queue} (hq : q ≠ t.queue) :
    (mlfqStopping m p t runnable now).machine.queues q = m.queues q := by
  rw [mlfqStopping_queues]
  split
  · rfl
  · exact Function.update_of_ne hq ..

/-! ## The invariant of the clocks -/

/-- Every runnable task stands at or behind the clock of its queue. -/
def Anchored (S : SystemState ι) : Prop :=
  ∀ i, (S.tasks i).phase.down = false →
    ¬ Serial.Before (S.queues (S.tasks i).tctx.queue).clock (S.tasks i).tctx.vruntime

/-- A deferred placement finds the task at or behind the clock of its
queue. -/
def deferredBehind (x : SystemEntry ι) : Bool :=
  let s := x.pre.tasks x.event.1
  ((x.event.2.seeing x.pre.queues).defers s).all fun q =>
    !mlfqTimeBefore (x.pre.queues q).clock s.tctx.vruntime

/-- No other runnable task of the queue falls more than half of the
circle behind a charge. -/
def noneLapped (x : SystemEntry ι) : Prop :=
  let t := (x.pre.tasks x.event.1).tctx
  ∀ j, j ≠ x.event.1 → (x.pre.tasks j).phase.down = false →
    (x.pre.tasks j).tctx.queue = t.queue →
    Serial.gap (x.pre.tasks j).tctx.vruntime (x.pre.queues t.queue).clock
      + ((x.event.2.seeing x.pre.queues).charge t).toNat ≤ 2 ^ 63

instance [Fintype ι] [DecidableEq ι] (x : SystemEntry ι) : Decidable (noneLapped x) :=
  inferInstanceAs (Decidable (∀ j, j ≠ x.event.1 → _ → _ → _ ≤ _))

variable {S S' : SystemState ι}

/-- A task that a callback other than a stop leaves runnable stands at or
behind the clock of its queue: it did before, the callback placed it, or
the deferred placement found it so. -/
theorem Anchored.runnable (h : Anchored S) {i : ι} {e : TaskEvent} {s' : TaskState}
    (hs : stepTask (S.tasks i) (e.seeing S.queues) = some s')
    (hstop : ∀ m p runnable now, e ≠ .stopping m p runnable now)
    (hdefer : (((e.seeing S.queues).defers (S.tasks i)).all fun q =>
      !mlfqTimeBefore (S.queues q).clock (S.tasks i).tctx.vruntime) = true)
    (hdown : s'.phase.down = false) :
    ¬ Serial.Before (S.queues s'.tctx.queue).clock s'.tctx.vruntime := by
  -- a quiet callback of a runnable task
  have hquiet : (e.seeing S.queues).quiet = true → (S.tasks i).phase.down = false →
      ¬ Serial.Before (S.queues s'.tctx.queue).clock s'.tctx.vruntime := by
    intro hq hrun
    have hk := stepTask_quiet hq hs
    rw [hk.queue, hk.vruntime]
    exact h i hrun
  -- a callback that cannot wake the task found it runnable
  have hup (hw : (e.seeing S.queues).wakes = false) : (S.tasks i).phase.down = false := by
    cases hpre : (S.tasks i).phase.down with
    | false => rfl
    | true =>
        rw [stepTask_down hw hpre hs, hpre] at hdown
        cases hdown
  cases e with
  | reset p now =>
      obtain ⟨-, rfl⟩ := stepTask_reset hs
      cases hdown
  | select m p prevCpu sync now =>
      by_cases hsync : (mlfqSelectCpu { m with queues := S.queues } p
          (some (S.tasks i).tctx) prevCpu sync now).exit = .sync
      · have hk := stepTask_quiet rfl hs
        rw [hk.queue, hk.vruntime]
        rw [← mlfqTimeBefore_false_iff]
        simpa [TaskEvent.seeing, TaskEvent.defers, hsync] using hdefer
      · refine hquiet rfl ?_
        simp only [TaskEvent.seeing, stepTask] at hs
        split at hs
        · cases hs
          simpa [selectState, hsync] using hdown
        · cases hs
  | enqueue m p flags now =>
      obtain ⟨-, -, hplace⟩ := stepTask_enqueue hs
      rw [hplace.routed.queue_eq]
      cases hroute : (enqueueTask { m with queues := S.queues } p (S.tasks i).tctx flags
          now).route.places with
      | true =>
          rw [hplace.placed hroute]
          exact not_before_mlfqPlaceEntity _ _
      | false =>
          have hv := (hplace.deferred hroute).trans
            (settleQueue_vruntime { m with queues := S.queues } p flags _ now)
          rw [hv, weighed_vruntime, ← mlfqTimeBefore_false_iff]
          simpa [TaskEvent.seeing, TaskEvent.defers, hroute] using hdefer
  | running m p now =>
      cases hpre : (S.tasks i).phase.down with
      | false => exact hquiet rfl hpre
      | true =>
          have hk := stepTask_quiet rfl hs
          rw [hk.queue, hk.vruntime, ← mlfqTimeBefore_false_iff]
          simpa [TaskEvent.seeing, TaskEvent.defers, hpre] using hdefer
  | keep => exact hquiet rfl (hup rfl)
  | steal m qid cpu => exact hquiet rfl (hup rfl)
  | gpuSubmit now => exact hquiet rfl (hup rfl)
  | stopping m p runnable now => exact absurd rfl (hstop m p runnable now)
  | quiescent m => exact hquiet rfl (hup rfl)

variable [DecidableEq ι]

/-- A callback that moves no clock keeps the tasks anchored if its own
task is. -/
theorem Anchored.update (h : Anchored S) {i : ι} {s' : TaskState}
    (hs : s'.phase.down = false →
      ¬ Serial.Before (S.queues s'.tctx.queue).clock s'.tctx.vruntime) :
    Anchored { tasks := Function.update S.tasks i s', queues := S.queues } := by
  intro j hj
  by_cases hji : j = i
  · subst hji
    simp only [Function.update_self] at hj ⊢
    exact hs hj
  · simp only [Function.update_of_ne hji] at hj ⊢
    exact h j hj

/-- A stop moves one clock, by the charge at most, and leaves the tasks
of its queue behind it. -/
theorem Anchored.stopping (h : Anchored S) {i : ι} {m : Machine} {p : TaskStruct}
    {runnable : Bool} {now : U64} (hq : m.queues = S.queues)
    (hrun : (S.tasks i).phase = .running)
    (hlap : ∀ j, j ≠ i → (S.tasks j).phase.down = false →
      (S.tasks j).tctx.queue = (S.tasks i).tctx.queue →
      Serial.gap (S.tasks j).tctx.vruntime (S.queues (S.tasks i).tctx.queue).clock
        + (calcDeltaFairBpf (segmentNs (S.tasks i).tctx now) (S.tasks i).tctx.weight).toNat
          ≤ 2 ^ 63) :
    let r := mlfqStopping m p (S.tasks i).tctx runnable now
    Anchored
      { tasks := Function.update S.tasks i
          ⟨if runnable then .ready else .asleep, r.tctx⟩
        queues := r.machine.queues } := by
  intro r
  have hanchor : ¬ Serial.Before (m.queues (S.tasks i).tctx.queue).clock
      (S.tasks i).tctx.vruntime := by
    rw [hq]
    exact h i (by rw [hrun]; rfl)
  have hclock := mlfqStopping_clock hanchor p runnable now
  intro j hj
  by_cases hji : j = i
  · subst hji
    simp only [Function.update_self] at hj ⊢
    obtain ⟨hqueue, -⟩ := mlfqStopping_kept m p (S.tasks j).tctx runnable now
    obtain ⟨burst, at_, mean, var, ratio, gpu, hframe⟩ :=
      mlfqStopping_frame m p (S.tasks j).tctx runnable now
    have hv : r.tctx.vruntime = (S.tasks j).tctx.vruntime
        + calcDeltaFairBpf (segmentNs (S.tasks j).tctx now) (S.tasks j).tctx.weight := by
      show (mlfqStopping m p (S.tasks j).tctx runnable now).tctx.vruntime = _
      rw [hframe]
    rw [hqueue, hclock, hv]
    exact Serial.not_before_advance_self _ _
  · simp only [Function.update_of_ne hji] at hj ⊢
    by_cases hqj : (S.tasks j).tctx.queue = (S.tasks i).tctx.queue
    · have hfar := hlap j hji hj hqj
      have hmove := Serial.travel_add_le hanchor
        (calcDeltaFairBpf (segmentNs (S.tasks i).tctx now) (S.tasks i).tctx.weight)
      rw [hqj, hclock, hq]
      rw [hq] at hmove
      exact Serial.not_before_advance (by omega)
    · rw [mlfqStopping_other _ _ _ _ _ hqj, hq]
      exact h j hj

/-- **One step keeps the tasks anchored.** -/
theorem Anchored.step (h : Anchored S) {x : ι × TaskEvent}
    (hs : stepSystem S x = some S') (hdefer : deferredBehind ⟨S, x, S'⟩ = true)
    (hlap : noneLapped ⟨S, x, S'⟩) : Anchored S' := by
  obtain ⟨i, e⟩ := x
  obtain ⟨s', hstep, rfl⟩ := stepSystem_cases hs
  by_cases hstop : ∃ m p runnable now, e = .stopping m p runnable now
  · obtain ⟨m, p, runnable, now, rfl⟩ := hstop
    obtain ⟨hrun, rfl⟩ := stepTask_stopping hstep
    exact h.stopping rfl hrun hlap
  · have hother : ∀ m p runnable now, e ≠ .stopping m p runnable now :=
      fun m p runnable now he => hstop ⟨m, p, runnable, now, he⟩
    rw [leaving_of_not_stopping hstep hother]
    exact h.update (h.runnable hstep hother hdefer)

/-- The tasks are anchored at the end of every run that keeps them so. -/
theorem anchored {tr : List (SystemEntry ι)} (h : SystemRun tr S)
    (hx : ∀ x ∈ tr, deferredBehind x = true ∧ noneLapped x) : Anchored S := by
  refine h.invariant_where (C := fun x => deferredBehind x = true ∧ noneLapped x)
    (I := fun _ S => Anchored S) ?_ ?_ hx
  · rintro S ⟨hfresh, -⟩ i hdown
    obtain ⟨p, now, hi⟩ := hfresh i
    rw [hi] at hdown
    cases hdown
  · intro tr S x S' h hs hx
    exact h.step hs hx.1 hx.2

/-- **The clock follows the service.** In every state reached by a run
that defers no placement ahead of a clock and laps no task, a stop moves
the clock of the task's queue forward by at most the virtual time it
charges, and leaves the other clocks alone. -/
theorem clock_follows_service {tr : List (SystemEntry ι)} (h : SystemRun tr S)
    (hx : ∀ x ∈ tr, deferredBehind x = true ∧ noneLapped x) {i : ι} {m : Machine}
    {p : TaskStruct} {runnable : Bool} {now : U64}
    (hs : stepSystem S (i, .stopping m p runnable now) = some S') :
    let t := (S.tasks i).tctx
    Serial.gap (S.queues t.queue).clock (S'.queues t.queue).clock
        ≤ (calcDeltaFairBpf (segmentNs t now) t.weight).toNat
      ∧ ∀ q, q ≠ t.queue → S'.queues q = S.queues q := by
  intro t
  obtain ⟨s', hstep, rfl⟩ := stepSystem_cases hs
  obtain ⟨hrun, -⟩ := stepTask_stopping hstep
  have hanchor : ¬ Serial.Before (S.queues t.queue).clock t.vruntime :=
    anchored h hx i (by rw [hrun]; rfl)
  refine ⟨?_, fun q hq => mlfqStopping_other _ _ _ _ _ hq⟩
  have hclock := mlfqStopping_clock (m := { m with queues := S.queues }) hanchor p
    runnable now
  show Serial.gap (S.queues t.queue).clock
    ((mlfqStopping { m with queues := S.queues } p t runnable now).machine.queues
      t.queue).clock ≤ _
  rw [hclock]
  exact Serial.travel_add_le hanchor _

/-! ## Runs -/

/-- A stop after 10 ms in Q2. -/
def longStop : TaskEvent :=
  .stopping (Machine.zeroed {} 1).seed { pid := 1 } false 60000001

/-- Two tasks wake into Q2; the first one runs. -/
def bothWoken : List (Fin 2 × TaskEvent) :=
  let m := (Machine.zeroed {} 1).seed
  let p : TaskStruct := { pid := 1 }
  [(0, .enqueue m p { wakeup := true } 50000000), (1, .enqueue m p { wakeup := true } 50000000),
    (0, .running m p 50000001)]

/-- The first of two tasks stops after 10 ms: the clock of Q2 moves by
the charge. -/
theorem clock_follows_service_bothWoken :
    ∃ (tr : _) (S S' : SystemState (Fin 2)), SystemRun tr S
      ∧ stepSystem S (0, longStop) = some S'
      ∧ Serial.gap (S.queues (S.tasks 0).tctx.queue).clock
          (S'.queues (S.tasks 0).tctx.queue).clock
        ≤ (calcDeltaFairBpf (segmentNs (S.tasks 0).tctx 60000001)
            (S.tasks 0).tctx.weight).toNat := by
  obtain ⟨tr, S, h, hs⟩ := exec_reaches stepSystem SystemState.attached_fresh bothWoken
    (fun tr S => tr.all (fun x => deferredBehind x && decide (noneLapped x))
      && (stepSystem S (0, longStop)).isSome) (by decide)
  rw [Bool.and_eq_true, List.all_eq_true] at hs
  obtain ⟨S', hS'⟩ := Option.isSome_iff_exists.mp hs.2
  refine ⟨tr, S, S', h, hS', (clock_follows_service h (fun x hx => ?_) hS').1⟩
  simpa using hs.1 x hx

/-- A task that ran 10 ms in Q2, blocks, and is woken by I/O into Q1
while pinned to an idle CPU. -/
def boostedWhilePinned : List (Unit × TaskEvent) :=
  let m := (Machine.zeroed {} 1).seed
  let p : TaskStruct := { pid := 1 }
  [((), .enqueue m p { wakeup := true } 50000000), ((), .running m p 50000001),
    ((), longStop),
    ((), .enqueue { m with idle := fun _ => true }
      { p with nrCpusAllowed := 1, inIowait := true } { wakeup := true } 60100001),
    ((), .running m p 60100002)]

/-- The deferred placement leaves the task 10 ms ahead of the clock of
its new queue, and a stop after 1 ns moves that clock by all of it. -/
theorem deferred_moves_clock_beyond_charge :
    ¬ ∀ (tr : _) (S S' : SystemState Unit) (m : Machine) (p : TaskStruct) (now : U64),
      SystemRun tr S → stepSystem S ((), .stopping m p false now) = some S' →
        Serial.gap (S.queues (S.tasks ()).tctx.queue).clock
            (S'.queues (S.tasks ()).tctx.queue).clock
          ≤ (calcDeltaFairBpf (segmentNs (S.tasks ()).tctx now)
              (S.tasks ()).tctx.weight).toNat := by
  intro hclaim
  let m := (Machine.zeroed {} 1).seed
  obtain ⟨tr, S, h, hs⟩ := exec_reaches stepSystem SystemState.attached_fresh
    boostedWhilePinned
    (fun _ S => (stepSystem S ((), .stopping m { pid := 1 } false 60100003)).any fun S' =>
      decide (1 + 10000000 = Serial.gap (S.queues (S.tasks ()).tctx.queue).clock
          (S'.queues (S.tasks ()).tctx.queue).clock)
        && decide (calcDeltaFairBpf (segmentNs (S.tasks ()).tctx 60100003)
            (S.tasks ()).tctx.weight = 1)) (by decide)
  obtain ⟨S', hS', htest⟩ := (Option.any_eq_true _ _).mp hs
  rw [Bool.and_eq_true, decide_eq_true_eq, decide_eq_true_eq] at htest
  have hle := hclaim tr S S' m { pid := 1 } 60100003 h hS'
  rw [← htest.1, htest.2] at hle
  exact absurd hle (by decide)

end ScxMlfq
