import ScxMlfq.Bpf.Lifecycle

/-!
# Bpf — Enqueue

`src/bpf/enqueue.bpf.c`. The callback falls into two halves. The first
settles the queue: classification by the kind of the enqueue, the
`SCHED_IDLE` pin, the stay bookkeeping and the aging test. The second
routes the task into a DSQ: pinned paths, the idle fast path, wakeup
preemption, or the regular placement. Only two of the routes place the
task against the queue's clock; the others defer the placement.
-/

namespace ScxMlfq

/-! ## The queue -/

/-- The neutral branch: fork, `SCX_ENQ_LAST`, class switch, reenqueue. -/
def neutralClassify (flags : EnqFlags) (tctx : TaskCtx) : TaskCtx × List Stat :=
  ({ tctx with wakeCnt := 0, reenqCnt := 0 }, if flags.reenq then [.rtReenqs] else [])

/-- The classification by the kind of the enqueue. -/
def enqueueClassify (m : Machine) (p : TaskStruct) (flags : EnqFlags) (tctx : TaskCtx)
    (now : U64) : TaskCtx × List Stat :=
  if flags.wakeup then mlfqWakeupClassify m p tctx now
  else if flags.isZero then mlfqRunoutClassify m p tctx
  else neutralClassify flags tctx

/-- `tctx->queue >= 2 ? now : 0`. -/
def stayStamp (queue : Queue) (now : U64) : U64 := if queue.num ≥ 2 then now else 0

/-- The stay bookkeeping: a queue change starts a fresh stay and clears
the exhaustion counter, a wakeup or a run-out re-arms the stay. -/
def stayBookkeeping (oldQueue : Queue) (flags : EnqFlags) (tctx : TaskCtx) (now : U64) :
    TaskCtx :=
  if tctx.queue ≠ oldQueue then
    { tctx with queuedAt := stayStamp tctx.queue now, reenqCnt := 0 }
  else if flags.wakeup ∨ flags.isZero then
    { tctx with queuedAt := stayStamp tctx.queue now }
  else tctx

/-- Whether the stay has aged. -/
def agingDue (rod : Rodata) (p : TaskStruct) (tctx : TaskCtx) (now : U64) : Bool :=
  decide (tctx.queue.num ≥ 2) && !schedIdle p && decide (tctx.queuedAt ≠ 0)
    && !mlfqTimeBefore now (tctx.queuedAt + rod.agingPeriodNs)

/-- The aging pass. -/
def age (rod : Rodata) (p : TaskStruct) (tctx : TaskCtx) (now : U64) :
    TaskCtx × List Stat :=
  if agingDue rod p tctx now
  then ({ tctx with queue := .q1, reenqCnt := 0 }, [.agingBoosts])
  else (tctx, [])

/-- The first half of `mlfq_enqueue`: the task with its queue settled. -/
def settleQueue (m : Machine) (p : TaskStruct) (flags : EnqFlags) (tctx : TaskCtx)
    (now : U64) : TaskCtx × List Stat :=
  let r := enqueueClassify m p flags tctx now
  let settled := stayBookkeeping tctx.queue flags (mlfqApplySchedIdle p r.1) now
  let aged := age m.rod p settled now
  (aged.1, r.2 ++ aged.2)

/-! ## The route -/

/-- `mlfq_task_is_migration_disabled`. -/
def mlfqTaskIsMigrationDisabled (p : TaskStruct) : Bool :=
  decide (p.nrCpusAllowed = 1) || p.migrationDisabled

/-- `mlfq_stat_placement`. -/
def mlfqStatPlacement : Queue → Stat
  | .q1 => .q1Placements
  | .q2 => .q2Placements
  | .q3 => .q3Placements

/-- `mlfq_stamp_enq_at`. -/
def mlfqStampEnqAt (tctx : TaskCtx) (now : U64) (wakeup : Bool) : TaskCtx :=
  { tctx with enqAt := now, flags := { tctx.flags with enqWakeup := wakeup } }

/-- The path an enqueue left through. -/
inductive Route where
  | error
  | pinnedGlobal
  | pinnedIdle
  | pinnedBusy
  | fastPath
  | preempt
  | regular
deriving DecidableEq, Repr

/-- Whether the route places the task against the queue's clock. -/
def Route.places : Route → Bool
  | .pinnedBusy => true
  | .regular => true
  | _ => false

structure EnqueueResult where
  route : Route
  machine : Machine
  tctx : Option TaskCtx
  insert : Option DsqInsert := none
  /-- The CPU of an idle kick. -/
  kick : Option Int := none
  stats : List Stat := []
  error : Option String := none

/-- `mlfq_idle_kick`. -/
def mlfqIdleKick (m : Machine) (cpu : Int) : Option Int :=
  if cpu ≠ m.cpu then some cpu else none

/-- `mlfq_pick_unoccupied_in_bitmap`. -/
def mlfqPickUnoccupiedInBitmap (m : Machine) (bm : Nat → Bool) (p : TaskStruct) :
    Option Nat :=
  (List.range mlfqMaxCpus).find? fun cand =>
    mlfqBitmapTestCpu bm cand && p.cpus cand && !m.occupied cand

/-- The LLC pass of `mlfq_pick_unoccupied_cpu`. -/
def unoccupiedInLlc (m : Machine) (p : TaskStruct) (origin : Nat) : Option Nat :=
  if origin < mlfqMaxCpus ∧ m.rod.nrLlcs > 0 ∧ m.rod.cpuLlc origin < mlfqMaxLlcs
      ∧ m.rod.cpuLlc origin < m.rod.nrLlcs then
    match m.llcBitmaps (m.rod.cpuLlc origin) with
    | none => none
    | some bm => mlfqPickUnoccupiedInBitmap m bm p
  else none

/-- `mlfq_pick_unoccupied_cpu`. -/
def mlfqPickUnoccupiedCpu (m : Machine) (p : TaskStruct) (origin : Nat) : Option Nat :=
  match unoccupiedInLlc m p origin with
  | some cpu => some cpu
  | none => (List.range (min mlfqMaxCpus m.nrCpuIds)).find? fun cand =>
      p.cpus cand && !m.occupied cand

/-- The insert shared by the routes: ownership, measurement stamp, and
the cleared fast-path state. -/
def insertTask (m : Machine) (tctx : TaskCtx) (cpu : Nat) (now : U64) (wakeup : Bool) :
    Machine × TaskCtx :=
  let owned := mlfqRunnableEnter m.gauges tctx tctx.queue (m.llcOfCpu cpu)
  ({ m with gauges := owned.1 },
    { mlfqStampEnqAt owned.2 now wakeup with wakeCpuState := {} })

/-- The global park of a pinned task whose mask lost its CPU. -/
def enqueuePinnedGlobal (m : Machine) (tctx : TaskCtx) (flags : EnqFlags) :
    EnqueueResult :=
  let owned := mlfqRunnableExit m.gauges tctx
  { route := .pinnedGlobal
    machine := { m with gauges := owned.1 }
    tctx := some { owned.2 with
      enqAt := 0
      flags := { owned.2.flags with enqWakeup := false }
      wakeCpuState := {} }
    insert := some
      { dsq := .global, slice := mlfqQueueSlice m.rod tctx.queue, flags := flags }
    stats := [.enqPinnedGlobal] }

/-- The local insert on the idle pinned CPU. -/
def enqueuePinnedIdle (m : Machine) (tctx : TaskCtx) (flags : EnqFlags) (prevCpu : Nat)
    (now : U64) : EnqueueResult :=
  let r := insertTask m tctx prevCpu now flags.wakeup
  { route := .pinnedIdle
    machine := r.1
    tctx := some r.2
    insert := some
      { dsq := .localOn prevCpu, slice := mlfqQueueSlice m.rod tctx.queue, flags := flags }
    stats := [.enqPinnedIdle, mlfqStatPlacement tctx.queue] }

/-- The insert on the local DSQ of the CPU the selection claimed. -/
def enqueueFastPath (m : Machine) (tctx : TaskCtx) (flags : EnqFlags) (now : U64) :
    EnqueueResult :=
  let r := insertTask m tctx m.cpu now flags.wakeup
  { route := .fastPath
    machine := r.1
    tctx := some r.2
    insert := some
      { dsq := .loc, slice := mlfqQueueSlice m.rod tctx.queue, flags := flags }
    stats := [.enqFastpath, mlfqStatPlacement tctx.queue] }

/-- The preempting insert. The grant is capped, no deadline is stored. -/
def enqueuePreempt (m : Machine) (tctx : TaskCtx) (flags : EnqFlags) (prevCpu : Nat)
    (now : U64) : EnqueueResult :=
  let r := insertTask m tctx prevCpu now flags.wakeup
  let slice := mlfqQueueSlice m.rod tctx.queue
  { route := .preempt
    machine := r.1
    tctx := some r.2
    insert := some
      { dsq := .localOn prevCpu
        slice := if m.rod.preemptSliceNs < slice then m.rod.preemptSliceNs else slice
        flags := { flags with preempt := true } }
    stats := [.preemptionKicks] }

/-- The placement into a queue DSQ, for the pinned-busy and the regular
path. The error branch answers a failed placement. -/
def enqueuePlaced (m : Machine) (tctx : TaskCtx) (flags : EnqFlags) (target : Nat)
    (now : U64) (route : Route) (stat : Stat) (failed : String) : EnqueueResult :=
  let placed := mlfqPlaceEntity (m.queues tctx.queue) tctx
  if placed.deadline = 0 then
    { route := .error, machine := m, tctx := some placed, stats := [.enqNoDeadline]
      error := some failed }
  else
    let r := insertTask m placed target now flags.wakeup
    { route := route
      machine := r.1
      tctx := some r.2
      insert := some
        { dsq := .queue tctx.queue target
          slice := mlfqQueueSlice m.rod tctx.queue
          deadline := some placed.deadline
          flags := flags }
      kick := mlfqIdleKick m target
      stats := [stat, mlfqStatPlacement tctx.queue] }

/-- The pinned paths. -/
def enqueuePinned (m : Machine) (p : TaskStruct) (tctx : TaskCtx) (flags : EnqFlags)
    (now : U64) : EnqueueResult :=
  if p.cpu < 0 then
    { route := .error, machine := m, tctx := some tctx
      error := some s!"pid {p.pid} pinned task without a CPU" }
  else if cpumaskTestCpu p.cpu p = false then enqueuePinnedGlobal m tctx flags
  else
    let prevCpu := p.cpu.toNat
    let claim := m.testAndClearCpuIdle prevCpu
    if claim.1 then enqueuePinnedIdle claim.2 tctx flags prevCpu now
    else enqueuePlaced claim.2 tctx flags prevCpu now .pinnedBusy .enqPinnedBusy
      s!"pid {p.pid} pinned-busy placement failed"

/-- The condition of the idle-CPU fast path. -/
def localFastPath (m : Machine) (tctx : TaskCtx) (flags : EnqFlags) : Bool :=
  m.isEnqCpuSelected flags && tctx.wakeCpuState.valid && tctx.wakeCpuState.idle
    && !m.cpuOccupied m.cpu

/-- The CPU that owns the target DSQ, before the redirect. -/
def enqueueTarget (m : Machine) (p : TaskStruct) (flags : EnqFlags) : Int :=
  let target := if flags.wakeup then p.cpu else (m.cpu : Int)
  if cpumaskTestCpu target p then target else m.cpu

/-- Whether the target is redirected away from a realtime task. -/
def redirects (m : Machine) (p : TaskStruct) (flags : EnqFlags) : Bool :=
  (flags.wakeup || flags.reenq) && m.cpuOccupied (enqueueTarget m p flags)

/-- The target after the redirect, and the redirect counter. -/
def redirectedTarget (m : Machine) (p : TaskStruct) (flags : EnqFlags) :
    Nat × List Stat :=
  let target := (enqueueTarget m p flags).toNat
  if redirects m p flags then
    match mlfqPickUnoccupiedCpu m p m.cpu with
    | some cpu => (cpu, [.rtRedirects])
    | none => (target, [])
  else (target, [])

/-- The deadline a Q2/Q3 wakeup is compared with, not committed. -/
def wakeeDeadline (m : Machine) (tctx : TaskCtx) : U64 :=
  if tctx.queue.num > 1 then mlfqPlaceEntityDeadline (m.queues tctx.queue) tctx else 0

/-- Whether a wakeup preempts the task on its previous CPU. -/
def preemptOwed (m : Machine) (p : TaskStruct) (tctx : TaskCtx) (now : U64) : Bool :=
  match m.lookupCpuState p.cpu with
  | none => false
  | some c =>
      decide (c.runningPid ≠ 0) && decide (c.runningPid ≠ p.pid)
        && decide (c.runningQueue > 0) && cpumaskTestCpu p.cpu p
        && (decide (tctx.queue.num < c.runningQueue)
          || (decide (tctx.queue.num = c.runningQueue)
            && mlfqSameqPreemptOwed tctx.queue.num c.runningQueue (wakeeDeadline m tctx)
              c.runningDeadline c.runStartAt now m.adapt.guardEffNs))

/-- The paths of a task that is not pinned. -/
def enqueueFree (m : Machine) (p : TaskStruct) (tctx : TaskCtx) (flags : EnqFlags)
    (now : U64) : EnqueueResult :=
  if localFastPath m tctx flags then enqueueFastPath m tctx flags now
  else if flags.wakeup ∧ redirects m p flags = false ∧ preemptOwed m p tctx now = true
  then enqueuePreempt m tctx flags p.cpu.toNat now
  else
    let target := redirectedTarget m p flags
    let r := enqueuePlaced m tctx flags target.1 now .regular .enqRegular
      s!"pid {p.pid} regular placement failed"
    { r with stats := target.2 ++ r.stats }

/-- The second half of `mlfq_enqueue`. -/
def routeTask (m : Machine) (p : TaskStruct) (tctx : TaskCtx) (flags : EnqFlags)
    (now : U64) : EnqueueResult :=
  if mlfqTaskIsMigrationDisabled p then enqueuePinned m p tctx flags now
  else enqueueFree m p tctx flags now

/-- `mlfq_enqueue` for a task with a context. -/
def enqueueTask (m : Machine) (p : TaskStruct) (tctx : TaskCtx) (flags : EnqFlags)
    (now : U64) : EnqueueResult :=
  if p.weight = 0 then
    { route := .error, machine := m, tctx := some tctx, stats := [.enqBadWeight]
      error := some s!"pid {p.pid} has invalid weight {p.weight.toNat}" }
  else
    let settled := settleQueue m p flags { tctx with weight := p.weight } now
    let r := routeTask m p settled.1 flags now
    { r with stats := settled.2 ++ r.stats }

/-- `mlfq_enqueue`. `alloc` is what an allocation on demand returns.
`scx_bpf_now()` reads the same value throughout one callback. -/
def mlfqEnqueue (m : Machine) (p : TaskStruct) (tctx alloc : Option TaskCtx)
    (flags : EnqFlags) (now : U64) : EnqueueResult :=
  match tctx with
  | some tctx => enqueueTask m p tctx flags now
  | none =>
      match alloc with
      | none =>
          { route := .error, machine := m, tctx := none, stats := [.enqNoTctx]
            error := some s!"pid {p.pid} task state allocation failed in enqueue" }
      | some tctx => enqueueTask m p (mlfqResetTaskCtx tctx p now) flags now

/-! ## What a route does to the task -/

/-- `t'` is `t` after a route: only the placement, the measurement stamp,
the fast-path state and the ownership record differ. -/
def Routed (t t' : TaskCtx) : Prop :=
  t' = { t with
    vruntime := t'.vruntime
    vlag := t'.vlag
    deadline := t'.deadline
    flags := { t.flags with enqWakeup := t'.flags.enqWakeup }
    wakeCpuState := {}
    lastLlc := t'.lastLlc
    lastQid := t'.lastQid
    enqAt := t'.enqAt }

/-- What an enqueue leaves of the placement: a placing route anchors the
task to its queue's clock, every other route defers. -/
structure Placement (m : Machine) (t : TaskCtx) (r : EnqueueResult) (t' : TaskCtx) :
    Prop where
  tctx : r.tctx = some t'
  routed : Routed t t'
  queues : r.machine.queues = m.queues
  placed : r.route.places = true →
    t'.vruntime = (mlfqPlaceEntity (m.queues t.queue) t).vruntime
  deferred : r.route.places = false → t'.vruntime = t.vruntime

namespace Placement

variable {m : Machine} {t t' : TaskCtx} {r : EnqueueResult}

theorem of_queues {m' : Machine} (h : Placement m' t r t') (hq : m'.queues = m.queues) :
    Placement m t r t' :=
  ⟨h.tctx, h.routed, h.queues.trans hq, by rw [← hq]; exact h.placed, h.deferred⟩

theorem with_stats (h : Placement m t r t') (stats : List Stat) :
    Placement m t { r with stats := stats } t' :=
  ⟨h.tctx, h.routed, h.queues, h.placed, h.deferred⟩

end Placement

theorem insertTask_task (m : Machine) (t : TaskCtx) (cpu : Nat) (now : U64) (w : Bool) :
    ∃ llc qid, (insertTask m t cpu now w).2
      = { t with lastLlc := llc, lastQid := qid, enqAt := now, wakeCpuState := {}
                 flags := { t.flags with enqWakeup := w } } := by
  obtain ⟨llc, qid, h⟩ := mlfqRunnableEnter_task m.gauges t t.queue (m.llcOfCpu cpu)
  refine ⟨llc, qid, ?_⟩
  rw [insertTask, mlfqStampEnqAt, h]

@[simp] theorem insertTask_queues (m : Machine) (t : TaskCtx) (cpu : Nat) (now : U64)
    (w : Bool) : (insertTask m t cpu now w).1.queues = m.queues := rfl

/-- A route that inserts without placing. -/
theorem deferred_placement (m : Machine) (t : TaskCtx) (cpu : Nat) (now : U64) (w : Bool)
    {r : EnqueueResult} (ht : r.tctx = some (insertTask m t cpu now w).2)
    (hm : r.machine = (insertTask m t cpu now w).1) (hr : r.route.places = false) :
    ∃ t', Placement m t r t' := by
  obtain ⟨llc, qid, h⟩ := insertTask_task m t cpu now w
  rw [h] at ht
  refine ⟨_, ⟨ht, rfl, ?_, ?_, fun _ => rfl⟩⟩
  · rw [hm, insertTask_queues]
  · intro hp
    rw [hr] at hp
    cases hp

theorem enqueuePinnedGlobal_placement (m : Machine) (t : TaskCtx) (flags : EnqFlags) :
    ∃ t', Placement m t (enqueuePinnedGlobal m t flags) t' := by
  obtain ⟨llc, qid, h⟩ := mlfqRunnableExit_task m.gauges t
  refine ⟨_, ⟨rfl, ?_, rfl, ?_, ?_⟩⟩
  · rw [h]
    exact rfl
  · intro hp
    cases hp
  · intro _
    rw [h]

/-- The placing routes. A placement cannot fail, so the error branch
behind it is dead. -/
theorem enqueuePlaced_placement (m : Machine) (t : TaskCtx) (flags : EnqFlags)
    (target : Nat) (now : U64) (route : Route) (hr : route.places = true) (stat : Stat)
    (failed : String) :
    ∃ t', Placement m t (enqueuePlaced m t flags target now route stat failed) t' := by
  have hne : (mlfqPlaceEntity (m.queues t.queue) t).deadline ≠ 0 :=
    mlfqPlaceEntityDeadline_ne_zero (m.queues t.queue) t
  obtain ⟨v, lag, d, hplace⟩ := mlfqPlaceEntity_frame (m.queues t.queue) t
  rw [enqueuePlaced, if_neg hne, hplace]
  obtain ⟨llc, qid, h⟩ := insertTask_task m
    { t with vruntime := v, vlag := lag, deadline := d } target now flags.wakeup
  simp only [h]
  refine ⟨_, ⟨rfl, rfl, rfl, ?_, ?_⟩⟩
  · intro _
    rw [hplace]
  · intro hn
    rw [hr] at hn
    cases hn

theorem enqueuePinned_placement (m : Machine) (p : TaskStruct) (t : TaskCtx)
    (flags : EnqFlags) (now : U64) :
    (∃ t', Placement m t (enqueuePinned m p t flags now) t')
      ∨ ((enqueuePinned m p t flags now).route = .error ∧ p.cpu < 0) := by
  have hclaim : (m.testAndClearCpuIdle p.cpu.toNat).2.queues = m.queues := rfl
  rw [enqueuePinned]
  split
  · rename_i hcpu
    exact Or.inr ⟨rfl, hcpu⟩
  · split
    · exact Or.inl (enqueuePinnedGlobal_placement ..)
    · simp only
      split
      · obtain ⟨t', h⟩ : ∃ t', Placement (m.testAndClearCpuIdle p.cpu.toNat).2 t
            (enqueuePinnedIdle (m.testAndClearCpuIdle p.cpu.toNat).2 t flags p.cpu.toNat
              now) t' :=
          deferred_placement _ t p.cpu.toNat now flags.wakeup rfl rfl rfl
        exact Or.inl ⟨t', h.of_queues hclaim⟩
      · obtain ⟨t', h⟩ := enqueuePlaced_placement (m.testAndClearCpuIdle p.cpu.toNat).2 t
          flags p.cpu.toNat now .pinnedBusy rfl .enqPinnedBusy
          s!"pid {p.pid} pinned-busy placement failed"
        exact Or.inl ⟨t', h.of_queues hclaim⟩

theorem enqueueFree_placement (m : Machine) (p : TaskStruct) (t : TaskCtx)
    (flags : EnqFlags) (now : U64) :
    ∃ t', Placement m t (enqueueFree m p t flags now) t' := by
  rw [enqueueFree]
  split
  · exact deferred_placement m t m.cpu now flags.wakeup rfl rfl rfl
  · split
    · exact deferred_placement m t p.cpu.toNat now flags.wakeup rfl rfl rfl
    · obtain ⟨t', h⟩ := enqueuePlaced_placement m t flags (redirectedTarget m p flags).1
        now .regular rfl .enqRegular s!"pid {p.pid} regular placement failed"
      exact ⟨t', h.with_stats _⟩

/-- **Every route is a placement or defers one**; only a pinned task
without a CPU fails. -/
theorem routeTask_placement (m : Machine) (p : TaskStruct) (t : TaskCtx)
    (flags : EnqFlags) (now : U64) :
    (∃ t', Placement m t (routeTask m p t flags now) t')
      ∨ ((routeTask m p t flags now).route = .error ∧ p.cpu < 0) := by
  rw [routeTask]
  split
  · exact enqueuePinned_placement ..
  · exact Or.inl (enqueueFree_placement ..)

/-- **An enqueue settles the queue and routes the task**, or reports an
error: a weight of zero, or a pinned task without a CPU. -/
theorem enqueueTask_placement (m : Machine) (p : TaskStruct) (t : TaskCtx)
    (flags : EnqFlags) (now : U64) :
    (∃ t', Placement m (settleQueue m p flags { t with weight := p.weight } now).1
        (enqueueTask m p t flags now) t')
      ∨ ((enqueueTask m p t flags now).route = .error ∧ (p.weight = 0 ∨ p.cpu < 0)) := by
  rw [enqueueTask]
  split
  · rename_i hw
    exact Or.inr ⟨rfl, Or.inl hw⟩
  · rcases routeTask_placement m p
        (settleQueue m p flags { t with weight := p.weight } now).1 flags now
      with ⟨t', h⟩ | ⟨hr, hcpu⟩
    · exact Or.inl ⟨t', h.with_stats _⟩
    · exact Or.inr ⟨hr, Or.inr hcpu⟩

end ScxMlfq
