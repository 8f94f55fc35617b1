import Mathlib.Data.Set.Function
import ScxMlfq.Bpf.Init
import ScxMlfq.Bpf.Settle

/-!
# Bpf — Insert

What an enqueue inserts. Every exit of `mlfq_enqueue` is described once,
with the DSQ it fills, the CPU it counts the task for and the state it
leaves; the properties of an enqueue follow from that list.
-/

namespace ScxMlfq

/-! ## The exits -/

@[simp] theorem Machine.testAndClearCpuIdle_gauges (m : Machine) (cpu : Nat) :
    (m.testAndClearCpuIdle cpu).2.gauges = m.gauges := rfl

@[simp] theorem Machine.testAndClearCpuIdle_llcOfCpu (m : Machine) (cpu c : Nat) :
    (m.testAndClearCpuIdle cpu).2.llcOfCpu c = m.llcOfCpu c := rfl

/-- An insert that counts the task for the CPU `owner`: the gauges and
the ownership record, the measurement stamp and the cleared fast-path
state. `placed` is the task with the placement of the route. -/
structure InsertsFor (m : Machine) (placed : TaskCtx) (flags : EnqFlags) (now : U64)
    (owner : Nat) (insert : DsqInsert) (r : EnqueueResult) : Prop where
  gauges : r.machine.gauges
    = (mlfqRunnableEnter m.gauges placed placed.queue (m.llcOfCpu owner)).1
  tctx : r.tctx = some
    { mlfqStampEnqAt (mlfqRunnableEnter m.gauges placed placed.queue (m.llcOfCpu owner)).2
        now flags.wakeup with wakeCpuState := {} }
  insert : r.insert = some insert
  error : r.error = none

/-- The task placed against the clock of its queue. -/
def placedTask (m : Machine) (t : TaskCtx) : TaskCtx := mlfqPlaceEntity (m.queues t.queue) t

@[simp] theorem placedTask_queue (m : Machine) (t : TaskCtx) :
    (placedTask m t).queue = t.queue := by
  obtain ⟨v, lag, d, h⟩ := mlfqPlaceEntity_frame (m.queues t.queue) t
  rw [placedTask, h]

/-- A placement leaves the ownership record alone. -/
theorem placedTask_record (m : Machine) (t : TaskCtx) :
    (placedTask m t).lastLlc = t.lastLlc ∧ (placedTask m t).lastQid = t.lastQid := by
  obtain ⟨v, lag, d, h⟩ := mlfqPlaceEntity_frame (m.queues t.queue) t
  rw [placedTask, h]
  exact ⟨rfl, rfl⟩

/-- The insert into the queue DSQ of `cpu`, under the deadline of the
placement. -/
def vtimeInsert (m : Machine) (t : TaskCtx) (flags : EnqFlags) (cpu : Nat) : DsqInsert where
  dsq := .queue t.queue cpu
  slice := mlfqQueueSlice m.rod t.queue
  deadline := some (placedTask m t).deadline
  flags := flags

/-- **The exits of `mlfq_enqueue`**, for a task with its queue settled. -/
inductive Exits (m : Machine) (p : TaskStruct) (t : TaskCtx) (flags : EnqFlags) (now : U64)
    (r : EnqueueResult) : Prop where
  | noCpu (route : r.route = .error) (pinned : mlfqTaskIsMigrationDisabled p = true)
      (cpu : p.cpu < 0) (insert : r.insert = none)
      (error : r.error = some s!"pid {p.pid} pinned task without a CPU")
      (tctx : r.tctx = some t) (machine : r.machine = m)
  | pinnedGlobal (route : r.route = .pinnedGlobal)
      (pinned : mlfqTaskIsMigrationDisabled p = true)
      (gauges : r.machine.gauges = (mlfqRunnableExit m.gauges t).1)
      (tctx : r.tctx = some { (mlfqRunnableExit m.gauges t).2 with
        enqAt := 0
        flags := { (mlfqRunnableExit m.gauges t).2.flags with enqWakeup := false }
        wakeCpuState := {} })
      (insert : r.insert = some
        { dsq := .global, slice := mlfqQueueSlice m.rod t.queue, flags := flags })
      (error : r.error = none)
  | pinnedIdle (route : r.route = .pinnedIdle) (pinned : mlfqTaskIsMigrationDisabled p = true)
      (allowed : cpumaskTestCpu p.cpu p = true)
      (inserts : InsertsFor m t flags now p.cpu.toNat
        { dsq := .localOn p.cpu.toNat, slice := mlfqQueueSlice m.rod t.queue, flags := flags } r)
  | pinnedBusy (route : r.route = .pinnedBusy) (pinned : mlfqTaskIsMigrationDisabled p = true)
      (allowed : cpumaskTestCpu p.cpu p = true)
      (inserts : InsertsFor m (placedTask m t) flags now p.cpu.toNat
        (vtimeInsert m t flags p.cpu.toNat) r)
  | fastPath (route : r.route = .fastPath) (free : mlfqTaskIsMigrationDisabled p = false)
      (idle : localFastPath m t flags = true)
      (inserts : InsertsFor m t flags now m.cpu
        { dsq := .loc, slice := mlfqQueueSlice m.rod t.queue, flags := flags } r)
  | preempt (route : r.route = .preempt) (free : mlfqTaskIsMigrationDisabled p = false)
      (slow : localFastPath m t flags = false) (wakeup : flags.wakeup = true)
      (stays : redirects m p flags = false) (allowed : cpumaskTestCpu p.cpu p = true)
      (slice : U64)
      (inserts : InsertsFor m t flags now p.cpu.toNat
        { dsq := .localOn p.cpu.toNat, slice := slice,
          flags := { flags with preempt := true } } r)
  | regular (route : r.route = .regular) (free : mlfqTaskIsMigrationDisabled p = false)
      (slow : localFastPath m t flags = false)
      (inserts : InsertsFor m (placedTask m t) flags now (redirectedTarget m p flags).1
        (vtimeInsert m t flags (redirectedTarget m p flags).1) r)

/-- The insert shared by the routes, for a task with its placement done. -/
theorem insertTask_inserts {m : Machine} {placed : TaskCtx} {flags : EnqFlags} {now : U64}
    {owner : Nat} {insert : DsqInsert} {r : EnqueueResult}
    (hm : r.machine = (insertTask m placed owner now flags.wakeup).1)
    (ht : r.tctx = some (insertTask m placed owner now flags.wakeup).2)
    (hi : r.insert = some insert) (he : r.error = none) :
    InsertsFor m placed flags now owner insert r := by
  refine ⟨?_, ?_, hi, he⟩
  · rw [hm, insertTask]
  · rw [ht, insertTask]

/-- A placement that cannot fail. -/
theorem enqueuePlaced_inserts (m : Machine) (t : TaskCtx) (flags : EnqFlags) (target : Nat)
    (now : U64) (route : Route) (stat : Stat) (failed : String) :
    (enqueuePlaced m t flags target now route stat failed).route = route ∧
    InsertsFor m (placedTask m t) flags now target (vtimeInsert m t flags target)
      (enqueuePlaced m t flags target now route stat failed) := by
  have hne : (mlfqPlaceEntity (m.queues t.queue) t).deadline ≠ 0 := by
    rw [mlfqPlaceEntity_deadline]
    exact mlfqPlaceEntityDeadline_ne_zero (m.queues t.queue) t
  rw [enqueuePlaced, if_neg hne, vtimeInsert, placedTask]
  exact ⟨rfl, insertTask_inserts rfl rfl rfl rfl⟩

/-- The claim of an idle mark changes neither gauges, queues nor
topology. -/
theorem InsertsFor.of_claim {m : Machine} {placed : TaskCtx} {flags : EnqFlags} {now : U64}
    {owner : Nat} {insert : DsqInsert} {r : EnqueueResult} {cpu : Nat}
    (h : InsertsFor (m.testAndClearCpuIdle cpu).2 placed flags now owner insert r) :
    InsertsFor m placed flags now owner insert r := by
  obtain ⟨hg, ht, hi, he⟩ := h
  rw [Machine.testAndClearCpuIdle_llcOfCpu, Machine.testAndClearCpuIdle_gauges] at hg ht
  exact ⟨hg, ht, hi, he⟩

/-- The exits see the counters only through the statistics. -/
theorem InsertsFor.with_stats {m : Machine} {placed : TaskCtx} {flags : EnqFlags} {now : U64}
    {owner : Nat} {insert : DsqInsert} {r : EnqueueResult}
    (h : InsertsFor m placed flags now owner insert r) (stats : List Stat) :
    InsertsFor m placed flags now owner insert { r with stats := stats } :=
  ⟨h.gauges, h.tctx, h.insert, h.error⟩

theorem Exits.with_stats {m : Machine} {p : TaskStruct} {t : TaskCtx} {flags : EnqFlags}
    {now : U64} {r : EnqueueResult} (h : Exits m p t flags now r) (stats : List Stat) :
    Exits m p t flags now { r with stats := stats } := by
  cases h with
  | noCpu route pinned cpu insert error tctx machine =>
      exact .noCpu route pinned cpu insert error tctx machine
  | pinnedGlobal route pinned gauges tctx insert error =>
      exact .pinnedGlobal route pinned gauges tctx insert error
  | pinnedIdle route pinned allowed inserts =>
      exact .pinnedIdle route pinned allowed (inserts.with_stats _)
  | pinnedBusy route pinned allowed inserts =>
      exact .pinnedBusy route pinned allowed (inserts.with_stats _)
  | fastPath route free idle inserts => exact .fastPath route free idle (inserts.with_stats _)
  | preempt route free slow wakeup stays allowed slice inserts =>
      exact .preempt route free slow wakeup stays allowed slice (inserts.with_stats _)
  | regular route free slow inserts => exact .regular route free slow (inserts.with_stats _)

theorem placedTask_claim (m : Machine) (t : TaskCtx) (cpu : Nat) :
    placedTask (m.testAndClearCpuIdle cpu).2 t = placedTask m t := by
  rw [placedTask, placedTask, Machine.testAndClearCpuIdle]

theorem vtimeInsert_claim (m : Machine) (t : TaskCtx) (flags : EnqFlags) (cpu cpu' : Nat) :
    vtimeInsert (m.testAndClearCpuIdle cpu).2 t flags cpu' = vtimeInsert m t flags cpu' := by
  rw [vtimeInsert, vtimeInsert, placedTask_claim, Machine.testAndClearCpuIdle]

theorem enqueuePinned_exits (m : Machine) {p : TaskStruct} (t : TaskCtx) (flags : EnqFlags)
    (now : U64) (hpin : mlfqTaskIsMigrationDisabled p = true) :
    Exits m p t flags now (enqueuePinned m p t flags now) := by
  rw [enqueuePinned]
  split
  · rename_i hcpu
    exact .noCpu rfl hpin hcpu rfl rfl rfl rfl
  · split
    · exact .pinnedGlobal rfl hpin rfl rfl rfl rfl
    · rename_i hmask
      have hallowed : cpumaskTestCpu p.cpu p = true := by
        rwa [Bool.not_eq_false] at hmask
      simp only
      split
      · exact .pinnedIdle rfl hpin hallowed (insertTask_inserts rfl rfl rfl rfl).of_claim
      · obtain ⟨hroute, h⟩ := enqueuePlaced_inserts
          (m.testAndClearCpuIdle p.cpu.toNat).2 t flags
          p.cpu.toNat now .pinnedBusy .enqPinnedBusy s!"pid {p.pid} pinned-busy placement failed"
        rw [placedTask_claim, vtimeInsert_claim] at h
        exact .pinnedBusy hroute hpin hallowed h.of_claim

/-- A preemption is owed only on a CPU the task may run on. -/
theorem preemptOwed_allowed {m : Machine} {p : TaskStruct} {t : TaskCtx} {now : U64}
    (h : preemptOwed m p t now = true) : cpumaskTestCpu p.cpu p = true := by
  rw [preemptOwed] at h
  split at h
  · cases h
  · simp only [Bool.and_eq_true] at h
    exact h.1.2

theorem enqueueFree_exits (m : Machine) {p : TaskStruct} (t : TaskCtx) (flags : EnqFlags)
    (now : U64) (hpin : mlfqTaskIsMigrationDisabled p = false) :
    Exits m p t flags now (enqueueFree m p t flags now) := by
  rw [enqueueFree]
  cases hfast : localFastPath m t flags with
  | true =>
      rw [if_pos rfl]
      exact .fastPath rfl hpin hfast (insertTask_inserts rfl rfl rfl rfl)
  | false =>
      rw [if_neg Bool.false_ne_true]
      split
      · rename_i howed
        exact .preempt rfl hpin hfast howed.1 howed.2.1 (preemptOwed_allowed howed.2.2) _
          (insertTask_inserts rfl rfl rfl rfl)
      · obtain ⟨hroute, h⟩ := enqueuePlaced_inserts m t flags (redirectedTarget m p flags).1
          now .regular .enqRegular s!"pid {p.pid} regular placement failed"
        exact Exits.with_stats (.regular hroute hpin hfast h) _

/-- **Every enqueue leaves through one of the exits.** -/
theorem routeTask_exits (m : Machine) (p : TaskStruct) (t : TaskCtx) (flags : EnqFlags)
    (now : U64) : Exits m p t flags now (routeTask m p t flags now) := by
  rw [routeTask]
  cases hpin : mlfqTaskIsMigrationDisabled p with
  | true =>
      rw [if_pos rfl]
      exact enqueuePinned_exits m t flags now hpin
  | false =>
      rw [if_neg Bool.false_ne_true]
      exact enqueueFree_exits m t flags now hpin

/-- The queue an enqueue settles the task in, its weight refreshed. -/
def settledTask (m : Machine) (p : TaskStruct) (flags : EnqFlags) (t : TaskCtx) (now : U64) :
    TaskCtx :=
  (settleQueue m p flags { t with weight := p.weight } now).1

theorem enqueueTask_exits (m : Machine) (p : TaskStruct) (t : TaskCtx) (flags : EnqFlags)
    (now : U64) :
    (p.weight = 0 ∧ enqueueTask m p t flags now =
      { route := .error, machine := m, tctx := some t, stats := [.enqBadWeight]
        error := some s!"pid {p.pid} has invalid weight {p.weight.toNat}" }) ∨
    (p.weight ≠ 0 ∧ Exits m p (settledTask m p flags t now) flags now
      (enqueueTask m p t flags now)) := by
  rw [enqueueTask]
  by_cases hw : p.weight = 0
  · rw [if_pos hw]
    exact .inl ⟨hw, rfl⟩
  · rw [if_neg hw]
    exact .inr ⟨hw, (routeTask_exits m p _ flags now).with_stats _⟩

/-- Settling the queue leaves the ownership record, the fast-path state
and the topology alone. -/
theorem settledTask_frame (m : Machine) (p : TaskStruct) (flags : EnqFlags) (t : TaskCtx)
    (now : U64) :
    (settledTask m p flags t now).lastLlc = t.lastLlc ∧
    (settledTask m p flags t now).lastQid = t.lastQid ∧
    (settledTask m p flags t now).wakeCpuState = t.wakeCpuState := by
  obtain ⟨q, at_, cnt, hset⟩ := settleQueue_frame m p flags { t with weight := p.weight } now
  obtain ⟨q', w, n, b, ema, st, feats, pq, pv, h⟩ :=
    enqueueClassify_frame m p flags { t with weight := p.weight } now
  rw [settledTask, hset, h]
  exact ⟨rfl, rfl, rfl⟩

/-- A `SCHED_IDLE` task is settled in Q3 and does not age out of it. -/
theorem settledTask_schedIdle {p : TaskStruct} (h : schedIdle p = true) (m : Machine)
    (flags : EnqFlags) (t : TaskCtx) (now : U64) :
    (settledTask m p flags t now).queue = .q3 := by
  have hage (t : TaskCtx) : agingDue m.rod p t now = false := by
    simp [agingDue, h]
  rw [settledTask, settleQueue_eq, age_not_due (hage _), stayed_queue, classified,
    mlfqApplySchedIdle, h]
  rfl

/-- The context an enqueue works on: the task's own, or a fresh one. -/
def enqueueCtx (p : TaskStruct) (tctx alloc : Option TaskCtx) (now : U64) : Option TaskCtx :=
  tctx.or (alloc.map fun a => mlfqResetTaskCtx a p now)

theorem mlfqEnqueue_of_ctx {p : TaskStruct} {tctx alloc : Option TaskCtx} {now : U64}
    {t : TaskCtx} (h : enqueueCtx p tctx alloc now = some t) (m : Machine) (flags : EnqFlags) :
    mlfqEnqueue m p tctx alloc flags now = enqueueTask m p t flags now := by
  cases tctx with
  | some u =>
      cases h
      rfl
  | none =>
      cases alloc with
      | none => cases h
      | some a =>
          cases h
          rfl

/-- The texts of `scx_bpf_error` an enqueue can report: the two of a
failed placement are not among them. -/
def enqueueErrors (p : TaskStruct) : List String :=
  [s!"pid {p.pid} task state allocation failed in enqueue",
    s!"pid {p.pid} has invalid weight {p.weight.toNat}",
    s!"pid {p.pid} pinned task without a CPU"]

/-- Why an enqueue reports an error: the task has no storage and gets
none, its weight is zero, or it is pinned and has no CPU. -/
inductive EnqueueFails (p : TaskStruct) (tctx alloc : Option TaskCtx) : String → Prop where
  | storage (noCtx : tctx = none) (noAlloc : alloc = none) :
      EnqueueFails p tctx alloc s!"pid {p.pid} task state allocation failed in enqueue"
  | weight (zero : p.weight = 0) :
      EnqueueFails p tctx alloc s!"pid {p.pid} has invalid weight {p.weight.toNat}"
  | cpu (pinned : mlfqTaskIsMigrationDisabled p = true) (noCpu : p.cpu < 0) :
      EnqueueFails p tctx alloc s!"pid {p.pid} pinned task without a CPU"

/-- **An enqueue fails before it settles the queue, or leaves through an
exit.** -/
theorem mlfqEnqueue_exits (m : Machine) (p : TaskStruct) (tctx alloc : Option TaskCtx)
    (flags : EnqFlags) (now : U64) :
    ((mlfqEnqueue m p tctx alloc flags now).insert = none ∧
      (∃ e ∈ enqueueErrors p, (mlfqEnqueue m p tctx alloc flags now).error = some e ∧
        EnqueueFails p tctx alloc e) ∧
      (enqueueCtx p tctx alloc now = none ∨ p.weight = 0)) ∨
    ∃ t, enqueueCtx p tctx alloc now = some t ∧ p.weight ≠ 0 ∧
      Exits m p (settledTask m p flags t now) flags now
        (mlfqEnqueue m p tctx alloc flags now) := by
  cases hctx : enqueueCtx p tctx alloc now with
  | none =>
      obtain ⟨rfl, rfl⟩ : tctx = none ∧ alloc = none := by
        cases tctx with
        | some t => cases hctx
        | none =>
            cases alloc with
            | some a => cases hctx
            | none => exact ⟨rfl, rfl⟩
      exact .inl ⟨rfl, ⟨_, by simp [enqueueErrors], rfl, .storage rfl rfl⟩, .inl rfl⟩
  | some t =>
      rw [mlfqEnqueue_of_ctx hctx]
      rcases enqueueTask_exits m p t flags now with ⟨hzero, heq⟩ | ⟨hweight, hexit⟩
      · rw [heq]
        exact .inl ⟨rfl, ⟨_, by simp [enqueueErrors], rfl, .weight hzero⟩, .inr hzero⟩
      · exact .inr ⟨t, rfl, hweight, hexit⟩

/-! ## What an insert leaves -/

/-- The id of a DSQ as an integer, before it is cut to the word. -/
theorem mlfqDsqId_eq_ofInt (q : Queue) (cpu : Int) :
    mlfqDsqId q cpu = BitVec.ofInt 64 (0x1000 + cpu * 3 + (q.num - 1)) := by
  have hnum : (q.num : Int) - 1 = ((q.num - 1 : Nat) : Int) := by
    have hpos := q.num_pos
    omega
  rw [hnum, BitVec.ofInt_add, BitVec.ofInt_add, BitVec.ofInt_mul, BitVec.ofInt_natCast]
  rfl

/-- **Two queue DSQs never share an id**: over the CPU numbers of an
`s32`, the id decodes to the queue and the CPU. -/
theorem mlfqDsqId_injOn :
    Set.InjOn (fun d : Queue × Int => mlfqDsqId d.1 d.2)
      {d | -2 ^ 31 ≤ d.2 ∧ d.2 < 2 ^ 31} := by
  rintro ⟨q, cpu⟩ ⟨hlo, hhi⟩ ⟨q', cpu'⟩ ⟨hlo', hhi'⟩ h
  simp only at hlo hhi hlo' hhi' h
  have hpos := q.num_pos
  have hle := q.num_le
  have hpos' := q'.num_pos
  have hle' := q'.num_le
  have hmax : mlfqNrQueues = 3 := rfl
  rw [mlfqDsqId_eq_ofInt, mlfqDsqId_eq_ofInt] at h
  have hint := congrArg BitVec.toInt h
  -- the ids stay far below the word, so the integers are equal
  rw [BitVec.toInt_ofInt, BitVec.toInt_ofInt, Int.bmod_eq_of_le (by omega) (by omega),
    Int.bmod_eq_of_le (by omega) (by omega)] at hint
  have hnum : q.num = q'.num := by omega
  rw [Prod.mk.injEq]
  exact ⟨Queue.num_injective hnum, by omega⟩

/-- The task an insert leaves: counted, stamped, and otherwise as it was
placed. -/
theorem InsertsFor.task {m : Machine} {placed : TaskCtx} {flags : EnqFlags} {now : U64}
    {owner : Nat} {insert : DsqInsert} {r : EnqueueResult}
    (h : InsertsFor m placed flags now owner insert r) :
    ∃ t', r.tctx = some t' ∧ t'.queue = placed.queue ∧ t'.deadline = placed.deadline ∧
      t'.wakeCpuState = {} ∧ t'.enqAt = now ∧ t'.flags.enqWakeup = flags.wakeup := by
  obtain ⟨llc, qid, htask⟩ :=
    mlfqRunnableEnter_task m.gauges placed placed.queue (m.llcOfCpu owner)
  have ht := h.tctx
  rw [htask] at ht
  exact ⟨_, ht, rfl, rfl, rfl, rfl, rfl⟩

/-- The CPU whose queue DSQ an enqueue fills. -/
def queueTarget (m : Machine) (p : TaskStruct) (flags : EnqFlags) : Int :=
  if mlfqTaskIsMigrationDisabled p then p.cpu.toNat else (redirectedTarget m p flags).1

/-- The state an enqueue leaves behind the insert `i`. -/
structure Placed (m : Machine) (p : TaskStruct) (flags : EnqFlags) (now : U64) (i : DsqInsert)
    (t' : TaskCtx) : Prop where
  range : 1 ≤ t'.queue.num ∧ t'.queue.num ≤ 3
  schedIdle : schedIdle p = true → t'.queue = .q3
  /-- A vtime insert is one into a queue DSQ. -/
  vtime : (∃ key, i.deadline = some key) ↔ ∃ q cpu, i.dsq = .queue q cpu
  queue : ∀ q cpu, i.dsq = .queue q cpu → q = t'.queue ∧ cpu = queueTarget m p flags ∧
    i.deadline = some t'.deadline ∧ t'.deadline ≠ 0
  wake : t'.wakeCpuState = {}
  stamped : i.dsq ≠ .global → t'.enqAt = now ∧ t'.flags.enqWakeup = flags.wakeup
  parked : i.dsq = .global → t'.enqAt = 0 ∧ t'.flags.enqWakeup = false

section

variable {m : Machine} {p : TaskStruct} {t : TaskCtx} {flags : EnqFlags} {now : U64}
  {r : EnqueueResult}

/-- An insert into a local DSQ. -/
theorem InsertsFor.placed_local {owner : Nat} {insert : DsqInsert}
    (h : InsertsFor m t flags now owner insert r)
    (hidle : ScxMlfq.schedIdle p = true → t.queue = .q3) (hkey : insert.deadline = none)
    (hdsq : insert.dsq = .loc ∨ ∃ cpu, insert.dsq = .localOn cpu) :
    ∃ i t', r.insert = some i ∧ r.error = none ∧ r.tctx = some t' ∧
      Placed m p flags now i t' := by
  obtain ⟨t', ht', hqueue, -, hwake, hat, hwakeup⟩ := h.task
  refine ⟨insert, t', h.insert, h.error, ht', ?_⟩
  have hnot : insert.dsq ≠ .global ∧ ∀ q cpu, insert.dsq ≠ .queue q cpu := by
    rcases hdsq with hloc | ⟨cpu, hloc⟩
    · rw [hloc]
      exact ⟨nofun, fun _ _ => nofun⟩
    · rw [hloc]
      exact ⟨nofun, fun _ _ => nofun⟩
  constructor
  · exact ⟨t'.queue.num_pos, t'.queue.num_le⟩
  · intro hsched
    rw [hqueue, hidle hsched]
  · constructor
    · rintro ⟨key, hsome⟩
      rw [hkey] at hsome
      cases hsome
    · rintro ⟨q, cpu, hq⟩
      exact absurd hq (hnot.2 q cpu)
  · intro q cpu hq
    exact absurd hq (hnot.2 q cpu)
  · exact hwake
  · intro _
    exact ⟨hat, hwakeup⟩
  · intro hglobal
    exact absurd hglobal hnot.1

/-- An insert into a queue DSQ: the key is the deadline of the placement,
which is off the failed-placement sentinel. -/
theorem InsertsFor.placed_queue {cpu : Nat}
    (h : InsertsFor m (placedTask m t) flags now cpu (vtimeInsert m t flags cpu) r)
    (hidle : ScxMlfq.schedIdle p = true → t.queue = .q3)
    (htarget : (cpu : Int) = queueTarget m p flags) :
    ∃ i t', r.insert = some i ∧ r.error = none ∧ r.tctx = some t' ∧
      Placed m p flags now i t' := by
  obtain ⟨t', ht', hqueue, hkey, hwake, hat, hwakeup⟩ := h.task
  rw [placedTask_queue] at hqueue
  have hne : (placedTask m t).deadline ≠ 0 := by
    rw [placedTask, mlfqPlaceEntity_deadline]
    exact mlfqPlaceEntityDeadline_ne_zero (m.queues t.queue) t
  refine ⟨vtimeInsert m t flags cpu, t', h.insert, h.error, ht', ?_⟩
  constructor
  · exact ⟨t'.queue.num_pos, t'.queue.num_le⟩
  · intro hsched
    rw [hqueue, hidle hsched]
  · exact iff_of_true ⟨_, rfl⟩ ⟨_, _, rfl⟩
  · intro q c hq
    cases hq
    exact ⟨hqueue.symm, htarget, by rw [hkey]; rfl, by rw [hkey]; exact hne⟩
  · exact hwake
  · intro _
    exact ⟨hat, hwakeup⟩
  · intro hglobal
    cases hglobal

/-- Every exit places the task once or reports the error. -/
theorem Exits.placed (h : Exits m p t flags now r)
    (hidle : ScxMlfq.schedIdle p = true → t.queue = .q3) (tctx alloc : Option TaskCtx) :
    (r.insert = none ∧ ∃ e ∈ enqueueErrors p, r.error = some e ∧ EnqueueFails p tctx alloc e) ∨
    ∃ i t', r.insert = some i ∧ r.error = none ∧ r.tctx = some t' ∧
      Placed m p flags now i t' := by
  cases h with
  | noCpu route pinned cpu insert error tctx machine =>
      exact .inl ⟨insert, _, by simp [enqueueErrors], error, .cpu pinned cpu⟩
  | pinnedGlobal route pinned gauges tctx insert error =>
      obtain ⟨llc, qid, htask⟩ := mlfqRunnableExit_task m.gauges t
      rw [htask] at tctx
      refine .inr ⟨_, _, insert, error, tctx, ?_⟩
      constructor
      · exact ⟨t.queue.num_pos, t.queue.num_le⟩
      · exact hidle
      · constructor
        · rintro ⟨key, hkey⟩
          cases hkey
        · rintro ⟨q, cpu, hq⟩
          cases hq
      · intro q cpu hq
        cases hq
      · rfl
      · intro hglobal
        exact absurd rfl hglobal
      · intro _
        exact ⟨rfl, rfl⟩
  | pinnedIdle route pinned allowed inserts =>
      exact .inr (inserts.placed_local hidle rfl (.inr ⟨_, rfl⟩))
  | pinnedBusy route pinned allowed inserts =>
      exact .inr (inserts.placed_queue hidle (by rw [queueTarget, if_pos pinned]))
  | fastPath route free idle inserts =>
      exact .inr (inserts.placed_local hidle rfl (.inl rfl))
  | preempt route free slow wakeup stays allowed slice inserts =>
      exact .inr (inserts.placed_local hidle rfl (.inr ⟨_, rfl⟩))
  | regular route free slow inserts =>
      refine .inr (inserts.placed_queue hidle ?_)
      rw [queueTarget, if_neg (by rw [free]; exact Bool.false_ne_true)]

end

/-- **Every enqueue places the task exactly once**, or reports an error
with its cause and does not insert: the placement cannot fail. The id of
a queue DSQ names one queue and one CPU. -/
theorem mlfqEnqueue_places_once (m : Machine) (p : TaskStruct) (tctx alloc : Option TaskCtx)
    (flags : EnqFlags) (now : U64) :
    (((mlfqEnqueue m p tctx alloc flags now).insert = none ∧
        ∃ e ∈ enqueueErrors p, (mlfqEnqueue m p tctx alloc flags now).error = some e ∧
          EnqueueFails p tctx alloc e) ∨
      ∃ i t', (mlfqEnqueue m p tctx alloc flags now).insert = some i ∧
        (mlfqEnqueue m p tctx alloc flags now).error = none ∧
        (mlfqEnqueue m p tctx alloc flags now).tctx = some t' ∧ Placed m p flags now i t') ∧
    Set.InjOn (fun d : Queue × Int => mlfqDsqId d.1 d.2) {d | -2 ^ 31 ≤ d.2 ∧ d.2 < 2 ^ 31} := by
  refine ⟨?_, mlfqDsqId_injOn⟩
  rcases mlfqEnqueue_exits m p tctx alloc flags now with ⟨hinsert, herror, -⟩ | ⟨t, -, -, hexit⟩
  · exact .inl ⟨hinsert, herror⟩
  · exact hexit.placed (fun hsched => settledTask_schedIdle hsched m flags t now) tctx alloc

/-! ## Where the task is counted -/

/-- The CPU that owns a DSQ; `SCX_DSQ_LOCAL` is resolved to the CPU of
the task. -/
def Dsq.owner (taskCpu : Int) : Dsq → Option Int
  | .global => none
  | .loc => some taskCpu
  | .localOn cpu => some cpu
  | .queue _ cpu => some cpu

/-- The record names the domain `llc` and the queue `q`. -/
def Attributed (t : TaskCtx) (llc : Nat) (q : Queue) : Prop :=
  t.lastLlc = BitVec.ofNat 8 llc ∧ t.lastQid = BitVec.ofNat 8 q.num

instance (t : TaskCtx) (llc : Nat) (q : Queue) : Decidable (Attributed t llc q) :=
  inferInstanceAs (Decidable (_ ∧ _))

theorem ofNat_llc_injective {l l' : Nat} (h : l < mlfqMaxLlcs) (h' : l' < mlfqMaxLlcs)
    (heq : BitVec.ofNat 8 l = BitVec.ofNat 8 l') : l = l' := by
  have hnat := congrArg BitVec.toNat heq
  have hmax : mlfqMaxLlcs < 2 ^ 8 := by decide
  rwa [BitVec.toNat_ofNat, BitVec.toNat_ofNat, Nat.mod_eq_of_lt (by omega),
    Nat.mod_eq_of_lt (by omega)] at hnat

/-- The record an insert leaves, by the domain of the CPU it counts the
task for. -/
theorem InsertsFor.record {m : Machine} {placed : TaskCtx} {flags : EnqFlags} {now : U64}
    {owner : Nat} {insert : DsqInsert} {r : EnqueueResult} {t' : TaskCtx}
    (h : InsertsFor m placed flags now owner insert r) (ht : r.tctx = some t') :
    t'.queue = placed.queue ∧
    (m.llcOfCpu owner < mlfqMaxLlcs → Attributed t' (m.llcOfCpu owner) placed.queue) ∧
    (mlfqMaxLlcs ≤ m.llcOfCpu owner →
      t'.lastLlc = placed.lastLlc ∧ t'.lastQid = placed.lastQid) := by
  rw [h.tctx, mlfqRunnableEnter_record] at ht
  by_cases hl : m.llcOfCpu owner ≥ mlfqMaxLlcs
  · rw [if_pos hl] at ht
    cases ht
    exact ⟨rfl, fun hlt => absurd hlt (Nat.not_lt.mpr hl), fun _ => ⟨rfl, rfl⟩⟩
  · rw [if_neg hl] at ht
    cases ht
    exact ⟨rfl, fun _ => ⟨rfl, rfl⟩, fun hle => absurd hle hl⟩

/-- The fast path counts the task for the executing CPU, in another
domain than the CPU whose local DSQ it fills. A record that the
executing CPU cannot change may be right already. -/
structure Misattributes (m : Machine) (p : TaskStruct) (t : TaskCtx) (flags : EnqFlags)
    (now : U64) : Prop where
  free : mlfqTaskIsMigrationDisabled p = false
  fast : localFastPath m t flags = true
  away : m.llcOfCpu m.cpu ≠ m.llcOfCpu p.cpu.toNat
  wrong : m.llcOfCpu m.cpu < mlfqMaxLlcs ∨
    ¬ Attributed t (m.llcOfCpu p.cpu.toNat) (settledTask m p flags t now).queue

theorem localFastPath_settled (m : Machine) (p : TaskStruct) (flags : EnqFlags) (t : TaskCtx)
    (now : U64) :
    localFastPath m (settledTask m p flags t now) flags = localFastPath m t flags := by
  rw [localFastPath, localFastPath, (settledTask_frame m p flags t now).2.2]

/-- The attribution at the exit of the local fast path, which records the
domain of the executing CPU. -/
theorem InsertsFor.fastPath_attributed_iff {m : Machine} {p : TaskStruct} {t t' : TaskCtx}
    {flags : EnqFlags} {now : U64} {insert : DsqInsert} {r : EnqueueResult}
    (hins : InsertsFor m (settledTask m p flags t now) flags now m.cpu insert r)
    (ht : r.tctx = some t') (hllc : m.llcOfCpu p.cpu.toNat < mlfqMaxLlcs)
    (free : mlfqTaskIsMigrationDisabled p = false) (idle : localFastPath m t flags = true) :
    Attributed t' (m.llcOfCpu p.cpu.toNat) t'.queue ↔ ¬ Misattributes m p t flags now := by
  obtain ⟨hqueue, hmapped, hunmapped⟩ := hins.record ht
  obtain ⟨hllc₀, hqid₀, -⟩ := settledTask_frame m p flags t now
  rw [hqueue]
  rcases Nat.lt_or_ge (m.llcOfCpu m.cpu) mlfqMaxLlcs with hexec | hexec
  · constructor
    · intro hatt hmis
      apply hmis.away
      exact ofNat_llc_injective hexec hllc ((hmapped hexec).1.symm.trans hatt.1)
    · intro hnot
      by_cases hsame : m.llcOfCpu m.cpu = m.llcOfCpu p.cpu.toNat
      · rw [← hsame]
        exact hmapped hexec
      · exact absurd ⟨free, idle, hsame, .inl hexec⟩ hnot
  · -- the executing CPU has no domain: the record is what it was
    obtain ⟨hl, hq⟩ := hunmapped hexec
    have hrec (l : Nat) (q : Queue) : Attributed t' l q ↔ Attributed t l q := by
      rw [Attributed, Attributed, hl, hq, hllc₀, hqid₀]
    rw [hrec]
    constructor
    · intro hatt hmis
      rcases hmis.wrong with hlt | hno
      · exact absurd hlt (Nat.not_lt.mpr hexec)
      · exact hno hatt
    · intro hnot
      by_contra hno
      exact hnot ⟨free, idle, fun hsame => absurd (hsame ▸ hllc) (Nat.not_lt.mpr hexec),
        .inr hno⟩

/-- The attribution at one exit. -/
theorem Exits.attributed_iff {m : Machine} {p : TaskStruct} {t t' : TaskCtx} {flags : EnqFlags}
    {now : U64} {r : EnqueueResult} (h : Exits m p (settledTask m p flags t now) flags now r)
    (ht : r.tctx = some t') {i : DsqInsert} (hi : r.insert = some i) {cpu : Int}
    (hcpu : i.dsq.owner p.cpu = some cpu) (hllc : m.llcOfCpu cpu.toNat < mlfqMaxLlcs) :
    Attributed t' (m.llcOfCpu cpu.toNat) t'.queue ↔ ¬ Misattributes m p t flags now := by
  -- an insert for the CPU that owns the DSQ
  have howner {placed : TaskCtx} {cpu' : Nat} {insert : DsqInsert}
      (hins : InsertsFor m placed flags now cpu' insert r) (hsame : cpu.toNat = cpu') :
      Attributed t' (m.llcOfCpu cpu.toNat) t'.queue := by
    obtain ⟨hqueue, hrec, -⟩ := hins.record ht
    rw [hqueue, hsame]
    rw [hsame] at hllc
    exact hrec hllc
  have hpinned (hpin : mlfqTaskIsMigrationDisabled p = true) :
      ¬ Misattributes m p t flags now := fun hmis => by
    rw [hmis.free] at hpin
    cases hpin
  have hslow (hno : localFastPath m (settledTask m p flags t now) flags = false) :
      ¬ Misattributes m p t flags now := fun hmis => by
    rw [localFastPath_settled, hmis.fast] at hno
    cases hno
  cases h with
  | noCpu route pinned neg insert =>
      rw [insert] at hi
      cases hi
  | pinnedGlobal route pinned gauges tctx insert =>
      rw [insert] at hi
      cases hi
      cases hcpu
  | pinnedIdle route pinned allowed hins =>
      obtain rfl := Option.some.inj (hins.insert.symm.trans hi)
      cases hcpu
      exact iff_of_true (howner hins rfl) (hpinned pinned)
  | pinnedBusy route pinned allowed hins =>
      obtain rfl := Option.some.inj (hins.insert.symm.trans hi)
      cases hcpu
      exact iff_of_true (howner hins rfl) (hpinned pinned)
  | preempt route free slow wakeup stays allowed slice hins =>
      obtain rfl := Option.some.inj (hins.insert.symm.trans hi)
      cases hcpu
      exact iff_of_true (howner hins rfl) (hslow slow)
  | regular route free slow hins =>
      obtain rfl := Option.some.inj (hins.insert.symm.trans hi)
      cases hcpu
      exact iff_of_true (howner hins rfl) (hslow slow)
  | fastPath route free idle hins =>
      obtain rfl := Option.some.inj (hins.insert.symm.trans hi)
      cases hcpu
      rw [localFastPath_settled] at idle
      exact hins.fastPath_attributed_iff ht hllc free idle

/-- **Gauge attribution.** After an insert into the DSQ of a CPU with a
domain, the record names that domain and the queue exactly when the call
does not take the fast path away from the domain of the task's CPU.
After the global park the task is unowned. -/
theorem mlfqEnqueue_attributed_iff (m : Machine) (p : TaskStruct) (tctx alloc : Option TaskCtx)
    (flags : EnqFlags) (now : U64) (t t' : TaskCtx) (i : DsqInsert) (cpu : Int)
    (ht : enqueueCtx p tctx alloc now = some t)
    (ht' : (mlfqEnqueue m p tctx alloc flags now).tctx = some t')
    (hi : (mlfqEnqueue m p tctx alloc flags now).insert = some i) :
    (i.dsq = .global → t'.lastLlc = mlfqLlcUnowned) ∧
    (i.dsq.owner p.cpu = some cpu → m.llcOfCpu cpu.toNat < mlfqMaxLlcs →
      (Attributed t' (m.llcOfCpu cpu.toNat) t'.queue ↔ ¬ Misattributes m p t flags now)) := by
  rw [mlfqEnqueue_of_ctx ht] at ht' hi
  rcases enqueueTask_exits m p t flags now with ⟨-, heq⟩ | ⟨-, hexit⟩
  · rw [heq] at hi
    cases hi
  · refine ⟨fun hglobal => ?_, fun hcpu hllc => hexit.attributed_iff ht' hi hcpu hllc⟩
    have hnot {placed : TaskCtx} {cpu' : Nat} {insert : DsqInsert}
        (hins : InsertsFor m placed flags now cpu' insert (enqueueTask m p t flags now))
        (hne : insert.dsq ≠ .global) : t'.lastLlc = mlfqLlcUnowned := by
      obtain rfl := Option.some.inj (hins.insert.symm.trans hi)
      exact absurd hglobal hne
    cases hexit with
    | noCpu route pinned neg insert =>
        rw [insert] at hi
        cases hi
    | pinnedGlobal route pinned gauges tctx' insert =>
        rw [tctx'] at ht'
        cases ht'
        show (mlfqRunnableExit _ _).2.lastLlc = _
        rw [mlfqRunnableExit]
        split
        · assumption
        · rfl
    | pinnedIdle route pinned allowed hins => exact hnot hins fun h => by cases h
    | pinnedBusy route pinned allowed hins => exact hnot hins fun h => by cases h
    | fastPath route free idle hins => exact hnot hins fun h => by cases h
    | preempt route free slow wakeup stays allowed slice hins => exact hnot hins fun h => by cases h
    | regular route free slow hins => exact hnot hins fun h => by cases h

/-- A machine whose CPU `c` is the domain `c` of two. -/
def twoLlcs (cpu : Nat) : Machine :=
  { (Machine.zeroed { nrLlcs := 2, cpuLlc := id } 2).seed with cpu := cpu }

/-- A task of CPU 1 whose selected CPU was claimed idle, enqueued by a
waker on CPU 0. -/
def remoteWake : EnqueueResult :=
  mlfqEnqueue (twoLlcs 0) { pid := 1, cpu := 1, nrCpusAllowed := 2 }
    (some { wakeCpuState := { idle := true, valid := true } }) none
    { wakeup := true, cpuSelected := true } 1

theorem remoteWake_lastLlc : remoteWake.tctx.map TaskCtx.lastLlc = some 0 := by
  decide

theorem remoteWake_dsq : remoteWake.insert.map DsqInsert.dsq = some .loc := by
  decide

/-- **The failing input.** The insert fills the local DSQ of CPU 1 in
domain 1, the record names domain 0. -/
theorem mlfqEnqueue_misattributed :
    ¬ ∀ (m : Machine) (p : TaskStruct) (tctx alloc : Option TaskCtx) (flags : EnqFlags)
      (now : U64) (t' : TaskCtx) (i : DsqInsert) (cpu : Int),
      (mlfqEnqueue m p tctx alloc flags now).tctx = some t' →
      (mlfqEnqueue m p tctx alloc flags now).insert = some i →
      i.dsq.owner p.cpu = some cpu → m.llcOfCpu cpu.toNat < mlfqMaxLlcs →
      Attributed t' (m.llcOfCpu cpu.toNat) t'.queue := by
  intro h
  obtain ⟨t', ht', hllc⟩ := Option.map_eq_some_iff.mp remoteWake_lastLlc
  obtain ⟨i, hi, hdsq⟩ := Option.map_eq_some_iff.mp remoteWake_dsq
  have hatt := h (twoLlcs 0) { pid := 1, cpu := 1, nrCpusAllowed := 2 } _ none _ 1 t' i 1
    ht' hi (by rw [hdsq]; rfl) (by decide)
  rw [Attributed, hllc] at hatt
  exact absurd hatt.1 (by decide)

/-- At that input the theorem says so. -/
theorem mlfqEnqueue_attributed_iff_remote :
    ∃ t' i, remoteWake.tctx = some t' ∧ remoteWake.insert = some i ∧
      ((i.dsq = .global → t'.lastLlc = mlfqLlcUnowned) ∧
      (i.dsq.owner 1 = some 1 → (twoLlcs 0).llcOfCpu 1 < mlfqMaxLlcs →
        (Attributed t' ((twoLlcs 0).llcOfCpu 1) t'.queue ↔
          ¬ Misattributes (twoLlcs 0) { pid := 1, cpu := 1, nrCpusAllowed := 2 }
            { wakeCpuState := { idle := true, valid := true } }
            { wakeup := true, cpuSelected := true } 1))) := by
  obtain ⟨t', ht', -⟩ := Option.map_eq_some_iff.mp remoteWake_lastLlc
  obtain ⟨i, hi, -⟩ := Option.map_eq_some_iff.mp remoteWake_dsq
  exact ⟨t', i, ht', hi,
    mlfqEnqueue_attributed_iff _ _ _ none _ _ _ t' i 1 (by rfl) ht' hi⟩

end ScxMlfq
