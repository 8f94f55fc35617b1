import Mathlib.Data.BitVec

/-!
# Intf — Types

The state layouts and constants of `src/bpf/intf.h`, and the two kernel
views every callback receives: the task (`TaskStruct`) and the rodata
the front-end writes before load (`Rodata`).

Machine words are `BitVec`: addition and multiplication wrap, division
by zero is zero, which is what a BPF program computes. CPU ids and
cache-domain ids are naturals, signed CPU ids integers.

Two fields carry their invariant in their type. A task's queue is one
of three values (`Queue`): every store to `task_ctx.queue` writes 1, 2
or 3, or increments under a `queue == 1 || queue == 2` guard. The
`flags` and `wake_cpu_state` bytes are the named bits they are made of.
-/

namespace ScxMlfq

abbrev U64 := BitVec 64
abbrev U32 := BitVec 32
abbrev U8 := BitVec 8

/-! ## Constants (`enum mlfq_consts`) -/

def nsecPerUsec : U64 := 1000
def nsecPerMsec : U64 := 1000000

def mlfqQ1SliceNs : U64 := 1000000
def mlfqQ2SliceNs : U64 := 2000000
def mlfqTickNs : U64 := 1000000
def fpOne : U64 := 256
def mlfqEmaHalfLifeNs : U64 := 24000000
def mlfqSqEmaMaxNs : U64 := 16000000
def mlfqBudgetMaxNs : U64 := 6000000
def mlfqLongSleepNs : U64 := 120000000
def mlfqCpuperfQ1 : U64 := 1024
def mlfqSchedIdle : Nat := 5
def mlfqNrQueues : Nat := 3
def mlfqDsqBase : U64 := 0x1000
def mlfqDsqStride : U64 := 3
def mlfqMaxCpus : Nat := 1024
def mlfqMaxLlcs : Nat := 32
def mlfqStealScanMax : Nat := 64
def mlfqSteerLlcMax : Nat := 4
def mlfqLlcScanMax : Nat := 32
def mlfqMaxLlcCpus : Nat := mlfqLlcScanMax
def mlfqTreeMaxNodes : Nat := 2048
def mlfqTreeMaxDepth : Nat := 12
def mlfqTreeNrFeatures : Nat := 9
def mlfqTreeSampleRateLimitNs : U64 := 500000
def mlfqTreePerTaskLimitNs : U64 := 10000000
def mlfqTreeLabelMaxNs : U64 := 192000000
def mlfqLlcUnowned : U8 := 0xFF
def mlfqTreeSampleVersion : U32 := 4

/-! ## Queues -/

/-- The three queues, `task_ctx.queue` (1..3). -/
inductive Queue where
  | q1
  | q2
  | q3
deriving DecidableEq, Repr

namespace Queue

/-- The queue number of the source. -/
def num : Queue → Nat
  | q1 => 1
  | q2 => 2
  | q3 => 3

/-- `queue++`, taken only from queues 1 and 2. -/
def next : Queue → Queue
  | q1 => q2
  | q2 => q3
  | q3 => q3

theorem num_pos (q : Queue) : 1 ≤ q.num := by cases q <;> decide

theorem num_le (q : Queue) : q.num ≤ mlfqNrQueues := by cases q <;> decide

theorem num_injective {q r : Queue} (h : q.num = r.num) : q = r := by
  cases q <;> cases r <;> first | rfl | exact absurd h (by decide)

theorem next_num {q : Queue} (h : q ≠ q3) : q.next.num = q.num + 1 := by
  cases q with
  | q1 => rfl
  | q2 => rfl
  | q3 => exact absurd rfl h

theorem next_ne {q : Queue} (h : q ≠ q3) : q.next ≠ q := by
  intro heq
  have := next_num h
  rw [heq] at this
  omega

theorem two_le_num_iff {q : Queue} : 2 ≤ q.num ↔ q ≠ q1 := by
  cases q <;> decide

end Queue

/-! ## The feature vector -/

/-- `struct mlfq_tree_feats`. -/
structure TreeFeats where
  prevBurstNs : U64 := 0
  sleepNs : U64 := 0
  ema : U64 := 0
  ioWait : U32 := 0
  wakeCnt : U32 := 0
  wakeLatUs : U32 := 0
  queueWaitUs : U32 := 0
  sqEma : U64 := 0
  sleepVarRatio : U32 := 0
  gpuSubmit : U32 := 0
deriving DecidableEq, Repr

/-! ## Per-task state -/

/-- `task_ctx.flags` (`MLFQ_TF_*`). -/
structure TaskFlags where
  firstRun : Bool := false
  enqWakeup : Bool := false
  drmWake : Bool := false
deriving DecidableEq, Repr

/-- `task_ctx.wake_cpu_state` (`MLFQ_WAKE_CPU_*`). -/
structure WakeCpuState where
  idle : Bool := false
  valid : Bool := false
deriving DecidableEq, Repr

/-- `struct task_ctx`. The defaults are the zeroed storage a fresh
allocation returns, with the queue `mlfq_reset_task_ctx` then writes. -/
structure TaskCtx where
  vruntime : U64 := 0
  vlag : Int := 0
  deadline : U64 := 0
  ema : U64 := 0
  lastRunAt : U64 := 0
  lastSleepAt : U64 := 0
  queuedAt : U64 := 0
  lastSsBoostAt : U64 := 0
  weight : U32 := 0
  queue : Queue := .q2
  reenqCnt : U8 := 0
  wakeCnt : U8 := 0
  flags : TaskFlags := {}
  wakeCpuState : WakeCpuState := {}
  lastLlc : U8 := 0
  lastQid : U8 := 0
  enqAt : U64 := 0
  lastWakeLatNs : U32 := 0
  lastQWaitNs : U32 := 0
  sqEma : U64 := 0
  prevBurstNs : U64 := 0
  lastSampleAt : U64 := 0
  sleepMeanEma : U64 := 0
  sleepVarEma : U64 := 0
  sleepVarRatio : U32 := 0
  pendingFeats : TreeFeats := {}
  pendingQueue : U32 := 0
  pendingValid : U64 := 0
  gpuSubmit : U32 := 0
  lastGpuSubmitAt : U64 := 0
deriving DecidableEq, Repr

/-! ## Shared state -/

/-- `struct queue_ctx`: one queue's virtual clock and request size. -/
structure QueueCtx where
  clock : U64
  maxSliceNs : U64
deriving DecidableEq, Repr

/-- `struct mlfq_cpu_state`: the record of the task on a CPU. -/
structure CpuState where
  runningQueue : Nat := 0
  runningPid : Nat := 0
  stealScanOff : U32 := 0
  cpuEma : U64 := 0
  cpuEmaAt : U64 := 0
  runningDeadline : U64 := 0
  runStartAt : U64 := 0
  runningGpuSubmit : U32 := 0
deriving DecidableEq, Repr

/-- `struct mlfq_llc_cpu_list`: the CPUs of one cache domain. -/
structure LlcCpuList where
  nr : Nat := 0
  cpus : Nat → Nat := fun _ => 0

/-- The valid entries of the list. -/
def LlcCpuList.entries (list : LlcCpuList) : List Nat := (List.range list.nr).map list.cpus

theorem LlcCpuList.length_entries (list : LlcCpuList) : list.entries.length = list.nr := by
  simp [LlcCpuList.entries]

/-- `struct mlfq_adapt_state`: the effective band edges the
classification consumes. -/
structure AdaptState where
  shiftFp : Int := 0
  tLEffNs : U64
  tHEffNs : U64
  tIntEffNs : U64
  tBndEffNs : U64
  guardEffNs : U64
deriving DecidableEq, Repr

/-- The rodata of `main.bpf.c`, written by the front-end before load. -/
structure Rodata where
  q1SliceNs : U64 := 1000000
  q2SliceNs : U64 := 2000000
  q3SliceNs : U64 := 4000000
  budgetMaxNs : U64 := 6000000
  alpha : U64 := 3072
  tLNs : U64 := 250000
  tHNs : U64 := 2000000
  emaHalfLifeNs : U64 := 24000000
  agingPeriodNs : U64 := 1000000000
  shortSleepNs : U64 := 32000000
  shortSleepRateLimitNs : U64 := 2000000
  hysteresisSleepNs : U64 := 4000000
  longSleepNs : U64 := 120000000
  sameqPreemptMinRunNs : U64 := 0
  preemptSliceNs : U64 := 150000
  treeTIntNs : U64 := 1000000
  treeTBoundNs : U64 := 3000000
  q1Quota : U32 := 4
  q2Quota : U32 := 8
  dispatchMaxBatch : U32 := 32
  primaryAll : Bool := true
  nrLlcs : Nat := 0
  llcHasPrimary : Nat → Bool := fun _ => false
  cpuLlc : Nat → Nat := fun _ => 0
  idleTracking : Bool := false
  smtOn : Bool := false
  cpuSibling : Nat → Nat := fun _ => 0
  llcLargest : Nat := 32

/-! ## The kernel's view of a task -/

/-- What the callbacks read of `struct task_struct`: `cpus` is
`p->cpus_ptr`, `cpu` is `scx_bpf_task_cpu(p)`, `running` is
`scx_bpf_task_running(p)`, `migrationDisabled` is
`is_migration_disabled(p)`. -/
structure TaskStruct where
  pid : Nat
  policy : Nat := 0
  weight : U32 := 100
  inIowait : Bool := false
  cpus : Nat → Bool := fun _ => true
  nrCpusAllowed : Nat := 2
  migrationDisabled : Bool := false
  running : Bool := false
  cpu : Int := 0

/-- The counters of `struct mlfq_stats` the modelled callbacks bump. A
function that updates counters returns the bumps it makes, in order. -/
inductive Stat where
  | q1Placements
  | q2Placements
  | q3Placements
  | promotions
  | demotions
  | agingBoosts
  | shortSleepBoosts
  | preemptionKicks
  | enqNoTctx
  | enqBadWeight
  | enqNoDeadline
  | enqFastpath
  | enqRegular
  | enqPinnedIdle
  | enqPinnedBusy
  | enqPinnedGlobal
  | cpuperfBoosts
  | treeSamplesEmitted
  | treeSamplesDropped
  | treeInference
  | treeFallback
  | treeDisagree
  | rtRedirects
  | rtReenqs
deriving DecidableEq, Repr

end ScxMlfq
