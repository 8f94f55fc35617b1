import ScxMlfq.Intf.Runnable
import ScxMlfq.Intf.Classification
import ScxMlfq.Intf.Tree

/-!
# Bpf — Machine

What a callback sees and changes outside the task it was called for:
the maps and bss of `src/bpf/main.bpf.c`, and the kernel state the
helpers read (the executing CPU, the idle marks, the realtime
occupancy).

A callback takes the `Machine` it finds and returns the one it leaves.
Nothing is assumed to stay put between two callbacks: other CPUs run in
between, so a run of one task lets every callback find a machine of its
own.
-/

namespace ScxMlfq

/-- The bits of `enq_flags` the scheduler tests. `other` stands for any
bit it does not look at. -/
structure EnqFlags where
  wakeup : Bool := false
  reenq : Bool := false
  cpuSelected : Bool := false
  preempt : Bool := false
  immed : Bool := false
  other : Bool := false
deriving DecidableEq, Repr

/-- `enq_flags == 0`. -/
def EnqFlags.isZero (f : EnqFlags) : Bool := decide (f = {})

/-- The dispatch queues the scheduler inserts into. `queue` is the
per-CPU virtual-time DSQ `mlfq_dsq_id(qid, cpu)`, `localOn` is
`SCX_DSQ_LOCAL_ON | cpu`. -/
inductive Dsq where
  | global
  | loc
  | localOn (cpu : Int)
  | queue (qid : Queue) (cpu : Int)
deriving DecidableEq, Repr

/-- `mlfq_dsq_id`. -/
def mlfqDsqId (qid : Queue) (cpu : Int) : U64 :=
  mlfqDsqBase + BitVec.ofInt 64 cpu * mlfqDsqStride + BitVec.ofNat 64 (qid.num - 1)

/-- One `scx_bpf_dsq_insert` (`deadline` absent) or
`scx_bpf_dsq_insert_vtime`. -/
structure DsqInsert where
  dsq : Dsq
  slice : U64
  deadline : Option U64 := none
  flags : EnqFlags := {}
deriving DecidableEq, Repr

/-- `bpf_cpumask_test_cpu((u32)cpu, p->cpus_ptr)`. -/
def cpumaskTestCpu (cpu : Int) (p : TaskStruct) : Bool :=
  if cpu < 0 then false else p.cpus cpu.toNat

/-- `mlfq_bitmap_test_cpu`. -/
def mlfqBitmapTestCpu (bm : Nat → Bool) (cpu : Nat) : Bool :=
  if cpu ≥ mlfqMaxCpus then false else bm cpu

/-- `mlfq_queue_slice`. -/
def mlfqQueueSlice (rod : Rodata) : Queue → U64
  | .q1 => rod.q1SliceNs
  | .q2 => rod.q2SliceNs
  | .q3 => rod.q3SliceNs

structure Machine where
  /-- `bpf_get_smp_processor_id()`. -/
  cpu : Nat
  nrCpuIds : Nat
  rod : Rodata
  adapt : AdaptState
  /-- `mlfq_tree_predict` at this instant. -/
  predict : TreeFeats → U64
  queues : Queue → QueueCtx
  cpuState : Nat → Option CpuState
  gauges : Gauges := {}
  /-- The kernel's idle marks. -/
  idle : Nat → Bool := fun _ => false
  /-- `MLFQ_RTDL_OCCUPIED`. -/
  occupied : Nat → Bool := fun _ => false
  q1Occupancy : Nat → Bool := fun _ => false
  idleCount : U32 := 0
  llcIdle : Nat → U32 := fun _ => 0
  llcBitmaps : Nat → Option (Nat → Bool) := fun _ => none
  primaryBitmap : Nat → Bool := fun _ => false
  /-- `bpf_get_current_task_btf()`, by the CPU of that task. -/
  current : Option Int := none
  /-- `__COMPAT_is_enq_cpu_selected`. -/
  isEnqCpuSelected : EnqFlags → Bool := EnqFlags.cpuSelected
  /-- The CPU `scx_bpf_pick_idle_cpu` takes, from the idle marks, the
  allowed set and the whole-core flag. -/
  pickIdle : (Nat → Bool) → (Nat → Bool) → Bool → Option Nat := fun _ _ _ => none
  /-- `mlfq_tree_ctrl.sample_last_at`. -/
  sampleLastAt : U64 := 0
  /-- `bpf_ringbuf_reserve` finds no room. -/
  ringbufFull : Bool := false
  /-- `mlfq_sys_gauge.wait_total` and `wait_count`. -/
  sysWaitTotal : U64 := 0
  sysWaitCount : U64 := 0
  /-- `mlfq_steal_scan`. -/
  stealScan : Nat := 0

namespace Machine

/-- `mlfq_llc_of_cpu`. -/
def llcOfCpu (m : Machine) (cpu : Nat) : Nat :=
  if cpu ≥ mlfqMaxCpus then mlfqMaxLlcs
  else if m.rod.cpuLlc cpu < mlfqMaxLlcs ∧ m.rod.cpuLlc cpu < m.rod.nrLlcs
  then m.rod.cpuLlc cpu else mlfqMaxLlcs

/-- `mlfq_lookup_cpu_state`. -/
def lookupCpuState (m : Machine) (cpu : Int) : Option CpuState :=
  if cpu < 0 then none else m.cpuState cpu.toNat

/-- A store through the looked-up state of the executing CPU. -/
def storeCpuState (m : Machine) (f : CpuState → CpuState) : Machine :=
  { m with cpuState := Function.update m.cpuState m.cpu ((m.cpuState m.cpu).map f) }

/-- `mlfq_cpu_occupied`. -/
def cpuOccupied (m : Machine) (cpu : Int) : Bool :=
  if cpu < 0 then false else m.occupied cpu.toNat

/-- `mlfq_q1_is_occupied`. -/
def q1IsOccupied (m : Machine) (cpu : Nat) : Bool :=
  if cpu ≥ mlfqMaxCpus then false else m.q1Occupancy cpu

/-- `mlfq_q1_set`. -/
def q1Set (m : Machine) (cpu : Nat) (occupied : Bool) : Machine :=
  if cpu ≥ mlfqMaxCpus then m
  else { m with q1Occupancy := Function.update m.q1Occupancy cpu occupied }

/-- `is_smt_sibling_q1_busy`. -/
def isSmtSiblingQ1Busy (m : Machine) (cpu : Int) : Bool :=
  if m.rod.smtOn = false ∨ cpu < 0 ∨ cpu ≥ mlfqMaxCpus then false
  else
    let sib := m.rod.cpuSibling cpu.toNat
    if sib ≥ mlfqMaxCpus ∨ (sib : Int) = cpu then false
    else m.q1IsOccupied sib

/-- `scx_bpf_test_and_clear_cpu_idle`: the mark, and the machine with
the mark cleared. -/
def testAndClearCpuIdle (m : Machine) (cpu : Nat) : Bool × Machine :=
  (m.idle cpu, { m with idle := Function.update m.idle cpu false })

/-- `scx_bpf_pick_idle_cpu`: the claimed CPU, its mark cleared. -/
def pickIdleCpu (m : Machine) (allowed : Nat → Bool) (core : Bool) :
    Option Nat × Machine :=
  match m.pickIdle m.idle allowed core with
  | none => (none, m)
  | some cpu => (some cpu, { m with idle := Function.update m.idle cpu false })

end Machine

/-! ## Allowed and occupied CPUs -/

theorem cpumaskTestCpu_natCast (cpu : Nat) (p : TaskStruct) :
    cpumaskTestCpu cpu p = p.cpus cpu := by
  rw [cpumaskTestCpu, if_neg (by omega), Int.toNat_natCast]

theorem cpuOccupied_natCast (m : Machine) (cpu : Nat) : m.cpuOccupied cpu = m.occupied cpu := by
  rw [Machine.cpuOccupied, if_neg (by omega), Int.toNat_natCast]

/-- An allowed CPU is not negative. -/
theorem cpumaskTestCpu_nonneg {cpu : Int} {p : TaskStruct} (h : cpumaskTestCpu cpu p = true) :
    (cpu.toNat : Int) = cpu := by
  rw [cpumaskTestCpu] at h
  split at h
  · cases h
  · omega

end ScxMlfq
