import Mathlib.Tactic.IntervalCases
import ScxMlfq.Bpf.Adapt
import ScxMlfq.Daemon.Record
import ScxMlfq.Intf.OpLat
import ScxMlfq.Lib.Meter

/-!
# Daemon — Stats

The metrics of `src/stats.rs` and how `src/main.rs` reads them: the
per-CPU maps through the raw buffers of `read_op_lat` and
`read_wakeup_total`, the counters and gauges of the bss, and the interval
deltas of the stats server.
-/

namespace ScxMlfq

open Meter

/-! ## The metrics -/

/-- The counters of `struct mlfq_stats`. -/
inductive StatsField where
  | totalRuntime
  | q1Placements
  | q2Placements
  | q3Placements
  | promotions
  | demotions
  | agingBoosts
  | shortSleepBoosts
  | preemptionKicks
  | cpuperfBoosts
  | steals
  | stealsSameLlc
  | stealsCrossLlc
  | keepRunning
  | enqNoTctx
  | enqBadWeight
  | enqNoDeadline
  | enqFastpath
  | enqRegular
  | enqPinnedIdle
  | enqPinnedBusy
  | enqPinnedGlobal
  | treeInference
  | treeFallback
  | treeDisagree
  | treeSamplesEmitted
  | treeSamplesDropped
  | rtTakeovers
  | rtEvacuations
  | rtRedirects
  | rtReenqs
deriving DecidableEq, Repr

/-- The committed model, as the metrics report it. -/
structure ModelGauges where
  treeModelGeneration : U64 := 0
  treeModelSamples : U64 := 0
  treeModelNodes : U64 := 0
  treeMaeTreeUs : U64 := 0
  treeMaeEmaUs : U64 := 0
  treeCorrMilli : Int := 0
deriving DecidableEq, Repr

/-- The fields that are no counters. -/
structure MetricsGauges where
  onCpu : U64
  uptimeNs : U64
  model : ModelGauges
  sysLatEmaUs : U64
  sysRateEma : U64
  tLEffUs : U64
  tHEffUs : U64
  tIntEffUs : U64
  tBndEffUs : U64
  guardEffUs : U64
  adaptShift : Int
deriving DecidableEq, Repr

/-- `Metrics`. -/
structure Metrics where
  stat : StatsField → U64
  opLat : List U64
  treeSamplesCapDropped : U64
  wakeupTotal : U64
  adaptSteps : U64
  gauges : MetricsGauges

/-- `Metrics::delta`. -/
def Metrics.delta (self rhs : Metrics) : Metrics where
  stat f := self.stat f - rhs.stat f
  opLat := List.zipWith (fun lhs rhs => lhs - rhs) self.opLat rhs.opLat
  treeSamplesCapDropped := self.treeSamplesCapDropped - rhs.treeSamplesCapDropped
  wakeupTotal := self.wakeupTotal - rhs.wakeupTotal
  adaptSteps := self.adaptSteps - rhs.adaptSteps
  gauges := self.gauges

/-! ## The per-CPU maps -/

section

variable (order : ByteOrder)

/-- What `bpf_map_lookup_elem` writes for a per-CPU value of `size`
words: the values of the CPUs, one behind the other. -/
def perCpuBytes (nr size : Nat) (value : Nat → Nat → U64) : List Byte :=
  (u64Layout order).writeList
    ((List.range (nr * size)).map fun i => value (i / size) (i % size))

/-- `u64::from_ne_bytes` of the eight bytes at an offset. -/
def rawSlot (raw : List Byte) (off : Nat) : U64 := (u64Layout order).read (raw.drop off)

/-- **The offsets of the loop** find the value of each CPU. -/
theorem rawSlot_perCpuBytes {nr size : Nat} (value : Nat → Nat → U64) {cpu k : Nat}
    (hcpu : cpu < nr) (hk : k < size) :
    rawSlot order (perCpuBytes order nr size value) (cpu * (8 * size) + k * 8) = value cpu k := by
  have hindex : cpu * size + k < nr * size := by
    have hsucc : (cpu + 1) * size ≤ nr * size := Nat.mul_le_mul_right size hcpu
    rw [Nat.succ_mul] at hsucc
    omega
  have hsize : (u64Layout order).size = 8 := rfl
  have hoff : cpu * (8 * size) + k * 8 = (cpu * size + k) * (u64Layout order).size := by
    rw [hsize]
    ring
  have hlength : cpu * size + k
      < ((List.range (nr * size)).map fun i => value (i / size) (i % size)).length := by
    rw [List.length_map, List.length_range]
    exact hindex
  have hread := (u64Layout order).read_writeList _ [] hlength
  have hdiv : (cpu * size + k) / size = cpu := by
    rw [Nat.mul_comm, Nat.mul_add_div (by omega), Nat.div_eq_of_lt hk, Nat.add_zero]
  have hmod : (cpu * size + k) % size = k := by
    rw [Nat.mul_comm, Nat.mul_add_mod, Nat.mod_eq_of_lt hk]
  rw [rawSlot, hoff, perCpuBytes, ← List.append_nil ((u64Layout order).writeList _), hread,
    List.getElem_map, List.getElem_range, hdiv, hmod]

/-- The number of CPUs the daemon reads. -/
def readCpus (nrCpuIds : Nat) : Nat := min nrCpuIds mlfqMaxCpus

/-- The sum of one slot over the CPUs of the raw buffer. -/
def sumSlots (raw : List Byte) (nrCpus size k : Nat) : U64 :=
  (List.range nrCpus).foldl (fun acc cpu => acc + rawSlot order raw (cpu * (8 * size) + k * 8)) 0

theorem sumSlots_perCpuBytes {nr size k : Nat} (value : Nat → Nat → U64) (hk : k < size) :
    sumSlots order (perCpuBytes order nr size value) nr size k
      = ∑ cpu ∈ Finset.range nr, value cpu k := by
  have hslots : ∀ cpu ∈ Finset.range nr,
      rawSlot order (perCpuBytes order nr size value) (cpu * (8 * size) + k * 8)
        = value cpu k := by
    intro cpu hcpu
    exact rawSlot_perCpuBytes order value (Finset.mem_range.mp hcpu) hk
  rw [sumSlots, foldl_add, zero_add]
  exact Finset.sum_congr rfl hslots

/-- `Scheduler::read_op_lat`. `found` is which of the lookups succeed. -/
def readOpLat (nrCpuIds : Nat) (lat : OpLatMap) (found : OpLatSlot → Bool) : List U64 :=
  let nrCpus := readCpus nrCpuIds
  OpLatSlot.all.flatMap fun op =>
    (List.range mlfqOpLatBuckets).map fun b =>
      if found op then
        sumSlots order (perCpuBytes order nrCpus mlfqOpLatBuckets (lat op)) nrCpus
          mlfqOpLatBuckets b
      else 0

/-- `Scheduler::read_wakeup_total`. A value has the words `total` and
`window`. -/
def readWakeupTotal (nrCpuIds : Nat) (total window : Nat → U64) (found : Bool) : U64 :=
  let nrCpus := readCpus nrCpuIds
  if found then
    sumSlots order (perCpuBytes order nrCpus 2 fun cpu k => if k = 0 then total cpu else window cpu)
      nrCpus 2 0
  else 0

/-- The entries of the histogram, op-major. -/
theorem readOpLat_getElem? {nrCpuIds : Nat} (hnr : nrCpuIds ≤ mlfqMaxCpus) (lat : OpLatMap)
    {found : OpLatSlot → Bool} {op : OpLatSlot} (hfound : found op = true) {b : Nat}
    (hb : b < mlfqOpLatBuckets) :
    (readOpLat order nrCpuIds lat found)[op.num * mlfqOpLatBuckets + b]?
      = some (∑ cpu ∈ Finset.range nrCpuIds, lat op cpu b) := by
  have hcpus : readCpus nrCpuIds = nrCpuIds := Nat.min_eq_left hnr
  have hrow (f : OpLatSlot → Nat → U64) : (OpLatSlot.all.flatMap fun op =>
      (List.range mlfqOpLatBuckets).map (f op))[op.num * mlfqOpLatBuckets + b]?
        = some (f op b) := by
    have hbuckets : mlfqOpLatBuckets = 8 := rfl
    rw [hbuckets] at hb
    cases op <;> interval_cases b <;> rfl
  rw [readOpLat, hrow, hcpus, if_pos hfound, sumSlots_perCpuBytes order (lat op) hb]

theorem readWakeupTotal_eq {nrCpuIds : Nat} (hnr : nrCpuIds ≤ mlfqMaxCpus)
    (total window : Nat → U64) :
    readWakeupTotal order nrCpuIds total window true
      = ∑ cpu ∈ Finset.range nrCpuIds, total cpu := by
  have hcpus : readCpus nrCpuIds = nrCpuIds := Nat.min_eq_left hnr
  rw [readWakeupTotal, hcpus, if_pos rfl, sumSlots_perCpuBytes order _ (by decide)]
  rfl

end

end ScxMlfq
