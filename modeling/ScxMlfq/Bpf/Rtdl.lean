import ScxMlfq.Bpf.Machine
import ScxMlfq.Lib.Gate

/-!
# Bpf — Rtdl

`src/bpf/rtdl.bpf.c` apart from its pick: the occupancy state of a CPU,
the drain of a CPU a realtime task took over, and the hook on every
context switch.
-/

namespace ScxMlfq

/-- `MAX_RT_PRIO`. -/
def maxRtPrio : Int := 100

/-- `struct mlfq_rtdl_state`, its flags being `MLFQ_RTDL_OCCUPIED`. -/
structure RtdlState where
  occupied : Bool := false
  lastDrainAt : U64 := 0
deriving DecidableEq, Repr

/-- What the kernel and the configuration fix: the reenqueue kfuncs that
exist, and `mlfq_rtdl_drain_interval_ns`. -/
structure RtdlKernel where
  localFromAnywhere : Bool
  genericReenq : Bool
  drainIntervalNs : U64 := 1000000

/-- The map and the two counters. -/
structure RtdlMap where
  stor : Nat → RtdlState := fun _ => {}
  takeovers : U64 := 0
  evacuations : U64 := 0

/-- `mlfq_lookup_rtdl_state`. -/
def mlfqLookupRtdlState (s : RtdlMap) (cpu : Nat) : Option RtdlState :=
  if cpu < mlfqMaxCpus then some (s.stor cpu) else none

/-- The occupancy the other modules test. -/
def RtdlMap.occupied (s : RtdlMap) (cpu : Nat) : Bool :=
  (mlfqLookupRtdlState s cpu).any RtdlState.occupied

/-- `scx_bpf_dsq_nr_queued`, at the nonempty gate and at the calls behind
it; other CPUs run in between. -/
structure DsqCounts where
  gate : Dsq → Int
  call : Dsq → Int

/-- The DSQs a CPU owns. -/
def ownedDsqs (cpu : Nat) : List Dsq :=
  [.localOn cpu, .queue .q1 cpu, .queue .q2 cpu, .queue .q3 cpu]

/-- The queue DSQs of a CPU. -/
def ownedQueues (cpu : Nat) : List Dsq :=
  [.queue .q1 cpu, .queue .q2 cpu, .queue .q3 cpu]

/-- The reenqueues of a pass: the local DSQ, then the queue DSQs that are
not empty. -/
def drainReenqs (k : RtdlKernel) (cpu : Nat) (counts : DsqCounts) : List Dsq :=
  (if k.localFromAnywhere then [Dsq.localOn cpu] else [])
    ++ (if k.genericReenq then (ownedQueues cpu).filter fun d => decide (counts.call d ≠ 0)
      else [])

/-- `mlfq_rtdl_drain` on the looked-up state: the reenqueues it asks for,
where a pass ran. -/
def mlfqRtdlDrain (k : RtdlKernel) (cpu : Nat) (now : U64) (counts : DsqCounts)
    (rt : RtdlState) : RtdlState × Option (List Dsq) :=
  if ¬ Gate.Opens k.drainIntervalNs rt.lastDrainAt now then (rt, none)
  else if (ownedDsqs cpu).all fun d => decide (counts.gate d = 0) then (rt, none)
  else if k.localFromAnywhere || k.genericReenq then
    ({ rt with lastDrainAt := now }, some (drainReenqs k cpu counts))
  else (rt, none)

/-- One call of `mlfq_sched_switch`. -/
structure Switch where
  cpu : Nat
  prio : Int
  now : U64
  counts : DsqCounts

/-- The class of the task switched in. -/
def Switch.realtime (e : Switch) : Bool := decide (e.prio < maxRtPrio)

/-- What a call does: the state it leaves, and the reenqueues. -/
structure SwitchResult where
  map : RtdlMap
  drained : Option (List Dsq) := none

/-- `mlfq_sched_switch`. -/
def mlfqSchedSwitch (k : RtdlKernel) (s : RtdlMap) (e : Switch) : SwitchResult :=
  match mlfqLookupRtdlState s e.cpu with
  | none => { map := s }
  | some rt =>
      if e.realtime then
        let takeovers := if rt.occupied then s.takeovers else s.takeovers + 1
        let r := mlfqRtdlDrain k e.cpu e.now e.counts { rt with occupied := true }
        { map :=
            { stor := Function.update s.stor e.cpu r.1
              takeovers := takeovers
              evacuations := if r.2.isSome then s.evacuations + 1 else s.evacuations }
          drained := r.2 }
      else
        { map := { s with stor := Function.update s.stor e.cpu { rt with occupied := false } } }

/-! ## What a drain does -/

/-- A pass runs behind an open gate, on a DSQ that is not empty, where the
kernel can reenqueue; it stamps the gate. Otherwise nothing happens. -/
theorem mlfqRtdlDrain_cases (k : RtdlKernel) (cpu : Nat) (now : U64) (counts : DsqCounts)
    (rt : RtdlState) :
    (Gate.Opens k.drainIntervalNs rt.lastDrainAt now
        ∧ (∃ d ∈ ownedDsqs cpu, counts.gate d ≠ 0)
        ∧ (k.localFromAnywhere || k.genericReenq) = true
        ∧ mlfqRtdlDrain k cpu now counts rt
          = ({ rt with lastDrainAt := now }, some (drainReenqs k cpu counts)))
      ∨ (¬ (Gate.Opens k.drainIntervalNs rt.lastDrainAt now
          ∧ (∃ d ∈ ownedDsqs cpu, counts.gate d ≠ 0)
          ∧ (k.localFromAnywhere || k.genericReenq) = true)
        ∧ mlfqRtdlDrain k cpu now counts rt = (rt, none)) := by
  rw [mlfqRtdlDrain]
  by_cases hopen : Gate.Opens k.drainIntervalNs rt.lastDrainAt now
  · rw [if_neg (not_not.mpr hopen)]
    by_cases hempty : (ownedDsqs cpu).all (fun d => decide (counts.gate d = 0)) = true
    · rw [if_pos hempty]
      refine .inr ⟨?_, rfl⟩
      rintro ⟨-, ⟨d, hd, hne⟩, -⟩
      exact hne (of_decide_eq_true (List.all_eq_true.mp hempty d hd))
    · rw [if_neg hempty]
      have hqueued : ∃ d ∈ ownedDsqs cpu, counts.gate d ≠ 0 := by
        rw [Bool.not_eq_true, List.all_eq_false] at hempty
        obtain ⟨d, hd, hne⟩ := hempty
        exact ⟨d, hd, fun hzero => hne (decide_eq_true hzero)⟩
      by_cases hkernel : (k.localFromAnywhere || k.genericReenq) = true
      · rw [if_pos hkernel]
        exact .inl ⟨hopen, hqueued, hkernel, rfl⟩
      · rw [if_neg hkernel]
        exact .inr ⟨fun h => hkernel h.2.2, rfl⟩
  · rw [if_pos hopen]
    exact .inr ⟨fun h => hopen h.1, rfl⟩

/-- The reenqueues of a pass are of the CPU's own DSQs, each at most
once, and a queue DSQ is among them exactly when it holds a task and the
kernel can reenqueue it. -/
theorem drainReenqs_mem (k : RtdlKernel) (cpu : Nat) (counts : DsqCounts) :
    (∀ d ∈ drainReenqs k cpu counts, d ∈ ownedDsqs cpu)
    ∧ (drainReenqs k cpu counts).Nodup
    ∧ (Dsq.localOn cpu ∈ drainReenqs k cpu counts ↔ k.localFromAnywhere = true)
    ∧ ∀ q, Dsq.queue q cpu ∈ drainReenqs k cpu counts
      ↔ k.genericReenq = true ∧ counts.call (.queue q cpu) ≠ 0 := by
  have hqueues : (ownedQueues cpu).Nodup := by simp [ownedQueues]
  have hall : ∀ q, Dsq.queue q cpu ∈ ownedQueues cpu := by
    intro q
    cases q with
    | q1 => simp [ownedQueues]
    | q2 => simp [ownedQueues]
    | q3 => simp [ownedQueues]
  have hlocal : Dsq.localOn cpu ∉ ownedQueues cpu := by simp [ownedQueues]
  have howned : ∀ d, d ∈ ownedDsqs cpu ↔ d = .localOn cpu ∨ d ∈ ownedQueues cpu := by
    simp [ownedDsqs, ownedQueues]
  have hmem : ∀ d, d ∈ drainReenqs k cpu counts ↔ (k.localFromAnywhere = true ∧ d = .localOn cpu)
      ∨ (k.genericReenq = true ∧ d ∈ ownedQueues cpu ∧ counts.call d ≠ 0) := by
    intro d
    rw [drainReenqs, List.mem_append]
    cases k.localFromAnywhere <;> cases k.genericReenq <;> simp [List.mem_filter]
  refine ⟨?_, ?_, ?_, ?_⟩
  · intro d hd
    rcases (hmem d).mp hd with ⟨-, rfl⟩ | ⟨-, hq, -⟩
    · exact (howned _).mpr (.inl rfl)
    · exact (howned _).mpr (.inr hq)
  · rw [drainReenqs]
    apply List.Nodup.append
    · cases k.localFromAnywhere <;> simp
    · cases k.genericReenq with
      | true =>
          rw [if_pos rfl]
          exact hqueues.filter _
      | false => exact List.nodup_nil
    · intro d hd hq
      have hloc : d = .localOn cpu := by
        cases hl : k.localFromAnywhere <;> simp_all
      have hin : d ∈ ownedQueues cpu := by
        cases hg : k.genericReenq <;> simp_all
      exact hlocal (hloc ▸ hin)
  · rw [hmem]
    constructor
    · rintro (⟨h, -⟩ | ⟨-, h, -⟩)
      · exact h
      · exact absurd h hlocal
    · exact fun h => .inl ⟨h, rfl⟩
  · intro q
    rw [hmem]
    constructor
    · rintro (⟨-, h⟩ | ⟨hg, -, hc⟩)
      · cases h
      · exact ⟨hg, hc⟩
    · exact fun h => .inr ⟨h.1, hall q, h.2⟩

end ScxMlfq
