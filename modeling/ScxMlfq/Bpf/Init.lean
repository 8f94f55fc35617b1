import ScxMlfq.Bpf.Machine

/-!
# Bpf — Init

The state a scheduler starts from: the zeroed maps and bss of
`src/bpf/main.bpf.c`, and `mlfq_init`, which checks the configuration
and seeds the queues and the adaptation.
-/

namespace ScxMlfq

/-- The effective band edges before the first adaptation step. -/
def seedAdapt (rod : Rodata) : AdaptState where
  shiftFp := 0
  tLEffNs := rod.tLNs
  tHEffNs := rod.tHNs
  tIntEffNs := rod.treeTIntNs
  tBndEffNs := rod.treeTBoundNs
  guardEffNs := rod.sameqPreemptMinRunNs

/-- The zeroed maps and bss, before `mlfq_init` has run. -/
def Machine.zeroed (rod : Rodata) (nrCpuIds : Nat) : Machine where
  cpu := 0
  nrCpuIds := nrCpuIds
  rod := rod
  adapt := { tLEffNs := 0, tHEffNs := 0, tIntEffNs := 0, tBndEffNs := 0, guardEffNs := 0 }
  predict _ := 0
  queues _ := { clock := 0, maxSliceNs := 0 }
  cpuState _ := some {}

/-- The writes of a successful `mlfq_init`. -/
def Machine.seed (m : Machine) : Machine :=
  { m with
    stealScan := if m.nrCpuIds < mlfqStealScanMax then m.nrCpuIds else mlfqStealScanMax
    queues := fun q => { m.queues q with maxSliceNs := mlfqQueueSlice m.rod q }
    adapt := seedAdapt m.rod }

def eInval : Int := -22
def e2Big : Int := -7
def eExist : Int := -17
def scxDsqLocalOn : U64 := 0xC000000000000000

/-- The queue DSQs, in the order they are created. -/
def initDsqs (nrCpus : Nat) : List (Queue × Nat) :=
  (List.range nrCpus).flatMap fun cpu => [(.q1, cpu), (.q2, cpu), (.q3, cpu)]

/-- `mlfq_init`: the seeded machine, or the returned error with the text
of its `scx_bpf_error`. `createDsq` is `scx_bpf_create_dsq`. -/
def mlfqInit (m : Machine) (createDsq : U64 → Int) : Except (Int × String) Machine :=
  if m.nrCpuIds > mlfqMaxCpus then
    .error (e2Big, s!"nr_cpu_ids ({m.nrCpuIds}) exceeds max supported ({mlfqMaxCpus})")
  else if m.nrCpuIds = 0 then .error (eInval, "no possible CPUs")
  else
    let failed := (initDsqs m.nrCpuIds).find? fun d =>
      let ret := createDsq (mlfqDsqId d.1 d.2)
      decide (ret < 0) && decide (ret ≠ eExist)
    match failed with
    | some (q, cpu) =>
        let ret := createDsq (mlfqDsqId q cpu)
        .error (ret, s!"failed to create q{q.num} cpu{cpu} DSQ: {ret}")
    | none =>
        if m.rod.q1Quota + m.rod.q2Quota ≥ m.rod.dispatchMaxBatch then
          .error (eInval, s!"Q1+Q2 quotas ({m.rod.q1Quota.toNat}+{m.rod.q2Quota.toNat}) " ++
            s!"must leave a Q3 share of max batch {m.rod.dispatchMaxBatch.toNat}")
        else if m.rod.treeTIntNs ≥ m.rod.treeTBoundNs then
          .error (eInval, s!"tree T_INT ({m.rod.treeTIntNs.toNat}) must be strictly " ++
            s!"below T_BOUND ({m.rod.treeTBoundNs.toNat})")
        else if mlfqDsqId .q3 (m.nrCpuIds - 1 : Nat) ≥ scxDsqLocalOn then
          .error (eInval, "queue DSQ id space overflows SCX_DSQ_LOCAL_ON")
        else .ok m.seed

/-- **An accepted configuration seeds the machine and touches nothing
else**: whatever `mlfq_init` returns without an error is `seed`. -/
theorem mlfqInit_ok {m m' : Machine} {createDsq : U64 → Int}
    (h : mlfqInit m createDsq = .ok m') :
    m' = m.seed ∧ 0 < m.nrCpuIds ∧ m.nrCpuIds ≤ mlfqMaxCpus := by
  simp only [mlfqInit] at h
  split at h
  · cases h
  · rename_i hmax
    split at h
    · cases h
    · rename_i hn
      split at h
      · cases h
      · split at h
        · cases h
        · split at h
          · cases h
          · split at h
            · cases h
            · exact ⟨(Except.ok.inj h).symm, Nat.pos_of_ne_zero hn, Nat.not_lt.mp hmax⟩

end ScxMlfq
