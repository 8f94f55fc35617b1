import ScxMlfq.Bpf.Classify
import ScxMlfq.Bpf.Init

/-!
# Bpf — SelectCpu

`src/bpf/select_cpu.bpf.c`. A step of the selection is a `Pick`: the
CPU it claimed, if any, and the machine with the claimed mark cleared.
The steps run in the order of the source, each only when the ones before
it claimed nothing.
-/

namespace ScxMlfq

/-- `mlfq_interactive_on_wakeup`. -/
def mlfqInteractiveOnWakeup (m : Machine) (p : TaskStruct) (tctx : TaskCtx)
    (now : U64) : Bool :=
  decide (tctx.queue = .q1)
    || (!schedIdle p && mlfqSsBoostPending tctx (wakeupSleepNs tctx now)
        (mlfqTaskIoWait p) now m.rod.shortSleepNs m.rod.shortSleepRateLimitNs)

/-! ## The steps -/

abbrev Pick := Option Nat × Machine

/-- The next step, unless this one claimed a CPU. -/
def Pick.orElse (r : Pick) (next : Machine → Pick) : Pick :=
  match r.1 with
  | some _ => r
  | none => next r.2

/-- The first candidate that passes `ok` and is idle, its mark cleared. -/
def claimFirst (m : Machine) (cands : List Nat) (ok : Nat → Bool) : Pick :=
  match cands.find? (fun c => ok c && m.idle c) with
  | none => (none, m)
  | some c => (some c, (m.testAndClearCpuIdle c).2)

/-- `mlfq_is_primary` on the bitmap `mlfq_get_primary_bitmap` returns. -/
def mlfqIsPrimary (m : Machine) (cpu : Int) : Bool :=
  m.rod.primaryAll
    || (if cpu < 0 then false else mlfqBitmapTestCpu m.primaryBitmap cpu.toNat)

/-- `mlfq_pick_idle_in_bitmap`. -/
def mlfqPickIdleInBitmap (m : Machine) (bm : Option (Nat → Bool)) (p : TaskStruct)
    (requirePrimary : Bool) : Pick :=
  match bm with
  | none => (none, m)
  | some bm => claimFirst m (List.range mlfqMaxCpus) fun cand =>
      mlfqBitmapTestCpu bm cand && p.cpus cand
        && (!requirePrimary || mlfqIsPrimary m cand)

/-- `mlfq_pick_idle_primary`. -/
def mlfqPickIdlePrimary (m : Machine) (p : TaskStruct) : Pick :=
  mlfqPickIdleInBitmap m (some m.primaryBitmap) p false

/-- `is_cpu_available_for_q3`. -/
def isCpuAvailableForQ3 (m : Machine) (cpu : Nat) (p : TaskStruct) (strictSmt : Bool) :
    Bool :=
  decide (cpu < m.nrCpuIds) && p.cpus cpu && !m.occupied cpu
    && !(strictSmt && m.isSmtSiblingQ1Busy cpu)

/-- One of the two Q3 scans, over the first `cap` CPU ids. -/
def q3Scan (m : Machine) (p : TaskStruct) (strictSmt : Bool) (cap : Nat) : Pick :=
  claimFirst m (List.range (min cap (min mlfqMaxCpus m.nrCpuIds))) fun cand =>
    isCpuAvailableForQ3 m cand p strictSmt

/-- Step 1, the prev CPU. -/
def stepPrev (m : Machine) (interactive : Bool) (prevCpu : Nat) : Pick :=
  claimFirst m [prevCpu] fun c =>
    (!interactive || mlfqIsPrimary m c) && !m.isSmtSiblingQ1Busy c

/-- Step 1.5, the SMT sibling. -/
def stepSibling (m : Machine) (p : TaskStruct) (interactive : Bool) (prevCpu : Nat) :
    Pick :=
  if interactive = false ∧ m.rod.smtOn = true ∧ prevCpu < mlfqMaxCpus then
    claimFirst m [m.rod.cpuSibling prevCpu] fun sib =>
      decide (sib ≠ prevCpu) && decide (sib < mlfqMaxCpus) && p.cpus sib
        && !m.isSmtSiblingQ1Busy sib
  else (none, m)

/-- The waker's LLC domain, `mlfqMaxLlcs` when there is none. -/
def wakerLlc (m : Machine) : Nat :=
  if m.rod.nrLlcs > 0 then m.llcOfCpu m.cpu else mlfqMaxLlcs

/-- Step 1.9, the largest LLC. -/
def stepLargest (m : Machine) (p : TaskStruct) (interactive : Bool) : Pick :=
  if interactive = true ∧ m.rod.llcLargest < mlfqMaxLlcs
      ∧ m.rod.llcLargest < m.rod.nrLlcs ∧ m.rod.llcLargest ≠ wakerLlc m
      ∧ m.rod.llcHasPrimary m.rod.llcLargest = true
  then mlfqPickIdleInBitmap m (m.llcBitmaps m.rod.llcLargest) p true
  else (none, m)

/-- Step 2, the waker's LLC. -/
def stepWakerLlc (m : Machine) (p : TaskStruct) (interactive : Bool) : Pick :=
  if wakerLlc m < mlfqMaxLlcs
      ∧ (interactive = false ∨ m.rod.llcHasPrimary (wakerLlc m) = true) then
    if m.rod.nrLlcs = 1 then
      Pick.orElse (m.pickIdleCpu p.cpus interactive) fun m => m.pickIdleCpu p.cpus false
    else mlfqPickIdleInBitmap m (m.llcBitmaps (wakerLlc m)) p interactive
  else (none, m)

/-- The steering loop with `fuel` attempts left. -/
def steerFrom (m : Machine) (p : TaskStruct) (interactive : Bool) :
    Nat → (Nat → Bool) → Pick
  | 0, _ => (none, m)
  | fuel + 1, visited =>
      let llc := mlfqSteerPickLlc m.gauges.llcRunnable m.llcIdle m.rod.nrLlcs
        (wakerLlc m) visited
      if llc ≥ mlfqMaxLlcs then (none, m)
      else
        let r := mlfqPickIdleInBitmap m (m.llcBitmaps llc) p interactive
        match r.1 with
        | some _ => r
        | none => steerFrom m p interactive fuel fun l => decide (l = llc) || visited l

/-- Step 2.5, the least-loaded LLC. -/
def stepSteer (m : Machine) (p : TaskStruct) (interactive : Bool) : Pick :=
  if m.rod.idleTracking = true ∧ m.rod.nrLlcs > 1 ∧ m.idleCount > 0
  then steerFrom m p interactive mlfqSteerLlcMax fun _ => false
  else (none, m)

/-- Step 3, the global fallbacks. -/
def stepGlobal (m : Machine) (p : TaskStruct) (interactive : Bool) : Pick :=
  if interactive then
    Pick.orElse
      (if m.rod.primaryAll then m.pickIdleCpu p.cpus true else mlfqPickIdlePrimary m p)
      fun m => m.pickIdleCpu p.cpus false
  else m.pickIdleCpu p.cpus false

/-! ## The selection -/

/-- The `return` a selection left through. -/
inductive SelectExit where
  | noTctx
  | sync
  | emptyMask
  | q3Declined
  | saturated
  | claimed
  | declined
deriving DecidableEq, Repr

structure SelectResult where
  exit : SelectExit
  cpu : Int
  tctx : Option TaskCtx
  machine : Machine
  insert : Option DsqInsert := none

/-- The CPU of the synchronous handoff, when it is taken. -/
def syncHandoff (m : Machine) (p : TaskStruct) : Option Int :=
  match m.current with
  | none => none
  | some cur =>
      if 0 ≤ cur ∧ cur < mlfqMaxCpus ∧ m.cpuOccupied cur = false
        ∧ cpumaskTestCpu cur p = true
      then some cur else none

/-- Whether the handoff block is entered. -/
def syncWanted (tctx : TaskCtx) (sync : Bool) : Bool :=
  (sync || tctx.flags.drmWake) && decide (tctx.queue.num ≤ 2)

/-- `tctx->flags &= ~MLFQ_TF_DRM_WAKE`. -/
def clearDrmWake (tctx : TaskCtx) : TaskCtx :=
  { tctx with flags := { tctx.flags with drmWake := false } }

/-- The task the placement steps see. -/
def selectTctx (tctx : TaskCtx) (sync : Bool) : TaskCtx :=
  { if syncWanted tctx sync then clearDrmWake tctx else tctx with wakeCpuState := {} }

/-- The slice of the handoff: the queue's own, from the constants. -/
def syncSlice (tctx : TaskCtx) : U64 :=
  if tctx.queue = .q1 then mlfqQ1SliceNs else mlfqQ2SliceNs

/-- The label `direct`. -/
def selectDirect (tctx : TaskCtx) (cpu : Nat) (m : Machine) : SelectResult where
  exit := .claimed
  cpu := cpu
  tctx := some { tctx with wakeCpuState := { valid := true, idle := true } }
  machine := m

/-- The steps after the saturation test. -/
def selectScan (m : Machine) (p : TaskStruct) (interactive : Bool) : Pick :=
  Pick.orElse (stepLargest m p interactive) fun m =>
  Pick.orElse (stepWakerLlc m p interactive) fun m =>
  Pick.orElse (stepSteer m p interactive) fun m =>
  stepGlobal m p interactive

/-- The saturation fast path. -/
def saturated (m : Machine) (prevCpu : Int) : Bool :=
  m.rod.idleTracking && decide (m.idleCount = 0) && !m.cpuOccupied prevCpu

/-- The placement of a task in Q3. -/
def selectQ3 (m : Machine) (p : TaskStruct) (tctx : TaskCtx) (prevCpu : Nat) :
    SelectResult :=
  let r := Pick.orElse (q3Scan m p true 64) fun m => q3Scan m p false 32
  match r.1 with
  | some cpu => selectDirect tctx cpu r.2
  | none => { exit := .q3Declined, cpu := prevCpu, tctx := some tctx, machine := r.2 }

/-- The placement of a task in Q1 or Q2, with `prevCpu` in the mask. -/
def selectQ12 (m : Machine) (p : TaskStruct) (tctx : TaskCtx) (prevCpu : Nat)
    (now : U64) : SelectResult :=
  let interactive := mlfqInteractiveOnWakeup m p tctx now
  let r := Pick.orElse (stepPrev m interactive prevCpu) fun m =>
    stepSibling m p interactive prevCpu
  match r.1 with
  | some cpu => selectDirect tctx cpu r.2
  | none =>
      if saturated r.2 prevCpu then
        { exit := .saturated, cpu := prevCpu, tctx := some tctx, machine := r.2 }
      else
        let r := selectScan r.2 p interactive
        match r.1 with
        | some cpu => selectDirect tctx cpu r.2
        | none => { exit := .declined, cpu := prevCpu, tctx := some tctx, machine := r.2 }

/-- `mlfq_select_cpu` past the handoff block. -/
def selectPlace (m : Machine) (p : TaskStruct) (tctx : TaskCtx) (prevCpu : Int)
    (now : U64) : SelectResult :=
  let fixed := if cpumaskTestCpu prevCpu p then some prevCpu.toNat
    else (List.range m.nrCpuIds).find? p.cpus
  match fixed with
  | none => { exit := .emptyMask, cpu := prevCpu, tctx := some tctx, machine := m }
  | some prevCpu =>
      if tctx.queue = .q3 then selectQ3 m p tctx prevCpu
      else selectQ12 m p tctx prevCpu now

/-- `mlfq_select_cpu`. -/
def mlfqSelectCpu (m : Machine) (p : TaskStruct) (tctx : Option TaskCtx) (prevCpu : Int)
    (sync : Bool) (now : U64) : SelectResult :=
  match tctx with
  | none => { exit := .noTctx, cpu := prevCpu, tctx := none, machine := m }
  | some t =>
      match if syncWanted t sync then syncHandoff m p else none with
      | some cpu =>
          { exit := .sync, cpu := cpu, tctx := some (clearDrmWake t), machine := m
            insert := some { dsq := .loc, slice := syncSlice t, flags := { immed := true } } }
      | none => selectPlace m p (selectTctx t sync) prevCpu now

/-! ## What the selection changes in the task -/

theorem selectDirect_frame (t : TaskCtx) (cpu : Nat) (m : Machine) :
    ∃ w, (selectDirect t cpu m).tctx = some { t with wakeCpuState := w } :=
  ⟨_, rfl⟩

theorem selectQ3_frame (m : Machine) (p : TaskStruct) (t : TaskCtx) (prevCpu : Nat) :
    ∃ w, (selectQ3 m p t prevCpu).tctx = some { t with wakeCpuState := w } := by
  rw [selectQ3]
  split
  · exact selectDirect_frame ..
  · exact ⟨t.wakeCpuState, rfl⟩

theorem selectQ12_frame (m : Machine) (p : TaskStruct) (t : TaskCtx) (prevCpu : Nat)
    (now : U64) :
    ∃ w, (selectQ12 m p t prevCpu now).tctx = some { t with wakeCpuState := w } := by
  rw [selectQ12]
  split
  · exact selectDirect_frame ..
  · split
    · exact ⟨t.wakeCpuState, rfl⟩
    · simp only
      split
      · exact selectDirect_frame ..
      · exact ⟨t.wakeCpuState, rfl⟩

theorem selectPlace_frame (m : Machine) (p : TaskStruct) (t : TaskCtx) (prevCpu : Int)
    (now : U64) :
    ∃ w, (selectPlace m p t prevCpu now).tctx = some { t with wakeCpuState := w } := by
  rw [selectPlace]
  split
  · exact ⟨t.wakeCpuState, rfl⟩
  · split
    · exact selectQ3_frame ..
    · exact selectQ12_frame ..

/-- **The selection touches two flags of the task**: the pending
direct-wake hint and the fast-path state. It charges no sleep and
classifies nothing, whichever way it returns. -/
theorem mlfqSelectCpu_frame (m : Machine) (p : TaskStruct) (t : TaskCtx) (prevCpu : Int)
    (sync : Bool) (now : U64) :
    ∃ w drm, (mlfqSelectCpu m p (some t) prevCpu sync now).tctx
      = some { t with wakeCpuState := w, flags := { t.flags with drmWake := drm } } := by
  rw [mlfqSelectCpu]
  split
  · exact ⟨t.wakeCpuState, false, rfl⟩
  · obtain ⟨w, h⟩ := selectPlace_frame m p (selectTctx t sync) prevCpu now
    rw [h, selectTctx]
    split
    · exact ⟨w, false, rfl⟩
    · exact ⟨w, t.flags.drmWake, rfl⟩

/-- Past the handoff block the selection inserts nothing. -/
theorem selectPlace_exit_ne_sync (m : Machine) (p : TaskStruct) (t : TaskCtx)
    (prevCpu : Int) (now : U64) : (selectPlace m p t prevCpu now).exit ≠ .sync := by
  have hdirect (cpu : Nat) (m : Machine) : (selectDirect t cpu m).exit ≠ .sync := by
    intro h
    cases h
  rw [selectPlace]
  split
  · intro h
    cases h
  · split
    · rw [selectQ3]
      split
      · exact hdirect _ _
      · intro h
        cases h
    · rw [selectQ12]
      split
      · exact hdirect _ _
      · split
        · intro h
          cases h
        · simp only
          split
          · exact hdirect _ _
          · intro h
            cases h

/-- Without a handoff the wakeup goes on to `mlfq_enqueue`. -/
theorem mlfqSelectCpu_exit_ne_sync {m : Machine} {p : TaskStruct} {t : TaskCtx}
    {sync : Bool} (h : (if syncWanted t sync then syncHandoff m p else none) = none)
    (prevCpu : Int) (now : U64) :
    (mlfqSelectCpu m p (some t) prevCpu sync now).exit ≠ .sync := by
  rw [mlfqSelectCpu, h]
  exact selectPlace_exit_ne_sync _ _ _ _ _

/-! ## What the selection inserts -/

theorem selectPlace_insert (m : Machine) (p : TaskStruct) (t : TaskCtx) (prevCpu : Int)
    (now : U64) : (selectPlace m p t prevCpu now).insert = none := by
  rw [selectPlace]
  split
  · rfl
  · split
    · rw [selectQ3]
      split <;> rfl
    · rw [selectQ12]
      split
      · rfl
      · split
        · rfl
        · simp only
          split <;> rfl

/-- The selection inserts into the local DSQ of the CPU it names. -/
theorem mlfqSelectCpu_insert {m : Machine} {p : TaskStruct} {tctx : Option TaskCtx}
    {prevCpu : Int} {sync : Bool} {now : U64} {i : DsqInsert}
    (h : (mlfqSelectCpu m p tctx prevCpu sync now).insert = some i) : i.dsq = .loc := by
  unfold mlfqSelectCpu at h
  split at h
  · cases h
  · split at h
    · cases h
      rfl
    · rw [selectPlace_insert] at h
      cases h

/-! ## What the selection changes in the machine -/

/-- `m'` is `m` with other idle marks. -/
def Machine.IdleClaimed (m m' : Machine) : Prop :=
  ∃ idle, m' = { m with idle := idle }

theorem Machine.IdleClaimed.refl (m : Machine) : m.IdleClaimed m := ⟨m.idle, rfl⟩

theorem Machine.IdleClaimed.trans {m m' m'' : Machine} (h : m.IdleClaimed m')
    (k : m'.IdleClaimed m'') : m.IdleClaimed m'' := by
  obtain ⟨a, rfl⟩ := h
  obtain ⟨b, rfl⟩ := k
  exact ⟨b, rfl⟩

/-- A step only clears idle marks. -/
def Pick.Claims (m : Machine) (r : Pick) : Prop := m.IdleClaimed r.2

theorem Pick.Claims.orElse {m : Machine} {r : Pick} {next : Machine → Pick}
    (h : Claims m r) (k : ∀ m, Claims m (next m)) : Claims m (r.orElse next) := by
  rw [Pick.orElse]
  split
  · exact h
  · exact Machine.IdleClaimed.trans h (k r.2)

theorem claimFirst_claims (m : Machine) (cands : List Nat) (ok : Nat → Bool) :
    Pick.Claims m (claimFirst m cands ok) := by
  rw [claimFirst]
  split
  · exact .refl m
  · exact ⟨_, rfl⟩

theorem pickIdleCpu_claims (m : Machine) (allowed : Nat → Bool) (core : Bool) :
    Pick.Claims m (m.pickIdleCpu allowed core) := by
  rw [Machine.pickIdleCpu]
  split
  · exact .refl m
  · exact ⟨_, rfl⟩

theorem mlfqPickIdleInBitmap_claims (m : Machine) (bm : Option (Nat → Bool))
    (p : TaskStruct) (primary : Bool) :
    Pick.Claims m (mlfqPickIdleInBitmap m bm p primary) := by
  cases bm with
  | none => exact .refl m
  | some bm =>
      simp only [mlfqPickIdleInBitmap]
      exact claimFirst_claims _ _ _

theorem stepSibling_claims (m : Machine) (p : TaskStruct) (interactive : Bool)
    (prevCpu : Nat) : Pick.Claims m (stepSibling m p interactive prevCpu) := by
  rw [stepSibling]
  split
  · exact claimFirst_claims ..
  · exact .refl m

theorem stepLargest_claims (m : Machine) (p : TaskStruct) (interactive : Bool) :
    Pick.Claims m (stepLargest m p interactive) := by
  rw [stepLargest]
  split
  · exact mlfqPickIdleInBitmap_claims ..
  · exact .refl m

theorem stepWakerLlc_claims (m : Machine) (p : TaskStruct) (interactive : Bool) :
    Pick.Claims m (stepWakerLlc m p interactive) := by
  rw [stepWakerLlc]
  split
  · split
    · exact (pickIdleCpu_claims ..).orElse fun m => pickIdleCpu_claims ..
    · exact mlfqPickIdleInBitmap_claims ..
  · exact .refl m

/-- The steering loop, attempt by attempt. -/
theorem steerFrom_claims (m : Machine) (p : TaskStruct) (interactive : Bool) (fuel : Nat)
    (visited : Nat → Bool) : Pick.Claims m (steerFrom m p interactive fuel visited) := by
  induction fuel generalizing visited with
  | zero => exact .refl m
  | succ fuel ih =>
      rw [steerFrom]
      simp only
      split
      · exact .refl m
      · split
        · exact mlfqPickIdleInBitmap_claims ..
        · exact ih _

theorem stepSteer_claims (m : Machine) (p : TaskStruct) (interactive : Bool) :
    Pick.Claims m (stepSteer m p interactive) := by
  rw [stepSteer]
  split
  · exact steerFrom_claims ..
  · exact .refl m

theorem stepGlobal_claims (m : Machine) (p : TaskStruct) (interactive : Bool) :
    Pick.Claims m (stepGlobal m p interactive) := by
  rw [stepGlobal]
  split
  · split
    · exact (pickIdleCpu_claims ..).orElse fun m => pickIdleCpu_claims ..
    · exact Pick.Claims.orElse (mlfqPickIdleInBitmap_claims ..) fun m =>
        pickIdleCpu_claims ..
  · exact pickIdleCpu_claims ..

theorem selectScan_claims (m : Machine) (p : TaskStruct) (interactive : Bool) :
    Pick.Claims m (selectScan m p interactive) :=
  (stepLargest_claims m p interactive).orElse fun m =>
    (stepWakerLlc_claims m p interactive).orElse fun m =>
      (stepSteer_claims m p interactive).orElse fun m => stepGlobal_claims m p interactive

theorem selectQ3_machine (m : Machine) (p : TaskStruct) (t : TaskCtx) (prevCpu : Nat) :
    m.IdleClaimed (selectQ3 m p t prevCpu).machine := by
  have hscan (m : Machine) (strict : Bool) (cap : Nat) :
      Pick.Claims m (q3Scan m p strict cap) := claimFirst_claims _ _ _
  have h := (hscan m true 64).orElse fun m => hscan m false 32
  rw [selectQ3]
  split <;> exact h

theorem selectQ12_machine (m : Machine) (p : TaskStruct) (t : TaskCtx) (prevCpu : Nat)
    (now : U64) : m.IdleClaimed (selectQ12 m p t prevCpu now).machine := by
  have hprev : Pick.Claims m (stepPrev m (mlfqInteractiveOnWakeup m p t now) prevCpu) :=
    claimFirst_claims _ _ _
  have h := hprev.orElse fun m' =>
    stepSibling_claims m' p (mlfqInteractiveOnWakeup m p t now) prevCpu
  have hscan := Machine.IdleClaimed.trans h
    (selectScan_claims _ p (mlfqInteractiveOnWakeup m p t now))
  rw [selectQ12]
  split
  · exact h
  · split
    · exact h
    · simp only
      split <;> exact hscan

/-- **The selection clears idle marks and nothing else.** The counters,
the clocks and the gauges are as it found them. -/
theorem mlfqSelectCpu_machine (m : Machine) (p : TaskStruct) (tctx : Option TaskCtx)
    (prevCpu : Int) (sync : Bool) (now : U64) :
    m.IdleClaimed (mlfqSelectCpu m p tctx prevCpu sync now).machine := by
  cases tctx with
  | none => exact .refl m
  | some t =>
      rw [mlfqSelectCpu]
      split
      · exact .refl m
      · rw [selectPlace]
        split
        · exact .refl m
        · split
          · exact selectQ3_machine ..
          · exact selectQ12_machine ..

theorem selectQ12_saturated {m : Machine} {p : TaskStruct} {t : TaskCtx} {prevCpu : Nat}
    {now : U64} (h : (selectQ12 m p t prevCpu now).exit = .saturated) :
    m.rod.idleTracking = true ∧ m.idleCount = 0 := by
  have hprev : Pick.Claims m (stepPrev m (mlfqInteractiveOnWakeup m p t now) prevCpu) :=
    claimFirst_claims _ _ _
  obtain ⟨idle, hclaims⟩ := hprev.orElse fun m' =>
    stepSibling_claims m' p (mlfqInteractiveOnWakeup m p t now) prevCpu
  rw [selectQ12] at h
  split at h
  · cases h
  · split at h
    · rename_i hsat
      rw [hclaims, saturated] at hsat
      simp only [Bool.and_eq_true, decide_eq_true_eq] at hsat
      exact hsat.1
    · simp only at h
      split at h <;> cases h

/-- **The saturation exit is taken on a count of zero**, and only with
the idle tracking on. -/
theorem mlfqSelectCpu_saturated {m : Machine} {p : TaskStruct} {tctx : Option TaskCtx}
    {prevCpu : Int} {sync : Bool} {now : U64}
    (h : (mlfqSelectCpu m p tctx prevCpu sync now).exit = .saturated) :
    m.rod.idleTracking = true ∧ m.idleCount = 0 := by
  cases tctx with
  | none => cases h
  | some t =>
      rw [mlfqSelectCpu] at h
      split at h
      · cases h
      · rw [selectPlace] at h
        split at h
        · cases h
        · rename_i cpu _
          split at h
          · rw [selectQ3] at h
            split at h <;> cases h
          · exact selectQ12_saturated h

/-! ## The selection's view of interactivity -/

/-- **The selection and the classification agree, up to the Q3 seed.**
A wakeup the selection treats as interactive is classified into Q1,
unless it satisfies the seed's condition; then it goes to Q3. The
policy plays no part: the selection's own test excludes `SCHED_IDLE`. -/
theorem mlfqInteractiveOnWakeup_classified (m : Machine) (p : TaskStruct) (t : TaskCtx)
    (now : U64) (hi : mlfqInteractiveOnWakeup m p t now = true) :
    let r := (mlfqWakeupClassify m p t now).1
    let seed := p.inIowait = false ∧ t.gpuSubmit = 0 ∧ t.prevBurstNs > m.adapt.tHEffNs
      ∧ wakeupSleepNs t now > m.rod.shortSleepNs
    (¬ seed → r.queue = .q1) ∧ (seed → r.queue = .q3) := by
  intro r seed
  have hseed : wakeupSeed m.rod m.adapt t (wakeupSleepNs t now) (mlfqTaskIoWait p) = true
      ↔ seed := by
    simp [seed, wakeupSeed, mlfqTaskIoWait, and_assoc]
  rcases mlfqWakeupClassify_queue_cases m p t now with ⟨hs, hq⟩ | ⟨hs, hr, hb⟩
  · exact ⟨fun hn => absurd (hseed.mp hs) hn, fun _ => hq⟩
  · have hunseeded : ¬ seed := by
      rw [← hseed, hs]
      decide
    refine ⟨fun _ => ?_, fun h => absurd h hunseeded⟩
    rw [mlfqInteractiveOnWakeup, Bool.or_eq_true, decide_eq_true_eq] at hi
    rcases hi with hq | hpend
    · exact hr.q1 (by rw [wakeupCaptured_queue, hq])
    · exact hb hpend

/-- A task that was in Q1, slept for 40 ms and ran 3 ms before. -/
def wokenQ1 : TaskCtx :=
  { queue := .q1, prevBurstNs := 3000000, lastSleepAt := 1000000000 }

/-- The agreement on a wakeup without a seed: the same task after 10 ms. -/
theorem mlfqInteractiveOnWakeup_classified_wokenQ1 :
    (mlfqWakeupClassify (Machine.zeroed {} 1).seed { pid := 1 } wokenQ1 1010000000).1.queue
      = .q1 :=
  (mlfqInteractiveOnWakeup_classified (Machine.zeroed {} 1).seed { pid := 1 } wokenQ1
    1010000000 (by decide)).1 (by decide)

/-- The seed takes an interactive wakeup to Q3: the selection calls the
task interactive because it was in Q1. -/
theorem mlfqInteractiveOnWakeup_not_q1 :
    ¬ ∀ (m : Machine) (p : TaskStruct) (t : TaskCtx) (now : U64),
      p.policy ≠ mlfqSchedIdle → mlfqInteractiveOnWakeup m p t now = true →
        (mlfqWakeupClassify m p t now).1.queue = .q1 := by
  intro h
  have hq := h (Machine.zeroed {} 1).seed { pid := 1 } wokenQ1 1040000000 (by decide)
    (by decide)
  exact absurd hq (by decide)

end ScxMlfq
