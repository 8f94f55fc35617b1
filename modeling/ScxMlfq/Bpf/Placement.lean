import ScxMlfq.Bpf.IdleClaim

/-!
# Bpf — Placement

Which idle CPU a selection takes, and when it takes one at all. The
primary-core preference of an interactive wakeup holds in every step but
two: the Q3 scans, which ignore it, and the kernel's own scan on a
machine with one domain. An idle CPU is found by every path that ends in
the global fallback; the Q3 scans stop at their caps.
-/

namespace ScxMlfq

/-! ## The primary preference -/

/-- Some idle CPU of the task is a primary core. -/
def HasIdlePrimary (m : Machine) (p : TaskStruct) : Prop :=
  ∃ c, m.idle c = true ∧ p.cpus c = true ∧ mlfqIsPrimary m c = true

/-- `c` is the lowest idle CPU below `cap` with `ok`. -/
def LowestIdle (m : Machine) (ok : Nat → Bool) (cap c : Nat) : Prop :=
  c < cap ∧ ok c = true ∧ m.idle c = true ∧
    ∀ c', c' < c → ok c' = true → m.idle c' = false

/-- The first `cap` CPU ids of the machine. -/
def scanCap (m : Machine) (cap : Nat) : Nat := min cap (min mlfqMaxCpus m.nrCpuIds)

/-- `c` is the CPU the Q3 scans come to: the lowest one without the SMT
veto among 64, or else the lowest one among 32. -/
def Q3Takes (m : Machine) (p : TaskStruct) (c : Nat) : Prop :=
  LowestIdle m (fun c => isCpuAvailableForQ3 m c p true) (scanCap m 64) c ∨
    (∀ c', c' < scanCap m 64 → isCpuAvailableForQ3 m c' p true = true → m.idle c' = false) ∧
      LowestIdle m (fun c => isCpuAvailableForQ3 m c p false) (scanCap m 32) c

/-- `c` is the CPU the kernel's scan gives the only domain. -/
def KernelTakes (m : Machine) (p : TaskStruct) (c : Nat) : Prop :=
  m.rod.nrLlcs = 1 ∧ wakerLlc m < mlfqMaxLlcs ∧ m.rod.llcHasPrimary (wakerLlc m) = true ∧
    (m.pickIdle m.idle p.cpus true).or (m.pickIdle m.idle p.cpus false) = some c

/-- The previous CPU is not taken and the machine is not saturated. -/
def PassesPrev (m : Machine) (prev : Nat) : Prop :=
  ¬ (mlfqIsPrimary m prev = true ∧ m.isSmtSiblingQ1Busy prev = false ∧ m.idle prev = true) ∧
    saturated m prev = false

/-- The input on which an interactive wakeup settles on an efficiency
core while a primary core is idle. -/
def SettlesOnEfficiency (m : Machine) (p : TaskStruct) (t : TaskCtx) (prevCpu : Int) : Prop :=
  HasIdlePrimary m p ∧ ∃ prev, ∃ c : Nat, fixedPrev m p prevCpu = some prev ∧
    mlfqIsPrimary m c = false ∧
    (t.queue = .q3 ∧ Q3Takes m p c ∨
      t.queue ≠ .q3 ∧ PassesPrev m prev ∧ KernelTakes m p c)

/-- The first candidate of a scan over the CPU ids is the lowest. -/
theorem claimFirst_range_iff (m : Machine) (n : Nat) (ok : Nat → Bool) (c : Nat) :
    (claimFirst m (List.range n) ok).1 = some c ↔ LowestIdle m ok n c := by
  have hfst : (claimFirst m (List.range n) ok).1
      = (List.range n).find? fun c => ok c && m.idle c := by
    rw [claimFirst]
    split <;> rename_i h <;> rw [h]
  rw [hfst, List.find?_range_eq_some, LowestIdle]
  simp only [Bool.and_eq_true, Bool.not_eq_true', Bool.and_eq_false_imp, and_assoc,
    List.mem_range]
  constructor
  · rintro ⟨hok, hidle, hlt, hlow⟩
    exact ⟨hlt, hok, hidle, hlow⟩
  · rintro ⟨hlt, hok, hidle, hlow⟩
    exact ⟨hok, hidle, hlt, hlow⟩

/-- A scan over the CPU ids that claims nothing has seen no idle
candidate. -/
theorem claimFirst_range_none {m : Machine} {n : Nat} {ok : Nat → Bool}
    (h : (claimFirst m (List.range n) ok).1 = none) {c : Nat} (hc : c < n)
    (hok : ok c = true) : m.idle c = false :=
  claimFirst_none h (List.mem_range.mpr hc) hok

/-- The two Q3 scans. -/
def q3Pick (m : Machine) (p : TaskStruct) : Pick :=
  Pick.orElse (q3Scan m p true 64) fun m => q3Scan m p false 32

theorem q3Pick_iff (m : Machine) (p : TaskStruct) (c : Nat) :
    (q3Pick m p).1 = some c ↔ Q3Takes m p c := by
  have hstrict := q3Scan_claimable (m := m) p true 64
  have hfst (strict : Bool) (cap : Nat) (c : Nat) : (q3Scan m p strict cap).1 = some c ↔
      LowestIdle m (fun c => isCpuAvailableForQ3 m c p strict) (scanCap m cap) c :=
    claimFirst_range_iff m _ _ c
  constructor
  · intro h
    rcases hstrict.orElse_some h with hsome | ⟨hnone, hsome⟩
    · exact .inl ((hfst true 64 c).mp hsome)
    · exact .inr ⟨fun c' hc' hok => claimFirst_range_none hnone hc' hok,
        (hfst false 32 c).mp hsome⟩
  · rintro (hlow | ⟨hnone, hlow⟩)
    · have hsome := (hfst true 64 c).mpr hlow
      rw [q3Pick, Pick.orElse, hsome]
      exact hsome
    · have hscan : (q3Scan m p true 64).1 = none := by
        rw [Option.eq_none_iff_forall_ne_some]
        intro c' hsome
        obtain ⟨hlt, hok, hidle, -⟩ := (hfst true 64 c').mp hsome
        rw [hnone c' hlt hok] at hidle
        cases hidle
      rw [q3Pick, Pick.orElse, hscan, hstrict.machine hscan]
      exact (hfst false 32 c).mpr hlow

/-- A selection in Q3 claims what its scans take. -/
theorem selectQ3_takes_iff (m : Machine) (p : TaskStruct) (t : TaskCtx) (prev c : Nat) :
    ((selectQ3 m p t prev).exit = .claimed ∧ (selectQ3 m p t prev).cpu = c) ↔
      Q3Takes m p c := by
  rw [← q3Pick_iff, q3Pick, selectQ3]
  split
  · rename_i c' hsome
    rw [hsome, Option.some.injEq]
    constructor
    · rintro ⟨-, hcpu⟩
      exact Int.ofNat.inj hcpu
    · rintro rfl
      exact ⟨rfl, rfl⟩
  · rename_i hnone
    rw [hnone]
    exact iff_of_false (fun h => by cases h.1) (fun h => by cases h)

/-! ### The steps of an interactive wakeup -/

theorem stepPrev_interactive_none (m : Machine) (prev : Nat) :
    (stepPrev m true prev).1 = none ↔
      ¬ (mlfqIsPrimary m prev = true ∧ m.isSmtSiblingQ1Busy prev = false ∧
        m.idle prev = true) := by
  rw [stepPrev, claimFirst]
  split
  · rename_i hfind
    have hprev := List.find?_eq_none.mp hfind prev (List.mem_singleton.mpr rfl)
    simp only [Bool.not_true, Bool.false_or, Bool.and_eq_true, Bool.not_eq_true'] at hprev
    exact iff_of_true rfl fun h => hprev ⟨⟨h.1, h.2.1⟩, h.2.2⟩
  · rename_i c hfind
    have hmem := List.mem_of_find?_eq_some hfind
    have hprev := List.find?_some hfind
    rw [List.mem_singleton] at hmem
    subst hmem
    simp only [Bool.not_true, Bool.false_or, Bool.and_eq_true, Bool.not_eq_true'] at hprev
    exact iff_of_false (fun h => by cases h) (not_not.mpr ⟨hprev.1.1, hprev.1.2, hprev.2⟩)

/-- The previous CPU is taken as a primary core. -/
theorem stepPrev_interactive_primary (m : Machine) (prev : Nat) :
    Pick.Spec m (fun c => mlfqIsPrimary m c = true) (stepPrev m true prev) := by
  refine (claimFirst_spec m _ _).mono ?_
  rintro c ⟨-, hok, -⟩
  simp only [Bool.not_true, Bool.false_or, Bool.and_eq_true] at hok
  exact hok.1

theorem stepSibling_interactive (m : Machine) (p : TaskStruct) (prev : Nat) :
    stepSibling m p true prev = (none, m) := by
  rw [stepSibling, if_neg]
  rintro ⟨hno, -⟩
  cases hno

theorem primaryWalk (m : Machine) (bm : Option (Nat → Bool)) (p : TaskStruct) :
    Pick.Spec m (fun c => mlfqIsPrimary m c = true) (mlfqPickIdleInBitmap m bm p true) :=
  (mlfqPickIdleInBitmap_spec m bm p true).mono fun _ hc => hc.2.2 rfl

theorem stepLargest_primary (m : Machine) (p : TaskStruct) :
    Pick.Spec m (fun c => mlfqIsPrimary m c = true) (stepLargest m p true) := by
  rw [stepLargest]
  split
  · exact primaryWalk m _ p
  · exact .declined

theorem pickIdleCpu_fst (m : Machine) (allowed : Nat → Bool) (core : Bool) :
    (m.pickIdleCpu allowed core).1 = m.pickIdle m.idle allowed core := by
  rw [Machine.pickIdleCpu]
  split <;> rename_i h <;> rw [h]

/-- The waker's domain gives a primary core, or what the kernel takes. -/
theorem stepWakerLlc_primary (m : Machine) (p : TaskStruct) :
    Pick.Spec m (fun c => mlfqIsPrimary m c = true ∨ KernelTakes m p c)
      (stepWakerLlc m p true) := by
  rw [stepWakerLlc]
  split
  · rename_i hllc
    have hprimary : m.rod.llcHasPrimary (wakerLlc m) = true := by
      rcases hllc.2 with hno | hyes
      · cases hno
      · exact hyes
    split
    · rename_i hone
      have htakes {c : Nat}
          (hc : (m.pickIdle m.idle p.cpus true).or (m.pickIdle m.idle p.cpus false) = some c) :
          mlfqIsPrimary m c = true ∨ KernelTakes m p c :=
        .inr ⟨hone, hllc.1, hprimary, hc⟩
      refine Pick.Spec.orElse_of ((pickIdleCpu_spec m p.cpus true).mono fun c hc => ?_) ?_
      · exact htakes (by rw [hc, Option.some_or])
      · intro hnone
        refine (pickIdleCpu_spec m p.cpus false).mono fun c hc => htakes ?_
        rw [pickIdleCpu_fst] at hnone
        rw [hnone, hc, Option.none_or]
    · exact (primaryWalk m _ p).mono fun _ hc => .inl hc
  · exact .declined

theorem wakerLlc_lt_nrLlcs {m : Machine} (h : wakerLlc m < mlfqMaxLlcs) :
    wakerLlc m < m.rod.nrLlcs := by
  rw [wakerLlc] at h ⊢
  split at h
  · rw [if_pos ‹_›]
    rw [Machine.llcOfCpu] at h ⊢
    split at h
    · exact absurd h (Nat.lt_irrefl _)
    · rename_i hcpu
      rw [if_neg hcpu]
      split at h
      · rename_i hllc
        rw [if_pos hllc]
        exact hllc.2
      · exact absurd h (Nat.lt_irrefl _)
  · exact absurd h (Nat.lt_irrefl _)

/-- In the only domain nothing comes before the kernel's scan. -/
theorem stepLargest_of_one {m : Machine} (hone : m.rod.nrLlcs = 1)
    (hwaker : wakerLlc m < mlfqMaxLlcs) (p : TaskStruct) (interactive : Bool) :
    stepLargest m p interactive = (none, m) := by
  rw [stepLargest, if_neg]
  rintro ⟨-, -, hlargest, hne, -⟩
  have hlt := wakerLlc_lt_nrLlcs hwaker
  omega

theorem mlfqPickIdlePrimary_eq (m : Machine) (p : TaskStruct) :
    mlfqPickIdlePrimary m p = claimFirst m (List.range mlfqMaxCpus) fun cand =>
      mlfqBitmapTestCpu m.primaryBitmap cand && p.cpus cand
        && (!false || mlfqIsPrimary m cand) := by
  rw [mlfqPickIdlePrimary, mlfqPickIdleInBitmap]

/-- The global fallback of an interactive wakeup gives a primary core
while one is idle. -/
theorem stepGlobal_primary {m : Machine} (hybrid : m.rod.primaryAll = false) {p : TaskStruct}
    (hidle : HasIdlePrimary m p) {c : Nat} (h : (stepGlobal m p true).1 = some c) :
    mlfqIsPrimary m c = true := by
  have hbit (c : Nat) : mlfqIsPrimary m c = mlfqBitmapTestCpu m.primaryBitmap c := by
    rw [mlfqIsPrimary, hybrid, Bool.false_or, if_neg (by omega), Int.toNat_natCast]
  have hwalk : Pick.Spec m (fun c => mlfqIsPrimary m c = true) (mlfqPickIdlePrimary m p) := by
    rw [mlfqPickIdlePrimary_eq]
    refine (claimFirst_spec m (List.range mlfqMaxCpus) _).mono ?_
    rintro c' ⟨-, hok, -⟩
    simp only [Bool.and_eq_true] at hok
    rw [hbit]
    exact hok.1.1
  rw [stepGlobal, if_pos rfl, hybrid, if_neg Bool.false_ne_true] at h
  rcases hwalk.orElse_some h with hsome | ⟨hnone, -⟩
  · exact hwalk.holds hsome
  · obtain ⟨c', hc', hallowed, hprimary⟩ := hidle
    rw [hbit] at hprimary
    have hlt : c' < mlfqMaxCpus := by
      rw [mlfqBitmapTestCpu] at hprimary
      split at hprimary
      · cases hprimary
      · omega
    rw [mlfqPickIdlePrimary_eq] at hnone
    have hfree := claimFirst_range_none hnone hlt (by
      rw [hprimary, hallowed]
      rfl)
    rw [hfree] at hc'
    cases hc'

/-- What the scans of an interactive wakeup give while a primary core is
idle. -/
theorem selectScan_primary {m : Machine} (hybrid : m.rod.primaryAll = false) {p : TaskStruct}
    (hidle : HasIdlePrimary m p) {c : Nat} (h : (selectScan m p true).1 = some c) :
    mlfqIsPrimary m c = true ∨ KernelTakes m p c := by
  have hlargest := stepLargest_primary m p
  have hwaker := stepWakerLlc_primary m p
  have hsteer := stepSteer_spec p true fun llc => primaryWalk m (m.llcBitmaps llc) p
  rcases hlargest.orElse_some h with hsome | ⟨-, h⟩
  · exact .inl (hlargest.holds hsome)
  · rcases hwaker.orElse_some h with hsome | ⟨-, h⟩
    · exact hwaker.holds hsome
    · rcases hsteer.orElse_some h with hsome | ⟨-, h⟩
      · exact .inl (hsteer.holds hsome)
      · exact .inl (stepGlobal_primary hybrid hidle h)

theorem selectScan_of_kernelTakes {m : Machine} {p : TaskStruct} {c : Nat}
    (h : KernelTakes m p c) : (selectScan m p true).1 = some c := by
  obtain ⟨hone, hwaker, hprimary, htakes⟩ := h
  have hstep : (stepWakerLlc m p true).1 = some c := by
    rw [stepWakerLlc, if_pos ⟨hwaker, .inr hprimary⟩, if_pos hone]
    cases hcore : m.pickIdle m.idle p.cpus true with
    | some c' =>
        rw [hcore, Option.some_or] at htakes
        rw [Pick.orElse, pickIdleCpu_fst, hcore]
        exact (pickIdleCpu_fst m p.cpus true).trans (hcore.trans htakes)
    | none =>
        rw [hcore, Option.none_or] at htakes
        have hmachine := (pickIdleCpu_spec m p.cpus true).machine
          ((pickIdleCpu_fst m p.cpus true).trans hcore)
        rw [Pick.orElse, pickIdleCpu_fst, hcore, hmachine]
        exact (pickIdleCpu_fst m p.cpus false).trans htakes
  rw [selectScan, stepLargest_of_one hone hwaker, Pick.orElse]
  simp only
  rw [Pick.orElse, hstep]
  exact hstep

/-- An interactive selection in Q1 or Q2 takes a CPU that is not primary,
with a primary core idle, exactly when the kernel's scan gives it. -/
theorem selectQ12_takes_iff {m : Machine} (hybrid : m.rod.primaryAll = false) {p : TaskStruct}
    {t : TaskCtx} {now : U64} (hi : mlfqInteractiveOnWakeup m p t now = true)
    (hidle : HasIdlePrimary m p) (prev : Nat) {c : Nat} (hc : mlfqIsPrimary m c = false) :
    ((selectQ12 m p t prev now).exit = .claimed ∧ (selectQ12 m p t prev now).cpu = c) ↔
      PassesPrev m prev ∧ KernelTakes m p c := by
  have hnot (h : mlfqIsPrimary m c = true) : False := by
    rw [hc] at h
    cases h
  -- an interactive wakeup skips the sibling step
  have hfast : (Pick.orElse (stepPrev m true prev) fun m' => stepSibling m' p true prev)
      = stepPrev m true prev := by
    cases h : (stepPrev m true prev).1 with
    | some c' => rw [Pick.orElse, h]
    | none =>
        have hmachine := (stepPrev_interactive_primary m prev).machine h
        rw [Pick.orElse, h, stepSibling_interactive]
        exact Prod.ext h.symm rfl
  rw [selectQ12, hi]
  simp only [hfast]
  split
  · rename_i c' hsome
    have hprimary := (stepPrev_interactive_primary m prev).holds hsome
    refine iff_of_false (fun h => ?_) fun h => ?_
    · obtain rfl : c' = c := Int.ofNat.inj h.2
      exact hnot hprimary
    · rw [(stepPrev_interactive_none m prev).mpr h.1.1] at hsome
      cases hsome
  · rename_i hnone
    have hpasses := (stepPrev_interactive_none m prev).mp hnone
    rw [(stepPrev_interactive_primary m prev).machine hnone]
    cases hsat : saturated m prev with
    | true =>
        rw [if_pos rfl]
        refine iff_of_false (fun h => by cases h.1) fun h => ?_
        rw [h.1.2] at hsat
        cases hsat
    | false =>
        rw [if_neg Bool.false_ne_true]
        split
        · rename_i c' hsome
          constructor
          · rintro ⟨-, hcpu⟩
            obtain rfl : c' = c := Int.ofNat.inj hcpu
            rcases selectScan_primary hybrid hidle hsome with hprimary | htakes
            · exact (hnot hprimary).elim
            · exact ⟨⟨hpasses, hsat⟩, htakes⟩
          · rintro ⟨-, htakes⟩
            rw [selectScan_of_kernelTakes htakes] at hsome
            obtain rfl := Option.some.inj hsome
            exact ⟨rfl, rfl⟩
        · rename_i hscan
          refine iff_of_false (fun h => by cases h.1) fun h => ?_
          rw [selectScan_of_kernelTakes h.2] at hscan
          cases hscan

/-- The view of the wakeup does not depend on the flags the handoff
leaves behind. -/
theorem mlfqInteractiveOnWakeup_selectTctx (m : Machine) (p : TaskStruct) (t : TaskCtx)
    (sync : Bool) (now : U64) :
    mlfqInteractiveOnWakeup m p (selectTctx t sync) now = mlfqInteractiveOnWakeup m p t now := by
  rw [selectTctx]
  split
  · rfl
  · rfl

theorem selectTctx_queue (t : TaskCtx) (sync : Bool) : (selectTctx t sync).queue = t.queue := by
  rw [selectTctx]
  split <;> rfl

/-- The selection without a handoff. -/
theorem mlfqSelectCpu_of_no_handoff {m : Machine} {p : TaskStruct} {t : TaskCtx} {sync : Bool}
    (h : (if syncWanted t sync then syncHandoff m p else none) = none) (prevCpu : Int)
    (now : U64) :
    mlfqSelectCpu m p (some t) prevCpu sync now
      = selectPlace m p (selectTctx t sync) prevCpu now := by
  rw [mlfqSelectCpu, h]

/-- **The primary preference of an interactive wakeup.** On a hybrid
machine the selection claims a CPU that is not primary while an idle
primary core is allowed exactly when the recorded queue is still 3 and
the lowest available CPU is not primary, or the only domain is left to
the kernel's scan. -/
theorem mlfqSelectCpu_primary_iff (m : Machine) (p : TaskStruct) (t : TaskCtx) (prevCpu : Int)
    (sync : Bool) (now : U64) (hybrid : m.rod.primaryAll = false)
    (hi : mlfqInteractiveOnWakeup m p t now = true)
    (hno : (if syncWanted t sync then syncHandoff m p else none) = none) :
    (∀ c : Nat, (mlfqSelectCpu m p (some t) prevCpu sync now).exit = .claimed →
      (mlfqSelectCpu m p (some t) prevCpu sync now).cpu = c →
      mlfqIsPrimary m c = false → ¬ HasIdlePrimary m p) ↔
      ¬ SettlesOnEfficiency m p t prevCpu := by
  rw [mlfqSelectCpu_of_no_handoff hno]
  rw [← mlfqInteractiveOnWakeup_selectTctx m p t sync now] at hi
  cases hfixed : fixedPrev m p prevCpu with
  | none =>
      have hempty : (selectPlace m p (selectTctx t sync) prevCpu now).exit = .emptyMask := by
        rw [fixedPrev] at hfixed
        rw [selectPlace, hfixed]
      refine iff_of_true (fun c hexit => ?_) fun h => ?_
      · rw [hempty] at hexit
        cases hexit
      · obtain ⟨-, prev, c, hprev, -⟩ := h
        rw [hfixed] at hprev
        cases hprev
  | some prev =>
      rw [selectPlace_of_fixed hfixed, selectTctx_queue]
      by_cases hq : t.queue = .q3
      · rw [if_pos hq]
        constructor
        · rintro hall ⟨hidle, prev', c, -, hc, ⟨-, htakes⟩ | ⟨hne, -⟩⟩
          · obtain ⟨hexit, hcpu⟩ :=
              (selectQ3_takes_iff m p (selectTctx t sync) prev c).mpr htakes
            exact hall c hexit hcpu hc hidle
          · exact hne hq
        · intro hnot c hexit hcpu hc hidle
          exact hnot ⟨hidle, prev, c, hfixed, hc, .inl ⟨hq,
            (selectQ3_takes_iff m p (selectTctx t sync) prev c).mp ⟨hexit, hcpu⟩⟩⟩
      · rw [if_neg hq]
        constructor
        · rintro hall ⟨hidle, prev', c, hprev, hc, ⟨hq3, -⟩ | ⟨-, htakes⟩⟩
          · exact hq hq3
          · rw [hfixed] at hprev
            obtain rfl := Option.some.inj hprev
            obtain ⟨hexit, hcpu⟩ := (selectQ12_takes_iff hybrid hi hidle prev hc).mpr htakes
            exact hall c hexit hcpu hc hidle
        · intro hnot c hexit hcpu hc hidle
          exact hnot ⟨hidle, prev, c, hfixed, hc, .inr ⟨hq,
            (selectQ12_takes_iff hybrid hi hidle prev hc).mp ⟨hexit, hcpu⟩⟩⟩

/-- Two idle CPUs of which only CPU 1 is primary, in one domain. -/
def hybridMachine : Machine :=
  { idleMachine { primaryAll := false, nrLlcs := 1, llcHasPrimary := fun _ => true } 2
      (fun c => decide (c < 2)) with
    primaryBitmap := fun c => decide (c = 1), idleCount := 2 }

/-- A task of Q3 about to be boosted by a short sleep. -/
def boostedQ3 : TaskCtx := { queue := .q3, lastSleepAt := 1000000 }

theorem mlfqSelectCpu_primary_iff_boosted :
    (∀ c : Nat, (mlfqSelectCpu hybridMachine { pid := 1 } (some boostedQ3) 0 false
        2000000).exit = .claimed →
      (mlfqSelectCpu hybridMachine { pid := 1 } (some boostedQ3) 0 false 2000000).cpu = c →
      mlfqIsPrimary hybridMachine c = false → ¬ HasIdlePrimary hybridMachine { pid := 1 }) ↔
      ¬ SettlesOnEfficiency hybridMachine { pid := 1 } boostedQ3 0 :=
  mlfqSelectCpu_primary_iff hybridMachine { pid := 1 } boostedQ3 0 false 2000000 (by decide)
    (by decide) (by decide)

/-- The idle count is the number of idle CPUs. -/
def AccurateCount (m : Machine) : Prop :=
  m.idleCount.toNat = (List.range m.nrCpuIds).countP m.idle

theorem hybridMachine_count : AccurateCount hybridMachine := by
  rw [AccurateCount]
  decide

/-- **The failing input.** The wakeup claims CPU 0 while CPU 1 is idle. -/
theorem mlfqSelectCpu_not_primary :
    ¬ ∀ (m : Machine) (p : TaskStruct) (t : TaskCtx) (prevCpu : Int) (sync : Bool) (now : U64),
      m.PicksIdle → AccurateCount m → m.rod.primaryAll = false →
      (∃ c, mlfqBitmapTestCpu m.primaryBitmap c = true) →
      mlfqInteractiveOnWakeup m p t now = true →
      (if syncWanted t sync then syncHandoff m p else none) = none →
      ∀ c : Nat, (mlfqSelectCpu m p (some t) prevCpu sync now).exit = .claimed →
        (mlfqSelectCpu m p (some t) prevCpu sync now).cpu = c →
        mlfqIsPrimary m c = false → ¬ HasIdlePrimary m p := by
  intro h
  have hpick : hybridMachine.PicksIdle := picksIdle_of_lowest rfl
  exact h hybridMachine { pid := 1 } boostedQ3 0 false 2000000 hpick hybridMachine_count (by decide)
    ⟨1, by decide⟩ (by decide) (by decide) 0 (by decide) (by decide) (by decide)
    ⟨1, by decide, by decide, by decide⟩

/-! ## Work conservation -/

/-- `scx_bpf_pick_idle_cpu` without flags finds an idle CPU of the allowed
set when there is one. -/
def Machine.FindsIdle (m : Machine) : Prop :=
  ∀ idle allowed, m.pickIdle idle allowed false = none →
    ∀ c, c < m.nrCpuIds → allowed c = true → idle c = false

/-- An idle CPU of the task that no realtime task occupies. -/
def AvailableCpu (m : Machine) (p : TaskStruct) (c : Nat) : Prop :=
  c < m.nrCpuIds ∧ p.cpus c = true ∧ m.idle c = true ∧ m.occupied c = false

/-- The CPUs the Q3 scans reach: 64 without the SMT veto, 32 with it
dropped. -/
def Q3Reaches (m : Machine) (c : Nat) : Prop :=
  c < 64 ∧ m.isSmtSiblingQ1Busy c = false ∨ c < 32

/-- An accurate count is not zero while a CPU is idle. -/
theorem AccurateCount.ne_zero {m : Machine} (h : AccurateCount m) {c : Nat} (hc : c < m.nrCpuIds)
    (hidle : m.idle c = true) : m.idleCount ≠ 0 := by
  intro hzero
  have hpos : 0 < (List.range m.nrCpuIds).countP m.idle :=
    List.countP_pos_iff.mpr ⟨c, List.mem_range.mpr hc, hidle⟩
  rw [AccurateCount, hzero] at h
  rw [← h] at hpos
  exact absurd hpos (by decide)

/-- The global fallback finds an idle CPU. -/
theorem stepGlobal_finds {m : Machine} (hpick : m.PicksIdle) (hfinds : m.FindsIdle)
    {p : TaskStruct} {c : Nat} (hc : AvailableCpu m p c) (interactive : Bool) :
    (stepGlobal m p interactive).1 ≠ none := by
  have hlast : (m.pickIdleCpu p.cpus false).1 ≠ none := by
    rw [pickIdleCpu_fst]
    intro hnone
    have hbusy := hfinds _ _ hnone c hc.1 hc.2.1
    have hidle := hc.2.2.1
    rw [hbusy] at hidle
    cases hidle
  intro hnone
  rw [stepGlobal] at hnone
  cases interactive with
  | false => exact hlast hnone
  | true =>
      rw [if_pos rfl] at hnone
      have hfirst : Pick.Spec m (Claimable m p)
          (if m.rod.primaryAll then m.pickIdleCpu p.cpus true else mlfqPickIdlePrimary m p) := by
        split
        · exact pickIdleCpu_claimable hpick p true
        · exact mlfqPickIdleInBitmap_claimable p _ _
      exact hlast (hfirst.orElse_none hnone).2

theorem selectScan_finds {m : Machine} (hpick : m.PicksIdle) (hfinds : m.FindsIdle)
    {p : TaskStruct} {c : Nat} (hc : AvailableCpu m p c) (interactive : Bool) :
    (selectScan m p interactive).1 ≠ none := by
  intro hnone
  have hnone := ((stepLargest_claimable p interactive).orElse_none hnone).2
  have hnone := ((stepWakerLlc_claimable hpick p interactive).orElse_none hnone).2
  have hnone := ((stepSteer_spec p interactive fun _ =>
    mlfqPickIdleInBitmap_claimable p _ _).orElse_none hnone).2
  exact stepGlobal_finds hpick hfinds hc interactive hnone

/-- A selection in Q1 or Q2 finds an idle CPU. -/
theorem selectQ12_finds {m : Machine} (hpick : m.PicksIdle) (hfinds : m.FindsIdle)
    (hcount : AccurateCount m) {p : TaskStruct} {c : Nat} (hc : AvailableCpu m p c) (t : TaskCtx)
    {prev : Nat} (hprev : p.cpus prev = true) (now : U64) :
    (selectQ12 m p t prev now).exit = .claimed := by
  have hfast : Pick.Spec m (Claimable m p)
      (Pick.orElse (stepPrev m (mlfqInteractiveOnWakeup m p t now) prev) fun m' =>
        stepSibling m' p (mlfqInteractiveOnWakeup m p t now) prev) :=
    (stepPrev_claimable p _ hprev).orElse (stepSibling_claimable p _ prev)
  have hunsaturated : saturated m prev = false := by
    rw [saturated, decide_eq_false (hcount.ne_zero hc.1 hc.2.2.1), Bool.and_false,
      Bool.false_and]
  rw [selectQ12]
  split
  · rfl
  · rename_i hnone
    rw [hfast.machine hnone, if_neg (by rw [hunsaturated]; exact Bool.false_ne_true)]
    simp only
    split
    · rfl
    · rename_i hscan
      exact absurd hscan (selectScan_finds hpick hfinds hc _)

/-- A selection in Q3 finds an idle CPU exactly when its scans reach one. -/
theorem selectQ3_finds_iff {m : Machine} (hmax : m.nrCpuIds ≤ mlfqMaxCpus) (p : TaskStruct)
    (t : TaskCtx) (prev : Nat) :
    (selectQ3 m p t prev).exit = .claimed ↔ ∃ c, AvailableCpu m p c ∧ Q3Reaches m c := by
  have hcap (cap c : Nat) : c < scanCap m cap ↔ c < cap ∧ c < m.nrCpuIds := by
    rw [scanCap, Nat.min_eq_right hmax, Nat.lt_min]
  have havail (c : Nat) (strict : Bool) : isCpuAvailableForQ3 m c p strict = true ↔
      c < m.nrCpuIds ∧ p.cpus c = true ∧ m.occupied c = false ∧
        (strict = true → m.isSmtSiblingQ1Busy c = false) := by
    cases strict <;> simp [isCpuAvailableForQ3, and_assoc]
  have hexit : (selectQ3 m p t prev).exit = .claimed ↔ (q3Pick m p).1 ≠ none := by
    rw [q3Pick, selectQ3]
    split
    · rename_i c hsome
      rw [hsome]
      exact iff_of_true rfl (Option.some_ne_none c)
    · rename_i hnone
      rw [hnone]
      exact iff_of_false (fun h => by cases h) fun h => h rfl
  rw [hexit]
  constructor
  · intro hsome
    obtain ⟨c, hsome⟩ := Option.ne_none_iff_exists'.mp hsome
    rcases (q3Pick_iff m p c).mp hsome with ⟨hlt, hok, hidle, -⟩ | ⟨-, hlt, hok, hidle, -⟩
    · rw [hcap] at hlt
      rw [havail] at hok
      exact ⟨c, ⟨hok.1, hok.2.1, hidle, hok.2.2.1⟩, .inl ⟨hlt.1, hok.2.2.2 rfl⟩⟩
    · rw [hcap] at hlt
      rw [havail] at hok
      exact ⟨c, ⟨hok.1, hok.2.1, hidle, hok.2.2.1⟩, .inr hlt.1⟩
  · rintro ⟨c, ⟨hc, hallowed, hidle, hfree⟩, hreach⟩ hnone
    have hscans := (q3Scan_claimable p true 64).orElse_none hnone
    have hbusy : m.idle c = false := by
      rcases hreach with ⟨hlt, hsmt⟩ | hlt
      · exact claimFirst_range_none hscans.1 ((hcap 64 c).mpr ⟨hlt, hc⟩)
          ((havail c true).mpr ⟨hc, hallowed, hfree, fun _ => hsmt⟩)
      · exact claimFirst_range_none hscans.2 ((hcap 32 c).mpr ⟨hlt, hc⟩)
          ((havail c false).mpr ⟨hc, hallowed, hfree, fun h => by cases h⟩)
    rw [hbusy] at hidle
    cases hidle

/-- **Placement is work conserving** up to the caps of the Q3 scans: with
an available CPU, a task of Q1 or Q2 gets an idle CPU, and a task of Q3
gets one exactly when one of the CPUs its scans reach is available. -/
theorem mlfqSelectCpu_finds (m : Machine) (p : TaskStruct) (t : TaskCtx) (prevCpu : Int)
    (sync : Bool) (now : U64) (hmax : m.nrCpuIds ≤ mlfqMaxCpus) (hpick : m.PicksIdle)
    (hfinds : m.FindsIdle) (hcount : AccurateCount m)
    (hno : (if syncWanted t sync then syncHandoff m p else none) = none)
    (hidle : ∃ c, AvailableCpu m p c) :
    (t.queue ≠ .q3 → ∃ c, (mlfqSelectCpu m p (some t) prevCpu sync now).Claims m c) ∧
    (t.queue = .q3 → ((∃ c, (mlfqSelectCpu m p (some t) prevCpu sync now).Claims m c) ↔
      ∃ c, AvailableCpu m p c ∧ Q3Reaches m c)) := by
  obtain ⟨c, hc⟩ := hidle
  obtain ⟨prev, hfixed⟩ := fixedPrev_isSome hc.1 hc.2.1 prevCpu
  have hprev := fixedPrev_allowed hfixed
  have hqueue := selectTctx_queue t sync
  have hstate : (selectTctx t sync).wakeCpuState = {} := rfl
  rw [mlfqSelectCpu_of_no_handoff hno, selectPlace_of_fixed hfixed, hqueue]
  constructor
  · intro hq
    rw [if_neg hq]
    have hexit := selectQ12_finds hpick hfinds hcount hc (selectTctx t sync) hprev now
    rcases (selectQ12_claims hpick p hprev hstate now).2 with hclaims | hdeclines
    · exact hclaims
    · exact absurd hexit hdeclines.exit
  · intro hq
    rw [if_pos hq, ← selectQ3_finds_iff hmax p (selectTctx t sync) prev]
    constructor
    · rintro ⟨c, hclaims⟩
      exact hclaims.exit
    · intro hexit
      rcases (selectQ3_claims p hprev hstate).2 with hclaims | hdeclines
      · exact hclaims
      · exact absurd hexit hdeclines.exit

theorem findsIdle_of_lowest {m : Machine} (h : m.pickIdle = pickLowest m.nrCpuIds) :
    m.FindsIdle := by
  intro idle allowed hnone c hc hallowed
  rw [h] at hnone
  exact pickLowest_complete hnone hc hallowed

/-- 65 CPUs of which the last one is idle. -/
def lastIdle : Machine :=
  { idleMachine {} 65 (fun c => decide (c = 64)) with idleCount := 1 }

theorem lastIdle_count : AccurateCount lastIdle := by
  rw [AccurateCount]
  decide

theorem lastIdle_available : AvailableCpu lastIdle { pid := 1 } 64 := by
  rw [AvailableCpu]
  decide

/-- A task of Q2 gets the last CPU. -/
theorem mlfqSelectCpu_finds_last :
    (({} : TaskCtx).queue ≠ .q3 →
      ∃ c, (mlfqSelectCpu lastIdle { pid := 1 } (some {}) 0 false 1).Claims lastIdle c) ∧
    (({} : TaskCtx).queue = .q3 →
      ((∃ c, (mlfqSelectCpu lastIdle { pid := 1 } (some {}) 0 false 1).Claims lastIdle c) ↔
        ∃ c, AvailableCpu lastIdle { pid := 1 } c ∧ Q3Reaches lastIdle c)) :=
  mlfqSelectCpu_finds lastIdle { pid := 1 } {} 0 false 1 (by decide) (picksIdle_of_lowest rfl)
    (findsIdle_of_lowest rfl) lastIdle_count (by decide) ⟨64, lastIdle_available⟩

/-- **The cap of the Q3 scans.** A task of Q3 does not get it. -/
theorem mlfqSelectCpu_q3_capped :
    ¬ ∀ (m : Machine) (p : TaskStruct) (t : TaskCtx) (prevCpu : Int) (sync : Bool) (now : U64),
      m.nrCpuIds ≤ mlfqMaxCpus → m.PicksIdle → m.FindsIdle → AccurateCount m →
      (if syncWanted t sync then syncHandoff m p else none) = none →
      (∃ c, AvailableCpu m p c) →
      ∃ c, (mlfqSelectCpu m p (some t) prevCpu sync now).Claims m c := by
  intro h
  obtain ⟨c, hclaims⟩ := h lastIdle { pid := 1 } { queue := .q3 } 0 false 1 (by decide)
    (picksIdle_of_lowest rfl) (findsIdle_of_lowest rfl) lastIdle_count (by decide)
    ⟨64, lastIdle_available⟩
  exact absurd hclaims.exit (by decide)

end ScxMlfq
