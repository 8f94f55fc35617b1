import ScxMlfq.Bpf.SelectCpu
import ScxMlfq.Bpf.Insert

/-!
# Bpf — IdleClaim

What `mlfq_select_cpu` does to the idle marks. Every placement step
either claims nothing and leaves the marks alone, or claims one CPU and
clears its mark; the steps are composed by `Pick.orElse`, so the whole
selection does the same. What a step claims is a parameter of its
specification: idleness and affinity here, primary cores further down.
-/

namespace ScxMlfq

/-! ## The specification of a step -/

/-- A step that starts on `m` and claims only CPUs with `ok`. -/
inductive Pick.Spec (m : Machine) (ok : Nat → Prop) : Pick → Prop
  | declined : Spec m ok (none, m)
  | claimed (c : Nat) (h : ok c) : Spec m ok (some c, (m.testAndClearCpuIdle c).2)

namespace Pick

variable {m : Machine} {ok ok' : Nat → Prop} {r : Pick} {next : Machine → Pick}

theorem Spec.mono (h : Spec m ok r) (himp : ∀ c, ok c → ok' c) : Spec m ok' r := by
  cases h with
  | declined => exact .declined
  | claimed c hc => exact .claimed c (himp c hc)

/-- The next step runs only when this one claims nothing. -/
theorem Spec.orElse_of (h : Spec m ok r) (k : r.1 = none → Spec m ok (next m)) :
    Spec m ok (r.orElse next) := by
  cases h with
  | declined => exact k rfl
  | claimed c hc => exact .claimed c hc

theorem Spec.orElse (h : Spec m ok r) (k : Spec m ok (next m)) : Spec m ok (r.orElse next) :=
  h.orElse_of fun _ => k

/-- A step that claims nothing leaves the machine to the next one. -/
theorem Spec.machine (h : Spec m ok r) (hnone : r.1 = none) : r.2 = m := by
  cases h with
  | declined => rfl
  | claimed c hc => cases hnone

theorem Spec.holds (h : Spec m ok r) {c : Nat} (hsome : r.1 = some c) : ok c := by
  cases h with
  | declined => cases hsome
  | claimed c' hc =>
      obtain rfl := Option.some.inj hsome
      exact hc

/-- A chain claims nothing only when no step does. -/
theorem Spec.orElse_none (h : Spec m ok r) (hnone : (r.orElse next).1 = none) :
    r.1 = none ∧ (next m).1 = none := by
  cases h with
  | declined => exact ⟨rfl, hnone⟩
  | claimed c hc => cases hnone

/-- What a chain claims comes from the first step that claims. -/
theorem Spec.orElse_some (h : Spec m ok r) {c : Nat} (hsome : (r.orElse next).1 = some c) :
    r.1 = some c ∨ r.1 = none ∧ (next m).1 = some c := by
  cases h with
  | declined => exact .inr ⟨rfl, hsome⟩
  | claimed c' hc => exact .inl hsome

end Pick

theorem claimFirst_spec (m : Machine) (cands : List Nat) (ok : Nat → Bool) :
    Pick.Spec m (fun c => c ∈ cands ∧ ok c = true ∧ m.idle c = true)
      (claimFirst m cands ok) := by
  rw [claimFirst]
  split
  · exact .declined
  · rename_i c hfind
    have hc := List.find?_some hfind
    simp only [Bool.and_eq_true] at hc
    exact .claimed c ⟨List.mem_of_find?_eq_some hfind, hc⟩

/-- A scan that claims nothing has seen no idle candidate. -/
theorem claimFirst_none {m : Machine} {cands : List Nat} {ok : Nat → Bool}
    (h : (claimFirst m cands ok).1 = none) {c : Nat} (hmem : c ∈ cands) (hok : ok c = true) :
    m.idle c = false := by
  rw [claimFirst] at h
  split at h
  · rename_i hfind
    have hc := List.find?_eq_none.mp hfind c hmem
    simp only [hok, Bool.true_and, Bool.not_eq_true] at hc
    exact hc
  · cases h

theorem pickIdleCpu_spec (m : Machine) (allowed : Nat → Bool) (core : Bool) :
    Pick.Spec m (fun c => m.pickIdle m.idle allowed core = some c)
      (m.pickIdleCpu allowed core) := by
  rw [Machine.pickIdleCpu]
  split
  · exact .declined
  · rename_i c hpick
    exact .claimed c hpick

theorem mlfqPickIdleInBitmap_spec (m : Machine) (bm : Option (Nat → Bool)) (p : TaskStruct)
    (primary : Bool) :
    Pick.Spec m (fun c => m.idle c = true ∧ p.cpus c = true ∧
        (primary = true → mlfqIsPrimary m c = true))
      (mlfqPickIdleInBitmap m bm p primary) := by
  cases bm with
  | none => exact .declined
  | some bm =>
      rw [mlfqPickIdleInBitmap]
      refine (claimFirst_spec m (List.range mlfqMaxCpus) _).mono ?_
      rintro c ⟨-, hok, hidle⟩
      simp only [Bool.and_eq_true, Bool.or_eq_true, Bool.not_eq_true'] at hok
      refine ⟨hidle, hok.1.2, fun hp => ?_⟩
      rcases hok.2 with hno | hprimary
      · rw [hp] at hno
        cases hno
      · exact hprimary

/-! ## The steps -/

/-- `scx_bpf_pick_idle_cpu` returns an idle CPU of the allowed set. -/
def Machine.PicksIdle (m : Machine) : Prop :=
  ∀ idle allowed core cpu, m.pickIdle idle allowed core = some cpu →
    allowed cpu = true ∧ idle cpu = true

/-- A claim of the selection: an idle CPU of the task. -/
def Claimable (m : Machine) (p : TaskStruct) (c : Nat) : Prop :=
  m.idle c = true ∧ p.cpus c = true

section

variable {m : Machine} (hpick : m.PicksIdle) (p : TaskStruct) (interactive : Bool)

include hpick in
theorem pickIdleCpu_claimable (core : Bool) :
    Pick.Spec m (Claimable m p) (m.pickIdleCpu p.cpus core) :=
  (pickIdleCpu_spec m p.cpus core).mono fun c hc =>
    ⟨(hpick _ _ _ c hc).2, (hpick _ _ _ c hc).1⟩

theorem mlfqPickIdleInBitmap_claimable (bm : Option (Nat → Bool)) (primary : Bool) :
    Pick.Spec m (Claimable m p) (mlfqPickIdleInBitmap m bm p primary) :=
  (mlfqPickIdleInBitmap_spec m bm p primary).mono fun _ hc => ⟨hc.1, hc.2.1⟩

theorem q3Scan_claimable (strict : Bool) (cap : Nat) :
    Pick.Spec m (Claimable m p) (q3Scan m p strict cap) := by
  refine (claimFirst_spec m _ _).mono ?_
  rintro c ⟨-, hok, hidle⟩
  simp only [isCpuAvailableForQ3, Bool.and_eq_true] at hok
  exact ⟨hidle, hok.1.1.2⟩

theorem stepPrev_claimable {prevCpu : Nat} (hprev : p.cpus prevCpu = true) :
    Pick.Spec m (Claimable m p) (stepPrev m interactive prevCpu) := by
  refine (claimFirst_spec m _ _).mono ?_
  rintro c ⟨hmem, -, hidle⟩
  rw [List.mem_singleton] at hmem
  rw [hmem]
  exact ⟨hmem ▸ hidle, hprev⟩

theorem stepSibling_claimable (prevCpu : Nat) :
    Pick.Spec m (Claimable m p) (stepSibling m p interactive prevCpu) := by
  rw [stepSibling]
  split
  · refine (claimFirst_spec m _ _).mono ?_
    rintro c ⟨-, hok, hidle⟩
    simp only [Bool.and_eq_true] at hok
    exact ⟨hidle, hok.1.2⟩
  · exact .declined

theorem stepLargest_claimable :
    Pick.Spec m (Claimable m p) (stepLargest m p interactive) := by
  rw [stepLargest]
  split
  · exact mlfqPickIdleInBitmap_claimable p _ _
  · exact .declined

include hpick in
theorem stepWakerLlc_claimable :
    Pick.Spec m (Claimable m p) (stepWakerLlc m p interactive) := by
  rw [stepWakerLlc]
  split
  · split
    · exact (pickIdleCpu_claimable hpick p _).orElse (pickIdleCpu_claimable hpick p _)
    · exact mlfqPickIdleInBitmap_claimable p _ _
  · exact .declined

/-- The steering loop, attempt by attempt, for any bound on its walks. -/
theorem steerFrom_spec {ok : Nat → Prop}
    (hwalk : ∀ llc, Pick.Spec m ok (mlfqPickIdleInBitmap m (m.llcBitmaps llc) p interactive))
    (fuel : Nat) (visited : Nat → Bool) :
    Pick.Spec m ok (steerFrom m p interactive fuel visited) := by
  induction fuel generalizing visited with
  | zero => exact .declined
  | succ fuel ih =>
      rw [steerFrom]
      simp only
      split
      · exact .declined
      · split
        · exact hwalk _
        · exact ih _

theorem stepSteer_spec {ok : Nat → Prop}
    (hwalk : ∀ llc, Pick.Spec m ok (mlfqPickIdleInBitmap m (m.llcBitmaps llc) p interactive)) :
    Pick.Spec m ok (stepSteer m p interactive) := by
  rw [stepSteer]
  split
  · exact steerFrom_spec p interactive hwalk _ _
  · exact .declined

include hpick in
theorem stepGlobal_claimable :
    Pick.Spec m (Claimable m p) (stepGlobal m p interactive) := by
  rw [stepGlobal]
  split
  · refine Pick.Spec.orElse ?_ (pickIdleCpu_claimable hpick p false)
    split
    · exact pickIdleCpu_claimable hpick p true
    · exact mlfqPickIdleInBitmap_claimable p _ _
  · exact pickIdleCpu_claimable hpick p false

include hpick in
theorem selectScan_claimable :
    Pick.Spec m (Claimable m p) (selectScan m p interactive) :=
  (stepLargest_claimable p interactive).orElse <|
    (stepWakerLlc_claimable hpick p interactive).orElse <|
      (stepSteer_spec p interactive fun _ => mlfqPickIdleInBitmap_claimable p _ _).orElse <|
        stepGlobal_claimable hpick p interactive

end

/-! ## The selection -/

/-- The selection claimed the CPU it returns. -/
structure SelectResult.Claims (m : Machine) (r : SelectResult) (c : Nat) : Prop where
  exit : r.exit = .claimed
  cpu : r.cpu = c
  idle : m.idle c = true
  marks : r.machine.idle = Function.update m.idle c false
  insert : r.insert = none
  state : ∃ t, r.tctx = some t ∧ t.wakeCpuState = { valid := true, idle := true }

/-- The selection claimed nothing. -/
structure SelectResult.Declines (m : Machine) (r : SelectResult) : Prop where
  exit : r.exit ≠ .claimed
  marks : r.machine.idle = m.idle
  state : r.insert = none → ∃ t, r.tctx = some t ∧ t.wakeCpuState = {}

/-- The previous CPU, fixed up to the allowed set. -/
def fixedPrev (m : Machine) (p : TaskStruct) (prevCpu : Int) : Option Nat :=
  if cpumaskTestCpu prevCpu p then some prevCpu.toNat else (List.range m.nrCpuIds).find? p.cpus

theorem fixedPrev_allowed {m : Machine} {p : TaskStruct} {prevCpu : Int} {prev : Nat}
    (h : fixedPrev m p prevCpu = some prev) : p.cpus prev = true := by
  rw [fixedPrev] at h
  split at h
  · rename_i hmask
    obtain rfl := Option.some.inj h
    rw [cpumaskTestCpu] at hmask
    split at hmask
    · cases hmask
    · exact hmask
  · exact List.find?_some h

/-- A task with a possible CPU in its allowed set has a fixed-up one. -/
theorem fixedPrev_isSome {m : Machine} {p : TaskStruct} {c : Nat} (hc : c < m.nrCpuIds)
    (hmask : p.cpus c = true) (prevCpu : Int) : ∃ prev, fixedPrev m p prevCpu = some prev := by
  rw [fixedPrev]
  split
  · exact ⟨_, rfl⟩
  · rw [← Option.isSome_iff_exists, List.find?_isSome]
    exact ⟨c, List.mem_range.mpr hc, hmask⟩

theorem selectPlace_of_fixed {m : Machine} {p : TaskStruct} {prevCpu : Int} {prev : Nat}
    (h : fixedPrev m p prevCpu = some prev) (t : TaskCtx) (now : U64) :
    selectPlace m p t prevCpu now
      = if t.queue = .q3 then selectQ3 m p t prev else selectQ12 m p t prev now := by
  rw [fixedPrev] at h
  rw [selectPlace, h]

/-- A step whose claim becomes the result. -/
theorem selectDirect_claims {m : Machine} {p : TaskStruct} {r : Pick}
    (h : Pick.Spec m (Claimable m p) r) {c : Nat} (hsome : r.1 = some c) (t : TaskCtx) :
    (selectDirect t c r.2).Claims m c := by
  cases h with
  | declined => cases hsome
  | claimed c' hc =>
      obtain rfl := Option.some.inj hsome
      exact ⟨rfl, rfl, hc.1, rfl, rfl, _, rfl, rfl⟩

/-- The return of the previous CPU after a chain that claimed nothing. -/
theorem declines_of_none {m : Machine} {p : TaskStruct} {r : Pick}
    (h : Pick.Spec m (Claimable m p) r)
    (hnone : r.1 = none) {t : TaskCtx} (hstate : t.wakeCpuState = {}) (exit : SelectExit)
    (cpu : Int) (hexit : exit ≠ .claimed) :
    SelectResult.Declines m { exit := exit, cpu := cpu, tctx := some t, machine := r.2 } := by
  refine ⟨hexit, ?_, fun _ => ⟨t, rfl, hstate⟩⟩
  rw [h.machine hnone]

theorem selectQ3_claims {m : Machine} (p : TaskStruct) {t : TaskCtx} {prev : Nat}
    (hprev : p.cpus prev = true) (hstate : t.wakeCpuState = {}) :
    cpumaskTestCpu (selectQ3 m p t prev).cpu p = true ∧
      ((∃ c, (selectQ3 m p t prev).Claims m c) ∨ (selectQ3 m p t prev).Declines m) := by
  have hspec : Pick.Spec m (Claimable m p)
      (Pick.orElse (q3Scan m p true 64) fun m => q3Scan m p false 32) :=
    (q3Scan_claimable p true 64).orElse (q3Scan_claimable p false 32)
  rw [selectQ3]
  split
  · rename_i c hsome
    refine ⟨?_, .inl ⟨c, selectDirect_claims hspec hsome t⟩⟩
    exact (cpumaskTestCpu_natCast c p).trans (hspec.holds hsome).2
  · rename_i hnone
    refine ⟨?_, .inr (declines_of_none hspec hnone hstate _ _ (by decide))⟩
    exact (cpumaskTestCpu_natCast prev p).trans hprev

theorem selectQ12_claims {m : Machine} (hpick : m.PicksIdle) (p : TaskStruct) {t : TaskCtx}
    {prev : Nat} (hprev : p.cpus prev = true) (hstate : t.wakeCpuState = {}) (now : U64) :
    cpumaskTestCpu (selectQ12 m p t prev now).cpu p = true ∧
      ((∃ c, (selectQ12 m p t prev now).Claims m c) ∨
        (selectQ12 m p t prev now).Declines m) := by
  have hself : cpumaskTestCpu (prev : Int) p = true :=
    (cpumaskTestCpu_natCast prev p).trans hprev
  have hfast : Pick.Spec m (Claimable m p)
      (Pick.orElse (stepPrev m (mlfqInteractiveOnWakeup m p t now) prev) fun m' =>
        stepSibling m' p (mlfqInteractiveOnWakeup m p t now) prev) :=
    (stepPrev_claimable p _ hprev).orElse (stepSibling_claimable p _ prev)
  rw [selectQ12]
  split
  · rename_i c hsome
    refine ⟨?_, .inl ⟨c, selectDirect_claims hfast hsome t⟩⟩
    exact (cpumaskTestCpu_natCast c p).trans (hfast.holds hsome).2
  · rename_i hnone
    rw [hfast.machine hnone]
    split
    · have hstop : Pick.Spec m (Claimable m p) (none, m) := .declined
      exact ⟨hself, .inr (declines_of_none hstop rfl hstate _ _ (by decide))⟩
    · have hscan := selectScan_claimable hpick p (mlfqInteractiveOnWakeup m p t now)
      simp only
      split
      · rename_i c hsome
        refine ⟨?_, .inl ⟨c, selectDirect_claims hscan hsome t⟩⟩
        exact (cpumaskTestCpu_natCast c p).trans (hscan.holds hsome).2
      · rename_i hscan_none
        exact ⟨hself, .inr (declines_of_none hscan hscan_none hstate _ _ (by decide))⟩

/-- **An idle claim is neither lost nor duplicated.** A selection for a
task with a possible CPU clears the mark of the idle CPU it returns for
the fast path, and no other mark; when it claims nothing it clears no
mark and leaves no fast-path state. The returned CPU is allowed. -/
theorem mlfqSelectCpu_claims_once (m : Machine) (p : TaskStruct) (t : TaskCtx) (prevCpu : Int)
    (sync : Bool) (now : U64) (hpick : m.PicksIdle)
    (hmask : ∃ c, c < m.nrCpuIds ∧ p.cpus c = true) :
    cpumaskTestCpu (mlfqSelectCpu m p (some t) prevCpu sync now).cpu p = true ∧
      ((∃ c, (mlfqSelectCpu m p (some t) prevCpu sync now).Claims m c) ∨
        (mlfqSelectCpu m p (some t) prevCpu sync now).Declines m) := by
  rw [mlfqSelectCpu]
  split
  · rename_i cpu hsync
    have hallowed : cpumaskTestCpu cpu p = true := by
      split at hsync
      · rw [syncHandoff] at hsync
        split at hsync
        · cases hsync
        · split at hsync
          · rename_i hcur
            obtain rfl := Option.some.inj hsync
            exact hcur.2.2.2
          · cases hsync
      · cases hsync
    exact ⟨hallowed, .inr ⟨(fun h => by cases h), rfl, fun h => by cases h⟩⟩
  · obtain ⟨c, hc, hallowed⟩ := hmask
    obtain ⟨prev, hprev⟩ := fixedPrev_isSome hc hallowed prevCpu
    rw [selectPlace_of_fixed hprev]
    split
    · exact selectQ3_claims p (fixedPrev_allowed hprev) rfl
    · exact selectQ12_claims hpick p (fixedPrev_allowed hprev) rfl now

/-! ### A machine without SMT -/

/-- `scx_bpf_pick_idle_cpu` on `n` CPUs that share no core. -/
def pickLowest (n : Nat) (idle allowed : Nat → Bool) (_core : Bool) : Option Nat :=
  (List.range n).find? fun c => allowed c && idle c

theorem pickLowest_sound {n : Nat} {idle allowed : Nat → Bool} {core : Bool} {c : Nat}
    (h : pickLowest n idle allowed core = some c) : allowed c = true ∧ idle c = true := by
  have hc := List.find?_some h
  simp only [Bool.and_eq_true] at hc
  exact hc

theorem pickLowest_complete {n : Nat} {idle allowed : Nat → Bool} {core : Bool}
    (h : pickLowest n idle allowed core = none) {c : Nat} (hc : c < n)
    (hallowed : allowed c = true) : idle c = false := by
  have hnot := List.find?_eq_none.mp h c (List.mem_range.mpr hc)
  simp only [hallowed, Bool.true_and, Bool.not_eq_true] at hnot
  exact hnot

/-- `n` CPUs with the idle marks `idle`, in one domain, seen from CPU 0. -/
def idleMachine (rod : Rodata) (n : Nat) (idle : Nat → Bool) : Machine :=
  { (Machine.zeroed rod n).seed with pickIdle := pickLowest n, idle := idle }

theorem picksIdle_of_lowest {m : Machine} {n : Nat} (h : m.pickIdle = pickLowest n) :
    m.PicksIdle := by
  intro idle allowed core c hpick
  rw [h] at hpick
  exact pickLowest_sound hpick

/-- On two CPUs: the second is claimed when it is idle, and nothing is
when none is. -/
theorem mlfqSelectCpu_claims_once_idle :
    let m (idle : Nat → Bool) := idleMachine { nrLlcs := 1, cpuLlc := fun _ => 0 } 2 idle
    (mlfqSelectCpu (m fun c => decide (c = 1)) { pid := 1 } (some {}) 0 false 1).Claims
        (m fun c => decide (c = 1)) 1
      ∧ (mlfqSelectCpu (m fun _ => false) { pid := 1 } (some {}) 0 false 1).Declines
        (m fun _ => false) := by
  intro m
  constructor
  · rcases (mlfqSelectCpu_claims_once (m fun c => decide (c = 1)) { pid := 1 } {} 0 false 1
      (picksIdle_of_lowest rfl) ⟨0, by decide, by decide⟩).2 with ⟨c, hclaims⟩ | hdeclines
    · obtain rfl : c = 1 := of_decide_eq_true hclaims.idle
      exact hclaims
    · exact absurd (by decide +kernel) hdeclines.exit
  · rcases (mlfqSelectCpu_claims_once (m fun _ => false) { pid := 1 } {} 0 false 1
      (picksIdle_of_lowest rfl) ⟨0, by decide, by decide⟩).2 with ⟨c, hclaims⟩ | hdeclines
    · have hnone : false = true := hclaims.idle
      cases hnone
    · exact hdeclines

end ScxMlfq
