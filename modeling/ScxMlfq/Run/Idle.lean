import ScxMlfq.Bpf.SelectCpu
import ScxMlfq.Bpf.Lifecycle
import ScxMlfq.Lib.Tally
import ScxMlfq.Lib.Trace

/-!
# Run — Idle

The idle counters over every sequence of idle transitions, and the
selection that reads them. `mlfq_update_idle` moves the counters by one
per transition and nothing else writes them, so they keep the distance
from the real numbers they started with. They start at zero, which is
right when no CPU is idle at attach.
-/

namespace ScxMlfq

open Trace

/-- The idle counters, and the CPUs that are really idle. -/
structure IdleState where
  idleCount : U32
  llcIdle : Nat → U32
  idle : Finset Nat

/-- The machine a callback finds: the counters are the system's, the
topology does not change. -/
def IdleState.seen (s : IdleState) (rod : Rodata) (nrCpuIds : Nat) (m : Machine) :
    Machine :=
  { m with rod := rod, nrCpuIds := nrCpuIds, idleCount := s.idleCount, llcIdle := s.llcIdle }

/-- The callbacks that reach the counters. A transition is the kernel's
call of `mlfq_update_idle`, at a real change of the CPU. -/
inductive IdleEvent where
  | transition (m : Machine) (cpu : Nat)
  | select (m : Machine) (p : TaskStruct) (tctx : Option TaskCtx) (prevCpu : Int)
      (sync : Bool) (now : U64)

/-- One callback. The per-CPU lookup of a possible CPU succeeds. -/
def stepIdle (rod : Rodata) (nrCpuIds : Nat) (s : IdleState) : IdleEvent → Option IdleState
  | .transition m cpu =>
      if cpu < nrCpuIds ∧ (m.cpuState cpu).isSome then
        let m' := mlfqUpdateIdle (s.seen rod nrCpuIds m) cpu (decide (cpu ∉ s.idle))
        some ⟨m'.idleCount, m'.llcIdle, Tally.toggle s.idle cpu⟩
      else none
  | .select m p tctx prevCpu sync now =>
      let r := mlfqSelectCpu (s.seen rod nrCpuIds m) p tctx prevCpu sync now
      some ⟨r.machine.idleCount, r.machine.llcIdle, s.idle⟩

/-- The state at attach: the counters as `mlfq_init` left them in `m`. -/
def IdleState.attached (m : Machine) (idle : Finset Nat) : IdleState :=
  ⟨m.idleCount, m.llcIdle, idle⟩

/-- The runs from a machine with the CPUs of `idle` idle at attach. -/
abbrev IdleRun (m : Machine) (idle : Finset Nat) :
    List (Entry IdleState IdleEvent) → IdleState → Prop :=
  Run (fun s e s' => stepIdle m.rod m.nrCpuIds s e = some s')
    (fun s => s = IdleState.attached m idle)

/-- The domains the steering may read. -/
def Rodata.Populated (rod : Rodata) (llc : Nat) : Prop :=
  llc < mlfqMaxLlcs ∧ llc < rod.nrLlcs

/-- **The counters tell the truth**: the idle CPUs are counted, in all
and per domain, and the saturation exit is taken only when no CPU is
idle. -/
structure CountsIdle (rod : Rodata) (nrCpuIds : Nat) (s : IdleState) : Prop where
  total : s.idleCount.toNat = s.idle.card
  llc : ∀ llc, rod.Populated llc →
    (s.llcIdle llc).toNat = (s.idle.filter fun cpu => rod.cpuLlc cpu = llc).card
  saturated : ∀ m p tctx prevCpu sync now,
    (mlfqSelectCpu (s.seen rod nrCpuIds m) p tctx prevCpu sync now).exit = .saturated →
      s.idle = ∅

/-! ## One transition -/

/-- `mlfq_update_idle` moves the total, and the counter of the CPU's
domain. -/
theorem mlfqUpdateIdle_counts {m : Machine} {cpu : Nat} (hstate : (m.cpuState cpu).isSome)
    (hcpu : cpu < mlfqMaxCpus) (idle : Bool) :
    (mlfqUpdateIdle m cpu idle).idleCount = Tally.count m.idleCount idle
      ∧ ∀ llc, m.rod.Populated llc → (mlfqUpdateIdle m cpu idle).llcIdle llc
          = if m.rod.cpuLlc cpu = llc then Tally.count (m.llcIdle llc) idle
            else m.llcIdle llc := by
  obtain ⟨c, hc⟩ := Option.isSome_iff_exists.mp hstate
  have hlookup : m.lookupCpuState cpu = some c := by
    rw [Machine.lookupCpuState, if_neg (by omega)]
    exact hc
  have hrange : (0 : Int) ≤ (cpu : Int) ∧ (cpu : Int) < mlfqMaxCpus := by omega
  rw [mlfqUpdateIdle, hlookup]
  simp only [hrange, and_self, if_true, Int.toNat_natCast]
  constructor
  · split <;> rfl
  · intro llc hllc
    by_cases heq : m.rod.cpuLlc cpu = llc
    · have hpop : llc < mlfqMaxLlcs ∧ llc < m.rod.nrLlcs := hllc
      rw [heq, if_pos hpop, if_pos rfl]
      exact Function.update_self ..
    · rw [if_neg heq]
      split
      · exact Function.update_of_ne (Ne.symm heq) ..
      · rfl

/-- The counters keep their distance from the numbers of idle CPUs they
had at attach. -/
structure Drifts (rod : Rodata) (nrCpuIds : Nat) (idle₀ : Finset Nat) (s : IdleState) :
    Prop where
  possible : s.idle ⊆ Finset.range nrCpuIds
  total : Tally.Follows idle₀.card s.idleCount s.idle
  llc : ∀ llc, rod.Populated llc →
    Tally.Follows (idle₀.filter fun cpu => rod.cpuLlc cpu = llc).card (s.llcIdle llc)
      (s.idle.filter fun cpu => rod.cpuLlc cpu = llc)

theorem Drifts.attached {m : Machine} {idle₀ : Finset Nat}
    (hm : m.idleCount = 0 ∧ m.llcIdle = fun _ => 0)
    (h₀ : idle₀ ⊆ Finset.range m.nrCpuIds) :
    Drifts m.rod m.nrCpuIds idle₀ (IdleState.attached m idle₀) := by
  refine ⟨h₀, ?_, fun llc _ => ?_⟩
  · rw [IdleState.attached, hm.1]
    exact Tally.Follows.zero idle₀
  · rw [IdleState.attached, hm.2]
    exact Tally.Follows.zero _

/-- **One callback keeps the distance.** -/
theorem Drifts.step {rod : Rodata} {n : Nat} {idle₀ : Finset Nat} {s s' : IdleState}
    {e : IdleEvent} (hn : n ≤ mlfqMaxCpus) (h : Drifts rod n idle₀ s)
    (hs : stepIdle rod n s e = some s') : Drifts rod n idle₀ s' := by
  cases e with
  | transition m cpu =>
      rw [stepIdle] at hs
      split at hs
      · rename_i hcpu
        cases hs
        obtain ⟨htotal, hllc⟩ := mlfqUpdateIdle_counts (m := s.seen rod n m) hcpu.2
          (by omega) (decide (cpu ∉ s.idle))
        refine ⟨Tally.toggle_subset h.possible (Finset.mem_range.mpr hcpu.1), ?_, ?_⟩
        · simp only [htotal]
          exact h.total.toggle cpu
        · intro llc hpop
          simp only [hllc llc hpop, Tally.filter_toggle]
          have hbefore := h.llc llc hpop
          by_cases heq : rod.cpuLlc cpu = llc
          · have hmem : cpu ∈ s.idle.filter (fun c => rod.cpuLlc c = llc) ↔ cpu ∈ s.idle := by
              simp [heq]
            have hnext := hbefore.toggle cpu
            simp only [hmem] at hnext
            simpa [IdleState.seen, heq] using hnext
          · simpa [IdleState.seen, heq] using hbefore
      · cases hs
  | select m p tctx prevCpu sync now =>
      cases hs
      obtain ⟨idle, hmachine⟩ :=
        mlfqSelectCpu_machine (s.seen rod n m) p tctx prevCpu sync now
      rw [hmachine]
      exact h

theorem drifts {m : Machine} {idle₀ : Finset Nat} (hn : m.nrCpuIds ≤ mlfqMaxCpus)
    (hm : m.idleCount = 0 ∧ m.llcIdle = fun _ => 0)
    (h₀ : idle₀ ⊆ Finset.range m.nrCpuIds) {tr : List (Entry IdleState IdleEvent)}
    {s : IdleState} (h : IdleRun m idle₀ tr s) : Drifts m.rod m.nrCpuIds idle₀ s := by
  refine h.invariant (I := fun _ s => Drifts m.rod m.nrCpuIds idle₀ s) ?_ ?_
  · rintro s rfl
    exact .attached hm h₀
  · intro tr s e s' h hs
    exact h.step hn hs

/-! ## When the counters are right -/

/-- A set of CPUs is smaller than the word. -/
theorem card_lt_of_subset {n : Nat} (hn : n ≤ mlfqMaxCpus) {s : Finset Nat}
    (hs : s ⊆ Finset.range n) : s.card < 2 ^ 32 := by
  have hcard := Finset.card_le_card hs
  rw [Finset.card_range] at hcard
  have hmax : mlfqMaxCpus < 2 ^ 32 := by decide
  omega

/-- With no CPU idle at attach the counters are right in every state
that follows. -/
theorem Drifts.countsIdle {rod : Rodata} {n : Nat} {s : IdleState} (hn : n ≤ mlfqMaxCpus)
    (h : Drifts rod n ∅ s) : CountsIdle rod n s := by
  have htotal : s.idleCount.toNat = s.idle.card :=
    (h.total.toNat_eq_iff (card_lt_of_subset hn h.possible) (by simp)).mpr rfl
  refine ⟨htotal, ?_, ?_⟩
  · intro llc hpop
    have hsub := (Finset.filter_subset (fun cpu => rod.cpuLlc cpu = llc) s.idle).trans
      h.possible
    exact ((h.llc llc hpop).toNat_eq_iff (card_lt_of_subset hn hsub) (by simp)).mpr
      (by simp)
  · intro m p tctx prevCpu sync now hsat
    have hzero : s.idleCount = 0 := (mlfqSelectCpu_saturated hsat).2
    rw [hzero] at htotal
    exact Finset.card_eq_zero.mp htotal.symm

/-- **The counters are right exactly when no CPU is idle at attach**: in
every state a run reaches, whatever the transitions were. -/
theorem countsIdle_iff {rod : Rodata} {nrCpuIds : Nat} {createDsq : U64 → Int} {m : Machine}
    (hinit : mlfqInit (Machine.zeroed rod nrCpuIds) createDsq = .ok m) {idle₀ : Finset Nat}
    (h₀ : idle₀ ⊆ Finset.range nrCpuIds) {tr : List (Entry IdleState IdleEvent)}
    {s : IdleState} (h : IdleRun m idle₀ tr s) :
    CountsIdle m.rod m.nrCpuIds s ↔ idle₀ = ∅ := by
  obtain ⟨rfl, -, hn⟩ := mlfqInit_ok hinit
  have hn' : (Machine.zeroed rod nrCpuIds).seed.nrCpuIds ≤ mlfqMaxCpus := hn
  have hdrift := drifts hn' ⟨rfl, rfl⟩ h₀ h
  constructor
  · intro hcounts
    have hzero := (hdrift.total.toNat_eq_iff (card_lt_of_subset hn' hdrift.possible)
      (card_lt_of_subset hn' h₀)).mp hcounts.total
    exact Finset.card_eq_zero.mp hzero
  · rintro rfl
    exact hdrift.countsIdle hn'

/-- CPU 0 of a machine becomes idle. -/
def firstIdle : List IdleEvent := [.transition (Machine.zeroed {} 2) 0]

/-- A machine of two busy CPUs: the count is right when one goes idle. -/
theorem countsIdle_iff_busyAtAttach :
    ∃ tr s, IdleRun (Machine.zeroed {} 2).seed ∅ tr s
      ∧ CountsIdle {} 2 s := by
  obtain ⟨tr, s, h, -⟩ : ∃ tr s, IdleRun (Machine.zeroed {} 2).seed ∅ tr s ∧ true = true :=
    exec_reaches (stepIdle {} 2) (by exact rfl) firstIdle (fun _ _ => true) (by decide)
  have hinit : mlfqInit (Machine.zeroed {} 2) (fun _ => 0)
      = .ok (Machine.zeroed {} 2).seed := rfl
  exact ⟨tr, s, h, (countsIdle_iff hinit (Finset.empty_subset _) h).mpr rfl⟩

/-- Both CPUs idle at attach: when one of them takes a task, the count
wraps instead of reading one. -/
theorem idleCount_wraps :
    ¬ ∀ (rod : Rodata) (nrCpuIds : Nat) (createDsq : U64 → Int) (m : Machine)
      (idle₀ : Finset Nat) (tr : _) (s : IdleState),
      mlfqInit (Machine.zeroed rod nrCpuIds) createDsq = .ok m →
      idle₀ ⊆ Finset.range nrCpuIds → IdleRun m idle₀ tr s →
        CountsIdle m.rod m.nrCpuIds s := by
  intro hclaim
  obtain ⟨tr, s, h, hs⟩ : ∃ tr s, IdleRun (Machine.zeroed {} 2).seed {0, 1} tr s
      ∧ decide (s.idleCount = 0xFFFFFFFF ∧ s.idle.card = 1) = true :=
    exec_reaches (stepIdle {} 2) (by exact rfl) firstIdle
      (fun _ s => decide (s.idleCount = 0xFFFFFFFF ∧ s.idle.card = 1)) (by decide)
  obtain ⟨hcount, hidle⟩ := of_decide_eq_true hs
  have htotal := (hclaim {} 2 (fun _ => 0) _ {0, 1} tr s rfl (by decide) h).total
  rw [hcount, hidle] at htotal
  exact absurd htotal (by decide)

end ScxMlfq
