import ScxMlfq.Bpf.Destination
import ScxMlfq.Bpf.Redirect
import ScxMlfq.Bpf.Rtdl
import ScxMlfq.Lib.History

/-!
# Run — Takeover

The realtime hook on all CPUs at once, their switches in any order. The
occupancy mark of a CPU is the class of the task last switched in there,
the takeovers are the changes to realtime, and the evacuations of a CPU
are more than the drain interval apart however often it is taken over.
-/

namespace ScxMlfq

open Trace

abbrev RtdlEntry := Entry RtdlMap Switch

/-- The runs of the hook from the zeroed map. -/
abbrev TakeoverRun (k : RtdlKernel) : List RtdlEntry → RtdlMap → Prop :=
  Run (fun s e s' => (mlfqSchedSwitch k s e).map = s') (fun s => s = {})

/-! ## The history -/

/-- The class of the task last switched in on a CPU. -/
def lastRealtime (cpu : Nat) : List RtdlEntry → Bool
  | [] => false
  | x :: tr => if x.event.cpu = cpu then x.event.realtime else lastRealtime cpu tr

/-- The switches to a realtime task from another class. -/
def takenOver : List RtdlEntry → Nat
  | [] => 0
  | x :: tr =>
      takenOver tr + if x.event.cpu < mlfqMaxCpus ∧ x.event.realtime = true
        ∧ lastRealtime x.event.cpu tr = false then 1 else 0

/-- The reenqueues a switch asked for, where its drain ran. -/
def drainedBy (k : RtdlKernel) (x : RtdlEntry) : Option (List Dsq) :=
  (mlfqSchedSwitch k x.pre x.event).drained

/-- The time of a pass on a CPU. -/
def passOn (k : RtdlKernel) (cpu : Nat) (x : RtdlEntry) : Option Nat :=
  if x.event.cpu = cpu ∧ (drainedBy k x).isSome then some x.event.now.toNat else none

/-- The times of the run are positive and leave room for the interval on
the first half of the circle. -/
def TimesFit (k : RtdlKernel) (tr : List RtdlEntry) : Prop :=
  ∀ x ∈ tr, 0 < x.event.now.toNat
    ∧ 2 * (x.event.now.toNat + k.drainIntervalNs.toNat) < 2 ^ 64

/-! ## What one switch does -/

/-- **The switches**: off the map, to another class, or to a realtime
task with its drain. -/
inductive SwitchSteps (k : RtdlKernel) (s : RtdlMap) (e : Switch) : SwitchResult → Prop where
  | outside (cpu : mlfqMaxCpus ≤ e.cpu) : SwitchSteps k s e { map := s }
  | clears (cpu : e.cpu < mlfqMaxCpus) (other : e.realtime = false) :
      SwitchSteps k s e
        { map := { s with
            stor := Function.update s.stor e.cpu { s.stor e.cpu with occupied := false } } }
  | marks (cpu : e.cpu < mlfqMaxCpus) (realtime : e.realtime = true)
      (closed : ¬ (Gate.Opens k.drainIntervalNs (s.stor e.cpu).lastDrainAt e.now
        ∧ (∃ d ∈ ownedDsqs e.cpu, e.counts.gate d ≠ 0)
        ∧ (k.localFromAnywhere || k.genericReenq) = true)) :
      SwitchSteps k s e
        { map :=
            { stor := Function.update s.stor e.cpu { s.stor e.cpu with occupied := true }
              takeovers := if (s.stor e.cpu).occupied then s.takeovers else s.takeovers + 1
              evacuations := s.evacuations } }
  | drains (cpu : e.cpu < mlfqMaxCpus) (realtime : e.realtime = true)
      (opens : Gate.Opens k.drainIntervalNs (s.stor e.cpu).lastDrainAt e.now)
      (queued : ∃ d ∈ ownedDsqs e.cpu, e.counts.gate d ≠ 0)
      (kernel : (k.localFromAnywhere || k.genericReenq) = true) :
      SwitchSteps k s e
        { map :=
            { stor := Function.update s.stor e.cpu { occupied := true, lastDrainAt := e.now }
              takeovers := if (s.stor e.cpu).occupied then s.takeovers else s.takeovers + 1
              evacuations := s.evacuations + 1 }
          drained := some (drainReenqs k e.cpu e.counts) }

theorem mlfqSchedSwitch_steps (k : RtdlKernel) (s : RtdlMap) (e : Switch) :
    SwitchSteps k s e (mlfqSchedSwitch k s e) := by
  rw [mlfqSchedSwitch, mlfqLookupRtdlState]
  by_cases hcpu : e.cpu < mlfqMaxCpus
  · rw [if_pos hcpu]
    cases hclass : e.realtime with
    | false => exact .clears hcpu hclass
    | true =>
        simp only [if_true]
        rcases mlfqRtdlDrain_cases k e.cpu e.now e.counts { s.stor e.cpu with occupied := true }
          with ⟨hopen, hqueued, hkernel, heq⟩ | ⟨hclosed, heq⟩
        · rw [heq]
          exact .drains hcpu hclass hopen hqueued hkernel
        · rw [heq]
          exact .marks hcpu hclass hclosed
  · rw [if_neg hcpu]
    exact .outside (Nat.not_lt.mp hcpu)

/-! ## The invariant -/

/-- The map against the history. -/
structure Observes (k : RtdlKernel) (tr : List RtdlEntry) (s : RtdlMap) : Prop where
  occupied : ∀ cpu < mlfqMaxCpus, (s.stor cpu).occupied = lastRealtime cpu tr
  takeovers : s.takeovers = BitVec.ofNat 64 (takenOver tr)
  evacuations : s.evacuations = BitVec.ofNat 64 (yields (drainedBy k) tr).length
  passed : TimesFit k tr → ∀ cpu, Gate.Passed k.drainIntervalNs.toNat (yields (passOn k cpu) tr)
    (s.stor cpu).lastDrainAt.toNat
  stamps : TimesFit k tr → ∀ cpu, (s.stor cpu).lastDrainAt = 0
    ∨ 2 * ((s.stor cpu).lastDrainAt.toNat + k.drainIntervalNs.toNat) < 2 ^ 64

theorem Observes.initial (k : RtdlKernel) : Observes k [] {} where
  occupied _ _ := rfl
  takeovers := rfl
  evacuations := rfl
  passed _ _ := Gate.Passed.never _
  stamps _ _ := .inl rfl

theorem ofNat_succ_ite (b : Bool) (n : Nat) :
    (if b then BitVec.ofNat 64 n else BitVec.ofNat 64 n + 1)
      = BitVec.ofNat 64 (n + if b = false then 1 else 0) := by
  cases b with
  | true => rfl
  | false =>
      rw [if_neg Bool.false_ne_true, if_pos rfl]
      exact (BitVec.ofNat_add ..).symm

/-- **One switch keeps the map an observation of the history.** -/
theorem Observes.step {k : RtdlKernel} {tr : List RtdlEntry} {s : RtdlMap} (h : Observes k tr s)
    (e : Switch) :
    Observes k (⟨s, e, (mlfqSchedSwitch k s e).map⟩ :: tr) (mlfqSchedSwitch k s e).map := by
  have hsteps := mlfqSchedSwitch_steps k s e
  have hdrained : drainedBy k ⟨s, e, (mlfqSchedSwitch k s e).map⟩
      = (mlfqSchedSwitch k s e).drained := rfl
  have htimes : TimesFit k (⟨s, e, (mlfqSchedSwitch k s e).map⟩ :: tr) → TimesFit k tr :=
    fun hall x hx => hall x (List.mem_cons_of_mem _ hx)
  have hnow : TimesFit k (⟨s, e, (mlfqSchedSwitch k s e).map⟩ :: tr) → 0 < e.now.toNat
      ∧ 2 * (e.now.toNat + k.drainIntervalNs.toNat) < 2 ^ 64 :=
    fun hall => hall _ List.mem_cons_self
  generalize mlfqSchedSwitch k s e = r at hsteps hdrained htimes hnow ⊢
  have hpassOn : ∀ cpu, passOn k cpu ⟨s, e, r.map⟩
      = if e.cpu = cpu ∧ r.drained.isSome then some e.now.toNat else none := by
    intro cpu
    rw [passOn, hdrained]
  -- a step that does not drain yields no pass
  have hquiet : r.drained = none → ∀ cpu, yields (passOn k cpu) (⟨s, e, r.map⟩ :: tr)
      = yields (passOn k cpu) tr := by
    intro hnone cpu
    rw [yields_cons, hpassOn, hnone, if_neg fun hsome => absurd hsome.2 Bool.false_ne_true,
      Option.toList_none, List.append_nil]
  have hcount : yields (drainedBy k) (⟨s, e, r.map⟩ :: tr)
      = yields (drainedBy k) tr ++ r.drained.toList := by
    rw [yields_cons, hdrained]
  -- the occupancy behind a switch on the map
  have hmark : ∀ (b : Bool) (rt : RtdlState), rt.occupied = b → e.realtime = b →
      ∀ cpu < mlfqMaxCpus, (Function.update s.stor e.cpu rt cpu).occupied
        = lastRealtime cpu (⟨s, e, r.map⟩ :: tr) := by
    intro b rt hrt hclass cpu hcpu
    rw [lastRealtime]
    by_cases hsame : e.cpu = cpu
    · rw [if_pos hsame, ← hsame, Function.update_self, hrt, hclass]
    · rw [if_neg hsame, Function.update_of_ne (Ne.symm hsame)]
      exact h.occupied cpu hcpu
  have htaken : e.cpu < mlfqMaxCpus → e.realtime = true →
      (if (s.stor e.cpu).occupied then s.takeovers else s.takeovers + 1)
        = BitVec.ofNat 64 (takenOver (⟨s, e, r.map⟩ :: tr)) := by
    intro hcpu hclass
    rw [h.takeovers, h.occupied e.cpu hcpu, ofNat_succ_ite, takenOver]
    simp only [hcpu, hclass, true_and]
  -- where no pass ran, the gates are those of before
  have hgates : r.drained = none →
      (∀ cpu, (r.map.stor cpu).lastDrainAt = (s.stor cpu).lastDrainAt) →
      TimesFit k (⟨s, e, r.map⟩ :: tr) → ∀ cpu,
      Gate.Passed k.drainIntervalNs.toNat (yields (passOn k cpu) (⟨s, e, r.map⟩ :: tr))
        (r.map.stor cpu).lastDrainAt.toNat
      ∧ ((r.map.stor cpu).lastDrainAt = 0
        ∨ 2 * ((r.map.stor cpu).lastDrainAt.toNat + k.drainIntervalNs.toNat) < 2 ^ 64) := by
    intro hnone hstamps hall cpu
    rw [hquiet hnone cpu, hstamps cpu]
    exact ⟨h.passed (htimes hall) cpu, h.stamps (htimes hall) cpu⟩
  have hkept : ∀ b cpu, (Function.update s.stor e.cpu
      { s.stor e.cpu with occupied := b } cpu).lastDrainAt = (s.stor cpu).lastDrainAt := by
    intro b cpu
    by_cases hsame : cpu = e.cpu
    · rw [hsame, Function.update_self]
    · rw [Function.update_of_ne hsame]
  cases hsteps with
  | outside cpu =>
      have hsame := hgates rfl fun _ => rfl
      refine ⟨fun c hc => ?_, ?_, ?_, fun hall c => (hsame hall c).1,
        fun hall c => (hsame hall c).2⟩
      · rw [lastRealtime, if_neg (by show e.cpu ≠ c; omega)]
        exact h.occupied c hc
      · rw [takenOver, if_neg (fun hlt => absurd hlt.1 (Nat.not_lt.mpr cpu)), Nat.add_zero]
        exact h.takeovers
      · rw [hcount]
        simpa using h.evacuations
  | clears cpu other =>
      have hsame := hgates rfl (hkept false)
      refine ⟨hmark false _ rfl other, ?_, ?_, fun hall c => (hsame hall c).1,
        fun hall c => (hsame hall c).2⟩
      · have hclass : ¬(e.cpu < mlfqMaxCpus ∧ e.realtime = true ∧ lastRealtime e.cpu tr = false) :=
          fun hclass => Bool.false_ne_true (other.symm.trans hclass.2.1)
        rw [takenOver, if_neg hclass, Nat.add_zero]
        exact h.takeovers
      · rw [hcount]
        simpa using h.evacuations
  | marks cpu realtime closed =>
      have hsame := hgates rfl (hkept true)
      refine ⟨hmark true _ rfl realtime, htaken cpu realtime, ?_, fun hall c => (hsame hall c).1,
        fun hall c => (hsame hall c).2⟩
      rw [hcount]
      simpa using h.evacuations
  | drains cpu realtime opens queued kernel =>
      refine ⟨hmark true _ rfl realtime, htaken cpu realtime, ?_, fun hall c => ?_,
        fun hall c => ?_⟩
      · rw [hcount, List.length_append, BitVec.ofNat_add, ← h.evacuations]
        rfl
      · have hpassed := h.passed (htimes hall) c
        have hpos := hnow hall
        by_cases hsame : c = e.cpu
        · subst hsame
          rw [yields_cons, hpassOn, if_pos ⟨rfl, rfl⟩]
          simp only [Function.update_self]
          refine hpassed.pass ?_ hpos.1
          rcases h.stamps (htimes hall) e.cpu with hzero | hfit
          · exact .inl (congrArg BitVec.toNat hzero)
          · rcases (Gate.opens_iff hfit (by omega)).mp opens with hzero | hlt
            · exact .inl (congrArg BitVec.toNat hzero)
            · exact .inr hlt
        · rw [yields_cons, hpassOn, if_neg fun heq => hsame heq.1.symm]
          simpa only [Function.update_of_ne hsame, Option.toList_none, List.append_nil]
            using hpassed
      · by_cases hsame : c = e.cpu
        · subst hsame
          simp only [Function.update_self]
          exact .inr (hnow hall).2
        · simp only [Function.update_of_ne hsame]
          exact h.stamps (htimes hall) c

theorem TakeoverRun.observes {k : RtdlKernel} {tr : List RtdlEntry} {s : RtdlMap}
    (h : TakeoverRun k tr s) : Observes k tr s := by
  apply Run.invariant (I := Observes k) _ _ h
  · rintro s rfl
    exact .initial k
  · rintro tr s e s' hobs rfl
    exact hobs.step e

/-! ## The hook over a run -/

/-- A machine whose callbacks read this map. -/
def RtdlMap.seen (s : RtdlMap) (m : Machine) : Machine := { m with occupied := s.occupied }

theorem RtdlMap.occupied_eq {k : RtdlKernel} {tr : List RtdlEntry} {s : RtdlMap}
    (h : Observes k tr s) {cpu : Nat} (hcpu : cpu < mlfqMaxCpus) :
    s.occupied cpu = lastRealtime cpu tr := by
  rw [RtdlMap.occupied, mlfqLookupRtdlState, if_pos hcpu]
  exact h.occupied cpu hcpu

/-- A pass ran at a switch exactly when the gate was open, a DSQ of the
CPU was not empty and the kernel can reenqueue; what it asks for is then
the CPU's own. -/
theorem drainedBy_eq_some {k : RtdlKernel} {x : RtdlEntry} {ds : List Dsq} :
    drainedBy k x = some ds
      ↔ x.event.cpu < mlfqMaxCpus ∧ x.event.realtime = true
        ∧ Gate.Opens k.drainIntervalNs (x.pre.stor x.event.cpu).lastDrainAt x.event.now
        ∧ (∃ d ∈ ownedDsqs x.event.cpu, x.event.counts.gate d ≠ 0)
        ∧ (k.localFromAnywhere || k.genericReenq) = true
        ∧ ds = drainReenqs k x.event.cpu x.event.counts := by
  have hsteps := mlfqSchedSwitch_steps k x.pre x.event
  rw [drainedBy]
  generalize mlfqSchedSwitch k x.pre x.event = r at hsteps ⊢
  cases hsteps with
  | outside cpu => exact iff_of_false nofun fun h => absurd h.1 (Nat.not_lt.mpr cpu)
  | clears cpu other =>
      refine iff_of_false nofun fun h => ?_
      rw [other] at h
      exact absurd h.2.1 Bool.false_ne_true
  | marks cpu realtime closed =>
      exact iff_of_false nofun fun h => closed ⟨h.2.2.1, h.2.2.2.1, h.2.2.2.2.1⟩
  | drains cpu realtime opens queued kernel =>
      constructor
      · intro hds
        exact ⟨cpu, realtime, opens, queued, kernel, (Option.some.inj hds).symm⟩
      · rintro ⟨-, -, -, -, -, rfl⟩
        rfl

/-- **The realtime hook in every interleaving.** The mark of a CPU is the
class of the task last switched in there, and the two counters count the
switches to a realtime task and the passes. A pass runs exactly behind an
open gate, with a DSQ of the CPU not empty and a kernel that can
reenqueue, and asks for each of the CPU's own queue DSQs that holds a
task once. The passes of a CPU are more than the interval apart, so there
are at most as many as fit in the time. -/
theorem takeoverRun_observes {k : RtdlKernel} {tr : List RtdlEntry} {s : RtdlMap}
    (h : TakeoverRun k tr s) :
    (∀ cpu < mlfqMaxCpus, s.occupied cpu = lastRealtime cpu tr)
    ∧ s.takeovers = BitVec.ofNat 64 (takenOver tr)
    ∧ s.evacuations = BitVec.ofNat 64 (yields (drainedBy k) tr).length
    ∧ (∀ x ∈ tr, ∀ ds, drainedBy k x = some ds ↔ x.event.cpu < mlfqMaxCpus
        ∧ x.event.realtime = true
        ∧ Gate.Opens k.drainIntervalNs (x.pre.stor x.event.cpu).lastDrainAt x.event.now
        ∧ (∃ d ∈ ownedDsqs x.event.cpu, x.event.counts.gate d ≠ 0)
        ∧ (k.localFromAnywhere || k.genericReenq) = true
        ∧ ds = drainReenqs k x.event.cpu x.event.counts)
    ∧ (∀ cpu counts, (∀ d ∈ drainReenqs k cpu counts, d ∈ ownedDsqs cpu)
        ∧ (drainReenqs k cpu counts).Nodup
        ∧ ∀ q, Dsq.queue q cpu ∈ drainReenqs k cpu counts
          ↔ k.genericReenq = true ∧ counts.call (.queue q cpu) ≠ 0)
    ∧ (TimesFit k tr → ∀ cpu,
        Spacing.Spaced (k.drainIntervalNs.toNat + 1) (yields (passOn k cpu) tr)
        ∧ ((yields (passOn k cpu) tr).length - 1) * (k.drainIntervalNs.toNat + 1)
          ≤ (s.stor cpu).lastDrainAt.toNat) := by
  have hobs := h.observes
  refine ⟨fun cpu hcpu => RtdlMap.occupied_eq hobs hcpu, hobs.takeovers, hobs.evacuations,
    fun x _ ds => drainedBy_eq_some, ?_, ?_⟩
  · intro cpu counts
    obtain ⟨howned, hnodup, -, hqueues⟩ := drainReenqs_mem k cpu counts
    exact ⟨howned, hnodup, hqueues⟩
  · intro hfit cpu
    have hpassed := hobs.passed hfit cpu
    exact ⟨hpassed.spaced, hpassed.length_le⟩

/-- A switch on CPU 3 while two tasks wait in its Q3 DSQ. -/
def switchOnThree (prio : Int) (now : U64) : Switch where
  cpu := 3
  prio := prio
  now := now
  counts := ⟨fun d => if d = .queue .q3 3 then 2 else 0, fun d => if d = .queue .q3 3 then 2 else 0⟩

/-- A kernel with both reenqueues. -/
def reenqKernel : RtdlKernel where
  localFromAnywhere := true
  genericReenq := true

/-- Taken over twice within the interval and once behind it: the first
switch and the last one drain. -/
theorem takeoverRun_observes_storm :
    ∃ tr s, TakeoverRun reenqKernel tr s ∧ s.occupied 3 = true ∧ s.evacuations = 2
      ∧ yields (passOn reenqKernel 3) tr = [1000, 1002001]
      ∧ s.takeovers = BitVec.ofNat 64 (takenOver tr) := by
  let s₁ := (mlfqSchedSwitch reenqKernel {} (switchOnThree 50 1000)).map
  let s₂ := (mlfqSchedSwitch reenqKernel s₁ (switchOnThree 120 2000)).map
  let s₃ := (mlfqSchedSwitch reenqKernel s₂ (switchOnThree 0 3000)).map
  let s₄ := (mlfqSchedSwitch reenqKernel s₃ (switchOnThree (-1) 1002001)).map
  have hrun : TakeoverRun reenqKernel [⟨s₃, switchOnThree (-1) 1002001, s₄⟩,
      ⟨s₂, switchOnThree 0 3000, s₃⟩, ⟨s₁, switchOnThree 120 2000, s₂⟩,
      ⟨{}, switchOnThree 50 1000, s₁⟩] s₄ :=
    .snoc (.snoc (.snoc (.snoc (.start rfl) rfl) rfl) rfl) rfl
  exact ⟨_, s₄, hrun, by decide, by decide, by decide, (takeoverRun_observes hrun).2.1⟩

/-! ## Where a drained task goes -/

/-- The target of a redirectable enqueue: the executing CPU or an allowed
one, and no realtime task occupies it unless one occupies every allowed
CPU. -/
theorem redirectedTarget_cases (m : Machine) (p : TaskStruct) {flags : EnqFlags}
    (hflags : flags.wakeup = true ∨ flags.reenq = true) (hnr : m.nrCpuIds ≤ mlfqMaxCpus) :
    ((redirectedTarget m p flags).1 = m.cpu ∨ p.cpus (redirectedTarget m p flags).1 = true)
    ∧ (m.occupied (redirectedTarget m p flags).1 = false
      ∨ ∀ d < m.nrCpuIds, p.cpus d = true → m.occupied d = true) := by
  have htarget : ((enqueueTarget m p flags).toNat : Int) = enqueueTarget m p flags
      ∧ ((enqueueTarget m p flags).toNat = m.cpu
        ∨ p.cpus (enqueueTarget m p flags).toNat = true) := by
    rcases enqueueTarget_cases m p flags with ⟨hallowed, -⟩ | ⟨hexec, -⟩
    · have hnonneg := cpumaskTestCpu_nonneg hallowed
      refine ⟨hnonneg, .inr ?_⟩
      rw [← cpumaskTestCpu_natCast, hnonneg]
      exact hallowed
    · rw [hexec]
      exact ⟨rfl, .inl rfl⟩
  have hredirectable : (flags.wakeup || flags.reenq) = true := Bool.or_eq_true_iff.mpr hflags
  rw [redirectedTarget]
  by_cases hredirects : redirects m p flags = true
  · rw [if_pos hredirects]
    cases hpick : mlfqPickUnoccupiedCpu m p m.cpu with
    | some cpu =>
        obtain ⟨hallowed, hfree⟩ := mlfqPickUnoccupiedCpu_some hpick
        exact ⟨.inr hallowed, .inl hfree⟩
    | none =>
        refine ⟨htarget.2, .inr fun d hd hallowed => ?_⟩
        have hwalk := walkUnoccupiedCpu_none hnr
          ((walkUnoccupiedCpu_natCast m p m.cpu).trans hpick) hd
        by_contra hfree
        rw [TakesRedirect_iff.mpr ⟨hallowed, Bool.eq_false_iff.mpr hfree⟩] at hwalk
        cases hwalk
  · rw [if_neg hredirects]
    refine ⟨htarget.2, .inl ?_⟩
    rw [redirects, hredirectable, Bool.true_and, Bool.not_eq_true, ← htarget.1,
      cpuOccupied_natCast] at hredirects
    exact hredirects

/-- **Where an insert into a queue DSQ goes**: to the redirected target,
or to the CPU a pinned task is on. -/
theorem mlfqEnqueue_queue_target {m : Machine} {p : TaskStruct} {tctx alloc : Option TaskCtx}
    {flags : EnqFlags} {now : U64} {i : DsqInsert} {q : Queue} {cpu : Nat}
    (hi : (mlfqEnqueue m p tctx alloc flags now).insert = some i) (hdsq : i.dsq = .queue q cpu) :
    cpu = (redirectedTarget m p flags).1
      ∨ (mlfqTaskIsMigrationDisabled p = true ∧ p.cpus cpu = true) := by
  rcases mlfqEnqueue_exits m p tctx alloc flags now with ⟨hnone, -⟩ | ⟨t, -, -, hexit⟩
  · rw [hnone] at hi
    cases hi
  · cases hexit with
    | noCpu route pinned cpu insert =>
        rw [insert] at hi
        cases hi
    | pinnedGlobal route pinned gauges tctx insert =>
        rw [insert] at hi
        cases hi
        cases hdsq
    | pinnedIdle route pinned allowed inserts =>
        rw [inserts.insert] at hi
        cases hi
        cases hdsq
    | pinnedBusy route pinned allowed inserts =>
        rw [inserts.insert] at hi
        cases hi
        cases hdsq
        have hnonneg := cpumaskTestCpu_nonneg allowed
        rw [← hnonneg, cpumaskTestCpu_natCast] at allowed
        exact .inr ⟨pinned, allowed⟩
    | fastPath route free idle inserts =>
        rw [inserts.insert] at hi
        cases hi
        cases hdsq
    | preempt route free slow wakeup stays allowed slice inserts =>
        rw [inserts.insert] at hi
        cases hi
        cases hdsq
    | regular route free slow inserts =>
        rw [inserts.insert] at hi
        cases hi
        cases hdsq
        exact .inl rfl

/-- **A drained task leaves the realtime task behind.** At any point of a
run, a wakeup or a reenqueue that goes into a queue DSQ goes to a CPU
whose last switch was not to a realtime task, unless that was the last
switch of every CPU the task may run on. The mask of a pinned task is
one CPU. -/
theorem takeoverRun_redirects {k : RtdlKernel} {tr : List RtdlEntry} {s : RtdlMap}
    (h : TakeoverRun k tr s) (m : Machine) (p : TaskStruct) (tctx alloc : Option TaskCtx)
    (flags : EnqFlags) (now : U64) (hnr : m.nrCpuIds ≤ mlfqMaxCpus) (hcpu : m.cpu < m.nrCpuIds)
    (hmask : ∀ d, p.cpus d = true → d < m.nrCpuIds)
    (hpin : mlfqTaskIsMigrationDisabled p = true →
      ∀ c d, p.cpus c = true → p.cpus d = true → c = d)
    (hflags : flags.wakeup = true ∨ flags.reenq = true) {i : DsqInsert} {q : Queue} {cpu : Nat}
    (hi : (mlfqEnqueue (s.seen m) p tctx alloc flags now).insert = some i)
    (hdsq : i.dsq = .queue q cpu) :
    lastRealtime cpu tr = false ∨ ∀ d, p.cpus d = true → lastRealtime d tr = true := by
  have hobs := h.observes
  obtain ⟨hwhere, hclear⟩ := redirectedTarget_cases (s.seen m) p hflags hnr
  rcases mlfqEnqueue_queue_target hi hdsq with htarget | ⟨hpinned, hallowed⟩
  · rw [← htarget] at hwhere hclear
    have hrange : cpu < m.nrCpuIds := by
      rcases hwhere with heq | hallowed
      · rw [heq]
        exact hcpu
      · exact hmask cpu hallowed
    rcases hclear with hoff | hall
    · left
      rw [← RtdlMap.occupied_eq hobs (by omega)]
      exact hoff
    · right
      intro d hd
      have hlt := hmask d hd
      rw [← RtdlMap.occupied_eq hobs (by omega)]
      exact hall d hlt hd
  · -- a pinned task stays, and its CPU is all of its mask
    cases hlast : lastRealtime cpu tr with
    | false => exact .inl rfl
    | true =>
        right
        intro d hd
        rw [hpin hpinned d cpu hd hallowed]
        exact hlast

/-- A task of the CPUs 1 and 3. -/
def taskOfOneAndThree : TaskStruct where
  pid := 7
  cpu := 3
  cpus c := decide (c = 1 ∨ c = 3)

/-- A task of CPU 3 only. -/
def taskOfThree : TaskStruct where
  pid := 8
  cpu := 3
  cpus c := decide (c = 3)
  nrCpusAllowed := 1

/-- Behind a takeover of CPU 3 its tasks are reenqueued to CPU 1, if they
may run there. -/
theorem takeoverRun_redirects_drained :
    ∃ tr s i j, TakeoverRun reenqKernel tr s ∧ lastRealtime 3 tr = true
      ∧ (mlfqEnqueue (s.seen { Machine.zeroed {} 4 with cpu := 3 }) taskOfOneAndThree (some {}) none
          { reenq := true } 9).insert = some i
      ∧ i.dsq = .queue .q2 1
      ∧ (lastRealtime 1 tr = false ∨ ∀ d, taskOfOneAndThree.cpus d = true →
        lastRealtime d tr = true)
      ∧ (mlfqEnqueue (s.seen { Machine.zeroed {} 4 with cpu := 3 }) taskOfThree (some {}) none
          { reenq := true } 9).insert = some j
      ∧ j.dsq = .queue .q2 3
      ∧ (lastRealtime 3 tr = false ∨ ∀ d, taskOfThree.cpus d = true →
        lastRealtime d tr = true) := by
  let s₁ := (mlfqSchedSwitch reenqKernel {} (switchOnThree 50 1000)).map
  have hrun : TakeoverRun reenqKernel [⟨{}, switchOnThree 50 1000, s₁⟩] s₁ := .snoc (.start rfl) rfl
  have hmask : ∀ d, taskOfOneAndThree.cpus d = true → d < 4 := by
    intro d hd
    have hin : d = 1 ∨ d = 3 := of_decide_eq_true hd
    omega
  have hdsq : (mlfqEnqueue (s₁.seen { Machine.zeroed {} 4 with cpu := 3 }) taskOfOneAndThree
      (some {}) none { reenq := true } 9).insert.map DsqInsert.dsq = some (.queue .q2 1) := by
    decide +kernel
  have hone : ∀ d, taskOfThree.cpus d = true → d = 3 := fun d hd => of_decide_eq_true hd
  have hstays : (mlfqEnqueue (s₁.seen { Machine.zeroed {} 4 with cpu := 3 }) taskOfThree
      (some {}) none { reenq := true } 9).insert.map DsqInsert.dsq = some (.queue .q2 3) := by
    decide +kernel
  obtain ⟨i, hi, hqueue⟩ := Option.map_eq_some_iff.mp hdsq
  obtain ⟨j, hj, hqueue'⟩ := Option.map_eq_some_iff.mp hstays
  exact ⟨_, s₁, i, j, hrun, rfl, hi, hqueue, takeoverRun_redirects hrun
    { Machine.zeroed {} 4 with cpu := 3 } taskOfOneAndThree (some {}) none { reenq := true } 9
    (by decide) (by decide) hmask nofun (.inr rfl) hi hqueue, hj, hqueue',
    takeoverRun_redirects hrun { Machine.zeroed {} 4 with cpu := 3 } taskOfThree (some {}) none
      { reenq := true } 9 (by decide) (by decide)
      (fun d hd => by rw [hone d hd]; decide)
      (fun _ c d hc hd => (hone c hc).trans (hone d hd).symm) (.inr rfl) hj hqueue'⟩

end ScxMlfq
