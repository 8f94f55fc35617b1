import ScxMlfq.Bpf.Steal

/-!
# Bpf — Keep

Whether a dispatch leaves the CPU work. The keep path looks at the own
DSQs by their length alone, and at one remote CPU; the slot loops look at
the own tasks that can run here and at the CPUs in reach. Where the two
tests disagree, the outgoing task is neither kept nor replaced.
-/

namespace ScxMlfq

/-- The slot loops of queue `q` find a task for this CPU. -/
def Available (env : DispatchEnv) (q : Queue) (off : Nat) (s : DispatchState) : Prop :=
  (∃ t ∈ s.dsqs q env.cpu, t.cpus env.cpu = true)
    ∨ ∃ c ∈ env.reach off, ∃ t, peekHead (s.dsqs q c) env.cpu = some t

/-- The kernel's check at a move agrees with the affinity. -/
def DispatchEnv.Static (env : DispatchEnv) : Prop := ∀ n t, env.runs n t = t.cpus env.cpu

variable {env : DispatchEnv} {q : Queue} {off : Nat} {s : DispatchState}

/-! ## The slot loops -/

/-- With nothing to move a slot loop ends at once. -/
theorem dispatchSlots_idle (hst : env.Static) (hno : ¬ Available env q off s)
    (slots moved : Nat) :
    (dispatchSlots env q off slots moved s).1 = moved
      ∧ (dispatchSlots env q off slots moved s).2.dsqs = s.dsqs := by
  cases slots with
  | zero => exact ⟨rfl, rfl⟩
  | succ slots =>
      have hown : (moveToLocal env q env.cpu s).1 = false := by
        rw [moveToLocal]
        split
        · rfl
        · rename_i t hfind
          have hrun := List.find?_some hfind
          rw [hst] at hrun
          exact absurd (.inl ⟨t, List.mem_of_find?_eq_some hfind, hrun⟩) hno
      have hnone : env.steal q off s.dsqs = none := by
        rw [DispatchEnv.steal_eq_none]
        intro c hc
        rw [Option.eq_none_iff_forall_not_mem]
        intro t ht
        exact hno (.inr ⟨c, hc, t, ht⟩)
      have hdsqs := moveToLocal_dsqs hown
      rw [dispatchSlots, if_neg (by rw [hown]; exact Bool.false_ne_true), hdsqs, hnone]
      exact ⟨rfl, hdsqs⟩

/-- A head that was peeked is moved. -/
theorem moveToLocal_peeked (hst : env.Static) {c : Nat} {t : DsqTask}
    (h : peekHead (s.dsqs q c) env.cpu = some t) : (moveToLocal env q c s).1 = true := by
  obtain ⟨hhead, hrun⟩ := peekHead_eq_some.mp h
  obtain ⟨rest, hrest⟩ := List.head?_eq_some_iff.mp hhead
  rw [moveToLocal, hrest, List.find?_cons_of_pos (by rw [hst]; exact hrun)]

/-- **With something to move the first slot moves it.** -/
theorem dispatchSlots_works (hst : env.Static) (h : Available env q off s)
    {slots : Nat} (hslots : 0 < slots) (moved : Nat) :
    moved < (dispatchSlots env q off slots moved s).1 := by
  obtain ⟨slots, rfl⟩ := Nat.exists_eq_add_one_of_ne_zero (by omega : slots ≠ 0)
  rw [dispatchSlots]
  by_cases hown : (moveToLocal env q env.cpu s).1 = true
  · rw [if_pos hown]
    obtain ⟨n, -, heq, -⟩ := dispatchSlots_moved env q off slots (moved + 1)
      (moveToLocal env q env.cpu s).2
    omega
  · rw [if_neg hown]
    rw [Bool.not_eq_true] at hown
    have hdsqs := moveToLocal_dsqs hown
    rw [hdsqs]
    cases hsteal : env.steal q off s.dsqs with
    | none =>
        exfalso
        rcases h with ⟨t, ht, hrun⟩ | ⟨c, hc, t, hpeek⟩
        · -- a task of the own DSQ that can run here would have been moved
          rw [moveToLocal] at hown
          split at hown
          · rename_i hfind
            have := List.find?_eq_none.mp hfind t ht
            rw [hst] at this
            exact this hrun
          · cases hown
        · rw [DispatchEnv.steal_eq_none.mp hsteal c hc] at hpeek
          cases hpeek
    | some best =>
        obtain ⟨c, t⟩ := best
        have hpeek := (DispatchEnv.steal_some hsteal).2
        rw [← hdsqs] at hpeek
        have htook := moveToLocal_peeked hst hpeek
        show moved < (if (moveToLocal env q c _).1 then _ else _ : Nat × DispatchState).1
        rw [if_pos htook]
        obtain ⟨n, -, heq, -⟩ := dispatchSlots_moved env q off slots (moved + 1)
          (enterStolen env q t (moveToLocal env q c (moveToLocal env q env.cpu s).2).2)
        omega

/-- A queue loop that moves nothing leaves the DSQs, and has found
nothing. -/
theorem mlfqDispatchQueue_moves (hst : env.Static) {quota : U32} (hquota : 0 < quota.toNat) :
    0 < (mlfqDispatchQueue env q quota s).1
      ↔ Available env q (scanOff env.machine env.cpu) s := by
  constructor
  · intro hpos
    by_contra hno
    have := (dispatchSlots_idle hst hno quota.toNat 0).1
    rw [mlfqDispatchQueue] at hpos
    omega
  · intro h
    exact dispatchSlots_works hst h hquota 0

/-- What is available for a queue depends on its own DSQs. -/
theorem Available.congr {s' : DispatchState} (h : s'.dsqs q = s.dsqs q) :
    Available env q off s' ↔ Available env q off s := by
  rw [Available, Available, h]

/-- **The three loops move something** where one of them finds something. -/
theorem dispatchQueues_moves (hst : env.Static)
    (hquotas : QuotasFit env.machine.rod.q1Quota env.machine.rod.q2Quota
      env.machine.rod.dispatchMaxBatch) (s : DispatchState) :
    s.loc.length < (dispatchQueues env s).state.loc.length
      ↔ ∃ q, Available env q (scanOff env.machine env.cpu) s := by
  have hshare := hquotas.share
  obtain ⟨hq3, -, -, h1, h2, new, hloc, hlen, -⟩ :=
    dispatchQueues_served (Nat.le_of_lt hshare) s
  have hm₁ := (mlfqDispatchQueue_moved env .q1 env.machine.rod.q1Quota s).2
  have hloop₁ := @mlfqDispatchQueue_moves env .q1 s hst _ hquotas.q1
  have hloop₂ := @mlfqDispatchQueue_moves env .q2
    (mlfqDispatchQueue env .q1 env.machine.rod.q1Quota s).2 hst _ hquotas.q2
  have hm₂ := (mlfqDispatchQueue_moved env .q2 env.machine.rod.q2Quota
    (mlfqDispatchQueue env .q1 env.machine.rod.q1Quota s).2).2
  have hloop₃ := @mlfqDispatchQueue_moves env .q3
    (mlfqDispatchQueue env .q2 env.machine.rod.q2Quota
      (mlfqDispatchQueue env .q1 env.machine.rod.q1Quota s).2).2 hst
    (dispatchQueues env s).q3Quota (by omega)
  rw [Available.congr (hm₁.others .q2 (by decide))] at hloop₂
  rw [Available.congr ((hm₂.others .q3 (by decide)).trans (hm₁.others .q3 (by decide)))] at hloop₃
  have hsum : s.loc.length < (dispatchQueues env s).state.loc.length
      ↔ 0 < (dispatchQueues env s).moved.1 ∨ 0 < (dispatchQueues env s).moved.2.1
        ∨ 0 < (dispatchQueues env s).moved.2.2 := by
    rw [hloc, List.length_append, hlen]
    omega
  rw [hsum]
  have hparts : (0 < (dispatchQueues env s).moved.1
        ↔ Available env .q1 (scanOff env.machine env.cpu) s)
      ∧ (0 < (dispatchQueues env s).moved.2.1
        ↔ Available env .q2 (scanOff env.machine env.cpu) s)
      ∧ (0 < (dispatchQueues env s).moved.2.2
        ↔ Available env .q3 (scanOff env.machine env.cpu) s) := ⟨hloop₁, hloop₂, hloop₃⟩
  rw [hparts.1, hparts.2.1, hparts.2.2]
  constructor
  · rintro (h | h | h)
    · exact ⟨.q1, h⟩
    · exact ⟨.q2, h⟩
    · exact ⟨.q3, h⟩
  · rintro ⟨q, h⟩
    cases q with
    | q1 => exact .inl h
    | q2 => exact .inr (.inl h)
    | q3 => exact .inr (.inr h)

/-! ## The probed CPU -/

/-- The rotating offset is an index of a CPU. -/
theorem scanOff_lt {m : Machine} (h : 0 < m.nrCpuIds) (cpu : Nat) :
    scanOff m cpu < m.nrCpuIds := by
  rw [scanOff]
  split
  · exact h
  · exact Nat.mod_lt _ h

/-- With more than one CPU the probed one is remote, and the first or the
second of the rotating window. -/
theorem probeCand_spec {m : Machine} (h : 1 < m.nrCpuIds) (cpu : Nat) :
    probeCand m cpu ≠ cpu ∧ probeCand m cpu < m.nrCpuIds
      ∧ ∃ i, i < 2 ∧ (scanOff m cpu + i) % m.nrCpuIds = probeCand m cpu := by
  have hoff := scanOff_lt (by omega : 0 < m.nrCpuIds) cpu
  rw [probeCand]
  by_cases heq : scanOff m cpu = cpu
  · rw [if_pos heq]
    refine ⟨?_, Nat.mod_lt _ (by omega), 1, by omega, rfl⟩
    rw [heq] at hoff ⊢
    -- the next CPU is another one, also where it wraps
    rcases Nat.lt_or_ge (cpu + 1) m.nrCpuIds with hlt | hge
    · rw [Nat.mod_eq_of_lt hlt]
      omega
    · have hlast : cpu + 1 = m.nrCpuIds := by omega
      rw [hlast, Nat.mod_self]
      omega
  · rw [if_neg heq]
    exact ⟨heq, hoff, 0, by omega, Nat.mod_eq_of_lt hoff⟩

/-- The probe finds a head exactly where a queue has one. -/
theorem mlfqRemoteWorkProbe_iff {dsqs : Dsqs} {cand cpu : Nat} :
    mlfqRemoteWorkProbe dsqs cand cpu = true ↔ ∃ q t, peekHead (dsqs q cand) cpu = some t := by
  simp only [mlfqRemoteWorkProbe, Bool.or_eq_true, Option.isSome_iff_exists]
  constructor
  · rintro ((⟨t, h⟩ | ⟨t, h⟩) | ⟨t, h⟩)
    · exact ⟨.q1, t, h⟩
    · exact ⟨.q2, t, h⟩
    · exact ⟨.q3, t, h⟩
  · rintro ⟨q, t, h⟩
    cases q with
    | q1 => exact .inl (.inl ⟨t, h⟩)
    | q2 => exact .inl (.inr ⟨t, h⟩)
    | q3 => exact .inr ⟨t, h⟩

/-- **The probed CPU is in reach**, except for an unmapped CPU of a machine
with one domain, whose Tier A leaves no Tier B. -/
theorem DispatchEnv.On.probeCand_reach {plan : LlcPlan} (h : env.On plan) (hm : plan.Maps)
    (hnr : 1 < env.machine.nrCpuIds)
    (hout : probeCand env.machine env.cpu ∉ env.reach (scanOff env.machine env.cpu)) :
    plan.nrLlcs = 1 ∧ plan.Near env.cpu env.cpu
      ∧ ¬ plan.cpuLlc (probeCand env.machine env.cpu) < plan.nrLlcs := by
  obtain ⟨hne, hlt, i, hi, hidx⟩ := probeCand_spec hnr env.cpu
  have hmax := h.nr
  have hscan : i < env.machine.stealScan := by
    have hcap : mlfqStealScanMax = 64 := rfl
    rw [h.stealScan]
    split <;> omega
  generalize probeCand env.machine env.cpu = cand at hne hlt hidx hout ⊢
  rw [DispatchEnv.reach, List.mem_append] at hout
  by_cases hlive : env.tierANr > 0
  · have hown := (h.tierANr_pos hm).mp hlive
    have hfar : ¬ plan.Near env.cpu cand := by
      intro hn
      refine hout (.inl ?_)
      rw [if_pos hlive, h.mem_tierA hm]
      exact ⟨hne, by omega, hn⟩
    have hone : plan.nrLlcs = 1 := by
      by_contra hmany
      refine hout (.inr ?_)
      rw [if_pos (.inr (by rw [h.nrLlcs]; exact hmany)), h.mem_tierB hm]
      exact ⟨⟨i, hscan, hidx⟩, hne, hfar⟩
    refine ⟨hone, hown, fun hmapped => hfar ⟨hown.1, hown.2.1, ?_⟩⟩
    have := hown.1
    omega
  · exfalso
    refine hout (.inr ?_)
    rw [if_pos (.inl hlive), h.mem_tierB hm]
    exact ⟨⟨i, hscan, hidx⟩, hne, fun hn => hlive ((h.tierANr_pos hm).mpr ⟨hn.1, hn.2.1, rfl⟩)⟩

/-! ## The outgoing task -/

/-- The offset of the call, after the scan counter was advanced. -/
def callOff (env : DispatchEnv) : Nat := scanOff (bumpScanOff env.machine env.cpu) env.cpu

/-- The own DSQs hold tasks, none of them can run here, and no CPU in
reach has a head that can. -/
def StuckOnOwn (env : DispatchEnv) (s : DispatchState) : Prop :=
  ownEmpty s.dsqs env.cpu = false
    ∧ (∀ q, ∀ t ∈ s.dsqs q env.cpu, t.cpus env.cpu = false)
    ∧ ∀ q, ∀ c ∈ env.reach (callOff env), peekHead (s.dsqs q c) env.cpu = none

/-- The own DSQs are empty and the machine has one domain, within the
window. The probed CPU is outside of it and has a head for this CPU, the
CPUs of the domain have none. -/
def StuckOnProbe (env : DispatchEnv) (plan : LlcPlan) (s : DispatchState) : Prop :=
  let cand := probeCand (bumpScanOff env.machine env.cpu) env.cpu
  ownEmpty s.dsqs env.cpu = true ∧ plan.nrLlcs = 1 ∧ plan.Near env.cpu env.cpu
    ∧ ¬ plan.cpuLlc cand < plan.nrLlcs
    ∧ (∃ q t, peekHead (s.dsqs q cand) env.cpu = some t)
    ∧ ∀ q c, c ≠ env.cpu → c < mlfqMaxCpus → plan.Near env.cpu c →
        peekHead (s.dsqs q c) env.cpu = none

theorem ownEmpty_iff {dsqs : Dsqs} {cpu : Nat} :
    ownEmpty dsqs cpu = true ↔ ∀ q, dsqs q cpu = [] := by
  simp only [ownEmpty, Bool.and_eq_true, List.isEmpty_iff]
  constructor
  · rintro ⟨⟨h1, h2⟩, h3⟩ q
    cases q <;> assumption
  · intro h
    exact ⟨⟨h .q1, h .q2⟩, h .q3⟩

/-- The keep of a queued task with a context. -/
theorem keeps_isSome {prev : PrevTask} (hqueued : prev.queued = true) {t : TaskCtx}
    (hctx : s.records prev.pid = some t) :
    (keeps env (some prev) s).isSome = true
      ↔ ownEmpty s.dsqs env.cpu = true
        ∧ ¬ (env.machine.nrCpuIds > 1
          ∧ mlfqRemoteWorkProbe s.dsqs (probeCand env.machine env.cpu) env.cpu = true) := by
  simp only [keeps, hqueued, true_and, hctx]
  by_cases hempty : ownEmpty s.dsqs env.cpu = true
  · rw [if_pos hempty]
    split
    · rename_i hprobe
      simp [hprobe]
    · rename_i hprobe
      exact ⟨fun _ => ⟨hempty, hprobe⟩, fun _ => rfl⟩
  · rw [if_neg hempty]
    simp [hempty]

/-- What the slot loops find, in terms of the own DSQs and the reach. -/
theorem not_available_iff :
    (¬ ∃ q, Available env q off s)
      ↔ (∀ q, ∀ t ∈ s.dsqs q env.cpu, t.cpus env.cpu = false)
        ∧ ∀ q, ∀ c ∈ env.reach off, peekHead (s.dsqs q c) env.cpu = none := by
  simp only [Available, not_exists, not_or, not_and, Bool.not_eq_true]
  constructor
  · intro hno
    refine ⟨fun q t ht => (hno q).1 t ht, fun q c hc => ?_⟩
    rw [Option.eq_none_iff_forall_not_mem]
    exact fun t ht => (hno q).2 c hc t ht
  · rintro ⟨hown, hreach⟩ q
    refine ⟨hown q, fun c hc t ht => ?_⟩
    rw [hreach q c hc] at ht
    cases ht

section Stuck

variable {plan : LlcPlan}

/-- A machine whose probed CPU is unmapped, and the own one is not, has
more than one CPU. -/
theorem DispatchEnv.On.one_lt_nrCpuIds (h : env.On plan) (hown : plan.Near env.cpu env.cpu)
    (hfar : ¬ plan.cpuLlc (probeCand (bumpScanOff env.machine env.cpu) env.cpu)
      < plan.nrLlcs) : env.machine.nrCpuIds > 1 := by
  have hcpu := h.cpu
  by_contra hone
  -- the only CPU is mapped
  have hlt : probeCand (bumpScanOff env.machine env.cpu) env.cpu < env.machine.nrCpuIds := by
    have hoff := scanOff_lt (m := bumpScanOff env.machine env.cpu)
      (show 0 < env.machine.nrCpuIds by omega) env.cpu
    rw [probeCand]
    split
    · exact Nat.mod_lt _ (show 0 < env.machine.nrCpuIds by omega)
    · exact hoff
  have heq : probeCand (bumpScanOff env.machine env.cpu) env.cpu = env.cpu := by omega
  rw [heq] at hfar
  exact hfar hown.1

/-- Where the keep is denied and the loops find nothing, the CPU is stuck
in one of the two ways, and conversely. -/
theorem DispatchEnv.On.stuck_iff (h : env.On plan) (hm : plan.Maps)
    (hdenied : ¬ (ownEmpty s.dsqs env.cpu = true ∧ ¬ (env.machine.nrCpuIds > 1 ∧ ∃ q t,
      peekHead (s.dsqs q (probeCand (bumpScanOff env.machine env.cpu) env.cpu)) env.cpu
        = some t))) :
    ((∀ q, ∀ t ∈ s.dsqs q env.cpu, t.cpus env.cpu = false)
        ∧ ∀ q, ∀ c ∈ env.reach (callOff env), peekHead (s.dsqs q c) env.cpu = none)
      ↔ StuckOnOwn env s ∨ StuckOnProbe env plan s := by
  -- the call runs on the advanced scan counter
  have h' : DispatchEnv.On { env with machine := bumpScanOff env.machine env.cpu } plan :=
    ⟨h.nrLlcs, h.cpuLlc, h.llcCpus, h.stealScan, h.cpu, h.nr⟩
  constructor
  · rintro ⟨hown, hreach⟩
    by_cases hempty : ownEmpty s.dsqs env.cpu = true
    · right
      obtain ⟨hnr, q, t, hhead⟩ : env.machine.nrCpuIds > 1 ∧ ∃ q t,
          peekHead (s.dsqs q (probeCand (bumpScanOff env.machine env.cpu) env.cpu))
            env.cpu = some t := by
        by_contra hno
        exact hdenied ⟨hempty, hno⟩
      have hout : probeCand (bumpScanOff env.machine env.cpu) env.cpu
          ∉ env.reach (callOff env) := by
        intro hin
        rw [hreach q _ hin] at hhead
        cases hhead
      obtain ⟨hone, hlive, hfar⟩ := h'.probeCand_reach hm hnr hout
      refine ⟨hempty, hone, hlive, hfar, ⟨q, t, hhead⟩, fun q' c hne hmax hnear => ?_⟩
      refine hreach q' c (List.mem_append_left _ ?_)
      rw [if_pos ((h.tierANr_pos hm).mpr hlive), h.mem_tierA hm]
      exact ⟨hne, hmax, hnear⟩
    · exact .inl ⟨Bool.eq_false_iff.mpr hempty, hown, hreach⟩
  · rintro (ho | hp)
    · exact ho.2
    · obtain ⟨hempty, hone, hlive, -, -, hdomain⟩ := hp
      refine ⟨fun q t ht => ?_, fun q c hc => ?_⟩
      · rw [ownEmpty_iff.mp hempty q] at ht
        cases ht
      · -- one domain, and Tier A leaves no Tier B
        have hpos := (h.tierANr_pos hm).mpr hlive
        rw [DispatchEnv.reach, if_pos hpos, h.nrLlcs, hone, if_neg (by simp [hpos]),
          List.append_nil, h.mem_tierA hm] at hc
        exact hdomain q c hc.1 hc.2.1 hc.2.2

end Stuck

/-- **When a dispatch leaves the CPU without work.** Under a valid
configuration and a published topology, with the DSQs and affinities
fixed, a queued outgoing task with a context is granted its slice or a
task is moved, except where the tasks of the own DSQs or the probe of an
unmapped CPU deny the keep and the slot loops find nothing. -/
theorem mlfqDispatch_works_iff {c : Config} (hc : c.validate = .ok ()) {rod : Rodata}
    (hrod : env.machine.rod = c.apply rod) {pairs : List (Nat × Nat)} {primary : List Nat}
    (hnodup : (pairs.map Prod.fst).Nodup) (h : env.On (planLlcs pairs primary mlfqMaxLlcs))
    (hst : env.Static) {prev : PrevTask} (hqueued : prev.queued = true) {t : TaskCtx}
    (hctx : s.records prev.pid = some t) :
    let r := mlfqDispatch env (some prev) s
    (r.granted.isSome = true ∨ s.loc.length < r.state.loc.length)
      ↔ ¬ StuckOnOwn env s ∧ ¬ StuckOnProbe env (planLlcs pairs primary mlfqMaxLlcs) s := by
  intro r
  have hm := planLlcs_maps hnodup primary
  generalize planLlcs pairs primary mlfqMaxLlcs = plan at h hm ⊢
  have hcpu := h.cpu
  -- the call runs on the advanced scan counter
  have hkeep := @keeps_isSome { env with machine := bumpScanOff env.machine env.cpu } s _
    hqueued _ hctx
  rw [mlfqRemoteWorkProbe_iff] at hkeep
  change _ ↔ ownEmpty s.dsqs env.cpu = true ∧ ¬ (env.machine.nrCpuIds > 1 ∧ _) at hkeep
  rcases mlfqDispatch_cases env (some prev) s with ⟨hnr, -⟩ | ⟨-, pid, t', hk, heq⟩ | ⟨-, hk, heq⟩
  · omega
  · have hr : r.granted.isSome = true := by
      show (mlfqDispatch env (some prev) s).granted.isSome = true
      rw [heq]
      rfl
    rw [hk] at hkeep
    obtain ⟨hempty, hno⟩ := hkeep.mp rfl
    refine ⟨fun _ => ⟨fun ho => ?_, fun hp => ?_⟩, fun _ => .inl hr⟩
    · rw [ho.1] at hempty
      cases hempty
    · obtain ⟨-, -, hown, hfar, hhead, -⟩ := hp
      exact hno ⟨h.one_lt_nrCpuIds hown hfar, hhead⟩
  · have hr : r = dispatchQueues { env with machine := bumpScanOff env.machine env.cpu } s := heq
    have hgranted : r.granted.isSome = false := by
      rw [hr]
      rfl
    have hquotas : QuotasFit env.machine.rod.q1Quota env.machine.rod.q2Quota
        env.machine.rod.dispatchMaxBatch := by
      rw [hrod]
      exact Config.quotasFit hc
    have hmoves := @dispatchQueues_moves
      { env with machine := bumpScanOff env.machine env.cpu } hst hquotas s
    rw [← hr] at hmoves
    have hdenied := hkeep.not.mp (by rw [hk]; exact Bool.false_ne_true)
    rw [hgranted, hmoves]
    simp only [Bool.false_eq_true, false_or]
    have hstuck : (¬ ∃ q, Available { env with machine := bumpScanOff env.machine env.cpu } q
          (callOff env) s) ↔ StuckOnOwn env s ∨ StuckOnProbe env plan s :=
      not_available_iff.trans (h.stuck_iff hm hdenied)
    rw [← not_or, ← hstuck, not_not]
    exact Iff.rfl

/-- Two CPUs of one domain. -/
def twoCpus : List (Nat × Nat) := [(0, 0), (1, 0)]

/-- A task in the own Q1 DSQ of CPU 0 that may run on CPU 1 only, and the
outgoing task 7. -/
def foreignTask : DispatchState :=
  { dsqs := fun q c => match q, c with
      | .q1, 0 => [⟨1, 0, fun c => decide (c = 1)⟩]
      | _, _ => []
    records := fun pid => if pid = 7 then some {} else none }

/-- The outgoing task is neither kept nor replaced. -/
theorem foreignTask_stuck :
    (mlfqDispatch (planEnv 2 twoCpus) (some ⟨7, true⟩) foreignTask).granted = none
      ∧ (mlfqDispatch (planEnv 2 twoCpus) (some ⟨7, true⟩) foreignTask).state.loc.length = 0 := by
  decide

/-- One mapped CPU of two: the probed CPU 1 has a task to steal, and is
outside of the only domain. -/
def unmappedTask : DispatchState :=
  { dsqs := fun q c => match q, c with
      | .q1, 1 => [⟨1, 0, fun _ => true⟩]
      | _, _ => []
    records := fun pid => if pid = 7 then some {} else none }

theorem unmappedTask_stuck :
    (mlfqDispatch (planEnv 2 [(0, 0)]) (some ⟨7, true⟩) unmappedTask).granted = none
      ∧ (mlfqDispatch (planEnv 2 [(0, 0)]) (some ⟨7, true⟩) unmappedTask).state.loc.length
        = 0 := by
  decide

/-- **The failing inputs.** Both parts fail: an own task that cannot run
here denies the keep, and, where the own DSQs are empty, a probed head
is not stolen. -/
theorem mlfqDispatch_stuck :
    (¬ ∀ (env : DispatchEnv) (c : Config) (rod : Rodata) (pairs : List (Nat × Nat))
      (primary : List Nat) (prev : PrevTask) (t : TaskCtx) (s : DispatchState),
      c.validate = .ok () → env.machine.rod = c.apply rod → (pairs.map Prod.fst).Nodup →
      env.On (planLlcs pairs primary mlfqMaxLlcs) → env.Static → prev.queued = true →
      s.records prev.pid = some t →
      (mlfqDispatch env (some prev) s).granted.isSome = true
        ∨ s.loc.length < (mlfqDispatch env (some prev) s).state.loc.length)
      ∧ ¬ ∀ (env : DispatchEnv) (c : Config) (rod : Rodata) (pairs : List (Nat × Nat))
        (primary : List Nat) (prev : PrevTask) (t : TaskCtx) (s : DispatchState),
        c.validate = .ok () → env.machine.rod = c.apply rod → (pairs.map Prod.fst).Nodup →
        env.On (planLlcs pairs primary mlfqMaxLlcs) → env.Static → prev.queued = true →
        s.records prev.pid = some t → ownEmpty s.dsqs env.cpu = true →
        (mlfqDispatch env (some prev) s).granted.isSome = true
          ∨ s.loc.length < (mlfqDispatch env (some prev) s).state.loc.length := by
  constructor
  · intro hclaim
    have h := hclaim (planEnv 2 twoCpus) {} (planEnv 2 twoCpus).machine.rod twoCpus [] ⟨7, true⟩
      {} foreignTask Config.default_valid rfl (by decide) (planEnv_on (by decide) (by decide))
      (fun _ _ => rfl) rfl rfl
    rw [foreignTask_stuck.1, foreignTask_stuck.2] at h
    rcases h with h | h
    · cases h
    · cases h
  · intro hclaim
    have h := hclaim (planEnv 2 [(0, 0)]) {} (planEnv 2 [(0, 0)]).machine.rod [(0, 0)] []
      ⟨7, true⟩ {} unmappedTask Config.default_valid rfl (by decide)
      (planEnv_on (by decide) (by decide)) (fun _ _ => rfl) rfl rfl (by decide)
    rw [unmappedTask_stuck.1, unmappedTask_stuck.2] at h
    rcases h with h | h
    · cases h
    · cases h

/-- On the same machine a task of CPU 1 is moved. -/
theorem mlfqDispatch_works_iff_remote :
    ((mlfqDispatch (planEnv 2 twoCpus) (some ⟨7, true⟩) unmappedTask).granted.isSome = true
        ∨ unmappedTask.loc.length
          < (mlfqDispatch (planEnv 2 twoCpus) (some ⟨7, true⟩) unmappedTask).state.loc.length)
      ↔ ¬ StuckOnOwn (planEnv 2 twoCpus) unmappedTask
        ∧ ¬ StuckOnProbe (planEnv 2 twoCpus) (planLlcs twoCpus [] mlfqMaxLlcs) unmappedTask :=
  mlfqDispatch_works_iff Config.default_valid
    (show (planEnv 2 twoCpus).machine.rod
      = (({} : Config)).apply (planEnv 2 twoCpus).machine.rod from rfl)
    (by decide) (planEnv_on (by decide) (by decide)) (fun _ _ => rfl) rfl
    (show unmappedTask.records 7 = some {} from rfl)

end ScxMlfq
