import ScxMlfq.Bpf.Dispatch
import ScxMlfq.Daemon.Topology

/-!
# Bpf — Steal

The two windows of a steal on the topology the front end publishes. Tier A
visits the CPUs of the own domain, Tier B the CPUs outside of it. On a
machine within the scan cap they visit every remote CPU between them, and
a slot steals whenever there is a head to steal.
-/

namespace ScxMlfq

/-- A full turn from any start visits every index. -/
theorem exists_turn_index {n c : Nat} (off : Nat) (hc : c < n) :
    ∃ i, i < n ∧ (off + i) % n = c := by
  have hn : 0 < n := by omega
  refine ⟨(c + (n - off % n)) % n, Nat.mod_lt _ hn, ?_⟩
  have hoff := Nat.div_add_mod off n
  have hlt := Nat.mod_lt off hn
  rw [Nat.add_mod_mod]
  have heq : off + (c + (n - off % n)) = c + n * (off / n + 1) := by
    rw [Nat.mul_add, Nat.mul_one]
    omega
  rw [heq, Nat.add_mul_mod_self_left, Nat.mod_eq_of_lt hc]

/-! ## The plan -/

/-- What a published plan says: the CPUs of a domain are those that decode
to it. -/
structure LlcPlan.Maps (plan : LlcPlan) : Prop where
  le : plan.nrLlcs ≤ mlfqMaxLlcs
  mem : ∀ cpu llc, cpu ∈ plan.llcCpus llc
    ↔ cpu < mlfqMaxCpus ∧ llc < plan.nrLlcs ∧ plan.cpuLlc cpu = llc

/-- **Every plan of distinct CPUs maps them.** -/
theorem planLlcs_maps {pairs : List (Nat × Nat)} (hnodup : (pairs.map Prod.fst).Nodup)
    (primary : List Nat) : (planLlcs pairs primary mlfqMaxLlcs).Maps := by
  rcases planLlcs_cases hnodup primary mlfqMaxLlcs with hoff | ⟨hp, hnr, hmax⟩
  · rw [hoff]
    exact ⟨Nat.zero_le _, fun cpu llc => by simp⟩
  · refine ⟨by omega, fun cpu llc => ?_⟩
    rw [hp.mem]
    constructor
    · intro ⟨hcpu, hin⟩
      have := le_maxLlc hin
      exact ⟨hcpu, by show llc < _; simp only at this; omega, hp.mapped cpu llc hcpu hin⟩
    · intro ⟨hcpu, hllc, heq⟩
      -- an unmapped CPU decodes to the sentinel, which is no domain
      by_cases hun : ∀ llc', (cpu, llc') ∉ pairs
      · have := hp.unmapped cpu hun
        omega
      · obtain ⟨llc', hin⟩ := not_forall_not.mp hun
        have := hp.mapped cpu llc' hcpu hin
        obtain rfl : llc' = llc := by omega
        exact ⟨hcpu, hin⟩

/-- The list of a domain, whole or empty. -/
theorem LlcPlan.Maps.lists_entries {plan : LlcPlan} (h : plan.Maps) {llc : Nat}
    (hllc : llc < plan.nrLlcs) :
    (plan.lists llc).entries
      = if (plan.llcCpus llc).length > mlfqMaxLlcCpus then [] else plan.llcCpus llc := by
  rw [LlcPlan.lists, if_pos hllc, buildLlcCpuList_entries]
  split
  · rfl
  · rw [List.filter_eq_self]
    intro cpu hcpu
    exact decide_eq_true ((h.mem cpu llc).mp hcpu).1

theorem LlcPlan.lists_nr_le (plan : LlcPlan) (llc : Nat) :
    (plan.lists llc).nr ≤ mlfqMaxLlcCpus := by
  rw [LlcPlan.lists]
  split
  · exact buildLlcCpuList_nr_le _
  · exact Nat.zero_le _

/-- `c` shares the domain of `cpu`, and the domain has a published list. -/
def LlcPlan.Near (plan : LlcPlan) (cpu c : Nat) : Prop :=
  plan.cpuLlc cpu < plan.nrLlcs
    ∧ (plan.llcCpus (plan.cpuLlc cpu)).length ≤ mlfqMaxLlcCpus
    ∧ plan.cpuLlc c = plan.cpuLlc cpu

/-! ## The windows -/

/-- The dispatch of a CPU of the machine, on the maps the front end fills
from a plan and the window `mlfq_init` sets. -/
structure DispatchEnv.On (env : DispatchEnv) (plan : LlcPlan) : Prop where
  nrLlcs : env.machine.rod.nrLlcs = plan.nrLlcs
  cpuLlc : env.machine.rod.cpuLlc = plan.cpuLlc
  llcCpus : env.llcCpus = plan.lists
  stealScan : env.machine.stealScan
    = if env.machine.nrCpuIds < mlfqStealScanMax then env.machine.nrCpuIds
      else mlfqStealScanMax
  cpu : env.cpu < env.machine.nrCpuIds
  nr : env.machine.nrCpuIds ≤ mlfqMaxCpus

/-- A successful `mlfq_init` leaves such a machine. -/
theorem DispatchEnv.on_of_init {m m' : Machine} {createDsq : U64 → Int} {plan : LlcPlan}
    (h : mlfqInit m createDsq = .ok m') (hnr : m.rod.nrLlcs = plan.nrLlcs)
    (hllc : m.rod.cpuLlc = plan.cpuLlc) {cpu : Nat} (hcpu : cpu < m.nrCpuIds)
    (runs : Nat → DsqTask → Bool) :
    DispatchEnv.On { machine := m', llcCpus := plan.lists, cpu, runs } plan := by
  obtain ⟨rfl, -, hmax⟩ := mlfqInit_ok h
  exact ⟨hnr, hllc, rfl, rfl, hcpu, hmax⟩

namespace DispatchEnv.On

variable {env : DispatchEnv} {plan : LlcPlan}

theorem ownLlc_eq (h : env.On plan) : env.ownLlc = plan.cpuLlc env.cpu := by
  have := h.cpu
  have := h.nr
  rw [DispatchEnv.ownLlc, if_pos (by omega), h.cpuLlc]

/-- The scanned length of the own list. -/
theorem tierANr_eq (h : env.On plan) (hm : plan.Maps) :
    env.tierANr = if plan.cpuLlc env.cpu < plan.nrLlcs
      then (plan.lists (plan.cpuLlc env.cpu)).nr else 0 := by
  have hcpu := h.cpu
  have hnr := h.nr
  have hle := hm.le
  have hlist := plan.lists_nr_le (plan.cpuLlc env.cpu)
  rw [DispatchEnv.tierANr, DispatchEnv.ownLlcList, h.ownLlc_eq, h.nrLlcs, h.llcCpus]
  by_cases hown : plan.cpuLlc env.cpu < plan.nrLlcs
  · rw [if_pos ⟨by omega, hown, by omega⟩, if_pos hown]
    simp only [hown, and_true]
    split
    · exact Nat.min_eq_left hlist
    · omega
  · rw [if_neg (by tauto), if_neg hown]

/-- **Tier A is live** where the own domain is mapped and fits the window. -/
theorem tierANr_pos (h : env.On plan) (hm : plan.Maps) :
    env.tierANr > 0 ↔ plan.Near env.cpu env.cpu := by
  have hcpu := h.cpu
  have hnr := h.nr
  rw [h.tierANr_eq hm, LlcPlan.Near]
  by_cases hown : plan.cpuLlc env.cpu < plan.nrLlcs
  · rw [if_pos hown, ← LlcCpuList.length_entries, hm.lists_entries hown]
    have hmem : env.cpu ∈ plan.llcCpus (plan.cpuLlc env.cpu) :=
      (hm.mem _ _).mpr ⟨by omega, hown, rfl⟩
    have hpos := List.length_pos_of_mem hmem
    split
    · constructor
      · intro h0
        simp at h0
      · intro hfit
        omega
    · constructor
      · intro _
        exact ⟨hown, by omega, rfl⟩
      · intro _
        exact hpos
  · rw [if_neg hown]
    constructor
    · omega
    · intro hn
      exact absurd hn.1 hown

theorem mem_tierA (h : env.On plan) (hm : plan.Maps) (off c : Nat) :
    c ∈ env.tierA off ↔ c ≠ env.cpu ∧ c < mlfqMaxCpus ∧ plan.Near env.cpu c := by
  have hnr := h.tierANr_eq hm
  have hlist := plan.lists_nr_le (plan.cpuLlc env.cpu)
  have hentry : c ∈ env.tierA off
      ↔ c ≠ env.cpu ∧ ∃ i, i < env.tierANr ∧ (env.llcCpus env.ownLlc).cpus i = c := by
    simp only [DispatchEnv.tierA, List.mem_filterMap, List.mem_range]
    constructor
    · rintro ⟨i, -, hsome⟩
      split at hsome
      · cases hsome
      · rename_i hidx
        split at hsome
        · cases hsome
        · rename_i hne
          obtain rfl := Option.some.inj hsome
          exact ⟨hne, _, Nat.not_le.mp hidx, rfl⟩
    · rintro ⟨hne, k, hk, rfl⟩
      have hwidth : k < mlfqLlcScanMax := by
        have hmax : mlfqMaxLlcCpus = mlfqLlcScanMax := rfl
        rw [hnr] at hk
        split at hk <;> omega
      obtain ⟨i, hi, hidx⟩ := exists_turn_index off hwidth
      refine ⟨i, hi, ?_⟩
      rw [hidx, if_neg (by omega), if_neg hne]
  rw [hentry, hnr, h.ownLlc_eq, h.llcCpus, LlcPlan.Near]
  by_cases hown : plan.cpuLlc env.cpu < plan.nrLlcs
  · have hmem : (∃ i, i < (plan.lists (plan.cpuLlc env.cpu)).nr
        ∧ (plan.lists (plan.cpuLlc env.cpu)).cpus i = c)
        ↔ c ∈ (plan.lists (plan.cpuLlc env.cpu)).entries := by
      simp [LlcCpuList.entries]
    rw [if_pos hown, hmem, hm.lists_entries hown]
    by_cases hfit : (plan.llcCpus (plan.cpuLlc env.cpu)).length ≤ mlfqMaxLlcCpus
    · rw [if_neg (by omega), hm.mem]
      simp [hown, hfit]
    · rw [if_pos (by omega)]
      simp [hfit]
  · rw [if_neg hown]
    simp [hown]

theorem mem_tierB (h : env.On plan) (hm : plan.Maps) (off c : Nat) :
    c ∈ env.tierB off
      ↔ (∃ i, i < env.machine.stealScan ∧ (off + i) % env.machine.nrCpuIds = c)
        ∧ c ≠ env.cpu ∧ ¬ plan.Near env.cpu c := by
  have hcpu := h.cpu
  have hnr := h.nr
  have hnear : c < env.machine.nrCpuIds →
      ((env.tierANr > 0 ∧ env.machine.rod.cpuLlc (c % mlfqMaxCpus) = env.ownLlc)
        ↔ plan.Near env.cpu c) := by
    intro hc
    rw [h.tierANr_pos hm, Nat.mod_eq_of_lt (by omega), h.cpuLlc, h.ownLlc_eq, LlcPlan.Near,
      LlcPlan.Near]
    tauto
  simp only [DispatchEnv.tierB, List.mem_filterMap, List.mem_range]
  constructor
  · rintro ⟨i, hi, hsome⟩
    have hc : (off + i) % env.machine.nrCpuIds < env.machine.nrCpuIds :=
      Nat.mod_lt _ (by omega)
    split at hsome
    · cases hsome
    · split at hsome
      · cases hsome
      · rename_i hne hskip
        obtain rfl := Option.some.inj hsome
        exact ⟨⟨i, hi, rfl⟩, hne, fun hn => hskip ((hnear hc).mpr hn)⟩
  · rintro ⟨⟨i, hi, rfl⟩, hne, hfar⟩
    have hc : (off + i) % env.machine.nrCpuIds < env.machine.nrCpuIds :=
      Nat.mod_lt _ (by omega)
    refine ⟨i, hi, ?_⟩
    rw [if_neg hne, if_neg fun hs => hfar ((hnear hc).mp hs)]

end DispatchEnv.On

/-! ## The scan -/

namespace DispatchEnv

variable {env : DispatchEnv} {q : Queue} {dsqs : Dsqs}

theorem mem_heads {probes : List Nat} {c : Nat} {t : DsqTask} :
    (c, t) ∈ env.heads q dsqs probes ↔ c ∈ probes ∧ peekHead (dsqs q c) env.cpu = some t := by
  simp only [heads, List.mem_filterMap, Option.map_eq_some_iff, Prod.mk.injEq]
  constructor
  · rintro ⟨c', hc', t', hpeek, rfl, rfl⟩
    exact ⟨hc', hpeek⟩
  · rintro ⟨hc, hpeek⟩
    exact ⟨c, hc, t, hpeek, rfl, rfl⟩

theorem scan_eq_none {probes : List Nat} :
    env.scan q dsqs probes = none ↔ ∀ c ∈ probes, peekHead (dsqs q c) env.cpu = none := by
  rw [scan, Serial.earliest_eq_none, List.eq_nil_iff_forall_not_mem]
  constructor
  · intro hno c hc
    rw [Option.eq_none_iff_forall_not_mem]
    intro t ht
    exact hno (c, t) (mem_heads.mpr ⟨hc, ht⟩)
  · rintro hno ⟨c, t⟩ hmem
    obtain ⟨hc, hpeek⟩ := mem_heads.mp hmem
    rw [hno c hc] at hpeek
    cases hpeek

theorem scan_some {probes : List Nat} {c : Nat} {t : DsqTask}
    (h : env.scan q dsqs probes = some (c, t)) :
    c ∈ probes ∧ peekHead (dsqs q c) env.cpu = some t :=
  mem_heads.mp (Serial.earliest_mem h)

/-- The scan returns an earliest head of its window. -/
theorem not_before_scan {probes : List Nat} {base : U64}
    (hwin : ∀ c ∈ probes, ∀ t, peekHead (dsqs q c) env.cpu = some t →
      2 * Serial.gap base t.vtime < 2 ^ 64)
    {c c' : Nat} {t t' : DsqTask} (h : env.scan q dsqs probes = some (c, t))
    (hc' : c' ∈ probes) (ht' : peekHead (dsqs q c') env.cpu = some t') :
    ¬ Serial.Before t'.vtime t.vtime := by
  have hall : Serial.Within (fun x : Nat × DsqTask => x.2.vtime) base
      (env.heads q dsqs probes) := by
    rintro ⟨c, t⟩ hmem
    obtain ⟨hc, ht⟩ := mem_heads.mp hmem
    exact hwin c hc t ht
  have hmem : (c', t') ∈ env.heads q dsqs probes := mem_heads.mpr ⟨hc', ht'⟩
  rw [scan] at h
  exact @Serial.not_before_earliest _ _ (fun x : Nat × DsqTask => x.2.vtime) base _ hall (c, t) h
    (c', t') hmem

/-- The CPUs one slot probes. -/
def reach (env : DispatchEnv) (off : Nat) : List Nat :=
  (if env.tierANr > 0 then env.tierA off else [])
    ++ if ¬ env.tierANr > 0 ∨ env.machine.rod.nrLlcs ≠ 1 then env.tierB off else []

/-- **A slot steals from its reach**, and finds nothing only where no CPU
in reach has a head for this CPU. -/
theorem steal_eq_none {off : Nat} :
    env.steal q off dsqs = none
      ↔ ∀ c ∈ env.reach off, peekHead (dsqs q c) env.cpu = none := by
  have happend (l l' : List Nat) :
      (∀ c ∈ l ++ l', peekHead (dsqs q c) env.cpu = none)
        ↔ env.scan q dsqs l = none ∧ env.scan q dsqs l' = none := by
    simp only [scan_eq_none, List.mem_append, or_imp, forall_and]
  have hempty : env.scan q dsqs [] = none := rfl
  rw [reach, happend, steal]
  by_cases hA : env.tierANr > 0
  · rw [if_pos hA, if_pos hA]
    cases hscan : env.scan q dsqs (env.tierA off) with
    | none =>
        simp only [true_and]
        split
        · exact Iff.rfl
        · simp [hempty]
    | some best => simp
  · rw [if_neg hA, if_neg hA, if_pos (.inl hA)]
    simp [hempty, hA]

theorem steal_some {off c : Nat} {t : DsqTask} (h : env.steal q off dsqs = some (c, t)) :
    c ∈ env.reach off ∧ peekHead (dsqs q c) env.cpu = some t := by
  rw [steal] at h
  rw [reach]
  split at h
  · rename_i best hA
    split at hA
    · rename_i hpos
      obtain rfl := Option.some.inj h
      obtain ⟨hc, hpeek⟩ := scan_some hA
      exact ⟨List.mem_append_left _ (by rw [if_pos hpos]; exact hc), hpeek⟩
    · cases hA
  · split at h
    · rename_i hB
      obtain ⟨hc, hpeek⟩ := scan_some h
      exact ⟨List.mem_append_right _ (by rw [if_pos hB]; exact hc), hpeek⟩
    · cases h

end DispatchEnv

/-! ## A machine within the scan cap -/

/-- The mapped CPUs of a live plan are those of its pairs. -/
theorem planLlcs_mapped {pairs : List (Nat × Nat)} (hnodup : (pairs.map Prod.fst).Nodup)
    {primary : List Nat} (hlive : (planLlcs pairs primary mlfqMaxLlcs).nrLlcs ≠ 0) {c : Nat}
    (hc : c < mlfqMaxCpus) :
    (planLlcs pairs primary mlfqMaxLlcs).cpuLlc c < (planLlcs pairs primary mlfqMaxLlcs).nrLlcs
      ↔ ∃ llc, (c, llc) ∈ pairs := by
  rcases planLlcs_cases hnodup primary mlfqMaxLlcs with hoff | ⟨hp, hnr, hmax⟩
  · rw [hoff] at hlive
    exact absurd rfl hlive
  · rw [hnr]
    constructor
    · intro hlt
      by_contra hno
      have := hp.unmapped c (not_exists.mp hno)
      omega
    · rintro ⟨llc, hin⟩
      have hle := le_maxLlc hin
      rw [hp.mapped c llc hc hin]
      exact Nat.lt_succ_of_le hle

namespace DispatchEnv

variable {env : DispatchEnv} {pairs : List (Nat × Nat)} {primary : List Nat}

/-- The window of Tier B is the whole machine. -/
theorem On.mem_tierB_of_le {plan : LlcPlan} (h : env.On plan) (hm : plan.Maps)
    (hcap : env.machine.nrCpuIds ≤ mlfqStealScanMax) (off c : Nat) :
    c ∈ env.tierB off
      ↔ c < env.machine.nrCpuIds ∧ c ≠ env.cpu ∧ ¬ plan.Near env.cpu c := by
  have hcpu := h.cpu
  have hscan : env.machine.stealScan = env.machine.nrCpuIds := by
    rw [h.stealScan]
    split <;> omega
  rw [h.mem_tierB hm, hscan]
  constructor
  · rintro ⟨⟨i, -, rfl⟩, hne, hfar⟩
    exact ⟨Nat.mod_lt _ (by omega), hne, hfar⟩
  · rintro ⟨hc, hne, hfar⟩
    exact ⟨exists_turn_index off hc, hne, hfar⟩

/-- The window of Tier A is the own domain. -/
theorem On.mem_tierA_of_cover (h : env.On (planLlcs pairs primary mlfqMaxLlcs))
    (hnodup : (pairs.map Prod.fst).Nodup)
    (hcover : ∀ c, c < env.machine.nrCpuIds ↔ ∃ llc, (c, llc) ∈ pairs) (off c : Nat) :
    c ∈ env.tierA off
      ↔ c < env.machine.nrCpuIds ∧ c ≠ env.cpu
        ∧ (planLlcs pairs primary mlfqMaxLlcs).Near env.cpu c := by
  have hnr := h.nr
  rw [h.mem_tierA (planLlcs_maps hnodup primary)]
  constructor
  · rintro ⟨hne, hc, hnear⟩
    refine ⟨(hcover c).mpr ?_, hne, hnear⟩
    have hlt := hnear.1
    have hlive : (planLlcs pairs primary mlfqMaxLlcs).nrLlcs ≠ 0 := by omega
    exact (planLlcs_mapped hnodup hlive hc).mp (by rw [hnear.2.2]; exact hlt)
  · rintro ⟨hc, hne, hnear⟩
    exact ⟨hne, by omega, hnear⟩

/-- **The two tiers visit every remote CPU**, and no other. -/
theorem On.mem_reach (h : env.On (planLlcs pairs primary mlfqMaxLlcs))
    (hnodup : (pairs.map Prod.fst).Nodup)
    (hcover : ∀ c, c < env.machine.nrCpuIds ↔ ∃ llc, (c, llc) ∈ pairs)
    (hcap : env.machine.nrCpuIds ≤ mlfqStealScanMax) (off c : Nat) :
    c ∈ env.reach off ↔ c < env.machine.nrCpuIds ∧ c ≠ env.cpu := by
  have hm := planLlcs_maps hnodup primary
  have hA := h.mem_tierA_of_cover hnodup hcover off c
  have hB := h.mem_tierB_of_le hm hcap off c
  have hnr := h.nr
  rw [reach, List.mem_append]
  by_cases hlive : env.tierANr > 0
  · rw [if_pos hlive, hA]
    by_cases hone : env.machine.rod.nrLlcs ≠ 1
    · rw [if_pos (.inr hone), hB]
      tauto
    · -- one domain: every CPU is in it
      rw [if_neg (by tauto)]
      have hnear := (h.tierANr_pos hm).mp hlive
      have hnrLlcs := h.nrLlcs.symm.trans (not_not.mp hone)
      have hall : c < env.machine.nrCpuIds →
          (planLlcs pairs primary mlfqMaxLlcs).Near env.cpu c := by
        intro hc
        have hown := hnear.1
        have hsome : (planLlcs pairs primary mlfqMaxLlcs).nrLlcs ≠ 0 := by omega
        have hcl := (planLlcs_mapped hnodup hsome
          (show c < mlfqMaxCpus by omega)).mpr ((hcover c).mp hc)
        exact ⟨hown, hnear.2.1, by omega⟩
      simp only [List.not_mem_nil, or_false]
      tauto
  · have hdead : ∀ c, ¬ (planLlcs pairs primary mlfqMaxLlcs).Near env.cpu c := by
      intro c hc
      exact hlive ((h.tierANr_pos hm).mpr ⟨hc.1, hc.2.1, rfl⟩)
    rw [if_neg hlive, if_pos (.inl hlive), hB]
    have := hdead c
    simp only [List.not_mem_nil, false_or]
    tauto

/-- A task at the head of the DSQ of a remote CPU that may run here. -/
def HeadAt (env : DispatchEnv) (q : Queue) (dsqs : Dsqs) (c : Nat) (t : DsqTask) : Prop :=
  c < env.machine.nrCpuIds ∧ c ≠ env.cpu ∧ (dsqs q c).head? = some t ∧ t.cpus env.cpu = true

/-- No such head on the CPUs of `among` has a deadline before `t`. -/
def EarliestOf (env : DispatchEnv) (q : Queue) (dsqs : Dsqs) (among : Nat → Prop)
    (t : DsqTask) : Prop :=
  ∀ c' t', among c' → env.HeadAt q dsqs c' t' → ¬ Serial.Before t'.vtime t.vtime

end DispatchEnv

theorem peekHead_eq_some {dsq : List DsqTask} {cpu : Nat} {t : DsqTask} :
    peekHead dsq cpu = some t ↔ dsq.head? = some t ∧ t.cpus cpu = true := by
  cases dsq with
  | nil => simp [peekHead]
  | cons u dsq =>
      rw [peekHead, List.head?_cons, Option.some.injEq]
      split
      · rename_i hrun
        rw [Option.some.injEq]
        constructor
        · rintro rfl
          exact ⟨rfl, hrun⟩
        · exact And.left
      · rename_i hrun
        constructor
        · nofun
        · rintro ⟨rfl, hcpu⟩
          exact absurd hcpu hrun

/-- A move that fails leaves the DSQs alone. -/
theorem moveToLocal_dsqs {env : DispatchEnv} {q : Queue} {c : Nat} {s : DispatchState}
    (h : (moveToLocal env q c s).1 = false) : (moveToLocal env q c s).2.dsqs = s.dsqs := by
  rw [moveToLocal] at h ⊢
  split at h
  · rfl
  · cases h

namespace DispatchEnv

variable {env : DispatchEnv} {pairs : List (Nat × Nat)} {primary : List Nat}

/-- The choice of a slot between the two tiers. -/
theorem On.steal_chooses (h : env.On (planLlcs pairs primary mlfqMaxLlcs))
    (hnodup : (pairs.map Prod.fst).Nodup)
    (hcover : ∀ c, c < env.machine.nrCpuIds ↔ ∃ llc, (c, llc) ∈ pairs)
    (hcap : env.machine.nrCpuIds ≤ mlfqStealScanMax) {q : Queue} {dsqs : Dsqs} {base : U64}
    (hwin : ∀ c t, env.HeadAt q dsqs c t → 2 * Serial.gap base t.vtime < 2 ^ 64)
    {off c : Nat} {t : DsqTask} (hsteal : env.steal q off dsqs = some (c, t)) :
    env.HeadAt q dsqs c t
      ∧ ((∃ c' t', (planLlcs pairs primary mlfqMaxLlcs).Near env.cpu c'
            ∧ env.HeadAt q dsqs c' t') →
          (planLlcs pairs primary mlfqMaxLlcs).Near env.cpu c
            ∧ env.EarliestOf q dsqs ((planLlcs pairs primary mlfqMaxLlcs).Near env.cpu) t)
      ∧ ((¬ ∃ c' t', (planLlcs pairs primary mlfqMaxLlcs).Near env.cpu c'
            ∧ env.HeadAt q dsqs c' t') →
          env.EarliestOf q dsqs (fun _ => True) t) := by
  have hm := planLlcs_maps hnodup primary
  have hA := h.mem_tierA_of_cover hnodup hcover off
  have hB := h.mem_tierB_of_le hm hcap off
  have hheadA : ∀ c' t', c' ∈ env.tierA off → peekHead (dsqs q c') env.cpu = some t' →
      env.HeadAt q dsqs c' t' := fun c' t' hc' ht' =>
    ⟨((hA c').mp hc').1, ((hA c').mp hc').2.1, peekHead_eq_some.mp ht'⟩
  have hheadB : ∀ c' t', c' ∈ env.tierB off → peekHead (dsqs q c') env.cpu = some t' →
      env.HeadAt q dsqs c' t' := fun c' t' hc' ht' =>
    ⟨((hB c').mp hc').1, ((hB c').mp hc').2.1, peekHead_eq_some.mp ht'⟩
  -- a near head is in the window of Tier A, which is then live
  have hnearA : ∀ c' t', (planLlcs pairs primary mlfqMaxLlcs).Near env.cpu c' →
      env.HeadAt q dsqs c' t' →
      env.tierANr > 0 ∧ c' ∈ env.tierA off ∧ peekHead (dsqs q c') env.cpu = some t' :=
    fun c' t' hn hh => ⟨(h.tierANr_pos hm).mpr ⟨hn.1, hn.2.1, rfl⟩,
      (hA c').mpr ⟨hh.1, hh.2.1, hn⟩, peekHead_eq_some.mpr hh.2.2⟩
  rw [steal] at hsteal
  split at hsteal
  · rename_i best htier
    split at htier
    · obtain rfl := Option.some.inj hsteal
      obtain ⟨hc, hpeek⟩ := scan_some htier
      have hnear := ((hA c).mp hc).2.2
      have hhead := hheadA c t hc hpeek
      refine ⟨hhead, fun _ => ⟨hnear, fun c' t' hn hh => ?_⟩,
        fun hno => absurd ⟨c, t, hnear, hhead⟩ hno⟩
      obtain ⟨-, hc', hpeek'⟩ := hnearA c' t' hn hh
      exact not_before_scan (fun x hx u hu => hwin x u (hheadA x u hx hu)) htier hc' hpeek'
    · cases htier
  · rename_i htier
    split at hsteal
    · obtain ⟨hc, hpeek⟩ := scan_some hsteal
      have hno : ¬ ∃ c' t', (planLlcs pairs primary mlfqMaxLlcs).Near env.cpu c'
          ∧ env.HeadAt q dsqs c' t' := by
        rintro ⟨c', t', hn, hh⟩
        obtain ⟨hlive, hc', hpeek'⟩ := hnearA c' t' hn hh
        rw [if_pos hlive] at htier
        rw [scan_eq_none.mp htier c' hc'] at hpeek'
        cases hpeek'
      refine ⟨hheadB c t hc hpeek, fun hex => absurd hex hno, fun _ c' t' _ hh => ?_⟩
      have hfar := fun hn => hno ⟨c', t', hn, hh⟩
      exact not_before_scan (fun x hx u hu => hwin x u (hheadB x u hx hu)) hsteal
        ((hB c').mpr ⟨hh.1, hh.2.1, hfar⟩) (peekHead_eq_some.mpr hh.2.2)
    · cases hsteal

end DispatchEnv

/-- **Coverage and choice of a steal.** On a machine within the scan cap
whose CPUs the plan covers, a slot whose own DSQ yields nothing probes
exactly the remote CPUs. It ends the queue where none of them has a head
that may run here, and otherwise moves from the CPU with the earliest of
these heads, in the own domain where that has a list and one of them. -/
theorem dispatchSlots_steal {env : DispatchEnv} {pairs : List (Nat × Nat)} {primary : List Nat}
    (hnodup : (pairs.map Prod.fst).Nodup)
    (hcover : ∀ c, c < env.machine.nrCpuIds ↔ ∃ llc, (c, llc) ∈ pairs)
    (h : env.On (planLlcs pairs primary mlfqMaxLlcs))
    (hcap : env.machine.nrCpuIds ≤ mlfqStealScanMax) {q : Queue} {s : DispatchState}
    {base : U64} (hwin : ∀ c t, env.HeadAt q s.dsqs c t → 2 * Serial.gap base t.vtime < 2 ^ 64)
    (hown : (moveToLocal env q env.cpu s).1 = false) (off slots moved : Nat) :
    let near := (planLlcs pairs primary mlfqMaxLlcs).Near env.cpu
    let s₁ := (moveToLocal env q env.cpu s).2
    (∀ c, c ∈ env.reach off ↔ c < env.machine.nrCpuIds ∧ c ≠ env.cpu)
      ∧ ((∀ c t, ¬ env.HeadAt q s.dsqs c t) →
          dispatchSlots env q off (slots + 1) moved s = (moved, s₁))
      ∧ ((∃ c t, env.HeadAt q s.dsqs c t) → ∃ c t, env.HeadAt q s.dsqs c t
          ∧ ((∃ c' t', near c' ∧ env.HeadAt q s.dsqs c' t') →
              near c ∧ env.EarliestOf q s.dsqs near t)
          ∧ ((¬ ∃ c' t', near c' ∧ env.HeadAt q s.dsqs c' t') →
              env.EarliestOf q s.dsqs (fun _ => True) t)
          ∧ dispatchSlots env q off (slots + 1) moved s
            = (let stolen := moveToLocal env q c s₁
               if stolen.1
               then dispatchSlots env q off slots (moved + 1) (enterStolen env q t stolen.2)
               else dispatchSlots env q off slots moved stolen.2)) := by
  have hreach := h.mem_reach hnodup hcover hcap off
  have hdsqs := moveToLocal_dsqs hown
  refine ⟨hreach, fun hno => ?_, fun ⟨c₀, t₀, hhead₀⟩ => ?_⟩
  · have hnone : env.steal q off s.dsqs = none := by
      rw [DispatchEnv.steal_eq_none]
      intro c hc
      rw [Option.eq_none_iff_forall_not_mem]
      intro t ht
      exact hno c t ⟨((hreach c).mp hc).1, ((hreach c).mp hc).2, peekHead_eq_some.mp ht⟩
    rw [dispatchSlots, if_neg (by rw [hown]; exact Bool.false_ne_true), hdsqs, hnone]
  · cases hsteal : env.steal q off s.dsqs with
    | none =>
        have hnone := DispatchEnv.steal_eq_none.mp hsteal c₀
          ((hreach c₀).mpr ⟨hhead₀.1, hhead₀.2.1⟩)
        rw [peekHead_eq_some.mpr hhead₀.2.2] at hnone
        cases hnone
    | some best =>
        obtain ⟨c, t⟩ := best
        obtain ⟨hhead, hnear, hfar⟩ := h.steal_chooses hnodup hcover hcap hwin hsteal
        refine ⟨c, t, hhead, hnear, hfar, ?_⟩
        rw [dispatchSlots, if_neg (by rw [hown]; exact Bool.false_ne_true), hdsqs, hsteal]

/-- Four CPUs in two domains. -/
def fourCpus : List (Nat × Nat) := [(0, 0), (1, 0), (2, 1), (3, 1)]

/-- A machine of `nr` CPUs on the plan of a topology, at CPU 0. -/
def planEnv (nr : Nat) (pairs : List (Nat × Nat)) : DispatchEnv :=
  { machine := (Machine.zeroed
      { nrLlcs := (planLlcs pairs [] mlfqMaxLlcs).nrLlcs
        cpuLlc := (planLlcs pairs [] mlfqMaxLlcs).cpuLlc } nr).seed
    llcCpus := (planLlcs pairs [] mlfqMaxLlcs).lists
    cpu := 0
    runs := fun _ t => t.cpus 0 }

theorem planEnv_on {nr : Nat} {pairs : List (Nat × Nat)} (hpos : 0 < nr)
    (hmax : nr ≤ mlfqMaxCpus) : (planEnv nr pairs).On (planLlcs pairs [] mlfqMaxLlcs) :=
  ⟨rfl, rfl, rfl, rfl, hpos, hmax⟩

/-- A head at 5 in the own domain and one at 3 in the other. -/
def twoHeads : DispatchState :=
  { dsqs := fun q c => match q, c with
      | .q1, 1 => [⟨1, 5, fun _ => true⟩]
      | .q1, 2 => [⟨2, 3, fun _ => true⟩]
      | _, _ => [] }

/-- The head of the own domain is moved, the later of the two. -/
theorem dispatchSlots_steal_twoHeads :
    ∃ c t, (planEnv 4 fourCpus).HeadAt .q1 twoHeads.dsqs c t
      ∧ (planLlcs fourCpus [] mlfqMaxLlcs).Near 0 c := by
  have hnodup : (fourCpus.map Prod.fst).Nodup := by decide
  have hcover : ∀ c, c < (planEnv 4 fourCpus).machine.nrCpuIds
      ↔ ∃ llc, (c, llc) ∈ fourCpus := by
    intro c
    show c < 4 ↔ _
    simp only [fourCpus, List.mem_cons, Prod.mk.injEq, List.not_mem_nil, or_false, exists_or,
      exists_and_left, exists_eq, and_true]
    omega
  have hwin : ∀ c t, (planEnv 4 fourCpus).HeadAt .q1 twoHeads.dsqs c t →
      2 * Serial.gap 0 t.vtime < 2 ^ 64 := by
    rintro c t ⟨-, -, hhead, -⟩
    simp only [twoHeads] at hhead
    split at hhead
    · obtain rfl := Option.some.inj hhead
      decide
    · obtain rfl := Option.some.inj hhead
      decide
    · cases hhead
  have h := dispatchSlots_steal hnodup hcover (planEnv_on (by decide) (by decide)) (by decide)
    hwin rfl 0 3 0
  have hone : (planEnv 4 fourCpus).HeadAt .q1 twoHeads.dsqs 1 ⟨1, 5, fun _ => true⟩ :=
    ⟨by decide, by decide, rfl, rfl⟩
  obtain ⟨c, t, hhead, hnear, -⟩ := h.2.2 ⟨1, _, hone⟩
  exact ⟨c, t, hhead, (hnear ⟨1, _, ⟨by decide, by decide, rfl⟩, hone⟩).1⟩

end ScxMlfq
