import ScxMlfq.Bpf.Machine
import ScxMlfq.Lib.Groups
import ScxMlfq.Lib.Scan

/-!
# Daemon — Siblings

The SMT sibling table of `src/topology.rs`: the CPUs of each physical
core, and for each CPU the lowest other one. The veto and the sibling
preference of the BPF side read the table as it stands.
-/

namespace ScxMlfq

/-- `SiblingPlan`. -/
@[ext]
structure SiblingPlan where
  smtOn : Bool := false
  cpuSibling : Nat → Nat := fun i => i
  cpuCore : Nat → Nat := fun _ => mlfqMaxCpus

/-- One pair of the map; a CPU out of range is skipped. -/
def SiblingPlan.collect (s : SiblingPlan × List (Nat × List Nat)) (pair : Nat × Nat) :
    SiblingPlan × List (Nat × List Nat) :=
  if pair.1 ≥ mlfqMaxCpus then s
  else ({ s.1 with cpuCore := Function.update s.1.cpuCore pair.1 pair.2 },
    Groups.push pair.2 pair.1 s.2)

/-- The entry of one CPU of a sorted core. -/
def siblingIn (cpus : List Nat) (cpu : Nat) : Nat :=
  (cpus.find? fun c => decide (c ≠ cpu)).getD cpu

/-- The stores of one core, over its CPUs in order. -/
def SiblingPlan.storeCore (cpus : List Nat) (plan : SiblingPlan) (cpu : Nat) : SiblingPlan :=
  { plan with cpuSibling := Function.update plan.cpuSibling cpu (siblingIn cpus cpu) }

/-- One core: its CPUs sorted, without repeats. -/
def SiblingPlan.pairUp (plan : SiblingPlan) (core : Nat × List Nat) : SiblingPlan :=
  let cpus := (core.2.insertionSort (· ≤ ·)).destutter (· ≠ ·)
  if cpus.length < 2 then plan
  else cpus.foldl (SiblingPlan.storeCore cpus) { plan with smtOn := true }

/-- `plan_sibling_table`. -/
def planSiblingTable (cpuToCore : List (Nat × Nat)) : SiblingPlan :=
  let collected := cpuToCore.foldl SiblingPlan.collect ({}, [])
  collected.2.foldl SiblingPlan.pairUp collected.1

/-! ## The first loop -/

/-- A CPU of a core that the table covers. -/
def OnCore (pairs : List (Nat × Nat)) (core cpu : Nat) : Prop :=
  cpu < mlfqMaxCpus ∧ (cpu, core) ∈ pairs

/-- The pairs of the covered CPUs, with the core as the key. -/
def threads (pairs : List (Nat × Nat)) : List (Nat × Nat) :=
  (pairs.filter fun pair => decide (pair.1 < mlfqMaxCpus)).map Prod.swap

theorem mem_threads {pairs : List (Nat × Nat)} {core cpu : Nat} :
    cpu ∈ Groups.valuesOf core (threads pairs) ↔ OnCore pairs core cpu := by
  rw [Groups.mem_valuesOf, threads, OnCore]
  simp [and_comm]

theorem threads_cons (pair : Nat × Nat) (pairs : List (Nat × Nat)) :
    threads (pair :: pairs)
      = if pair.1 < mlfqMaxCpus then pair.swap :: threads pairs else threads pairs := by
  rw [threads, List.filter_cons]
  by_cases h : pair.1 < mlfqMaxCpus <;> simp [h, threads]

theorem valuesOf_threads_nodup {pairs : List (Nat × Nat)} (h : (pairs.map Prod.fst).Nodup)
    (core : Nat) : (Groups.valuesOf core (threads pairs)).Nodup := by
  have hall : ((threads pairs).map Prod.snd).Nodup := by
    have heq : (threads pairs).map Prod.snd
        = (pairs.filter fun pair => decide (pair.1 < mlfqMaxCpus)).map Prod.fst := by
      rw [threads, List.map_map]
      rfl
    rw [heq]
    exact h.sublist (List.filter_sublist.map _)
  exact hall.sublist (List.filter_sublist.map _)

theorem foldl_collect_groups (pairs : List (Nat × Nat))
    (s : SiblingPlan × List (Nat × List Nat)) :
    (pairs.foldl SiblingPlan.collect s).2
      = (threads pairs).foldl (fun m p => Groups.push p.1 p.2 m) s.2 := by
  induction pairs generalizing s with
  | nil => rfl
  | cons pair pairs ih =>
      rw [List.foldl_cons, ih, SiblingPlan.collect, threads_cons]
      by_cases h : pair.1 < mlfqMaxCpus
      · rw [if_neg (by omega), if_pos h]
        rfl
      · rw [if_pos (by omega), if_neg h]

theorem foldl_collect_plan (pairs : List (Nat × Nat))
    (s : SiblingPlan × List (Nat × List Nat)) :
    (pairs.foldl SiblingPlan.collect s).1.smtOn = s.1.smtOn
      ∧ (pairs.foldl SiblingPlan.collect s).1.cpuSibling = s.1.cpuSibling := by
  induction pairs generalizing s with
  | nil => exact ⟨rfl, rfl⟩
  | cons pair pairs ih =>
      obtain ⟨hsmt, hsib⟩ := ih (SiblingPlan.collect s pair)
      rw [List.foldl_cons, hsmt, hsib, SiblingPlan.collect]
      split <;> exact ⟨rfl, rfl⟩

/-- A CPU no pair names keeps the core it had. -/
theorem foldl_collect_noCore (pairs : List (Nat × Nat))
    (s : SiblingPlan × List (Nat × List Nat)) {cpu : Nat} (h : ∀ core, ¬ OnCore pairs core cpu) :
    (pairs.foldl SiblingPlan.collect s).1.cpuCore cpu = s.1.cpuCore cpu := by
  induction pairs generalizing s with
  | nil => rfl
  | cons pair pairs ih =>
      have hrest : ∀ core, ¬ OnCore pairs core cpu := by
        intro core hon
        exact h core ⟨hon.1, List.mem_cons_of_mem _ hon.2⟩
      rw [List.foldl_cons, ih _ hrest, SiblingPlan.collect]
      split
      · rfl
      · rename_i hin
        have hne : cpu ≠ pair.1 := by
          intro heq
          exact h pair.2 ⟨by omega, by rw [heq]; exact List.mem_cons_self⟩
        exact Function.update_of_ne hne _ _

/-- A covered CPU decodes to its core. -/
theorem foldl_collect_core {pairs : List (Nat × Nat)} (hnodup : (pairs.map Prod.fst).Nodup)
    (s : SiblingPlan × List (Nat × List Nat)) {core cpu : Nat} (h : OnCore pairs core cpu) :
    (pairs.foldl SiblingPlan.collect s).1.cpuCore cpu = core := by
  induction pairs generalizing s with
  | nil => cases h.2
  | cons pair pairs ih =>
      rw [List.map_cons, List.nodup_cons] at hnodup
      rw [List.foldl_cons]
      rcases List.mem_cons.mp h.2 with heq | hin
      · -- no later pair names the CPU again
        subst heq
        have hlt : cpu < mlfqMaxCpus := h.1
        have hlast : ∀ core', ¬ OnCore pairs core' cpu := by
          intro core' hon
          exact hnodup.1 (List.mem_map.mpr ⟨_, hon.2, rfl⟩)
        rw [foldl_collect_noCore pairs _ hlast, SiblingPlan.collect]
        have hskip : ¬ cpu ≥ mlfqMaxCpus := by omega
        rw [if_neg hskip]
        exact Function.update_self ..
      · exact ih hnodup.2 _ ⟨h.1, hin⟩

/-! ## One core -/

theorem foldl_storeCore (cpus todo : List Nat) (plan : SiblingPlan) (cpu : Nat) :
    (todo.foldl (SiblingPlan.storeCore cpus) plan).cpuSibling cpu
      = if cpu ∈ todo then siblingIn cpus cpu else plan.cpuSibling cpu := by
  induction todo generalizing plan with
  | nil => rfl
  | cons c todo ih =>
      rw [List.foldl_cons, ih, SiblingPlan.storeCore]
      by_cases hc : cpu = c
      · subst hc
        simp
      · simp [hc]

theorem foldl_storeCore_frame (cpus todo : List Nat) (plan : SiblingPlan) :
    (todo.foldl (SiblingPlan.storeCore cpus) plan).smtOn = plan.smtOn
      ∧ (todo.foldl (SiblingPlan.storeCore cpus) plan).cpuCore = plan.cpuCore := by
  induction todo generalizing plan with
  | nil => exact ⟨rfl, rfl⟩
  | cons c todo ih => exact ih (SiblingPlan.storeCore cpus plan c)

theorem pairUp_eq (plan : SiblingPlan) {core : Nat × List Nat} (h : core.2.Nodup) :
    plan.pairUp core
      = if core.2.length < 2 then plan
        else (core.2.insertionSort (· ≤ ·)).foldl
          (SiblingPlan.storeCore (core.2.insertionSort (· ≤ ·))) { plan with smtOn := true } := by
  simp only [SiblingPlan.pairUp, Groups.destutter_insertionSort h, List.length_insertionSort]

theorem pairUp_cpuSibling (plan : SiblingPlan) {core : Nat × List Nat} (h : core.2.Nodup)
    (cpu : Nat) :
    (plan.pairUp core).cpuSibling cpu
      = if 2 ≤ core.2.length ∧ cpu ∈ core.2
        then siblingIn (core.2.insertionSort (· ≤ ·)) cpu else plan.cpuSibling cpu := by
  rw [pairUp_eq plan h]
  by_cases hlen : core.2.length < 2
  · have hnot : ¬ (2 ≤ core.2.length ∧ cpu ∈ core.2) := by omega
    rw [if_pos hlen, if_neg hnot]
  · rw [if_neg hlen, foldl_storeCore]
    have hlen' : 2 ≤ core.2.length := by omega
    simp [hlen']

theorem pairUp_frame (plan : SiblingPlan) {core : Nat × List Nat} (h : core.2.Nodup) :
    (plan.pairUp core).smtOn = (plan.smtOn || decide (2 ≤ core.2.length))
      ∧ (plan.pairUp core).cpuCore = plan.cpuCore := by
  rw [pairUp_eq plan h]
  by_cases hlen : core.2.length < 2
  · have hnot : ¬ 2 ≤ core.2.length := by omega
    simp [hlen, hnot]
  · obtain ⟨hsmt, hcore⟩ := foldl_storeCore_frame (core.2.insertionSort (· ≤ ·))
      (core.2.insertionSort (· ≤ ·)) { plan with smtOn := true }
    have hlen' : 2 ≤ core.2.length := by omega
    rw [if_neg hlen, hsmt, hcore]
    simp [hlen']

/-! ## The second loop -/

theorem foldl_pairUp_frame {cores : List (Nat × List Nat)} (h : ∀ e ∈ cores, e.2.Nodup)
    (plan : SiblingPlan) :
    (cores.foldl SiblingPlan.pairUp plan).smtOn
        = (plan.smtOn || cores.any fun e => decide (2 ≤ e.2.length))
      ∧ (cores.foldl SiblingPlan.pairUp plan).cpuCore = plan.cpuCore := by
  induction cores generalizing plan with
  | nil => simp
  | cons e cores ih =>
      obtain ⟨hsmt, hcore⟩ := pairUp_frame plan (h e List.mem_cons_self)
      obtain ⟨ihsmt, ihcore⟩ := ih (fun d hd => h d (List.mem_cons_of_mem _ hd)) (plan.pairUp e)
      rw [List.foldl_cons, ihsmt, ihcore, hsmt, hcore, List.any_cons, Bool.or_assoc]
      exact ⟨rfl, rfl⟩

/-- A CPU alone on its cores keeps the entry it had. -/
theorem foldl_pairUp_of_lone {cores : List (Nat × List Nat)} (h : ∀ e ∈ cores, e.2.Nodup)
    (plan : SiblingPlan) {cpu : Nat} (hlone : ∀ e ∈ cores, cpu ∈ e.2 → ¬ 2 ≤ e.2.length) :
    (cores.foldl SiblingPlan.pairUp plan).cpuSibling cpu = plan.cpuSibling cpu := by
  induction cores generalizing plan with
  | nil => rfl
  | cons e cores ih =>
      have hhead : ¬ (2 ≤ e.2.length ∧ cpu ∈ e.2) := by
        intro hin
        exact hlone e List.mem_cons_self hin.2 hin.1
      rw [List.foldl_cons, ih (fun d hd => h d (List.mem_cons_of_mem _ hd)) _
        (fun d hd => hlone d (List.mem_cons_of_mem _ hd)),
        pairUp_cpuSibling plan (h e List.mem_cons_self), if_neg hhead]

/-- A CPU of one core only gets the entry of that core. -/
theorem foldl_pairUp_of_mem {cores : List (Nat × List Nat)} (h : ∀ e ∈ cores, e.2.Nodup)
    (hord : Groups.Ordered cores) (plan : SiblingPlan) {cpu : Nat}
    (hone : ∀ e ∈ cores, ∀ d ∈ cores, cpu ∈ e.2 → cpu ∈ d.2 → e = d)
    {e : Nat × List Nat} (he : e ∈ cores) (hcpu : cpu ∈ e.2) (hlen : 2 ≤ e.2.length) :
    (cores.foldl SiblingPlan.pairUp plan).cpuSibling cpu
      = siblingIn (e.2.insertionSort (· ≤ ·)) cpu := by
  induction cores generalizing plan with
  | nil => cases he
  | cons d cores ih =>
      obtain ⟨hhead, htail⟩ := List.pairwise_cons.mp hord
      have hrest : ∀ c ∈ cores, c.2.Nodup := fun c hc => h c (List.mem_cons_of_mem _ hc)
      rw [List.foldl_cons]
      rcases List.mem_cons.mp he with heq | hin
      · subst heq
        -- the cores after this one do not list the CPU
        have hno : ∀ c ∈ cores, cpu ∈ c.2 → ¬ 2 ≤ c.2.length := by
          intro c hc hmem
          exfalso
          have hsame := hone e List.mem_cons_self c (List.mem_cons_of_mem _ hc) hcpu hmem
          have hlt := hhead c hc
          rw [hsame] at hlt
          exact lt_irrefl _ hlt
        rw [foldl_pairUp_of_lone hrest _ hno, pairUp_cpuSibling plan (h e List.mem_cons_self),
          if_pos ⟨hlen, hcpu⟩]
      · exact ih hrest htail _ (fun c hc c' hc' =>
          hone c (List.mem_cons_of_mem _ hc) c' (List.mem_cons_of_mem _ hc')) hin

/-! ## The table -/

theorem OnCore.unique {pairs : List (Nat × Nat)} (hnodup : (pairs.map Prod.fst).Nodup)
    {core core' cpu : Nat} (h : OnCore pairs core cpu) (h' : OnCore pairs core' cpu) :
    core = core' := by
  have heq := List.inj_on_of_nodup_map hnodup h.2 h'.2 rfl
  exact congrArg Prod.snd heq

/-- A list without repeats is longer than one if and only if it has two
different members. -/
theorem two_le_length_iff {l : List Nat} (h : l.Nodup) :
    2 ≤ l.length ↔ ∃ a ∈ l, ∃ b ∈ l, b ≠ a := by
  constructor
  · intro hlen
    have hfirst : 0 < l.length := by omega
    have hsecond : 1 < l.length := by omega
    refine ⟨l[0], List.getElem_mem hfirst, l[1], List.getElem_mem hsecond, ?_⟩
    intro heq
    have := (h.getElem_inj_iff).mp heq
    omega
  · intro hpair
    obtain ⟨a, ha, b, hb, hne⟩ := hpair
    by_contra hshort
    have hfirst : 0 < l.length := List.length_pos_of_mem ha
    have hsub : ∀ c ∈ l, c = l[0] := by
      intro c hc
      obtain ⟨i, hi, rfl⟩ := List.getElem_of_mem hc
      have hzero : i = 0 := by omega
      simp only [hzero]
    exact hne ((hsub b hb).trans (hsub a ha).symm)

theorem siblingIn_isLeast {l : List Nat} {cpu other : Nat} (hother : other ∈ l)
    (hne : other ≠ cpu) :
    IsLeast { c | c ≠ cpu ∧ c ∈ l } (siblingIn (l.insertionSort (· ≤ ·)) cpu) := by
  have hsorted := List.pairwise_insertionSort (· ≤ ·) l
  rw [siblingIn]
  cases hfind : (l.insertionSort (· ≤ ·)).find? fun c => decide (c ≠ cpu) with
  | none =>
      have hnot := List.find?_eq_none.mp hfind other (by
        rw [List.mem_insertionSort]
        exact hother)
      simp [hne] at hnot
  | some c =>
      have hleast := Scan.isLeast_of_find? hsorted hfind
      have hset : { c | c ≠ cpu ∧ c ∈ l }
          = { c | c ∈ l.insertionSort (· ≤ ·) ∧ decide (c ≠ cpu) = true } := by
        ext c
        simp [and_comm]
      rw [hset]
      exact hleast

/-- What a plan says of the pairs it was built from. -/
structure SiblingPlan.Describes (plan : SiblingPlan) (pairs : List (Nat × Nat)) : Prop where
  core : ∀ cpu core, OnCore pairs core cpu → plan.cpuCore cpu = core
  noCore : ∀ cpu, (∀ core, ¬ OnCore pairs core cpu) → plan.cpuCore cpu = mlfqMaxCpus
  paired : ∀ cpu core other, OnCore pairs core cpu → OnCore pairs core other → other ≠ cpu →
    IsLeast { c | c ≠ cpu ∧ OnCore pairs core c } (plan.cpuSibling cpu)
  alone : ∀ cpu, (∀ core other, OnCore pairs core cpu → OnCore pairs core other → other = cpu) →
    plan.cpuSibling cpu = cpu
  smtOn : plan.smtOn = true
    ↔ ∃ core a b, OnCore pairs core a ∧ OnCore pairs core b ∧ b ≠ a

/-- The cores the first loop leaves. -/
theorem collected_cores (pairs : List (Nat × Nat)) :
    Groups.Holds (pairs.foldl SiblingPlan.collect ({}, [])).2 (threads pairs) := by
  rw [foldl_collect_groups]
  exact Groups.holds_group (threads pairs)

theorem planSiblingTable_describes {pairs : List (Nat × Nat)}
    (hnodup : (pairs.map Prod.fst).Nodup) : (planSiblingTable pairs).Describes pairs := by
  obtain ⟨hsmt₀, hsib₀⟩ := foldl_collect_plan pairs ({}, [])
  have hcore₀ := @foldl_collect_noCore pairs ({}, [])
  have hcore₁ := @foldl_collect_core pairs hnodup ({}, [])
  obtain ⟨hord, hmem⟩ := collected_cores pairs
  rw [planSiblingTable]
  generalize pairs.foldl SiblingPlan.collect ({}, []) = s at *
  -- the groups are the CPUs of the cores, each listed once
  have hgroup : ∀ e ∈ s.2, e.2 = Groups.valuesOf e.1 (threads pairs) :=
    fun e he => ((hmem e.1 e.2).mp he).1
  have hthreads : ∀ e ∈ s.2, ∀ cpu, cpu ∈ e.2 ↔ OnCore pairs e.1 cpu := by
    intro e he cpu
    rw [hgroup e he, mem_threads]
  have hnd : ∀ e ∈ s.2, e.2.Nodup := by
    intro e he
    rw [hgroup e he]
    exact valuesOf_threads_nodup hnodup e.1
  have hentry : ∀ {core cpu}, OnCore pairs core cpu →
      (core, Groups.valuesOf core (threads pairs)) ∈ s.2 := by
    intro core cpu hon
    exact (hmem _ _).mpr ⟨rfl, List.ne_nil_of_mem (mem_threads.mpr hon)⟩
  obtain ⟨hsmt, hcore⟩ := foldl_pairUp_frame hnd s.1
  constructor
  case core =>
    intro cpu core hon
    rw [hcore, hcore₁ hon]
  case noCore =>
    intro cpu hno
    rw [hcore, hcore₀ hno]
  case paired =>
    intro cpu core other hon hother hne
    have hcpu := mem_threads.mpr hon
    have hother' := mem_threads.mpr hother
    have hone : ∀ e ∈ s.2, ∀ d ∈ s.2, cpu ∈ e.2 → cpu ∈ d.2 → e = d := by
      intro e he d hd hin hin'
      have hkey := OnCore.unique hnodup ((hthreads e he cpu).mp hin) ((hthreads d hd cpu).mp hin')
      exact Prod.ext hkey (by rw [hgroup e he, hgroup d hd, hkey])
    rw [foldl_pairUp_of_mem hnd hord s.1 hone (hentry hon) hcpu
      ((two_le_length_iff (valuesOf_threads_nodup hnodup core)).mpr
        ⟨cpu, hcpu, other, hother', hne⟩)]
    simp only [← mem_threads]
    exact siblingIn_isLeast hother' hne
  case alone =>
    intro cpu halone
    have hlone : ∀ e ∈ s.2, cpu ∈ e.2 → ¬ 2 ≤ e.2.length := by
      intro e he hcpu hlen
      obtain ⟨a, ha, b, hb, hne⟩ := (two_le_length_iff (hnd e he)).mp hlen
      have hall {c : Nat} (hc : c ∈ e.2) : c = cpu :=
        halone e.1 c ((hthreads e he cpu).mp hcpu) ((hthreads e he c).mp hc)
      exact hne ((hall hb).trans (hall ha).symm)
    rw [foldl_pairUp_of_lone hnd s.1 hlone, hsib₀]
  case smtOn =>
    rw [hsmt, hsmt₀, Bool.false_or, List.any_eq_true]
    constructor
    · intro hany
      obtain ⟨e, he, hlen⟩ := hany
      obtain ⟨a, ha, b, hb, hne⟩ := (two_le_length_iff (hnd e he)).mp (of_decide_eq_true hlen)
      exact ⟨e.1, a, b, (hthreads e he a).mp ha, (hthreads e he b).mp hb, hne⟩
    · intro hpair
      obtain ⟨core, a, b, ha, hb, hne⟩ := hpair
      refine ⟨_, hentry ha, decide_eq_true ?_⟩
      exact (two_le_length_iff (valuesOf_threads_nodup hnodup core)).mpr
        ⟨a, mem_threads.mpr ha, b, mem_threads.mpr hb, hne⟩

/-- A description leaves nothing of the plan open below the table's
bound, and the rest is not a CPU. -/
theorem SiblingPlan.Describes.unique {pairs : List (Nat × Nat)} {plan plan' : SiblingPlan}
    (h : plan.Describes pairs) (h' : plan'.Describes pairs) : plan = plan' := by
  apply SiblingPlan.ext
  · rw [Bool.eq_iff_iff, h.smtOn, h'.smtOn]
  · funext cpu
    by_cases hpair : ∃ core other, OnCore pairs core cpu ∧ OnCore pairs core other ∧ other ≠ cpu
    · obtain ⟨core, other, hon, hother, hne⟩ := hpair
      have hpaired := h.paired cpu core other hon hother hne
      exact hpaired.unique (h'.paired cpu core other hon hother hne)
    · have halone : ∀ core other, OnCore pairs core cpu → OnCore pairs core other →
          other = cpu := by
        intro core other hon hother
        by_contra hne
        exact hpair ⟨core, other, hon, hother, hne⟩
      rw [h.alone cpu halone, h'.alone cpu halone]
  · funext cpu
    by_cases hon : ∃ core, OnCore pairs core cpu
    · obtain ⟨core, hon⟩ := hon
      rw [h.core cpu core hon, h'.core cpu core hon]
    · have hno : ∀ core, ¬ OnCore pairs core cpu := fun core hcore => hon ⟨core, hcore⟩
      rw [h.noCore cpu hno, h'.noCore cpu hno]

/-- The plan does not depend on the order of the pairs. -/
theorem planSiblingTable_of_perm {pairs pairs' : List (Nat × Nat)}
    (hnodup : (pairs.map Prod.fst).Nodup) (hperm : pairs'.Perm pairs) :
    planSiblingTable pairs' = planSiblingTable pairs := by
  have hnodup' : (pairs'.map Prod.fst).Nodup := (hperm.map _).nodup_iff.mpr hnodup
  have hon : OnCore pairs' = OnCore pairs := by
    funext core cpu
    rw [OnCore, OnCore, hperm.mem_iff]
  obtain ⟨hcore, hno, hpaired, halone, hsmt⟩ := planSiblingTable_describes hnodup'
  rw [hon] at hcore hno hpaired halone hsmt
  exact SiblingPlan.Describes.unique ⟨hcore, hno, hpaired, halone, hsmt⟩
    (planSiblingTable_describes hnodup)

section Plan
variable {pairs : List (Nat × Nat)} {plan : SiblingPlan} {cpu : Nat}

/-- An entry other than the CPU is another covered CPU of its core. -/
theorem SiblingPlan.Describes.other (h : plan.Describes pairs) (hne : plan.cpuSibling cpu ≠ cpu) :
    ∃ core, OnCore pairs core cpu ∧ OnCore pairs core (plan.cpuSibling cpu) := by
  by_contra hno
  refine hne (h.alone cpu ?_)
  intro core other hon hother
  by_contra hdiff
  exact hno ⟨core, hon, (h.paired cpu core other hon hother hdiff).1.2⟩

theorem SiblingPlan.Describes.entry_lt (h : plan.Describes pairs) (hcpu : cpu < mlfqMaxCpus) :
    plan.cpuSibling cpu < mlfqMaxCpus := by
  by_cases hself : plan.cpuSibling cpu = cpu
  · rw [hself]
    exact hcpu
  · obtain ⟨core, -, hon⟩ := h.other hself
    exact hon.1

theorem SiblingPlan.Describes.smtOn_iff (h : plan.Describes pairs) :
    plan.smtOn = true ↔ ∃ cpu, cpu < mlfqMaxCpus ∧ plan.cpuSibling cpu ≠ cpu := by
  rw [h.smtOn]
  constructor
  · intro hpair
    obtain ⟨core, a, b, ha, hb, hne⟩ := hpair
    exact ⟨a, ha.1, (h.paired a core b ha hb hne).1.1⟩
  · intro hentry
    obtain ⟨cpu, -, hne⟩ := hentry
    obtain ⟨core, hon, hsib⟩ := h.other hne
    exact ⟨core, cpu, _, hon, hsib, hne⟩

/-- The two CPUs of a core of two point at each other. -/
theorem SiblingPlan.Describes.pair (h : plan.Describes pairs) {core a b : Nat} (hne : a ≠ b)
    (hcore : ∀ c, OnCore pairs core c ↔ c = a ∨ c = b) : plan.cpuSibling a = b := by
  have ha := (hcore a).mpr (.inl rfl)
  have hb := (hcore b).mpr (.inr rfl)
  have hentry := (h.paired a core b ha hb (Ne.symm hne)).1
  rcases (hcore _).mp hentry.2 with heq | heq
  · exact absurd heq hentry.1
  · exact heq

end Plan

/-- The machine that runs with a plan. -/
def Machine.withSiblings (m : Machine) (plan : SiblingPlan) : Machine :=
  { m with rod := { m.rod with
      smtOn := plan.smtOn
      cpuSibling := plan.cpuSibling } }

/-- The veto of a CPU with an entry reads the slot of the entry. -/
theorem SiblingPlan.Describes.veto {pairs : List (Nat × Nat)} {plan : SiblingPlan} {a b : Nat}
    (h : plan.Describes pairs) (ha : a < mlfqMaxCpus) (hne : b ≠ a)
    (hsib : plan.cpuSibling a = b) (m : Machine) :
    (m.withSiblings plan).isSmtSiblingQ1Busy a = m.q1Occupancy b := by
  have hlt : b < mlfqMaxCpus := by
    rw [← hsib]
    exact h.entry_lt ha
  have hon : plan.smtOn = true := h.smtOn_iff.mpr ⟨a, ha, by rw [hsib]; exact hne⟩
  simp only [Machine.isSmtSiblingQ1Busy, Machine.withSiblings, Int.toNat_natCast, hsib, hon]
  have hin : ¬ (true = false ∨ (a : Int) < 0 ∨ (a : Int) ≥ mlfqMaxCpus) := by
    intro hout
    rcases hout with h | h | h
    · cases h
    · omega
    · omega
  have hread : ¬ (b ≥ mlfqMaxCpus ∨ (b : Int) = a) := by omega
  have hslot : ¬ b ≥ mlfqMaxCpus := by omega
  rw [if_neg hin, if_neg hread, Machine.q1IsOccupied, if_neg hslot]

/-- **The sibling table.** -/
theorem sibling_table (pairs : List (Nat × Nat)) (hnodup : (pairs.map Prod.fst).Nodup) :
    (∀ pairs', pairs'.Perm pairs → planSiblingTable pairs' = planSiblingTable pairs) ∧
      (∀ cpu core, (cpu, core) ∈ pairs → cpu < mlfqMaxCpus →
        IsLeast { c | c ≠ cpu ∧ c < mlfqMaxCpus ∧ (c, core) ∈ pairs }
            ((planSiblingTable pairs).cpuSibling cpu)
          ∨ (∀ c, c < mlfqMaxCpus → (c, core) ∈ pairs → c = cpu)
            ∧ (planSiblingTable pairs).cpuSibling cpu = cpu) ∧
      (∀ cpu, (∀ core, (cpu, core) ∉ pairs) → (planSiblingTable pairs).cpuSibling cpu = cpu) ∧
      (∀ cpu, cpu < mlfqMaxCpus → (planSiblingTable pairs).cpuSibling cpu < mlfqMaxCpus) ∧
      ((planSiblingTable pairs).smtOn = true
        ↔ ∃ cpu, cpu < mlfqMaxCpus ∧ (planSiblingTable pairs).cpuSibling cpu ≠ cpu) ∧
      (∀ core a b, a ≠ b →
        (∀ c, c < mlfqMaxCpus ∧ (c, core) ∈ pairs ↔ c = a ∨ c = b) →
          (planSiblingTable pairs).cpuSibling a = b
            ∧ (planSiblingTable pairs).cpuSibling b = a
            ∧ ∀ m : Machine,
                (m.withSiblings (planSiblingTable pairs)).isSmtSiblingQ1Busy a = m.q1Occupancy b
                ∧ (m.withSiblings (planSiblingTable pairs)).isSmtSiblingQ1Busy b
                  = m.q1Occupancy a) := by
  have h := planSiblingTable_describes hnodup
  refine ⟨fun pairs' hperm => planSiblingTable_of_perm hnodup hperm, ?_, ?_,
    fun cpu => h.entry_lt, h.smtOn_iff, ?_⟩
  · intro cpu core hin hcpu
    by_cases hother : ∃ c, c < mlfqMaxCpus ∧ (c, core) ∈ pairs ∧ c ≠ cpu
    · obtain ⟨c, hc, hcore, hne⟩ := hother
      exact .inl (h.paired cpu core c ⟨hcpu, hin⟩ ⟨hc, hcore⟩ hne)
    · have hlone : ∀ c, c < mlfqMaxCpus → (c, core) ∈ pairs → c = cpu := by
        intro c hc hcore
        by_contra hne
        exact hother ⟨c, hc, hcore, hne⟩
      refine .inr ⟨hlone, h.alone cpu ?_⟩
      intro core' other hon hon'
      rw [OnCore.unique hnodup hon ⟨hcpu, hin⟩] at hon'
      exact hlone other hon'.1 hon'.2
  · intro cpu hno
    refine h.alone cpu ?_
    intro core other hon _
    exact absurd hon.2 (hno core)
  · intro core a b hne hcore
    have ha := ((hcore a).mpr (.inl rfl)).1
    have hb := ((hcore b).mpr (.inr rfl)).1
    have hab := h.pair hne hcore
    have hba := h.pair (Ne.symm hne) fun c => (hcore c).trans or_comm
    exact ⟨hab, hba, fun m => ⟨h.veto ha (Ne.symm hne) hab m, h.veto hb hne hba m⟩⟩

/-- Two cores, one cut to a single CPU by the bound of the table. -/
theorem sibling_table_cut :
    (planSiblingTable [(1024, 1), (3, 0), (2, 1), (0, 0)]).cpuSibling 3 = 0
      ∧ (planSiblingTable [(1024, 1), (3, 0), (2, 1), (0, 0)]).cpuSibling 2 = 2 := by
  have h := sibling_table [(1024, 1), (3, 0), (2, 1), (0, 0)] (by decide)
  constructor
  · exact (h.2.2.2.2.2 0 3 0 (by decide) (by simp [mlfqMaxCpus])).1
  · rcases h.2.1 2 1 (by simp) (by decide) with hleast | hself
    · have hmem := hleast.1
      simp [mlfqMaxCpus] at hmem
      omega
    · exact hself.2

end ScxMlfq
