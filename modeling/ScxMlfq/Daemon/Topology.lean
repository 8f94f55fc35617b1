import Mathlib.Data.List.Nodup
import Mathlib.Logic.Function.Basic
import ScxMlfq.Intf.Types

/-!
# Daemon — Topology

The cache domains of `src/topology.rs`: the plan built from the
`(cpu, llc)` pairs of the sysfs scan, and the CPU list each domain
publishes for the dispatch. CPU and domain ids are `u32` values.
-/

namespace ScxMlfq

/-- `LlcPlan`. -/
structure LlcPlan where
  nrLlcs : Nat := 0
  hasPrimary : Nat → Bool := fun _ => false
  llcCpus : Nat → List Nat := fun _ => []
  cpuLlc : Nat → Nat := fun _ => mlfqMaxLlcs

/-- One pair of the map; a CPU out of range is skipped. -/
def LlcPlan.place (plan : LlcPlan) (pair : Nat × Nat) : LlcPlan :=
  if pair.1 ≥ mlfqMaxCpus then plan
  else { plan with
    cpuLlc := Function.update plan.cpuLlc pair.1 pair.2
    llcCpus := Function.update plan.llcCpus pair.2 (plan.llcCpus pair.2 ++ [pair.1]) }

/-- The largest domain id of a map. -/
def maxLlc (cpuToLlc : List (Nat × Nat)) : Nat := (cpuToLlc.map Prod.snd).foldl max 0

/-- `plan_llcs`. -/
def planLlcs (cpuToLlc : List (Nat × Nat)) (primaryCpus : List Nat) (maxLlcs : Nat) :
    LlcPlan :=
  if cpuToLlc = [] then {}
  -- `checked_add` of the last `u32`
  else if maxLlc cpuToLlc + 1 ≥ 2 ^ 32 then {}
  else if maxLlc cpuToLlc + 1 > maxLlcs then {}
  else
    let plan := cpuToLlc.foldl LlcPlan.place { nrLlcs := maxLlc cpuToLlc + 1 }
    { plan with
      hasPrimary := fun llc =>
        decide (llc < plan.nrLlcs) && (plan.llcCpus llc).any fun cpu => primaryCpus.contains cpu }

/-- One CPU of the domain; a CPU out of range is skipped. -/
def LlcCpuList.store (list : LlcCpuList) (cpu : Nat) : LlcCpuList :=
  if cpu ≥ mlfqMaxCpus then list
  else { nr := list.nr + 1, cpus := Function.update list.cpus list.nr cpu }

/-- `build_llc_cpu_list`. -/
def buildLlcCpuList (cpus : List Nat) : LlcCpuList :=
  if cpus.length > mlfqMaxLlcCpus then {}
  else cpus.foldl LlcCpuList.store {}

/-- The `mlfq_llc_cpus` map the plan publishes. -/
def LlcPlan.lists (plan : LlcPlan) (llc : Nat) : LlcCpuList :=
  if llc < plan.nrLlcs then buildLlcCpuList (plan.llcCpus llc) else {}

/-! ## The lists -/

theorem LlcCpuList.entries_store (list : LlcCpuList) (cpu : Nat) :
    (list.store cpu).entries
      = list.entries ++ if cpu < mlfqMaxCpus then [cpu] else [] := by
  rw [LlcCpuList.store]
  by_cases h : cpu ≥ mlfqMaxCpus
  · rw [if_pos h, if_neg (by omega), List.append_nil]
  · rw [if_neg h, if_pos (by omega)]
    simp only [LlcCpuList.entries, List.range_succ, List.map_append, List.map_cons,
      List.map_nil, Function.update_self]
    congr 1
    apply List.map_congr_left
    intro i hi
    rw [List.mem_range] at hi
    exact Function.update_of_ne (by omega) ..

theorem foldl_store_entries (cpus : List Nat) (list : LlcCpuList) :
    (cpus.foldl LlcCpuList.store list).entries
      = list.entries ++ cpus.filter fun cpu => cpu < mlfqMaxCpus := by
  induction cpus generalizing list with
  | nil => simp
  | cons cpu cpus ih =>
      rw [List.foldl_cons, ih, LlcCpuList.entries_store, List.filter_cons]
      by_cases h : cpu < mlfqMaxCpus <;> simp [h]

/-- **A published list holds the whole domain or nothing.** -/
theorem buildLlcCpuList_entries (cpus : List Nat) :
    (buildLlcCpuList cpus).entries
      = if cpus.length > mlfqMaxLlcCpus then []
        else cpus.filter fun cpu => cpu < mlfqMaxCpus := by
  rw [buildLlcCpuList]
  split
  · rfl
  · rw [foldl_store_entries]
    rfl

/-- No list is longer than the window. -/
theorem buildLlcCpuList_nr_le (cpus : List Nat) :
    (buildLlcCpuList cpus).nr ≤ mlfqMaxLlcCpus := by
  rw [← LlcCpuList.length_entries, buildLlcCpuList_entries]
  split
  · exact Nat.zero_le _
  · have := List.length_filter_le (fun cpu => decide (cpu < mlfqMaxCpus)) cpus
    omega

/-! ## The plan -/

theorem le_maxLlc {pairs : List (Nat × Nat)} {pair : Nat × Nat} (h : pair ∈ pairs) :
    pair.2 ≤ maxLlc pairs := by
  have hgen (l : List Nat) (m : Nat) : m ≤ l.foldl max m ∧ ∀ x ∈ l, x ≤ l.foldl max m := by
    induction l generalizing m with
    | nil => simp
    | cons y l ih =>
        have hy := ih (max m y)
        rw [List.foldl_cons]
        refine ⟨Nat.le_trans (Nat.le_max_left m y) hy.1, fun x hx => ?_⟩
        rcases List.mem_cons.mp hx with rfl | hx
        · exact Nat.le_trans (Nat.le_max_right m x) hy.1
        · exact hy.2 x hx
  exact (hgen _ 0).2 _ (List.mem_map_of_mem h)

/-- The domains of the pairs placed so far: a CPU decodes to the domain
whose list holds it. -/
structure LlcPlan.Places (plan : LlcPlan) (pairs : List (Nat × Nat)) : Prop where
  mem : ∀ cpu llc, cpu ∈ plan.llcCpus llc ↔ cpu < mlfqMaxCpus ∧ (cpu, llc) ∈ pairs
  mapped : ∀ cpu llc, cpu < mlfqMaxCpus → (cpu, llc) ∈ pairs → plan.cpuLlc cpu = llc
  unmapped : ∀ cpu, (∀ llc, (cpu, llc) ∉ pairs) → plan.cpuLlc cpu = mlfqMaxLlcs

/-- A CPU out of range enters nothing. -/
theorem LlcPlan.Places.skip {plan : LlcPlan} {pairs : List (Nat × Nat)} {c l : Nat}
    (h : plan.Places pairs) (hc : mlfqMaxCpus ≤ c) : plan.Places (pairs ++ [(c, l)]) := by
  refine ⟨fun cpu llc => ?_, fun cpu llc hcpu hmem => ?_, fun cpu hun => ?_⟩
  · rw [h.mem, List.mem_append, List.mem_singleton, Prod.mk.injEq]
    constructor
    · intro hin
      exact ⟨hin.1, .inl hin.2⟩
    · rintro ⟨hlt, hin | ⟨rfl, rfl⟩⟩
      · exact ⟨hlt, hin⟩
      · omega
  · rcases List.mem_append.mp hmem with hin | hin
    · exact h.mapped cpu llc hcpu hin
    · cases List.mem_singleton.mp hin
      omega
  · exact h.unmapped cpu fun llc hin => hun llc (List.mem_append_left _ hin)

/-- Another one enters the members of its domain and the table. -/
theorem LlcPlan.Places.enter {plan : LlcPlan} {pairs : List (Nat × Nat)} {c l : Nat}
    (h : plan.Places pairs) (hc : c < mlfqMaxCpus) (hnew : ∀ llc, (c, llc) ∉ pairs) :
    LlcPlan.Places { plan with
      llcCpus := Function.update plan.llcCpus l (plan.llcCpus l ++ [c])
      cpuLlc := Function.update plan.cpuLlc c l } (pairs ++ [(c, l)]) := by
  refine ⟨fun cpu llc => ?_, fun cpu llc hcpu hmem => ?_, fun cpu hun => ?_⟩
  · rw [List.mem_append, List.mem_singleton, Prod.mk.injEq]
    by_cases hl : llc = l
    · subst hl
      simp only [Function.update_self, List.mem_append, List.mem_singleton, h.mem]
      constructor
      · rintro (hin | rfl)
        · exact ⟨hin.1, .inl hin.2⟩
        · exact ⟨hc, .inr ⟨rfl, trivial⟩⟩
      · rintro ⟨hlt, hin | ⟨rfl, -⟩⟩
        · exact .inl ⟨hlt, hin⟩
        · exact .inr rfl
    · simp only [Function.update_of_ne hl, h.mem]
      constructor
      · intro hin
        exact ⟨hin.1, .inl hin.2⟩
      · rintro ⟨hlt, hin | ⟨-, rfl⟩⟩
        · exact ⟨hlt, hin⟩
        · exact absurd rfl hl
  · by_cases hcpu' : cpu = c
    · subst hcpu'
      simp only [Function.update_self]
      rcases List.mem_append.mp hmem with hin | hin
      · exact absurd hin (hnew llc)
      · cases List.mem_singleton.mp hin
        rfl
    · simp only [Function.update_of_ne hcpu']
      rcases List.mem_append.mp hmem with hin | hin
      · exact h.mapped cpu llc hcpu hin
      · cases List.mem_singleton.mp hin
        exact absurd rfl hcpu'
  · have hne : cpu ≠ c := by
      rintro rfl
      exact hun l (List.mem_append_right _ List.mem_cons_self)
    simp only [Function.update_of_ne hne]
    exact h.unmapped cpu fun llc hin => hun llc (List.mem_append_left _ hin)

theorem LlcPlan.Places.place {plan : LlcPlan} {pairs : List (Nat × Nat)} {pair : Nat × Nat}
    (h : plan.Places pairs) (hnew : ∀ llc, (pair.1, llc) ∉ pairs) :
    (plan.place pair).Places (pairs ++ [pair]) := by
  obtain ⟨c, l⟩ := pair
  rw [LlcPlan.place]
  by_cases hc : c ≥ mlfqMaxCpus
  · rw [if_pos hc]
    exact h.skip hc
  · rw [if_neg hc]
    exact h.enter (Nat.not_le.mp hc) hnew

theorem LlcPlan.Places.foldl {plan : LlcPlan} {done todo : List (Nat × Nat)}
    (h : plan.Places done) (hnodup : ((done ++ todo).map Prod.fst).Nodup) :
    (todo.foldl LlcPlan.place plan).Places (done ++ todo) := by
  induction todo generalizing plan done with
  | nil =>
      rw [List.append_nil]
      exact h
  | cons pair todo ih =>
      have hnew : ∀ llc, (pair.1, llc) ∉ done := by
        intro llc hin
        rw [List.map_append, List.nodup_append] at hnodup
        exact hnodup.2.2 _ (List.mem_map_of_mem hin) _ (List.mem_map_of_mem List.mem_cons_self)
          rfl
      have hassoc : done ++ pair :: todo = (done ++ [pair]) ++ todo := by simp
      rw [List.foldl_cons, hassoc]
      rw [hassoc] at hnodup
      exact ih (h.place hnew) hnodup

/-- What the plan never changes while it places CPUs. -/
theorem foldl_place_nrLlcs (pairs : List (Nat × Nat)) (plan : LlcPlan) :
    (pairs.foldl LlcPlan.place plan).nrLlcs = plan.nrLlcs := by
  induction pairs generalizing plan with
  | nil => rfl
  | cons pair pairs ih =>
      rw [List.foldl_cons, ih, LlcPlan.place]
      split <;> rfl

/-- The two kinds of plan: disabled, or a full map of the pairs. -/
theorem planLlcs_cases {pairs : List (Nat × Nat)} (hnodup : (pairs.map Prod.fst).Nodup)
    (primary : List Nat) (maxLlcs : Nat) :
    planLlcs pairs primary maxLlcs = {}
      ∨ ((planLlcs pairs primary maxLlcs).Places pairs
          ∧ (planLlcs pairs primary maxLlcs).nrLlcs = maxLlc pairs + 1
          ∧ maxLlc pairs + 1 ≤ maxLlcs) := by
  rw [planLlcs]
  split
  · exact .inl rfl
  · split
    · exact .inl rfl
    · split
      · exact .inl rfl
      · rename_i hmax
        refine .inr ⟨?_, foldl_place_nrLlcs .., Nat.not_lt.mp hmax⟩
        have hempty : (LlcPlan.Places { nrLlcs := maxLlc pairs + 1 } []) :=
          ⟨by simp, by simp, fun _ _ => rfl⟩
        obtain ⟨hmem, hmapped, hunmapped⟩ :=
          @LlcPlan.Places.foldl _ [] pairs hempty hnodup
        exact ⟨hmem, hmapped, hunmapped⟩

end ScxMlfq
