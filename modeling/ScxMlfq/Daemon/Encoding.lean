import ScxMlfq.Bpf.Init
import ScxMlfq.Daemon.Topology

/-!
# Daemon — Encoding

The three encodings of the cache domains that `src/topology.rs` writes
and the BPF side decodes: the domain of each CPU in the rodata, a bitmap
for each domain, and the bounded CPU list.
-/

namespace ScxMlfq

/-! ## The bitmap -/

/-- `struct mlfq_bitmap`. -/
structure Bitmap where
  words : Nat → U64 := fun _ => 0

/-- `bitmap_word`. -/
def bitmapWord (cpu : Nat) : Nat := cpu >>> 6

/-- `bitmap_mask`. -/
def bitmapMask (cpu : Nat) : U64 := (1 : U64) <<< (cpu &&& 63)

/-- One CPU of the list; a CPU out of range is skipped. -/
def Bitmap.set (bm : Bitmap) (cpu : Nat) : Bitmap :=
  if cpu ≥ mlfqMaxCpus then bm
  else ⟨Function.update bm.words (bitmapWord cpu) (bm.words (bitmapWord cpu) ||| bitmapMask cpu)⟩

/-- `build_bitmap`. -/
def buildBitmap (cpus : List Nat) : Bitmap := cpus.foldl Bitmap.set {}

/-- The bit `mlfq_bitmap_test_cpu` reads for a CPU in range. -/
def Bitmap.bits (bm : Bitmap) (cpu : Nat) : Bool :=
  decide (bm.words (cpu >>> 6) &&& ((1 : U64) <<< (cpu &&& 63)) ≠ 0)

/-- The mask of a word tests one bit of it. -/
theorem and_mask_ne_zero_iff (x : U64) {i : Nat} (h : i < 64) :
    x &&& ((1 : U64) <<< i) ≠ 0 ↔ x.getLsbD i = true := by
  have hmask : (1 : U64) <<< i = BitVec.twoPow 64 i := (BitVec.twoPow_eq 64 i).symm
  rw [hmask, BitVec.and_twoPow]
  by_cases hx : x.getLsbD i = true
  · rw [if_pos hx]
    refine iff_of_true ?_ hx
    intro hzero
    have hbit := congrArg (fun y : U64 => y.getLsbD i) hzero
    simp [h] at hbit
  · rw [if_neg hx]
    exact iff_of_false (fun hne => hne rfl) hx

theorem and_63 (cpu : Nat) : cpu &&& 63 = cpu % 64 := Nat.and_two_pow_sub_one_eq_mod cpu 6

theorem shiftRight_6 (cpu : Nat) : cpu >>> 6 = cpu / 64 := Nat.shiftRight_eq_div_pow cpu 6

theorem Bitmap.bits_iff (bm : Bitmap) (cpu : Nat) :
    bm.bits cpu = true ↔ (bm.words (cpu / 64)).getLsbD (cpu % 64) = true := by
  have hlt : cpu % 64 < 64 := Nat.mod_lt _ (by decide)
  rw [Bitmap.bits, decide_eq_true_eq, and_63, shiftRight_6]
  exact and_mask_ne_zero_iff _ hlt

/-- **Setting a CPU** sets its bit and no other. -/
theorem Bitmap.bits_set (bm : Bitmap) (c cpu : Nat) :
    (bm.set c).bits cpu = true ↔ bm.bits cpu = true ∨ c < mlfqMaxCpus ∧ cpu = c := by
  rw [Bitmap.set]
  by_cases hc : c ≥ mlfqMaxCpus
  · rw [if_pos hc]
    constructor
    · exact .inl
    · rintro (hset | ⟨hlt, -⟩)
      · exact hset
      · omega
  · rw [if_neg hc, Bitmap.bits_iff, Bitmap.bits_iff]
    have hmask : bitmapMask c = BitVec.twoPow 64 (c % 64) := by
      rw [bitmapMask, and_63]
      exact (BitVec.twoPow_eq 64 _).symm
    have hword : bitmapWord c = c / 64 := shiftRight_6 c
    have hbit : c % 64 < 64 := Nat.mod_lt _ (by decide)
    simp only [hword, hmask]
    by_cases hsame : cpu / 64 = c / 64
    · rw [hsame, Function.update_self, BitVec.getLsbD_or, BitVec.getLsbD_twoPow, Bool.or_eq_true,
        Bool.and_eq_true, decide_eq_true_eq, decide_eq_true_eq]
      constructor
      · rintro (hset | ⟨-, heq⟩)
        · exact .inl hset
        · exact .inr ⟨by omega, by omega⟩
      · rintro (hset | ⟨-, rfl⟩)
        · exact .inl hset
        · exact .inr ⟨hbit, rfl⟩
    · rw [Function.update_of_ne hsame]
      constructor
      · exact .inl
      · rintro (hset | ⟨-, rfl⟩)
        · exact hset
        · exact absurd rfl hsame

/-- **A built bitmap** holds the CPUs of the list that are in range. -/
theorem mlfqBitmapTestCpu_buildBitmap (cpus : List Nat) (cpu : Nat) :
    mlfqBitmapTestCpu (buildBitmap cpus).bits cpu = true ↔ cpu < mlfqMaxCpus ∧ cpu ∈ cpus := by
  have hgen (bm : Bitmap) : (cpus.foldl Bitmap.set bm).bits cpu = true
      ↔ bm.bits cpu = true ∨ cpu < mlfqMaxCpus ∧ cpu ∈ cpus := by
    induction cpus generalizing bm with
    | nil => simp
    | cons c cpus ih =>
        rw [List.foldl_cons, ih, Bitmap.bits_set, List.mem_cons]
        constructor
        · rintro ((hset | ⟨hlt, rfl⟩) | ⟨hlt, hmem⟩)
          · exact .inl hset
          · exact .inr ⟨hlt, .inl rfl⟩
          · exact .inr ⟨hlt, .inr hmem⟩
        · rintro (hset | ⟨hlt, rfl | hmem⟩)
          · exact .inl (.inl hset)
          · exact .inl (.inr ⟨hlt, rfl⟩)
          · exact .inr ⟨hlt, hmem⟩
  have hempty : ¬ (({} : Bitmap).bits cpu = true) := by
    simp [Bitmap.bits]
  rw [mlfqBitmapTestCpu]
  by_cases hc : cpu ≥ mlfqMaxCpus
  · rw [if_pos hc]
    exact iff_of_false (by decide) fun h => by omega
  · rw [if_neg hc, buildBitmap, hgen]
    exact or_iff_right hempty

/-! ## What the front-end publishes -/

/-- The rodata the plan writes. -/
def LlcPlan.apply (plan : LlcPlan) (rod : Rodata) : Rodata :=
  { rod with
    nrLlcs := plan.nrLlcs
    llcHasPrimary := plan.hasPrimary
    cpuLlc := plan.cpuLlc }

/-- The `mlfq_llc_bitmaps` map the plan publishes. -/
def LlcPlan.bitmaps (plan : LlcPlan) (llc : Nat) : Bitmap :=
  if llc < plan.nrLlcs then buildBitmap (plan.llcCpus llc) else {}

/-- `mlfq_llc_of_cpu` over the published rodata. -/
def LlcPlan.decode (plan : LlcPlan) (m : Machine) (cpu : Nat) : Nat :=
  ({ m with rod := plan.apply m.rod } : Machine).llcOfCpu cpu

theorem LlcPlan.decode_eq (plan : LlcPlan) (m : Machine) (cpu : Nat) :
    plan.decode m cpu = if cpu ≥ mlfqMaxCpus then mlfqMaxLlcs
      else if plan.cpuLlc cpu < mlfqMaxLlcs ∧ plan.cpuLlc cpu < plan.nrLlcs
      then plan.cpuLlc cpu else mlfqMaxLlcs := rfl

/-- The CPUs of a domain of the map that are in range, in its order. -/
def domainCpus (pairs : List (Nat × Nat)) (llc : Nat) : List Nat :=
  (pairs.filter fun pair => decide (pair.1 < mlfqMaxCpus) && decide (pair.2 = llc)).map Prod.fst

theorem mem_domainCpus {pairs : List (Nat × Nat)} {llc cpu : Nat} :
    cpu ∈ domainCpus pairs llc ↔ cpu < mlfqMaxCpus ∧ (cpu, llc) ∈ pairs := by
  simp only [domainCpus, List.mem_map, List.mem_filter, Bool.and_eq_true, decide_eq_true_eq]
  constructor
  · rintro ⟨⟨c, l⟩, ⟨hmem, hlt, rfl⟩, rfl⟩
    exact ⟨hlt, hmem⟩
  · rintro ⟨hlt, hmem⟩
    exact ⟨(cpu, llc), ⟨hmem, hlt, rfl⟩, rfl⟩

/-- The placing of the pairs fills each list with its domain. -/
theorem foldl_place_llcCpus (pairs : List (Nat × Nat)) (plan : LlcPlan) (llc : Nat) :
    (pairs.foldl LlcPlan.place plan).llcCpus llc
      = plan.llcCpus llc ++ domainCpus pairs llc := by
  induction pairs generalizing plan with
  | nil => simp [domainCpus]
  | cons pair pairs ih =>
      obtain ⟨c, l⟩ := pair
      rw [List.foldl_cons, ih, LlcPlan.place]
      by_cases hc : c ≥ mlfqMaxCpus
      · have hnot : ¬ c < mlfqMaxCpus := by omega
        rw [if_pos hc]
        simp [hnot, domainCpus]
      · have hlt : c < mlfqMaxCpus := by omega
        rw [if_neg hc]
        by_cases hl : llc = l
        · subst hl
          simp [hlt, domainCpus]
        · have hl' : ¬ l = llc := fun h => hl h.symm
          simp [hl, hl', domainCpus]

/-- What the plan for a map within the supported domains holds. -/
structure LlcPlan.Encodes (plan : LlcPlan) (pairs : List (Nat × Nat)) (primary : List Nat) :
    Prop where
  places : plan.Places pairs
  nr : plan.nrLlcs = maxLlc pairs + 1
  cpus : plan.llcCpus = domainCpus pairs
  hasPrimary : ∀ llc, plan.hasPrimary llc = (decide (llc < plan.nrLlcs)
    && (plan.llcCpus llc).any fun cpu => primary.contains cpu)

/-- The two kinds of plan, with what each means for the map. -/
theorem planLlcs_encodes {pairs : List (Nat × Nat)} (hnodup : (pairs.map Prod.fst).Nodup)
    (primary : List Nat) :
    ((pairs = [] ∨ mlfqMaxLlcs < maxLlc pairs + 1)
        ∧ planLlcs pairs primary mlfqMaxLlcs = {})
      ∨ (pairs ≠ [] ∧ maxLlc pairs + 1 ≤ mlfqMaxLlcs
        ∧ (planLlcs pairs primary mlfqMaxLlcs).Encodes pairs primary) := by
  have hmaxLlcs : mlfqMaxLlcs = 32 := rfl
  have hcases := planLlcs_cases hnodup primary mlfqMaxLlcs
  by_cases hempty : pairs = []
  · left
    refine ⟨.inl hempty, ?_⟩
    rw [planLlcs, if_pos hempty]
  by_cases hmany : mlfqMaxLlcs < maxLlc pairs + 1
  · left
    refine ⟨.inr hmany, ?_⟩
    rw [planLlcs, if_neg hempty]
    by_cases hwrap : maxLlc pairs + 1 ≥ 2 ^ 32
    · rw [if_pos hwrap]
    · rw [if_neg hwrap, if_pos hmany]
  · right
    have hwrap : ¬ maxLlc pairs + 1 ≥ 2 ^ 32 := by omega
    have hplan : planLlcs pairs primary mlfqMaxLlcs
        = { pairs.foldl LlcPlan.place { nrLlcs := maxLlc pairs + 1 } with
            hasPrimary := fun llc =>
              decide (llc < (pairs.foldl LlcPlan.place { nrLlcs := maxLlc pairs + 1 }).nrLlcs)
                && ((pairs.foldl LlcPlan.place { nrLlcs := maxLlc pairs + 1 }).llcCpus llc).any
                  fun cpu => primary.contains cpu } := by
      rw [planLlcs, if_neg hempty, if_neg hwrap, if_neg hmany]
    have hnr : (planLlcs pairs primary mlfqMaxLlcs).nrLlcs = maxLlc pairs + 1 := by
      rw [hplan]
      exact foldl_place_nrLlcs ..
    rcases hcases with hoff | ⟨hplaces, -, hmax⟩
    · rw [hoff] at hnr
      cases hnr
    · refine ⟨hempty, hmax, hplaces, hnr, ?_, ?_⟩
      · rw [hplan]
        funext llc
        exact foldl_place_llcCpus pairs _ llc
      · intro llc
        rw [hplan]

/-! ## The disabled plan -/

/-- Domain awareness off: no domain, no list, and no CPU in a domain. -/
structure LlcPlan.Disabled (plan : LlcPlan) (m : Machine) : Prop where
  nr : plan.nrLlcs = 0
  decode : ∀ cpu, plan.decode m cpu = mlfqMaxLlcs
  bitmaps : ∀ llc cpu, mlfqBitmapTestCpu (plan.bitmaps llc).bits cpu = false
  lists : ∀ llc, (plan.lists llc).nr = 0
  hasPrimary : ∀ llc, plan.hasPrimary llc = false

theorem disabled_default (m : Machine) : ({} : LlcPlan).Disabled m := by
  constructor
  · rfl
  · intro cpu
    simp [LlcPlan.decode_eq]
  · intro llc cpu
    simp [LlcPlan.bitmaps, mlfqBitmapTestCpu, Bitmap.bits]
  · intro llc
    rfl
  · intro llc
    rfl

/-! ## The enabled plan -/

namespace LlcPlan.Encodes

variable {plan : LlcPlan} {pairs : List (Nat × Nat)} {primary : List Nat}

theorem bitmap_iff (h : plan.Encodes pairs primary) {llc : Nat} (hllc : llc < plan.nrLlcs)
    (cpu : Nat) :
    mlfqBitmapTestCpu (plan.bitmaps llc).bits cpu = true
      ↔ cpu < mlfqMaxCpus ∧ (cpu, llc) ∈ pairs := by
  rw [LlcPlan.bitmaps, if_pos hllc, h.cpus, mlfqBitmapTestCpu_buildBitmap, mem_domainCpus]
  constructor
  · intro hin
    exact hin.2
  · intro hin
    exact ⟨hin.1, hin⟩

theorem decode_iff (h : plan.Encodes pairs primary) (hmax : plan.nrLlcs ≤ mlfqMaxLlcs)
    (m : Machine) {llc : Nat} (hllc : llc < plan.nrLlcs) (cpu : Nat) :
    plan.decode m cpu = llc ↔ cpu < mlfqMaxCpus ∧ (cpu, llc) ∈ pairs := by
  rw [LlcPlan.decode_eq]
  by_cases hcpu : cpu ≥ mlfqMaxCpus
  · rw [if_pos hcpu]
    constructor
    · intro hsentinel
      omega
    · intro hin
      omega
  · rw [if_neg hcpu]
    constructor
    · intro hdecode
      -- a populated domain can only come from a pair: the default is the sentinel
      by_cases hcovered : ∃ l, (cpu, l) ∈ pairs
      · obtain ⟨l, hin⟩ := hcovered
        have hmapped := h.places.mapped cpu l (by omega) hin
        have hl : l < plan.nrLlcs := by
          have := le_maxLlc hin
          rw [h.nr]
          omega
        rw [hmapped, if_pos ⟨by omega, hl⟩] at hdecode
        subst hdecode
        exact ⟨by omega, hin⟩
      · have hun := h.places.unmapped cpu fun l hin => hcovered ⟨l, hin⟩
        rw [hun, if_neg (by omega)] at hdecode
        omega
    · intro hin
      have hmapped := h.places.mapped cpu llc hin.1 hin.2
      rw [hmapped, if_pos ⟨by omega, hllc⟩]

/-- A CPU of two domains would decode to both. -/
theorem bitmaps_disjoint (h : plan.Encodes pairs primary) (hmax : plan.nrLlcs ≤ mlfqMaxLlcs)
    {llc llc' : Nat} (hllc : llc < plan.nrLlcs) (hllc' : llc' < plan.nrLlcs)
    (hdiff : llc ≠ llc') (cpu : Nat) :
    ¬ (mlfqBitmapTestCpu (plan.bitmaps llc).bits cpu = true
      ∧ mlfqBitmapTestCpu (plan.bitmaps llc').bits cpu = true) := by
  intro hboth
  have hfirst := (h.decode_iff hmax (.zeroed {} 0) hllc cpu).mpr
    ((h.bitmap_iff hllc cpu).mp hboth.1)
  have hsecond := (h.decode_iff hmax (.zeroed {} 0) hllc' cpu).mpr
    ((h.bitmap_iff hllc' cpu).mp hboth.2)
  exact hdiff (hfirst.symm.trans hsecond)

theorem entries_iff (h : plan.Encodes pairs primary) {llc : Nat} (hllc : llc < plan.nrLlcs)
    (hlen : (domainCpus pairs llc).length ≤ mlfqMaxLlcCpus) (cpu : Nat) :
    cpu ∈ (plan.lists llc).entries ↔ cpu < mlfqMaxCpus ∧ (cpu, llc) ∈ pairs := by
  rw [LlcPlan.lists, if_pos hllc, h.cpus, buildLlcCpuList_entries, if_neg (by omega),
    List.mem_filter, decide_eq_true_eq, mem_domainCpus]
  constructor
  · intro hin
    exact hin.1
  · intro hin
    exact ⟨hin, hin.1⟩

/-- The list stores each CPU of a domain within the window. -/
theorem nr_eq (h : plan.Encodes pairs primary) {llc : Nat} (hllc : llc < plan.nrLlcs) :
    (plan.lists llc).nr
      = if (domainCpus pairs llc).length > mlfqMaxLlcCpus then 0
        else (domainCpus pairs llc).length := by
  rw [← LlcCpuList.length_entries, LlcPlan.lists, if_pos hllc, h.cpus, buildLlcCpuList_entries]
  by_cases hlen : (domainCpus pairs llc).length > mlfqMaxLlcCpus
  · rw [if_pos hlen, if_pos hlen, List.length_nil]
  · rw [if_neg hlen, if_neg hlen]
    have hall : ∀ cpu ∈ domainCpus pairs llc, decide (cpu < mlfqMaxCpus) = true := by
      intro cpu hin
      rw [decide_eq_true_eq]
      exact (mem_domainCpus.mp hin).1
    rw [List.filter_eq_self.mpr hall]

theorem nr_eq_zero_iff (h : plan.Encodes pairs primary) {llc : Nat}
    (hllc : llc < plan.nrLlcs) :
    (plan.lists llc).nr = 0
      ↔ domainCpus pairs llc = [] ∨ mlfqMaxLlcCpus < (domainCpus pairs llc).length := by
  rw [h.nr_eq hllc, ← List.length_eq_zero_iff]
  split <;> omega

theorem decode_uncovered (h : plan.Encodes pairs primary) (m : Machine) {cpu : Nat}
    (hun : ∀ llc, (cpu, llc) ∉ pairs) : plan.decode m cpu = mlfqMaxLlcs := by
  rw [LlcPlan.decode_eq, h.places.unmapped cpu hun]
  simp

theorem hasPrimary_iff (h : plan.Encodes pairs primary) (llc : Nat) :
    plan.hasPrimary llc = true
      ↔ llc < plan.nrLlcs ∧ ∃ cpu ∈ primary, cpu < mlfqMaxCpus ∧ (cpu, llc) ∈ pairs := by
  rw [h.hasPrimary, h.cpus, Bool.and_eq_true, decide_eq_true_eq, List.any_eq_true]
  simp only [mem_domainCpus, List.contains_iff_mem]
  constructor
  · intro ⟨hllc, cpu, hin, hprimary⟩
    exact ⟨hllc, cpu, hprimary, hin⟩
  · intro ⟨hllc, cpu, hprimary, hin⟩
    exact ⟨hllc, cpu, hin, hprimary⟩

end LlcPlan.Encodes

/-- The largest id is below every bound of the ids. -/
theorem maxLlc_lt {pairs : List (Nat × Nat)} {bound : Nat} (hbound : 0 < bound)
    (h : ∀ pair ∈ pairs, pair.2 < bound) : maxLlc pairs < bound := by
  have hgen (ids : List Nat) (start : Nat) (hstart : start < bound)
      (hids : ∀ id ∈ ids, id < bound) : ids.foldl max start < bound := by
    induction ids generalizing start with
    | nil => exact hstart
    | cons id ids ih =>
        have hid := hids id List.mem_cons_self
        rw [List.foldl_cons]
        apply ih
        · exact Nat.max_lt.mpr ⟨hstart, hid⟩
        · intro other hin
          exact hids other (List.mem_cons_of_mem id hin)
  apply hgen _ 0 hbound
  intro id hin
  obtain ⟨pair, hpair, rfl⟩ := List.mem_map.mp hin
  exact h pair hpair

/-- A map with more domains than supported has a domain id out of
bounds. -/
theorem exists_llc_of_length {pairs : List (Nat × Nat)}
    (h : mlfqMaxLlcs < (pairs.map Prod.snd).dedup.length) :
    ∃ pair ∈ pairs, mlfqMaxLlcs ≤ pair.2 := by
  by_contra hnone
  have hsub : (pairs.map Prod.snd).dedup ⊆ List.range mlfqMaxLlcs := by
    intro llc hin
    obtain ⟨pair, hpair, rfl⟩ := List.mem_map.mp (List.mem_dedup.mp hin)
    rw [List.mem_range]
    by_contra hge
    exact hnone ⟨pair, hpair, Nat.not_lt.mp hge⟩
  have hlen := ((List.nodup_dedup _).subperm hsub).length_le
  rw [List.length_range] at hlen
  omega

/-- **The three encodings of the domains agree with the map they were
built from.** The bitmap, the CPU table and the list of a domain each
hold exactly the in-range CPUs the map puts there. -/
theorem topology_encodings (m : Machine) {pairs : List (Nat × Nat)}
    (hnodup : (pairs.map Prod.fst).Nodup) (primary : List Nat) :
    (∀ llc < (planLlcs pairs primary mlfqMaxLlcs).nrLlcs, ∀ cpu,
        (mlfqBitmapTestCpu ((planLlcs pairs primary mlfqMaxLlcs).bitmaps llc).bits cpu = true
            ↔ cpu < mlfqMaxCpus ∧ (cpu, llc) ∈ pairs)
          ∧ ((planLlcs pairs primary mlfqMaxLlcs).decode m cpu = llc
            ↔ cpu < mlfqMaxCpus ∧ (cpu, llc) ∈ pairs)
          ∧ ((domainCpus pairs llc).length ≤ mlfqMaxLlcCpus →
            (cpu ∈ ((planLlcs pairs primary mlfqMaxLlcs).lists llc).entries
              ↔ cpu < mlfqMaxCpus ∧ (cpu, llc) ∈ pairs)))
      ∧ (∀ llc < (planLlcs pairs primary mlfqMaxLlcs).nrLlcs,
        ((planLlcs pairs primary mlfqMaxLlcs).lists llc).nr = 0
          ↔ domainCpus pairs llc = [] ∨ mlfqMaxLlcCpus < (domainCpus pairs llc).length)
      ∧ (∀ cpu, mlfqMaxCpus ≤ cpu ∨ (∀ llc, (cpu, llc) ∉ pairs) →
        (planLlcs pairs primary mlfqMaxLlcs).decode m cpu = mlfqMaxLlcs)
      ∧ (∀ llc < (planLlcs pairs primary mlfqMaxLlcs).nrLlcs,
        (planLlcs pairs primary mlfqMaxLlcs).hasPrimary llc = true
          ↔ ∃ cpu ∈ primary, cpu < mlfqMaxCpus ∧ (cpu, llc) ∈ pairs)
      ∧ (∀ llc < (planLlcs pairs primary mlfqMaxLlcs).nrLlcs,
        ∀ llc' < (planLlcs pairs primary mlfqMaxLlcs).nrLlcs, llc ≠ llc' → ∀ cpu,
          ¬ (mlfqBitmapTestCpu ((planLlcs pairs primary mlfqMaxLlcs).bitmaps llc).bits cpu = true
            ∧ mlfqBitmapTestCpu ((planLlcs pairs primary mlfqMaxLlcs).bitmaps llc').bits cpu
              = true))
      ∧ ((∀ pair ∈ pairs, pair.2 < mlfqMaxLlcs) →
        ∀ pair ∈ pairs, pair.2 < (planLlcs pairs primary mlfqMaxLlcs).nrLlcs)
      ∧ (mlfqMaxLlcs < (pairs.map Prod.snd).dedup.length ∨ (∃ pair ∈ pairs, mlfqMaxLlcs ≤ pair.2)
        → (planLlcs pairs primary mlfqMaxLlcs).Disabled m) := by
  rcases planLlcs_encodes hnodup primary with ⟨hwhy, hoff⟩ | ⟨hne, hmax, henc⟩
  · have hdis : (planLlcs pairs primary mlfqMaxLlcs).Disabled m := by
      rw [hoff]
      exact disabled_default m
    have hnone (llc : Nat) : ¬ llc < (planLlcs pairs primary mlfqMaxLlcs).nrLlcs := by
      rw [hdis.nr]
      exact Nat.not_lt_zero llc
    refine ⟨fun llc h => absurd h (hnone llc), fun llc h => absurd h (hnone llc),
      fun cpu _ => hdis.decode cpu, fun llc h => absurd h (hnone llc),
      fun llc h => absurd h (hnone llc), ?_, fun _ => hdis⟩
    intro hsupported pair hin
    have hlt := maxLlc_lt (by decide) hsupported
    rcases hwhy with hempty | hmany
    · rw [hempty] at hin
      exact absurd hin List.not_mem_nil
    · omega
  · have hle : (planLlcs pairs primary mlfqMaxLlcs).nrLlcs ≤ mlfqMaxLlcs := by
      rw [henc.nr]
      exact hmax
    refine ⟨?_, fun llc h => henc.nr_eq_zero_iff h, ?_, ?_, ?_, ?_, ?_⟩
    · intro llc h cpu
      exact ⟨henc.bitmap_iff h cpu, henc.decode_iff hle m h cpu,
        fun hlen => henc.entries_iff h hlen cpu⟩
    · intro cpu hun
      rcases hun with hrange | hun
      · rw [LlcPlan.decode_eq, if_pos hrange]
      · exact henc.decode_uncovered m hun
    · intro llc h
      rw [henc.hasPrimary_iff]
      exact and_iff_right h
    · intro llc h llc' h' hdiff cpu
      exact henc.bitmaps_disjoint hle h h' hdiff cpu
    · intro hsupported pair hin
      have hpair := le_maxLlc hin
      rw [henc.nr]
      omega
    · intro hmany
      have hout : ∃ pair ∈ pairs, mlfqMaxLlcs ≤ pair.2 := by
        rcases hmany with hlen | hout
        · exact exists_llc_of_length hlen
        · exact hout
      obtain ⟨pair, hin, hge⟩ := hout
      have hpair := le_maxLlc hin
      omega

/-- Two domains, one of them with a big core, and a CPU out of range. -/
theorem topology_encodings_twoDomains :
    (planLlcs [(0, 0), (1, 0), (2, 1), (5000, 1)] [1] mlfqMaxLlcs).decode (.zeroed {} 3) 2 = 1
      ∧ (planLlcs [(0, 0), (1, 0), (2, 1), (5000, 1)] [1] mlfqMaxLlcs).decode (.zeroed {} 3) 7
        = mlfqMaxLlcs
      ∧ (planLlcs [(0, 0), (1, 0), (2, 1), (5000, 1)] [1] mlfqMaxLlcs).hasPrimary 0 = true := by
  obtain ⟨hdomain, -, huncovered, hprimary, -, -, -⟩ :=
    @topology_encodings (.zeroed {} 3) [(0, 0), (1, 0), (2, 1), (5000, 1)] (by decide) [1]
  refine ⟨?_, ?_, ?_⟩
  · exact (hdomain 1 (by decide) 2).2.1.mpr (by decide)
  · exact huncovered 7 (.inr (by simp))
  · exact (hprimary 0 (by decide)).mpr ⟨1, by decide⟩

end ScxMlfq
