import ScxMlfq.Bpf.IdleClaim
import ScxMlfq.Daemon.Cache
import ScxMlfq.Daemon.Encoding
import ScxMlfq.Daemon.Siblings

/-!
# Daemon — Attach

From the topology of the host to the selection: `init_topology`, which
writes the rodata, and the writes of the placement maps after the load,
each of which may fail. Whatever the selection claims by a table is what
the host says: the thread of the same core, a CPU of the domain with the
strictly largest cache, a CPU of the waker's domain, a primary core.
-/

namespace ScxMlfq

/-! ## The host -/

/-- What `init_topology` reads of a CPU of `Topology`. -/
structure HostCpu where
  id : Nat
  llcId : Nat
  coreId : Nat

/-- What the discovery finds: `Topology::new`, whose CPUs are the entries
of a map by id, `get_primary_cpus`, and the cache directories. -/
structure Host where
  cpus : List HostCpu
  primaries : Option (List Nat)
  cache : Nat → CacheDir := fun _ => {}
  nodup : (cpus.map HostCpu.id).Nodup
  ids_lt : ∀ cpu ∈ cpus, cpu.id < 2 ^ 32

/-- `as u32`. -/
def asU32 (n : Nat) : Nat := n % 2 ^ 32

namespace Host

/-- `cpu_to_llc`. -/
def cpuToLlc (host : Host) : List (Nat × Nat) :=
  host.cpus.map fun cpu => (asU32 cpu.id, asU32 cpu.llcId)

/-- `cpu_to_core`. -/
def cpuToCore (host : Host) : List (Nat × Nat) :=
  host.cpus.map fun cpu => (asU32 cpu.id, asU32 cpu.coreId)

/-- `primaries`. -/
def primaryIds (host : Host) : List Nat := (host.primaries.getD []).map asU32

end Host

/-! ## The plans -/

/-- `CapacityPlan`. -/
structure CapacityPlan where
  primaryAll : Bool := true
  primaryCpus : List Nat := []

/-- `plan_primary_mask`. -/
def planPrimaryMask (primaryCpus : List Nat) (nrOnline : Nat) : CapacityPlan :=
  if primaryCpus = [] ∨ primaryCpus.length ≥ nrOnline then {}
  else
    { primaryAll := false
      primaryCpus := (primaryCpus.insertionSort (· ≤ ·)).destutter (· ≠ ·) }

/-- `TopologyPlan`. -/
structure TopologyPlan where
  capacity : CapacityPlan := {}
  llcs : LlcPlan := {}

/-- The LLC plan of the host: with every CPU primary, every domain holds
one. -/
def hostLlcs (host : Host) (capacity : CapacityPlan) : LlcPlan :=
  let llcs := planLlcs host.cpuToLlc capacity.primaryCpus mlfqMaxLlcs
  if capacity.primaryAll then { llcs with hasPrimary := fun _ => true } else llcs

/-- The cache size of a domain, read at its first CPU. -/
def llcSize (host : Host) (llcs : LlcPlan) (llc : Nat) : Nat :=
  match (llcs.llcCpus llc).head? with
  | some cpu => ((llcSizeBytes (host.cache cpu)).getD 0).toNat
  | none => 0

/-- `init_topology`, with the rodata it writes. -/
def initTopology (rod : Rodata) (topo : Option Host) : TopologyPlan × Rodata :=
  match topo with
  | none => ({}, rod)
  | some host =>
      let capacity := planPrimaryMask host.primaryIds host.cpus.length
      let llcs := hostLlcs host capacity
      let sibling := planSiblingTable host.cpuToCore
      let llcSizes := (List.range llcs.nrLlcs).map (llcSize host llcs)
      let largest := (pickLargestLlc llcSizes llcs.nrLlcs).getD mlfqMaxLlcs
      ({ capacity, llcs },
        { llcs.apply rod with
          primaryAll := capacity.primaryAll
          smtOn := sibling.smtOn
          cpuSibling := sibling.cpuSibling
          llcLargest := largest })

/-! ## The maps -/

/-- Which updates of the placement maps succeed. -/
structure MapWrites where
  primary : Bool
  llc : Nat → Bool

/-- A loop of updates that leaves at the first failure. -/
def writeEach {β : Type} (ok : Nat → Bool) (value : Nat → β) :
    List Nat → (Nat → β) → Nat → β
  | [], map => map
  | key :: keys, map =>
      if ok key then writeEach ok value keys (Function.update map key (value key)) else map

/-- `write_primary_bitmap`, from the zeroed map. -/
def writePrimaryBitmap (w : MapWrites) (plan : CapacityPlan) : Bitmap :=
  if plan.primaryAll then {}
  else if w.primary then buildBitmap plan.primaryCpus else {}

/-- `write_llc_bitmaps`, from the zeroed map. -/
def writeLlcBitmaps (w : MapWrites) (plan : LlcPlan) : Nat → Bitmap :=
  if plan.nrLlcs = 0 then fun _ => {}
  else writeEach w.llc (fun llc => buildBitmap (plan.llcCpus llc)) (List.range plan.nrLlcs)
    fun _ => {}

/-- The tables the scheduler finds. -/
def Machine.withTopology (m : Machine) (topo : Option Host) (w : MapWrites) : Machine :=
  let r := initTopology m.rod topo
  { m with
    rod := r.2
    primaryBitmap := (writePrimaryBitmap w r.1.capacity).bits
    llcBitmaps := fun llc =>
      if llc < mlfqMaxLlcs then some (writeLlcBitmaps w r.1.llcs llc).bits else none }

/-! ## What the host says -/

namespace Host

variable (host : Host)

/-- A CPU of a domain, in the range of the tables. -/
def OnLlc (llc cpu : Nat) : Prop := cpu < mlfqMaxCpus ∧ (cpu, llc) ∈ host.cpuToLlc

/-- Two threads of one core. -/
def ShareCore (a b : Nat) : Prop :=
  ∃ core, OnCore host.cpuToCore core a ∧ OnCore host.cpuToCore core b

/-- No asymmetry to exploit. -/
def Uniform : Prop := host.primaryIds = [] ∨ host.cpus.length ≤ host.primaryIds.length

/-- A primary core; every core of a uniform host. -/
def Primary (cpu : Nat) : Prop := host.Uniform ∨ cpu ∈ host.primaryIds

/-- The bytes of the last-level cache of a domain, at its first CPU. -/
def llcBytes (llc : Nat) : Nat :=
  match (domainCpus host.cpuToLlc llc).head? with
  | some cpu => ((llcSizeBytes (host.cache cpu)).getD 0).toNat
  | none => 0

/-- The domain whose cache is strictly the largest. -/
def LargestLlc (llc : Nat) : Prop :=
  llc ≤ maxLlc host.cpuToLlc
    ∧ ∀ other ≤ maxLlc host.cpuToLlc, other ≠ llc → host.llcBytes other < host.llcBytes llc

variable {host}

theorem ids_nodup : (host.cpus.map fun cpu => asU32 cpu.id).Nodup := by
  have heq : (host.cpus.map fun cpu => asU32 cpu.id) = host.cpus.map HostCpu.id := by
    apply List.map_congr_left
    intro cpu hcpu
    exact Nat.mod_eq_of_lt (host.ids_lt cpu hcpu)
  rw [heq]
  exact host.nodup

theorem cpuToLlc_nodup : (host.cpuToLlc.map Prod.fst).Nodup := by
  rw [cpuToLlc, List.map_map]
  exact ids_nodup

theorem cpuToCore_nodup : (host.cpuToCore.map Prod.fst).Nodup := by
  rw [cpuToCore, List.map_map]
  exact ids_nodup

end Host

/-! ## The plans say the same -/

theorem planPrimaryMask_all (host : Host) :
    (planPrimaryMask host.primaryIds host.cpus.length).primaryAll = true ↔ host.Uniform := by
  unfold planPrimaryMask Host.Uniform
  split
  · rename_i huniform
    exact iff_of_true rfl huniform
  · rename_i hhybrid
    exact iff_of_false Bool.false_ne_true hhybrid

/-- The list of a hybrid host holds its primary cores. -/
theorem mem_planPrimaryMask {host : Host} (h : ¬ host.Uniform) (cpu : Nat) :
    cpu ∈ (planPrimaryMask host.primaryIds host.cpus.length).primaryCpus
      ↔ cpu ∈ host.primaryIds := by
  have hsorted : (host.primaryIds.insertionSort (· ≤ ·)).Pairwise (· ≤ ·) :=
    List.pairwise_insertionSort (· ≤ ·) _
  have hhybrid : ¬ (host.primaryIds = [] ∨ host.primaryIds.length ≥ host.cpus.length) := h
  rw [planPrimaryMask, if_neg hhybrid, hsorted.destutter_eq_dedup, List.mem_dedup,
    List.mem_insertionSort]

section Llcs
variable (host : Host) (capacity : CapacityPlan)

theorem hostLlcs_tables : (hostLlcs host capacity).nrLlcs
      = (planLlcs host.cpuToLlc capacity.primaryCpus mlfqMaxLlcs).nrLlcs
    ∧ (hostLlcs host capacity).llcCpus
      = (planLlcs host.cpuToLlc capacity.primaryCpus mlfqMaxLlcs).llcCpus
    ∧ (hostLlcs host capacity).cpuLlc
      = (planLlcs host.cpuToLlc capacity.primaryCpus mlfqMaxLlcs).cpuLlc := by
  rw [hostLlcs]
  split <;> exact ⟨rfl, rfl, rfl⟩

/-- The domains of the plan are those of the host, or it has none. -/
theorem hostLlcs_cases : (hostLlcs host capacity).nrLlcs = 0
      ∨ (hostLlcs host capacity).nrLlcs = maxLlc host.cpuToLlc + 1
        ∧ (hostLlcs host capacity).nrLlcs ≤ mlfqMaxLlcs
        ∧ (planLlcs host.cpuToLlc capacity.primaryCpus mlfqMaxLlcs).Encodes host.cpuToLlc
          capacity.primaryCpus := by
  obtain ⟨hnr, -, -⟩ := hostLlcs_tables host capacity
  rcases planLlcs_encodes Host.cpuToLlc_nodup capacity.primaryCpus with
    ⟨-, hoff⟩ | ⟨-, hmax, henc⟩
  · left
    rw [hnr, hoff]
  · right
    rw [hnr, henc.nr]
    exact ⟨rfl, hmax, henc⟩

variable {host capacity}

theorem mem_hostLlcs {llc : Nat} (h : llc < (hostLlcs host capacity).nrLlcs) (cpu : Nat) :
    cpu ∈ (hostLlcs host capacity).llcCpus llc ↔ host.OnLlc llc cpu := by
  obtain ⟨-, hcpus, -⟩ := hostLlcs_tables host capacity
  rcases hostLlcs_cases host capacity with hnone | ⟨-, -, henc⟩
  · omega
  · rw [hcpus, henc.cpus, mem_domainCpus, Host.OnLlc]

theorem llcSize_hostLlcs {llc : Nat} (h : llc < (hostLlcs host capacity).nrLlcs) :
    llcSize host (hostLlcs host capacity) llc = host.llcBytes llc := by
  obtain ⟨-, hcpus, -⟩ := hostLlcs_tables host capacity
  rcases hostLlcs_cases host capacity with hnone | ⟨-, -, henc⟩
  · omega
  · rw [llcSize, Host.llcBytes, hcpus, henc.cpus]

/-- The domain the rodata names is the strictly largest of the host. -/
theorem pickLargestLlc_hostLlcs {llc : Nat} (h : 2 ≤ (hostLlcs host capacity).nrLlcs) :
    pickLargestLlc ((List.range (hostLlcs host capacity).nrLlcs).map
        (llcSize host (hostLlcs host capacity))) (hostLlcs host capacity).nrLlcs = some llc
      ↔ host.LargestLlc llc := by
  rcases hostLlcs_cases host capacity with hnone | ⟨hnr, -, -⟩
  · omega
  have hread {i : Nat} (hi : i < (hostLlcs host capacity).nrLlcs) :
      ((List.range (hostLlcs host capacity).nrLlcs).map
        (llcSize host (hostLlcs host capacity)))[i]? = some (host.llcBytes i) := by
    rw [List.getElem?_map, List.getElem?_range hi, Option.map_some, llcSize_hostLlcs hi]
  rw [pickLargestLlc_eq_some, Host.LargestLlc]
  constructor
  · intro hpick
    obtain ⟨-, hlt, size, hsize, hless⟩ := hpick
    rw [hread hlt] at hsize
    obtain rfl := Option.some.inj hsize
    refine ⟨by omega, fun other hother hne => ?_⟩
    have hin : other < (hostLlcs host capacity).nrLlcs := by omega
    exact hless other hin _ (hread hin) hne
  · intro hlargest
    obtain ⟨hle, hless⟩ := hlargest
    refine ⟨h, by omega, _, hread (by omega), fun i hi s hs hne => ?_⟩
    rw [hread hi] at hs
    obtain rfl := Option.some.inj hs
    exact hless i (by omega) hne

end Llcs

/-! ## The maps say the same -/

section Writes
variable {β : Type} {ok : Nat → Bool} {value : Nat → β}

/-- An entry is the one written, or as it was. -/
theorem writeEach_eq (keys : List Nat) (map : Nat → β) (key : Nat) :
    writeEach ok value keys map key = map key
      ∨ key ∈ keys ∧ writeEach ok value keys map key = value key := by
  induction keys generalizing map with
  | nil => exact .inl rfl
  | cons k keys ih =>
      rw [writeEach]
      split
      · rcases ih (Function.update map k (value k)) with hsame | ⟨hmem, hval⟩
        · by_cases hk : key = k
          · subst hk
            right
            rw [hsame, Function.update_self]
            exact ⟨List.mem_cons_self, rfl⟩
          · left
            rw [hsame, Function.update_of_ne hk]
        · exact .inr ⟨List.mem_cons_of_mem _ hmem, hval⟩
      · exact .inl rfl

/-- Where no update fails, every entry is written. -/
theorem writeEach_ok (hok : ∀ key, ok key = true) (keys : List Nat) (map : Nat → β) {key : Nat}
    (h : key ∈ keys ∨ map key = value key) :
    writeEach ok value keys map key = value key := by
  induction keys generalizing map with
  | nil =>
      rcases h with h | h
      · exact absurd h List.not_mem_nil
      · exact h
  | cons k keys ih =>
      rw [writeEach, if_pos (hok k)]
      apply ih
      by_cases hk : key = k
      · subst hk
        exact .inr (Function.update_self ..)
      · rcases h with h | h
        · exact .inl ((List.mem_cons.mp h).resolve_left hk)
        · right
          rw [Function.update_of_ne hk]
          exact h

end Writes

theorem mlfqBitmapTestCpu_zeroed (cpu : Nat) :
    mlfqBitmapTestCpu ({} : Bitmap).bits cpu = false := by
  simp [mlfqBitmapTestCpu, Bitmap.bits]

/-- A CPU in the bitmap of a domain is of the domain. -/
theorem writeLlcBitmaps_sound {host : Host} {capacity : CapacityPlan} {w : MapWrites}
    {llc cpu : Nat}
    (h : mlfqBitmapTestCpu (writeLlcBitmaps w (hostLlcs host capacity) llc).bits cpu = true) :
    llc < (hostLlcs host capacity).nrLlcs ∧ host.OnLlc llc cpu := by
  rw [writeLlcBitmaps] at h
  split at h
  · rw [mlfqBitmapTestCpu_zeroed] at h
    cases h
  · rcases @writeEach_eq _ w.llc
      (fun llc => buildBitmap ((hostLlcs host capacity).llcCpus llc))
      (List.range (hostLlcs host capacity).nrLlcs) (fun _ => {}) llc with hsame | ⟨hmem, hval⟩
    · rw [hsame, mlfqBitmapTestCpu_zeroed] at h
      cases h
    · rw [hval, mlfqBitmapTestCpu_buildBitmap] at h
      have hlt := List.mem_range.mp hmem
      exact ⟨hlt, (mem_hostLlcs hlt cpu).mp h.2⟩

theorem writeLlcBitmaps_complete {host : Host} {capacity : CapacityPlan} {w : MapWrites}
    {llc cpu : Nat} (hw : ∀ llc, w.llc llc = true) (hlt : llc < (hostLlcs host capacity).nrLlcs)
    (h : host.OnLlc llc cpu) :
    mlfqBitmapTestCpu (writeLlcBitmaps w (hostLlcs host capacity) llc).bits cpu = true := by
  rw [writeLlcBitmaps, if_neg (by omega),
    writeEach_ok hw _ _ (.inl (List.mem_range.mpr hlt)), mlfqBitmapTestCpu_buildBitmap]
  exact ⟨h.1, (mem_hostLlcs hlt cpu).mpr h⟩

/-! ## The machine that runs on a host -/

/-- The machine has the tables of the host. No callback writes them. -/
structure Machine.RunsOn (m : Machine) (host : Host) (w : MapWrites) : Prop where
  rod : ∃ rod, m.rod = (initTopology rod (some host)).2
  primaryBitmap : m.primaryBitmap = (writePrimaryBitmap w
    (planPrimaryMask host.primaryIds host.cpus.length)).bits
  llcBitmaps : ∀ llc, m.llcBitmaps llc = if llc < mlfqMaxLlcs then some (writeLlcBitmaps w
    (hostLlcs host (planPrimaryMask host.primaryIds host.cpus.length)) llc).bits else none

theorem Machine.withTopology_runsOn (m : Machine) (host : Host) (w : MapWrites) :
    (m.withTopology (some host) w).RunsOn host w :=
  ⟨⟨m.rod, rfl⟩, rfl, fun _ => rfl⟩

/-- The scheduler starts with them. -/
theorem mlfqInit_runsOn {m m' : Machine} {createDsq : U64 → Int} {host : Host} {w : MapWrites}
    (h : mlfqInit (m.withTopology (some host) w) createDsq = .ok m') : m'.RunsOn host w := by
  obtain ⟨rfl, -, -⟩ := mlfqInit_ok h
  exact ⟨⟨m.rod, rfl⟩, rfl, fun _ => rfl⟩

namespace Machine.RunsOn

variable {m : Machine} {host : Host} {w : MapWrites}

/-- The plan behind the tables. -/
abbrev plan (host : Host) : LlcPlan :=
  hostLlcs host (planPrimaryMask host.primaryIds host.cpus.length)

theorem primaryAll (h : m.RunsOn host w) : m.rod.primaryAll = true ↔ host.Uniform := by
  obtain ⟨rod, hrod⟩ := h.rod
  rw [hrod]
  exact planPrimaryMask_all host

theorem nrLlcs (h : m.RunsOn host w) : m.rod.nrLlcs = (plan host).nrLlcs := by
  obtain ⟨rod, hrod⟩ := h.rod
  rw [hrod]
  rfl

/-- A CPU of the primary bitmap is a primary core. -/
theorem of_primaryBitmap (h : m.RunsOn host w) {cpu : Nat}
    (hbit : mlfqBitmapTestCpu m.primaryBitmap cpu = true) : cpu ∈ host.primaryIds := by
  rw [h.primaryBitmap, writePrimaryBitmap] at hbit
  split at hbit
  · rw [mlfqBitmapTestCpu_zeroed] at hbit
    cases hbit
  · rename_i hall
    split at hbit
    · rw [mlfqBitmapTestCpu_buildBitmap] at hbit
      exact (mem_planPrimaryMask (fun hu => hall ((planPrimaryMask_all host).mpr hu)) cpu).mp
        hbit.2
    · rw [mlfqBitmapTestCpu_zeroed] at hbit
      cases hbit

theorem primary (h : m.RunsOn host w) {cpu : Nat} (hprimary : mlfqIsPrimary m cpu = true) :
    host.Primary cpu := by
  rw [mlfqIsPrimary, Bool.or_eq_true, if_neg (by omega), Int.toNat_natCast] at hprimary
  rcases hprimary with hall | hbit
  · exact .inl (h.primaryAll.mp hall)
  · exact .inr (h.of_primaryBitmap hbit)

theorem isPrimary (h : m.RunsOn host w) (hw : w.primary = true) {cpu : Nat}
    (hcpu : cpu < mlfqMaxCpus) (hprimary : host.Primary cpu) : mlfqIsPrimary m cpu = true := by
  rw [mlfqIsPrimary, Bool.or_eq_true, if_neg (by omega), Int.toNat_natCast]
  by_cases huniform : host.Uniform
  · exact .inl (h.primaryAll.mpr huniform)
  · right
    have hhybrid : ¬ (planPrimaryMask host.primaryIds host.cpus.length).primaryAll = true :=
      fun hall => huniform ((planPrimaryMask_all host).mp hall)
    rw [h.primaryBitmap, writePrimaryBitmap, if_neg hhybrid, if_pos hw,
      mlfqBitmapTestCpu_buildBitmap, mem_planPrimaryMask huniform]
    exact ⟨hcpu, hprimary.resolve_left huniform⟩

/-- **A claim from the bitmap of a domain** is a CPU of the domain, and a
primary core where one is asked for. -/
theorem pick_spec (h : m.RunsOn host w) (llc : Nat) (p : TaskStruct) (requirePrimary : Bool) :
    Pick.Spec m (fun cpu => (llc < m.rod.nrLlcs ∧ host.OnLlc llc cpu)
        ∧ (requirePrimary = true → host.Primary cpu))
      (mlfqPickIdleInBitmap m (m.llcBitmaps llc) p requirePrimary) := by
  rw [h.llcBitmaps]
  split
  · rw [mlfqPickIdleInBitmap]
    refine (claimFirst_spec m _ _).mono fun cpu hcpu => ?_
    obtain ⟨-, hok, -⟩ := hcpu
    simp only [Bool.and_eq_true, Bool.or_eq_true, Bool.not_eq_true'] at hok
    obtain ⟨⟨hbit, -⟩, hneed⟩ := hok
    rw [h.nrLlcs]
    refine ⟨writeLlcBitmaps_sound hbit, fun hreq => ?_⟩
    rcases hneed with hno | hprimary
    · rw [hreq] at hno
      cases hno
    · exact h.primary hprimary
  · exact .declined

/-- The domain the rodata names is the largest of at least two. -/
theorem llcLargest (h : m.RunsOn host w) {llc : Nat} (hmax : llc < mlfqMaxLlcs) :
    m.rod.llcLargest = llc ↔ 2 ≤ m.rod.nrLlcs ∧ host.LargestLlc llc := by
  obtain ⟨rod, hrod⟩ := h.rod
  have hlargest : m.rod.llcLargest = (pickLargestLlc ((List.range (plan host).nrLlcs).map
      (llcSize host (plan host))) (plan host).nrLlcs).getD mlfqMaxLlcs := by
    rw [hrod]
    rfl
  have hpick : m.rod.llcLargest = llc ↔ pickLargestLlc ((List.range (plan host).nrLlcs).map
      (llcSize host (plan host))) (plan host).nrLlcs = some llc := by
    rw [hlargest]
    cases pickLargestLlc ((List.range (plan host).nrLlcs).map (llcSize host (plan host)))
        (plan host).nrLlcs with
    | none =>
        constructor
        · intro heq
          rw [Option.getD_none] at heq
          omega
        · intro heq
          cases heq
    | some picked => rw [Option.getD_some, Option.some.injEq]
  rw [hpick, h.nrLlcs]
  by_cases htwo : 2 ≤ (plan host).nrLlcs
  · rw [pickLargestLlc_hostLlcs htwo]
    exact (and_iff_right htwo).symm
  · constructor
    · intro heq
      exact absurd (pickLargestLlc_eq_some.mp heq).1 htwo
    · intro hboth
      exact absurd hboth.1 htwo

/-- The waker's domain is that of its CPU. -/
theorem wakerLlc_iff (h : m.RunsOn host w) {llc : Nat} (hllc : llc < m.rod.nrLlcs) :
    wakerLlc m = llc ↔ host.OnLlc llc m.cpu := by
  obtain ⟨rod, hrod⟩ := h.rod
  obtain ⟨hnr, -, hcpu⟩ := hostLlcs_tables host
    (planPrimaryMask host.primaryIds host.cpus.length)
  have hdecode : m.llcOfCpu m.cpu = (planLlcs host.cpuToLlc
      (planPrimaryMask host.primaryIds host.cpus.length).primaryCpus mlfqMaxLlcs).decode m
        m.cpu := by
    rw [LlcPlan.decode_eq, ← hnr, ← hcpu, Machine.llcOfCpu, hrod]
    rfl
  rw [wakerLlc, if_pos (by omega), hdecode]
  rw [h.nrLlcs] at hllc
  rcases hostLlcs_cases host (planPrimaryMask host.primaryIds host.cpus.length) with
    hnone | ⟨-, hmax, henc⟩
  · have hzero : (plan host).nrLlcs = 0 := hnone
    omega
  · rw [hnr] at hllc hmax
    exact henc.decode_iff hmax m hllc m.cpu

end Machine.RunsOn

/-! ## What the selection claims -/

section Steps
variable {m : Machine} {host : Host} {w : MapWrites}

/-- The sibling of step 1.5 is another thread of the core. -/
theorem stepSibling_host (h : m.RunsOn host w) (p : TaskStruct) (interactive : Bool)
    {prevCpu cpu : Nat} (hclaim : (stepSibling m p interactive prevCpu).1 = some cpu) :
    cpu ≠ prevCpu ∧ host.ShareCore prevCpu cpu := by
  rw [stepSibling] at hclaim
  split at hclaim
  · obtain ⟨hmem, hok, -⟩ := (claimFirst_spec m _ _).holds hclaim
    simp only [Bool.and_eq_true, decide_eq_true_eq] at hok
    have hne : cpu ≠ prevCpu := hok.1.1.1
    obtain ⟨rod, hrod⟩ := h.rod
    have hsib : m.rod.cpuSibling = (planSiblingTable host.cpuToCore).cpuSibling := by
      rw [hrod]
      rfl
    rw [List.mem_singleton, hsib] at hmem
    rw [hmem] at hne
    have hother := (planSiblingTable_describes Host.cpuToCore_nodup).other hne
    rw [← hmem] at hne hother
    exact ⟨hne, hother⟩
  · cases hclaim

/-- Step 1.9 claims a primary core of the largest domain, which is not the
waker's. -/
theorem stepLargest_host (h : m.RunsOn host w) (p : TaskStruct) (interactive : Bool)
    {cpu : Nat} (hclaim : (stepLargest m p interactive).1 = some cpu) :
    interactive = true ∧ host.Primary cpu
      ∧ ∃ llc, host.LargestLlc llc ∧ host.OnLlc llc cpu ∧ ¬ host.OnLlc llc m.cpu := by
  rw [stepLargest] at hclaim
  split at hclaim
  · rename_i henter
    obtain ⟨hint, hmax, hnr, hwaker, -⟩ := henter
    obtain ⟨⟨-, hon⟩, hprimary⟩ := (h.pick_spec _ p true).holds hclaim
    have hlargest := ((h.llcLargest hmax).mp rfl).2
    refine ⟨hint, hprimary rfl, m.rod.llcLargest, hlargest, hon, fun hown => ?_⟩
    exact hwaker ((h.wakerLlc_iff hnr).mpr hown).symm
  · cases hclaim

/-- Step 2 stays in the waker's domain, when there is more than one. -/
theorem stepWakerLlc_host (h : m.RunsOn host w) (p : TaskStruct) (interactive : Bool)
    (hone : m.rod.nrLlcs ≠ 1) {cpu : Nat}
    (hclaim : (stepWakerLlc m p interactive).1 = some cpu) :
    (interactive = true → host.Primary cpu)
      ∧ ∃ llc, host.OnLlc llc m.cpu ∧ host.OnLlc llc cpu := by
  by_cases henter : wakerLlc m < mlfqMaxLlcs
      ∧ (interactive = false ∨ m.rod.llcHasPrimary (wakerLlc m) = true)
  · have hpick : (mlfqPickIdleInBitmap m (m.llcBitmaps (wakerLlc m)) p interactive).1
        = some cpu := by
      rw [stepWakerLlc, if_pos henter, if_neg hone] at hclaim
      exact hclaim
    obtain ⟨⟨hnr, hon⟩, hprimary⟩ := (h.pick_spec _ p interactive).holds hpick
    exact ⟨hprimary, wakerLlc m, (h.wakerLlc_iff hnr).mp rfl, hon⟩
  · rw [stepWakerLlc, if_neg henter] at hclaim
    cases hclaim

/-- Step 2 in the only domain is the scan of the kernel, which asks for a
whole core first and for no primary one. -/
theorem stepWakerLlc_oneDomain (m : Machine) (p : TaskStruct) (interactive : Bool)
    (hone : m.rod.nrLlcs = 1) {cpu : Nat}
    (hclaim : (stepWakerLlc m p interactive).1 = some cpu) :
    (∃ core, m.pickIdle m.idle p.cpus core = some cpu)
      ∧ (m.PicksIdle → p.cpus cpu = true ∧ m.idle cpu = true) := by
  have hspec : Pick.Spec m (fun c => ∃ core, m.pickIdle m.idle p.cpus core = some c)
      (stepWakerLlc m p interactive) := by
    rw [stepWakerLlc, if_pos hone]
    split
    · exact ((pickIdleCpu_spec m p.cpus interactive).mono fun c hc => ⟨interactive, hc⟩).orElse
        ((pickIdleCpu_spec m p.cpus false).mono fun c hc => ⟨false, hc⟩)
    · exact .declined
  obtain ⟨core, hscan⟩ := hspec.holds hclaim
  exact ⟨⟨core, hscan⟩, fun hpick => hpick _ _ _ _ hscan⟩

/-- Step 2.5 claims from a domain, and a primary core where it matters. -/
theorem stepSteer_host (h : m.RunsOn host w) (p : TaskStruct) (interactive : Bool) {cpu : Nat}
    (hclaim : (stepSteer m p interactive).1 = some cpu) :
    (interactive = true → host.Primary cpu) ∧ ∃ llc, host.OnLlc llc cpu := by
  have hspec : Pick.Spec m (fun c => (interactive = true → host.Primary c)
      ∧ ∃ llc, host.OnLlc llc c) (stepSteer m p interactive) := by
    rw [stepSteer]
    split
    · refine steerFrom_spec p interactive (fun llc => ?_) _ _
      exact (h.pick_spec llc p interactive).mono fun c hc => ⟨hc.2, llc, hc.1.2⟩
    · exact .declined
  exact hspec.holds hclaim

/-- The fallback of step 3 claims a primary core. -/
theorem mlfqPickIdlePrimary_host (h : m.RunsOn host w) (p : TaskStruct) {cpu : Nat}
    (hclaim : (mlfqPickIdlePrimary m p).1 = some cpu) : cpu ∈ host.primaryIds := by
  rw [mlfqPickIdlePrimary, mlfqPickIdleInBitmap] at hclaim
  obtain ⟨-, hok, -⟩ := (claimFirst_spec m _ _).holds hclaim
  simp only [Bool.and_eq_true] at hok
  exact h.of_primaryBitmap hok.1.1

/-- The largest domain is published as one with a primary core. -/
theorem llcHasPrimary_host (h : m.RunsOn host w) {llc cpu : Nat} (hlt : llc < m.rod.nrLlcs)
    (hon : host.OnLlc llc cpu) (hcore : host.Primary cpu) :
    m.rod.llcHasPrimary llc = true := by
  obtain ⟨rod, hrod⟩ := h.rod
  have hpublished : m.rod.llcHasPrimary = (Machine.RunsOn.plan host).hasPrimary := by
    rw [hrod]
    rfl
  rw [h.nrLlcs] at hlt
  rw [hpublished, Machine.RunsOn.plan, hostLlcs]
  by_cases huniform : host.Uniform
  · rw [if_pos ((planPrimaryMask_all host).mpr huniform)]
  · have hall : ¬ (planPrimaryMask host.primaryIds host.cpus.length).primaryAll = true :=
      fun hall => huniform ((planPrimaryMask_all host).mp hall)
    rw [if_neg hall]
    rcases hostLlcs_cases host (planPrimaryMask host.primaryIds host.cpus.length) with
      hnone | ⟨hnr, -, henc⟩
    · have hzero : (Machine.RunsOn.plan host).nrLlcs = 0 := hnone
      omega
    · rw [henc.hasPrimary_iff, ← (hostLlcs_tables host _).1]
      have hmem := (mem_planPrimaryMask huniform cpu).mpr (hcore.resolve_left huniform)
      exact ⟨hlt, cpu, hmem, hon⟩

/-- Where the maps were written, step 1.9 claims one if there is one. -/
theorem stepLargest_serves (h : m.RunsOn host w) (hprimary : w.primary = true)
    (hllc : ∀ llc, w.llc llc = true) (p : TaskStruct) {llc cpu : Nat}
    (htwo : 2 ≤ m.rod.nrLlcs) (hlargest : host.LargestLlc llc) (hwaker : ¬ host.OnLlc llc m.cpu)
    (hon : host.OnLlc llc cpu) (hcore : host.Primary cpu) (hallowed : p.cpus cpu = true)
    (hidle : m.idle cpu = true) : ∃ c, (stepLargest m p true).1 = some c := by
  have hnr := h.nrLlcs
  rcases hostLlcs_cases host (planPrimaryMask host.primaryIds host.cpus.length) with
    hnone | ⟨hcount, hle, -⟩
  · have hzero : (Machine.RunsOn.plan host).nrLlcs = 0 := hnone
    omega
  have hlt : llc < (hostLlcs host (planPrimaryMask host.primaryIds host.cpus.length)).nrLlcs := by
    have := hlargest.1
    omega
  have hmax : llc < mlfqMaxLlcs := by omega
  have hin : llc < m.rod.nrLlcs := by
    rw [hnr]
    exact hlt
  have hnamed := (h.llcLargest hmax).mpr ⟨htwo, hlargest⟩
  have hother : llc ≠ wakerLlc m := fun heq => hwaker ((h.wakerLlc_iff hin).mp heq.symm)
  rw [stepLargest, hnamed,
    if_pos ⟨rfl, hmax, hin, hother, llcHasPrimary_host h hin hon hcore⟩, h.llcBitmaps,
    if_pos hmax, mlfqPickIdleInBitmap]
  cases hclaim : (claimFirst m (List.range mlfqMaxCpus) fun cand =>
      mlfqBitmapTestCpu (writeLlcBitmaps w (Machine.RunsOn.plan host) llc).bits cand
        && p.cpus cand && (!true || mlfqIsPrimary m cand)).1 with
  | some c => exact ⟨c, rfl⟩
  | none =>
      have hbit := writeLlcBitmaps_complete hllc hlt hon
      have hbusy := claimFirst_none hclaim (List.mem_range.mpr hon.1) (by
        rw [hbit, hallowed, h.isPrimary hprimary hon.1 hcore]
        rfl)
      rw [hidle] at hbusy
      cases hbusy

end Steps

/-- **The selection follows the host**, whichever updates of the maps
failed. The sibling is a thread of the same core; the bias goes to a
primary core of the domain whose cache is strictly the largest; the
waker's step stays in its domain, or takes what the kernel scans where
there is only one; and an interactive task is given primary cores. Where
no update failed, the bias finds an idle one. -/
theorem selection_follows_host {m : Machine} {host : Host} {w : MapWrites}
    (h : m.RunsOn host w) (p : TaskStruct) (interactive : Bool) (prevCpu cpu : Nat) :
    ((stepSibling m p interactive prevCpu).1 = some cpu →
        cpu ≠ prevCpu ∧ host.ShareCore prevCpu cpu)
      ∧ ((stepLargest m p interactive).1 = some cpu →
        interactive = true ∧ host.Primary cpu
          ∧ ∃ llc, host.LargestLlc llc ∧ host.OnLlc llc cpu ∧ ¬ host.OnLlc llc m.cpu)
      ∧ ((stepWakerLlc m p interactive).1 = some cpu → m.rod.nrLlcs ≠ 1 →
        (interactive = true → host.Primary cpu)
          ∧ ∃ llc, host.OnLlc llc m.cpu ∧ host.OnLlc llc cpu)
      ∧ ((stepWakerLlc m p interactive).1 = some cpu → m.rod.nrLlcs = 1 →
        (∃ core, m.pickIdle m.idle p.cpus core = some cpu)
          ∧ (m.PicksIdle → p.cpus cpu = true ∧ m.idle cpu = true))
      ∧ ((stepSteer m p interactive).1 = some cpu →
        (interactive = true → host.Primary cpu) ∧ ∃ llc, host.OnLlc llc cpu)
      ∧ ((mlfqPickIdlePrimary m p).1 = some cpu → cpu ∈ host.primaryIds)
      ∧ (w.primary = true → (∀ llc, w.llc llc = true) → 2 ≤ m.rod.nrLlcs →
        ∀ llc, host.LargestLlc llc → ¬ host.OnLlc llc m.cpu → host.OnLlc llc cpu →
          host.Primary cpu → p.cpus cpu = true → m.idle cpu = true →
          ∃ c, (stepLargest m p true).1 = some c) := by
  refine ⟨stepSibling_host h p interactive, stepLargest_host h p interactive,
    fun hclaim hone => stepWakerLlc_host h p interactive hone hclaim,
    fun hclaim hone => stepWakerLlc_oneDomain m p interactive hone hclaim,
    stepSteer_host h p interactive, mlfqPickIdlePrimary_host h p, ?_⟩
  intro hprimary hllc htwo llc hlargest hwaker hon hcore hallowed hidle
  exact stepLargest_serves h hprimary hllc p htwo hlargest hwaker hon hcore hallowed hidle

/-- A cache directory with one index. -/
def oneIndex (size : String) : CacheDir where
  entries := some [{ name := some "index3".toList, level := some "3\n".toList, id := none
                     size := some size.toList }]

/-- Two cores of two threads, the second a primary one with twice the
cache. -/
def twoCores : Host where
  cpus := [⟨0, 0, 0⟩, ⟨1, 0, 0⟩, ⟨2, 1, 1⟩, ⟨3, 1, 1⟩]
  primaries := some [2, 3]
  cache := fun cpu => if cpu < 2 then oneIndex "16384K\n" else oneIndex "32M\n"
  nodup := by decide
  ids_lt := by decide

/-- A primary core and an efficiency one under one cache. -/
def oneCache : Host where
  cpus := [⟨0, 0, 0⟩, ⟨1, 0, 1⟩]
  primaries := some [0]
  cache := fun _ => oneIndex "16384K\n"
  nodup := by decide
  ids_lt := by decide

/-- Every update succeeded, CPU 0 wakes a task, and the others are idle. -/
def attached (host : Host) : Machine :=
  { (Machine.zeroed { idleTracking := true } 4).withTopology (some host) ⟨true, fun _ => true⟩
      with idle := fun cpu => decide (cpu ≠ 0), idleCount := 3, llcIdle := fun _ => 1,
           pickIdle := pickLowest 4 }

theorem attached_runsOn (host : Host) : (attached host).RunsOn host ⟨true, fun _ => true⟩ :=
  ⟨⟨_, rfl⟩, rfl, fun _ => rfl⟩

/-- On two cores a wakeup on CPU 0 takes the other thread of its core by
steps 1.5 and 2, and CPU 2 by the bias and the later steps; under one
cache step 2 takes the efficiency core. -/
theorem selection_follows_host_twoCores :
    twoCores.ShareCore 0 1
      ∧ (∃ llc, twoCores.LargestLlc llc ∧ twoCores.OnLlc llc 2 ∧ ¬ twoCores.OnLlc llc 0)
      ∧ (∃ llc, twoCores.OnLlc llc 0 ∧ twoCores.OnLlc llc 1)
      ∧ twoCores.Primary 2 ∧ 2 ∈ twoCores.primaryIds
      ∧ (∃ c, (stepLargest (attached twoCores) { pid := 1 } true).1 = some c)
      ∧ (∃ core, (attached oneCache).pickIdle (attached oneCache).idle (fun _ => true) core
          = some 1) ∧ ¬ oneCache.Primary 1 := by
  have h := attached_runsOn twoCores
  have hone := attached_runsOn oneCache
  have hlargest := ((selection_follows_host h { pid := 1 } true 0 2).2.1 (by decide +kernel)).2.2
  refine ⟨((selection_follows_host h { pid := 1 } false 0 1).1 (by decide +kernel)).2, hlargest,
    ((selection_follows_host h { pid := 1 } false 0 1).2.2.1 (by decide +kernel)
      (by decide +kernel)).2,
    ((selection_follows_host h { pid := 1 } true 0 2).2.2.2.2.1 (by decide +kernel)).1 rfl,
    (selection_follows_host h { pid := 1 } true 0 2).2.2.2.2.2.1 (by decide +kernel), ?_,
    ((selection_follows_host hone { pid := 1 } true 0 1).2.2.2.1 (by decide +kernel)
      (by decide +kernel)).1, by unfold Host.Primary Host.Uniform; decide⟩
  obtain ⟨llc, hwidest, hon, hwaker⟩ := hlargest
  exact (selection_follows_host h { pid := 1 } true 0 2).2.2.2.2.2.2 rfl (fun _ => rfl)
    (by decide +kernel) llc hwidest hwaker hon (.inr (by decide +kernel)) rfl rfl

end ScxMlfq
