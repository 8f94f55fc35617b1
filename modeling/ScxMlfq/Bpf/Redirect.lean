import ScxMlfq.Bpf.Destination
import ScxMlfq.Bpf.Init
import ScxMlfq.Lib.Scan

/-!
# Bpf — Redirect

The pick of the realtime redirect (`src/bpf/rtdl.bpf.c`), loop by loop:
the nested walk of a membership bitmap, and the flat scan behind it. The
picks read the marks and change none of them.
-/

namespace ScxMlfq

/-- `MLFQ_BITMAP_WORDS`. -/
def mlfqBitmapWords : Nat := 16

/-- A CPU the redirect may take: allowed, and no realtime task on it. -/
def TakesRedirect (m : Machine) (p : TaskStruct) (cand : Nat) : Bool :=
  p.cpus cand && !m.cpuOccupied cand

/-- The two loops of `mlfq_pick_unoccupied_in_bitmap`. -/
def walkUnoccupiedInBitmap (m : Machine) (bm : Nat → Bool) (p : TaskStruct) : Option Nat :=
  Scan.outer mlfqMaxCpus (fun cand => mlfqBitmapTestCpu bm cand && TakesRedirect m p cand) 64
    (List.range mlfqBitmapWords)

/-- The LLC pass for an origin of any sign. -/
def walkOriginLlc (m : Machine) (p : TaskStruct) (origin : Int) : Option Nat :=
  if 0 ≤ origin ∧ origin.toNat < mlfqMaxCpus ∧ m.rod.nrLlcs > 0 then
    let originLlc := m.rod.cpuLlc origin.toNat
    if originLlc < mlfqMaxLlcs ∧ originLlc < m.rod.nrLlcs then
      match m.llcBitmaps originLlc with
      | none => none
      | some bm => walkUnoccupiedInBitmap m bm p
    else none
  else none

/-- The loops of `mlfq_pick_unoccupied_cpu`. -/
def walkUnoccupiedCpu (m : Machine) (p : TaskStruct) (origin : Int) : Option Nat :=
  match walkOriginLlc m p origin with
  | some cpu => some cpu
  | none => Scan.inner m.nrCpuIds (TakesRedirect m p) (List.range mlfqMaxCpus)

/-! ## The loops and the flat scans -/

theorem TakesRedirect_iff {m : Machine} {p : TaskStruct} {cand : Nat} :
    TakesRedirect m p cand = true ↔ p.cpus cand = true ∧ m.occupied cand = false := by
  rw [TakesRedirect, cpuOccupied_natCast]
  simp

theorem walkUnoccupiedInBitmap_eq (m : Machine) (bm : Nat → Bool) (p : TaskStruct) :
    walkUnoccupiedInBitmap m bm p = mlfqPickUnoccupiedInBitmap m bm p := by
  have hbits : min mlfqMaxCpus (mlfqBitmapWords * 64) = mlfqMaxCpus := rfl
  rw [walkUnoccupiedInBitmap, Scan.outer_range, hbits, mlfqPickUnoccupiedInBitmap]
  simp only [TakesRedirect, cpuOccupied_natCast, Bool.and_assoc]

theorem flatScan_eq (m : Machine) (p : TaskStruct) :
    Scan.inner m.nrCpuIds (TakesRedirect m p) (List.range mlfqMaxCpus)
      = (List.range (min mlfqMaxCpus m.nrCpuIds)).find? (TakesRedirect m p) := by
  rw [Scan.inner_eq_find?, List.range_eq_range', Scan.takeWhile_range', Nat.sub_zero,
    List.range_eq_range']

theorem walkOriginLlc_natCast (m : Machine) (p : TaskStruct) (origin : Nat) :
    walkOriginLlc m p origin = unoccupiedInLlc m p origin := by
  simp only [walkOriginLlc, unoccupiedInLlc, Int.toNat_natCast, walkUnoccupiedInBitmap_eq]
  by_cases hout : origin < mlfqMaxCpus ∧ m.rod.nrLlcs > 0
  · have hsign : (0 : Int) ≤ origin := Int.natCast_nonneg origin
    simp only [hout, hsign, true_and]
    rfl
  · have hall : ¬ (origin < mlfqMaxCpus ∧ m.rod.nrLlcs > 0
        ∧ m.rod.cpuLlc origin < mlfqMaxLlcs ∧ m.rod.cpuLlc origin < m.rod.nrLlcs) := by
      intro h
      exact hout ⟨h.1, h.2.1⟩
    have hfirst : ¬ (0 ≤ (origin : Int) ∧ origin < mlfqMaxCpus ∧ m.rod.nrLlcs > 0) := by
      intro h
      exact hout h.2
    rw [if_neg hfirst, if_neg hall]

/-- For the CPU of the enqueue, the loops are the pick of the model. -/
theorem walkUnoccupiedCpu_natCast (m : Machine) (p : TaskStruct) (origin : Nat) :
    walkUnoccupiedCpu m p origin = mlfqPickUnoccupiedCpu m p origin := by
  rw [walkUnoccupiedCpu, mlfqPickUnoccupiedCpu, walkOriginLlc_natCast, flatScan_eq]
  have htest : TakesRedirect m p = fun cand => p.cpus cand && !m.occupied cand := by
    funext cand
    rw [TakesRedirect, cpuOccupied_natCast]
  cases unoccupiedInLlc m p origin with
  | some cpu => rfl
  | none => exact congrArg (List.find? · (List.range (min mlfqMaxCpus m.nrCpuIds))) htest

/-! ## What is picked -/

theorem mlfqBitmapTestCpu_lt {bm : Nat → Bool} {cpu : Nat} (h : mlfqBitmapTestCpu bm cpu = true) :
    cpu < mlfqMaxCpus := by
  rw [mlfqBitmapTestCpu] at h
  split at h
  · cases h
  · omega

/-- The populated domain of the origin, by its bitmap. -/
def InOriginLlc (m : Machine) (origin : Int) (cand : Nat) : Prop :=
  0 ≤ origin ∧ m.llcOfCpu origin.toNat < mlfqMaxLlcs ∧
    ∃ bm, m.llcBitmaps (m.llcOfCpu origin.toNat) = some bm ∧ mlfqBitmapTestCpu bm cand = true

/-- A CPU in no domain is in none of the passes. -/
theorem walkOriginLlc_of_unmapped {m : Machine} {p : TaskStruct} {origin : Int}
    (h : ¬ (0 ≤ origin ∧ m.llcOfCpu origin.toNat < mlfqMaxLlcs)) :
    walkOriginLlc m p origin = none := by
  rw [walkOriginLlc]
  split
  · rename_i hin
    have hrange : ¬ origin.toNat ≥ mlfqMaxCpus := by omega
    rw [Machine.llcOfCpu, if_neg hrange] at h
    apply if_neg
    intro hllc
    rw [if_pos hllc] at h
    exact h ⟨hin.1, hllc.1⟩
  · rfl

/-- A CPU of a domain walks the bitmap of the domain, where there is
one. -/
theorem walkOriginLlc_of_mapped {m : Machine} {p : TaskStruct} {origin : Int}
    (hsign : 0 ≤ origin) (h : m.llcOfCpu origin.toNat < mlfqMaxLlcs) :
    walkOriginLlc m p origin
      = (m.llcBitmaps (m.llcOfCpu origin.toNat)).bind (walkUnoccupiedInBitmap m · p) := by
  have hrange : ¬ origin.toNat ≥ mlfqMaxCpus := by
    intro hout
    rw [Machine.llcOfCpu, if_pos hout] at h
    exact lt_irrefl _ h
  have hllc : m.rod.cpuLlc origin.toNat < mlfqMaxLlcs
      ∧ m.rod.cpuLlc origin.toNat < m.rod.nrLlcs := by
    by_contra hout
    rw [Machine.llcOfCpu, if_neg hrange, if_neg hout] at h
    exact lt_irrefl _ h
  have heq : m.llcOfCpu origin.toNat = m.rod.cpuLlc origin.toNat := by
    rw [Machine.llcOfCpu, if_neg hrange, if_pos hllc]
  have hin : 0 ≤ origin ∧ origin.toNat < mlfqMaxCpus ∧ m.rod.nrLlcs > 0 :=
    ⟨hsign, by omega, by omega⟩
  simp only [walkOriginLlc, if_pos hin, if_pos hllc, heq]
  cases m.llcBitmaps (m.rod.cpuLlc origin.toNat) <;> rfl

theorem walkOriginLlc_some {m : Machine} {p : TaskStruct} {origin : Int} {c : Nat}
    (h : walkOriginLlc m p origin = some c) :
    IsLeast { d | InOriginLlc m origin d ∧ TakesRedirect m p d = true } c := by
  by_cases hmap : 0 ≤ origin ∧ m.llcOfCpu origin.toNat < mlfqMaxLlcs
  · rw [walkOriginLlc_of_mapped hmap.1 hmap.2, Option.bind_eq_some_iff] at h
    obtain ⟨bm, hbm, hwalk⟩ := h
    rw [walkUnoccupiedInBitmap, Scan.outer_range] at hwalk
    have hleast := Scan.isLeast_of_find?_range hwalk
    -- every set bit lies below the bound of the walk
    have hset : { d | InOriginLlc m origin d ∧ TakesRedirect m p d = true }
        = { d | d < min mlfqMaxCpus (mlfqBitmapWords * 64)
            ∧ (mlfqBitmapTestCpu bm d && TakesRedirect m p d) = true } := by
      ext d
      rw [Set.mem_ofPred_eq, Set.mem_ofPred_eq, Bool.and_eq_true, InOriginLlc]
      constructor
      · intro hd
        obtain ⟨⟨-, -, bm', hbm', hbit⟩, htake⟩ := hd
        rw [hbm] at hbm'
        cases hbm'
        exact ⟨mlfqBitmapTestCpu_lt hbit, hbit, htake⟩
      · intro hd
        exact ⟨⟨hmap.1, hmap.2, bm, hbm, hd.2.1⟩, hd.2.2⟩
    rw [hset]
    exact hleast
  · rw [walkOriginLlc_of_unmapped hmap] at h
    cases h

theorem walkOriginLlc_none {m : Machine} {p : TaskStruct} {origin : Int}
    (h : walkOriginLlc m p origin = none) {d : Nat} (hd : InOriginLlc m origin d) :
    TakesRedirect m p d = false := by
  obtain ⟨hsign, hllc, bm, hbm, hbit⟩ := hd
  rw [walkOriginLlc_of_mapped hsign hllc, hbm, Option.bind_some, walkUnoccupiedInBitmap,
    Scan.outer_range, List.find?_eq_none] at h
  have hno := h d (List.mem_range.mpr (mlfqBitmapTestCpu_lt hbit))
  rw [hbit, Bool.true_and, Bool.not_eq_true] at hno
  exact hno

/-- The bitmaps name CPUs of the machine only. -/
def BitmapsInRange (m : Machine) : Prop :=
  ∀ llc bm, m.llcBitmaps llc = some bm →
    ∀ cand, mlfqBitmapTestCpu bm cand = true → cand < m.nrCpuIds

section Complete
variable {m : Machine} {p : TaskStruct} {origin : Int}

theorem InOriginLlc.lt (h : BitmapsInRange m) {cand : Nat} (hin : InOriginLlc m origin cand) :
    cand < m.nrCpuIds := by
  obtain ⟨-, -, bm, hbm, hbit⟩ := hin
  exact h _ bm hbm cand hbit

/-- The flat scan reaches every CPU of the machine. -/
theorem flatScan_range (hcpus : m.nrCpuIds ≤ mlfqMaxCpus) :
    Scan.inner m.nrCpuIds (TakesRedirect m p) (List.range mlfqMaxCpus)
      = (List.range m.nrCpuIds).find? (TakesRedirect m p) := by
  rw [flatScan_eq, Nat.min_eq_right hcpus]

theorem walkUnoccupiedCpu_some (hcpus : m.nrCpuIds ≤ mlfqMaxCpus) {c : Nat}
    (h : walkUnoccupiedCpu m p origin = some c) :
    IsLeast { d | InOriginLlc m origin d ∧ TakesRedirect m p d = true } c
      ∨ (∀ d, InOriginLlc m origin d → TakesRedirect m p d = false)
        ∧ IsLeast { d | d < m.nrCpuIds ∧ TakesRedirect m p d = true } c := by
  rw [walkUnoccupiedCpu] at h
  split at h
  · rename_i cpu hllc
    cases h
    exact .inl (walkOriginLlc_some hllc)
  · rename_i hllc
    rw [flatScan_range hcpus] at h
    exact .inr ⟨fun d hd => walkOriginLlc_none hllc hd, Scan.isLeast_of_find?_range h⟩

theorem walkUnoccupiedCpu_none (hcpus : m.nrCpuIds ≤ mlfqMaxCpus)
    (h : walkUnoccupiedCpu m p origin = none) {d : Nat} (hd : d < m.nrCpuIds) :
    TakesRedirect m p d = false := by
  rw [walkUnoccupiedCpu] at h
  split at h
  · cases h
  · rw [flatScan_range hcpus, List.find?_eq_none] at h
    exact Bool.not_eq_true _ ▸ h d (List.mem_range.mpr hd)

end Complete

/-- **The redirect finds a CPU whenever one exists**: first in the
populated domain of the origin, then on the machine, the lowest of each.
The pick of the enqueue is this one. -/
theorem redirect_complete (m : Machine) (p : TaskStruct) (origin : Int)
    (hcpus : m.nrCpuIds ≤ mlfqMaxCpus) (hbitmaps : BitmapsInRange m) :
    (walkUnoccupiedCpu m p origin = none
        ↔ ∀ c, c < m.nrCpuIds → p.cpus c = true → m.occupied c = true) ∧
      (∀ c, walkUnoccupiedCpu m p origin = some c →
        c < m.nrCpuIds ∧ p.cpus c = true ∧ m.occupied c = false ∧
          (IsLeast { d | InOriginLlc m origin d ∧ p.cpus d = true ∧ m.occupied d = false } c
            ∨ (∀ d, InOriginLlc m origin d → p.cpus d = true → m.occupied d = true)
              ∧ IsLeast { d | d < m.nrCpuIds ∧ p.cpus d = true ∧ m.occupied d = false } c)) ∧
      ∀ cpu : Nat, mlfqPickUnoccupiedCpu m p cpu = walkUnoccupiedCpu m p cpu := by
  have hbusy {d : Nat} : TakesRedirect m p d = false ↔ (p.cpus d = true → m.occupied d = true) := by
    rw [← Bool.not_eq_true, TakesRedirect_iff]
    simp
  refine ⟨⟨?_, ?_⟩, ?_, fun cpu => (walkUnoccupiedCpu_natCast m p cpu).symm⟩
  · intro hnone c hc
    exact hbusy.mp (walkUnoccupiedCpu_none hcpus hnone hc)
  · intro hall
    cases hpick : walkUnoccupiedCpu m p origin with
    | none => rfl
    | some c =>
        exfalso
        -- a pick would be an allowed CPU that is not occupied
        have htaken : c < m.nrCpuIds ∧ TakesRedirect m p c = true := by
          rcases walkUnoccupiedCpu_some hcpus hpick with hllc | ⟨-, hflat⟩
          · exact ⟨hllc.1.1.lt hbitmaps, hllc.1.2⟩
          · exact hflat.1
        have hfree := TakesRedirect_iff.mp htaken.2
        rw [hall c htaken.1 hfree.1] at hfree
        exact absurd hfree.2 (by decide)
  · intro c hpick
    have hcases := walkUnoccupiedCpu_some hcpus hpick
    simp only [TakesRedirect_iff, hbusy] at hcases
    rcases hcases with hllc | ⟨hno, hflat⟩
    · exact ⟨hllc.1.1.lt hbitmaps, hllc.1.2.1, hllc.1.2.2, .inl hllc⟩
    · exact ⟨hflat.1.1, hflat.1.2.1, hflat.1.2.2, .inr ⟨hno, hflat⟩⟩

/-- A domain of two CPUs past a word boundary, the first one taken, next
to an unpopulated domain. -/
def wordBoundary : Machine :=
  { Machine.zeroed { nrLlcs := 2, cpuLlc := fun c => if c < 8 then 0 else 1 } 66 with
    llcBitmaps := fun llc =>
      some fun c => decide (llc = 0) && decide (64 ≤ c) && decide (c < 66)
    occupied := fun c => decide (c = 64) }

theorem wordBoundary_inRange : BitmapsInRange wordBoundary := by
  intro llc bm hbm cand hbit
  cases hbm
  have hlt := mlfqBitmapTestCpu_lt hbit
  rw [mlfqBitmapTestCpu, if_neg (Nat.not_le.mpr hlt)] at hbit
  simp only [Bool.and_eq_true, decide_eq_true_eq] at hbit
  exact hbit.2

theorem redirect_complete_boundary :
    mlfqPickUnoccupiedCpu wordBoundary { pid := 1 } 7 ≠ none := by
  have h := redirect_complete wordBoundary { pid := 1 } 7 (by decide) wordBoundary_inRange
  intro hnone
  have hall := h.1.mp ((h.2.2 7).symm.trans hnone) 65 (by decide) rfl
  exact absurd hall (by decide)

end ScxMlfq
