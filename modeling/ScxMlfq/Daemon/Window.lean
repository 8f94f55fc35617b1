import ScxMlfq.Bpf.Lifecycle
import ScxMlfq.Lib.Trace

/-!
# Daemon — Window

The training window of `src/main.rs`: a bounded deque of samples and,
beside it, the number of samples each pid holds there. A sample is
admitted against the counts before the window makes room for it, so the
two are out of step inside `ingest_sample` and in step after it. What the
function does behind the push, the kick of the training worker, reads the
window only.
-/

namespace ScxMlfq

open Trace

/-- `MLFQ_TREE_WINDOW_MAX`. -/
def mlfqTreeWindowMax : Nat := 16384

/-- `MLFQ_TREE_PER_PID_CAP`. -/
def mlfqTreePerPidCap : Nat := mlfqTreeWindowMax / 20

/-- `HashMap<u32, u32>`: the entry of a pid. -/
abbrev PidCounts := Nat → Option Nat

/-- What `ingest_sample` keeps of the stream. -/
structure TrainWindow where
  window : List TreeSample := []
  pidCounts : PidCounts := fun _ => none
  capDropped : U64 := 0

/-- `tree_admit_pid`, with the counts it leaves. -/
def treeAdmitPid (counts : PidCounts) (pid : Nat) : PidCounts × Bool :=
  let c := (counts pid).getD 0
  if c ≥ mlfqTreePerPidCap then (Function.update counts pid (some c), false)
  else (Function.update counts pid (some (c + 1)), true)

/-- `tree_evict_pid`. None where the decrement would underflow. -/
def treeEvictPid (counts : PidCounts) (pid : Nat) : Option PidCounts :=
  match counts pid with
  | none => some counts
  | some 0 => none
  | some (c + 1) => some (Function.update counts pid (if c = 0 then none else some c))

/-- `ingest_sample`. -/
def ingestSample (s : TrainWindow) (x : TreeSample) : Option TrainWindow :=
  match treeAdmitPid s.pidCounts x.pid with
  | (counts, false) => some { s with pidCounts := counts, capDropped := s.capDropped + 1 }
  | (counts, true) =>
      if s.window.length = mlfqTreeWindowMax then
        match s.window with
        | [] => none
        | evicted :: rest =>
            (treeEvictPid counts evicted.pid).map fun counts =>
              { s with window := rest ++ [x], pidCounts := counts }
      else some { s with window := s.window ++ [x], pidCounts := counts }

/-! ## What the counts are of the window -/

/-- The samples of a pid in the window. -/
def pidSamples (window : List TreeSample) (pid : Nat) : Nat :=
  window.countP fun x => decide (x.pid = pid)

/-- The entry of a pid with `n` samples. -/
def countEntry (n : Nat) : Option Nat := if n = 0 then none else some n

/-- The window is within its bounds, and the counts are those of it. -/
structure TrainWindow.Mirrors (s : TrainWindow) : Prop where
  length : s.window.length ≤ mlfqTreeWindowMax
  counts : ∀ pid, s.pidCounts pid = countEntry (pidSamples s.window pid)
  cap : ∀ pid, pidSamples s.window pid ≤ mlfqTreePerPidCap

@[simp] theorem countEntry_getD (n : Nat) : (countEntry n).getD 0 = n := by
  rw [countEntry]
  split
  · exact Eq.symm ‹_›
  · rfl

theorem pidSamples_cons (x : TreeSample) (window : List TreeSample) (pid : Nat) :
    pidSamples (x :: window) pid = pidSamples window pid + if x.pid = pid then 1 else 0 := by
  rw [pidSamples, List.countP_cons, pidSamples]
  simp only [decide_eq_true_eq]

theorem pidSamples_concat (window : List TreeSample) (x : TreeSample) (pid : Nat) :
    pidSamples (window ++ [x]) pid = pidSamples window pid + if x.pid = pid then 1 else 0 := by
  rw [pidSamples, List.countP_append, List.countP_singleton, pidSamples]
  simp only [decide_eq_true_eq]

/-- The sample is admitted. -/
def admits (s : TrainWindow) (x : TreeSample) : Bool := (treeAdmitPid s.pidCounts x.pid).2

/-- **A pid is rejected at its cap.** -/
theorem TrainWindow.Mirrors.admits_iff {s : TrainWindow} (h : s.Mirrors) (x : TreeSample) :
    admits s x = true ↔ pidSamples s.window x.pid < mlfqTreePerPidCap := by
  rw [admits, treeAdmitPid, h.counts, countEntry_getD]
  split
  · rename_i hge
    exact iff_of_false Bool.false_ne_true (Nat.not_lt.mpr hge)
  · rename_i hlt
    exact iff_of_true rfl (Nat.not_le.mp hlt)

/-- The counts with the entry of one pid set anew. -/
theorem update_countEntry {counts : PidCounts} {window window' : List TreeSample} {pid n : Nat}
    (h : ∀ p, counts p = countEntry (pidSamples window p)) (hn : pidSamples window' pid = n)
    (hother : ∀ p, p ≠ pid → pidSamples window' p = pidSamples window p) :
    ∀ p, Function.update counts pid (countEntry n) p = countEntry (pidSamples window' p) := by
  intro p
  by_cases hp : p = pid
  · subst hp
    rw [Function.update_self, hn]
  · rw [Function.update_of_ne hp, h p, hother p hp]

/-- A rejected sample moves the drop counter only. -/
theorem ingestSample_rejected {s : TrainWindow} (h : s.Mirrors) {x : TreeSample}
    (hrej : admits s x = false) :
    ingestSample s x = some { s with capDropped := s.capDropped + 1 } := by
  have hsame : Function.update s.pidCounts x.pid (some (pidSamples s.window x.pid))
      = s.pidCounts := by
    have hfull : ¬ pidSamples s.window x.pid < mlfqTreePerPidCap := by
      rw [← h.admits_iff, hrej]
      exact Bool.false_ne_true
    have hcap : 0 < mlfqTreePerPidCap := by decide
    have hentry : some (pidSamples s.window x.pid) = s.pidCounts x.pid := by
      rw [h.counts, countEntry, if_neg (by omega)]
    rw [hentry, Function.update_eq_self]
  rw [admits, treeAdmitPid, h.counts, countEntry_getD] at hrej
  split at hrej
  · rename_i hge
    simp only [ingestSample, treeAdmitPid, h.counts x.pid, countEntry_getD]
    rw [if_pos hge, hsame]
  · cases hrej

/-- The counts after an admission are those of the longer window. -/
theorem treeAdmitPid_admitted {s : TrainWindow} (h : s.Mirrors) {x : TreeSample}
    (hadm : admits s x = true) :
    ∃ counts, treeAdmitPid s.pidCounts x.pid = (counts, true)
      ∧ ∀ p, counts p = countEntry (pidSamples (s.window ++ [x]) p) := by
  rw [h.admits_iff] at hadm
  refine ⟨_, ?_, update_countEntry h.counts (pidSamples_concat s.window x x.pid) ?_⟩
  · rw [treeAdmitPid, h.counts, countEntry_getD, if_neg (by omega), if_pos rfl]
    rfl
  · intro p hp
    rw [pidSamples_concat, if_neg (Ne.symm hp)]
    rfl

/-- An eviction takes the oldest sample out of the counts. -/
theorem treeEvictPid_oldest {counts : PidCounts} {oldest : TreeSample} {rest : List TreeSample}
    (h : ∀ p, counts p = countEntry (pidSamples (oldest :: rest) p)) :
    ∃ counts', treeEvictPid counts oldest.pid = some counts'
      ∧ ∀ p, counts' p = countEntry (pidSamples rest p) := by
  have hn : pidSamples (oldest :: rest) oldest.pid = pidSamples rest oldest.pid + 1 := by
    rw [pidSamples_cons, if_pos rfl]
  refine ⟨_, ?_, update_countEntry h (Eq.refl (pidSamples rest oldest.pid)) ?_⟩
  · rw [treeEvictPid, h, hn]
    rfl
  · intro p hp
    rw [pidSamples_cons, if_neg (Ne.symm hp)]
    rfl

/-- **One admitted sample**: it enters at the back, the oldest leaves a
full window, and the counts follow. -/
theorem ingestSample_admitted {s : TrainWindow} (h : s.Mirrors) {x : TreeSample}
    (hadm : admits s x = true) :
    ∃ s', ingestSample s x = some s' ∧ s'.Mirrors ∧ s'.capDropped = s.capDropped
      ∧ s'.window
        = (s.window ++ [x]).drop ((s.window ++ [x]).length - mlfqTreeWindowMax) := by
  obtain ⟨counts, hcounts, hmirror⟩ := treeAdmitPid_admitted h hadm
  have hroom := (h.admits_iff x).mp hadm
  have hlen := h.length
  have hcap : ∀ p, pidSamples (s.window ++ [x]) p ≤ mlfqTreePerPidCap := by
    intro p
    rw [pidSamples_concat]
    split
    · rename_i hp
      rw [← hp]
      omega
    · exact h.cap p
  simp only [ingestSample, hcounts]
  by_cases hfull : s.window.length = mlfqTreeWindowMax
  · rw [if_pos hfull]
    cases hw : s.window with
    | nil =>
        rw [hw] at hfull
        cases hfull
    | cons oldest rest =>
        rw [hw, List.cons_append] at hmirror hcap
        obtain ⟨counts', hevict, hmirror'⟩ := treeEvictPid_oldest hmirror
        rw [hw, List.length_cons] at hfull
        refine ⟨{ window := rest ++ [x], pidCounts := counts', capDropped := s.capDropped },
          by simp only [hevict, Option.map_some], ⟨?_, hmirror', fun p => ?_⟩, rfl, ?_⟩
        · simp only [List.length_append, List.length_singleton]
          omega
        · have hp := hcap p
          rw [pidSamples_cons] at hp
          exact Nat.le_trans (Nat.le_add_right _ _) hp
        · have hone : (oldest :: rest ++ [x]).length - mlfqTreeWindowMax = 1 := by
            simp only [List.length_append, List.length_cons, List.length_nil]
            omega
          rw [hone]
          rfl
  · rw [if_neg hfull]
    have hshort : (s.window ++ [x]).length - mlfqTreeWindowMax = 0 := by
      simp only [List.length_append, List.length_singleton]
      omega
    refine ⟨_, rfl, ⟨?_, hmirror, hcap⟩, rfl, ?_⟩
    · simp only [List.length_append, List.length_singleton]
      omega
    · rw [hshort, List.drop_zero]

/-- Every sample can be ingested, and keeps the counts in step. -/
theorem TrainWindow.Mirrors.exists_ingest {s : TrainWindow} (h : s.Mirrors) (x : TreeSample) :
    ∃ s', ingestSample s x = some s' ∧ s'.Mirrors := by
  cases hadm : admits s x with
  | true =>
      obtain ⟨s', hs', hm, -⟩ := ingestSample_admitted h hadm
      exact ⟨s', hs', hm⟩
  | false => exact ⟨_, ingestSample_rejected h hadm, h.length, h.counts, h.cap⟩

theorem TrainWindow.Mirrors.ingestSample {s s' : TrainWindow} (h : s.Mirrors) {x : TreeSample}
    (hs : ScxMlfq.ingestSample s x = some s') : s'.Mirrors := by
  obtain ⟨s₁, hs₁, hm⟩ := h.exists_ingest x
  obtain rfl := Option.some.inj (hs₁.symm.trans hs)
  exact hm

/-! ## The stream -/

abbrev WindowEntry := Entry TrainWindow TreeSample

/-- The streams, from the empty window. -/
abbrev WindowRun : List WindowEntry → TrainWindow → Prop :=
  Run (fun s x s' => ingestSample s x = some s') (fun s => s = {})

/-- The admitted samples, in arrival order. -/
def admitted : List WindowEntry → List TreeSample
  | [] => []
  | x :: tr => if admits x.pre x.event then admitted tr ++ [x.event] else admitted tr

/-- The number of rejected samples. -/
def dropped : List WindowEntry → Nat
  | [] => 0
  | x :: tr => if admits x.pre x.event then dropped tr else dropped tr + 1

/-- What the window is of the stream. -/
structure Accounted (tr : List WindowEntry) (s : TrainWindow) : Prop where
  mirrors : s.Mirrors
  window : s.window = (admitted tr).drop ((admitted tr).length - mlfqTreeWindowMax)
  dropped : s.capDropped = BitVec.ofNat 64 (dropped tr)
  total : (admitted tr).length + ScxMlfq.dropped tr = tr.length

/-- The end of a list, and one element more. -/
theorem drop_concat {α : Type*} (xs : List α) (x : α) (n : Nat) :
    let last := xs.drop (xs.length - n)
    (last ++ [x]).drop ((last ++ [x]).length - n)
      = (xs ++ [x]).drop ((xs ++ [x]).length - n) := by
  have hback : xs.drop (xs.length - n) ++ [x] = (xs ++ [x]).drop (xs.length - n) :=
    (List.drop_append_of_le_length (Nat.sub_le _ _)).symm
  simp only [hback, List.drop_drop, List.length_drop, List.length_append, List.length_singleton]
  congr 1
  omega

/-- **One sample keeps the account.** -/
theorem Accounted.step {tr : List WindowEntry} {s s' : TrainWindow} {x : TreeSample}
    (h : Accounted tr s) (hs : ingestSample s x = some s') : Accounted (⟨s, x, s'⟩ :: tr) s' := by
  cases hadm : admits s x with
  | true =>
      obtain ⟨s₁, hs₁, hmirrors, hdrop, hwindow⟩ := ingestSample_admitted h.mirrors hadm
      obtain rfl := Option.some.inj (hs₁.symm.trans hs)
      have hlist : admitted (⟨s, x, s₁⟩ :: tr) = admitted tr ++ [x] := by
        rw [admitted, hadm, if_pos rfl]
      have hcount : ScxMlfq.dropped (⟨s, x, s₁⟩ :: tr) = ScxMlfq.dropped tr := by
        rw [ScxMlfq.dropped, hadm, if_pos rfl]
      refine ⟨hmirrors, ?_, ?_, ?_⟩
      · rw [hwindow, hlist, h.window]
        exact drop_concat (admitted tr) x mlfqTreeWindowMax
      · rw [hdrop, hcount, h.dropped]
      · rw [hlist, hcount, List.length_append, List.length_singleton, List.length_cons, ← h.total]
        omega
  | false =>
      obtain rfl := Option.some.inj ((ingestSample_rejected h.mirrors hadm).symm.trans hs)
      have hlist : admitted (⟨s, x, { s with capDropped := s.capDropped + 1 }⟩ :: tr)
          = admitted tr := by
        rw [admitted, hadm, if_neg Bool.false_ne_true]
      have hcount : ScxMlfq.dropped (⟨s, x, { s with capDropped := s.capDropped + 1 }⟩ :: tr)
          = ScxMlfq.dropped tr + 1 := by
        rw [ScxMlfq.dropped, hadm, if_neg Bool.false_ne_true]
      refine ⟨⟨h.mirrors.length, h.mirrors.counts, h.mirrors.cap⟩, ?_, ?_, ?_⟩
      · rw [hlist]
        exact h.window
      · rw [hcount, BitVec.ofNat_add, ← h.dropped]
        rfl
      · rw [hlist, hcount, List.length_cons, ← h.total]
        omega

theorem WindowRun.accounted {tr : List WindowEntry} {s : TrainWindow} (h : WindowRun tr s) :
    Accounted tr s := by
  refine Run.invariant (I := Accounted) ?_ (fun tr s x s' hI hs => hI.step hs) h
  rintro s rfl
  exact ⟨⟨Nat.zero_le _, fun _ => rfl, fun _ => Nat.zero_le _⟩, rfl, rfl, rfl⟩

/-- **The account of the training window**, over every stream. -/
theorem trainWindow_accounted {tr : List WindowEntry} {s : TrainWindow} (h : WindowRun tr s) :
    s.window.length ≤ mlfqTreeWindowMax
    ∧ s.window = (admitted tr).drop ((admitted tr).length - mlfqTreeWindowMax)
    ∧ (∀ pid, s.pidCounts pid = countEntry (pidSamples s.window pid))
    ∧ (∀ pid c, s.pidCounts pid = some c → 1 ≤ c ∧ c ≤ mlfqTreePerPidCap)
    ∧ (∀ x, ∃ s', ingestSample s x = some s'
      ∧ (admits s x = false ↔ pidSamples s.window x.pid = mlfqTreePerPidCap)
      ∧ (admits s x = false → s' = { s with capDropped := s.capDropped + 1 }))
    ∧ (admitted tr).length + dropped tr = tr.length
    ∧ s.capDropped = BitVec.ofNat 64 (dropped tr) := by
  have hacc := h.accounted
  have hm := hacc.mirrors
  refine ⟨hm.length, hacc.window, hm.counts, fun pid c hc => ?_, fun x => ?_, hacc.total,
    hacc.dropped⟩
  · rw [hm.counts, countEntry] at hc
    split at hc
    · cases hc
    · obtain rfl := Option.some.inj hc
      exact ⟨by omega, hm.cap pid⟩
  · have hcap := hm.cap x.pid
    cases hadm : admits s x with
    | true =>
        obtain ⟨s', hs', -⟩ := ingestSample_admitted hm hadm
        have hroom := (hm.admits_iff x).mp hadm
        exact ⟨s', hs', iff_of_false nofun (Nat.ne_of_lt hroom), nofun⟩
    | false =>
        have hfull : ¬ pidSamples s.window x.pid < mlfqTreePerPidCap := by
          rw [← hm.admits_iff, hadm]
          exact Bool.false_ne_true
        exact ⟨_, ingestSample_rejected hm hadm, iff_of_true rfl (by omega), fun _ => rfl⟩

/-- A stream of two tasks, all of it in the window. -/
theorem trainWindow_accounted_twoPids :
    ∃ (tr : List WindowEntry) (s : TrainWindow), WindowRun tr s ∧ tr.length = 3
      ∧ s.window.map (fun x => (x.pid, x.labelNs)) = [(7, 1000), (8, 2000), (7, 3000)]
      ∧ s.window = (admitted tr).drop ((admitted tr).length - mlfqTreeWindowMax)
      ∧ s.pidCounts 7 = some 2 ∧ s.capDropped = 0 := by
  let x (pid : Nat) (labelNs : U64) : TreeSample :=
    { pid := pid, queue := 1, feats := {}, labelNs := labelNs }
  obtain ⟨tr, s, hrun, htest⟩ : ∃ tr s, WindowRun tr s ∧ decide (tr.length = 3
      ∧ s.window.map (fun x => (x.pid, x.labelNs)) = [(7, 1000), (8, 2000), (7, 3000)]
      ∧ s.pidCounts 7 = some 2 ∧ s.capDropped = 0) = true :=
    @exec_reaches _ _ ingestSample (fun s => s = {}) {} rfl [x 7 1000, x 8 2000, x 7 3000]
      (fun tr s => decide (tr.length = 3
        ∧ s.window.map (fun x => (x.pid, x.labelNs)) = [(7, 1000), (8, 2000), (7, 3000)]
        ∧ s.pidCounts 7 = some 2 ∧ s.capDropped = 0)) (by decide)
  obtain ⟨hlen, hwindow, hcount, hdrop⟩ := of_decide_eq_true htest
  exact ⟨tr, s, hrun, hlen, hwindow, (trainWindow_accounted hrun).2.1, hcount, hdrop⟩

end ScxMlfq
