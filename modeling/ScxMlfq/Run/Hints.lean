import ScxMlfq.Lib.Gate
import ScxMlfq.Lib.History
import ScxMlfq.Run.Cadence

/-!
# Run — Hints

The direct-wake hint of the GPU tracepoints over the runs of a task. A
tracepoint counts a submission at most once per window and leaves the
hint; a selection takes it back. So the handoffs the hint causes are no
more than the submissions counted, and those are more than a window
apart however many tracepoints fire.
-/

namespace ScxMlfq

open Trace Spacing

/-- The gate of `mlfq_gpu_submit_inc`. -/
def submitOpens (t : TaskCtx) (now : U64) : Prop :=
  Gate.Opens mlfqTreePerTaskLimitNs t.lastGpuSubmitAt now

instance (t : TaskCtx) (now : U64) : Decidable (submitOpens t now) :=
  inferInstanceAs (Decidable (Gate.Opens _ _ _))

/-- The time of a submission that is counted. -/
def countedOf (x : TaskEntry) : Option Nat :=
  match x.event with
  | .gpuSubmit now => if submitOpens x.pre.tctx now then some now.toNat else none
  | _ => none

/-- A handoff no waker asked for. -/
def hintedOf (x : TaskEntry) : Option Int :=
  match x.event with
  | .select m p prevCpu false now =>
      let r := mlfqSelectCpu m p (some x.pre.tctx) prevCpu false now
      if r.exit = .sync then some r.cpu else none
  | _ => none

/-- The callbacks that touch the hint. -/
def TaskEvent.hints : TaskEvent → Bool
  | .reset _ _ => true
  | .select _ _ _ _ _ => true
  | .gpuSubmit _ => true
  | _ => false

/-- The hint as a number. -/
def hint (t : TaskCtx) : Nat := if t.flags.drmWake then 1 else 0

/-! ## One callback -/

/-- The tracepoint counts and leaves the hint, or does nothing. -/
theorem mlfqGpuSubmitInc_cases (t : TaskCtx) (now : U64) :
    (submitOpens t now ∧ (mlfqGpuSubmitInc t now).flags.drmWake = true
        ∧ (mlfqGpuSubmitInc t now).lastGpuSubmitAt = now)
      ∨ ¬ submitOpens t now ∧ mlfqGpuSubmitInc t now = t := by
  unfold submitOpens Gate.Opens mlfqGpuSubmitInc
  by_cases hclosed : t.lastGpuSubmitAt ≠ 0
      ∧ mlfqTimeBefore (t.lastGpuSubmitAt + mlfqTreePerTaskLimitNs) now = false
  · rw [if_pos hclosed]
    right
    refine ⟨fun hopen => ?_, rfl⟩
    rcases hopen with hzero | hbefore
    · exact hclosed.1 hzero
    · exact (mlfqTimeBefore_false_iff.mp hclosed.2) hbefore
  · rw [if_neg hclosed]
    left
    refine ⟨?_, rfl, rfl⟩
    by_cases hzero : t.lastGpuSubmitAt = 0
    · exact .inl hzero
    · right
      by_contra hbefore
      exact hclosed ⟨hzero, mlfqTimeBefore_false_iff.mpr hbefore⟩

/-- The selection keeps the hint or takes it back, and always takes it
back when it hands off unasked. -/
theorem mlfqSelectCpu_hint (m : Machine) (p : TaskStruct) (t t' : TaskCtx) (prevCpu : Int)
    (sync : Bool) (now : U64) (h : (mlfqSelectCpu m p (some t) prevCpu sync now).tctx = some t') :
    t'.lastGpuSubmitAt = t.lastGpuSubmitAt ∧ hint t' ≤ hint t
      ∧ (sync = false → (mlfqSelectCpu m p (some t) prevCpu sync now).exit = .sync →
        hint t = 1 ∧ hint t' = 0) := by
  rw [mlfqSelectCpu] at h ⊢
  split at h
  · rename_i cpu hcpu
    cases h
    refine ⟨rfl, Nat.zero_le _, fun hsync _ => ?_⟩
    have hwanted : syncWanted t sync = true := by
      by_contra hno
      rw [if_neg hno] at hcpu
      cases hcpu
    simp only [syncWanted, hsync, Bool.false_or, Bool.and_eq_true] at hwanted
    exact ⟨if_pos hwanted.1, rfl⟩
  · obtain ⟨w, hplace⟩ := selectPlace_frame m p (selectTctx t sync) prevCpu now
    rw [hplace] at h
    cases h
    refine ⟨?_, ?_, fun _ hexit => ?_⟩
    · rw [selectTctx]
      split <;> rfl
    · rw [selectTctx]
      split
      · exact Nat.zero_le _
      · exact Nat.le_refl _
    · exact absurd hexit (selectPlace_exit_ne_sync m p (selectTctx t sync) prevCpu now)

/-- What a callback that is neither does to the hint. -/
structure HintKept (t t' : TaskCtx) : Prop where
  drmWake : t'.flags.drmWake = t.flags.drmWake
  stamp : t'.lastGpuSubmitAt = t.lastGpuSubmitAt

theorem mlfqSleepEmaUpdate_hint (t : TaskCtx) (s : U64) : HintKept t (mlfqSleepEmaUpdate t s) := by
  constructor
  · rw [mlfqSleepEmaUpdate, cadenceStep_eq, averageCadence_eq]
  · rw [mlfqSleepEmaUpdate, cadenceStep_eq, averageCadence_eq]

theorem foldSleep_hint (t : TaskCtx) (now : U64) : HintKept t (foldSleep t now) := by
  rw [foldSleep]
  split
  · exact ⟨(mlfqSleepEmaUpdate_hint ..).drmWake, (mlfqSleepEmaUpdate_hint ..).stamp⟩
  · split
    · exact ⟨(mlfqSleepEmaUpdate_hint ..).drmWake, (mlfqSleepEmaUpdate_hint ..).stamp⟩
    · exact ⟨rfl, rfl⟩

theorem mlfqStopping_hint (m : Machine) (p : TaskStruct) (t : TaskCtx) (runnable : Bool)
    (now : U64) : HintKept t (mlfqStopping m p t runnable now).tctx := by
  obtain ⟨burst, at_, hseg⟩ := stopSegment_frame m p t runnable now
  have hkept : HintKept t (stopSegment m p t runnable now).2.1 := by
    rw [hseg]
    exact ⟨rfl, rfl⟩
  rw [mlfqStopping_tctx]
  cases runnable with
  | true => exact ⟨hkept.drmWake, hkept.stamp⟩
  | false =>
      have hfold := foldSleep_hint (stopSegment m p t false now).2.1 now
      rw [stopBlock_blocks]
      exact ⟨hfold.drmWake.trans hkept.drmWake, hfold.stamp.trans hkept.stamp⟩

theorem enqueue_hint {s s' : TaskState} {m : Machine} {p : TaskStruct} {flags : EnqFlags}
    {now : U64} (h : stepTask s (.enqueue m p flags now) = some s') :
    HintKept s.tctx s'.tctx := by
  obtain ⟨-, -, hplace⟩ := stepTask_enqueue h
  obtain ⟨q, at_, cnt, hset⟩ := settleQueue_frame m p flags (weighed p s.tctx) now
  obtain ⟨q', w, n, b, ema, st, feats, pq, pv, hclass⟩ :=
    enqueueClassify_frame m p flags (weighed p s.tctx) now
  constructor
  · rw [hplace.routed, hset, hclass]
    rfl
  · rw [hplace.routed, hset, hclass]
    rfl

/-- Every callback but the selection, the tracepoint and a reset leaves
the hint alone. -/
theorem stepTask_hintKept {s s' : TaskState} {e : TaskEvent} (he : e.hints = false)
    (h : stepTask s e = some s') : HintKept s.tctx s'.tctx := by
  cases e with
  | reset p now => cases he
  | select m p prevCpu sync now => cases he
  | gpuSubmit now => cases he
  | enqueue m p flags now => exact enqueue_hint h
  | running m p now =>
      obtain ⟨-, rfl⟩ := stepTask_running h
      obtain ⟨llc, qid, qw, wl, sq, hrun⟩ := mlfqRunning_frame m p s.tctx now
      rw [hrun]
      exact ⟨rfl, rfl⟩
  | keep =>
      obtain ⟨-, rfl⟩ := stepTask_keep h
      exact ⟨rfl, rfl⟩
  | steal m qid cpu =>
      obtain ⟨-, -, llc, q, ht⟩ := stepTask_steal h
      rw [ht]
      exact ⟨rfl, rfl⟩
  | stopping m p runnable now =>
      obtain ⟨-, rfl⟩ := stepTask_stopping h
      exact mlfqStopping_hint m p s.tctx runnable now
  | quiescent m =>
      obtain ⟨-, -, llc, q, ht⟩ := stepTask_quiescent h
      rw [ht]
      exact ⟨rfl, rfl⟩

/-- What the three others do: a reset takes the hint and the stamp, the
selection may take the hint, the tracepoint counts or does nothing. -/
structure HintStep (s : TaskState) (e : TaskEvent) (s' : TaskState) : Prop where
  hints : (hintedOf ⟨s, e, s'⟩).toList.length + hint s'.tctx
    ≤ (countedOf ⟨s, e, s'⟩).toList.length + hint s.tctx
  stamp : s'.tctx.lastGpuSubmitAt.toNat
    = if e.resets then 0 else (countedOf ⟨s, e, s'⟩).getD s.tctx.lastGpuSubmitAt.toNat

theorem HintKept.step {s s' : TaskState} {e : TaskEvent} (hk : HintKept s.tctx s'.tctx)
    (he : e.hints = false) : HintStep s e s' := by
  have hhint : hint s'.tctx = hint s.tctx := by
    unfold hint
    rw [hk.drmWake]
  have hstamp : s'.tctx.lastGpuSubmitAt.toNat = s.tctx.lastGpuSubmitAt.toNat := by
    rw [hk.stamp]
  cases e with
  | reset p now => cases he
  | select m p prevCpu sync now => cases he
  | gpuSubmit now => cases he
  | _ => exact ⟨by rw [hhint]; exact Nat.le_refl _, hstamp⟩

theorem select_hintStep {s s' : TaskState} {m : Machine} {p : TaskStruct} {prevCpu : Int}
    {sync : Bool} {now : U64} (h : stepTask s (.select m p prevCpu sync now) = some s') :
    HintStep s (.select m p prevCpu sync now) s' := by
  have hafter : (mlfqSelectCpu m p (some s.tctx) prevCpu sync now).tctx = some s'.tctx := by
    obtain ⟨w, drm, hsel⟩ := mlfqSelectCpu_frame m p s.tctx prevCpu sync now
    have ht := stepTask_after h
    rw [TaskEvent.after, hsel, Option.getD_some] at ht
    rw [hsel, ht]
  obtain ⟨hstamp, hle, hsync⟩ := mlfqSelectCpu_hint m p s.tctx s'.tctx prevCpu sync now hafter
  constructor
  · cases sync with
    | true =>
        show 0 + hint s'.tctx ≤ 0 + hint s.tctx
        omega
    | false =>
        by_cases hexit : (mlfqSelectCpu m p (some s.tctx) prevCpu false now).exit = .sync
        · obtain ⟨hbefore, hafter⟩ := hsync rfl hexit
          simp only [hintedOf, countedOf, if_pos hexit, hbefore, hafter, Option.toList_some,
            Option.toList_none, List.length_singleton, List.length_nil]
          exact Nat.le_refl _
        · simp only [hintedOf, countedOf, if_neg hexit, Option.toList_none, List.length_nil]
          omega
  · rw [hstamp]
    rfl

theorem gpuSubmit_hintStep {s s' : TaskState} {now : U64}
    (h : stepTask s (.gpuSubmit now) = some s') : HintStep s (.gpuSubmit now) s' := by
  obtain ⟨-, rfl⟩ := stepTask_gpuSubmit h
  rcases mlfqGpuSubmitInc_cases s.tctx now with ⟨hopen, hhint, hat⟩ | ⟨hclosed, heq⟩
  · constructor
    · simp only [hintedOf, countedOf, if_pos hopen, hint, if_pos hhint, Option.toList_some,
        Option.toList_none, List.length_singleton, List.length_nil]
      omega
    · simp only [countedOf, if_pos hopen, hat, Option.getD_some]
      rfl
  · constructor
    · simp only [hintedOf, countedOf, if_neg hclosed, heq]
      exact Nat.le_refl _
    · simp only [countedOf, if_neg hclosed, heq, Option.getD_none]
      rfl

/-- **One callback and the hint**: an unasked handoff uses one up, and
only a counted submission leaves one. -/
theorem stepTask_hintStep {s s' : TaskState} {e : TaskEvent} (h : stepTask s e = some s') :
    HintStep s e s' := by
  cases he : e.hints with
  | false => exact (stepTask_hintKept he h).step he
  | true =>
      cases e with
      | reset p now =>
          obtain ⟨-, rfl⟩ := stepTask_reset h
          exact ⟨Nat.zero_le _, rfl⟩
      | select m p prevCpu sync now => exact select_hintStep h
      | gpuSubmit now => exact gpuSubmit_hintStep h
      | _ => cases he

/-! ## A stretch of a run -/

/-- The handoffs of a stretch were left by its submissions, but for one
that may have been left before it. -/
theorem TaskRun.hinted_le {seg before : List TaskEntry} {s : TaskState}
    (h : TaskRun (seg ++ before) s) :
    (yields hintedOf seg).length + hint s.tctx ≤ (yields countedOf seg).length + 1 := by
  induction seg generalizing s with
  | nil =>
      rw [yields_nil, yields_nil, hint]
      split <;> decide
  | cons x seg ih =>
      cases h with
      | snoc hrun hstep =>
          have hpre := ih hrun
          have hone := (stepTask_hintStep hstep).hints
          rw [yields_cons, yields_cons, List.length_append, List.length_append]
          omega

/-- The reading of a tracepoint. -/
def TaskEvent.submitAt : TaskEvent → Option U64
  | .gpuSubmit now => some now
  | _ => none

theorem countedOf_submitAt {x : TaskEntry} {t : Nat} (h : countedOf x = some t) :
    ∃ now, x.event.submitAt = some now ∧ submitOpens x.pre.tctx now ∧ now.toNat = t := by
  unfold countedOf at h
  split at h
  · rename_i now hevent
    split at h
    · rename_i hopen
      rw [hevent]
      exact ⟨now, rfl, hopen, Option.some.inj h⟩
    · cases h
  · cases h

/-- The tracepoints fire after `lo` and not after `hi`. -/
def SubmitsIn (tr : List TaskEntry) (lo hi : Nat) : Prop :=
  ∀ now ∈ tr.filterMap (fun x => x.event.submitAt), lo < now.toNat ∧ now.toNat ≤ hi

instance (tr : List TaskEntry) (lo hi : Nat) : Decidable (SubmitsIn tr lo hi) :=
  List.decidableBAll _ _

theorem SubmitsIn.at {tr : List TaskEntry} {lo hi : Nat} (h : SubmitsIn tr lo hi)
    {x : TaskEntry} (hx : x ∈ tr) {now : U64} (hat : x.event.submitAt = some now) :
    lo < now.toNat ∧ now.toNat ≤ hi :=
  h now (List.mem_filterMap.mpr ⟨x, hx, hat⟩)

theorem SubmitsIn.tail {tr : List TaskEntry} {x : TaskEntry} {lo hi : Nat}
    (h : SubmitsIn (x :: tr) lo hi) : SubmitsIn tr lo hi := by
  intro now hnow
  obtain ⟨y, hy, hat⟩ := List.mem_filterMap.mp hnow
  exact h.at (List.mem_cons_of_mem _ hy) hat

theorem TaskRun.stamp_le {tr : List TaskEntry} {s : TaskState} {hi : Nat} (h : TaskRun tr s)
    (hclock : SubmitsIn tr 0 hi) : s.tctx.lastGpuSubmitAt.toNat ≤ hi := by
  induction h with
  | start hinit =>
      obtain ⟨p, now, rfl⟩ := hinit
      exact Nat.zero_le _
  | @snoc tr s s' e hrun hstep ih =>
      have hpre := ih hclock.tail
      rw [(stepTask_hintStep hstep).stamp]
      split
      · exact Nat.zero_le _
      · cases hcounted : countedOf ⟨s, e, s'⟩ with
        | none => exact hpre
        | some t =>
            obtain ⟨now, hat, -, rfl⟩ := countedOf_submitAt hcounted
            exact (hclock.at List.mem_cons_self hat).2

/-- **The submissions counted are a window apart**, up to a reset. -/
theorem TaskRun.counted_passed {seg before : List TaskEntry} {s : TaskState} {hi : Nat}
    (h : TaskRun (seg ++ before) s) (hclock : SubmitsIn (seg ++ before) 0 hi)
    (hhi : 2 * (hi + mlfqTreePerTaskLimitNs.toNat) < 2 ^ 64)
    (hno : ∀ x ∈ seg, x.event.resets = false) :
    Gate.Passed mlfqTreePerTaskLimitNs.toNat (yields countedOf seg)
      s.tctx.lastGpuSubmitAt.toNat := by
  induction seg generalizing s with
  | nil => exact ⟨List.Pairwise.nil, nofun, nofun⟩
  | cons x seg ih =>
      cases h with
      | @snoc _ s₀ _ e hrun hstep =>
          have hpre := ih hrun hclock.tail fun y hy => hno y (List.mem_cons_of_mem _ hy)
          have hreset : e.resets = false := hno _ List.mem_cons_self
          have hstamp := (stepTask_hintStep hstep).stamp
          rw [hreset, if_neg Bool.false_ne_true] at hstamp
          rw [yields_cons, hstamp]
          cases hcounted : countedOf ⟨s₀, e, s⟩ with
          | none =>
              rw [Option.toList_none, List.append_nil]
              exact hpre
          | some t =>
              obtain ⟨now, hat, hopen, rfl⟩ := countedOf_submitAt hcounted
              obtain ⟨hpos, hle⟩ := hclock.at List.mem_cons_self hat
              have hbound : s₀.tctx.lastGpuSubmitAt.toNat ≤ hi := TaskRun.stamp_le hrun hclock.tail
              have hopen : Gate.Opens mlfqTreePerTaskLimitNs s₀.tctx.lastGpuSubmitAt now := hopen
              have hopens := (Gate.opens_iff (by omega) (by omega)).mp hopen
              refine hpre.pass ?_ hpos
              rcases hopens with hzero | hlater
              · exact .inl (by rw [hzero]; rfl)
              · exact .inr hlater

/-- **The hint cannot flood.** However many tracepoints fire, over a
stretch of a run without a reset the submissions counted are more than
the window apart, and the handoffs the hint causes are at most one more
than those: no more than the windows of the stretch, and two. -/
theorem taskRun_hints {seg before : List TaskEntry} {s : TaskState} {lo hi : Nat}
    (h : TaskRun (seg ++ before) s) (hclock : SubmitsIn (seg ++ before) 0 hi)
    (hhi : 2 * (hi + mlfqTreePerTaskLimitNs.toNat) < 2 ^ 64)
    (hno : ∀ x ∈ seg, x.event.resets = false)
    (hseg : SubmitsIn seg lo hi) :
    Spaced (mlfqTreePerTaskLimitNs.toNat + 1) (yields countedOf seg)
      ∧ (yields hintedOf seg).length ≤ (yields countedOf seg).length + 1
      ∧ (yields hintedOf seg).length ≤ (hi - lo) / (mlfqTreePerTaskLimitNs.toNat + 1) + 2 := by
  have hpassed := TaskRun.counted_passed h hclock hhi hno
  have hle := TaskRun.hinted_le h
  have hroom : (yields countedOf seg).length
      ≤ (hi - lo) / (mlfqTreePerTaskLimitNs.toNat + 1) + 1 := by
    by_cases hnil : yields countedOf seg = []
    · rw [hnil, List.length_nil]
      exact Nat.zero_le _
    · have hreadings : ∀ t ∈ yields countedOf seg, lo ≤ t ∧ t ≤ hi := by
        intro t ht
        obtain ⟨x, hx, hof⟩ := mem_yields.mp ht
        obtain ⟨now, hat, -, rfl⟩ := countedOf_submitAt hof
        exact ⟨(hseg.at hx hat).1.le, (hseg.at hx hat).2⟩
      have hspan := hpassed.spaced.span lo hi (fun t ht => (hreadings t ht).1)
        (fun t ht => (hreadings t ht).2) hnil
      rw [nsmul_eq_mul, Nat.cast_id] at hspan
      have hdiv := (Nat.le_div_iff_mul_le
        (show 0 < mlfqTreePerTaskLimitNs.toNat + 1 from Nat.succ_pos _)).mpr
        (Nat.le_sub_of_add_le' hspan)
      omega
  exact ⟨hpassed.spaced, by omega, by omega⟩

/-- A task that submits twice within a window, blocks and wakes up. -/
def oneHint : List TaskEvent :=
  let m := { (Machine.zeroed {} 1).seed with current := some 0 }
  let p : TaskStruct := { pid := 1 }
  [.enqueue m p { wakeup := true } 50000000, .running m p 50000001, .gpuSubmit 50000002,
    .gpuSubmit 50000003, .stopping m p false 51000001, .select m p 0 false 52000000]

/-- Two tracepoints, one submission counted, one handoff. -/
theorem taskRun_hints_oneHint :
    ∃ tr s, TaskRun (tr ++ []) s ∧ yields countedOf tr = [50000002]
      ∧ (yields hintedOf tr).length = 1
      ∧ (yields hintedOf tr).length ≤ (yields countedOf tr).length + 1 := by
  obtain ⟨tr, s, h, hs⟩ : ∃ tr s, TaskRun tr s ∧ decide (yields countedOf tr = [50000002]
      ∧ (yields hintedOf tr).length = 1 ∧ SubmitsIn (tr ++ []) 0 60000000
      ∧ SubmitsIn tr 50000000 60000000 ∧ ∀ x ∈ tr, x.event.resets = false) = true :=
    exec_reaches stepTask (TaskState.initTask_fresh { pid := 1 } 1) oneHint
      (fun tr _ => decide (yields countedOf tr = [50000002]
        ∧ (yields hintedOf tr).length = 1 ∧ SubmitsIn (tr ++ []) 0 60000000
        ∧ SubmitsIn tr 50000000 60000000 ∧ ∀ x ∈ tr, x.event.resets = false))
      (by decide +kernel)
  obtain ⟨hcounted, hhinted, hclock, hseg, hno⟩ := of_decide_eq_true hs
  have hlimit : mlfqTreePerTaskLimitNs.toNat = 10000000 := rfl
  rw [← List.append_nil tr] at h
  have hhints := taskRun_hints h hclock (by rw [hlimit]; omega) hno hseg
  exact ⟨tr, s, h, hcounted, hhinted, hhints.2.1⟩

end ScxMlfq
