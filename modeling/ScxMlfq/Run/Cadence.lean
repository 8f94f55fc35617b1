import ScxMlfq.Bpf.Cadence
import ScxMlfq.Run.Task

/-!
# Run — Cadence

The cadence and the GPU submissions of a task over whole runs. The clamp
of the update lies below the bound of a long idle, so the branch that
ages the two signals is never taken: a long idle is averaged in as a
sleep of 64 ms, and only a reset takes a submission back.
-/

namespace ScxMlfq

open Trace

/-- A tracepoint that counts a submission. -/
def TaskEvent.submits : TaskEvent → Bool
  | .gpuSubmit _ => true
  | _ => false

def TaskEvent.resets : TaskEvent → Bool
  | .reset _ _ => true
  | _ => false

/-- A blocking stop after a long idle. -/
def longIdleStop (x : TaskEntry) : Bool :=
  match x.event with
  | .stopping _ _ runnable now => !runnable && decide (LongIdle x.pre.tctx now)
  | _ => false

theorem mlfqSleepEmaUpdate_gpuSubmit (t : TaskCtx) (s : U64) :
    (mlfqSleepEmaUpdate t s).gpuSubmit = t.gpuSubmit := by
  rw [mlfqSleepEmaUpdate, cadenceStep_eq, averageCadence_eq]

theorem foldSleep_gpuSubmit (t : TaskCtx) (now : U64) :
    (foldSleep t now).gpuSubmit = t.gpuSubmit := by
  rw [foldSleep]
  split
  · exact mlfqSleepEmaUpdate_gpuSubmit ..
  · split
    · exact mlfqSleepEmaUpdate_gpuSubmit ..
    · rfl

/-- No stop changes the count, whatever it folds. -/
theorem mlfqStopping_gpuSubmit (m : Machine) (p : TaskStruct) (t : TaskCtx) (runnable : Bool)
    (now : U64) : (mlfqStopping m p t runnable now).tctx.gpuSubmit = t.gpuSubmit := by
  obtain ⟨burst, at_, hseg⟩ := stopSegment_frame m p t runnable now
  have hgpu : (stopSegment m p t runnable now).2.1.gpuSubmit = t.gpuSubmit := by
    rw [hseg]
  rw [mlfqStopping_tctx]
  cases runnable with
  | true => exact hgpu
  | false => rw [stopBlock_blocks, foldSleep_gpuSubmit, hgpu]

/-- **Only the tracepoint counts and only a reset takes back.** -/
theorem stepTask_gpuSubmit_count {s s' : TaskState} {e : TaskEvent} (he : e.submits = false)
    (h : stepTask s e = some s') :
    s'.tctx.gpuSubmit = if e.resets then 0 else s.tctx.gpuSubmit := by
  cases e with
  | reset p now =>
      obtain ⟨-, rfl⟩ := stepTask_reset h
      rfl
  | gpuSubmit now => cases he
  | select m p prevCpu sync now =>
      obtain ⟨-, -, w, drm, ht⟩ := stepTask_select h
      rw [ht]
      rfl
  | enqueue m p flags now =>
      obtain ⟨-, -, hplace⟩ := stepTask_enqueue h
      have hrouted : s'.tctx.gpuSubmit
          = (settleQueue m p flags (weighed p s.tctx) now).1.gpuSubmit := by
        rw [hplace.routed]
      obtain ⟨q, at_, cnt, hset⟩ := settleQueue_frame m p flags (weighed p s.tctx) now
      obtain ⟨q', w, n, b, ema, st, feats, pq, pv, hclass⟩ :=
        enqueueClassify_frame m p flags (weighed p s.tctx) now
      rw [hrouted, hset, hclass]
      rfl
  | running m p now =>
      obtain ⟨-, rfl⟩ := stepTask_running h
      obtain ⟨llc, qid, qw, wl, sq, hrun⟩ := mlfqRunning_frame m p s.tctx now
      rw [hrun]
      rfl
  | keep =>
      obtain ⟨-, rfl⟩ := stepTask_keep h
      rfl
  | steal m qid cpu =>
      obtain ⟨-, -, llc, q, ht⟩ := stepTask_steal h
      rw [ht]
      rfl
  | stopping m p runnable now =>
      obtain ⟨-, rfl⟩ := stepTask_stopping h
      exact mlfqStopping_gpuSubmit m p s.tctx runnable now
  | quiescent m =>
      obtain ⟨-, -, llc, q, ht⟩ := stepTask_quiescent h
      rw [ht]
      rfl

/-- A segment of a run without a submission keeps the count it started
with, up to a reset. -/
theorem segment_gpuSubmit {seg before : List TaskEntry} {first : TaskEntry} {s : TaskState}
    (h : TaskRun (seg ++ first :: before) s) (hfirst : longIdleStop first = true)
    (hno : ∀ x ∈ seg, x.event.submits = false) :
    s.tctx.gpuSubmit
      = if seg.any (fun x => x.event.resets) then 0 else first.pre.tctx.gpuSubmit := by
  induction seg generalizing s with
  | nil =>
      obtain ⟨s₀, e, s'⟩ := first
      cases h with
      | snoc hrun hstep =>
          cases e with
          | stopping m p runnable now => exact stepTask_gpuSubmit_count rfl hstep
          | _ => cases hfirst
  | cons x seg ih =>
      obtain ⟨s₀, e, s'⟩ := x
      cases h with
      | snoc hrun hstep =>
          have hpre := ih hrun fun x hx => hno x (List.mem_cons_of_mem _ hx)
          have hcount := stepTask_gpuSubmit_count (hno _ List.mem_cons_self) hstep
          rw [List.any_cons, hcount, hpre]
          cases hreset : e.resets <;> simp

/-- **A long idle does not age the cadence and the submissions out.** A
stop after one does what the comment of the update asks for if and only
if there is nothing to age; four such stops in a row without a submission
end at zero if and only if they started there or a reset came in
between. -/
theorem long_idle_ages_iff (t : TaskCtx) (m : Machine) (p : TaskStruct) (now : U64)
    (seg before : List TaskEntry) (first : TaskEntry) (s : TaskState) :
    (t.sleepMeanEma.toNat ≤ cadenceMaxNs →
        t.sleepVarEma.toNat ≤ cadenceMaxNs * cadenceMaxNs → t.gpuSubmit.toNat ≤ 4 →
        LongIdle t now → (AgesOut t (mlfqStopping m p t false now).tctx ↔ AgesAtClamp t)) ∧
      (TaskRun (seg ++ first :: before) s → longIdleStop first = true →
        3 ≤ (seg.filter longIdleStop).length → (∀ x ∈ seg, x.event.submits = false) →
        (s.tctx.gpuSubmit = 0
          ↔ first.pre.tctx.gpuSubmit = 0 ∨ ∃ x ∈ seg, x.event.resets = true)) := by
  constructor
  · intro hmean hvar _ hidle
    exact (mlfqStopping_atClamp hmean hvar hidle m p).agesOut_iff
  · intro hrun hfirst _ hno
    rw [segment_gpuSubmit hrun hfirst hno]
    cases hany : seg.any fun x => x.event.resets with
    | true =>
        have hreset := List.any_eq_true.mp hany
        simp [hreset]
    | false =>
        have hreset : ¬ ∃ x ∈ seg, x.event.resets = true := by
          rw [← List.any_eq_true, hany]
          decide
        simp [hreset]

/-- A task with four submissions on record that slept 200 ms. -/
def idleSubmitter : TaskCtx :=
  { gpuSubmit := 4, pendingFeats := { sleepNs := 200000000 } }

/-- A task that submits once and then sleeps 200 ms four times. -/
def fourIdles : List TaskEvent :=
  let m := (Machine.zeroed {} 1).seed
  let p : TaskStruct := { pid := 1 }
  let segment (now : U64) : List TaskEvent :=
    [.stopping m p false now, .enqueue m p { wakeup := true } (now + 200000000),
      .running m p (now + 200000000)]
  [.enqueue m p { other := true } 1, .running m p 1, .gpuSubmit 1]
    ++ segment 1 ++ segment 200000001 ++ segment 400000001 ++ segment 600000001
    ++ [.stopping m p false 800000001]

/-- One stop does not age the context out, and four leave the submission
on record. -/
theorem long_idle_ages_iff_fourIdles :
    ¬ AgesOut idleSubmitter
        (mlfqStopping (Machine.zeroed {} 1) { pid := 1 } idleSubmitter false 1).tctx ∧
      ∃ seg before first s, TaskRun (seg ++ first :: before) s ∧ longIdleStop first = true ∧
      3 ≤ (seg.filter longIdleStop).length ∧ s.tctx.gpuSubmit ≠ 0 := by
  obtain ⟨tr, s, h, hs⟩ : ∃ tr s, TaskRun tr s ∧ decide
      (((tr.drop 9).head?.any fun x => longIdleStop x && decide (x.pre.tctx.gpuSubmit ≠ 0))
        = true ∧ 3 ≤ ((tr.take 9).filter longIdleStop).length
        ∧ (∀ x ∈ tr.take 9, x.event.submits = false)
        ∧ (∀ x ∈ tr.take 9, x.event.resets = false)) = true :=
    exec_reaches stepTask (TaskState.initTask_fresh { pid := 1 } 1) fourIdles
      (fun tr _ => decide
        (((tr.drop 9).head?.any fun x => longIdleStop x && decide (x.pre.tctx.gpuSubmit ≠ 0))
          = true ∧ 3 ≤ ((tr.take 9).filter longIdleStop).length
          ∧ (∀ x ∈ tr.take 9, x.event.submits = false)
          ∧ (∀ x ∈ tr.take 9, x.event.resets = false)))
      (by decide +kernel)
  obtain ⟨hhead, hfour, hno, hkept⟩ := of_decide_eq_true hs
  cases hdrop : tr.drop 9 with
  | nil =>
      rw [hdrop] at hhead
      cases hhead
  | cons first before =>
      rw [hdrop, List.head?_cons, Option.any_some, Bool.and_eq_true,
        decide_eq_true_eq] at hhead
      rw [← List.take_append_drop 9 tr, hdrop] at h
      obtain ⟨hone, hfourth⟩ := long_idle_ages_iff idleSubmitter (Machine.zeroed {} 1)
        { pid := 1 } 1 _ before first s
      constructor
      · intro hages
        exact absurd ((hone (by decide) (by decide) (by decide) (by decide)).mp hages).gpuSubmit
          (by decide)
      · refine ⟨_, before, first, s, h, hhead.1, hfour, ?_⟩
        intro hzero
        rcases (hfourth h hhead.1 hfour hno).mp hzero with hfirst | ⟨x, hx, hreset⟩
        · exact hhead.2 hfirst
        · rw [hkept x hx] at hreset
          cases hreset

/-- **The failing input.** The stop leaves the four submissions. -/
theorem long_idle_keeps_submissions :
    ¬ ∀ (t : TaskCtx) (m : Machine) (p : TaskStruct) (now : U64),
        t.sleepMeanEma.toNat ≤ cadenceMaxNs →
        t.sleepVarEma.toNat ≤ cadenceMaxNs * cadenceMaxNs → t.gpuSubmit.toNat ≤ 4 →
        LongIdle t now → AgesOut t (mlfqStopping m p t false now).tctx := by
  intro h
  have hages := h idleSubmitter (Machine.zeroed {} 1) { pid := 1 } 1 (by decide) (by decide)
    (by decide) (by decide)
  have hgpu := hages.gpuSubmit
  rw [mlfqStopping_gpuSubmit] at hgpu
  exact absurd hgpu (by decide)

end ScxMlfq
