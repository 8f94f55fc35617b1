import ScxMlfq.Run.Task

/-!
# Run — Hysteresis

The demotion hysteresis over whole runs: the exhaustion counter is the
number of consecutive run-outs since it was last cleared, so a demotion
by the gate needs eight of them. The Q3 seed of the run-out is the one
way down that does not wait.
-/

namespace ScxMlfq

open Trace

/-- The run-out enqueues since the last event that cleared the counter:
a reset, or an enqueue of another kind, or one that moved the task. -/
def consecutiveRunouts : List TaskEntry → Nat
  | [] => 0
  | ⟨s, .enqueue m p flags now, _⟩ :: tr =>
      if enqueueClears m p flags (weighed p s.tctx) now then 0
      else consecutiveRunouts tr + 1
  | ⟨_, .reset _ _, _⟩ :: _ => 0
  | _ :: tr => consecutiveRunouts tr

/-- A callback that does not classify leaves the count. -/
theorem consecutiveRunouts_quiet {e : TaskEvent} (h : e.quiet = true) (s s' : TaskState)
    (tr : List TaskEntry) :
    consecutiveRunouts (⟨s, e, s'⟩ :: tr) = consecutiveRunouts tr := by
  cases e with
  | reset p now => cases h
  | enqueue m p flags now => cases h
  | stopping m p runnable now => cases h
  | _ => rfl

/-- One callback moves the counter as the count moves. -/
theorem reenqCnt_step {s s' : TaskState} {e : TaskEvent} (tr : List TaskEntry)
    (hpre : s.tctx.reenqCnt = BitVec.ofNat 8 (consecutiveRunouts tr))
    (h : stepTask s e = some s') :
    s'.tctx.reenqCnt = BitVec.ofNat 8 (consecutiveRunouts (⟨s, e, s'⟩ :: tr)) := by
  rcases e.quiet_cases with hquiet | ⟨p, now, rfl⟩ | ⟨m, p, flags, now, rfl⟩
    | ⟨m, p, runnable, now, rfl⟩
  · rw [(stepTask_quiet hquiet h).reenqCnt, hpre, consecutiveRunouts_quiet hquiet]
  · obtain ⟨-, rfl⟩ := stepTask_reset h
    rfl
  · obtain ⟨-, -, hplace⟩ := stepTask_enqueue h
    rw [hplace.routed.reenqCnt_eq, settleQueue_reenqCnt, consecutiveRunouts]
    split
    · rfl
    · rw [BitVec.ofNat_add, ← hpre]
      rfl
  · obtain ⟨-, rfl⟩ := stepTask_stopping h
    obtain ⟨-, hcnt, -⟩ := mlfqStopping_kept m p s.tctx runnable now
    rw [hcnt, hpre]
    rfl

/-- **The exhaustion counter counts**: in every run it is the number of
consecutive run-outs since it was last cleared, in eight bits. -/
theorem reenqCnt_eq_consecutiveRunouts {tr : List TaskEntry} {s : TaskState}
    (h : TaskRun tr s) : s.tctx.reenqCnt = BitVec.ofNat 8 (consecutiveRunouts tr) :=
  h.invariant (I := fun tr s => s.tctx.reenqCnt = BitVec.ofNat 8 (consecutiveRunouts tr))
    (by
      rintro s ⟨p, now, rfl⟩
      rfl)
    fun tr _ _ _ hpre hstep => reenqCnt_step tr hpre hstep

/-- A test of an eight-bit counter after its increment, on the number it
counts. -/
theorem le_count_succ_iff {c : U8} {n k : Nat} (hc : c = BitVec.ofNat 8 n) (hk : k < 256) :
    BitVec.ofNat 8 k ≤ c + 1 ↔ k ≤ (n + 1) % 256 := by
  have hnat : (c + 1).toNat = (n + 1) % 256 := by
    rw [hc]
    simp [BitVec.toNat_add, BitVec.toNat_ofNat]
  rw [BitVec.le_def, hnat, BitVec.toNat_ofNat, Nat.mod_eq_of_lt hk]

/-- The gate of `mlfq_demote_on_reenq`, on the history. -/
theorem eight_le_reenqCnt_iff {tr : List TaskEntry} {s : TaskState} (h : TaskRun tr s) :
    8 ≤ s.tctx.reenqCnt + 1 ↔ 8 ≤ (consecutiveRunouts tr + 1) % 256 :=
  @le_count_succ_iff _ _ 8 (reenqCnt_eq_consecutiveRunouts h) (by omega)

/-- The Q3 seed of the run-out, read off the task. -/
def SeedsOnRunout (a : AdaptState) (t : TaskCtx) : Prop :=
  t.gpuSubmit = 0 ∧ t.prevBurstNs > a.tHEffNs ∧ t.queue ≠ .q3

/-- The CPU-bound test of a run-out, read off the task: the prediction
on the captured features once trained, the gauge while untrained. -/
def CpuBoundOnRunout (m : Machine) (t : TaskCtx) : Prop :=
  if m.predict (captureFeats t 0 false) ≠ 0
  then m.predict (captureFeats t 0 false) ≥ m.adapt.tBndEffNs
  else t.ema > m.adapt.tHEffNs

theorem cpuBound_capture_iff {m : Machine} {p : TaskStruct} (hp : p.policy ≠ mlfqSchedIdle)
    (t : TaskCtx) :
    cpuBound t m.adapt.tHEffNs m.adapt.tBndEffNs
        (inferPred m.predict p (capture p t 0 false)) = true
      ↔ CpuBoundOnRunout m t := by
  have hidle : schedIdle p = false := decide_eq_false hp
  have hpred : inferPred m.predict p (capture p t 0 false)
      = m.predict (captureFeats t 0 false) := by
    simp [inferPred, capture, hidle]
  rw [hpred, cpuBound, CpuBoundOnRunout]
  split <;> simp

/-- **Demotion hysteresis.** At every run-out enqueue of a task that is
not `SCHED_IDLE`, in every reachable state, the run-out classification
moves the task down in exactly two ways: the Q3 seed takes it to Q3, or,
without the seed, the gate moves it one queue down when the CPU-bound
test holds and the counter stands at eight or more, which takes at
least eight consecutive run-outs since it was last cleared. Otherwise
the queue stays. -/
theorem mlfqRunoutClassify_hysteresis {tr : List TaskEntry} {s : TaskState}
    (h : TaskRun tr s) (m : Machine) (p : TaskStruct) (hp : p.policy ≠ mlfqSchedIdle) :
    let t := weighed p s.tctx
    let r := (mlfqRunoutClassify m p t).1
    let n := consecutiveRunouts tr + 1
    let gate := ¬ SeedsOnRunout m.adapt t ∧ t.queue ≠ .q3 ∧ CpuBoundOnRunout m t
      ∧ 8 ≤ n % 256
    (SeedsOnRunout m.adapt t → r.queue = .q3)
    ∧ (gate → 8 ≤ n ∧ r.queue.num = t.queue.num + 1)
    ∧ (¬ SeedsOnRunout m.adapt t → ¬ gate → r.queue = t.queue) := by
  intro t r n gate
  have hcnt : 8 ≤ t.reenqCnt + 1 ↔ 8 ≤ n % 256 := eight_le_reenqCnt_iff h
  have hseed : (runoutSeed m.adapt t = true ∧ t.queue ≠ .q3) ↔ SeedsOnRunout m.adapt t := by
    simp [runoutSeed, SeedsOnRunout, and_assoc]
  have hcases := mlfqRunoutClassify_cases m p t
  simp only [hseed, cpuBound_capture_iff hp, hcnt] at hcases
  rcases hcases with ⟨hs, hr⟩ | ⟨hs, hg, hr⟩ | ⟨hs, hg, hr⟩
  · refine ⟨fun _ => ?_, fun hgate => absurd hs hgate.1, fun hn => absurd hs hn⟩
    show (mlfqRunoutClassify m p t).1.queue = .q3
    rw [hr]
  · have hq : r.queue = t.queue.next := by
      show (mlfqRunoutClassify m p t).1.queue = _
      rw [hr]
    refine ⟨fun hn => absurd hn hs, fun _ => ⟨?_, ?_⟩, fun _ hn => absurd ⟨hs, hg⟩ hn⟩
    · exact Nat.le_trans hg.2.2 (Nat.mod_le _ _)
    · rw [hq]
      exact Queue.next_num hg.1
  · refine ⟨fun hn => absurd hn hs, fun hgate => absurd hgate.2 hg, fun _ _ => ?_⟩
    show (mlfqRunoutClassify m p t).1.queue = t.queue
    rw [hr, capture_frame]

/-- A task forked at 2 ns that runs 3 ms and is put off its CPU. -/
def firstSegment : List TaskEvent :=
  let m := (Machine.zeroed {} 1).seed
  let p : TaskStruct := { pid := 1 }
  [.enqueue m p { other := true } 2, .running m p 3, .stopping m p true 3000003]

/-- The state after `firstSegment`: in Q2, about to be re-enqueued, with
a burst above `T_H` and no run-out behind it. The run-out that follows
takes it to Q3. -/
theorem firstSegment_run :
    ∃ tr s, TaskRun tr s ∧ decide (s.tctx.queue = .q2 ∧ s.tctx.gpuSubmit = 0
      ∧ s.tctx.prevBurstNs = 3000000 ∧ consecutiveRunouts tr = 0
      ∧ (mlfqRunoutClassify (Machine.zeroed {} 1).seed { pid := 1 }
          (weighed { pid := 1 } s.tctx)).1.queue = .q3) = true :=
  exec_reaches stepTask (TaskState.initTask_fresh { pid := 1 } 1) firstSegment
    (fun tr s => decide (s.tctx.queue = .q2 ∧ s.tctx.gpuSubmit = 0
      ∧ s.tctx.prevBurstNs = 3000000 ∧ consecutiveRunouts tr = 0
      ∧ (mlfqRunoutClassify (Machine.zeroed {} 1).seed { pid := 1 }
          (weighed { pid := 1 } s.tctx)).1.queue = .q3)) (by decide)

/-- The hysteresis at the end of `firstSegment`: the seed's case. -/
theorem mlfqRunoutClassify_hysteresis_firstSegment :
    ∃ tr s, TaskRun tr s ∧
      (mlfqRunoutClassify (Machine.zeroed {} 1).seed { pid := 1 }
        (weighed { pid := 1 } s.tctx)).1.queue = .q3 := by
  obtain ⟨tr, s, h, hs⟩ := firstSegment_run
  obtain ⟨hq, hgpu, hburst, -⟩ := of_decide_eq_true hs
  refine ⟨tr, s, h, (mlfqRunoutClassify_hysteresis h (Machine.zeroed {} 1).seed { pid := 1 }
    (by decide)).1 ⟨hgpu, ?_, ?_⟩⟩
  · show s.tctx.prevBurstNs > _
    rw [hburst]
    decide
  · show s.tctx.queue ≠ _
    rw [hq]
    decide

/-- The seed demotes at the first run-out: not every demotion is the
gate's, after eight run-outs and by one queue. -/
theorem runout_demotes_before_eight :
    ¬ ∀ tr s, TaskRun tr s → ∀ (m : Machine) (p : TaskStruct), p.policy ≠ mlfqSchedIdle →
      let t := weighed p s.tctx
      let r := (mlfqRunoutClassify m p t).1
      (t.queue.num < r.queue.num →
        8 ≤ consecutiveRunouts tr + 1 ∧ CpuBoundOnRunout m t
          ∧ r.queue.num = t.queue.num + 1) := by
  intro hclaim
  obtain ⟨tr, s, h, hs⟩ := firstSegment_run
  obtain ⟨hq, -, -, hn, hdemoted⟩ := of_decide_eq_true hs
  have hlt : (weighed { pid := 1 } s.tctx).queue.num
      < (mlfqRunoutClassify (Machine.zeroed {} 1).seed { pid := 1 }
        (weighed { pid := 1 } s.tctx)).1.queue.num := by
    rw [hdemoted]
    show s.tctx.queue.num < _
    rw [hq]
    decide
  have h8 := (hclaim tr s h (Machine.zeroed {} 1).seed { pid := 1 } (by decide) hlt).1
  rw [hn] at h8
  exact absurd h8 (by decide)

end ScxMlfq
