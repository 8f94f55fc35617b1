import ScxMlfq.Run.Task

/-!
# Run — Burst

The run behind a demotion. The exhaustion counter is meant to count the
run-outs of one burst, so a sleep has to clear it. The classification of
a wakeup does; the wakeup `mlfq_select_cpu` inserts itself does not
reach the classification, and neither does a task that runs again right
after its stop.
-/

namespace ScxMlfq

open Trace

/-- The run-out enqueues since the last blocking stop. -/
def runoutsSinceBlock : List TaskEntry → Nat
  | [] => 0
  | ⟨_, .enqueue _ _ flags _, _⟩ :: tr =>
      if flags.isZero then runoutsSinceBlock tr + 1 else runoutsSinceBlock tr
  | ⟨_, .stopping _ _ runnable _, _⟩ :: tr => if runnable then runoutsSinceBlock tr else 0
  | _ :: tr => runoutsSinceBlock tr

/-- A callback that makes a blocked task runnable past the classification
finds the exhaustion counter clear: a selection that takes the handoff,
and a start with no enqueue before it. -/
def wakesClear (x : TaskEntry) : Prop :=
  match x.event with
  | .select m p _ sync _ =>
      x.pre.phase = .asleep →
        (if syncWanted x.pre.tctx sync then syncHandoff m p else none) ≠ none →
          x.pre.tctx.reenqCnt = 0
  | .running _ _ _ => x.pre.phase = .asleep → x.pre.tctx.reenqCnt = 0
  | _ => True

/-- `mlfq_demote_on_reenq` demotes at a run-out enqueue of `t`. -/
def demotesOnReenq (m : Machine) (p : TaskStruct) (t : TaskCtx) : Bool :=
  let captured := capture p t 0 false
  (mlfqDemoteOnReenq (seedOnRunout m.adapt { captured with wakeCnt := 0 }) m.adapt.tHEffNs
    m.adapt.tBndEffNs (inferPred m.predict p captured)).2

/-- **The demotion counter** of a run-out enqueue is bumped if and only if
`mlfq_demote_on_reenq` demotes there. -/
theorem demotions_iff (m : Machine) (p : TaskStruct) {flags : EnqFlags}
    (hzero : flags.isZero = true) (t : TaskCtx) (now : U64) :
    Stat.demotions ∈ (settleQueue m p flags t now).2 ↔ demotesOnReenq m p t = true := by
  have haged (u : TaskCtx) : Stat.demotions ∉ (age m.rod p u now).2 := by
    rw [age]
    split <;> simp
  have hpred : Stat.demotions ∉ runoutStats p (inferPred m.predict p (capture p t 0 false)) := by
    rw [runoutStats]
    split
    · simp
    · split <;> simp
  have hcls : enqueueClassify m p flags t now = mlfqRunoutClassify m p t := by
    rw [enqueueClassify, isZero_wakeup hzero, if_neg Bool.false_ne_true, if_pos hzero]
  have hstats : (mlfqRunoutClassify m p t).2
      = runoutStats p (inferPred m.predict p (capture p t 0 false))
        ++ if demotesOnReenq m p t then [.demotions] else [] := rfl
  rw [settleQueue, List.mem_append, or_iff_left (haged _), hcls, hstats,
    List.mem_append, or_iff_right hpred]
  cases demotesOnReenq m p t <;> simp

/-- An awake task has run out at least as often as its counter says. -/
def CountsBurst (tr : List TaskEntry) (s : TaskState) : Prop :=
  s.phase ≠ .asleep → s.tctx.reenqCnt.toNat ≤ runoutsSinceBlock tr

/-- An event that moves neither the counter nor the history, and does not
wake the task. -/
theorem CountsBurst.of_kept {tr tr' : List TaskEntry} {s s' : TaskState}
    (h : CountsBurst tr s) (hcnt : s'.tctx.reenqCnt = s.tctx.reenqCnt)
    (htr : runoutsSinceBlock tr' = runoutsSinceBlock tr)
    (hawake : s'.phase ≠ .asleep → s.phase ≠ .asleep) : CountsBurst tr' s' := by
  intro hphase
  rw [hcnt, htr]
  exact h (hawake hphase)

/-- A cleared counter is below any history. -/
theorem CountsBurst.of_clear {tr : List TaskEntry} {s : TaskState}
    (h : s.tctx.reenqCnt = 0) : CountsBurst tr s := by
  intro _
  rw [h]
  exact Nat.zero_le _

/-- The selection: a handoff wakes the task with its counter. -/
theorem CountsBurst.select {tr : List TaskEntry} {s s' : TaskState} {m : Machine}
    {p : TaskStruct} {prevCpu : Int} {sync : Bool} {now : U64} (h : CountsBurst tr s)
    (hstep : stepTask s (.select m p prevCpu sync now) = some s')
    (hclear : wakesClear ⟨s, .select m p prevCpu sync now, s'⟩) :
    CountsBurst (⟨s, .select m p prevCpu sync now, s'⟩ :: tr) s' := by
  have hkept := (stepTask_quiet rfl hstep).reenqCnt
  simp only [stepTask] at hstep
  split at hstep
  · obtain rfl := Option.some.inj hstep
    by_cases hsync : (if syncWanted s.tctx sync then syncHandoff m p else none) = none
    · -- no handoff: the task stays where it was
      refine h.of_kept hkept rfl ?_
      rw [selectState, if_neg (mlfqSelectCpu_exit_ne_sync hsync prevCpu now)]
      exact id
    · by_cases hphase : s.phase = .asleep
      · exact .of_clear (hkept.trans (hclear hphase hsync))
      · exact h.of_kept hkept rfl fun _ => hphase
  · cases hstep

/-- An enqueue counts at most one run-out more. -/
theorem CountsBurst.enqueue {tr : List TaskEntry} {s s' : TaskState} {m : Machine}
    {p : TaskStruct} {flags : EnqFlags} {now : U64} (h : CountsBurst tr s)
    (hstep : stepTask s (.enqueue m p flags now) = some s') :
    CountsBurst (⟨s, .enqueue m p flags now, s'⟩ :: tr) s' := by
  obtain ⟨hfrom, -, hplace⟩ := stepTask_enqueue hstep
  have hcnt := hplace.routed.reenqCnt_eq.trans
    (settleQueue_reenqCnt m p flags (weighed p s.tctx) now)
  cases hclears : enqueueClears m p flags (weighed p s.tctx) now with
  | true =>
      rw [hclears, if_pos rfl] at hcnt
      exact .of_clear hcnt
  | false =>
      rw [hclears, if_neg Bool.false_ne_true] at hcnt
      -- only a run-out counts, and no run-out enqueues a blocked task
      have hzero := isZero_of_not_clears hclears
      have hawake : s.phase ≠ .asleep := by
        intro hphase
        rw [hphase] at hfrom
        have hwakeup := enqueueFrom_asleep hfrom
        rw [isZero_wakeup hzero] at hwakeup
        cases hwakeup
      intro _
      rw [hcnt, runoutsSinceBlock, if_pos hzero, BitVec.toNat_add]
      have hpre := h hawake
      have hle := Nat.mod_le ((weighed p s.tctx).reenqCnt.toNat + (1 : U8).toNat) (2 ^ 8)
      have hone : (1 : U8).toNat = 1 := rfl
      have hsame : (weighed p s.tctx).reenqCnt = s.tctx.reenqCnt := rfl
      rw [hsame] at hle ⊢
      omega

/-- One callback keeps the count. -/
theorem CountsBurst.step {tr : List TaskEntry} {s s' : TaskState} {e : TaskEvent}
    (h : CountsBurst tr s) (hstep : stepTask s e = some s')
    (hclear : wakesClear ⟨s, e, s'⟩) : CountsBurst (⟨s, e, s'⟩ :: tr) s' := by
  -- a quiet callback that cannot wake the task
  have hquiet (hq : e.quiet = true) (hw : e.wakes = false)
      (htr : runoutsSinceBlock (⟨s, e, s'⟩ :: tr) = runoutsSinceBlock tr) :
      CountsBurst (⟨s, e, s'⟩ :: tr) s' := by
    refine h.of_kept (stepTask_quiet hq hstep).reenqCnt htr ?_
    intro hawake hphase
    have hdown : s.phase.down = true := by rw [hphase]; rfl
    exact hawake ((stepTask_down hw hdown hstep).trans hphase)
  cases e with
  | reset p now =>
      obtain ⟨-, rfl⟩ := stepTask_reset hstep
      exact .of_clear rfl
  | select m p prevCpu sync now => exact h.select hstep hclear
  | enqueue m p flags now => exact h.enqueue hstep
  | running m p now =>
      have hkept := (stepTask_quiet rfl hstep).reenqCnt
      by_cases hphase : s.phase = .asleep
      · exact .of_clear (hkept.trans (hclear hphase))
      · exact h.of_kept hkept rfl fun _ => hphase
  | keep => exact hquiet rfl rfl rfl
  | steal m qid cpu => exact hquiet rfl rfl rfl
  | gpuSubmit now => exact hquiet rfl rfl rfl
  | stopping m p runnable now =>
      obtain ⟨hphase, rfl⟩ := stepTask_stopping hstep
      obtain ⟨-, hcnt, -⟩ := mlfqStopping_kept m p s.tctx runnable now
      have hawake : s.phase ≠ .asleep := by
        rw [hphase]
        decide
      cases runnable with
      | true => exact h.of_kept hcnt rfl fun _ => hawake
      | false => exact fun hsleep => absurd rfl hsleep
  | quiescent m => exact hquiet rfl rfl rfl

/-- **The counter is covered by the burst**, in every run that wakes the
task past the classification only with the counter clear. -/
theorem countsBurst {tr : List TaskEntry} {s : TaskState} (h : TaskRun tr s)
    (hclear : ∀ x ∈ tr, wakesClear x) : CountsBurst tr s := by
  refine h.invariant_where (C := wakesClear) (I := CountsBurst) ?_ ?_ hclear
  · rintro s ⟨p, now, rfl⟩
    exact .of_clear rfl
  · intro tr s e s' hpre hstep hx
    exact hpre.step hstep hx

/-- **A demotion needs a sustained run without sleeping**: when
`mlfq_demote_on_reenq` demotes the task at a run-out enqueue, that
enqueue is at least the eighth since the last blocking stop, in every run
that wakes the task past the classification only with the counter
clear. -/
theorem demotion_needs_eight_runouts {tr : List TaskEntry} {s : TaskState} (h : TaskRun tr s)
    (hclear : ∀ x ∈ tr, wakesClear x) (hready : s.phase = .ready) (m : Machine)
    (p : TaskStruct) (hdem : demotesOnReenq m p (weighed p s.tctx) = true) :
    8 ≤ runoutsSinceBlock tr + 1 := by
  have hcount := countsBurst h hclear (by rw [hready]; nofun)
  rcases mlfqDemoteOnReenq_cases
      (seedOnRunout m.adapt { capture p (weighed p s.tctx) 0 false with wakeCnt := 0 })
      m.adapt.tHEffNs m.adapt.tBndEffNs
      (inferPred m.predict p (capture p (weighed p s.tctx) 0 false)) with
    ⟨⟨-, -, hgate⟩, -⟩ | ⟨-, hno⟩
  · have hcnt : (seedOnRunout m.adapt
        { capture p (weighed p s.tctx) 0 false with wakeCnt := 0 }).reenqCnt
          = s.tctx.reenqCnt := by
      rw [seedOnRunout, capture_frame]
      split <;> rfl
    rw [hcnt, BitVec.le_def, BitVec.toNat_add] at hgate
    have hle := Nat.mod_le (s.tctx.reenqCnt.toNat + (1 : U8).toNat) (2 ^ 8)
    have height : (8 : U8).toNat = 8 := rfl
    have hone : (1 : U8).toNat = 1 := rfl
    omega
  · rw [demotesOnReenq, hno] at hdem
    cases hdem

/-- A trained machine that calls every task CPU-bound. -/
def cpuBoundMachine : Machine :=
  { (Machine.zeroed {} 1).seed with predict := fun _ => 5000000, current := some 0 }

/-- A forked task that runs out seven times, and is put off its CPU. -/
def sevenRunouts : List TaskEvent :=
  let m := cpuBoundMachine
  let p : TaskStruct := { pid := 1 }
  let segment (flags : EnqFlags) : List TaskEvent :=
    [.enqueue m p flags 1, .running m p 1, .stopping m p true 2]
  segment { other := true } ++ (List.replicate 7 (segment {})).flatten

/-- The demotion at the eighth run-out. -/
theorem demotion_needs_eight_runouts_seven :
    ∃ tr s, TaskRun tr s ∧ runoutsSinceBlock tr = 7 ∧ 8 ≤ runoutsSinceBlock tr + 1 := by
  obtain ⟨tr, s, h, hs⟩ : ∃ tr s, TaskRun tr s ∧ decide (s.phase = .ready
      ∧ runoutsSinceBlock tr = 7 ∧ (∀ x ∈ tr, x.pre.phase ≠ .asleep)
      ∧ demotesOnReenq cpuBoundMachine { pid := 1 } (weighed { pid := 1 } s.tctx) = true)
        = true :=
    exec_reaches stepTask (TaskState.initTask_fresh { pid := 1 } 1) sevenRunouts
      (fun tr s => decide (s.phase = .ready ∧ runoutsSinceBlock tr = 7
        ∧ (∀ x ∈ tr, x.pre.phase ≠ .asleep)
        ∧ demotesOnReenq cpuBoundMachine { pid := 1 } (weighed { pid := 1 } s.tctx) = true))
      (by decide +kernel)
  obtain ⟨hready, hseven, hawake, hdem⟩ := of_decide_eq_true hs
  refine ⟨tr, s, h, hseven, demotion_needs_eight_runouts h ?_ hready _ _ hdem⟩
  intro x hx
  rw [wakesClear]
  split
  · exact fun hasleep => absurd hasleep (hawake x hx)
  · exact fun hasleep => absurd hasleep (hawake x hx)
  · trivial

/-- **The failing run.** The task runs out seven times, blocks, is woken
by the handoff and demoted at its first run-out. -/
theorem demotion_after_handoff :
    ¬ ∀ tr s, TaskRun tr s → s.phase = .ready → ∀ (m : Machine) (p : TaskStruct),
      p.policy ≠ mlfqSchedIdle → demotesOnReenq m p (weighed p s.tctx) = true →
      8 ≤ runoutsSinceBlock tr + 1 := by
  intro hclaim
  obtain ⟨tr, s, h, hs⟩ : ∃ tr s, TaskRun tr s ∧ decide (s.phase = .ready
      ∧ runoutsSinceBlock tr = 0
      ∧ demotesOnReenq cpuBoundMachine { pid := 1 } (weighed { pid := 1 } s.tctx) = true)
        = true :=
    exec_reaches stepTask (TaskState.initTask_fresh { pid := 1 } 1)
      (sevenRunouts ++ [.running cpuBoundMachine { pid := 1 } 3,
        .stopping cpuBoundMachine { pid := 1 } false 4,
        .select cpuBoundMachine { pid := 1 } 0 true 5,
        .running cpuBoundMachine { pid := 1 } 6, .stopping cpuBoundMachine { pid := 1 } true 7])
      (fun tr s => decide (s.phase = .ready ∧ runoutsSinceBlock tr = 0
        ∧ demotesOnReenq cpuBoundMachine { pid := 1 } (weighed { pid := 1 } s.tctx) = true))
      (by decide +kernel)
  obtain ⟨hready, hzero, hdem⟩ := of_decide_eq_true hs
  have height := hclaim tr s h hready cpuBoundMachine { pid := 1 } (by decide) hdem
  rw [hzero] at height
  exact absurd height (by decide)

end ScxMlfq
