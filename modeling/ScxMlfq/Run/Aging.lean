import ScxMlfq.Run.Task

/-!
# Run — Aging

The aging pass over whole runs. A task in Q2 or Q3 carries the time its
stay began, once some enqueue has armed the stay clock. The next enqueue
that neither is a wakeup nor a run-out finds the wait and ages the task;
a run-out re-arms the clock first, so it never ages.
-/

namespace ScxMlfq

open Trace

/-! ## The history the aging depends on -/

/-- The time of an enqueue. -/
def enqueueAt (x : TaskEntry) : U64 :=
  match x.event with
  | .enqueue _ _ _ now => now
  | _ => 0

/-- The latest enqueue since the last reset. -/
def lastEnqueue : List TaskEntry → Option TaskEntry
  | [] => none
  | x :: tr =>
      match x.event with
      | .enqueue _ _ _ _ => some x
      | .reset _ _ => none
      | _ => lastEnqueue tr

/-- The times of all enqueues, latest first. -/
def enqueueTimes : List TaskEntry → List U64
  | [] => []
  | x :: tr =>
      match x.event with
      | .enqueue _ _ _ now => now :: enqueueTimes tr
      | _ => enqueueTimes tr

/-- The times the task started to run since its latest enqueue. -/
def runsSinceEnqueue : List TaskEntry → List U64
  | [] => []
  | x :: tr =>
      match x.event with
      | .enqueue _ _ _ _ => []
      | .running _ _ now => now :: runsSinceEnqueue tr
      | _ => runsSinceEnqueue tr

/-- Whether an enqueue since the last reset wrote the stay clock. -/
def stayArmed : List TaskEntry → Bool
  | [] => false
  | x :: tr =>
      match x.event with
      | .enqueue m p flags now => arms m p flags (weighed p x.pre.tctx) now || stayArmed tr
      | .reset _ _ => false
      | _ => stayArmed tr

/-- Times of a clock that runs: positive, never backwards, and less than
half of the circle in all. Latest first. -/
structure ClockRuns (ts : List U64) : Prop where
  pos : ∀ t ∈ ts, t ≠ 0
  mono : ts.Pairwise fun later earlier =>
    earlier.toNat ≤ later.toNat ∧ later.toNat < earlier.toNat + 2 ^ 63

/-! ## The stay clock over a run -/

/-- What a run says about the stay clock: the queue and the clock are
those of the latest enqueue, the clock is the time of an enqueue, and an
armed stay in Q2 or Q3 carries it. -/
structure StayInv (tr : List TaskEntry) (s : TaskState) : Prop where
  last : ∀ x, lastEnqueue tr = some x →
    s.tctx.queue = x.post.tctx.queue ∧ s.tctx.queuedAt = x.post.tctx.queuedAt
  stamp : s.tctx.queuedAt = 0 ∨ s.tctx.queuedAt ∈ enqueueTimes tr
  armed : stayArmed tr = true → s.tctx.queue ≠ .q1 → s.tctx.queuedAt ≠ 0

/-- The history of the stay does not see a quiet callback. -/
theorem stay_quiet {e : TaskEvent} (h : e.quiet = true) (s s' : TaskState)
    (tr : List TaskEntry) :
    lastEnqueue (⟨s, e, s'⟩ :: tr) = lastEnqueue tr
      ∧ enqueueTimes (⟨s, e, s'⟩ :: tr) = enqueueTimes tr
      ∧ stayArmed (⟨s, e, s'⟩ :: tr) = stayArmed tr := by
  cases e with
  | reset p now => cases h
  | enqueue m p flags now => cases h
  | stopping m p runnable now => cases h
  | _ => exact ⟨rfl, rfl, rfl⟩

/-- A callback that neither enqueues nor resets leaves the stay alone. -/
theorem StayInv.kept {tr tr' : List TaskEntry} {s s' : TaskState} (h : StayInv tr s)
    (hq : s'.tctx.queue = s.tctx.queue) (hat : s'.tctx.queuedAt = s.tctx.queuedAt)
    (hlast : lastEnqueue tr' = lastEnqueue tr) (htimes : enqueueTimes tr' = enqueueTimes tr)
    (harm : stayArmed tr' = stayArmed tr) : StayInv tr' s' := by
  refine ⟨?_, ?_, ?_⟩
  · rw [hlast, hq, hat]
    exact h.last
  · rw [htimes, hat]
    exact h.stamp
  · rw [harm, hq, hat]
    exact h.armed

theorem stayStamp_cases (q : Queue) (now : U64) :
    stayStamp q now = 0 ∨ stayStamp q now = now := by
  rw [stayStamp]
  split
  · exact Or.inr rfl
  · exact Or.inl rfl

theorem stayStamp_of_ne_q1 {q : Queue} (h : q ≠ .q1) (now : U64) :
    stayStamp q now = now := by
  rw [stayStamp, if_pos (Queue.two_le_num_iff.mpr h)]

/-- A task that leaves an enqueue outside Q1 was not aged by it. -/
theorem settleQueue_queue_of_ne_q1 {m : Machine} {p : TaskStruct} {flags : EnqFlags}
    {t : TaskCtx} {now : U64} (h : (settleQueue m p flags t now).1.queue ≠ .q1) :
    (settleQueue m p flags t now).1.queue = (classified m p flags t now).queue := by
  apply settleQueue_queue_of_not_due
  by_contra hdue
  exact h (settleQueue_queue_of_due (by simpa using hdue))

/-- The stay after one enqueue. -/
theorem StayInv.enqueue {tr : List TaskEntry} {s s' : TaskState} {m : Machine}
    {p : TaskStruct} {flags : EnqFlags} {now : U64} (h : StayInv tr s) (hnow : now ≠ 0)
    (hs : stepTask s (.enqueue m p flags now) = some s') :
    StayInv (⟨s, .enqueue m p flags now, s'⟩ :: tr) s' := by
  obtain ⟨-, -, hplace⟩ := stepTask_enqueue hs
  have hq := hplace.routed.queue_eq
  have hat := hplace.routed.queuedAt_eq
  rw [settleQueue_queuedAt] at hat
  refine ⟨?_, ?_, ?_⟩
  · intro x hx
    cases hx
    exact ⟨rfl, rfl⟩
  · rw [hat, enqueueTimes]
    split
    · rcases stayStamp_cases (classified m p flags (weighed p s.tctx) now).queue now
        with h0 | h1
      · exact Or.inl h0
      · exact Or.inr (by rw [h1]; exact List.mem_cons_self)
    · rcases h.stamp with h0 | hmem
      · exact Or.inl h0
      · exact Or.inr (List.mem_cons_of_mem _ hmem)
  · intro harm hne
    rw [hq] at hne
    have hcls := settleQueue_queue_of_ne_q1 hne
    rw [hat]
    split
    · rw [stayStamp_of_ne_q1 (by rw [← hcls]; exact hne)]
      exact hnow
    · rename_i hno
      rw [stayArmed, Bool.or_eq_true] at harm
      have hsame : (classified m p flags (weighed p s.tctx) now).queue = s.tctx.queue :=
        classified_of_not_arms (Bool.eq_false_of_not_eq_true hno)
      refine h.armed (harm.resolve_left hno) ?_
      rw [← hsame, ← hcls]
      exact hne

theorem StayInv.step {tr : List TaskEntry} {s s' : TaskState} {e : TaskEvent}
    (h : StayInv tr s) (hs : stepTask s e = some s')
    (hnow : ∀ t ∈ enqueueTimes [⟨s, e, s'⟩], t ≠ 0) : StayInv (⟨s, e, s'⟩ :: tr) s' := by
  rcases e.quiet_cases with hquiet | ⟨p, now, rfl⟩ | ⟨m, p, flags, now, rfl⟩
    | ⟨m, p, runnable, now, rfl⟩
  · have hk := stepTask_quiet hquiet hs
    obtain ⟨hlast, htimes, harm⟩ := stay_quiet hquiet s s' tr
    exact h.kept hk.queue hk.queuedAt hlast htimes harm
  · obtain ⟨-, rfl⟩ := stepTask_reset hs
    refine ⟨fun x hx => ?_, Or.inl rfl, fun harm => ?_⟩
    · cases hx
    · cases harm
  · exact h.enqueue (hnow now List.mem_cons_self) hs
  · obtain ⟨-, rfl⟩ := stepTask_stopping hs
    obtain ⟨hq, -, hat, -⟩ := mlfqStopping_kept m p s.tctx runnable now
    exact h.kept hq hat rfl rfl rfl

theorem mem_enqueueTimes {x : TaskEntry} {tr : List TaskEntry} (hx : x ∈ tr) {t : U64}
    (ht : t ∈ enqueueTimes [x]) : t ∈ enqueueTimes tr := by
  induction tr with
  | nil => cases hx
  | cons y tr ih =>
      rcases List.mem_cons.mp hx with rfl | hmem
      · rw [enqueueTimes] at ht ⊢
        split
        · rename_i hev
          simp only [hev, enqueueTimes, List.mem_singleton] at ht
          rw [ht]
          exact List.mem_cons_self
        · rename_i hev
          split at ht
          · exact absurd ‹_› (hev _ _ _ _)
          · cases ht
      · rw [enqueueTimes]
        split
        · exact List.mem_cons_of_mem _ (ih hmem)
        · exact ih hmem

/-- The stay over a run whose enqueues carry positive times. -/
theorem stayInv {tr : List TaskEntry} {s : TaskState} (h : TaskRun tr s)
    (hpos : ∀ t ∈ enqueueTimes tr, t ≠ 0) : StayInv tr s :=
  h.invariant_where (C := fun x => ∀ t ∈ enqueueTimes [x], t ≠ 0) (I := StayInv)
    (by
      rintro s ⟨p, now, rfl⟩
      refine ⟨fun x hx => ?_, Or.inl rfl, fun harm => ?_⟩
      · cases hx
      · cases harm)
    (fun _ _ _ _ hpre hstep hC => hpre.step hstep hC)
    fun _ hx _ ht => hpos _ (mem_enqueueTimes hx ht)

/-- The latest enqueue heads the list of times. -/
theorem enqueueTimes_of_lastEnqueue {tr : List TaskEntry} {x : TaskEntry}
    (h : lastEnqueue tr = some x) :
    ∃ earlier, enqueueTimes tr = enqueueAt x :: earlier := by
  induction tr with
  | nil => cases h
  | cons y tr ih =>
      rw [lastEnqueue] at h
      rw [enqueueTimes]
      split at h
      · rename_i m p flags now hev
        cases h
        exact ⟨enqueueTimes tr, by simp [hev, enqueueAt]⟩
      · cases h
      · rename_i hnone hreset
        obtain ⟨earlier, hrest⟩ := ih h
        refine ⟨earlier, ?_⟩
        split
        · exact absurd ‹_› (hnone _ _ _ _)
        · exact hrest

/-- On a running clock no enqueue is later than the latest one. -/
theorem ClockRuns.le_last {now : U64} {tr : List TaskEntry} {x : TaskEntry}
    (hclock : ClockRuns (now :: enqueueTimes tr)) (hx : lastEnqueue tr = some x) {t : U64}
    (ht : t ∈ enqueueTimes tr) : t.toNat ≤ (enqueueAt x).toNat := by
  obtain ⟨earlier, htimes⟩ := enqueueTimes_of_lastEnqueue hx
  have hmono := (List.pairwise_cons.mp hclock.mono).2
  rw [htimes] at hmono ht
  rcases List.mem_cons.mp ht with rfl | hmem
  · exact Nat.le_refl _
  · exact ((List.pairwise_cons.mp hmono).1 t hmem).1

/-! ## The aging pass -/

/-- A run-out never ages: it has just re-armed the stay clock. -/
theorem runout_not_due {m : Machine} {p : TaskStruct} {t : TaskCtx} {now : U64}
    (hpos : 0 < m.rod.agingPeriodNs) (hlt : m.rod.agingPeriodNs.toNat < 2 ^ 63) :
    agingDue m.rod p (stayed m p {} t now) now = false := by
  by_cases hq : (classified m p {} t now).queue = .q1
  · rw [agingDue, stayed_queue, hq]
    rfl
  · have hat : (stayed m p {} t now).queuedAt = now := by
      rw [stayed_queuedAt, settleQueue_queuedAt, if_pos (arms_runout rfl ..),
        stayStamp_of_ne_q1 hq]
    have hbefore : Serial.Before now (now + m.rod.agingPeriodNs) := by
      have hgap : Serial.gap now (now + m.rod.agingPeriodNs)
          = m.rod.agingPeriodNs.toNat := by
        rw [Serial.gap, add_sub_cancel_left]
      rw [Serial.before_iff_gap, hgap]
      bv_omega
    simp [agingDue, hat, mlfqTimeBefore_iff.mpr hbefore]

/-- **Aging over a run.** A task whose latest enqueue left it in Q2 or
Q3 with the stay clock armed is placed in Q1 by its next enqueue, if
that one is neither a wakeup nor a run-out and comes an aging period
later. A run-out never ages: whatever the task waited, it re-arms the
stay and leaves the queue to the run-out classification. -/
theorem aging_next_enqueue {tr : List TaskEntry} {s s' : TaskState} {x : TaskEntry}
    {m : Machine} {p : TaskStruct} {flags : EnqFlags} {now : U64}
    (h : TaskRun tr s) (hx : lastEnqueue tr = some x)
    (hs : stepTask s (.enqueue m p flags now) = some s') (hp : p.policy ≠ mlfqSchedIdle)
    (hclock : ClockRuns (now :: enqueueTimes tr)) :
    (x.post.tctx.queue ≠ .q1 → stayArmed tr = true → flags.wakeup = false →
        flags.isZero = false →
        (enqueueAt x).toNat + m.rod.agingPeriodNs.toNat ≤ now.toNat →
        s'.tctx.queue = .q1)
    ∧ (flags.isZero = true → 0 < m.rod.agingPeriodNs →
        m.rod.agingPeriodNs.toNat < 2 ^ 63 →
        s'.tctx.queue = (mlfqRunoutClassify m p (weighed p s.tctx)).1.queue
        ∧ s'.tctx.queuedAt = stayStamp s'.tctx.queue now) := by
  have hinv := stayInv h fun t ht => hclock.pos t (List.mem_cons_of_mem _ ht)
  obtain ⟨-, -, hplace⟩ := stepTask_enqueue hs
  have hq := hplace.routed.queue_eq
  have hidle : schedIdle p = false := decide_eq_false hp
  refine ⟨?_, ?_⟩
  · intro hne harm hw hz hlate
    obtain ⟨hqueue, -⟩ := hinv.last x hx
    have hcls : (classified m p flags (weighed p s.tctx) now).queue = s.tctx.queue :=
      classified_neutral hw hz hidle ..
    -- the stamp of the stay is the one the last enqueue left
    have hat : (stayed m p flags (weighed p s.tctx) now).queuedAt = s.tctx.queuedAt := by
      rw [stayed_queuedAt, settleQueue_queuedAt, arms_neutral hw hz hidle]
      rfl
    have hne' : s.tctx.queue ≠ .q1 := by rwa [hqueue]
    have hstamp := hinv.armed harm hne'
    have hmem := hinv.stamp.resolve_left hstamp
    have hle := hclock.le_last hx hmem
    have hspan := ((List.pairwise_cons.mp hclock.mono).1 _ hmem).2
    -- the due time is at most `now`, so the sum does not wrap
    have hsum : (s.tctx.queuedAt + m.rod.agingPeriodNs).toNat
        = s.tctx.queuedAt.toNat + m.rod.agingPeriodNs.toNat := by
      rw [BitVec.toNat_add, Nat.mod_eq_of_lt]
      have := now.isLt
      omega
    have hdue : ¬ Serial.Before now (s.tctx.queuedAt + m.rod.agingPeriodNs) := by
      apply Serial.not_before_of_toNat_le
      · omega
      · omega
    rw [hq]
    apply settleQueue_queue_of_due
    rw [agingDue, stayed_queue, hcls, hat, mlfqTimeBefore_false_iff.mpr hdue, hidle]
    simpa [Queue.two_le_num_iff, hne'] using hstamp
  · intro hz hpos hlt
    have hflags : flags = {} := by simpa [EnqFlags.isZero] using hz
    subst hflags
    have hnot : agingDue m.rod p (stayed m p {} (weighed p s.tctx) now) now = false :=
      runout_not_due hpos hlt
    have hcls : (classified m p {} (weighed p s.tctx) now).queue
        = (mlfqRunoutClassify m p (weighed p s.tctx)).1.queue := by
      rw [classified, mlfqApplySchedIdle_of_policy hidle, enqueueClassify_runout rfl]
    have hsettled := settleQueue_queue_of_not_due hnot
    refine ⟨by rw [hq, hsettled, hcls], ?_⟩
    rw [hplace.routed.queuedAt_eq, settleQueue_queuedAt, if_pos (arms_runout rfl ..), hq,
      hsettled]

/-! ## Two runs of one task -/

/-- A task woken into Q2 at 50 ms. -/
def wokenIntoQ2 : List TaskEvent :=
  [.enqueue (Machine.zeroed {} 1).seed { pid := 1 } { wakeup := true } 50000000]

/-- The same task, after it waited 1 s and then ran for 1 ms. -/
def wokenThenRan : List TaskEvent :=
  let m := (Machine.zeroed {} 1).seed
  wokenIntoQ2 ++ [.running m { pid := 1 } 1050000000,
    .stopping m { pid := 1 } true 1051000000]

/-- The enqueue after the wait: a reenqueue, or the run-out. -/
def enqueueAfterWait (reenq : Bool) : TaskEvent :=
  .enqueue (Machine.zeroed {} 1).seed { pid := 1 } { reenq := reenq } 1051000000

/-- What the two runs have in common before the last enqueue. -/
def waitedInQ2 (tr : List TaskEntry) (s : TaskState) (reenq : Bool) : Bool :=
  (lastEnqueue tr).any (fun x => decide (x.post.tctx.queue = .q2))
    && stayArmed tr && decide (enqueueTimes tr = [50000000])
    && decide (runsSinceEnqueue tr = if reenq then [] else [1050000000])
    && (stepTask s (enqueueAfterWait reenq)).any
      (fun s' => decide (s'.tctx.queue = if reenq then .q1 else .q2))

theorem clockRuns_waited {tr : List TaskEntry} (h : enqueueTimes tr = [50000000]) :
    ClockRuns (1051000000 :: enqueueTimes tr) := by
  rw [h]
  refine ⟨?_, ?_⟩
  · simp
  · decide

/-- The reenqueue ages the waiting task. -/
theorem aging_next_enqueue_wokenIntoQ2 :
    ∃ tr s s', TaskRun tr s ∧ stepTask s (enqueueAfterWait true) = some s'
      ∧ s'.tctx.queue = .q1 := by
  obtain ⟨tr, s, h, htest⟩ := exec_reaches stepTask (TaskState.initTask_fresh { pid := 1 } 1)
    wokenIntoQ2 (fun tr s => waitedInQ2 tr s true) (by decide)
  simp only [waitedInQ2, Bool.and_eq_true, Option.any_eq_true, decide_eq_true_eq] at htest
  obtain ⟨⟨⟨⟨⟨x, hx, hq⟩, harm⟩, htimes⟩, -⟩, s', hs, -⟩ := htest
  refine ⟨tr, s, s', h, hs, (aging_next_enqueue h hx hs (by decide)
    (clockRuns_waited htimes)).1 (by rw [hq]; decide) harm rfl (by decide) ?_⟩
  obtain ⟨earlier, hlast⟩ := enqueueTimes_of_lastEnqueue hx
  rw [htimes] at hlast
  rw [← (List.cons.inj hlast).1]
  decide

/-- A run-out after a wait of an aging period stays in Q2: not every
enqueue that follows a long wait ages. -/
theorem runout_after_wait_not_q1 :
    ¬ ∀ tr s x m p flags now s', TaskRun tr s → lastEnqueue tr = some x →
      x.post.tctx.queue ≠ .q1 →
      (∀ t ∈ runsSinceEnqueue tr,
        (enqueueAt x).toNat + m.rod.agingPeriodNs.toNat ≤ t.toNat) →
      stepTask s (.enqueue m p flags now) = some s' → p.policy ≠ mlfqSchedIdle →
      flags.wakeup = false → ClockRuns (now :: enqueueTimes tr) →
      (enqueueAt x).toNat + m.rod.agingPeriodNs.toNat ≤ now.toNat →
      s'.tctx.queue = .q1 := by
  intro hclaim
  obtain ⟨tr, s, h, htest⟩ := exec_reaches stepTask (TaskState.initTask_fresh { pid := 1 } 1)
    wokenThenRan (fun tr s => waitedInQ2 tr s false) (by decide)
  simp only [waitedInQ2, Bool.and_eq_true, Option.any_eq_true, decide_eq_true_eq] at htest
  obtain ⟨⟨⟨⟨⟨x, hx, hq⟩, -⟩, htimes⟩, hruns⟩, s', hs, hq'⟩ := htest
  obtain ⟨earlier, hlast⟩ := enqueueTimes_of_lastEnqueue hx
  rw [htimes] at hlast
  have hat : enqueueAt x = 50000000 := (List.cons.inj hlast).1.symm
  have hwait : ∀ t ∈ runsSinceEnqueue tr, (enqueueAt x).toNat
      + (Machine.zeroed {} 1).seed.rod.agingPeriodNs.toNat ≤ t.toNat := by
    intro t ht
    rw [hruns] at ht
    have htime : t = 1050000000 := by simpa using ht
    rw [hat, htime]
    decide
  have hq1 := hclaim tr s x _ _ _ _ s' h hx (by rw [hq]; decide) hwait hs (by decide) rfl
    (clockRuns_waited htimes) (by rw [hat]; decide)
  rw [hq1] at hq'
  cases hq'

end ScxMlfq
