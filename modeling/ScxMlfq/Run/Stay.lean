import ScxMlfq.Run.Aging

/-!
# Run — Stay

The stay clock of a task over every sequence of callbacks that starts
with a reset, also the sequences the kernel does not deliver. A task in
Q2 or Q3 should carry the time its stay began and a task in Q1 none.
Two kinds of enqueue break this, and only they do: one that ages the
task, which leaves the clock of the stay it ended, and one that keeps a
freshly reset task in a lower queue, which never starts the clock.
-/

namespace ScxMlfq

open Trace

abbrev ContextEntry := Entry TaskCtx TaskEvent

/-- The runs of a task from a reset, its callbacks in any order. -/
abbrev ContextRun : List ContextEntry → TaskCtx → Prop :=
  Run (fun t e t' => e.after t = some t') fun t => ∃ t₀ p now, t = mlfqResetTaskCtx t₀ p now

/-- The step of the context in a step of the task. -/
def contextEntry (x : TaskEntry) : ContextEntry := ⟨x.pre.tctx, x.event, x.post.tctx⟩

/-- What the kernel delivers is one of these sequences. -/
theorem TaskRun.context {tr : List TaskEntry} {s : TaskState} (h : TaskRun tr s) :
    ContextRun (tr.map contextEntry) s.tctx := by
  induction h with
  | start hs =>
      obtain ⟨p, now, rfl⟩ := hs
      exact .start ⟨_, p, now, rfl⟩
  | snoc _ hstep ih => exact ih.snoc (stepTask_after hstep)

/-! ## The stays of a run -/

/-- The time of an enqueue. -/
def TaskEvent.enqueueTime : TaskEvent → Option U64
  | .enqueue _ _ _ now => some now
  | _ => none

/-- The time the current stay began. A wakeup and a run-out end the stay
before, a change of the queue starts a fresh one, and so does the first
enqueue after a reset. -/
def stayBegan : List ContextEntry → Option U64
  | [] => none
  | ⟨t, .enqueue _ _ flags now, t'⟩ :: tr =>
      if flags.wakeup = true ∨ flags.isZero = true ∨ t'.queue ≠ t.queue then some now
      else some ((stayBegan tr).getD now)
  | ⟨_, .reset _ _, _⟩ :: _ => none
  | _ :: tr => stayBegan tr

/-- The stay clock as it should be: it runs in Q2 and Q3 only, and there
it has the time the stay began. -/
structure StayClocked (tr : List ContextEntry) (t : TaskCtx) : Prop where
  stamped : t.queuedAt ≠ 0 ↔ t.queue ≠ .q1
  since : t.queue ≠ .q1 → stayBegan tr = some t.queuedAt

/-- The clock as it should be after every enqueue of a run. -/
def StayClock (tr : List ContextEntry) : Prop :=
  ∀ later x earlier, tr = later ++ x :: earlier → x.event.enqueueTime.isSome = true →
    StayClocked (x :: earlier) x.post

/-- The enqueue finds a stay of an aging period. A wakeup and a run-out
re-arm the clock first, so they find one only where the period is zero,
or `2 ^ 63` and more. -/
def TaskEvent.ages (t : TaskCtx) : TaskEvent → Bool
  | .enqueue m p flags now =>
      !schedIdle p &&
        if flags.wakeup = true ∨ flags.isZero = true then
          decide ((classified m p flags (weighed p t) now).queue ≠ .q1)
            && !mlfqTimeBefore now (now + m.rod.agingPeriodNs)
        else
          decide (t.queue ≠ .q1 ∧ t.queuedAt ≠ 0)
            && !mlfqTimeBefore now (t.queuedAt + m.rod.agingPeriodNs)
  | _ => false

/-- The enqueue finds a task of Q2 or Q3 without a stay clock and keeps it
there: it is neither a wakeup nor a run-out, and the `SCHED_IDLE` pin
does not move the task. -/
def TaskEvent.unstamped (t : TaskCtx) : TaskEvent → Bool
  | .enqueue _ p flags _ =>
      !flags.wakeup && !flags.isZero && decide (t.queue ≠ .q1 ∧ t.queuedAt = 0)
        && (!schedIdle p || decide (t.queue = .q3))
  | _ => false

/-! ## One enqueue -/

section Enqueue
variable {m : Machine} {p : TaskStruct} {flags : EnqFlags} {t t' : TaskCtx} {now : U64}

theorem unstamped_iff :
    (TaskEvent.enqueue m p flags now).unstamped t = true
      ↔ arms m p flags (weighed p t) now = false ∧ t.queue ≠ .q1 ∧ t.queuedAt = 0 := by
  rw [arms_eq_false_iff, weighed_queue, TaskEvent.unstamped]
  cases schedIdle p <;> simp [and_assoc, and_comm, and_left_comm]

/-- **The aging test before the enqueue.** What the test will see of the
stay can be told from the task the enqueue finds. -/
theorem agingDue_eq_ages (hnow : now ≠ 0) :
    agingDue m.rod p (stayed m p flags (weighed p t) now) now
      = (TaskEvent.enqueue m p flags now).ages t := by
  rw [agingDue, stayed_queue, stayed_queuedAt, settleQueue_queuedAt, TaskEvent.ages]
  cases hidle : schedIdle p with
  | true => simp
  | false =>
      by_cases hkind : flags.wakeup = true ∨ flags.isZero = true
      · have harms : arms m p flags (weighed p t) now = true := by
          rcases hkind with h | h
          · simp [arms, h]
          · simp [arms, h]
        rw [if_pos harms, if_pos hkind]
        by_cases hq : (classified m p flags (weighed p t) now).queue = .q1
        · simp [hq, Queue.two_le_num_iff]
        · rw [stayStamp_of_ne_q1 hq, decide_eq_true hnow]
          simp [hq, Queue.two_le_num_iff]
      · obtain ⟨hw, hz⟩ := not_or.mp hkind
        rw [Bool.not_eq_true] at hw hz
        rw [arms_neutral hw hz hidle, if_neg Bool.false_ne_true, if_neg hkind,
          classified_neutral hw hz hidle, weighed_queue, weighed_queuedAt]
        simp [Queue.two_le_num_iff]

/-- What an enqueue does to the stay: it ages the task, starts a stay, or
leaves queue and clock. -/
inductive StayStep (m : Machine) (p : TaskStruct) (flags : EnqFlags) (now : U64)
    (t t' : TaskCtx) : Prop where
  | aged (due : (TaskEvent.enqueue m p flags now).ages t = true) (queue : t'.queue = .q1)
      (stale : t'.queuedAt ≠ 0)
  | started (fresh : (TaskEvent.enqueue m p flags now).ages t = false)
      (armed : arms m p flags (weighed p t) now = true)
      (starts : flags.wakeup = true ∨ flags.isZero = true ∨ t'.queue ≠ t.queue)
      (stamp : t'.queuedAt = stayStamp t'.queue now)
  | kept (fresh : (TaskEvent.enqueue m p flags now).ages t = false)
      (neutral : arms m p flags (weighed p t) now = false) (queue : t'.queue = t.queue)
      (stamp : t'.queuedAt = t.queuedAt)

/-- **One enqueue is one of the three.** -/
theorem after_stay (h : (TaskEvent.enqueue m p flags now).after t = some t') (hnow : now ≠ 0) :
    StayStep m p flags now t t' := by
  have hplace := after_placement h
  have hq := hplace.routed.queue_eq
  have hat := hplace.routed.queuedAt_eq
  have hdue := @agingDue_eq_ages m p flags t now hnow
  cases hages : (TaskEvent.enqueue m p flags now).ages t with
  | true =>
      rw [hages] at hdue
      refine .aged hages (hq.trans (settleQueue_queue_of_due hdue)) ?_
      -- the test passed on the clock the enqueue leaves
      rw [agingDue, Bool.and_eq_true, Bool.and_eq_true, decide_eq_true_eq, stayed_queuedAt]
        at hdue
      rw [hat]
      exact hdue.1.2
  | false =>
      rw [hages] at hdue
      rw [settleQueue_queue_of_not_due hdue] at hq
      rw [settleQueue_queuedAt] at hat
      cases harms : arms m p flags (weighed p t) now with
      | true =>
          rw [harms, if_pos rfl, ← hq] at hat
          refine .started hages harms ?_ hat
          rw [arms, ← hq, Bool.or_eq_true, Bool.or_eq_true, decide_eq_true_eq, or_assoc] at harms
          exact harms
      | false =>
          rw [harms] at hat
          exact .kept hages harms (hq.trans (classified_of_not_arms harms)) hat

end Enqueue

/-! ## The clock over a run -/

/-- The history of the stays does not see a quiet callback. -/
theorem stayBegan_quiet {e : TaskEvent} (h : e.quiet = true) (t t' : TaskCtx)
    (tr : List ContextEntry) : stayBegan (⟨t, e, t'⟩ :: tr) = stayBegan tr := by
  cases e with
  | reset p now => cases h
  | enqueue m p flags now => cases h
  | stopping m p runnable now => cases h
  | _ => rfl

theorem stayBegan_starts {m : Machine} {p : TaskStruct} {flags : EnqFlags} {now : U64}
    {t t' : TaskCtx} (tr : List ContextEntry)
    (h : flags.wakeup = true ∨ flags.isZero = true ∨ t'.queue ≠ t.queue) :
    stayBegan (⟨t, .enqueue m p flags now, t'⟩ :: tr) = some now := by
  rw [stayBegan, if_pos h]

/-- After an enqueue some stay has begun. -/
theorem stayBegan_ne_none {x : ContextEntry} (h : x.event.enqueueTime.isSome = true)
    (tr : List ContextEntry) : stayBegan (x :: tr) ≠ none := by
  obtain ⟨t, e, t'⟩ := x
  cases e with
  | enqueue m p flags now =>
      rw [stayBegan]
      split <;> exact Option.some_ne_none _
  | _ => cases h

theorem StayClocked.of_q1 {tr : List ContextEntry} {t : TaskCtx} (hq : t.queue = .q1)
    (hat : t.queuedAt = 0) : StayClocked tr t :=
  ⟨⟨fun hne => absurd hat hne, fun hne => absurd hq hne⟩, fun hne => absurd hq hne⟩

theorem StayClocked.of_lower {tr : List ContextEntry} {t : TaskCtx} (hq : t.queue ≠ .q1)
    (hat : t.queuedAt ≠ 0) (hbegan : stayBegan tr = some t.queuedAt) : StayClocked tr t :=
  ⟨⟨fun _ => hq, fun _ => hat⟩, fun _ => hbegan⟩

/-- What the clock says in a run without the two kinds of enqueue. Until
the first enqueue after a reset it is not running. -/
structure StayHeld (tr : List ContextEntry) (t : TaskCtx) : Prop where
  unbegun : stayBegan tr = none → t.queuedAt = 0
  begun : stayBegan tr ≠ none → StayClocked tr t

/-- A callback that is neither an enqueue nor a reset moves neither the
clock nor its history. -/
theorem StayHeld.congr {tr tr' : List ContextEntry} {t t' : TaskCtx} (h : StayHeld tr t)
    (hq : t'.queue = t.queue) (hat : t'.queuedAt = t.queuedAt)
    (hbegan : stayBegan tr' = stayBegan tr) : StayHeld tr' t' := by
  refine ⟨?_, ?_⟩
  · rw [hbegan, hat]
    exact h.unbegun
  · intro hne
    rw [hbegan] at hne
    obtain ⟨hstamped, hsince⟩ := h.begun hne
    refine ⟨?_, ?_⟩
    · rw [hq, hat]
      exact hstamped
    · rw [hq, hat, hbegan]
      exact hsince

/-- The clock after an enqueue that neither ages nor leaves a clock
unstarted. -/
theorem StayHeld.enqueue {tr : List ContextEntry} {t t' : TaskCtx} {m : Machine}
    {p : TaskStruct} {flags : EnqFlags} {now : U64} (h : StayHeld tr t) (hnow : now ≠ 0)
    (hs : (TaskEvent.enqueue m p flags now).after t = some t')
    (hages : (TaskEvent.enqueue m p flags now).ages t = false)
    (hun : (TaskEvent.enqueue m p flags now).unstamped t = false) :
    StayHeld (⟨t, .enqueue m p flags now, t'⟩ :: tr) t' := by
  refine ⟨fun hnone => absurd hnone (stayBegan_ne_none rfl tr), fun _ => ?_⟩
  cases after_stay hs hnow with
  | aged due queue stale =>
      rw [due] at hages
      cases hages
  | started fresh armed starts stamp =>
      by_cases hq : t'.queue = .q1
      · refine .of_q1 hq ?_
        rw [stamp, hq]
        rfl
      · rw [stayStamp_of_ne_q1 hq] at stamp
        refine .of_lower hq ?_ ?_
        · rw [stamp]
          exact hnow
        · rw [stayBegan_starts tr starts, stamp]
  | kept fresh neutral queue stamp =>
      obtain ⟨hw, hz, -⟩ := arms_eq_false_iff.mp neutral
      have hstays : ¬ (flags.wakeup = true ∨ flags.isZero = true ∨ t'.queue ≠ t.queue) := by
        simp [hw, hz, queue]
      cases hbegan : stayBegan tr with
      | none =>
          -- a clock that was never started is kept in Q1 only
          have hat := h.unbegun hbegan
          have hq1 : t.queue = .q1 := by
            by_contra hne
            rw [unstamped_iff.mpr ⟨neutral, hne, hat⟩] at hun
            cases hun
          exact .of_q1 (queue.trans hq1) (stamp.trans hat)
      | some began =>
          have hclock := h.begun (by rw [hbegan]; exact Option.some_ne_none _)
          refine ⟨?_, ?_⟩
          · rw [queue, stamp]
            exact hclock.stamped
          · rw [queue, stamp, stayBegan, if_neg hstays]
            intro hne
            rw [hclock.since hne, Option.getD_some]

theorem StayHeld.step {tr : List ContextEntry} {t t' : TaskCtx} {e : TaskEvent}
    (h : StayHeld tr t) (hs : e.after t = some t') (hnow : ∀ now ∈ e.enqueueTime, now ≠ 0)
    (hages : e.ages t = false) (hun : e.unstamped t = false) :
    StayHeld (⟨t, e, t'⟩ :: tr) t' := by
  rcases e.quiet_cases with hquiet | ⟨p, now, rfl⟩ | ⟨m, p, flags, now, rfl⟩
    | ⟨m, p, runnable, now, rfl⟩
  · have hframe := after_quiet_frame hquiet hs
    refine h.congr (by rw [hframe]) (by rw [hframe]) ?_
    exact stayBegan_quiet hquiet ..
  · obtain rfl := Option.some.inj hs
    exact ⟨fun _ => rfl, fun hne => absurd rfl hne⟩
  · exact h.enqueue (hnow now rfl) hs hages hun
  · obtain rfl := Option.some.inj hs
    obtain ⟨hq, -, hat, -⟩ := mlfqStopping_kept m p t runnable now
    exact h.congr hq hat rfl

/-- The clock over a run without the two kinds of enqueue. -/
theorem ContextRun.stayHeld {tr : List ContextEntry} {t : TaskCtx} (h : ContextRun tr t)
    (hpos : ∀ x ∈ tr, ∀ now ∈ x.event.enqueueTime, now ≠ 0)
    (hgood : ∀ x ∈ tr, x.event.ages x.pre = false ∧ x.event.unstamped x.pre = false) :
    StayHeld tr t := by
  apply Run.invariant_where (C := fun x => (∀ now ∈ x.event.enqueueTime, now ≠ 0)
    ∧ x.event.ages x.pre = false ∧ x.event.unstamped x.pre = false) _ _ h
    fun x hx => ⟨hpos x hx, hgood x hx⟩
  · rintro t ⟨t₀, p, now, rfl⟩
    exact ⟨fun _ => rfl, fun hne => absurd rfl hne⟩
  · intro tr t e t' hI hs hC
    exact hI.step hs hC.1 hC.2.1 hC.2.2

/-- Each of the two kinds leaves a clock that contradicts the queue. -/
theorem ages_unstamped_of_clocked {tr : List ContextEntry} {t t' : TaskCtx} {e : TaskEvent}
    (h : e.enqueueTime.isSome = true → StayClocked tr t') (hs : e.after t = some t')
    (hnow : ∀ now ∈ e.enqueueTime, now ≠ 0) :
    e.ages t = false ∧ e.unstamped t = false := by
  cases e with
  | enqueue m p flags now =>
      have hstamped := (h rfl).stamped
      cases after_stay hs (hnow now rfl) with
      | aged due queue stale => exact absurd queue (hstamped.mp stale)
      | started fresh armed starts stamp =>
          refine ⟨fresh, ?_⟩
          by_contra hun
          rw [Bool.not_eq_false, unstamped_iff, armed] at hun
          cases hun.1
      | kept fresh neutral queue stamp =>
          refine ⟨fresh, ?_⟩
          by_contra hun
          rw [Bool.not_eq_false, unstamped_iff] at hun
          obtain ⟨-, hne, hat⟩ := hun
          rw [queue, stamp] at hstamped
          exact hstamped.mpr hne hat
  | _ => exact ⟨rfl, rfl⟩

/-- **The stay clock over a run.** In every run from a reset, the
callbacks in any order, the clock is right after every enqueue if and
only if no enqueue ages the task and none keeps a task in a lower queue
whose clock was not started. -/
theorem stay_clock_iff {tr : List ContextEntry} {t : TaskCtx} (h : ContextRun tr t)
    (hpos : ∀ x ∈ tr, ∀ now ∈ x.event.enqueueTime, now ≠ 0) :
    StayClock tr ↔ ∀ x ∈ tr, x.event.ages x.pre = false ∧ x.event.unstamped x.pre = false := by
  constructor
  · intro hclock x hx
    obtain ⟨later, earlier, rfl⟩ := List.append_of_mem hx
    obtain ⟨-, hs⟩ := h.split
    exact ages_unstamped_of_clocked (hclock later x earlier rfl) hs (hpos x hx)
  · intro hgood later x earlier htr henq
    subst htr
    obtain ⟨hrun, hs⟩ := h.split
    have hsub (y : ContextEntry) (hy : y ∈ x :: earlier) : y ∈ later ++ x :: earlier :=
      List.mem_append_right later hy
    have hheld : StayHeld (x :: earlier) x.post :=
      ContextRun.stayHeld (hrun.snoc hs) (fun y hy => hpos y (hsub y hy))
        fun y hy => hgood y (hsub y hy)
    exact hheld.begun (stayBegan_ne_none henq earlier)

/-- A fork: the reset leaves the task in Q2, so its first enqueue changes no
queue and starts no clock. -/
example :
    ((TaskEvent.enqueue (Machine.zeroed {} 1).seed { pid := 1 } { other := true } 5).after
      (mlfqResetTaskCtx {} { pid := 1 } 1)).any
        (fun t => decide (t.queue = .q2 ∧ t.queuedAt = 0)) = true := by decide

/-! ## Two runs of one task -/

/-- A task woken into Q2 and reenqueued 10 ms later keeps its clock. -/
def reenqueuedEarly : List TaskEvent :=
  wokenIntoQ2 ++ [.enqueue (Machine.zeroed {} 1).seed { pid := 1 } { reenq := true } 60000000]

/-- The times of a trace are positive. -/
def positive (tr : List ContextEntry) : Bool :=
  tr.all fun x => x.event.enqueueTime.all fun now => decide (now ≠ 0)

theorem of_positive {tr : List ContextEntry} (h : positive tr = true) :
    ∀ x ∈ tr, ∀ now ∈ x.event.enqueueTime, now ≠ 0 := by
  intro x hx now hnow
  have hall := List.all_eq_true.mp h x hx
  rw [hnow] at hall
  exact of_decide_eq_true hall

theorem stay_clock_iff_reenqueuedEarly :
    ∃ tr t, ContextRun tr t ∧ StayClock tr ∧ t.queue = .q2 ∧ t.queuedAt = 50000000 := by
  obtain ⟨tr, s, h, htest⟩ := exec_reaches stepTask (TaskState.initTask_fresh { pid := 1 } 1)
    reenqueuedEarly
    (fun tr s => positive (tr.map contextEntry)
      && (tr.map contextEntry).all (fun x => !x.event.ages x.pre && !x.event.unstamped x.pre)
      && decide (s.tctx.queue = .q2 ∧ s.tctx.queuedAt = 50000000))
    (by decide)
  rw [Bool.and_eq_true, Bool.and_eq_true, decide_eq_true_eq] at htest
  obtain ⟨⟨hpos, hgood⟩, hq, hat⟩ := htest
  refine ⟨_, _, TaskRun.context h,
    (stay_clock_iff (TaskRun.context h) (of_positive hpos)).mpr fun x hx => ?_, hq, hat⟩
  have hx := List.all_eq_true.mp hgood x hx
  rw [Bool.and_eq_true, Bool.not_eq_true', Bool.not_eq_true'] at hx
  exact hx

/-- A task woken into Q2 is reenqueued a second later: the aging puts it
into Q1, and the clock still has the time of the wakeup. -/
theorem aged_keeps_clock :
    ¬ ∀ tr t, ContextRun tr t → (∀ x ∈ tr, ∀ now ∈ x.event.enqueueTime, now ≠ 0) →
      StayClock tr := by
  intro hclaim
  obtain ⟨tr, s, h, htest⟩ := exec_reaches stepTask (TaskState.initTask_fresh { pid := 1 } 1)
    (wokenIntoQ2 ++ [enqueueAfterWait true])
    (fun tr _ => positive (tr.map contextEntry)
      && (tr.map contextEntry).head?.any (fun x : ContextEntry => x.event.enqueueTime.isSome
        && decide (x.post.queue = .q1 ∧ x.post.queuedAt = 50000000)))
    (by decide)
  rw [Bool.and_eq_true, Option.any_eq_true] at htest
  obtain ⟨hpos, x, hx, hlast⟩ := htest
  rw [Bool.and_eq_true, decide_eq_true_eq] at hlast
  obtain ⟨henq, hq, hat⟩ := hlast
  obtain ⟨earlier, htr⟩ := List.head?_eq_some_iff.mp hx
  have hclock := hclaim _ _ (TaskRun.context h) (of_positive hpos) [] x earlier htr henq
  have hlower := hclock.stamped.mp (by rw [hat]; decide)
  exact hlower hq

end ScxMlfq
