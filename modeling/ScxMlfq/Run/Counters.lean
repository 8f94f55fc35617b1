import ScxMlfq.Bpf.Insert
import ScxMlfq.Run.Hysteresis

/-!
# Run — Counters

The two consecutive counters of a task over whole runs. Both are eight
bits wide and neither saturates: the tests that read them agree with the
history for as long as no counter passes 255, and the pass itself is the
first test they get wrong.
-/

namespace ScxMlfq

open Trace

/-! ## One wakeup and the wakeup counter -/

/-- The task `mlfq_promote_on_wakeup` is handed: mapped and boosted. -/
def promoteFinds (m : Machine) (p : TaskStruct) (t : TaskCtx) (now : U64) : TaskCtx :=
  (boost m.rod p (mapPred m.adapt p (wakeupPred m p t now) (wakeupCaptured m p t now)).1
    (wakeupSleepNs t now) (mlfqTaskIoWait p) now).1

/-- The wakeup ends a sleep that counts toward `wake_cnt`. -/
def shortWakeup (m : Machine) (t : TaskCtx) (now : U64) : Bool :=
  decide (wakeupSleepNs t now ≤ m.rod.hysteresisSleepNs)

/-- The `wake_cnt >= 2` that `mlfq_promote_on_wakeup` evaluates. -/
def wakeCntTest (m : Machine) (p : TaskStruct) (t : TaskCtx) (now : U64) : Bool :=
  decide ((countWake (promoteFinds m p t now) (wakeupSleepNs t now)
    m.rod.hysteresisSleepNs).wakeCnt ≥ 2)

/-- Whether `mlfq_promote_on_wakeup` promotes, and clears its counter. -/
def hysteresisPromotes (m : Machine) (p : TaskStruct) (t : TaskCtx) (now : U64) : Bool :=
  (mlfqPromoteOnWakeup (promoteFinds m p t now) (wakeupSleepNs t now) m.adapt.tLEffNs
    m.adapt.tHEffNs m.rod.hysteresisSleepNs).2

/-- The `reenq_cnt >= 8` that `mlfq_demote_on_reenq` evaluates. -/
def reenqCntTest (t : TaskCtx) : Bool := decide (t.reenqCnt + 1 ≥ 8)

theorem promoteFinds_wakeCnt (m : Machine) (p : TaskStruct) (t : TaskCtx) (now : U64) :
    (promoteFinds m p t now).wakeCnt = t.wakeCnt := by
  have hcap : (wakeupCaptured m p t now).wakeCnt = t.wakeCnt := by
    rw [wakeupCaptured, capture_frame]
    rfl
  rw [promoteFinds, boost]
  split
  all_goals
    simp only [mapPred]
    split <;> exact hcap

theorem countWake_wakeCnt (t : TaskCtx) (s ss : U64) :
    (countWake t s ss).wakeCnt = if s ≤ ss then t.wakeCnt + 1 else 0 := by
  rw [countWake]
  split <;> rfl

/-- The promotion needs the test, and is the one clear of the rule. -/
theorem mlfqPromoteOnWakeup_cases (t : TaskCtx) (s tL tH ss : U64) :
    ((mlfqPromoteOnWakeup t s tL tH ss).2 = true ∧ (countWake t s ss).wakeCnt ≥ 2
        ∧ (mlfqPromoteOnWakeup t s tL tH ss).1.wakeCnt = 0)
    ∨ ((mlfqPromoteOnWakeup t s tL tH ss).2 = false
        ∧ (mlfqPromoteOnWakeup t s tL tH ss).1 = countWake t s ss) := by
  rw [mlfqPromoteOnWakeup]
  split
  · rename_i h
    exact Or.inl ⟨rfl, h.2.2, rfl⟩
  · split
    · rename_i h
      exact Or.inl ⟨rfl, h.2.2, rfl⟩
    · exact Or.inr ⟨rfl, rfl⟩

/-- Whether a wakeup is one more of its streak. -/
def wakeCounts (m : Machine) (p : TaskStruct) (t : TaskCtx) (now : U64) : Bool :=
  shortWakeup m t now && !hysteresisPromotes m p t now

theorem mlfqWakeupClassify_wakeCnt (m : Machine) (p : TaskStruct) (t : TaskCtx) (now : U64) :
    (mlfqWakeupClassify m p t now).1.wakeCnt
      = if wakeCounts m p t now then t.wakeCnt + 1 else 0 := by
  have hseed : (mlfqWakeupClassify m p t now).1.wakeCnt
      = (wakeupRaised m p t now).1.wakeCnt := by
    rw [mlfqWakeupClassify_eq]
    simp only [seedOnWakeup]
    split <;> rfl
  have hremap : (wakeupRaised m p t now).1.wakeCnt
      = (mlfqPromoteOnWakeup (promoteFinds m p t now) (wakeupSleepNs t now) m.adapt.tLEffNs
          m.adapt.tHEffNs m.rod.hysteresisSleepNs).1.wakeCnt := by
    simp only [wakeupRaised, wakeupPromotions, longSleepRemap]
    split <;> rfl
  rw [hseed, hremap, wakeCounts, hysteresisPromotes, shortWakeup]
  rcases mlfqPromoteOnWakeup_cases (promoteFinds m p t now) (wakeupSleepNs t now)
    m.adapt.tLEffNs m.adapt.tHEffNs m.rod.hysteresisSleepNs with ⟨hp, -, hc⟩ | ⟨hp, hc⟩
  · simp [hp, hc]
  · rw [hp, hc, countWake_wakeCnt, promoteFinds_wakeCnt]
    simp

/-! ## The tests are those of the rules -/

/-- **The promotion is decided by the test**: in a gauge band of Q2 or Q3
it is the only thing `mlfq_promote_on_wakeup` asks. -/
theorem hysteresisPromotes_iff (m : Machine) (p : TaskStruct) (t : TaskCtx) (now : U64) :
    hysteresisPromotes m p t now = true
      ↔ (((promoteFinds m p t now).queue = .q2
            ∧ (promoteFinds m p t now).ema < m.adapt.tLEffNs / 2)
          ∨ ((promoteFinds m p t now).queue = .q3
            ∧ (promoteFinds m p t now).ema < m.adapt.tHEffNs / 2))
        ∧ wakeCntTest m p t now = true := by
  have hema : (countWake (promoteFinds m p t now) (wakeupSleepNs t now)
      m.rod.hysteresisSleepNs).ema = (promoteFinds m p t now).ema := by
    rw [countWake]
    split <;> rfl
  rw [hysteresisPromotes, wakeCntTest, mlfqPromoteOnWakeup, decide_eq_true_eq, countWake_queue,
    hema]
  split
  · rename_i hq2
    exact iff_of_true rfl ⟨.inl ⟨hq2.1, hq2.2.1⟩, hq2.2.2⟩
  · rename_i hq2
    split
    · rename_i hq3
      exact iff_of_true rfl ⟨.inr ⟨hq3.1, hq3.2.1⟩, hq3.2.2⟩
    · rename_i hq3
      refine iff_of_false Bool.false_ne_true ?_
      rintro ⟨⟨hq, hgauge⟩ | ⟨hq, hgauge⟩, htest⟩
      · exact hq2 ⟨hq, hgauge, htest⟩
      · exact hq3 ⟨hq, hgauge, htest⟩

/-- The task `mlfq_demote_on_reenq` is handed: captured and seeded. -/
def demoteFinds (m : Machine) (p : TaskStruct) (t : TaskCtx) : TaskCtx :=
  seedOnRunout m.adapt { capture p t 0 false with wakeCnt := 0 }

/-- **The demotion is decided by the test**: a run-out hands the task to
`mlfq_demote_on_reenq`, which demotes a CPU-bound task above Q3 if and
only if the test holds. -/
theorem mlfqRunoutClassify_demotes_iff (m : Machine) (p : TaskStruct) (t : TaskCtx) :
    let pred := inferPred m.predict p (capture p t 0 false)
    let demoted := mlfqDemoteOnReenq (demoteFinds m p t) m.adapt.tHEffNs m.adapt.tBndEffNs pred
    (mlfqRunoutClassify m p t).1 = demoted.1
      ∧ (demoted.2 = true ↔ (demoteFinds m p t).queue ≠ .q3
        ∧ cpuBound (demoteFinds m p t) m.adapt.tHEffNs m.adapt.tBndEffNs pred = true
        ∧ reenqCntTest t = true) := by
  intro pred demoted
  refine ⟨rfl, ?_⟩
  have hcnt : (demoteFinds m p t).reenqCnt = t.reenqCnt := by
    rw [demoteFinds, seedOnRunout, capture_frame]
    split <;> rfl
  have hqueue : ((demoteFinds m p t).queue = .q1 ∨ (demoteFinds m p t).queue = .q2)
      ↔ (demoteFinds m p t).queue ≠ .q3 := by
    cases (demoteFinds m p t).queue <;> simp
  simp only [demoted, mlfqDemoteOnReenq, reenqCntTest, decide_eq_true_eq, hqueue, hcnt]
  split
  · rename_i hdemotes
    exact iff_of_true rfl hdemotes
  · rename_i hkeeps
    exact iff_of_false Bool.false_ne_true hkeeps

/-- **One enqueue counts a wakeup or clears the counter.** -/
theorem settleQueue_wakeCnt (m : Machine) (p : TaskStruct) (flags : EnqFlags) (t : TaskCtx)
    (now : U64) :
    (settleQueue m p flags t now).1.wakeCnt
      = if flags.wakeup && wakeCounts m p t now then t.wakeCnt + 1 else 0 := by
  obtain ⟨q, at_, cnt, hset⟩ := settleQueue_frame m p flags t now
  have hcls : (settleQueue m p flags t now).1.wakeCnt
      = (enqueueClassify m p flags t now).1.wakeCnt := by
    rw [hset]
  rw [hcls, enqueueClassify]
  cases flags.wakeup with
  | true => simpa using mlfqWakeupClassify_wakeCnt m p t now
  | false =>
      cases flags.isZero with
      | true =>
          rcases mlfqRunoutClassify_cases m p t with ⟨-, hr⟩ | ⟨-, -, hr⟩ | ⟨-, -, hr⟩
          all_goals simp [hr]
      | false => rfl

/-- The test on the counter the wakeup finds. -/
theorem wakeCntTest_iff {m : Machine} {p : TaskStruct} {t : TaskCtx} {now : U64} :
    wakeCntTest m p t now = true ↔ shortWakeup m t now = true ∧ 2 ≤ t.wakeCnt + 1 := by
  rw [wakeCntTest, decide_eq_true_eq, countWake_wakeCnt, promoteFinds_wakeCnt, shortWakeup,
    decide_eq_true_eq]
  split
  · rename_i h
    simp [h]
  · rename_i h
    simp [h]

/-! ## The streaks -/

/-- The short wakeups since the wakeup counter was last reset: by a
reset, a longer sleep, a promotion by the hysteresis, or an enqueue that
is not a wakeup. -/
def consecutiveWakeups : List TaskEntry → Nat
  | [] => 0
  | ⟨s, .enqueue m p flags now, _⟩ :: tr =>
      if flags.wakeup && wakeCounts m p (weighed p s.tctx) now then consecutiveWakeups tr + 1
      else 0
  | ⟨_, .reset _ _, _⟩ :: _ => 0
  | _ :: tr => consecutiveWakeups tr

theorem consecutiveWakeups_quiet {e : TaskEvent} (h : e.quiet = true) (s s' : TaskState)
    (tr : List TaskEntry) :
    consecutiveWakeups (⟨s, e, s'⟩ :: tr) = consecutiveWakeups tr := by
  cases e with
  | reset p now => cases h
  | enqueue m p flags now => cases h
  | stopping m p runnable now => cases h
  | _ => rfl

theorem wakeCnt_step {s s' : TaskState} {e : TaskEvent} (tr : List TaskEntry)
    (hpre : s.tctx.wakeCnt = BitVec.ofNat 8 (consecutiveWakeups tr))
    (h : stepTask s e = some s') :
    s'.tctx.wakeCnt = BitVec.ofNat 8 (consecutiveWakeups (⟨s, e, s'⟩ :: tr)) := by
  rcases e.quiet_cases with hquiet | ⟨p, now, rfl⟩ | ⟨m, p, flags, now, rfl⟩
    | ⟨m, p, runnable, now, rfl⟩
  · rw [consecutiveWakeups_quiet hquiet, ← hpre, stepTask_quiet_frame hquiet h]
  · obtain ⟨-, rfl⟩ := stepTask_reset h
    rfl
  · obtain ⟨-, -, hplace⟩ := stepTask_enqueue h
    have hrouted : s'.tctx.wakeCnt
        = (settleQueue m p flags (weighed p s.tctx) now).1.wakeCnt := by
      rw [hplace.routed]
    rw [hrouted, settleQueue_wakeCnt, consecutiveWakeups]
    split
    · rw [BitVec.ofNat_add, ← hpre]
      rfl
    · rfl
  · obtain ⟨-, rfl⟩ := stepTask_stopping h
    obtain ⟨burst, at_, mean, var, ratio, gpu, hstop⟩ :=
      mlfqStopping_frame m p s.tctx runnable now
    show (mlfqStopping m p s.tctx runnable now).tctx.wakeCnt = _
    rw [hstop]
    exact hpre

/-- **The wakeup counter counts**, in eight bits. -/
theorem wakeCnt_eq_consecutiveWakeups {tr : List TaskEntry} {s : TaskState}
    (h : TaskRun tr s) : s.tctx.wakeCnt = BitVec.ofNat 8 (consecutiveWakeups tr) :=
  h.invariant (I := fun tr s => s.tctx.wakeCnt = BitVec.ofNat 8 (consecutiveWakeups tr))
    (by
      rintro s ⟨p, now, rfl⟩
      rfl)
    fun tr _ _ _ hpre hstep => wakeCnt_step tr hpre hstep

/-- A step that finds a counter at 255 and counts once more. -/
def Wraps (x : TaskEntry) : Prop :=
  ∃ m p flags now, x.event = .enqueue m p flags now ∧
    ((flags.wakeup = true ∧ shortWakeup m (weighed p x.pre.tctx) now = true
        ∧ x.pre.tctx.wakeCnt = 255)
      ∨ (flags.isZero = true ∧ x.pre.tctx.reenqCnt = 255))

/-- Both streaks fit a counter. -/
def StreaksFit (tr : List TaskEntry) : Prop :=
  consecutiveWakeups tr < 256 ∧ consecutiveRunouts tr < 256

theorem succ_lt_of_ne_max {c : U8} {n : Nat} (hc : c = BitVec.ofNat 8 n) (hne : c ≠ 255)
    (hn : n < 256) : n + 1 < 256 := by
  by_contra hge
  have h255 : n = 255 := by omega
  rw [h255] at hc
  exact hne hc

/-- **A step that does not wrap keeps the streaks within the counters.** -/
theorem streaksFit_step {tr : List TaskEntry} {s s' : TaskState} {e : TaskEvent}
    (hrun : TaskRun tr s) (hfit : StreaksFit tr) (hno : ¬ Wraps ⟨s, e, s'⟩) :
    StreaksFit (⟨s, e, s'⟩ :: tr) := by
  obtain ⟨hwake, hrunout⟩ := hfit
  cases e with
  | enqueue m p flags now =>
      constructor
      · rw [consecutiveWakeups]
        split
        · rename_i hcounts
          -- a step that finds 255 would wrap; below it one more still fits
          rw [Bool.and_eq_true, wakeCounts, Bool.and_eq_true] at hcounts
          refine succ_lt_of_ne_max (wakeCnt_eq_consecutiveWakeups hrun) ?_ hwake
          intro hmax
          exact hno ⟨m, p, flags, now, rfl, Or.inl ⟨hcounts.1, hcounts.2.1, hmax⟩⟩
        · omega
      · rw [consecutiveRunouts]
        split
        · omega
        · rename_i hclear
          have hz := isZero_of_not_clears (Bool.eq_false_of_not_eq_true hclear)
          refine succ_lt_of_ne_max (reenqCnt_eq_consecutiveRunouts hrun) ?_ hrunout
          intro hmax
          exact hno ⟨m, p, flags, now, rfl, Or.inr ⟨hz, hmax⟩⟩
  | reset p now => exact ⟨Nat.zero_lt_succ _, Nat.zero_lt_succ _⟩
  | _ => exact ⟨hwake, hrunout⟩

theorem streaksFit {tr : List TaskEntry} {s : TaskState} (h : TaskRun tr s)
    (hno : ∀ x ∈ tr, ¬ Wraps x) : StreaksFit tr := by
  induction h with
  | start _ => exact ⟨Nat.zero_lt_succ _, Nat.zero_lt_succ _⟩
  | snoc hrun _ ih =>
      have hfit := ih fun x hx => hno x (List.mem_cons_of_mem _ hx)
      exact streaksFit_step hrun hfit (hno _ List.mem_cons_self)

/-! ## The tests and the captures -/

/-- The two tests at the step `x` say what the steps before it say. -/
def TestsCount (x : TaskEntry) (before : List TaskEntry) : Prop :=
  ∀ m p flags now, x.event = .enqueue m p flags now →
    (flags.wakeup = true →
      (wakeCntTest m p (weighed p x.pre.tctx) now = true
        ↔ shortWakeup m (weighed p x.pre.tctx) now = true
          ∧ 2 ≤ consecutiveWakeups before + 1)) ∧
    (flags.isZero = true →
      (reenqCntTest (weighed p x.pre.tctx) = true ↔ 8 ≤ consecutiveRunouts before + 1))

/-- The step captures the features of the task. -/
def Captures (x : TaskEntry) : Prop :=
  ∃ m p flags now, x.event = .enqueue m p flags now ∧ schedIdle p = false
    ∧ (flags.wakeup = true ∨ flags.isZero = true)

/-- The step sets the wakeup counter to zero. -/
def ResetsWake (x : TaskEntry) : Prop :=
  (∃ p now, x.event = .reset p now)
    ∨ ∃ m p flags now, x.event = .enqueue m p flags now
      ∧ (flags.wakeup && wakeCounts m p (weighed p x.pre.tctx) now) = false

/-- **The counters count**, over a run: both tests at every enqueue, and
the captured feature between any two captures with no reset of the
wakeup counter from the first to the second. -/
structure CountersCount (tr : List TaskEntry) : Prop where
  tests : ∀ after x before, tr = after ++ x :: before → TestsCount x before
  captures : ∀ after y mid x before, tr = after ++ y :: (mid ++ x :: before) →
    Captures x → Captures y → (∀ z ∈ mid ++ [x], ¬ ResetsWake z) →
    x.post.tctx.pendingFeats.wakeCnt ≤ y.post.tctx.pendingFeats.wakeCnt

/-- What a capture records is the counter the step finds. -/
theorem captured_wakeCnt {x : TaskEntry} (hc : Captures x)
    (h : stepTask x.pre x.event = some x.post) :
    x.post.tctx.pendingFeats.wakeCnt = x.pre.tctx.wakeCnt.setWidth 32 := by
  obtain ⟨m, p, flags, now, he, hidle, hkind⟩ := hc
  rw [he] at h
  obtain ⟨-, -, hplace⟩ := stepTask_enqueue h
  have hrouted : x.post.tctx.pendingFeats
      = (settleQueue m p flags (weighed p x.pre.tctx) now).1.pendingFeats := by
    rw [hplace.routed]
  obtain ⟨q, at_, cnt, hset⟩ := settleQueue_frame m p flags (weighed p x.pre.tctx) now
  have hcls : (settleQueue m p flags (weighed p x.pre.tctx) now).1.pendingFeats
      = (enqueueClassify m p flags (weighed p x.pre.tctx) now).1.pendingFeats := by
    rw [hset]
  rw [hrouted, hcls, enqueueClassify]
  -- every capture copies the counter of the task it is given
  have hcap : ∀ (t : TaskCtx) (sleepNs : U64) (io : Bool),
      (capture p t sleepNs io).pendingFeats.wakeCnt = t.wakeCnt.setWidth 32 := by
    intro t sleepNs io
    rw [capture, hidle]
    rfl
  -- both classifications capture first: neither has counted yet
  cases hw : flags.wakeup with
  | true =>
      obtain ⟨q', w, b, hr⟩ := mlfqWakeupClassify_frame m p (weighed p x.pre.tctx) now
      rw [if_pos rfl, hr, wakeupCaptured]
      exact hcap ..
  | false =>
      have hz : flags.isZero = true := by
        simpa [hw] using hkind
      rw [hz]
      rcases mlfqRunoutClassify_cases m p (weighed p x.pre.tctx) with
        ⟨-, hr⟩ | ⟨-, -, hr⟩ | ⟨-, -, hr⟩
      all_goals
        simp only [Bool.false_eq_true, if_false, if_true, hr]
        exact hcap ..

/-- Without a reset the streak does not shrink. -/
theorem consecutiveWakeups_le_cons {x : TaskEntry} (h : ¬ ResetsWake x)
    (tr : List TaskEntry) : consecutiveWakeups tr ≤ consecutiveWakeups (x :: tr) := by
  obtain ⟨s, e, s'⟩ := x
  cases e with
  | enqueue m p flags now =>
      have hcounts : (flags.wakeup && wakeCounts m p (weighed p s.tctx) now) = true := by
        by_contra hno
        exact h (Or.inr ⟨m, p, flags, now, rfl, by simpa using hno⟩)
      rw [consecutiveWakeups, if_pos hcounts]
      omega
  | reset p now => exact absurd (Or.inl ⟨p, now, rfl⟩) h
  | select m p prevCpu sync now => exact Nat.le_refl _
  | running m p now => exact Nat.le_refl _
  | keep => exact Nat.le_refl _
  | steal m qid cpu => exact Nat.le_refl _
  | gpuSubmit now => exact Nat.le_refl _
  | stopping m p runnable now => exact Nat.le_refl _
  | quiescent m => exact Nat.le_refl _

theorem consecutiveWakeups_le_append {seg : List TaskEntry} (h : ∀ z ∈ seg, ¬ ResetsWake z)
    (tr : List TaskEntry) : consecutiveWakeups tr ≤ consecutiveWakeups (seg ++ tr) := by
  induction seg with
  | nil => exact Nat.le_refl _
  | cons z seg ih =>
      have htail := ih fun y hy => h y (List.mem_cons_of_mem _ hy)
      exact Nat.le_trans htail (consecutiveWakeups_le_cons (h z List.mem_cons_self) _)

/-- The tests on the history, each modulo the width of its counter. -/
theorem wakeCntTest_history {tr : List TaskEntry} {s : TaskState} (h : TaskRun tr s)
    (m : Machine) (p : TaskStruct) (now : U64) :
    wakeCntTest m p (weighed p s.tctx) now = true
      ↔ shortWakeup m (weighed p s.tctx) now = true
        ∧ 2 ≤ (consecutiveWakeups tr + 1) % 256 := by
  rw [wakeCntTest_iff]
  have h2 : (2 : U8) ≤ s.tctx.wakeCnt + 1 ↔ 2 ≤ (consecutiveWakeups tr + 1) % 256 :=
    @le_count_succ_iff _ _ 2 (wakeCnt_eq_consecutiveWakeups h) (by omega)
  exact and_congr_right fun _ => h2

theorem reenqCntTest_history {tr : List TaskEntry} {s : TaskState} (h : TaskRun tr s)
    (p : TaskStruct) :
    reenqCntTest (weighed p s.tctx) = true ↔ 8 ≤ (consecutiveRunouts tr + 1) % 256 := by
  rw [reenqCntTest, decide_eq_true_eq]
  exact eight_le_reenqCnt_iff h

/-- A step that wraps fails its test, however long the streak. -/
theorem Wraps.not_testsCount {x : TaskEntry} {before : List TaskEntry} (hx : Wraps x)
    (hrun : TaskRun before x.pre) : ¬ TestsCount x before := by
  intro htests
  obtain ⟨m, p, flags, now, he, hw | hr⟩ := hx
  · obtain ⟨hflag, hshort, hmax⟩ := hw
    have hmod : consecutiveWakeups before % 256 = 255 := by
      have hcnt := congrArg BitVec.toNat (wakeCnt_eq_consecutiveWakeups hrun)
      rw [hmax, BitVec.toNat_ofNat] at hcnt
      exact hcnt.symm
    have htest := ((htests m p flags now he).1 hflag).mpr ⟨hshort, by omega⟩
    have := ((wakeCntTest_history hrun m p now).mp htest).2
    omega
  · obtain ⟨hflag, hmax⟩ := hr
    have hmod : consecutiveRunouts before % 256 = 255 := by
      have hcnt := congrArg BitVec.toNat (reenqCnt_eq_consecutiveRunouts hrun)
      rw [hmax, BitVec.toNat_ofNat] at hcnt
      exact hcnt.symm
    have htest := ((htests m p flags now he).2 hflag).mpr (by omega)
    have := (reenqCntTest_history hrun p).mp htest
    omega

/-- A run in which no step wraps counts. -/
theorem countersCount_of_noWrap {tr : List TaskEntry} {s : TaskState} (h : TaskRun tr s)
    (hno : ∀ x ∈ tr, ¬ Wraps x) : CountersCount tr := by
  constructor
  · rintro after x before rfl m p flags now he
    -- a test, by the streak before its step
    have hrun := h.split.1
    have hbefore : StreaksFit before := streaksFit hrun fun y hy =>
      hno y (List.mem_append_right _ (List.mem_cons_of_mem _ hy))
    have hx : ¬ Wraps x := hno x (List.mem_append_right _ List.mem_cons_self)
    constructor
    · intro hwake
      rw [wakeCntTest_history hrun]
      refine and_congr_right fun hshort => ?_
      have hlt := succ_lt_of_ne_max (wakeCnt_eq_consecutiveWakeups hrun)
        (fun hmax => hx ⟨m, p, flags, now, he, Or.inl ⟨hwake, hshort, hmax⟩⟩) hbefore.1
      rw [Nat.mod_eq_of_lt hlt]
    · intro hz
      rw [reenqCntTest_history hrun]
      have hlt := succ_lt_of_ne_max (reenqCnt_eq_consecutiveRunouts hrun)
        (fun hmax => hx ⟨m, p, flags, now, he, Or.inr ⟨hz, hmax⟩⟩) hbefore.2
      rw [Nat.mod_eq_of_lt hlt]
  · rintro after y mid x before rfl hcx hcy hkeep
    obtain ⟨hrunY, hstepY⟩ := h.split
    obtain ⟨hrunX, hstepX⟩ := hrunY.split
    have hfitY : StreaksFit (mid ++ x :: before) := streaksFit hrunY fun z hz =>
      hno z (List.mem_append_right _ (List.mem_cons_of_mem _ hz))
    -- without a reset the streak has only grown in between
    have hle : consecutiveWakeups before ≤ consecutiveWakeups (mid ++ x :: before) := by
      simpa using consecutiveWakeups_le_append hkeep before
    have hfitX : consecutiveWakeups before < 256 := Nat.lt_of_le_of_lt hle hfitY.1
    rw [captured_wakeCnt hcx hstepX, captured_wakeCnt hcy hstepY,
      wakeCnt_eq_consecutiveWakeups hrunX, wakeCnt_eq_consecutiveWakeups hrunY, BitVec.le_def]
    simp only [BitVec.toNat_setWidth, BitVec.toNat_ofNat]
    have hY := hfitY.1
    omega

/-- **The counters count until one wraps**: over a run, both tests say
what the history says and the captured feature does not decrease without
a reset, if and only if no step finds the counter it increments at 255. -/
theorem counters_count_iff {tr : List TaskEntry} {s : TaskState} (h : TaskRun tr s) :
    CountersCount tr ↔ ∀ x ∈ tr, ¬ Wraps x := by
  constructor
  · intro hcount x hx hwrap
    obtain ⟨after, before, rfl⟩ := List.append_of_mem hx
    exact hwrap.not_testsCount h.split.1 (hcount.tests after x before rfl)
  · intro hno
    exact countersCount_of_noWrap h hno

/-! ## A streak that wraps -/

/-- An enqueue of a task with a weight and a CPU goes through. -/
theorem stepTask_enqueue_some {s : TaskState} {p : TaskStruct} {flags : EnqFlags}
    (hfrom : enqueueFrom flags s.phase = true) (hw : p.weight ≠ 0) (hcpu : 0 ≤ p.cpu)
    (m : Machine) (now : U64) : ∃ s', stepTask s (.enqueue m p flags now) = some s' := by
  have hroute : (enqueueTask m p s.tctx flags now).route ≠ .error := by
    rcases enqueueTask_exits m p s.tctx flags now with ⟨hzero, -⟩ | ⟨-, hexit⟩
    · exact absurd hzero hw
    · intro herr
      cases hexit with
      | noCpu route pinned cpu => omega
      | pinnedGlobal route => simp [route] at herr
      | pinnedIdle route => simp [route] at herr
      | pinnedBusy route => simp [route] at herr
      | fastPath route => simp [route] at herr
      | preempt route => simp [route] at herr
      | regular route => simp [route] at herr
  simp [stepTask, hfrom, hroute]

/-- A wakeup one nanosecond after the task blocked is short. -/
theorem wakeupSleepNs_succ_le (t : TaskCtx) : wakeupSleepNs t (t.lastSleepAt + 1) ≤ 1 := by
  rw [wakeupSleepNs]
  split
  · bv_omega
  · decide

theorem hysteresisPromotes_q1 (m : Machine) (p : TaskStruct) {t : TaskCtx} (now : U64)
    (hq : t.queue = .q1) : hysteresisPromotes m p t now = false := by
  have hcap : (wakeupCaptured m p t now).queue = .q1 := by
    rw [wakeupCaptured_queue, hq]
  have hfinds : (promoteFinds m p t now).queue = .q1 :=
    ((mapPred_raised m.adapt p (wakeupPred m p t now) (wakeupCaptured m p t now)).trans
      (boost_raised ..)).q1 hcap
  simp [hysteresisPromotes, mlfqPromoteOnWakeup, hfinds]

/-- The machine and the task of the streak. -/
def streakMachine : Machine := (Machine.zeroed {} 1).seed

def streakTask : TaskStruct := { pid := 1 }

/-- A short wakeup of an interactive task: it stays in Q1 and counts. -/
theorem settleQueue_shortWakeup {t : TaskCtx} (hq : t.queue = .q1) :
    (settleQueue streakMachine streakTask { wakeup := true } t (t.lastSleepAt + 1)).1.queue = .q1
      ∧ (settleQueue streakMachine streakTask { wakeup := true } t
          (t.lastSleepAt + 1)).1.wakeCnt = t.wakeCnt + 1 := by
  have hsleep := wakeupSleepNs_succ_le t
  constructor
  · have hclass : (classified streakMachine streakTask { wakeup := true } t
        (t.lastSleepAt + 1)).queue = .q1 := by
      -- a sleep of 1 ns is too short for the seed to take the task out of Q1
      have hseed : ¬ (streakTask.inIowait = false ∧ t.gpuSubmit = 0
          ∧ t.prevBurstNs > streakMachine.adapt.tHEffNs
          ∧ wakeupSleepNs t (t.lastSleepAt + 1) > streakMachine.rod.shortSleepNs) := by
        intro h
        have hlong : wakeupSleepNs t (t.lastSleepAt + 1) > 32000000 := h.2.2.2
        bv_omega
      have hle := (mlfqWakeupClassify_rules streakMachine streakTask t
        (t.lastSleepAt + 1)).2.2.2.1 hseed
      rw [hq] at hle
      rw [classified, mlfqApplySchedIdle_of_policy (by decide), enqueueClassify, if_pos rfl]
      exact Queue.num_injective (Nat.le_antisymm hle (Queue.num_pos _))
    -- aging moves a task to Q1 only, where it is
    cases hage : agingDue streakMachine.rod streakTask (stayed streakMachine streakTask
        { wakeup := true } t (t.lastSleepAt + 1)) (t.lastSleepAt + 1) with
    | true => exact settleQueue_queue_of_due hage
    | false => rw [settleQueue_queue_of_not_due hage, hclass]
  · have hshort : shortWakeup streakMachine t (t.lastSleepAt + 1) = true := by
      have hle : wakeupSleepNs t (t.lastSleepAt + 1) ≤ 4000000 := by
        bv_omega
      exact decide_eq_true hle
    rw [settleQueue_wakeCnt, wakeCounts, hshort, hysteresisPromotes_q1 _ _ _ hq]
    rfl

/-- An interactive task asleep, with `n` wakeups counted. -/
structure Streak (n : Nat) (s : TaskState) : Prop where
  phase : s.phase = .asleep
  queue : s.tctx.queue = .q1
  wakeCnt : s.tctx.wakeCnt = BitVec.ofNat 8 n

/-- The enqueue of a short wakeup from a streak. -/
theorem Streak.enqueue {n : Nat} {s : TaskState} (h : Streak n s) :
    ∃ s', stepTask s (.enqueue streakMachine streakTask { wakeup := true }
        (s.tctx.lastSleepAt + 1)) = some s' ∧ s'.phase = .queued ∧ s'.tctx.queue = .q1
      ∧ s'.tctx.wakeCnt = BitVec.ofNat 8 (n + 1) := by
  have hfrom : enqueueFrom { wakeup := true } s.phase = true := by
    rw [h.phase]
    rfl
  obtain ⟨s', hs⟩ := @stepTask_enqueue_some s streakTask { wakeup := true } hfrom (by decide)
    (by decide) streakMachine (s.tctx.lastSleepAt + 1)
  obtain ⟨-, hphase, hplace⟩ := stepTask_enqueue hs
  have hsettled := @settleQueue_shortWakeup (weighed streakTask s.tctx) h.queue
  refine ⟨s', hs, hphase, ?_, ?_⟩
  · rw [hplace.routed.queue_eq]
    exact hsettled.1
  · rw [hplace.routed]
    show (settleQueue streakMachine streakTask { wakeup := true } (weighed streakTask s.tctx)
      (s.tctx.lastSleepAt + 1)).1.wakeCnt = _
    have hcnt : (weighed streakTask s.tctx).wakeCnt = BitVec.ofNat 8 n := h.wakeCnt
    rw [BitVec.ofNat_add, ← hcnt]
    exact hsettled.2

/-- One short wakeup, one segment, one block: the streak is one longer. -/
theorem Streak.next {n : Nat} {tr : List TaskEntry} {s : TaskState} (hrun : TaskRun tr s)
    (h : Streak n s) : ∃ tr' s', TaskRun tr' s' ∧ Streak (n + 1) s' := by
  obtain ⟨s₁, henq, hphase, hq, hcnt⟩ := h.enqueue
  obtain ⟨s₂, hrunning⟩ : ∃ s₂, stepTask s₁
      (.running streakMachine streakTask (s.tctx.lastSleepAt + 1)) = some s₂ := by
    simp [stepTask, hphase]
  obtain ⟨-, hs₂⟩ := stepTask_running hrunning
  have hphase₂ : s₂.phase = .running := by rw [hs₂]
  obtain ⟨s₃, hstop⟩ : ∃ s₃, stepTask s₂
      (.stopping streakMachine streakTask false (s.tctx.lastSleepAt + 2)) = some s₃ := by
    simp [stepTask, hphase₂]
  refine ⟨_, s₃, ((hrun.snoc henq).snoc hrunning).snoc hstop, ?_⟩
  -- neither the start nor the stop of the segment touches queue and counter
  have hquiet := stepTask_quiet_frame rfl hrunning
  obtain ⟨-, rfl⟩ := stepTask_stopping hstop
  obtain ⟨burst, at_, mean, var, ratio, gpu, hframe⟩ :=
    mlfqStopping_frame streakMachine streakTask s₂.tctx false (s.tctx.lastSleepAt + 2)
  refine ⟨rfl, ?_, ?_⟩
  · show (mlfqStopping streakMachine streakTask s₂.tctx false
      (s.tctx.lastSleepAt + 2)).tctx.queue = _
    rw [hframe, hquiet]
    exact hq
  · show (mlfqStopping streakMachine streakTask s₂.tctx false
      (s.tctx.lastSleepAt + 2)).tctx.wakeCnt = _
    rw [hframe, hquiet]
    exact hcnt

/-- The first wakeup of the streak. -/
def firstWakeup : List TaskEvent :=
  [.enqueue streakMachine streakTask { wakeup := true } 10,
    .running streakMachine streakTask 10, .stopping streakMachine streakTask false 20]

theorem firstWakeup_streak : ∃ tr s, TaskRun tr s ∧ Streak 1 s := by
  obtain ⟨tr, s, hrun, hs⟩ := exec_reaches stepTask (TaskState.initTask_fresh streakTask 1)
    firstWakeup (fun _ s => decide (s.phase = .asleep ∧ s.tctx.queue = .q1
      ∧ s.tctx.wakeCnt = 1)) (by decide)
  obtain ⟨hphase, hq, hcnt⟩ := of_decide_eq_true hs
  exact ⟨tr, s, hrun, hphase, hq, hcnt⟩

/-- Streaks of every length are reached. -/
theorem exists_streak (n : Nat) : ∃ tr s, TaskRun tr s ∧ Streak (n + 1) s := by
  induction n with
  | zero => exact firstWakeup_streak
  | succ n ih =>
      obtain ⟨tr, s, hrun, h⟩ := ih
      exact h.next hrun

/-- The 256th short wakeup in a row finds the counter at 255, sets it to
zero, and fails the test. -/
theorem wakeCnt_wraps : ¬ ∀ tr s, TaskRun tr s → CountersCount tr := by
  intro hclaim
  obtain ⟨tr, s, hrun, h⟩ := exists_streak 254
  obtain ⟨s', henq, -⟩ := h.enqueue
  have hwrap : Wraps ⟨s, .enqueue streakMachine streakTask { wakeup := true }
      (s.tctx.lastSleepAt + 1), s'⟩ := by
    refine ⟨streakMachine, streakTask, { wakeup := true }, s.tctx.lastSleepAt + 1, rfl,
      Or.inl ⟨rfl, ?_, h.wakeCnt⟩⟩
    have hsleep := wakeupSleepNs_succ_le (weighed streakTask s.tctx)
    have hle : wakeupSleepNs (weighed streakTask s.tctx) (s.tctx.lastSleepAt + 1)
        ≤ 4000000 := by
      show wakeupSleepNs (weighed streakTask s.tctx)
        ((weighed streakTask s.tctx).lastSleepAt + 1) ≤ 4000000
      bv_omega
    exact decide_eq_true hle
  have htests := (hclaim _ s' (hrun.snoc henq)).tests [] _ tr rfl
  exact hwrap.not_testsCount hrun htests

/-- A wakeup at which the test on `wake_cnt` holds. -/
def wakeTestHolds (x : TaskEntry) : Bool :=
  match x.event with
  | .enqueue m p flags now => flags.wakeup && wakeCntTest m p (weighed p x.pre.tctx) now
  | _ => false

/-- A run-out at which the test on `reenq_cnt` holds. -/
def runoutTestHolds (x : TaskEntry) : Bool :=
  match x.event with
  | .enqueue _ p flags _ => flags.isZero && reenqCntTest (weighed p x.pre.tctx)
  | _ => false

/-- Two short wakeups, the second after a block of 5 ns, and then eight
run-outs of one burst. -/
def shortStreak : List TaskEvent :=
  firstWakeup ++ [.enqueue streakMachine streakTask { wakeup := true } 25] ++
    ((List.range 8).map (BitVec.ofNat 64)).flatMap fun i =>
      [.running streakMachine streakTask (30 + 2 * i),
        .stopping streakMachine streakTask true (31 + 2 * i),
        .enqueue streakMachine streakTask {} (31 + 2 * i)]

/-- Both tests come to hold in `shortStreak`, as the history says. -/
theorem counters_count_firstWakeup :
    ∃ tr s, TaskRun tr s ∧ CountersCount tr ∧ consecutiveRunouts tr = 8
      ∧ tr.any wakeTestHolds = true ∧ tr.any runoutTestHolds = true := by
  obtain ⟨tr, s, hrun, hs⟩ := exec_reaches stepTask (TaskState.initTask_fresh streakTask 1)
    shortStreak (fun tr _ => (tr.all fun x =>
        decide (x.pre.tctx.wakeCnt ≠ 255 ∧ x.pre.tctx.reenqCnt ≠ 255))
      && decide (consecutiveRunouts tr = 8) && tr.any wakeTestHolds && tr.any runoutTestHolds)
    (by decide +kernel)
  simp only [Bool.and_eq_true, decide_eq_true_eq] at hs
  obtain ⟨⟨⟨hbelow, hcount⟩, hwake⟩, hrunout⟩ := hs
  refine ⟨tr, s, hrun, (counters_count_iff hrun).mpr ?_, hcount, hwake, hrunout⟩
  intro x hx hwrap
  have hne := of_decide_eq_true (List.all_eq_true.mp hbelow x hx)
  obtain ⟨m, p, flags, now, -, ⟨-, -, hmax⟩ | ⟨-, hmax⟩⟩ := hwrap
  · exact hne.1 hmax
  · exact hne.2 hmax

end ScxMlfq
