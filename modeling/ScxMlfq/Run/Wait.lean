import ScxMlfq.Bpf.Insert
import ScxMlfq.Run.Task

/-!
# Run — Wait

The enqueue-to-run measurement over whole runs. The stamp and the wakeup
flag of a task are what the history says: the last insert of
`mlfq_enqueue` that no run, keep grant, global park or reset has consumed.
A segment that starts measures that insert and consumes it.
-/

namespace ScxMlfq

open Trace

/-- The time and the kind of the insert a run would measure now. -/
def pendingInsert : List TaskEntry → Option (U64 × Bool)
  | [] => none
  | ⟨s, .enqueue m p flags now, _⟩ :: tr =>
      match (enqueueTask m p s.tctx flags now).insert with
      | none => pendingInsert tr
      | some i => if i.dsq = .global then none else some (now, flags.wakeup)
  | ⟨_, .running _ _ _, _⟩ :: _ => none
  | ⟨_, .keep, _⟩ :: _ => none
  | ⟨_, .reset _ _, _⟩ :: _ => none
  | _ :: tr => pendingInsert tr

/-- The time of a callback. -/
def TaskEvent.time : TaskEvent → Option U64
  | .reset _ now => some now
  | .select _ _ _ _ now => some now
  | .enqueue _ _ _ now => some now
  | .running _ _ now => some now
  | .gpuSubmit now => some now
  | .stopping _ _ _ now => some now
  | .keep => none
  | .steal _ _ _ => none
  | .quiescent _ => none

/-- The times of a run, latest first. -/
def runTimes (tr : List TaskEntry) : List U64 := tr.filterMap fun x => x.event.time

/-- The times up to `now` are positive, do not decrease, and span less
than half of the word. -/
def TimesUpTo (now : U64) (tr : List TaskEntry) : Prop :=
  (now :: runTimes tr).Pairwise fun later earlier =>
    0 < earlier.toNat ∧ earlier.toNat ≤ later.toNat ∧ later.toNat - earlier.toNat < 2 ^ 63

instance (now : U64) (tr : List TaskEntry) : Decidable (TimesUpTo now tr) :=
  inferInstanceAs (Decidable (List.Pairwise _ _))

/-- The stamp and the flag of a task are those of the pending insert. -/
def StampedAs (pending : Option (U64 × Bool)) (t : TaskCtx) : Prop :=
  match pending with
  | none => t.enqAt = 0
  | some (at_, wakeup) => t.enqAt = at_ ∧ t.flags.enqWakeup = wakeup

theorem StampedAs.congr {pending : Option (U64 × Bool)} {t t' : TaskCtx}
    (h : StampedAs pending t) (hat : t'.enqAt = t.enqAt)
    (hflag : t'.flags.enqWakeup = t.flags.enqWakeup) : StampedAs pending t' := by
  cases pending with
  | none => exact hat.trans h
  | some x => exact ⟨hat.trans h.1, hflag.trans h.2⟩

/-- **The stamp after one exit of an enqueue.** -/
theorem Exits.stamped {m : Machine} {p : TaskStruct} {t : TaskCtx} {flags : EnqFlags}
    {now : U64} {r : EnqueueResult} (h : Exits m p t flags now r) {t' : TaskCtx}
    (ht : r.tctx = some t') {i : DsqInsert} (hi : r.insert = some i) :
    StampedAs (if i.dsq = .global then none else some (now, flags.wakeup)) t' := by
  have hins {placed : TaskCtx} {cpu : Nat} {insert : DsqInsert}
      (hins : InsertsFor m placed flags now cpu insert r) (hne : insert.dsq ≠ .global) :
      StampedAs (if i.dsq = .global then none else some (now, flags.wakeup)) t' := by
    obtain rfl := Option.some.inj (hins.insert.symm.trans hi)
    obtain ⟨u, hu, -, -, -, hat, hwakeup⟩ := hins.task
    obtain rfl := Option.some.inj (hu.symm.trans ht)
    rw [if_neg hne]
    exact ⟨hat, hwakeup⟩
  cases h with
  | noCpu route pinned cpu insert =>
      rw [insert] at hi
      cases hi
  | pinnedGlobal route pinned gauges tctx insert =>
      rw [insert] at hi
      rw [tctx] at ht
      cases hi
      cases ht
      exact rfl
  | pinnedIdle route pinned allowed inserts => exact hins inserts nofun
  | pinnedBusy route pinned allowed inserts => exact hins inserts nofun
  | fastPath route free idle inserts => exact hins inserts nofun
  | preempt route free slow wakeup stays allowed slice inserts => exact hins inserts nofun
  | regular route free slow inserts => exact hins inserts nofun

/-- The result of an enqueue of the run: inserted, and stamped for it. -/
theorem stepTask_enqueue_stamped {s s' : TaskState} {m : Machine} {p : TaskStruct}
    {flags : EnqFlags} {now : U64} (h : stepTask s (.enqueue m p flags now) = some s')
    (tr : List TaskEntry) :
    StampedAs (pendingInsert (⟨s, .enqueue m p flags now, s'⟩ :: tr)) s'.tctx := by
  obtain ⟨-, -, hplace⟩ := stepTask_enqueue h
  have hroute : (enqueueTask m p s.tctx flags now).route ≠ .error := by
    intro herr
    simp only [stepTask, herr, if_pos] at h
    split at h <;> cases h
  rcases enqueueTask_exits m p s.tctx flags now with ⟨-, heq⟩ | ⟨-, hexit⟩
  · rw [heq] at hroute
    exact absurd rfl hroute
  · have hinsert : ∃ i, (enqueueTask m p s.tctx flags now).insert = some i := by
      cases hexit with
      | noCpu route => exact absurd route hroute
      | pinnedGlobal route pinned gauges tctx insert => exact ⟨_, insert⟩
      | pinnedIdle route pinned allowed inserts => exact ⟨_, inserts.insert⟩
      | pinnedBusy route pinned allowed inserts => exact ⟨_, inserts.insert⟩
      | fastPath route free idle inserts => exact ⟨_, inserts.insert⟩
      | preempt route free slow wakeup stays allowed slice inserts =>
          exact ⟨_, inserts.insert⟩
      | regular route free slow inserts => exact ⟨_, inserts.insert⟩
    obtain ⟨i, hi⟩ := hinsert
    rw [pendingInsert, hi]
    exact hexit.stamped hplace.tctx hi

/-- One callback moves the stamp as the history says. -/
theorem StampedAs.step {tr : List TaskEntry} {s s' : TaskState} {e : TaskEvent}
    (h : StampedAs (pendingInsert tr) s.tctx) (hstep : stepTask s e = some s') :
    StampedAs (pendingInsert (⟨s, e, s'⟩ :: tr)) s'.tctx := by
  cases e with
  | reset p now =>
      obtain ⟨-, rfl⟩ := stepTask_reset hstep
      exact rfl
  | select m p prevCpu sync now =>
      obtain ⟨-, -, w, drm, ht⟩ := stepTask_select hstep
      refine h.congr ?_ ?_
      · rw [ht]
      · rw [ht]
  | enqueue m p flags now => exact stepTask_enqueue_stamped hstep tr
  | running m p now =>
      obtain ⟨-, rfl⟩ := stepTask_running hstep
      exact rfl
  | keep =>
      obtain ⟨-, rfl⟩ := stepTask_keep hstep
      exact rfl
  | steal m qid cpu =>
      obtain ⟨-, -, llc, q, ht⟩ := stepTask_steal hstep
      refine h.congr ?_ ?_
      · rw [ht]
      · rw [ht]
  | gpuSubmit now =>
      obtain ⟨-, rfl⟩ := stepTask_gpuSubmit hstep
      obtain ⟨at_, gpu, drm, hinc⟩ := mlfqGpuSubmitInc_frame s.tctx now
      refine h.congr ?_ ?_
      · rw [hinc]
      · rw [hinc]
  | stopping m p runnable now =>
      obtain ⟨-, rfl⟩ := stepTask_stopping hstep
      obtain ⟨burst, at_, mean, var, ratio, gpu, hstop⟩ :=
        mlfqStopping_frame m p s.tctx runnable now
      refine h.congr ?_ ?_
      · rw [hstop]
      · rw [hstop]
  | quiescent m =>
      obtain ⟨-, -, llc, q, ht⟩ := stepTask_quiescent hstep
      refine h.congr ?_ ?_
      · rw [ht]
      · rw [ht]

/-- **The stamp is the pending insert**, in every run. -/
theorem stampedAs_pendingInsert {tr : List TaskEntry} {s : TaskState} (h : TaskRun tr s) :
    StampedAs (pendingInsert tr) s.tctx := by
  refine h.invariant (I := fun tr s => StampedAs (pendingInsert tr) s.tctx) ?_ ?_
  · rintro s ⟨p, now, rfl⟩
    exact rfl
  · intro tr s e s' hpre hstep
    exact hpre.step hstep

/-- The pending insert is one of the timed events of the run. -/
theorem pendingInsert_mem {tr : List TaskEntry} {at_ : U64} {wakeup : Bool}
    (h : pendingInsert tr = some (at_, wakeup)) : at_ ∈ runTimes tr := by
  induction tr with
  | nil => cases h
  | cons x tr ih =>
      obtain ⟨s, e, s'⟩ := x
      have htail (hrec : pendingInsert tr = some (at_, wakeup)) :
          at_ ∈ runTimes (⟨s, e, s'⟩ :: tr) := by
        rw [runTimes, List.filterMap_cons]
        split
        · exact ih hrec
        · exact List.mem_cons_of_mem _ (ih hrec)
      cases e with
      | enqueue m p flags now =>
          rw [pendingInsert] at h
          split at h
          · exact htail h
          · split at h
            · cases h
            · cases h
              exact List.mem_cons_self
      | reset p now => cases h
      | running m p now => cases h
      | keep => cases h
      | select m p prevCpu sync now => exact htail h
      | steal m qid cpu => exact htail h
      | gpuSubmit now => exact htail h
      | stopping m p runnable now => exact htail h
      | quiescent m => exact htail h

/-! ## The measurement -/

/-- The wait from `at_` to `now`, saturated at 32 bits. -/
def waitNs (now at_ : U64) : Nat := min (now.toNat - at_.toNat) (2 ^ 32 - 1)

/-- The wakeup latency and its gauges are untouched. -/
structure KeepsLatency (m : Machine) (t : TaskCtx) (r : RunningResult) : Prop where
  latency : r.tctx.lastWakeLatNs = t.lastWakeLatNs
  sqEma : r.tctx.sqEma = t.sqEma
  total : r.machine.sysWaitTotal = m.sysWaitTotal
  count : r.machine.sysWaitCount = m.sysWaitCount

/-- The wakeup latency and its gauges take a wait of `wait`. -/
structure TakesLatency (m : Machine) (t : TaskCtx) (wait : Nat) (r : RunningResult) : Prop where
  latency : r.tctx.lastWakeLatNs = BitVec.ofNat 32 wait
  sqEma : r.tctx.sqEma = mlfqEmaClimb t.sqEma (BitVec.ofNat 64 wait) mlfqSqEmaMaxNs m.rod.alpha
  total : r.machine.sysWaitTotal = m.sysWaitTotal + BitVec.ofNat 64 wait
  count : r.machine.sysWaitCount = m.sysWaitCount + 1

/-- What a segment that starts at `now` measures of the pending insert. -/
def Measures (m : Machine) (t : TaskCtx) (now : U64) (r : RunningResult) :
    Option (U64 × Bool) → Prop
  | none => r.tctx.lastQWaitNs = t.lastQWaitNs ∧ KeepsLatency m t r
  | some (at_, wakeup) =>
      r.tctx.lastQWaitNs = BitVec.ofNat 32 (waitNs now at_) ∧
        if wakeup then TakesLatency m t (waitNs now at_) r else KeepsLatency m t r

/-- The saturated wait as the code computes it. -/
theorem waitNs_eq {now at_ : U64} (hle : at_.toNat ≤ now.toNat) :
    (if now - at_ > 0xFFFFFFFF then 0xFFFFFFFF else now - at_)
      = BitVec.ofNat 64 (waitNs now at_) := by
  have hsub : (now - at_).toNat = now.toNat - at_.toNat := BitVec.toNat_sub_of_le hle
  have hcap : (0xFFFFFFFF : U64).toNat = 2 ^ 32 - 1 := rfl
  have hnow := now.isLt
  apply BitVec.eq_of_toNat_eq
  rw [BitVec.toNat_ofNat, waitNs]
  split
  · rename_i hgt
    have hgt := BitVec.lt_def.mp hgt
    rw [hsub, hcap] at hgt
    rw [hcap]
    omega
  · rename_i hgt
    rw [gt_iff_lt, BitVec.lt_def, hsub, hcap] at hgt
    rw [hsub]
    omega

theorem waitNs_setWidth (now at_ : U64) :
    (BitVec.ofNat 64 (waitNs now at_)).setWidth 32 = BitVec.ofNat 32 (waitNs now at_) := by
  apply BitVec.eq_of_toNat_eq
  rw [BitVec.toNat_setWidth, BitVec.toNat_ofNat, BitVec.toNat_ofNat, waitNs]
  omega

/-- The task the measurement looks at. -/
def startedTask (m : Machine) (t : TaskCtx) (now : U64) : TaskCtx :=
  { (acquireOnRunning m t).2 with
    lastRunAt := now, flags := { (acquireOnRunning m t).2.flags with firstRun := false } }

theorem startedTask_frame (m : Machine) (t : TaskCtx) (now : U64) :
    (startedTask m t now).enqAt = t.enqAt ∧
    (startedTask m t now).flags.enqWakeup = t.flags.enqWakeup ∧
    (startedTask m t now).lastQWaitNs = t.lastQWaitNs ∧
    (startedTask m t now).lastWakeLatNs = t.lastWakeLatNs ∧
    (startedTask m t now).sqEma = t.sqEma := by
  obtain ⟨llc, qid, h⟩ := acquireOnRunning_frame m t
  rw [startedTask, h]
  exact ⟨rfl, rfl, rfl, rfl, rfl⟩

/-- The task of a start, by what its measurement returns. -/
theorem mlfqRunning_measured (m : Machine) (p : TaskStruct) (t : TaskCtx) (now : U64) :
    let waited := measureWait m.rod (startedTask m t now) now
    let r := mlfqRunning m p t now
    r.tctx.lastQWaitNs = waited.1.lastQWaitNs ∧
    r.tctx.lastWakeLatNs = waited.1.lastWakeLatNs ∧ r.tctx.sqEma = waited.1.sqEma :=
  ⟨rfl, rfl, rfl⟩

/-- The totals of a start, by what its measurement returns. -/
theorem mlfqRunning_totals (m : Machine) (p : TaskStruct) (t : TaskCtx) (now : U64) :
    let waited := (measureWait m.rod (startedTask m t now) now).2
    let r := mlfqRunning m p t now
    (waited = none → r.machine.sysWaitTotal = m.sysWaitTotal ∧
      r.machine.sysWaitCount = m.sysWaitCount) ∧
    ∀ wait, waited = some wait → r.machine.sysWaitTotal = m.sysWaitTotal + wait ∧
      r.machine.sysWaitCount = m.sysWaitCount + 1 := by
  intro waited r
  have hq1 (m : Machine) (cpu : Nat) (occupied : Bool) :
      (m.q1Set cpu occupied).sysWaitTotal = m.sysWaitTotal ∧
      (m.q1Set cpu occupied).sysWaitCount = m.sysWaitCount := by
    rw [Machine.q1Set]
    split <;> exact ⟨rfl, rfl⟩
  have hmachine : r.machine = startMachine m p t now := rfl
  have hwaited : (startSegment m t now).2 = waited := rfl
  rw [hmachine, startMachine, hwaited]
  constructor
  · intro hnone
    rw [hnone, Machine.addWait, (hq1 _ _ _).1, (hq1 _ _ _).2]
    exact ⟨rfl, rfl⟩
  · intro wait hsome
    rw [hsome, Machine.addWait]
    show Machine.sysWaitTotal _ + wait = _ ∧ Machine.sysWaitCount _ + 1 = _
    rw [(hq1 _ _ _).1, (hq1 _ _ _).2]
    exact ⟨rfl, rfl⟩

/-- A task without a stamp measures nothing. -/
theorem measureWait_none {rod : Rodata} {t : TaskCtx} (h : t.enqAt = 0) (now : U64) :
    measureWait rod t now = (t, none) := by
  rw [measureWait, if_neg]
  rintro ⟨hne, -⟩
  exact hne h

/-- **A segment that starts measures the pending insert**, and consumes
it: a run updates the queue wait exactly when an insert is pending, and
the wakeup latency and its gauges exactly when that was a wakeup. -/
theorem mlfqRunning_measures {tr : List TaskEntry} {s : TaskState} (h : TaskRun tr s)
    (m : Machine) (p : TaskStruct) (now : U64) (htimes : TimesUpTo now tr) :
    Measures m s.tctx now (mlfqRunning m p s.tctx now) (pendingInsert tr) ∧
    (mlfqRunning m p s.tctx now).tctx.enqAt = 0 ∧
    (mlfqRunning m p s.tctx now).tctx.flags.enqWakeup = false := by
  refine ⟨?_, rfl, rfl⟩
  have hstamp := stampedAs_pendingInsert h
  obtain ⟨hat, hflag, hqwait, hlatency, hsq⟩ := startedTask_frame m s.tctx now
  obtain ⟨hq, hlat, hema⟩ := mlfqRunning_measured m p s.tctx now
  obtain ⟨hkeeps, htakes⟩ := mlfqRunning_totals m p s.tctx now
  cases hpending : pendingInsert tr with
  | none =>
      rw [hpending] at hstamp
      rw [measureWait_none (hat.trans hstamp) now] at hq hlat hema hkeeps
      obtain ⟨htotal, hcount⟩ := hkeeps rfl
      exact ⟨hq.trans hqwait, hlat.trans hlatency, hema.trans hsq, htotal, hcount⟩
  | some x =>
      obtain ⟨at_, wakeup⟩ := x
      rw [hpending] at hstamp
      obtain ⟨hstamp, hwakeup⟩ := hstamp
      obtain ⟨hpos, hle, hspan⟩ :=
        (List.pairwise_cons.mp htimes).1 at_ (pendingInsert_mem hpending)
      -- the stamp is set and lies in the past
      have hdue : (startedTask m s.tctx now).enqAt ≠ 0 ∧
          mlfqTimeBefore now (startedTask m s.tctx now).enqAt = false := by
        rw [hat, hstamp]
        constructor
        · rintro rfl
          exact absurd hpos (Nat.lt_irrefl 0)
        · rw [mlfqTimeBefore_false_iff]
          exact Serial.not_before_of_toNat_le hle (by omega)
      have hwait := waitNs_eq hle
      rw [measureWait, if_pos hdue] at hq hlat hema hkeeps htakes
      simp only [hat, hstamp, hwait, hflag, hwakeup] at hq hlat hema hkeeps htakes
      cases wakeup with
      | true =>
          simp only [if_pos] at hq hlat hema htakes
          obtain ⟨htotal, hcount⟩ := htakes _ rfl
          refine ⟨hq.trans (waitNs_setWidth now at_), ?_⟩
          rw [if_pos rfl]
          exact ⟨hlat.trans (waitNs_setWidth now at_), by rw [hema, hsq], htotal, hcount⟩
      | false =>
          simp only [Bool.false_eq_true, if_false] at hq hlat hema hkeeps
          obtain ⟨htotal, hcount⟩ := hkeeps trivial
          refine ⟨hq.trans (waitNs_setWidth now at_), ?_⟩
          rw [if_neg Bool.false_ne_true]
          exact ⟨hlat.trans hlatency, hema.trans hsq, htotal, hcount⟩

/-- A wakeup at 2 ns that gets its CPU at 5 ns waited for 3 ns. -/
theorem mlfqRunning_measures_wakeup :
    ∃ tr s, TaskRun tr s ∧ pendingInsert tr = some (2, true) ∧
      Measures (Machine.zeroed {} 1).seed s.tctx 5
        (mlfqRunning (Machine.zeroed {} 1).seed { pid := 1 } s.tctx 5) (some (2, true)) := by
  obtain ⟨tr, s, h, hs⟩ : ∃ tr s, TaskRun tr s ∧ decide (TimesUpTo 5 tr
      ∧ pendingInsert tr = some (2, true)) = true :=
    exec_reaches stepTask (TaskState.initTask_fresh { pid := 1 } 1)
      [.enqueue (Machine.zeroed {} 1).seed { pid := 1 } { wakeup := true } 2]
      (fun tr _ => decide (TimesUpTo 5 tr ∧ pendingInsert tr = some (2, true))) (by decide)
  obtain ⟨htimes, hpending⟩ := of_decide_eq_true hs
  refine ⟨tr, s, h, hpending, ?_⟩
  rw [← hpending]
  exact (mlfqRunning_measures h _ { pid := 1 } 5 htimes).1

end ScxMlfq
