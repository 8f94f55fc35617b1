import ScxMlfq.Run.Task

/-!
# Run — Samples

The training samples of a task over whole runs. A classification enqueue
captures the features and the queue, the stop of the segment that
follows adds the label and emits the sample. A sample is sound when both
ends belong together: one capture, and the first segment after it. A
reset between the two would pair the features of one life with the burst
of the next, and `mlfq_reset_task_ctx` does not drop the pending block.
-/

namespace ScxMlfq

open Trace

/-! ## The two ends of a sample -/

/-- What a classification enqueue captures. -/
structure Capture where
  feats : TreeFeats
  queue : U32
deriving DecidableEq

/-- The task the capture of an enqueue leaves: what the classification
writes to the pending block, and before what it does to the queue. -/
def captureOn (m : Machine) (p : TaskStruct) (flags : EnqFlags) (tctx : TaskCtx) (now : U64) :
    TaskCtx :=
  if flags.wakeup then wakeupCaptured m p tctx now
  else if flags.isZero then capture p tctx 0 false
  else tctx

/-- The capture of a callback: an enqueue that classifies, of a task
that is not `SCHED_IDLE`. -/
def capturedBy (x : TaskEntry) : Option Capture :=
  match x.event with
  | .enqueue m p flags now =>
      if schedIdle p then none
      else if flags.wakeup then
        some
          { feats := captureFeats (chargeSleep m.rod x.pre.tctx now)
              (wakeupSleepNs x.pre.tctx now) (mlfqTaskIoWait p)
            queue := BitVec.ofNat 32 x.pre.tctx.queue.num }
      else if flags.isZero then
        some
          { feats := captureFeats x.pre.tctx 0 false
            queue := BitVec.ofNat 32 x.pre.tctx.queue.num }
      else none
  | _ => none

/-- The sample a callback emits. -/
def emittedBy (x : TaskEntry) : Option TreeSample :=
  match x.event with
  | .stopping m p runnable now => (mlfqStopping m p x.pre.tctx runnable now).sample
  | _ => none

/-- The length of the segment a callback ends. -/
def recordedBy (x : TaskEntry) : U64 :=
  match x.event with
  | .stopping _ _ _ now => segmentNs x.pre.tctx now
  | _ => 0

def TaskEvent.isReset : TaskEvent → Bool
  | .reset .. => true
  | _ => false

def TaskEvent.isStop : TaskEvent → Bool
  | .stopping .. => true
  | _ => false

/-- The task blocks. -/
def TaskEvent.blocks : TaskEvent → Bool
  | .stopping _ _ runnable _ => !runnable
  | _ => false

/-- The sample of the stop `x` pairs the capture `c` with the first
segment after it, `between` being the callbacks in between. -/
structure Pairs (smp : TreeSample) (x : TaskEntry) (between : List TaskEntry) (c : TaskEntry) :
    Prop where
  captured : capturedBy c = some ⟨smp.feats, smp.queue⟩
  latest : ∀ z ∈ between, capturedBy z = none
  noReset : ∀ z ∈ between, z.event.isReset = false
  first : ∀ z ∈ between, recordedBy z = 0
  recorded : recordedBy x ≠ 0
  label : smp.labelNs
    = if recordedBy x < mlfqTreeLabelMaxNs then recordedBy x else mlfqTreeLabelMaxNs
  blocks : x.event.blocks = true

/-- **Every sample of a run is sound**, and no capture serves two. The
position of a capture or a stop in the run is the number of callbacks
before it. -/
structure SamplesPair (tr : List TaskEntry) : Prop where
  pairs : ∀ later x earlier smp, tr = later ++ x :: earlier → emittedBy x = some smp →
    ∃ between c older, earlier = between ++ c :: older ∧ Pairs smp x between c
  once : ∀ later x between c older later' x' between' c' older' smp smp',
    tr = later ++ x :: (between ++ c :: older) → emittedBy x = some smp →
    Pairs smp x between c →
    tr = later' ++ x' :: (between' ++ c' :: older') → emittedBy x' = some smp' →
    Pairs smp' x' between' c' →
    older.length = older'.length → later.length = later'.length

/-! ## The pending block -/

/-- The pending block of `t'` is that of `t`. -/
structure SamePending (t t' : TaskCtx) : Prop where
  feats : t'.pendingFeats = t.pendingFeats
  queue : t'.pendingQueue = t.pendingQueue
  valid : t'.pendingValid = t.pendingValid

theorem SamePending.trans {t u v : TaskCtx} (h : SamePending t u) (k : SamePending u v) :
    SamePending t v :=
  ⟨k.feats.trans h.feats, k.queue.trans h.queue, k.valid.trans h.valid⟩

/-- Settling the queue leaves the pending block as the capture wrote
it. -/
theorem settleQueue_pending (m : Machine) (p : TaskStruct) (flags : EnqFlags) (t : TaskCtx)
    (now : U64) : SamePending (captureOn m p flags t now) (settleQueue m p flags t now).1 := by
  obtain ⟨q, at_, cnt, hset⟩ := settleQueue_frame m p flags t now
  have hclass : SamePending (captureOn m p flags t now) (enqueueClassify m p flags t now).1 := by
    rw [captureOn, enqueueClassify]
    by_cases hw : flags.wakeup = true
    · rw [if_pos hw, if_pos hw]
      obtain ⟨q', w, b, hwake⟩ := mlfqWakeupClassify_frame m p t now
      rw [hwake]
      exact ⟨rfl, rfl, rfl⟩
    · rw [if_neg hw, if_neg hw]
      by_cases hz : flags.isZero = true
      · rw [if_pos hz, if_pos hz]
        rcases mlfqRunoutClassify_cases m p t with ⟨-, hr⟩ | ⟨-, -, hr⟩ | ⟨-, -, hr⟩
        all_goals
          rw [hr]
          exact ⟨rfl, rfl, rfl⟩
      · rw [if_neg hz, if_neg hz]
        exact ⟨rfl, rfl, rfl⟩
  refine hclass.trans ?_
  rw [hset]
  exact ⟨rfl, rfl, rfl⟩

/-- No route touches the pending block. -/
theorem Routed.pending {t t' : TaskCtx} (h : Routed t t') : SamePending t t' := by
  rw [Routed] at h
  rw [h]
  exact ⟨rfl, rfl, rfl⟩

/-- What the capture leaves pending, if anything, is the capture. -/
theorem captureOn_pending {s s' : TaskState} {m : Machine} {p : TaskStruct} {flags : EnqFlags}
    {now : U64} :
    (capturedBy ⟨s, .enqueue m p flags now, s'⟩
        = some ⟨(captureOn m p flags (weighed p s.tctx) now).pendingFeats,
          (captureOn m p flags (weighed p s.tctx) now).pendingQueue⟩)
      ∨ (capturedBy ⟨s, .enqueue m p flags now, s'⟩ = none
        ∧ ((captureOn m p flags (weighed p s.tctx) now).pendingValid = 0
          ∨ SamePending s.tctx (captureOn m p flags (weighed p s.tctx) now))) := by
  simp only [capturedBy, captureOn]
  by_cases hidle : schedIdle p = true
  · right
    refine ⟨if_pos hidle, ?_⟩
    by_cases hw : flags.wakeup = true
    · left
      rw [if_pos hw, wakeupCaptured, capture, if_pos hidle]
    · rw [if_neg hw]
      by_cases hz : flags.isZero = true
      · left
        rw [if_pos hz, capture, if_pos hidle]
      · right
        rw [if_neg hz]
        exact ⟨rfl, rfl, rfl⟩
  · rw [if_neg hidle]
    by_cases hw : flags.wakeup = true
    · left
      rw [if_pos hw, if_pos hw, wakeupCaptured, capture, if_neg hidle]
      rfl
    · rw [if_neg hw, if_neg hw]
      by_cases hz : flags.isZero = true
      · left
        rw [if_pos hz, if_pos hz, capture, if_neg hidle]
        rfl
      · right
        rw [if_neg hz, if_neg hz]
        exact ⟨rfl, .inr ⟨rfl, rfl, rfl⟩⟩

/-- A quiet callback leaves the pending block. -/
theorem stepTask_quiet_pending {s s' : TaskState} {e : TaskEvent} (hq : e.quiet = true)
    (h : stepTask s e = some s') : SamePending s.tctx s'.tctx := by
  rw [stepTask_quiet_frame hq h]
  exact ⟨rfl, rfl, rfl⟩

/-! ## The open capture -/

/-- A callback that neither captures, nor ends a segment, nor resets. -/
structure Passes (x : TaskEntry) : Prop where
  captures : capturedBy x = none
  noReset : x.event.isReset = false
  noStop : x.event.isStop = false

theorem Passes.recorded {x : TaskEntry} (h : Passes x) : recordedBy x = 0 := by
  obtain ⟨pre, e, post⟩ := x
  cases e with
  | stopping m p runnable now => cases h.noStop
  | _ => rfl

theorem passes_of_quiet {s s' : TaskState} {e : TaskEvent} (h : e.quiet = true) :
    Passes ⟨s, e, s'⟩ := by
  cases e with
  | reset p now => cases h
  | enqueue m p flags now => cases h
  | stopping m p runnable now => cases h
  | _ => exact ⟨rfl, rfl, rfl⟩

/-- A pending sample is the latest capture of the run, and no segment
ended and no reset came since. -/
def OpenCapture (tr : List TaskEntry) (s : TaskState) : Prop :=
  s.tctx.pendingValid ≠ 0 →
    ∃ between c older, tr = between ++ c :: older
      ∧ capturedBy c = some ⟨s.tctx.pendingFeats, s.tctx.pendingQueue⟩
      ∧ ∀ z ∈ between, Passes z

theorem OpenCapture.of_clear {tr : List TaskEntry} {s : TaskState}
    (h : s.tctx.pendingValid = 0) : OpenCapture tr s :=
  fun hvalid => absurd h hvalid

/-- A callback that passes keeps the capture open. -/
theorem OpenCapture.passes {tr : List TaskEntry} {s s' : TaskState} {x : TaskEntry}
    (h : OpenCapture tr s) (hx : Passes x) (hsame : SamePending s.tctx s'.tctx) :
    OpenCapture (x :: tr) s' := by
  intro hvalid
  rw [hsame.valid] at hvalid
  obtain ⟨between, c, older, heq, hcap, hpass⟩ := h hvalid
  refine ⟨x :: between, c, older, ?_, ?_, ?_⟩
  · rw [heq, List.cons_append]
  · rw [hsame.feats, hsame.queue]
    exact hcap
  · intro z hz
    rcases List.mem_cons.mp hz with rfl | hz
    · exact hx
    · exact hpass z hz

/-- A reset finds no sample pending. -/
def resetsClean (x : TaskEntry) : Prop :=
  x.event.isReset = true → x.pre.tctx.pendingValid = 0

/-- **One callback keeps the account of the capture**, if a reset finds
nothing pending. -/
theorem OpenCapture.step {tr : List TaskEntry} {s s' : TaskState} {e : TaskEvent}
    (h : OpenCapture tr s) (hstep : stepTask s e = some s')
    (hclean : resetsClean ⟨s, e, s'⟩) : OpenCapture (⟨s, e, s'⟩ :: tr) s' := by
  rcases e.quiet_cases with hquiet | ⟨p, now, rfl⟩ | ⟨m, p, flags, now, rfl⟩
    | ⟨m, p, runnable, now, rfl⟩
  · exact h.passes (passes_of_quiet hquiet) (stepTask_quiet_pending hquiet hstep)
  · obtain ⟨-, rfl⟩ := stepTask_reset hstep
    have hclear : s.tctx.pendingValid = 0 := hclean rfl
    exact .of_clear hclear
  · obtain ⟨-, -, hplace⟩ := stepTask_enqueue hstep
    have hsame := (settleQueue_pending m p flags (weighed p s.tctx) now).trans
      hplace.routed.pending
    rcases @captureOn_pending s s' m p flags now with hcap | ⟨hnone, hclear | hkept⟩
    · intro _
      rw [hsame.feats, hsame.queue]
      exact ⟨[], _, tr, rfl, hcap, fun z hz => absurd hz List.not_mem_nil⟩
    · have hvalid := hsame.valid.trans hclear
      exact .of_clear hvalid
    · exact h.passes ⟨hnone, rfl, rfl⟩ (hkept.trans hsame)
  · obtain ⟨-, rfl⟩ := stepTask_stopping hstep
    obtain ⟨burst, at_, mean, var, ratio, gpu, hstop⟩ :=
      mlfqStopping_frame m p s.tctx runnable now
    apply OpenCapture.of_clear
    rw [hstop]

/-! ## The emission -/

/-- What a stop emits is the pending capture, with the segment as its
label, and only when the task blocks after a segment that ran. -/
theorem mlfqStopping_sample {m : Machine} {p : TaskStruct} {t : TaskCtx} {runnable : Bool}
    {now : U64} {smp : TreeSample} (h : (mlfqStopping m p t runnable now).sample = some smp) :
    runnable = false ∧ t.pendingValid ≠ 0 ∧ segmentNs t now ≠ 0
      ∧ smp = sampleOf p t (segmentNs t now) := by
  simp only [mlfqStopping, stopSegment] at h
  split at h
  · rename_i hdelta
    rw [emitSample] at h
    split at h
    · rename_i hdue
      simp only at h
      split at h
      · cases h
      · refine ⟨hdue.1, hdue.2.1, hdelta, ?_⟩
        exact (Option.some.inj h).symm
    · cases h
  · cases h

/-- The account of a run: the capture that is open, and the samples
emitted so far. -/
structure Sound (tr : List TaskEntry) (s : TaskState) : Prop where
  openCapture : OpenCapture tr s
  pairs : ∀ later x earlier smp, tr = later ++ x :: earlier → emittedBy x = some smp →
    ∃ between c older, earlier = between ++ c :: older ∧ Pairs smp x between c

theorem Sound.step {tr : List TaskEntry} {s s' : TaskState} {e : TaskEvent}
    (h : Sound tr s) (hstep : stepTask s e = some s') (hclean : resetsClean ⟨s, e, s'⟩) :
    Sound (⟨s, e, s'⟩ :: tr) s' := by
  refine ⟨h.openCapture.step hstep hclean, ?_⟩
  intro later x earlier smp heq hemit
  cases later with
  | cons y later =>
      obtain ⟨-, htail⟩ := List.cons.inj heq
      exact h.pairs later x earlier smp htail hemit
  | nil =>
      obtain ⟨rfl, rfl⟩ := List.cons.inj heq
      cases e with
      | stopping m p runnable now =>
          obtain ⟨hblock, hvalid, hdelta, rfl⟩ := mlfqStopping_sample hemit
          obtain ⟨between, c, older, htr, hcap, hpass⟩ := h.openCapture hvalid
          subst hblock
          exact ⟨between, c, older, htr, hcap, fun z hz => (hpass z hz).captures,
            fun z hz => (hpass z hz).noReset, fun z hz => (hpass z hz).recorded, hdelta, rfl,
            rfl⟩
      | _ => cases hemit

/-- **A capture is paired once.** Of two stops that pair the same
capture, the later one would find the earlier one in between. -/
theorem Pairs.later_eq {tr later later' between between' older older' : List TaskEntry}
    {x x' c c' : TaskEntry} {smp smp' : TreeSample}
    (htr : tr = later ++ x :: (between ++ c :: older)) (hpair : Pairs smp x between c)
    (htr' : tr = later' ++ x' :: (between' ++ c' :: older')) (hpair' : Pairs smp' x' between' c')
    (hlen : older.length = older'.length) : later.length = later'.length := by
  have hsplit : (later ++ x :: between) ++ c :: older
      = (later' ++ x' :: between') ++ c' :: older' := by
    rw [List.append_assoc, List.append_assoc, List.cons_append, List.cons_append, ← htr, ← htr']
  have hfront : later ++ x :: between = later' ++ x' :: between' := by
    refine (List.append_inj' hsplit ?_).1
    rw [List.length_cons, List.length_cons, hlen]
  rcases List.append_eq_append_iff.mp hfront with ⟨more, hmore, htail⟩ | ⟨more, hmore, htail⟩
  · cases more with
    | nil => rw [hmore, List.append_nil]
    | cons y more =>
        obtain ⟨-, hbetween⟩ := List.cons.inj htail
        have hmem : x' ∈ between := by
          rw [hbetween]
          exact List.mem_append_right _ List.mem_cons_self
        exact absurd (hpair.first x' hmem) hpair'.recorded
  · cases more with
    | nil => rw [hmore, List.append_nil]
    | cons y more =>
        obtain ⟨-, hbetween⟩ := List.cons.inj htail
        have hmem : x ∈ between' := by
          rw [hbetween]
          exact List.mem_append_right _ List.mem_cons_self
        exact absurd (hpair'.first x hmem) hpair.recorded

/-- **Training samples pair the features with their own burst**, in every
run whose resets find no sample pending: each emitted sample is of the
latest capture and the first segment after it, with no reset in between,
and no capture is emitted twice. -/
theorem samples_pair {tr : List TaskEntry} {s : TaskState} (h : TaskRun tr s)
    (hclean : ∀ x ∈ tr, resetsClean x) : SamplesPair tr := by
  have hsound : Sound tr s := by
    refine h.invariant_where (C := resetsClean) (I := Sound) ?_ ?_ hclean
    · rintro s ⟨p, now, rfl⟩
      refine ⟨.of_clear rfl, ?_⟩
      intro later x earlier smp heq
      simp at heq
    · intro tr s e s' hpre hstep hx
      exact hpre.step hstep hx
  refine ⟨hsound.pairs, ?_⟩
  intro later x between c older later' x' between' c' older' smp smp' htr _ hpair htr' _ hpair'
  exact Pairs.later_eq htr hpair htr' hpair'

/-- A wakeup, a segment of 1 ms and the block. -/
theorem samples_pair_wakeup :
    ∃ tr s, TaskRun tr s ∧ tr.any (fun x => (emittedBy x).isSome) = true ∧ SamplesPair tr := by
  obtain ⟨tr, s, h, hs⟩ : ∃ tr s, TaskRun tr s ∧ (tr.any (fun x => (emittedBy x).isSome)
      && tr.all fun x => !x.event.isReset) = true :=
    exec_reaches stepTask (TaskState.initTask_fresh { pid := 1 } 1)
      [.enqueue (Machine.zeroed {} 1).seed { pid := 1 } { wakeup := true } 50000000,
        .running (Machine.zeroed {} 1).seed { pid := 1 } 50000001,
        .stopping (Machine.zeroed {} 1).seed { pid := 1 } false 51000001]
      (fun tr _ => tr.any (fun x => (emittedBy x).isSome) && tr.all fun x => !x.event.isReset)
      (by decide)
  rw [Bool.and_eq_true, List.all_eq_true] at hs
  refine ⟨tr, s, h, hs.1, samples_pair h ?_⟩
  intro x hx hreset
  have hno := hs.2 x hx
  rw [hreset] at hno
  cases hno

/-! ## The stale sample -/

/-- Whether the next stop finds a capture of its own. -/
def captureOpen : List TaskEntry → Bool
  | [] => false
  | x :: tr => (capturedBy x).isSome
      || !x.event.isReset && decide (recordedBy x = 0) && captureOpen tr

theorem Pairs.captureOpen_eq {smp : TreeSample} {x c : TaskEntry} {between : List TaskEntry}
    (h : Pairs smp x between c) (older : List TaskEntry) :
    captureOpen (between ++ c :: older) = true := by
  have hgen (mid : List TaskEntry) (hreset : ∀ z ∈ mid, z.event.isReset = false)
      (hfirst : ∀ z ∈ mid, recordedBy z = 0) : captureOpen (mid ++ c :: older) = true := by
    induction mid with
    | nil => simp [captureOpen, h.captured]
    | cons z mid ih =>
        have hrest := ih (fun y hy => hreset y (List.mem_cons_of_mem z hy))
          fun y hy => hfirst y (List.mem_cons_of_mem z hy)
        simp [captureOpen, hreset z List.mem_cons_self, hfirst z List.mem_cons_self, hrest]
  exact hgen between h.noReset h.first

/-- A task captured at its wakeup leaves the class before it runs, comes
back through `mlfq_enable`, and blocks after its first segment: the
sample has the features of the wakeup. -/
theorem samples_pair_stale : ¬ ∀ tr s, TaskRun tr s → SamplesPair tr := by
  intro hclaim
  obtain ⟨tr, s, h, hs⟩ := exec_reaches stepTask (TaskState.initTask_fresh { pid := 1 } 1)
    [.enqueue (Machine.zeroed {} 1).seed { pid := 1 } { wakeup := true } 50000000,
      .quiescent (Machine.zeroed {} 1).seed,
      .reset { pid := 1 } 60000000,
      .enqueue (Machine.zeroed {} 1).seed { pid := 1 } { other := true } 70000000,
      .running (Machine.zeroed {} 1).seed { pid := 1 } 70000001,
      .stopping (Machine.zeroed {} 1).seed { pid := 1 } false 71000001]
    (fun tr _ => match tr with
      | [] => false
      | x :: earlier => (emittedBy x).isSome && !captureOpen earlier) (by decide)
  cases tr with
  | nil => cases hs
  | cons x earlier =>
      rw [Bool.and_eq_true, Option.isSome_iff_exists, Bool.not_eq_true'] at hs
      obtain ⟨⟨smp, hemit⟩, hclosed⟩ := hs
      obtain ⟨between, c, older, hsplit, hpair⟩ :=
        (hclaim _ s h).pairs [] x earlier smp rfl hemit
      rw [hsplit, hpair.captureOpen_eq older] at hclosed
      cases hclosed

end ScxMlfq
