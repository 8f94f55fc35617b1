import ScxMlfq.Intf.Vtime
import Mathlib.Logic.Function.Basic

/-!
# Run — Epoch

Two runs of the same virtual-time operations, one with every clock and
every vruntime moved by a constant. The order of the words does not see
where the circle starts, and neither does anything computed from their
differences, so the runs stay a constant apart. One thing does see it: a
deadline that falls on zero is stored as one.
-/

namespace ScxMlfq

variable {ι : Type*} [DecidableEq ι]

/-- The queues and the tasks, as far as virtual time goes. -/
structure VirtualTime (ι : Type*) where
  queues : Queue → QueueCtx
  tasks : ι → TaskCtx

/-- The operations on virtual time, and the changes of what they read:
the weight and the FIRST_RUN flag of a task, the slice of a queue. -/
inductive VtEvent (ι : Type*) where
  | setTask (i : ι) (weight : U32) (firstRun : Bool)
  | setSlice (q : Queue) (maxSliceNs : U64)
  | advance (q : Queue) (i : ι)
  | place (q : Queue) (i : ι)
  | charge (i : ι) (deltaNs : U64)

namespace VirtualTime

def setQueue (s : VirtualTime ι) (q : Queue) (x : QueueCtx) : VirtualTime ι :=
  { s with queues := Function.update s.queues q x }

def setTask (s : VirtualTime ι) (i : ι) (t : TaskCtx) : VirtualTime ι :=
  { s with tasks := Function.update s.tasks i t }

/-- One operation. -/
def step (s : VirtualTime ι) : VtEvent ι → VirtualTime ι
  | .setTask i weight firstRun =>
      let t := s.tasks i
      s.setTask i { t with
        weight := weight
        flags := { t.flags with firstRun := firstRun } }
  | .setSlice q maxSliceNs => s.setQueue q { s.queues q with maxSliceNs := maxSliceNs }
  | .advance q i => s.setQueue q (mlfqQueueAdvanceClock (s.queues q) (s.tasks i).vruntime)
  | .place q i => s.setTask i (mlfqPlaceEntity (s.queues q) (s.tasks i))
  | .charge i deltaNs => s.setTask i (mlfqUpdateVruntime (s.tasks i) deltaNs)

/-- The operations in turn. -/
def run (s : VirtualTime ι) (es : List (VtEvent ι)) : VirtualTime ι :=
  es.foldl step s

/-- Every clock and every vruntime moved by `c`. -/
def translate (c : U64) (s : VirtualTime ι) : VirtualTime ι where
  queues q := { s.queues q with clock := (s.queues q).clock + c }
  tasks i := { s.tasks i with vruntime := (s.tasks i).vruntime + c }

end VirtualTime

/-- A word of virtual time: the clock of a queue or the vruntime of a
task. -/
inductive Reading (ι : Type*) where
  | clock (q : Queue)
  | vruntime (i : ι)

def Reading.of (s : VirtualTime ι) : Reading ι → U64
  | .clock q => (s.queues q).clock
  | .vruntime i => (s.tasks i).vruntime

/-! ## The deadline and its sentinel -/

/-- The sum a placement forms for the deadline. -/
def rawDeadline (q : QueueCtx) (t : TaskCtx) : U64 :=
  q.clock - placementLag q t + placementVslice q t

/-- The deadline stored for a sum. -/
def offSentinel (raw : U64) : U64 := if raw = 0 then 1 else raw

theorem mlfqPlaceEntityDeadline_eq (q : QueueCtx) (t : TaskCtx) :
    mlfqPlaceEntityDeadline q t = offSentinel (rawDeadline q t) := rfl

/-- Away from the sentinel the stored deadlines are as far apart as the
sums. -/
theorem offSentinel_add {raw c : U64} (h : raw ≠ 0) (hc : raw + c ≠ 0) :
    offSentinel (raw + c) = offSentinel raw + c := by
  rw [offSentinel, if_neg hc, offSentinel, if_neg h]

/-! ## One operation on translated words -/

section Operations

variable {q q' : QueueCtx} {t t' : TaskCtx} {c : U64}

/-- The queue with its clock moved by `c`. -/
def QueueShifted (c : U64) (q q' : QueueCtx) : Prop :=
  q' = { q with clock := q.clock + c }

/-- The task with its vruntime moved by `c`, and some deadline. -/
def TaskShifted (c : U64) (t t' : TaskCtx) : Prop :=
  ∃ d, t' = { t with vruntime := t.vruntime + c, deadline := d }

theorem mlfqTimeBefore_translate (a b c : U64) :
    mlfqTimeBefore (a + c) (b + c) = mlfqTimeBefore a b := by
  rw [Bool.eq_iff_iff, mlfqTimeBefore_iff, mlfqTimeBefore_iff, Serial.before_translate]

theorem QueueShifted.advance (h : QueueShifted c q q') (v : U64) :
    QueueShifted c (mlfqQueueAdvanceClock q v) (mlfqQueueAdvanceClock q' (v + c)) := by
  subst h
  rw [QueueShifted, mlfqQueueAdvanceClock, mlfqQueueAdvanceClock, mlfqTimeBefore_translate]
  split <;> rfl

/-- The lag is a difference of two moved words. -/
theorem placementLag_translate (hq : QueueShifted c q q') (ht : TaskShifted c t t') :
    placementLag q' t' = placementLag q t := by
  obtain ⟨d, rfl⟩ := ht
  subst hq
  have hlag : clockLag { q with clock := q.clock + c }
      { t with vruntime := t.vruntime + c, deadline := d } = clockLag q t := by
    simp only [clockLag, mlfqTimeBefore_translate, add_sub_add_right_eq_sub]
  rw [placementLag, placementLag, hlag]
  rfl

theorem placementVslice_translate (hq : QueueShifted c q q') (ht : TaskShifted c t t') :
    placementVslice q' t' = placementVslice q t := by
  obtain ⟨d, rfl⟩ := ht
  subst hq
  rfl

theorem placedVruntime_translate (hq : QueueShifted c q q') (ht : TaskShifted c t t') :
    q'.clock - placementLag q' t' = q.clock - placementLag q t + c := by
  have hclock : q'.clock = q.clock + c := by rw [hq]
  rw [placementLag_translate hq ht, hclock, add_sub_right_comm]

/-- **The sums are exactly `c` apart.** -/
theorem rawDeadline_translate (hq : QueueShifted c q q') (ht : TaskShifted c t t') :
    rawDeadline q' t' = rawDeadline q t + c := by
  rw [rawDeadline, rawDeadline, placedVruntime_translate hq ht,
    placementVslice_translate hq ht, add_right_comm]

theorem TaskShifted.place (hq : QueueShifted c q q') (ht : TaskShifted c t t') :
    TaskShifted c (mlfqPlaceEntity q t) (mlfqPlaceEntity q' t') := by
  have hv := placedVruntime_translate hq ht
  have hlag := placementLag_translate hq ht
  refine ⟨mlfqPlaceEntityDeadline q' t', ?_⟩
  rw [mlfqPlaceEntity, hv, hlag]
  obtain ⟨d, rfl⟩ := ht
  rfl

theorem TaskShifted.charge (h : TaskShifted c t t') (deltaNs : U64) :
    TaskShifted c (mlfqUpdateVruntime t deltaNs) (mlfqUpdateVruntime t' deltaNs) := by
  obtain ⟨d, rfl⟩ := h
  refine ⟨d, ?_⟩
  simp only [mlfqUpdateVruntime]
  rw [add_right_comm]

theorem TaskShifted.configure (h : TaskShifted c t t') (weight : U32) (firstRun : Bool) :
    TaskShifted c { t with weight := weight, flags := { t.flags with firstRun := firstRun } }
      { t' with weight := weight, flags := { t'.flags with firstRun := firstRun } } := by
  obtain ⟨d, rfl⟩ := h
  exact ⟨d, rfl⟩

end Operations

/-! ## The two runs -/

/-- The second state is the first one moved by `c`, deadlines apart. -/
structure Shifted (c : U64) (s s' : VirtualTime ι) : Prop where
  queue : ∀ q, QueueShifted c (s.queues q) (s'.queues q)
  task : ∀ i, TaskShifted c (s.tasks i) (s'.tasks i)

/-- Two deadlines of one placement: one sum and its translate, each moved
off the sentinel. -/
def DeadlineShifted (c d d' : U64) : Prop :=
  ∃ raw, d = offSentinel raw ∧ d' = offSentinel (raw + c)

section Runs

variable {c : U64} {s s' : VirtualTime ι}

omit [DecidableEq ι] in
theorem Shifted.translate (c : U64) (s : VirtualTime ι) : Shifted c s (s.translate c) :=
  ⟨fun _ => rfl, fun i => ⟨(s.tasks i).deadline, rfl⟩⟩

omit [DecidableEq ι] in
theorem Shifted.setQueue (h : Shifted c s s') (q : Queue) {x x' : QueueCtx}
    (hx : QueueShifted c x x') : Shifted c (s.setQueue q x) (s'.setQueue q x') := by
  refine ⟨?_, h.task⟩
  intro r
  by_cases hr : r = q
  · subst hr
    simpa [VirtualTime.setQueue] using hx
  · simpa [VirtualTime.setQueue, hr] using h.queue r

theorem Shifted.setTask (h : Shifted c s s') (i : ι) {t t' : TaskCtx}
    (ht : TaskShifted c t t') : Shifted c (s.setTask i t) (s'.setTask i t') := by
  refine ⟨h.queue, ?_⟩
  intro j
  by_cases hj : j = i
  · subst hj
    simpa [VirtualTime.setTask] using ht
  · simpa [VirtualTime.setTask, hj] using h.task j

/-- **One operation keeps the distance.** -/
theorem Shifted.step (h : Shifted c s s') (e : VtEvent ι) : Shifted c (s.step e) (s'.step e) := by
  cases e with
  | setTask i weight firstRun => exact h.setTask i ((h.task i).configure weight firstRun)
  | setSlice q maxSliceNs =>
      have hq := h.queue q
      apply h.setQueue q
      rw [QueueShifted] at hq ⊢
      rw [hq]
  | advance q i =>
      obtain ⟨d, hi⟩ := h.task i
      have hv : (s'.tasks i).vruntime = (s.tasks i).vruntime + c := by rw [hi]
      simp only [VirtualTime.step, hv]
      exact h.setQueue q ((h.queue q).advance _)
  | place q i => exact h.setTask i (TaskShifted.place (h.queue q) (h.task i))
  | charge i deltaNs => exact h.setTask i ((h.task i).charge deltaNs)

theorem Shifted.run (h : Shifted c s s') (es : List (VtEvent ι)) :
    Shifted c (s.run es) (s'.run es) := by
  induction es generalizing s s' with
  | nil => exact h
  | cons e es ih => exact ih (h.step e)

/-- A placement stores the two sums; every other operation keeps the
deadlines. -/
theorem Shifted.deadline_step (h : Shifted c s s') {placed : ι → Prop}
    (hd : ∀ i, placed i → DeadlineShifted c (s.tasks i).deadline (s'.tasks i).deadline)
    (e : VtEvent ι) (i : ι) (hi : placed i ∨ ∃ q, e = .place q i) :
    DeadlineShifted c ((s.step e).tasks i).deadline ((s'.step e).tasks i).deadline := by
  by_cases hplace : ∃ q, e = .place q i
  · obtain ⟨q, rfl⟩ := hplace
    refine ⟨rawDeadline (s.queues q) (s.tasks i), ?_, ?_⟩
    · simp [VirtualTime.step, VirtualTime.setTask, mlfqPlaceEntityDeadline_eq]
    · rw [← rawDeadline_translate (h.queue q) (h.task i)]
      simp [VirtualTime.step, VirtualTime.setTask, mlfqPlaceEntityDeadline_eq]
  · have hkept := hd i (hi.resolve_right hplace)
    cases e with
    | setTask j weight firstRun =>
        by_cases hj : i = j
        · subst hj
          simpa [VirtualTime.step, VirtualTime.setTask] using hkept
        · simpa [VirtualTime.step, VirtualTime.setTask, hj] using hkept
    | setSlice q maxSliceNs => exact hkept
    | advance q j => exact hkept
    | place q j =>
        have hj : i ≠ j := by
          rintro rfl
          exact hplace ⟨q, rfl⟩
        simpa [VirtualTime.step, VirtualTime.setTask, hj] using hkept
    | charge j deltaNs =>
        by_cases hj : i = j
        · subst hj
          simpa [VirtualTime.step, VirtualTime.setTask, mlfqUpdateVruntime] using hkept
        · simpa [VirtualTime.step, VirtualTime.setTask, hj] using hkept

theorem Shifted.deadlines (h : Shifted c s s') {placed : ι → Prop}
    (hd : ∀ i, placed i → DeadlineShifted c (s.tasks i).deadline (s'.tasks i).deadline)
    (es : List (VtEvent ι)) (i : ι) (hi : placed i ∨ ∃ q, .place q i ∈ es) :
    DeadlineShifted c ((s.run es).tasks i).deadline ((s'.run es).tasks i).deadline := by
  induction es generalizing s s' placed with
  | nil =>
      rcases hi with hi | ⟨q, hq⟩
      · exact hd i hi
      · cases hq
  | cons e es ih =>
      apply ih (h.step e) (h.deadline_step hd e)
      rcases hi with hi | ⟨q, hq⟩
      · exact .inl (.inl hi)
      · rcases List.mem_cons.mp hq with heq | hmem
        · exact .inl (.inr ⟨q, heq.symm⟩)
        · exact .inr ⟨q, hmem⟩

omit [DecidableEq ι] in
/-- Every word of virtual time is moved by `c`. -/
theorem Shifted.reading (h : Shifted c s s') (r : Reading ι) : r.of s' = r.of s + c := by
  cases r with
  | clock q =>
      have hq := h.queue q
      rw [QueueShifted] at hq
      rw [Reading.of, Reading.of, hq]
  | vruntime i =>
      obtain ⟨d, hi⟩ := h.task i
      rw [Reading.of, Reading.of, hi]

/-- **The epoch is unobservable.** After any operations the two runs have
equal vlags, and clocks and vruntimes exactly `c` apart, on which every
comparison comes out the same. So do the sums of any next placement lie
`c` apart, and the deadlines of every task placed so far, except where
one of its two sums was zero and was stored as one. -/
theorem epoch_unobservable (c : U64) (s : VirtualTime ι) (es : List (VtEvent ι)) :
    (∀ r : Reading ι, r.of ((s.translate c).run es) = r.of (s.run es) + c)
      ∧ (∀ i, (((s.translate c).run es).tasks i).vlag = ((s.run es).tasks i).vlag)
      ∧ (∀ r r' : Reading ι,
          mlfqTimeBefore (r.of ((s.translate c).run es)) (r'.of ((s.translate c).run es))
            = mlfqTimeBefore (r.of (s.run es)) (r'.of (s.run es)))
      ∧ (∀ q i, rawDeadline (((s.translate c).run es).queues q) (((s.translate c).run es).tasks i)
          = rawDeadline ((s.run es).queues q) ((s.run es).tasks i) + c)
      ∧ ∀ i, (∃ q, .place q i ∈ es) → ∃ raw : U64,
          ((s.run es).tasks i).deadline = offSentinel raw
          ∧ (((s.translate c).run es).tasks i).deadline = offSentinel (raw + c)
          ∧ (raw ≠ 0 → raw + c ≠ 0 →
              (((s.translate c).run es).tasks i).deadline
                = ((s.run es).tasks i).deadline + c) := by
  have hstart := Shifted.translate c s
  have hrun := hstart.run es
  refine ⟨hrun.reading, ?_, ?_, ?_, ?_⟩
  · intro i
    obtain ⟨d, hi⟩ := hrun.task i
    rw [hi]
  · intro r r'
    rw [hrun.reading, hrun.reading, mlfqTimeBefore_translate]
  · intro q i
    exact rawDeadline_translate (hrun.queue q) (hrun.task i)
  · intro i hi
    have hnone : ∀ j, False →
        DeadlineShifted c (s.tasks j).deadline ((s.translate c).tasks j).deadline :=
      fun _ hno => hno.elim
    obtain ⟨raw, hd, hd'⟩ := hstart.deadlines hnone es i (.inr hi)
    refine ⟨raw, hd, hd', ?_⟩
    intro hraw hmoved
    rw [hd, hd', offSentinel_add hraw hmoved]

end Runs

end ScxMlfq
