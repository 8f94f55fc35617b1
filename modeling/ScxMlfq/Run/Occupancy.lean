import ScxMlfq.Bpf.Init
import ScxMlfq.Bpf.Lifecycle
import ScxMlfq.Lib.Trace

/-!
# Run — Occupancy

The occupancy slots of the CPUs under the callbacks that write them: the
two ends of a run segment, the exit of a task and the release of a CPU.
Three of the four write the slot of a CPU on behalf of what runs there.
The exit writes the slot of the CPU the dead task ran on last, where by
then another task may run.
-/

namespace ScxMlfq

open Trace

variable {ι : Type*} [DecidableEq ι]

/-- The task storage, the slots, and what each CPU runs: the task between
its `mlfq_running` and its `mlfq_stopping`, with the queue it had at the
first, none for a task without a context. -/
structure OccState (ι : Type*) where
  tasks : ι → Option TaskCtx
  occupancy : Nat → Bool
  running : Nat → Option (ι × Option Queue)

/-- The callbacks that reach the slots, and any other callback of a task
as the context it leaves. -/
inductive OccEvent (ι : Type*) where
  | running (m : Machine) (cpu : Nat) (i : ι) (p : TaskStruct) (now : U64)
  | stopping (m : Machine) (cpu : Nat) (i : ι) (p : TaskStruct) (runnable : Bool) (now : U64)
  | exitTask (m : Machine) (i : ι) (p : TaskStruct)
  | cpuRelease (m : Machine) (cpu : Nat)
  | other (i : ι) (tctx : TaskCtx)

/-- The machine a callback on `cpu` finds. -/
def OccState.seen (s : OccState ι) (m : Machine) (cpu : Nat) : Machine :=
  { m with
    cpu := cpu
    q1Occupancy := s.occupancy }

/-- The task runs on the CPU. -/
def OccState.onCpu (s : OccState ι) (cpu : Nat) (i : ι) : Bool :=
  decide ((s.running cpu).map Prod.fst = some i)

/-- One callback. A CPU that runs nothing starts a task that runs
nowhere, and stops the one it runs; a task exits when it runs nowhere,
and a CPU is released when it runs nothing. -/
def stepOcc (nrCpuIds : Nat) (s : OccState ι) : OccEvent ι → Option (OccState ι)
  | .running m cpu i p now =>
      if cpu < nrCpuIds ∧ s.running cpu = none ∧ ∀ c < nrCpuIds, s.onCpu c i = false then
        match s.tasks i with
        | none => some { s with running := Function.update s.running cpu (some (i, none)) }
        | some t =>
            let r := mlfqRunning (s.seen m cpu) p t now
            some
              { tasks := Function.update s.tasks i (some r.tctx)
                occupancy := r.machine.q1Occupancy
                running := Function.update s.running cpu (some (i, some t.queue)) }
      else none
  | .stopping m cpu i p runnable now =>
      if cpu < nrCpuIds ∧ s.onCpu cpu i = true then
        match s.tasks i with
        | none => some { s with running := Function.update s.running cpu none }
        | some t =>
            let r := mlfqStopping (s.seen m cpu) p t runnable now
            some
              { tasks := Function.update s.tasks i (some r.tctx)
                occupancy := r.machine.q1Occupancy
                running := Function.update s.running cpu none }
      else none
  | .exitTask m i p =>
      if ∀ c < nrCpuIds, s.onCpu c i = false then
        let r := mlfqExitTask (s.seen m m.cpu) p (s.tasks i)
        some { s with tasks := Function.update s.tasks i r.2, occupancy := r.1.q1Occupancy }
      else none
  | .cpuRelease m cpu =>
      if cpu < nrCpuIds ∧ s.running cpu = none then
        some { s with occupancy := (mlfqCpuRelease (s.seen m m.cpu) cpu).q1Occupancy }
      else none
  | .other i tctx => some { s with tasks := Function.update s.tasks i (some tctx) }

/-- The zeroed slots, with no CPU running a task. -/
def OccStart (s : OccState ι) : Prop :=
  s.occupancy = (fun _ => false) ∧ s.running = fun _ => none

/-- The runs of the callbacks. -/
abbrev OccRun (nrCpuIds : Nat) : List (Entry (OccState ι) (OccEvent ι)) → OccState ι → Prop :=
  Run (fun s e s' => stepOcc nrCpuIds s e = some s') OccStart

/-- The task on the CPU was in the first queue when it started. -/
def OccState.RunsQ1 (s : OccState ι) (cpu : Nat) : Prop :=
  ∃ i, s.running cpu = some (i, some .q1)

/-- **The slots are exact**: a slot is set exactly while its CPU runs a
task of the first queue. -/
def OccExact (s : OccState ι) : Prop :=
  ∀ cpu, s.occupancy cpu = true ↔ s.RunsQ1 cpu

/-- An exit of a task of the first queue whose last CPU runs no task of
the first queue; every other callback. -/
def SparesRunning (x : Entry (OccState ι) (OccEvent ι)) : Prop :=
  ∀ m i p t, x.event = .exitTask m i p → x.pre.tasks i = some t → t.queue = .q1 →
    0 ≤ p.cpu → ¬ x.pre.RunsQ1 p.cpu.toNat

/-! ## What the callbacks write -/

theorem Machine.q1Set_q1Occupancy {m : Machine} {cpu : Nat} (h : cpu < mlfqMaxCpus)
    (occupied : Bool) :
    (m.q1Set cpu occupied).q1Occupancy = Function.update m.q1Occupancy cpu occupied := by
  rw [Machine.q1Set, if_neg (Nat.not_le.mpr h)]

theorem Machine.addWait_q1Occupancy (m : Machine) (wait : Option U64) :
    (m.addWait wait).q1Occupancy = m.q1Occupancy := by
  cases wait <;> rfl

theorem mlfqRunning_q1Occupancy {m : Machine} (h : m.cpu < mlfqMaxCpus) (p : TaskStruct)
    (t : TaskCtx) (now : U64) :
    (mlfqRunning m p t now).machine.q1Occupancy
      = Function.update m.q1Occupancy m.cpu (decide (t.queue = .q1)) := by
  show (startMachine m p t now).q1Occupancy = _
  rw [startMachine, Machine.addWait_q1Occupancy]
  exact Machine.q1Set_q1Occupancy h _

theorem emitSample_q1Occupancy (m : Machine) (p : TaskStruct) (t : TaskCtx) (runnable : Bool)
    (now delta : U64) :
    (emitSample m p t runnable now delta).1.q1Occupancy = m.q1Occupancy
      ∧ (emitSample m p t runnable now delta).1.cpu = m.cpu := by
  rw [emitSample]
  split
  · simp only
    split <;> exact ⟨rfl, rfl⟩
  · exact ⟨rfl, rfl⟩

/-- The charge of a segment leaves the slots. -/
theorem stopSegment_q1Occupancy (m : Machine) (p : TaskStruct) (t : TaskCtx) (runnable : Bool)
    (now : U64) :
    (stopSegment m p t runnable now).1.q1Occupancy = m.q1Occupancy
      ∧ (stopSegment m p t runnable now).1.cpu = m.cpu := by
  rw [stopSegment]
  split
  · exact emitSample_q1Occupancy ..
  · exact ⟨rfl, rfl⟩

theorem mlfqStopping_q1Occupancy {m : Machine} (h : m.cpu < mlfqMaxCpus) (p : TaskStruct)
    (t : TaskCtx) (runnable : Bool) (now : U64) :
    (mlfqStopping m p t runnable now).machine.q1Occupancy
      = Function.update m.q1Occupancy m.cpu false := by
  obtain ⟨hocc, hcpu⟩ := stopSegment_q1Occupancy m p t runnable now
  have hset : ((stopSegment m p t runnable now).1.q1Set
      (stopSegment m p t runnable now).1.cpu false).q1Occupancy
        = Function.update m.q1Occupancy m.cpu false := by
    rw [hcpu, Machine.q1Set_q1Occupancy h, hocc]
  rw [mlfqStopping]
  cases runnable
  · exact hset
  · exact hset

/-- A cleared slot that was clear stays clear, so the test before the
store makes no difference. -/
theorem mlfqExitTask_q1Occupancy (m : Machine) (p : TaskStruct) (t : TaskCtx) :
    (mlfqExitTask m p (some t)).1.q1Occupancy
      = if t.queue = .q1 ∧ 0 ≤ p.cpu ∧ p.cpu < mlfqMaxCpus
        then Function.update m.q1Occupancy p.cpu.toNat false else m.q1Occupancy := by
  rw [mlfqExitTask]
  by_cases hwhere : t.queue = .q1 ∧ 0 ≤ p.cpu ∧ p.cpu < mlfqMaxCpus
  · have hcpu : p.cpu.toNat < mlfqMaxCpus := by omega
    rw [if_pos hwhere]
    by_cases hset : m.q1IsOccupied p.cpu.toNat = true
    · rw [if_pos ⟨hwhere.1, hwhere.2.1, hwhere.2.2, hset⟩]
      exact Machine.q1Set_q1Occupancy hcpu _
    · rw [if_neg fun h => hset h.2.2.2]
      rw [Machine.q1IsOccupied, if_neg (Nat.not_le.mpr hcpu), Bool.not_eq_true] at hset
      rw [← hset, Function.update_eq_self]
  · rw [if_neg fun h => hwhere ⟨h.1, h.2.1, h.2.2.1⟩, if_neg hwhere]

theorem mlfqCpuRelease_q1Occupancy (m : Machine) {cpu : Nat} (h : cpu < mlfqMaxCpus) :
    (mlfqCpuRelease m cpu).q1Occupancy = Function.update m.q1Occupancy cpu false := by
  have hrange : 0 ≤ (cpu : Int) ∧ (cpu : Int) < mlfqMaxCpus := by omega
  rw [mlfqCpuRelease, if_pos hrange, Int.toNat_natCast]
  exact Machine.q1Set_q1Occupancy h _

/-- The veto reads the slot of the sibling. -/
theorem isSmtSiblingQ1Busy_iff (m : Machine) (cpu : Int) :
    m.isSmtSiblingQ1Busy cpu = true
      ↔ m.rod.smtOn = true ∧ 0 ≤ cpu ∧ cpu < mlfqMaxCpus
        ∧ m.rod.cpuSibling cpu.toNat < mlfqMaxCpus ∧ (m.rod.cpuSibling cpu.toNat : Int) ≠ cpu
        ∧ m.q1Occupancy (m.rod.cpuSibling cpu.toNat) = true := by
  simp only [Machine.isSmtSiblingQ1Busy, Machine.q1IsOccupied]
  by_cases hoff : m.rod.smtOn = false ∨ cpu < 0 ∨ cpu ≥ mlfqMaxCpus
  · rw [if_pos hoff]
    refine iff_of_false (by decide) ?_
    rintro ⟨hsmt, h0, hmax, -⟩
    rcases hoff with hsmt' | hneg | hbig
    · rw [hsmt] at hsmt'
      cases hsmt'
    · omega
    · omega
  · obtain ⟨hsmt, hrange⟩ := not_or.mp hoff
    rw [if_neg hoff]
    by_cases hself : m.rod.cpuSibling cpu.toNat ≥ mlfqMaxCpus
        ∨ (m.rod.cpuSibling cpu.toNat : Int) = cpu
    · rw [if_pos hself]
      refine iff_of_false (by decide) ?_
      rintro ⟨-, -, -, hsib, hne, -⟩
      rcases hself with hbig | heq
      · omega
      · exact hne heq
    · obtain ⟨hsib, hne⟩ := not_or.mp hself
      rw [if_neg hself, if_neg hsib]
      constructor
      · intro hset
        exact ⟨Bool.eq_true_of_not_eq_false hsmt, by omega, by omega, by omega, hne, hset⟩
      · intro hall
        exact hall.2.2.2.2.2

/-! ## One callback -/

/-- What every reachable state keeps, exact or not: only possible CPUs
run tasks, and a task that started with a context still has one. -/
structure OccPlaces (nrCpuIds : Nat) (s : OccState ι) : Prop where
  possible : ∀ cpu r, s.running cpu = some r → cpu < nrCpuIds
  context : ∀ cpu i q, s.running cpu = some (i, some q) → s.tasks i ≠ none

section Step

variable {n : Nat} {s s' : OccState ι} {e : OccEvent ι}

theorem stepOcc_running {m : Machine} {cpu : Nat} {i : ι} {p : TaskStruct} {now : U64}
    (hs : stepOcc n s (.running m cpu i p now) = some s') :
    (cpu < n ∧ s.running cpu = none) ∧
      ((s.tasks i = none
          ∧ s' = { s with running := Function.update s.running cpu (some (i, none)) })
        ∨ ∃ t, s.tasks i = some t ∧ s' =
          { tasks := Function.update s.tasks i (some (mlfqRunning (s.seen m cpu) p t now).tctx)
            occupancy := (mlfqRunning (s.seen m cpu) p t now).machine.q1Occupancy
            running := Function.update s.running cpu (some (i, some t.queue)) }) := by
  rw [stepOcc] at hs
  split at hs
  · rename_i hwhere
    refine ⟨⟨hwhere.1, hwhere.2.1⟩, ?_⟩
    cases ht : s.tasks i with
    | none =>
        rw [ht] at hs
        exact .inl ⟨rfl, (Option.some.inj hs).symm⟩
    | some t =>
        rw [ht] at hs
        exact .inr ⟨t, rfl, (Option.some.inj hs).symm⟩
  · cases hs

theorem stepOcc_stopping {m : Machine} {cpu : Nat} {i : ι} {p : TaskStruct} {runnable : Bool}
    {now : U64} (hs : stepOcc n s (.stopping m cpu i p runnable now) = some s') :
    (cpu < n ∧ s.onCpu cpu i = true) ∧
      ((s.tasks i = none ∧ s' = { s with running := Function.update s.running cpu none })
        ∨ ∃ t, s.tasks i = some t ∧ s' =
          { tasks := Function.update s.tasks i
              (some (mlfqStopping (s.seen m cpu) p t runnable now).tctx)
            occupancy := (mlfqStopping (s.seen m cpu) p t runnable now).machine.q1Occupancy
            running := Function.update s.running cpu none }) := by
  rw [stepOcc] at hs
  split at hs
  · rename_i hwhere
    refine ⟨hwhere, ?_⟩
    cases ht : s.tasks i with
    | none =>
        rw [ht] at hs
        exact .inl ⟨rfl, (Option.some.inj hs).symm⟩
    | some t =>
        rw [ht] at hs
        exact .inr ⟨t, rfl, (Option.some.inj hs).symm⟩
  · cases hs

theorem stepOcc_exitTask {m : Machine} {i : ι} {p : TaskStruct}
    (hs : stepOcc n s (.exitTask m i p) = some s') :
    (∀ c < n, s.onCpu c i = false) ∧ s' = { s with
      tasks := Function.update s.tasks i (mlfqExitTask (s.seen m m.cpu) p (s.tasks i)).2
      occupancy := (mlfqExitTask (s.seen m m.cpu) p (s.tasks i)).1.q1Occupancy } := by
  rw [stepOcc] at hs
  split at hs
  · rename_i hidle
    exact ⟨hidle, (Option.some.inj hs).symm⟩
  · cases hs

theorem stepOcc_cpuRelease {m : Machine} {cpu : Nat}
    (hs : stepOcc n s (.cpuRelease m cpu) = some s') :
    (cpu < n ∧ s.running cpu = none) ∧
      s' = { s with occupancy := (mlfqCpuRelease (s.seen m m.cpu) cpu).q1Occupancy } := by
  rw [stepOcc] at hs
  split at hs
  · rename_i hwhere
    exact ⟨hwhere, (Option.some.inj hs).symm⟩
  · cases hs

theorem onCpu_iff {cpu : Nat} {i : ι} :
    s.onCpu cpu i = true ↔ ∃ q, s.running cpu = some (i, q) := by
  simp [OccState.onCpu]

/-- A task that runs nowhere is the task of no CPU. -/
theorem OccPlaces.runs_ne (h : OccPlaces n s) {i : ι} (hidle : ∀ c < n, s.onCpu c i = false)
    {cpu : Nat} {j : ι} {q : Option Queue} (hj : s.running cpu = some (j, q)) : j ≠ i := by
  rintro rfl
  have hon : s.onCpu cpu j = true := onCpu_iff.mpr ⟨q, hj⟩
  rw [hidle cpu (h.possible cpu _ hj)] at hon
  cases hon

omit [DecidableEq ι] in
/-- A CPU written keeps the places, if no context goes. -/
theorem OccPlaces.write (h : OccPlaces n s) {cpu : Nat} {r : Option (ι × Option Queue)}
    (hcpu : cpu < n) (hrun : s'.running = Function.update s.running cpu r)
    (hr : ∀ i q, r = some (i, some q) → s'.tasks i ≠ none)
    (htasks : ∀ j, s.tasks j ≠ none → s'.tasks j ≠ none) : OccPlaces n s' := by
  constructor
  · intro c x hc
    by_cases heq : c = cpu
    · rw [heq]
      exact hcpu
    · rw [hrun, Function.update_of_ne heq] at hc
      exact h.possible c x hc
  · intro c j q hc
    by_cases heq : c = cpu
    · rw [heq, hrun, Function.update_self] at hc
      exact hr j q hc
    · rw [hrun, Function.update_of_ne heq] at hc
      exact htasks j (h.context c j q hc)

theorem stays_some {f : ι → Option TaskCtx} (i : ι) (t : TaskCtx) {j : ι}
    (h : f j ≠ none) : Function.update f i (some t) j ≠ none := by
  by_cases hj : j = i
  · simp [hj]
  · rw [Function.update_of_ne hj]
    exact h

theorem OccPlaces.step (h : OccPlaces n s) (hs : stepOcc n s e = some s') : OccPlaces n s' := by
  cases e with
  | running m cpu i p now =>
      obtain ⟨hwhere, ⟨-, rfl⟩ | ⟨t, -, rfl⟩⟩ := stepOcc_running hs
      · exact h.write (r := some (i, none)) hwhere.1 rfl nofun fun j hj => hj
      · refine h.write (r := some (i, some t.queue)) hwhere.1 rfl ?_
          fun j hj => stays_some i _ hj
        intro j q hjq
        cases hjq
        simp only [Function.update_self]
        nofun
  | stopping m cpu i p runnable now =>
      obtain ⟨hwhere, ⟨-, rfl⟩ | ⟨t, -, rfl⟩⟩ := stepOcc_stopping hs
      · exact h.write (r := none) hwhere.1 rfl nofun fun j hj => hj
      · exact h.write (r := none) hwhere.1 rfl nofun fun j hj => stays_some i _ hj
  | exitTask m i p =>
      obtain ⟨hidle, rfl⟩ := stepOcc_exitTask hs
      refine ⟨h.possible, ?_⟩
      intro c j q hc
      simp only [Function.update_of_ne (h.runs_ne hidle hc)]
      exact h.context c j q hc
  | cpuRelease m cpu =>
      obtain ⟨-, rfl⟩ := stepOcc_cpuRelease hs
      exact ⟨h.possible, h.context⟩
  | other i t =>
      cases hs
      exact ⟨h.possible, fun c j q hc => stays_some i t (h.context c j q hc)⟩

omit [DecidableEq ι] in
/-- **A slot and its CPU written together** stay exact. -/
theorem OccExact.write (h : OccExact s) {cpu : Nat} {occupied : Bool}
    {r : Option (ι × Option Queue)}
    (hocc : s'.occupancy = Function.update s.occupancy cpu occupied)
    (hrun : s'.running = Function.update s.running cpu r)
    (hr : occupied = true ↔ ∃ i, r = some (i, some .q1)) : OccExact s' := by
  intro c
  rw [OccState.RunsQ1, hocc, hrun]
  by_cases heq : c = cpu
  · subst heq
    rw [Function.update_self, Function.update_self]
    exact hr
  · rw [Function.update_of_ne heq, Function.update_of_ne heq]
    exact h c

omit [DecidableEq ι] in
/-- The slot of a CPU that runs no task of the first queue is clear. -/
theorem OccExact.clear (h : OccExact s) {cpu : Nat} (hno : ¬ s.RunsQ1 cpu) :
    s.occupancy = Function.update s.occupancy cpu false := by
  have hclear : s.occupancy cpu = false := by
    rw [← Bool.not_eq_true, h cpu]
    exact hno
  rw [← hclear, Function.update_eq_self]

omit [DecidableEq ι] in
/-- Only an exit can fail to spare what runs. -/
theorem sparesRunning_of_ne (h : ∀ m i p, e ≠ .exitTask m i p) :
    SparesRunning ⟨s, e, s'⟩ := by
  intro m i p t he
  exact absurd he (h m i p)

omit [DecidableEq ι] in
/-- A CPU that runs nothing runs no task of the first queue. -/
theorem not_runsQ1_of_idle {cpu : Nat} (hidle : s.running cpu = none) : ¬ s.RunsQ1 cpu := by
  rintro ⟨j, hj⟩
  rw [hidle] at hj
  cases hj

/-- A task without a context started without one. -/
theorem OccPlaces.not_runsQ1 (h : OccPlaces n s) {cpu : Nat} {i : ι}
    (hon : s.onCpu cpu i = true) (hnone : s.tasks i = none) : ¬ s.RunsQ1 cpu := by
  rintro ⟨j, hj⟩
  obtain ⟨q, hq⟩ := onCpu_iff.mp hon
  rw [hq] at hj
  cases hj
  exact h.context cpu i .q1 hq hnone

/-- **An exit keeps the slots exact if and only if it spares what runs**:
it leaves the slot of the CPU the task ran on last clear. -/
theorem OccExact.exit_iff (hn : n ≤ mlfqMaxCpus) (hplaces : OccPlaces n s) (h : OccExact s)
    {m : Machine} {i : ι} {p : TaskStruct} (hs : stepOcc n s (.exitTask m i p) = some s') :
    OccExact s' ↔ SparesRunning ⟨s, .exitTask m i p, s'⟩ := by
  obtain ⟨-, rfl⟩ := stepOcc_exitTask hs
  cases ht : s.tasks i with
  | none =>
      refine iff_of_true h ?_
      intro m' i' p' t' he ht'
      cases he
      rw [show s.tasks i = none from ht] at ht'
      cases ht'
  | some t =>
      have hocc := mlfqExitTask_q1Occupancy (s.seen m m.cpu) p t
      constructor
      · intro hexact m' i' p' t' he ht' hq hcpu hruns
        cases he
        have htt : s.tasks i = some t' := ht'
        rw [ht] at htt
        cases htt
        obtain ⟨j, hj⟩ := hruns
        have hlt := hplaces.possible _ _ hj
        have hslot := (hexact p.cpu.toNat).mpr ⟨j, hj⟩
        simp only [hocc] at hslot
        rw [if_pos ⟨hq, hcpu, by omega⟩, Function.update_self] at hslot
        cases hslot
      · intro hspares
        by_cases hwhere : t.queue = .q1 ∧ 0 ≤ p.cpu ∧ p.cpu < mlfqMaxCpus
        · have hidle : ¬ s.RunsQ1 p.cpu.toNat :=
            hspares m i p t rfl ht hwhere.1 hwhere.2.1
          rw [if_pos hwhere] at hocc
          intro c
          simp only [hocc]
          exact Iff.trans (by rw [h.clear hidle]; rfl) (h c)
        · rw [if_neg hwhere] at hocc
          intro c
          simp only [hocc]
          exact h c

/-- **One callback keeps the slots exact if and only if it spares what
runs.** -/
theorem OccExact.step_iff (hn : n ≤ mlfqMaxCpus) (hplaces : OccPlaces n s) (h : OccExact s)
    (hs : stepOcc n s e = some s') : OccExact s' ↔ SparesRunning ⟨s, e, s'⟩ := by
  cases e with
  | running m cpu i p now =>
      refine iff_of_true ?_ (sparesRunning_of_ne (by simp))
      obtain ⟨hwhere, ⟨-, rfl⟩ | ⟨t, -, rfl⟩⟩ := stepOcc_running hs
      · exact h.write (h.clear (not_runsQ1_of_idle hwhere.2)) rfl (by simp)
      · have hcpu : (s.seen m cpu).cpu < mlfqMaxCpus := Nat.lt_of_lt_of_le hwhere.1 hn
        exact h.write (mlfqRunning_q1Occupancy hcpu p t now) rfl (by simp)
  | stopping m cpu i p runnable now =>
      refine iff_of_true ?_ (sparesRunning_of_ne (by simp))
      obtain ⟨hwhere, ⟨hnone, rfl⟩ | ⟨t, -, rfl⟩⟩ := stepOcc_stopping hs
      · exact h.write (h.clear (hplaces.not_runsQ1 hwhere.2 hnone)) rfl (by simp)
      · have hcpu : (s.seen m cpu).cpu < mlfqMaxCpus := Nat.lt_of_lt_of_le hwhere.1 hn
        exact h.write (mlfqStopping_q1Occupancy hcpu p t runnable now) rfl (by simp)
  | exitTask m i p => exact h.exit_iff hn hplaces hs
  | cpuRelease m cpu =>
      refine iff_of_true ?_ (sparesRunning_of_ne (by simp))
      obtain ⟨hwhere, rfl⟩ := stepOcc_cpuRelease hs
      have hcpu : cpu < mlfqMaxCpus := by omega
      have hslot : (mlfqCpuRelease (s.seen m m.cpu) cpu).q1Occupancy = s.occupancy := by
        rw [mlfqCpuRelease_q1Occupancy (s.seen m m.cpu) hcpu]
        exact (h.clear (not_runsQ1_of_idle hwhere.2)).symm
      simp only [hslot]
      exact h
  | other i t =>
      refine iff_of_true ?_ (sparesRunning_of_ne (by simp))
      cases hs
      exact h

end Step

/-! ## Runs -/

section Runs

variable {n : Nat} {tr : List (Entry (OccState ι) (OccEvent ι))} {s : OccState ι}

omit [DecidableEq ι] in
theorem OccStart.places (h : OccStart s) : OccPlaces n s := by
  constructor
  · intro cpu r hr
    rw [h.2] at hr
    cases hr
  · intro cpu i q hr
    rw [h.2] at hr
    cases hr

omit [DecidableEq ι] in
theorem OccStart.exact (h : OccStart s) : OccExact s := by
  intro cpu
  rw [h.1, OccState.RunsQ1, h.2]
  exact ⟨nofun, fun ⟨_, hi⟩ => nomatch hi⟩

theorem OccRun.places (h : OccRun n tr s) : OccPlaces n s := by
  apply Run.invariant (I := fun _ s => OccPlaces n s) _ _ h
  · intro s hs
    exact hs.places
  · intro tr s e s' hI hs
    exact hI.step hs

/-- While every exit spares what runs, the slots are exact. -/
theorem OccRun.exact (hn : n ≤ mlfqMaxCpus) (h : OccRun n tr s)
    (hspares : ∀ x ∈ tr, SparesRunning x) : OccExact s := by
  induction h with
  | start hs => exact hs.exact
  | snoc hrun hstep ih =>
      have hpre := ih fun x hx => hspares x (List.mem_cons_of_mem _ hx)
      exact (hpre.step_iff hn (OccRun.places hrun) hstep).mpr (hspares _ List.mem_cons_self)

/-- Exact slots all along mean that every exit spared what ran. -/
theorem OccRun.spares (hn : n ≤ mlfqMaxCpus) (h : OccRun n tr s)
    (hexact : ∀ x ∈ tr, OccExact x.post) : ∀ x ∈ tr, SparesRunning x := by
  induction h with
  | start _ =>
      intro x hx
      cases hx
  | snoc hrun hstep ih =>
      have hbelow := ih fun x hx => hexact x (List.mem_cons_of_mem _ hx)
      have hpre := OccRun.exact hn hrun hbelow
      intro x hx
      rcases List.mem_cons.mp hx with rfl | hx
      · exact (hpre.step_iff hn (OccRun.places hrun) hstep).mp (hexact _ List.mem_cons_self)
      · exact hbelow x hx

/-- The veto of the sibling, read from exact slots: SMT is on, the CPU
has a sibling, and the sibling runs a task of the first queue. -/
def SiblingRunsQ1 (s : OccState ι) (m : Machine) (cpu : Int) : Prop :=
  m.rod.smtOn = true ∧ 0 ≤ cpu ∧ cpu < mlfqMaxCpus
    ∧ m.rod.cpuSibling cpu.toNat < mlfqMaxCpus ∧ (m.rod.cpuSibling cpu.toNat : Int) ≠ cpu
    ∧ s.RunsQ1 (m.rod.cpuSibling cpu.toNat)

omit [DecidableEq ι] in
theorem OccExact.sibling (h : OccExact s) (m : Machine) (on : Nat) (cpu : Int) :
    (s.seen m on).isSmtSiblingQ1Busy cpu = true ↔ SiblingRunsQ1 s m cpu := by
  rw [SiblingRunsQ1, ← h (m.rod.cpuSibling cpu.toNat)]
  exact isSmtSiblingQ1Busy_iff (s.seen m on) cpu

/-- **The occupancy of the first queue.** The slots are exact in every
state of a run, and the sibling veto with them, if and only if every
exit of a task of the first queue found no other one running on the CPU
it names. -/
theorem q1Occupancy_exact_iff (hn : n ≤ mlfqMaxCpus) (h : OccRun n tr s) :
    (∀ x ∈ tr, OccExact x.post
        ∧ ∀ m on cpu, (x.post.seen m on).isSmtSiblingQ1Busy cpu = true
          ↔ SiblingRunsQ1 x.post m cpu)
      ↔ ∀ x ∈ tr, SparesRunning x := by
  constructor
  · intro hexact
    exact OccRun.spares hn h fun x hx => (hexact x hx).1
  · intro hspares x hx
    obtain ⟨rest, hrest, hmem⟩ := Run.upTo h hx
    have hpost := OccRun.exact hn hrest fun y hy => hspares y (hmem y hy)
    exact ⟨hpost, hpost.sibling⟩

end Runs

/-- A task of the first queue runs on CPU 0 and blocks, and another one
takes its place. -/
def handOver : List (OccEvent Bool) :=
  [.other true { queue := .q1 }, .other false { queue := .q1 },
    .running (Machine.zeroed {} 1) 0 true { pid := 1 } 100,
    .stopping (Machine.zeroed {} 1) 0 true { pid := 1 } false 200,
    .running (Machine.zeroed {} 1) 0 false { pid := 2 } 300]

/-- The CPU an exiting task ran on last runs nothing. -/
def exitsAside (x : Entry (OccState Bool) (OccEvent Bool)) : Bool :=
  match x.event with
  | .exitTask _ _ p => (x.pre.running p.cpu.toNat).isNone
  | _ => true

theorem sparesRunning_of_exitsAside {x : Entry (OccState Bool) (OccEvent Bool)}
    (h : exitsAside x = true) : SparesRunning x := by
  intro m i p t he _ _ _
  rw [exitsAside, he] at h
  exact not_runsQ1_of_idle (Option.isNone_iff_eq_none.mp h)

/-- While the second task runs, an idle CPU is released and the first task
exits, last seen there; the second one follows it when it has blocked. -/
def exitsAfterHandOver : List (OccEvent Bool) :=
  handOver ++
    [.cpuRelease (Machine.zeroed {} 2) 1,
      .exitTask (Machine.zeroed {} 2) true { pid := 1, cpu := 1 },
      .stopping (Machine.zeroed {} 2) 0 false { pid := 2 } false 400,
      .exitTask (Machine.zeroed {} 2) false { pid := 2, cpu := 0 }]

/-- The exits and the release after the hand-over leave the slots exact:
the slot of CPU 0 is set past the first exit and clear past the second. -/
theorem q1Occupancy_exact_iff_handOver :
    ∃ tr s, @OccRun Bool _ 2 tr s
      ∧ tr.map (fun x => x.post.occupancy 0)
        = [false, false, true, true, true, false, true, false, false]
      ∧ ∀ x ∈ tr, OccExact x.post
          ∧ ∀ m on cpu, (x.post.seen m on).isSmtSiblingQ1Busy cpu = true
            ↔ SiblingRunsQ1 x.post m cpu := by
  obtain ⟨tr, s, h, htest⟩ :=
    @exec_reaches _ _ (stepOcc 2) OccStart ⟨fun _ => none, fun _ => false, fun _ => none⟩
      ⟨rfl, rfl⟩ exitsAfterHandOver (fun tr _ => tr.all exitsAside
        && decide (tr.map (fun x => x.post.occupancy 0)
          = [false, false, true, true, true, false, true, false, false])) (by decide)
  rw [Bool.and_eq_true, decide_eq_true_eq] at htest
  refine ⟨tr, s, h, htest.2, (q1Occupancy_exact_iff (by decide) h).mpr fun x hx => ?_⟩
  exact sparesRunning_of_exitsAside (List.all_eq_true.mp htest.1 x hx)

/-- When the first task exits after the hand-over, the slot of CPU 0 is
cleared under the second one. -/
theorem q1Occupancy_lost :
    ¬ ∀ (n : Nat) (tr : List (Entry (OccState Bool) (OccEvent Bool))) (s : OccState Bool),
      n ≤ mlfqMaxCpus → OccRun n tr s → OccExact s := by
  intro hclaim
  obtain ⟨tr, s, h, hs⟩ : ∃ tr s, @OccRun Bool _ 1 tr s
      ∧ decide (s.occupancy 0 = false ∧ s.running 0 = some (false, some .q1)) = true :=
    @exec_reaches _ _ (stepOcc 1) OccStart ⟨fun _ => none, fun _ => false, fun _ => none⟩
      ⟨rfl, rfl⟩ (handOver ++ [.exitTask (Machine.zeroed {} 1) true { pid := 1, cpu := 0 }])
      (fun _ s => decide (s.occupancy 0 = false ∧ s.running 0 = some (false, some .q1)))
      (by decide)
  obtain ⟨hslot, hruns⟩ := of_decide_eq_true hs
  have hset := (hclaim 1 tr s (by decide) h 0).mpr ⟨false, hruns⟩
  rw [hslot] at hset
  cases hset

end ScxMlfq
