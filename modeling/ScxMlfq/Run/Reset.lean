import ScxMlfq.Run.Task

/-!
# Run — Reset

Two lives of a task side by side. A task that comes back to the
scheduler is reset, and what it was before must not show: the same
callbacks on the same machine have to go the same way for any two
contexts the reset found. They do exactly when the contexts agree on the
fields the reset does not write.
-/

namespace ScxMlfq

/-! ## What the reset leaves -/

/-- The fields `mlfq_reset_task_ctx` does not write. -/
structure Leftovers where
  prevBurstNs : U64
  lastSampleAt : U64
  pendingFeats : TreeFeats
  pendingQueue : U32
  pendingValid : U64
deriving DecidableEq

def TaskCtx.leftovers (t : TaskCtx) : Leftovers where
  prevBurstNs := t.prevBurstNs
  lastSampleAt := t.lastSampleAt
  pendingFeats := t.pendingFeats
  pendingQueue := t.pendingQueue
  pendingValid := t.pendingValid

@[simp] theorem mlfqResetTaskCtx_leftovers (t : TaskCtx) (p : TaskStruct) (now : U64) :
    (mlfqResetTaskCtx t p now).leftovers = t.leftovers := rfl

/-- **A reset erases every other field.** -/
theorem mlfqResetTaskCtx_congr {t u : TaskCtx} (h : t.leftovers = u.leftovers)
    (p : TaskStruct) (now : U64) : mlfqResetTaskCtx t p now = mlfqResetTaskCtx u p now := by
  simp only [TaskCtx.leftovers, Leftovers.mk.injEq] at h
  obtain ⟨hburst, hat, hfeats, hqueue, hvalid⟩ := h
  simp only [mlfqResetTaskCtx, mlfqResetClassification, hburst, hat, hfeats, hqueue, hvalid]

/-! ## A life after the reset -/

/-- A callback of the task, without the machine it will find. -/
inductive Callback where
  | select (p : TaskStruct) (prevCpu : Int) (sync : Bool) (now : U64)
  | enqueue (p : TaskStruct) (flags : EnqFlags) (now : U64)
  | running (p : TaskStruct) (now : U64)
  | stopping (p : TaskStruct) (runnable : Bool) (now : U64)
  | quiescent
  | gpuSubmit (now : U64)

def Callback.on (m : Machine) : Callback → TaskEvent
  | .select p prevCpu sync now => .select m p prevCpu sync now
  | .enqueue p flags now => .enqueue m p flags now
  | .running p now => .running m p now
  | .stopping p runnable now => .stopping m p runnable now
  | .quiescent => .quiescent m
  | .gpuSubmit now => .gpuSubmit now

/-- What one callback comes to: the machine and the task it leaves, the
CPU it picks, the insert it makes, the frequency level it asks for, the
sample it emits. -/
structure Outcome where
  machine : Machine
  task : TaskState
  cpu : Option Int := none
  insert : Option DsqInsert := none
  kick : Option Int := none
  cpuperf : Option U64 := none
  sample : Option TreeSample := none
  stats : List Stat := []

/-- The outcome of a callback on `m` that takes the task from `s` to
`s'`. -/
def Callback.outcome (m : Machine) (s s' : TaskState) : Callback → Outcome
  | .select p prevCpu sync now =>
      let r := mlfqSelectCpu m p (some s.tctx) prevCpu sync now
      { machine := r.machine, task := s', cpu := some r.cpu, insert := r.insert }
  | .enqueue p flags now =>
      let r := enqueueTask m p s.tctx flags now
      { machine := r.machine, task := s', insert := r.insert, kick := r.kick, stats := r.stats }
  | .running p now =>
      let r := mlfqRunning m p s.tctx now
      { machine := r.machine, task := s', cpuperf := r.cpuperf, stats := r.stats }
  | .stopping p runnable now =>
      let r := mlfqStopping m p s.tctx runnable now
      { machine := r.machine, task := s', sample := r.sample, stats := r.stats }
  | .quiescent => { machine := (mlfqQuiescent m s.tctx).1, task := s' }
  | .gpuSubmit _ => { machine := m, task := s' }

/-- The outcomes of a sequence of callbacks. Before each the rest of the
system moves the machine. A callback the kernel would not make ends the
sequence. -/
def life (m : Machine) (s : TaskState) : List ((Machine → Machine) × Callback) → List Outcome
  | [] => []
  | (world, c) :: cs =>
      match stepTask s (c.on (world m)) with
      | none => []
      | some s' =>
          let o := c.outcome (world m) s s'
          o :: life o.machine s' cs

/-- The task just after the reset of a context. -/
def reborn (t : TaskCtx) (p : TaskStruct) (now : U64) : TaskState :=
  ⟨.off, mlfqResetTaskCtx t p now⟩

/-- The two contexts cannot be told apart after a reset: no sequence of
callbacks has an outcome in one life that it has not in the other. -/
def ErasesHistory (t u : TaskCtx) (p : TaskStruct) (now : U64) : Prop :=
  ∀ m cs, life m (reborn t p now) cs = life m (reborn u p now) cs

/-! ## When the reset erases -/

/-- The selection leaves the fields alone that the reset leaves. -/
theorem stepTask_select_leftovers (t : TaskCtx) (m : Machine) (p : TaskStruct)
    (prevCpu : Int) (sync : Bool) (now : U64) :
    ∃ s', stepTask ⟨.off, t⟩ (.select m p prevCpu sync now) = some s'
      ∧ s'.tctx.leftovers = t.leftovers := by
  obtain ⟨w, drm, hsel⟩ := mlfqSelectCpu_frame m p t prevCpu sync now
  refine ⟨_, rfl, ?_⟩
  rw [selectState, hsel]
  rfl

/-- **A reset erases the history of the task exactly for contexts that
agree on the previous burst, the sample spacing and the pending block.** -/
theorem reset_erases_iff (t u : TaskCtx) (p : TaskStruct) (now : U64) :
    ErasesHistory t u p now ↔ t.leftovers = u.leftovers := by
  constructor
  · intro h
    -- the selection that follows shows the fields as the reset left them
    have m := (Machine.zeroed {} 1).seed
    obtain ⟨st, hst, htt⟩ := stepTask_select_leftovers (mlfqResetTaskCtx t p now) m p 0 false now
    obtain ⟨su, hsu, huu⟩ := stepTask_select_leftovers (mlfqResetTaskCtx u p now) m p 0 false now
    have hlife := h m [(id, .select p 0 false now)]
    simp only [life, reborn, Callback.on, id, hst, hsu] at hlife
    have htask : st = su := congrArg Outcome.task (List.cons.inj hlife).1
    rw [mlfqResetTaskCtx_leftovers] at htt huu
    rw [← htt, ← huu, htask]
  · intro h m cs
    rw [reborn, reborn, mlfqResetTaskCtx_congr h]

/-- A context that left the scheduler between a capture and its run. -/
def leftPending : TaskCtx :=
  { prevBurstNs := 40000000, pendingFeats := { ema := 7 }, pendingQueue := 2, pendingValid := 1 }

/-- The first segment after a neutral enqueue. -/
def neutralSegment : List ((Machine → Machine) × Callback) :=
  [(id, .enqueue { pid := 1 } { other := true } 10), (id, .running { pid := 1 } 20),
    (id, .stopping { pid := 1 } false 30)]

/-- The previous life shows: in a sample the fresh context does not emit,
and in the queue of the first wakeup. -/
theorem reset_keeps_history :
    ∃ t u p now, ¬ ErasesHistory t u p now
      ∧ (∃ m cs, (life m (reborn t p now) cs).map Outcome.sample
        ≠ (life m (reborn u p now) cs).map Outcome.sample)
      ∧ (∃ m cs, (life m (reborn t p now) cs).map (fun o => o.task.tctx.queue)
        ≠ (life m (reborn u p now) cs).map (fun o => o.task.tctx.queue)) := by
  refine ⟨{}, leftPending, { pid := 1 }, 1, ?_, ⟨(Machine.zeroed {} 1).seed, neutralSegment, ?_⟩,
    ⟨(Machine.zeroed {} 1).seed,
      [(id, .enqueue { pid := 1 } { wakeup := true } 300000000)], ?_⟩⟩
  · intro h
    have hlife := h (Machine.zeroed {} 1).seed neutralSegment
    exact absurd (congrArg (List.map Outcome.sample) hlife) (by decide)
  · decide
  · decide

end ScxMlfq
