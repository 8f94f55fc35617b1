import Mathlib.Logic.Function.Basic
import ScxMlfq.Intf.Types

/-!
# Intf — Runnable

The per-LLC and per-queue runnable gauges of `src/bpf/intf.h`: the
counted steps, and the ownership record (`last_llc`, `last_qid`) a task
carries while it is counted.
-/

namespace ScxMlfq

/-- `mlfq_llc_runnable` and `mlfq_queue_runnable`. -/
structure Gauges where
  llcRunnable : Nat → U32 := fun _ => 0
  queueRunnable : Nat → U32 := fun _ => 0

/-- `mlfq_llc_add`. -/
def mlfqLlcAdd (g : Gauges) (llc : Nat) (delta : Int) : Gauges :=
  if llc ≥ mlfqMaxLlcs then g
  else { g with llcRunnable :=
    Function.update g.llcRunnable llc (g.llcRunnable llc + BitVec.ofInt 32 delta) }

/-- `mlfq_queue_add`. -/
def mlfqQueueAdd (g : Gauges) (qid : Nat) (delta : Int) : Gauges :=
  if qid < 1 ∨ qid > mlfqNrQueues then g
  else { g with queueRunnable :=
    Function.update g.queueRunnable qid (g.queueRunnable qid + BitVec.ofInt 32 delta) }

/-- `mlfq_runnable_enter`: the gauges and the updated task. -/
def mlfqRunnableEnter (g : Gauges) (tctx : TaskCtx) (qid : Queue) (llc : Nat) :
    Gauges × TaskCtx :=
  let llcId := BitVec.ofNat 8 llc
  let qidId := BitVec.ofNat 8 qid.num
  if llc ≥ mlfqMaxLlcs then (g, tctx)
  else if tctx.lastLlc = mlfqLlcUnowned then
    (mlfqQueueAdd (mlfqLlcAdd g llc 1) qid.num 1,
      { tctx with lastLlc := llcId, lastQid := qidId })
  else
    -- continuation: the task is counted, only its ownership moves
    let g := if tctx.lastLlc ≠ llcId
      then mlfqLlcAdd (mlfqLlcAdd g tctx.lastLlc.toNat (-1)) llc 1 else g
    let g := if tctx.lastQid ≠ qidId
      then mlfqQueueAdd (mlfqQueueAdd g tctx.lastQid.toNat (-1)) qid.num 1 else g
    (g, { tctx with lastLlc := llcId, lastQid := qidId })

/-- `mlfq_runnable_exit`. -/
def mlfqRunnableExit (g : Gauges) (tctx : TaskCtx) : Gauges × TaskCtx :=
  if tctx.lastLlc = mlfqLlcUnowned then (g, tctx)
  else
    (mlfqQueueAdd (mlfqLlcAdd g tctx.lastLlc.toNat (-1)) tctx.lastQid.toNat (-1),
      { tctx with lastLlc := mlfqLlcUnowned, lastQid := 0 })

/-- One candidate of the least-loaded selection against the best so far
(`mlfqMaxLlcs` while there is none). -/
def steerBetter (runnable idle : Nat → U32) (nrLlcs wakerLlc : Nat)
    (visited : Nat → Bool) (best llc : Nat) : Nat :=
  if llc ≥ nrLlcs ∨ llc = wakerLlc ∨ visited llc = true ∨ idle llc = 0 then best
  else if best ≥ mlfqMaxLlcs ∨ runnable llc < runnable best
      ∨ (runnable llc = runnable best ∧ llc < best)
  then llc else best

/-- `mlfq_steer_pick_llc`. -/
def mlfqSteerPickLlc (runnable idle : Nat → U32) (nrLlcs wakerLlc : Nat)
    (visited : Nat → Bool) : Nat :=
  (List.range mlfqMaxLlcs).foldl
    (steerBetter runnable idle nrLlcs wakerLlc visited) mlfqMaxLlcs

/-! ## The accounting touches nothing but the ownership record -/

theorem mlfqRunnableEnter_task (g : Gauges) (t : TaskCtx) (q : Queue) (l : Nat) :
    ∃ llc qid, (mlfqRunnableEnter g t q l).2
      = { t with lastLlc := llc, lastQid := qid } := by
  simp only [mlfqRunnableEnter]
  split
  · exact ⟨t.lastLlc, t.lastQid, rfl⟩
  · split <;> exact ⟨_, _, rfl⟩

theorem mlfqRunnableExit_task (g : Gauges) (t : TaskCtx) :
    ∃ llc qid, (mlfqRunnableExit g t).2
      = { t with lastLlc := llc, lastQid := qid } := by
  rw [mlfqRunnableExit]
  split
  · exact ⟨t.lastLlc, t.lastQid, rfl⟩
  · exact ⟨_, _, rfl⟩

/-- The record after an insert: the domain and the queue, or for a CPU
without a domain what it was. -/
theorem mlfqRunnableEnter_record (g : Gauges) (t : TaskCtx) (q : Queue) (l : Nat) :
    (mlfqRunnableEnter g t q l).2 = if l ≥ mlfqMaxLlcs then t
      else { t with lastLlc := BitVec.ofNat 8 l, lastQid := BitVec.ofNat 8 q.num } := by
  simp only [mlfqRunnableEnter]
  by_cases hl : l ≥ mlfqMaxLlcs
  · rw [if_pos hl, if_pos hl]
  · rw [if_neg hl, if_neg hl]
    split <;> rfl

end ScxMlfq
