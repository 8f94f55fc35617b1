import ScxMlfq.Intf.Vtime

/-!
# Intf — Classification

The pure classification arithmetic of `src/bpf/intf.h`: the
interactivity gauge, the band mappings, and the two hysteresis state
machines (promotion at the wakeup, demotion at the run-out).
-/

namespace ScxMlfq

/-- `mlfq_ema_climb`. -/
def mlfqEmaClimb (ema delta budgetMax alpha : U64) : U64 :=
  let delta := if delta > budgetMax then budgetMax else delta
  let gap := budgetMax - ema
  if gap = 0 then ema
  else
    let step := gap * delta * alpha / (budgetMax * fpOne)
    let step := if step > gap then gap else step
    ema + step

/-- `mlfq_ema_decay`. -/
def mlfqEmaDecay (ema sleepNs halfLife : U64) : U64 :=
  if sleepNs ≥ halfLife <<< 6 then 0
  else
    let periods := sleepNs / halfLife
    let sub := sleepNs % halfLife
    let decayed := ema >>> periods.toNat
    if sub = 0 ∨ decayed = 0 then decayed
    else
      let xFp := sub * fpOne / halfLife
      let aFp := xFp * 177 / fpOne
      let factorFp := fpOne - aFp + (aFp * aFp) / (fpOne <<< 1)
      decayed * factorFp / fpOne

/-- `mlfq_queue_from_ema`. -/
def mlfqQueueFromEma (ema tL tH : U64) : Queue :=
  if ema ≤ tL then .q1
  else if ema ≥ tH then .q3
  else .q2

/-- `mlfq_tree_map_queue`. -/
def mlfqTreeMapQueue (pred : U64) (cur : Queue) (tInt tBound : U64) : Queue :=
  if pred ≠ 0 ∧ pred < tInt then .q1
  else if pred ≠ 0 ∧ pred < tBound ∧ cur = .q3 then .q2
  else cur

/-- The `wake_cnt` bookkeeping at the head of `mlfq_promote_on_wakeup`. -/
def countWake (tctx : TaskCtx) (sleepNs shortSleep : U64) : TaskCtx :=
  if sleepNs ≤ shortSleep then { tctx with wakeCnt := tctx.wakeCnt + 1 }
  else { tctx with wakeCnt := 0 }

/-- `mlfq_promote_on_wakeup`: the updated task, and whether it was
promoted. -/
def mlfqPromoteOnWakeup (tctx : TaskCtx) (sleepNs tL tH shortSleep : U64) :
    TaskCtx × Bool :=
  let tctx := countWake tctx sleepNs shortSleep
  if tctx.queue = .q2 ∧ tctx.ema < tL / 2 ∧ tctx.wakeCnt ≥ 2 then
    ({ tctx with queue := .q1, wakeCnt := 0 }, true)
  else if tctx.queue = .q3 ∧ tctx.ema < tH / 2 ∧ tctx.wakeCnt ≥ 2 then
    ({ tctx with queue := .q2, wakeCnt := 0 }, true)
  else (tctx, false)

/-- The CPU-bound test of `mlfq_demote_on_reenq`: the prediction gates
it once trained, the gauge while untrained. -/
def cpuBound (tctx : TaskCtx) (tH tBound pred : U64) : Bool :=
  if pred ≠ 0 then decide (pred ≥ tBound) else decide (tctx.ema > tH)

/-- `mlfq_demote_on_reenq`: the updated task, and whether it was
demoted. -/
def mlfqDemoteOnReenq (tctx : TaskCtx) (tH tBound pred : U64) :
    TaskCtx × Bool :=
  let tctx := { tctx with reenqCnt := tctx.reenqCnt + 1 }
  if (tctx.queue = .q1 ∨ tctx.queue = .q2)
      ∧ cpuBound tctx tH tBound pred = true ∧ tctx.reenqCnt ≥ 8 then
    ({ tctx with queue := tctx.queue.next, reenqCnt := 0 }, true)
  else (tctx, false)

/-- `mlfq_reset_classification`. -/
def mlfqResetClassification (tctx : TaskCtx) : TaskCtx :=
  { tctx with ema := 0, queue := .q2, reenqCnt := 0, wakeCnt := 0,
              lastSsBoostAt := 0 }

/-- A sleep of no length decays nothing. -/
theorem mlfqEmaDecay_zero (ema : U64) {halfLife : U64} (h : halfLife <<< 6 ≠ 0) :
    mlfqEmaDecay ema 0 halfLife = ema := by
  have hlt : ¬ (0 : U64) ≥ halfLife <<< 6 := by bv_omega
  rw [mlfqEmaDecay, if_neg hlt]
  simp

/-! ## What the hysteresis machines can do to the queue -/

@[simp] theorem countWake_queue (t : TaskCtx) (s ss : U64) :
    (countWake t s ss).queue = t.queue := by
  rw [countWake]
  split <;> rfl

/-- The wakeup mapping of the tree only promotes. -/
theorem mlfqTreeMapQueue_le (pred : U64) (cur : Queue) (tInt tBound : U64) :
    (mlfqTreeMapQueue pred cur tInt tBound).num ≤ cur.num := by
  rw [mlfqTreeMapQueue]
  split
  · exact cur.num_pos
  · split
    · rename_i h
      rw [h.2.2]
      decide
    · exact Nat.le_refl _

/-- The wakeup hysteresis only promotes. -/
theorem mlfqPromoteOnWakeup_le (t : TaskCtx) (s tL tH ss : U64) :
    (mlfqPromoteOnWakeup t s tL tH ss).1.queue.num ≤ t.queue.num := by
  simp only [mlfqPromoteOnWakeup, countWake_queue]
  split
  · exact t.queue.num_pos
  · split
    · rename_i h
      rw [h.1]
      show Queue.num .q2 ≤ Queue.num .q3
      decide
    · rw [countWake_queue]

/-- **The exhaustion gate**: a demotion needs the CPU-bound test and a
counter of at least eight after this run-out, and moves one queue
down; where the gate is shut only the counter moves. -/
theorem mlfqDemoteOnReenq_cases (t : TaskCtx) (tH tBound pred : U64) :
    let gate := t.queue ≠ .q3 ∧ cpuBound t tH tBound pred = true ∧ 8 ≤ t.reenqCnt + 1
    (gate ∧ mlfqDemoteOnReenq t tH tBound pred
        = ({ t with queue := t.queue.next, reenqCnt := 0 }, true))
    ∨ (¬ gate ∧ mlfqDemoteOnReenq t tH tBound pred
        = ({ t with reenqCnt := t.reenqCnt + 1 }, false)) := by
  intro gate
  have hq : (t.queue = .q1 ∨ t.queue = .q2) ↔ t.queue ≠ .q3 := by
    cases t.queue <;> simp
  rw [mlfqDemoteOnReenq]
  by_cases hg : gate
  · refine Or.inl ⟨hg, ?_⟩
    rw [if_pos ⟨hq.mpr hg.1, hg.2⟩]
  · refine Or.inr ⟨hg, ?_⟩
    rw [if_neg fun h => hg ⟨hq.mp h.1, h.2⟩]

end ScxMlfq
