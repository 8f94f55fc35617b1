import Mathlib.Data.Fintype.Card
import ScxMlfq.Intf.Runnable
import ScxMlfq.Lib.Census
import ScxMlfq.Lib.Trace

/-!
# Run — Race

The runnable gauges under calls that overlap. `mlfq_runnable_enter` and
`mlfq_runnable_exit` read the ownership record, count on the gauges and
store the record in separate steps, and calls on the same task may
interleave at any of them. A gauge is the number of records that name its
class, and the moves in flight, as long as every store replaces the value
its call has counted out.
-/

namespace ScxMlfq

open Trace Census

/-! ## The steps of a call -/

/-- The ownership record: `last_llc` and `last_qid`. -/
structure Ownership where
  lastLlc : U8 := mlfqLlcUnowned
  lastQid : U8 := 0
deriving DecidableEq, Repr

/-- What a call does next, with the values it has read: first the steps of
`mlfq_runnable_enter`, for a domain below `MLFQ_MAX_LLCS`, then those of
`mlfq_runnable_exit`. -/
inductive CallAt where
  | enter (q : Queue) (l : Fin mlfqMaxLlcs)
  | countLlc (q : Queue) (l : Fin mlfqMaxLlcs)
  | countQueue (q : Queue) (l : Fin mlfqMaxLlcs)
  | ownLlc (q : Queue) (l : Fin mlfqMaxLlcs)
  | ownQid (q : Queue) (l : Fin mlfqMaxLlcs)
  | testLlc (q : Queue) (l : Fin mlfqMaxLlcs)
  | readLlc (q : Queue) (l : Fin mlfqMaxLlcs)
  | leaveLlc (q : Queue) (l : Fin mlfqMaxLlcs) (v : U8)
  | joinLlc (q : Queue) (l : Fin mlfqMaxLlcs) (v : U8)
  | moveLlc (q : Queue) (l : Fin mlfqMaxLlcs) (v : U8)
  | testQid (q : Queue) (l : Fin mlfqMaxLlcs)
  | readQid (q : Queue) (l : Fin mlfqMaxLlcs)
  | leaveQueue (q : Queue) (l : Fin mlfqMaxLlcs) (v : U8)
  | joinQueue (q : Queue) (l : Fin mlfqMaxLlcs) (v : U8)
  | moveQid (q : Queue) (l : Fin mlfqMaxLlcs) (v : U8)
  | exit
  | exitReadLlc
  | exitLeaveLlc (v : U8)
  | exitReadQid (v : U8)
  | exitLeaveQueue (v u : U8)
  | releaseLlc (v u : U8)
  | releaseQid (u : U8)
deriving DecidableEq

/-- One step of a call on the record of its task and the gauges: what it
does next, `none` where it returns. -/
def CallAt.step (r : Ownership) (g : Gauges) : CallAt → Option CallAt × Ownership × Gauges
  -- if (tctx->last_llc == MLFQ_LLC_UNOWNED)
  | .enter q l =>
      (some (if r.lastLlc = mlfqLlcUnowned then .countLlc q l else .testLlc q l), r, g)
  | .countLlc q l => (some (.countQueue q l), r, mlfqLlcAdd g l 1)
  | .countQueue q l => (some (.ownLlc q l), r, mlfqQueueAdd g q.num 1)
  | .ownLlc q l => (some (.ownQid q l), { r with lastLlc := BitVec.ofNat 8 l }, g)
  | .ownQid q _ => (none, { r with lastQid := BitVec.ofNat 8 q.num }, g)
  -- if (tctx->last_llc != (u8)llc)
  | .testLlc q l =>
      (some (if r.lastLlc ≠ BitVec.ofNat 8 l then .readLlc q l else .testQid q l), r, g)
  | .readLlc q l => (some (.leaveLlc q l r.lastLlc), r, g)
  | .leaveLlc q l v => (some (.joinLlc q l v), r, mlfqLlcAdd g v.toNat (-1))
  | .joinLlc q l v => (some (.moveLlc q l v), r, mlfqLlcAdd g l 1)
  | .moveLlc q l _ => (some (.testQid q l), { r with lastLlc := BitVec.ofNat 8 l }, g)
  -- if (tctx->last_qid != qid)
  | .testQid q l =>
      (if r.lastQid ≠ BitVec.ofNat 8 q.num then some (.readQid q l) else none, r, g)
  | .readQid q l => (some (.leaveQueue q l r.lastQid), r, g)
  | .leaveQueue q l v => (some (.joinQueue q l v), r, mlfqQueueAdd g v.toNat (-1))
  | .joinQueue q l v => (some (.moveQid q l v), r, mlfqQueueAdd g q.num 1)
  | .moveQid q _ _ => (none, { r with lastQid := BitVec.ofNat 8 q.num }, g)
  -- if (tctx->last_llc == MLFQ_LLC_UNOWNED)
  | .exit => (if r.lastLlc = mlfqLlcUnowned then none else some .exitReadLlc, r, g)
  | .exitReadLlc => (some (.exitLeaveLlc r.lastLlc), r, g)
  | .exitLeaveLlc v => (some (.exitReadQid v), r, mlfqLlcAdd g v.toNat (-1))
  | .exitReadQid v => (some (.exitLeaveQueue v r.lastQid), r, g)
  | .exitLeaveQueue v u => (some (.releaseLlc v u), r, mlfqQueueAdd g u.toNat (-1))
  | .releaseLlc _ u => (some (.releaseQid u), { r with lastLlc := mlfqLlcUnowned }, g)
  | .releaseQid _ => (none, { r with lastQid := 0 }, g)

/-- The call belongs to `mlfq_runnable_exit`. -/
def CallAt.isExit : CallAt → Bool
  | .exit | .exitReadLlc | .exitLeaveLlc _ | .exitReadQid _ | .exitLeaveQueue _ _
  | .releaseLlc _ _ | .releaseQid _ => true
  | _ => false

/-! ## A call that is alone -/

/-- The steps of a call with no other in between. -/
def CallAt.run : Nat → CallAt → Ownership → Gauges → Option (Ownership × Gauges)
  | 0, _, _, _ => none
  | n + 1, c, r, g =>
      match c.step r g with
      | (none, r', g') => some (r', g')
      | (some c', r', g') => c'.run n r' g'

/-- **Undisturbed steps are the whole call**: `mlfq_runnable_enter`. -/
theorem CallAt.run_enter (g : Gauges) (t : TaskCtx) (q : Queue) (l : Fin mlfqMaxLlcs) :
    CallAt.run 11 (.enter q l) ⟨t.lastLlc, t.lastQid⟩ g
      = some (⟨(mlfqRunnableEnter g t q l).2.lastLlc, (mlfqRunnableEnter g t q l).2.lastQid⟩,
          (mlfqRunnableEnter g t q l).1) := by
  have hl : ¬ (l : Nat) ≥ mlfqMaxLlcs := Nat.not_le.mpr l.isLt
  by_cases hun : t.lastLlc = mlfqLlcUnowned
  · simp [CallAt.run, CallAt.step, mlfqRunnableEnter, hl, hun]
  · by_cases hllc : t.lastLlc = BitVec.ofNat 8 l
    · rw [hllc] at hun
      by_cases hqid : t.lastQid = BitVec.ofNat 8 q.num <;>
        simp [CallAt.run, CallAt.step, mlfqRunnableEnter, hl, hun, hllc, hqid]
    · by_cases hqid : t.lastQid = BitVec.ofNat 8 q.num <;>
        simp [CallAt.run, CallAt.step, mlfqRunnableEnter, hl, hun, hllc, hqid]

/-- And `mlfq_runnable_exit`. -/
theorem CallAt.run_exit (g : Gauges) (t : TaskCtx) :
    CallAt.run 7 .exit ⟨t.lastLlc, t.lastQid⟩ g
      = some (⟨(mlfqRunnableExit g t).2.lastLlc, (mlfqRunnableExit g t).2.lastQid⟩,
          (mlfqRunnableExit g t).1) := by
  by_cases hun : t.lastLlc = mlfqLlcUnowned
  · simp [CallAt.run, CallAt.step, mlfqRunnableExit, hun]
  · simp [CallAt.run, CallAt.step, mlfqRunnableExit, hun]

/-! ## The law of one step -/

/-- The gauge of a domain a record names. -/
def llcClass (v : U8) : Option Nat := if v.toNat < mlfqMaxLlcs then some v.toNat else none

/-- The gauge of a queue a record names. -/
def queueClass (v : U8) : Option Nat :=
  if 1 ≤ v.toNat ∧ v.toNat ≤ mlfqNrQueues then some v.toNat else none

/-- The domains a call has counted out and in, and not stored yet. -/
def CallAt.llcFlight : CallAt → Option Nat × Option Nat
  | .countQueue _ l | .ownLlc _ l => (none, some l)
  | .joinLlc _ _ v => (llcClass v, none)
  | .moveLlc _ l v => (llcClass v, some l)
  | .exitReadQid v | .exitLeaveQueue v _ | .releaseLlc v _ => (llcClass v, none)
  | _ => (none, none)

/-- The queues, likewise. -/
def CallAt.queueFlight : CallAt → Option Nat × Option Nat
  | .ownLlc q _ | .ownQid q _ => (none, some q.num)
  | .joinQueue _ _ v => (queueClass v, none)
  | .moveQid q _ v => (queueClass v, some q.num)
  | .releaseLlc _ u | .releaseQid u => (queueClass u, none)
  | _ => (none, none)

/-- A step that stores finds in the field the value its call has counted
out. -/
def CallAt.clean (r : Ownership) : CallAt → Bool
  | .ownLlc _ _ => decide (r.lastLlc = mlfqLlcUnowned)
  | .ownQid _ _ => decide (r.lastQid = 0)
  | .moveLlc _ _ v => decide (r.lastLlc = v)
  | .moveQid _ _ v => decide (r.lastQid = v)
  | .releaseLlc v _ => decide (r.lastLlc = v)
  | .releaseQid u => decide (r.lastQid = u)
  | _ => true

/-- The flights of a call that may have returned. -/
def llcFlightOf : Option CallAt → Option Nat × Option Nat
  | none => (none, none)
  | some c => c.llcFlight

def queueFlightOf : Option CallAt → Option Nat × Option Nat
  | none => (none, none)
  | some c => c.queueFlight

theorem llcClass_unowned : llcClass mlfqLlcUnowned = none := rfl

theorem llcClass_ofNat (l : Fin mlfqMaxLlcs) : llcClass (BitVec.ofNat 8 l) = some l.val := by
  have hlt : l.val < mlfqMaxLlcs := l.isLt
  have hval : (BitVec.ofNat 8 l).toNat = l := by
    rw [BitVec.toNat_ofNat]
    exact Nat.mod_eq_of_lt (Nat.lt_trans hlt (by decide))
  rw [llcClass, hval, if_pos hlt]

theorem queueClass_ofNat (q : Queue) : queueClass (BitVec.ofNat 8 q.num) = some q.num := by
  cases q <;> rfl

/-- The counted steps as moves between classes. -/
theorem mlfqLlcAdd_leave (g : Gauges) (v : U8) : mlfqLlcAdd g v.toNat (-1)
    = { g with llcRunnable := shift g.llcRunnable (llcClass v) none } := by
  rw [mlfqLlcAdd, llcClass]
  by_cases h : v.toNat < mlfqMaxLlcs
  · rw [if_neg (Nat.not_le.mpr h), if_pos h, shift_leave, sub_eq_add_neg]
    rfl
  · rw [if_pos (Nat.not_lt.mp h), if_neg h, shift_self]

theorem mlfqLlcAdd_join (g : Gauges) (l : Fin mlfqMaxLlcs) : mlfqLlcAdd g l 1
    = { g with llcRunnable := shift g.llcRunnable none (some l.val) } := by
  rw [mlfqLlcAdd, if_neg (Nat.not_le.mpr l.isLt), shift_enter]
  rfl

theorem mlfqQueueAdd_leave (g : Gauges) (v : U8) : mlfqQueueAdd g v.toNat (-1)
    = { g with queueRunnable := shift g.queueRunnable (queueClass v) none } := by
  rw [mlfqQueueAdd, queueClass]
  by_cases h : 1 ≤ v.toNat ∧ v.toNat ≤ mlfqNrQueues
  · rw [if_neg (by omega), if_pos h, shift_leave, sub_eq_add_neg]
    rfl
  · rw [if_pos (by omega), if_neg h, shift_self]

theorem mlfqQueueAdd_join (g : Gauges) (q : Queue) : mlfqQueueAdd g q.num 1
    = { g with queueRunnable := shift g.queueRunnable none (some q.num) } := by
  have h1 := q.num_pos
  have h3 := q.num_le
  rw [mlfqQueueAdd, if_neg (by omega), shift_enter]
  rfl

/-- **The domain gauges after one step**: what the step changes on them, in
the record and in flight cancels out. -/
theorem CallAt.step_llc (c : CallAt) {r : Ownership} (h : c.clean r = true) (g : Gauges) (k : Nat) :
    (c.step r g).2.2.llcRunnable k
      = g.llcRunnable k - mark 32 (llcClass r.lastLlc) k
        + mark 32 (llcClass (c.step r g).2.1.lastLlc) k
        - transit 32 (llcFlightOf (some c)) k + transit 32 (llcFlightOf (c.step r g).1) k := by
  cases c with
  | enter q l =>
      simp only [CallAt.step]
      split <;> simp [llcFlightOf, CallAt.llcFlight]
  | countLlc q l =>
      simp [CallAt.step, llcFlightOf, CallAt.llcFlight, mlfqLlcAdd_join, shift, transit]
  | countQueue q l =>
      simp [CallAt.step, llcFlightOf, CallAt.llcFlight, mlfqQueueAdd_join]
  | ownLlc q l =>
      have hfound : r.lastLlc = mlfqLlcUnowned := of_decide_eq_true h
      simp [CallAt.step, llcFlightOf, CallAt.llcFlight, hfound, llcClass_unowned,
        llcClass_ofNat, transit]
  | ownQid q l => simp [CallAt.step, llcFlightOf, CallAt.llcFlight]
  | testLlc q l =>
      simp only [CallAt.step]
      split <;> simp [llcFlightOf, CallAt.llcFlight]
  | readLlc q l => simp [CallAt.step, llcFlightOf, CallAt.llcFlight]
  | leaveLlc q l v =>
      simp [CallAt.step, llcFlightOf, CallAt.llcFlight, mlfqLlcAdd_leave, shift, transit,
        sub_eq_add_neg]
  | joinLlc q l v =>
      simp only [CallAt.step, llcFlightOf, CallAt.llcFlight, mlfqLlcAdd_join, shift, transit,
        mark_none]
      abel
  | moveLlc q l v =>
      have hfound : r.lastLlc = v := of_decide_eq_true h
      simp only [CallAt.step, llcFlightOf, CallAt.llcFlight, hfound, llcClass_ofNat, transit,
        mark_none]
      abel
  | testQid q l =>
      simp only [CallAt.step]
      split <;> simp [llcFlightOf, CallAt.llcFlight]
  | readQid q l => simp [CallAt.step, llcFlightOf, CallAt.llcFlight]
  | leaveQueue q l v =>
      simp [CallAt.step, llcFlightOf, CallAt.llcFlight, mlfqQueueAdd_leave]
  | joinQueue q l v =>
      simp [CallAt.step, llcFlightOf, CallAt.llcFlight, mlfqQueueAdd_join]
  | moveQid q l v => simp [CallAt.step, llcFlightOf, CallAt.llcFlight]
  | exit =>
      simp only [CallAt.step]
      split <;> simp [llcFlightOf, CallAt.llcFlight]
  | exitReadLlc => simp [CallAt.step, llcFlightOf, CallAt.llcFlight]
  | exitLeaveLlc v =>
      simp [CallAt.step, llcFlightOf, CallAt.llcFlight, mlfqLlcAdd_leave, shift, transit,
        sub_eq_add_neg]
  | exitReadQid v => simp [CallAt.step, llcFlightOf, CallAt.llcFlight]
  | exitLeaveQueue v u =>
      simp [CallAt.step, llcFlightOf, CallAt.llcFlight, mlfqQueueAdd_leave]
  | releaseLlc v u =>
      have hfound : r.lastLlc = v := of_decide_eq_true h
      simp only [CallAt.step, llcFlightOf, CallAt.llcFlight, hfound, llcClass_unowned, transit,
        mark_none]
      abel
  | releaseQid u => simp [CallAt.step, llcFlightOf, CallAt.llcFlight]

/-- **The queue gauges after one step**, likewise. -/
theorem CallAt.step_queue (c : CallAt) {r : Ownership} (h : c.clean r = true) (g : Gauges)
    (k : Nat) :
    (c.step r g).2.2.queueRunnable k
      = g.queueRunnable k - mark 32 (queueClass r.lastQid) k
        + mark 32 (queueClass (c.step r g).2.1.lastQid) k
        - transit 32 (queueFlightOf (some c)) k
        + transit 32 (queueFlightOf (c.step r g).1) k := by
  have hzero : queueClass 0 = none := rfl
  cases c with
  | enter q l =>
      simp only [CallAt.step]
      split <;> simp [queueFlightOf, CallAt.queueFlight]
  | countLlc q l =>
      simp [CallAt.step, queueFlightOf, CallAt.queueFlight, mlfqLlcAdd_join]
  | countQueue q l =>
      simp [CallAt.step, queueFlightOf, CallAt.queueFlight, mlfqQueueAdd_join, shift, transit]
  | ownLlc q l => simp [CallAt.step, queueFlightOf, CallAt.queueFlight]
  | ownQid q l =>
      have hfound : r.lastQid = 0 := of_decide_eq_true h
      simp only [CallAt.step, queueFlightOf, CallAt.queueFlight, hfound, hzero,
        queueClass_ofNat, transit, mark_none]
      abel
  | testLlc q l =>
      simp only [CallAt.step]
      split <;> simp [queueFlightOf, CallAt.queueFlight]
  | readLlc q l => simp [CallAt.step, queueFlightOf, CallAt.queueFlight]
  | leaveLlc q l v =>
      simp [CallAt.step, queueFlightOf, CallAt.queueFlight, mlfqLlcAdd_leave]
  | joinLlc q l v =>
      simp [CallAt.step, queueFlightOf, CallAt.queueFlight, mlfqLlcAdd_join]
  | moveLlc q l v => simp [CallAt.step, queueFlightOf, CallAt.queueFlight]
  | testQid q l =>
      simp only [CallAt.step]
      split <;> simp [queueFlightOf, CallAt.queueFlight]
  | readQid q l => simp [CallAt.step, queueFlightOf, CallAt.queueFlight]
  | leaveQueue q l v =>
      simp [CallAt.step, queueFlightOf, CallAt.queueFlight, mlfqQueueAdd_leave, shift, transit,
        sub_eq_add_neg]
  | joinQueue q l v =>
      simp only [CallAt.step, queueFlightOf, CallAt.queueFlight, mlfqQueueAdd_join, shift,
        transit, mark_none]
      abel
  | moveQid q l v =>
      have hfound : r.lastQid = v := of_decide_eq_true h
      simp only [CallAt.step, queueFlightOf, CallAt.queueFlight, hfound, queueClass_ofNat,
        transit, mark_none]
      abel
  | exit =>
      simp only [CallAt.step]
      split <;> simp [queueFlightOf, CallAt.queueFlight]
  | exitReadLlc => simp [CallAt.step, queueFlightOf, CallAt.queueFlight]
  | exitLeaveLlc v =>
      simp [CallAt.step, queueFlightOf, CallAt.queueFlight, mlfqLlcAdd_leave]
  | exitReadQid v => simp [CallAt.step, queueFlightOf, CallAt.queueFlight]
  | exitLeaveQueue v u =>
      simp [CallAt.step, queueFlightOf, CallAt.queueFlight, mlfqQueueAdd_leave, shift, transit,
        sub_eq_add_neg]
  | releaseLlc v u => simp [CallAt.step, queueFlightOf, CallAt.queueFlight]
  | releaseQid u =>
      have hfound : r.lastQid = u := of_decide_eq_true h
      simp only [CallAt.step, queueFlightOf, CallAt.queueFlight, hfound, hzero, transit,
        mark_none]
      abel

/-! ## The system -/

/-- A call in flight: its task, where it stands, and whether no other call
on the task has been in flight with it. -/
structure RaceCall (ι : Type*) where
  task : ι
  pc : CallAt
  alone : Bool

/-- What followed the last overlap of calls on a task: nothing yet, an
enter that was alone, or after that an exit that was alone. -/
inductive Episode where
  | raced
  | entered
  | healed
deriving DecidableEq, Repr

/-- The episode after a call that was alone. -/
def Episode.after (isExit : Bool) : Episode → Episode
  | .raced => if isExit then .raced else .entered
  | .entered => if isExit then .healed else .entered
  | .healed => .healed

structure RaceState (ι θ : Type*) where
  gauges : Gauges := {}
  records : ι → Ownership := fun _ => {}
  calls : θ → Option (RaceCall ι) := fun _ => none
  episode : ι → Episode := fun _ => .healed

/-- A CPU begins a call on a task, or takes the next step of its call. -/
inductive RaceEvent (ι θ : Type*) where
  | enter (t : θ) (i : ι) (q : Queue) (l : Fin mlfqMaxLlcs)
  | exit (t : θ) (i : ι)
  | step (t : θ)

section Race

variable {ι θ : Type*} [DecidableEq ι] [DecidableEq θ] [Fintype θ]

namespace RaceState

/-- CPU `t` is in a call on the task `i`. -/
def inCall (s : RaceState ι θ) (t : θ) (i : ι) : Bool :=
  match s.calls t with
  | none => false
  | some f => decide (f.task = i)

/-- No CPU is. -/
def idle (s : RaceState ι θ) (i : ι) : Bool := decide (∀ t, s.inCall t i = false)

/-- The calls of the others, where a call on `i` has begun beside them. -/
def disturb (i : ι) (f : RaceCall ι) : RaceCall ι :=
  if f.task = i then { f with alone := false } else f

/-- CPU `t` begins a call. -/
def start (s : RaceState ι θ) (t : θ) (i : ι) (c : CallAt) : Option (RaceState ι θ) :=
  match s.calls t with
  | some _ => none
  | none => some { s with
      calls := Function.update (fun t' => (s.calls t').map (disturb i)) t
        (some ⟨i, c, s.idle i⟩)
      episode := if s.idle i then s.episode else Function.update s.episode i .raced }

/-- CPU `t` takes the next step of its call. -/
def advance (s : RaceState ι θ) (t : θ) : Option (RaceState ι θ) :=
  match s.calls t with
  | none => none
  | some f =>
      let r := f.pc.step (s.records f.task) s.gauges
      some {
        gauges := r.2.2
        records := Function.update s.records f.task r.2.1
        calls := Function.update s.calls t (r.1.map fun pc => { f with pc })
        episode := if r.1.isNone && f.alone
          then Function.update s.episode f.task ((s.episode f.task).after f.pc.isExit)
          else s.episode }

variable {s s' : RaceState ι θ} {t : θ} {i : ι} {c : CallAt}

theorem start_spec (hs : s.start t i c = some s') :
    s.calls t = none ∧ s' = { s with
      calls := Function.update (fun t' => (s.calls t').map (disturb i)) t
        (some ⟨i, c, s.idle i⟩)
      episode := if s.idle i then s.episode else Function.update s.episode i .raced } := by
  rw [start] at hs
  cases hcall : s.calls t with
  | some f =>
      rw [hcall] at hs
      cases hs
  | none =>
      rw [hcall] at hs
      exact ⟨rfl, (Option.some.inj hs).symm⟩

omit [Fintype θ] in
theorem advance_spec (hs : s.advance t = some s') :
    ∃ f, s.calls t = some f ∧ s' =
      let r := f.pc.step (s.records f.task) s.gauges
      { gauges := r.2.2
        records := Function.update s.records f.task r.2.1
        calls := Function.update s.calls t (r.1.map fun pc => { f with pc })
        episode := if r.1.isNone && f.alone
          then Function.update s.episode f.task ((s.episode f.task).after f.pc.isExit)
          else s.episode } := by
  rw [advance] at hs
  cases hcall : s.calls t with
  | none =>
      rw [hcall] at hs
      cases hs
  | some f =>
      rw [hcall] at hs
      exact ⟨f, rfl, (Option.some.inj hs).symm⟩

end RaceState

/-- One event. -/
def stepRace (s : RaceState ι θ) : RaceEvent ι θ → Option (RaceState ι θ)
  | .enter t i q l => s.start t i (.enter q l)
  | .exit t i => s.start t i .exit
  | .step t => s.advance t

/-- The runs from zeroed gauges and unowned records. -/
abbrev RaceRun : List (Entry (RaceState ι θ) (RaceEvent ι θ)) → RaceState ι θ → Prop :=
  Run (fun s e s' => stepRace s e = some s') (fun s => s = {})

/-- The event is no store, or a store that finds the value its call has
counted out. -/
def cleanEvent (s : RaceState ι θ) : RaceEvent ι θ → Bool
  | .step t => (s.calls t).all fun f => f.pc.clean (s.records f.task)
  | _ => true

/-- The gauges are the records' census and the moves in flight. -/
structure Balanced [Fintype ι] (s : RaceState ι θ) : Prop where
  llc : Tracks (inFlight fun t => llcFlightOf ((s.calls t).map RaceCall.pc))
    s.gauges.llcRunnable fun i => llcClass (s.records i).lastLlc
  queue : Tracks (inFlight fun t => queueFlightOf ((s.calls t).map RaceCall.pc))
    s.gauges.queueRunnable fun i => queueClass (s.records i).lastQid

omit [DecidableEq ι] [DecidableEq θ] in
theorem Balanced.initial [Fintype ι] : Balanced ({} : RaceState ι θ) := by
  have hnone (flight : Option CallAt → Option Nat × Option Nat)
      (h : flight none = (none, none)) :
      (inFlight fun t => flight ((({} : RaceState ι θ).calls t).map RaceCall.pc) : Nat → U32)
        = 0 := inFlight_none fun _ => h
  constructor
  · rw [hnone llcFlightOf rfl]
    exact .zero fun _ => rfl
  · rw [hnone queueFlightOf rfl]
    exact .zero fun _ => rfl

omit [DecidableEq ι] [Fintype θ] in
/-- The calls after one was replaced, through a function of their steps. -/
theorem flights_update {κ : Type*} (flight : Option CallAt → Option κ × Option κ)
    (calls : θ → Option (RaceCall ι)) (t : θ) (o : Option (RaceCall ι)) :
    (fun t' => flight ((Function.update calls t o t').map RaceCall.pc))
      = Function.update (fun t' => flight ((calls t').map RaceCall.pc)) t
          (flight (o.map RaceCall.pc)) := by
  funext t'
  by_cases h : t' = t
  · subst h
    rw [Function.update_self, Function.update_self]
  · rw [Function.update_of_ne h, Function.update_of_ne h]

/-- The classes of the records after one was stored. -/
theorem classes_update {κ : Type*} (f : Ownership → Option κ) (records : ι → Ownership) (i : ι)
    (r : Ownership) :
    (fun j => f (Function.update records i r j))
      = Function.update (fun j => f (records j)) i (f r) :=
  Function.comp_update f records i r

/-- Beginning a call moves nothing. -/
theorem Balanced.start [Fintype ι] {s s' : RaceState ι θ} (h : Balanced s) {t : θ} {i : ι}
    {c : CallAt} (hc : c.llcFlight = (none, none) ∧ c.queueFlight = (none, none))
    (hs : s.start t i c = some s') : Balanced s' := by
  obtain ⟨hidle, rfl⟩ := RaceState.start_spec hs
  have hcalls (flight : Option CallAt → Option Nat × Option Nat)
      (hnew : flight (some c) = flight none) :
      (fun t' => flight ((Function.update (fun t' => (s.calls t').map
        (RaceState.disturb i)) t (some ⟨i, c, s.idle i⟩) t').map RaceCall.pc))
        = fun t' => flight ((s.calls t').map RaceCall.pc) := by
    funext t'
    by_cases ht : t' = t
    · subst ht
      rw [Function.update_self, hidle]
      exact hnew
    · rw [Function.update_of_ne ht]
      cases s.calls t' with
      | none => rfl
      | some f =>
          simp only [Option.map_some, RaceState.disturb]
          split <;> rfl
  constructor
  · simp only [hcalls llcFlightOf hc.1]
    exact h.llc
  · simp only [hcalls queueFlightOf hc.2]
    exact h.queue

/-- **A clean step keeps the balance.** -/
theorem Balanced.advance [Fintype ι] {s s' : RaceState ι θ} (h : Balanced s) {t : θ}
    (hclean : cleanEvent s (.step t) = true) (hs : s.advance t = some s') : Balanced s' := by
  obtain ⟨f, hcall, rfl⟩ := RaceState.advance_spec hs
  have hfound : f.pc.clean (s.records f.task) = true := by
    rw [cleanEvent, hcall] at hclean
    exact hclean
  have hpc (o : Option CallAt) :
      ((o.map fun pc => ({ f with pc } : RaceCall ι)).map RaceCall.pc) = o := by
    cases o <;> rfl
  constructor
  · simp only [flights_update, hpc, classes_update fun r => llcClass r.lastLlc]
    apply h.llc.step
    intro k
    simp only [hcall, Option.map_some]
    exact f.pc.step_llc hfound s.gauges k
  · simp only [flights_update, hpc, classes_update fun r => queueClass r.lastQid]
    apply h.queue.step
    intro k
    simp only [hcall, Option.map_some]
    exact f.pc.step_queue hfound s.gauges k

/-! ## Calls that are alone -/

/-- An unowned record names no queue. -/
def Ownership.Consistent (r : Ownership) : Prop :=
  r.lastLlc = mlfqLlcUnowned → r.lastQid = 0

/-- What a call that is alone finds in the record: at its start, where the
task has had an episode alone, a consistent one, and later its own stores. -/
def CallAt.Finds (fresh : Prop) (r : Ownership) : CallAt → Prop
  | .enter _ _ | .exit => fresh → r.Consistent
  | .ownQid _ l | .testQid _ l | .readQid _ l | .leaveQueue _ l _ | .joinQueue _ l _
  | .moveQid _ l _ => r.lastLlc = BitVec.ofNat 8 l
  | .releaseQid _ => r.lastLlc = mlfqLlcUnowned
  | _ => True

theorem ofNat_ne_unowned (l : Fin mlfqMaxLlcs) : BitVec.ofNat 8 l ≠ mlfqLlcUnowned := by
  intro h
  have hsome := llcClass_ofNat l
  rw [h] at hsome
  cases hsome

/-- What the step leaves for the next one, and the record a return leaves:
consistent after an enter, and after an exit that found it so. -/
theorem CallAt.Finds.step {c : CallAt} {fresh : Prop} {r : Ownership} (h : c.Finds fresh r)
    (g : Gauges) :
    (∀ c', (c.step r g).1 = some c' → c'.Finds fresh (c.step r g).2.1 ∧ c'.isExit = c.isExit)
      ∧ ((c.step r g).1 = none → (c.isExit = true → fresh) → (c.step r g).2.1.Consistent) := by
  cases c with
  | enter q l =>
      refine ⟨fun c' hc' => ?_, nofun⟩
      simp only [CallAt.step, Option.some.injEq] at hc'
      subst hc'
      split <;> exact ⟨trivial, rfl⟩
  | testLlc q l =>
      refine ⟨fun c' hc' => ?_, nofun⟩
      simp only [CallAt.step, Option.some.injEq] at hc'
      subst hc'
      split
      · exact ⟨trivial, rfl⟩
      · rename_i hsame
        exact ⟨not_not.mp hsame, rfl⟩
  | testQid q l =>
      have hown : r.lastLlc = BitVec.ofNat 8 l := h
      refine ⟨fun c' hc' => ?_, fun _ _ hun => ?_⟩
      · simp only [CallAt.step] at hc'
        split at hc'
        · obtain rfl := Option.some.inj hc'
          exact ⟨hown, rfl⟩
        · cases hc'
      · exact absurd (hown.symm.trans hun) (ofNat_ne_unowned l)
  | exit =>
      refine ⟨fun c' hc' => ?_, fun _ hfresh => h (hfresh rfl)⟩
      simp only [CallAt.step] at hc'
      split at hc'
      · cases hc'
      · obtain rfl := Option.some.inj hc'
        exact ⟨trivial, rfl⟩
  | ownQid q l =>
      have hown : r.lastLlc = BitVec.ofNat 8 l := h
      exact ⟨nofun, fun _ _ hun => absurd (hown.symm.trans hun) (ofNat_ne_unowned l)⟩
  | moveQid q l v =>
      have hown : r.lastLlc = BitVec.ofNat 8 l := h
      exact ⟨nofun, fun _ _ hun => absurd (hown.symm.trans hun) (ofNat_ne_unowned l)⟩
  | releaseQid u => exact ⟨nofun, fun _ _ _ => rfl⟩
  | ownLlc q l => exact ⟨fun c' hc' => by cases hc'; exact ⟨rfl, rfl⟩, nofun⟩
  | moveLlc q l v => exact ⟨fun c' hc' => by cases hc'; exact ⟨rfl, rfl⟩, nofun⟩
  | releaseLlc v u => exact ⟨fun c' hc' => by cases hc'; exact ⟨rfl, rfl⟩, nofun⟩
  | readQid q l => exact ⟨fun c' hc' => by cases hc'; exact ⟨h, rfl⟩, nofun⟩
  | leaveQueue q l v => exact ⟨fun c' hc' => by cases hc'; exact ⟨h, rfl⟩, nofun⟩
  | joinQueue q l v => exact ⟨fun c' hc' => by cases hc'; exact ⟨h, rfl⟩, nofun⟩
  | _ => exact ⟨fun c' hc' => by cases hc'; exact ⟨trivial, rfl⟩, nofun⟩

/-- The calls that are alone, and what the tasks that have recovered look
like. -/
structure Lonely (s : RaceState ι θ) : Prop where
  alone : ∀ t f, s.calls t = some f → f.alone = true →
    ∀ t' f', s.calls t' = some f' → f'.task = f.task → t' = t
  raced : ∀ t f, s.calls t = some f → f.alone = false → s.episode f.task = .raced
  finds : ∀ t f, s.calls t = some f → f.alone = true →
    f.pc.Finds (s.episode f.task ≠ .raced) (s.records f.task)
  rest : ∀ i, s.episode i ≠ .raced → (∀ t f, s.calls t = some f → f.task ≠ i) →
    (s.records i).Consistent

omit [DecidableEq ι] [DecidableEq θ] [Fintype θ] in
theorem Lonely.initial : Lonely ({} : RaceState ι θ) :=
  ⟨nofun, nofun, nofun, fun _ _ _ _ => rfl⟩

omit [DecidableEq θ] in
/-- Whether a task is idle, in terms of the calls. -/
theorem RaceState.idle_iff {s : RaceState ι θ} {i : ι} :
    s.idle i = true ↔ ∀ t f, s.calls t = some f → f.task ≠ i := by
  rw [RaceState.idle, decide_eq_true_iff]
  refine forall_congr' fun t => ?_
  rw [RaceState.inCall]
  cases hcall : s.calls t with
  | none => simp
  | some f => simp

section Disturb
omit [DecidableEq θ] [Fintype θ]
variable (i : ι) (f : RaceCall ι)

@[simp] theorem RaceState.disturb_task : (RaceState.disturb i f).task = f.task := by
  rw [RaceState.disturb]
  split <;> rfl

@[simp] theorem RaceState.disturb_pc : (RaceState.disturb i f).pc = f.pc := by
  rw [RaceState.disturb]
  split <;> rfl

@[simp] theorem RaceState.disturb_alone :
    (RaceState.disturb i f).alone = (f.alone && decide (f.task ≠ i)) := by
  rw [RaceState.disturb]
  by_cases h : f.task = i
  · simp [h]
  · simp [h]

end Disturb

/-! ## A call that begins -/

section Start
variable {s s' : RaceState ι θ} {t : θ} {i : ι} {c : CallAt}

/-- The calls are the new one and those of the others. -/
theorem RaceState.start_calls (hs : s.start t i c = some s') {t' : θ} {f' : RaceCall ι}
    (h : s'.calls t' = some f') :
    (t' = t ∧ f' = ⟨i, c, s.idle i⟩)
      ∨ ∃ f, s.calls t' = some f ∧ f' = RaceState.disturb i f := by
  obtain ⟨-, rfl⟩ := RaceState.start_spec hs
  by_cases ht : t' = t
  · subst ht
    simp only [Function.update_self, Option.some.injEq] at h
    exact .inl ⟨rfl, h.symm⟩
  · simp only [Function.update_of_ne ht] at h
    obtain ⟨f, hf, hf'⟩ := Option.map_eq_some_iff.mp h
    exact .inr ⟨f, hf, hf'.symm⟩

theorem RaceState.start_calls_self (hs : s.start t i c = some s') :
    s'.calls t = some ⟨i, c, s.idle i⟩ := by
  obtain ⟨-, rfl⟩ := RaceState.start_spec hs
  simp only [Function.update_self]

theorem RaceState.start_calls_other (hs : s.start t i c = some s') {t' : θ} {f : RaceCall ι}
    (h : s.calls t' = some f) : s'.calls t' = some (RaceState.disturb i f) := by
  obtain ⟨hfree, rfl⟩ := RaceState.start_spec hs
  have ht : t' ≠ t := by
    rintro rfl
    rw [hfree] at h
    cases h
  simp only [Function.update_of_ne ht, h, Option.map_some]

theorem RaceState.start_records (hs : s.start t i c = some s') : s'.records = s.records := by
  obtain ⟨-, rfl⟩ := RaceState.start_spec hs
  rfl

theorem RaceState.start_episode_idle (hs : s.start t i c = some s') (hidle : s.idle i = true) :
    s'.episode = s.episode := by
  obtain ⟨-, rfl⟩ := RaceState.start_spec hs
  exact if_pos hidle

theorem RaceState.start_episode_busy (hs : s.start t i c = some s') (hbusy : s.idle i = false) :
    s'.episode i = .raced := by
  obtain ⟨-, rfl⟩ := RaceState.start_spec hs
  simp only [hbusy, Bool.false_eq_true, if_false, Function.update_self]

theorem RaceState.start_episode_of_ne (hs : s.start t i c = some s') {j : ι} (hj : j ≠ i) :
    s'.episode j = s.episode j := by
  obtain ⟨-, rfl⟩ := RaceState.start_spec hs
  simp only
  split
  · rfl
  · exact Function.update_of_ne hj ..

theorem Lonely.start (h : Lonely s) (hc : ∀ fresh r, (fresh → r.Consistent) → c.Finds fresh r)
    (hs : s.start t i c = some s') : Lonely s' := by
  constructor
  · intro t₁ f₁ h₁ halone t₂ f₂ h₂ htask
    rcases RaceState.start_calls hs h₁ with ⟨rfl, rfl⟩ | ⟨f, hf, rfl⟩
    · rcases RaceState.start_calls hs h₂ with ⟨rfl, rfl⟩ | ⟨g, hg, rfl⟩
      · rfl
      · rw [RaceState.disturb_task] at htask
        exact absurd htask (RaceState.idle_iff.mp halone t₂ g hg)
    · rw [RaceState.disturb_alone, Bool.and_eq_true, decide_eq_true_iff] at halone
      rw [RaceState.disturb_task] at htask
      rcases RaceState.start_calls hs h₂ with ⟨rfl, rfl⟩ | ⟨g, hg, rfl⟩
      · -- the new call disturbs the other one
        exact absurd htask.symm halone.2
      · rw [RaceState.disturb_task] at htask
        exact h.alone t₁ f hf halone.1 t₂ g hg htask
  · intro t₁ f₁ h₁ hdisturbed
    rcases RaceState.start_calls hs h₁ with ⟨rfl, rfl⟩ | ⟨f, hf, rfl⟩
    · exact RaceState.start_episode_busy hs hdisturbed
    · rw [RaceState.disturb_task]
      by_cases hi : f.task = i
      · have hbusy : s.idle i = false := by
          rw [← Bool.not_eq_true]
          exact fun hidle => RaceState.idle_iff.mp hidle t₁ f hf hi
        rw [hi]
        exact RaceState.start_episode_busy hs hbusy
      · rw [RaceState.start_episode_of_ne hs hi]
        exact h.raced t₁ f hf (by simpa [hi] using hdisturbed)
  · intro t₁ f₁ h₁ halone
    rw [RaceState.start_records hs]
    rcases RaceState.start_calls hs h₁ with ⟨rfl, rfl⟩ | ⟨f, hf, rfl⟩
    · rw [RaceState.start_episode_idle hs halone]
      exact hc _ _ fun hfresh => h.rest i hfresh (RaceState.idle_iff.mp halone)
    · rw [RaceState.disturb_alone, Bool.and_eq_true, decide_eq_true_iff] at halone
      rw [RaceState.disturb_task, RaceState.disturb_pc,
        RaceState.start_episode_of_ne hs halone.2]
      exact h.finds t₁ f hf halone.1
  · intro j hfresh hno
    have hj : j ≠ i := fun heq => hno t _ (RaceState.start_calls_self hs) heq.symm
    rw [RaceState.start_episode_of_ne hs hj] at hfresh
    rw [RaceState.start_records hs]
    refine h.rest j hfresh fun t₁ f hf htask => ?_
    exact hno t₁ _ (RaceState.start_calls_other hs hf) ((RaceState.disturb_task i f).trans htask)

end Start

/-! ## A call that takes a step -/

section Advance
omit [Fintype θ]
variable {s s' : RaceState ι θ} {t : θ} {f : RaceCall ι}

/-- The call is where its step leaves it, if it goes on; the others stay. -/
theorem RaceState.advance_calls (hs : s.advance t = some s') (hcall : s.calls t = some f)
    {t' : θ} {f' : RaceCall ι} (h : s'.calls t' = some f') :
    (t' = t ∧ ∃ pc, (f.pc.step (s.records f.task) s.gauges).1 = some pc ∧ f' = { f with pc })
      ∨ (t' ≠ t ∧ s.calls t' = some f') := by
  obtain ⟨f₀, hf₀, rfl⟩ := RaceState.advance_spec hs
  obtain rfl := Option.some.inj (hcall.symm.trans hf₀)
  by_cases ht : t' = t
  · subst ht
    simp only [Function.update_self, Option.map_eq_some_iff] at h
    obtain ⟨pc, hpc, hf'⟩ := h
    exact .inl ⟨rfl, pc, hpc, hf'.symm⟩
  · simp only [Function.update_of_ne ht] at h
    exact .inr ⟨ht, h⟩

theorem RaceState.advance_calls_self (hs : s.advance t = some s') (hcall : s.calls t = some f)
    {pc : CallAt} (hnext : (f.pc.step (s.records f.task) s.gauges).1 = some pc) :
    s'.calls t = some { f with pc } := by
  obtain ⟨f₀, hf₀, rfl⟩ := RaceState.advance_spec hs
  obtain rfl := Option.some.inj (hcall.symm.trans hf₀)
  simp only [hnext, Function.update_self, Option.map_some]

theorem RaceState.advance_calls_other (hs : s.advance t = some s') {t' : θ} (ht : t' ≠ t) :
    s'.calls t' = s.calls t' := by
  obtain ⟨f₀, -, rfl⟩ := RaceState.advance_spec hs
  exact Function.update_of_ne ht ..

theorem RaceState.advance_records_self (hs : s.advance t = some s') (hcall : s.calls t = some f) :
    s'.records f.task = (f.pc.step (s.records f.task) s.gauges).2.1 := by
  obtain ⟨f₀, hf₀, rfl⟩ := RaceState.advance_spec hs
  obtain rfl := Option.some.inj (hcall.symm.trans hf₀)
  exact Function.update_self ..

theorem RaceState.advance_records_other (hs : s.advance t = some s') (hcall : s.calls t = some f)
    {j : ι} (hj : j ≠ f.task) : s'.records j = s.records j := by
  obtain ⟨f₀, hf₀, rfl⟩ := RaceState.advance_spec hs
  obtain rfl := Option.some.inj (hcall.symm.trans hf₀)
  exact Function.update_of_ne hj ..

theorem RaceState.advance_episode_other (hs : s.advance t = some s') (hcall : s.calls t = some f)
    {j : ι} (hj : j ≠ f.task) : s'.episode j = s.episode j := by
  obtain ⟨f₀, hf₀, rfl⟩ := RaceState.advance_spec hs
  obtain rfl := Option.some.inj (hcall.symm.trans hf₀)
  simp only
  split
  · exact Function.update_of_ne hj ..
  · rfl

theorem RaceState.advance_episode_disturbed (hs : s.advance t = some s')
    (hcall : s.calls t = some f) (halone : f.alone = false) : s'.episode = s.episode := by
  obtain ⟨f₀, hf₀, rfl⟩ := RaceState.advance_spec hs
  obtain rfl := Option.some.inj (hcall.symm.trans hf₀)
  simp only [halone, Bool.and_false, Bool.false_eq_true, if_false]

theorem RaceState.advance_episode_next (hs : s.advance t = some s') (hcall : s.calls t = some f)
    {pc : CallAt} (hnext : (f.pc.step (s.records f.task) s.gauges).1 = some pc) :
    s'.episode = s.episode := by
  obtain ⟨f₀, hf₀, rfl⟩ := RaceState.advance_spec hs
  obtain rfl := Option.some.inj (hcall.symm.trans hf₀)
  simp only [hnext, Option.isNone_some, Bool.false_and, Bool.false_eq_true, if_false]

theorem RaceState.advance_episode_last (hs : s.advance t = some s') (hcall : s.calls t = some f)
    (hlast : (f.pc.step (s.records f.task) s.gauges).1 = none) (halone : f.alone = true) :
    s'.episode f.task = (s.episode f.task).after f.pc.isExit := by
  obtain ⟨f₀, hf₀, rfl⟩ := RaceState.advance_spec hs
  obtain rfl := Option.some.inj (hcall.symm.trans hf₀)
  simp only [hlast, halone, Option.isNone_none, Bool.and_self, if_true, Function.update_self]

omit [DecidableEq ι] [DecidableEq θ] in
/-- A call that is alone has a task of its own. -/
theorem Lonely.task_ne (h : Lonely s) (hcall : s.calls t = some f) {t₁ : θ} {f₁ : RaceCall ι}
    (h₁ : s.calls t₁ = some f₁) (hne : t₁ ≠ t) (halone : f₁.alone = true ∨ f.alone = true) :
    f₁.task ≠ f.task := by
  intro htask
  rcases halone with halone | halone
  · exact hne (h.alone t₁ f₁ h₁ halone t f hcall htask.symm).symm
  · exact hne (h.alone t f hcall halone t₁ f₁ h₁ htask)

/-- The episode of a task moves only when its last call returns. -/
theorem Lonely.advance_episode (h : Lonely s) (hs : s.advance t = some s') {t₁ : θ}
    {f₁ : RaceCall ι} (h₁ : s'.calls t₁ = some f₁) :
    s'.episode f₁.task = s.episode f₁.task := by
  obtain ⟨f, hcall, -⟩ := RaceState.advance_spec hs
  rcases RaceState.advance_calls hs hcall h₁ with ⟨-, pc, hnext, -⟩ | ⟨hne, h₁⟩
  · rw [RaceState.advance_episode_next hs hcall hnext]
  · cases halone : f.alone with
    | false => rw [RaceState.advance_episode_disturbed hs hcall halone]
    | true => exact RaceState.advance_episode_other hs hcall (h.task_ne hcall h₁ hne (.inr halone))

theorem Lonely.advance (h : Lonely s) (hs : s.advance t = some s') : Lonely s' := by
  obtain ⟨f, hcall, -⟩ := RaceState.advance_spec hs
  have hfinds := fun halone => (h.finds t f hcall halone).step s.gauges
  have hbefore : ∀ t₁ f₁, s'.calls t₁ = some f₁ →
      ∃ f₀, s.calls t₁ = some f₀ ∧ f₁.task = f₀.task ∧ f₁.alone = f₀.alone := by
    intro t₁ f₁ h₁
    rcases RaceState.advance_calls hs hcall h₁ with ⟨rfl, pc, -, rfl⟩ | ⟨-, h₁⟩
    · exact ⟨f, hcall, rfl, rfl⟩
    · exact ⟨f₁, h₁, rfl, rfl⟩
  constructor
  · intro t₁ f₁ h₁ halone t₂ f₂ h₂ htask
    obtain ⟨e₁, hc₁, htask₁, halone₁⟩ := hbefore t₁ f₁ h₁
    obtain ⟨e₂, hc₂, htask₂, -⟩ := hbefore t₂ f₂ h₂
    rw [htask₁, htask₂] at htask
    exact h.alone t₁ e₁ hc₁ (halone₁ ▸ halone) t₂ e₂ hc₂ htask
  · intro t₁ f₁ h₁ hdisturbed
    obtain ⟨e₁, hc₁, htask₁, halone₁⟩ := hbefore t₁ f₁ h₁
    rw [h.advance_episode hs h₁, htask₁]
    exact h.raced t₁ e₁ hc₁ (halone₁ ▸ hdisturbed)
  · intro t₁ f₁ h₁ halone
    rw [h.advance_episode hs h₁]
    rcases RaceState.advance_calls hs hcall h₁ with ⟨rfl, pc, hnext, rfl⟩ | ⟨hne, h₁⟩
    · rw [RaceState.advance_records_self hs hcall]
      exact ((hfinds halone).1 pc hnext).1
    · rw [RaceState.advance_records_other hs hcall (h.task_ne hcall h₁ hne (.inl halone))]
      exact h.finds t₁ f₁ h₁ halone
  · intro j hfresh hno
    have hrest : ∀ t₁ f₁, s.calls t₁ = some f₁ → t₁ ≠ t → f₁.task ≠ j := by
      intro t₁ f₁ h₁ hne
      exact hno t₁ f₁ ((RaceState.advance_calls_other hs hne).trans h₁)
    by_cases hj : j = f.task
    · -- the call on the task has returned
      subst hj
      have hlast : (f.pc.step (s.records f.task) s.gauges).1 = none := by
        cases hnext : (f.pc.step (s.records f.task) s.gauges).1 with
        | none => rfl
        | some pc =>
            exact absurd rfl (hno t { f with pc } (RaceState.advance_calls_self hs hcall hnext))
      cases halone : f.alone with
      | true =>
          rw [RaceState.advance_episode_last hs hcall hlast halone] at hfresh
          rw [RaceState.advance_records_self hs hcall]
          -- an exit only ends an episode that is under way
          refine (hfinds halone).2 hlast fun hexit hraced => ?_
          rw [hexit, hraced] at hfresh
          exact hfresh rfl
      | false =>
          rw [RaceState.advance_episode_disturbed hs hcall halone] at hfresh
          exact absurd (h.raced t f hcall halone) hfresh
    · rw [RaceState.advance_episode_other hs hcall hj] at hfresh
      rw [RaceState.advance_records_other hs hcall hj]
      refine h.rest j hfresh fun t₁ f₁ h₁ htask => ?_
      by_cases ht₁ : t₁ = t
      · subst ht₁
        obtain rfl := Option.some.inj (hcall.symm.trans h₁)
        exact hj htask.symm
      · exact hrest t₁ f₁ h₁ ht₁ htask

end Advance

/-! ## The gauges at rest -/

theorem RaceRun.balanced [Fintype ι] {tr : List (Entry (RaceState ι θ) (RaceEvent ι θ))}
    {s : RaceState ι θ} (h : RaceRun tr s) (hclean : ∀ x ∈ tr, cleanEvent x.pre x.event = true) :
    Balanced s := by
  apply h.invariant_where (I := fun _ s => Balanced s) _ _ hclean
  · rintro s rfl
    exact .initial
  · intro tr s e s' hb hs hc
    cases e with
    | enter t i q l => exact hb.start ⟨rfl, rfl⟩ hs
    | exit t i => exact hb.start ⟨rfl, rfl⟩ hs
    | step t => exact hb.advance hc hs

theorem RaceRun.lonely {tr : List (Entry (RaceState ι θ) (RaceEvent ι θ))}
    {s : RaceState ι θ} (h : RaceRun tr s) : Lonely s := by
  apply Run.invariant (I := fun _ s => Lonely s) _ _ h
  · rintro s rfl
    exact .initial
  · intro tr s e s' hl hs
    cases e with
    | enter t i q l => exact hl.start (c := .enter q l) (fun _ _ h => h) hs
    | exit t i => exact hl.start (c := .exit) (fun _ _ h => h) hs
    | step t => exact hl.advance hs

/-- The task is counted. -/
def Ownership.Owned (r : Ownership) : Prop := r.lastLlc ≠ mlfqLlcUnowned

instance (r : Ownership) : Decidable r.Owned := inferInstanceAs (Decidable (_ ≠ _))

/-- The records that name a domain are those of the tasks counted there. -/
theorem Ownership.llcClass_eq_some {r : Ownership} {l : Nat} (hl : l < mlfqMaxLlcs) :
    llcClass r.lastLlc = some l ↔ r.Owned ∧ r.lastLlc.toNat = l := by
  rw [llcClass, Ownership.Owned]
  constructor
  · intro hsome
    split at hsome
    · rename_i hlt
      refine ⟨fun hun => ?_, Option.some.inj hsome⟩
      rw [hun] at hlt
      exact absurd hlt (by decide)
    · cases hsome
  · rintro ⟨-, rfl⟩
    rw [if_pos hl]

/-- Where the unowned ones name no queue, the same of the queues. -/
theorem Ownership.Consistent.queueClass_eq_some {r : Ownership} (h : r.Consistent) (q : Queue) :
    queueClass r.lastQid = some q.num ↔ r.Owned ∧ r.lastQid.toNat = q.num := by
  constructor
  · intro hsome
    refine ⟨fun hun => ?_, ?_⟩
    · rw [h hun, show queueClass 0 = none from rfl] at hsome
      cases hsome
    · rw [queueClass] at hsome
      split at hsome
      · exact Option.some.inj hsome
      · cases hsome
  · rintro ⟨-, hq⟩
    rw [queueClass, hq, if_pos ⟨q.num_pos, q.num_le⟩]

/-- The gauges are the numbers of owned tasks by domain and by queue. -/
def RaceState.Exact [Fintype ι] (s : RaceState ι θ) : Prop :=
  (∀ l, l < mlfqMaxLlcs → s.gauges.llcRunnable l = BitVec.ofNat 32
      (Finset.univ.filter fun i => (s.records i).Owned ∧ (s.records i).lastLlc.toNat = l).card)
    ∧ ∀ q : Queue, s.gauges.queueRunnable q.num = BitVec.ofNat 32
      (Finset.univ.filter fun i =>
        (s.records i).Owned ∧ (s.records i).lastQid.toNat = q.num).card

/-- **When the gauges recover.** In every run in which each store finds the
value its call has counted out, the gauges of a state without calls in
flight are the numbers of owned tasks, once every task has had an enter
and an exit alone after its last overlap; they are zero where no task is
owned. -/
theorem gauges_heal [Fintype ι] {tr : List (Entry (RaceState ι θ) (RaceEvent ι θ))}
    {s : RaceState ι θ} (h : RaceRun tr s) (hclean : ∀ x ∈ tr, cleanEvent x.pre x.event = true)
    (hquiet : ∀ t, s.calls t = none) (hhealed : ∀ i, s.episode i = .healed) :
    s.Exact ∧ ((∀ i, ¬ (s.records i).Owned) →
      ∀ k, s.gauges.llcRunnable k = 0 ∧ s.gauges.queueRunnable k = 0) := by
  obtain ⟨hllc, hqueue⟩ := h.balanced hclean
  rw [inFlight_none fun t => by rw [hquiet t]; rfl] at hllc hqueue
  have hconsistent : ∀ i, (s.records i).Consistent := by
    intro i
    refine h.lonely.rest i (by rw [hhealed i]; exact nofun) fun t f hf => ?_
    rw [hquiet t] at hf
    cases hf
  have hzero : queueClass 0 = none := rfl
  refine ⟨⟨fun l hl => ?_, fun q => ?_⟩, fun hnone k => ⟨?_, ?_⟩⟩
  · rw [hllc l, Pi.zero_apply, add_zero, count, members]
    congr 2
    exact Finset.filter_congr fun i _ => Ownership.llcClass_eq_some hl
  · rw [hqueue q.num, Pi.zero_apply, add_zero, count, members]
    congr 2
    exact Finset.filter_congr fun i _ => (hconsistent i).queueClass_eq_some q
  · have hun : ∀ i, llcClass (s.records i).lastLlc = none := by
      intro i
      rw [not_not.mp (hnone i)]
      exact llcClass_unowned
    rw [hllc k, Pi.zero_apply, add_zero, count_eq_zero hun]
    rfl
  · have hun : ∀ i, queueClass (s.records i).lastQid = none := by
      intro i
      rw [hconsistent i (not_not.mp (hnone i)), hzero]
    rw [hqueue k, Pi.zero_apply, add_zero, count_eq_zero hun]
    rfl

end Race

/-- A task is inserted in domain 0 and stolen to domain 1 while it is
released: the release and the move both count it out of domain 0. A later
insert and release leave it at that. -/
def racedSteal : List (RaceEvent Unit Bool) :=
  let a : RaceEvent Unit Bool := .step false
  let b : RaceEvent Unit Bool := .step true
  [.enter false () .q1 ⟨0, by decide⟩, a, a, a, a, a,
    .enter true () .q1 ⟨1, by decide⟩, .exit false (), b, b, b, b,
    a, a, a, b, a, a, b, b, a, a,
    .enter false () .q1 ⟨0, by decide⟩, a, a, a, a, a, .exit false (), a, a, a, a, a, a, a]

/-- What the run leaves. -/
def racedStealTest (s : RaceState Unit Bool) : Bool :=
  decide (s.gauges.llcRunnable 0 = -1) && decide (s.gauges.llcRunnable 1 = 1)
    && decide (s.records () = {}) && decide (s.episode () = .healed)
    && (s.calls false).isNone && (s.calls true).isNone

/-- **The failing run.** The drift of an overlapped release and move stays
after the task has recovered. -/
theorem gauges_drift :
    ¬ ∀ (tr : List (Entry (RaceState Unit Bool) (RaceEvent Unit Bool)))
      (s : RaceState Unit Bool), RaceRun tr s → (∀ t, s.calls t = none) →
      (∀ i, s.episode i = .healed) → s.Exact := by
  intro hclaim
  obtain ⟨tr, s, h, htest⟩ : ∃ tr s, @RaceRun Unit Bool _ _ _ tr s
      ∧ racedStealTest s = true :=
    exec_reaches stepRace (by exact rfl) racedSteal (fun _ s => racedStealTest s) (by decide)
  simp only [racedStealTest, Bool.and_eq_true, decide_eq_true_iff, Option.isNone_iff_eq_none]
    at htest
  obtain ⟨⟨⟨⟨⟨h0, -⟩, hrec⟩, hepisode⟩, hfalse⟩, htrue⟩ := htest
  have hexact := hclaim tr s h (fun t => by cases t <;> assumption) (fun _ => hepisode)
  have hcount := hexact.1 0 (by decide)
  have hnone : (Finset.univ.filter fun i =>
      (s.records i).Owned ∧ (s.records i).lastLlc.toNat = 0) = ∅ := by
    rw [Finset.filter_eq_empty_iff]
    rintro ⟨⟩ - ⟨howned, -⟩
    rw [hrec] at howned
    exact howned rfl
  rw [hnone, h0] at hcount
  exact absurd hcount (by decide)

/-- A task is inserted and, while a steal tests its record, stays in its
domain and queue. -/
def cleanSteal : List (RaceEvent Unit Bool) :=
  let a : RaceEvent Unit Bool := .step false
  let b : RaceEvent Unit Bool := .step true
  [.enter false () .q1 ⟨0, by decide⟩, a, a, a, a, a,
    .enter true () .q1 ⟨0, by decide⟩, .exit false (), b, b, b, a, a, a, a, a, a, a,
    .enter false () .q1 ⟨0, by decide⟩, a, a, a, a, a, .exit false (), a, a, a, a, a, a, a]

theorem gauges_heal_cleanSteal :
    ∃ tr s, @RaceRun Unit Bool _ _ _ tr s ∧ s.gauges.llcRunnable 0 = 0 ∧ s.Exact := by
  obtain ⟨tr, s, h, htest⟩ : ∃ tr s, @RaceRun Unit Bool _ _ _ tr s
      ∧ ((tr.all fun x => cleanEvent x.pre x.event) && decide (s.records () = {})
        && decide (s.episode () = .healed) && (s.calls false).isNone
        && (s.calls true).isNone) = true :=
    exec_reaches stepRace (by exact rfl) cleanSteal
      (fun tr s => (tr.all fun x => cleanEvent x.pre x.event) && decide (s.records () = {})
        && decide (s.episode () = .healed) && (s.calls false).isNone
        && (s.calls true).isNone) (by decide)
  simp only [Bool.and_eq_true, decide_eq_true_iff, Option.isNone_iff_eq_none,
    List.all_eq_true] at htest
  obtain ⟨⟨⟨⟨hclean, hrec⟩, hepisode⟩, hfalse⟩, htrue⟩ := htest
  have hheal := gauges_heal h hclean (fun t => by cases t <;> assumption) (fun _ => hepisode)
  have hnone : ∀ i, ¬ (s.records i).Owned := by
    rintro ⟨⟩ howned
    rw [hrec] at howned
    exact howned rfl
  exact ⟨tr, s, h, (hheal.2 hnone 0).1, hheal.1⟩

end ScxMlfq
