import Mathlib.Order.Interval.Finset.Nat
import ScxMlfq.Bpf.Init
import ScxMlfq.Bpf.Insert
import ScxMlfq.Lib.Census
import ScxMlfq.Lib.Trace

/-!
# Run — Gauges

The runnable gauges under every sequence of whole calls. Each call that
touches them moves one task from the classes its ownership record names
to those of the new record, so the gauges count the records: a census of
the tasks by domain and one by queue.
-/

namespace ScxMlfq

open Trace Census

/-! ## The record and the gauges -/

/-- The domain a task is counted in. -/
def recordLlc : Option TaskCtx → Option Nat
  | none => none
  | some t => if t.lastLlc = mlfqLlcUnowned then none else some t.lastLlc.toNat

/-- The queue a task is counted in. -/
def recordQueue : Option TaskCtx → Option Nat
  | none => none
  | some t => if t.lastLlc = mlfqLlcUnowned then none else some t.lastQid.toNat

/-- A record that is unowned, or names a domain and a queue. -/
def RecordOk : Option TaskCtx → Prop
  | none => True
  | some t => t.lastLlc = mlfqLlcUnowned ∨
      (t.lastLlc.toNat < mlfqMaxLlcs ∧ 1 ≤ t.lastQid.toNat ∧ t.lastQid.toNat ≤ mlfqNrQueues)

/-- The gauges after a task's record changed. -/
def Gauges.moved (g : Gauges) (t t' : Option TaskCtx) : Gauges where
  llcRunnable := shift g.llcRunnable (recordLlc t) (recordLlc t')
  queueRunnable := shift g.queueRunnable (recordQueue t) (recordQueue t')

/-- A change that leaves the record moves nothing. -/
theorem Gauges.moved_of_record {g : Gauges} {t t' : Option TaskCtx}
    (hllc : recordLlc t' = recordLlc t) (hqueue : recordQueue t' = recordQueue t) :
    g.moved t t' = g := by
  rw [moved, hllc, hqueue, shift_self, shift_self]

theorem recordLlc_unowned {t : TaskCtx} (h : t.lastLlc = mlfqLlcUnowned) :
    recordLlc (some t) = none := if_pos h

theorem recordQueue_unowned {t : TaskCtx} (h : t.lastLlc = mlfqLlcUnowned) :
    recordQueue (some t) = none := if_pos h

/-- The record reads its two fields only. -/
theorem record_congr {t t' : TaskCtx} (hllc : t'.lastLlc = t.lastLlc)
    (hqid : t'.lastQid = t.lastQid) :
    recordLlc (some t') = recordLlc (some t) ∧ recordQueue (some t') = recordQueue (some t) ∧
      (RecordOk (some t) → RecordOk (some t')) := by
  simp only [recordLlc, recordQueue, RecordOk, hllc, hqid]
  exact ⟨trivial, trivial, id⟩

/-! ## The counted steps -/

theorem mlfqLlcAdd_one {l : Nat} (h : l < mlfqMaxLlcs) (g : Gauges) :
    mlfqLlcAdd g l 1 = { g with llcRunnable := shift g.llcRunnable none (some l) } := by
  rw [mlfqLlcAdd, if_neg (Nat.not_le.mpr h), shift_enter]
  rfl

theorem mlfqLlcAdd_neg_one {l : Nat} (h : l < mlfqMaxLlcs) (g : Gauges) :
    mlfqLlcAdd g l (-1) = { g with llcRunnable := shift g.llcRunnable (some l) none } := by
  rw [mlfqLlcAdd, if_neg (Nat.not_le.mpr h), shift_leave, sub_eq_add_neg]
  rfl

theorem mlfqQueueAdd_one {q : Nat} (h : 1 ≤ q ∧ q ≤ mlfqNrQueues) (g : Gauges) :
    mlfqQueueAdd g q 1 = { g with queueRunnable := shift g.queueRunnable none (some q) } := by
  rw [mlfqQueueAdd, if_neg (by omega), shift_enter]
  rfl

theorem mlfqQueueAdd_neg_one {q : Nat} (h : 1 ≤ q ∧ q ≤ mlfqNrQueues) (g : Gauges) :
    mlfqQueueAdd g q (-1) = { g with queueRunnable := shift g.queueRunnable (some q) none } := by
  rw [mlfqQueueAdd, if_neg (by omega), shift_leave, sub_eq_add_neg]
  rfl

/-- The record that `mlfq_runnable_enter` writes. -/
def ownedBy (t : TaskCtx) (q : Queue) (l : Nat) : TaskCtx :=
  { t with lastLlc := BitVec.ofNat 8 l, lastQid := BitVec.ofNat 8 q.num }

theorem ownedBy_lastLlc {l : Nat} (h : l < mlfqMaxLlcs) (t : TaskCtx) (q : Queue) :
    (ownedBy t q l).lastLlc.toNat = l ∧ (ownedBy t q l).lastLlc ≠ mlfqLlcUnowned := by
  have hval : (BitVec.ofNat 8 l).toNat = l := by
    rw [BitVec.toNat_ofNat]
    exact Nat.mod_eq_of_lt (Nat.lt_trans h (by decide))
  refine ⟨hval, ?_⟩
  intro hun
  have hnat := congrArg BitVec.toNat hun
  change (BitVec.ofNat 8 l).toNat = 255 at hnat
  rw [hval] at hnat
  rw [hnat] at h
  exact absurd h (by decide)

theorem ownedBy_lastQid (t : TaskCtx) (q : Queue) (l : Nat) :
    (ownedBy t q l).lastQid.toNat = q.num := by
  cases q <;> rfl

theorem record_ownedBy {l : Nat} (h : l < mlfqMaxLlcs) (t : TaskCtx) (q : Queue) :
    recordLlc (some (ownedBy t q l)) = some l ∧
    recordQueue (some (ownedBy t q l)) = some q.num ∧ RecordOk (some (ownedBy t q l)) := by
  obtain ⟨hllc, hne⟩ := ownedBy_lastLlc h t q
  have hqid := ownedBy_lastQid t q l
  refine ⟨?_, ?_, .inr ⟨?_, ?_, ?_⟩⟩
  · rw [recordLlc, if_neg hne, hllc]
  · rw [recordQueue, if_neg hne, hqid]
  · rw [hllc]
    exact h
  · rw [hqid]
    exact q.num_pos
  · rw [hqid]
    exact q.num_le

/-- The domain of a continuation: untouched if it stays, which is the
move to itself. -/
theorem moveLlc {old : U8} (hold : old.toNat < mlfqMaxLlcs) {l : Nat} (hl : l < mlfqMaxLlcs)
    (g : Gauges) :
    (if old ≠ BitVec.ofNat 8 l then mlfqLlcAdd (mlfqLlcAdd g old.toNat (-1)) l 1 else g)
      = { g with llcRunnable := shift g.llcRunnable (some old.toNat) (some l) } := by
  by_cases hsame : old = BitVec.ofNat 8 l
  · have hnat : old.toNat = l := by
      rw [hsame]
      exact (ownedBy_lastLlc hl {} .q1).1
    rw [if_neg (not_not.mpr hsame), hnat, shift_self]
  · rw [if_pos hsame, mlfqLlcAdd_neg_one hold, mlfqLlcAdd_one hl]
    simp only [shift_shift]

/-- The queue of a continuation, likewise. -/
theorem moveQueue {old : U8} (hold : 1 ≤ old.toNat ∧ old.toNat ≤ mlfqNrQueues) {q : Queue}
    (g : Gauges) :
    (if old ≠ BitVec.ofNat 8 q.num
      then mlfqQueueAdd (mlfqQueueAdd g old.toNat (-1)) q.num 1 else g)
      = { g with queueRunnable := shift g.queueRunnable (some old.toNat) (some q.num) } := by
  by_cases hsame : old = BitVec.ofNat 8 q.num
  · have hnat : old.toNat = q.num := by
      rw [hsame]
      exact ownedBy_lastQid {} q 0
    rw [if_neg (not_not.mpr hsame), hnat, shift_self]
  · rw [if_pos hsame, mlfqQueueAdd_neg_one hold, mlfqQueueAdd_one ⟨q.num_pos, q.num_le⟩]
    simp only [shift_shift]

/-- **An insert moves the task to its domain and queue**, counted before
or not; for a CPU without a domain it does nothing. -/
theorem mlfqRunnableEnter_moved (g : Gauges) {t : TaskCtx} (hok : RecordOk (some t))
    (q : Queue) (l : Nat) :
    (mlfqRunnableEnter g t q l).1 = g.moved (some t) (some (mlfqRunnableEnter g t q l).2) ∧
    RecordOk (some (mlfqRunnableEnter g t q l).2) := by
  simp only [mlfqRunnableEnter]
  by_cases hl : l ≥ mlfqMaxLlcs
  · rw [if_pos hl]
    exact ⟨(Gauges.moved_of_record rfl rfl).symm, hok⟩
  rw [if_neg hl]
  have hlt : l < mlfqMaxLlcs := Nat.not_le.mp hl
  have hnum : 1 ≤ q.num ∧ q.num ≤ mlfqNrQueues := ⟨q.num_pos, q.num_le⟩
  obtain ⟨hllc, hqueue, hok'⟩ := record_ownedBy hlt t q
  by_cases hun : t.lastLlc = mlfqLlcUnowned
  · rw [if_pos hun]
    refine ⟨?_, hok'⟩
    show mlfqQueueAdd (mlfqLlcAdd g l 1) q.num 1 = g.moved (some t) (some (ownedBy t q l))
    rw [mlfqLlcAdd_one hlt, mlfqQueueAdd_one hnum, Gauges.moved, hllc, hqueue,
      recordLlc_unowned hun, recordQueue_unowned hun]
  · rw [if_neg hun]
    refine ⟨?_, hok'⟩
    obtain ⟨hold, hqid⟩ := hok.resolve_left hun
    have hllc₀ : recordLlc (some t) = some t.lastLlc.toNat := if_neg hun
    have hqueue₀ : recordQueue (some t) = some t.lastQid.toNat := if_neg hun
    show (if t.lastQid ≠ BitVec.ofNat 8 q.num then _ else _)
      = g.moved (some t) (some (ownedBy t q l))
    rw [moveQueue hqid, moveLlc hold hlt, Gauges.moved, hllc, hqueue, hllc₀, hqueue₀]

/-- **A release takes the task out of both.** -/
theorem mlfqRunnableExit_moved (g : Gauges) {t : TaskCtx} (hok : RecordOk (some t)) :
    (mlfqRunnableExit g t).1 = g.moved (some t) (some (mlfqRunnableExit g t).2) ∧
    (mlfqRunnableExit g t).2.lastLlc = mlfqLlcUnowned := by
  rw [mlfqRunnableExit]
  by_cases hun : t.lastLlc = mlfqLlcUnowned
  · rw [if_pos hun]
    exact ⟨(Gauges.moved_of_record rfl rfl).symm, hun⟩
  · rw [if_neg hun]
    refine ⟨?_, rfl⟩
    obtain ⟨hold, hqid⟩ := hok.resolve_left hun
    have hllc₀ : recordLlc (some t) = some t.lastLlc.toNat := if_neg hun
    have hqueue₀ : recordQueue (some t) = some t.lastQid.toNat := if_neg hun
    rw [mlfqLlcAdd_neg_one hold, mlfqQueueAdd_neg_one hqid, Gauges.moved, hllc₀, hqueue₀,
      recordLlc_unowned rfl, recordQueue_unowned rfl]

/-! ## The calls -/

/-- The calls that read or write a record, each with the machine it
finds, and any other change of the task's context. -/
inductive GaugeCall where
  | enqueue (m : Machine) (p : TaskStruct) (flags : EnqFlags) (alloc : Option TaskCtx)
      (now : U64)
  | running (m : Machine) (p : TaskStruct) (now : U64)
  | steal (m : Machine) (qid : Queue) (cpu : Nat)
  | quiescent (m : Machine)
  | reset (p : TaskStruct) (alloc : TaskCtx) (now : U64)
  | exitTask
  | other (t' : TaskCtx)

/-- What a call says of the episode of its task: an insert, a start and a
steal are of a runnable task, `mlfq_quiescent` ends the episode. -/
def GaugeCall.runnable : GaugeCall → Option Bool
  | .enqueue .. => some true
  | .running .. => some true
  | .steal .. => some true
  | .quiescent _ => some false
  | _ => none

/-- One call on one task: the gauges and the context it leaves. A
context is reset or freed only while the task is not counted. -/
def callGauges (g : Gauges) (t : Option TaskCtx) : GaugeCall → Option (Gauges × Option TaskCtx)
  | .enqueue m p flags alloc now =>
      let r := mlfqEnqueue { m with gauges := g } p t alloc flags now
      some (r.machine.gauges, r.tctx)
  | .running m p now =>
      match t with
      | none => some (g, none)
      | some t =>
          let r := mlfqRunning { m with gauges := g } p t now
          some (r.machine.gauges, some r.tctx)
  | .steal m qid cpu =>
      match t with
      | none => some (g, none)
      | some t =>
          let r := mlfqRunnableEnter g t qid (m.llcOfCpu cpu)
          some (r.1, some r.2)
  | .quiescent m =>
      match t with
      | none => some (g, none)
      | some t =>
          let r := mlfqQuiescent { m with gauges := g } t
          some (r.1.gauges, some r.2)
  | .reset p alloc now =>
      if recordLlc t = none then some (g, some (mlfqResetTaskCtx (t.getD alloc) p now)) else none
  | .exitTask => if recordLlc t = none then some (g, none) else none
  | .other t' =>
      match t with
      | none => none
      | some t =>
          if t'.lastLlc = t.lastLlc ∧ t'.lastQid = t.lastQid then some (g, some t') else none

/-- What a call does to the gauges and the record: a move of one task. -/
structure Moves (g : Gauges) (t : Option TaskCtx) (g' : Gauges) (t' : Option TaskCtx) : Prop where
  gauges : g' = g.moved t t'
  ok : RecordOk t'

theorem Moves.refl {g : Gauges} {t : Option TaskCtx} (hok : RecordOk t) : Moves g t g t :=
  ⟨(Gauges.moved_of_record rfl rfl).symm, hok⟩

/-- Fields outside the record may change along. -/
theorem Moves.congr {g g' : Gauges} {t : Option TaskCtx} {u v : TaskCtx}
    (h : Moves g t g' (some u)) (hllc : v.lastLlc = u.lastLlc) (hqid : v.lastQid = u.lastQid) :
    Moves g t g' (some v) := by
  obtain ⟨hl, hq, hok⟩ := record_congr hllc hqid
  refine ⟨?_, hok h.ok⟩
  rw [h.gauges, Gauges.moved, Gauges.moved, hl, hq]

/-- So may those of the task the call starts from. -/
theorem Moves.congr_left {g g' : Gauges} {t' : Option TaskCtx} {u v : TaskCtx}
    (h : Moves g (some u) g' t') (hllc : u.lastLlc = v.lastLlc) (hqid : u.lastQid = v.lastQid) :
    Moves g (some v) g' t' := by
  obtain ⟨hl, hq, -⟩ := record_congr hllc hqid
  refine ⟨?_, h.ok⟩
  rw [h.gauges, Gauges.moved, Gauges.moved, hl, hq]

theorem enter_moves (g : Gauges) {t : TaskCtx} (hok : RecordOk (some t)) (q : Queue) (l : Nat) :
    Moves g (some t) (mlfqRunnableEnter g t q l).1 (some (mlfqRunnableEnter g t q l).2) :=
  ⟨(mlfqRunnableEnter_moved g hok q l).1, (mlfqRunnableEnter_moved g hok q l).2⟩

theorem exit_moves (g : Gauges) {t : TaskCtx} (hok : RecordOk (some t)) :
    Moves g (some t) (mlfqRunnableExit g t).1 (some (mlfqRunnableExit g t).2) :=
  ⟨(mlfqRunnableExit_moved g hok).1, .inl (mlfqRunnableExit_moved g hok).2⟩

/-- An insert of `mlfq_enqueue`: the placement before the count and the
stamps after it are outside the record. -/
theorem InsertsFor.moves {m : Machine} {t placed : TaskCtx} {flags : EnqFlags} {now : U64}
    {owner : Nat} {insert : DsqInsert} {r : EnqueueResult}
    (h : InsertsFor m placed flags now owner insert r) (hok : RecordOk (some t))
    (hllc : placed.lastLlc = t.lastLlc) (hqid : placed.lastQid = t.lastQid) :
    Moves m.gauges (some t) r.machine.gauges r.tctx := by
  have hplaced : RecordOk (some placed) := (record_congr hllc hqid).2.2 hok
  have henter := enter_moves m.gauges hplaced placed.queue (m.llcOfCpu owner)
  rw [h.gauges, h.tctx]
  exact (henter.congr_left hllc hqid).congr rfl rfl

/-- **Every exit of `mlfq_enqueue` is a move.** -/
theorem Exits.moves {m : Machine} {p : TaskStruct} {t : TaskCtx} {flags : EnqFlags} {now : U64}
    {r : EnqueueResult} (h : Exits m p t flags now r) (hok : RecordOk (some t)) :
    Moves m.gauges (some t) r.machine.gauges r.tctx := by
  cases h with
  | noCpu route pinned cpu insert error tctx machine =>
      rw [machine, tctx]
      exact .refl hok
  | pinnedGlobal route pinned gauges tctx insert error =>
      rw [gauges, tctx]
      exact (exit_moves m.gauges hok).congr rfl rfl
  | pinnedIdle route pinned allowed inserts => exact inserts.moves hok rfl rfl
  | pinnedBusy route pinned allowed inserts =>
      exact inserts.moves hok (placedTask_record m t).1 (placedTask_record m t).2
  | fastPath route free idle inserts => exact inserts.moves hok rfl rfl
  | preempt route free slow wakeup stays allowed slice inserts => exact inserts.moves hok rfl rfl
  | regular route free slow inserts =>
      exact inserts.moves hok (placedTask_record m t).1 (placedTask_record m t).2

theorem enqueueTask_moves (m : Machine) (p : TaskStruct) {t : TaskCtx} (flags : EnqFlags)
    (now : U64) (hok : RecordOk (some t)) :
    Moves m.gauges (some t) (enqueueTask m p t flags now).machine.gauges
      (enqueueTask m p t flags now).tctx := by
  obtain ⟨hllc, hqid, -⟩ := settledTask_frame m p flags t now
  rcases enqueueTask_exits m p t flags now with ⟨-, heq⟩ | ⟨-, hexit⟩
  · rw [heq]
    exact .refl hok
  · exact (hexit.moves ((record_congr hllc hqid).2.2 hok)).congr_left hllc hqid

theorem Machine.addWait_gauges (m : Machine) (wait : Option U64) :
    (m.addWait wait).gauges = m.gauges := by
  cases wait <;> rfl

theorem Machine.q1Set_gauges (m : Machine) (cpu : Nat) (occupied : Bool) :
    (m.q1Set cpu occupied).gauges = m.gauges := by
  rw [Machine.q1Set]
  split <;> rfl

/-- The start of a segment acquires the record of a parked task, and
touches it in no other way. -/
theorem mlfqRunning_record (m : Machine) (p : TaskStruct) (t : TaskCtx) (now : U64) :
    (mlfqRunning m p t now).machine.gauges = (acquireOnRunning m t).1 ∧
    (mlfqRunning m p t now).tctx.lastLlc = (acquireOnRunning m t).2.lastLlc ∧
    (mlfqRunning m p t now).tctx.lastQid = (acquireOnRunning m t).2.lastQid := by
  obtain ⟨qw, wl, sq, hwait⟩ := measureWait_frame m.rod
    { (acquireOnRunning m t).2 with
      lastRunAt := now, flags := { (acquireOnRunning m t).2.flags with firstRun := false } } now
  refine ⟨?_, ?_, ?_⟩
  · simp only [mlfqRunning, startMachine, Machine.addWait_gauges, Machine.q1Set_gauges]
  · simp only [mlfqRunning, startSegment, hwait]
  · simp only [mlfqRunning, startSegment, hwait]

theorem mlfqRunning_moves (m : Machine) (p : TaskStruct) {t : TaskCtx} (now : U64)
    (hok : RecordOk (some t)) :
    Moves m.gauges (some t) (mlfqRunning m p t now).machine.gauges
      (some (mlfqRunning m p t now).tctx) := by
  obtain ⟨hgauges, hllc, hqid⟩ := mlfqRunning_record m p t now
  rw [hgauges]
  refine Moves.congr ?_ hllc hqid
  rw [acquireOnRunning]
  by_cases hun : t.lastLlc = mlfqLlcUnowned
  · rw [if_pos hun]
    exact enter_moves m.gauges hok _ _
  · rw [if_neg hun]
    exact .refl hok

/-- A context in no domain is in no queue. -/
theorem uncounted_record {t : Option TaskCtx} (h : recordLlc t = none) :
    recordQueue t = none ∧ RecordOk t := by
  cases t with
  | none => exact ⟨rfl, trivial⟩
  | some u =>
      by_cases hun : u.lastLlc = mlfqLlcUnowned
      · exact ⟨if_pos hun, .inl hun⟩
      · rw [recordLlc, if_neg hun] at h
        cases h

/-- A context that is not counted may be replaced by one that is not. -/
theorem Moves.uncounted {g : Gauges} {t t' : Option TaskCtx} (hllc : recordLlc t = none)
    (hllc' : recordLlc t' = none) : Moves g t g t' := by
  obtain ⟨hq, -⟩ := uncounted_record hllc
  obtain ⟨hq', hok'⟩ := uncounted_record hllc'
  exact ⟨(Gauges.moved_of_record (hllc'.trans hllc.symm) (hq'.trans hq.symm)).symm, hok'⟩

/-- Also before the call. -/
theorem Moves.of_uncounted {g g' : Gauges} {t u t' : Option TaskCtx} (h : Moves g u g' t')
    (hu : recordLlc u = none) (ht : recordLlc t = none) : Moves g t g' t' := by
  refine ⟨?_, h.ok⟩
  rw [h.gauges, Gauges.moved, Gauges.moved, hu, ht, (uncounted_record hu).1,
    (uncounted_record ht).1]

/-- **Every call is a move.** -/
theorem callGauges_moves {g g' : Gauges} {t t' : Option TaskCtx} {c : GaugeCall}
    (hok : RecordOk t) (h : callGauges g t c = some (g', t')) : Moves g t g' t' := by
  cases c with
  | enqueue m p flags alloc now =>
      simp only [callGauges, Option.some.injEq, Prod.mk.injEq] at h
      obtain ⟨rfl, rfl⟩ := h
      cases t with
      | some t => exact enqueueTask_moves { m with gauges := g } p flags now hok
      | none =>
          cases alloc with
          | none => exact .refl hok
          | some a =>
              -- a task without a context was not counted, and neither is a new context
              have hreset : RecordOk (some (mlfqResetTaskCtx a p now)) := .inl rfl
              have hmoves := enqueueTask_moves { m with gauges := g } p flags now hreset
              exact hmoves.of_uncounted (recordLlc_unowned rfl) rfl
  | running m p now =>
      cases t with
      | none =>
          cases h
          exact .refl hok
      | some t =>
          simp only [callGauges, Option.some.injEq, Prod.mk.injEq] at h
          obtain ⟨rfl, rfl⟩ := h
          exact mlfqRunning_moves { m with gauges := g } p now hok
  | steal m qid cpu =>
      cases t with
      | none =>
          cases h
          exact .refl hok
      | some t =>
          cases h
          exact enter_moves g hok qid _
  | quiescent m =>
      cases t with
      | none =>
          cases h
          exact .refl hok
      | some t =>
          cases h
          exact exit_moves g hok
  | reset p alloc now =>
      simp only [callGauges] at h
      split at h
      · rename_i hun
        cases h
        exact .uncounted hun (recordLlc_unowned rfl)
      · cases h
  | exitTask =>
      simp only [callGauges] at h
      split at h
      · rename_i hun
        cases h
        exact .uncounted hun rfl
      · cases h
  | other u =>
      cases t with
      | none => cases h
      | some t =>
          simp only [callGauges] at h
          split at h
          · rename_i hrec
            cases h
            exact (Moves.refl hok).congr hrec.1 hrec.2
          · cases h

/-- **`mlfq_quiescent` leaves its task uncounted**, and so does every call
on an uncounted task that is neither an insert nor a start nor a steal. -/
theorem callGauges_uncounted {g g' : Gauges} {t t' : Option TaskCtx} {c : GaugeCall}
    (hok : RecordOk t) (h : callGauges g t c = some (g', t'))
    (hc : c.runnable = some false ∨ (c.runnable = none ∧ recordLlc t = none)) :
    recordLlc t' = none := by
  cases c with
  | enqueue m p flags alloc now => rcases hc with hc | ⟨hc, -⟩ <;> cases hc
  | running m p now => rcases hc with hc | ⟨hc, -⟩ <;> cases hc
  | steal m qid cpu => rcases hc with hc | ⟨hc, -⟩ <;> cases hc
  | quiescent m =>
      cases t with
      | none =>
          cases h
          rfl
      | some t =>
          cases h
          exact recordLlc_unowned (mlfqRunnableExit_moved g hok).2
  | reset p alloc now =>
      simp only [callGauges] at h
      split at h
      · cases h
        exact recordLlc_unowned rfl
      · cases h
  | exitTask =>
      simp only [callGauges] at h
      split at h
      · cases h
        rfl
      · cases h
  | other u =>
      obtain ⟨-, hnone⟩ := hc.resolve_left nofun
      cases t with
      | none => cases h
      | some t =>
          simp only [callGauges] at h
          split at h
          · rename_i hrec
            cases h
            rw [(record_congr hrec.1 hrec.2).1]
            exact hnone
          · cases h

/-! ## The runs -/

variable {ι : Type*}

/-- The tasks with their contexts, and the gauges they share. -/
structure GaugeState (ι : Type*) where
  tasks : ι → Option TaskCtx
  gauges : Gauges

/-- One call on one task. -/
def stepGauges [DecidableEq ι] (s : GaugeState ι) (x : ι × GaugeCall) : Option (GaugeState ι) :=
  (callGauges s.gauges (s.tasks x.1) x.2).map fun r =>
    { tasks := Function.update s.tasks x.1 r.2, gauges := r.1 }

/-- The runs from zeroed gauges, before any task has a context. -/
abbrev GaugeRun [DecidableEq ι] :
    List (Entry (GaugeState ι) (ι × GaugeCall)) → GaugeState ι → Prop :=
  Run (fun s x s' => stepGauges s x = some s') (fun s => s = ⟨fun _ => none, {}⟩)

/-- Whether task `i` is in a runnable episode: the latest of its calls
that says so. -/
def inEpisode [DecidableEq ι] (i : ι) : List (Entry (GaugeState ι) (ι × GaugeCall)) → Bool
  | [] => false
  | x :: tr =>
      if x.event.1 = i then x.event.2.runnable.getD (inEpisode i tr) else inEpisode i tr

/-- The classes of all tasks after one context changed. -/
theorem class_update [DecidableEq ι] {κ : Type*} (f : Option TaskCtx → Option κ)
    (tasks : ι → Option TaskCtx) (i : ι) (t' : Option TaskCtx) :
    (fun j => f (Function.update tasks i t' j))
      = Function.update (fun j => f (tasks j)) i (f t') :=
  Function.comp_update f tasks i t'

variable [Fintype ι]

/-- The records are in range and the gauges are their census. -/
structure Counted (s : GaugeState ι) : Prop where
  ok : ∀ i, RecordOk (s.tasks i)
  llc : Tracks 0 s.gauges.llcRunnable fun i => recordLlc (s.tasks i)
  queue : Tracks 0 s.gauges.queueRunnable fun i => recordQueue (s.tasks i)

theorem Counted.start : Counted (⟨fun _ => none, {}⟩ : GaugeState ι) :=
  ⟨fun _ => trivial, .zero fun _ => rfl, .zero fun _ => rfl⟩

theorem Counted.step [DecidableEq ι] {s s' : GaugeState ι} {x : ι × GaugeCall}
    (h : Counted s) (hs : stepGauges s x = some s') : Counted s' := by
  obtain ⟨⟨g', t'⟩, hcall, rfl⟩ := Option.map_eq_some_iff.mp hs
  have hmoves := callGauges_moves (h.ok x.1) hcall
  constructor
  · intro j
    by_cases hj : j = x.1
    · subst hj
      simp only [Function.update_self]
      exact hmoves.ok
    · simp only [Function.update_of_ne hj]
      exact h.ok j
  · simp only [class_update recordLlc, hmoves.gauges]
    exact h.llc.move x.1 (recordLlc t')
  · simp only [class_update recordQueue, hmoves.gauges]
    exact h.queue.move x.1 (recordQueue t')

theorem GaugeRun.counted [DecidableEq ι] {tr : List (Entry (GaugeState ι) (ι × GaugeCall))}
    {s : GaugeState ι} (h : GaugeRun tr s) : Counted s := by
  apply Run.invariant (I := fun _ s => Counted s) _ _ h
  · rintro s rfl
    exact .start
  · intro tr s x s' hI hs
    exact hI.step hs

/-- **A task that has quiesced is not counted.** -/
theorem GaugeRun.uncounted [DecidableEq ι] {tr : List (Entry (GaugeState ι) (ι × GaugeCall))}
    {s : GaugeState ι} (h : GaugeRun tr s) {i : ι} (hi : inEpisode i tr = false) :
    recordLlc (s.tasks i) = none := by
  induction h with
  | start hinit =>
      rw [hinit]
      rfl
  | @snoc tr s s' x hrun hs ih =>
      obtain ⟨⟨g', t'⟩, hcall, rfl⟩ := Option.map_eq_some_iff.mp hs
      rw [inEpisode] at hi
      by_cases hx : x.1 = i
      · rw [if_pos hx] at hi
        subst hx
        have hok := (GaugeRun.counted hrun).ok x.1
        show recordLlc (Function.update s.tasks x.1 t' x.1) = none
        rw [Function.update_self]
        refine callGauges_uncounted hok hcall ?_
        cases hc : x.2.runnable with
        | none =>
            rw [hc] at hi
            exact .inr ⟨rfl, ih hi⟩
        | some b =>
            rw [hc] at hi
            cases hi
            exact .inl rfl
      · rw [if_neg hx] at hi
        show recordLlc (Function.update s.tasks x.1 t' i) = none
        rw [Function.update_of_ne (Ne.symm hx)]
        exact ih hi

/-- A record in range names classes of the arrays. -/
theorem record_classes {t : Option TaskCtx} (h : RecordOk t) :
    (∀ l, recordLlc t = some l → l ∈ Finset.range mlfqMaxLlcs) ∧
    (∀ q, recordQueue t = some q → q ∈ Finset.Icc 1 mlfqNrQueues) ∧
    (recordLlc t ≠ none ↔ recordQueue t ≠ none) := by
  cases t with
  | none => exact ⟨nofun, nofun, Iff.rfl⟩
  | some t =>
      by_cases hun : t.lastLlc = mlfqLlcUnowned
      · rw [recordLlc_unowned hun, recordQueue_unowned hun]
        exact ⟨nofun, nofun, Iff.rfl⟩
      · obtain ⟨hllc, hqid⟩ := h.resolve_left hun
        simp only [recordLlc, recordQueue, if_neg hun, Option.some.injEq]
        refine ⟨?_, ?_, ?_⟩
        · rintro l rfl
          exact Finset.mem_range.mpr hllc
        · rintro q rfl
          exact Finset.mem_Icc.mpr hqid
        · simp

/-- **Conservation of the runnable gauges.** In every reachable state
each gauge is the number of tasks that its records name, the two sums
agree, and the gauges a counted task is taken from are not zero. A
`mlfq_quiescent` leaves its task uncounted, and all gauges are zero when
no task is counted, so once every task has quiesced. -/
structure Conserved [DecidableEq ι] (tr : List (Entry (GaugeState ι) (ι × GaugeCall)))
    (s : GaugeState ι) : Prop where
  llc : ∀ l, (s.gauges.llcRunnable l).toNat = count (fun i => recordLlc (s.tasks i)) l
  queue : ∀ q, (s.gauges.queueRunnable q).toNat = count (fun i => recordQueue (s.tasks i)) q
  sums : ∑ l ∈ Finset.range mlfqMaxLlcs, (s.gauges.llcRunnable l).toNat
    = ∑ q ∈ Finset.Icc 1 mlfqNrQueues, (s.gauges.queueRunnable q).toNat
  positive : ∀ i t, s.tasks i = some t → t.lastLlc ≠ mlfqLlcUnowned →
    s.gauges.llcRunnable t.lastLlc.toNat ≠ 0 ∧ s.gauges.queueRunnable t.lastQid.toNat ≠ 0
  released : ∀ i, inEpisode i tr = false → recordLlc (s.tasks i) = none
  drained : (∀ i, recordLlc (s.tasks i) = none) → ∀ k,
    s.gauges.llcRunnable k = 0 ∧ s.gauges.queueRunnable k = 0
  quiesced : (∀ i, inEpisode i tr = false) → ∀ k,
    s.gauges.llcRunnable k = 0 ∧ s.gauges.queueRunnable k = 0

/-- Gauges that count no task are zero. -/
theorem Counted.drained (hι : Fintype.card ι < 2 ^ 32) {s : GaugeState ι} (h : Counted s)
    (hnone : ∀ i, recordLlc (s.tasks i) = none) (k : Nat) :
    s.gauges.llcRunnable k = 0 ∧ s.gauges.queueRunnable k = 0 := by
  have hnoneq : ∀ i, recordQueue (s.tasks i) = none := fun i => (uncounted_record (hnone i)).1
  constructor
  · apply BitVec.eq_of_toNat_eq
    rw [h.llc.toNat hι, count_eq_zero hnone]
    rfl
  · apply BitVec.eq_of_toNat_eq
    rw [h.queue.toNat hι, count_eq_zero hnoneq]
    rfl

theorem gauges_conserved [DecidableEq ι] (hι : Fintype.card ι < 2 ^ 32)
    {tr : List (Entry (GaugeState ι) (ι × GaugeCall))} {s : GaugeState ι}
    (h : GaugeRun tr s) : Conserved tr s := by
  have hcounted := h.counted
  have hllc := hcounted.llc.toNat hι
  have hqueue := hcounted.queue.toNat hι
  have hreleased (i : ι) (hi : inEpisode i tr = false) := h.uncounted hi
  refine ⟨hllc, hqueue, ?_, ?_, hreleased, hcounted.drained hι,
    fun hq => hcounted.drained hι fun i => hreleased i (hq i)⟩
  · simp only [hllc, hqueue]
    rw [sum_count _ _ fun i => (record_classes (hcounted.ok i)).1,
      sum_count _ _ fun i => (record_classes (hcounted.ok i)).2.1]
    congr 1
    exact Finset.filter_congr fun i _ => (record_classes (hcounted.ok i)).2.2
  · intro i t ht hun
    have hl : recordLlc (s.tasks i) = some t.lastLlc.toNat := by
      rw [ht]
      exact if_neg hun
    have hq : recordQueue (s.tasks i) = some t.lastQid.toNat := by
      rw [ht]
      exact if_neg hun
    have hlpos : 0 < count (fun i => recordLlc (s.tasks i)) t.lastLlc.toNat := count_pos hl
    have hqpos : 0 < count (fun i => recordQueue (s.tasks i)) t.lastQid.toNat := count_pos hq
    constructor
    · intro hzero
      rw [← hllc, hzero] at hlpos
      exact absurd hlpos (by decide)
    · intro hzero
      rw [← hqueue, hzero] at hqpos
      exact absurd hqpos (by decide)

/-- Two tasks wake on CPU 0; the second is stolen to CPU 1, runs there
and blocks; then the first runs and blocks. -/
def stolenTask : List (Bool × GaugeCall) :=
  let p : TaskStruct := { pid := 1 }
  [(false, .reset p {} 1), (true, .reset p {} 1),
    (false, .enqueue (twoLlcs 0) p { wakeup := true } none 2),
    (true, .enqueue (twoLlcs 0) p { wakeup := true } none 3),
    (true, .steal (twoLlcs 1) .q1 1), (true, .running (twoLlcs 1) p 4),
    (true, .quiescent (twoLlcs 1)), (false, .running (twoLlcs 0) p 5),
    (false, .quiescent (twoLlcs 0))]

/-- The gauges of domain 0 and queue 1 go up to two tasks and come back
to none. -/
theorem gauges_conserved_stolen :
    ∃ tr s, @GaugeRun Bool _ tr s
      ∧ (∃ x ∈ tr, x.post.gauges.llcRunnable 0 = 2 ∧ x.post.gauges.queueRunnable 1 = 2)
      ∧ s.gauges.llcRunnable 0 = 0 ∧ s.gauges.queueRunnable 1 = 0 ∧ Conserved tr s := by
  obtain ⟨tr, s, h, hs⟩ : ∃ tr s, @GaugeRun Bool _ tr s
      ∧ (tr.any (fun x => decide (x.post.gauges.llcRunnable 0 = 2)
          && decide (x.post.gauges.queueRunnable 1 = 2))
        && !inEpisode false tr && !inEpisode true tr) = true :=
    exec_reaches stepGauges (by exact rfl) stolenTask
      (fun tr _ => tr.any (fun x => decide (x.post.gauges.llcRunnable 0 = 2)
          && decide (x.post.gauges.queueRunnable 1 = 2))
        && !inEpisode false tr && !inEpisode true tr) (by decide)
  simp only [Bool.and_eq_true, List.any_eq_true, decide_eq_true_eq, Bool.not_eq_true'] at hs
  obtain ⟨⟨hboth, hfirst⟩, hsecond⟩ := hs
  have hcons := gauges_conserved (by decide) h
  have hzero := hcons.quiesced fun i => by cases i <;> assumption
  exact ⟨tr, s, h, hboth, (hzero 0).1, (hzero 1).2, hcons⟩

end ScxMlfq
