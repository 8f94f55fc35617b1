import ScxMlfq.Bpf.Cadence
import ScxMlfq.Run.Task

/-!
# Run — Sleep

The account of a task's sleeps over whole runs. A blocking stop stamps
the sleep; the wakeup enqueue charges it to the gauge, captures its
length and consumes the stamp; the next blocking stop folds the captured
length into the cadence gauges. The ledger of a run follows each sleep
through these stations by its place in the run. What it says the code
holds is what the code holds, after every callback: the stamp, the
pending sleep, and the cadence gauges as the folds of the ledger leave
them. Which sleeps the code then loses or uses twice is read off it:
those a direct insert delivered, because it skips the enqueue, those of
a task that captures nothing, and those of a stop no wakeup followed.
-/

namespace ScxMlfq

open Trace

/-! ## The cadence -/

/-- The cadence gauges: mean and variance of the sleeps. -/
structure Cadence where
  mean : U64
  var : U64

def TaskCtx.cadence (t : TaskCtx) : Cadence := ⟨t.sleepMeanEma, t.sleepVarEma⟩

/-- One sleep averaged in, clamped, with weight 8 / 256. -/
def Cadence.fold (c : Cadence) (s : U64) : Cadence where
  mean := (c.mean * 248 + cadenceClamp s * 8) / 256
  var := (c.var * 248
    + cadenceDiff c.mean (cadenceClamp s) * cadenceDiff c.mean (cadenceClamp s) * 8) / 256

theorem mlfqSleepEmaUpdate_cadence (t : TaskCtx) (s : U64) :
    (mlfqSleepEmaUpdate t s).cadence = t.cadence.fold s := by
  rw [mlfqSleepEmaUpdate, cadenceStep_eq, averageCadence_eq]
  rfl

/-! ## The ledger -/

/-- A start of a sleep: its place in the run and its time. -/
structure Stamp where
  id : Nat
  since : U64

/-- A sleep: its stamp, and the gauge the stop left. -/
structure Sleep extends Stamp where
  ema : U64

/-- A sleep that ended in a wakeup. -/
structure WokenSleep extends Sleep where
  wokenAt : U64
  halfLife : U64

/-- The gauge after a sleep that was charged once. -/
def WokenSleep.charged (w : WokenSleep) : U64 :=
  mlfqEmaDecay w.ema (w.wokenAt - w.since) w.halfLife

/-- What the code measures of a sleep: its end lies after its start. -/
structure Interval extends Stamp where
  upTo : U64
  before : mlfqTimeBefore since upTo = true

def Interval.length (v : Interval) : U64 := v.upTo - v.since

/-- The interval from a stamp to `now`, if the code measures one. -/
def Stamp.interval (z : Stamp) (now : U64) : Option Interval :=
  if h : z.since ≠ 0 ∧ mlfqTimeBefore z.since now = true then some ⟨z, now, h.2⟩ else none

/-- A change of the cadence gauges. -/
inductive CadenceFold where
  /-- A blocking stop folded the interval. -/
  | sleep (v : Interval)
  /-- A blocking stop had none to fold. -/
  | longIdle
  /-- A reset. -/
  | cleared

/-- The sleep a fold is of. -/
def CadenceFold.id : CadenceFold → Option Nat
  | .sleep v => some v.id
  | _ => none

def CadenceFold.apply (c : Cadence) : CadenceFold → Cadence
  | .sleep v => c.fold v.length
  | .longIdle => if c.mean ≠ 0 then c.fold (mlfqLongSleepNs + 1) else c
  | .cleared => ⟨0, 0⟩

/-- The gauges after some folds, the latest first. -/
def Cadence.after : List CadenceFold → Cadence
  | [] => ⟨0, 0⟩
  | f :: fs => f.apply (after fs)

/-- Where the sleeps of a run stand. -/
structure Ledger where
  /-- The sleep the task is in. -/
  asleep : Option Sleep := none
  /-- The latest sleep, from its wakeup to the first run after it. -/
  woken : Option WokenSleep := none
  /-- The start `last_sleep_at` holds. -/
  stamp : Option Stamp := none
  /-- The interval the pending features hold. -/
  captured : Option Interval := none
  /-- What was folded into the cadence gauges, the latest first. -/
  folds : List CadenceFold := []

namespace Ledger

/-- The sleeps folded so far. -/
def folded (led : Ledger) : List Nat := led.folds.filterMap CadenceFold.id

/-- The ledger of a task just initialised: the reset stamped it. -/
def start (t : TaskCtx) : Ledger := { stamp := some ⟨0, t.lastSleepAt⟩ }

/-- The wakeup of a sleeping task. -/
def wake (led : Ledger) (m : Machine) (now : U64) : Ledger :=
  match led.asleep with
  | none => led
  | some z => { led with asleep := none, woken := some ⟨z, now, m.rod.emaHalfLifeNs⟩ }

/-- What an enqueue does with the stamp and the pending features. -/
def capture (led : Ledger) (p : TaskStruct) (flags : EnqFlags) (now : U64) : Ledger :=
  if flags.wakeup then
    { led with
      captured := if schedIdle p then led.captured else led.stamp.bind (·.interval now)
      stamp := none }
  else if flags.isZero then
    { led with captured := if schedIdle p then led.captured else none }
  else led

/-- The interval a blocking stop folds: the captured one, else the one
from a stamp no wakeup consumed. -/
def source (led : Ledger) (now : U64) : Option Interval :=
  led.captured <|> led.stamp.bind (·.interval now)

def foldAt (led : Ledger) (now : U64) : CadenceFold :=
  match led.source now with
  | some v => .sleep v
  | none => .longIdle

/-- A blocking stop, the `n`-th callback of the run. -/
def block (led : Ledger) (n : Nat) (ema now : U64) : Ledger :=
  { led with
    asleep := some ⟨⟨n, now⟩, ema⟩
    stamp := some ⟨n, now⟩
    folds := led.foldAt now :: led.folds }

/-- A reset, the `n`-th callback: it clears the gauges and stamps a task
that does not run. It does not end a sleep. -/
def reset (led : Ledger) (n : Nat) (p : TaskStruct) (now : U64) : Ledger :=
  { led with
    woken := none
    stamp := if p.running then none else some ⟨n, now⟩
    folds := .cleared :: led.folds }

/-- One callback, the `n`-th. -/
def next (n : Nat) (x : TaskEntry) (led : Ledger) : Ledger :=
  match x.event with
  | .reset p now => led.reset n p now
  | .select m _ _ _ now => if x.post.phase = .queued then led.wake m now else led
  | .enqueue m p flags now => (led.wake m now).capture p flags now
  | .running _ _ _ => { led with asleep := none, woken := none }
  | .stopping _ _ runnable now =>
      if runnable then led else led.block n x.post.tctx.ema now
  | _ => led

end Ledger

/-- The ledger of a run that ends in `s`. -/
def ledger : List TaskEntry → TaskState → Ledger
  | [], s => .start s.tctx
  | x :: tr, _ => (ledger tr x.pre).next (tr.length + 1) x

/-- The length of the captured sleep, as the code holds it. -/
def Ledger.capturedNs (led : Ledger) : U64 := (led.captured.map Interval.length).getD 0

/-- The start of the stamped sleep, as the code holds it. -/
def Ledger.stampedAt (led : Ledger) : U64 := (led.stamp.map Stamp.since).getD 0

/-- The task holds what the ledger says it holds. -/
structure Ledger.Reads (led : Ledger) (t : TaskCtx) : Prop where
  stamp : t.lastSleepAt = led.stampedAt
  captured : t.pendingFeats.sleepNs = led.capturedNs
  cadence : t.cadence = Cadence.after led.folds

/-- **Every sleep is charged exactly once**, so far: the gauge of a
woken task that has not run yet is the gauge at the stop decayed over
exactly the sleep; the cadence gauges are those of the folded sleeps,
each averaged in as often as it is listed; and none is listed twice. -/
structure SleepsOnce (tr : List TaskEntry) (s : TaskState) : Prop where
  charged : ∀ w, (ledger tr s).woken = some w → s.tctx.ema = w.charged
  reads : (ledger tr s).Reads s.tctx
  folded : (ledger tr s).folded.Nodup

/-! ## The steps that keep the account -/

/-- Whether a wakeup at `now` measures a sleep that began at `since`. -/
def measures (rod : Rodata) (since now : U64) : Bool :=
  (decide (since ≠ 0) && mlfqTimeBefore since now)
    || (decide (since = now) && decide (rod.emaHalfLifeNs <<< 6 ≠ 0))

/-- What a callback of a sleeping task must be for the account to hold:
no reset, no direct insert, a wakeup that measures the sleep and does
not leave an older sleep in the pending features, and no start that
finds one there. -/
def accounted (x : TaskEntry) : Bool :=
  decide (x.pre.phase ≠ .asleep) ||
    match x.event with
    | .reset _ _ => false
    | .select m p _ sync _ =>
        (if syncWanted x.pre.tctx sync then syncHandoff m p else none).isNone
    | .enqueue m p _ now =>
        measures m.rod x.pre.tctx.lastSleepAt now
          && (!schedIdle p || decide (x.pre.tctx.pendingFeats.sleepNs = 0))
    | .running _ _ _ => decide (x.pre.tctx.pendingFeats.sleepNs = 0)
    | _ => true

/-- A wakeup that measures the sleep charges exactly the sleep. -/
theorem chargeSleep_of_measures {rod : Rodata} {t : TaskCtx} {now : U64}
    (h : measures rod t.lastSleepAt now = true) :
    (chargeSleep rod t now).ema
      = mlfqEmaDecay t.ema (now - t.lastSleepAt) rod.emaHalfLifeNs := by
  have hema : (chargeSleep rod t now).ema
      = if t.lastSleepAt ≠ 0 ∧ mlfqTimeBefore t.lastSleepAt now
        then mlfqEmaDecay t.ema (now - t.lastSleepAt) rod.emaHalfLifeNs else t.ema := rfl
  rw [hema]
  split
  · rfl
  · rename_i hno
    rw [measures, Bool.or_eq_true, Bool.and_eq_true, Bool.and_eq_true, decide_eq_true_eq,
      decide_eq_true_eq, decide_eq_true_eq] at h
    rcases h with hyes | ⟨heq, hhalf⟩
    · exact absurd hyes hno
    · rw [heq, BitVec.sub_self]
      exact (mlfqEmaDecay_zero _ hhalf).symm

/-- An enqueue of a task without a stamp charges nothing. -/
theorem enqueue_unstamped {s s' : TaskState} {m : Machine} {p : TaskStruct}
    {flags : EnqFlags} {now : U64} (hs : stepTask s (.enqueue m p flags now) = some s')
    (hzero : s.tctx.lastSleepAt = 0) : s'.tctx.ema = s.tctx.ema := by
  obtain ⟨-, -, hplace⟩ := stepTask_enqueue hs
  rw [hplace.routed.ema_eq]
  cases hw : flags.wakeup with
  | true =>
      rw [(settleQueue_wakeup (m := m) (p := p) hw (weighed p s.tctx) now).1, chargeSleep]
      simp [weighed, hzero]
  | false => exact (settleQueue_not_wakeup (m := m) (p := p) hw (weighed p s.tctx) now).1

/-! ## The task holds what the ledger says -/

theorem Interval.length_ne_zero (v : Interval) : v.length ≠ 0 := by
  intro h
  have hb := v.before
  have heq : v.since = v.upTo := (sub_eq_zero.mp h).symm
  rw [mlfqTimeBefore, heq, BitVec.sub_self] at hb
  exact absurd hb (by decide)

/-- What the code measures from a stamp is the interval of the ledger. -/
theorem Stamp.interval_length (z : Option Stamp) (now : U64) :
    ((z.bind (·.interval now)).map Interval.length).getD 0
      = if (z.map Stamp.since).getD 0 ≠ 0
          ∧ mlfqTimeBefore ((z.map Stamp.since).getD 0) now = true
        then now - (z.map Stamp.since).getD 0 else 0 := by
  cases z with
  | none => simp
  | some z =>
      simp only [Option.bind_some, Option.map_some, Option.getD_some, Stamp.interval]
      split <;> rfl

namespace Ledger

variable {led : Ledger} {t t' : TaskCtx} {now : U64}

/-- A wakeup opens an entry and leaves the rest of the ledger. -/
theorem wake_frame (led : Ledger) (m : Machine) (now : U64) :
    ∃ w z, led.wake m now = { led with asleep := z, woken := w } := by
  rw [wake]
  split
  · exact ⟨led.woken, led.asleep, rfl⟩
  · exact ⟨_, _, rfl⟩

/-- An enqueue opens the entry of a wakeup and moves the capture, each
without the other. -/
theorem capture_wake (led : Ledger) (m : Machine) (p : TaskStruct) (flags : EnqFlags)
    (now : U64) : (led.wake m now).capture p flags now
      = { led.capture p flags now with
          asleep := (led.wake m now).asleep, woken := (led.wake m now).woken } := by
  obtain ⟨w, z, hwake⟩ := led.wake_frame m now
  rw [hwake, capture, capture]
  split
  · rfl
  · split <;> rfl

theorem capture_stamp (led : Ledger) (p : TaskStruct) (flags : EnqFlags) (now : U64) :
    (led.capture p flags now).stamp = (if flags.wakeup then none else led.stamp)
      ∧ (led.capture p flags now).folds = led.folds := by
  rw [capture]
  split
  · exact ⟨rfl, rfl⟩
  · split <;> exact ⟨rfl, rfl⟩

/-- No sleep is open after an enqueue. -/
theorem wake_asleep (led : Ledger) (m : Machine) (now : U64) :
    (led.wake m now).asleep = none := by
  rw [wake]
  split
  · rename_i hz
    exact hz
  · rfl

/-- The task reads the stamp, the captured sleep and the folds only. -/
theorem Reads.congr {led' : Ledger} (h : led.Reads t) (hstamp : led'.stamp = led.stamp)
    (hcaptured : led'.captured = led.captured) (hfolds : led'.folds = led.folds)
    (hat : t'.lastSleepAt = t.lastSleepAt) (hfeats : t'.pendingFeats = t.pendingFeats)
    (hcad : t'.cadence = t.cadence) : led'.Reads t' := by
  constructor
  · rw [hat, h.stamp, stampedAt, stampedAt, hstamp]
  · rw [hfeats, h.captured, capturedNs, capturedNs, hcaptured]
  · rw [hcad, h.cadence, hfolds]

theorem Reads.captured_none (h : led.Reads t) (hzero : t.pendingFeats.sleepNs = 0) :
    led.captured = none := by
  rw [h.captured, capturedNs] at hzero
  cases hv : led.captured with
  | none => rfl
  | some v =>
      rw [hv] at hzero
      exact absurd hzero v.length_ne_zero

theorem Reads.wakeupSleepNs_eq (h : led.Reads t) (now : U64) :
    wakeupSleepNs t now
      = ((led.stamp.bind (·.interval now)).map Interval.length).getD 0 := by
  rw [Stamp.interval_length, wakeupSleepNs, h.stamp]
  rfl

/-- **A blocking stop folds the interval the ledger says.** -/
theorem Reads.foldSleep (h : led.Reads t) (now : U64) :
    (foldSleep t now).cadence = (led.foldAt now).apply t.cadence := by
  have hlen : foldedSleepNs t now = ((led.source now).map Interval.length).getD 0 := by
    have hwake := h.wakeupSleepNs_eq now
    rw [wakeupSleepNs] at hwake
    rw [foldedSleepNs, hwake, h.captured, capturedNs, source]
    cases led.captured with
    | none => rfl
    | some v =>
        show (if v.length ≠ 0 then v.length else _) = v.length
        rw [if_pos v.length_ne_zero]
  rw [ScxMlfq.foldSleep, hlen, foldAt]
  cases led.source now with
  | some v =>
      show (if v.length ≠ 0 then _ else _ : TaskCtx).cadence = t.cadence.fold v.length
      rw [if_pos v.length_ne_zero]
      exact mlfqSleepEmaUpdate_cadence t v.length
  | none =>
      show (if t.sleepMeanEma ≠ 0 then _ else t).cadence = if t.cadence.mean ≠ 0 then _ else _
      by_cases hmean : t.sleepMeanEma ≠ 0
      · have hcad : t.cadence.mean ≠ 0 := hmean
        rw [if_pos hmean, if_pos hcad]
        exact mlfqSleepEmaUpdate_cadence t _
      · have hcad : ¬ t.cadence.mean ≠ 0 := hmean
        rw [if_neg hmean, if_neg hcad]

/-- A stop of either kind. -/
theorem Reads.stopping (h : led.Reads t) (n : Nat) (m : Machine) (p : TaskStruct)
    (runnable : Bool) (ema now : U64) :
    (if runnable then led else led.block n ema now).Reads
      (mlfqStopping m p t runnable now).tctx := by
  obtain ⟨burst, at_, hseg⟩ := stopSegment_frame m p t runnable now
  have hread : led.Reads (stopSegment m p t runnable now).2.1 := by
    rw [hseg]
    exact h.congr rfl rfl rfl rfl rfl rfl
  rw [mlfqStopping_tctx]
  cases runnable with
  | true => exact hread.congr rfl rfl rfl rfl rfl rfl
  | false =>
      have hfold := hread.foldSleep now
      obtain ⟨mean, var, ratio, gpu, hframe⟩ := foldSleep_frame
        (stopSegment m p t false now).2.1 now
      rw [stopBlock_blocks]
      constructor
      · rfl
      · show (ScxMlfq.foldSleep (stopSegment m p t false now).2.1 now).pendingFeats.sleepNs = _
        rw [hframe]
        exact hread.captured
      · show (ScxMlfq.foldSleep (stopSegment m p t false now).2.1 now).cadence
          = (led.foldAt now).apply (Cadence.after led.folds)
        rw [hfold, hread.cadence]

/-- An enqueue moves the sleep from the stamp to the pending features. -/
theorem Reads.enqueue (h : led.Reads t) {m : Machine} {p : TaskStruct} {flags : EnqFlags}
    (hroute : Routed (settleQueue m p flags (weighed p t) now).1 t') :
    (led.capture p flags now).Reads t' := by
  have hsleep := settleQueue_sleepNs m p flags (weighed p t) now
  have hcad : t'.cadence = t.cadence := by
    obtain ⟨hmean, hvar⟩ := settleQueue_cadence m p flags (weighed p t) now
    rw [hroute]
    exact congrArg₂ Cadence.mk hmean hvar
  rw [← hroute.pendingFeats_eq] at hsleep
  have hwake : wakeupSleepNs (weighed p t) now
      = ((led.stamp.bind (·.interval now)).map Interval.length).getD 0 := h.wakeupSleepNs_eq now
  have hkeep : (weighed p t).pendingFeats.sleepNs = led.capturedNs := h.captured
  rw [hwake, hkeep] at hsleep
  have hat := hroute.lastSleepAt_eq
  by_cases hw : flags.wakeup = true
  · rw [(settleQueue_wakeup hw _ now).2] at hat
    rw [if_pos hw] at hsleep
    rw [capture, if_pos hw]
    refine ⟨hat, ?_, hcad.trans h.cadence⟩
    rw [hsleep, capturedNs]
    split <;> rfl
  rw [(settleQueue_not_wakeup (Bool.not_eq_true _ ▸ hw) _ now).2] at hat
  rw [if_neg hw] at hsleep
  rw [capture, if_neg hw]
  by_cases hz : flags.isZero = true
  · rw [if_pos hz] at hsleep
    rw [if_pos hz]
    refine ⟨hat.trans h.stamp, ?_, hcad.trans h.cadence⟩
    rw [hsleep, capturedNs]
    split <;> rfl
  · rw [if_neg hz, ite_self] at hsleep
    rw [if_neg hz]
    exact ⟨hat.trans h.stamp, hsleep, hcad.trans h.cadence⟩

/-- **The task holds what the ledger says after every callback.** -/
theorem Reads.step {n : Nat} {s s' : TaskState} {e : TaskEvent} (h : led.Reads s.tctx)
    (hs : stepTask s e = some s') : (led.next n ⟨s, e, s'⟩).Reads s'.tctx := by
  have hquiet {led' : Ledger} (hq : e.quiet = true) (hstamp : led'.stamp = led.stamp)
      (hcaptured : led'.captured = led.captured) (hfolds : led'.folds = led.folds) :
      led'.Reads s'.tctx := by
    have hund := stepTask_quiet_frame hq hs
    have hk := stepTask_quiet hq hs
    refine h.congr hstamp hcaptured hfolds hk.lastSleepAt hk.pendingFeats ?_
    rw [hund]
    rfl
  cases e with
  | reset p now =>
      obtain ⟨-, rfl⟩ := stepTask_reset hs
      refine ⟨?_, h.captured, rfl⟩
      show (if p.running then 0 else now)
        = ((if p.running then none else some (Stamp.mk n now)).map Stamp.since).getD 0
      split <;> rfl
  | select m p prevCpu sync now =>
      obtain ⟨w, z, hwake⟩ := led.wake_frame m now
      simp only [next]
      split
      · rw [hwake]
        exact hquiet rfl rfl rfl rfl
      · exact hquiet rfl rfl rfl rfl
  | enqueue m p flags now =>
      obtain ⟨-, -, hplace⟩ := stepTask_enqueue hs
      obtain ⟨w, z, hwake⟩ := led.wake_frame m now
      have hopen : (led.wake m now).Reads s.tctx := by
        rw [hwake]
        exact h.congr rfl rfl rfl rfl rfl rfl
      exact hopen.enqueue hplace.routed
  | running m p now => exact hquiet rfl rfl rfl rfl
  | keep => exact hquiet rfl rfl rfl rfl
  | steal m qid cpu => exact hquiet rfl rfl rfl rfl
  | gpuSubmit now => exact hquiet rfl rfl rfl rfl
  | stopping m p runnable now =>
      obtain ⟨-, rfl⟩ := stepTask_stopping hs
      exact h.stopping n m p runnable _ now
  | quiescent m => exact hquiet rfl rfl rfl rfl

end Ledger

/-! ## The invariant of the account -/

/-- What the ledger says of the task before the `n`-th callback. Asleep,
the stamp and the gauge are those of the stop, and only the pending
features may hold a folded sleep, which the wakeup replaces; awake, what
they hold was never folded. -/
structure Ledger.Sound (led : Ledger) (n : Nat) (s : TaskState) : Prop where
  phase : led.asleep.isSome = true ↔ s.phase = .asleep
  slept : ∀ z, led.asleep = some z → led.stamp = some z.toStamp ∧ s.tctx.ema = z.ema
  stamp : ∀ z, led.stamp = some z → z.id < n ∧ z.id ∉ led.folded
    ∧ ∀ v, led.captured = some v → v.id ≠ z.id
  captured : ∀ v, led.captured = some v → v.id < n
    ∧ (s.phase ≠ .asleep → v.id ∉ led.folded)
  woken : ∀ w, led.woken = some w → (s.phase = .queued ∨ s.phase = .off)
    ∧ led.stamp = none ∧ s.tctx.ema = w.charged
  below : ∀ i ∈ led.folded, i < n
  nodup : led.folded.Nodup

/-- The interval from a stamp has its place in the run. -/
theorem Stamp.interval_id {z : Stamp} {now : U64} {v : Interval}
    (h : z.interval now = some v) : v.id = z.id := by
  rw [Stamp.interval] at h
  split at h
  · cases h
    rfl
  · cases h

namespace Ledger.Sound

variable {led : Ledger} {n : Nat} {s s' : TaskState}

theorem awake (h : led.Sound n s) (hp : s.phase ≠ .asleep) : led.asleep = none := by
  cases hz : led.asleep with
  | none => rfl
  | some z => exact absurd (h.phase.mp (by rw [hz]; rfl)) hp

theorem asleep (h : led.Sound n s) (hp : s.phase = .asleep) :
    ∃ z, led.asleep = some z := by
  cases hz : led.asleep with
  | some z => exact ⟨z, rfl⟩
  | none =>
      have hsome := h.phase.mpr hp
      rw [hz] at hsome
      cases hsome

theorem wake_awake (h : led.Sound n s) (hp : s.phase ≠ .asleep) (m : Machine) (now : U64) :
    led.wake m now = led := by
  rw [Ledger.wake, h.awake hp]

/-- A task that runs has no open wakeup. -/
theorem woken_running (h : led.Sound n s) (hp : s.phase = .running) : led.woken = none := by
  cases hw : led.woken with
  | none => rfl
  | some w =>
      have hph := (h.woken w hw).1
      rw [hp] at hph
      rcases hph with hph | hph <;> cases hph

theorem below_succ (h : led.Sound n s) : ∀ i ∈ led.folded, i < n + 1 := by
  intro i hi
  have := h.below i hi
  omega

/-- A callback that leaves the gauge alone keeps the account, as long as
it neither ends nor begins a sleep and no woken task starts to run
unseen. -/
theorem kept (h : led.Sound n s) (hema : s'.tctx.ema = s.tctx.ema)
    (hsleep : s'.phase = .asleep ↔ s.phase = .asleep)
    (hwoken : s.phase = .queued ∨ s.phase = .off → s'.phase = .queued ∨ s'.phase = .off) :
    led.Sound (n + 1) s' := by
  refine ⟨?_, ?_, ?_, ?_, ?_, h.below_succ, h.nodup⟩
  · rw [hsleep]
    exact h.phase
  · rw [hema]
    exact h.slept
  · intro z hz
    obtain ⟨hlt, hfresh, hne⟩ := h.stamp z hz
    exact ⟨by omega, hfresh, hne⟩
  · intro v hv
    obtain ⟨hlt, hfresh⟩ := h.captured v hv
    exact ⟨by omega, fun hp => hfresh fun hs => hp (hsleep.mpr hs)⟩
  · intro w hw
    obtain ⟨hp, hat, hgauge⟩ := h.woken w hw
    rw [hema]
    exact ⟨hwoken hp, hat, hgauge⟩

/-- A run closes the entry of the wakeup before it. One that follows a
stop directly finds no captured sleep. -/
theorem run (h : led.Sound n s) (hcap : s.phase = .asleep → led.captured = none)
    (hne : s'.phase ≠ .asleep) :
    ({ led with asleep := none, woken := none } : Ledger).Sound (n + 1) s' := by
  refine ⟨?_, ?_, ?_, ?_, ?_, h.below_succ, h.nodup⟩
  · simp [hne]
  · intro z hz
    cases hz
  · intro z hz
    obtain ⟨hlt, hfresh, hdist⟩ := h.stamp z hz
    exact ⟨by omega, hfresh, hdist⟩
  · intro v hv
    obtain ⟨hlt, hfresh⟩ := h.captured v hv
    refine ⟨by omega, fun _ => hfresh fun hp => ?_⟩
    rw [hcap hp] at hv
    cases hv
  · intro w hw
    cases hw

/-- A reset of a task that does not sleep. -/
theorem reset (h : led.Sound n s) (hp : s.phase ≠ .asleep) (p : TaskStruct) (now : U64)
    (t : TaskCtx) : (led.reset n p now).Sound (n + 1) ⟨.off, t⟩ := by
  refine ⟨?_, ?_, ?_, ?_, ?_, h.below_succ, h.nodup⟩
  · simp [Ledger.reset, h.awake hp]
  · simp [Ledger.reset, h.awake hp]
  · -- the new stamp is later than every sleep of the ledger
    intro z hz
    have hid : z.id = n := by
      rw [Ledger.reset] at hz
      split at hz
      · cases hz
      · cases hz
        rfl
    rw [hid]
    refine ⟨by omega, fun hmem => Nat.lt_irrefl n (h.below n hmem), fun v hv heq => ?_⟩
    have hlt := (h.captured v hv).1
    omega
  · intro v hv
    obtain ⟨hlt, hfresh⟩ := h.captured v hv
    exact ⟨by omega, fun _ => hfresh hp⟩
  · intro w hw
    cases hw

/-- What a blocking stop folds of an awake task is new. -/
theorem source_fresh (h : led.Sound n s) (hp : s.phase ≠ .asleep) {now : U64} {v : Interval}
    (hv : led.source now = some v) : v.id < n ∧ v.id ∉ led.folded := by
  rw [Ledger.source] at hv
  cases hcap : led.captured with
  | some u =>
      rw [hcap] at hv
      cases hv
      obtain ⟨hlt, hfresh⟩ := h.captured v hcap
      exact ⟨hlt, hfresh hp⟩
  | none =>
      rw [hcap] at hv
      obtain ⟨z, hz, hint⟩ := Option.bind_eq_some_iff.mp hv
      obtain ⟨hlt, hfresh, -⟩ := h.stamp z hz
      rw [Stamp.interval_id hint]
      exact ⟨hlt, hfresh⟩

/-- A blocking stop folds one sleep, or none, and stamps the next. -/
theorem block (h : led.Sound n s) (hp : s.phase = .running) {now : U64}
    (hp' : s'.phase = .asleep) : (led.block n s'.tctx.ema now).Sound (n + 1) s' := by
  have hawake : s.phase ≠ .asleep := by
    rw [hp]
    decide
  have hfolded : (led.block n s'.tctx.ema now).folded
      = ((led.source now).map (·.id)).toList ++ led.folded := by
    show (led.foldAt now :: led.folds).filterMap CadenceFold.id = _
    rw [foldAt]
    cases led.source now <;> rfl
  have hbelow : ∀ i ∈ (led.block n s'.tctx.ema now).folded, i < n := by
    intro i hi
    rw [hfolded] at hi
    rcases List.mem_append.mp hi with hsrc | hold
    · obtain ⟨v, hv, rfl⟩ := Option.map_eq_some_iff.mp (Option.mem_toList.mp hsrc)
      exact (h.source_fresh hawake hv).1
    · exact h.below i hold
  refine ⟨?_, ?_, ?_, ?_, ?_, ?_, ?_⟩
  · simp [Ledger.block, hp']
  · intro z hz
    cases hz
    exact ⟨rfl, rfl⟩
  · intro z hz
    cases hz
    refine ⟨Nat.lt_succ_self n, fun hmem => Nat.lt_irrefl n (hbelow n hmem), ?_⟩
    intro v hv heq
    have hlt := (h.captured v hv).1
    rw [heq] at hlt
    exact Nat.lt_irrefl n hlt
  · intro v hv
    have hlt := (h.captured v hv).1
    exact ⟨by omega, fun hne => absurd hp' hne⟩
  · intro w hw
    have hnone := h.woken_running hp
    rw [Ledger.block, hnone] at hw
    cases hw
  · intro i hi
    have := hbelow i hi
    omega
  · rw [hfolded]
    cases hsrc : led.source now with
    | none => exact h.nodup
    | some v => exact List.nodup_cons.mpr ⟨(h.source_fresh hawake hsrc).2, h.nodup⟩

/-- What an enqueue leaves captured was never folded: the interval of
the stamp, or an older one of an awake task. -/
theorem captured_fresh (h : led.Sound n s) {p : TaskStruct} {flags : EnqFlags} {now : U64}
    (hold : s.phase = .asleep → flags.wakeup = true
      ∧ (schedIdle p = true → led.captured = none)) {v : Interval}
    (hv : (led.capture p flags now).captured = some v) :
    (v.id < n ∧ v.id ∉ led.folded)
      ∧ ∀ z, (led.capture p flags now).stamp = some z → v.id ≠ z.id := by
  have holder (hcap : led.captured = some v) (hp : s.phase ≠ .asleep) :
      v.id < n ∧ v.id ∉ led.folded :=
    ⟨(h.captured v hcap).1, (h.captured v hcap).2 hp⟩
  by_cases hw : flags.wakeup = true
  · rw [capture, if_pos hw] at hv ⊢
    refine ⟨?_, fun z hz => by cases hz⟩
    by_cases hidle : schedIdle p = true
    · have hcap : led.captured = some v := by simpa [hidle] using hv
      refine holder hcap fun hp => ?_
      rw [(hold hp).2 hidle] at hcap
      cases hcap
    · have hbind : led.stamp.bind (·.interval now) = some v := by simpa [hidle] using hv
      obtain ⟨z, hz, hint⟩ := Option.bind_eq_some_iff.mp hbind
      obtain ⟨hlt, hfresh, -⟩ := h.stamp z hz
      rw [Stamp.interval_id hint]
      exact ⟨hlt, hfresh⟩
  · have hp : s.phase ≠ .asleep := fun hp => hw (hold hp).1
    have hcap : led.captured = some v ∧ (led.capture p flags now).stamp = led.stamp := by
      rw [capture, if_neg hw] at hv ⊢
      split
      · rename_i hz
        rw [if_pos hz] at hv
        refine ⟨?_, rfl⟩
        by_cases hidle : schedIdle p = true
        · simpa [hidle] using hv
        · simp [hidle] at hv
      · rename_i hz
        rw [if_neg hz] at hv
        exact ⟨hv, rfl⟩
    refine ⟨holder hcap.1 hp, fun z hz => ?_⟩
    rw [hcap.2] at hz
    exact (h.stamp z hz).2.2 v hcap.1

/-- The wakeup a task enqueued holds: the one before it, of a task with
no stamp, or the one this enqueue is, which charges the sleep. -/
theorem enqueue_woken (h : led.Sound n s) (hread : led.Reads s.tctx) {m : Machine}
    {p : TaskStruct} {flags : EnqFlags} {now : U64}
    (hs : stepTask s (.enqueue m p flags now) = some s')
    (hmeasures : s.phase = .asleep → flags.wakeup = true
      ∧ measures m.rod s.tctx.lastSleepAt now = true) {w : WokenSleep}
    (hw : (led.wake m now).woken = some w) :
    (led.capture p flags now).stamp = none ∧ s'.tctx.ema = w.charged := by
  obtain ⟨hstamp, -⟩ := capture_stamp led p flags now
  by_cases hp : s.phase = .asleep
  · obtain ⟨z, hz⟩ := h.asleep hp
    obtain ⟨hat, hgauge⟩ := h.slept z hz
    obtain ⟨hwakeup, hmeas⟩ := hmeasures hp
    obtain ⟨-, -, hplace⟩ := stepTask_enqueue hs
    rw [Ledger.wake, hz] at hw
    cases hw
    have hsince : s.tctx.lastSleepAt = z.since := by
      rw [hread.stamp, stampedAt, hat]
      rfl
    refine ⟨by rw [hstamp, if_pos hwakeup], ?_⟩
    have hema := (settleQueue_wakeup (m := m) (p := p) hwakeup (weighed p s.tctx) now).1
    rw [hplace.routed.ema_eq, hema, chargeSleep_of_measures (t := weighed p s.tctx) hmeas,
      WokenSleep.charged, ← hgauge, ← hsince]
    rfl
  · rw [h.wake_awake hp] at hw
    obtain ⟨-, hnone, hgauge⟩ := h.woken w hw
    have hzero : s.tctx.lastSleepAt = 0 := by
      rw [hread.stamp, stampedAt, hnone]
      rfl
    refine ⟨?_, (enqueue_unstamped hs hzero).trans hgauge⟩
    rw [hstamp, hnone, ite_self]

/-- **An enqueue charges the sleep once** and moves it from the stamp to
the pending features. -/
theorem enqueue (h : led.Sound n s) (hread : led.Reads s.tctx) {m : Machine}
    {p : TaskStruct} {flags : EnqFlags} {now : U64}
    (hs : stepTask s (.enqueue m p flags now) = some s')
    (hacc : accounted ⟨s, .enqueue m p flags now, s'⟩ = true) :
    ((led.wake m now).capture p flags now).Sound (n + 1) s' := by
  obtain ⟨hfrom, hq, -⟩ := stepTask_enqueue hs
  have hwakeup : s.phase = .asleep → flags.wakeup = true := by
    intro hp
    rw [hp] at hfrom
    exact enqueueFrom_asleep hfrom
  have hasleep : s.phase = .asleep → measures m.rod s.tctx.lastSleepAt now = true
      ∧ (schedIdle p = true → led.captured = none) := by
    intro hp
    obtain ⟨hmeas, hidle⟩ : measures m.rod s.tctx.lastSleepAt now = true
        ∧ (schedIdle p = false ∨ s.tctx.pendingFeats.sleepNs = 0) := by
      simpa [accounted, hp] using hacc
    refine ⟨hmeas, fun hyes => hread.captured_none (hidle.resolve_left ?_)⟩
    rw [hyes]
    decide
  have hfresh {v : Interval} (hv : (led.capture p flags now).captured = some v) :=
    h.captured_fresh (fun hp => ⟨hwakeup hp, (hasleep hp).2⟩) hv
  obtain ⟨hstamp, hfolds⟩ := capture_stamp led p flags now
  have hfolded : ((led.wake m now).capture p flags now).folded = led.folded := by
    rw [capture_wake, folded, folded, ← hfolds]
  have hne : s'.phase ≠ .asleep := by
    rw [hq]
    decide
  rw [capture_wake] at hfolded ⊢
  refine ⟨?_, ?_, ?_, ?_, ?_, ?_, ?_⟩
  · simp [wake_asleep, hne]
  · simp [wake_asleep]
  · intro z hz
    have hold : led.stamp = some z := by
      have hz' : (led.capture p flags now).stamp = some z := hz
      rw [hstamp] at hz'
      split at hz'
      · cases hz'
      · exact hz'
    obtain ⟨hlt, hnew, -⟩ := h.stamp z hold
    rw [hfolded]
    exact ⟨by omega, hnew, fun v hv => (hfresh hv).2 z hz⟩
  · intro v hv
    obtain ⟨⟨hlt, hnew⟩, -⟩ := hfresh hv
    rw [hfolded]
    exact ⟨by omega, fun _ => hnew⟩
  · intro w hw
    exact ⟨Or.inl hq, h.enqueue_woken hread hs
      (fun hp => ⟨hwakeup hp, (hasleep hp).1⟩) hw⟩
  · rw [hfolded]
    exact h.below_succ
  · rw [hfolded]
    exact h.nodup

/-- A selection wakes a task only where it hands the CPU over to it. -/
theorem select (h : led.Sound n s) {m : Machine} {p : TaskStruct} {prevCpu : Int} {sync : Bool}
    {now : U64} (hs : stepTask s (.select m p prevCpu sync now) = some s')
    (hacc : accounted ⟨s, .select m p prevCpu sync now, s'⟩ = true) :
    (led.next n ⟨s, .select m p prevCpu sync now, s'⟩).Sound (n + 1) s' := by
  have hk := (stepTask_quiet rfl hs).ema
  simp only [stepTask] at hs
  split at hs
  · cases hs
    by_cases hsync : (mlfqSelectCpu m p (some s.tctx) prevCpu sync now).exit = .sync
    · have hp : s.phase ≠ .asleep := by
        intro hp
        refine mlfqSelectCpu_exit_ne_sync ?_ prevCpu now hsync
        simpa [accounted, hp] using hacc
      simp only [Ledger.next, selectState, hsync, if_true, h.wake_awake hp]
      simp only [selectState, hsync, if_true] at hk
      exact h.kept hk (by simp [hp]) fun _ => Or.inl rfl
    · have hq : s.phase ≠ .queued := by
        intro hq
        rename_i hdown
        rw [hq] at hdown
        cases hdown
      simp only [Ledger.next, selectState, hsync, if_false, hq]
      simp only [selectState, hsync, if_false] at hk
      exact h.kept hk Iff.rfl id
  · cases hs

/-- **One callback keeps the account**, if it is one of the accounted
kind. -/
theorem step (h : led.Sound n s) (hread : led.Reads s.tctx) {e : TaskEvent}
    (hs : stepTask s e = some s') (hacc : accounted ⟨s, e, s'⟩ = true) :
    (led.next n ⟨s, e, s'⟩).Sound (n + 1) s' := by
  cases e with
  | reset p now =>
      obtain ⟨-, rfl⟩ := stepTask_reset hs
      have hp : s.phase ≠ .asleep := by simpa [accounted] using hacc
      exact h.reset hp p now _
  | select m p prevCpu sync now => exact h.select hs hacc
  | enqueue m p flags now => exact h.enqueue hread hs hacc
  | running m p now =>
      obtain ⟨-, rfl⟩ := stepTask_running hs
      refine h.run (fun hp => hread.captured_none ?_) (by simp)
      simpa [accounted, hp] using hacc
  | keep =>
      have hk := stepTask_quiet rfl hs
      obtain ⟨hp, rfl⟩ := stepTask_keep hs
      exact h.kept hk.ema (by simp [hp]) fun hph => by simp [hp] at hph
  | steal m qid cpu =>
      have hk := stepTask_quiet rfl hs
      obtain ⟨hp, hq, -⟩ := stepTask_steal hs
      exact h.kept hk.ema (by simp [hp, hq]) fun _ => Or.inl hq
  | gpuSubmit now =>
      have hk := stepTask_quiet rfl hs
      obtain ⟨hp, rfl⟩ := stepTask_gpuSubmit hs
      exact h.kept hk.ema (by simp [hp]) fun hph => by simp [hp] at hph
  | stopping m p runnable now =>
      obtain ⟨hp, rfl⟩ := stepTask_stopping hs
      cases runnable with
      | true =>
          have hclosed : { led with asleep := none, woken := none } = led := by
            rw [← h.woken_running hp, ← h.awake (by rw [hp]; decide)]
          have hrun : ({ led with asleep := none, woken := none } : Ledger).Sound (n + 1)
              ⟨.ready, (mlfqStopping m p s.tctx true now).tctx⟩ :=
            h.run (by simp [hp]) (by simp)
          rw [hclosed] at hrun
          exact hrun
      | false => exact h.block hp rfl
  | quiescent m =>
      have hk := stepTask_quiet rfl hs
      obtain ⟨-, hphase, -⟩ := stepTask_quiescent hs
      by_cases hp : s.phase = .asleep
      · rw [if_pos hp] at hphase
        exact h.kept hk.ema (by simp [hp, hphase]) fun hph => by simp [hp] at hph
      · rw [if_neg hp] at hphase
        exact h.kept hk.ema (by simp [hp, hphase]) fun _ => Or.inr hphase

end Ledger.Sound

/-- The task holds what the ledger says, over every run. -/
theorem ledger_reads {tr : List TaskEntry} {s : TaskState} (h : TaskRun tr s) :
    (ledger tr s).Reads s.tctx := by
  refine h.invariant (I := fun tr s => (ledger tr s).Reads s.tctx) ?_ ?_
  · rintro s ⟨p, now, rfl⟩
    exact ⟨rfl, rfl, rfl⟩
  · intro tr s e s' hread hs
    exact hread.step hs

/-- The account over a run of accounted callbacks. -/
theorem ledger_sound {tr : List TaskEntry} {s : TaskState} (h : TaskRun tr s)
    (hacc : ∀ x ∈ tr, accounted x = true) : (ledger tr s).Sound (tr.length + 1) s := by
  induction h with
  | start hinit =>
      obtain ⟨p, now, rfl⟩ := hinit
      refine ⟨?_, ?_, ?_, ?_, ?_, ?_, ?_⟩ <;>
        simp [ledger, Ledger.start, Ledger.folded, TaskState.initTask]
  | snoc hrun hs ih =>
      have hpre := ih fun x hx => hacc x (List.mem_cons_of_mem _ hx)
      exact hpre.step (ledger_reads hrun) hs (hacc _ List.mem_cons_self)

/-- **Every sleep is charged once.** In every run whose callbacks all
account for the sleep they find, a woken task carries the gauge of the
stop decayed over exactly its sleep until it runs, and the cadence gauges
average each folded sleep in once. -/
theorem sleeps_once {tr : List TaskEntry} {s : TaskState} (h : TaskRun tr s)
    (hacc : ∀ x ∈ tr, accounted x = true) : SleepsOnce tr s := by
  have hsound := ledger_sound h hacc
  exact ⟨fun w hw => (hsound.woken w hw).2.2, ledger_reads h, hsound.nodup⟩

/-- A task that wakes, runs for 1 ms and blocks. -/
def firstBlock : List TaskEvent :=
  let m := (Machine.zeroed {} 1).seed
  let p : TaskStruct := { pid := 1 }
  [.enqueue m p { wakeup := true } 50000000, .running m p 50000001,
    .stopping m p false 51000001]

/-- The same task, woken by an enqueue 100 ms later, that blocks again. -/
def secondBlock : List TaskEvent :=
  let m := (Machine.zeroed {} 1).seed
  let p : TaskStruct := { pid := 1 }
  [.enqueue m p { wakeup := true } 151000001, .running m p 151000002,
    .stopping m p false 152000002]

/-- The account after three sleeps: the first two folded, in this order,
the third ended by a wakeup enqueue and charged. -/
theorem sleeps_once_enqueued :
    ∃ tr s, TaskRun tr s ∧ (ledger tr s).folded = [3, 0]
      ∧ (ledger tr s).woken.isSome = true ∧ SleepsOnce tr s := by
  obtain ⟨tr, s, h, hs⟩ := exec_reaches stepTask (TaskState.initTask_fresh { pid := 1 } 1)
    (firstBlock ++ secondBlock ++ [.enqueue (Machine.zeroed {} 1).seed { pid := 1 }
      { wakeup := true } 160000000])
    (fun tr s => decide ((ledger tr s).folded = [3, 0]) && (ledger tr s).woken.isSome
      && tr.all accounted) (by decide +kernel)
  rw [Bool.and_eq_true, Bool.and_eq_true, List.all_eq_true, decide_eq_true_eq] at hs
  exact ⟨tr, s, h, hs.1.1, hs.1.2, sleeps_once h hs.2⟩

/-- The direct insert delivers the task with the sleep uncharged: the
selection stamps nothing, and `mlfq_enqueue` is not called. -/
theorem handoff_skips_charge : ¬ ∀ tr s, TaskRun tr s → SleepsOnce tr s := by
  intro hclaim
  obtain ⟨tr, s, h, hs⟩ := exec_reaches stepTask (TaskState.initTask_fresh { pid := 1 } 1)
    (firstBlock ++ [.select { (Machine.zeroed {} 1).seed with current := some 0 } { pid := 1 }
      0 true 151000001])
    (fun tr s => (ledger tr s).woken.any fun w => decide (s.tctx.ema ≠ w.charged)) (by decide)
  cases hw : (ledger tr s).woken with
  | none =>
      rw [hw] at hs
      cases hs
  | some w =>
      rw [hw] at hs
      exact of_decide_eq_true hs ((hclaim tr s h).charged w hw)

/-- A stop no wakeup follows folds the captured sleep, and so does the
next one: the task starts again with its properties changed. -/
theorem restart_folds_twice :
    ∃ tr s, TaskRun tr s ∧ (ledger tr s).folded = [0, 0] ∧ ¬ SleepsOnce tr s := by
  obtain ⟨tr, s, h, hs⟩ := exec_reaches stepTask (TaskState.initTask_fresh { pid := 1 } 1)
    (firstBlock ++ [.quiescent (Machine.zeroed {} 1).seed,
      .running (Machine.zeroed {} 1).seed { pid := 1 } 51000002,
      .stopping (Machine.zeroed {} 1).seed { pid := 1 } false 52000002])
    (fun tr s => decide ((ledger tr s).folded = [0, 0])) (by decide +kernel)
  have hfolded := of_decide_eq_true hs
  refine ⟨tr, s, h, hfolded, fun honce => ?_⟩
  have hnodup := honce.folded
  rw [hfolded] at hnodup
  exact absurd hnodup (by decide)

end ScxMlfq
