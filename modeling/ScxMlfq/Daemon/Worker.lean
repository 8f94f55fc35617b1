import ScxMlfq.Daemon.Record
import ScxMlfq.Daemon.Scratch
import ScxMlfq.Daemon.Window
import ScxMlfq.Lib.Channel

/-!
# Daemon — Worker

The run loop of `src/main.rs` and the training thread beside it. The
loop consumes the ring buffer, ingests what the callback forwarded, and
applies the finished fits; a due ingest hands a snapshot of the window to
the thread. The two meet in two channels with room for one element each,
on which the loop never waits.

The training thread steps at any time. The steps of the loop come in the
order of its body; serving a statistics request changes nothing here.
-/

namespace ScxMlfq

open Trace

/-- `MLFQ_TREE_MIN_SAMPLES`. -/
def mlfqTreeMinSamples : Nat := 2048

/-- `MLFQ_TREE_RETRAIN_INTERVAL`, in nanoseconds. -/
def mlfqTreeRetrainIntervalNs : Nat := 60 * 10 ^ 9

/-- The room of the sample channel. -/
def sampleChannelCap : Nat := 4096

variable {K : Type*}

/-! ## The state -/

/-- Where the loop is in its body. -/
inductive RunPhase where
  | consume
  | ingest
  | poll
  | serve
deriving DecidableEq, Repr

/-- The thread of `spawn_train_worker`: in `recv`, in the training, or in
`send`. -/
inductive TrainWorker (K : Type*) where
  | waiting
  | training (samples : List TreeSample)
  | sending (res : Except String (TrainResult K))

/-- What `Scheduler` and the training thread hold of the model. An
`Instant` is a number of nanoseconds. -/
structure Daemon (K : Type*) where
  sampleRx : Channel TreeSample sampleChannelCap
  train : TrainWindow
  lastTrainAt : Option Nat
  jobs : Channel (List TreeSample) 1
  worker : TrainWorker K
  scratch : FitScratch K
  results : Channel (Except String (TrainResult K)) 1
  publisher : Publisher K
  phase : RunPhase
  clock : Nat

/-- A kick of the training: the time, the snapshot, and whether the
thread had room for it. -/
structure Kick where
  time : Nat
  snapshot : List TreeSample
  taken : Bool

/-! ## The code -/

/-- `kick_training`. A snapshot that finds no room is dropped; the
cadence counts it nevertheless. -/
def kickTraining (s : Daemon K) (now : Nat) : Daemon K × Kick :=
  let s := { s with lastTrainAt := some now }
  match s.jobs.trySend s.train.window with
  | none => (s, ⟨now, s.train.window, false⟩)
  | some jobs => ({ s with jobs := jobs }, ⟨now, s.train.window, true⟩)

/-- `due`. The elapsed time saturates at zero. -/
def trainingDue (lastTrainAt : Option Nat) (window : List TreeSample) (now : Nat) : Bool :=
  match lastTrainAt with
  | none => decide (window.length ≥ mlfqTreeMinSamples)
  | some t =>
      decide (now - t ≥ mlfqTreeRetrainIntervalNs) && decide (window.length ≥ mlfqTreeMinSamples)

/-- `ingest_sample` with the kick it makes. The elapsed time is read at
`now`, the time of the kick at `kickAt`. -/
def Daemon.ingestSample (s : Daemon K) (x : TreeSample) (now kickAt : Nat) :
    Option (Daemon K × Option Kick) :=
  (ScxMlfq.ingestSample s.train x).map fun train =>
    let ingested := { s with train := train }
    if admits s.train x && trainingDue s.lastTrainAt train.window now then
      let kicked := kickTraining ingested kickAt
      (kicked.1, some kicked.2)
    else (ingested, none)

/-- One turn of the loop over the sample channel. -/
def Daemon.ingestNext (s : Daemon K) (now kickAt : Nat) : Option (Daemon K × Option Kick) :=
  s.sampleRx.tryRecv.bind fun r =>
    Daemon.ingestSample { s with sampleRx := r.2, clock := kickAt } r.1 now kickAt

/-- One turn of the loop of `poll_train_results`. A failed training keeps
the model. -/
def pollResult [Field K] [LinearOrder K] [FloorSemiring K] (s : Publisher K)
    (res : Except String (TrainResult K)) (update : MapUpdate) : Publisher K :=
  match res with
  | .ok r => (applyTrainResult s r update).1
  | .error _ => s

/-! ## The steps -/

inductive DaemonEvent where
  /-- The ring-buffer callback on one record. -/
  | record (data : List Byte)
  | consumed
  | ingest (now kickAt : Nat)
  | ingested
  | poll (update : MapUpdate)
  | polled
  /-- The next turn of the loop. -/
  | turn
  /-- The training thread: `recv`, the training, `send`. -/
  | recv
  | trained
  | send

section
variable [Field K] [LinearOrder K] [FloorSemiring K]
variable (order : ByteOrder) (exp2 sqrt : K → K)

/-- The callback: a sample that finds no room is dropped. -/
def Daemon.forward (s : Daemon K) (data : List Byte) : Daemon K :=
  match parseRecord order data with
  | none => s
  | some x =>
      match s.sampleRx.trySend x with
      | none => s
      | some rx => { s with sampleRx := rx }

/-- One step of the loop or of the training thread. None where the step
is not enabled, or panics. -/
def stepDaemon (s : Daemon K) : DaemonEvent → Option (Daemon K)
  | .record data => if s.phase = .consume then some (s.forward order data) else none
  | .consumed => if s.phase = .consume then some { s with phase := .ingest } else none
  | .ingest now kickAt =>
      if s.phase = .ingest ∧ s.clock ≤ now ∧ now ≤ kickAt
      then (s.ingestNext now kickAt).map Prod.fst else none
  | .ingested =>
      if s.phase = .ingest ∧ s.sampleRx.items = [] then some { s with phase := .poll } else none
  | .poll update =>
      if s.phase = .poll then
        s.results.tryRecv.map fun r =>
          { s with results := r.2, publisher := pollResult s.publisher r.1 update }
      else none
  | .polled =>
      if s.phase = .poll ∧ s.results.items = [] then some { s with phase := .serve } else none
  | .turn => if s.phase = .serve then some { s with phase := .consume } else none
  | .recv =>
      match s.worker with
      | .waiting =>
          s.jobs.tryRecv.map fun r => { s with jobs := r.2, worker := .training r.1 }
      | _ => none
  | .trained =>
      match s.worker with
      | .training samples =>
          (s.scratch.trainModelWithScratch exp2 sqrt samples).map fun r =>
            { s with worker := .sending r.1, scratch := r.2 }
      | _ => none
  | .send =>
      match s.worker with
      | .sending res =>
          (s.results.trySend res).map fun results =>
            { s with results := results, worker := .waiting }
      | _ => none

end

/-- The daemon behind `Scheduler::init`. -/
def Daemon.initial [Zero K] : Daemon K where
  sampleRx := .empty
  train := {}
  lastTrainAt := none
  jobs := .empty
  worker := .waiting
  scratch := {}
  results := .empty
  publisher := .initial
  phase := .consume
  clock := 0

/-! ## What a kick does -/

/-- **A kick** records its time, and takes the snapshot where the thread
has room. -/
theorem kickTraining_cases (s : Daemon K) (now : Nat) :
    (s.jobs.items = [] ∧ ∃ jobs : Channel (List TreeSample) 1, jobs.items = [s.train.window]
        ∧ kickTraining s now = ({ s with lastTrainAt := some now, jobs := jobs },
          ⟨now, s.train.window, true⟩))
      ∨ (s.jobs.items ≠ [] ∧ kickTraining s now = ({ s with lastTrainAt := some now },
          ⟨now, s.train.window, false⟩)) := by
  have hcap := s.jobs.bounded
  rw [kickTraining]
  cases hsend : s.jobs.trySend s.train.window with
  | none =>
      right
      have hfull := Channel.trySend_eq_none.mp hsend
      refine ⟨fun hempty => ?_, rfl⟩
      rw [hempty] at hfull
      cases hfull
  | some jobs =>
      left
      have hitems := Channel.trySend_items hsend
      have hempty : s.jobs.items = [] := by
        by_contra hne
        have hpos := List.length_pos_iff.mpr hne
        rw [Channel.trySend_eq_none.mpr (by omega)] at hsend
        cases hsend
      rw [hempty] at hitems
      exact ⟨hempty, jobs, hitems, rfl⟩

theorem trainingDue_length {lastTrainAt : Option Nat} {window : List TreeSample} {now : Nat}
    (h : trainingDue lastTrainAt window now = true) : mlfqTreeMinSamples ≤ window.length := by
  unfold trainingDue at h
  split at h
  · exact of_decide_eq_true h
  · exact of_decide_eq_true (Bool.and_eq_true_iff.mp h).2

theorem trainingDue_spaced {t now : Nat} {window : List TreeSample}
    (h : trainingDue (some t) window now = true) : t + mlfqTreeRetrainIntervalNs ≤ now := by
  have hspaced : now - t ≥ mlfqTreeRetrainIntervalNs :=
    of_decide_eq_true (Bool.and_eq_true_iff.mp h).1
  have hpos : 0 < mlfqTreeRetrainIntervalNs := by decide
  omega

/-- **One ingest**: the sample enters the window, and a due one kicks. -/
theorem ingestNext_cases {s s' : Daemon K} {now kickAt : Nat} {kick : Option Kick}
    (h : s.ingestNext now kickAt = some (s', kick)) :
    ∃ x rx train, s.sampleRx.items = x :: Channel.items rx
      ∧ ScxMlfq.ingestSample s.train x = some train
      ∧ ((kick = none
            ∧ (admits s.train x && trainingDue s.lastTrainAt train.window now) = false
            ∧ s' = { s with sampleRx := rx, train := train, clock := kickAt })
        ∨ (trainingDue s.lastTrainAt train.window now = true
            ∧ ∃ k, kick = some k ∧ k.time = kickAt ∧ k.snapshot = train.window
              ∧ ∃ jobs : Channel (List TreeSample) 1,
                jobs.items = s.jobs.items ++ (if k.taken then [k.snapshot] else [])
                ∧ (k.taken = true ↔ s.jobs.items = [])
                ∧ s' = { s with sampleRx := rx, train := train, clock := kickAt
                                lastTrainAt := some kickAt, jobs := jobs })) := by
  rw [Daemon.ingestNext] at h
  obtain ⟨⟨x, rx⟩, hrecv, h⟩ := Option.bind_eq_some_iff.mp h
  rw [Daemon.ingestSample] at h
  obtain ⟨train, htrain, h⟩ := Option.map_eq_some_iff.mp h
  refine ⟨x, rx, train, Channel.tryRecv_items hrecv, htrain, ?_⟩
  simp only at h
  split at h
  · rename_i hdue
    right
    refine ⟨(Bool.and_eq_true_iff.mp hdue).2, ?_⟩
    rcases kickTraining_cases
        { s with sampleRx := rx, clock := kickAt, train := train } kickAt with
      ⟨hempty, jobs, hjobs, heq⟩ | ⟨hfull, heq⟩
    · rw [heq] at h
      cases h
      refine ⟨_, rfl, rfl, rfl, jobs, ?_, iff_of_true rfl hempty, rfl⟩
      rw [show s.jobs.items = [] from hempty]
      exact hjobs
    · rw [heq] at h
      cases h
      refine ⟨_, rfl, rfl, rfl, s.jobs, ?_, iff_of_false (by simp) hfull, rfl⟩
      exact (List.append_nil _).symm
  · rename_i hdue
    cases h
    exact .inl ⟨rfl, Bool.eq_false_iff.mpr hdue, rfl⟩

end ScxMlfq
