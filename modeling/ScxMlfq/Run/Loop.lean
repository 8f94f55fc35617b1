import Mathlib.Data.Int.CardIntervalMod
import ScxMlfq.Daemon.Metrics
import ScxMlfq.Daemon.Worker
import ScxMlfq.Lib.History

/-!
# Run — Loop

The steps of the daemon's run loop and of its training thread, and what
each passes on: samples into the window, snapshots to the thread, results
to the publisher. A run is put together here, pass by pass, up to a model
that was trained and applied.
-/

namespace ScxMlfq

open Trace

variable {K : Type*} [Field K] [LinearOrder K] [FloorSemiring K]

abbrev DaemonEntry (K : Type*) := Entry (Daemon K) DaemonEvent

abbrev DaemonRun (order : ByteOrder) (exp2 sqrt : K → K) :
    List (DaemonEntry K) → Daemon K → Prop :=
  Run (fun s e s' => stepDaemon order exp2 sqrt s e = some s') (fun s => s = Daemon.initial)

/-! ## What one step does -/

/-- **The steps**, each with what it found and what it left. -/
inductive DaemonSteps (order : ByteOrder) (exp2 sqrt : K → K) (s : Daemon K) :
    DaemonEvent → Daemon K → Prop where
  | record {data : List Byte} (phase : s.phase = .consume) :
      DaemonSteps order exp2 sqrt s (.record data) (s.forward order data)
  | consumed (phase : s.phase = .consume) :
      DaemonSteps order exp2 sqrt s .consumed { s with phase := .ingest }
  | ingest {now kickAt : Nat} {s' : Daemon K} {kick : Option Kick} (phase : s.phase = .ingest)
      (clock : s.clock ≤ now ∧ now ≤ kickAt) (next : s.ingestNext now kickAt = some (s', kick)) :
      DaemonSteps order exp2 sqrt s (.ingest now kickAt) s'
  | ingested (phase : s.phase = .ingest) (empty : s.sampleRx.items = []) :
      DaemonSteps order exp2 sqrt s .ingested { s with phase := .poll }
  | poll {update : MapUpdate} {res : Except String (TrainResult K)}
      {results : Channel (Except String (TrainResult K)) 1} (phase : s.phase = .poll)
      (next : s.results.items = res :: results.items) :
      DaemonSteps order exp2 sqrt s (.poll update)
        { s with results := results, publisher := pollResult s.publisher res update }
  | polled (phase : s.phase = .poll) (empty : s.results.items = []) :
      DaemonSteps order exp2 sqrt s .polled { s with phase := .serve }
  | turn (phase : s.phase = .serve) :
      DaemonSteps order exp2 sqrt s .turn { s with phase := .consume }
  | recv {samples : List TreeSample} {jobs : Channel (List TreeSample) 1}
      (worker : s.worker = .waiting) (next : s.jobs.items = samples :: jobs.items) :
      DaemonSteps order exp2 sqrt s .recv { s with jobs := jobs, worker := .training samples }
  | trained {samples : List TreeSample} {res : Except String (TrainResult K)}
      {scratch : FitScratch K} (worker : s.worker = .training samples)
      (fitted : s.scratch.trainModelWithScratch exp2 sqrt samples = some (res, scratch)) :
      DaemonSteps order exp2 sqrt s .trained { s with worker := .sending res, scratch := scratch }
  | send {res : Except String (TrainResult K)}
      {results : Channel (Except String (TrainResult K)) 1} (worker : s.worker = .sending res)
      (sent : results.items = s.results.items ++ [res]) :
      DaemonSteps order exp2 sqrt s .send { s with results := results, worker := .waiting }

variable {order : ByteOrder} {exp2 sqrt : K → K}

theorem stepDaemon_steps {s s' : Daemon K} {e : DaemonEvent}
    (h : stepDaemon order exp2 sqrt s e = some s') : DaemonSteps order exp2 sqrt s e s' := by
  cases e with
  | record data =>
      simp only [stepDaemon, Option.ite_none_right_eq_some, Option.some.injEq] at h
      obtain ⟨hphase, rfl⟩ := h
      exact .record hphase
  | consumed =>
      simp only [stepDaemon, Option.ite_none_right_eq_some, Option.some.injEq] at h
      obtain ⟨hphase, rfl⟩ := h
      exact .consumed hphase
  | ingest now kickAt =>
      simp only [stepDaemon, Option.ite_none_right_eq_some] at h
      obtain ⟨⟨hphase, hclock⟩, h⟩ := h
      obtain ⟨r, hnext, rfl⟩ := Option.map_eq_some_iff.mp h
      exact .ingest hphase hclock hnext
  | ingested =>
      simp only [stepDaemon, Option.ite_none_right_eq_some, Option.some.injEq] at h
      obtain ⟨⟨hphase, hempty⟩, rfl⟩ := h
      exact .ingested hphase hempty
  | poll update =>
      simp only [stepDaemon, Option.ite_none_right_eq_some] at h
      obtain ⟨hphase, h⟩ := h
      obtain ⟨r, hrecv, rfl⟩ := Option.map_eq_some_iff.mp h
      exact .poll hphase (Channel.tryRecv_items hrecv)
  | polled =>
      simp only [stepDaemon, Option.ite_none_right_eq_some, Option.some.injEq] at h
      obtain ⟨⟨hphase, hempty⟩, rfl⟩ := h
      exact .polled hphase hempty
  | turn =>
      simp only [stepDaemon, Option.ite_none_right_eq_some, Option.some.injEq] at h
      obtain ⟨hphase, rfl⟩ := h
      exact .turn hphase
  | recv =>
      simp only [stepDaemon] at h
      cases hworker : s.worker with
      | waiting =>
          rw [hworker] at h
          obtain ⟨r, hrecv, rfl⟩ := Option.map_eq_some_iff.mp h
          exact .recv hworker (Channel.tryRecv_items hrecv)
      | training samples =>
          rw [hworker] at h
          cases h
      | sending res =>
          rw [hworker] at h
          cases h
  | trained =>
      simp only [stepDaemon] at h
      cases hworker : s.worker with
      | waiting =>
          rw [hworker] at h
          cases h
      | training samples =>
          rw [hworker] at h
          obtain ⟨r, hfit, rfl⟩ := Option.map_eq_some_iff.mp h
          exact .trained hworker hfit
      | sending res =>
          rw [hworker] at h
          cases h
  | send =>
      simp only [stepDaemon] at h
      cases hworker : s.worker with
      | waiting =>
          rw [hworker] at h
          cases h
      | training samples =>
          rw [hworker] at h
          cases h
      | sending res =>
          rw [hworker] at h
          obtain ⟨results, hsend, rfl⟩ := Option.map_eq_some_iff.mp h
          exact .send hworker (Channel.trySend_items hsend)

omit [Field K] [LinearOrder K] [FloorSemiring K] in
/-- The callback fills the sample channel and nothing else. -/
theorem forward_cases (order : ByteOrder) (s : Daemon K) (data : List Byte) :
    (s.forward order data = s ∧ (parseRecord order data = none
        ∨ ∃ x, parseRecord order data = some x ∧ s.sampleRx.items.length = sampleChannelCap))
      ∨ ∃ x rx, parseRecord order data = some x ∧ Channel.items rx = s.sampleRx.items ++ [x]
        ∧ s.sampleRx.items.length < sampleChannelCap
        ∧ s.forward order data = { s with sampleRx := rx } := by
  rw [Daemon.forward]
  cases hparse : parseRecord order data with
  | none => exact .inl ⟨rfl, .inl rfl⟩
  | some x =>
      cases hsend : s.sampleRx.trySend x with
      | none =>
          left
          simp only [hsend]
          exact ⟨trivial, .inr ⟨x, rfl, Channel.trySend_eq_none.mp hsend⟩⟩
      | some rx =>
          right
          have hitems := Channel.trySend_items hsend
          have hlen := rx.bounded
          rw [hitems, List.length_append, List.length_singleton] at hlen
          refine ⟨x, rx, rfl, hitems, hlen, ?_⟩
          simp only [hsend]

/-! ## Steps that can be taken -/

/-- On any arena the thread computes the fit of a new one. -/
theorem trainModel_of_scratch {s : FitScratch K} {samples : List TreeSample}
    {r : Except String (TrainResult K) × FitScratch K}
    (h : s.trainModelWithScratch exp2 sqrt samples = some r) :
    trainModel exp2 sqrt samples = some r.1 := by
  obtain ⟨res, hall, -⟩ := FitScratch.trainModelWithScratch_eq exp2 sqrt samples
  obtain ⟨s₁, hs₁⟩ := hall s
  obtain ⟨s₂, hs₂⟩ := hall {}
  obtain rfl := Option.some.inj (hs₁.symm.trans h)
  rw [trainModel, hs₂, Option.map_some]

omit [Field K] [LinearOrder K] [FloorSemiring K] in
/-- A sample that waits can be ingested, at any time. -/
theorem exists_ingestNext {s : Daemon K} (hm : s.train.Mirrors) {x : TreeSample}
    {rest : List TreeSample} (hitems : s.sampleRx.items = x :: rest) (now kickAt : Nat) :
    ∃ r, s.ingestNext now kickAt = some r := by
  obtain ⟨y, rx, hrecv⟩ := Channel.exists_tryRecv
    (show s.sampleRx.items ≠ [] by rw [hitems]; exact List.cons_ne_nil x rest)
  obtain ⟨train, htrain, -⟩ := hm.exists_ingest y
  simp only [Daemon.ingestNext, hrecv, Option.bind_some, Daemon.ingestSample, htrain,
    Option.map_some]
  exact ⟨_, rfl⟩

section
variable (order : ByteOrder) (exp2 sqrt : K → K)

/-- A training always ends. -/
theorem exists_trained {s : Daemon K} {samples : List TreeSample}
    (hworker : s.worker = .training samples) :
    ∃ res scratch, trainModel exp2 sqrt samples = some res
      ∧ stepDaemon order exp2 sqrt s .trained
        = some { s with worker := .sending res, scratch := scratch } := by
  obtain ⟨res, hall, -⟩ := FitScratch.trainModelWithScratch_eq exp2 sqrt samples
  obtain ⟨scratch, hrun⟩ := hall s.scratch
  refine ⟨res, scratch, trainModel_of_scratch hrun, ?_⟩
  simp only [stepDaemon, hworker, hrun, Option.map_some]

theorem exists_recv {s : Daemon K} (hworker : s.worker = .waiting) (h : s.jobs.items ≠ []) :
    ∃ samples jobs, s.jobs.items = samples :: Channel.items jobs
      ∧ stepDaemon order exp2 sqrt s .recv
        = some { s with jobs := jobs, worker := .training samples } := by
  obtain ⟨samples, jobs, hrecv⟩ := Channel.exists_tryRecv h
  refine ⟨samples, jobs, Channel.tryRecv_items hrecv, ?_⟩
  simp only [stepDaemon, hworker, hrecv, Option.map_some]

theorem exists_send {s : Daemon K} {res : Except String (TrainResult K)}
    (hworker : s.worker = .sending res) (h : s.results.items = []) :
    ∃ results : Channel (Except String (TrainResult K)) 1, results.items = [res]
      ∧ stepDaemon order exp2 sqrt s .send
        = some { s with results := results, worker := .waiting } := by
  obtain ⟨results, hsend⟩ := Channel.exists_trySend
    (show s.results.items.length < 1 by rw [h]; exact Nat.zero_lt_one) res
  refine ⟨results, ?_, ?_⟩
  · rw [Channel.trySend_items hsend, h, List.nil_append]
  · simp only [stepDaemon, hworker, hsend, Option.map_some]

end

/-! ## The history -/

/-- The sample a step of the callback put into the channel. -/
def forwardedOf (order : ByteOrder) (x : DaemonEntry K) : Option TreeSample :=
  match x.event with
  | .record data =>
      if x.pre.sampleRx.items.length < sampleChannelCap then parseRecord order data else none
  | _ => none

/-- The sample a step ingested. -/
def ingestedOf (x : DaemonEntry K) : Option TreeSample :=
  match x.event with
  | .ingest _ _ => x.pre.sampleRx.items.head?
  | _ => none

/-- The kick a step made. -/
def kickOf (x : DaemonEntry K) : Option Kick :=
  match x.event with
  | .ingest now kickAt => (x.pre.ingestNext now kickAt).bind Prod.snd
  | _ => none

/-- The snapshot the thread took from a step. -/
def takenOf (x : DaemonEntry K) : Option (List TreeSample) :=
  ((kickOf x).filter Kick.taken).map Kick.snapshot

/-- The result a step applied. -/
def appliedOf (x : DaemonEntry K) : Option (Except String (TrainResult K)) :=
  match x.event with
  | .poll _ => x.pre.results.items.head?
  | _ => none

/-- The answer the thread is at. -/
def TrainWorker.answers (exp2 sqrt : K → K) :
    TrainWorker K → List (Option (Except String (TrainResult K)))
  | .waiting => []
  | .training samples => [trainModel exp2 sqrt samples]
  | .sending res => [some res]

/-- The answers to the snapshots taken and not applied yet, oldest
first: those in the result channel, the one of the thread, and those
still to be computed. -/
def Daemon.answers (exp2 sqrt : K → K) (s : Daemon K) :
    List (Option (Except String (TrainResult K))) :=
  s.results.items.map some ++ s.worker.answers exp2 sqrt
    ++ s.jobs.items.map (trainModel exp2 sqrt)

theorem answers_length_le (exp2 sqrt : K → K) (s : Daemon K) :
    (s.answers exp2 sqrt).length ≤ 3 := by
  have hresults := s.results.bounded
  have hjobs := s.jobs.bounded
  have hworker : (s.worker.answers exp2 sqrt).length ≤ 1 := by
    cases s.worker with
    | waiting => exact Nat.zero_le 1
    | training samples => exact Nat.le_refl 1
    | sending res => exact Nat.le_refl 1
  rw [Daemon.answers, List.length_append, List.length_append, List.length_map, List.length_map]
  omega

/-- **One step of the sample channel.** -/
theorem sampleRx_step {s s' : Daemon K} {e : DaemonEvent}
    (h : stepDaemon order exp2 sqrt s e = some s') :
    s.sampleRx.items ++ (forwardedOf order ⟨s, e, s'⟩).toList
      = (ingestedOf ⟨s, e, s'⟩).toList ++ s'.sampleRx.items := by
  cases stepDaemon_steps h with
  | @record data phase =>
      rcases forward_cases order s data with ⟨heq, hno⟩ | ⟨x, rx, hx, hitems, hlt, heq⟩
      · have hnone : forwardedOf order ⟨s, .record data, s⟩ = none := by
          rcases hno with hparse | ⟨x, -, hfull⟩
          · simp only [forwardedOf, hparse, ite_self]
          · simp only [forwardedOf, hfull, Nat.lt_irrefl, if_false]
        rw [heq, hnone]
        exact List.append_nil _
      · have hsome : forwardedOf order ⟨s, .record data, { s with sampleRx := rx }⟩ = some x := by
          simp only [forwardedOf, if_pos hlt, hx]
        rw [heq, hsome]
        exact hitems.symm
  | @ingest now kickAt _ kick phase clock next =>
      obtain ⟨x, rx, train, hitems, -, hcases⟩ := ingestNext_cases next
      have hrx : s'.sampleRx = rx := by
        rcases hcases with ⟨-, -, rfl⟩ | ⟨-, k, -, -, -, jobs, -, -, rfl⟩
        · rfl
        · rfl
      have hin : ingestedOf ⟨s, .ingest now kickAt, s'⟩ = some x := by
        show s.sampleRx.items.head? = _
        rw [hitems, List.head?_cons]
      have hout : forwardedOf order ⟨s, .ingest now kickAt, s'⟩ = none := rfl
      rw [hin, hout, hrx, hitems]
      exact List.append_nil _
  | consumed phase => exact List.append_nil _
  | ingested phase empty => exact List.append_nil _
  | poll phase next => exact List.append_nil _
  | polled phase empty => exact List.append_nil _
  | turn phase => exact List.append_nil _
  | recv worker next => exact List.append_nil _
  | trained worker fitted => exact List.append_nil _
  | send worker sent => exact List.append_nil _

/-- A step that neither kicks nor applies keeps the answers. -/
theorem answers_step {s s' : Daemon K} {e : DaemonEvent}
    (h : stepDaemon order exp2 sqrt s e = some s') :
    s.answers exp2 sqrt ++ ((takenOf ⟨s, e, s'⟩).map (trainModel exp2 sqrt)).toList
      = ((appliedOf ⟨s, e, s'⟩).map some).toList ++ s'.answers exp2 sqrt := by
  cases stepDaemon_steps h with
  | @record data phase =>
      have hsame : (s.forward order data).answers exp2 sqrt = s.answers exp2 sqrt := by
        rcases forward_cases order s data with ⟨heq, -⟩ | ⟨x, rx, -, -, -, heq⟩
        · rw [heq]
        · rw [heq]
          rfl
      rw [hsame]
      exact List.append_nil _
  | @ingest now kickAt _ kick phase clock next =>
      have hkick : kickOf ⟨s, .ingest now kickAt, s'⟩ = kick := by
        show (s.ingestNext now kickAt).bind Prod.snd = kick
        rw [next, Option.bind_some]
      obtain ⟨x, rx, train, -, -, hcases⟩ := ingestNext_cases next
      rcases hcases with ⟨rfl, -, rfl⟩ | ⟨-, k, rfl, -, -, jobs, hjobs, -, rfl⟩
      · rw [takenOf, hkick]
        exact List.append_nil _
      · have hafter : Daemon.answers exp2 sqrt
            { s with sampleRx := rx, train := train, clock := kickAt
                     lastTrainAt := some kickAt, jobs := jobs }
            = s.answers exp2 sqrt
              ++ (if k.taken then [trainModel exp2 sqrt k.snapshot] else []) := by
          simp only [Daemon.answers, hjobs, List.map_append, List.append_assoc]
          cases k.taken <;> rfl
        rw [takenOf, hkick, hafter]
        cases htaken : k.taken with
        | true => simp [Option.filter, htaken, appliedOf]
        | false => simp [Option.filter, htaken, appliedOf]
  | consumed phase => exact List.append_nil _
  | ingested phase empty => exact List.append_nil _
  | @poll update res results phase next =>
      have happlied : appliedOf (K := K) ⟨s, .poll update,
          { s with results := results, publisher := pollResult s.publisher res update }⟩
          = some res := by
        show s.results.items.head? = some res
        rw [next, List.head?_cons]
      rw [happlied]
      simp only [Daemon.answers, next, takenOf, kickOf]
      simp
  | polled phase empty => exact List.append_nil _
  | turn phase => exact List.append_nil _
  | @recv samples jobs worker next =>
      simp [Daemon.answers, TrainWorker.answers, worker, next, takenOf, kickOf, appliedOf]
  | @trained samples res scratch worker fitted =>
      have hmodel := trainModel_of_scratch fitted
      simp [Daemon.answers, TrainWorker.answers, worker, hmodel, takenOf, kickOf, appliedOf]
  | @send res results worker sent =>
      simp [Daemon.answers, TrainWorker.answers, worker, sent, takenOf, kickOf, appliedOf]

/-! ## A run that trains -/

/-- A new record in the ring buffer. -/
def DaemonEvent.isRecord : DaemonEvent → Bool
  | .record _ => true
  | _ => false

/-- A record of the current version is forwarded. -/
theorem parseRecord_sampleBytes (order : ByteOrder) {x : TreeSample} (hpid : x.pid < 2 ^ 32)
    (hversion : x.version = mlfqTreeSampleVersion) :
    parseRecord order (sampleBytes order x) = some x := by
  have hread := readSample_sampleBytes order hpid []
  rw [List.append_nil] at hread
  exact parseRecord_eq_some.mpr ⟨Nat.le_of_eq (length_sampleBytes order x).symm, hread, hversion⟩

/-- The steps of the callback on some of the samples. -/
def Records (order : ByteOrder) (xs : List TreeSample) (tr : List (DaemonEntry K)) : Prop :=
  ∀ x ∈ tr, ∃ y ∈ xs, x.event = .record (sampleBytes order y)

omit [Field K] [LinearOrder K] [FloorSemiring K] in
theorem Records.quiet {xs : List TreeSample} {tr : List (DaemonEntry K)}
    (h : Records order xs tr) : ∀ x ∈ tr, kickOf x = none ∧ appliedOf x = none := by
  intro x hx
  obtain ⟨y, -, hevent⟩ := h x hx
  simp only [kickOf, appliedOf, hevent, and_self]

/-- **The callback forwards what it has room for.** -/
theorem DaemonRun.forward_all {tr : List (DaemonEntry K)} {s : Daemon K}
    (h : DaemonRun order exp2 sqrt tr s) (hphase : s.phase = .consume) {xs : List TreeSample}
    (hok : ∀ x ∈ xs, x.pid < 2 ^ 32 ∧ x.version = mlfqTreeSampleVersion)
    (hroom : s.sampleRx.items.length + xs.length ≤ sampleChannelCap) :
    ∃ tr' rx, DaemonRun order exp2 sqrt (tr' ++ tr) { s with sampleRx := rx }
      ∧ Channel.items rx = s.sampleRx.items ++ xs ∧ Records order xs tr'
      ∧ yields (forwardedOf order) (tr' ++ tr) = yields (forwardedOf order) tr ++ xs := by
  induction xs generalizing tr s with
  | nil =>
      exact ⟨[], s.sampleRx, h, (List.append_nil _).symm, fun _ hx => absurd hx List.not_mem_nil,
        (List.append_nil _).symm⟩
  | cons x xs ih =>
      rw [List.length_cons] at hroom
      obtain ⟨hpid, hversion⟩ := hok x List.mem_cons_self
      have hparse := parseRecord_sampleBytes order hpid hversion
      have hlt : s.sampleRx.items.length < sampleChannelCap := by omega
      obtain ⟨rx, hsend⟩ := Channel.exists_trySend hlt x
      have hitems := Channel.trySend_items hsend
      have hstep : stepDaemon order exp2 sqrt s (.record (sampleBytes order x))
          = some { s with sampleRx := rx } := by
        simp only [stepDaemon, hphase, if_true, Daemon.forward, hparse, hsend]
      have hof : forwardedOf order
          ⟨s, .record (sampleBytes order x), { s with sampleRx := rx }⟩ = some x := by
        simp only [forwardedOf, if_pos hlt, hparse]
      obtain ⟨tr', rx', hrun, hrx', hrecords, hforwarded⟩ := ih (h.snoc hstep) hphase
        (fun y hy => hok y (List.mem_cons_of_mem x hy)) (by
          show rx.items.length + xs.length ≤ _
          rw [hitems, List.length_append, List.length_singleton]
          omega)
      refine ⟨tr' ++ [⟨s, .record (sampleBytes order x), { s with sampleRx := rx }⟩], rx', ?_, ?_,
        ?_, ?_⟩
      · rw [List.append_assoc]
        exact hrun
      · rw [hrx', hitems, List.append_assoc]
        rfl
      · intro z hz
        rcases List.mem_append.mp hz with hz | hz
        · obtain ⟨y, hy, hevent⟩ := hrecords z hz
          exact ⟨y, List.mem_cons_of_mem x hy, hevent⟩
        · rw [List.mem_singleton.mp hz]
          exact ⟨x, List.mem_cons_self, rfl⟩
      · rw [List.append_assoc]
        refine hforwarded.trans ?_
        rw [yields_cons, hof, List.append_assoc]
        rfl

/-- A sample below the cap of its pid, with room in the window. -/
theorem admits_of_room {w : TrainWindow} (hm : w.Mirrors) {x : TreeSample} {xs : List TreeSample}
    (hcap : ∀ pid, pidSamples (w.window ++ x :: xs) pid ≤ mlfqTreePerPidCap)
    (hlen : (w.window ++ x :: xs).length ≤ mlfqTreeWindowMax) :
    admits w x = true ∧ ∃ w', ScxMlfq.ingestSample w x = some w' ∧ w'.Mirrors
      ∧ w'.window = w.window ++ [x] := by
  have hbelow := hcap x.pid
  have hone : pidSamples (w.window ++ [x]) x.pid = pidSamples w.window x.pid + 1 := by
    rw [pidSamples_concat, if_pos rfl]
  have hle : pidSamples (w.window ++ [x]) x.pid ≤ pidSamples (w.window ++ x :: xs) x.pid :=
    List.Sublist.countP_le (List.Sublist.append_left
      (List.cons_sublist_cons.mpr (List.nil_sublist xs)) w.window)
  have hadm : admits w x = true := (hm.admits_iff x).mpr (by omega)
  obtain ⟨w', hw', hm', -, hwindow⟩ := ingestSample_admitted hm hadm
  refine ⟨hadm, w', hw', hm', ?_⟩
  rw [List.length_append, List.length_cons] at hlen
  rw [hwindow, List.length_append, List.length_singleton,
    show w.window.length + 1 - mlfqTreeWindowMax = 0 by omega, List.drop_zero]

/-- **The loop ingests what waits**, without a kick while the window is
small. -/
theorem DaemonRun.ingest_all {tr : List (DaemonEntry K)} {s : Daemon K}
    (h : DaemonRun order exp2 sqrt tr s) (hphase : s.phase = .ingest) (hm : s.train.Mirrors)
    {xs rest : List TreeSample} (hitems : s.sampleRx.items = xs ++ rest)
    (hcap : ∀ pid, pidSamples (s.train.window ++ xs) pid ≤ mlfqTreePerPidCap)
    (hfew : xs ≠ [] → (s.train.window ++ xs).length < mlfqTreeMinSamples) :
    ∃ tr' rx train, DaemonRun order exp2 sqrt (tr' ++ tr)
        { s with sampleRx := rx, train := train }
      ∧ Channel.items rx = rest ∧ train.Mirrors ∧ train.window = s.train.window ++ xs
      ∧ ∀ x ∈ tr', x.event = .ingest s.clock s.clock ∧ kickOf x = none := by
  induction xs generalizing tr s with
  | nil =>
      exact ⟨[], s.sampleRx, s.train, h, hitems, hm, (List.append_nil _).symm,
        fun _ hx => absurd hx List.not_mem_nil⟩
  | cons x xs ih =>
      have hshort := hfew (List.cons_ne_nil x xs)
      have hmin : mlfqTreeMinSamples = 2048 := rfl
      have hmax : mlfqTreeWindowMax = 16384 := rfl
      obtain ⟨hadm, w, hw, hmw, hwindow⟩ := admits_of_room hm hcap (by omega)
      obtain ⟨⟨s', kick⟩, hnext⟩ := exists_ingestNext hm hitems s.clock s.clock
      have hstep : stepDaemon order exp2 sqrt s (.ingest s.clock s.clock) = some s' := by
        simp only [stepDaemon]
        rw [if_pos ⟨hphase, Nat.le_refl _, Nat.le_refl _⟩, hnext, Option.map_some]
      obtain ⟨y, rx, train, hitems', htrain, hcases⟩ := ingestNext_cases hnext
      rw [hitems, List.cons_append, List.cons.injEq] at hitems'
      obtain ⟨rfl, hrest⟩ := hitems'
      obtain rfl := Option.some.inj (hw.symm.trans htrain)
      rcases hcases with ⟨rfl, -, rfl⟩ | ⟨hdue, -⟩
      · have hnone : kickOf (K := K) ⟨s, .ingest s.clock s.clock, { s with
            sampleRx := rx, train := w, clock := s.clock }⟩ = none := by
          show (s.ingestNext s.clock s.clock).bind Prod.snd = none
          rw [hnext, Option.bind_some]
        have happend : w.window ++ xs = s.train.window ++ x :: xs := by
          rw [hwindow, List.append_assoc]
          rfl
        obtain ⟨tr', rx', train', hrun, hrx', hm', hwindow', hevents⟩ := ih (h.snoc hstep) hphase
          hmw hrest.symm (by simp only [happend]; exact hcap)
          (fun _ => by simp only [happend]; exact hshort)
        refine ⟨tr' ++ [⟨s, .ingest s.clock s.clock, { s with
          sampleRx := rx, train := w, clock := s.clock }⟩], rx', train', ?_, hrx', hm', ?_, ?_⟩
        · rw [List.append_assoc]
          exact hrun
        · rw [hwindow']
          exact happend
        · intro z hz
          rcases List.mem_append.mp hz with hz | hz
          · exact hevents z hz
          · rw [List.mem_singleton.mp hz]
            exact ⟨rfl, hnone⟩
      · have hdue := trainingDue_length hdue
        rw [hwindow] at hdue
        simp only [List.length_append, List.length_cons, List.length_nil] at hdue hshort
        omega

/-- **A due sample kicks**, and an idle thread has room for the window. -/
theorem DaemonRun.ingest_kick {tr : List (DaemonEntry K)} {s : Daemon K}
    (h : DaemonRun order exp2 sqrt tr s) (hphase : s.phase = .ingest) (hm : s.train.Mirrors)
    {x : TreeSample} {rest : List TreeSample} (hitems : s.sampleRx.items = x :: rest)
    (hcap : ∀ pid, pidSamples (s.train.window ++ [x]) pid ≤ mlfqTreePerPidCap)
    (hlen : (s.train.window ++ [x]).length ≤ mlfqTreeWindowMax) (hjobs : s.jobs.items = [])
    {now kickAt : Nat} (hclock : s.clock ≤ now ∧ now ≤ kickAt)
    (hdue : trainingDue s.lastTrainAt (s.train.window ++ [x]) now = true) :
    ∃ y s' rx train, DaemonRun order exp2 sqrt (y :: tr) s'
      ∧ y.event = .ingest now kickAt
      ∧ kickOf y = some ⟨kickAt, s.train.window ++ [x], true⟩
      ∧ Channel.items rx = rest ∧ train.Mirrors ∧ train.window = s.train.window ++ [x]
      ∧ ∃ jobs, Channel.items jobs = [s.train.window ++ [x]]
        ∧ s' = { s with sampleRx := rx, train := train, clock := kickAt
                        lastTrainAt := some kickAt, jobs := jobs } := by
  obtain ⟨hadm, w, hw, hmw, hwindow⟩ := admits_of_room hm hcap hlen
  obtain ⟨⟨s', kick⟩, hnext⟩ := exists_ingestNext hm hitems now kickAt
  have hstep : stepDaemon order exp2 sqrt s (.ingest now kickAt) = some s' := by
    simp only [stepDaemon]
    rw [if_pos ⟨hphase, hclock⟩, hnext, Option.map_some]
  obtain ⟨y, rx, train, hitems', htrain, hcases⟩ := ingestNext_cases hnext
  rw [hitems, List.cons.injEq] at hitems'
  obtain ⟨rfl, hrest⟩ := hitems'
  obtain rfl := Option.some.inj (hw.symm.trans htrain)
  rcases hcases with ⟨-, hnot, -⟩ | ⟨-, k, rfl, htime, hsnap, jobs, hitems, htaken, rfl⟩
  · rw [hwindow, hadm, hdue] at hnot
    cases hnot
  · have htaken := htaken.mpr hjobs
    have hk : k = ⟨kickAt, s.train.window ++ [x], true⟩ := by
      cases k with
      | mk time snapshot taken =>
          simp only at htime hsnap htaken
          rw [htime, hsnap, htaken, hwindow]
    refine ⟨_, _, rx, w, h.snoc hstep, rfl, ?_, hrest.symm, hmw, hwindow, jobs, ?_, rfl⟩
    · show (s.ingestNext now kickAt).bind Prod.snd = _
      rw [hnext, hk, Option.bind_some]
    · rw [hitems, hjobs, htaken, if_pos rfl, hsnap, hwindow]
      rfl

theorem DaemonRun.consume {tr : List (DaemonEntry K)} {s : Daemon K}
    (h : DaemonRun order exp2 sqrt tr s) (hphase : s.phase = .consume) :
    ∃ c : DaemonEntry K, c.event = .consumed
      ∧ DaemonRun order exp2 sqrt (c :: tr) { s with phase := .ingest } :=
  ⟨_, rfl, h.snoc (show stepDaemon order exp2 sqrt s .consumed = _ from if_pos hphase)⟩

/-- Steps that fed samples to the loop: the callback forwarded them, no
other record was read, and no result was applied. -/
structure Feeds (order : ByteOrder) (xs : List TreeSample) (tr' tr : List (DaemonEntry K)) :
    Prop where
  applied : yields appliedOf (tr' ++ tr) = yields appliedOf tr
  forwarded : yields (forwardedOf order) (tr' ++ tr) = yields (forwardedOf order) tr ++ xs
  records : ∀ y ∈ tr', ∀ data, y.event = .record data → ∃ z ∈ xs, data = sampleBytes order z

/-- A step of the loop that reads no record and applies no result. -/
def Feedless (order : ByteOrder) (x : DaemonEntry K) : Prop :=
  appliedOf x = none ∧ forwardedOf order x = none ∧ x.event.isRecord = false

omit [LinearOrder K] [FloorSemiring K] [Field K] in
theorem feedless_consumed {x : DaemonEntry K} (h : x.event = .consumed) : Feedless order x := by
  simp only [Feedless, appliedOf, forwardedOf, h, DaemonEvent.isRecord, and_self]

omit [LinearOrder K] [FloorSemiring K] [Field K] in
theorem feedless_ingest {x : DaemonEntry K} {now kickAt : Nat}
    (h : x.event = .ingest now kickAt) : Feedless order x := by
  simp only [Feedless, appliedOf, forwardedOf, h, DaemonEvent.isRecord, and_self]

omit [LinearOrder K] [FloorSemiring K] [Field K] in
theorem Feeds.append {xs : List TreeSample} {tr' tr : List (DaemonEntry K)}
    (h : Feeds order xs tr' tr) {tr'' : List (DaemonEntry K)}
    (hquiet : ∀ x ∈ tr'', Feedless order x) : Feeds order xs (tr'' ++ tr') tr := by
  refine ⟨?_, ?_, ?_⟩
  · rw [List.append_assoc, yields_append_of_none fun x hx => (hquiet x hx).1]
    exact h.applied
  · rw [List.append_assoc, yields_append_of_none fun x hx => (hquiet x hx).2.1]
    exact h.forwarded
  · intro y hy data hdata
    rcases List.mem_append.mp hy with hy | hy
    · have hno := (hquiet y hy).2.2
      rw [hdata] at hno
      cases hno
    · exact h.records y hy data hdata

omit [LinearOrder K] [FloorSemiring K] [Field K] in
theorem Feeds.snoc {xs : List TreeSample} {tr' tr : List (DaemonEntry K)}
    (h : Feeds order xs tr' tr) {x : DaemonEntry K} (hquiet : Feedless order x) :
    Feeds order xs (x :: tr') tr :=
  h.append fun y hy => by rw [List.mem_singleton.mp hy]; exact hquiet

/-- **The loop fills the window** with the samples before the last ones,
which stay in the channel. -/
theorem DaemonRun.fill {tr : List (DaemonEntry K)} {s : Daemon K}
    (h : DaemonRun order exp2 sqrt tr s) (hphase : s.phase = .consume)
    (hempty : s.sampleRx.items = []) (hm : s.train.Mirrors) {xs rest : List TreeSample}
    (hok : ∀ y ∈ xs ++ rest, y.pid < 2 ^ 32 ∧ y.version = mlfqTreeSampleVersion)
    (hroom : (xs ++ rest).length ≤ sampleChannelCap)
    (hcap : ∀ pid, pidSamples (s.train.window ++ xs) pid ≤ mlfqTreePerPidCap)
    (hfew : xs ≠ [] → (s.train.window ++ xs).length < mlfqTreeMinSamples) :
    ∃ tr' rx train, DaemonRun order exp2 sqrt (tr' ++ tr)
        { s with sampleRx := rx, train := train, phase := .ingest }
      ∧ Channel.items rx = rest ∧ train.Mirrors ∧ train.window = s.train.window ++ xs
      ∧ yields kickOf (tr' ++ tr) = yields kickOf tr ∧ Feeds order (xs ++ rest) tr' tr := by
  obtain ⟨tr₁, rx₁, hrun₁, hrx₁, hrecords, hforwarded⟩ := h.forward_all hphase hok (by
    rw [hempty, List.length_nil, Nat.zero_add]
    exact hroom)
  rw [hempty, List.nil_append] at hrx₁
  have hfed : Feeds order (xs ++ rest) tr₁ tr := by
    refine ⟨yields_append_of_none (fun x hx => (hrecords.quiet x hx).2) tr, hforwarded, ?_⟩
    intro y hy data hdata
    obtain ⟨z, hz, hevent⟩ := hrecords y hy
    exact ⟨z, hz, DaemonEvent.record.inj (hdata.symm.trans hevent)⟩
  obtain ⟨c, hc, hrunc⟩ := hrun₁.consume hphase
  obtain ⟨tr₂, rx₂, train, hrun₂, hrx₂, hm₂, hwindow, hquiet⟩ :=
    hrunc.ingest_all rfl hm hrx₁ hcap hfew
  refine ⟨tr₂ ++ c :: tr₁, rx₂, train, ?_, hrx₂, hm₂, hwindow, ?_, ?_⟩
  · rw [List.append_assoc]
    exact hrun₂
  · have hc' : kickOf c = none := by simp only [kickOf, hc]
    rw [List.append_assoc, yields_append_of_none fun x hx => (hquiet x hx).2, List.cons_append,
      yields_cons, hc', yields_append_of_none fun x hx => (hrecords.quiet x hx).1]
    exact List.append_nil _
  · exact (hfed.snoc (feedless_consumed hc)).append fun x hx => feedless_ingest (hquiet x hx).1

/-- **One pass of the loop** over samples of which the last one is due. -/
theorem DaemonRun.pass {tr : List (DaemonEntry K)} {s : Daemon K}
    (h : DaemonRun order exp2 sqrt tr s) (hphase : s.phase = .consume)
    (hempty : s.sampleRx.items = []) (hjobs : s.jobs.items = []) (hm : s.train.Mirrors)
    (xs : List TreeSample) (x : TreeSample) {now kickAt : Nat}
    (hclock : s.clock ≤ now ∧ now ≤ kickAt)
    (hok : ∀ y ∈ xs ++ [x], y.pid < 2 ^ 32 ∧ y.version = mlfqTreeSampleVersion)
    (hroom : (xs ++ [x]).length ≤ sampleChannelCap)
    (hcap : ∀ pid, pidSamples (s.train.window ++ (xs ++ [x])) pid ≤ mlfqTreePerPidCap)
    (hlen : (s.train.window ++ (xs ++ [x])).length ≤ mlfqTreeWindowMax)
    (hfew : xs ≠ [] → (s.train.window ++ xs).length < mlfqTreeMinSamples)
    (hdue : trainingDue s.lastTrainAt (s.train.window ++ (xs ++ [x])) now = true) :
    ∃ tr' rx train jobs, DaemonRun order exp2 sqrt (tr' ++ tr)
        { s with sampleRx := rx, train := train, lastTrainAt := some kickAt, jobs := jobs
                 phase := .ingest, clock := kickAt }
      ∧ Channel.items rx = [] ∧ train.Mirrors ∧ train.window = s.train.window ++ (xs ++ [x])
      ∧ Channel.items jobs = [s.train.window ++ (xs ++ [x])]
      ∧ yields kickOf (tr' ++ tr)
        = yields kickOf tr ++ [⟨kickAt, s.train.window ++ (xs ++ [x]), true⟩]
      ∧ Feeds order (xs ++ [x]) tr' tr := by
  have hsome : ∀ pid, pidSamples (s.train.window ++ xs) pid ≤ mlfqTreePerPidCap := by
    intro pid
    refine Nat.le_trans (List.Sublist.countP_le ?_) (hcap pid)
    exact (List.sublist_append_left xs [x]).append_left s.train.window
  obtain ⟨tr₁, rx₁, train₁, hrun₁, hrx₁, hm₁, hwindow₁, hkicks, hfed⟩ :=
    h.fill hphase hempty hm hok hroom hsome hfew
  have happend : train₁.window ++ [x] = s.train.window ++ (xs ++ [x]) := by
    rw [hwindow₁]
    exact List.append_assoc _ _ _
  obtain ⟨y, s₂, rx₂, train₂, hrun₂, hevent, hkick, hrx₂, hm₂, hwindow₂, jobs, hjobs₂, rfl⟩ :=
    hrun₁.ingest_kick rfl hm₁ hrx₁ (by simp only [happend]; exact hcap)
      (by simp only [happend]; exact hlen) hjobs hclock (by simp only [happend]; exact hdue)
  simp only [happend] at hkick hwindow₂ hjobs₂
  refine ⟨y :: tr₁, rx₂, train₂, jobs, hrun₂, hrx₂, hm₂, hwindow₂, hjobs₂, ?_,
    hfed.snoc (feedless_ingest hevent)⟩
  rw [List.cons_append, yields_cons, hkicks, hkick]
  rfl

/-- Steps behind the callback: neither a record nor a kick. -/
def NoInput (order : ByteOrder) (x : DaemonEntry K) : Prop :=
  kickOf x = none ∧ forwardedOf order x = none ∧ x.event.isRecord = false

/-- **A snapshot that waits is trained on and applied** before the next
turn. -/
theorem DaemonRun.train_once {tr : List (DaemonEntry K)} {s : Daemon K}
    (h : DaemonRun order exp2 sqrt tr s) (hphase : s.phase = .ingest)
    (hempty : s.sampleRx.items = []) {samples : List TreeSample}
    (hjobs : s.jobs.items = [samples]) (hworker : s.worker = .waiting)
    (hresults : s.results.items = []) {res : TrainResult K}
    (hfit : trainModel exp2 sqrt samples = some (.ok res)) :
    ∃ tr' jobs results scratch, DaemonRun order exp2 sqrt (tr' ++ tr)
        { s with jobs := jobs, scratch := scratch, results := results, phase := .consume
                 publisher := (applyTrainResult s.publisher res .ok).1 }
      ∧ Channel.items jobs = [] ∧ Channel.items results = [] ∧ (∀ x ∈ tr', NoInput order x)
      ∧ yields appliedOf (tr' ++ tr) = yields appliedOf tr ++ [.ok res] := by
  have hingested : stepDaemon order exp2 sqrt s .ingested = some { s with phase := .poll } :=
    if_pos ⟨hphase, hempty⟩
  -- the thread: `recv`, the training, `send`
  obtain ⟨taken, jobs, hnext, hrecv⟩ := exists_recv order exp2 sqrt
    (s := { s with phase := .poll }) hworker (by simp only [hjobs]; exact List.cons_ne_nil _ _)
  obtain ⟨rfl, hjobs'⟩ := List.cons.inj (hjobs.symm.trans hnext)
  obtain ⟨r, scratch, hr, htrained⟩ := exists_trained order exp2 sqrt
    (s := { s with phase := .poll, jobs := jobs, worker := .training samples }) rfl
  obtain rfl := Option.some.inj (hfit.symm.trans hr)
  obtain ⟨results, hitems, hsend⟩ := exists_send order exp2 sqrt
    (s := { s with phase := .poll, jobs := jobs, worker := .sending (.ok res)
                   scratch := scratch }) rfl hresults
  -- the loop: the result, and the next turn
  obtain ⟨r, results', hpoll⟩ := Channel.exists_tryRecv
    (show results.items ≠ [] by rw [hitems]; exact List.cons_ne_nil _ _)
  obtain ⟨rfl, hdone⟩ := List.cons.inj (hitems.symm.trans (Channel.tryRecv_items hpoll))
  have happlied : stepDaemon order exp2 sqrt
      { s with phase := .poll, jobs := jobs, scratch := scratch, results := results } (.poll .ok)
      = some { s with
          phase := .poll, jobs := jobs, scratch := scratch, results := results'
          publisher := (applyTrainResult s.publisher res .ok).1 } := by
    simp only [stepDaemon, if_true, hpoll, Option.map_some, pollResult]
  have hpolled : stepDaemon order exp2 sqrt
      { s with phase := .poll, jobs := jobs, scratch := scratch, results := results'
               publisher := (applyTrainResult s.publisher res .ok).1 } .polled
      = some { s with
          phase := .serve, jobs := jobs, scratch := scratch, results := results'
          publisher := (applyTrainResult s.publisher res .ok).1 } := if_pos ⟨rfl, hdone.symm⟩
  have hworked : ({ s with phase := .poll, jobs := jobs, scratch := scratch, results := results
                           worker := .waiting } : Daemon K)
      = { s with phase := .poll, jobs := jobs, scratch := scratch, results := results } := by
    rw [← hworker]
  have hsent := ((h.snoc hingested).snoc hrecv).snoc htrained |>.snoc hsend
  rw [hworked] at hsent
  have hturn : stepDaemon order exp2 sqrt
      { s with phase := .serve, jobs := jobs, scratch := scratch, results := results'
               publisher := (applyTrainResult s.publisher res .ok).1 } .turn
      = some { s with
          phase := .consume, jobs := jobs, scratch := scratch, results := results'
          publisher := (applyTrainResult s.publisher res .ok).1 } := rfl
  refine ⟨[_, _, _, _, _, _, _], jobs, results', scratch,
    ((hsent.snoc happlied).snoc hpolled).snoc hturn, hjobs'.symm, hdone.symm, ?_, ?_⟩
  · simp [NoInput, kickOf, forwardedOf, DaemonEvent.isRecord]
  · simp only [List.cons_append, List.nil_append, yields_cons, appliedOf, hitems]
    simp

theorem bandBurst_pid (i : Nat) : (bandBurst i).pid = i % 16 := by
  rw [bandBurst]
  split <;> rfl

theorem bandBurst_ok (i : Nat) :
    (bandBurst i).pid < 2 ^ 32 ∧ (bandBurst i).version = mlfqTreeSampleVersion := by
  refine ⟨?_, ?_⟩
  · rw [bandBurst_pid]
    omega
  · rw [bandBurst]
    split <;> rfl

theorem bandStream_succ (n : Nat) : bandStream (n + 1) = bandStream n ++ [bandBurst n] := by
  rw [bandStream, List.range_succ, List.map_append]
  rfl

theorem bandStream_tail (n : Nat) :
    bandStream (n + 1) = bandBurst 0 :: (bandStream (n + 1)).tail := by
  rw [bandStream, List.range_succ_eq_map, List.map_cons, List.tail_cons]

/-- The sixteen tasks share the stream evenly. -/
theorem pidSamples_bandStream (n pid : Nat) : pidSamples (bandStream n) pid ≤ n / 16 + 1 := by
  have hcount : pidSamples (bandStream n) pid ≤ n.count (· ≡ pid [MOD 16]) := by
    induction n with
    | zero => exact Nat.zero_le _
    | succ n ih =>
        rw [bandStream_succ, pidSamples_concat, Nat.count_succ, bandBurst_pid]
        refine Nat.add_le_add ih ?_
        split
        · rename_i hpid
          rw [if_pos (show n ≡ pid [MOD 16] by rw [← hpid]; exact (Nat.mod_modEq n 16).symm)]
        · exact Nat.zero_le _
  rw [Nat.count_modEq_card n (by decide)] at hcount
  refine Nat.le_trans hcount ?_
  split <;> omega

/-- The stream stays below the cap of each task. -/
theorem pidSamples_bandStream_cap {n : Nat} (hn : n ≤ 2049) (pid : Nat) :
    pidSamples (bandStream n) pid ≤ mlfqTreePerPidCap := by
  have hle := pidSamples_bandStream n pid
  have hcap : mlfqTreePerPidCap = 819 := rfl
  omega

theorem exists_of_mem_bandStream {n : Nat} {x : TreeSample} (hx : x ∈ bandStream n) :
    ∃ i, x = bandBurst i := by
  obtain ⟨i, -, rfl⟩ := List.mem_map.mp hx
  exact ⟨i, rfl⟩

theorem bandStream_ok {n : Nat} {x : TreeSample} (hx : x ∈ bandStream n) :
    x.pid < 2 ^ 32 ∧ x.version = mlfqTreeSampleVersion := by
  obtain ⟨i, rfl⟩ := exists_of_mem_bandStream hx
  exact bandBurst_ok i

/-- A run over the stream of two kinds: 2048 samples are trained on and
applied, and the first sample an interval later sends the window to the
thread again. -/
structure BandRun (order : ByteOrder) (exp2 sqrt : K → K) (tr : List (DaemonEntry K))
    (s : Daemon K) (res : TrainResult K) : Prop where
  run : DaemonRun order exp2 sqrt tr s
  kicks : yields kickOf tr = [⟨0, bandStream 2048, true⟩,
    ⟨mlfqTreeRetrainIntervalNs, bandStream 2049, true⟩]
  applied : yields appliedOf tr = [.ok res]
  forwarded : yields (forwardedOf order) tr = bandStream 2049
  records : ∀ x ∈ tr, ∀ data, x.event = .record data → ∃ i, data = sampleBytes order (bandBurst i)
  window : s.train.window = bandStream 2049
  jobs : s.jobs.items = [bandStream 2049]
  worker : s.worker = .waiting
  results : s.results.items = []
  publisher : s.publisher = (applyTrainResult Publisher.initial res .ok).1

/-- **There is such a run**, whatever the numbers are. -/
theorem exists_bandRun (order : ByteOrder) (exp2 sqrt : K → K) {res : TrainResult K}
    (hfit : trainModel exp2 sqrt (bandStream 2048) = some (.ok res)) :
    ∃ tr s, BandRun order exp2 sqrt tr s res := by
  have hmax : mlfqTreeWindowMax = 16384 := rfl
  have hchan : sampleChannelCap = 4096 := rfl
  have hstart : DaemonRun order exp2 sqrt [] Daemon.initial := .start rfl
  have hm₀ : (Daemon.initial : Daemon K).train.Mirrors :=
    ⟨Nat.zero_le _, fun _ => rfl, fun _ => Nat.zero_le _⟩
  -- the first pass, to the 2048th sample
  have hfirst : (Daemon.initial : Daemon K).train.window ++ (bandStream 2047 ++ [bandBurst 2047])
      = bandStream 2048 := (List.nil_append _).trans (bandStream_succ 2047).symm
  have hdue₁ : trainingDue none (bandStream 2048) 0 = true := by
    rw [trainingDue, length_bandStream]
    rfl
  obtain ⟨tr₁, rx₁, w₁, jobs₁, hrun₁, hrx₁, hm₁, hw₁, hjobs₁, hkick₁, hfed₁⟩ :=
    hstart.pass rfl rfl rfl hm₀ (bandStream 2047) (bandBurst 2047)
      (show 0 ≤ 0 ∧ 0 ≤ 0 from ⟨Nat.le_refl 0, Nat.le_refl 0⟩)
      (by rw [← bandStream_succ]; exact fun y => bandStream_ok)
      (by rw [← bandStream_succ, length_bandStream]; omega)
      (by rw [hfirst]; exact pidSamples_bandStream_cap (by omega))
      (by rw [hfirst, length_bandStream]; omega)
      (fun _ => by rw [List.length_append, length_bandStream]; exact Nat.lt_succ_self 2047)
      (by rw [hfirst]; exact hdue₁)
  rw [hfirst] at hw₁ hjobs₁ hkick₁
  -- the thread, and the rest of the turn
  obtain ⟨tr₂, jobs₂, results₂, scratch₂, hrun₂, hjobs₂, hresults₂, hquiet₂, happ₂⟩ :=
    hrun₁.train_once rfl hrx₁ hjobs₁ rfl rfl hfit
  -- the second pass, an interval later
  have hsecond : w₁.window ++ ([] ++ [bandBurst 2048]) = bandStream 2049 := by
    rw [hw₁, List.nil_append, ← bandStream_succ]
  have hdue₃ : trainingDue (some 0) (bandStream 2049) mlfqTreeRetrainIntervalNs = true := by
    rw [trainingDue, length_bandStream]
    rfl
  obtain ⟨tr₃, rx₃, w₃, jobs₃, hrun₃, hrx₃, hm₃, hw₃, hjobs₃, hkick₃, hfed₃⟩ :=
    hrun₂.pass rfl hrx₁ hjobs₂ hm₁ [] (bandBurst 2048)
      (show 0 ≤ mlfqTreeRetrainIntervalNs ∧ mlfqTreeRetrainIntervalNs ≤ mlfqTreeRetrainIntervalNs
        from ⟨Nat.zero_le _, Nat.le_refl _⟩)
      (by simpa using bandBurst_ok 2048) (by decide)
      (by rw [hsecond]; exact pidSamples_bandStream_cap (Nat.le_refl _))
      (by rw [hsecond, length_bandStream]; omega) (fun hne => absurd rfl hne)
      (by rw [hsecond]; exact hdue₃)
  rw [hsecond] at hw₃ hjobs₃ hkick₃
  refine ⟨_, _, hrun₃, ?_, ?_, ?_, ?_, hw₃, hjobs₃, rfl, hresults₂, rfl⟩
  · rw [hkick₃, yields_append_of_none fun x hx => (hquiet₂ x hx).1, hkick₁]
    rfl
  · rw [hfed₃.applied, happ₂, hfed₁.applied]
    rfl
  · rw [hfed₃.forwarded, yields_append_of_none fun x hx => (hquiet₂ x hx).2.1, hfed₁.forwarded,
      ← bandStream_succ, yields_nil, List.nil_append, List.nil_append, ← bandStream_succ]
  · intro x hx data hdata
    rcases List.mem_append.mp hx with hx | hx
    · obtain ⟨y, hy, rfl⟩ := hfed₃.records x hx data hdata
      exact ⟨2048, by rw [List.mem_singleton.mp hy]⟩
    · rcases List.mem_append.mp hx with hx | hx
      · have hno := (hquiet₂ x hx).2.2
        rw [hdata] at hno
        cases hno
      · rw [List.append_nil] at hx
        obtain ⟨y, hy, rfl⟩ := hfed₁.records x hx data hdata
        rw [← bandStream_succ] at hy
        obtain ⟨i, rfl⟩ := exists_of_mem_bandStream hy
        exact ⟨i, rfl⟩

end ScxMlfq
