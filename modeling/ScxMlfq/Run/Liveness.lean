import ScxMlfq.Run.Daemon

/-!
# Run — Liveness

The loop of the daemon never waits for the training thread, and the
thread waits only where the loop has the next move. From every state of a
run the two can finish what they hold without another record.
-/

namespace ScxMlfq

open Trace

variable {K : Type*} [Field K] [LinearOrder K] [FloorSemiring K]
variable (order : ByteOrder) (exp2 sqrt : K → K)

/-- The thread a step belongs to. -/
def DaemonEvent.ofWorker : DaemonEvent → Bool
  | .recv => true
  | .trained => true
  | .send => true
  | _ => false

/-- A step of either thread that needs no new record. -/
def Advances (order : ByteOrder) (exp2 sqrt : K → K) (s s' : Daemon K) : Prop :=
  ∃ e, e.isRecord = false ∧ stepDaemon order exp2 sqrt s e = some s'

/-- The steps left to the results held: four for a snapshot that waits,
one less for each stage behind. -/
def TrainWorker.backlog : TrainWorker K → Nat
  | .waiting => 0
  | .training _ => 3
  | .sending _ => 2

def Daemon.backlog (s : Daemon K) : Nat :=
  s.results.items.length + s.worker.backlog + 4 * s.jobs.items.length

/-! ## The training thread -/

/-- **The thread waits** for a snapshot, or for the loop to take the
result in front of its own. -/
theorem worker_blocked_iff (s : Daemon K) :
    (∀ e, DaemonEvent.ofWorker e = true → stepDaemon order exp2 sqrt s e = none)
      ↔ (s.worker = .waiting ∧ s.jobs.items = [])
        ∨ ∃ res, s.worker = .sending res ∧ s.results.items ≠ [] := by
  constructor
  · intro hblocked
    cases hworker : s.worker with
    | waiting =>
        refine .inl ⟨rfl, ?_⟩
        by_contra hne
        obtain ⟨samples, jobs, -, hstep⟩ := exists_recv order exp2 sqrt hworker hne
        rw [hblocked .recv rfl] at hstep
        cases hstep
    | training samples =>
        obtain ⟨res, scratch, -, hstep⟩ := exists_trained order exp2 sqrt hworker
        rw [hblocked .trained rfl] at hstep
        cases hstep
    | sending res =>
        refine .inr ⟨res, rfl, fun hempty => ?_⟩
        obtain ⟨results, -, hstep⟩ := exists_send order exp2 sqrt hworker hempty
        rw [hblocked .send rfl] at hstep
        cases hstep
  · intro hwaits e he
    cases hstep : stepDaemon order exp2 sqrt s e with
    | none => rfl
    | some s' =>
        exfalso
        cases stepDaemon_steps hstep with
        | recv worker next =>
            rcases hwaits with ⟨-, hempty⟩ | ⟨res, hsending, -⟩
            · rw [hempty] at next
              cases next
            · rw [worker] at hsending
              cases hsending
        | trained worker fitted =>
            rcases hwaits with ⟨hwaiting, -⟩ | ⟨res, hsending, -⟩
            · rw [worker] at hwaiting
              cases hwaiting
            · rw [worker] at hsending
              cases hsending
        | @send res results worker sent =>
            rcases hwaits with ⟨hwaiting, -⟩ | ⟨res', -, hfull⟩
            · rw [worker] at hwaiting
              cases hwaiting
            · have hcap := results.bounded
              rw [sent, List.length_append, List.length_singleton] at hcap
              exact hfull (List.eq_nil_of_length_eq_zero (by omega))
        | record phase => cases he
        | consumed phase => cases he
        | ingest phase clock next => cases he
        | ingested phase empty => cases he
        | poll phase next => cases he
        | polled phase empty => cases he
        | turn phase => cases he

/-! ## The loop -/

/-- An ingest of a sample that waits succeeds at any time. -/
theorem exists_ingest {s : Daemon K} (hphase : s.phase = .ingest) (hm : s.train.Mirrors)
    {x : TreeSample} {rest : List TreeSample} (hitems : s.sampleRx.items = x :: rest) :
    ∃ s', stepDaemon order exp2 sqrt s (.ingest s.clock s.clock) = some s'
      ∧ s'.phase = .ingest ∧ s'.train.Mirrors ∧ s'.sampleRx.items = rest := by
  obtain ⟨⟨s', kick⟩, hnext⟩ := exists_ingestNext hm hitems s.clock s.clock
  refine ⟨s', ?_, ?_⟩
  · simp only [stepDaemon]
    rw [if_pos ⟨hphase, Nat.le_refl _, Nat.le_refl _⟩, hnext, Option.map_some]
  · obtain ⟨z, rx, train, hitems', htrain, hcases⟩ := ingestNext_cases hnext
    rw [hitems, List.cons.injEq] at hitems'
    obtain ⟨rfl, hrest⟩ := hitems'
    have hm' := hm.ingestSample htrain
    rcases hcases with ⟨-, -, rfl⟩ | ⟨-, k, -, -, -, jobs, -, -, rfl⟩
    · exact ⟨hphase, hm', hrest.symm⟩
    · exact ⟨hphase, hm', hrest.symm⟩

/-- **The loop never waits.** -/
theorem loop_enabled (s : Daemon K) (hm : s.train.Mirrors) :
    ∃ e s', DaemonEvent.ofWorker e = false ∧ DaemonEvent.isRecord e = false
      ∧ stepDaemon order exp2 sqrt s e = some s' := by
  cases hphase : s.phase with
  | consume => exact ⟨.consumed, _, rfl, rfl, if_pos hphase⟩
  | serve => exact ⟨.turn, _, rfl, rfl, if_pos hphase⟩
  | ingest =>
      cases hitems : s.sampleRx.items with
      | nil => exact ⟨.ingested, _, rfl, rfl, if_pos ⟨hphase, hitems⟩⟩
      | cons x rest =>
          obtain ⟨s', hstep, -⟩ := exists_ingest order exp2 sqrt hphase hm hitems
          exact ⟨_, s', rfl, rfl, hstep⟩
  | poll =>
      by_cases hempty : s.results.items = []
      · exact ⟨.polled, _, rfl, rfl, if_pos ⟨hphase, hempty⟩⟩
      · obtain ⟨res, results, hrecv⟩ := Channel.exists_tryRecv hempty
        refine ⟨.poll .ok, { s with
          results := results, publisher := pollResult s.publisher res .ok }, rfl, rfl, ?_⟩
        simp only [stepDaemon]
        rw [if_pos hphase, hrecv, Option.map_some]

open Relation in
/-- The loop reaches its poll with the sample channel empty. -/
theorem reaches_poll (s : Daemon K) (hm : s.train.Mirrors)
    (hp : s.phase = .poll → s.sampleRx.items = []) :
    ∃ s', ReflTransGen (Advances order exp2 sqrt) s s' ∧ s'.phase = .poll
      ∧ s'.sampleRx.items = [] := by
  -- from the ingest on, by induction on the samples that wait
  have hingest : ∀ (items : List TreeSample) (s : Daemon K), s.phase = .ingest →
      s.train.Mirrors → s.sampleRx.items = items →
      ∃ s', ReflTransGen (Advances order exp2 sqrt) s s' ∧ s'.phase = .poll
        ∧ s'.sampleRx.items = [] := by
    intro items
    induction items with
    | nil =>
        intro s hphase _ hitems
        refine ⟨{ s with phase := .poll }, .single ⟨.ingested, rfl, ?_⟩, rfl, hitems⟩
        exact if_pos ⟨hphase, hitems⟩
    | cons x rest ih =>
        intro s hphase hm hitems
        obtain ⟨s₁, hstep, hphase₁, hm₁, hitems₁⟩ := exists_ingest order exp2 sqrt hphase hm hitems
        obtain ⟨s', hreach, hpoll⟩ := ih s₁ hphase₁ hm₁ hitems₁
        exact ⟨s', .head ⟨_, rfl, hstep⟩ hreach, hpoll⟩
  have hconsume : ∀ s : Daemon K, s.phase = .consume → s.train.Mirrors →
      ∃ s', ReflTransGen (Advances order exp2 sqrt) s s' ∧ s'.phase = .poll
        ∧ s'.sampleRx.items = [] := by
    intro s hphase hm
    obtain ⟨s', hreach, hpoll⟩ := hingest _ { s with phase := .ingest } rfl hm rfl
    exact ⟨s', .head ⟨.consumed, rfl, if_pos hphase⟩ hreach, hpoll⟩
  cases hphase : s.phase with
  | poll => exact ⟨s, .refl, hphase, hp hphase⟩
  | ingest => exact hingest _ s hphase hm rfl
  | consume => exact hconsume s hphase hm
  | serve =>
      obtain ⟨s', hreach, hpoll⟩ := hconsume { s with phase := .consume } rfl hm
      exact ⟨s', .head ⟨.turn, rfl, if_pos hphase⟩ hreach, hpoll⟩

open Relation in
/-- **At its poll the loop and the thread finish what they hold**: each
of their steps shortens the backlog. -/
theorem reaches_answered (n : Nat) (s : Daemon K) (hphase : s.phase = .poll)
    (hn : s.backlog = n) :
    ∃ s', ReflTransGen (Advances order exp2 sqrt) s s' ∧ s'.answers exp2 sqrt = []
      ∧ s'.sampleRx = s.sampleRx := by
  induction n using Nat.strong_induction_on generalizing s with
  | _ n ih =>
      by_cases hresults : s.results.items = []
      · cases hworker : s.worker with
        | training samples =>
            obtain ⟨res, scratch, -, hstep⟩ := exists_trained order exp2 sqrt hworker
            have hless : Daemon.backlog { s with worker := .sending res, scratch := scratch }
                < n := by
              rw [← hn]
              simp only [Daemon.backlog, TrainWorker.backlog, hworker]
              omega
            obtain ⟨s', hreach, hdone⟩ := ih _ hless
              { s with worker := .sending res, scratch := scratch } hphase rfl
            exact ⟨s', .head ⟨.trained, rfl, hstep⟩ hreach, hdone⟩
        | sending res =>
            obtain ⟨results, hitems, hstep⟩ := exists_send order exp2 sqrt hworker hresults
            have hless : Daemon.backlog { s with results := results, worker := .waiting }
                < n := by
              rw [← hn]
              simp only [Daemon.backlog, TrainWorker.backlog, hworker, hitems, hresults,
                List.length_singleton, List.length_nil]
              omega
            obtain ⟨s', hreach, hdone⟩ := ih _ hless
              { s with results := results, worker := .waiting } hphase rfl
            exact ⟨s', .head ⟨.send, rfl, hstep⟩ hreach, hdone⟩
        | waiting =>
            by_cases hjobs : s.jobs.items = []
            · refine ⟨s, .refl, ?_, rfl⟩
              simp only [Daemon.answers, TrainWorker.answers, hresults, hworker, hjobs,
                List.map_nil, List.append_nil]
            · obtain ⟨samples, jobs, hitems, hstep⟩ := exists_recv order exp2 sqrt hworker hjobs
              have hless : Daemon.backlog { s with jobs := jobs, worker := .training samples }
                  < n := by
                rw [← hn]
                simp only [Daemon.backlog, TrainWorker.backlog, hworker, hitems, List.length_cons]
                omega
              obtain ⟨s', hreach, hdone⟩ := ih _ hless
                { s with jobs := jobs, worker := .training samples } hphase rfl
              exact ⟨s', .head ⟨.recv, rfl, hstep⟩ hreach, hdone⟩
      · obtain ⟨res, results, hrecv⟩ := Channel.exists_tryRecv hresults
        have hitems := Channel.tryRecv_items hrecv
        have hstep : stepDaemon order exp2 sqrt s (.poll .ok)
            = some { s with
                results := results, publisher := pollResult s.publisher res .ok } := by
          simp only [stepDaemon]
          rw [if_pos hphase, hrecv, Option.map_some]
        have hless : Daemon.backlog { s with
            results := results, publisher := pollResult s.publisher res .ok } < n := by
          rw [← hn]
          simp only [Daemon.backlog, hitems, List.length_cons]
          omega
        obtain ⟨s', hreach, hdone⟩ := ih _ hless { s with
          results := results, publisher := pollResult s.publisher res .ok } hphase rfl
        exact ⟨s', .head ⟨.poll .ok, rfl, hstep⟩ hreach, hdone⟩

open Relation in
/-- **Progress of the daemon**, from every state of a run: the loop has a
step of its own that waits for nothing; the thread is without one only
while it has no snapshot, or while the result before its own is not
taken; and without another record the two can apply everything they hold
and empty the sample channel. -/
theorem daemonRun_progress {order : ByteOrder} {exp2 sqrt : K → K}
    {tr : List (DaemonEntry K)} {s : Daemon K} (h : DaemonRun order exp2 sqrt tr s) :
    (∃ e s', DaemonEvent.ofWorker e = false ∧ DaemonEvent.isRecord e = false
        ∧ stepDaemon order exp2 sqrt s e = some s')
    ∧ ((∀ e, DaemonEvent.ofWorker e = true → stepDaemon order exp2 sqrt s e = none)
        ↔ (s.worker = .waiting ∧ s.jobs.items = [])
          ∨ ∃ res, s.worker = .sending res ∧ s.results.items ≠ [])
    ∧ ∃ s', ReflTransGen (Advances order exp2 sqrt) s s' ∧ s'.answers exp2 sqrt = []
        ∧ s'.sampleRx.items = [] := by
  have hm := h.windowRun.accounted.mirrors
  refine ⟨loop_enabled order exp2 sqrt s hm, worker_blocked_iff order exp2 sqrt s, ?_⟩
  obtain ⟨s₁, hreach₁, hphase₁, hempty₁⟩ := reaches_poll order exp2 sqrt s hm
    fun hpoll => h.passHeld.drained (.inl hpoll)
  obtain ⟨s₂, hreach₂, hdone, hrx⟩ := reaches_answered order exp2 sqrt s₁.backlog s₁ hphase₁ rfl
  exact ⟨s₂, hreach₁.trans hreach₂, hdone, by rw [hrx]; exact hempty₁⟩

/-- While the second snapshot waits, the loop and the thread each have a
step, and together they drain what is held. -/
theorem daemonRun_progress_bandStream :
    ∃ s : Daemon ℚ, s.jobs.items = [bandStream 2049]
      ∧ s.answers (fun _ => 1) id = [trainModel (fun _ => 1) id (bandStream 2049)]
      ∧ (∃ e s', DaemonEvent.ofWorker e = false ∧ DaemonEvent.isRecord e = false
        ∧ stepDaemon .little (fun _ => 1) id s e = some s')
      ∧ (∃ e s', DaemonEvent.ofWorker e = true ∧ stepDaemon .little (fun _ => 1) id s e = some s')
      ∧ ∃ s', Relation.ReflTransGen (Advances .little (fun _ => 1) id) s s'
        ∧ s'.answers (fun _ => 1) id = [] ∧ s'.sampleRx.items = [] := by
  obtain ⟨res, hfit, -⟩ := trainModel_ok (fun _ : ℚ => 1) id
    (show 20 ≤ (bandStream 2048).length by rw [length_bandStream]; decide)
  obtain ⟨tr, s, h⟩ := exists_bandRun .little (fun _ : ℚ => 1) id hfit
  obtain ⟨hloop, hblocked, hdrained⟩ := daemonRun_progress h.run
  refine ⟨s, h.jobs, ?_, hloop, ?_, hdrained⟩
  · rw [Daemon.answers, h.results, h.worker, h.jobs]
    rfl
  · -- the thread is in `recv`, with a snapshot
    by_contra hno
    have hnone := hblocked.mp fun e he => by
      cases hstep : stepDaemon .little (fun _ : ℚ => 1) id s e with
      | none => rfl
      | some s' => exact absurd ⟨e, s', he, hstep⟩ hno
    rw [h.jobs, h.worker] at hnone
    rcases hnone with ⟨-, hempty⟩ | ⟨res', hsending, -⟩
    · cases hempty
    · cases hsending

end ScxMlfq
