import ScxMlfq.Run.Loop

/-!
# Run — Daemon

Runs of the daemon: the run loop and the training thread in any
interleaving. Every sample the callback forwards is ingested once and in
order, every snapshot the thread takes is answered once and in order, and
neither of the two can be held up for good.
-/

namespace ScxMlfq

open Trace

variable {K : Type*} [Field K] [LinearOrder K] [FloorSemiring K]
variable {order : ByteOrder} {exp2 sqrt : K → K}

/-! ## The two queues -/

/-- The samples forwarded since the last turn of the loop. -/
def passed (order : ByteOrder) : List (DaemonEntry K) → Nat
  | [] => 0
  | x :: tr =>
      match x.event with
      | .turn => 0
      | _ => passed order tr + (forwardedOf order x).toList.length

/-- What the sample channel holds, by the place in the loop: what this
pass forwarded while it consumes, nothing once it polls. -/
structure PassHeld (order : ByteOrder) (tr : List (DaemonEntry K)) (s : Daemon K) : Prop where
  consume : s.phase = .consume → s.sampleRx.items.length = passed order tr
  drained : s.phase = .poll ∨ s.phase = .serve → s.sampleRx.items = []

theorem PassHeld.step {tr : List (DaemonEntry K)} {s s' : Daemon K} {e : DaemonEvent}
    (hp : PassHeld order tr s) (h : stepDaemon order exp2 sqrt s e = some s') :
    PassHeld order (⟨s, e, s'⟩ :: tr) s' := by
  have hflow := sampleRx_step h
  cases stepDaemon_steps h with
  | @record data phase =>
      have hphase : (s.forward order data).phase = .consume := by
        rcases forward_cases order s data with ⟨heq, -⟩ | ⟨x, rx, -, -, -, heq⟩
        · rw [heq, phase]
        · rw [heq, ← phase]
      refine ⟨fun _ => ?_, fun hlate => ?_⟩
      · have hlen := congrArg List.length hflow
        rw [List.length_append, List.length_append, hp.consume phase] at hlen
        have hin : (ingestedOf (⟨s, .record data, s.forward order data⟩ : DaemonEntry K)).toList
            = [] := rfl
        rw [hin, List.length_nil, Nat.zero_add] at hlen
        exact hlen.symm
      · rw [hphase] at hlate
        rcases hlate with hlate | hlate
        · cases hlate
        · cases hlate
  | consumed phase => exact ⟨nofun, fun hlate => hlate.elim nofun nofun⟩
  | @ingest now kickAt _ kick phase clock next =>
      obtain ⟨x, rx, train, -, -, hcases⟩ := ingestNext_cases next
      have hphase : s'.phase = .ingest := by
        rcases hcases with ⟨-, -, rfl⟩ | ⟨-, k, -, -, -, jobs, -, -, rfl⟩
        · exact phase
        · exact phase
      refine ⟨fun hc => ?_, fun hlate => ?_⟩
      · rw [hphase] at hc
        cases hc
      · rw [hphase] at hlate
        rcases hlate with hlate | hlate
        · cases hlate
        · cases hlate
  | ingested phase empty => exact ⟨nofun, fun _ => empty⟩
  | poll phase next =>
      refine ⟨fun hc => ?_, fun _ => hp.drained (.inl phase)⟩
      rw [show s.phase = .consume from hc] at phase
      cases phase
  | polled phase empty => exact ⟨nofun, fun _ => hp.drained (.inl phase)⟩
  | turn phase =>
      refine ⟨fun _ => ?_, fun hlate => hlate.elim nofun nofun⟩
      show s.sampleRx.items.length = 0
      rw [hp.drained (.inr phase), List.length_nil]
  | recv worker next => exact ⟨hp.consume, hp.drained⟩
  | trained worker fitted => exact ⟨hp.consume, hp.drained⟩
  | send worker sent => exact ⟨hp.consume, hp.drained⟩

theorem DaemonRun.passHeld {tr : List (DaemonEntry K)} {s : Daemon K}
    (h : DaemonRun order exp2 sqrt tr s) : PassHeld order tr s := by
  apply Run.invariant (I := PassHeld order) _ _ h
  · rintro s rfl
    exact ⟨fun _ => rfl, fun _ => rfl⟩
  · exact fun tr s e s' hp hstep => hp.step hstep

/-- The steps of the training window. -/
theorem DaemonRun.windowRun {tr : List (DaemonEntry K)} {s : Daemon K}
    (h : DaemonRun order exp2 sqrt tr s) :
    WindowRun (tr.filterMap (partEntry Daemon.train ingestedOf)) s.train := by
  apply Run.part _ _ h
  · rintro s rfl
    rfl
  · intro s e s' hstep
    cases stepDaemon_steps hstep with
    | @ingest now kickAt _ kick phase clock next =>
        left
        obtain ⟨x, rx, train, hitems, htrain, hcases⟩ := ingestNext_cases next
        have hin : ingestedOf ⟨s, .ingest now kickAt, s'⟩ = some x := by
          show s.sampleRx.items.head? = _
          rw [hitems, List.head?_cons]
        have hpost : s'.train = train := by
          rcases hcases with ⟨-, -, rfl⟩ | ⟨-, k, -, -, -, jobs, -, -, rfl⟩
          · rfl
          · rfl
        exact ⟨x, hin, by rw [hpost]; exact htrain⟩
    | @record data phase =>
        right
        refine ⟨rfl, ?_⟩
        rcases forward_cases order s data with ⟨heq, -⟩ | ⟨x, rx, -, -, -, heq⟩
        · rw [heq]
        · rw [heq]
    | consumed phase => exact .inr ⟨rfl, rfl⟩
    | ingested phase empty => exact .inr ⟨rfl, rfl⟩
    | poll phase next => exact .inr ⟨rfl, rfl⟩
    | polled phase empty => exact .inr ⟨rfl, rfl⟩
    | turn phase => exact .inr ⟨rfl, rfl⟩
    | recv worker next => exact .inr ⟨rfl, rfl⟩
    | trained worker fitted => exact .inr ⟨rfl, rfl⟩
    | send worker sent => exact .inr ⟨rfl, rfl⟩

/-- The admitted samples are some of those ingested, in their order. -/
theorem admitted_sublist (tr : List WindowEntry) :
    (admitted tr).Sublist (tr.map Entry.event).reverse := by
  induction tr with
  | nil => exact List.Sublist.refl []
  | cons x tr ih =>
      rw [admitted, List.map_cons, List.reverse_cons]
      split
      · exact ih.append (List.Sublist.refl _)
      · exact ih.trans (List.sublist_append_left _ _)

theorem map_event_partEntry {σ ε σ' ε' : Type*} (part : σ → σ') (of : Entry σ ε → Option ε')
    (tr : List (Entry σ ε)) :
    ((tr.filterMap (partEntry part of)).map Entry.event).reverse = yields of tr := by
  have hevent : (fun x => (partEntry part of x).map Entry.event) = of := by
    funext x
    rw [partEntry, Option.map_map]
    exact Option.map_id'
  rw [List.map_filterMap, hevent]
  rfl

/-- The window holds the latest of the samples the callback forwarded. -/
theorem DaemonRun.window_sublist {tr : List (DaemonEntry K)} {s : Daemon K}
    (h : DaemonRun order exp2 sqrt tr s) :
    s.train.window.Sublist (yields (forwardedOf order) tr) := by
  have hacc := h.windowRun.accounted
  have hin := admitted_sublist (tr.filterMap (partEntry Daemon.train ingestedOf))
  rw [map_event_partEntry] at hin
  have hflow : yields ingestedOf tr ++ s.sampleRx.items = yields (forwardedOf order) tr :=
    Run.flow (fun s => s.sampleRx.items) (by rintro s rfl; rfl)
      (fun _ _ _ hstep => sampleRx_step hstep) h
  rw [hacc.window, ← hflow]
  exact ((List.drop_sublist _ _).trans hin).trans (List.sublist_append_left _ _)

/-- **The stream of samples.** What the callback forwarded is ingested
once and in order, or waits in the channel; the channel is empty whenever
the loop starts a pass, and a sample finds no room only behind the 4096
of its own pass; and the window holds forwarded samples, in order. -/
theorem daemonRun_samples {tr : List (DaemonEntry K)} {s : Daemon K}
    (h : DaemonRun order exp2 sqrt tr s) :
    yields ingestedOf tr ++ s.sampleRx.items = yields (forwardedOf order) tr
    ∧ (∀ after before x data y, tr = after ++ x :: before → x.event = .record data →
        parseRecord order data = some y → forwardedOf order x = none →
        passed order before = sampleChannelCap)
    ∧ (s.phase = .serve → s.sampleRx.items = [])
    ∧ s.train.window.Sublist (yields (forwardedOf order) tr) := by
  refine ⟨?_, ?_, fun hserve => h.passHeld.drained (.inr hserve), h.window_sublist⟩
  · exact Run.flow (fun s => s.sampleRx.items) (by rintro s rfl; rfl)
      (fun _ _ _ hstep => sampleRx_step hstep) h
  · rintro after before x data y rfl hevent hparse hlost
    obtain ⟨hrun, hstep⟩ := h.split
    rw [hevent] at hstep
    have hphase : x.pre.phase = .consume := by
      have hsteps := stepDaemon_steps hstep
      generalize x.post = s' at hsteps
      cases hsteps with
      | record phase => exact phase
    have hlen := (DaemonRun.passHeld hrun).consume hphase
    have hcap := x.pre.sampleRx.bounded
    rw [forwardedOf, hevent] at hlost
    simp only [hparse] at hlost
    split at hlost
    · cases hlost
    · omega

/-- A pass of 4097 records, of which the last is lost, and one ingest. -/
theorem daemonRun_samples_lost :
    ∃ tr s before x, DaemonRun .little (fun _ : ℚ => 1) id tr s ∧ x :: before <:+ tr
      ∧ x.event = .record (sampleBytes .little (bandBurst 4096))
      ∧ forwardedOf .little x = none ∧ passed .little before = sampleChannelCap
      ∧ yields (forwardedOf .little) tr = bandStream 4096
      ∧ yields ingestedOf tr ++ s.sampleRx.items = yields (forwardedOf .little) tr
      ∧ s.sampleRx.items = (bandStream 4096).tail ∧ s.train.window = [bandBurst 0]
      ∧ s.train.window.Sublist (yields (forwardedOf .little) tr) := by
  have hstart : DaemonRun .little (fun _ : ℚ => 1) id [] Daemon.initial := .start rfl
  have hok : ∀ y ∈ bandStream 4096, y.pid < 2 ^ 32 ∧ y.version = mlfqTreeSampleVersion := by
    intro y hy
    obtain ⟨i, -, rfl⟩ := List.mem_map.mp hy
    exact bandBurst_ok i
  have hempty : (Daemon.initial : Daemon ℚ).sampleRx.items = [] := rfl
  obtain ⟨tr₁, rx₁, hrun₁, hrx₁, -, hfwd₁⟩ := hstart.forward_all rfl hok (by
    rw [hempty, length_bandStream, List.length_nil]
    decide)
  rw [hempty, List.nil_append] at hrx₁
  -- one more record finds no room
  have hfull : rx₁.items.length = sampleChannelCap := by
    rw [hrx₁, length_bandStream]
    rfl
  have hparse := parseRecord_sampleBytes .little (bandBurst_ok 4096).1 (bandBurst_ok 4096).2
  have hlost : stepDaemon .little (fun _ : ℚ => 1) id { Daemon.initial with sampleRx := rx₁ }
      (.record (sampleBytes .little (bandBurst 4096)))
      = some { Daemon.initial with sampleRx := rx₁ } := by
    simp only [stepDaemon, Daemon.forward, hparse, Channel.trySend_eq_none.mpr hfull]
    rfl
  obtain ⟨c, hc, hrun₂⟩ := DaemonRun.consume (hrun₁.snoc hlost) rfl
  have hcap : ∀ pid, pidSamples ([] ++ [bandBurst 0]) pid ≤ mlfqTreePerPidCap := fun pid =>
    Nat.le_trans (List.countP_le_length) (by decide)
  have hsplit : rx₁.items = [bandBurst 0] ++ (bandStream 4096).tail := by
    rw [hrx₁]
    exact bandStream_tail 4095
  obtain ⟨tr₃, rx₃, w, hrun, hrx₃, -, hwindow, hquiet⟩ := hrun₂.ingest_all rfl
    ⟨Nat.zero_le _, fun _ => rfl, fun _ => Nat.zero_le _⟩ hsplit hcap
    fun _ => show 1 < mlfqTreeMinSamples by decide
  obtain ⟨hflow, hloss, -, hsub⟩ := daemonRun_samples hrun
  have hnone : forwardedOf (K := ℚ) .little ⟨{ Daemon.initial with sampleRx := rx₁ },
      .record (sampleBytes .little (bandBurst 4096)), { Daemon.initial with sampleRx := rx₁ }⟩
      = none := by
    simp only [forwardedOf, hfull, Nat.lt_irrefl, if_false]
  have hc' : forwardedOf .little c = none := by simp only [forwardedOf, hc]
  have hfwd : yields (forwardedOf .little) (tr₃ ++ c :: ⟨{ Daemon.initial with sampleRx := rx₁ },
      .record (sampleBytes .little (bandBurst 4096)), { Daemon.initial with sampleRx := rx₁ }⟩
      :: (tr₁ ++ [])) = bandStream 4096 := by
    rw [yields_append_of_none fun z hz => by simp only [forwardedOf, (hquiet z hz).1],
      yields_cons, yields_cons, hc', hnone, hfwd₁]
    simp
  refine ⟨_, _, tr₁ ++ [], _, hrun, ⟨tr₃ ++ [c], by simp⟩, rfl, hnone,
    hloss (tr₃ ++ [c]) (tr₁ ++ []) _ _ (bandBurst 4096) (by simp) rfl hparse hnone, hfwd, hflow,
    hrx₃, hwindow, hsub⟩

/-! ## The kicks -/

/-- What the kicks of a run are: an interval apart, of windows large
enough, the latest on record. -/
structure Paced (tr : List (DaemonEntry K)) (s : Daemon K) : Prop where
  spaced : (yields kickOf tr).Pairwise fun a b => a.time + mlfqTreeRetrainIntervalNs ≤ b.time
  first : s.lastTrainAt = none → yields kickOf tr = []
  latest : ∀ t, s.lastTrainAt = some t → t ≤ s.clock ∧ ∀ k ∈ yields kickOf tr, k.time ≤ t
  sized : ∀ k ∈ yields kickOf tr, mlfqTreeMinSamples ≤ k.snapshot.length
    ∧ k.snapshot.length ≤ mlfqTreeWindowMax

omit [Field K] [LinearOrder K] [FloorSemiring K] in
theorem Paced.quiet {tr : List (DaemonEntry K)} {s : Daemon K} (h : Paced tr s)
    {x : DaemonEntry K} (hquiet : kickOf x = none) {s' : Daemon K}
    (hlast : s'.lastTrainAt = s.lastTrainAt) (hclock : s.clock ≤ s'.clock) :
    Paced (x :: tr) s' := by
  have hsame : yields kickOf (x :: tr) = yields kickOf tr := by
    rw [yields_cons, hquiet]
    exact List.append_nil _
  constructor
  · rw [hsame]
    exact h.spaced
  · rw [hsame, hlast]
    exact h.first
  · rw [hsame, hlast]
    intro t ht
    exact ⟨Nat.le_trans (h.latest t ht).1 hclock, (h.latest t ht).2⟩
  · rw [hsame]
    exact h.sized

/-- **One step keeps the pace.** -/
theorem Paced.step {tr : List (DaemonEntry K)} {s s' : Daemon K} {e : DaemonEvent}
    (h : Paced tr s) (hrun : DaemonRun order exp2 sqrt tr s)
    (hstep : stepDaemon order exp2 sqrt s e = some s') : Paced (⟨s, e, s'⟩ :: tr) s' := by
  cases stepDaemon_steps hstep with
  | @record data phase =>
      rcases forward_cases order s data with ⟨heq, -⟩ | ⟨x, rx, -, -, -, heq⟩
      · exact h.quiet rfl (by rw [heq]) (by rw [heq])
      · exact h.quiet rfl (by rw [heq]) (by rw [heq])
  | @ingest now kickAt _ kick phase clock next =>
      have hkick : kickOf ⟨s, .ingest now kickAt, s'⟩ = kick := by
        show (s.ingestNext now kickAt).bind Prod.snd = kick
        rw [next, Option.bind_some]
      have hcons : yields kickOf (⟨s, .ingest now kickAt, s'⟩ :: tr)
          = yields kickOf tr ++ kick.toList := by
        rw [yields_cons, hkick]
      have hbound := (DaemonRun.windowRun (hrun.snoc hstep)).accounted.mirrors.length
      obtain ⟨x, rx, train, -, -, hcases⟩ := ingestNext_cases next
      rcases hcases with ⟨rfl, -, rfl⟩ | ⟨hdue, k, rfl, htime, hsnap, jobs, -, -, rfl⟩
      · exact h.quiet hkick rfl (Nat.le_trans clock.1 clock.2)
      · rw [Option.toList_some] at hcons
        -- every earlier kick lies an interval before the one just made
        have hbefore : ∀ a ∈ yields kickOf tr, a.time + mlfqTreeRetrainIntervalNs ≤ k.time := by
          intro a ha
          rw [htime]
          cases hlast : s.lastTrainAt with
          | none =>
              rw [h.first hlast] at ha
              cases ha
          | some t =>
              rw [hlast] at hdue
              have hle := (h.latest t hlast).2 a ha
              have hspaced := trainingDue_spaced hdue
              have hclock := clock.2
              omega
        constructor
        · rw [hcons, List.pairwise_append]
          refine ⟨h.spaced, List.pairwise_singleton _ _, fun a ha b hb => ?_⟩
          obtain rfl := List.mem_singleton.mp hb
          exact hbefore a ha
        · intro hnone
          cases hnone
        · intro t ht
          obtain rfl : kickAt = t := Option.some.inj ht
          refine ⟨Nat.le_refl _, fun a ha => ?_⟩
          rw [hcons, List.mem_append, List.mem_singleton] at ha
          rcases ha with ha | rfl
          · rw [← htime]
            exact Nat.le_trans (Nat.le_add_right _ _) (hbefore a ha)
          · exact Nat.le_of_eq htime
        · intro a ha
          rw [hcons, List.mem_append, List.mem_singleton] at ha
          rcases ha with ha | rfl
          · exact h.sized a ha
          · rw [hsnap]
            exact ⟨trainingDue_length hdue, hbound⟩
  | consumed phase => exact h.quiet rfl rfl (Nat.le_refl _)
  | ingested phase empty => exact h.quiet rfl rfl (Nat.le_refl _)
  | poll phase next => exact h.quiet rfl rfl (Nat.le_refl _)
  | polled phase empty => exact h.quiet rfl rfl (Nat.le_refl _)
  | turn phase => exact h.quiet rfl rfl (Nat.le_refl _)
  | recv worker next => exact h.quiet rfl rfl (Nat.le_refl _)
  | trained worker fitted => exact h.quiet rfl rfl (Nat.le_refl _)
  | send worker sent => exact h.quiet rfl rfl (Nat.le_refl _)

theorem DaemonRun.paced {tr : List (DaemonEntry K)} {s : Daemon K}
    (h : DaemonRun order exp2 sqrt tr s) : Paced tr s := by
  induction h with
  | start hinit =>
      subst hinit
      exact ⟨List.Pairwise.nil, fun _ => rfl, nofun, nofun⟩
  | snoc hrun hstep ih => exact ih.step hrun hstep

/-- A kick hands over the window behind its ingest, where no snapshot
waits. -/
theorem kick_snapshot {s s' : Daemon K} {e : DaemonEvent}
    (h : stepDaemon order exp2 sqrt s e = some s') {k : Kick} (hk : kickOf ⟨s, e, s'⟩ = some k) :
    k.snapshot = s'.train.window ∧ (k.taken = true ↔ s.jobs.items = []) := by
  cases stepDaemon_steps h with
  | @ingest now kickAt _ kick phase clock next =>
      have hkick : kick = some k := by
        rw [← hk]
        show kick = (s.ingestNext now kickAt).bind Prod.snd
        rw [next, Option.bind_some]
      obtain ⟨y, rx, train, -, -, hcases⟩ := ingestNext_cases next
      rcases hcases with ⟨hnone, -, -⟩ | ⟨-, k', hsome, -, hsnap, jobs, -, htaken, hpost⟩
      · rw [hnone] at hkick
        cases hkick
      · obtain rfl := Option.some.inj (hsome.symm.trans hkick)
        exact ⟨hsnap.trans (congrArg (fun d => d.train.window) hpost).symm, htaken⟩
  | record phase => cases hk
  | consumed phase => cases hk
  | ingested phase empty => cases hk
  | poll phase next => cases hk
  | polled phase empty => cases hk
  | turn phase => cases hk
  | recv worker next => cases hk
  | trained worker fitted => cases hk
  | send worker sent => cases hk

theorem DaemonRun.answered {tr : List (DaemonEntry K)} {s : Daemon K}
    (h : DaemonRun order exp2 sqrt tr s) :
    (yields appliedOf tr).map some ++ s.answers exp2 sqrt
      = (yields takenOf tr).map (trainModel exp2 sqrt) := by
  rw [← yields_map, ← yields_map]
  exact Run.flow (Daemon.answers exp2 sqrt) (by rintro s rfl; rfl)
    (fun _ _ _ hstep => answers_step hstep) h

omit [Field K] [LinearOrder K] [FloorSemiring K] in
/-- A snapshot the thread takes is that of a kick. -/
theorem exists_kick_of_taken {tr : List (DaemonEntry K)} {samples : List TreeSample}
    (h : samples ∈ yields takenOf tr) : ∃ k ∈ yields kickOf tr, k.snapshot = samples := by
  obtain ⟨x, hx, hof⟩ := mem_yields.mp h
  rw [takenOf] at hof
  obtain ⟨k, hk, rfl⟩ := Option.map_eq_some_iff.mp hof
  exact ⟨k, mem_yields.mpr ⟨x, hx, (Option.filter_eq_some_iff.mp hk).1⟩, rfl⟩

/-- What was applied is a training of the snapshot of some kick. -/
theorem DaemonRun.trained {tr : List (DaemonEntry K)} {s : Daemon K}
    (h : DaemonRun order exp2 sqrt tr s) {r : Except String (TrainResult K)}
    (hr : r ∈ yields appliedOf tr) :
    ∃ k ∈ yields kickOf tr, trainModel exp2 sqrt k.snapshot = some r := by
  have hmem : some r ∈ (yields takenOf tr).map (trainModel exp2 sqrt) := by
    rw [← h.answered]
    exact List.mem_append_left _ (List.mem_map_of_mem hr)
  obtain ⟨samples, hsamples, htrain⟩ := List.mem_map.mp hmem
  obtain ⟨k, hk, rfl⟩ := exists_kick_of_taken hsamples
  exact ⟨k, hk, htrain⟩

/-- **The training thread is a queue.** The results applied, followed by
those on the way, are the trainings of the snapshots taken, in the order
they were taken, each as on a new arena; at most three are on the way. A
kick finds room exactly when no earlier snapshot waits for the thread.
Kicks are a retrain interval apart, each of a window of at least 2048
samples, so no training the thread starts can fail. -/
theorem daemonRun_training {tr : List (DaemonEntry K)} {s : Daemon K}
    (h : DaemonRun order exp2 sqrt tr s) :
    (yields appliedOf tr).map some ++ s.answers exp2 sqrt
      = (yields takenOf tr).map (trainModel exp2 sqrt)
    ∧ (s.answers exp2 sqrt).length ≤ 3
    ∧ (∀ x ∈ tr, ∀ k, kickOf x = some k → k.snapshot = x.post.train.window
        ∧ (k.taken = true ↔ x.pre.jobs.items = []))
    ∧ ((yields kickOf tr).Pairwise fun a b => a.time + mlfqTreeRetrainIntervalNs ≤ b.time)
    ∧ (∀ k ∈ yields kickOf tr, mlfqTreeMinSamples ≤ k.snapshot.length
        ∧ k.snapshot.length ≤ mlfqTreeWindowMax)
    ∧ ∀ samples ∈ yields takenOf tr, ∃ res, trainModel exp2 sqrt samples = some (.ok res)
        ∧ Trained exp2 sqrt samples res := by
  have hpaced := h.paced
  refine ⟨h.answered, answers_length_le exp2 sqrt s, ?_, hpaced.spaced, hpaced.sized, ?_⟩
  · intro x hx k hk
    obtain ⟨after, before, rfl⟩ := List.append_of_mem hx
    exact kick_snapshot h.split.2 hk
  · intro samples hsamples
    obtain ⟨k, hk, rfl⟩ := exists_kick_of_taken hsamples
    have hlen := (hpaced.sized k hk).1
    have hmin : mlfqTreeMinSamples = 2048 := rfl
    exact trainModel_ok exp2 sqrt (by omega)

omit [Field K] [LinearOrder K] [FloorSemiring K] in
theorem yields_takenOf (tr : List (DaemonEntry K)) :
    yields takenOf tr = ((yields kickOf tr).filter Kick.taken).map Kick.snapshot := by
  induction tr with
  | nil => rfl
  | cons x tr ih =>
      rw [yields_cons, yields_cons, ih, List.filter_append, List.map_append, takenOf]
      cases kickOf x with
      | none => rfl
      | some k => cases htaken : k.taken <;> simp [Option.filter, htaken]

/-- Two kicks an interval apart, of which one is trained on and applied,
and the other waits for the thread. -/
theorem daemonRun_training_bandStream :
    ∃ tr s, DaemonRun .little (fun _ : ℚ => 1) id tr s
      ∧ yields kickOf tr = [⟨0, bandStream 2048, true⟩,
        ⟨mlfqTreeRetrainIntervalNs, bandStream 2049, true⟩]
      ∧ yields takenOf tr = [bandStream 2048, bandStream 2049]
      ∧ (yields appliedOf tr).length = 1
      ∧ s.answers (fun _ => 1) id = [trainModel (fun _ => 1) id (bandStream 2049)]
      ∧ (yields appliedOf tr).map some ++ s.answers (fun _ => 1) id
        = (yields takenOf tr).map (trainModel (fun _ => 1) id)
      ∧ ((yields kickOf tr).Pairwise fun a b => a.time + mlfqTreeRetrainIntervalNs ≤ b.time)
      ∧ (∀ k ∈ yields kickOf tr, mlfqTreeMinSamples ≤ k.snapshot.length
        ∧ k.snapshot.length ≤ mlfqTreeWindowMax)
      ∧ ∀ samples ∈ yields takenOf tr, ∃ res, trainModel (fun _ : ℚ => 1) id samples
        = some (.ok res) ∧ Trained (fun _ => 1) id samples res := by
  obtain ⟨res, hfit, -⟩ := trainModel_ok (fun _ : ℚ => 1) id
    (show 20 ≤ (bandStream 2048).length by rw [length_bandStream]; decide)
  obtain ⟨tr, s, h⟩ := exists_bandRun .little (fun _ : ℚ => 1) id hfit
  have htaken : yields takenOf tr = [bandStream 2048, bandStream 2049] := by
    rw [yields_takenOf, h.kicks]
    simp
  have hanswers : s.answers (fun _ => 1) id = [trainModel (fun _ => 1) id (bandStream 2049)] := by
    rw [Daemon.answers, h.results, h.worker, h.jobs]
    rfl
  obtain ⟨hqueue, -, -, hspaced, hsized, hsound⟩ := daemonRun_training h.run
  exact ⟨tr, s, h.run, h.kicks, htaken, by rw [h.applied]; rfl, hanswers, hqueue, hspaced, hsized,
    hsound⟩

end ScxMlfq
