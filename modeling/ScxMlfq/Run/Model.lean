import ScxMlfq.Daemon.Prediction
import ScxMlfq.Lib.Spacing
import ScxMlfq.Run.Daemon

/-!
# Run — Model

The model in the maps over the runs of the daemon. What the scheduler
reads there is the fit to a snapshot of the window that passed the gate;
it predicts possible bursts; and the correlation, which has to grow by a
margin and cannot pass one, bounds how often a model is replaced.
-/

namespace ScxMlfq

open Trace Spacing

variable {K : Type*} [Field K] [LinearOrder K] [FloorSemiring K]
variable {order : ByteOrder} {exp2 sqrt : K → K}

/-! ## The publisher's steps -/

/-- The fit a step applied. A failed training is none. -/
def fitOf (x : DaemonEntry K) : Option (TrainResult K × MapUpdate) :=
  match x.event with
  | .poll update =>
      match x.pre.results.items.head? with
      | some (.ok res) => some (res, update)
      | _ => none
  | _ => none

/-- The steps of the publisher in a run of the daemon. -/
def fits (tr : List (DaemonEntry K)) : List (TrainEntry K) :=
  tr.filterMap (partEntry Daemon.publisher fitOf)

omit [Field K] [LinearOrder K] [FloorSemiring K] in
theorem appliedOf_of_fitOf {x : DaemonEntry K} {res : TrainResult K} {update : MapUpdate}
    (h : fitOf x = some (res, update)) : appliedOf x = some (.ok res) := by
  cases x with
  | mk pre event post =>
      cases event with
      | poll update' =>
          simp only [fitOf] at h
          split at h
          · rename_i hhead
            cases h
            exact hhead
          · cases h
      | _ => cases h

omit [Field K] [LinearOrder K] [FloorSemiring K] in
/-- A fit among the steps of the publisher was applied in the run. -/
theorem applied_of_mem_fits {tr : List (DaemonEntry K)} {x : TrainEntry K} (hx : x ∈ fits tr) :
    .ok x.event.1 ∈ yields appliedOf tr := by
  obtain ⟨y, hy, hpart⟩ := List.mem_filterMap.mp hx
  obtain ⟨e, he, rfl⟩ := Option.map_eq_some_iff.mp hpart
  exact mem_yields.mpr ⟨y, hy, appliedOf_of_fitOf he⟩

theorem DaemonRun.trainRun {tr : List (DaemonEntry K)} {s : Daemon K}
    (h : DaemonRun order exp2 sqrt tr s) : TrainRun (fits tr) s.publisher := by
  apply Run.part _ _ h
  · rintro s rfl
    rfl
  · intro s e s' hstep
    cases stepDaemon_steps hstep with
    | @record data phase =>
        right
        refine ⟨rfl, ?_⟩
        rcases forward_cases order s data with ⟨heq, -⟩ | ⟨x, rx, -, -, -, heq⟩
        · rw [heq]
        · rw [heq]
    | @ingest now kickAt _ kick phase clock next =>
        right
        refine ⟨rfl, ?_⟩
        obtain ⟨x, rx, train, -, -, hcases⟩ := ingestNext_cases next
        rcases hcases with ⟨-, -, rfl⟩ | ⟨-, k, -, -, -, jobs, -, -, rfl⟩
        · rfl
        · rfl
    | @poll update res results phase next =>
        cases res with
        | ok res =>
            left
            refine ⟨(res, update), ?_, rfl⟩
            simp only [fitOf, next, List.head?_cons]
        | error e =>
            right
            refine ⟨?_, rfl⟩
            simp only [fitOf, next, List.head?_cons]
    | consumed phase => exact .inr ⟨rfl, rfl⟩
    | ingested phase empty => exact .inr ⟨rfl, rfl⟩
    | polled phase empty => exact .inr ⟨rfl, rfl⟩
    | turn phase => exact .inr ⟨rfl, rfl⟩
    | recv worker next => exact .inr ⟨rfl, rfl⟩
    | trained worker fitted => exact .inr ⟨rfl, rfl⟩
    | send worker sent => exact .inr ⟨rfl, rfl⟩

/-- **A fit comes from a kick**: it is the training of its snapshot,
which is large enough. -/
theorem DaemonRun.fit_trained {tr : List (DaemonEntry K)} {s : Daemon K}
    (h : DaemonRun order exp2 sqrt tr s) {x : TrainEntry K} (hx : x ∈ fits tr) :
    ∃ k ∈ yields kickOf tr, trainModel exp2 sqrt k.snapshot = some (.ok x.event.1)
      ∧ Trained exp2 sqrt k.snapshot x.event.1 := by
  obtain ⟨k, hk, htrain⟩ := h.trained (applied_of_mem_fits hx)
  have hlen := (h.paced.sized k hk).1
  have hmin : mlfqTreeMinSamples = 2048 := rfl
  obtain ⟨res, hres, htrained⟩ := trainModel_ok exp2 sqrt (show 20 ≤ k.snapshot.length by omega)
  rw [htrain, Option.some.injEq, Except.ok.injEq] at hres
  exact ⟨k, hk, htrain, by rw [hres]; exact htrained⟩

/-! ## Where the samples come from -/

/-- What the ring buffer holds: the records `mlfq_stopping` submitted. -/
def RingRecord (order : ByteOrder) (data : List Byte) : Prop :=
  ∃ x : TreeSample, Emitted x ∧ x.pid < 2 ^ 32 ∧ data = sampleBytes order x

theorem RingRecord.parse {data : List Byte} (h : RingRecord order data) {y : TreeSample}
    (hparse : parseRecord order data = some y) : Emitted y := by
  obtain ⟨x, hem, hpid, rfl⟩ := h
  obtain ⟨-, hread, -⟩ := parseRecord_eq_some.mp hparse
  have hback := readSample_sampleBytes order hpid []
  rw [List.append_nil] at hback
  rw [← hread, hback]
  exact hem

/-- Every record of the run is one of the ring buffer. -/
def FromRing (order : ByteOrder) (tr : List (DaemonEntry K)) : Prop :=
  ∀ x ∈ tr, ∀ data, x.event = .record data → RingRecord order data

omit [Field K] [LinearOrder K] [FloorSemiring K] in
theorem FromRing.forwarded {tr : List (DaemonEntry K)} (h : FromRing order tr) {y : TreeSample}
    (hy : y ∈ yields (forwardedOf order) tr) : Emitted y := by
  obtain ⟨x, hx, hof⟩ := mem_yields.mp hy
  unfold forwardedOf at hof
  split at hof
  · rename_i data hevent
    split at hof
    · exact (h x hx data hevent).parse hof
    · cases hof
  · cases hof

/-- A snapshot holds emitted samples. -/
theorem DaemonRun.snapshot_emitted {tr : List (DaemonEntry K)} {s : Daemon K}
    (h : DaemonRun order exp2 sqrt tr s) (hring : FromRing order tr) {k : Kick}
    (hk : k ∈ yields kickOf tr) : ∀ y ∈ k.snapshot, Emitted y := by
  obtain ⟨x, hx, hkick⟩ := mem_yields.mp hk
  obtain ⟨after, before, rfl⟩ := List.append_of_mem hx
  obtain ⟨hrun, hstep⟩ := h.split
  intro y hy
  rw [(kick_snapshot hstep hkick).1] at hy
  have hwindow := (DaemonRun.window_sublist (hrun.snoc hstep)).subset hy
  refine FromRing.forwarded (fun z hz => hring z ?_) hwindow
  exact List.mem_append_right after hz

/-! ## The committed model -/

/-- What passed the gate on its way into the maps. -/
theorem published_gates {s : Publisher K} {res : TrainResult K} {update : MapUpdate}
    (h : (applyTrainResult s res update).2 = .published) :
    mlfqTreeMinPids ≤ res.nrPidsTrain ∧ res.maeTree ≤ res.maeEma ∧ 3 / 10 ≤ res.corr := by
  have hpids : mlfqTreeMinPids ≤ res.nrPidsTrain := by
    by_contra hfew
    rw [applyTrainResult] at h
    split at h
    · cases h
    · simp only [if_pos (Nat.not_le.mp hfew)] at h
      cases h
  rcases applyTrainResult_cases s res update with ⟨hno, -⟩ | ⟨-, -, hgate, -⟩
  · exact absurd h hno
  unfold shouldPublish at hgate
  split at hgate
  · cases hgate
  rename_i hmae
  split at hgate
  · cases hgate
  rename_i hcorr
  exact ⟨hpids, not_lt.mp hmae, not_lt.mp hcorr⟩

/-- The step that committed the model in the maps. -/
structure Committed (x : TrainEntry K) (s : Publisher K) : Prop where
  published : outcome x = .published
  entry : s.map (metaActive s.ctrlMeta) = .ofNodes x.event.1.tree.nodes
  corr : s.model.corr = x.event.1.corr
  nrSamples : s.model.nrSamples = x.event.1.nrTrain

theorem TrainRun.committed {tr : List (TrainEntry K)} {s : Publisher K} (h : TrainRun tr s) :
    s.model.generation ≠ 0 → ∃ x ∈ tr, Committed x s := by
  induction h with
  | start hinit =>
      subst hinit
      exact fun hne => absurd rfl hne
  | @snoc tr s s' e hrun hstep ih =>
      subst hstep
      intro hne
      rcases applyTrainResult_cases s e.1 e.2 with
        ⟨-, map, hpost, hactive⟩ | ⟨hpub, -, -, -, hpost⟩
      · rw [hpost] at hne ⊢
        obtain ⟨x, hx, hc⟩ := ih hne
        refine ⟨x, List.mem_cons_of_mem _ hx, hc.published, ?_, hc.corr, hc.nrSamples⟩
        exact hactive.trans hc.entry
      · refine ⟨_, List.mem_cons_self, hpub, ?_, ?_, ?_⟩
        · rw [hpost]
          simp only [metaActive_treeMeta, activeEntry_newActive, Function.update_self]
        · rw [hpost]
        · rw [hpost]

theorem TrainRun.answersBursts [IsStrictOrderedRing K] {tr : List (TrainEntry K)}
    {s : Publisher K} (h : TrainRun tr s) (hfits : ∀ x ∈ tr, FitToEmitted K x.event.1.tree) :
    AnswersBursts s := by
  induction h with
  | start hinit =>
      subst hinit
      intro htrained
      exact absurd (show metaTrained 0 = true from htrained) (by decide)
  | snoc _ hstep ih =>
      subst hstep
      exact (ih fun x hx => hfits x (List.mem_cons_of_mem _ hx)).step (hfits _ List.mem_cons_self)

/-- **What the scheduler predicts in a run of the daemon.** Until a model
is published it predicts zero. From then on the active entry holds the
training of a snapshot of the window: of emitted samples of eight tasks
at least, not worse than the average of the task on the samples held out;
and for every feature vector it predicts a possible burst. -/
theorem daemonRun_predictions [IsStrictOrderedRing K] (hexp : ∀ x, 0 < exp2 x)
    {tr : List (DaemonEntry K)} {s : Daemon K} (h : DaemonRun order exp2 sqrt tr s)
    (hring : FromRing order tr) :
    (s.publisher.model.generation = 0 →
      ∀ f, mlfqTreePredict s.publisher.ctrlMeta s.publisher.map f = 0)
    ∧ (s.publisher.model.generation ≠ 0 →
      (∀ f, InLabelRange (mlfqTreePredict s.publisher.ctrlMeta s.publisher.map f))
      ∧ ∃ k ∈ yields kickOf tr, ∃ res, trainModel exp2 sqrt k.snapshot = some (.ok res)
        ∧ s.publisher.map (metaActive s.publisher.ctrlMeta) = .ofNodes res.tree.nodes
        ∧ (∀ y ∈ k.snapshot, Emitted y)
        ∧ s.publisher.model.nrSamples = holdoutCut k.snapshot.length
        ∧ mlfqTreeMinPids ≤ treeDistinctPids (k.snapshot.take (holdoutCut k.snapshot.length))
        ∧ res.maeTree ≤ res.maeEma ∧ 3 / 10 ≤ s.publisher.model.corr) := by
  have hrun := h.trainRun
  have htrained := (TrainRun.invariants hrun).1.trained
  constructor
  · intro hzero f
    rw [hzero] at htrained
    rw [mlfqTreePredict, if_pos (by rw [htrained]; decide)]
  · intro hne
    have hmeta : metaTrained s.publisher.ctrlMeta = true := htrained.trans (decide_eq_true hne)
    constructor
    · intro f
      have hfits : ∀ x ∈ fits tr, FitToEmitted K x.event.1.tree := by
        intro x hx
        obtain ⟨k, hk, -, htrain⟩ := h.fit_trained hx
        exact htrain.fitToEmitted hexp (h.snapshot_emitted hring hk)
      rw [mlfqTreePredict, if_neg (by simp [hmeta])]
      exact hrun.answersBursts hfits hmeta f
    · obtain ⟨x, hx, hc⟩ := hrun.committed hne
      obtain ⟨k, hk, hmodel, htrain⟩ := h.fit_trained hx
      obtain ⟨hpids, hmae, hcorr⟩ := published_gates hc.published
      refine ⟨k, hk, x.event.1, hmodel, hc.entry, h.snapshot_emitted hring hk, ?_, ?_, hmae, ?_⟩
      · rw [hc.nrSamples, htrain.nrTrain]
      · rw [← htrain.nrPidsTrain]
        exact hpids
      · rw [hc.corr]
        exact hcorr

/-- A pid of the samples counts. -/
theorem le_treeDistinctPids {samples : List TreeSample} {pids : Finset Nat}
    (h : ∀ p ∈ pids, ∃ x ∈ samples, x.pid = p) : pids.card ≤ treeDistinctPids samples := by
  have hmem : ∀ (samples : List TreeSample) (seen : Finset Nat) (p : Nat),
      p ∈ seen ∨ (∃ x ∈ samples, x.pid = p) →
      p ∈ samples.foldl (fun (seen : Finset Nat) s => insert s.pid seen) seen := by
    intro samples
    induction samples with
    | nil =>
        rintro seen p (hp | ⟨x, hx, -⟩)
        · exact hp
        · cases hx
    | cons x samples ih =>
        rintro seen p (hp | ⟨y, hy, rfl⟩)
        · exact ih _ p (.inl (Finset.mem_insert_of_mem hp))
        · rcases List.mem_cons.mp hy with rfl | hy
          · exact ih _ _ (.inl (Finset.mem_insert_self _ _))
          · exact ih _ _ (.inr ⟨y, hy, rfl⟩)
  exact Finset.card_le_card fun p hp => hmem samples ∅ p (.inr (h p hp))

/-- The run over the stream of two kinds publishes its first fit. -/
theorem exists_bandRun_published :
    ∃ tr s res, BandRun .little (fun x => (2 : ℝ) ^ x) Real.sqrt tr s res ∧ FromRing .little tr
      ∧ s.publisher.model.generation = 1 ∧ res.maeTree = 0 ∧ res.corr = 1
      ∧ (res.tree.node 0).right ≠ 0 := by
  obtain ⟨res, hfit, htrained, hsplit, hmae, hcorr⟩ := exists_trained_bandStream (n := 2048)
    (by omega) (by omega)
  obtain ⟨tr, s, h⟩ := exists_bandRun .little (fun x => (2 : ℝ) ^ x) Real.sqrt hfit
  have hpids : mlfqTreeMinPids ≤ res.nrPidsTrain := by
    have hcut : holdoutCut 2048 = 1844 := rfl
    rw [htrained.nrPidsTrain, length_bandStream, hcut, take_bandStream (by omega)]
    refine Nat.le_trans (show mlfqTreeMinPids ≤ (Finset.range 16).card by decide)
      (le_treeDistinctPids fun p hp => ?_)
    have hlt := Finset.mem_range.mp hp
    exact ⟨bandBurst p, List.mem_map_of_mem (List.mem_range.mpr (by omega)),
      (bandBurst_pid p).trans (Nat.mod_eq_of_lt hlt)⟩
  have hema : 0 ≤ res.maeEma := (holdoutMae_mem (fun x => Real.rpow_pos_of_pos two_pos x)
    (by rw [length_bandStream]; omega) _ htrained.evaluated.maeEma).2.1
  have hpub := applyTrainResult_initial htrained.valid hpids (by rw [hmae]; exact hema)
    (by rw [hcorr]; norm_num)
  refine ⟨tr, s, res, h, fun x hx data hdata => ?_, ?_, hmae, hcorr, hsplit⟩
  · obtain ⟨i, rfl⟩ := h.records x hx data hdata
    exact ⟨bandBurst i, bandBurst_emitted i, (bandBurst_ok i).1, rfl⟩
  · rw [h.publisher]
    rcases applyTrainResult_cases Publisher.initial res .ok with ⟨hno, -⟩ | ⟨-, -, -, -, hpost⟩
    · exact absurd hpub hno
    · rw [hpost]
      rfl

/-- Behind the first publish every feature vector is answered with a
possible burst, from the fit to the first 2048 samples. -/
theorem daemonRun_predictions_bandStream :
    ∃ tr s, DaemonRun .little (fun x => (2 : ℝ) ^ x) Real.sqrt tr s ∧ FromRing .little tr
      ∧ s.publisher.model.generation = 1
      ∧ (∀ f, InLabelRange (mlfqTreePredict s.publisher.ctrlMeta s.publisher.map f))
      ∧ ∃ k ∈ yields kickOf tr, ∃ res,
        trainModel (fun x => (2 : ℝ) ^ x) Real.sqrt k.snapshot = some (.ok res)
          ∧ s.publisher.map (metaActive s.publisher.ctrlMeta) = .ofNodes res.tree.nodes
          ∧ (∀ y ∈ k.snapshot, Emitted y)
          ∧ s.publisher.model.nrSamples = holdoutCut k.snapshot.length
          ∧ mlfqTreeMinPids ≤ treeDistinctPids (k.snapshot.take (holdoutCut k.snapshot.length))
          ∧ res.maeTree ≤ res.maeEma ∧ 3 / 10 ≤ s.publisher.model.corr := by
  obtain ⟨tr, s, res, h, hring, hgen, -⟩ := exists_bandRun_published
  obtain ⟨-, hpublished⟩ := daemonRun_predictions
    (fun x => Real.rpow_pos_of_pos two_pos x : ∀ x : ℝ, 0 < (2 : ℝ) ^ x) h.run hring
  obtain ⟨hrange, hmodel⟩ := hpublished (by rw [hgen]; decide)
  exact ⟨tr, s, h.run, hring, hgen, hrange, hmodel⟩

/-! ## The generations -/

omit [FloorSemiring K] in
/-- The margin of the gate. -/
theorem shouldPublish_margin {maeTree maeEma corr pc : K}
    (h : shouldPublish maeTree maeEma corr (some pc) = true) : pc + 1 / 10 ^ 9 < corr := by
  unfold shouldPublish at h
  split at h
  · cases h
  split at h
  · cases h
  simp only at h
  split at h
  · cases h
  · rename_i hmargin
    exact not_le.mp hmargin

/-- The published correlations are the margin apart. -/
theorem TrainRun.spaced [IsStrictOrderedRing K] {tr : List (TrainEntry K)} {s : Publisher K}
    (h : TrainRun tr s) : Spaced (1 / 10 ^ 9 : K) (publishedCorrs tr).reverse := by
  induction h with
  | start _ => exact List.Pairwise.nil
  | @snoc tr s s' e hrun hstep ih =>
      subst hstep
      rw [publishedCorrs]
      rcases applyTrainResult_cases s e.1 e.2 with ⟨hno, -⟩ | ⟨hpub, -, hgate, hgen, -⟩
      · rw [outcome, if_neg hno]
        exact ih
      · obtain ⟨-, hp⟩ := TrainRun.invariants hrun
        rw [outcome, if_pos hpub, List.reverse_cons, Spaced, List.pairwise_append]
        refine ⟨ih, List.pairwise_singleton _ _, fun pc hpc c hc => ?_⟩
        obtain rfl := List.mem_singleton.mp hc
        have hpc := List.mem_reverse.mp hpc
        -- the model on record is the latest and the best of those published
        cases hcorrs : publishedCorrs tr with
        | nil =>
            rw [hcorrs] at hpc
            cases hpc
        | cons latest earlier =>
            have hne : s.model.generation ≠ 0 := by
              intro hzero
              have hcount := hp.count
              rw [hzero, hcorrs] at hcount
              cases hcount
            rw [if_neg hne] at hgate
            have hlatest : s.model.corr = latest := hp.latest latest (by rw [hcorrs]; rfl)
            have hmargin := shouldPublish_margin hgate
            rw [hlatest] at hmargin
            have hratchet := hp.ratchet
            rw [hcorrs] at hpc hratchet
            rcases List.mem_cons.mp hpc with rfl | hpc
            · exact hmargin.le
            · have hlt := List.rel_of_pairwise_cons hratchet hpc
              exact ((add_lt_add_iff_right _).mpr hlt).le.trans hmargin.le

theorem publishedCorrs_mem {tr : List (TrainEntry K)} {c : K} (hc : c ∈ publishedCorrs tr) :
    ∃ x ∈ tr, x.event.1.corr = c := by
  induction tr with
  | nil => cases hc
  | cons x tr ih =>
      rw [publishedCorrs] at hc
      split at hc
      · rcases List.mem_cons.mp hc with rfl | hc
        · exact ⟨x, List.mem_cons_self, rfl⟩
        · obtain ⟨y, hy, heq⟩ := ih hc
          exact ⟨y, List.mem_cons_of_mem _ hy, heq⟩
      · obtain ⟨y, hy, heq⟩ := ih hc
        exact ⟨y, List.mem_cons_of_mem _ hy, heq⟩

/-- **The generation never wraps.** A run of the daemon publishes at most
seven hundred million and one models, whatever its length: the meta word
always carries the generation itself, in 32 bits, and no publish is
refused for a generation that does not grow. -/
theorem daemonRun_generation [IsStrictOrderedRing K] (hsqrt : IsSqrt sqrt)
    {tr : List (DaemonEntry K)} {s : Daemon K} (h : DaemonRun order exp2 sqrt tr s) :
    s.publisher.model.generation.toNat = (publishedCorrs (fits tr)).length
    ∧ s.publisher.model.generation.toNat ≤ 7 * 10 ^ 8 + 1
    ∧ (metaGeneration s.publisher.ctrlMeta).toNat = s.publisher.model.generation.toNat
    ∧ ∀ tree, (publishTree s.publisher tree (s.publisher.model.generation + 1) .ok).2 = .ok () := by
  have hrun := h.trainRun
  obtain ⟨ha, hp⟩ := TrainRun.invariants hrun
  have hbound : (publishedCorrs (fits tr)).length ≤ 7 * 10 ^ 8 + 1 := by
    by_cases hnil : (publishedCorrs (fits tr)).reverse = []
    · rw [List.reverse_eq_nil_iff.mp hnil]
      exact Nat.zero_le _
    · have hspan := hrun.spaced.span (3 / 10) 1
        (fun c hc => hp.floor c (List.mem_reverse.mp hc)) (fun c hc => ?_) hnil
      · rw [List.length_reverse, nsmul_eq_mul] at hspan
        have hcast : (((publishedCorrs (fits tr)).length - 1 : Nat) : K)
            ≤ ((7 * 10 ^ 8 : Nat) : K) := by
          push_cast
          linarith
        have hle := Nat.cast_le.mp hcast
        omega
      · obtain ⟨x, hx, rfl⟩ := publishedCorrs_mem (List.mem_reverse.mp hc)
        obtain ⟨k, -, -, htrain⟩ := h.fit_trained hx
        exact (htrain.corr_mem hsqrt).2
  have hcount := hp.count
  have hfield : (metaGeneration s.publisher.ctrlMeta).toNat
      = s.publisher.model.generation.toNat := by
    rw [ha.generation]
    omega
  refine ⟨hcount, by omega, hfield, fun tree => ?_⟩
  have hnext : ¬ (s.publisher.model.generation + 1 ≤ metaGeneration s.publisher.ctrlMeta) := by
    rw [BitVec.le_def, hfield, BitVec.toNat_add, show (1 : U64).toNat = 1 from rfl]
    omega
  rw [publishTree]
  simp only
  rw [if_neg fun hrefused => hnext hrefused.1]

/-- One publish is counted, in the record and in the meta word. -/
theorem daemonRun_generation_bandStream :
    ∃ tr s, DaemonRun .little (fun x => (2 : ℝ) ^ x) Real.sqrt tr s
      ∧ (yields appliedOf tr).length = 1 ∧ s.publisher.model.generation = 1
      ∧ (publishedCorrs (fits tr)).length = 1
      ∧ (metaGeneration s.publisher.ctrlMeta).toNat = 1
      ∧ ∀ tree, (publishTree s.publisher tree 2 .ok).2 = .ok () := by
  obtain ⟨tr, s, res, h, -, hgen, -⟩ := exists_bandRun_published
  obtain ⟨hcount, -, hmeta, hnext⟩ := daemonRun_generation isSqrt_sqrt h.run
  rw [hgen] at hcount hmeta hnext
  exact ⟨tr, s, h.run, by rw [h.applied]; rfl, hgen, hcount.symm, hmeta, hnext⟩

end ScxMlfq
