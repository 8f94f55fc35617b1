import Mathlib.Data.Rat.Floor
import Mathlib.Tactic.NormNum
import ScxMlfq.Daemon.Publish

/-!
# Daemon — TrainResult

What the daemon does with a finished fit, `apply_train_result` of
`src/main.rs`: the validation, the number of tasks behind the fit, the
quality gate, the publish and the record of the committed model. A
publish is one call here; its steps against the readers are those of
`Publish`.

The metrics of a fit are exact numbers of any ordered field. The state
is kept three times, in the record, in the meta word and in the two map
entries, and a publish may fail between them.
-/

namespace ScxMlfq

open Trace

/-! ## The fit and the record -/

/-- `MLFQ_TREE_MIN_PIDS`. -/
def mlfqTreeMinPids : Nat := 8

/-- `struct TrainResult`. -/
structure TrainResult (K : Type*) where
  tree : SerializedTree
  nrTrain : Nat
  nrPidsTrain : Nat
  holdoutLen : Nat
  maeTree : K
  maeEma : K
  corr : K

/-- `struct ModelMeta`. -/
structure ModelMeta (K : Type*) where
  generation : U64
  nrSamples : Nat
  nrNodes : Nat
  maeTreeUs : U64
  maeEmaUs : U64
  corr : K

/-- What the daemon holds of the committed model: the record, the meta
word and the two map entries. -/
structure Publisher (K : Type*) where
  model : ModelMeta K
  ctrlMeta : U64
  map : Bool → MlfqTreeStore

/-- How the map update of a publish went. One that fails leaves anything
in the entry. -/
inductive MapUpdate where
  | ok
  | failed (error : String) (left : MlfqTreeStore)

/-- The return `apply_train_result` took. -/
inductive TrainOutcome where
  | invalid (error : String)
  | fewPids
  | gated
  | failed (error : String)
  | published
deriving DecidableEq

/-! ## The code -/

/-- `publish_tree`. -/
def publishTree {K : Type*} (s : Publisher K) (tree : SerializedTree) (gen : U64)
    (update : MapUpdate) : Publisher K × Except String Unit :=
  let oldGen := s.ctrlMeta >>> mlfqTreeMetaGenerationShift
  if gen ≤ oldGen ∧ oldGen ≠ 0 then
    (s, .error s!"monotonic gen violation: new {gen.toNat} <= old {oldGen.toNat}")
  else
    let active := newActive s.ctrlMeta
    let entry := activeEntry active
    match update with
    | .failed error left => ({ s with map := Function.update s.map entry left }, .error error)
    | .ok =>
        ({ s with
            map := Function.update s.map entry (.ofNodes tree.nodes)
            ctrlMeta := treeMeta gen tree.nr active }, .ok ())

section
variable {K : Type*} [Field K] [LinearOrder K]

/-- `should_publish`. -/
def shouldPublish (maeTree maeEma corr : K) (publishedCorr : Option K) : Bool :=
  if maeTree > maeEma then false
  else if corr < 3 / 10 then false
  else
    match publishedCorr with
    | some pc => if corr ≤ pc + 1 / 10 ^ 9 then false else true
    | none => true

variable [FloorSemiring K]

/-- `(x / 1e3).round() as u64`, for the report in microseconds. -/
def roundMicros (x : K) : U64 := BitVec.ofNat 64 (min ⌊x / 10 ^ 3 + 1 / 2⌋₊ (2 ^ 64 - 1))

/-- `apply_train_result`, with the return it takes. -/
def applyTrainResult (s : Publisher K) (res : TrainResult K) (update : MapUpdate) :
    Publisher K × TrainOutcome :=
  match serializeValidate res.tree with
  | .error e => (s, .invalid e)
  | .ok () =>
      let gen := s.model.generation + 1
      if res.nrPidsTrain < mlfqTreeMinPids then (s, .fewPids)
      else
        let publishedCorr := if s.model.generation = 0 then none else some s.model.corr
        if shouldPublish res.maeTree res.maeEma res.corr publishedCorr = false then (s, .gated)
        else
          match publishTree s res.tree gen update with
          | (s, .error e) => (s, .failed e)
          | (s, .ok ()) =>
              let model :=
                { generation := gen
                  nrSamples := res.nrTrain
                  nrNodes := res.tree.nr
                  maeTreeUs := roundMicros res.maeTree
                  maeEmaUs := roundMicros res.maeEma
                  corr := res.corr }
              ({ s with model := model }, .published)

end

/-- The daemon at its start: no model, the zeroed bss and map. -/
def Publisher.initial {K : Type*} [Zero K] : Publisher K where
  model := ⟨0, 0, 0, 0, 0, 0⟩
  ctrlMeta := 0
  map _ := .ofNodes []

/-! ## The fields of the meta word -/

/-- The generation field of a meta word. -/
def metaGeneration (word : U64) : U64 := word >>> mlfqTreeMetaGenerationShift

/-- The node count of a meta word, bits 8 to 31. -/
def metaNrNodes (word : U64) : U64 := (word >>> mlfqTreeMetaNrNodesShift) &&& 0xFFFFFF

/-- The meta word as a number: the fields side by side. -/
theorem treeMeta_toNat (gen : U64) {n : Nat} (hn : n < 2 ^ 24) (active : U64) :
    (treeMeta gen n active).toNat
      = 2 ^ 32 * (gen.toNat % 2 ^ 32) + (2 ^ 8 * n + (2 ^ 1 * (active.toNat % 2 ^ 1) + 1)) := by
  have hgen : ((gen &&& 0xFFFFFFFF) <<< mlfqTreeMetaGenerationShift).toNat
      = 2 ^ 32 * (gen.toNat % 2 ^ 32) := by
    have hmask : (gen &&& 0xFFFFFFFF).toNat = gen.toNat % 2 ^ 32 :=
      (BitVec.toNat_and ..).trans (Nat.and_two_pow_sub_one_eq_mod gen.toNat 32)
    rw [BitVec.toNat_shiftLeft, hmask, Nat.shiftLeft_eq, mlfqTreeMetaGenerationShift]
    omega
  have hcount : (BitVec.ofNat 64 n <<< mlfqTreeMetaNrNodesShift).toNat = 2 ^ 8 * n := by
    rw [BitVec.toNat_shiftLeft, BitVec.toNat_ofNat, Nat.shiftLeft_eq, mlfqTreeMetaNrNodesShift]
    omega
  have hactive : ((active &&& 1) <<< 1).toNat = 2 ^ 1 * (active.toNat % 2 ^ 1) := by
    have hmask : (active &&& 1).toNat = active.toNat % 2 ^ 1 :=
      (BitVec.toNat_and ..).trans (Nat.and_two_pow_sub_one_eq_mod active.toNat 1)
    rw [BitVec.toNat_shiftLeft, hmask, Nat.shiftLeft_eq]
    omega
  have htrained : mlfqTreeMetaTrained.toNat = 1 := rfl
  have hor : (treeMeta gen n active).toNat
      = 2 ^ 32 * (gen.toNat % 2 ^ 32)
        ||| (2 ^ 8 * n ||| (2 ^ 1 * (active.toNat % 2 ^ 1) ||| 1)) := by
    rw [treeMeta, BitVec.toNat_or, BitVec.toNat_or, BitVec.toNat_or, hgen, hcount, hactive,
      htrained, Nat.or_assoc, Nat.or_assoc]
  have hbits : 2 ^ 1 * (active.toNat % 2 ^ 1) ||| 1 = 2 ^ 1 * (active.toNat % 2 ^ 1) + 1 :=
    (Nat.two_pow_add_eq_or_of_lt (by decide) _).symm
  have hlow : 2 ^ 8 * n ||| (2 ^ 1 * (active.toNat % 2 ^ 1) + 1)
      = 2 ^ 8 * n + (2 ^ 1 * (active.toNat % 2 ^ 1) + 1) :=
    (Nat.two_pow_add_eq_or_of_lt (by omega) _).symm
  rw [hor, hbits, hlow, ← Nat.two_pow_add_eq_or_of_lt (by omega)]

theorem metaGeneration_treeMeta (gen : U64) {n : Nat} (hn : n < 2 ^ 24) (active : U64) :
    (metaGeneration (treeMeta gen n active)).toNat = gen.toNat % 2 ^ 32 := by
  rw [metaGeneration, BitVec.toNat_ushiftRight, treeMeta_toNat gen hn, Nat.shiftRight_eq_div_pow,
    mlfqTreeMetaGenerationShift]
  omega

theorem metaNrNodes_treeMeta (gen : U64) {n : Nat} (hn : n < 2 ^ 24) (active : U64) :
    (metaNrNodes (treeMeta gen n active)).toNat = n := by
  have hmask (w : U64) : (w &&& 0xFFFFFF).toNat = w.toNat % 2 ^ 24 :=
    (BitVec.toNat_and ..).trans (Nat.and_two_pow_sub_one_eq_mod w.toNat 24)
  rw [metaNrNodes, hmask, BitVec.toNat_ushiftRight, treeMeta_toNat gen hn,
    Nat.shiftRight_eq_div_pow, mlfqTreeMetaNrNodesShift]
  omega

/-! ## What a result does -/

abbrev TrainEntry (K : Type*) := Entry (Publisher K) (TrainResult K × MapUpdate)

section
variable {K : Type*} [Field K] [LinearOrder K] [FloorSemiring K]

/-- The return a step took. -/
def outcome (x : TrainEntry K) : TrainOutcome :=
  (applyTrainResult x.pre x.event.1 x.event.2).2

/-- The runs of the daemon, over any results and any failures of the map
update. -/
abbrev TrainRun : List (TrainEntry K) → Publisher K → Prop :=
  Run (fun s e s' => (applyTrainResult s e.1 e.2).1 = s') (fun s => s = Publisher.initial)

/-- The correlations of the models published, latest first. -/
def publishedCorrs : List (TrainEntry K) → List K
  | [] => []
  | x :: tr =>
      if outcome x = .published then x.event.1.corr :: publishedCorrs tr else publishedCorrs tr

end

/-- The result left the committed model as it was. -/
structure Keeps {K : Type*} (x : TrainEntry K) : Prop where
  model : x.post.model = x.pre.model
  word : x.post.ctrlMeta = x.pre.ctrlMeta
  active : x.post.map (metaActive x.pre.ctrlMeta) = x.pre.map (metaActive x.pre.ctrlMeta)

/-- The result was committed: a validated tree in the entry that was not
active, the meta word and the record on it. -/
structure Commits {K : Type*} (x : TrainEntry K) : Prop where
  validated : serializeValidate x.event.1.tree = .ok ()
  kept : x.post.map (metaActive x.pre.ctrlMeta) = x.pre.map (metaActive x.pre.ctrlMeta)
  written : x.post.map (!metaActive x.pre.ctrlMeta) = .ofNodes x.event.1.tree.nodes
  flipped : metaActive x.post.ctrlMeta = !metaActive x.pre.ctrlMeta
  trained : metaTrained x.post.ctrlMeta = true
  nrNodes : (metaNrNodes x.post.ctrlMeta).toNat = x.event.1.tree.nr
  generation : (metaGeneration x.post.ctrlMeta).toNat
    = ((metaGeneration x.pre.ctrlMeta).toNat + 1) % 2 ^ 32
  model : x.post.model.generation.toNat = x.pre.model.generation.toNat + 1
  corr : x.post.model.corr = x.event.1.corr

/-- The copies of the model agree: the word carries the generation and
the node count of the record, and is trained from the first generation
on; its entry then holds a validated tree of that size. -/
structure Agrees {K : Type*} (s : Publisher K) : Prop where
  generation : (metaGeneration s.ctrlMeta).toNat = s.model.generation.toNat % 2 ^ 32
  nrNodes : (metaNrNodes s.ctrlMeta).toNat = s.model.nrNodes
  trained : metaTrained s.ctrlMeta = decide (s.model.generation ≠ 0)
  entry : s.model.generation ≠ 0 → ∃ tree, serializeValidate tree = .ok () ∧
    s.model.nrNodes = tree.nr ∧ s.map (metaActive s.ctrlMeta) = .ofNodes tree.nodes

section
variable {K : Type*} [Field K] [LinearOrder K]

/-- What a run has published: as many models as the generation counts,
the latest of which is on record, above the floor and each better than
the one before. -/
structure Published (corrs : List K) (s : Publisher K) : Prop where
  count : s.model.generation.toNat = corrs.length
  latest : ∀ c ∈ corrs.head?, s.model.corr = c
  floor : ∀ c ∈ corrs, 3 / 10 ≤ c
  ratchet : corrs.Pairwise fun later earlier => earlier < later

/-- A model better than the latest is better than all. -/
theorem Published.lt_of_head {corrs : List K} {s : Publisher K} (h : Published corrs s)
    {c : K} (hc : ∀ pc ∈ corrs.head?, pc < c) : ∀ pc ∈ corrs, pc < c := by
  cases corrs with
  | nil => simp
  | cons latest earlier =>
      intro pc hpc
      have hlatest : latest < c := hc latest rfl
      rcases List.mem_cons.mp hpc with rfl | hmem
      · exact hlatest
      · exact lt_trans (List.rel_of_pairwise_cons h.ratchet hmem) hlatest

end

/-- The publish keeps all but the entry it writes, or commits. -/
theorem publishTree_cases {K : Type*} (s : Publisher K) (tree : SerializedTree) (gen : U64)
    (update : MapUpdate) :
    (∃ error map, publishTree s tree gen update = ({ s with map := map }, .error error) ∧
      map (metaActive s.ctrlMeta) = s.map (metaActive s.ctrlMeta)) ∨
    (¬ (gen ≤ metaGeneration s.ctrlMeta ∧ metaGeneration s.ctrlMeta ≠ 0) ∧
      publishTree s tree gen update = ({ s with
        map := Function.update s.map (!metaActive s.ctrlMeta) (.ofNodes tree.nodes)
        ctrlMeta := treeMeta gen tree.nr (newActive s.ctrlMeta) }, .ok ())) := by
  by_cases hgen : gen ≤ metaGeneration s.ctrlMeta ∧ metaGeneration s.ctrlMeta ≠ 0
  · left
    exact ⟨_, s.map, (if_pos hgen : publishTree s tree gen update = _), rfl⟩
  · rw [publishTree]
    rw [metaGeneration] at hgen
    simp only [if_neg hgen, activeEntry_newActive]
    cases update with
    | ok => exact .inr ⟨hgen, rfl⟩
    | failed error left =>
        refine .inl ⟨error, _, rfl, ?_⟩
        exact Function.update_of_ne (by simp) ..

theorem Agrees.initial {K : Type*} [Zero K] : Agrees (Publisher.initial : Publisher K) := by
  have huntrained : metaTrained 0 = decide ((0 : U64) ≠ 0) := by decide
  have hcount : (metaNrNodes 0).toNat = 0 := by decide
  have hfield : (metaGeneration 0).toNat = (0 : U64).toNat % 2 ^ 32 := by decide
  exact ⟨hfield, hcount, huntrained, fun h => absurd rfl h⟩

/-- A generation that fits in the field grows by one there too. The
check against the old word is what a wrapped generation fails. -/
theorem Agrees.next_generation {K : Type*} {s : Publisher K} (h : Agrees s)
    (hgen : ¬ (s.model.generation + 1 ≤ metaGeneration s.ctrlMeta ∧
      metaGeneration s.ctrlMeta ≠ 0)) :
    (s.model.generation + 1).toNat = s.model.generation.toNat + 1 := by
  have hlt := s.model.generation.isLt
  rw [BitVec.toNat_add, show (1 : U64).toNat = 1 from rfl]
  rcases Nat.lt_or_ge (s.model.generation.toNat + 1) (2 ^ 64) with hfits | hwraps
  · exact Nat.mod_eq_of_lt hfits
  · -- the last generation: its field is all ones, and the next is zero
    have hlast : s.model.generation.toNat = 2 ^ 64 - 1 := by omega
    have hzero : s.model.generation + 1 = 0 := by
      apply BitVec.eq_of_toNat_eq
      rw [BitVec.toNat_add, show (1 : U64).toNat = 1 from rfl, hlast]
      rfl
    refine absurd ⟨?_, ?_⟩ hgen
    · rw [hzero]
      exact BitVec.le_def.mpr (Nat.zero_le _)
    · intro hfield
      have := h.generation
      rw [hfield, hlast] at this
      exact absurd this (by decide)

theorem serializeValidate_nr_lt {tree : SerializedTree}
    (h : serializeValidate tree = .ok ()) : tree.nr < 2 ^ 24 :=
  Nat.lt_of_le_of_lt (serializeValidate_ok h).bounded (by decide)

/-- The call is what the steps of a publish amount to: from any state of
the protocol the publisher can take them, and then the word and the
entries are those of the call. -/
theorem publishTree_run {ρ K : Type*} [DecidableEq ρ] {tr : List (PublishEntry ρ)}
    {s : PublishState ρ} (h : PublishRun tr s) (hw : s.writer = .idle)
    {tree : SerializedTree} (hvalid : serializeValidate tree = .ok ()) {gen : U64}
    {model : ModelMeta K} {s' : Publisher K}
    (hpublish : publishTree ⟨model, s.ctrlMeta, s.map⟩ tree gen .ok = (s', .ok ())) :
    ∃ tr' p, PublishRun tr' p ∧ p.writer = .idle ∧ p.readers = s.readers ∧
      p.ctrlMeta = s'.ctrlMeta ∧ p.map = s'.map := by
  rcases publishTree_cases ⟨model, s.ctrlMeta, s.map⟩ tree gen .ok with
    ⟨error, map, heq, -⟩ | ⟨hgen, heq⟩
  · rw [heq] at hpublish
    cases hpublish
  · rw [heq] at hpublish
    cases hpublish
    obtain ⟨tr', p, hrun, -, hmeta, hreaders, hwriting, hother⟩ :=
      publish_run tree gen h hw hgen (Nat.not_lt.mpr (serializeValidate_ok hvalid).bounded)
    have hcommit : stepPublish p .commit = some { p with
        ctrlMeta := treeMeta gen tree.nr (newActive s.ctrlMeta), writer := .idle } := by
      rw [stepPublish, hwriting]
    refine ⟨_, _, hrun.snoc hcommit, rfl, hreaders, rfl, ?_⟩
    -- the entry written holds the tree, the other is untouched
    have hdone := ((publishRun_inv hrun).writing _ _ _ _ hwriting).2
    rw [activeEntry_newActive] at hdone
    funext entry
    by_cases hentry : entry = metaActive s.ctrlMeta
    · subst hentry
      exact hother.trans (Function.update_of_ne (by simp) ..).symm
    · obtain rfl : entry = !metaActive s.ctrlMeta := by
        cases entry <;> cases hm : metaActive s.ctrlMeta <;> simp_all
      have hwritten : p.map (!metaActive s.ctrlMeta) = .ofNodes tree.nodes :=
        congrArg MlfqTreeStore.mk (funext fun i => hdone i List.not_mem_nil)
      simp only [Function.update_self]
      exact hwritten

section
variable {K : Type*} [Field K] [LinearOrder K] [FloorSemiring K]

/-- What one result can do: keep the committed model, or commit a tree
that passed the validation and the gate. -/
theorem applyTrainResult_cases (s : Publisher K) (res : TrainResult K) (update : MapUpdate) :
    ((applyTrainResult s res update).2 ≠ .published ∧
      ∃ map, (applyTrainResult s res update).1 = { s with map := map } ∧
        map (metaActive s.ctrlMeta) = s.map (metaActive s.ctrlMeta)) ∨
    ((applyTrainResult s res update).2 = .published ∧
      serializeValidate res.tree = .ok () ∧
      shouldPublish res.maeTree res.maeEma res.corr
        (if s.model.generation = 0 then none else some s.model.corr) = true ∧
      ¬ (s.model.generation + 1 ≤ metaGeneration s.ctrlMeta ∧
        metaGeneration s.ctrlMeta ≠ 0) ∧
      (applyTrainResult s res update).1 =
        { model :=
            { generation := s.model.generation + 1
              nrSamples := res.nrTrain
              nrNodes := res.tree.nr
              maeTreeUs := roundMicros res.maeTree
              maeEmaUs := roundMicros res.maeEma
              corr := res.corr }
          ctrlMeta := treeMeta (s.model.generation + 1) res.tree.nr (newActive s.ctrlMeta)
          map := Function.update s.map (!metaActive s.ctrlMeta) (.ofNodes res.tree.nodes) }) := by
  rw [applyTrainResult]
  cases hvalid : serializeValidate res.tree with
  | error e => exact .inl ⟨nofun, s.map, rfl, rfl⟩
  | ok u =>
      by_cases hpids : res.nrPidsTrain < mlfqTreeMinPids
      · simp only [if_pos hpids]
        exact .inl ⟨nofun, s.map, rfl, rfl⟩
      simp only [if_neg hpids]
      cases hgate : shouldPublish res.maeTree res.maeEma res.corr
          (if s.model.generation = 0 then none else some s.model.corr) with
      | false => exact .inl ⟨nofun, s.map, rfl, rfl⟩
      | true =>
          rcases publishTree_cases s res.tree (s.model.generation + 1) update with
            ⟨error, map, hpublish, hactive⟩ | ⟨hgen, hpublish⟩
          · simp only [hpublish]
            exact .inl ⟨nofun, map, rfl, hactive⟩
          · simp only [hpublish]
            exact .inr ⟨rfl, trivial, trivial, hgen, rfl⟩

/-- The first fit that passes the gate is published. -/
theorem applyTrainResult_initial {res : TrainResult K}
    (hvalid : serializeValidate res.tree = .ok ()) (hpids : mlfqTreeMinPids ≤ res.nrPidsTrain)
    (hmae : res.maeTree ≤ res.maeEma) (hcorr : 3 / 10 ≤ res.corr) :
    (applyTrainResult Publisher.initial res .ok).2 = .published := by
  have hgate : shouldPublish res.maeTree res.maeEma res.corr none = true := by
    rw [shouldPublish, if_neg (not_lt.mpr hmae), if_neg (not_lt.mpr hcorr)]
  have hgen : ¬ ((1 : U64) ≤ metaGeneration 0 ∧ metaGeneration 0 ≠ 0) := by decide
  have hpublish : publishTree (Publisher.initial : Publisher K) res.tree 1 .ok
      = ({ (Publisher.initial : Publisher K) with
          map := Function.update (fun _ => .ofNodes []) (activeEntry (newActive 0))
            (.ofNodes res.tree.nodes)
          ctrlMeta := treeMeta 1 res.tree.nr (newActive 0) }, .ok ()) := if_neg hgen
  rw [applyTrainResult, hvalid]
  simp only [if_neg (Nat.not_lt.mpr hpids)]
  rw [show (Publisher.initial : Publisher K).model.generation = 0 from rfl, if_pos rfl, hgate,
    if_neg Bool.noConfusion]
  simp only [show (0 : U64) + 1 = 1 from rfl, hpublish]

/-- A result that is not published keeps the committed model. -/
theorem keeps_of_outcome {s : Publisher K} {e : TrainResult K × MapUpdate}
    (h : (applyTrainResult s e.1 e.2).2 ≠ .published) :
    Keeps ⟨s, e, (applyTrainResult s e.1 e.2).1⟩ := by
  rcases applyTrainResult_cases s e.1 e.2 with ⟨-, map, hpost, hactive⟩ | ⟨hpub, -⟩
  · rw [hpost]
    exact ⟨rfl, rfl, hactive⟩
  · exact absurd hpub h

/-- A published one is committed. -/
theorem commits_of_outcome {s : Publisher K} {e : TrainResult K × MapUpdate} (hs : Agrees s)
    (h : (applyTrainResult s e.1 e.2).2 = .published) :
    Commits ⟨s, e, (applyTrainResult s e.1 e.2).1⟩ := by
  rcases applyTrainResult_cases s e.1 e.2 with ⟨hno, -⟩ | ⟨-, hvalid, -, hgen, hpost⟩
  · exact absurd h hno
  · have hnr := serializeValidate_nr_lt hvalid
    have hnext := hs.next_generation hgen
    rw [hpost]
    constructor
    · exact hvalid
    · exact Function.update_of_ne (by simp) ..
    · exact Function.update_self ..
    · exact (metaActive_treeMeta ..).trans (activeEntry_newActive _)
    · exact metaTrained_treeMeta ..
    · exact metaNrNodes_treeMeta _ hnr _
    · show (metaGeneration (treeMeta _ _ _)).toNat = _
      rw [metaGeneration_treeMeta _ hnr, hnext, hs.generation, Nat.mod_add_mod]
    · exact hnext
    · rfl

/-- **One result keeps the copies in agreement.** -/
theorem Agrees.step {s : Publisher K} (hs : Agrees s) (e : TrainResult K × MapUpdate) :
    Agrees (applyTrainResult s e.1 e.2).1 := by
  rcases applyTrainResult_cases s e.1 e.2 with
    ⟨-, map, hpost, hactive⟩ | ⟨-, hvalid, -, hgen, hpost⟩
  · rw [hpost]
    refine ⟨hs.generation, hs.nrNodes, hs.trained, fun hne => ?_⟩
    obtain ⟨tree, htree, hnr, hentry⟩ := hs.entry hne
    exact ⟨tree, htree, hnr, hactive.trans hentry⟩
  · have hnr := serializeValidate_nr_lt hvalid
    have hnext := hs.next_generation hgen
    have hne : s.model.generation + 1 ≠ 0 := by
      intro hzero
      rw [hzero] at hnext
      exact absurd hnext (by simp)
    rw [hpost]
    constructor
    · exact metaGeneration_treeMeta _ hnr _
    · exact metaNrNodes_treeMeta _ hnr _
    · exact (metaTrained_treeMeta ..).trans (decide_eq_true hne).symm
    · intro _
      refine ⟨e.1.tree, hvalid, rfl, ?_⟩
      rw [metaActive_treeMeta, activeEntry_newActive]
      exact Function.update_self ..

/-! ## The correlations of a run -/

variable [IsStrictOrderedRing K]

omit [FloorSemiring K] in
/-- What the gate asks of the correlation. -/
theorem shouldPublish_corr {maeTree maeEma corr : K} {publishedCorr : Option K}
    (h : shouldPublish maeTree maeEma corr publishedCorr = true) :
    3 / 10 ≤ corr ∧ ∀ pc ∈ publishedCorr, pc < corr := by
  unfold shouldPublish at h
  by_cases hmae : maeTree > maeEma
  · rw [if_pos hmae] at h
    cases h
  rw [if_neg hmae] at h
  by_cases hfloor : corr < 3 / 10
  · rw [if_pos hfloor] at h
    cases h
  rw [if_neg hfloor] at h
  refine ⟨not_lt.mp hfloor, ?_⟩
  intro pc hpc
  obtain rfl : publishedCorr = some pc := hpc
  by_cases hmargin : corr ≤ pc + 1 / 10 ^ 9
  · simp only [if_pos hmargin] at h
    cases h
  · have hpos : (0 : K) < 1 / 10 ^ 9 := by positivity
    exact lt_trans (lt_add_of_pos_right pc hpos) (not_le.mp hmargin)

theorem Published.step {tr : List (TrainEntry K)} {s : Publisher K} (ha : Agrees s)
    (h : Published (publishedCorrs tr) s) (e : TrainResult K × MapUpdate) :
    Published (publishedCorrs (⟨s, e, (applyTrainResult s e.1 e.2).1⟩ :: tr))
      (applyTrainResult s e.1 e.2).1 := by
  rcases applyTrainResult_cases s e.1 e.2 with
    ⟨hno, map, hpost, -⟩ | ⟨hpub, -, hgate, hgen, hpost⟩
  · rw [publishedCorrs, outcome, if_neg hno, hpost]
    exact ⟨h.count, h.latest, h.floor, h.ratchet⟩
  · rw [publishedCorrs, outcome, if_pos hpub, hpost]
    obtain ⟨hfloor, hbetter⟩ := shouldPublish_corr hgate
    have hhead : ∀ pc ∈ (publishedCorrs tr).head?, pc < e.1.corr := by
      intro pc hpc
      have hne : s.model.generation ≠ 0 := by
        intro hzero
        have hlen := h.count
        rw [hzero] at hlen
        rw [List.eq_nil_of_length_eq_zero hlen.symm] at hpc
        cases hpc
      rw [← h.latest pc hpc]
      apply hbetter
      rw [if_neg hne]
      rfl
    constructor
    · rw [List.length_cons, ← h.count]
      exact ha.next_generation hgen
    · rintro c ⟨⟩
      rfl
    · intro c hc
      rcases List.mem_cons.mp hc with rfl | hmem
      · exact hfloor
      · exact h.floor c hmem
    · exact .cons (h.lt_of_head hhead) h.ratchet

theorem TrainRun.invariants {tr : List (TrainEntry K)} {s : Publisher K}
    (h : TrainRun tr s) : Agrees s ∧ Published (publishedCorrs tr) s := by
  apply Run.invariant (I := fun tr s => Agrees s ∧ Published (publishedCorrs tr) s) _ _ h
  · rintro s rfl
    exact ⟨.initial, rfl, nofun, nofun, .nil⟩
  · rintro tr s e s' ⟨ha, hp⟩ rfl
    exact ⟨ha.step e, hp.step ha e⟩

/-- **The publish state machine.** Each result is either committed
whole or leaves the committed model as it was, the copies of the model
agree, and the published models improve strictly from the floor on. -/
theorem trainResults_publish {tr : List (TrainEntry K)} {s : Publisher K}
    (h : TrainRun tr s) :
    (∀ x ∈ tr, (outcome x = .published → Commits x) ∧
      (outcome x ≠ .published → Keeps x)) ∧
    Agrees s ∧ Published (publishedCorrs tr) s := by
  refine ⟨?_, h.invariants⟩
  induction h with
  | start _ => nofun
  | snoc hrun hstep ih =>
      intro x hx
      rcases List.mem_cons.mp hx with rfl | hmem
      · subst hstep
        exact ⟨commits_of_outcome (TrainRun.invariants hrun).1, keeps_of_outcome⟩
      · exact ih x hmem

end

/-- A fit of a leaf with a good correlation. -/
def leafResult : TrainResult ℚ where
  tree := ⟨[{ left := 900000 }]⟩
  nrTrain := 2048
  nrPidsTrain := 8
  holdoutLen := 227
  maeTree := 1000
  maeEma := 2000
  corr := 1 / 2

/-- It is published once; offered again it does not improve on itself. -/
theorem trainResults_publish_leaf :
    ∃ (tr : List (TrainEntry ℚ)) (s : Publisher ℚ), TrainRun tr s ∧
      tr.map outcome = [.gated, .published] ∧
      ((∀ x ∈ tr, (outcome x = .published → Commits x) ∧
        (outcome x ≠ .published → Keeps x)) ∧
      Agrees s ∧ Published (publishedCorrs tr) s) := by
  let s₁ := (applyTrainResult Publisher.initial leafResult .ok).1
  let tr : List (TrainEntry ℚ) := [⟨s₁, (leafResult, .ok), (applyTrainResult s₁ leafResult .ok).1⟩,
    ⟨Publisher.initial, (leafResult, .ok), s₁⟩]
  have hrun : TrainRun tr (applyTrainResult s₁ leafResult .ok).1 :=
    .snoc (.snoc (.start rfl) rfl) rfl
  refine ⟨tr, _, hrun, ?_, trainResults_publish hrun⟩
  decide +kernel

end ScxMlfq
