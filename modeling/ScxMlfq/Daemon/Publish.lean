import ScxMlfq.Daemon.MlfqTree
import ScxMlfq.Lib.Trace

/-!
# Daemon — Publish

The publishing of a tree, `publish_tree` of `src/main.rs`, against the
readers in `mlfq_tree_predict`. One publisher writes the nodes of the
inactive map entry, in any order, and then the meta word. A reader loads
the meta word once and reads one node of the entry it selects at a time.
The steps interleave freely.

A reader holds on to the entry that was active when it loaded the meta
word. The publish in progress at that moment, or else the next one,
writes the other entry; only the one after it comes back to the
reader's.
-/

namespace ScxMlfq

open Trace

/-! ## The protocol -/

/-- The publisher. Within a publish: the tree, its generation, the value
of the active bit it will commit, and the nodes not written yet. -/
inductive Writer where
  | idle
  | writing (tree : SerializedTree) (gen active : U64)
      (todo : List (Fin mlfqTreeMaxNodes))

/-- One call of `mlfq_tree_predict`: the entry it selected, the turns it
has left and the index of the node it reads next. -/
inductive Reader where
  | idle
  | walking (f : TreeFeats) (entry : Bool) (fuel : Nat) (idx : U32)
  | done (value : U64)

structure PublishState (ρ : Type*) where
  ctrlMeta : U64
  map : Bool → MlfqTreeStore
  writer : Writer
  readers : ρ → Reader

inductive PublishEvent (ρ : Type*) where
  /-- `publish_tree` up to its first node. -/
  | publish (tree : SerializedTree) (gen : U64)
  | write (i : Fin mlfqTreeMaxNodes)
  | commit
  | load (r : ρ) (f : TreeFeats)
  | read (r : ρ)

/-- `new_active`. -/
def newActive (oldMeta : U64) : U64 := 1 - ((oldMeta >>> 1) &&& 1)

/-- The map entry of an active bit. -/
def activeEntry (active : U64) : Bool := decide (active ≠ 0)

/-- The walk on the node it read: one iteration of the loop, or the
return after it. -/
def readNode (f : TreeFeats) (entry : Bool) (fuel : Nat) (node : TreeNode) : Reader :=
  match fuel with
  | 0 => .done (if node.right = 0 then node.left.setWidth 64 else 0)
  | fuel + 1 =>
      match nodeStep f node with
      | .leaf pred => .done pred
      | .badFeature => .done 0
      | .child c => .walking f entry fuel c

/-- The start of a publish. A tree over the store bound does not fit the
buffer, and a generation that does not grow is refused; neither changes
anything. -/
def startPublish (ctrlMeta : U64) (tree : SerializedTree) (gen : U64) : Option Writer :=
  let oldGen := ctrlMeta >>> mlfqTreeMetaGenerationShift
  if gen ≤ oldGen ∧ oldGen ≠ 0 then none
  else if tree.nr > mlfqTreeMaxNodes then none
  else some (.writing tree gen (newActive ctrlMeta) (List.finRange _))

/-- The buffer with one node of `tree` written. -/
def writeNode (store : MlfqTreeStore) (tree : SerializedTree) (i : Fin mlfqTreeMaxNodes) :
    MlfqTreeStore where
  nodes := Function.update store.nodes i ((MlfqTreeStore.ofNodes tree.nodes).nodes i)

/-- One step of the publisher or of a reader. -/
def stepPublish {ρ : Type*} [DecidableEq ρ] (s : PublishState ρ) :
    PublishEvent ρ → Option (PublishState ρ)
  | .publish tree gen =>
      match s.writer with
      | .writing .. => none
      | .idle => (startPublish s.ctrlMeta tree gen).map fun w => { s with writer := w }
  | .write i =>
      match s.writer with
      | .idle => none
      | .writing tree gen active todo =>
          if i ∈ todo then
            let entry := activeEntry active
            some { s with
              map := Function.update s.map entry (writeNode (s.map entry) tree i)
              writer := .writing tree gen active (todo.erase i) }
          else none
  | .commit =>
      match s.writer with
      | .writing tree gen active [] =>
          some { s with ctrlMeta := treeMeta gen tree.nr active, writer := .idle }
      | _ => none
  | .load r f =>
      match s.readers r with
      | .walking .. => none
      | _ =>
          let reader := if metaTrained s.ctrlMeta
            then .walking f (metaActive s.ctrlMeta) mlfqTreeMaxDepth 0 else .done 0
          some { s with readers := Function.update s.readers r reader }
  | .read r =>
      match s.readers r with
      | .walking f entry fuel idx =>
          let reader := readNode f entry fuel ((s.map entry).nodes (maskIdx idx))
          some { s with readers := Function.update s.readers r reader }
      | _ => none

/-- Before the first publish: the zeroed bss and map. -/
def PublishState.initial {ρ : Type*} : PublishState ρ where
  ctrlMeta := 0
  map _ := .ofNodes []
  writer := .idle
  readers _ := .idle

variable {ρ : Type*} [DecidableEq ρ]

abbrev PublishEntry (ρ : Type*) := Entry (PublishState ρ) (PublishEvent ρ)

abbrev PublishRun : List (PublishEntry ρ) → PublishState ρ → Prop :=
  Run (fun s e s' => stepPublish s e = some s') (fun s => s = PublishState.initial)

/-! ## The history of a reader -/

/-- The tree of a publish in progress. -/
def Writer.tree : Writer → Option SerializedTree
  | .idle => none
  | .writing tree _ _ _ => some tree

/-- Whether the reader is within its walk. -/
def Reader.walks : Reader → Bool
  | .walking .. => true
  | _ => false

/-- The tree of the latest commit. -/
def committed : List (PublishEntry ρ) → Option SerializedTree
  | [] => none
  | x :: tr =>
      match x.event with
      | .commit => x.pre.writer.tree
      | _ => committed tr

/-- The tree committed by the meta word a reader loaded, and what the
reader asks of it. -/
def watched (r : ρ) : List (PublishEntry ρ) → Option (Option SerializedTree × TreeFeats)
  | [] => none
  | x :: tr =>
      match x.event with
      | .load r' f => if r' = r then some (committed tr, f) else watched r tr
      | _ => watched r tr

/-- The publishes begun since a reader's load, on top of `atLoad` at the
load. -/
def publishes (atLoad : PublishState ρ → Nat) (r : ρ) : List (PublishEntry ρ) → Nat
  | [] => 0
  | x :: tr =>
      match x.event with
      | .load r' _ => if r' = r then atLoad x.pre else publishes atLoad r tr
      | .publish _ _ => publishes atLoad r tr + 1
      | _ => publishes atLoad r tr

/-- The publish in progress counts. -/
def inProgress (s : PublishState ρ) : Nat :=
  match s.writer with
  | .idle => 0
  | .writing .. => 1

/-- Within the walk of the reader, no node was written by the second of
the publishes counted for it. -/
def undisturbed (atLoad : PublishState ρ → Nat) (r : ρ) : List (PublishEntry ρ) → Bool
  | [] => true
  | x :: tr =>
      match x.event with
      | .load r' _ => decide (r' = r) || undisturbed atLoad r tr
      | .write _ =>
          (!(x.pre.readers r).walks || decide (publishes atLoad r tr ≤ 1))
            && undisturbed atLoad r tr
      | _ => undisturbed atLoad r tr

/-- The walk of the committed tree, zero-padded; 0 while untrained. -/
def committedPrediction : Option SerializedTree → TreeFeats → U64
  | none, _ => 0
  | some tree, f => mlfqTreeWalk (.ofNodes tree.nodes) f

/-! ## The bits of the meta word -/

theorem and_twoPow_ne_zero (w : U64) {k : Nat} (hk : BitVec.twoPow 64 k ≠ 0) :
    decide (w &&& BitVec.twoPow 64 k ≠ 0) = w.getLsbD k := by
  rw [BitVec.and_twoPow]
  cases w.getLsbD k with
  | true => simpa using hk
  | false => simp

theorem metaTrained_eq (w : U64) : metaTrained w = w.getLsbD 0 := by
  have hone : mlfqTreeMetaTrained = BitVec.twoPow 64 0 := rfl
  rw [metaTrained, hone, and_twoPow_ne_zero w (by decide)]

theorem metaActive_eq (w : U64) : metaActive w = w.getLsbD 1 := by
  have htwo : mlfqTreeMetaActive = BitVec.twoPow 64 1 := rfl
  rw [metaActive, htwo, and_twoPow_ne_zero w (by decide)]

theorem newActive_eq (w : U64) : newActive w = if metaActive w then 0 else 1 := by
  have hbit : (w >>> 1) &&& BitVec.twoPow 64 0
      = if w.getLsbD 1 then BitVec.twoPow 64 0 else 0 := by
    rw [BitVec.and_twoPow, BitVec.getLsbD_ushiftRight]
    rfl
  rw [metaActive_eq]
  show 1 - ((w >>> 1) &&& BitVec.twoPow 64 0) = _
  rw [hbit]
  cases w.getLsbD 1 <;> rfl

/-- A publish writes the entry that is not active. -/
theorem activeEntry_newActive (w : U64) : activeEntry (newActive w) = !metaActive w := by
  rw [newActive_eq]
  cases metaActive w <;> rfl

theorem metaTrained_treeMeta (gen : U64) (n : Nat) (active : U64) :
    metaTrained (treeMeta gen n active) = true := by
  rw [metaTrained_eq]
  simp [treeMeta, mlfqTreeMetaTrained]

/-- A commit makes the entry it wrote the active one. -/
theorem metaActive_treeMeta (gen : U64) (n : Nat) (w : U64) :
    metaActive (treeMeta gen n (newActive w)) = activeEntry (newActive w) := by
  have hbit : metaActive (treeMeta gen n (newActive w)) = (newActive w).getLsbD 0 := by
    rw [metaActive_eq]
    simp [treeMeta, mlfqTreeMetaTrained, mlfqTreeMetaGenerationShift,
      mlfqTreeMetaNrNodesShift]
  rw [hbit, newActive_eq]
  cases metaActive w <;> rfl

/-! ## What one step does -/

theorem stepPublish_publish {s s' : PublishState ρ} {tree : SerializedTree} {gen : U64}
    (h : stepPublish s (.publish tree gen) = some s') :
    s.writer = .idle ∧
      s' = { s with writer := .writing tree gen (newActive s.ctrlMeta) (List.finRange _) } := by
  rw [stepPublish] at h
  cases hw : s.writer with
  | writing tree' gen' active todo =>
      rw [hw] at h
      cases h
  | idle =>
      rw [hw] at h
      obtain ⟨w, hstart, rfl⟩ := Option.map_eq_some_iff.mp h
      simp only [startPublish] at hstart
      split_ifs at hstart
      cases hstart
      exact ⟨rfl, rfl⟩

theorem stepPublish_write {s s' : PublishState ρ} {i : Fin mlfqTreeMaxNodes}
    (h : stepPublish s (.write i) = some s') :
    ∃ tree gen active todo, s.writer = .writing tree gen active todo ∧ i ∈ todo ∧
      s' = { s with
        map := Function.update s.map (activeEntry active)
          (writeNode (s.map (activeEntry active)) tree i)
        writer := .writing tree gen active (todo.erase i) } := by
  rw [stepPublish] at h
  cases hw : s.writer with
  | idle =>
      rw [hw] at h
      cases h
  | writing tree gen active todo =>
      simp only [hw] at h
      split_ifs at h with hi
      cases h
      exact ⟨tree, gen, active, todo, rfl, hi, rfl⟩

theorem stepPublish_commit {s s' : PublishState ρ} (h : stepPublish s .commit = some s') :
    ∃ tree gen active, s.writer = .writing tree gen active [] ∧
      s' = { s with ctrlMeta := treeMeta gen tree.nr active, writer := .idle } := by
  rw [stepPublish] at h
  cases hw : s.writer with
  | idle =>
      rw [hw] at h
      cases h
  | writing tree gen active todo =>
      cases todo with
      | cons i todo =>
          rw [hw] at h
          cases h
      | nil =>
          rw [hw] at h
          cases h
          exact ⟨tree, gen, active, rfl, rfl⟩

theorem stepPublish_load {s s' : PublishState ρ} {r : ρ} {f : TreeFeats}
    (h : stepPublish s (.load r f) = some s') :
    s' = { s with
      readers := Function.update s.readers r (if metaTrained s.ctrlMeta
        then .walking f (metaActive s.ctrlMeta) mlfqTreeMaxDepth 0 else .done 0) } := by
  rw [stepPublish] at h
  cases hr : s.readers r with
  | walking f' entry fuel idx =>
      rw [hr] at h
      cases h
  | idle =>
      rw [hr] at h
      exact (Option.some.inj h).symm
  | done v =>
      rw [hr] at h
      exact (Option.some.inj h).symm

theorem stepPublish_read {s s' : PublishState ρ} {r : ρ}
    (h : stepPublish s (.read r) = some s') :
    ∃ f entry fuel idx, s.readers r = .walking f entry fuel idx ∧
      s' = { s with
        readers := Function.update s.readers r
          (readNode f entry fuel ((s.map entry).nodes (maskIdx idx))) } := by
  rw [stepPublish] at h
  cases hr : s.readers r with
  | idle =>
      rw [hr] at h
      cases h
  | done v =>
      rw [hr] at h
      cases h
  | walking f entry fuel idx =>
      rw [hr] at h
      exact ⟨f, entry, fuel, idx, rfl, (Option.some.inj h).symm⟩

/-! ## The publisher's side -/

/-- What holds between the meta word and the two entries: the active
entry holds the committed tree, and a publish in progress has the other
one, its written nodes in place. -/
structure PublishInv (tr : List (PublishEntry ρ)) (s : PublishState ρ) : Prop where
  trained : metaTrained s.ctrlMeta = (committed tr).isSome
  active : ∀ tree, committed tr = some tree →
    s.map (metaActive s.ctrlMeta) = .ofNodes tree.nodes
  writing : ∀ tree gen active todo, s.writer = .writing tree gen active todo →
    active = newActive s.ctrlMeta ∧ ∀ i, i ∉ todo →
      (s.map (activeEntry active)).nodes i = (MlfqTreeStore.ofNodes tree.nodes).nodes i

omit [DecidableEq ρ] in
theorem PublishInv.initial : PublishInv ([] : List (PublishEntry ρ)) .initial where
  trained := by
    show metaTrained 0 = false
    decide
  active _ h := by cases h
  writing _ _ _ _ h := by cases h

theorem PublishInv.publish {tr : List (PublishEntry ρ)} {s s' : PublishState ρ}
    {tree : SerializedTree} {gen : U64} (hI : PublishInv tr s)
    (h : stepPublish s (.publish tree gen) = some s') :
    PublishInv (⟨s, .publish tree gen, s'⟩ :: tr) s' := by
  obtain ⟨-, rfl⟩ := stepPublish_publish h
  refine ⟨hI.trained, hI.active, ?_⟩
  intro tree' gen' active todo hw
  cases hw
  exact ⟨rfl, fun i hi => absurd (List.mem_finRange i) hi⟩

theorem PublishInv.write {tr : List (PublishEntry ρ)} {s s' : PublishState ρ}
    {i : Fin mlfqTreeMaxNodes} (hI : PublishInv tr s)
    (h : stepPublish s (.write i) = some s') : PublishInv (⟨s, .write i, s'⟩ :: tr) s' := by
  obtain ⟨tree, gen, active, todo, hw, -, rfl⟩ := stepPublish_write h
  obtain ⟨hactive, hdone⟩ := hI.writing tree gen active todo hw
  have hother : metaActive s.ctrlMeta ≠ activeEntry active := by
    rw [hactive, activeEntry_newActive]
    cases metaActive s.ctrlMeta <;> decide
  refine ⟨hI.trained, ?_, ?_⟩
  · intro t ht
    have hact := hI.active t ht
    simpa only [Function.update_of_ne hother] using hact
  · intro tree' gen' active' todo' hw'
    cases hw'
    refine ⟨hactive, fun j hj => ?_⟩
    simp only [Function.update_self, writeNode]
    by_cases hji : j = i
    · subst hji
      rw [Function.update_self]
    · rw [Function.update_of_ne hji]
      exact hdone j fun hmem => hj ((List.mem_erase_of_ne hji).mpr hmem)

theorem PublishInv.commit {tr : List (PublishEntry ρ)} {s s' : PublishState ρ}
    (hI : PublishInv tr s) (h : stepPublish s .commit = some s') :
    PublishInv (⟨s, .commit, s'⟩ :: tr) s' := by
  obtain ⟨tree, gen, active, hw, rfl⟩ := stepPublish_commit h
  obtain ⟨rfl, hdone⟩ := hI.writing tree gen active [] hw
  have hcommitted : committed (⟨s, .commit, { s with
      ctrlMeta := treeMeta gen tree.nr (newActive s.ctrlMeta), writer := .idle }⟩ :: tr)
      = some tree := by
    simp only [committed, hw, Writer.tree]
  refine ⟨?_, ?_, ?_⟩
  · rw [hcommitted]
    exact metaTrained_treeMeta ..
  · intro t ht
    rw [hcommitted] at ht
    cases ht
    have hnodes : (s.map (activeEntry (newActive s.ctrlMeta))).nodes
        = (MlfqTreeStore.ofNodes tree.nodes).nodes :=
      funext fun i => hdone i List.not_mem_nil
    simp only [metaActive_treeMeta]
    exact congrArg MlfqTreeStore.mk hnodes
  · intro _ _ _ _ hw'
    cases hw'

theorem PublishInv.step {tr : List (PublishEntry ρ)} {s s' : PublishState ρ}
    {e : PublishEvent ρ} (hI : PublishInv tr s) (h : stepPublish s e = some s') :
    PublishInv (⟨s, e, s'⟩ :: tr) s' := by
  cases e with
  | publish tree gen => exact hI.publish h
  | write i => exact hI.write h
  | commit => exact hI.commit h
  | load r f =>
      obtain rfl := stepPublish_load h
      exact ⟨hI.trained, hI.active, hI.writing⟩
  | read r =>
      obtain ⟨f, entry, fuel, idx, -, rfl⟩ := stepPublish_read h
      exact ⟨hI.trained, hI.active, hI.writing⟩

theorem publishRun_inv {tr : List (PublishEntry ρ)} {s : PublishState ρ}
    (h : PublishRun tr s) : PublishInv tr s :=
  h.invariant (fun _ hs => hs ▸ .initial) fun _ _ _ _ hI hstep => hI.step hstep

/-! ## A reader's side -/

/-- An entry the publisher cannot touch before the second of the `n`
publishes counted: with none it is the active one, and the first writes
the other. -/
def OutOfReach (s : PublishState ρ) (entry : Bool) (n : Nat) : Prop :=
  (n = 0 → s.writer = .idle ∧ metaActive s.ctrlMeta = entry) ∧
    (n = 1 → ∀ tree gen active todo, s.writer = .writing tree gen active todo →
      activeEntry active = !entry)

/-- The reader returned `v`, or will if the publisher stays out of its
entry. -/
def Reader.Returns (s : PublishState ρ) (f : TreeFeats) (n : Nat) (v : U64) : Reader → Prop
  | .idle => True
  | .done w => w = v
  | .walking f' entry fuel idx =>
      f' = f ∧ (walkFrom (s.map entry) f fuel idx).value = v ∧ OutOfReach s entry n

omit [DecidableEq ρ] in
/-- One read is one iteration of the walk. -/
theorem readNode_returns {s : PublishState ρ} {f : TreeFeats} {entry : Bool} {n : Nat}
    (fuel : Nat) (idx : U32) (hout : OutOfReach s entry n) :
    (readNode f entry fuel ((s.map entry).nodes (maskIdx idx))).Returns s f n
      (walkFrom (s.map entry) f fuel idx).value := by
  cases fuel with
  | zero =>
      simp only [readNode, walkFrom, Reader.Returns]
      split_ifs <;> rfl
  | succ fuel =>
      simp only [readNode, walkFrom]
      cases nodeStep f ((s.map entry).nodes (maskIdx idx)) with
      | leaf pred => rfl
      | badFeature => rfl
      | child c => exact ⟨rfl, rfl, hout⟩

theorem Reader.Returns.publish {s s' : PublishState ρ} {f : TreeFeats} {n : Nat} {v : U64}
    {tree : SerializedTree} {gen : U64} {reader : Reader} (hR : reader.Returns s f n v)
    (h : stepPublish s (.publish tree gen) = some s') : reader.Returns s' f (n + 1) v := by
  obtain ⟨-, rfl⟩ := stepPublish_publish h
  cases reader with
  | idle => trivial
  | done w => exact hR
  | walking f' entry fuel idx =>
      obtain ⟨hf, hwalk, hnone, -⟩ := hR
      refine ⟨hf, hwalk, ?_, ?_⟩
      · intro hn
        omega
      · intro hn _ _ _ _ hw
        cases hw
        have hentry := (hnone (by omega)).2
        rw [activeEntry_newActive, hentry]

theorem Reader.Returns.write {s s' : PublishState ρ} {f : TreeFeats} {n : Nat} {v : U64}
    {i : Fin mlfqTreeMaxNodes} {reader : Reader} (hR : reader.Returns s f n v)
    (h : stepPublish s (.write i) = some s') (hn : reader.walks = true → n ≤ 1) :
    reader.Returns s' f n v := by
  obtain ⟨tree, gen, active, todo, hw, -, rfl⟩ := stepPublish_write h
  cases reader with
  | idle => trivial
  | done w => exact hR
  | walking f' entry fuel idx =>
      obtain ⟨hf, hwalk, hnone, hone⟩ := hR
      have hpos : n ≠ 0 := by
        intro hzero
        have hidle := (hnone hzero).1
        rw [hw] at hidle
        cases hidle
      have hle := hn rfl
      have hactive := hone (by omega) tree gen active todo hw
      have hother : entry ≠ activeEntry active := by
        rw [hactive]
        cases entry <;> decide
      refine ⟨hf, ?_, fun hzero => absurd hzero hpos, ?_⟩
      · simpa only [Function.update_of_ne hother] using hwalk
      · intro _ _ _ _ _ hw'
        cases hw'
        exact hactive

theorem Reader.Returns.commit {s s' : PublishState ρ} {f : TreeFeats} {n : Nat} {v : U64}
    {reader : Reader} (hR : reader.Returns s f n v) (h : stepPublish s .commit = some s') :
    reader.Returns s' f n v := by
  obtain ⟨tree, gen, active, hw, rfl⟩ := stepPublish_commit h
  cases reader with
  | idle => trivial
  | done w => exact hR
  | walking f' entry fuel idx =>
      obtain ⟨hf, hwalk, hnone, -⟩ := hR
      refine ⟨hf, hwalk, ?_, ?_⟩
      · intro hzero
        have hidle := (hnone hzero).1
        rw [hw] at hidle
        cases hidle
      · intro _ _ _ _ _ hw'
        cases hw'

/-- A fresh reader: the entry it selected holds the committed tree. -/
theorem Reader.Returns.load {tr : List (PublishEntry ρ)} {s s' : PublishState ρ} {r : ρ}
    {f : TreeFeats} (hI : PublishInv tr s) (h : stepPublish s (.load r f) = some s') :
    (s'.readers r).Returns s' f (inProgress s) (committedPrediction (committed tr) f) := by
  obtain rfl := stepPublish_load h
  have htrained := hI.trained
  simp only [Function.update_self]
  cases hc : committed tr with
  | none =>
      rw [hc] at htrained
      rw [htrained]
      rfl
  | some tree =>
      rw [hc] at htrained
      rw [htrained]
      have hmap := hI.active tree hc
      refine ⟨rfl, ?_, ?_, ?_⟩
      · show (walkFrom (s.map (metaActive s.ctrlMeta)) f mlfqTreeMaxDepth 0).value = _
        rw [hmap]
        rfl
      · intro hidle
        cases hw : s.writer with
        | idle => exact ⟨rfl, rfl⟩
        | writing tree' gen active todo =>
            rw [inProgress, hw] at hidle
            cases hidle
      · intro _ tree' gen active todo hw
        rw [(hI.writing tree' gen active todo hw).1, activeEntry_newActive]

theorem Reader.Returns.read {s s' : PublishState ρ} {r : ρ} {f : TreeFeats} {n : Nat}
    {v : U64} (hR : (s.readers r).Returns s f n v)
    (h : stepPublish s (.read r) = some s') : (s'.readers r).Returns s' f n v := by
  obtain ⟨f', entry, fuel, idx, hr, rfl⟩ := stepPublish_read h
  rw [hr] at hR
  obtain ⟨rfl, rfl, hout⟩ := hR
  have hread := readNode_returns (f := f') fuel idx hout
  simp only [Function.update_self]
  revert hread
  cases readNode f' entry fuel ((s.map entry).nodes (maskIdx idx)) with
  | idle => exact id
  | done w => exact id
  | walking f'' entry' fuel' idx' => exact id

/-- Until a publish disturbs it, a reader keeps to the tree of the meta
word it loaded. -/
def ReaderInv (r : ρ) (tr : List (PublishEntry ρ)) (s : PublishState ρ) : Prop :=
  ∀ t f, watched r tr = some (t, f) → undisturbed inProgress r tr = true →
    (s.readers r).Returns s f (publishes inProgress r tr) (committedPrediction t f)

theorem ReaderInv.step {r : ρ} {tr : List (PublishEntry ρ)} {s s' : PublishState ρ}
    {e : PublishEvent ρ} (hI : PublishInv tr s) (hR : ReaderInv r tr s)
    (h : stepPublish s e = some s') : ReaderInv r (⟨s, e, s'⟩ :: tr) s' := by
  intro t f hwatch hquiet
  cases e with
  | publish tree gen =>
      have hreaders : s'.readers = s.readers := by
        obtain ⟨-, rfl⟩ := stepPublish_publish h
        rfl
      rw [hreaders]
      exact (hR t f hwatch hquiet).publish h
  | write i =>
      have hreaders : s'.readers = s.readers := by
        obtain ⟨_, _, _, _, -, -, rfl⟩ := stepPublish_write h
        rfl
      simp only [undisturbed, Bool.and_eq_true, Bool.or_eq_true, Bool.not_eq_true',
        decide_eq_true_eq] at hquiet
      rw [hreaders]
      refine (hR t f hwatch hquiet.2).write h fun hwalks => ?_
      rcases hquiet.1 with hdone | hle
      · rw [hwalks] at hdone
        cases hdone
      · exact hle
  | commit =>
      have hreaders : s'.readers = s.readers := by
        obtain ⟨_, _, _, -, rfl⟩ := stepPublish_commit h
        rfl
      rw [hreaders]
      exact (hR t f hwatch hquiet).commit h
  | load r' f' =>
      by_cases hr : r' = r
      · subst hr
        simp only [watched, if_true, Option.some.injEq, Prod.mk.injEq] at hwatch
        obtain ⟨rfl, rfl⟩ := hwatch
        simp only [publishes, if_true]
        exact .load hI h
      · simp only [watched, if_neg hr] at hwatch
        simp only [undisturbed, hr, decide_false, Bool.false_or] at hquiet
        have hkeep := hR t f hwatch hquiet
        obtain rfl := stepPublish_load h
        simp only [publishes, if_neg hr, Function.update_of_ne (Ne.symm hr)]
        exact hkeep
  | read r' =>
      have hkeep := hR t f hwatch hquiet
      by_cases hr : r' = r
      · subst hr
        exact hkeep.read h
      · obtain ⟨_, _, _, _, -, rfl⟩ := stepPublish_read h
        simp only [Function.update_of_ne (Ne.symm hr)]
        exact hkeep

/-! ## A publish carried through -/

/-- The nodes left can all be written. -/
theorem writes_run {tree : SerializedTree} {gen active : U64}
    {todo : List (Fin mlfqTreeMaxNodes)} {tr : List (PublishEntry ρ)} {s : PublishState ρ}
    (h : PublishRun tr s) (hw : s.writer = .writing tree gen active todo) :
    ∃ tr' s', PublishRun tr' s' ∧ committed tr' = committed tr ∧
      s'.ctrlMeta = s.ctrlMeta ∧ s'.readers = s.readers ∧
      s'.writer = .writing tree gen active [] ∧
      s'.map (!activeEntry active) = s.map (!activeEntry active) := by
  induction todo generalizing tr s with
  | nil => exact ⟨tr, s, h, rfl, rfl, rfl, hw, rfl⟩
  | cons i todo ih =>
      have hstep : stepPublish s (.write i) = some { s with
          map := Function.update s.map (activeEntry active)
            (writeNode (s.map (activeEntry active)) tree i)
          writer := .writing tree gen active todo } := by
        rw [stepPublish]
        simp only [hw, List.mem_cons_self, if_true, List.erase_cons_head]
      obtain ⟨tr', s', hrun, hcommitted, hmeta, hreaders, hw', hother⟩ :=
        ih (h.snoc hstep) rfl
      refine ⟨tr', s', hrun, hcommitted, hmeta, hreaders, hw', hother.trans ?_⟩
      exact Function.update_of_ne (by simp) ..

/-- An idle publisher takes a tree that fits, under a new generation. -/
theorem stepPublish_publish_of_idle {s : PublishState ρ} (tree : SerializedTree) (gen : U64)
    (hw : s.writer = .idle)
    (hgen : ¬ (gen ≤ s.ctrlMeta >>> mlfqTreeMetaGenerationShift ∧
      s.ctrlMeta >>> mlfqTreeMetaGenerationShift ≠ 0))
    (hnr : ¬ tree.nr > mlfqTreeMaxNodes) :
    stepPublish s (.publish tree gen) = some { s with
      writer := .writing tree gen (newActive s.ctrlMeta) (List.finRange _) } := by
  rw [stepPublish]
  simp only [hw, startPublish, hgen, hnr, if_false, Option.map_some]

/-- It can carry the publish up to the commit. -/
theorem publish_run {tr : List (PublishEntry ρ)} {s : PublishState ρ}
    (tree : SerializedTree) (gen : U64) (h : PublishRun tr s) (hw : s.writer = .idle)
    (hgen : ¬ (gen ≤ s.ctrlMeta >>> mlfqTreeMetaGenerationShift ∧
      s.ctrlMeta >>> mlfqTreeMetaGenerationShift ≠ 0))
    (hnr : ¬ tree.nr > mlfqTreeMaxNodes) :
    ∃ tr' s', PublishRun tr' s' ∧ committed tr' = committed tr ∧
      s'.ctrlMeta = s.ctrlMeta ∧ s'.readers = s.readers ∧
      s'.writer = .writing tree gen (newActive s.ctrlMeta) [] ∧
      s'.map (metaActive s.ctrlMeta) = s.map (metaActive s.ctrlMeta) := by
  have hstep := stepPublish_publish_of_idle tree gen hw hgen hnr
  obtain ⟨tr', s', hrun, hcommitted, hmeta, hreaders, hw', hother⟩ :=
    writes_run (h.snoc hstep) rfl
  rw [activeEntry_newActive, Bool.not_not] at hother
  exact ⟨tr', s', hrun, hcommitted, hmeta, hreaders, hw', hother⟩

/-- A split on the first feature, with its two leaves. -/
def splitTree (l r : U32) : SerializedTree where
  nodes := [{ left := 1, right := 2 }, { left := l }, { left := r }]

/-- The state with a single reader. -/
def oneReader (ctrlMeta : U64) (map : Bool → MlfqTreeStore) (writer : Writer)
    (reader : Reader) : PublishState Unit where
  ctrlMeta := ctrlMeta
  map := map
  writer := writer
  readers _ := reader

theorem oneReader_load {m : U64} {map : Bool → MlfqTreeStore} {w : Writer} {f : TreeFeats}
    (hm : metaTrained m = true) :
    stepPublish (oneReader m map w .idle) (.load () f)
      = some (oneReader m map w (.walking f (metaActive m) mlfqTreeMaxDepth 0)) := by
  simp only [stepPublish, oneReader, hm, if_true]
  rfl

theorem oneReader_read {m : U64} {map : Bool → MlfqTreeStore} {w : Writer} {f : TreeFeats}
    {entry : Bool} {fuel : Nat} {idx : U32} :
    stepPublish (oneReader m map w (.walking f entry fuel idx)) (.read ())
      = some (oneReader m map w
          (readNode f entry fuel ((map entry).nodes (maskIdx idx)))) :=
  rfl

theorem oneReader_write {m : U64} {map : Bool → MlfqTreeStore} {tree : SerializedTree}
    {gen active : U64} {reader : Reader} (i : Fin mlfqTreeMaxNodes) :
    stepPublish (oneReader m map (.writing tree gen active (List.finRange _)) reader) (.write i)
      = some (oneReader m
          (Function.update map (activeEntry active)
            (writeNode (map (activeEntry active)) tree i))
          (.writing tree gen active ((List.finRange _).erase i)) reader) := by
  simp only [stepPublish, oneReader, List.mem_finRange, if_true]

/-- The first tree published, with its entry in view. -/
theorem first_commit_run : ∃ tr map,
    PublishRun tr (oneReader (treeMeta 1 3 1) map .idle .idle) ∧
      committed tr = some (splitTree 10 20) ∧ map true = .ofNodes (splitTree 10 20).nodes := by
  obtain ⟨tr, s, hrun, -, -, hreaders, hw, -⟩ :=
    publish_run (splitTree 10 20) 1 (.start (s := (.initial : PublishState Unit)) rfl) rfl
      (by decide) (by decide)
  have hcommit : stepPublish s .commit
      = some (oneReader (treeMeta 1 3 1) s.map .idle .idle) := by
    rw [stepPublish, hw]
    simp only [hreaders]
    rfl
  have hrun' := hrun.snoc hcommit
  have hcommitted : committed (⟨s, .commit, oneReader (treeMeta 1 3 1) s.map .idle .idle⟩ :: tr)
      = some (splitTree 10 20) := by
    simp only [committed, hw, Writer.tree]
  have hactive : metaActive (treeMeta 1 3 1) = true := by decide
  have hmap := (publishRun_inv hrun').active _ hcommitted
  simp only [oneReader, hactive] at hmap
  exact ⟨_, s.map, hrun', hcommitted, hmap⟩

theorem readNode_splitTree {map : Bool → MlfqTreeStore}
    (hmap : map true = .ofNodes (splitTree 10 20).nodes) :
    readNode {} true mlfqTreeMaxDepth ((map true).nodes (maskIdx 0)) = .walking {} true 11 1 := by
  rw [hmap]
  rfl

/-! ## What a reader returns -/

/-- **No mixture of two trees**: a reader that finishes before the second
publish counted from its load starts on the nodes returns the walk of the
tree its meta word committed. A publish in progress at the load counts. -/
theorem reader_returns_committed {tr : List (PublishEntry ρ)} {s : PublishState ρ} {r : ρ}
    {t : Option SerializedTree} {f : TreeFeats} {v : U64} (h : PublishRun tr s)
    (hwatch : watched r tr = some (t, f)) (hquiet : undisturbed inProgress r tr = true)
    (hdone : s.readers r = .done v) : v = committedPrediction t f := by
  have hinv : PublishInv tr s ∧ ReaderInv r tr s := by
    refine h.invariant (I := fun tr s => PublishInv tr s ∧ ReaderInv r tr s) ?_ ?_
    · rintro s rfl
      exact ⟨.initial, fun _ _ hw => by cases hw⟩
    · intro tr s e s' ⟨hI, hR⟩ hstep
      exact ⟨hI.step hstep, hR.step hI hstep⟩
  have hret := hinv.2 t f hwatch hquiet
  rw [hdone] at hret
  exact hret

/-- A reader loads while the second publish has begun, and one of its
nodes is written between the two reads of the walk. -/
theorem reader_returns_committed_split :
    ∃ (tr : List (PublishEntry Unit)) (s : PublishState Unit), PublishRun tr s ∧
      publishes inProgress () tr = 1 ∧ s.readers () = .done 10 ∧
      (10 : U64) = committedPrediction (some (splitTree 10 20)) {} := by
  obtain ⟨tr, map, hrun, hcommitted, hmap⟩ := first_commit_run
  have hpublish := stepPublish_publish_of_idle (splitTree 30 40) 2
    (s := oneReader (treeMeta 1 3 1) map .idle .idle) rfl
    (show ¬ ((2 : U64) ≤ treeMeta 1 3 1 >>> mlfqTreeMetaGenerationShift ∧
      treeMeta 1 3 1 >>> mlfqTreeMetaGenerationShift ≠ 0) by decide) (by decide)
  have hflip : newActive (treeMeta 1 3 1) = 0 := by decide
  simp only [oneReader, hflip] at hpublish
  have hload := (hrun.snoc hpublish).snoc (oneReader_load (f := {}) (by decide))
  have hroot := readNode_splitTree hmap
  have hactive : metaActive (treeMeta 1 3 1) = true := by decide
  have hwalk := hload.snoc oneReader_read
  simp only [hactive, hroot] at hwalk
  have hend := (hwalk.snoc (oneReader_write (maskIdx 1))).snoc oneReader_read
  have hleaf : readNode {} true 11 ((Function.update map false
      (writeNode (map false) (splitTree 30 40) (maskIdx 1)) true).nodes (maskIdx 1))
        = .done 10 := by
    rw [Function.update_of_ne (by simp), hmap]
    rfl
  rw [← hcommitted]
  exact ⟨_, _, hend, rfl, hleaf, reader_returns_committed (r := ()) hend rfl rfl hleaf⟩

/-- A reader loads while the second tree is written and reads its root;
then the third publish overwrites the leaf the reader comes to next. -/
theorem overwritten_run {tr : List (PublishEntry Unit)} {map : Bool → MlfqTreeStore}
    (h : PublishRun tr
      (oneReader (treeMeta 1 3 1) map (.writing (splitTree 30 40) 2 0 []) .idle))
    (hmap : map true = .ofNodes (splitTree 10 20).nodes) :
    ∃ tr' s', PublishRun tr' s' ∧ watched () tr' = some (committed tr, {}) ∧
      undisturbed (fun _ => 0) () tr' = true ∧ s'.readers () = .done 50 := by
  have hroot := readNode_splitTree hmap
  have hcommit : stepPublish (oneReader (treeMeta 1 3 1) map
      (.writing (splitTree 30 40) 2 0 []) (.walking {} true 11 1)) .commit
      = some (oneReader (treeMeta 2 3 0) map .idle (.walking {} true 11 1)) := rfl
  have hpublish := stepPublish_publish_of_idle (splitTree 50 60) 3
    (s := oneReader (treeMeta 2 3 0) map .idle (.walking {} true 11 1)) rfl
    (show ¬ ((3 : U64) ≤ treeMeta 2 3 0 >>> mlfqTreeMetaGenerationShift ∧
      treeMeta 2 3 0 >>> mlfqTreeMetaGenerationShift ≠ 0) by decide) (by decide)
  have hflip : newActive (treeMeta 2 3 0) = 1 := by decide
  simp only [oneReader, hflip] at hpublish
  have hwalk := (h.snoc (oneReader_load (f := {}) (by decide))).snoc oneReader_read
  have hactive : metaActive (treeMeta 1 3 1) = true := by decide
  simp only [hactive, hroot] at hwalk
  have hleaf : readNode {} true 11 ((Function.update map true
      (writeNode (map true) (splitTree 50 60) (maskIdx 1)) true).nodes (maskIdx 1)) = .done 50 := by
    simp only [Function.update_self, writeNode]
    rfl
  have hend := (((hwalk.snoc hcommit).snoc hpublish).snoc
    (oneReader_write (maskIdx 1))).snoc oneReader_read
  exact ⟨_, _, hend, rfl, rfl, hleaf⟩

/-- A publish in progress at the load has to be counted. -/
theorem third_publish_mixes :
    ¬ ∀ (tr : List (PublishEntry Unit)) (s : PublishState Unit) (r : Unit)
        (t : Option SerializedTree) (f : TreeFeats) (v : U64), PublishRun tr s →
      watched r tr = some (t, f) → undisturbed (fun _ => 0) r tr = true →
      s.readers r = .done v → v = committedPrediction t f := by
  intro hclaim
  obtain ⟨tr₁, map₁, hrun₁, hcommitted₁, -⟩ := first_commit_run
  have hgen : ¬ ((2 : U64) ≤ treeMeta 1 3 1 >>> mlfqTreeMetaGenerationShift ∧
      treeMeta 1 3 1 >>> mlfqTreeMetaGenerationShift ≠ 0) := by decide
  obtain ⟨tr₂, s₂, hrun₂, hcommitted₂, hmeta, hreaders, hw, -⟩ :=
    publish_run (splitTree 30 40) 2 hrun₁ rfl hgen (by decide)
  rw [hcommitted₁] at hcommitted₂
  have hmap := (publishRun_inv hrun₂).active _ hcommitted₂
  have hflip : newActive (treeMeta 1 3 1) = 0 := by decide
  have hactive : metaActive (treeMeta 1 3 1) = true := by decide
  obtain ⟨m, map, w, readers⟩ := s₂
  simp only [oneReader, hflip] at hmeta hreaders hw
  subst hmeta hw hreaders
  rw [hactive] at hmap
  obtain ⟨tr', s', hrun', hwatch, hquiet, hdone⟩ := overwritten_run hrun₂ hmap
  rw [hcommitted₂] at hwatch
  have hbad : (50 : U64) = committedPrediction (some (splitTree 10 20)) {} :=
    hclaim tr' s' () _ _ _ hrun' hwatch hquiet hdone
  exact absurd hbad (by decide)

end ScxMlfq
