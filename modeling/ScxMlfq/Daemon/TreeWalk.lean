import ScxMlfq.Daemon.MlfqTree

/-!
# Daemon — TreeWalk

The two walks on a tree the validator accepts. The validator bounds the
shortest way to each node; a walk follows the way its tests choose,
which may be longer where nodes share children. The walks part from
their leaves exactly on the trees that have an internal node behind
twelve turns whose tests some feature vector passes.
-/

namespace ScxMlfq

/-- The walk stopped at a live leaf within the walk bound and returned
its value. -/
def StopsAtLeaf (tree : SerializedTree) (w : Walk) : Prop :=
  ∃ edges idx, w.exit = .leaf edges idx ∧ edges ≤ mlfqTreeMaxDepth ∧ idx < tree.nr
    ∧ (tree.node idx).right = 0 ∧ w.value = (tree.node idx).left.setWidth 64

/-! ## One walk for both -/

theorem SerializedTree.WellFormed.maskIdx {tree : SerializedTree} (h : tree.WellFormed)
    {idx : U32} (hidx : idx.toNat < tree.nr) : (maskIdx idx : Nat) = idx.toNat := by
  rw [maskIdx_val]
  exact Nat.mod_eq_of_lt (Nat.lt_of_lt_of_le hidx h.bounded)

/-- On a live index the padded store reads the tree. -/
theorem SerializedTree.WellFormed.store {tree : SerializedTree} (h : tree.WellFormed)
    {idx : U32} (hidx : idx.toNat < tree.nr) :
    (MlfqTreeStore.ofNodes tree.nodes).nodes (ScxMlfq.maskIdx idx) = tree.node idx.toNat := by
  rw [MlfqTreeStore.ofNodes, SerializedTree.node]
  simp only [h.maskIdx hidx]

/-- A split of a well-formed node reads the slot its feature names. -/
theorem NodeOk.mask {tree : SerializedTree} {i : Nat} (h : NodeOk tree i) :
    ((tree.node i).feature &&& 0xF).toNat = (tree.node i).feature.toNat := by
  have hlt := h.feature
  have hpow : (tree.node i).feature.toNat &&& 15 = (tree.node i).feature.toNat % 16 :=
    Nat.and_two_pow_sub_one_eq_mod _ 4
  rw [BitVec.toNat_and]
  show (tree.node i).feature.toNat &&& 15 = _
  rw [hpow]
  exact Nat.mod_eq_of_lt (Nat.lt_trans hlt (by decide))

/-- The child a feature vector turns to. -/
def turn (tree : SerializedTree) (i : Nat) (f : TreeFeats) : U32 :=
  let node := tree.node i
  if featSlot f node.feature.toNat ≤ node.threshold then node.left else node.right

theorem NodeOk.turn {tree : SerializedTree} {i : Nat} (h : NodeOk tree i) (f : TreeFeats) :
    i < (turn tree i f).toNat ∧ (turn tree i f).toNat < tree.nr := by
  simp only [ScxMlfq.turn]
  split
  · exact h.left
  · exact h.right

/-- The steps of the daemon's walk on a live index of a well-formed
tree. -/
theorem predictFrom_internal {tree : SerializedTree} (h : tree.WellFormed) {i fuel : Nat}
    (hi : i < tree.nr) (hnode : (tree.node i).right ≠ 0) (f : TreeFeats) :
    predictFrom tree f (fuel + 1) i = predictFrom tree f fuel (turn tree i f).toNat := by
  have hok := h.node i hi hnode
  rw [predictFrom, if_neg (Nat.not_le.mpr hi)]
  simp only [if_neg hnode, hok.mask]
  show predictFrom tree f fuel (maskIdx (turn tree i f)) = _
  rw [h.maskIdx (hok.turn f).2]

/-- The daemon's walk at a leaf, with any number of turns left. -/
theorem predictFrom_leaf {tree : SerializedTree} {i : Nat} (hi : i < tree.nr)
    (hleaf : (tree.node i).right = 0) (f : TreeFeats) (fuel : Nat) :
    predictFrom tree f fuel i
      = ⟨.leaf (mlfqTreeMaxDepth - fuel) i, (tree.node i).left.setWidth 64⟩ := by
  cases fuel with
  | zero =>
      rw [predictFrom, if_neg (Nat.not_le.mpr hi)]
      simp only [if_pos hleaf]
      rfl
  | succ fuel =>
      rw [predictFrom, if_neg (Nat.not_le.mpr hi)]
      simp only [if_pos hleaf]

theorem stopsAtLeaf_of_leaf {tree : SerializedTree} {i : Nat} (hi : i < tree.nr)
    (hleaf : (tree.node i).right = 0) (f : TreeFeats) (fuel : Nat) :
    StopsAtLeaf tree (predictFrom tree f fuel i) := by
  rw [predictFrom_leaf hi hleaf]
  exact ⟨_, i, rfl, Nat.sub_le _ _, hi, hleaf, rfl⟩

theorem predictFrom_exhausted {tree : SerializedTree} {i : Nat} (hi : i < tree.nr)
    (hnode : (tree.node i).right ≠ 0) (f : TreeFeats) :
    predictFrom tree f 0 i = ⟨.exhausted i, 0⟩ := by
  rw [predictFrom, if_neg (Nat.not_le.mpr hi)]
  simp only [if_neg hnode]

/-- **The two walks are one** on an accepted tree. -/
theorem walkFrom_ofNodes {tree : SerializedTree} (h : tree.WellFormed) (f : TreeFeats)
    (fuel : Nat) {idx : U32} (hidx : idx.toNat < tree.nr) :
    walkFrom (MlfqTreeStore.ofNodes tree.nodes) f fuel idx
      = predictFrom tree f fuel idx.toNat := by
  induction fuel generalizing idx with
  | zero =>
      rw [walkFrom, predictFrom, h.store hidx, h.maskIdx hidx,
        if_neg (Nat.not_le.mpr hidx)]
  | succ fuel ih =>
      rw [walkFrom, h.store hidx, h.maskIdx hidx, nodeStep]
      by_cases hleaf : (tree.node idx.toNat).right = 0
      · rw [if_pos hleaf, predictFrom_leaf hidx hleaf]
      · have hok := h.node _ hidx hleaf
        have hslot : ¬ (tree.node idx.toNat).feature.toNat ≥ mlfqTreeNrFeatures :=
          Nat.not_le.mpr hok.feature
        rw [if_neg hleaf, predictFrom_internal h hidx hleaf, ← ih (hok.turn f).2]
        simp only [hok.mask, if_neg hslot]
        rfl

/-! ## The ways of a walk -/

/-- The test a node puts to a feature vector, with its outcome. -/
def nodeTest (node : TreeNode) (right : Bool) : Thresholds.Test Nat Nat :=
  ⟨node.feature.toNat, node.threshold.toNat, right⟩

/-- A list of turns from node `i`: the tests along the way and the node
it ends at. None where the way runs past a leaf. -/
def descend (tree : SerializedTree) :
    Nat → List Bool → Option (List (Thresholds.Test Nat Nat) × Nat)
  | i, [] => some ([], i)
  | i, right :: turns =>
      let node := tree.node i
      if node.right = 0 then none
      else
        (descend tree (if right then node.right else node.left).toNat turns).map fun r =>
          (nodeTest node right :: r.1, r.2)

/-- The values of a feature vector, by slot. -/
def featValue (f : TreeFeats) (slot : Nat) : Nat := (featSlot f slot).toNat

/-- The comparison of a walk, as a test of the slot it reads. -/
theorem test_holds_iff (slot : Nat) (threshold : U64) (f : TreeFeats) (right : Bool) :
    (⟨slot, threshold.toNat, right⟩ : Thresholds.Test Nat Nat).Holds (featValue f)
      ↔ decide (¬ featSlot f slot ≤ threshold) = right := by
  have hle : featSlot f slot ≤ threshold ↔ featValue f slot ≤ threshold.toNat :=
    BitVec.le_def
  cases right with
  | true => simp [Thresholds.Test.Holds, hle]
  | false => simp [Thresholds.Test.Holds, hle]

/-- A walk turns the way its test holds. -/
theorem nodeTest_holds_iff (tree : SerializedTree) (i : Nat) (f : TreeFeats) (right : Bool) :
    (nodeTest (tree.node i) right).Holds (featValue f)
      ↔ decide (¬ featSlot f (tree.node i).feature.toNat ≤ (tree.node i).threshold)
        = right :=
  test_holds_iff ..

theorem turn_eq (tree : SerializedTree) (i : Nat) (f : TreeFeats) :
    turn tree i f
      = if decide (¬ featSlot f (tree.node i).feature.toNat ≤ (tree.node i).threshold)
        then (tree.node i).right else (tree.node i).left := by
  simp only [turn]
  by_cases hle : featSlot f (tree.node i).feature.toNat ≤ (tree.node i).threshold
  · simp [hle]
  · simp [hle]

/-- **A walk with `fuel` turns left stops at a leaf or exhausts its
turns**, and then its turns are a way to an internal node whose tests it
passed. -/
theorem predictFrom_cases {tree : SerializedTree} (h : tree.WellFormed) (f : TreeFeats)
    {fuel i : Nat} (hfuel : fuel ≤ mlfqTreeMaxDepth) (hi : i < tree.nr) :
    StopsAtLeaf tree (predictFrom tree f fuel i)
      ∨ ∃ turns tests j, turns.length = fuel ∧ descend tree i turns = some (tests, j)
        ∧ (tree.node j).right ≠ 0 ∧ ∀ t ∈ tests, t.Holds (featValue f) := by
  induction fuel generalizing i with
  | zero =>
      by_cases hleaf : (tree.node i).right = 0
      · exact Or.inl (stopsAtLeaf_of_leaf hi hleaf f 0)
      · refine Or.inr ⟨[], [], i, rfl, rfl, hleaf, ?_⟩
        intro t ht
        cases ht
  | succ fuel ih =>
      by_cases hleaf : (tree.node i).right = 0
      · exact Or.inl (stopsAtLeaf_of_leaf hi hleaf f _)
      · have hok := h.node i hi hleaf
        rw [predictFrom_internal h hi hleaf]
        rcases ih (by omega) (hok.turn f).2
          with hend | ⟨turns, tests, j, hlen, hway, hj, hts⟩
        · exact Or.inl hend
        · let right := decide
            (¬ featSlot f (tree.node i).feature.toNat ≤ (tree.node i).threshold)
          have hturn : turn tree i f
              = if right then (tree.node i).right else (tree.node i).left := turn_eq tree i f
          refine Or.inr ⟨right :: turns, nodeTest (tree.node i) right :: tests, j, ?_, ?_, hj,
            ?_⟩
          · rw [List.length_cons, hlen]
          · rw [descend]
            simp only [if_neg hleaf]
            rw [← hturn, hway]
            rfl
          · intro t ht
            rcases List.mem_cons.mp ht with rfl | hmem
            · exact (nodeTest_holds_iff tree i f right).mpr rfl
            · exact hts t hmem

/-- A walk that passes the tests of a way follows it, and exhausts its
turns on the internal node at the end. -/
theorem predictFrom_way {tree : SerializedTree} (h : tree.WellFormed) (f : TreeFeats)
    {turns : List Bool} {tests : List (Thresholds.Test Nat Nat)} {i j : Nat}
    (hi : i < tree.nr) (hway : descend tree i turns = some (tests, j))
    (hj : (tree.node j).right ≠ 0) (hts : ∀ t ∈ tests, t.Holds (featValue f)) :
    (predictFrom tree f turns.length i).exit = .exhausted j := by
  induction turns generalizing i tests with
  | nil =>
      cases hway
      rw [List.length_nil, predictFrom_exhausted hi hj]
  | cons right turns ih =>
      by_cases hleaf : (tree.node i).right = 0
      · rw [descend] at hway
        simp only [if_pos hleaf] at hway
        cases hway
      · have hok := h.node i hi hleaf
        rw [descend] at hway
        simp only [if_neg hleaf] at hway
        obtain ⟨r, hr, hcons⟩ := Option.map_eq_some_iff.mp hway
        cases hcons
        have hside := (nodeTest_holds_iff tree i f right).mp (hts _ List.mem_cons_self)
        have hturn : turn tree i f
            = if right then (tree.node i).right else (tree.node i).left := by
          rw [turn_eq, hside]
        rw [← hturn] at hr
        rw [List.length_cons, predictFrom_internal h hi hleaf]
        exact ih (hok.turn f).2 hr fun t ht => hts t (List.mem_cons_of_mem _ ht)

/-! ## Feature vectors -/

/-- The largest value of a slot: the `u64` gauges, the `u32` counters,
and the unused slots. -/
def slotTop (slot : Nat) : Nat :=
  if slot = 0 ∨ slot = 1 ∨ slot = 2 ∨ slot = 7 then 2 ^ 64 - 1
  else if slot < 10 then 2 ^ 32 - 1
  else 0

/-- A `u64` gauge in its slot. -/
theorem toNat_ofNat_gauge {n : Nat} (h : n ≤ 2 ^ 64 - 1) :
    (BitVec.ofNat 64 n).toNat = n := by
  rw [BitVec.toNat_ofNat]
  exact Nat.mod_eq_of_lt (by omega)

/-- A `u32` counter, widened into its slot. -/
theorem toNat_setWidth_counter (x : U32) : (x.setWidth 64).toNat = x.toNat := by
  rw [BitVec.toNat_setWidth]
  exact Nat.mod_eq_of_lt (Nat.lt_trans x.isLt (by decide))

theorem toNat_ofNat_counter {n : Nat} (h : n ≤ 2 ^ 32 - 1) :
    ((BitVec.ofNat 32 n).setWidth 64).toNat = n := by
  rw [toNat_setWidth_counter, BitVec.toNat_ofNat]
  exact Nat.mod_eq_of_lt (by omega)

theorem featValue_le_slotTop (f : TreeFeats) (slot : Nat) :
    featValue f slot ≤ slotTop slot := by
  have hgauge (x : U64) : x.toNat ≤ 2 ^ 64 - 1 := Nat.le_sub_one_of_lt x.isLt
  have hcounter (x : U32) : (x.setWidth 64).toNat ≤ 2 ^ 32 - 1 := by
    rw [toNat_setWidth_counter]
    exact Nat.le_sub_one_of_lt x.isLt
  match slot with
  | 0 | 1 | 2 | 7 => exact hgauge _
  | 3 | 4 | 5 | 6 | 8 | 9 => exact hcounter _
  | n + 10 => exact Nat.zero_le _

/-- Every choice of values within the slots is a feature vector. -/
theorem exists_featValue {x : Nat → Nat} (hx : ∀ slot, x slot ≤ slotTop slot) :
    ∃ f, ∀ slot, featValue f slot = x slot := by
  let f : TreeFeats := {
    prevBurstNs := BitVec.ofNat 64 (x 0)
    sleepNs := BitVec.ofNat 64 (x 1)
    ema := BitVec.ofNat 64 (x 2)
    ioWait := BitVec.ofNat 32 (x 3)
    wakeCnt := BitVec.ofNat 32 (x 4)
    wakeLatUs := BitVec.ofNat 32 (x 5)
    queueWaitUs := BitVec.ofNat 32 (x 6)
    sqEma := BitVec.ofNat 64 (x 7)
    gpuSubmit := BitVec.ofNat 32 (x 8)
    sleepVarRatio := BitVec.ofNat 32 (x 9) }
  refine ⟨f, fun slot => ?_⟩
  have hslot := hx slot
  match slot with
  | 0 | 1 | 2 | 7 => exact toNat_ofNat_gauge hslot
  | 3 | 4 | 5 | 6 | 8 | 9 => exact toNat_ofNat_counter hslot
  | n + 10 =>
      have htop : slotTop (n + 10) = 0 := by simp [slotTop]
      rw [htop] at hslot
      exact (Nat.le_zero.mp hslot).symm

/-! ## The walk bound -/

/-- An internal node behind as many turns as the walk takes, on a way
whose tests do not contradict each other. -/
def SerializedTree.DeepInternal (tree : SerializedTree) : Prop :=
  ∃ turns tests j, turns.length = mlfqTreeMaxDepth
    ∧ descend tree 0 turns = some (tests, j) ∧ (tree.node j).right ≠ 0
    ∧ Thresholds.Consistent slotTop tests

/-- **Validator soundness, and where it ends.** On a tree the validator
accepts, both walks stop at a live leaf within the bound for every
feature vector exactly when no consistent way of twelve turns ends at an
internal node. -/
theorem serializeValidate_stopsAtLeaf_iff {tree : SerializedTree}
    (h : serializeValidate tree = .ok ()) :
    (∀ f, StopsAtLeaf tree (predictWalk tree f)
        ∧ StopsAtLeaf tree (treeWalk (.ofNodes tree.nodes) f))
      ↔ ¬ tree.DeepInternal := by
  have hwf := serializeValidate_ok h
  have hroot : (0 : U32).toNat < tree.nr := hwf.nonempty
  have hsame (f : TreeFeats) :
      treeWalk (.ofNodes tree.nodes) f = predictWalk tree f :=
    walkFrom_ofNodes hwf f mlfqTreeMaxDepth hroot
  constructor
  · rintro hstop ⟨turns, tests, j, hlen, hway, hj, hts⟩
    obtain ⟨x, hx, hpass⟩ := Thresholds.exists_holds_iff.mpr hts
    obtain ⟨f, hf⟩ := exists_featValue hx
    have hvalue : featValue f = x := funext hf
    rw [← hvalue] at hpass
    have hend := predictFrom_way hwf f hwf.nonempty hway hj hpass
    obtain ⟨edges, idx, hleaf, -⟩ := (hstop f).1
    rw [predictWalk, ← hlen, hend] at hleaf
    cases hleaf
  · intro hdeep f
    rw [hsame]
    rcases predictFrom_cases hwf f (Nat.le_refl _) hwf.nonempty
      with hstop | ⟨turns, tests, j, hlen, hway, hj, hts⟩
    · exact ⟨hstop, hstop⟩
    · refine absurd ⟨turns, tests, j, hlen, hway, hj, ?_⟩ hdeep
      exact Thresholds.exists_holds_iff.mp
        ⟨featValue f, featValue_le_slotTop f, hts⟩

/-- A split on the sleep with two leaves. -/
def stump : SerializedTree where
  nodes := [{ threshold := 4000000, left := 1, right := 2, feature := 1 },
    { left := 900000 }, { left := 7000000 }]

/-- The bound on a stump: no way of twelve turns leaves its root. -/
theorem serializeValidate_stopsAtLeaf_stump :
    StopsAtLeaf stump (predictWalk stump {}) := by
  have haccepted : serializeValidate stump = .ok () := rfl
  refine ((serializeValidate_stopsAtLeaf_iff haccepted).mpr ?_ {}).1
  rintro ⟨turns, tests, j, hlen, hway, -⟩
  match turns with
  | [] => cases hlen
  | [_] => cases hlen
  | right :: right' :: turns => cases right <;> cases hway

/-- Thirteen internal nodes, each with the next two as children. The
shortest way to the last of them has six turns, the walk to the left
takes twelve. -/
def ladder : SerializedTree where
  nodes := (List.range 13).map (fun i =>
      { threshold := 0xFFFFFFFFFFFFFFFF, left := BitVec.ofNat 32 (i + 1)
        right := BitVec.ofNat 32 (i + 2) })
    ++ [{ left := 1000000 }, { left := 2000000 }]

/-- The validator accepts the ladder, and every walk on it exhausts its
turns on an internal node. -/
theorem ladder_exhausts :
    ¬ ∀ tree, serializeValidate tree = .ok () → ∀ f,
      StopsAtLeaf tree (predictWalk tree f)
        ∧ StopsAtLeaf tree (treeWalk (.ofNodes tree.nodes) f) := by
  intro hclaim
  obtain ⟨edges, idx, hleaf, -⟩ := (hclaim ladder rfl {}).1
  have hend : (predictWalk ladder {}).exit = .exhausted 12 := by decide
  rw [hend] at hleaf
  cases hleaf

end ScxMlfq
