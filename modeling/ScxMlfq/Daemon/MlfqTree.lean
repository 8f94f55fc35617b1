import ScxMlfq.Intf.Tree
import ScxMlfq.Lib.Thresholds

/-!
# Daemon — MlfqTree

The serialized tree of `src/mlfq_tree.rs`: the validation a tree must
pass before it is published, the daemon's own walk, and the meta word of
a publish.

The validator searches breadth first from the root, checks every node it
takes off the queue and gives it the depth of the shortest way to it.
-/

namespace ScxMlfq

/-- `SerializedTree`: the live nodes, index 0 the root. -/
structure SerializedTree where
  nodes : List TreeNode
deriving DecidableEq, Repr

namespace SerializedTree

/-- `tree.nodes.len()`. -/
def nr (tree : SerializedTree) : Nat := tree.nodes.length

/-- `tree.nodes[i]`. -/
def node (tree : SerializedTree) (i : Nat) : TreeNode := tree.nodes.getD i {}

end SerializedTree

/-! ## The validation -/

/-- `usize::MAX`, the depth of a node not visited yet. -/
def usizeMax : Nat := 0xFFFFFFFFFFFFFFFF

/-- The breadth-first search between two nodes. -/
structure Bfs where
  depth : List Nat
  queue : List Nat

/-- One child of node `i`. -/
def visitChild (nr i : Nat) (s : Bfs) (child : U32) : Except String Bfs :=
  let c := child.toNat
  if c ≥ nr then .error s!"node {i} child index {c} is out of range (nr_nodes {nr})"
  else if c ≤ i then
    .error s!"node {i} child index {c} precedes its parent, the BFS order is violated"
  else if s.depth.getD c 0 = usizeMax then
    .ok { depth := s.depth.set c (s.depth.getD i 0 + 1), queue := s.queue ++ [c] }
  else .ok s

/-- One node taken off the queue. -/
def visitNode (tree : SerializedTree) (i : Nat) (s : Bfs) : Except String Bfs :=
  let node := tree.node i
  if node.right = 0 then .ok s
  else if node.feature ≥ BitVec.ofNat 8 mlfqTreeNrFeatures then
    .error (s!"node {i} splits on feature {node.feature.toNat} beyond the " ++
      s!"{mlfqTreeNrFeatures} populated slots")
  else if s.depth.getD i 0 ≥ mlfqTreeMaxDepth then
    .error (s!"node {i} at depth {s.depth.getD i 0} is an internal node at or beyond " ++
      s!"the walk bound {mlfqTreeMaxDepth}")
  else
    match visitChild tree.nr i s node.left with
    | .error e => .error e
    | .ok s => visitChild tree.nr i s node.right

/-- The search, `fuel` nodes at most. -/
def bfs (tree : SerializedTree) : Nat → Bfs → Except String Bfs
  | 0, s => .ok s
  | fuel + 1, s =>
      match s.queue with
      | [] => .ok s
      | i :: queue =>
          match visitNode tree i { s with queue := queue } with
          | .error e => .error e
          | .ok s => bfs tree fuel s

/-- The pass over the depths, from node `i` on. -/
def checkDepths : Nat → List Nat → Except String Unit
  | _, [] => .ok ()
  | i, d :: ds =>
      if d > mlfqTreeMaxDepth then
        .error s!"node {i} sits at depth {d}, beyond the walk bound {mlfqTreeMaxDepth}"
      else if d = usizeMax then
        .error s!"node {i} is not reachable from the root, the layout is not a tree"
      else checkDepths (i + 1) ds

/-- The search from the root. Each node is queued at most once, so as
many steps as nodes empty the queue. -/
def bfsStart (tree : SerializedTree) : Bfs where
  depth := (List.replicate tree.nr usizeMax).set 0 0
  queue := [0]

/-- `serialize_validate`. -/
def serializeValidate (tree : SerializedTree) : Except String Unit :=
  if tree.nr < 1 then .error "empty tree: the root node is required"
  else if tree.nr > mlfqTreeMaxNodes then
    .error s!"{tree.nr} nodes exceed the store bound {mlfqTreeMaxNodes}"
  else
    match bfs tree tree.nr (bfsStart tree) with
    | .error e => .error e
    | .ok s => checkDepths 0 s.depth

/-! ## The daemon's walk -/

/-- The loop of `predict` with `fuel` iterations left; at none left, the
return after the loop. -/
def predictFrom (tree : SerializedTree) (f : TreeFeats) : Nat → Nat → Walk
  | 0, idx =>
      if idx ≥ tree.nr then ⟨.tail idx, 0⟩
      else
        let node := tree.node idx
        if node.right = 0 then ⟨.leaf mlfqTreeMaxDepth idx, node.left.setWidth 64⟩
        else ⟨.exhausted idx, 0⟩
  | fuel + 1, idx =>
      if idx ≥ tree.nr then ⟨.tail idx, 0⟩
      else
        let node := tree.node idx
        if node.right = 0 then
          ⟨.leaf (mlfqTreeMaxDepth - (fuel + 1)) idx, node.left.setWidth 64⟩
        else
          let feature := (node.feature &&& 0xF).toNat
          let next := if featSlot f feature ≤ node.threshold then node.left else node.right
          predictFrom tree f fuel (maskIdx next)

/-- `predict`, with its exit. The first test of the loop answers an
empty tree as the test before the loop does. -/
def predictWalk (tree : SerializedTree) (f : TreeFeats) : Walk :=
  predictFrom tree f mlfqTreeMaxDepth 0

/-- `predict`. -/
def predict (tree : SerializedTree) (f : TreeFeats) : U64 := (predictWalk tree f).value

/-- `tree_meta`. -/
def treeMeta (generation : U64) (nrNodes : Nat) (active : U64) : U64 :=
  ((generation &&& 0xFFFFFFFF) <<< mlfqTreeMetaGenerationShift)
    ||| (BitVec.ofNat 64 nrNodes <<< mlfqTreeMetaNrNodesShift)
    ||| ((active &&& 1) <<< 1)
    ||| mlfqTreeMetaTrained

/-! ## What an accepted tree looks like -/

/-- What the search checks of a node. -/
structure NodeOk (tree : SerializedTree) (i : Nat) : Prop where
  feature : (tree.node i).feature.toNat < mlfqTreeNrFeatures
  left : i < (tree.node i).left.toNat ∧ (tree.node i).left.toNat < tree.nr
  right : i < (tree.node i).right.toNat ∧ (tree.node i).right.toNat < tree.nr

/-- Every internal node splits on a populated slot and has both children
behind it. -/
structure SerializedTree.WellFormed (tree : SerializedTree) : Prop where
  nonempty : 0 < tree.nr
  bounded : tree.nr ≤ mlfqTreeMaxNodes
  node : ∀ i, i < tree.nr → (tree.node i).right ≠ 0 → NodeOk tree i

namespace Bfs

/-- What a part of the search does to its state: nothing leaves the
queue, every newly visited node enters it, and a visit uses up an
unvisited node for each place in the queue. -/
structure Grows (s s' : Bfs) : Prop where
  length : s'.depth.length = s.depth.length
  pending : s'.depth.count usizeMax + s'.queue.length
    ≤ s.depth.count usizeMax + s.queue.length
  queue : ∀ j ∈ s.queue, j ∈ s'.queue
  visited : ∀ j, s'.depth.getD j 0 ≠ usizeMax →
    s.depth.getD j 0 ≠ usizeMax ∨ j ∈ s'.queue

theorem Grows.refl (s : Bfs) : Grows s s :=
  ⟨rfl, Nat.le_refl _, fun _ h => h, fun _ h => Or.inl h⟩

theorem Grows.trans {s s' s'' : Bfs} (h : Grows s s') (k : Grows s' s'') : Grows s s'' := by
  refine ⟨k.length.trans h.length, Nat.le_trans k.pending h.pending,
    fun j hj => k.queue j (h.queue j hj), fun j hj => ?_⟩
  rcases k.visited j hj with hold | hnew
  · rcases h.visited j hold with hold | hnew
    · exact Or.inl hold
    · exact Or.inr (k.queue j hnew)
  · exact Or.inr hnew

end Bfs

theorem getD_set {l : List Nat} {c : Nat} (hc : c < l.length) (d j : Nat) :
    (l.set c d).getD j 0 = if c = j then d else l.getD j 0 := by
  rw [List.getD_eq_getElem?_getD, List.getElem?_set]
  by_cases h : c = j
  · rw [if_pos h, if_pos h, if_pos hc]
    rfl
  · rw [if_neg h, if_neg h, List.getD_eq_getElem?_getD]

/-- The visit of a new node moves it from the unvisited to the queue. -/
theorem Bfs.grows_visit {s : Bfs} {c d : Nat} (hc : c < s.depth.length)
    (hnew : s.depth.getD c 0 = usizeMax) (hd : d < usizeMax) :
    s.Grows { depth := s.depth.set c d, queue := s.queue ++ [c] } := by
  refine ⟨List.length_set, ?_, fun j hj => List.mem_append_left _ hj, fun j hj => ?_⟩
  · have hget : s.depth[c] = usizeMax := by
      rw [← hnew, List.getD_eq_getElem?_getD, List.getElem?_eq_getElem hc]
      rfl
    have hone : 1 ≤ s.depth.count usizeMax :=
      List.count_pos_iff.mpr (hget ▸ List.getElem_mem hc)
    have hne : (d == usizeMax) = false := by
      rw [beq_eq_false_iff_ne]
      omega
    simp only [List.count_set hc, hget, hne, beq_self_eq_true, if_true, Bool.false_eq_true,
      if_false, List.length_append, List.length_singleton]
    omega
  · rw [getD_set hc] at hj
    split at hj
    · rename_i hcj
      exact Or.inr (List.mem_append_right _ (List.mem_singleton.mpr hcj.symm))
    · exact Or.inl hj

/-- A child passes when it is in range and behind its parent. -/
theorem visitChild_ok {nr i : Nat} {s s' : Bfs} {child : U32}
    (h : visitChild nr i s child = .ok s') (hlen : s.depth.length = nr)
    (hdepth : s.depth.getD i 0 < mlfqTreeMaxDepth) :
    (i < child.toNat ∧ child.toNat < nr) ∧ s.Grows s'
      ∧ s'.depth.getD i 0 = s.depth.getD i 0 := by
  simp only [visitChild] at h
  split at h
  · cases h
  · rename_i hrange
    split at h
    · cases h
    · rename_i horder
      refine ⟨⟨by omega, by omega⟩, ?_⟩
      split at h
      · rename_i hnew
        cases h
        have hc : child.toNat < s.depth.length := by omega
        have hmax : mlfqTreeMaxDepth + 1 < usizeMax := by decide
        refine ⟨Bfs.grows_visit hc hnew (by omega), ?_⟩
        rw [getD_set hc, if_neg (by omega)]
      · cases h
        exact ⟨.refl s, rfl⟩

/-- A node passes when it is a leaf or its split is in order. -/
theorem visitNode_ok {tree : SerializedTree} {i : Nat} {s s' : Bfs}
    (h : visitNode tree i s = .ok s') (hlen : s.depth.length = tree.nr) :
    s.Grows s' ∧ ((tree.node i).right ≠ 0 → NodeOk tree i) := by
  simp only [visitNode] at h
  split at h
  · rename_i hleaf
    cases h
    exact ⟨.refl s, fun hne => absurd hleaf hne⟩
  · split at h
    · cases h
    · rename_i hfeature
      split at h
      · cases h
      · rename_i hdepth
        split at h
        · cases h
        · rename_i s₁ hleft
          obtain ⟨hl, hgrow, hsame⟩ := visitChild_ok hleft hlen (by omega)
          obtain ⟨hr, hgrow', -⟩ := visitChild_ok h (hgrow.length.trans hlen) (by omega)
          have hslot : (tree.node i).feature.toNat < mlfqTreeNrFeatures :=
            BitVec.lt_def.mp (BitVec.not_le.mp hfeature)
          exact ⟨hgrow.trans hgrow', fun _ => ⟨hslot, hl, hr⟩⟩

/-- What the search has established: a visited node is queued or was
checked, and the steps left are enough for what is pending. -/
structure BfsInv (tree : SerializedTree) (fuel : Nat) (s : Bfs) : Prop where
  length : s.depth.length = tree.nr
  pending : s.depth.count usizeMax + s.queue.length ≤ fuel
  visited : ∀ i, s.depth.getD i 0 ≠ usizeMax →
    i ∈ s.queue ∨ ((tree.node i).right ≠ 0 → NodeOk tree i)

/-- One step of the search. -/
theorem BfsInv.step {tree : SerializedTree} {fuel i : Nat} {s s' : Bfs} {queue : List Nat}
    (h : BfsInv tree (fuel + 1) s) (hq : s.queue = i :: queue)
    (hs : visitNode tree i { s with queue := queue } = .ok s') : BfsInv tree fuel s' := by
  obtain ⟨hgrow, hok⟩ := visitNode_ok hs h.length
  refine ⟨hgrow.length.trans h.length, ?_, fun j hj => ?_⟩
  · have hpop := h.pending
    rw [hq, List.length_cons] at hpop
    exact Nat.le_trans hgrow.pending (by simp only; omega)
  · rcases hgrow.visited j hj with hold | hnew
    · rcases h.visited j hold with hmem | hchecked
      · rw [hq] at hmem
        rcases List.mem_cons.mp hmem with rfl | hrest
        · exact Or.inr hok
        · exact Or.inl (hgrow.queue j hrest)
      · exact Or.inr hchecked
    · exact Or.inl hnew

/-- **The search ends with an empty queue**, so every visited node was
checked. -/
theorem bfs_ok {tree : SerializedTree} {fuel : Nat} {s s' : Bfs} (h : BfsInv tree fuel s)
    (hs : bfs tree fuel s = .ok s') :
    s'.queue = [] ∧ s'.depth.length = tree.nr ∧ ∀ i, s'.depth.getD i 0 ≠ usizeMax →
      (tree.node i).right ≠ 0 → NodeOk tree i := by
  have hdone {s : Bfs} {fuel : Nat} (h : BfsInv tree fuel s) (hq : s.queue = []) :
      s.queue = [] ∧ s.depth.length = tree.nr ∧ ∀ i, s.depth.getD i 0 ≠ usizeMax →
        (tree.node i).right ≠ 0 → NodeOk tree i := by
    refine ⟨hq, h.length, fun i hi => ?_⟩
    rcases h.visited i hi with hmem | hchecked
    · rw [hq] at hmem
      cases hmem
    · exact hchecked
  induction fuel generalizing s with
  | zero =>
      cases hs
      exact hdone h (List.length_eq_zero_iff.mp (by have := h.pending; omega))
  | succ fuel ih =>
      rw [bfs] at hs
      split at hs
      · rename_i hq
        cases hs
        exact hdone h hq
      · rename_i i queue hq
        split at hs
        · cases hs
        · rename_i s₁ hnode
          exact ih (h.step hq hnode) hs

theorem bfsStart_inv {tree : SerializedTree} (h : 0 < tree.nr) :
    BfsInv tree tree.nr (bfsStart tree) := by
  have hlen : 0 < (List.replicate tree.nr usizeMax).length := by simpa using h
  refine ⟨by simp [bfsStart], ?_, fun i hi => ?_⟩
  · have hroot : (0 == usizeMax) = false := by decide
    simp only [bfsStart, List.count_set hlen, List.count_replicate_self,
      List.getElem_replicate, beq_self_eq_true, if_true, hroot, Bool.false_eq_true, if_false,
      List.length_singleton]
    omega
  · by_cases hi0 : 0 = i
    · exact Or.inl (List.mem_singleton.mpr hi0.symm)
    · rw [bfsStart, getD_set hlen, if_neg hi0] at hi
      by_cases hlt : i < tree.nr
      · simp [List.getD_eq_getElem?_getD, hlt] at hi
      · refine Or.inr fun hne => absurd ?_ hne
        rw [SerializedTree.node, List.getD_eq_getElem?_getD,
          List.getElem?_eq_none (Nat.not_lt.mp hlt)]
        rfl

/-- The pass over the depths leaves no node unvisited. -/
theorem checkDepths_ok {ds : List Nat} {i : Nat} (h : checkDepths i ds = .ok ()) :
    ∀ d ∈ ds, d ≤ mlfqTreeMaxDepth := by
  induction ds generalizing i with
  | nil =>
      intro d hd
      cases hd
  | cons d ds ih =>
      rw [checkDepths] at h
      split at h
      · cases h
      · rename_i hd
        split at h
        · cases h
        · intro d' hd'
          rcases List.mem_cons.mp hd' with rfl | hmem
          · exact Nat.not_lt.mp hd
          · exact ih h d' hmem

/-- **What the validator accepts is well formed.** -/
theorem serializeValidate_ok {tree : SerializedTree} (h : serializeValidate tree = .ok ()) :
    tree.WellFormed := by
  rw [serializeValidate] at h
  split at h
  · cases h
  · rename_i hne
    split at h
    · cases h
    · rename_i hbound
      split at h
      · cases h
      · rename_i s hs
        obtain ⟨-, hlen, hchecked⟩ := bfs_ok (bfsStart_inv (by omega)) hs
        refine ⟨by omega, by omega, fun i hi => hchecked i ?_⟩
        have hget : s.depth.getD i 0 ∈ s.depth := by
          have hi' : i < s.depth.length := by omega
          rw [List.getD_eq_getElem?_getD, List.getElem?_eq_getElem hi']
          exact List.getElem_mem hi'
        have hdepth := checkDepths_ok h _ hget
        have hmax : mlfqTreeMaxDepth < usizeMax := by decide
        omega

end ScxMlfq
