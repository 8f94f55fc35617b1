import ScxMlfq.Intf.Types

/-!
# Intf — Tree

The serialized regression tree of `src/bpf/intf.h`: the node, one
buffer of the double-buffered map, the masked and depth-capped walk, and
the prediction entry point behind the committed meta word.

The walk returns a `Walk`: the predicted value together with the exit
it left through. The value is what the source returns; the exit names
the `return` statement that returned it.
-/

namespace ScxMlfq

/-- `struct mlfq_tree_node`. The default is the zeroed node, a leaf
predicting 0. -/
structure TreeNode where
  threshold : U64 := 0
  left : U32 := 0
  right : U32 := 0
  feature : U8 := 0
deriving DecidableEq, Repr, Inhabited

/-- `struct mlfq_tree_store`: one buffer of the published tree. -/
structure MlfqTreeStore where
  nodes : Fin mlfqTreeMaxNodes → TreeNode

/-- The buffer a publish writes: the live nodes, then zeroed nodes. -/
def MlfqTreeStore.ofNodes (nodes : List TreeNode) : MlfqTreeStore where
  nodes i := nodes.getD i {}

/-- The walk's `feat[16]` array. -/
def featSlot (f : TreeFeats) : Nat → U64
  | 0 => f.prevBurstNs
  | 1 => f.sleepNs
  | 2 => f.ema
  | 3 => f.ioWait.setWidth 64
  | 4 => f.wakeCnt.setWidth 64
  | 5 => f.wakeLatUs.setWidth 64
  | 6 => f.queueWaitUs.setWidth 64
  | 7 => f.sqEma
  | 8 => f.gpuSubmit.setWidth 64
  | 9 => f.sleepVarRatio.setWidth 64
  | _ => 0

/-- `idx & (MLFQ_TREE_MAX_NODES - 1)`, as an index into the buffer. -/
def maskIdx (idx : U32) : Fin mlfqTreeMaxNodes :=
  ⟨(idx &&& 2047).toNat, by
    rw [BitVec.toNat_and]
    exact Nat.lt_of_le_of_lt Nat.and_le_right (by decide)⟩

theorem maskIdx_val (idx : U32) :
    (maskIdx idx : Nat) = idx.toNat % mlfqTreeMaxNodes := by
  simp only [maskIdx, BitVec.toNat_and]
  exact Nat.and_two_pow_sub_one_eq_mod idx.toNat 11

/-! ## The walk -/

/-- The way a walk ends. `edges` counts the child links followed. -/
inductive WalkExit where
  /-- At a node with `right == 0`. -/
  | leaf (edges idx : Nat)
  /-- Depth exhausted on an internal node. -/
  | exhausted (idx : Nat)
  /-- Past the live nodes of an unpadded tree. -/
  | tail (idx : Nat)
  /-- At an internal node with a split feature out of range. -/
  | badFeature (idx : Nat)
deriving DecidableEq, Repr

/-- The result of a walk. -/
structure Walk where
  exit : WalkExit
  value : U64
deriving DecidableEq, Repr

/-- What one node decides for a feature vector. -/
inductive NodeStep where
  | leaf (pred : U64)
  | badFeature
  | child (idx : U32)
deriving DecidableEq, Repr

/-- One iteration of `mlfq_tree_walk`, on the node it read. -/
def nodeStep (f : TreeFeats) (n : TreeNode) : NodeStep :=
  if n.right = 0 then .leaf (n.left.setWidth 64)
  else
    let feature := (n.feature &&& 0xF).toNat
    if feature ≥ mlfqTreeNrFeatures then .badFeature
    else .child (if featSlot f feature ≤ n.threshold then n.left else n.right)

/-- The loop of `mlfq_tree_walk` with `fuel` iterations left; at none
left, the return after the loop. -/
def walkFrom (store : MlfqTreeStore) (f : TreeFeats) : Nat → U32 → Walk
  | 0, idx =>
      let n := store.nodes (maskIdx idx)
      if n.right = 0
      then ⟨.leaf mlfqTreeMaxDepth (maskIdx idx), n.left.setWidth 64⟩
      else ⟨.exhausted (maskIdx idx), 0⟩
  | fuel + 1, idx =>
      match nodeStep f (store.nodes (maskIdx idx)) with
      | .leaf pred => ⟨.leaf (mlfqTreeMaxDepth - (fuel + 1)) (maskIdx idx), pred⟩
      | .badFeature => ⟨.badFeature (maskIdx idx), 0⟩
      | .child c => walkFrom store f fuel c

/-- `mlfq_tree_walk`, with its exit. -/
def treeWalk (store : MlfqTreeStore) (f : TreeFeats) : Walk :=
  walkFrom store f mlfqTreeMaxDepth 0

/-- `mlfq_tree_walk`. -/
def mlfqTreeWalk (store : MlfqTreeStore) (f : TreeFeats) : U64 :=
  (treeWalk store f).value

/-! ## The committed meta word -/

def mlfqTreeMetaTrained : U64 := 1
def mlfqTreeMetaActive : U64 := 2
def mlfqTreeMetaNrNodesShift : Nat := 8
def mlfqTreeMetaGenerationShift : Nat := 32

/-- The trained bit of a meta word. -/
def metaTrained (word : U64) : Bool := decide (word &&& mlfqTreeMetaTrained ≠ 0)

/-- The map entry a meta word selects: `(meta & ACTIVE) ? 1 : 0`. -/
def metaActive (word : U64) : Bool := decide (word &&& mlfqTreeMetaActive ≠ 0)

/-- `mlfq_tree_predict`, with the meta word it loads and the two-entry
map. The lookup of a two-entry array under key 0 or 1 cannot fail. -/
def mlfqTreePredict (ctrlMeta : U64) (map : Bool → MlfqTreeStore)
    (f : TreeFeats) : U64 :=
  if metaTrained ctrlMeta = false then 0
  else mlfqTreeWalk (map (metaActive ctrlMeta)) f

end ScxMlfq
