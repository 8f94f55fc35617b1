import Mathlib.Data.List.GetD
import ScxMlfq.Bpf.Lifecycle
import ScxMlfq.Daemon.Encoding
import ScxMlfq.Daemon.MlfqTree
import ScxMlfq.Lib.Layout

/-!
# Daemon — Record

The bytes the daemon and the scheduler exchange: the samples in the ring
buffer, the nodes of a published tree and the CPU bitmaps in the maps.
Both sides are compiled from `src/bpf/intf.h` and lay the structures out
alike, in the byte order of the host.
-/

namespace ScxMlfq

section
variable (order : ByteOrder)

def u64Layout : Layout U64 := .word order 8 rfl

def u32Layout : Layout U32 := .word order 4 rfl

/-- `struct mlfq_tree_feats`. The captures write its two explicit pads as
zero, and nothing reads them. -/
def featsLayout : Layout TreeFeats :=
  let u64 := u64Layout order
  let u32 := u32Layout order
  Layout.coded
    (u64.seq (u64.seq (u64.seq (u32.seq (u32.seq (u32.seq (u32.seq (u64.seq (u32.seq
      ((Layout.pad 4).seq (u32.seq (Layout.pad 4))))))))))))
    (fun f => (f.prevBurstNs, f.sleepNs, f.ema, f.ioWait, f.wakeCnt, f.wakeLatUs, f.queueWaitUs,
      f.sqEma, f.sleepVarRatio, (), f.gpuSubmit, ()))
    (fun x =>
      { prevBurstNs := x.1, sleepNs := x.2.1, ema := x.2.2.1, ioWait := x.2.2.2.1
        wakeCnt := x.2.2.2.2.1, wakeLatUs := x.2.2.2.2.2.1, queueWaitUs := x.2.2.2.2.2.2.1
        sqEma := x.2.2.2.2.2.2.2.1, sleepVarRatio := x.2.2.2.2.2.2.2.2.1
        gpuSubmit := x.2.2.2.2.2.2.2.2.2.2.1 })
    fun _ => rfl

/-- The fields of `struct mlfq_tree_sample` in memory, `packed`. -/
def sampleLayout : Layout (U32 × U32 × TreeFeats × U64 × U32) :=
  (u32Layout order).seq ((u32Layout order).seq
    ((featsLayout order).seq ((u64Layout order).seq (u32Layout order))))

/-- `struct mlfq_tree_node`, its padding zeroed. -/
def nodeLayout : Layout TreeNode :=
  Layout.coded
    ((u64Layout order).seq ((u32Layout order).seq ((u32Layout order).seq
      ((Layout.word order 1 rfl).seq (Layout.pad 7)))))
    (fun n => (n.threshold, n.left, n.right, n.feature, ()))
    (fun x => { threshold := x.1, left := x.2.1, right := x.2.2.1, feature := x.2.2.2.1 })
    fun _ => rfl

/-- `struct mlfq_tree_store`. -/
def storeLayout : Layout MlfqTreeStore :=
  ((nodeLayout order).array mlfqTreeMaxNodes).coded MlfqTreeStore.nodes MlfqTreeStore.mk
    fun _ => rfl

/-- The words of `struct mlfq_bitmap`, of which there are
`MLFQ_BITMAP_WORDS`. -/
def bitmapLayout : Layout (Fin 16 → U64) := (u64Layout order).array 16

/-! ## The ring buffer -/

/-- The record `mlfq_stopping` submits. -/
def sampleBytes (s : TreeSample) : List Byte :=
  (sampleLayout order).write (BitVec.ofNat 32 s.pid, s.queue, s.feats, s.labelNs, s.version)

/-- `read_unaligned` of a `TreeSample`. -/
def readSample (data : List Byte) : TreeSample :=
  let x := (sampleLayout order).read data
  { pid := x.1.toNat, queue := x.2.1, feats := x.2.2.1, labelNs := x.2.2.2.1
    version := x.2.2.2.2 }

/-- `sample_version_matches`. -/
def sampleVersionMatches (s : TreeSample) : Bool := decide (s.version = mlfqTreeSampleVersion)

/-- What the ring-buffer callback forwards of a record. -/
def parseRecord (data : List Byte) : Option TreeSample :=
  if data.length < (sampleLayout order).size then none
  else
    let s := readSample order data
    if sampleVersionMatches s = false then none else some s

/-! ## The map values -/

/-- The buffer `publish_tree` writes: the node bytes at the front of a
zeroed value. A slice behind the end panics. -/
def publishBuf (tree : SerializedTree) : Option (List Byte) :=
  let nodeBytes := (nodeLayout order).writeList tree.nodes
  let buf := List.replicate (storeLayout order).size (0 : Byte)
  if nodeBytes.length ≤ buf.length then some (nodeBytes ++ buf.drop nodeBytes.length) else none

/-- The bytes of `write_bitmap_value`. -/
def bitmapBytes (bm : Bitmap) : List Byte := (bitmapLayout order).write fun i => bm.words i

/-- The bitmap behind the bytes of a map value. -/
def readBitmap (data : List Byte) : Bitmap where
  words i := if h : i < 16 then (bitmapLayout order).read data ⟨i, h⟩ else 0

end

/-! ## The samples -/

theorem sampleLayout_size (order : ByteOrder) : (sampleLayout order).size = 84 := rfl

theorem nodeLayout_size (order : ByteOrder) : (nodeLayout order).size = 24 := rfl

theorem length_sampleBytes (order : ByteOrder) (s : TreeSample) :
    (sampleBytes order s).length = 84 := (sampleLayout order).size_write _

/-- A record is read back, whatever lies behind it. -/
theorem readSample_sampleBytes (order : ByteOrder) {s : TreeSample} (h : s.pid < 2 ^ 32)
    (rest : List Byte) : readSample order (sampleBytes order s ++ rest) = s := by
  have hpid : (BitVec.ofNat 32 s.pid).toNat = s.pid := by
    rw [BitVec.toNat_ofNat, Nat.mod_eq_of_lt h]
  rw [readSample, sampleBytes, (sampleLayout order).read_write]
  simp only [hpid]

theorem readSample_pid_lt (order : ByteOrder) (data : List Byte) :
    (readSample order data).pid < 2 ^ 32 := BitVec.isLt _

/-- What the callback forwards. -/
theorem parseRecord_eq_some {order : ByteOrder} {data : List Byte} {s : TreeSample} :
    parseRecord order data = some s
      ↔ 84 ≤ data.length ∧ readSample order data = s ∧ s.version = mlfqTreeSampleVersion := by
  rw [parseRecord, sampleLayout_size]
  by_cases hlen : data.length < 84
  · rw [if_pos hlen]
    exact iff_of_false (by simp) fun h => absurd h.1 (Nat.not_le.mpr hlen)
  · rw [if_neg hlen]
    by_cases hversion : sampleVersionMatches (readSample order data) = false
    · rw [if_pos hversion]
      refine iff_of_false (by simp) fun h => ?_
      rw [h.2.1, sampleVersionMatches, decide_eq_false_iff_not] at hversion
      exact hversion h.2.2
    · rw [if_neg hversion, Option.some.injEq]
      rw [Bool.not_eq_false, sampleVersionMatches, decide_eq_true_eq] at hversion
      constructor
      · intro heq
        rw [← heq]
        exact ⟨Nat.not_lt.mp hlen, rfl, hversion⟩
      · exact fun h => h.2.1

/-- The fields of a sample at the offsets both sides pin: behind the first
eight bytes those of its features. -/
structure SampleAt (order : ByteOrder) (data : List Byte) (s : TreeSample) : Prop where
  pid : s.pid = ((u32Layout order).read data).toNat
  queue : s.queue = (u32Layout order).read (data.drop 4)
  prevBurstNs : s.feats.prevBurstNs = (u64Layout order).read (data.drop (8 + 0))
  sleepNs : s.feats.sleepNs = (u64Layout order).read (data.drop (8 + 8))
  ema : s.feats.ema = (u64Layout order).read (data.drop (8 + 16))
  ioWait : s.feats.ioWait = (u32Layout order).read (data.drop (8 + 24))
  wakeCnt : s.feats.wakeCnt = (u32Layout order).read (data.drop (8 + 28))
  wakeLatUs : s.feats.wakeLatUs = (u32Layout order).read (data.drop (8 + 32))
  queueWaitUs : s.feats.queueWaitUs = (u32Layout order).read (data.drop (8 + 36))
  sqEma : s.feats.sqEma = (u64Layout order).read (data.drop (8 + 40))
  sleepVarRatio : s.feats.sleepVarRatio = (u32Layout order).read (data.drop (8 + 48))
  gpuSubmit : s.feats.gpuSubmit = (u32Layout order).read (data.drop (8 + 56))
  labelNs : s.labelNs = (u64Layout order).read (data.drop 72)
  version : s.version = (u32Layout order).read (data.drop 80)

theorem readSample_offsets (order : ByteOrder) (data : List Byte) :
    SampleAt order data (readSample order data) := by
  have hdrop (i j : Nat) : (data.drop i).drop j = data.drop (i + j) := List.drop_drop
  constructor <;> simp only [readSample, sampleLayout, featsLayout, Layout.seq, Layout.coded, hdrop]
    <;> rfl

/-- The bytes of the features but for the two pads. -/
def featsCarried (i : Nat) : Bool := decide (i < 52) || decide (56 ≤ i ∧ i < 60)

theorem carries_featsLayout (order : ByteOrder) : (featsLayout order).Carries featsCarried := by
  have h64 : (u64Layout order).Carries fun _ => true := Layout.carries_word order 8 rfl
  have h32 : (u32Layout order).Carries fun _ => true := Layout.carries_word order 4 rfl
  have hpad := Layout.carries_pad 4
  refine Layout.Carries.mono (Layout.Carries.coded (h64.seq (h64.seq (h64.seq (h32.seq (h32.seq
    (h32.seq (h32.seq (h64.seq (h32.seq (hpad.seq (h32.seq hpad))))))))))) _ fun _ => rfl) ?_
  cases order <;> decide

/-- The bytes of a record but for the pads of its features. -/
def sampleCarried (i : Nat) : Bool := decide (i < 60) || decide (64 ≤ i ∧ i < 68) || decide (72 ≤ i)

theorem carries_sampleLayout (order : ByteOrder) :
    (sampleLayout order).Carries sampleCarried := by
  have h64 : (u64Layout order).Carries fun _ => true := Layout.carries_word order 8 rfl
  have h32 : (u32Layout order).Carries fun _ => true := Layout.carries_word order 4 rfl
  refine (h32.seq (h32.seq ((carries_featsLayout order).seq (h64.seq h32)))).mono ?_
  cases order <;> decide

/-- **Outside the pads a record is the encoding of what is read from
it.** -/
theorem sampleBytes_readSample (order : ByteOrder) {data : List Byte} (hlen : 84 ≤ data.length)
    {i : Nat} (hi : i < 84) (hcarried : sampleCarried i = true) :
    (sampleBytes order (readSample order data))[i]? = data[i]? := by
  have hcoded : sampleBytes order (readSample order data)
      = (sampleLayout order).write ((sampleLayout order).read data) := by
    simp only [sampleBytes, readSample, BitVec.ofNat_toNat, BitVec.setWidth_eq]
  rw [hcoded]
  exact carries_sampleLayout order data hlen i hi hcarried

/-- **The sample records.** A record of the current version is read back
as the sample that was submitted, whatever lies behind it and in either
byte order; a record that is short or of another version is dropped; and
a record that is accepted has the fields of its sample at their offsets,
and is the encoding of that sample but for the two pads. -/
theorem parseRecord_roundtrip (order : ByteOrder) :
    (∀ s : TreeSample, s.pid < 2 ^ 32 → ∀ rest, parseRecord order (sampleBytes order s ++ rest)
      = if s.version = mlfqTreeSampleVersion then some s else none)
    ∧ (∀ data, data.length < 84 → parseRecord order data = none)
    ∧ (∀ data s, parseRecord order data = some s →
        s.version = mlfqTreeSampleVersion ∧ s.pid < 2 ^ 32 ∧ SampleAt order data s
          ∧ (∀ i < 84, sampleCarried i = true → (sampleBytes order s)[i]? = data[i]?)
          ∧ ∀ rest, parseRecord order (sampleBytes order s ++ rest) = some s)
    ∧ ∀ s s' : TreeSample, s.pid < 2 ^ 32 → s'.pid < 2 ^ 32 →
        sampleBytes order s = sampleBytes order s' → s = s' := by
  have hback : ∀ s : TreeSample, s.pid < 2 ^ 32 → ∀ rest,
      parseRecord order (sampleBytes order s ++ rest)
        = if s.version = mlfqTreeSampleVersion then some s else none := by
    intro s hs rest
    split
    · rename_i hversion
      rw [parseRecord_eq_some, List.length_append, length_sampleBytes]
      exact ⟨by omega, readSample_sampleBytes order hs rest, hversion⟩
    · rename_i hversion
      rw [Option.eq_none_iff_forall_not_mem]
      intro s' hs'
      obtain ⟨-, hread, hv⟩ := parseRecord_eq_some.mp hs'
      rw [readSample_sampleBytes order hs] at hread
      exact hversion (hread ▸ hv)
  refine ⟨hback, ?_, ?_, ?_⟩
  · intro data hlen
    rw [parseRecord, sampleLayout_size, if_pos hlen]
  · intro data s h
    obtain ⟨hlen, hread, hversion⟩ := parseRecord_eq_some.mp h
    have hpid : s.pid < 2 ^ 32 := hread ▸ readSample_pid_lt order data
    refine ⟨hversion, hpid, ?_, fun i hi hcarried => ?_, fun rest => ?_⟩
    · rw [← hread]
      exact readSample_offsets order data
    · rw [← hread]
      exact sampleBytes_readSample order hlen hi hcarried
    · rw [hback s hpid rest, if_pos hversion]
  · intro s s' hs hs' heq
    have h := readSample_sampleBytes order hs []
    rw [heq, readSample_sampleBytes order hs'] at h
    exact h.symm

/-! ## The published tree -/

/-- A zeroed node is zero bytes. -/
theorem nodeLayout_write_zero (order : ByteOrder) :
    (nodeLayout order).write {} = List.replicate 24 0 := by
  cases order with
  | little => rfl
  | big => rfl

theorem writeList_replicate_zero (order : ByteOrder) (n : Nat) :
    (nodeLayout order).writeList (List.replicate n {}) = List.replicate (n * 24) 0 := by
  induction n with
  | zero => rfl
  | succ n ih =>
      have hcons : (nodeLayout order).writeList (List.replicate (n + 1) {})
          = (nodeLayout order).write {} ++ (nodeLayout order).writeList (List.replicate n {}) :=
        List.flatMap_cons
      rw [hcons, ih, nodeLayout_write_zero, List.replicate_append_replicate, Nat.succ_mul,
        Nat.add_comm 24]

/-- The buffer of a tree within the bound: its nodes, then zeroed ones. -/
theorem publishBuf_eq (order : ByteOrder) {tree : SerializedTree}
    (h : tree.nr ≤ mlfqTreeMaxNodes) :
    publishBuf order tree = some ((nodeLayout order).writeList
      (tree.nodes ++ List.replicate (mlfqTreeMaxNodes - tree.nr) ({} : TreeNode))) := by
  have hlen : ((nodeLayout order).writeList tree.nodes).length = tree.nr * 24 :=
    (nodeLayout order).length_writeList tree.nodes
  have hsize : (storeLayout order).size = mlfqTreeMaxNodes * 24 := rfl
  have hzero : mlfqTreeMaxNodes * 24 - tree.nr * 24 = (mlfqTreeMaxNodes - tree.nr) * 24 :=
    (Nat.sub_mul ..).symm
  have happend : (nodeLayout order).writeList
      (tree.nodes ++ List.replicate (mlfqTreeMaxNodes - tree.nr) ({} : TreeNode))
      = (nodeLayout order).writeList tree.nodes
        ++ (nodeLayout order).writeList
          (List.replicate (mlfqTreeMaxNodes - tree.nr) ({} : TreeNode)) :=
    List.flatMap_append
  simp only [publishBuf, hlen, hsize, List.length_replicate, List.drop_replicate]
  rw [if_pos (Nat.mul_le_mul_right 24 h), happend, writeList_replicate_zero, hzero]

/-- **The published bytes are the tree.** The copy fits the map value
exactly when the tree is within the store bound; the scheduler then reads
the nodes of the tree followed by zeroed nodes, so its walk is the walk
of that store. -/
theorem publishBuf_read (order : ByteOrder) (tree : SerializedTree) :
    (publishBuf order tree = none ↔ mlfqTreeMaxNodes < tree.nr)
    ∧ ∀ buf, publishBuf order tree = some buf →
      buf.length = mlfqTreeMaxNodes * 24
        ∧ (storeLayout order).read buf = .ofNodes tree.nodes
        ∧ ∀ f, mlfqTreeWalk ((storeLayout order).read buf) f
          = mlfqTreeWalk (.ofNodes tree.nodes) f := by
  by_cases hfit : tree.nr ≤ mlfqTreeMaxNodes
  · have heq := publishBuf_eq order hfit
    have hlen : (tree.nodes ++ List.replicate (mlfqTreeMaxNodes - tree.nr) ({} : TreeNode)).length
        = mlfqTreeMaxNodes := by
      rw [List.length_append, List.length_replicate]
      exact Nat.add_sub_cancel' hfit
    rw [heq]
    refine ⟨iff_of_false (by simp) (Nat.not_lt.mpr hfit), ?_⟩
    intro buf hbuf
    obtain rfl := Option.some.inj hbuf
    have hread : (storeLayout order).read ((nodeLayout order).writeList
        (tree.nodes ++ List.replicate (mlfqTreeMaxNodes - tree.nr) ({} : TreeNode)))
        = .ofNodes tree.nodes := by
      refine congrArg MlfqTreeStore.mk ?_
      funext i
      have hi : (i : Nat) < (tree.nodes
          ++ List.replicate (mlfqTreeMaxNodes - tree.nr) ({} : TreeNode)).length := by
        rw [hlen]
        exact i.isLt
      have helem := (nodeLayout order).read_writeList _ [] hi
      rw [List.append_nil] at helem
      refine helem.trans ?_
      rw [List.getElem_append]
      split
      · rename_i hlt
        exact (List.getD_eq_getElem tree.nodes {} hlt).symm
      · rename_i hge
        rw [List.getElem_replicate, List.getD_eq_default _ _ (Nat.not_lt.mp hge)]
    refine ⟨?_, hread, fun f => by rw [hread]⟩
    rw [(nodeLayout order).length_writeList, hlen, nodeLayout_size]
  · have hlen : ((nodeLayout order).writeList tree.nodes).length = tree.nr * 24 :=
      (nodeLayout order).length_writeList tree.nodes
    have hsize : (storeLayout order).size = mlfqTreeMaxNodes * 24 := rfl
    have hnone : publishBuf order tree = none := by
      simp only [publishBuf, hlen, hsize, List.length_replicate]
      exact if_neg (by omega)
    rw [hnone]
    exact ⟨iff_of_true rfl (Nat.not_le.mp hfit), by simp⟩

/-! ## The bitmaps -/

/-- **The published bitmaps are the lists of CPUs.** -/
theorem readBitmap_bitmapBytes (order : ByteOrder) (cpus : List Nat) (cpu : Nat) :
    mlfqBitmapTestCpu (readBitmap order (bitmapBytes order (buildBitmap cpus))).bits cpu = true
      ↔ cpu < mlfqMaxCpus ∧ cpu ∈ cpus := by
  rw [← mlfqBitmapTestCpu_buildBitmap]
  by_cases hc : cpu ≥ mlfqMaxCpus
  · rw [mlfqBitmapTestCpu, mlfqBitmapTestCpu, if_pos hc, if_pos hc]
  · have hword : cpu >>> 6 < 16 := by
      have hmax : mlfqMaxCpus = 1024 := rfl
      rw [shiftRight_6]
      omega
    have hread : (readBitmap order (bitmapBytes order (buildBitmap cpus))).words (cpu >>> 6)
        = (buildBitmap cpus).words (cpu >>> 6) := by
      simp only [readBitmap, dif_pos hword, bitmapBytes, Layout.read_write_self]
    rw [mlfqBitmapTestCpu, mlfqBitmapTestCpu, if_neg hc, if_neg hc, Bitmap.bits, Bitmap.bits,
      hread]

end ScxMlfq
