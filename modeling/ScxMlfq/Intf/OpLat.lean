import Mathlib.Data.BitVec
import Mathlib.Logic.Function.Basic
import Mathlib.Tactic.SplitIfs
import ScxMlfq.Intf.Vtime

/-!
# Intf — OpLat

The op-latency histogram of `src/bpf/intf.h`: four callbacks charge the
time they took, in microseconds, into one of eight buckets of the CPU
they ran on.
-/

namespace ScxMlfq

/-- `enum mlfq_op_lat_slots`. -/
inductive OpLatSlot where
  | stopping
  | dispatch
  | enqueue
  | cpuRelease
deriving DecidableEq, Repr

/-- `MLFQ_OP_LAT_*`. -/
def OpLatSlot.num : OpLatSlot → Nat
  | .stopping => 0
  | .dispatch => 1
  | .enqueue => 2
  | .cpuRelease => 3

def OpLatSlot.all : List OpLatSlot := [.stopping, .dispatch, .enqueue, .cpuRelease]

def mlfqOpLatBuckets : Nat := 8

/-- `mlfq_op_lat_bucket`. -/
def mlfqOpLatBucket (deltaUs : U64) : Nat :=
  if deltaUs < 2 then 0
  else if deltaUs < 5 then 1
  else if deltaUs < 10 then 2
  else if deltaUs < 20 then 3
  else if deltaUs < 50 then 4
  else if deltaUs < 100 then 5
  else if deltaUs < 250 then 6
  else 7

/-- The lower edge of a bucket, in microseconds. -/
def opLatEdge : Nat → Nat
  | 0 => 0
  | 1 => 2
  | 2 => 5
  | 3 => 10
  | 4 => 20
  | 5 => 50
  | 6 => 100
  | 7 => 250
  | _ => 2 ^ 64

theorem opLatEdge_mono : ∀ b ≤ 8, ∀ a ≤ b, opLatEdge a ≤ opLatEdge b := by decide

theorem mlfqOpLatBucket_mem (deltaUs : U64) :
    mlfqOpLatBucket deltaUs < mlfqOpLatBuckets
      ∧ opLatEdge (mlfqOpLatBucket deltaUs) ≤ deltaUs.toNat
      ∧ deltaUs.toNat < opLatEdge (mlfqOpLatBucket deltaUs + 1) := by
  have hlt := deltaUs.isLt
  have hbuckets : mlfqOpLatBuckets = 8 := rfl
  unfold mlfqOpLatBucket
  simp only [BitVec.lt_def, BitVec.reduceToNat]
  split_ifs <;> simp only [opLatEdge, Nat.reduceAdd, Nat.reducePow, hbuckets] <;> omega

/-- **The buckets delimit the elapsed time.** -/
theorem mlfqOpLatBucket_eq_iff {deltaUs : U64} {b : Nat} :
    mlfqOpLatBucket deltaUs = b
      ↔ b < mlfqOpLatBuckets ∧ opLatEdge b ≤ deltaUs.toNat ∧ deltaUs.toNat < opLatEdge (b + 1) := by
  obtain ⟨hb', hlo', hhi'⟩ := mlfqOpLatBucket_mem deltaUs
  have hbuckets : mlfqOpLatBuckets = 8 := rfl
  constructor
  · intro h
    rw [← h]
    exact ⟨hb', hlo', hhi'⟩
  · intro h
    obtain ⟨hb, hlo, hhi⟩ := h
    -- of two buckets the later starts where the earlier has ended
    rcases Nat.lt_trichotomy (mlfqOpLatBucket deltaUs) b with hless | heq | hmore
    · have hedge := opLatEdge_mono b (by omega) (mlfqOpLatBucket deltaUs + 1) hless
      omega
    · exact heq
    · have hedge := opLatEdge_mono (mlfqOpLatBucket deltaUs) (by omega) (b + 1) hmore
      omega

/-- The per-CPU histograms of the callbacks. -/
abbrev OpLatMap := OpLatSlot → Nat → Nat → U64

/-- The bucket of a charge, of which there is none when the time went
backwards. -/
def opLatCharged (startNs now : U64) : Option Nat :=
  if mlfqTimeBefore now startNs then none
  else some (mlfqOpLatBucket ((now - startNs) / nsecPerUsec))

/-- `mlfq_op_lat_charge` on a CPU. -/
def mlfqOpLatCharge (lat : OpLatMap) (cpu : Nat) (op : OpLatSlot) (startNs now : U64) : OpLatMap :=
  match opLatCharged startNs now with
  | none => lat
  | some b => Function.update lat op (Function.update (lat op) cpu
      (Function.update (lat op cpu) b (lat op cpu b + 1)))

/-- **A charge** moves one slot by one, and no other. -/
theorem mlfqOpLatCharge_apply (lat : OpLatMap) (cpu : Nat) (op : OpLatSlot) (startNs now : U64)
    (op' : OpLatSlot) (cpu' b : Nat) :
    mlfqOpLatCharge lat cpu op startNs now op' cpu' b
      = lat op' cpu' b
        + if op = op' ∧ cpu = cpu' ∧ opLatCharged startNs now = some b then 1 else 0 := by
  unfold mlfqOpLatCharge
  cases hcharged : opLatCharged startNs now with
  | none => simp
  | some b' =>
      simp only [Option.some.injEq]
      by_cases hop : op = op'
      · subst hop
        rw [Function.update_self]
        by_cases hcpu : cpu = cpu'
        · subst hcpu
          rw [Function.update_self]
          by_cases hb : b' = b
          · subst hb
            simp
          · rw [Function.update_of_ne (Ne.symm hb), if_neg fun h => hb h.2.2, add_zero]
        · rw [Function.update_of_ne (Ne.symm hcpu), if_neg fun h => hcpu h.2.1, add_zero]
      · rw [Function.update_of_ne (Ne.symm hop), if_neg fun h => hop h.1, add_zero]

end ScxMlfq
