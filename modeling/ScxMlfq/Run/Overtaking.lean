import ScxMlfq.Intf.Vtime

/-!
# Run — Overtaking

One queue under any sequence of clock advances and placements. A task
placed with a deadline is overtaken only by placements that come soon
enough: once the clock has moved to or past the deadline plus the
largest lag, every later placement gets a later deadline, because the
lag clamp lets no task start further back than that.

All readings of a run are written as distances from one origin, a full
lag before the clock at the first placement. There the wrapping order is
the order of the naturals, and the argument is linear arithmetic on the
two floor divisions.
-/

namespace ScxMlfq

/-! ## The operations of a queue -/

inductive QueueOp where
  | advance (vruntime : U64)
  | place (tctx : TaskCtx)

/-- A placement reads the clock and leaves it. -/
def QueueOp.apply (q : QueueCtx) : QueueOp → QueueCtx
  | .advance v => mlfqQueueAdvanceClock q v
  | .place _ => q

/-- The queue after a sequence of operations. -/
def QueueCtx.after (q : QueueCtx) (ops : List QueueOp) : QueueCtx :=
  ops.foldl QueueOp.apply q

/-- The vruntimes the operations propose to the clock. -/
def proposals : List QueueOp → List U64
  | [] => []
  | .advance v :: ops => v :: proposals ops
  | .place _ :: ops => proposals ops

/-- How far the clock moves over the operations. -/
def QueueCtx.moved (q : QueueCtx) (ops : List QueueOp) : Nat :=
  Serial.travels q.clock (proposals ops)

theorem proposals_append (ops₁ ops₂ : List QueueOp) :
    proposals (ops₁ ++ ops₂) = proposals ops₁ ++ proposals ops₂ := by
  induction ops₁ with
  | nil => rfl
  | cons op ops₁ ih =>
      cases op with
      | advance v => rw [List.cons_append, proposals, proposals, ih, List.cons_append]
      | place t => rw [List.cons_append, proposals, proposals, ih]

/-- The clock after a run, from the proposals alone. -/
theorem QueueCtx.after_clock (q : QueueCtx) (ops : List QueueOp) :
    (q.after ops).clock = Serial.advances q.clock (proposals ops) := by
  induction ops generalizing q with
  | nil => rfl
  | cons op ops ih =>
      have hcons : q.after (op :: ops) = (op.apply q).after ops := rfl
      rw [hcons, ih]
      cases op with
      | advance v =>
          rw [proposals, Serial.advances_cons, QueueOp.apply, mlfqQueueAdvanceClock_clock]
      | place t => rfl

/-- No operation changes the request size. -/
theorem QueueCtx.after_maxSliceNs (q : QueueCtx) (ops : List QueueOp) :
    (q.after ops).maxSliceNs = q.maxSliceNs := by
  induction ops generalizing q with
  | nil => rfl
  | cons op ops ih =>
      have hcons : q.after (op :: ops) = (op.apply q).after ops := rfl
      rw [hcons, ih]
      cases op with
      | advance v => exact mlfqQueueAdvanceClock_maxSliceNs q v
      | place t => rfl

theorem QueueCtx.moved_append (q : QueueCtx) (ops₁ ops₂ : List QueueOp) :
    q.moved (ops₁ ++ ops₂) = q.moved ops₁ + (q.after ops₁).moved ops₂ := by
  rw [moved, moved, moved, proposals_append, Serial.travels_append, after_clock]

/-- The clock sits at its origin plus what it moved. -/
theorem QueueCtx.after_clock_eq (q : QueueCtx) (ops : List QueueOp) :
    (q.after ops).clock = q.clock + BitVec.ofNat 64 (q.moved ops) := by
  rw [after_clock, Serial.advances_eq_add_travels, moved]

/-! ## The placement in numbers -/

/-- A request whose weighted time fits the word at weight one. -/
def QueueCtx.Fits (q : QueueCtx) : Prop :=
  (q.maxSliceNs.toNat + mlfqTickNs.toNat) * 100 < 2 ^ 62

instance (q : QueueCtx) : Decidable q.Fits := inferInstanceAs (Decidable (_ < _))

theorem QueueCtx.Fits.sliceFits {q : QueueCtx} (h : q.Fits) : q.SliceFits :=
  Nat.lt_trans h (by decide)

/-- The largest lag of a placement. -/
theorem QueueCtx.Fits.placementLag_le {q : QueueCtx} (h : q.Fits) (t : TaskCtx) :
    (placementLag q t).toNat
      ≤ (q.maxSliceNs.toNat + mlfqTickNs.toNat) * 100 / t.weight.toNat := by
  rw [placementLag_toNat h.sliceFits]
  exact q.boundedLag_le t

theorem QueueCtx.Fits.placementVslice {q : QueueCtx} (h : q.Fits) (t : TaskCtx) :
    (placementVslice q t).toNat
      = if t.flags.firstRun then q.maxSliceNs.toNat * 100 / t.weight.toNat / 2
        else q.maxSliceNs.toNat * 100 / t.weight.toNat :=
  placementVslice_toNat h.sliceFits t

/-- A placement as a distance from an origin at or behind the clock by
at least the lag; the sentinel adds one at the wrap point. -/
theorem mlfqPlaceEntityDeadline_from {q : QueueCtx} {o : U64} {n : Nat}
    (hclock : q.clock = o + BitVec.ofNat 64 n) (t : TaskCtx)
    (hlag : (placementLag q t).toNat ≤ n) :
    ∃ bump, bump ≤ 1 ∧ mlfqPlaceEntityDeadline q t
      = o + BitVec.ofNat 64
          (n - (placementLag q t).toNat + (placementVslice q t).toNat + bump) := by
  have hraw : q.clock - placementLag q t + placementVslice q t
      = o + BitVec.ofNat 64 (n - (placementLag q t).toNat + (placementVslice q t).toNat) := by
    rw [hclock, Serial.add_ofNat_sub o hlag, Serial.add_ofNat_add]
  simp only [mlfqPlaceEntityDeadline]
  split
  · rename_i hzero
    refine ⟨1, Nat.le_refl 1, ?_⟩
    rw [BitVec.ofNat_add, ← add_assoc, ← hraw, hzero]
    rfl
  · exact ⟨0, Nat.zero_le 1, hraw⟩

/-! ## The bound -/

/-- The lag clamp takes at most a request and a tick more than the slice
gives back, and half a request on top for a first run. -/
theorem lag_sub_vslice_le {s k w lag vs : Nat} {first : Bool} (hw : 1 ≤ w)
    (hlag : lag ≤ (s + k) * 100 / w)
    (hvs : vs = if first then s * 100 / w / 2 else s * 100 / w) :
    lag ≤ vs + k * 100 + if first then s * 50 else 0 := by
  have hsplit : (s + k) * 100 / w ≤ s * 100 / w + k * 100 := by
    have hmul : (s + k) * 100 ≤ s * 100 + k * 100 * w := by
      have := Nat.le_mul_of_pos_right (k * 100) hw
      omega
    calc (s + k) * 100 / w ≤ (s * 100 + k * 100 * w) / w := Nat.div_le_div_right hmul
      _ = s * 100 / w + k * 100 := Nat.add_mul_div_right _ _ hw
  have hle : s * 100 / w ≤ s * 100 := Nat.div_le_self _ _
  cases first with
  | false =>
      simp only [Bool.false_eq_true, if_false] at hvs ⊢
      omega
  | true =>
      simp only [if_true] at hvs ⊢
      omega

/-- A placement starts less than a full lag back, its slice included:
at weight one the slice is not empty, above it the clamp is at most half
of the full lag. -/
theorem lag_lt_vslice_add {s k w lag vs : Nat} {first : Bool} (hs : 1 ≤ s) (hw : 1 ≤ w)
    (hlag : lag ≤ (s + k) * 100 / w)
    (hvs : vs = if first then s * 100 / w / 2 else s * 100 / w) :
    lag < vs + (s + k) * 100 := by
  rcases Nat.eq_or_lt_of_le hw with rfl | hw2
  · rw [Nat.div_one] at hlag hvs
    split at hvs <;> omega
  · have hhalf : (s + k) * 100 / w ≤ (s + k) * 100 / 2 := Nat.div_le_div_left hw2 (by decide)
    omega

/-- The slice is at most the request at weight one. -/
theorem vslice_le {s w vs : Nat} {first : Bool}
    (hvs : vs = if first then s * 100 / w / 2 else s * 100 / w) : vs ≤ s * 100 := by
  have hle : s * 100 / w ≤ s * 100 := Nat.div_le_self _ _
  split at hvs <;> omega

/-- A weight the kernel hands out. -/
def TaskCtx.Weighted (t : TaskCtx) : Prop := 1 ≤ t.weight.toNat ∧ t.weight.toNat ≤ 10000

instance (t : TaskCtx) : Decidable t.Weighted := inferInstanceAs (Decidable (_ ∧ _))

/-- **Bounded overtaking.** After a placement with deadline `dA`, once
the clock has moved to or past `dA` plus the largest lag of the queue,
every later placement gets a deadline strictly after `dA`, as long as
the clock has moved less than `2^62` since. A first run needs room for
half a request more. -/
theorem no_overtaking (q : QueueCtx) (hs : 1 ≤ q.maxSliceNs.toNat) (hq : q.Fits)
    (a b : TaskCtx) (ha : a.Weighted) (hb : b.Weighted)
    (hfirst : a.flags.firstRun = true →
      q.maxSliceNs.toNat * 150 + mlfqTickNs.toNat * 100 < 2 ^ 62)
    (ops₁ ops₂ : List QueueOp) (hmoved : q.moved (ops₁ ++ ops₂) < 2 ^ 62)
    (hpast : ¬ Serial.Before (q.after ops₁).clock
      ((mlfqPlaceEntity q a).deadline
        + calcDeltaFairBpf (q.maxSliceNs + mlfqTickNs) 1)) :
    Serial.Before (mlfqPlaceEntity q a).deadline
      (mlfqPlaceEntity (q.after (ops₁ ++ ops₂)) b).deadline := by
  have hfits : (q.maxSliceNs.toNat + mlfqTickNs.toNat) * 100 < 2 ^ 62 := hq
  -- the origin lies a full lag before the clock of the first placement
  let full := (q.maxSliceNs.toNat + mlfqTickNs.toNat) * 100
  let o := q.clock - BitVec.ofNat 64 full
  have hclock : q.clock = o + BitVec.ofNat 64 full := (sub_add_cancel _ _).symm
  have hafter (ops : List QueueOp) :
      (q.after ops).clock = o + BitVec.ofNat 64 (full + q.moved ops) := by
    rw [q.after_clock_eq, BitVec.ofNat_add, ← add_assoc, ← hclock]
  have hfull : (calcDeltaFairBpf (q.maxSliceNs + mlfqTickNs) 1).toNat = full := by
    have hrequest := hq.sliceFits.request
    rw [calcDeltaFairBpf_toNat (by rw [hrequest]; omega), hrequest]
    exact Nat.div_one _
  -- the first placement
  have hlagA := hq.placementLag_le a
  have hvsA := hq.placementVslice a
  have hbackA : (placementLag q a).toNat ≤ full :=
    Nat.le_trans hlagA (Nat.div_le_self _ _)
  have hboundA := lag_sub_vslice_le ha.1 hlagA hvsA
  have hsliceA := vslice_le hvsA
  obtain ⟨bumpA, hbumpA, hdA⟩ := mlfqPlaceEntityDeadline_from hclock a hbackA
  -- the later placement
  have hsame := q.after_maxSliceNs (ops₁ ++ ops₂)
  have hq' : (q.after (ops₁ ++ ops₂)).Fits := by
    rw [QueueCtx.Fits, hsame]
    exact hq
  have hlagB := hq'.placementLag_le b
  have hvsB := hq'.placementVslice b
  rw [hsame] at hlagB hvsB
  have hboundB := lag_lt_vslice_add hs hb.1 hlagB hvsB
  have hsliceB := vslice_le hvsB
  have hbackB : (placementLag (q.after (ops₁ ++ ops₂)) b).toNat
      ≤ full + q.moved (ops₁ ++ ops₂) :=
    Nat.le_trans (Nat.le_trans hlagB (Nat.div_le_self _ _)) (Nat.le_add_right _ _)
  obtain ⟨bumpB, hbumpB, hdB⟩ :=
    mlfqPlaceEntityDeadline_from (hafter (ops₁ ++ ops₂)) b hbackB
  rw [mlfqPlaceEntity_deadline, hdA, Serial.add_ofNat_add, hfull, hafter] at hpast
  rw [mlfqPlaceEntity_deadline, mlfqPlaceEntity_deadline, hdA, hdB]
  -- what the clock has covered when it is past the bound
  have hcovered : full - (placementLag q a).toNat + (placementVslice q a).toNat + bumpA
      ≤ q.moved ops₁ := by
    by_contra hless
    apply hpast
    apply Serial.before_add_add <;> omega
  have hmore : q.moved ops₁ ≤ q.moved (ops₁ ++ ops₂) := by
    rw [q.moved_append]
    exact Nat.le_add_right _ _
  apply Serial.before_add_add
  · omega
  · cases hrun : a.flags.firstRun with
    | false =>
        rw [hrun] at hboundA
        simp only [Bool.false_eq_true, if_false] at hboundA
        omega
    | true =>
        have hroom := hfirst hrun
        rw [hrun] at hboundA
        simp only [if_true] at hboundA
        omega

/-- The bound in a queue of 2 ms requests: a task of weight one, two lags
of the clock, and a placement of a task that fell far behind. -/
theorem no_overtaking_heavyLag :
    let q : QueueCtx := { clock := 1000000000, maxSliceNs := 2000000 }
    let a : TaskCtx := { weight := 1, vruntime := 999999999, flags := { firstRun := true } }
    let b : TaskCtx := { weight := 1, vruntime := 7 }
    let ops : List QueueOp := [.advance 1300000000, .place b, .advance 1700000000]
    Serial.Before (mlfqPlaceEntity q a).deadline
      (mlfqPlaceEntity (q.after (ops ++ [.advance 1800000000])) b).deadline := by
  intro q a b ops
  exact no_overtaking q (by decide) (by decide) a b (by decide) (by decide)
    (fun _ => by decide) ops [.advance 1800000000] (by decide) (by decide)

/-- A request just within the size limit leaves no room for a first run:
the later deadline is more than half of the circle ahead, and reads as
earlier. -/
theorem first_run_overtaken :
    ¬ ∀ (q : QueueCtx) (a b : TaskCtx) (ops₁ ops₂ : List QueueOp),
      1 ≤ q.maxSliceNs.toNat → q.Fits → a.Weighted → b.Weighted →
      q.moved (ops₁ ++ ops₂) < 2 ^ 62 →
      ¬ Serial.Before (q.after ops₁).clock
        ((mlfqPlaceEntity q a).deadline
          + calcDeltaFairBpf (q.maxSliceNs + mlfqTickNs) 1) →
      Serial.Before (mlfqPlaceEntity q a).deadline
        (mlfqPlaceEntity (q.after (ops₁ ++ ops₂)) b).deadline := by
  intro hclaim
  have h := hclaim { clock := 4611686018427387904, maxSliceNs := 46116860183273879 }
    { weight := 1, vruntime := 0, flags := { firstRun := true } }
    { weight := 1, vruntime := 9223372036854775807 } [.advance 9223372036854775807] []
    (by decide) (by decide) (by decide) (by decide) (by decide) (by decide)
  exact absurd h (by decide)

end ScxMlfq
