import ScxMlfq.Intf.Adapt
import ScxMlfq.Bpf.Init

/-!
# Bpf — Adapt

The adaptation of `src/bpf/main.bpf.c`: the rate-limited entry, the fold
of the winner and the step that moves the shift and the four effective
band edges.
-/

namespace ScxMlfq

/-- `struct mlfq_sys_gauge`. -/
structure SysGauge where
  latEma : U64 := 0
  rateEma : U64 := 0
  stepAt : U64 := 0
  waitTotal : U64 := 0
  waitCount : U64 := 0
  adaptSteps : U32 := 0
deriving DecidableEq, Repr

/-- The effective edges at a shift. -/
def adaptBands (rod : Rodata) (a : AdaptState) (shiftFp : Int) : AdaptState :=
  { a with
    shiftFp := shiftFp
    tLEffNs := mlfqAdaptBand rod.tLNs shiftFp mlfqAdaptTLFloorNs mlfqAdaptTLCeilNs
    tHEffNs := mlfqAdaptBand rod.tHNs shiftFp mlfqAdaptTHFloorNs mlfqAdaptTHCeilNs
    tIntEffNs := mlfqAdaptBand rod.treeTIntNs shiftFp mlfqAdaptTIntFloorNs mlfqAdaptTIntCeilNs
    tBndEffNs := mlfqAdaptBand rod.treeTBoundNs shiftFp mlfqAdaptTBndFloorNs
      mlfqAdaptTBndCeilNs }

/-- `mlfq_adapt_step`; `windowTotal` is what `mlfq_wakeup_window_fold`
returns, truncated to the count of the rate fold. -/
def mlfqAdaptStep (rod : Rodata) (g : SysGauge) (a : AdaptState) (windowTotal elapsed : U64) :
    SysGauge × AdaptState :=
  let g := { g with
    rateEma := mlfqSysRateStep g.rateEma (windowTotal.setWidth 32) elapsed
    adaptSteps := g.adaptSteps + 1 }
  let target := mlfqAdaptShiftTarget g.latEma g.rateEma
  (g, adaptBands rod a (mlfqAdaptSlew a.shiftFp target))

/-- The fold of the winner: the waits into the latency gauge, and the
step where the adaptation is enabled. -/
def adaptFold (rod : Rodata) (adaptEnabled : Bool) (g : SysGauge) (a : AdaptState)
    (windowTotal elapsed : U64) : SysGauge × AdaptState :=
  let g := { g with
    latEma := mlfqSysLatFold g.latEma g.waitTotal g.waitCount elapsed mlfqSysGaugeHalfLifeNs
      mlfqSysLatMaxNs
    waitTotal := 0
    waitCount := 0 }
  if adaptEnabled then mlfqAdaptStep rod g a windowTotal elapsed else (g, a)

/-- The window the winner measures, against the stamp it replaced. -/
def adaptElapsed (last now : U64) : U64 :=
  if mlfqTimeBefore now last then 0 else now - last

/-- `mlfq_maybe_adapt_step`, with nothing landing between the read of the
stamp and the compare-and-swap. -/
def mlfqMaybeAdaptStep (rod : Rodata) (adaptEnabled : Bool) (g : SysGauge) (a : AdaptState)
    (windowTotal now : U64) : SysGauge × AdaptState :=
  if mlfqTimeBefore now (g.stepAt + mlfqAdaptMinIntervalNs) then (g, a)
  else adaptFold rod adaptEnabled { g with stepAt := now } a windowTotal
    (adaptElapsed g.stepAt now)

/-! ## The same over words that refuse to wrap -/

/-- The effective edges at a shift, checked. -/
def adaptBandsChecked (rod : Rodata) (a : AdaptState) (shiftFp : Int) : Option AdaptState := do
  let tL ← mlfqAdaptBandChecked rod.tLNs shiftFp mlfqAdaptTLFloorNs mlfqAdaptTLCeilNs
  let tH ← mlfqAdaptBandChecked rod.tHNs shiftFp mlfqAdaptTHFloorNs mlfqAdaptTHCeilNs
  let tInt ← mlfqAdaptBandChecked rod.treeTIntNs shiftFp mlfqAdaptTIntFloorNs
    mlfqAdaptTIntCeilNs
  let tBnd ← mlfqAdaptBandChecked rod.treeTBoundNs shiftFp mlfqAdaptTBndFloorNs
    mlfqAdaptTBndCeilNs
  some { a with
    shiftFp := shiftFp
    tLEffNs := tL
    tHEffNs := tH
    tIntEffNs := tInt
    tBndEffNs := tBnd }

/-- The fold of an enabled adaptation, checked. -/
def adaptFoldChecked (rod : Rodata) (g : SysGauge) (a : AdaptState)
    (windowTotal elapsed : U64) : Option (SysGauge × AdaptState) := do
  let latEma ← mlfqSysLatFoldChecked g.latEma g.waitTotal g.waitCount elapsed
    mlfqSysGaugeHalfLifeNs mlfqSysLatMaxNs
  let rateEma ← mlfqSysRateStepChecked g.rateEma (windowTotal.setWidth 32) elapsed
  let target ← mlfqAdaptShiftTargetChecked latEma rateEma
  let shiftFp ← mlfqAdaptSlewChecked a.shiftFp target
  let bands ← adaptBandsChecked rod a shiftFp
  some ({ g with
    latEma := latEma
    rateEma := rateEma
    waitTotal := 0
    waitCount := 0
    adaptSteps := g.adaptSteps + 1 }, bands)

/-! ## The default bases -/

/-- The band bases of the default configuration. -/
structure DefaultBases (rod : Rodata) : Prop where
  tL : rod.tLNs = 250000
  tH : rod.tHNs = 2000000
  tInt : rod.treeTIntNs = 1000000
  tBnd : rod.treeTBoundNs = 3000000

/-- Every base lies within the bounds of its edge. -/
structure BasesWithin (rod : Rodata) : Prop where
  tL : mlfqAdaptTLFloorNs ≤ rod.tLNs ∧ rod.tLNs ≤ mlfqAdaptTLCeilNs
  tH : mlfqAdaptTHFloorNs ≤ rod.tHNs ∧ rod.tHNs ≤ mlfqAdaptTHCeilNs
  tInt : mlfqAdaptTIntFloorNs ≤ rod.treeTIntNs ∧ rod.treeTIntNs ≤ mlfqAdaptTIntCeilNs
  tBnd : mlfqAdaptTBndFloorNs ≤ rod.treeTBoundNs ∧ rod.treeTBoundNs ≤ mlfqAdaptTBndCeilNs

/-- What a band needs, of each of the four edges. -/
structure BandsFit (rod : Rodata) : Prop where
  tL : BandFits rod.tLNs mlfqAdaptTLFloorNs mlfqAdaptTLCeilNs
  tH : BandFits rod.tHNs mlfqAdaptTHFloorNs mlfqAdaptTHCeilNs
  tInt : BandFits rod.treeTIntNs mlfqAdaptTIntFloorNs mlfqAdaptTIntCeilNs
  tBnd : BandFits rod.treeTBoundNs mlfqAdaptTBndFloorNs mlfqAdaptTBndCeilNs

/-- The edges of `a` are at most those of `b`. -/
structure EdgesLe (a b : AdaptState) : Prop where
  tL : a.tLEffNs ≤ b.tLEffNs
  tH : a.tHEffNs ≤ b.tHEffNs
  tInt : a.tIntEffNs ≤ b.tIntEffNs
  tBnd : a.tBndEffNs ≤ b.tBndEffNs

/-- The edges are the bases. -/
structure EdgesAtBase (rod : Rodata) (a : AdaptState) : Prop where
  tL : a.tLEffNs = rod.tLNs
  tH : a.tHEffNs = rod.tHNs
  tInt : a.tIntEffNs = rod.treeTIntNs
  tBnd : a.tBndEffNs = rod.treeTBoundNs

/-- `mlfq_check_bands` on the effective state. -/
def AdaptState.checkBands (a : AdaptState) : Bool :=
  mlfqCheckBands a.tLEffNs a.tHEffNs a.tIntEffNs a.tBndEffNs

section Bases

variable {rod : Rodata}

theorem DefaultBases.within (h : DefaultBases rod) : BasesWithin rod := by
  constructor
  · rw [h.tL]
    decide
  · rw [h.tH]
    decide
  · rw [h.tInt]
    decide
  · rw [h.tBnd]
    decide

theorem bandFits_of_within {base floor ceil : U64} (h : floor ≤ base ∧ base ≤ ceil)
    (hceil : ceil.toNat < 2 ^ 40) : BandFits base floor ceil :=
  ⟨lt_of_le_of_lt h.2 hceil, hceil, Nat.le_trans h.1 h.2⟩

theorem BasesWithin.fit (h : BasesWithin rod) : BandsFit rod where
  tL := bandFits_of_within h.tL (by decide)
  tH := bandFits_of_within h.tH (by decide)
  tInt := bandFits_of_within h.tInt (by decide)
  tBnd := bandFits_of_within h.tBnd (by decide)

/-! ## The edges at a shift -/

variable {shiftFp : Int} {a : AdaptState}

/-- No edge wraps. -/
theorem BandsFit.checked (h : BandsFit rod) (hs : 0 ≤ shiftFp ∧ shiftFp ≤ 128) :
    adaptBandsChecked rod a shiftFp = some (adaptBands rod a shiftFp) := by
  simp only [adaptBandsChecked, (mlfqAdaptBand_eq h.tL hs).1, (mlfqAdaptBand_eq h.tH hs).1,
    (mlfqAdaptBand_eq h.tInt hs).1, (mlfqAdaptBand_eq h.tBnd hs).1, Option.bind_eq_bind,
    Option.bind_some]
  rfl

/-- **The bands stay in order.** The bounds of the two edges of a pair
are disjoint, so the clamps alone keep them apart. -/
theorem BandsFit.checkBands (h : BandsFit rod) (hs : 0 ≤ shiftFp ∧ shiftFp ≤ 128) :
    (adaptBands rod a shiftFp).checkBands = true := by
  have htL := mlfqAdaptBand_mem h.tL hs
  have htH := mlfqAdaptBand_mem h.tH hs
  have htInt := mlfqAdaptBand_mem h.tInt hs
  have htBnd := mlfqAdaptBand_mem h.tBnd hs
  have hpair : mlfqAdaptTLCeilNs.toNat < mlfqAdaptTHFloorNs.toNat := by decide
  have htree : mlfqAdaptTIntCeilNs.toNat < mlfqAdaptTBndFloorNs.toNat := by decide
  simp only [AdaptState.checkBands, mlfqCheckBands, adaptBands, ge_iff_le, BitVec.le_def,
    BitVec.lt_def, Bool.and_eq_true, decide_eq_true_eq]
  omega

/-- The edges grow with the shift. -/
theorem BandsFit.mono (h : BandsFit rod) {s₁ s₂ : Int} (h0 : 0 ≤ s₁) (hle : s₁ ≤ s₂)
    (h2 : s₂ ≤ 128) : EdgesLe (adaptBands rod a s₁) (adaptBands rod a s₂) where
  tL := mlfqAdaptBand_mono h.tL h0 hle h2
  tH := mlfqAdaptBand_mono h.tH h0 hle h2
  tInt := mlfqAdaptBand_mono h.tInt h0 hle h2
  tBnd := mlfqAdaptBand_mono h.tBnd h0 hle h2

/-- **The edges at shift zero** are the bases exactly when the bases lie
within the bounds. -/
theorem adaptBands_zero_iff : EdgesAtBase rod (adaptBands rod a 0) ↔ BasesWithin rod := by
  constructor
  · intro h
    exact ⟨mlfqAdaptBand_zero_iff (by decide) |>.mp h.tL,
      mlfqAdaptBand_zero_iff (by decide) |>.mp h.tH,
      mlfqAdaptBand_zero_iff (by decide) |>.mp h.tInt,
      mlfqAdaptBand_zero_iff (by decide) |>.mp h.tBnd⟩
  · intro h
    exact ⟨mlfqAdaptBand_zero_iff (by decide) |>.mpr h.tL,
      mlfqAdaptBand_zero_iff (by decide) |>.mpr h.tH,
      mlfqAdaptBand_zero_iff (by decide) |>.mpr h.tInt,
      mlfqAdaptBand_zero_iff (by decide) |>.mpr h.tBnd⟩

/-- The edges depend on the state through its residency guard only. -/
theorem adaptBands_adaptBands (s₁ s₂ : Int) :
    adaptBands rod (adaptBands rod a s₁) s₂ = adaptBands rod a s₂ := rfl

end Bases

end ScxMlfq
