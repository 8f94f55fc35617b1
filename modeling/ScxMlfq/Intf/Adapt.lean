import ScxMlfq.Intf.Gauge
import ScxMlfq.Lib.Slew

/-!
# Intf — Adapt

The adaptation arithmetic of `src/bpf/intf.h`: the two system gauges it
folds, the wakeup latency and the wakeup rate, the control law that
turns them into a shift target, the slew limit and the clamped band
edges. Signed words are integers, every signed result taken back into
64 bits. Each function stands a second time over operations that refuse
to wrap.
-/

namespace ScxMlfq

def nsecPerSec : U64 := 1000000000
def mlfqSysLatMaxNs : U64 := 16000000
def mlfqSysGaugeHalfLifeNs : U64 := 1000000000
def mlfqSysRateMax : U64 := 1000000
def mlfqAdaptMinIntervalNs : U64 := 1000000000
def mlfqSysRateWindowMaxNs : U64 := 60000000000
def mlfqAdaptTargetLatNs : U64 := 1000000
def mlfqAdaptK : U64 := 128
def mlfqAdaptMaxShift : U64 := 128
def mlfqAdaptMaxStep : U64 := 25
def mlfqAdaptTLFloorNs : U64 := 150000
def mlfqAdaptTLCeilNs : U64 := 500000
def mlfqAdaptTHFloorNs : U64 := 1200000
def mlfqAdaptTHCeilNs : U64 := 3200000
def mlfqAdaptTIntFloorNs : U64 := 600000
def mlfqAdaptTIntCeilNs : U64 := 1600000
def mlfqAdaptTBndFloorNs : U64 := 1800000
def mlfqAdaptTBndCeilNs : U64 := 4800000
def mlfqAdaptRateGateHigh : U64 := 200000 <<< 8
def mlfqAdaptRateGateShift : U64 := 64

/-- The signed word `x` becomes. -/
abbrev s64 (x : Int) : Int := Checked.wrapped 64 x

/-- `mlfq_sys_lat_fold`. -/
def mlfqSysLatFold (latEma waitTotal waitCount elapsed halfLife maxNs : U64) : U64 :=
  if waitCount = 0 then latEma
  else
    let avg := waitTotal / waitCount
    let avg := if avg > maxNs then maxNs else avg
    let factor := mlfqEmaDecay fpOne elapsed halfLife
    let decayed := mlfqEmaDecay latEma elapsed halfLife
    let rise := avg * (fpOne - factor) / fpOne
    let v := decayed + rise
    if v > maxNs then maxNs else v

/-- The window the rate is measured over. -/
def rateWindow (elapsed : U64) : U64 :=
  let elapsed := if elapsed < mlfqAdaptMinIntervalNs then mlfqAdaptMinIntervalNs else elapsed
  if elapsed > mlfqSysRateWindowMaxNs then mlfqSysRateWindowMaxNs else elapsed

/-- `mlfq_sys_rate_step`. -/
def mlfqSysRateStep (rateEma : U64) (wakeupCnt : U32) (elapsed : U64) : U64 :=
  let elapsed := rateWindow elapsed
  let rateI := wakeupCnt.setWidth 64 * nsecPerSec / elapsed
  let rateI := if rateI > mlfqSysRateMax then mlfqSysRateMax else rateI
  let rateIFp := rateI <<< 8
  let factor := mlfqEmaDecay fpOne elapsed mlfqSysGaugeHalfLifeNs
  rateEma * factor / fpOne + rateIFp * (fpOne - factor) / fpOne

/-- `mlfq_adapt_shift_target`. -/
def mlfqAdaptShiftTarget (latEma rateEma : U64) : Int :=
  let err := s64 (latEma.toInt - mlfqAdaptTargetLatNs.toInt)
  let mag : U64 := if err < 0 then 0 else BitVec.ofInt 64 err
  let scaled := mag * mlfqAdaptK / mlfqAdaptTargetLatNs
  let target := scaled.toInt
  let target := if target > mlfqAdaptMaxShift.toInt then mlfqAdaptMaxShift.toInt else target
  if rateEma > mlfqAdaptRateGateHigh ∧ target > mlfqAdaptRateGateShift.toInt
  then mlfqAdaptRateGateShift.toInt else target

/-- `mlfq_adapt_slew`. -/
def mlfqAdaptSlew (prev target : Int) : Int :=
  let step := s64 (target - prev)
  let step := if step > mlfqAdaptMaxStep.toInt then mlfqAdaptMaxStep.toInt else step
  let step := if step < s64 (-mlfqAdaptMaxStep.toInt) then s64 (-mlfqAdaptMaxStep.toInt) else step
  s64 (prev + step)

/-- `mlfq_adapt_band`. -/
def mlfqAdaptBand (base : U64) (shiftFp : Int) (floor ceil : U64) : U64 :=
  let mag := BitVec.ofInt 64 (if shiftFp < 0 then s64 (-shiftFp) else shiftFp)
  let scaled := base * mag / fpOne
  let v := if shiftFp < 0 then s64 (base.toInt - scaled.toInt)
    else s64 (base.toInt + scaled.toInt)
  let v := if v < floor.toInt then floor.toInt else v
  let v := if v > ceil.toInt then ceil.toInt else v
  BitVec.ofInt 64 v

/-- `mlfq_check_bands`. -/
def mlfqCheckBands (tL tH tInt tBnd : U64) : Bool :=
  decide (tL < tH) && decide (tInt < tBnd)
    && decide (tL ≥ mlfqAdaptTLFloorNs) && decide (tL ≤ mlfqAdaptTLCeilNs)
    && decide (tH ≥ mlfqAdaptTHFloorNs) && decide (tH ≤ mlfqAdaptTHCeilNs)
    && decide (tInt ≥ mlfqAdaptTIntFloorNs) && decide (tInt ≤ mlfqAdaptTIntCeilNs)
    && decide (tBnd ≥ mlfqAdaptTBndFloorNs) && decide (tBnd ≤ mlfqAdaptTBndCeilNs)

/-! ## The same over words that refuse to wrap -/

/-- `mlfq_sys_lat_fold`, checked. -/
def mlfqSysLatFoldChecked (latEma waitTotal waitCount elapsed halfLife maxNs : U64) :
    Option U64 :=
  if waitCount = 0 then some latEma
  else do
    let avg ← Checked.div waitTotal waitCount
    let avg := if avg > maxNs then maxNs else avg
    let factor ← mlfqEmaDecayChecked fpOne elapsed halfLife
    let decayed ← mlfqEmaDecayChecked latEma elapsed halfLife
    let rest ← Checked.sub fpOne factor
    let scaled ← Checked.mul avg rest
    let rise ← Checked.div scaled fpOne
    let v ← Checked.add decayed rise
    some (if v > maxNs then maxNs else v)

/-- `mlfq_sys_rate_step`, checked. -/
def mlfqSysRateStepChecked (rateEma : U64) (wakeupCnt : U32) (elapsed : U64) :
    Option U64 := do
  let elapsed := rateWindow elapsed
  let scaled ← Checked.mul (wakeupCnt.setWidth 64) nsecPerSec
  let rateI ← Checked.div scaled elapsed
  let rateI := if rateI > mlfqSysRateMax then mlfqSysRateMax else rateI
  let rateIFp ← Checked.shl rateI 8
  let factor ← mlfqEmaDecayChecked fpOne elapsed mlfqSysGaugeHalfLifeNs
  let kept ← Checked.mul rateEma factor
  let kept ← Checked.div kept fpOne
  let rest ← Checked.sub fpOne factor
  let rise ← Checked.mul rateIFp rest
  let rise ← Checked.div rise fpOne
  Checked.add kept rise

/-- `mlfq_adapt_shift_target`, checked. -/
def mlfqAdaptShiftTargetChecked (latEma rateEma : U64) : Option Int := do
  let lat ← Checked.toSigned latEma
  let err ← Checked.signed 64 (lat - mlfqAdaptTargetLatNs.toInt)
  let mag : U64 := if err < 0 then 0 else BitVec.ofInt 64 err
  let scaled ← Checked.mul mag mlfqAdaptK
  let scaled ← Checked.div scaled mlfqAdaptTargetLatNs
  let target ← Checked.toSigned scaled
  let target := if target > mlfqAdaptMaxShift.toInt then mlfqAdaptMaxShift.toInt else target
  some (if rateEma > mlfqAdaptRateGateHigh ∧ target > mlfqAdaptRateGateShift.toInt
    then mlfqAdaptRateGateShift.toInt else target)

/-- `mlfq_adapt_slew`, checked. -/
def mlfqAdaptSlewChecked (prev target : Int) : Option Int := do
  let step ← Checked.signed 64 (target - prev)
  let step := if step > mlfqAdaptMaxStep.toInt then mlfqAdaptMaxStep.toInt else step
  let least ← Checked.signed 64 (-mlfqAdaptMaxStep.toInt)
  let step := if step < least then least else step
  Checked.signed 64 (prev + step)

/-- `mlfq_adapt_band`, checked. -/
def mlfqAdaptBandChecked (base : U64) (shiftFp : Int) (floor ceil : U64) : Option U64 := do
  let v ← Checked.toSigned base
  let mag ← Checked.signed 64 (if shiftFp < 0 then -shiftFp else shiftFp)
  let scaled ← Checked.mul base (BitVec.ofInt 64 mag)
  let scaled ← Checked.div scaled fpOne
  let scaled ← Checked.toSigned scaled
  let v ← Checked.signed 64 (if shiftFp < 0 then v - scaled else v + scaled)
  let least ← Checked.toSigned floor
  let most ← Checked.toSigned ceil
  let v := if v < least then least else v
  let v := if v > most then most else v
  some (BitVec.ofInt 64 v)

/-! ## The gauges -/

theorem decayFits_sysGauge : DecayFits mlfqSysGaugeHalfLifeNs := ⟨by decide, by decide⟩

/-- The fold keeps the ceiling of the latency gauge. -/
theorem mlfqSysLatFold_le {latEma maxNs : U64} (h : latEma.toNat ≤ maxNs.toNat)
    (waitTotal waitCount elapsed halfLife : U64) :
    (mlfqSysLatFold latEma waitTotal waitCount elapsed halfLife maxNs).toNat
      ≤ maxNs.toNat := by
  simp only [mlfqSysLatFold]
  split
  · exact h
  · exact Checked.toNat_cap_le ..

/-- The factor of a decay is at most one. -/
theorem decayOne_le (elapsed : U64) :
    (mlfqEmaDecay fpOne elapsed mlfqSysGaugeHalfLifeNs).toNat ≤ 256 :=
  mlfqEmaDecay_le decayFits_sysGauge (by decide)

/-- **The latency fold does not wrap** while the gauge is within its
ceiling. -/
theorem mlfqSysLatFoldChecked_eq {latEma : U64} (hlat : latEma.toNat ≤ mlfqSysLatMaxNs.toNat)
    (waitTotal waitCount elapsed : U64) :
    mlfqSysLatFoldChecked latEma waitTotal waitCount elapsed mlfqSysGaugeHalfLifeNs
        mlfqSysLatMaxNs
      = some (mlfqSysLatFold latEma waitTotal waitCount elapsed mlfqSysGaugeHalfLifeNs
          mlfqSysLatMaxNs) := by
  have hmax : mlfqSysLatMaxNs.toNat = 16000000 := rfl
  have hlatFits : latEma.toNat * 256 < 2 ^ 64 := by omega
  have honeFits : fpOne.toNat * 256 < 2 ^ 64 := by decide
  by_cases hcount : waitCount = 0
  · simp only [mlfqSysLatFoldChecked, mlfqSysLatFold, if_pos hcount]
  have hcount' : waitCount.toNat ≠ 0 := by
    intro hzero
    exact hcount (BitVec.eq_of_toNat_eq hzero)
  have hone : fpOne.toNat ≠ 0 := by decide
  have hfactor := decayOne_le elapsed
  have hdecayed := @mlfqEmaDecay_le latEma elapsed _ decayFits_sysGauge hlatFits
  simp only [mlfqSysLatFoldChecked, mlfqSysLatFold, if_neg hcount, Checked.div_eq hcount',
    Option.bind_eq_bind, Option.bind_some,
    mlfqEmaDecayChecked_eq decayFits_sysGauge honeFits,
    mlfqEmaDecayChecked_eq decayFits_sysGauge hlatFits]
  have havg : (if waitTotal / waitCount > mlfqSysLatMaxNs then mlfqSysLatMaxNs
      else waitTotal / waitCount).toNat ≤ mlfqSysLatMaxNs.toNat := Checked.toNat_cap_le ..
  generalize (if waitTotal / waitCount > mlfqSysLatMaxNs then mlfqSysLatMaxNs
    else waitTotal / waitCount) = avg at havg ⊢
  generalize mlfqEmaDecay fpOne elapsed mlfqSysGaugeHalfLifeNs = factor at hfactor ⊢
  generalize mlfqEmaDecay latEma elapsed mlfqSysGaugeHalfLifeNs = decayed at hdecayed ⊢
  have hrest : factor.toNat ≤ fpOne.toNat := hfactor
  have hrestLe : (fpOne - factor).toNat ≤ 256 := by
    rw [Checked.toNat_sub hrest]
    exact Nat.sub_le _ _
  have hprod : avg.toNat * (fpOne - factor).toNat ≤ 16000000 * 256 :=
    Nat.mul_le_mul (by omega) hrestLe
  have hscaled : avg.toNat * (fpOne - factor).toNat < 2 ^ 64 := by omega
  have hrise : (avg * (fpOne - factor) / fpOne).toNat ≤ 16000000 * 256 := by
    rw [BitVec.toNat_udiv, BitVec.toNat_mul_of_lt hscaled]
    exact Nat.le_trans (Nat.div_le_self _ _) hprod
  have hsum : decayed.toNat + (avg * (fpOne - factor) / fpOne).toNat < 2 ^ 64 := by omega
  simp only [Checked.sub_eq hrest, Checked.mul_eq hscaled, Checked.div_eq hone,
    Checked.add_eq hsum, Option.bind_some]

/-- The ceiling of the rate gauge. -/
def rateCeil : Nat := (mlfqSysRateMax <<< 8).toNat

/-- The numbers of a rate fold: the two summands, and the sum within the
ceiling. -/
theorem rateFold_fits {rateEma rateIFp factor : U64} (hrate : rateEma.toNat ≤ rateCeil)
    (hnow : rateIFp.toNat ≤ rateCeil) (hfactor : factor.toNat ≤ 256) :
    rateEma.toNat * factor.toNat < 2 ^ 64
      ∧ rateIFp.toNat * (fpOne - factor).toNat < 2 ^ 64
      ∧ (rateEma * factor / fpOne).toNat + (rateIFp * (fpOne - factor) / fpOne).toNat
        ≤ rateCeil := by
  have hceil : rateCeil = 256000000 := rfl
  have hrest : (fpOne - factor).toNat = 256 - factor.toNat := Checked.toNat_sub hfactor
  have hkept : rateEma.toNat * factor.toNat ≤ 256000000 * factor.toNat :=
    Nat.mul_le_mul_right _ (by omega)
  have hrise : rateIFp.toNat * (fpOne - factor).toNat ≤ 256000000 * (256 - factor.toNat) := by
    rw [hrest]
    exact Nat.mul_le_mul_right _ (by omega)
  have hkeptFits : rateEma.toNat * factor.toNat < 2 ^ 64 := by omega
  have hriseFits : rateIFp.toNat * (fpOne - factor).toNat < 2 ^ 64 := by omega
  refine ⟨hkeptFits, hriseFits, ?_⟩
  rw [BitVec.toNat_udiv, BitVec.toNat_udiv, BitVec.toNat_mul_of_lt hkeptFits,
    BitVec.toNat_mul_of_lt hriseFits]
  show _ / 256 + _ / 256 ≤ _
  omega

/-- The instantaneous rate in the fixed point, within the ceiling. -/
theorem rateNow_le {rateI : U64} (h : rateI.toNat ≤ mlfqSysRateMax.toNat) :
    rateI.toNat * 2 ^ 8 < 2 ^ 64 ∧ (rateI <<< 8).toNat ≤ rateCeil := by
  have hmax : mlfqSysRateMax.toNat = 1000000 := rfl
  have hfits : rateI.toNat * 2 ^ 8 < 2 ^ 64 := by omega
  refine ⟨hfits, ?_⟩
  rw [Checked.toNat_shl hfits]
  show _ ≤ 256000000
  omega

/-- The fold keeps the ceiling of the rate gauge. -/
theorem mlfqSysRateStep_le {rateEma : U64} (hrate : rateEma.toNat ≤ rateCeil)
    (wakeupCnt : U32) (elapsed : U64) :
    (mlfqSysRateStep rateEma wakeupCnt elapsed).toNat ≤ rateCeil := by
  simp only [mlfqSysRateStep]
  generalize rateWindow elapsed = window
  have hnow := (rateNow_le (Checked.toNat_cap_le
    (wakeupCnt.setWidth 64 * nsecPerSec / window) mlfqSysRateMax)).2
  generalize (if wakeupCnt.setWidth 64 * nsecPerSec / window > mlfqSysRateMax
    then mlfqSysRateMax else wakeupCnt.setWidth 64 * nsecPerSec / window) <<< 8 = rateIFp
    at hnow ⊢
  obtain ⟨-, -, hsum⟩ := rateFold_fits hrate hnow (decayOne_le window)
  have hceil : rateCeil < 2 ^ 64 := by decide
  rw [BitVec.toNat_add_of_lt (Nat.lt_of_le_of_lt hsum hceil)]
  exact hsum

theorem rateWindow_pos (elapsed : U64) : (rateWindow elapsed).toNat ≠ 0 := by
  have hmin : mlfqAdaptMinIntervalNs.toNat = 1000000000 := rfl
  have hmax : mlfqSysRateWindowMaxNs.toNat = 60000000000 := rfl
  simp only [rateWindow]
  split
  · split <;> omega
  · split <;> bv_omega

/-- A 32-bit arrival count scaled to the second fits. -/
theorem arrivals_fit (wakeupCnt : U32) :
    (wakeupCnt.setWidth 64).toNat * nsecPerSec.toNat < 2 ^ 64 := by
  have hsec : nsecPerSec.toNat = 1000000000 := rfl
  have hcount := wakeupCnt.isLt
  rw [BitVec.toNat_setWidth_of_le (by omega), hsec]
  omega

/-- **The rate fold does not wrap** while the gauge is within its
ceiling. -/
theorem mlfqSysRateStepChecked_eq {rateEma : U64} (hrate : rateEma.toNat ≤ rateCeil)
    (wakeupCnt : U32) (elapsed : U64) :
    mlfqSysRateStepChecked rateEma wakeupCnt elapsed
      = some (mlfqSysRateStep rateEma wakeupCnt elapsed) := by
  have hcnt := arrivals_fit wakeupCnt
  have honeFits : fpOne.toNat * 256 < 2 ^ 64 := by decide
  have hone : fpOne.toNat ≠ 0 := by decide
  have hwindow := rateWindow_pos elapsed
  simp only [mlfqSysRateStepChecked, mlfqSysRateStep, Option.bind_eq_bind]
  generalize rateWindow elapsed = window at hwindow ⊢
  rw [Checked.mul_eq hcnt, Option.bind_some, Checked.div_eq hwindow, Option.bind_some]
  obtain ⟨hshl, hnow⟩ := rateNow_le (Checked.toNat_cap_le
    (wakeupCnt.setWidth 64 * nsecPerSec / window) mlfqSysRateMax)
  rw [Checked.shl_eq hshl, Option.bind_some,
    mlfqEmaDecayChecked_eq decayFits_sysGauge honeFits, Option.bind_some]
  generalize (if wakeupCnt.setWidth 64 * nsecPerSec / window > mlfqSysRateMax
    then mlfqSysRateMax else wakeupCnt.setWidth 64 * nsecPerSec / window) <<< 8 = rateIFp
    at hnow ⊢
  have hfactor := decayOne_le window
  generalize mlfqEmaDecay fpOne window mlfqSysGaugeHalfLifeNs = factor at hfactor ⊢
  obtain ⟨hkept, hrise, hsum⟩ := rateFold_fits hrate hnow hfactor
  have hrest : factor.toNat ≤ fpOne.toNat := hfactor
  have hceil : rateCeil < 2 ^ 64 := by decide
  have hsumFits := Nat.lt_of_le_of_lt hsum hceil
  rw [Checked.mul_eq hkept, Option.bind_some, Checked.div_eq hone, Option.bind_some,
    Checked.sub_eq hrest, Option.bind_some, Checked.mul_eq hrise, Option.bind_some,
    Checked.div_eq hone, Option.bind_some, Checked.add_eq hsumFits]

/-! ## The control law -/

theorem toInt_eq {x : U64} (h : 2 * x.toNat < 2 ^ 64) : x.toInt = x.toNat :=
  BitVec.toInt_eq_toNat_of_lt h

/-- The scaled error is far below the sign bit, whatever the product. -/
theorem scaledError_small (x : U64) : 2 * (x / mlfqAdaptTargetLatNs).toNat < 2 ^ 64 := by
  have htarget : mlfqAdaptTargetLatNs.toNat = 1000000 := rfl
  have hx := x.isLt
  rw [BitVec.toNat_udiv, htarget]
  omega

/-- **The target** lies in the shift range for every pair of gauges. -/
theorem mlfqAdaptShiftTarget_mem (latEma rateEma : U64) :
    0 ≤ mlfqAdaptShiftTarget latEma rateEma ∧ mlfqAdaptShiftTarget latEma rateEma ≤ 128 := by
  have hmax : mlfqAdaptMaxShift.toInt = 128 := by decide
  have hgate : mlfqAdaptRateGateShift.toInt = 64 := by decide
  simp only [mlfqAdaptShiftTarget, hmax, hgate]
  generalize (if s64 (latEma.toInt - mlfqAdaptTargetLatNs.toInt) < 0 then (0 : U64)
    else BitVec.ofInt 64 (s64 (latEma.toInt - mlfqAdaptTargetLatNs.toInt))) * mlfqAdaptK = x
  rw [toInt_eq (scaledError_small x)]
  split <;> split <;> omega

/-- A gate that is on caps the number. -/
theorem gate_le {on : Prop} [Decidable on] {x cap : Int} (h : on) :
    (if on ∧ x > cap then cap else x) ≤ cap := by
  by_cases hx : x > cap
  · rw [if_pos ⟨h, hx⟩]
  · rw [if_neg fun hboth => hx hboth.2]
    exact Int.not_lt.mp hx

/-- **The storm gate**: above it the target stays in the lower half. -/
theorem mlfqAdaptShiftTarget_gated {latEma rateEma : U64} (h : rateEma > mlfqAdaptRateGateHigh) :
    mlfqAdaptShiftTarget latEma rateEma ≤ mlfqAdaptRateGateShift.toInt := by
  exact gate_le h

/-- The error of a gauge within its ceiling, and its product with the
gain. -/
theorem shiftError_fits {latEma : U64} (hlat : latEma.toNat ≤ mlfqSysLatMaxNs.toNat) :
    2 * latEma.toNat < 2 ^ 64
      ∧ (-2 ^ 64 ≤ 2 * (latEma.toInt - mlfqAdaptTargetLatNs.toInt)
        ∧ 2 * (latEma.toInt - mlfqAdaptTargetLatNs.toInt) < 2 ^ 64)
      ∧ (if latEma.toInt - mlfqAdaptTargetLatNs.toInt < 0 then (0 : U64)
          else BitVec.ofInt 64 (latEma.toInt - mlfqAdaptTargetLatNs.toInt)).toNat
        * mlfqAdaptK.toNat < 2 ^ 64 := by
  have hmax : mlfqSysLatMaxNs.toNat = 16000000 := rfl
  have hk : mlfqAdaptK.toNat = 128 := rfl
  have htarget : mlfqAdaptTargetLatNs.toInt = 1000000 := by decide
  have hsmall : 2 * latEma.toNat < 2 ^ 64 := by omega
  rw [toInt_eq hsmall, htarget, hk]
  refine ⟨hsmall, ⟨by omega, by omega⟩, ?_⟩
  split
  · decide
  · rw [BitVec.toNat_ofInt]
    omega

theorem mlfqAdaptShiftTargetChecked_eq {latEma : U64}
    (hlat : latEma.toNat ≤ mlfqSysLatMaxNs.toNat) (rateEma : U64) :
    mlfqAdaptShiftTargetChecked latEma rateEma = some (mlfqAdaptShiftTarget latEma rateEma) := by
  obtain ⟨hsmall, herr, hprod⟩ := shiftError_fits hlat
  have htarget : mlfqAdaptTargetLatNs.toNat ≠ 0 := by decide
  simp only [mlfqAdaptShiftTargetChecked, mlfqAdaptShiftTarget, Option.bind_eq_bind]
  rw [Checked.toSigned_eq hsmall, Option.bind_some, Checked.signed_eq herr, Option.bind_some,
    s64, Checked.wrapped_eq herr, Checked.mul_eq hprod, Option.bind_some,
    Checked.div_eq htarget, Option.bind_some, Checked.toSigned_eq (scaledError_small _),
    Option.bind_some]

/-! ## The slew -/

section Slew

variable {prev target : Int}

/-- **The slew** between two shifts of the range is the limited move, and
does not wrap. -/
theorem mlfqAdaptSlew_eq (hprev : 0 ≤ prev ∧ prev ≤ 128) (htarget : 0 ≤ target ∧ target ≤ 128) :
    mlfqAdaptSlewChecked prev target = some (mlfqAdaptSlew prev target)
      ∧ mlfqAdaptSlew prev target = Slew.slew 25 prev target := by
  have hmax : mlfqAdaptMaxStep.toInt = 25 := by decide
  have hdiff : (-2 ^ 64 ≤ 2 * (target - prev)) ∧ 2 * (target - prev) < 2 ^ 64 := by omega
  have hleast : ((-2 ^ 64 : Int) ≤ 2 * -25) ∧ (2 * -25 : Int) < 2 ^ 64 := by omega
  simp only [mlfqAdaptSlewChecked, mlfqAdaptSlew, hmax, Checked.signed_eq hdiff,
    Checked.signed_eq hleast, Option.bind_eq_bind, Option.bind_some, s64,
    Checked.wrapped_eq hdiff, Checked.wrapped_eq hleast]
  have hmove : (if (if target - prev > 25 then 25 else target - prev) < -25 then -25
      else if target - prev > 25 then 25 else target - prev)
        = max (-25) (min 25 (target - prev)) := by
    split <;> split <;> omega
  rw [hmove]
  have hsum : (-2 ^ 64 ≤ 2 * (prev + max (-25) (min 25 (target - prev))))
      ∧ 2 * (prev + max (-25) (min 25 (target - prev))) < 2 ^ 64 := by omega
  rw [Checked.signed_eq hsum, Checked.wrapped_eq hsum]
  exact ⟨rfl, rfl⟩

end Slew

/-! ## The band edges -/

/-- What a band needs of its parameters: numbers far below the sign bit,
and bounds in order. -/
structure BandFits (base floor ceil : U64) : Prop where
  base_lt : base.toNat < 2 ^ 40
  ceil_lt : ceil.toNat < 2 ^ 40
  floor_le : floor.toNat ≤ ceil.toNat

section Band

variable {base floor ceil : U64} {shiftFp : Int}

/-- **The edge in numbers**: the base and its share of the shift, clamped
to the bounds, with no step that wraps. -/
theorem mlfqAdaptBand_eq (hfit : BandFits base floor ceil) (hs : 0 ≤ shiftFp ∧ shiftFp ≤ 128) :
    mlfqAdaptBandChecked base shiftFp floor ceil
        = some (mlfqAdaptBand base shiftFp floor ceil)
      ∧ (mlfqAdaptBand base shiftFp floor ceil).toNat
        = min ceil.toNat (max floor.toNat (base.toNat + base.toNat * shiftFp.toNat / 256)) := by
  obtain ⟨hbase, hceil, hfloor⟩ := hfit
  obtain ⟨k, rfl⟩ := Int.eq_ofNat_of_zero_le hs.1
  have hk : k ≤ 128 := by omega
  have hneg : ¬ ((k : Int) < 0) := by omega
  have hone : fpOne.toNat ≠ 0 := by decide
  have hword : (BitVec.ofInt 64 (k : Int)).toNat = k := by
    rw [BitVec.toNat_ofInt]
    omega
  have hprod : base.toNat * k ≤ base.toNat * 128 := Nat.mul_le_mul_left _ hk
  have hprodFits : base.toNat * (BitVec.ofInt 64 (k : Int)).toNat < 2 ^ 64 := by
    rw [hword]
    omega
  have hscaled : (base * BitVec.ofInt 64 (k : Int) / fpOne).toNat = base.toNat * k / 256 := by
    rw [BitVec.toNat_udiv, BitVec.toNat_mul_of_lt hprodFits, hword]
    rfl
  have hbaseSmall : 2 * base.toNat < 2 ^ 64 := by omega
  have hceilSmall : 2 * ceil.toNat < 2 ^ 64 := by omega
  have hfloorSmall : 2 * floor.toNat < 2 ^ 64 := by omega
  have hscaledSmall : 2 * (base * BitVec.ofInt 64 (k : Int) / fpOne).toNat < 2 ^ 64 := by omega
  have hmag : (-2 ^ 64 ≤ 2 * (k : Int)) ∧ 2 * (k : Int) < 2 ^ 64 := by omega
  have hsum : (-2 ^ 64 ≤ 2 * (base.toInt + (base * BitVec.ofInt 64 (k : Int) / fpOne).toInt))
      ∧ 2 * (base.toInt + (base * BitVec.ofInt 64 (k : Int) / fpOne).toInt) < 2 ^ 64 := by
    rw [toInt_eq hbaseSmall, toInt_eq hscaledSmall]
    omega
  simp only [mlfqAdaptBandChecked, mlfqAdaptBand, if_neg hneg, Option.bind_eq_bind]
  constructor
  · rw [Checked.toSigned_eq hbaseSmall, Option.bind_some, Checked.signed_eq hmag,
      Option.bind_some, Checked.mul_eq hprodFits, Option.bind_some, Checked.div_eq hone,
      Option.bind_some, Checked.toSigned_eq hscaledSmall, Option.bind_some,
      Checked.signed_eq hsum, Option.bind_some, Checked.toSigned_eq hfloorSmall,
      Option.bind_some, Checked.toSigned_eq hceilSmall, Option.bind_some, s64,
      Checked.wrapped_eq hsum]
  · rw [s64, Checked.wrapped_eq hsum, toInt_eq hbaseSmall, toInt_eq hscaledSmall,
      toInt_eq hfloorSmall, toInt_eq hceilSmall, hscaled, BitVec.toNat_ofInt, Int.toNat_natCast]
    split <;> split <;> omega

/-- The edge grows with the shift. -/
theorem mlfqAdaptBand_mono (hfit : BandFits base floor ceil) {s₁ s₂ : Int} (h0 : 0 ≤ s₁)
    (h : s₁ ≤ s₂) (h2 : s₂ ≤ 128) :
    mlfqAdaptBand base s₁ floor ceil ≤ mlfqAdaptBand base s₂ floor ceil := by
  rw [BitVec.le_def, (mlfqAdaptBand_eq hfit ⟨h0, by omega⟩).2,
    (mlfqAdaptBand_eq hfit ⟨by omega, h2⟩).2]
  have hmul : base.toNat * s₁.toNat ≤ base.toNat * s₂.toNat :=
    Nat.mul_le_mul_left _ (by omega)
  have hdiv := @Nat.div_le_div_right _ _ 256 hmul
  omega

/-- The edge stays within its bounds. -/
theorem mlfqAdaptBand_mem (hfit : BandFits base floor ceil)
    (hs : 0 ≤ shiftFp ∧ shiftFp ≤ 128) :
    floor.toNat ≤ (mlfqAdaptBand base shiftFp floor ceil).toNat
      ∧ (mlfqAdaptBand base shiftFp floor ceil).toNat ≤ ceil.toNat := by
  have hfloor := hfit.floor_le
  rw [(mlfqAdaptBand_eq hfit hs).2]
  omega

/-- **The edge at shift zero** is the base exactly when the base lies
within the bounds. -/
theorem mlfqAdaptBand_zero_iff
    (hbounds : ceil.toNat < 2 ^ 40 ∧ floor.toNat ≤ ceil.toNat) :
    mlfqAdaptBand base 0 floor ceil = base ↔ floor ≤ base ∧ base ≤ ceil := by
  obtain ⟨hceil, hfloor⟩ := hbounds
  have hzero : (base * BitVec.ofInt 64 0 / fpOne).toInt = 0 := by
    have hnone : BitVec.ofInt 64 0 = (0 : U64) := rfl
    rw [hnone, mul_zero]
    decide
  have hceilSmall : 2 * ceil.toNat < 2 ^ 64 := by omega
  have hfloorSmall : 2 * floor.toNat < 2 ^ 64 := by omega
  have hlt := base.isLt
  have hbase : (-2 ^ 64 ≤ 2 * base.toInt) ∧ 2 * base.toInt < 2 ^ 64 := by
    rw [BitVec.toInt_eq_toNat_cond]
    split <;> omega
  simp only [mlfqAdaptBand, lt_irrefl, if_false, hzero, add_zero, s64,
    Checked.wrapped_eq hbase, toInt_eq hfloorSmall, toInt_eq hceilSmall, BitVec.le_def,
    ← BitVec.toNat_inj, BitVec.toNat_ofInt]
  -- a base with its top bit set is a negative number and falls to the floor
  by_cases hsmall : 2 * base.toNat < 2 ^ 64
  · rw [toInt_eq hsmall]
    split <;> split <;> omega
  · have hneg : base.toInt < 0 := by
      rw [BitVec.toInt_eq_toNat_cond, if_neg hsmall]
      omega
    have hbelow : base.toInt < (floor.toNat : Int) := by omega
    rw [if_pos hbelow]
    split <;> omega

end Band

end ScxMlfq
