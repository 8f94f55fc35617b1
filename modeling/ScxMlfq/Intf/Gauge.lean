import ScxMlfq.Lib.Checked
import ScxMlfq.Intf.Classification

/-!
# Intf — Gauge

The gauge arithmetic of `src/bpf/intf.h` once more, over words that
refuse to wrap. Each definition is its namesake with every product,
quotient, sum and difference checked; where the operands are within the
bounds the scheduler keeps, the checked computation has a result, so no
step of the plain one wraps and no divisor is zero.
-/

namespace ScxMlfq

/-- `mlfq_ema_climb`, checked. -/
def mlfqEmaClimbChecked (ema delta budgetMax alpha : U64) : Option U64 := do
  let delta := if delta > budgetMax then budgetMax else delta
  let gap ← Checked.sub budgetMax ema
  if gap = 0 then some ema
  else do
    let area ← Checked.mul gap delta
    let rise ← Checked.mul area alpha
    let scale ← Checked.mul budgetMax fpOne
    let step ← Checked.div rise scale
    let step := if step > gap then gap else step
    Checked.add ema step

/-- `mlfq_ema_decay`, checked. -/
def mlfqEmaDecayChecked (ema sleepNs halfLife : U64) : Option U64 := do
  let horizon ← Checked.shl halfLife 6
  if sleepNs ≥ horizon then some 0
  else do
    let periods ← Checked.div sleepNs halfLife
    let sub ← Checked.mod sleepNs halfLife
    let decayed := ema >>> periods.toNat
    if sub = 0 ∨ decayed = 0 then some decayed
    else do
      let subFp ← Checked.mul sub fpOne
      let xFp ← Checked.div subFp halfLife
      let xLn2 ← Checked.mul xFp 177
      let aFp ← Checked.div xLn2 fpOne
      let aSq ← Checked.mul aFp aFp
      let two ← Checked.shl fpOne 1
      let residual ← Checked.div aSq two
      let linear ← Checked.sub fpOne aFp
      let factorFp ← Checked.add linear residual
      let scaled ← Checked.mul decayed factorFp
      Checked.div scaled fpOne

/-- `calc_delta_fair_bpf`, checked. -/
def calcDeltaFairChecked (delta : U64) (weight : U32) : Option U64 := do
  let scaled ← Checked.mul delta 100
  Checked.div scaled (weight.setWidth 64)

/-- `mlfq_cpuperf_from_ema`, checked. -/
def mlfqCpuperfFromEmaChecked (ema : U64) : Option U64 := do
  let scaled ← Checked.mul ema mlfqCpuperfQ1
  let perf ← Checked.div scaled mlfqBudgetMaxNs
  some (if perf > mlfqCpuperfQ1 then mlfqCpuperfQ1 else perf)

/-! ## The climb -/

/-- What the climb needs of its parameters: the largest rise and its
scale fit. -/
structure ClimbFits (budgetMax alpha : U64) : Prop where
  area : budgetMax.toNat * budgetMax.toNat < 2 ^ 64
  rise : budgetMax.toNat * budgetMax.toNat * alpha.toNat < 2 ^ 64
  scale : budgetMax.toNat * 256 < 2 ^ 64

section Climb

variable {ema delta budgetMax alpha : U64}

/-- **The climb does not wrap** below its ceiling. -/
theorem mlfqEmaClimbChecked_eq (hfit : ClimbFits budgetMax alpha)
    (hema : ema.toNat ≤ budgetMax.toNat) :
    mlfqEmaClimbChecked ema delta budgetMax alpha
      = some (mlfqEmaClimb ema delta budgetMax alpha) := by
  have hgap := Checked.toNat_sub hema
  have hdelta : (if delta > budgetMax then budgetMax else delta).toNat ≤ budgetMax.toNat :=
    Checked.toNat_cap_le ..
  simp only [mlfqEmaClimbChecked, mlfqEmaClimb, Checked.sub_eq hema, Option.bind_eq_bind,
    Option.bind_some]
  by_cases hzero : budgetMax - ema = 0
  · rw [if_pos hzero, if_pos hzero]
  rw [if_neg hzero, if_neg hzero]
  generalize (if delta > budgetMax then budgetMax else delta) = d at hdelta ⊢
  generalize hg : budgetMax - ema = gap at hgap hzero ⊢
  -- an empty gauge and a full segment make the largest rise
  have harea : gap.toNat * d.toNat ≤ budgetMax.toNat * budgetMax.toNat :=
    Nat.mul_le_mul (by omega) hdelta
  have hareaFits : gap.toNat * d.toNat < 2 ^ 64 := lt_of_le_of_lt harea hfit.area
  have hrise : (gap * d).toNat * alpha.toNat < 2 ^ 64 := by
    rw [BitVec.toNat_mul_of_lt hareaFits]
    exact lt_of_le_of_lt (Nat.mul_le_mul_right _ harea) hfit.rise
  have hscaleFits : budgetMax.toNat * fpOne.toNat < 2 ^ 64 := hfit.scale
  have hscale : (budgetMax * fpOne).toNat = budgetMax.toNat * 256 :=
    BitVec.toNat_mul_of_lt hscaleFits
  have hdiv : (budgetMax * fpOne).toNat ≠ 0 := by
    rw [hscale]
    bv_omega
  have hstep : ema.toNat
      + (if gap * d * alpha / (budgetMax * fpOne) > gap then gap
          else gap * d * alpha / (budgetMax * fpOne)).toNat < 2 ^ 64 := by
    have := budgetMax.isLt
    split <;> bv_omega
  simp only [Checked.mul_eq hareaFits, Checked.mul_eq hrise, Checked.mul_eq hscaleFits,
    Checked.div_eq hdiv, Option.bind_some]
  exact Checked.add_eq hstep

/-- **The climb keeps the ceiling.** -/
theorem mlfqEmaClimb_le (hema : ema.toNat ≤ budgetMax.toNat) :
    (mlfqEmaClimb ema delta budgetMax alpha).toNat ≤ budgetMax.toNat := by
  simp only [mlfqEmaClimb]
  generalize (if delta > budgetMax then budgetMax else delta) = d
  split
  · exact hema
  · generalize (budgetMax - ema) * d * alpha / (budgetMax * fpOne) = step
    split <;> bv_omega

end Climb

/-! ## The decay -/

/-- What the decay needs of its parameters: a half-life that is not zero,
below which every sleep fits shifted by the fixed point. -/
structure DecayFits (halfLife : U64) : Prop where
  pos : 0 < halfLife.toNat
  scale : (halfLife.toNat - 1) * 256 < 2 ^ 64

section Decay

variable {ema sleepNs halfLife : U64}

/-- The fixed-point factor of the fraction `x` of a half-life. -/
def decayFactor (xFp : U64) : U64 :=
  let aFp := xFp * 177 / fpOne
  fpOne - aFp + (aFp * aFp) / (fpOne <<< 1)

/-- The logarithm of the fraction, below one. -/
theorem toNat_decayLog {x : U64} (hx : x.toNat ≤ 255) :
    (x * 177 / fpOne).toNat = x.toNat * 177 / 256 := by
  rw [BitVec.toNat_udiv, BitVec.toNat_mul_of_lt]
  · rfl
  · show x.toNat * 177 < 2 ^ 64
    omega

/-- **The factor** stays in the fixed point's unit interval. -/
theorem toNat_decayFactor {x : U64} (hx : x.toNat ≤ 255) :
    (decayFactor x).toNat
        = 256 - x.toNat * 177 / 256 + (x.toNat * 177 / 256) * (x.toNat * 177 / 256) / 512
      ∧ (decayFactor x).toNat ≤ 256 := by
  have hlog := toNat_decayLog hx
  have hsmall : x.toNat * 177 / 256 ≤ 176 := by omega
  generalize ha : x.toNat * 177 / 256 = a at hlog hsmall
  have hsq : a * a ≤ 176 * a := Nat.mul_le_mul_right a hsmall
  simp only [decayFactor]
  generalize x * 177 / fpOne = y at hlog
  have hlin : (fpOne - y).toNat = 256 - a := by
    rw [Checked.toNat_sub (by rw [hlog]; show a ≤ 256; omega), hlog]
    rfl
  have hres : (y * y / (fpOne <<< 1)).toNat = a * a / 512 := by
    rw [BitVec.toNat_udiv, BitVec.toNat_mul_of_lt (by rw [hlog]; omega), hlog]
    rfl
  have hsum : (fpOne - y + y * y / (fpOne <<< 1)).toNat = 256 - a + a * a / 512 := by
    rw [BitVec.toNat_add_of_lt (by rw [hlin, hres]; omega), hlin, hres]
  rw [hsum]
  exact ⟨rfl, by omega⟩

theorem mlfqEmaDecay_eq :
    mlfqEmaDecay ema sleepNs halfLife
      = if sleepNs ≥ halfLife <<< 6 then 0
        else if sleepNs % halfLife = 0 ∨ ema >>> (sleepNs / halfLife).toNat = 0
        then ema >>> (sleepNs / halfLife).toNat
        else ema >>> (sleepNs / halfLife).toNat
          * decayFactor (sleepNs % halfLife * fpOne / halfLife) / fpOne := rfl

/-- The fraction of a half-life that is left, in the fixed point. -/
theorem toNat_fraction (hfit : DecayFits halfLife) :
    (sleepNs % halfLife).toNat * fpOne.toNat < 2 ^ 64
      ∧ (sleepNs % halfLife * fpOne / halfLife).toNat ≤ 255 := by
  have hpos := hfit.pos
  have hlt : (sleepNs % halfLife).toNat < halfLife.toNat := by
    rw [BitVec.toNat_umod]
    exact Nat.mod_lt _ hpos
  have hfits : (sleepNs % halfLife).toNat * fpOne.toNat < 2 ^ 64 := by
    have hle : (sleepNs % halfLife).toNat * 256 ≤ (halfLife.toNat - 1) * 256 :=
      Nat.mul_le_mul_right 256 (by omega)
    exact lt_of_le_of_lt hle hfit.scale
  refine ⟨hfits, ?_⟩
  rw [BitVec.toNat_udiv, BitVec.toNat_mul_of_lt hfits]
  have : (sleepNs % halfLife).toNat * 256 / halfLife.toNat < 256 := by
    rw [Nat.div_lt_iff_lt_mul hpos, Nat.mul_comm]
    exact (Nat.mul_lt_mul_left (by decide)).mpr hlt
  exact Nat.le_of_lt_succ this

/-- The last product of the decay fits. -/
theorem decayed_mul_factor {d x : U64} (hd : d.toNat ≤ ema.toNat)
    (hema : ema.toNat * 256 < 2 ^ 64) (hx : x.toNat ≤ 255) :
    d.toNat * (decayFactor x).toNat ≤ d.toNat * 256
      ∧ d.toNat * (decayFactor x).toNat < 2 ^ 64 := by
  have h := Nat.mul_le_mul_left d.toNat (toNat_decayFactor hx).2
  exact ⟨h, by omega⟩

/-- **A decay never grows the gauge.** -/
theorem mlfqEmaDecay_le (hfit : DecayFits halfLife) (hema : ema.toNat * 256 < 2 ^ 64) :
    (mlfqEmaDecay ema sleepNs halfLife).toNat ≤ ema.toNat := by
  have hshift := Checked.toNat_shr_le ema (sleepNs / halfLife).toNat
  rw [mlfqEmaDecay_eq]
  split
  · exact Nat.zero_le _
  · split
    · exact hshift
    · generalize ema >>> (sleepNs / halfLife).toNat = d at hshift ⊢
      have hx := (@toNat_fraction sleepNs halfLife hfit).2
      obtain ⟨hle, hlt⟩ := decayed_mul_factor hshift hema hx
      rw [BitVec.toNat_udiv, BitVec.toNat_mul_of_lt hlt]
      show _ / 256 ≤ _
      omega

/-- **The decay does not wrap** for any sleep. -/
theorem mlfqEmaDecayChecked_eq (hfit : DecayFits halfLife) (hema : ema.toNat * 256 < 2 ^ 64) :
    mlfqEmaDecayChecked ema sleepNs halfLife = some (mlfqEmaDecay ema sleepNs halfLife) := by
  have hpos : halfLife.toNat ≠ 0 := Nat.ne_of_gt hfit.pos
  have hhorizon : halfLife.toNat * 2 ^ 6 < 2 ^ 64 := by
    have := hfit.scale
    omega
  have hshift := Checked.toNat_shr_le ema (sleepNs / halfLife).toNat
  obtain ⟨hsub, hx⟩ := @toNat_fraction sleepNs halfLife hfit
  rw [mlfqEmaDecay_eq]
  simp only [mlfqEmaDecayChecked, Checked.shl_eq hhorizon, Option.bind_eq_bind,
    Option.bind_some]
  by_cases hlong : sleepNs ≥ halfLife <<< 6
  · rw [if_pos hlong, if_pos hlong]
  rw [if_neg hlong, if_neg hlong]
  simp only [Checked.div_eq hpos, Checked.mod_eq hpos, Option.bind_some]
  by_cases hwhole : sleepNs % halfLife = 0 ∨ ema >>> (sleepNs / halfLife).toNat = 0
  · rw [if_pos hwhole, if_pos hwhole]
  rw [if_neg hwhole, if_neg hwhole]
  simp only [Checked.mul_eq hsub, Option.bind_some]
  generalize ema >>> (sleepNs / halfLife).toNat = d at hshift ⊢
  generalize sleepNs % halfLife * fpOne / halfLife = x at hx ⊢
  have hlog := toNat_decayLog hx
  have hln2 : x.toNat * (177 : U64).toNat < 2 ^ 64 := by
    show x.toNat * 177 < 2 ^ 64
    omega
  have hone : fpOne.toNat ≠ 0 := by decide
  have hlast := (decayed_mul_factor hshift hema hx).2
  have hsmall : (x * 177 / fpOne).toNat ≤ 176 := by omega
  simp only [Checked.mul_eq hln2, Checked.div_eq hone, Option.bind_some]
  simp only [decayFactor] at hlast ⊢
  generalize x * 177 / fpOne = a at hlast hsmall ⊢
  have hsq : a.toNat * a.toNat ≤ 176 * 176 := Nat.mul_le_mul hsmall hsmall
  have hsqFits : a.toNat * a.toNat < 2 ^ 64 := lt_of_le_of_lt hsq (by decide)
  have htwo : fpOne.toNat * 2 ^ 1 < 2 ^ 64 := by decide
  have htwoPos : (fpOne <<< 1).toNat ≠ 0 := by decide
  have hlin : a.toNat ≤ fpOne.toNat := Nat.le_trans hsmall (by decide)
  have hres : (a * a / (fpOne <<< 1)).toNat ≤ 176 * 176 := by
    rw [BitVec.toNat_udiv, BitVec.toNat_mul_of_lt hsqFits]
    exact Nat.le_trans (Nat.div_le_self _ _) hsq
  have hsum : (fpOne - a).toNat + (a * a / (fpOne <<< 1)).toNat < 2 ^ 64 := by
    rw [Checked.toNat_sub hlin]
    show 256 - _ + _ < _
    omega
  simp only [Checked.mul_eq hsqFits, Checked.shl_eq htwo, Checked.div_eq htwoPos,
    Checked.sub_eq hlin, Checked.add_eq hsum, Checked.mul_eq hlast,
    Option.bind_some]

end Decay

/-! ## The weighted time scale and the frequency level -/

theorem calcDeltaFairChecked_eq {delta : U64} {weight : U32}
    (hdelta : delta.toNat * 100 < 2 ^ 64) (hweight : weight ≠ 0) :
    calcDeltaFairChecked delta weight = some (calcDeltaFairBpf delta weight) := by
  have hmul : delta.toNat * (100 : U64).toNat < 2 ^ 64 := hdelta
  have hdiv : (weight.setWidth 64).toNat ≠ 0 := by
    rw [BitVec.toNat_setWidth]
    bv_omega
  simp only [calcDeltaFairChecked, Checked.mul_eq hmul, Option.bind_eq_bind, Option.bind_some,
    Checked.div_eq hdiv]
  rfl

/-- The scaled time is at most a hundred times the time. -/
theorem calcDeltaFair_le {delta : U64} {weight : U32} (hdelta : delta.toNat * 100 < 2 ^ 64) :
    (calcDeltaFairBpf delta weight).toNat ≤ delta.toNat * 100 := by
  rw [calcDeltaFairBpf, BitVec.toNat_udiv, BitVec.toNat_mul_of_lt hdelta]
  exact Nat.div_le_self _ _

theorem mlfqCpuperfFromEmaChecked_eq {ema : U64} (h : ema.toNat ≤ mlfqBudgetMaxNs.toNat) :
    mlfqCpuperfFromEmaChecked ema = some (mlfqCpuperfFromEma ema) := by
  have hmul : ema.toNat * mlfqCpuperfQ1.toNat < 2 ^ 64 :=
    lt_of_le_of_lt (Nat.mul_le_mul_right _ h) (by decide)
  have hdiv : mlfqBudgetMaxNs.toNat ≠ 0 := by decide
  simp only [mlfqCpuperfFromEmaChecked, Checked.mul_eq hmul, Option.bind_eq_bind,
    Option.bind_some, Checked.div_eq hdiv]
  rfl

/-- The level is at most the full one. -/
theorem mlfqCpuperfFromEma_le (ema : U64) :
    (mlfqCpuperfFromEma ema).toNat ≤ mlfqCpuperfQ1.toNat :=
  Checked.toNat_cap_le ..

end ScxMlfq
