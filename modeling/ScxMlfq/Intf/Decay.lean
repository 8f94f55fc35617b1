import Mathlib.Tactic.Ring
import ScxMlfq.Intf.Gauge

/-!
# Intf — Decay

The climb and the decay of a gauge as numbers, and their order: both grow
with the gauge, the climb with the run, and the decay falls with the
sleep, across the ends of the half-lives and the cut at 64 of them.
-/

namespace ScxMlfq

/-! ## The weight of a fraction of a half-life -/

/-- `a_fp` of the fraction `x`. -/
def decayLog (x : Nat) : Nat := x * 177 / 256

/-- `factor_fp` of the fraction `x`. -/
def decayWeight (x : Nat) : Nat := 256 - decayLog x + decayLog x * decayLog x / 512

theorem decayLog_le {x : Nat} (h : x ≤ 255) : decayLog x ≤ 176 := by
  unfold decayLog
  omega

theorem decayLog_mono {x y : Nat} (h : x ≤ y) : decayLog x ≤ decayLog y :=
  Nat.div_le_div_right (Nat.mul_le_mul_right 177 h)

@[simp] theorem decayWeight_zero : decayWeight 0 = 256 := rfl

/-- One unit more of the logarithm takes off more than the residual
gives back. -/
theorem residual_succ {a : Nat} (h : a ≤ 255) : (a + 1) * (a + 1) / 512 ≤ a * a / 512 + 1 := by
  have hsq : (a + 1) * (a + 1) = a * a + (2 * a + 1) := by ring
  rw [hsq]
  omega

theorem residual_le {a b : Nat} (hab : a ≤ b) (hb : b ≤ 256) :
    b * b / 512 ≤ a * a / 512 + (b - a) := by
  induction b, hab using Nat.le_induction with
  | base => omega
  | succ b hab ih =>
      have hstep := @residual_succ b (by omega)
      have hlast := ih (by omega)
      omega

/-- **The weight falls with the fraction**, although its two terms move
against each other. -/
theorem decayWeight_antitone {x y : Nat} (h : x ≤ y) (hy : y ≤ 255) :
    decayWeight y ≤ decayWeight x := by
  have hlog := decayLog_mono h
  have hbound := decayLog_le hy
  have hres := residual_le hlog (by omega)
  unfold decayWeight
  omega

theorem decayWeight_le {x : Nat} (h : x ≤ 255) : decayWeight x ≤ 256 := by
  have := decayWeight_antitone (Nat.zero_le x) h
  rwa [decayWeight_zero] at this

/-- The end of a half-life keeps more than half. -/
theorem half_le_decayWeight {x : Nat} (h : x ≤ 255) : 128 ≤ decayWeight x := by
  have hlast := decayWeight_antitone h (Nat.le_refl 255)
  have hvalue : decayWeight 255 = 140 := by decide
  omega

/-! ## What survives a sleep -/

/-- What a sleep leaves of a gauge. -/
def survives (halfLife g s : Nat) : Nat :=
  if 64 * halfLife ≤ s then 0
  else g / 2 ^ (s / halfLife) * decayWeight (s % halfLife * 256 / halfLife) / 256

section Survives
variable {halfLife g g' s s' : Nat}

theorem fraction_le (hpos : 0 < halfLife) (s : Nat) : s % halfLife * 256 / halfLife ≤ 255 := by
  have hlt : s % halfLife * 256 / halfLife < 256 := by
    rw [Nat.div_lt_iff_lt_mul hpos, Nat.mul_comm 256]
    exact Nat.mul_lt_mul_of_pos_right (Nat.mod_lt _ hpos) (by decide)
  omega

theorem survives_mono (h : g ≤ g') : survives halfLife g s ≤ survives halfLife g' s := by
  unfold survives
  split
  · exact Nat.le_refl 0
  · exact Nat.div_le_div_right (Nat.mul_le_mul_right _ (Nat.div_le_div_right h))

/-- A weight of at most one leaves at most the shifted gauge. -/
theorem survives_le_shift (hpos : 0 < halfLife) :
    survives halfLife g s ≤ g / 2 ^ (s / halfLife) := by
  unfold survives
  split
  · exact Nat.zero_le _
  · have hweight := Nat.mul_le_mul_left (g / 2 ^ (s / halfLife))
      (decayWeight_le (fraction_le hpos s))
    omega

theorem survives_le (hpos : 0 < halfLife) : survives halfLife g s ≤ g :=
  Nat.le_trans (survives_le_shift hpos) (Nat.div_le_self _ _)

/-- Before the cut, at least half of the shifted gauge is left. -/
theorem half_shift_le_survives (hpos : 0 < halfLife) (hs : ¬ 64 * halfLife ≤ s) :
    g / 2 ^ (s / halfLife) / 2 ≤ survives halfLife g s := by
  have hweight := Nat.mul_le_mul_left (g / 2 ^ (s / halfLife))
    (half_le_decayWeight (fraction_le hpos s))
  unfold survives
  rw [if_neg hs]
  omega

/-- **A longer sleep leaves no more**, within one half-life by the weight
and across its end by the shift. -/
theorem survives_antitone (hpos : 0 < halfLife) (h : s ≤ s') :
    survives halfLife g s' ≤ survives halfLife g s := by
  by_cases hcut : 64 * halfLife ≤ s'
  · unfold survives
    rw [if_pos hcut]
    exact Nat.zero_le _
  · have hcut' : ¬ 64 * halfLife ≤ s := by omega
    have hperiods : s / halfLife ≤ s' / halfLife := Nat.div_le_div_right h
    rcases Nat.eq_or_lt_of_le hperiods with hsame | hlater
    · -- the same half-life: the fraction grows
      have hrest : s % halfLife ≤ s' % halfLife := by
        have hs := Nat.div_add_mod s halfLife
        have hs' := Nat.div_add_mod s' halfLife
        rw [hsame] at hs
        omega
      have hfraction : s % halfLife * 256 / halfLife ≤ s' % halfLife * 256 / halfLife :=
        Nat.div_le_div_right (Nat.mul_le_mul_right 256 hrest)
      have hweight := decayWeight_antitone hfraction (fraction_le hpos s')
      unfold survives
      rw [if_neg hcut, if_neg hcut', hsame]
      exact Nat.div_le_div_right (Nat.mul_le_mul_left _ hweight)
    · -- a later one: another shift, and no weight below a half before it
      have hhalf := @half_shift_le_survives halfLife g s hpos hcut'
      have hshift : g / 2 ^ (s' / halfLife) ≤ g / 2 ^ (s / halfLife) / 2 := by
        rw [Nat.div_div_eq_div_mul, ← Nat.pow_succ]
        exact Nat.div_le_div_left (Nat.pow_le_pow_right (by decide) hlater)
          (Nat.pow_pos (by decide))
      exact Nat.le_trans (survives_le_shift hpos) (Nat.le_trans hshift hhalf)

end Survives

/-- **The decay is what survives.** -/
theorem mlfqEmaDecay_toNat {ema sleepNs halfLife : U64} (hfit : DecayFits halfLife)
    (hema : ema.toNat * 256 < 2 ^ 64) :
    (mlfqEmaDecay ema sleepNs halfLife).toNat
      = survives halfLife.toNat ema.toNat sleepNs.toNat := by
  have hpos := hfit.pos
  have hhorizon : halfLife.toNat * 2 ^ 6 < 2 ^ 64 := by
    have := hfit.scale
    omega
  have hcut : sleepNs ≥ halfLife <<< 6 ↔ 64 * halfLife.toNat ≤ sleepNs.toNat := by
    rw [ge_iff_le, BitVec.le_def, Checked.toNat_shl hhorizon]
    omega
  have hshift : (ema >>> (sleepNs / halfLife).toNat).toNat
      = ema.toNat / 2 ^ (sleepNs.toNat / halfLife.toNat) := by
    rw [BitVec.toNat_ushiftRight, Nat.shiftRight_eq_div_pow, BitVec.toNat_udiv]
  obtain ⟨hsub, hx⟩ := @toNat_fraction sleepNs halfLife hfit
  have hfraction : (sleepNs % halfLife * fpOne / halfLife).toNat
      = sleepNs.toNat % halfLife.toNat * 256 / halfLife.toNat := by
    rw [BitVec.toNat_udiv, BitVec.toNat_mul_of_lt hsub, BitVec.toNat_umod]
    rfl
  rw [mlfqEmaDecay_eq, survives]
  by_cases hlong : sleepNs ≥ halfLife <<< 6
  · rw [if_pos hlong, if_pos (hcut.mp hlong)]
    rfl
  rw [if_neg hlong, if_neg fun h => hlong (hcut.mpr h)]
  by_cases hplain : sleepNs % halfLife = 0 ∨ ema >>> (sleepNs / halfLife).toNat = 0
  · -- no fraction, or nothing left to scale
    rw [if_pos hplain, hshift]
    rcases hplain with hzero | hzero
    · have hmod : sleepNs.toNat % halfLife.toNat = 0 := by
        rw [← BitVec.toNat_umod, hzero]
        rfl
      rw [hmod, Nat.zero_mul, Nat.zero_div, decayWeight_zero,
        Nat.mul_div_cancel _ (by decide)]
    · have hnone : ema.toNat / 2 ^ (sleepNs.toNat / halfLife.toNat) = 0 := by
        rw [← hshift, hzero]
        rfl
      rw [hnone, Nat.zero_mul, Nat.zero_div]
  · rw [if_neg hplain]
    have hle := Checked.toNat_shr_le ema (sleepNs / halfLife).toNat
    have hlt := (decayed_mul_factor hle hema hx).2
    rw [BitVec.toNat_udiv, BitVec.toNat_mul_of_lt hlt, (toNat_decayFactor hx).1, hshift, hfraction]
    rfl

/-! ## The decay between two shifts -/

section Cut
variable {halfLife g s : Nat}

theorem survives_of_cut (hs : 64 ≤ s / halfLife) : survives halfLife g s = 0 := by
  have hcut : 64 * halfLife ≤ s :=
    Nat.le_trans (Nat.mul_le_mul_right halfLife hs) (Nat.div_mul_le_self s halfLife)
  unfold survives
  rw [if_pos hcut]

/-- A shift by 64 leaves nothing of a word, so the cut is no exception to
the shift. -/
theorem shift_eq_zero_of_cut {more : Nat} (hpos : 0 < halfLife) (hg : g < 2 ^ 64)
    (hcut : 64 * halfLife ≤ s) : g / 2 ^ (s / halfLife + more) = 0 := by
  have hperiods : 64 ≤ s / halfLife := (Nat.le_div_iff_mul_le hpos).mpr hcut
  have hpow : 2 ^ 64 ≤ 2 ^ (s / halfLife + more) :=
    Nat.pow_le_pow_right (by decide) (Nat.le_add_right_of_le hperiods)
  exact Nat.div_eq_of_lt (Nat.lt_of_lt_of_le hg hpow)

/-- Whole half-lives shift. -/
theorem survives_whole (hpos : 0 < halfLife) (hg : g < 2 ^ 64) (hs : s % halfLife = 0) :
    survives halfLife g s = g / 2 ^ (s / halfLife) := by
  unfold survives
  split
  · rename_i hcut
    exact (@shift_eq_zero_of_cut halfLife g s 0 hpos hg hcut).symm
  · rw [hs, Nat.zero_mul, Nat.zero_div, decayWeight_zero, Nat.mul_div_cancel _ (by decide)]

/-- One more shift bounds what survives from below. -/
theorem next_shift_le_survives (hpos : 0 < halfLife) (hg : g < 2 ^ 64) :
    g / 2 ^ (s / halfLife + 1) ≤ survives halfLife g s := by
  by_cases hcut : 64 * halfLife ≤ s
  · rw [shift_eq_zero_of_cut hpos hg hcut]
    exact Nat.zero_le _
  · rw [Nat.pow_succ, ← Nat.div_div_eq_div_mul]
    exact half_shift_le_survives hpos hcut

end Cut

/-- **The decay sandwich** of one call: nothing is left from 64 half-lives
on, whole half-lives shift, every sleep ends between two shifts, no step
wraps, and the factor is between a half and one. -/
structure DecaySandwich (ema sleepNs halfLife : U64) : Prop where
  cut : 64 ≤ sleepNs.toNat / halfLife.toNat → mlfqEmaDecay ema sleepNs halfLife = 0
  whole : sleepNs.toNat % halfLife.toNat = 0 →
    mlfqEmaDecay ema sleepNs halfLife = ema >>> (sleepNs.toNat / halfLife.toNat)
  lower : ema >>> (sleepNs.toNat / halfLife.toNat + 1) ≤ mlfqEmaDecay ema sleepNs halfLife
  upper : mlfqEmaDecay ema sleepNs halfLife ≤ ema >>> (sleepNs.toNat / halfLife.toNat)
  checked : mlfqEmaDecayChecked ema sleepNs halfLife = some (mlfqEmaDecay ema sleepNs halfLife)
  half_le : 128 ≤ (decayFactor (sleepNs % halfLife * fpOne / halfLife)).toNat
  le_one : (decayFactor (sleepNs % halfLife * fpOne / halfLife)).toNat ≤ 256

theorem toNat_shr (g : U64) (n : Nat) : (g >>> n).toNat = g.toNat / 2 ^ n := by
  rw [BitVec.toNat_ushiftRight, Nat.shiftRight_eq_div_pow]

/-- Words below `2 ^ 56` have room for the fixed point. -/
theorem DecaySandwich.of_lt {ema halfLife : U64} (hema : ema.toNat < 2 ^ 56)
    (hpos : 0 < halfLife.toNat) (hhalf : halfLife.toNat < 2 ^ 56) (sleepNs : U64) :
    DecaySandwich ema sleepNs halfLife := by
  have hfit : DecayFits halfLife := ⟨hpos, by omega⟩
  have hscaled : ema.toNat * 256 < 2 ^ 64 := by omega
  have hvalue := @mlfqEmaDecay_toNat ema sleepNs halfLife hfit hscaled
  have hx := (@toNat_fraction sleepNs halfLife hfit).2
  constructor
  · intro hcut
    apply BitVec.eq_of_toNat_eq
    rw [hvalue, survives_of_cut hcut]
    rfl
  · intro hwhole
    apply BitVec.eq_of_toNat_eq
    rw [hvalue, toNat_shr, survives_whole hpos ema.isLt hwhole]
  · rw [BitVec.le_def, hvalue, toNat_shr]
    exact next_shift_le_survives hpos ema.isLt
  · rw [BitVec.le_def, hvalue, toNat_shr]
    exact survives_le_shift hpos
  · exact mlfqEmaDecayChecked_eq hfit hscaled
  · rw [(toNat_decayFactor hx).1]
    exact half_le_decayWeight hx
  · exact (toNat_decayFactor hx).2

/-! ## What a run adds -/

/-- A gauge after a run. -/
def climbs (budget alpha g d : Nat) : Nat :=
  g + min ((budget - g) * min d budget * alpha / (budget * 256)) (budget - g)

section Climbs
variable {budget alpha g g' d d' : Nat}

theorem climbs_le (h : g ≤ budget) : climbs budget alpha g d ≤ budget := by
  unfold climbs
  omega

/-- A longer run climbs no less. -/
theorem climbs_mono_run (h : d ≤ d') : climbs budget alpha g d ≤ climbs budget alpha g d' := by
  have hrun : min d budget ≤ min d' budget := by omega
  have hstep : (budget - g) * min d budget * alpha / (budget * 256)
      ≤ (budget - g) * min d' budget * alpha / (budget * 256) :=
    Nat.div_le_div_right (Nat.mul_le_mul_right _ (Nat.mul_le_mul_left _ hrun))
  unfold climbs
  omega

/-- A part of a gap, cut at the whole of it, grows by no more than the
gap. -/
theorem part_le_add {n den gap more : Nat} :
    min ((gap + more) * n / den) (gap + more) ≤ min (gap * n / den) gap + more := by
  rcases Nat.lt_or_ge den n with hsteep | hflat
  · -- a slope above one saturates on both sides, and den = 0 is no slope
    rcases Nat.eq_zero_or_pos den with hzero | hpos
    · rw [hzero, Nat.div_zero, Nat.div_zero]
      omega
    · have hsat : gap ≤ gap * n / den := by
        rw [Nat.le_div_iff_mul_le hpos]
        exact Nat.mul_le_mul_left _ (Nat.le_of_lt hsteep)
      omega
  · rcases Nat.eq_zero_or_pos den with hzero | hpos
    · rw [hzero, Nat.div_zero, Nat.div_zero]
      omega
    · have hpart : (gap + more) * n / den ≤ gap * n / den + more := by
        have hsplit : (gap + more) * n ≤ gap * n + more * den := by
          rw [Nat.add_mul]
          exact Nat.add_le_add_left (Nat.mul_le_mul_left _ hflat) _
        calc (gap + more) * n / den ≤ (gap * n + more * den) / den := Nat.div_le_div_right hsplit
          _ = gap * n / den + more := Nat.add_mul_div_right _ _ hpos
      omega

/-- **A run keeps the order of two gauges**, also where it saturates. -/
theorem climbs_mono (h : g ≤ g') (hbudget : g' ≤ budget) :
    climbs budget alpha g d ≤ climbs budget alpha g' d := by
  have hgap : budget - g = (budget - g') + (g' - g) := by omega
  have hpart := @part_le_add (min d budget * alpha) (budget * 256) (budget - g') (g' - g)
  unfold climbs
  rw [Nat.mul_assoc, Nat.mul_assoc, hgap]
  omega

end Climbs

theorem toNat_cap (a cap : U64) :
    (if a > cap then cap else a).toNat = min a.toNat cap.toNat := by
  split
  · rename_i h
    have := BitVec.lt_def.mp h
    omega
  · rename_i h
    have := BitVec.le_def.mp (BitVec.not_lt.mp h)
    omega

/-- **The climb in numbers**, below its ceiling. -/
theorem mlfqEmaClimb_toNat {ema delta budgetMax alpha : U64} (hfit : ClimbFits budgetMax alpha)
    (hema : ema.toNat ≤ budgetMax.toNat) :
    (mlfqEmaClimb ema delta budgetMax alpha).toNat
      = climbs budgetMax.toNat alpha.toNat ema.toNat delta.toNat := by
  have hgap := Checked.toNat_sub hema
  have hdelta := toNat_cap delta budgetMax
  simp only [mlfqEmaClimb, climbs]
  rw [← hgap, ← hdelta]
  by_cases hzero : budgetMax - ema = 0
  · rw [if_pos hzero, hzero]
    simp
  rw [if_neg hzero]
  have hcap : (if delta > budgetMax then budgetMax else delta).toNat ≤ budgetMax.toNat := by omega
  generalize (if delta > budgetMax then budgetMax else delta) = d at hcap ⊢
  have hsmall : (budgetMax - ema).toNat ≤ budgetMax.toNat := by omega
  have hroom : ema.toNat + (budgetMax - ema).toNat < 2 ^ 64 := by
    have := budgetMax.isLt
    omega
  generalize budgetMax - ema = gap at hsmall hroom ⊢
  have harea : gap.toNat * d.toNat ≤ budgetMax.toNat * budgetMax.toNat :=
    Nat.mul_le_mul hsmall hcap
  have hareaFits : gap.toNat * d.toNat < 2 ^ 64 := lt_of_le_of_lt harea hfit.area
  have hrise : (gap * d).toNat * alpha.toNat < 2 ^ 64 := by
    rw [BitVec.toNat_mul_of_lt hareaFits]
    exact lt_of_le_of_lt (Nat.mul_le_mul_right _ harea) hfit.rise
  have hstep : (gap * d * alpha / (budgetMax * fpOne)).toNat
      = gap.toNat * d.toNat * alpha.toNat / (budgetMax.toNat * 256) := by
    rw [BitVec.toNat_udiv, BitVec.toNat_mul_of_lt hrise, BitVec.toNat_mul_of_lt hareaFits]
    congr 1
    exact BitVec.toNat_mul_of_lt hfit.scale
  have hpart := toNat_cap (gap * d * alpha / (budgetMax * fpOne)) gap
  rw [hstep] at hpart
  rw [BitVec.toNat_add_of_lt (by rw [hpart]; omega), hpart]

end ScxMlfq
