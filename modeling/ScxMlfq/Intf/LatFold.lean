import ScxMlfq.Intf.Adapt
import ScxMlfq.Intf.Decay

/-!
# Intf — LatFold

The fold of the wakeup latency against a weighted mean of the gauge and
the window average. The gauge is scaled by the factor itself, the average
by the complement of what the factor leaves of 256; past the first
half-life the second keeps fewer bits of the factor than the first, and
the two weights add up to more than one.
-/

namespace ScxMlfq

/-- The average of a window, below the ceiling. -/
def windowAverage (waitTotal waitCount maxNs : U64) : Nat :=
  min (waitTotal.toNat / waitCount.toNat) maxNs.toNat

/-- The whole half-lives of a window. -/
def foldPeriods (halfLife elapsed : Nat) : Nat := elapsed / halfLife

/-- The rest of a window, in parts of 256 of a half-life. -/
def foldFraction (halfLife elapsed : Nat) : Nat := elapsed % halfLife * 256 / halfLife

/-- Windows, gauges and averages whose fold stays between the gauge and
the average: within the first half-life, with nothing of the gauge left,
or the last unit of it lost to a factor below one, with a factor that has
no bits to lose, with the larger one at the ceiling, and with the gauge
far below the average or far above it. -/
def FoldsBetween (halfLife maxNs elapsed lat avg : Nat) : Prop :=
  elapsed < halfLife
    ∨ lat < 2 ^ foldPeriods halfLife elapsed
    ∨ (lat < 2 ^ (foldPeriods halfLife elapsed + 1) ∧ 2 ≤ foldFraction halfLife elapsed)
    ∨ (foldPeriods halfLife elapsed ≤ 8 ∧ foldFraction halfLife elapsed ≤ 1)
    ∨ max lat avg = maxNs
    ∨ avg * (2 ^ foldPeriods halfLife elapsed - 1) ≤ 128 * (avg - lat)
    ∨ avg ≤ max 256 (2 ^ foldPeriods halfLife elapsed - 1) * (lat - avg)

instance (halfLife maxNs elapsed lat avg : Nat) :
    Decidable (FoldsBetween halfLife maxNs elapsed lat avg) :=
  inferInstanceAs (Decidable (_ ∨ _ ∨ (_ ∧ _) ∨ (_ ∧ _) ∨ _ ∨ _ ∨ _))

/-! ## The weights -/

/-- The factor of the rest of a window. -/
def foldWeight (halfLife elapsed : Nat) : Nat := decayWeight (foldFraction halfLife elapsed)

/-- What the average's weight gains over its share: the bits of the factor
below the whole half-lives. -/
def excess (halfLife elapsed avg : Nat) : Nat :=
  avg * (foldWeight halfLife elapsed % 2 ^ foldPeriods halfLife elapsed)

/-- How far the mean of the two lies below the larger one, in units of
`256 * 2 ^ periods`. -/
def pull (halfLife elapsed lat avg : Nat) : Nat :=
  if lat ≤ avg then foldWeight halfLife elapsed * (avg - lat)
  else (256 * 2 ^ foldPeriods halfLife elapsed - foldWeight halfLife elapsed) * (lat - avg)

/-- What the floors of the fold take off, in the same units: the shift of
the gauge, its scaling and the scaling of the average. -/
def floorLoss (halfLife elapsed lat avg : Nat) : Nat :=
  let periods := foldPeriods halfLife elapsed
  let weight := foldWeight halfLife elapsed
  lat % 2 ^ periods * weight
    + (lat / 2 ^ periods * weight % 256 + avg * (256 - weight / 2 ^ periods) % 256) * 2 ^ periods

theorem foldWeight_le {halfLife : Nat} (hpos : 0 < halfLife) (elapsed : Nat) :
    foldWeight halfLife elapsed ≤ 256 := decayWeight_le (fraction_le hpos elapsed)

theorem half_le_foldWeight {halfLife : Nat} (hpos : 0 < halfLife) (elapsed : Nat) :
    128 ≤ foldWeight halfLife elapsed := half_le_decayWeight (fraction_le hpos elapsed)

/-- The factor is one up to two parts of 256 of a half-life. -/
theorem foldWeight_eq_iff {halfLife : Nat} (hpos : 0 < halfLife) (elapsed : Nat) :
    foldWeight halfLife elapsed = 256 ↔ foldFraction halfLife elapsed ≤ 1 := by
  have hle : foldFraction halfLife elapsed ≤ 255 := fraction_le hpos elapsed
  constructor
  · intro h
    by_contra hlarge
    have hanti := decayWeight_antitone (x := 2) (by omega) hle
    have hvalue : decayWeight 2 = 255 := by decide
    rw [hvalue] at hanti
    unfold foldWeight at h
    omega
  · intro h
    unfold foldWeight
    rcases Nat.le_one_iff_eq_zero_or_eq_one.mp h with hx | hx
    all_goals
      rw [hx]
      decide

/-! ## The fold in numbers -/

/-- The factor left of 256 is the factor of the rest without the bits
below the whole half-lives. -/
theorem survives_unit {halfLife s : Nat} (hpos : 0 < halfLife) (hs : ¬ 64 * halfLife ≤ s) :
    survives halfLife 256 s = foldWeight halfLife s / 2 ^ foldPeriods halfLife s := by
  have hweight := foldWeight_le hpos s
  unfold survives
  rw [if_neg hs]
  show 256 / 2 ^ foldPeriods halfLife s * foldWeight halfLife s / 256
    = foldWeight halfLife s / 2 ^ foldPeriods halfLife s
  generalize foldWeight halfLife s = f at hweight
  generalize foldPeriods halfLife s = p
  rcases Nat.lt_or_ge 8 p with hlong | hshort
  · -- nothing of 256 is left
    have hpow : 256 < 2 ^ p := lt_of_lt_of_le (by decide) (Nat.pow_le_pow_right (by decide) hlong)
    rw [Nat.div_eq_of_lt hpow, Nat.div_eq_of_lt (lt_of_le_of_lt hweight hpow), Nat.zero_mul]
  · have hsplit : 256 = 2 ^ p * 2 ^ (8 - p) := by
      rw [← Nat.pow_add, Nat.add_sub_cancel' hshort]
    have hquot : 256 / 2 ^ p = 2 ^ (8 - p) := by
      rw [hsplit]
      exact Nat.mul_div_cancel_left _ (Nat.pow_pos (by decide))
    rw [hquot]
    have hden : 256 = 2 ^ (8 - p) * 2 ^ p := by
      rw [hsplit, Nat.mul_comm]
    rw [hden]
    exact Nat.mul_div_mul_left _ _ (Nat.pow_pos (by decide))

/-- The sum of the two parts, before the ceiling. -/
def foldSum (halfLife elapsed lat avg : Nat) : Nat :=
  survives halfLife lat elapsed + avg * (256 - survives halfLife 256 elapsed) / 256

section Sum
variable {halfLife elapsed : Nat} (lat avg : Nat)

/-- Past the cut the fold is the average. -/
theorem foldSum_of_cut (hcut : 64 * halfLife ≤ elapsed) :
    foldSum halfLife elapsed lat avg = avg := by
  have hnone (g : Nat) : survives halfLife g elapsed = 0 := by
    unfold survives
    rw [if_pos hcut]
  unfold foldSum
  rw [hnone, hnone]
  omega

/-- The arithmetic of the balance: the two floors of the gauge, the floor
of the average, and the bits the factor loses. -/
theorem balance (P f lat avg : Nat) (hf : f ≤ 256) (hP : 0 < P) :
    256 * P * (lat / P * f / 256 + avg * (256 - f / P) / 256)
        + (lat % P * f + (lat / P * f % 256 + avg * (256 - f / P) % 256) * P)
      = f * lat + (256 * P - f) * avg + avg * (f % P) := by
  have hlat := Nat.div_add_mod lat P
  have hdec := Nat.div_add_mod (lat / P * f) 256
  have hrise := Nat.div_add_mod (avg * (256 - f / P)) 256
  have hfactor := Nat.div_add_mod f P
  have hquot : f / P ≤ 256 := Nat.le_trans (Nat.div_le_self _ _) hf
  have htotal : f ≤ 256 * P := Nat.le_trans hf (Nat.le_mul_of_pos_right 256 hP)
  -- with quotients and remainders as variables the identity is polynomial
  generalize lat / P * f / 256 = dec at *
  generalize lat / P * f % 256 = rho at *
  generalize avg * (256 - f / P) / 256 = rise at *
  generalize avg * (256 - f / P) % 256 = sigma at *
  generalize lat / P = d at *
  generalize lat % P = r at *
  generalize f / P = F at *
  generalize f % P = e at *
  generalize hrest : 256 - F = rest at *
  generalize hmost : 256 * P - f = most at *
  have hshare : P * rest = most + e := by
    have hsplit : P * 256 = P * F + P * rest := by
      rw [← Nat.mul_add]
      congr 1
      omega
    omega
  calc 256 * P * (dec + rise) + (r * f + (rho + sigma) * P)
      = P * (256 * dec + rho) + P * (256 * rise + sigma) + r * f := by ring
    _ = P * (d * f) + P * (avg * rest) + r * f := by rw [hdec, hrise]
    _ = f * (P * d + r) + avg * (P * rest) := by ring
    _ = f * lat + avg * (most + e) := by rw [hlat, hshare]
    _ = f * lat + most * avg + avg * e := by ring

/-- The fold, what its floors lose and its distance to the larger one, in
units of `256 * 2 ^ periods`. -/
theorem foldSum_balance (hpos : 0 < halfLife) (hcut : ¬ 64 * halfLife ≤ elapsed) :
    256 * 2 ^ foldPeriods halfLife elapsed * foldSum halfLife elapsed lat avg
        + (pull halfLife elapsed lat avg + floorLoss halfLife elapsed lat avg)
      = 256 * 2 ^ foldPeriods halfLife elapsed * max lat avg + excess halfLife elapsed avg := by
  have hweight := foldWeight_le hpos elapsed
  have hpow : 0 < 2 ^ foldPeriods halfLife elapsed := Nat.pow_pos (by decide)
  have hgauge : survives halfLife lat elapsed
      = lat / 2 ^ foldPeriods halfLife elapsed * foldWeight halfLife elapsed / 256 := by
    unfold survives
    rw [if_neg hcut]
    rfl
  have hbalance := balance _ _ lat avg hweight hpow
  have htotal : foldWeight halfLife elapsed ≤ 256 * 2 ^ foldPeriods halfLife elapsed :=
    Nat.le_trans hweight (Nat.le_mul_of_pos_right 256 hpow)
  simp only [foldSum, pull, floorLoss, excess, hgauge, survives_unit hpos hcut]
  generalize foldWeight halfLife elapsed = f at *
  generalize 2 ^ foldPeriods halfLife elapsed = P at *
  obtain ⟨most, hmost⟩ := Nat.exists_eq_add_of_le htotal
  rw [hmost, Nat.add_sub_cancel_left] at hbalance ⊢
  -- the gap between the two, whichever is larger
  by_cases hle : lat ≤ avg
  · obtain ⟨gap, rfl⟩ := Nat.exists_eq_add_of_le hle
    rw [if_pos hle, max_eq_right hle, Nat.add_sub_cancel_left]
    have hmean : (f + most) * (lat + gap) = f * lat + most * (lat + gap) + f * gap := by ring
    omega
  · have hle' : avg ≤ lat := by omega
    obtain ⟨gap, rfl⟩ := Nat.exists_eq_add_of_le hle'
    rw [if_neg hle, max_eq_left hle', Nat.add_sub_cancel_left]
    have hmean : (f + most) * (avg + gap) = f * (avg + gap) + most * avg + most * gap := by ring
    omega

/-- **The fold stays below the larger one** if and only if the excess does
not outweigh the distance and the floors. -/
theorem foldSum_le_iff (hpos : 0 < halfLife) (hcut : ¬ 64 * halfLife ≤ elapsed) :
    foldSum halfLife elapsed lat avg ≤ max lat avg
      ↔ excess halfLife elapsed avg
        ≤ pull halfLife elapsed lat avg + floorLoss halfLife elapsed lat avg := by
  have hbalance := foldSum_balance lat avg hpos hcut
  have hunit : 0 < 256 * 2 ^ foldPeriods halfLife elapsed :=
    Nat.mul_pos (by decide) (Nat.pow_pos (by decide))
  rw [← Nat.mul_le_mul_left_iff hunit]
  omega

/-- The floors take off less than three units. -/
theorem floorLoss_lt (hpos : 0 < halfLife) :
    floorLoss halfLife elapsed lat avg < 3 * (256 * 2 ^ foldPeriods halfLife elapsed) := by
  have hweight := foldWeight_le hpos elapsed
  have hpow : 0 < 2 ^ foldPeriods halfLife elapsed := Nat.pow_pos (by decide)
  simp only [floorLoss]
  generalize foldWeight halfLife elapsed = f at *
  generalize 2 ^ foldPeriods halfLife elapsed = P at *
  have hshift : lat % P * f ≤ P * 256 :=
    Nat.mul_le_mul (Nat.le_of_lt (Nat.mod_lt _ hpow)) hweight
  have hscale : lat / P * f % 256 + avg * (256 - f / P) % 256 ≤ 510 := by omega
  have hunits := Nat.mul_le_mul_right P hscale
  omega

/-- **The fold stays above the smaller one**, up to two. -/
theorem le_foldSum (hpos : 0 < halfLife) : min lat avg ≤ foldSum halfLife elapsed lat avg + 2 := by
  by_cases hcut : 64 * halfLife ≤ elapsed
  · rw [foldSum_of_cut lat avg hcut]
    omega
  · have hbalance := foldSum_balance lat avg hpos hcut
    have hloss := @floorLoss_lt halfLife elapsed lat avg hpos
    have hunit : 0 < 256 * 2 ^ foldPeriods halfLife elapsed :=
      Nat.mul_pos (by decide) (Nat.pow_pos (by decide))
    have hweight : foldWeight halfLife elapsed ≤ 256 * 2 ^ foldPeriods halfLife elapsed :=
      Nat.le_trans (foldWeight_le hpos elapsed)
        (Nat.le_mul_of_pos_right 256 (Nat.pow_pos (by decide)))
    -- the distance of a mean to the larger one is at most that of the smaller
    have hpull : pull halfLife elapsed lat avg
          + 256 * 2 ^ foldPeriods halfLife elapsed * min lat avg
        ≤ 256 * 2 ^ foldPeriods halfLife elapsed * max lat avg := by
      unfold pull
      generalize 256 * 2 ^ foldPeriods halfLife elapsed = W at *
      by_cases hle : lat ≤ avg
      · rw [if_pos hle, max_eq_right hle, min_eq_left hle]
        have hpart := Nat.mul_le_mul_right (avg - lat) hweight
        rw [Nat.mul_sub] at hpart
        have := Nat.mul_le_mul_left W hle
        rw [Nat.mul_sub] at hpart ⊢
        omega
      · have hle' : avg ≤ lat := by omega
        rw [if_neg hle, max_eq_left hle', min_eq_right hle']
        have hpart := Nat.mul_le_mul_right (lat - avg) (Nat.sub_le W (foldWeight halfLife elapsed))
        have := Nat.mul_le_mul_left W hle'
        rw [Nat.mul_sub W] at hpart
        omega
    have hclose : 256 * 2 ^ foldPeriods halfLife elapsed * min lat avg
        < 256 * 2 ^ foldPeriods halfLife elapsed * (foldSum halfLife elapsed lat avg + 3) := by
      rw [Nat.mul_add]
      omega
    have := Nat.lt_of_mul_lt_mul_left hclose
    omega

/-- A window shorter than the half-life has no excess. -/
theorem excess_of_short (hshort : elapsed < halfLife) : excess halfLife elapsed avg = 0 := by
  unfold excess foldPeriods
  rw [Nat.div_eq_of_lt hshort, Nat.pow_zero, Nat.mod_one, Nat.mul_zero]

/-- Nor has one of up to eight half-lives whose rest has factor one. -/
theorem excess_of_whole (hpos : 0 < halfLife) (hperiods : foldPeriods halfLife elapsed ≤ 8)
    (hfraction : foldFraction halfLife elapsed ≤ 1) : excess halfLife elapsed avg = 0 := by
  have hdvd : 2 ^ foldPeriods halfLife elapsed ∣ 256 := Nat.pow_dvd_pow 2 hperiods
  unfold excess
  rw [(foldWeight_eq_iff hpos elapsed).mpr hfraction, Nat.mod_eq_zero_of_dvd hdvd, Nat.mul_zero]

/-- The excess of a gauge far below the average or far above it. -/
theorem excess_le_pull (hpos : 0 < halfLife)
    (hfar : avg * (2 ^ foldPeriods halfLife elapsed - 1) ≤ 128 * (avg - lat)
      ∨ avg ≤ max 256 (2 ^ foldPeriods halfLife elapsed - 1) * (lat - avg)) :
    excess halfLife elapsed avg ≤ pull halfLife elapsed lat avg := by
  have hhalf := half_le_foldWeight hpos elapsed
  have hweight := foldWeight_le hpos elapsed
  have hpow : 0 < 2 ^ foldPeriods halfLife elapsed := Nat.pow_pos (by decide)
  simp only [excess, pull]
  generalize foldWeight halfLife elapsed = f at *
  generalize 2 ^ foldPeriods halfLife elapsed = P at *
  have hmod : f % P ≤ P - 1 := Nat.le_sub_one_of_lt (Nat.mod_lt _ hpow)
  have hsmall : f % P ≤ 256 := Nat.le_trans (Nat.mod_le f P) hweight
  by_cases hle : lat ≤ avg
  · rw [if_pos hle]
    have hbelow : avg * (P - 1) ≤ 128 * (avg - lat) := by
      rcases hfar with hbelow | habove
      · exact hbelow
      · -- the gauge is not above the average, so the average is zero
        rw [Nat.sub_eq_zero_of_le hle, Nat.mul_zero, Nat.le_zero] at habove
        rw [habove, Nat.zero_mul]
        exact Nat.zero_le _
    calc avg * (f % P) ≤ avg * (P - 1) := Nat.mul_le_mul_left avg hmod
      _ ≤ 128 * (avg - lat) := hbelow
      _ ≤ f * (avg - lat) := Nat.mul_le_mul_right _ hhalf
  · rw [if_neg hle]
    have hshare : 256 * (P - 1) ≤ 256 * P - f := by
      rw [Nat.mul_sub]
      omega
    rcases hfar with hbelow | habove
    · have hnone : avg - lat = 0 := Nat.sub_eq_zero_of_le (by omega)
      rw [hnone, Nat.mul_zero] at hbelow
      have hexcess := Nat.le_trans (Nat.mul_le_mul_left avg hmod) hbelow
      exact Nat.le_trans hexcess (Nat.zero_le _)
    · rcases max_cases 256 (P - 1) with ⟨hmax, -⟩ | ⟨hmax, -⟩
      · rw [hmax] at habove
        calc avg * (f % P) ≤ 256 * (lat - avg) * (P - 1) := Nat.mul_le_mul habove hmod
          _ = 256 * (P - 1) * (lat - avg) := by ring
          _ ≤ (256 * P - f) * (lat - avg) := Nat.mul_le_mul_right _ hshare
      · rw [hmax] at habove
        calc avg * (f % P) ≤ (P - 1) * (lat - avg) * 256 := Nat.mul_le_mul habove hsmall
          _ = 256 * (P - 1) * (lat - avg) := by ring
          _ ≤ (256 * P - f) * (lat - avg) := Nat.mul_le_mul_right _ hshare

theorem foldSum_of_not_cut (hcut : ¬ 64 * halfLife ≤ elapsed) :
    foldSum halfLife elapsed lat avg
      = lat / 2 ^ foldPeriods halfLife elapsed * foldWeight halfLife elapsed / 256
        + avg * (256 - survives halfLife 256 elapsed) / 256 := by
  unfold foldSum survives
  rw [if_neg hcut]
  rfl

/-- The average's part is at most the average. -/
theorem rise_le (factor : Nat) : avg * (256 - factor) / 256 ≤ avg := by
  have hpart := Nat.mul_le_mul_left avg (Nat.sub_le 256 factor)
  omega

/-- **A fold under its condition stays below the larger one.** -/
theorem foldSum_le_of_between {maxNs : Nat} (hpos : 0 < halfLife)
    (h : FoldsBetween halfLife maxNs elapsed lat avg) :
    foldSum halfLife elapsed lat avg ≤ max lat avg ∨ max lat avg = maxNs := by
  by_cases hcut : 64 * halfLife ≤ elapsed
  · left
    rw [foldSum_of_cut lat avg hcut]
    exact Nat.le_max_right _ _
  have hrise := rise_le avg (survives halfLife 256 elapsed)
  have hiff := foldSum_le_iff lat avg hpos hcut
  have hempty (hgone : lat / 2 ^ foldPeriods halfLife elapsed * foldWeight halfLife elapsed
      / 256 = 0) : foldSum halfLife elapsed lat avg ≤ max lat avg := by
    rw [foldSum_of_not_cut lat avg hcut, hgone, Nat.zero_add]
    exact Nat.le_trans hrise (Nat.le_max_right _ _)
  rcases h with hshort | hgone | ⟨hlast, hfraction⟩ | ⟨hperiods, hfraction⟩ | hceil | hfar
  · left
    rw [hiff, excess_of_short avg hshort]
    exact Nat.zero_le _
  · left
    apply hempty
    rw [Nat.div_eq_of_lt hgone, Nat.zero_mul, Nat.zero_div]
  · left
    apply hempty
    have hone : lat / 2 ^ foldPeriods halfLife elapsed ≤ 1 := by
      rw [← Nat.lt_succ_iff, Nat.div_lt_iff_lt_mul (Nat.pow_pos (by decide))]
      rw [Nat.pow_succ, Nat.mul_comm] at hlast
      exact hlast
    have hne : foldWeight halfLife elapsed ≠ 256 := by
      rw [Ne, foldWeight_eq_iff hpos]
      omega
    have hweight := foldWeight_le hpos elapsed
    have hpart := Nat.mul_le_mul_right (foldWeight halfLife elapsed) hone
    exact Nat.div_eq_of_lt (by omega)
  · left
    rw [hiff, excess_of_whole avg hpos hperiods hfraction]
    exact Nat.zero_le _
  · exact .inr hceil
  · left
    rw [hiff]
    exact Nat.le_trans (excess_le_pull lat avg hpos hfar) (Nat.le_add_right _ _)

/-- **From nine half-lives on, with a gauge not above the average, the
condition is exact**: nothing is left of the factor, and the fold adds
what is left of the gauge to the whole average. -/
theorem between_of_foldSum_le {maxNs : Nat} (hpos : 0 < halfLife) (hlong : 9 * halfLife ≤ elapsed)
    (hle : lat ≤ avg) (h : foldSum halfLife elapsed lat avg ≤ max lat avg) (hlat : lat < 2 ^ 64) :
    FoldsBetween halfLife maxNs elapsed lat avg := by
  have hperiods : 9 ≤ foldPeriods halfLife elapsed := (Nat.le_div_iff_mul_le hpos).mpr hlong
  by_cases hcut : 64 * halfLife ≤ elapsed
  · have hall : 64 ≤ foldPeriods halfLife elapsed := (Nat.le_div_iff_mul_le hpos).mpr hcut
    exact .inr (.inl (Nat.lt_of_lt_of_le hlat (Nat.pow_le_pow_right (by decide) hall)))
  have hnone : survives halfLife 256 elapsed = 0 := by
    rw [survives_unit hpos hcut]
    have hpow : 2 ^ 9 ≤ 2 ^ foldPeriods halfLife elapsed :=
      Nat.pow_le_pow_right (by decide) hperiods
    exact Nat.div_eq_of_lt (Nat.lt_of_le_of_lt (foldWeight_le hpos elapsed) (by omega))
  rw [foldSum_of_not_cut lat avg hcut, hnone, max_eq_right hle, Nat.sub_zero,
    Nat.mul_div_cancel _ (by decide : 0 < 256)] at h
  have hgone : lat / 2 ^ foldPeriods halfLife elapsed * foldWeight halfLife elapsed < 256 := by
    omega
  have hhalf := half_le_foldWeight hpos elapsed
  have hone : lat / 2 ^ foldPeriods halfLife elapsed ≤ 1 := by
    by_contra htwo
    have hpart := Nat.mul_le_mul (show 2 ≤ lat / 2 ^ foldPeriods halfLife elapsed by omega) hhalf
    omega
  rcases Nat.le_one_iff_eq_zero_or_eq_one.mp hone with hzero | hunit
  · exact .inr (.inl ((Nat.div_eq_zero_iff_lt (Nat.pow_pos (by decide))).mp hzero))
  · rw [hunit, Nat.one_mul] at hgone
    refine .inr (.inr (.inl ⟨?_, ?_⟩))
    · rw [Nat.pow_succ, Nat.mul_comm, ← Nat.div_lt_iff_lt_mul (Nat.pow_pos (by decide)), hunit]
      decide
    · by_contra hsmall
      have hfull := (foldWeight_eq_iff hpos elapsed).mpr (by omega)
      omega

end Sum

/-! ## The latency gauge -/

section Gauge
variable {latEma waitTotal waitCount : U64}

theorem windowAverage_toNat (waitTotal waitCount maxNs : U64) :
    (if waitTotal / waitCount > maxNs then maxNs else waitTotal / waitCount).toNat
      = windowAverage waitTotal waitCount maxNs := by
  rw [toNat_cap, BitVec.toNat_udiv]
  rfl

/-- **The fold in numbers**, within the ceiling. -/
theorem mlfqSysLatFold_toNat (hlat : latEma.toNat ≤ mlfqSysLatMaxNs.toNat) (hcount : waitCount ≠ 0)
    (waitTotal elapsed : U64) :
    (mlfqSysLatFold latEma waitTotal waitCount elapsed mlfqSysGaugeHalfLifeNs mlfqSysLatMaxNs).toNat
      = min (foldSum mlfqSysGaugeHalfLifeNs.toNat elapsed.toNat latEma.toNat
          (windowAverage waitTotal waitCount mlfqSysLatMaxNs)) mlfqSysLatMaxNs.toNat := by
  have hmax : mlfqSysLatMaxNs.toNat = 16000000 := rfl
  have havg := windowAverage_toNat waitTotal waitCount mlfqSysLatMaxNs
  have havgLe : windowAverage waitTotal waitCount mlfqSysLatMaxNs ≤ 16000000 := by
    rw [windowAverage, ← hmax]
    exact Nat.min_le_right _ _
  have hfactor := @mlfqEmaDecay_toNat fpOne elapsed _ decayFits_sysGauge (by decide)
  have hdecayed := @mlfqEmaDecay_toNat latEma elapsed _ decayFits_sysGauge (by omega)
  have hunit : fpOne.toNat = 256 := rfl
  rw [hunit] at hfactor
  have hpos : 0 < mlfqSysGaugeHalfLifeNs.toNat := by decide
  have hfactorLe := @survives_le _ 256 elapsed.toNat hpos
  have hdecayedLe := @survives_le _ latEma.toNat elapsed.toNat hpos
  simp only [mlfqSysLatFold, if_neg hcount, foldSum]
  rw [toNat_cap]
  generalize (if waitTotal / waitCount > mlfqSysLatMaxNs then mlfqSysLatMaxNs
    else waitTotal / waitCount) = avg at havg ⊢
  generalize mlfqEmaDecay fpOne elapsed mlfqSysGaugeHalfLifeNs = factor at hfactor ⊢
  generalize mlfqEmaDecay latEma elapsed mlfqSysGaugeHalfLifeNs = decayed at hdecayed ⊢
  rw [← havg, ← hfactor, ← hdecayed]
  rw [← havg] at havgLe
  rw [← hfactor] at hfactorLe
  rw [← hdecayed] at hdecayedLe
  -- no step wraps: the average is capped, the factor at most one
  have hrest : (fpOne - factor).toNat = 256 - factor.toNat := Checked.toNat_sub hfactorLe
  have hprod : avg.toNat * (fpOne - factor).toNat ≤ 16000000 * 256 :=
    Nat.mul_le_mul havgLe (by omega)
  have hrise : (avg * (fpOne - factor) / fpOne).toNat
      = avg.toNat * (256 - factor.toNat) / 256 := by
    rw [BitVec.toNat_udiv, BitVec.toNat_mul_of_lt (by omega), hrest]
    rfl
  have hriseLe : avg.toNat * (256 - factor.toNat) / 256 ≤ 16000000 * 256 := by
    rw [← hrest]
    exact Nat.le_trans (Nat.div_le_self _ _) hprod
  rw [BitVec.toNat_add_of_lt (by rw [hrise]; omega), hrise]

/-- One window of waits. -/
structure LatWindow where
  waitTotal : U64
  waitCount : U64
  elapsed : U64

/-- The fold of a window, with the production constants. -/
def LatWindow.fold (latEma : U64) (w : LatWindow) : U64 :=
  mlfqSysLatFold latEma w.waitTotal w.waitCount w.elapsed mlfqSysGaugeHalfLifeNs mlfqSysLatMaxNs

def LatWindow.average (w : LatWindow) : Nat :=
  windowAverage w.waitTotal w.waitCount mlfqSysLatMaxNs

/-- The condition of one fold of the gauge. -/
def LatWindow.Between (latEma : U64) (w : LatWindow) : Prop :=
  FoldsBetween mlfqSysGaugeHalfLifeNs.toNat mlfqSysLatMaxNs.toNat w.elapsed.toNat latEma.toNat
    w.average

instance (latEma : U64) (w : LatWindow) : Decidable (w.Between latEma) :=
  inferInstanceAs (Decidable (FoldsBetween ..))

/-- The gauge after a list of windows. -/
def latAfter (latEma : U64) (ws : List LatWindow) : U64 := ws.foldl LatWindow.fold latEma

theorem LatWindow.average_le (w : LatWindow) : w.average ≤ mlfqSysLatMaxNs.toNat :=
  Nat.min_le_right _ _

theorem LatWindow.fold_le (hlat : latEma.toNat ≤ mlfqSysLatMaxNs.toNat) (w : LatWindow) :
    (w.fold latEma).toNat ≤ mlfqSysLatMaxNs.toNat :=
  mlfqSysLatFold_le hlat ..

/-- A fold stays above the smaller of the gauge and the average, up to
two. -/
theorem LatWindow.le_fold (hlat : latEma.toNat ≤ mlfqSysLatMaxNs.toNat) (w : LatWindow)
    (hcount : w.waitCount ≠ 0) : min latEma.toNat w.average ≤ (w.fold latEma).toNat + 2 := by
  have hsum := @le_foldSum mlfqSysGaugeHalfLifeNs.toNat w.elapsed.toNat latEma.toNat w.average
    (by decide)
  have hfold := mlfqSysLatFold_toNat hlat hcount w.waitTotal w.elapsed
  have hmin : min latEma.toNat w.average ≤ mlfqSysLatMaxNs.toNat :=
    Nat.le_trans (Nat.min_le_left _ _) hlat
  show _ ≤ (mlfqSysLatFold _ _ _ _ _ _).toNat + 2
  rw [hfold]
  show _ ≤ min (foldSum _ _ _ w.average) _ + 2
  omega

/-- **A fold under its condition stays below the larger one.** -/
theorem LatWindow.fold_le_of_between (hlat : latEma.toNat ≤ mlfqSysLatMaxNs.toNat) (w : LatWindow)
    (hcount : w.waitCount ≠ 0) (h : w.Between latEma) :
    (w.fold latEma).toNat ≤ max latEma.toNat w.average := by
  have hfold := mlfqSysLatFold_toNat hlat hcount w.waitTotal w.elapsed
  have hsum := foldSum_le_of_between latEma.toNat w.average (by decide) h
  show (mlfqSysLatFold _ _ _ _ _ _).toNat ≤ _
  rw [hfold]
  show min (foldSum _ _ _ w.average) _ ≤ _
  omega

/-- From nine half-lives on, with a gauge not above the average, only
there. -/
theorem LatWindow.between_of_fold_le (hlat : latEma.toNat ≤ mlfqSysLatMaxNs.toNat) (w : LatWindow)
    (hcount : w.waitCount ≠ 0) (hlong : 9 * mlfqSysGaugeHalfLifeNs.toNat ≤ w.elapsed.toNat)
    (hle : latEma.toNat ≤ w.average) (h : (w.fold latEma).toNat ≤ max latEma.toNat w.average) :
    w.Between latEma := by
  have hfold := mlfqSysLatFold_toNat hlat hcount w.waitTotal w.elapsed
  have havg := w.average_le
  change (mlfqSysLatFold _ _ _ _ _ _).toNat ≤ _ at h
  rw [hfold] at h
  change min (foldSum _ _ _ w.average) _ ≤ _ at h
  by_cases hceil : max latEma.toNat w.average = mlfqSysLatMaxNs.toNat
  · exact .inr (.inr (.inr (.inr (.inl hceil))))
  · exact between_of_foldSum_le latEma.toNat w.average (by decide) hlong hle (by omega)
      latEma.isLt

end Gauge

/-- A window of nine half-lives after which the gauge passes the wait that
it and the average were at. -/
def nineHalfLives : LatWindow := { waitTotal := 20000, waitCount := 1, elapsed := 9000000000 }

end ScxMlfq
