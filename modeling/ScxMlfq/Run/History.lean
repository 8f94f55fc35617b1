import ScxMlfq.Daemon.Limits
import ScxMlfq.Intf.Decay

/-!
# Run — History

The order of the interactivity gauge over histories of run segments and
sleeps: two gauges keep their order through every history, a longer run
leaves no less and a longer sleep no more.
-/

namespace ScxMlfq

/-- The gauge after a history, from any gauge. -/
def gaugeFrom (rod : Rodata) (us : List GaugeUpdate) (ema : U64) : U64 :=
  us.foldl (GaugeUpdate.apply rod) ema

/-- The constants under which no update of a gauge wraps. -/
structure GaugesFit (rod : Rodata) : Prop where
  climb : ClimbFits rod.budgetMaxNs rod.alpha
  decay : DecayFits rod.emaHalfLifeNs

theorem gaugesFit_default : GaugesFit {} := by
  constructor
  case climb => constructor <;> decide
  case decay => constructor <;> decide

section History
variable {rod : Rodata} {ema ema' : U64}

/-- One update in numbers. -/
theorem GaugesFit.apply_toNat (h : GaugesFit rod) (hema : ema.toNat ≤ rod.budgetMaxNs.toNat)
    (u : GaugeUpdate) :
    (u.apply rod ema).toNat = match u with
      | .climb delta => climbs rod.budgetMaxNs.toNat rod.alpha.toNat ema.toNat delta.toNat
      | .decay sleepNs => survives rod.emaHalfLifeNs.toNat ema.toNat sleepNs.toNat := by
  have hscale : ema.toNat * 256 < 2 ^ 64 :=
    lt_of_le_of_lt (Nat.mul_le_mul_right 256 hema) h.climb.scale
  cases u with
  | climb delta => exact mlfqEmaClimb_toNat h.climb hema
  | decay sleepNs => exact mlfqEmaDecay_toNat h.decay hscale

theorem GaugesFit.apply_le (h : GaugesFit rod) (hema : ema.toNat ≤ rod.budgetMaxNs.toNat)
    (u : GaugeUpdate) : (u.apply rod ema).toNat ≤ rod.budgetMaxNs.toNat := by
  rw [h.apply_toNat hema]
  cases u with
  | climb delta => exact climbs_le hema
  | decay sleepNs => exact Nat.le_trans (survives_le h.decay.pos) hema

/-- One update keeps the order of two gauges. -/
theorem GaugesFit.apply_mono (h : GaugesFit rod) (hle : ema.toNat ≤ ema'.toNat)
    (hema : ema'.toNat ≤ rod.budgetMaxNs.toNat) (u : GaugeUpdate) :
    (u.apply rod ema).toNat ≤ (u.apply rod ema').toNat := by
  rw [h.apply_toNat (Nat.le_trans hle hema), h.apply_toNat hema]
  cases u with
  | climb delta => exact climbs_mono hle hema
  | decay sleepNs => exact survives_mono hle

theorem GaugesFit.gaugeFrom_le (h : GaugesFit rod) (us : List GaugeUpdate)
    (hema : ema.toNat ≤ rod.budgetMaxNs.toNat) :
    (gaugeFrom rod us ema).toNat ≤ rod.budgetMaxNs.toNat := by
  induction us generalizing ema with
  | nil => exact hema
  | cons u us ih => exact ih (h.apply_le hema u)

theorem GaugesFit.gaugeFrom_mono (h : GaugesFit rod) (us : List GaugeUpdate)
    (hle : ema.toNat ≤ ema'.toNat) (hema : ema'.toNat ≤ rod.budgetMaxNs.toNat) :
    (gaugeFrom rod us ema).toNat ≤ (gaugeFrom rod us ema').toNat := by
  induction us generalizing ema ema' with
  | nil => exact hle
  | cons u us ih => exact ih (h.apply_mono hle hema u) (h.apply_le hema u)

theorem gaugeFrom_split (before after : List GaugeUpdate) (u : GaugeUpdate) :
    gaugeFrom rod (before ++ u :: after) ema
      = gaugeFrom rod after (u.apply rod (gaugeFrom rod before ema)) := by
  rw [gaugeFrom, List.foldl_append]
  rfl

/-- Two histories that differ in one update keep the order of what that
update leaves. -/
theorem GaugesFit.gaugeFrom_replace (h : GaugesFit rod) (before after : List GaugeUpdate)
    {u u' : GaugeUpdate} (hema : ema.toNat ≤ rod.budgetMaxNs.toNat)
    (hu : ∀ g : U64, g.toNat ≤ rod.budgetMaxNs.toNat →
      (u.apply rod g).toNat ≤ (u'.apply rod g).toNat) :
    (gaugeFrom rod (before ++ u :: after) ema).toNat
      ≤ (gaugeFrom rod (before ++ u' :: after) ema).toNat := by
  have hreached := h.gaugeFrom_le before hema
  rw [gaugeFrom_split, gaugeFrom_split]
  exact h.gaugeFrom_mono after (hu _ hreached) (h.apply_le hreached u')

theorem GaugesFit.apply_climb_mono (h : GaugesFit rod) {delta delta' : U64}
    (hdelta : delta.toNat ≤ delta'.toNat) (hema : ema.toNat ≤ rod.budgetMaxNs.toNat) :
    ((GaugeUpdate.climb delta).apply rod ema).toNat
      ≤ ((GaugeUpdate.climb delta').apply rod ema).toNat := by
  rw [h.apply_toNat hema, h.apply_toNat hema]
  exact climbs_mono_run hdelta

theorem GaugesFit.apply_decay_antitone (h : GaugesFit rod) {sleepNs sleepNs' : U64}
    (hsleep : sleepNs.toNat ≤ sleepNs'.toNat) (hema : ema.toNat ≤ rod.budgetMaxNs.toNat) :
    ((GaugeUpdate.decay sleepNs').apply rod ema).toNat
      ≤ ((GaugeUpdate.decay sleepNs).apply rod ema).toNat := by
  rw [h.apply_toNat hema, h.apply_toNat hema]
  exact survives_antitone h.decay.pos hsleep

end History

/-- **The gauge is ordered over histories.** -/
theorem gauge_history_order :
    (∀ us ema, ema ≤ mlfqBudgetMaxNs → gaugeFrom {} us ema ≤ mlfqBudgetMaxNs) ∧
      (∀ us ema ema', ema ≤ ema' → ema' ≤ mlfqBudgetMaxNs →
        gaugeFrom {} us ema ≤ gaugeFrom {} us ema') ∧
      (∀ before after delta delta' ema, delta ≤ delta' → ema ≤ mlfqBudgetMaxNs →
        gaugeFrom {} (before ++ .climb delta :: after) ema
          ≤ gaugeFrom {} (before ++ .climb delta' :: after) ema) ∧
      (∀ before after sleepNs sleepNs' ema, sleepNs ≤ sleepNs' → ema ≤ mlfqBudgetMaxNs →
        gaugeFrom {} (before ++ .decay sleepNs' :: after) ema
          ≤ gaugeFrom {} (before ++ .decay sleepNs :: after) ema) := by
  have h := gaugesFit_default
  refine ⟨?_, ?_, ?_, ?_⟩
  · intro us ema hema
    exact BitVec.le_def.mpr (h.gaugeFrom_le us (BitVec.le_def.mp hema))
  · intro us ema ema' hle hema
    exact BitVec.le_def.mpr (h.gaugeFrom_mono us (BitVec.le_def.mp hle) (BitVec.le_def.mp hema))
  · intro before after delta delta' ema hdelta hema
    refine BitVec.le_def.mpr (h.gaugeFrom_replace before after (BitVec.le_def.mp hema) ?_)
    intro g hg
    exact h.apply_climb_mono (BitVec.le_def.mp hdelta) hg
  · intro before after sleepNs sleepNs' ema hsleep hema
    refine BitVec.le_def.mpr (h.gaugeFrom_replace before after (BitVec.le_def.mp hema) ?_)
    intro g hg
    exact h.apply_decay_antitone (BitVec.le_def.mp hsleep) hg

/-- A segment, a sleep about one half-life and a segment: the order of the
gauges the task starts from, of the first segments, and of the sleeps on
the two sides of the half-life and of the cut at 64 of them. -/
theorem gauge_history_order_halfLife :
    let history (delta sleepNs : U64) : List GaugeUpdate :=
      [.climb delta, .decay sleepNs, .climb 1000000]
    gaugeFrom {} (history 20000000 24000000) 0
        ≤ gaugeFrom {} (history 20000000 24000000) mlfqBudgetMaxNs
      ∧ gaugeFrom {} (history 20000000 24000000) 0 ≤ gaugeFrom {} (history 30000000 24000000) 0
      ∧ gaugeFrom {} (history 20000000 24000000) 0 ≤ gaugeFrom {} (history 20000000 23999999) 0
      ∧ gaugeFrom {} (history 20000000 1536000000) 0
        ≤ gaugeFrom {} (history 20000000 1535999999) 0
      ∧ gaugeFrom {} (history 20000000 24000000) 0 ≠ 0 := by
  intro history
  obtain ⟨-, hstart, hrun, hsleep⟩ := gauge_history_order
  refine ⟨hstart (history 20000000 24000000) 0 mlfqBudgetMaxNs (by decide) (by decide),
    hrun [] [.decay 24000000, .climb 1000000] 20000000 30000000 0 (by decide) (by decide),
    hsleep [.climb 20000000] [.climb 1000000] 23999999 24000000 0 (by decide) (by decide),
    hsleep [.climb 20000000] [.climb 1000000] 1535999999 1536000000 0 (by decide) (by decide),
    by decide +kernel⟩

end ScxMlfq
