import ScxMlfq.Bpf.Adapt
import ScxMlfq.Lib.Trace

/-!
# Run — Adapt

The adaptation over any number of steps, from the state `mlfq_init`
leaves with the default bases. Other CPUs own what a step finds in the
wait totals and in the arrival windows, and the clock decides the
window it measures, so every step takes these as they come.
-/

namespace ScxMlfq

open Trace

/-- What an adaptation step finds: the wait totals, the arrivals of all
CPUs, and the time since the step before. -/
structure AdaptInput where
  waitTotal : U64
  waitCount : U64
  windowTotal : U64
  elapsed : U64

/-- The two blocks of bss the adaptation owns. -/
structure AdaptSystem where
  gauge : SysGauge
  adapt : AdaptState

/-- The gauges with the totals a step finds. -/
def AdaptInput.totals (e : AdaptInput) (g : SysGauge) : SysGauge :=
  { g with
    waitTotal := e.waitTotal
    waitCount := e.waitCount }

/-- One step of the enabled adaptation. -/
def stepAdapt (rod : Rodata) (s : AdaptSystem) (e : AdaptInput) : AdaptSystem :=
  let r := adaptFold rod true (e.totals s.gauge) s.adapt e.windowTotal e.elapsed
  ⟨r.1, r.2⟩

/-- The same step with every operation checked. -/
def stepAdaptChecked (rod : Rodata) (s : AdaptSystem) (e : AdaptInput) : Option AdaptSystem :=
  (adaptFoldChecked rod (e.totals s.gauge) s.adapt e.windowTotal e.elapsed).map
    fun r => ⟨r.1, r.2⟩

/-- The zeroed gauges, and the adaptation state of an accepted
`mlfq_init`. -/
def AdaptStart (rod : Rodata) (s : AdaptSystem) : Prop :=
  s.gauge = {} ∧ ∃ nrCpuIds createDsq m,
    mlfqInit (Machine.zeroed rod nrCpuIds) createDsq = .ok m ∧ s.adapt = m.adapt

/-- The runs of the adaptation. -/
abbrev AdaptRun (rod : Rodata) : List (Entry AdaptSystem AdaptInput) → AdaptSystem → Prop :=
  Run (fun s e s' => stepAdapt rod s e = s') (AdaptStart rod)

/-- The target a step computed, from the gauges it has just folded. -/
def stepTarget (x : Entry AdaptSystem AdaptInput) : Int :=
  mlfqAdaptShiftTarget x.post.gauge.latEma x.post.gauge.rateEma

/-- What holds of every reachable state. -/
structure AdaptInv (rod : Rodata) (s : AdaptSystem) : Prop where
  lat : s.gauge.latEma.toNat ≤ mlfqSysLatMaxNs.toNat
  rate : s.gauge.rateEma.toNat ≤ rateCeil
  shift : 0 ≤ s.adapt.shiftFp ∧ s.adapt.shiftFp ≤ 128
  bands : s.adapt = adaptBands rod s.adapt s.adapt.shiftFp

section Step

variable {rod : Rodata} {s : AdaptSystem}

/-- **What one step does**: the two folds, the slew toward the target of
the new gauges, and the edges at the new shift. -/
theorem stepAdapt_spec (rod : Rodata) (s : AdaptSystem) (e : AdaptInput) :
    (stepAdapt rod s e).gauge.latEma
        = mlfqSysLatFold s.gauge.latEma e.waitTotal e.waitCount e.elapsed
          mlfqSysGaugeHalfLifeNs mlfqSysLatMaxNs
      ∧ (stepAdapt rod s e).gauge.rateEma
        = mlfqSysRateStep s.gauge.rateEma (e.windowTotal.setWidth 32) e.elapsed
      ∧ (stepAdapt rod s e).adapt
        = adaptBands rod s.adapt (mlfqAdaptSlew s.adapt.shiftFp
            (stepTarget ⟨s, e, stepAdapt rod s e⟩)) :=
  ⟨rfl, rfl, rfl⟩

/-- The shift after a step. -/
theorem AdaptInv.slew (h : AdaptInv rod s) (e : AdaptInput) :
    (stepAdapt rod s e).adapt.shiftFp
      = Slew.slew 25 s.adapt.shiftFp (stepTarget ⟨s, e, stepAdapt rod s e⟩) := by
  rw [(stepAdapt_spec rod s e).2.2]
  exact (mlfqAdaptSlew_eq h.shift (mlfqAdaptShiftTarget_mem _ _)).2

theorem AdaptInv.step (h : AdaptInv rod s) (e : AdaptInput) :
    AdaptInv rod (stepAdapt rod s e) := by
  obtain ⟨hlat, hrate, hadapt⟩ := stepAdapt_spec rod s e
  constructor
  · rw [hlat]
    exact mlfqSysLatFold_le h.lat _ _ _ _
  · rw [hrate]
    exact mlfqSysRateStep_le h.rate _ _
  · rw [h.slew e]
    exact Slew.slew_mem (by decide) h.shift (mlfqAdaptShiftTarget_mem _ _)
  · rw [hadapt]
    rfl

/-- No operation of a step wraps. -/
theorem AdaptInv.checked (h : AdaptInv rod s) (hfit : BandsFit rod) (e : AdaptInput) :
    stepAdaptChecked rod s e = some (stepAdapt rod s e) := by
  have hlat : (mlfqSysLatFold s.gauge.latEma e.waitTotal e.waitCount e.elapsed
      mlfqSysGaugeHalfLifeNs mlfqSysLatMaxNs).toNat ≤ mlfqSysLatMaxNs.toNat :=
    mlfqSysLatFold_le h.lat _ _ _ _
  have htarget := mlfqAdaptShiftTarget_mem
    (mlfqSysLatFold s.gauge.latEma e.waitTotal e.waitCount e.elapsed
      mlfqSysGaugeHalfLifeNs mlfqSysLatMaxNs)
    (mlfqSysRateStep s.gauge.rateEma (e.windowTotal.setWidth 32) e.elapsed)
  obtain ⟨hslew, hmove⟩ := mlfqAdaptSlew_eq h.shift htarget
  have hlimit : (0 : Int) ≤ 25 := by decide
  have hshift := Slew.slew_mem hlimit h.shift htarget
  rw [← hmove] at hshift
  simp only [stepAdaptChecked, adaptFoldChecked, AdaptInput.totals, Option.bind_eq_bind]
  rw [mlfqSysLatFoldChecked_eq h.lat, Option.bind_some, mlfqSysRateStepChecked_eq h.rate,
    Option.bind_some, mlfqAdaptShiftTargetChecked_eq hlat, Option.bind_some, hslew,
    Option.bind_some, hfit.checked hshift]
  rfl

/-- The state of an accepted `mlfq_init` satisfies the invariant: at
shift zero the edges are the bases. -/
theorem AdaptStart.inv (h : AdaptStart rod s) (hin : BasesWithin rod) : AdaptInv rod s := by
  obtain ⟨hgauge, n, createDsq, m, hinit, hadapt⟩ := h
  obtain ⟨rfl, -, -⟩ := mlfqInit_ok hinit
  have hseed : s.adapt = seedAdapt rod := hadapt
  have hedges : EdgesAtBase rod (adaptBands rod (seedAdapt rod) 0) := adaptBands_zero_iff.mpr hin
  constructor
  · rw [hgauge]
    decide
  · rw [hgauge]
    decide
  · rw [hseed]
    show (0 : Int) ≤ 0 ∧ (0 : Int) ≤ 128
    omega
  · rw [hseed]
    show seedAdapt rod = { seedAdapt rod with
      shiftFp := 0
      tLEffNs := (adaptBands rod (seedAdapt rod) 0).tLEffNs
      tHEffNs := (adaptBands rod (seedAdapt rod) 0).tHEffNs
      tIntEffNs := (adaptBands rod (seedAdapt rod) 0).tIntEffNs
      tBndEffNs := (adaptBands rod (seedAdapt rod) 0).tBndEffNs }
    rw [hedges.tL, hedges.tH, hedges.tInt, hedges.tBnd]
    rfl

end Step

section Runs

variable {rod : Rodata} {tr : List (Entry AdaptSystem AdaptInput)} {s : AdaptSystem}

theorem AdaptRun.inv (h : AdaptRun rod tr s) (hin : BasesWithin rod) : AdaptInv rod s := by
  apply Run.invariant (I := fun _ s => AdaptInv rod s) _ _ h
  · intro s hs
    exact hs.inv hin
  · rintro tr s e s' hI rfl
    exact hI.step e

/-- Every step of a run starts from a state of the invariant. -/
theorem AdaptRun.entry (h : AdaptRun rod tr s) (hin : BasesWithin rod)
    {x : Entry AdaptSystem AdaptInput} (hx : x ∈ tr) :
    AdaptInv rod x.pre ∧ stepAdapt rod x.pre x.event = x.post := by
  induction h with
  | start _ => cases hx
  | snoc hrun hstep ih =>
      rcases List.mem_cons.mp hx with rfl | hx
      · exact ⟨AdaptRun.inv hrun hin, hstep⟩
      · exact ih hx

/-- **Steps with an unchanged target close in on it**: each by the full
limit, until the distance is gone. -/
theorem AdaptRun.settling {steps earlier : List (Entry AdaptSystem AdaptInput)} {target : Int}
    (h : AdaptRun rod (steps ++ earlier) s) (hin : BasesWithin rod)
    (htarget : ∀ x ∈ steps, stepTarget x = target) :
    steps = [] ∨ |target - s.adapt.shiftFp| ≤ max 0 (128 - 25 * (steps.length : Int)) := by
  induction steps generalizing s with
  | nil => exact .inl rfl
  | cons x steps ih =>
      right
      cases h with
      | @snoc _ s₀ _ e hrun hstep =>
          have hI := AdaptRun.inv hrun hin
          subst hstep
          have hcur : stepTarget ⟨s₀, e, stepAdapt rod s₀ e⟩ = target :=
            htarget _ List.mem_cons_self
          have hmem := mlfqAdaptShiftTarget_mem (stepAdapt rod s₀ e).gauge.latEma
            (stepAdapt rod s₀ e).gauge.rateEma
          have hin' : 0 ≤ target ∧ target ≤ 128 := by
            rw [← hcur]
            exact hmem
          have hclose : |target - Slew.slew 25 s₀.adapt.shiftFp target|
              = max 0 (|target - s₀.adapt.shiftFp| - 25) := Slew.abs_target_sub_slew (by decide)
          have hshift := hI.shift
          rw [hI.slew e, hcur, hclose, List.length_cons, Nat.cast_add, Nat.cast_one]
          rcases ih hrun fun y hy => htarget y (List.mem_cons_of_mem _ hy) with hnil | hdist
          · -- the first step starts anywhere in the range
            have hfar : |target - s₀.adapt.shiftFp| ≤ 128 := by
              rw [abs_le]
              omega
            rw [hnil, List.length_nil, Nat.cast_zero]
            omega
          · omega

/-- **The adaptation invariant.** In every reachable state the gauges and
the shift are within their ceilings, the edges are those of the shift,
in order and within their bounds, and at shift zero they are the bases;
they grow with the shift. No step moves the shift by more than the
limit, six steps with an unchanged target reach it, a target computed
above the storm gate stays below its cap, and nothing wraps. -/
theorem adaptation_invariant (hrod : DefaultBases rod) (h : AdaptRun rod tr s) :
    (s.gauge.latEma ≤ mlfqSysLatMaxNs ∧ s.gauge.rateEma ≤ mlfqSysRateMax <<< 8)
      ∧ (0 ≤ s.adapt.shiftFp ∧ s.adapt.shiftFp ≤ mlfqAdaptMaxShift.toInt)
      ∧ (∀ x ∈ tr, |x.post.adapt.shiftFp - x.pre.adapt.shiftFp| ≤ mlfqAdaptMaxStep.toInt)
      ∧ s.adapt.checkBands = true
      ∧ (s.adapt.shiftFp = 0 → EdgesAtBase rod s.adapt)
      ∧ s.adapt = adaptBands rod s.adapt s.adapt.shiftFp
      ∧ (∀ s₁ s₂ : Int, 0 ≤ s₁ → s₁ ≤ s₂ → s₂ ≤ mlfqAdaptMaxShift.toInt →
          EdgesLe (adaptBands rod s.adapt s₁) (adaptBands rod s.adapt s₂))
      ∧ (∀ six earlier target, tr = six ++ earlier → six.length = 6 →
          (∀ x ∈ six, stepTarget x = target) → s.adapt.shiftFp = target)
      ∧ (∀ latEma rateEma : U64, rateEma > mlfqAdaptRateGateHigh →
          mlfqAdaptShiftTarget latEma rateEma ≤ mlfqAdaptRateGateShift.toInt)
      ∧ ∀ e, stepAdaptChecked rod s e = some (stepAdapt rod s e) := by
  have hin := hrod.within
  have hfit := hin.fit
  have hI := AdaptRun.inv h hin
  have hmax : mlfqAdaptMaxShift.toInt = 128 := by decide
  have hlimit : mlfqAdaptMaxStep.toInt = 25 := by decide
  rw [hmax, hlimit]
  refine ⟨⟨hI.lat, hI.rate⟩, hI.shift, ?_, ?_, ?_, hI.bands, ?_, ?_, ?_, ?_⟩
  · intro x hx
    obtain ⟨hpre, hstep⟩ := AdaptRun.entry h hin hx
    rw [← hstep, hpre.slew x.event]
    exact Slew.abs_slew_sub_le (by decide)
  · rw [hI.bands]
    exact hfit.checkBands hI.shift
  · intro hzero
    rw [hI.bands, hzero]
    exact adaptBands_zero_iff.mpr hin
  · intro s₁ s₂ h0 hle h2
    exact hfit.mono h0 hle h2
  · rintro six earlier target rfl hlen htarget
    rcases AdaptRun.settling h hin htarget with hnil | hdist
    · rw [hnil] at hlen
      cases hlen
    · -- six steps of 25 cover the range of 128
      rw [hlen, abs_le] at hdist
      omega
  · intro latEma rateEma hstorm
    exact mlfqAdaptShiftTarget_gated hstorm
  · intro e
    exact hI.checked hfit e

end Runs

/-- A window with a wakeup wait of 16 ms, from the start: the shift takes
one full step of 25. -/
theorem adaptation_invariant_slow :
    ∃ tr s, AdaptRun {} tr s ∧ s.adapt.shiftFp = 25
      ∧ (s.gauge.latEma ≤ mlfqSysLatMaxNs ∧ s.gauge.rateEma ≤ mlfqSysRateMax <<< 8)
      ∧ s.adapt.checkBands = true := by
  have hinit : mlfqInit (Machine.zeroed {} 1) (fun _ => 0) = .ok (Machine.zeroed {} 1).seed := rfl
  have hstart : AdaptRun {} [] ⟨{}, seedAdapt {}⟩ := .start ⟨rfl, 1, fun _ => 0, _, hinit, rfl⟩
  have hrun := Run.snoc hstart (e := ⟨16000000, 1, 10, 1000000000⟩) rfl
  have hinv := adaptation_invariant ⟨rfl, rfl, rfl, rfl⟩ hrun
  exact ⟨_, _, hrun, by decide, hinv.1, hinv.2.2.2.1⟩

end ScxMlfq
