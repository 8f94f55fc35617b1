import ScxMlfq.Bpf.Adapt
import ScxMlfq.Bpf.Lifecycle
import ScxMlfq.Lib.Swap

/-!
# Run — Gates

The two single-winner gates under any number of CPUs: the cadence of the
adaptation and the rate limit of the samples. A caller loads the stamp,
tests it against its own clock and stamps it with one compare-and-swap;
the steps of different CPUs interleave in any order, and nothing is
asked of their clocks. The registers and their runs are those of `Swap`,
with the time test of each gate as the order.
-/

namespace ScxMlfq

open Trace Swap

variable {κ : Type*} [DecidableEq κ]

/-! ## The gates -/

/-- The adaptation window is over at `now`, as `mlfq_maybe_adapt_step`
tests it. -/
def AdaptDue (last now : U64) : Prop :=
  mlfqTimeBefore now (last + mlfqAdaptMinIntervalNs) = false

instance : DecidableRel AdaptDue := fun last now =>
  inferInstanceAs (Decidable (mlfqTimeBefore now (last + mlfqAdaptMinIntervalNs) = false))

/-- The sample window is over at `now`, as `mlfq_stopping` tests it. -/
def SampleOpen (last now : U64) : Prop :=
  last = 0 ∨ mlfqTimeBefore (last + mlfqTreeSampleRateLimitNs) now = true

instance : DecidableRel SampleOpen := fun last now =>
  inferInstanceAs (Decidable (last = 0 ∨
    mlfqTimeBefore (last + mlfqTreeSampleRateLimitNs) now = true))

/-- The window of the task itself. -/
def taskWindowOpen (lastSampleAt now : U64) : Bool :=
  decide (lastSampleAt = 0) || mlfqTimeBefore (lastSampleAt + mlfqTreePerTaskLimitNs) now

/-- What a CPU does at the sample gate: the load and the two tests, the
second on the stamp of the task that stops, and the compare-and-swap. -/
inductive SampleEvent (κ : Type*) where
  | attempt (k : κ) (now lastSampleAt : U64)
  | swap (k : κ)

/-- The step on the stamp: an attempt whose task window is closed takes
none. -/
def SampleEvent.toStep : SampleEvent κ → Option (Step κ U64)
  | .attempt k now lastSampleAt =>
      if taskWindowOpen lastSampleAt now then some (.read k now) else none
  | .swap k => some (.swap k)

/-- The runs of the adaptation gate from the stamp `stepAt`. -/
abbrev AdaptGateRun (stepAt : U64) :
    List (Entry (Shared κ U64) (Step κ U64)) → Shared κ U64 → Prop :=
  GuardedRun AdaptDue some stepAt

/-- The runs of the sample gate from the stamp `lastAt`. -/
abbrev SampleGateRun (lastAt : U64) :
    List (Entry (Shared κ U64) (SampleEvent κ)) → Shared κ U64 → Prop :=
  GuardedRun SampleOpen SampleEvent.toStep lastAt

/-! ## The gates with nothing between their steps -/

/-- The load and the swap in one go are the gate of
`mlfq_maybe_adapt_step`. -/
theorem adaptGate_alone (rod : Rodata) (adaptEnabled : Bool) (g : SysGauge) (a : AdaptState)
    (windowTotal now : U64) (k : κ) :
    let s : Shared κ U64 := fresh g.stepAt
    (next AdaptDue s (.read k now) = some s ∧
      mlfqMaybeAdaptStep rod adaptEnabled g a windowTotal now = (g, a)) ∨
    ∃ s₁ s₂, next AdaptDue s (.read k now) = some s₁ ∧ next AdaptDue s₁ (.swap k) = some s₂ ∧
      s₂.value = now ∧
      mlfqMaybeAdaptStep rod adaptEnabled g a windowTotal now
        = adaptFold rod adaptEnabled { g with stepAt := now } a windowTotal
          (adaptElapsed g.stepAt now) := by
  intro s
  rcases @next_alone _ _ AdaptDue _ _ _ s k now rfl with ⟨hnot, hread⟩ | ⟨hdue, s₁, s₂, hread,
    hswap, hvalue⟩
  · left
    have hearly : mlfqTimeBefore now (g.stepAt + mlfqAdaptMinIntervalNs) = true :=
      Bool.eq_true_of_not_eq_false hnot
    refine ⟨hread, ?_⟩
    rw [mlfqMaybeAdaptStep, if_pos hearly]
  · right
    have hlate : mlfqTimeBefore now (g.stepAt + mlfqAdaptMinIntervalNs) = false := hdue
    refine ⟨s₁, s₂, hread, hswap, hvalue, ?_⟩
    rw [mlfqMaybeAdaptStep, hlate]
    rfl

/-- The two tests of an emission are the two windows. -/
theorem sampleDue_iff (m : Machine) (t : TaskCtx) (now : U64) :
    sampleDue m t now = true
      ↔ SampleOpen m.sampleLastAt now ∧ taskWindowOpen t.lastSampleAt now = true := by
  simp only [sampleDue, SampleOpen, taskWindowOpen, Bool.and_eq_true, Bool.or_eq_true,
    decide_eq_true_eq]

/-! ## The tests as distances -/

/-- A due step is at least the interval ahead of the stamp. -/
theorem AdaptDue.interval_le {last now : U64} (h : AdaptDue last now) :
    mlfqAdaptMinIntervalNs.toNat ≤ Serial.gap last now := by
  rw [AdaptDue, mlfqTimeBefore_false_iff, Serial.before_iff_gap] at h
  have hinterval : mlfqAdaptMinIntervalNs.toNat = 1000000000 := rfl
  have hsum := Serial.gap_trans last now (last + mlfqAdaptMinIntervalNs)
  have hfull : Serial.gap last (last + mlfqAdaptMinIntervalNs) = 1000000000 := by
    rw [Serial.gap, add_sub_cancel_left]
    rfl
  have hlt := Serial.gap_lt last now
  have hrest := Serial.gap_lt now (last + mlfqAdaptMinIntervalNs)
  rw [hfull] at hsum
  omega

/-- An open window ends more than the rate limit after a stamp. -/
theorem SampleOpen.limit_lt {last now : U64} (h : SampleOpen last now) (hlast : last ≠ 0) :
    mlfqTreeSampleRateLimitNs.toNat < Serial.gap last now := by
  obtain hzero | hopen := h
  · exact absurd hzero hlast
  rw [mlfqTimeBefore_iff, Serial.before_iff_gap] at hopen
  have hlimit : mlfqTreeSampleRateLimitNs.toNat = 500000 := rfl
  have hsum := Serial.gap_trans last (last + mlfqTreeSampleRateLimitNs) now
  have hfull : Serial.gap last (last + mlfqTreeSampleRateLimitNs) = 500000 := by
    rw [Serial.gap, add_sub_cancel_left]
    rfl
  rw [hfull] at hsum
  omega

/-- **The window the winner folds**: the distance from the stamp below
half of the circle, and zero or the distance beyond. -/
theorem adaptElapsed_eq (last now : U64) :
    (Serial.gap last now < 2 ^ 63 → (adaptElapsed last now).toNat = Serial.gap last now)
      ∧ (adaptElapsed last now = 0 ∨ (adaptElapsed last now).toNat = Serial.gap last now) := by
  rw [adaptElapsed]
  by_cases hback : mlfqTimeBefore now last = true
  · rw [if_pos hback]
    rw [mlfqTimeBefore_iff, Serial.before_iff_gap] at hback
    -- a clock behind the stamp is more than half of the circle ahead of it
    have hturn := Serial.gap_trans last now last
    rw [Serial.gap_self] at hturn
    have hlt := Serial.gap_lt last now
    exact ⟨fun hshort => by omega, .inl rfl⟩
  · rw [if_neg hback]
    exact ⟨fun _ => rfl, .inr rfl⟩

/-! ## The winners -/

/-- What every run of the adaptation gate satisfies. A winner `x` stamped
`now` in the place of `last`. -/
structure AdaptWinners (stepAt : U64) (tr : List (Entry (Shared κ U64) (Step κ U64))) :
    Prop where
  /-- A winner takes the stamp of the winner before it, and is due. -/
  spaced : ∀ later x between y earlier k now last k' now' last',
    tr = later ++ x :: (between ++ y :: earlier) →
    Wins some x k now last → Wins some y k' now' last' → (∀ z ∈ between, ¬ Won some z) →
      last = now' ∧ mlfqTimeBefore now (now' + mlfqAdaptMinIntervalNs) = false
        ∧ mlfqAdaptMinIntervalNs.toNat ≤ Serial.gap now' now
        ∧ (Serial.gap now' now < 2 ^ 63 →
            (adaptElapsed last now).toNat = Serial.gap now' now)
        ∧ (adaptElapsed last now = 0
            ∨ (adaptElapsed last now).toNat = Serial.gap now' now)
  /-- The stamp a winner takes is younger than every earlier winner's. -/
  distinct : ∀ later x mid y earlier k now last k' now' last',
    tr = later ++ x :: (mid ++ y :: earlier) →
    Wins some x k now last → Wins some y k' now' last' →
      ∃ between w rest, mid ++ [y] = between ++ w :: rest ∧ (∃ j u, Wins some w j last u)
        ∧ ∀ z ∈ between, ¬ Won some z
  /-- The first winner takes the initial stamp. -/
  first : ∀ later x earlier k now last, tr = later ++ x :: earlier →
    Wins some x k now last → (∀ z ∈ earlier, ¬ Won some z) → last = stepAt

/-- What every run of the sample gate satisfies. -/
structure SampleWinners (lastAt : U64) (tr : List (Entry (Shared κ U64) (SampleEvent κ))) :
    Prop where
  spaced : ∀ later x between y earlier k now last k' now' last',
    tr = later ++ x :: (between ++ y :: earlier) →
    Wins SampleEvent.toStep x k now last → Wins SampleEvent.toStep y k' now' last' →
    (∀ z ∈ between, ¬ Won SampleEvent.toStep z) →
      last = now' ∧ (now' ≠ 0 →
        mlfqTimeBefore (now' + mlfqTreeSampleRateLimitNs) now = true
          ∧ mlfqTreeSampleRateLimitNs.toNat < Serial.gap now' now)
  distinct : ∀ later x mid y earlier k now last k' now' last',
    tr = later ++ x :: (mid ++ y :: earlier) →
    Wins SampleEvent.toStep x k now last → Wins SampleEvent.toStep y k' now' last' →
      ∃ between w rest, mid ++ [y] = between ++ w :: rest
        ∧ (∃ j u, Wins SampleEvent.toStep w j last u)
        ∧ ∀ z ∈ between, ¬ Won SampleEvent.toStep z
  first : ∀ later x earlier k now last, tr = later ++ x :: earlier →
    Wins SampleEvent.toStep x k now last →
    (∀ z ∈ earlier, ¬ Won SampleEvent.toStep z) → last = lastAt

theorem AdaptGateRun.winners {stepAt : U64} {tr : List (Entry (Shared κ U64) (Step κ U64))}
    {s : Shared κ U64} (h : AdaptGateRun stepAt tr s) : AdaptWinners stepAt tr where
  spaced := by
    rintro later x between y earlier k now last k' now' last' rfl hx hy hno
    obtain ⟨rfl, hdue⟩ := GuardedRun.consecutive h hx hy hno
    exact ⟨rfl, hdue, hdue.interval_le, adaptElapsed_eq last now⟩
  distinct := by
    rintro later x mid y earlier k now last k' now' last' rfl hx hy
    exact GuardedRun.replaces_later h hx hy
  first := by
    rintro later x earlier k now last rfl hx hno
    exact (GuardedRun.first h hx hno).1

theorem SampleGateRun.winners {lastAt : U64}
    {tr : List (Entry (Shared κ U64) (SampleEvent κ))} {s : Shared κ U64}
    (h : SampleGateRun lastAt tr s) : SampleWinners lastAt tr where
  spaced := by
    rintro later x between y earlier k now last k' now' last' rfl hx hy hno
    obtain ⟨rfl, hopen⟩ := GuardedRun.consecutive h hx hy hno
    refine ⟨rfl, ?_⟩
    intro hstamp
    exact ⟨hopen.resolve_left hstamp, hopen.limit_lt hstamp⟩
  distinct := by
    rintro later x mid y earlier k now last k' now' last' rfl hx hy
    exact GuardedRun.replaces_later h hx hy
  first := by
    rintro later x earlier k now last rfl hx hno
    exact (GuardedRun.first h hx hno).1

/-- **Single-winner gates.** In every interleaving, whatever the clocks of
the CPUs read, consecutive winners of the adaptation gate are at least
the interval apart and consecutive winners of the sample gate more than
the rate limit, a zero stamp excepted. Each winner takes the stamp of
the winner before it, so no stamp is taken twice. -/
theorem gates_single_winner {stepAt lastAt : U64}
    {adapts : List (Entry (Shared κ U64) (Step κ U64))} {sa : Shared κ U64}
    {samples : List (Entry (Shared κ U64) (SampleEvent κ))} {ss : Shared κ U64}
    (hadapt : AdaptGateRun stepAt adapts sa) (hsample : SampleGateRun lastAt samples ss) :
    AdaptWinners stepAt adapts ∧ SampleWinners lastAt samples :=
  ⟨AdaptGateRun.winners hadapt, SampleGateRun.winners hsample⟩

/-- Two CPUs load the zero stamp at 2 s, the first one wins and the other
loses; it wins a second later. At the sample gate the second attempt is
held back by the window of its own task. -/
theorem gates_single_winner_twoCpus :
    ∃ adapts sa samples ss, @AdaptGateRun Bool _ 0 adapts sa
      ∧ @SampleGateRun Bool _ 0 samples ss
      ∧ sa.value = 3000000005 ∧ ss.value = 2000000000
      ∧ AdaptWinners 0 adapts ∧ SampleWinners 0 samples := by
  obtain ⟨adapts, sa, hadapt, hsa⟩ : ∃ tr s, @AdaptGateRun Bool _ 0 tr s
      ∧ decide (s.value = 3000000005) = true :=
    exec_reaches (guarded AdaptDue some) (by exact rfl)
      [.read true 2000000000, .read false 2000000001, .swap true, .swap false,
        .read false 3000000005, .swap false]
      (fun _ s => decide (s.value = 3000000005)) (by decide)
  obtain ⟨samples, ss, hsample, hss⟩ : ∃ tr s, @SampleGateRun Bool _ 0 tr s
      ∧ decide (s.value = 2000000000) = true :=
    exec_reaches (guarded SampleOpen SampleEvent.toStep) (by exact rfl)
      [.attempt true 2000000000 0, .swap true, .attempt false 2001000000 1999999999]
      (fun _ s => decide (s.value = 2000000000)) (by decide)
  obtain ⟨hwa, hws⟩ := gates_single_winner hadapt hsample
  exact ⟨adapts, sa, samples, ss, hadapt, hsample, of_decide_eq_true hsa,
    of_decide_eq_true hss, hwa, hws⟩

end ScxMlfq
