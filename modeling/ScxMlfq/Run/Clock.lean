import ScxMlfq.Intf.Vtime
import ScxMlfq.Lib.Swap

/-!
# Run — Clock

One queue clock under the advances of any number of CPUs. An advance is
two steps, the read of the clock with the test of `mlfq_time_before`,
and the single-shot compare-and-swap; the steps of different CPUs
interleave in any order. The register and its runs are those of `Swap`,
with the wrapping comparison as the order, which is not transitive: of
two clocks half of the circle apart neither is before the other, and
three can be before each other in turn.
-/

namespace ScxMlfq

open Trace Swap

variable {κ : Type*} [DecidableEq κ]

/-- `vruntime` is ahead of the clock read, as the code tests it. -/
def AheadOf (cur vruntime : U64) : Prop := mlfqTimeBefore cur vruntime = true

instance : DecidableRel AheadOf := fun cur v =>
  inferInstanceAs (Decidable (mlfqTimeBefore cur v = true))

/-- `mlfq_queue_advance_clock` in its two steps: the read of `q->clock`
with the test that may end the advance, and the compare-and-swap. -/
abbrev stepClock (s : Shared κ U64) (e : Step κ U64) : Option (Shared κ U64) :=
  next AheadOf s e

/-- The runs of the CPUs on a clock that starts at `clock`. -/
abbrev ClockRun (clock : U64) : List (SwapEntry κ U64) → Shared κ U64 → Prop :=
  SwapRun AheadOf clock

/-- The two steps with nothing between them are the advance that the
callbacks make. -/
theorem stepClock_alone (q : QueueCtx) (k : κ) (v : U64) :
    let s : Shared κ U64 := fresh q.clock
    (stepClock s (.read k v) = some s ∧ mlfqQueueAdvanceClock q v = q) ∨
    ∃ s₁ s₂, stepClock s (.read k v) = some s₁ ∧ stepClock s₁ (.swap k) = some s₂ ∧
      s₂.value = (mlfqQueueAdvanceClock q v).clock := by
  intro s
  rcases @next_alone _ _ AheadOf _ _ _ s k v rfl with ⟨hnot, hread⟩ | ⟨hahead, s₁, s₂, hread,
    hswap, hvalue⟩
  · left
    have hbehind : ¬ mlfqTimeBefore q.clock v = true := hnot
    refine ⟨hread, ?_⟩
    rw [mlfqQueueAdvanceClock, if_neg hbehind]
  · right
    have hbefore : mlfqTimeBefore q.clock v = true := hahead
    refine ⟨s₁, s₂, hread, hswap, ?_⟩
    rw [hvalue, mlfqQueueAdvanceClock, if_pos hbefore]

/-- **The clock under contention.** In every interleaving each store
moves the clock forward, the clock holds the value it started with or
one that an advance proposed, and an advance that ends leaves the clock
not before its vruntime, unless the store of another CPU landed between
its read and its swap. -/
theorem clock_monotone_contended {clock : U64} {tr : List (SwapEntry κ U64)}
    {s : Shared κ U64} (h : ClockRun clock tr s) :
    (s.value = clock ∨ Proposed tr s.value) ∧
    ∀ later x earlier, tr = later ++ x :: earlier →
      (Stores x → mlfqTimeBefore x.pre.value x.post.value = true) ∧
      (x.post.value ≠ x.pre.value → Stores x) ∧
      ∀ v, Completes x v →
        mlfqTimeBefore x.post.value v = false ∨ StoredSince x.event.party v earlier := by
  refine ⟨h.inv.value, ?_⟩
  rintro later x earlier rfl
  refine ⟨fun hx => h.stores_ahead hx, ?_, ?_⟩
  · intro hne
    rcases value_eq_or_stores h.at.2 with hsame | hstores
    · exact absurd hsame hne
    · exact hstores
  · intro v hv
    have hirr : ∀ w : U64, ¬ AheadOf w w := by
      intro w hw
      exact Serial.not_before_self w (mlfqTimeBefore_iff.mp hw)
    exact (h.completes hirr hv).imp_left Bool.eq_false_iff.mpr

/-- Two CPUs propose 5 and 9 to a clock at zero. The first swaps last and
loses, so the clock stays at 9. -/
theorem clock_monotone_contended_race :
    ∃ tr s, @ClockRun Bool _ 0 tr s ∧ s.value = 9 ∧
      ((s.value = 0 ∨ Proposed tr s.value) ∧
      ∀ later x earlier, tr = later ++ x :: earlier →
        (Stores x → mlfqTimeBefore x.pre.value x.post.value = true) ∧
        (x.post.value ≠ x.pre.value → Stores x) ∧
        ∀ v, Completes x v →
          mlfqTimeBefore x.post.value v = false ∨ StoredSince x.event.party v earlier) := by
  obtain ⟨tr, s, h, hs⟩ : ∃ tr s, @ClockRun Bool _ 0 tr s
      ∧ decide (s.value = 9) = true :=
    exec_reaches stepClock (by exact rfl)
      [.read true 5, .read false 9, .swap false, .swap true]
      (fun _ s => decide (s.value = 9)) (by decide)
  exact ⟨tr, s, h, of_decide_eq_true hs, clock_monotone_contended h⟩

end ScxMlfq
