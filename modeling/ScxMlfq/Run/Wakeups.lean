import Mathlib.Algebra.BigOperators.Fin
import Mathlib.Algebra.Order.BigOperators.Group.Finset
import Mathlib.Data.BitVec
import ScxMlfq.Intf.Types
import ScxMlfq.Lib.Harvest
import ScxMlfq.Lib.Trace

/-!
# Run — Wakeups

The per-CPU wakeup counters between the wakeups of `mlfq_enqueue` and the
folds of `mlfq_wakeup_window_fold`. Every atomic operation is a step: the
adds to the two words of the executing CPU's slot, and the exchanges by
which a fold empties one window after the other. Any number of folds may
be under way at once.
-/

namespace ScxMlfq

open Trace Harvest

/-- `struct mlfq_wakeup_counters`. -/
structure WakeupCounters where
  total : U64 := 0
  window : U64 := 0

/-- The locals of one `mlfq_wakeup_window_fold`: the CPU its loop is at
and the sum so far, which it returns. -/
structure WindowFold where
  cpu : Nat := 0
  total : U64 := 0
  returned : Bool := false

/-- The slots, and the folds in the order they were entered. -/
structure WakeupStats where
  counters : Nat → WakeupCounters := fun _ => {}
  folds : List WindowFold := []

inductive WakeupEvent where
  /-- The add to `total`, then the add to `window`, of a wakeup on a CPU. -/
  | addTotal (cpu : Nat)
  | addWindow (cpu : Nat)
  | enter
  /-- One turn of the loop of fold `i`. -/
  | exchange (i : Nat)
  | leave (i : Nat)
deriving DecidableEq

/-- One atomic step, on `nr` CPUs. The slots of these CPUs exist, so no
lookup fails. -/
def stepWakeups (nr : Nat) (s : WakeupStats) : WakeupEvent → Option WakeupStats
  | .addTotal cpu =>
      if cpu < nr then
        let c := s.counters cpu
        some { s with
          counters := Function.update s.counters cpu { c with total := c.total + 1 } }
      else none
  | .addWindow cpu =>
      if cpu < nr then
        let c := s.counters cpu
        some { s with
          counters := Function.update s.counters cpu { c with window := c.window + 1 } }
      else none
  | .enter => some { s with folds := s.folds ++ [{}] }
  | .exchange i =>
      match s.folds[i]? with
      | none => none
      | some f =>
          if f.cpu < nr then
            let c := s.counters f.cpu
            some {
              counters := Function.update s.counters f.cpu { c with window := 0 }
              folds := s.folds.set i { f with cpu := f.cpu + 1, total := f.total + c.window } }
          else none
  | .leave i =>
      match s.folds[i]? with
      | none => none
      | some f =>
          if f.cpu < nr ∨ f.returned then none
          else some { s with folds := s.folds.set i { f with returned := true } }

abbrev WakeupEntry := Entry WakeupStats WakeupEvent

/-- The interleavings of the steps, from the zeroed map. -/
abbrev WakeupRun (nr : Nat) : List WakeupEntry → WakeupStats → Prop :=
  Run (fun s e s' => stepWakeups nr s e = some s') (fun s => s = {})

/-! ## What a run has performed -/

/-- The adds to the window of any CPU, to the lifetime count of any, and
to that of one. -/
def windowAdds (tr : List WakeupEntry) : Nat :=
  tr.countP fun x => match x.event with
    | .addWindow _ => true
    | _ => false

def lifetimeAdds (tr : List WakeupEntry) : Nat :=
  tr.countP fun x => match x.event with
    | .addTotal _ => true
    | _ => false

def totalAdds (tr : List WakeupEntry) (cpu : Nat) : Nat :=
  tr.countP fun x => decide (x.event = .addTotal cpu)

/-- The CPU a fold is at. -/
def foldCpu (s : WakeupStats) (i : Nat) : Nat := (s.folds.getD i {}).cpu

/-- Where the arrivals lie: in the window they were added to, or with the
fold that exchanged it. -/
def wakeupLedger : List WakeupEntry → Harvest.Ledger Nat
  | [] => []
  | x :: tr =>
      match x.event with
      | .addWindow cpu => wakeupLedger tr ++ [.slot cpu]
      | .exchange i => take i (foldCpu x.pre i) (wakeupLedger tr)
      | _ => wakeupLedger tr

/-- The CPU of each arrival. -/
def origins : List WakeupEntry → List Nat
  | [] => []
  | x :: tr =>
      match x.event with
      | .addWindow cpu => origins tr ++ [cpu]
      | _ => origins tr

/-- The number of arrivals before fold `i` was entered. -/
def arrivalsBefore (i : Nat) : List WakeupEntry → Nat
  | [] => 0
  | x :: tr =>
      if x.event = .enter ∧ x.pre.folds.length = i then (wakeupLedger tr).length
      else arrivalsBefore i tr

/-- Another fold had taken arrival `n` of `cpu` when fold `i` got there. -/
def TakenBefore (i j n cpu : Nat) (tr : List WakeupEntry) : Prop :=
  ∃ later x before, tr = later ++ x :: before ∧ x.event = .exchange i
    ∧ foldCpu x.pre i = cpu ∧ (wakeupLedger before)[n]? = some (.taken j)

/-- Arrival `n` of `cpu` went to fold `i`, or another was there first. -/
def ConsumedFor (i n cpu : Nat) (tr : List WakeupEntry) : Prop :=
  ∃ j, (wakeupLedger tr)[n]? = some (.taken j) ∧ (j = i ∨ TakenBefore i j n cpu tr)

/-- The counters are those of the ledger. -/
structure Booked (nr : Nat) (tr : List WakeupEntry) (s : WakeupStats) : Prop where
  window : ∀ cpu, (s.counters cpu).window = BitVec.ofNat 64 ((wakeupLedger tr).count (.slot cpu))
  total : ∀ cpu, (s.counters cpu).total = BitVec.ofNat 64 (totalAdds tr cpu)
  fold : ∀ (i : Nat) (f : WindowFold), s.folds[i]? = some f →
    f.total = BitVec.ofNat 64 ((wakeupLedger tr).count (.taken i))
  slot_lt : ∀ cpu, .slot cpu ∈ wakeupLedger tr → cpu < nr
  taken_lt : ∀ i, .taken i ∈ wakeupLedger tr → i < s.folds.length
  totals_lt : ∀ cpu, nr ≤ cpu → totalAdds tr cpu = 0
  length : (wakeupLedger tr).length = windowAdds tr

/-- The folds have swept the CPUs behind them. -/
structure SweptFolds (nr : Nat) (tr : List WakeupEntry) (s : WakeupStats) : Prop where
  origin : ∀ (n cpu : Nat), (origins tr)[n]? = some cpu →
    (wakeupLedger tr)[n]? = some (.slot cpu) ∨ ∃ j, (wakeupLedger tr)[n]? = some (.taken j)
  origins_length : (origins tr).length = (wakeupLedger tr).length
  entered : ∀ i, arrivalsBefore i tr ≤ (wakeupLedger tr).length
  returned : ∀ (i : Nat) (f : WindowFold), s.folds[i]? = some f → f.returned = true → f.cpu = nr
  swept : ∀ (i : Nat) (f : WindowFold), s.folds[i]? = some f → f.cpu ≤ nr ∧
    ∀ n cpu, n < arrivalsBefore i tr → (origins tr)[n]? = some cpu → cpu < f.cpu →
      ConsumedFor i n cpu tr

/-! ## One step -/

/-- What an exchange does: the fold takes what is in the slot it is at,
and moves on. -/
theorem stepWakeups_exchange {nr : Nat} {s s' : WakeupStats} {i : Nat}
    (h : stepWakeups nr s (.exchange i) = some s') :
    ∃ f, s.folds[i]? = some f ∧ f.cpu < nr ∧ s' =
      { counters := Function.update s.counters f.cpu { s.counters f.cpu with window := 0 }
        folds := s.folds.set i
          { f with cpu := f.cpu + 1, total := f.total + (s.counters f.cpu).window } } := by
  simp only [stepWakeups] at h
  cases hf : s.folds[i]? with
  | none =>
      rw [hf] at h
      cases h
  | some f =>
      rw [hf] at h
      by_cases hlt : f.cpu < nr
      · simp only [if_pos hlt, Option.some.injEq] at h
        exact ⟨f, rfl, hlt, h.symm⟩
      · simp only [if_neg hlt] at h
        cases h

/-- A fold returns once it has been at every CPU. -/
theorem stepWakeups_leave {nr : Nat} {s s' : WakeupStats} {i : Nat}
    (h : stepWakeups nr s (.leave i) = some s') :
    ∃ f, s.folds[i]? = some f ∧ nr ≤ f.cpu
      ∧ s' = { s with folds := s.folds.set i { f with returned := true } } := by
  simp only [stepWakeups] at h
  cases hf : s.folds[i]? with
  | none =>
      rw [hf] at h
      cases h
  | some f =>
      rw [hf] at h
      by_cases hdone : f.cpu < nr ∨ f.returned
      · simp only [if_pos hdone] at h
        cases h
      · simp only [if_neg hdone, Option.some.injEq] at h
        exact ⟨f, rfl, by omega, h.symm⟩

theorem stepWakeups_addTotal {nr : Nat} {s s' : WakeupStats} {cpu : Nat}
    (h : stepWakeups nr s (.addTotal cpu) = some s') :
    cpu < nr ∧ s' = { s with
      counters := Function.update s.counters cpu
        { s.counters cpu with total := (s.counters cpu).total + 1 } } := by
  rw [stepWakeups] at h
  by_cases hlt : cpu < nr
  · simp only [if_pos hlt, Option.some.injEq] at h
    exact ⟨hlt, h.symm⟩
  · simp only [if_neg hlt] at h
    cases h

theorem stepWakeups_addWindow {nr : Nat} {s s' : WakeupStats} {cpu : Nat}
    (h : stepWakeups nr s (.addWindow cpu) = some s') :
    cpu < nr ∧ s' = { s with
      counters := Function.update s.counters cpu
        { s.counters cpu with window := (s.counters cpu).window + 1 } } := by
  rw [stepWakeups] at h
  by_cases hlt : cpu < nr
  · simp only [if_pos hlt, Option.some.injEq] at h
    exact ⟨hlt, h.symm⟩
  · simp only [if_neg hlt] at h
    cases h

/-- What stands at an index of a list with one more element. -/
theorem getElem?_concat_cases {α : Type*} {xs : List α} {x y : α} {i : Nat}
    (h : (xs ++ [x])[i]? = some y) :
    (i < xs.length ∧ xs[i]? = some y) ∨ (i = xs.length ∧ y = x) := by
  rcases Nat.lt_or_ge i xs.length with hlt | hge
  · rw [List.getElem?_append_left hlt] at h
    exact .inl ⟨hlt, h⟩
  · rw [List.getElem?_append_right hge, List.getElem?_singleton] at h
    split at h
    · exact .inr ⟨by omega, (Option.some.inj h).symm⟩
    · cases h

/-- The fold at an index, after one fold was replaced. -/
theorem getElem?_set_fold {folds : List WindowFold} {i j : Nat} {f g g' : WindowFold}
    (hf : folds[i]? = some f) (h : (folds.set i g)[j]? = some g') :
    (j = i ∧ g' = g) ∨ (j ≠ i ∧ folds[j]? = some g') := by
  have hi := (List.getElem?_eq_some_iff.mp hf).1
  by_cases hj : j = i
  · subst hj
    rw [List.getElem?_set_self hi] at h
    exact .inl ⟨rfl, (Option.some.inj h).symm⟩
  · rw [List.getElem?_set_ne (Ne.symm hj)] at h
    exact .inr ⟨hj, h⟩

theorem foldCpu_eq {s : WakeupStats} {i : Nat} {f : WindowFold} (h : s.folds[i]? = some f) :
    foldCpu s i = f.cpu := by
  rw [foldCpu, List.getD_eq_getElem?_getD, h]
  rfl

theorem ledger_addWindow (s s' : WakeupStats) (cpu : Nat) (tr : List WakeupEntry) :
    wakeupLedger (⟨s, .addWindow cpu, s'⟩ :: tr) = wakeupLedger tr ++ [.slot cpu] := rfl

theorem ledger_exchange {s : WakeupStats} {i : Nat} {f : WindowFold} (hf : s.folds[i]? = some f)
    (s' : WakeupStats) (tr : List WakeupEntry) :
    wakeupLedger (⟨s, .exchange i, s'⟩ :: tr) = take i f.cpu (wakeupLedger tr) := by
  show take i (foldCpu s i) (wakeupLedger tr) = _
  rw [foldCpu_eq hf]

theorem totalAdds_cons (x : WakeupEntry) (tr : List WakeupEntry) (cpu : Nat) :
    totalAdds (x :: tr) cpu = totalAdds tr cpu + if x.event = .addTotal cpu then 1 else 0 := by
  rw [totalAdds, List.countP_cons, totalAdds]
  simp only [decide_eq_true_eq]

/-- An arrival is booked once and never dropped. -/
theorem length_wakeupLedger (tr : List WakeupEntry) :
    (wakeupLedger tr).length = windowAdds tr := by
  induction tr with
  | nil => rfl
  | cons x tr ih =>
      rw [windowAdds, List.countP_cons, ← windowAdds, ← ih, wakeupLedger]
      cases x.event with
      | addTotal cpu => rfl
      | addWindow cpu => rw [List.length_append]; rfl
      | enter => rfl
      | exchange i => rw [length_take]; rfl
      | leave i => rfl

/-- Only its own add moves a lifetime count. -/
theorem stepWakeups_total {nr : Nat} {s s' : WakeupStats} {e : WakeupEvent}
    (hs : stepWakeups nr s e = some s') (c : Nat) :
    (s'.counters c).total = (s.counters c).total + if e = .addTotal c then 1 else 0 := by
  cases e with
  | addTotal cpu =>
      obtain ⟨-, rfl⟩ := stepWakeups_addTotal hs
      by_cases hc : c = cpu
      · subst hc
        simp
      · simp [Function.update_of_ne hc, Ne.symm hc]
  | addWindow cpu =>
      obtain ⟨-, rfl⟩ := stepWakeups_addWindow hs
      by_cases hc : c = cpu
      · subst hc
        simp
      · simp [Function.update_of_ne hc]
  | enter =>
      obtain rfl := Option.some.inj hs
      simp
  | exchange i =>
      obtain ⟨f, -, -, rfl⟩ := stepWakeups_exchange hs
      by_cases hc : c = f.cpu
      · subst hc
        simp
      · simp [Function.update_of_ne hc]
  | leave i =>
      obtain ⟨f, -, -, rfl⟩ := stepWakeups_leave hs
      simp

/-- Every arrival has a CPU. -/
theorem length_origins (tr : List WakeupEntry) : (origins tr).length = windowAdds tr := by
  induction tr with
  | nil => rfl
  | cons x tr ih =>
      rw [windowAdds, List.countP_cons, ← windowAdds, ← ih, origins]
      cases x.event with
      | addWindow cpu => rw [List.length_append]; rfl
      | addTotal cpu => rfl
      | enter => rfl
      | exchange i => rfl
      | leave i => rfl

theorem windowAdds_le_cons (x : WakeupEntry) (tr : List WakeupEntry) :
    windowAdds tr ≤ windowAdds (x :: tr) := by
  rw [windowAdds, windowAdds, List.countP_cons]
  exact Nat.le_add_right _ _

/-- The arrivals before a fold are among the arrivals. -/
theorem arrivalsBefore_le (i : Nat) (tr : List WakeupEntry) :
    arrivalsBefore i tr ≤ windowAdds tr := by
  induction tr with
  | nil => exact Nat.zero_le _
  | cons x tr ih =>
      have hmono := windowAdds_le_cons x tr
      rw [arrivalsBefore, length_wakeupLedger]
      split
      · exact hmono
      · exact Nat.le_trans ih hmono

/-- The arrivals before a fold are settled when it is entered. -/
theorem arrivalsBefore_cons {s : WakeupStats} {i : Nat} (hi : i < s.folds.length)
    (e : WakeupEvent) (s' : WakeupStats) (tr : List WakeupEntry) :
    arrivalsBefore i (⟨s, e, s'⟩ :: tr) = arrivalsBefore i tr := by
  rw [arrivalsBefore, if_neg]
  rintro ⟨-, heq⟩
  exact Nat.ne_of_gt hi heq

theorem getElem?_origins_cons {tr : List WakeupEntry} {n : Nat} (hn : n < windowAdds tr)
    (x : WakeupEntry) : (origins (x :: tr))[n]? = (origins tr)[n]? := by
  rw [origins]
  split
  · exact List.getElem?_append_left (by rw [length_origins]; exact hn)
  · rfl

section Books
variable {nr : Nat} {tr : List WakeupEntry} {s s' : WakeupStats} {e : WakeupEvent}

theorem Booked.step_window (h : Booked nr tr s) (hs : stepWakeups nr s e = some s') (c : Nat) :
    (s'.counters c).window
      = BitVec.ofNat 64 ((wakeupLedger (⟨s, e, s'⟩ :: tr)).count (.slot c)) := by
  cases e with
  | addTotal cpu =>
      obtain ⟨-, rfl⟩ := stepWakeups_addTotal hs
      by_cases hc : c = cpu
      · subst hc
        simp only [Function.update_self]
        exact h.window c
      · simp only [Function.update_of_ne hc]
        exact h.window c
  | addWindow cpu =>
      obtain ⟨-, rfl⟩ := stepWakeups_addWindow hs
      rw [ledger_addWindow, List.count_append, List.count_singleton, BitVec.ofNat_add, ← h.window]
      by_cases hc : c = cpu
      · subst hc
        simp
      · simp [Function.update_of_ne hc, Ne.symm hc]
  | enter =>
      obtain rfl := Option.some.inj hs
      exact h.window c
  | exchange i =>
      -- the exchange leaves a zero, and the ledger nothing in the slot
      obtain ⟨f, hf, -, rfl⟩ := stepWakeups_exchange hs
      rw [ledger_exchange hf, count_take_slot]
      by_cases hc : c = f.cpu
      · subst hc
        simp
      · simp only [Function.update_of_ne hc, if_neg hc]
        exact h.window c
  | leave i =>
      obtain ⟨f, -, -, rfl⟩ := stepWakeups_leave hs
      exact h.window c

theorem Booked.step_fold (h : Booked nr tr s) (hs : stepWakeups nr s e = some s') {j : Nat}
    {g : WindowFold} (hg : s'.folds[j]? = some g) :
    g.total = BitVec.ofNat 64 ((wakeupLedger (⟨s, e, s'⟩ :: tr)).count (.taken j)) := by
  cases e with
  | addTotal cpu =>
      obtain ⟨-, rfl⟩ := stepWakeups_addTotal hs
      exact h.fold j g hg
  | addWindow cpu =>
      obtain ⟨-, rfl⟩ := stepWakeups_addWindow hs
      rw [ledger_addWindow, List.count_append, h.fold j g hg]
      simp
  | enter =>
      obtain rfl := Option.some.inj hs
      show g.total = BitVec.ofNat 64 ((wakeupLedger tr).count (.taken j))
      rcases getElem?_concat_cases hg with ⟨-, hg⟩ | ⟨rfl, rfl⟩
      · exact h.fold j g hg
      · -- nothing has been taken for the new fold
        have hnone : (wakeupLedger tr).count (.taken s.folds.length) = 0 :=
          List.count_eq_zero.mpr fun hmem => Nat.lt_irrefl _ (h.taken_lt _ hmem)
        rw [hnone]
        rfl
  | exchange i =>
      obtain ⟨f, hf, -, rfl⟩ := stepWakeups_exchange hs
      rw [ledger_exchange hf, count_take_taken]
      rcases getElem?_set_fold hf hg with ⟨rfl, rfl⟩ | ⟨hne, hg⟩
      · simp only [if_true, BitVec.ofNat_add, ← h.window, h.fold j f hf]
      · rw [if_neg hne, Nat.add_zero]
        exact h.fold j g hg
  | leave i =>
      obtain ⟨f, hf, -, rfl⟩ := stepWakeups_leave hs
      rcases getElem?_set_fold hf hg with ⟨rfl, rfl⟩ | ⟨-, hg⟩
      · exact h.fold j f hf
      · exact h.fold j g hg

theorem Booked.step_slot_lt (h : Booked nr tr s) (hs : stepWakeups nr s e = some s') {c : Nat}
    (hc : .slot c ∈ wakeupLedger (⟨s, e, s'⟩ :: tr)) : c < nr := by
  cases e with
  | addTotal cpu => exact h.slot_lt c hc
  | addWindow cpu =>
      rw [ledger_addWindow, List.mem_append, List.mem_singleton] at hc
      rcases hc with hc | hc
      · exact h.slot_lt c hc
      · cases hc
        exact (stepWakeups_addWindow hs).1
  | enter => exact h.slot_lt c hc
  | exchange i =>
      obtain ⟨f, hf, -, -⟩ := stepWakeups_exchange hs
      rw [ledger_exchange hf, ← List.count_pos_iff, count_take_slot] at hc
      split at hc
      · cases hc
      · exact h.slot_lt c (List.count_pos_iff.mp hc)
  | leave i => exact h.slot_lt c hc

theorem Booked.step_taken_lt (h : Booked nr tr s) (hs : stepWakeups nr s e = some s') {j : Nat}
    (hj : .taken j ∈ wakeupLedger (⟨s, e, s'⟩ :: tr)) : j < s'.folds.length := by
  cases e with
  | addTotal cpu =>
      obtain ⟨-, rfl⟩ := stepWakeups_addTotal hs
      exact h.taken_lt j hj
  | addWindow cpu =>
      obtain ⟨-, rfl⟩ := stepWakeups_addWindow hs
      rw [ledger_addWindow, List.mem_append, List.mem_singleton] at hj
      rcases hj with hj | hj
      · exact h.taken_lt j hj
      · cases hj
  | enter =>
      obtain rfl := Option.some.inj hs
      have := h.taken_lt j hj
      simp only [List.length_append]
      omega
  | exchange i =>
      obtain ⟨f, hf, -, rfl⟩ := stepWakeups_exchange hs
      rw [List.length_set]
      rw [ledger_exchange hf, ← List.count_pos_iff, count_take_taken] at hj
      by_cases hji : j = i
      · subst hji
        exact (List.getElem?_eq_some_iff.mp hf).1
      · rw [if_neg hji, Nat.add_zero] at hj
        exact h.taken_lt j (List.count_pos_iff.mp hj)
  | leave i =>
      obtain ⟨f, -, -, rfl⟩ := stepWakeups_leave hs
      rw [List.length_set]
      exact h.taken_lt j hj

/-- **One step keeps the books.** -/
theorem Booked.step (h : Booked nr tr s) (hs : stepWakeups nr s e = some s') :
    Booked nr (⟨s, e, s'⟩ :: tr) s' where
  window c := h.step_window hs c
  total c := by
    rw [stepWakeups_total hs, totalAdds_cons, h.total]
    split
    · exact (BitVec.ofNat_add ..).symm
    · rw [Nat.add_zero]
      exact BitVec.add_zero _
  fold j g hg := h.step_fold hs hg
  slot_lt c hc := h.step_slot_lt hs hc
  taken_lt j hj := h.step_taken_lt hs hj
  totals_lt c hc := by
    rw [totalAdds_cons, h.totals_lt c hc, if_neg]
    rintro rfl
    have := (stepWakeups_addTotal hs).1
    omega
  length := length_wakeupLedger _

end Books

/-! ## What the folds consume -/

/-- An arrival that was taken stays with its fold. -/
theorem ledger_taken {tr : List WakeupEntry} {n j : Nat} (x : WakeupEntry)
    (h : (wakeupLedger tr)[n]? = some (.taken j)) :
    (wakeupLedger (x :: tr))[n]? = some (.taken j) := by
  rw [wakeupLedger]
  split
  · rw [List.getElem?_append_left (List.getElem?_eq_some_iff.mp h).1]
    exact h
  · exact getElem?_take_of_taken h
  · exact h

theorem ConsumedFor.cons {i n cpu : Nat} {tr : List WakeupEntry} (h : ConsumedFor i n cpu tr)
    (x : WakeupEntry) : ConsumedFor i n cpu (x :: tr) := by
  obtain ⟨j, hj, hfirst⟩ := h
  refine ⟨j, ledger_taken x hj, hfirst.imp_right ?_⟩
  rintro ⟨later, y, before, rfl, hy, hcpu, hbefore⟩
  exact ⟨x :: later, y, before, rfl, hy, hcpu, hbefore⟩

/-- The origin of an arrival is what the wakeupLedger still knows. -/
theorem SweptFolds.origin_step {nr : Nat} {tr : List WakeupEntry} {s s' : WakeupStats}
    {e : WakeupEvent} (h : SweptFolds nr tr s) (hs : stepWakeups nr s e = some s') (n cpu : Nat)
    (hn : (origins (⟨s, e, s'⟩ :: tr))[n]? = some cpu) :
    (wakeupLedger (⟨s, e, s'⟩ :: tr))[n]? = some (.slot cpu)
      ∨ ∃ j, (wakeupLedger (⟨s, e, s'⟩ :: tr))[n]? = some (.taken j) := by
  cases e with
  | addWindow c =>
      have horigins : origins (⟨s, .addWindow c, s'⟩ :: tr) = origins tr ++ [c] := rfl
      rw [horigins] at hn
      rw [ledger_addWindow]
      rcases getElem?_concat_cases hn with ⟨hlt, hn⟩ | ⟨rfl, rfl⟩
      · rw [List.getElem?_append_left (by rw [← h.origins_length]; exact hlt)]
        exact h.origin n cpu hn
      · rw [h.origins_length, List.getElem?_concat_length]
        exact .inl rfl
  | exchange i =>
      obtain ⟨f, hf, -, -⟩ := stepWakeups_exchange hs
      rw [ledger_exchange hf]
      rcases h.origin n cpu hn with hslot | ⟨j, hj⟩
      · by_cases hc : cpu = f.cpu
        · subst hc
          exact .inr ⟨i, getElem?_take_self hslot⟩
        · exact .inl (getElem?_take_of_ne hc hslot)
      · exact .inr ⟨j, getElem?_take_of_taken hj⟩
  | addTotal c => exact h.origin n cpu hn
  | enter => exact h.origin n cpu hn
  | leave i => exact h.origin n cpu hn

/-- A fold has swept what it had before a step. -/
theorem SweptFolds.swept_cons {nr : Nat} {tr : List WakeupEntry} {s : WakeupStats}
    (h : SweptFolds nr tr s) {i : Nat} {f : WindowFold} (hf : s.folds[i]? = some f)
    (e : WakeupEvent) (s' : WakeupStats) {n cpu : Nat}
    (hn : n < arrivalsBefore i (⟨s, e, s'⟩ :: tr))
    (hcpu : (origins (⟨s, e, s'⟩ :: tr))[n]? = some cpu) (hlt : cpu < f.cpu) :
    ConsumedFor i n cpu (⟨s, e, s'⟩ :: tr) := by
  rw [arrivalsBefore_cons (List.getElem?_eq_some_iff.mp hf).1] at hn
  rw [getElem?_origins_cons (Nat.lt_of_lt_of_le hn (arrivalsBefore_le i tr))] at hcpu
  exact ((h.swept i f hf).2 n cpu hn hcpu hlt).cons _

/-- The exchange of a CPU's window consumes the arrivals of that CPU. -/
theorem SweptFolds.consumed_exchange {nr : Nat} {tr : List WakeupEntry} {s : WakeupStats}
    (h : SweptFolds nr tr s) {i : Nat} {f : WindowFold} (hf : s.folds[i]? = some f)
    (s' : WakeupStats) {n : Nat} (hn : (origins tr)[n]? = some f.cpu) :
    ConsumedFor i n f.cpu (⟨s, .exchange i, s'⟩ :: tr) := by
  rcases h.origin n _ hn with hslot | ⟨k, hk⟩
  · refine ⟨i, ?_, .inl rfl⟩
    rw [ledger_exchange hf]
    exact getElem?_take_self hslot
  · exact ⟨k, ledger_taken _ hk, .inr ⟨[], _, tr, rfl, rfl, foldCpu_eq hf, hk⟩⟩

/-- A fold returns at the last CPU, and then stands still. -/
theorem SweptFolds.returned_step {nr : Nat} {tr : List WakeupEntry} {s s' : WakeupStats}
    {e : WakeupEvent} (h : SweptFolds nr tr s) (hs : stepWakeups nr s e = some s') (j : Nat)
    (g : WindowFold) (hg : s'.folds[j]? = some g) (hret : g.returned = true) : g.cpu = nr := by
  cases e with
  | addTotal c =>
      obtain ⟨-, rfl⟩ := stepWakeups_addTotal hs
      exact h.returned j g hg hret
  | addWindow c =>
      obtain ⟨-, rfl⟩ := stepWakeups_addWindow hs
      exact h.returned j g hg hret
  | enter =>
      obtain rfl := Option.some.inj hs
      rcases getElem?_concat_cases hg with ⟨-, hg⟩ | ⟨-, rfl⟩
      · exact h.returned j g hg hret
      · cases hret
  | exchange i =>
      obtain ⟨f, hf, hlt, rfl⟩ := stepWakeups_exchange hs
      rcases getElem?_set_fold hf hg with ⟨rfl, rfl⟩ | ⟨-, hg⟩
      · have := h.returned j f hf hret
        omega
      · exact h.returned j g hg hret
  | leave i =>
      obtain ⟨f, hf, hdone, rfl⟩ := stepWakeups_leave hs
      rcases getElem?_set_fold hf hg with ⟨rfl, rfl⟩ | ⟨-, hg⟩
      · exact Nat.le_antisymm (h.swept j f hf).1 hdone
      · exact h.returned j g hg hret

/-- A fold has consumed what came before it from the CPUs it has passed. -/
theorem SweptFolds.swept_step {nr : Nat} {tr : List WakeupEntry} {s s' : WakeupStats}
    {e : WakeupEvent} (h : SweptFolds nr tr s) (hs : stepWakeups nr s e = some s') (j : Nat)
    (g : WindowFold) (hg : s'.folds[j]? = some g) :
    g.cpu ≤ nr ∧ ∀ n cpu, n < arrivalsBefore j (⟨s, e, s'⟩ :: tr) →
      (origins (⟨s, e, s'⟩ :: tr))[n]? = some cpu → cpu < g.cpu →
        ConsumedFor j n cpu (⟨s, e, s'⟩ :: tr) := by
  cases e with
  | addTotal c =>
      obtain ⟨-, rfl⟩ := stepWakeups_addTotal hs
      exact ⟨(h.swept j g hg).1, fun n cpu => h.swept_cons hg _ _⟩
  | addWindow c =>
      obtain ⟨-, rfl⟩ := stepWakeups_addWindow hs
      exact ⟨(h.swept j g hg).1, fun n cpu => h.swept_cons hg _ _⟩
  | enter =>
      obtain rfl := Option.some.inj hs
      rcases getElem?_concat_cases hg with ⟨-, hg⟩ | ⟨-, rfl⟩
      · exact ⟨(h.swept j g hg).1, fun n cpu => h.swept_cons hg _ _⟩
      · -- a new fold has been nowhere yet
        exact ⟨Nat.zero_le _, fun n cpu _ _ hc => absurd hc (Nat.not_lt_zero cpu)⟩
  | exchange i =>
      obtain ⟨f, hf, hlt, rfl⟩ := stepWakeups_exchange hs
      rcases getElem?_set_fold hf hg with ⟨rfl, rfl⟩ | ⟨-, hg⟩
      · refine ⟨hlt, fun n cpu hn hcpu hc => ?_⟩
        rcases Nat.lt_or_ge cpu f.cpu with hold | hnew
        · exact h.swept_cons hf _ _ hn hcpu hold
        · -- the CPU the fold is at now
          obtain rfl : cpu = f.cpu := by
            simp only at hc
            omega
          rw [arrivalsBefore_cons (List.getElem?_eq_some_iff.mp hf).1] at hn
          rw [getElem?_origins_cons (Nat.lt_of_lt_of_le hn (arrivalsBefore_le j tr))] at hcpu
          exact h.consumed_exchange hf _ hcpu
      · exact ⟨(h.swept j g hg).1, fun n cpu => h.swept_cons hg _ _⟩
  | leave i =>
      obtain ⟨f, hf, hdone, rfl⟩ := stepWakeups_leave hs
      rcases getElem?_set_fold hf hg with ⟨rfl, rfl⟩ | ⟨-, hg⟩
      · exact ⟨(h.swept j f hf).1, fun n cpu => h.swept_cons hf _ _⟩
      · exact ⟨(h.swept j g hg).1, fun n cpu => h.swept_cons hg _ _⟩

/-- **One step keeps what the folds have swept.** -/
theorem SweptFolds.step {nr : Nat} {tr : List WakeupEntry} {s s' : WakeupStats}
    {e : WakeupEvent} (h : SweptFolds nr tr s) (hs : stepWakeups nr s e = some s') :
    SweptFolds nr (⟨s, e, s'⟩ :: tr) s' := by
  refine ⟨h.origin_step hs, by rw [length_origins, length_wakeupLedger], fun i => ?_,
    h.returned_step hs, h.swept_step hs⟩
  rw [length_wakeupLedger]
  exact arrivalsBefore_le i _

theorem WakeupRun.invariants {nr : Nat} {tr : List WakeupEntry} {s : WakeupStats}
    (h : WakeupRun nr tr s) : Booked nr tr s ∧ SweptFolds nr tr s := by
  refine Run.invariant (I := fun tr s => Booked nr tr s ∧ SweptFolds nr tr s) ?_
    (fun tr s e s' hI hs => ⟨hI.1.step hs, hI.2.step hs⟩) h
  rintro s rfl
  refine ⟨⟨fun _ => rfl, fun _ => rfl, nofun, nofun, nofun, fun _ _ => rfl, rfl⟩,
    ⟨nofun, rfl, fun _ => Nat.le_refl _, nofun, nofun⟩⟩

/-- Arrivals come from the CPUs there are, and so do the counts. -/
theorem WakeupRun.onCpus {nr : Nat} {tr : List WakeupEntry} {s : WakeupStats}
    (h : WakeupRun nr tr s) :
    (∀ cpu ∈ origins tr, cpu < nr)
      ∧ ∑ cpu ∈ Finset.range nr, totalAdds tr cpu = lifetimeAdds tr := by
  refine Run.invariant (I := fun tr _ => (∀ cpu ∈ origins tr, cpu < nr)
    ∧ ∑ cpu ∈ Finset.range nr, totalAdds tr cpu = lifetimeAdds tr) ?_ ?_ h
  · rintro s rfl
    exact ⟨nofun, Finset.sum_eq_zero fun _ _ => rfl⟩
  · rintro tr s e s' ⟨horigins, hsum⟩ hs
    have hother (hno : ∀ c, e ≠ .addTotal c) :
        ∑ cpu ∈ Finset.range nr, totalAdds (⟨s, e, s'⟩ :: tr) cpu
          = lifetimeAdds (⟨s, e, s'⟩ :: tr) := by
      have hsame : ∀ cpu, totalAdds (⟨s, e, s'⟩ :: tr) cpu = totalAdds tr cpu := by
        intro cpu
        rw [totalAdds, List.countP_cons, if_neg (by simpa using hno cpu)]
        rfl
      rw [Finset.sum_congr rfl fun cpu _ => hsame cpu, hsum, lifetimeAdds, lifetimeAdds,
        List.countP_cons]
      cases e with
      | addTotal c => exact absurd rfl (hno c)
      | addWindow c => rfl
      | enter => rfl
      | exchange i => rfl
      | leave i => rfl
    cases e with
    | addTotal c =>
        obtain ⟨hlt, -⟩ := stepWakeups_addTotal hs
        refine ⟨horigins, ?_⟩
        have hcons : ∀ cpu, totalAdds (⟨s, .addTotal c, s'⟩ :: tr) cpu
            = totalAdds tr cpu + if c = cpu then 1 else 0 := by
          intro cpu
          rw [totalAdds, List.countP_cons, totalAdds]
          simp
        rw [Finset.sum_congr rfl fun cpu _ => hcons cpu, Finset.sum_add_distrib, hsum,
          Finset.sum_ite_eq, if_pos (Finset.mem_range.mpr hlt), lifetimeAdds, lifetimeAdds,
          List.countP_cons]
        rfl
    | addWindow c =>
        obtain ⟨hlt, -⟩ := stepWakeups_addWindow hs
        refine ⟨fun cpu hcpu => ?_, hother nofun⟩
        rcases List.mem_append.mp hcpu with hold | hnew
        · exact horigins cpu hold
        · rw [List.mem_singleton.mp hnew]
          exact hlt
    | enter => exact ⟨horigins, hother nofun⟩
    | exchange i => exact ⟨horigins, hother nofun⟩
    | leave i => exact ⟨horigins, hother nofun⟩

/-! ## The sums -/

/-- The results of the folds that have returned. -/
def completed (s : WakeupStats) : List U64 := (s.folds.filter fun f => f.returned).map (·.total)

/-- The sums of the folds in progress. -/
def partialSums (s : WakeupStats) : List U64 :=
  (s.folds.filter fun f => !f.returned).map (·.total)

/-- The folds that have returned, and the others, are all folds. -/
theorem sum_completed {M : Type*} [AddCommMonoid M] (folds : List WindowFold)
    (g : WindowFold → M) :
    ((folds.filter fun f => f.returned).map g).sum + ((folds.filter fun f => !f.returned).map g).sum
      = ∑ i ∈ Finset.range folds.length, g (folds.getD i {}) := by
  induction folds with
  | nil => simp
  | cons f folds ih =>
      rw [List.length_cons, Finset.sum_range_succ']
      simp only [List.getD_cons_succ, List.getD_cons_zero, ← ih]
      cases hf : f.returned with
      | true =>
          simp only [List.filter_cons, hf, if_true, Bool.not_true, Bool.false_eq_true, if_false,
            List.map_cons, List.sum_cons]
          rw [add_assoc, add_comm]
      | false =>
          simp only [List.filter_cons, hf, if_true, Bool.not_false, Bool.false_eq_true, if_false,
            List.map_cons, List.sum_cons]
          rw [add_left_comm, add_comm]

/-- The counts of the wakeupLedger add up to the arrivals. -/
theorem Booked.sum_count {nr : Nat} {tr : List WakeupEntry} {s : WakeupStats}
    (h : Booked nr tr s) :
    ∑ i ∈ Finset.range s.folds.length, (wakeupLedger tr).count (.taken i)
        + ∑ cpu ∈ Finset.range nr, (wakeupLedger tr).count (.slot cpu) = windowAdds tr := by
  rw [← h.length, add_comm]
  exact Harvest.sum_count (fun cpu hmem => Finset.mem_range.mpr (h.slot_lt cpu hmem)) h.taken_lt

/-- The sum of a fold, by its place. -/
theorem Booked.fold_total {nr : Nat} {tr : List WakeupEntry} {s : WakeupStats}
    (h : Booked nr tr s) {i : Nat} (hi : i < s.folds.length) :
    (s.folds.getD i {}).total = BitVec.ofNat 64 ((wakeupLedger tr).count (.taken i)) := by
  have hf := List.getElem?_eq_getElem hi
  rw [List.getD_eq_getElem?_getD, hf]
  exact h.fold i _ hf

/-- The words of sums are sums of words. -/
theorem ofNat_sum {ι : Type*} (idx : Finset ι) (g : ι → Nat) :
    BitVec.ofNat 64 (∑ i ∈ idx, g i) = ∑ i ∈ idx, BitVec.ofNat 64 (g i) := by
  classical
  induction idx using Finset.induction_on with
  | empty => rfl
  | insert i idx hi ih => rw [Finset.sum_insert hi, Finset.sum_insert hi, BitVec.ofNat_add, ih]

/-- **No arrival is lost or counted twice.** At every point the results
of the folds, the sums of those in progress and the windows together are
the arrivals, as words and, below the word's modulus, as numbers; the
lifetime counts are those performed; and a fold that returns leaves no
arrival before it to anyone but a fold that was there first. -/
theorem wakeups_conserved {nr : Nat} {tr : List WakeupEntry} {s : WakeupStats}
    (h : WakeupRun nr tr s) :
    ((completed s).sum + (partialSums s).sum + ∑ cpu ∈ Finset.range nr, (s.counters cpu).window
        = BitVec.ofNat 64 (windowAdds tr))
    ∧ (windowAdds tr < 2 ^ 64 →
      ((completed s).map BitVec.toNat).sum + ((partialSums s).map BitVec.toNat).sum
        + ∑ cpu ∈ Finset.range nr, (s.counters cpu).window.toNat = windowAdds tr)
    ∧ (∑ cpu ∈ Finset.range nr, (s.counters cpu).total = BitVec.ofNat 64 (lifetimeAdds tr))
    ∧ (lifetimeAdds tr < 2 ^ 64 →
      ∑ cpu ∈ Finset.range nr, (s.counters cpu).total.toNat = lifetimeAdds tr)
    ∧ ∀ (i : Nat) (f : WindowFold), s.folds[i]? = some f → f.returned = true →
      ∀ n cpu, n < arrivalsBefore i tr → (origins tr)[n]? = some cpu →
        ConsumedFor i n cpu tr := by
  obtain ⟨hbooked, hswept⟩ := h.invariants
  obtain ⟨horigins, htotals⟩ := h.onCpus
  have hsum := hbooked.sum_count
  refine ⟨?_, fun hsmall => ?_, ?_, fun hsmall => ?_, fun i f hf hret n cpu hn hcpu => ?_⟩
  · rw [completed, partialSums, sum_completed, ← hsum, BitVec.ofNat_add, ofNat_sum, ofNat_sum]
    congr 1
    · exact Finset.sum_congr rfl fun i hi => hbooked.fold_total (Finset.mem_range.mp hi)
    · exact Finset.sum_congr rfl fun cpu _ => hbooked.window cpu
  · have hword (p : Place Nat) :
        (BitVec.ofNat 64 ((wakeupLedger tr).count p)).toNat = (wakeupLedger tr).count p := by
      have hle : (wakeupLedger tr).count p ≤ (wakeupLedger tr).length := List.count_le_length
      rw [hbooked.length] at hle
      rw [BitVec.toNat_ofNat]
      exact Nat.mod_eq_of_lt (Nat.lt_of_le_of_lt hle hsmall)
    rw [completed, partialSums, List.map_map, List.map_map, sum_completed, ← hsum]
    congr 1
    · refine Finset.sum_congr rfl fun i hi => ?_
      rw [Function.comp_apply, hbooked.fold_total (Finset.mem_range.mp hi), hword]
    · refine Finset.sum_congr rfl fun cpu _ => ?_
      rw [hbooked.window, hword]
  · rw [← htotals, ofNat_sum]
    exact Finset.sum_congr rfl fun cpu _ => hbooked.total cpu
  · rw [← htotals]
    refine Finset.sum_congr rfl fun cpu hcpu => ?_
    have hle : totalAdds tr cpu ≤ lifetimeAdds tr := by
      rw [← htotals]
      exact Finset.single_le_sum (fun _ _ => Nat.zero_le _) hcpu
    rw [hbooked.total, BitVec.toNat_ofNat]
    exact Nat.mod_eq_of_lt (Nat.lt_of_le_of_lt hle hsmall)
  · have hlt := horigins cpu (List.mem_of_getElem? hcpu)
    have hend := hswept.returned i f hf hret
    exact (hswept.swept i f hf).2 n cpu hn hcpu (by rw [hend]; exact hlt)

/-- Two folds overlap a wakeup on each of two CPUs: the second takes what
the first has passed. -/
def overlappingFolds : List WakeupEvent :=
  [.addTotal 0, .addWindow 0, .enter, .exchange 0, .enter, .addTotal 0, .addWindow 0,
    .exchange 1, .exchange 1, .exchange 0, .leave 0, .leave 1]

theorem wakeups_conserved_overlapping :
    ∃ (tr : List WakeupEntry) (s : WakeupStats), WakeupRun 2 tr s ∧ completed s = [1, 1]
      ∧ (completed s).sum + (partialSums s).sum
          + ∑ cpu ∈ Finset.range 2, (s.counters cpu).window = BitVec.ofNat 64 (windowAdds tr) := by
  obtain ⟨tr, s, hrun, htest⟩ : ∃ tr s, WakeupRun 2 tr s ∧ decide (completed s = [1, 1]) = true :=
    @exec_reaches _ _ (stepWakeups 2) (fun s => s = {}) {} rfl overlappingFolds
      (fun _ s => decide (completed s = [1, 1])) (by decide)
  exact ⟨tr, s, hrun, of_decide_eq_true htest, (wakeups_conserved hrun).1⟩

end ScxMlfq
