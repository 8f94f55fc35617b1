import ScxMlfq.Lib.Trace
import Mathlib.Logic.Function.Basic

/-!
# Swap — a shared register moved by single-shot swaps

Parties move one register with a read and a compare-and-swap. A party
proposes a value, reads the register, stops there unless the proposal is
ahead of what it read, and else swaps once: the proposal is stored if
the register still holds the value read, and given up if not. Between
the two steps of a party the others may take any number of their own.

Nothing is asked of the order but that no value is ahead of itself. In
particular it need not be transitive, and the register may come back to
a value it held before.
-/

namespace ScxMlfq.Swap

open Trace

variable {κ α : Type*}

/-! ## The register and its history -/

/-- The register, and for each party between its read and its swap the
value it proposes and the value it read. -/
structure Shared (κ α : Type*) where
  value : α
  inFlight : κ → Option (α × α)

/-- The register at the start, with nothing in flight. -/
def fresh (v₀ : α) : Shared κ α := ⟨v₀, fun _ => none⟩

inductive Step (κ α : Type*) where
  | read (k : κ) (proposal : α)
  | swap (k : κ)

/-- The party that takes the step. -/
def Step.party : Step κ α → κ
  | .read k _ => k
  | .swap k => k

/-- A step with the registers around it. -/
abbrev SwapEntry (κ α : Type*) := Entry (Shared κ α) (Step κ α)

/-- The step is a swap that stored its proposal. -/
def Stores (x : SwapEntry κ α) : Prop :=
  ∃ k v, x.event = .swap k ∧ x.pre.inFlight k = some (v, x.pre.value)

/-- Some read of the trace proposed the value. -/
def Proposed (tr : List (SwapEntry κ α)) (v : α) : Prop :=
  ∃ x ∈ tr, ∃ k, x.event = .read k v

/-- The step ends an attempt to move the register to `v`: a swap of it,
or a read that found it not ahead. -/
def Completes (x : SwapEntry κ α) (v : α) : Prop :=
  (∃ k cur, x.event = .swap k ∧ x.pre.inFlight k = some (v, cur)) ∨
  (∃ k, x.event = .read k v ∧ x.post.inFlight k = none)

/-- After the read with which `k` proposed `v`, its last step, another
party stored. -/
def StoredSince (k : κ) (v : α) (tr : List (SwapEntry κ α)) : Prop :=
  ∃ between r before, tr = between ++ r :: before ∧ r.event = .read k v ∧
    (∀ y ∈ between, y.event.party ≠ k) ∧ ∃ y ∈ between, Stores y

/-- The attempt of `k` as the trace tells it: it read `cur`, found its
proposal ahead, and has taken no step since; the register still holds
`cur`, or another party has stored. -/
def Attempt (ahead : α → α → Prop) (k : κ) (v cur : α) (tr : List (SwapEntry κ α))
    (value : α) : Prop :=
  ahead cur v ∧ ∃ between r before, tr = between ++ r :: before ∧ r.event = .read k v ∧
    (∀ y ∈ between, y.event.party ≠ k) ∧ (value = cur ∨ ∃ y ∈ between, Stores y)

/-- What holds of every reachable register: it holds the initial value
or a proposed one, and each attempt in flight is as the trace tells. -/
structure Inv (ahead : α → α → Prop) (v₀ : α) (tr : List (SwapEntry κ α))
    (s : Shared κ α) : Prop where
  value : s.value = v₀ ∨ Proposed tr s.value
  attempts : ∀ k v cur, s.inFlight k = some (v, cur) → Attempt ahead k v cur tr s.value

variable {ahead : α → α → Prop}

theorem Proposed.cons {tr : List (SwapEntry κ α)} {v : α} (h : Proposed tr v)
    (x : SwapEntry κ α) : Proposed (x :: tr) v := by
  obtain ⟨y, hy, k, hk⟩ := h
  exact ⟨y, List.mem_cons_of_mem _ hy, k, hk⟩

theorem Attempt.proposed {k : κ} {v cur value : α} {tr : List (SwapEntry κ α)}
    (h : Attempt ahead k v cur tr value) : Proposed tr v := by
  obtain ⟨-, between, r, before, rfl, hr, -, -⟩ := h
  exact ⟨r, by simp, k, hr⟩

theorem Inv.start (v₀ : α) : Inv ahead v₀ [] (fresh v₀ : Shared κ α) :=
  ⟨.inl rfl, fun _ _ _ h => nomatch h⟩

/-! ## The steps -/

variable [DecidableEq κ] [DecidableEq α]

/-- The register after a compare-and-swap. -/
def compareAndSwap (value expected new : α) : α :=
  if value = expected then new else value

/-- One step. A party reads when it has nothing in flight, and swaps
once after a read that found its proposal ahead. -/
def next (ahead : α → α → Prop) [DecidableRel ahead] (s : Shared κ α) :
    Step κ α → Option (Shared κ α)
  | .read k v =>
      match s.inFlight k with
      | some _ => none
      | none =>
          if ahead s.value v then
            some { s with inFlight := Function.update s.inFlight k (some (v, s.value)) }
          else some s
  | .swap k =>
      match s.inFlight k with
      | none => none
      | some (v, cur) =>
          some { value := compareAndSwap s.value cur v
                 inFlight := Function.update s.inFlight k none }

/-- The runs of the parties, in every order of their steps. -/
abbrev SwapRun (ahead : α → α → Prop) [DecidableRel ahead] (v₀ : α) :
    List (SwapEntry κ α) → Shared κ α → Prop :=
  Run (fun s e s' => next ahead s e = some s') (fun s => s = fresh v₀)

variable [DecidableRel ahead]

/-- What one step can do: a read that stops, a read that goes on, a swap
that stores and a swap that loses. -/
theorem next_cases {s s' : Shared κ α} {e : Step κ α} (h : next ahead s e = some s') :
    (∃ k v, e = .read k v ∧ s.inFlight k = none ∧ ¬ ahead s.value v ∧ s' = s) ∨
    (∃ k v, e = .read k v ∧ s.inFlight k = none ∧ ahead s.value v ∧
      s' = { s with inFlight := Function.update s.inFlight k (some (v, s.value)) }) ∨
    (∃ k v, e = .swap k ∧ s.inFlight k = some (v, s.value) ∧
      s' = ⟨v, Function.update s.inFlight k none⟩) ∨
    (∃ k v cur, e = .swap k ∧ s.inFlight k = some (v, cur) ∧ s.value ≠ cur ∧
      s' = { s with inFlight := Function.update s.inFlight k none }) := by
  cases e with
  | read k v =>
      rw [next] at h
      cases hk : s.inFlight k with
      | some p =>
          rw [hk] at h
          cases h
      | none =>
          rw [hk] at h
          by_cases hv : ahead s.value v
          · simp only [if_pos hv, Option.some.injEq] at h
            exact .inr (.inl ⟨k, v, rfl, hk, hv, h.symm⟩)
          · simp only [if_neg hv, Option.some.injEq] at h
            exact .inl ⟨k, v, rfl, hk, hv, h.symm⟩
  | swap k =>
      rw [next] at h
      cases hk : s.inFlight k with
      | none =>
          rw [hk] at h
          cases h
      | some p =>
          obtain ⟨v, cur⟩ := p
          rw [hk] at h
          simp only [Option.some.injEq] at h
          by_cases hcur : s.value = cur
          · subst hcur
            rw [compareAndSwap, if_pos rfl] at h
            exact .inr (.inr (.inl ⟨k, v, rfl, hk, h.symm⟩))
          · rw [compareAndSwap, if_neg hcur] at h
            exact .inr (.inr (.inr ⟨k, v, cur, rfl, hk, hcur, h.symm⟩))

/-- **The two steps with nothing between them**: the read stops, or the
swap after it stores. -/
theorem next_alone (s : Shared κ α) (k : κ) (v : α) (hidle : s.inFlight k = none) :
    (¬ ahead s.value v ∧ next ahead s (.read k v) = some s) ∨
    (ahead s.value v ∧ ∃ s₁ s₂, next ahead s (.read k v) = some s₁ ∧
      next ahead s₁ (.swap k) = some s₂ ∧ s₂.value = v) := by
  by_cases hv : ahead s.value v
  · right
    refine ⟨hv, { s with inFlight := Function.update s.inFlight k (some (v, s.value)) },
      ⟨v, Function.update (Function.update s.inFlight k (some (v, s.value))) k none⟩, ?_, ?_,
      rfl⟩
    · simp only [next, hidle, if_pos hv]
    · simp only [next, Function.update_self, compareAndSwap, if_true]
  · left
    refine ⟨hv, ?_⟩
    simp only [next, hidle, if_neg hv]

/-- A step that does not store leaves the register. -/
theorem value_eq_or_stores {s s' : Shared κ α} {e : Step κ α}
    (h : next ahead s e = some s') : s'.value = s.value ∨ Stores ⟨s, e, s'⟩ := by
  obtain ⟨k, v, rfl, -, -, rfl⟩ | ⟨k, v, rfl, -, -, rfl⟩ | ⟨k, v, rfl, hk, rfl⟩ |
    ⟨k, v, cur, rfl, -, -, rfl⟩ := next_cases h
  · exact .inl rfl
  · exact .inl rfl
  · exact .inr ⟨k, v, rfl, hk⟩
  · exact .inl rfl

/-- A step touches the attempt of its own party only. -/
theorem inFlight_of_ne {s s' : Shared κ α} {e : Step κ α} (h : next ahead s e = some s')
    {k : κ} (hk : k ≠ e.party) : s'.inFlight k = s.inFlight k := by
  obtain ⟨j, v, rfl, -, -, rfl⟩ | ⟨j, v, rfl, -, -, rfl⟩ | ⟨j, v, rfl, -, rfl⟩ |
    ⟨j, v, cur, rfl, -, -, rfl⟩ := next_cases h
  · rfl
  · exact Function.update_of_ne hk ..
  · exact Function.update_of_ne hk ..
  · exact Function.update_of_ne hk ..

/-- An attempt in flight after a step of its party: the step is the read
that began it. -/
theorem inFlight_party {s s' : Shared κ α} {e : Step κ α} (h : next ahead s e = some s')
    {v cur : α} (hin : s'.inFlight e.party = some (v, cur)) :
    e = .read e.party v ∧ ahead cur v ∧ s'.value = cur := by
  obtain ⟨k, w, rfl, hk, -, rfl⟩ | ⟨k, w, rfl, -, hahead, rfl⟩ | ⟨k, w, rfl, -, rfl⟩ |
    ⟨k, w, c, rfl, -, -, rfl⟩ := next_cases h
  · rw [Step.party, hk] at hin
    cases hin
  · simp only [Step.party, Function.update_self, Option.some.injEq, Prod.mk.injEq] at hin
    obtain ⟨rfl, rfl⟩ := hin
    exact ⟨rfl, hahead, rfl⟩
  · simp [Step.party] at hin
  · simp [Step.party] at hin

/-! ## The invariant -/

/-- A step of another party keeps the attempt. -/
theorem Attempt.step {k : κ} {v cur : α} {tr : List (SwapEntry κ α)}
    {s s' : Shared κ α} {e : Step κ α} (h : Attempt ahead k v cur tr s.value)
    (hs : next ahead s e = some s') (hk : k ≠ e.party) :
    Attempt ahead k v cur (⟨s, e, s'⟩ :: tr) s'.value := by
  obtain ⟨hahead, between, r, before, rfl, hr, hothers, hvalue⟩ := h
  refine ⟨hahead, ⟨s, e, s'⟩ :: between, r, before, rfl, hr, ?_, ?_⟩
  · intro y hy
    rcases List.mem_cons.mp hy with rfl | hy
    · exact fun heq => hk heq.symm
    · exact hothers y hy
  · rcases value_eq_or_stores hs with hsame | hstores
    · rcases hvalue with hcur | ⟨y, hy, hstored⟩
      · exact .inl (hsame.trans hcur)
      · exact .inr ⟨y, List.mem_cons_of_mem _ hy, hstored⟩
    · exact .inr ⟨_, List.mem_cons_self, hstores⟩

theorem Inv.step {v₀ : α} {tr : List (SwapEntry κ α)} {s s' : Shared κ α}
    {e : Step κ α} (h : Inv ahead v₀ tr s) (hs : next ahead s e = some s') :
    Inv ahead v₀ (⟨s, e, s'⟩ :: tr) s' := by
  constructor
  · rcases value_eq_or_stores hs with hsame | ⟨k, v, rfl, hk⟩
    · rw [hsame]
      exact h.value.imp_right fun hp => hp.cons _
    · -- the value stored is the proposal of an attempt in flight
      right
      have hv : s'.value = v := by
        change s.inFlight k = some (v, s.value) at hk
        simp only [next, hk, compareAndSwap, if_true, Option.some.injEq] at hs
        rw [← hs]
      rw [hv]
      exact (h.attempts k v _ hk).proposed.cons _
  · intro k v cur hin
    by_cases hk : k = e.party
    · subst hk
      obtain ⟨he, hahead, hvalue⟩ := inFlight_party hs hin
      refine ⟨hahead, [], _, tr, rfl, he, ?_, .inl hvalue⟩
      intro y hy
      cases hy
    · rw [inFlight_of_ne hs hk] at hin
      exact (h.attempts k v cur hin).step hs hk

theorem SwapRun.inv {v₀ : α} {tr : List (SwapEntry κ α)} {s : Shared κ α}
    (h : SwapRun ahead v₀ tr s) : Inv ahead v₀ tr s := by
  apply Run.invariant (I := Inv ahead v₀) _ _ h
  · rintro s rfl
    exact Inv.start v₀
  · intro tr s e s' hI hs
    exact hI.step hs

/-! ## The steps of a run -/

/-- The step of a run at any point of its trace: the run that led to it,
and the step itself. -/
theorem SwapRun.at {v₀ : α} {later earlier : List (SwapEntry κ α)}
    {x : SwapEntry κ α} {s : Shared κ α}
    (h : SwapRun ahead v₀ (later ++ x :: earlier) s) :
    SwapRun ahead v₀ earlier x.pre ∧ next ahead x.pre x.event = some x.post := by
  induction later generalizing s with
  | nil =>
      cases h with
      | snoc hrun hstep => exact ⟨hrun, hstep⟩
  | cons y later ih =>
      cases h with
      | snoc hrun hstep => exact ih hrun

/-- **Every store moves the register forward.** -/
theorem SwapRun.stores_ahead {v₀ : α}
    {later earlier : List (SwapEntry κ α)}
    {x : SwapEntry κ α} {s : Shared κ α}
    (h : SwapRun ahead v₀ (later ++ x :: earlier) s) (hx : Stores x) :
    ahead x.pre.value x.post.value := by
  obtain ⟨hrun, hstep⟩ := h.at
  obtain ⟨k, v, he, hk⟩ := hx
  have hahead := (hrun.inv.attempts k v _ hk).1
  rw [he, next, hk] at hstep
  simp only [compareAndSwap, if_true, Option.some.injEq] at hstep
  rw [← hstep]
  exact hahead

/-- **No attempt is lost without a rival**: when it ends the proposal is
not ahead of the register, or another party stored after its read. -/
theorem SwapRun.completes {v₀ : α} (hirr : ∀ v, ¬ ahead v v)
    {later earlier : List (SwapEntry κ α)}
    {x : SwapEntry κ α} {s : Shared κ α}
    (h : SwapRun ahead v₀ (later ++ x :: earlier) s) {v : α} (hx : Completes x v) :
    ¬ ahead x.post.value v ∨ StoredSince x.event.party v earlier := by
  obtain ⟨hrun, hstep⟩ := h.at
  rcases hx with ⟨k, cur, he, hk⟩ | ⟨k, he, hk⟩
  · obtain ⟨-, between, r, before, rfl, hr, hothers, hvalue⟩ :=
      hrun.inv.attempts k v cur hk
    rw [he, next, hk] at hstep
    simp only [Option.some.injEq] at hstep
    rcases hvalue with hcur | hstored
    · left
      rw [← hstep]
      simp only [compareAndSwap, if_pos hcur]
      exact hirr v
    · right
      rw [he]
      exact ⟨between, r, before, rfl, hr, hothers, hstored⟩
  · left
    rw [he] at hstep
    obtain ⟨j, w, hj, -, hnot, hpost⟩ | ⟨j, w, hj, -, -, hpost⟩ | ⟨j, w, hj, -, -⟩ |
      ⟨j, w, cur, hj, -, -, -⟩ := next_cases hstep
    · cases hj
      rw [hpost]
      exact hnot
    · -- a read that goes on leaves its attempt in flight
      cases hj
      rw [hpost] at hk
      simp at hk
    · cases hj
    · cases hj

/-! ## The stores of a run -/

/-- The value a store leaves is the one its party proposed. -/
theorem SwapRun.stored {v₀ : α} {later earlier : List (SwapEntry κ α)} {x : SwapEntry κ α}
    {s : Shared κ α} (h : SwapRun ahead v₀ (later ++ x :: earlier) s) {k : κ} {v : α}
    (he : x.event = .swap k) (hk : x.pre.inFlight k = some (v, x.pre.value)) :
    x.post.value = v := by
  have hstep := h.at.2
  rw [he, next, hk] at hstep
  simp only [compareAndSwap, if_true, Option.some.injEq] at hstep
  rw [← hstep]

/-- The register before a step is the one the step before left. -/
theorem SwapRun.pre_value {v₀ : α} {later between earlier : List (SwapEntry κ α)}
    {x y : SwapEntry κ α} {s : Shared κ α}
    (h : SwapRun ahead v₀ (later ++ x :: (between ++ y :: earlier)) s)
    (hno : ∀ z ∈ between, ¬ Stores z) : x.pre.value = y.post.value := by
  have hrun := h.at.1
  -- the steps between do not store, and each leaves the register
  generalize x.pre = s₁ at hrun ⊢
  clear h
  induction between generalizing s₁ with
  | nil =>
      cases hrun with
      | snoc _ _ => rfl
  | cons z between ih =>
      cases hrun with
      | snoc hprev hstep =>
          rcases value_eq_or_stores hstep with hsame | hstores
          · rw [hsame]
            exact ih (fun w hw => hno w (List.mem_cons_of_mem _ hw)) _ hprev
          · exact absurd hstores (hno _ List.mem_cons_self)

/-- The register before a step that no store precedes is the initial one. -/
theorem SwapRun.first_value {v₀ : α} {later earlier : List (SwapEntry κ α)}
    {x : SwapEntry κ α} {s : Shared κ α} (h : SwapRun ahead v₀ (later ++ x :: earlier) s)
    (hno : ∀ z ∈ earlier, ¬ Stores z) : x.pre.value = v₀ := by
  have hrun := h.at.1
  generalize x.pre = s₁ at hrun ⊢
  clear h
  induction earlier generalizing s₁ with
  | nil =>
      cases hrun with
      | start hinit => rw [hinit, fresh]
  | cons z earlier ih =>
      cases hrun with
      | snoc hprev hstep =>
          rcases value_eq_or_stores hstep with hsame | hstores
          · rw [hsame]
            exact ih (fun w hw => hno w (List.mem_cons_of_mem _ hw)) _ hprev
          · exact absurd hstores (hno _ List.mem_cons_self)

/-- **Consecutive stores.** A store replaces what the store before it
left, and is ahead of it. -/
theorem SwapRun.consecutive {v₀ : α} {later between earlier : List (SwapEntry κ α)}
    {x y : SwapEntry κ α} {s : Shared κ α}
    (h : SwapRun ahead v₀ (later ++ x :: (between ++ y :: earlier)) s) (hx : Stores x)
    (hno : ∀ z ∈ between, ¬ Stores z) :
    x.pre.value = y.post.value ∧ ahead y.post.value x.post.value := by
  have hpre := h.pre_value hno
  rw [← hpre]
  exact ⟨rfl, h.stores_ahead hx⟩

/-! ## Attempts with a condition of their own

A party may give up for a reason the register knows nothing of. Such an
attempt takes no step on the register, and what is left of a run is a
run of the others. -/

variable {γ : Type*} {toStep : γ → Option (Step κ α)}

/-- One event: its step on the register, if it has one. -/
def guarded (ahead : α → α → Prop) [DecidableRel ahead] (toStep : γ → Option (Step κ α))
    (s : Shared κ α) (g : γ) : Option (Shared κ α) :=
  match toStep g with
  | none => some s
  | some e => next ahead s e

/-- The step on the register with the registers around it. -/
def onRegister (toStep : γ → Option (Step κ α)) (x : Entry (Shared κ α) γ) :
    Option (SwapEntry κ α) :=
  (toStep x.event).map fun e => ⟨x.pre, e, x.post⟩

/-- The runs of guarded attempts. -/
abbrev GuardedRun (ahead : α → α → Prop) [DecidableRel ahead] (toStep : γ → Option (Step κ α))
    (v₀ : α) : List (Entry (Shared κ α) γ) → Shared κ α → Prop :=
  Run (fun s g s' => guarded ahead toStep s g = some s') (fun s => s = fresh v₀)

/-- The event is a swap of `k` that stores `v` in the place of `cur`. -/
def Wins (toStep : γ → Option (Step κ α)) (x : Entry (Shared κ α) γ) (k : κ) (v cur : α) :
    Prop :=
  toStep x.event = some (.swap k) ∧ x.pre.inFlight k = some (v, cur) ∧ x.pre.value = cur

/-- Some swap stores. -/
def Won (toStep : γ → Option (Step κ α)) (x : Entry (Shared κ α) γ) : Prop :=
  ∃ k v cur, Wins toStep x k v cur

omit [DecidableEq κ] [DecidableEq α] in
theorem Wins.onRegister {x : Entry (Shared κ α) γ} {k : κ} {v cur : α}
    (h : Wins toStep x k v cur) :
    onRegister toStep x = some ⟨x.pre, .swap k, x.post⟩ := by
  rw [Swap.onRegister, h.1]
  rfl

omit [DecidableEq κ] [DecidableEq α] in
/-- What the register sees stored was won. -/
theorem won_of_stores {x : Entry (Shared κ α) γ} {z : SwapEntry κ α}
    (h : onRegister toStep x = some z) (hz : Stores z) : Won toStep x := by
  obtain ⟨k, v, hevent, hflight⟩ := hz
  rw [Swap.onRegister] at h
  cases hstep : toStep x.event with
  | none =>
      rw [hstep] at h
      cases h
  | some e =>
      rw [hstep] at h
      cases h
      exact ⟨k, v, x.pre.value, hstep.trans (congrArg some hevent), hflight, rfl⟩

/-- **The register's view** of a guarded run is a run. -/
theorem GuardedRun.onRegister {v₀ : α} {tr : List (Entry (Shared κ α) γ)} {s : Shared κ α}
    (h : GuardedRun ahead toStep v₀ tr s) :
    SwapRun ahead v₀ (tr.filterMap (onRegister toStep)) s := by
  induction h with
  | start hs => exact .start hs
  | @snoc tr s s' g hrun hstep ih =>
      rw [guarded] at hstep
      cases hg : toStep g with
      | none =>
          rw [hg] at hstep
          cases hstep
          rw [List.filterMap_cons_none (by rw [Swap.onRegister, hg]; rfl)]
          exact ih
      | some e =>
          rw [hg] at hstep
          rw [@List.filterMap_cons_some _ _ _ _ _ ⟨s, e, s'⟩ (by rw [Swap.onRegister, hg]; rfl)]
          exact ih.snoc hstep

section Winners

variable {v₀ v cur : α} {k : κ} {s : Shared κ α}
  {later between earlier mid : List (Entry (Shared κ α) γ)} {x y : Entry (Shared κ α) γ}

omit [DecidableEq κ] [DecidableEq α] in
theorem not_stores_of_not_won (hno : ∀ z ∈ between, ¬ Won toStep z) :
    ∀ z ∈ between.filterMap (onRegister toStep), ¬ Stores z := by
  intro z hz hstores
  obtain ⟨e, he, hview⟩ := List.mem_filterMap.mp hz
  exact hno e he (won_of_stores hview hstores)

/-- The value a winner leaves is the one it proposed. -/
theorem GuardedRun.stored (h : GuardedRun ahead toStep v₀ (later ++ x :: earlier) s)
    (hx : Wins toStep x k v cur) : x.post.value = v := by
  have hview := h.onRegister
  rw [List.filterMap_append, List.filterMap_cons_some hx.onRegister] at hview
  have hflight : x.pre.inFlight k = some (v, x.pre.value) := by rw [hx.2.1, hx.2.2]
  exact SwapRun.stored hview rfl hflight

/-- **Consecutive winners.** A winner replaces what the winner before it
left, and its value is ahead of it. -/
theorem GuardedRun.consecutive {k' : κ} {v' cur' : α}
    (h : GuardedRun ahead toStep v₀ (later ++ x :: (between ++ y :: earlier)) s)
    (hx : Wins toStep x k v cur) (hy : Wins toStep y k' v' cur')
    (hno : ∀ z ∈ between, ¬ Won toStep z) : cur = v' ∧ ahead v' v := by
  have hsplit : later ++ x :: (between ++ y :: earlier)
      = (later ++ x :: between) ++ y :: earlier := by simp
  have hv : x.post.value = v := h.stored hx
  have hv' : y.post.value = v' := GuardedRun.stored (hsplit ▸ h) hy
  have hview := h.onRegister
  rw [List.filterMap_append, List.filterMap_cons_some hx.onRegister, List.filterMap_append,
    List.filterMap_cons_some hy.onRegister] at hview
  have hflight : x.pre.inFlight k = some (v, x.pre.value) := by rw [hx.2.1, hx.2.2]
  obtain ⟨hpre, hahead⟩ := SwapRun.consecutive hview ⟨k, v, rfl, hflight⟩
    (not_stores_of_not_won hno)
  rw [hv', hv] at hahead
  exact ⟨hx.2.2.symm.trans (hpre.trans hv'), hahead⟩

/-- The first winner replaces the initial value. -/
theorem GuardedRun.first (h : GuardedRun ahead toStep v₀ (later ++ x :: earlier) s)
    (hx : Wins toStep x k v cur) (hno : ∀ z ∈ earlier, ¬ Won toStep z) :
    cur = v₀ ∧ ahead v₀ v := by
  have hv : x.post.value = v := h.stored hx
  have hview := h.onRegister
  rw [List.filterMap_append, List.filterMap_cons_some hx.onRegister] at hview
  have hflight : x.pre.inFlight k = some (v, x.pre.value) := by rw [hx.2.1, hx.2.2]
  have hpre : x.pre.value = v₀ := SwapRun.first_value hview (not_stores_of_not_won hno)
  have hahead : ahead x.pre.value x.post.value := SwapRun.stores_ahead hview ⟨k, v, rfl, hflight⟩
  rw [hpre, hv] at hahead
  exact ⟨hx.2.2.symm.trans hpre, hahead⟩

/-- **No two winners replace the same value of the register**: what the
later one replaces was left by a winner not before the earlier one. -/
theorem GuardedRun.replaces_later {k' : κ} {v' cur' : α}
    (h : GuardedRun ahead toStep v₀ (later ++ x :: (mid ++ y :: earlier)) s)
    (hx : Wins toStep x k v cur) (hy : Wins toStep y k' v' cur') :
    ∃ between w rest, mid ++ [y] = between ++ w :: rest ∧ (∃ j u, Wins toStep w j cur u)
      ∧ ∀ z ∈ between, ¬ Won toStep z := by
  obtain ⟨between, w, rest, heq, ⟨j, u, c, hw⟩, hno⟩ :=
    @exists_latest _ (Won toStep) mid y ⟨k', v', cur', hy⟩
  have hsplit : mid ++ y :: earlier = between ++ w :: (rest ++ earlier) := by
    have happ := congrArg (· ++ earlier) heq
    simpa using happ
  rw [hsplit] at h
  obtain ⟨rfl, -⟩ := h.consecutive hx hw hno
  exact ⟨between, w, rest, heq, ⟨j, c, hw⟩, hno⟩

end Winners

end ScxMlfq.Swap
