import Mathlib.Init

/-!
# Trace — runs with their history

Runs of a labelled transition system that remember every step they
took. A trace lists the steps latest first, each with the state before
it and the state after it, so a property of the history is a recursion
on the list and an invariant may relate the state to all that led to
it. The induction over runs is packaged once, with and without a
condition that every step of the run satisfies.
-/

namespace ScxMlfq.Trace

variable {σ ε : Type*}

/-- One step of a run. -/
structure Entry (σ ε : Type*) where
  pre : σ
  event : ε
  post : σ

/-- The runs of `step` from `init`: the trace, latest step first, and
the state reached. -/
inductive Run (step : σ → ε → σ → Prop) (init : σ → Prop) :
    List (Entry σ ε) → σ → Prop where
  | start {s : σ} : init s → Run step init [] s
  | snoc {tr : List (Entry σ ε)} {s s' : σ} {e : ε} :
      Run step init tr s → step s e s' → Run step init (⟨s, e, s'⟩ :: tr) s'

variable {step : σ → ε → σ → Prop} {init : σ → Prop}

/-- The invariant rule, over the part of the runs whose steps all
satisfy `C`. -/
theorem Run.invariant_where {C : Entry σ ε → Prop} {I : List (Entry σ ε) → σ → Prop}
    (h0 : ∀ s, init s → I [] s)
    (hs : ∀ tr s e s', I tr s → step s e s' → C ⟨s, e, s'⟩ → I (⟨s, e, s'⟩ :: tr) s')
    {tr : List (Entry σ ε)} {s : σ} (h : Run step init tr s) (hC : ∀ x ∈ tr, C x) :
    I tr s := by
  induction h with
  | start hi => exact h0 _ hi
  | snoc _ hstep ih =>
      have hpre := ih fun x hx => hC x (List.mem_cons_of_mem _ hx)
      exact hs _ _ _ _ hpre hstep (hC _ List.mem_cons_self)

/-- The invariant rule. -/
theorem Run.invariant {I : List (Entry σ ε) → σ → Prop}
    (h0 : ∀ s, init s → I [] s)
    (hs : ∀ tr s e s', I tr s → step s e s' → I (⟨s, e, s'⟩ :: tr) s')
    {tr : List (Entry σ ε)} {s : σ} (h : Run step init tr s) : I tr s :=
  h.invariant_where (C := fun _ => True) h0 (fun tr s e s' hI hst _ => hs tr s e s' hI hst)
    fun _ _ => trivial

/-- Every state of a run is where a run ends, over steps of the first. -/
theorem Run.upTo {tr : List (Entry σ ε)} {s : σ} (h : Run step init tr s) {x : Entry σ ε}
    (hx : x ∈ tr) : ∃ rest, Run step init (x :: rest) x.post ∧ ∀ y ∈ x :: rest, y ∈ tr := by
  induction h with
  | start _ => cases hx
  | @snoc tr s s' e hrun hstep ih =>
      rcases List.mem_cons.mp hx with rfl | hx
      · exact ⟨tr, hrun.snoc hstep, fun y hy => hy⟩
      · obtain ⟨rest, hrest, hmem⟩ := ih hx
        exact ⟨rest, hrest, fun y hy => List.mem_cons_of_mem _ (hmem y hy)⟩

/-- A step in the middle of a run: the run up to it, and the step. -/
theorem Run.split {after before : List (Entry σ ε)} {x : Entry σ ε} {s : σ}
    (h : Run step init (after ++ x :: before) s) :
    Run step init before x.pre ∧ step x.pre x.event x.post := by
  induction after generalizing s with
  | nil =>
      cases h with
      | snoc hrun hstep => exact ⟨hrun, hstep⟩
  | cons y after ih =>
      cases h with
      | snoc hrun _ => exact ih hrun

/-- Of the elements of a list that satisfy `P`, of which the last is one,
there is a first. -/
theorem exists_latest {β : Type*} {P : β → Prop} {mid : List β} {y : β} (hy : P y) :
    ∃ between w rest, mid ++ [y] = between ++ w :: rest ∧ P w ∧ ∀ z ∈ between, ¬ P z := by
  induction mid with
  | nil => exact ⟨[], y, [], rfl, hy, nofun⟩
  | cons z mid ih =>
      by_cases hz : P z
      · exact ⟨[], z, mid ++ [y], rfl, hz, nofun⟩
      · obtain ⟨between, w, rest, heq, hw, hno⟩ := ih
        refine ⟨z :: between, w, rest, by rw [List.cons_append, heq]; rfl, hw, ?_⟩
        intro u hu
        rcases List.mem_cons.mp hu with rfl | hu
        · exact hz
        · exact hno u hu

/-! ## Running a list of events -/

/-- Take a list of events, oldest first, from the end of a trace. -/
def exec (next : σ → ε → Option σ) :
    List ε → List (Entry σ ε) → σ → Option (List (Entry σ ε) × σ)
  | [], tr, s => some (tr, s)
  | e :: es, tr, s =>
      match next s e with
      | none => none
      | some s' => exec next es (⟨s, e, s'⟩ :: tr) s'

/-- What `exec` reaches is a run. -/
theorem exec_run {next : σ → ε → Option σ} {init : σ → Prop} {es : List ε}
    {tr : List (Entry σ ε)} {s : σ} {r : List (Entry σ ε) × σ}
    (h : Run (fun s e s' => next s e = some s') init tr s)
    (he : exec next es tr s = some r) :
    Run (fun s e s' => next s e = some s') init r.1 r.2 := by
  induction es generalizing tr s with
  | nil =>
      cases he
      exact h
  | cons e es ih =>
      rw [exec] at he
      cases hnext : next s e with
      | none =>
          rw [hnext] at he
          cases he
      | some s' =>
          rw [hnext] at he
          exact ih (h.snoc hnext) he

/-- A run by evaluation: what `test` finds at the end of the events holds
at the end of a run. -/
theorem exec_reaches (next : σ → ε → Option σ) {init : σ → Prop} {s : σ} (hs : init s)
    (es : List ε) (test : List (Entry σ ε) → σ → Bool)
    (h : (exec next es [] s).any (fun r => test r.1 r.2) = true) :
    ∃ tr s', Run (fun s e s' => next s e = some s') init tr s' ∧ test tr s' = true := by
  cases he : exec next es [] s with
  | none =>
      rw [he] at h
      cases h
  | some r =>
      rw [he] at h
      exact ⟨r.1, r.2, exec_run (.start hs) he, h⟩

end ScxMlfq.Trace
