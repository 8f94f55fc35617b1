import Mathlib.Data.List.Basic
import ScxMlfq.Lib.Trace

/-!
# History — what the steps of a run yield

Each step of a run may yield a value, and the values of a run are listed
in the order of its steps. A part of the system that takes values in at
one end and lets them out at the other is a queue when every step keeps
the order of what it holds; then what has come out, followed by what is
held, is what has gone in.
-/

namespace ScxMlfq.Trace

variable {σ ε β γ : Type*}

/-- The values the steps of a run yield, oldest first. -/
def yields (of : Entry σ ε → Option β) (tr : List (Entry σ ε)) : List β :=
  (tr.filterMap of).reverse

@[simp] theorem yields_nil (of : Entry σ ε → Option β) : yields of [] = [] := rfl

theorem yields_cons (of : Entry σ ε → Option β) (x : Entry σ ε) (tr : List (Entry σ ε)) :
    yields of (x :: tr) = yields of tr ++ (of x).toList := by
  cases h : of x with
  | none => rw [yields, yields, List.filterMap_cons_none h, Option.toList_none, List.append_nil]
  | some b => rw [yields, yields, List.filterMap_cons_some h, List.reverse_cons,
      Option.toList_some]

/-- A yielded value is that of a step. -/
theorem mem_yields {of : Entry σ ε → Option β} {tr : List (Entry σ ε)} {b : β} :
    b ∈ yields of tr ↔ ∃ x ∈ tr, of x = some b := by
  rw [yields, List.mem_reverse, List.mem_filterMap]

/-- Steps that yield nothing leave the values as they are. -/
theorem yields_append_of_none {of : Entry σ ε → Option β} {tr' : List (Entry σ ε)}
    (h : ∀ x ∈ tr', of x = none) (tr : List (Entry σ ε)) :
    yields of (tr' ++ tr) = yields of tr := by
  rw [yields, List.filterMap_append, List.filterMap_eq_nil_iff.mpr h, List.nil_append, yields]

theorem yields_map (of : Entry σ ε → Option β) (f : β → γ) (tr : List (Entry σ ε)) :
    yields (fun x => (of x).map f) tr = (yields of tr).map f := by
  rw [yields, yields, List.map_reverse, List.map_filterMap]

variable {step : σ → ε → σ → Prop} {init : σ → Prop}

/-- **First in, first out.** Where every step passes on what it takes in
and lets out in order, the values let out followed by those held are the
values taken in. -/
theorem Run.flow {enter leave : Entry σ ε → Option β} (held : σ → List β)
    (h0 : ∀ s, init s → held s = [])
    (hs : ∀ s e s', step s e s' →
      held s ++ (enter ⟨s, e, s'⟩).toList = (leave ⟨s, e, s'⟩).toList ++ held s')
    {tr : List (Entry σ ε)} {s : σ} (h : Run step init tr s) :
    yields leave tr ++ held s = yields enter tr := by
  induction h with
  | start hi => rw [yields_nil, yields_nil, h0 _ hi, List.append_nil]
  | snoc _ hstep ih => rw [yields_cons, yields_cons, List.append_assoc, ← hs _ _ _ hstep,
      ← List.append_assoc, ih]

/-! ## The run of a part -/

variable {σ' ε' : Type*} {step' : σ' → ε' → σ' → Prop} {init' : σ' → Prop}

/-- The step of a part in a step of the whole. -/
def partEntry (part : σ → σ') (of : Entry σ ε → Option ε') (x : Entry σ ε) :
    Option (Entry σ' ε') :=
  (of x).map fun e => ⟨part x.pre, e, part x.post⟩

/-- **The run of a part.** Where every step of the whole is a step of the
part or leaves it alone, a run of the whole is a run of the part. -/
theorem Run.part {part : σ → σ'} {of : Entry σ ε → Option ε'}
    (h0 : ∀ s, init s → init' (part s))
    (hs : ∀ s e s', step s e s' →
      (∃ e', of ⟨s, e, s'⟩ = some e' ∧ step' (part s) e' (part s'))
        ∨ (of ⟨s, e, s'⟩ = none ∧ part s' = part s))
    {tr : List (Entry σ ε)} {s : σ} (h : Run step init tr s) :
    Run step' init' (tr.filterMap (partEntry part of)) (part s) := by
  induction h with
  | start hi => exact .start (h0 _ hi)
  | @snoc tr s s' e hrun hstep ih =>
      rcases hs _ _ _ hstep with ⟨e', hof, hstep'⟩ | ⟨hof, hsame⟩
      · have hentry : partEntry part of ⟨s, e, s'⟩ = some ⟨part s, e', part s'⟩ := by
          rw [partEntry, hof, Option.map_some]
        rw [List.filterMap_cons_some hentry]
        exact ih.snoc hstep'
      · have hentry : partEntry part of ⟨s, e, s'⟩ = none := by
          rw [partEntry, hof, Option.map_none]
        rw [List.filterMap_cons_none hentry, hsame]
        exact ih

end ScxMlfq.Trace
