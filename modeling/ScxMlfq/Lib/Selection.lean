import Mathlib.Data.List.Sort

/-!
# Selection — the best of a scan, and the sorted list of candidates

A scan that keeps the best candidate seen so far, by a total order. The
best of the candidates that pass a test is the first of their sorted
list that passes it, so a selection repeated with exclusions walks the
sorted list.
-/

namespace ScxMlfq.Selection

variable {α : Type*} (r : α → α → Prop)

/-- The best of a set, where it has one. -/
def IsBest (s : α → Prop) : Option α → Prop
  | none => ∀ a, ¬ s a
  | some b => s b ∧ ∀ a, s a → r b a

theorem IsBest.congr {s s' : α → Prop} {best : Option α} (h : IsBest r s best)
    (hs : ∀ a, s a ↔ s' a) : IsBest r s' best := by
  have heq : s = s' := funext fun a => propext (hs a)
  rw [← heq]
  exact h

/-- A set has one best. -/
theorem IsBest.unique [Std.Antisymm r] {s : α → Prop} {best best' : Option α}
    (h : IsBest r s best) (h' : IsBest r s best') : best = best' := by
  cases best with
  | none =>
      cases best' with
      | none => rfl
      | some b => exact absurd h'.1 (h b)
  | some b =>
      cases best' with
      | none => exact absurd h.1 (h' b)
      | some c =>
          have heq : b = c := antisymm_of r (h.2 c h'.1) (h'.2 b h.1)
          rw [heq]

variable [DecidableRel r] (ok : α → Bool)

/-- One candidate against the best so far. -/
def improve (best : Option α) (a : α) : Option α :=
  if ok a then
    match best with
    | none => some a
    | some b => if r b a then some b else some a
  else best

variable {r ok}

theorem IsBest.improve [Std.Total r] [IsTrans α r] {s : α → Prop} {best : Option α}
    (h : IsBest r s best) (a : α) :
    IsBest r (fun x => s x ∨ x = a ∧ ok a = true) (improve r ok best a) := by
  unfold Selection.improve
  split
  · rename_i hok
    cases best with
    | none =>
        constructor
        · exact .inr ⟨rfl, hok⟩
        · intro x hx
          rcases hx with hx | hx
          · exact absurd hx (h x)
          · rw [hx.1]
            exact refl_of r a
    | some b =>
        simp only
        split
        · rename_i hle
          constructor
          · exact .inl h.1
          · intro x hx
            rcases hx with hx | hx
            · exact h.2 x hx
            · rw [hx.1]
              exact hle
        · rename_i hnle
          have hle : r a b := (total_of r a b).resolve_right hnle
          constructor
          · exact .inr ⟨rfl, hok⟩
          · intro x hx
            rcases hx with hx | hx
            · exact trans_of r hle (h.2 x hx)
            · rw [hx.1]
              exact refl_of r a
  · rename_i hok
    refine h.congr _ fun x => ?_
    simp [hok]

theorem IsBest.foldl [Std.Total r] [IsTrans α r] {s : α → Prop} {best : Option α}
    (h : IsBest r s best) (cands : List α) :
    IsBest r (fun x => s x ∨ x ∈ cands ∧ ok x = true)
      (cands.foldl (Selection.improve r ok) best) := by
  induction cands generalizing s best with
  | nil =>
      refine h.congr _ fun x => ?_
      simp
  | cons a cands ih =>
      rw [List.foldl_cons]
      refine (ih (h.improve a)).congr _ fun x => ?_
      rw [List.mem_cons]
      constructor
      · rintro ((hx | ⟨rfl, hok⟩) | hx)
        · exact .inl hx
        · exact .inr ⟨.inl rfl, hok⟩
        · exact .inr ⟨.inr hx.1, hx.2⟩
      · rintro (hx | ⟨rfl | hx, hok⟩)
        · exact .inl (.inl hx)
        · exact .inl (.inr ⟨rfl, hok⟩)
        · exact .inr ⟨hx, hok⟩

/-- **The scan returns the best candidate** that passes the test. -/
theorem isBest_foldl [Std.Total r] [IsTrans α r] (cands : List α) :
    IsBest r (fun x => x ∈ cands ∧ ok x = true) (cands.foldl (improve r ok) none) := by
  have hnone : IsBest r (fun _ : α => False) none := fun _ h => h
  refine (hnone.foldl cands).congr _ fun x => ?_
  simp

/-- Two orders that agree on every pair the scan can compare, the earlier
against the later, select the same. -/
theorem foldl_improve_congr {r' : α → α → Prop} [DecidableRel r'] {cands : List α}
    {best : Option α} (hbest : ∀ b, best = some b → ∀ a ∈ cands, (r b a ↔ r' b a))
    (hcands : cands.Pairwise fun b a => (r b a ↔ r' b a)) :
    cands.foldl (improve r ok) best = cands.foldl (improve r' ok) best := by
  induction cands generalizing best with
  | nil => rfl
  | cons a cands ih =>
      obtain ⟨hhead, htail⟩ := List.pairwise_cons.mp hcands
      have hstep : improve r ok best a = improve r' ok best a := by
        cases best with
        | none => rfl
        | some b => simp only [improve, hbest b rfl a List.mem_cons_self]
      rw [List.foldl_cons, List.foldl_cons, ← hstep]
      refine ih (fun b hb x hx => ?_) htail
      have hfrom : improve r ok best a = best ∨ improve r ok best a = some a := by
        unfold improve
        split
        · split
          · exact .inr rfl
          · split
            · exact .inl rfl
            · exact .inr rfl
        · exact .inl rfl
      rcases hfrom with hold | hnew
      · exact hbest b (hold.symm.trans hb) x (List.mem_cons_of_mem _ hx)
      · rw [hnew] at hb
        obtain rfl := Option.some.inj hb
        exact hhead x hx

omit [DecidableRel r] in
/-- The first of a sorted list that passes a test is its best. -/
theorem isBest_find? [Std.Total r] {l : List α} (hs : l.Pairwise r) :
    IsBest r (fun x => x ∈ l ∧ ok x = true) (l.find? ok) := by
  induction l with
  | nil =>
      intro a ha
      cases ha.1
  | cons b l ih =>
      obtain ⟨hhead, htail⟩ := List.pairwise_cons.mp hs
      rw [List.find?_cons]
      cases hok : ok b with
      | true =>
          constructor
          · exact ⟨List.mem_cons_self, hok⟩
          · intro a ha
            rcases List.mem_cons.mp ha.1 with heq | hin
            · rw [heq]
              exact refl_of r b
            · exact hhead a hin
      | false =>
          refine (ih htail).congr _ fun a => ?_
          rw [List.mem_cons]
          constructor
          · intro ha
            exact ⟨.inr ha.1, ha.2⟩
          · rintro ⟨rfl | hin, ha⟩
            · rw [hok] at ha
              cases ha
            · exact ⟨hin, ha⟩

/-- **A selection with exclusions reads the sorted list.** -/
theorem foldl_improve_eq_find? [Std.Total r] [IsTrans α r] [Std.Antisymm r] (cands : List α)
    (eligible excluded : α → Bool) :
    cands.foldl (improve r fun x => eligible x && !excluded x) none
      = ((cands.filter eligible).insertionSort r).find? fun x => !excluded x := by
  have hscan := @isBest_foldl _ r _ (fun x => eligible x && !excluded x) _ _ cands
  have hfirst := @isBest_find? _ r (fun x => !excluded x) _
    ((cands.filter eligible).insertionSort r) (List.pairwise_insertionSort r _)
  refine hscan.unique _ (hfirst.congr _ fun x => ?_)
  rw [List.mem_insertionSort, List.mem_filter, Bool.and_eq_true, and_assoc]

end ScxMlfq.Selection
