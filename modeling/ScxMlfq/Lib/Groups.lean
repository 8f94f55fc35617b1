import Mathlib.Data.List.Sort
import Mathlib.Data.List.Destutter

/-!
# Groups — a map from keys to the values pushed under them

An ordered map whose entry starts empty and grows at its end, kept as
the list of its entries in key order. A pass over key-value pairs leaves
under each key the values of its pairs, in the order they came, and an
entry for no other key.
-/

namespace ScxMlfq.Groups

variable {κ α : Type*} [LinearOrder κ]

/-- Push one value under its key. -/
def push (k : κ) (a : α) : List (κ × List α) → List (κ × List α)
  | [] => [(k, [a])]
  | (k', g) :: rest =>
      if k < k' then (k, [a]) :: (k', g) :: rest
      else if k = k' then (k', g ++ [a]) :: rest
      else (k', g) :: push k a rest

/-- The values of the pairs with one key. -/
def valuesOf (k : κ) (pairs : List (κ × α)) : List α :=
  (pairs.filter fun p => decide (p.1 = k)).map Prod.snd

/-- The keys are in order, each once. -/
def Ordered (m : List (κ × List α)) : Prop := m.Pairwise fun e e' => e.1 < e'.1

theorem mem_push_key {k : κ} {a : α} {m : List (κ × List α)} {e : κ × List α}
    (h : e ∈ push k a m) : e.1 = k ∨ e ∈ m := by
  induction m with
  | nil =>
      rw [push, List.mem_singleton] at h
      rw [h]
      exact .inl rfl
  | cons d m ih =>
      rw [push] at h
      split at h
      · rcases List.mem_cons.mp h with h | h
        · rw [h]
          exact .inl rfl
        · exact .inr h
      · split at h
        · rename_i heq
          rcases List.mem_cons.mp h with h | h
          · rw [h]
            exact .inl heq.symm
          · exact .inr (List.mem_cons_of_mem _ h)
        · rcases List.mem_cons.mp h with h | h
          · rw [h]
            exact .inr List.mem_cons_self
          · rcases ih h with h | h
            · exact .inl h
            · exact .inr (List.mem_cons_of_mem _ h)

theorem Ordered.push {m : List (κ × List α)} (h : Ordered m) (k : κ) (a : α) :
    Ordered (push k a m) := by
  induction m with
  | nil => exact List.pairwise_singleton _ _
  | cons d m ih =>
      obtain ⟨hhead, htail⟩ := List.pairwise_cons.mp h
      rw [Groups.push]
      split
      · rename_i hlt
        apply List.pairwise_cons.mpr
        constructor
        · intro e he
          rcases List.mem_cons.mp he with he | he
          · rw [he]
            exact hlt
          · exact lt_trans hlt (hhead e he)
        · exact h
      · rename_i hnlt
        split
        · exact List.pairwise_cons.mpr ⟨hhead, htail⟩
        · rename_i hne
          apply List.pairwise_cons.mpr
          constructor
          · intro e he
            rcases mem_push_key he with he | he
            · rw [he]
              exact lt_of_le_of_ne (not_lt.mp hnlt) (Ne.symm hne)
            · exact hhead e he
          · exact ih htail

/-- The entry of another key is the one that was there. -/
theorem mem_push_of_ne {m : List (κ × List α)} {k k' : κ} {a : α} {g : List α} (hne : k' ≠ k) :
    (k', g) ∈ push k a m ↔ (k', g) ∈ m := by
  induction m with
  | nil => simp [push, hne]
  | cons d m ih =>
      obtain ⟨c, f⟩ := d
      rw [push]
      split
      · simp [hne]
      · split
        · rename_i heq
          have : k' ≠ c := by
            rw [← heq]
            exact hne
          simp [this]
        · simp [ih]

/-- The entry of the key grew by the value, from nothing if there was
none. -/
theorem mem_push_self {m : List (κ × List α)} (h : Ordered m) {k : κ} {a : α} {g : List α} :
    (k, g) ∈ push k a m
      ↔ (∃ f, (k, f) ∈ m ∧ g = f ++ [a]) ∨ ((∀ f, (k, f) ∉ m) ∧ g = [a]) := by
  induction m with
  | nil => simp [push]
  | cons d m ih =>
      obtain ⟨c, f⟩ := d
      obtain ⟨hhead, htail⟩ := List.pairwise_cons.mp h
      -- an entry behind the head has a larger key
      have hbehind {e : List α} {b : κ} (hb : b ≤ c) : (b, e) ∉ m := by
        intro hin
        exact absurd (hhead _ hin) (not_lt.mpr hb)
      rw [push]
      split
      · rename_i hlt
        have hnone (e : List α) : (k, e) ∉ m := hbehind (le_of_lt hlt)
        simp [hnone, ne_of_lt hlt]
      · split
        · rename_i heq
          subst heq
          have hnone (e : List α) : (k, e) ∉ m := hbehind (le_refl _)
          simp [hnone]
        · rename_i hne
          simp [hne, ih htail]

/-- What a map holds of the pairs pushed so far. -/
structure Holds (m : List (κ × List α)) (pairs : List (κ × α)) : Prop where
  ordered : Ordered m
  mem : ∀ k g, (k, g) ∈ m ↔ g = valuesOf k pairs ∧ g ≠ []

theorem Holds.nil : Holds ([] : List (κ × List α)) [] := by
  constructor
  · exact List.Pairwise.nil
  · intro k g
    simp [valuesOf]

theorem valuesOf_append (k : κ) (pairs : List (κ × α)) (p : κ × α) :
    valuesOf k (pairs ++ [p]) = valuesOf k pairs ++ if p.1 = k then [p.2] else [] := by
  rw [valuesOf, List.filter_append, List.map_append, ← valuesOf]
  by_cases h : p.1 = k <;> simp [h]

theorem Holds.push {m : List (κ × List α)} {pairs : List (κ × α)} (h : Holds m pairs)
    (p : κ × α) : Holds (push p.1 p.2 m) (pairs ++ [p]) := by
  constructor
  · exact h.ordered.push _ _
  · intro k g
    rw [valuesOf_append]
    by_cases hk : p.1 = k
    · subst hk
      rw [mem_push_self h.ordered, if_pos rfl]
      simp only [h.mem]
      by_cases hv : valuesOf p.1 pairs = []
      · have hsingle : g = [p.2] → g ≠ [] := by
          intro hg
          rw [hg]
          exact List.cons_ne_nil _ _
        simp [hv, and_iff_left_of_imp hsingle]
      · constructor
        · intro hin
          rcases hin with ⟨f, ⟨hf, -⟩, hg⟩ | ⟨hnone, -⟩
          · rw [hg, hf]
            simp
          · exact absurd ⟨rfl, hv⟩ (hnone _)
        · intro hg
          exact .inl ⟨_, ⟨rfl, hv⟩, hg.1⟩
    · rw [mem_push_of_ne (Ne.symm hk), if_neg hk, List.append_nil, h.mem]

/-- A pass of the loop. -/
def group (pairs : List (κ × α)) : List (κ × List α) :=
  pairs.foldl (fun m p => push p.1 p.2 m) []

theorem Holds.foldl {m : List (κ × List α)} {done : List (κ × α)} (h : Holds m done)
    (todo : List (κ × α)) :
    Holds (todo.foldl (fun m p => Groups.push p.1 p.2 m) m) (done ++ todo) := by
  induction todo generalizing m done with
  | nil =>
      rw [List.append_nil]
      exact h
  | cons p todo ih =>
      have hassoc : done ++ p :: todo = (done ++ [p]) ++ todo := by simp
      rw [List.foldl_cons, hassoc]
      exact ih (h.push p)

/-- **Every key of the pairs has the entry of its values**, and no other
key has one. -/
theorem holds_group (pairs : List (κ × α)) : Holds (group pairs) pairs :=
  Holds.nil.foldl pairs

theorem mem_valuesOf {k : κ} {a : α} {pairs : List (κ × α)} :
    a ∈ valuesOf k pairs ↔ (k, a) ∈ pairs := by
  simp [valuesOf]

/-! ## A sorted group -/

section Sorted
variable {β : Type*} [LinearOrder β]

/-- Sorting and dropping repeats of a list without repeats only sorts
it. -/
theorem destutter_insertionSort {l : List β} (h : l.Nodup) :
    (l.insertionSort (· ≤ ·)).destutter (· ≠ ·) = l.insertionSort (· ≤ ·) := by
  apply List.destutter_of_isChain
  exact List.Pairwise.isChain ((List.perm_insertionSort (· ≤ ·) l).nodup_iff.mpr h)

end Sorted

end ScxMlfq.Groups
