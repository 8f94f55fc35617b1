import Mathlib.Algebra.BigOperators.Group.Finset.Basic
import Mathlib.Algebra.BigOperators.Group.Finset.Piecewise

/-!
# Harvest — tokens that move from slots to takers

Tokens are put into slots, one at a time, and takers empty one slot at a
time. A ledger lists for each token, in the order of arrival, where it
lies now: in its slot, or with the taker that emptied the slot. Each token
has one place and a taken one stays, so nothing is lost or taken twice;
what a slot or a taker holds is a number of places in the list.
-/

namespace ScxMlfq.Harvest

variable {κ : Type*}

/-- Where a token lies. -/
inductive Place (κ : Type*) where
  | slot (c : κ)
  | taken (i : Nat)
deriving DecidableEq

/-- The places of the tokens, oldest first. -/
abbrev Ledger (κ : Type*) := List (Place κ)

variable [DecidableEq κ]

/-- Taker `i` empties slot `c`. -/
def take (i : Nat) (c : κ) (l : Ledger κ) : Ledger κ :=
  l.map fun p => if p = .slot c then .taken i else p

@[simp] theorem length_take (i : Nat) (c : κ) (l : Ledger κ) : (take i c l).length = l.length :=
  List.length_map _

theorem take_cons (i : Nat) (c : κ) (p : Place κ) (l : Ledger κ) :
    take i c (p :: l) = (if p = .slot c then .taken i else p) :: take i c l := rfl

/-- A taken token stays. -/
theorem getElem?_take_of_taken {i j n : Nat} {c : κ} {l : Ledger κ}
    (h : l[n]? = some (.taken j)) : (take i c l)[n]? = some (.taken j) := by
  rw [take, List.getElem?_map, h]
  rfl

/-- A token of the slot goes to the taker. -/
theorem getElem?_take_self {i n : Nat} {c : κ} {l : Ledger κ} (h : l[n]? = some (.slot c)) :
    (take i c l)[n]? = some (.taken i) := by
  rw [take, List.getElem?_map, h, Option.map_some, if_pos rfl]

/-- A token of another slot stays. -/
theorem getElem?_take_of_ne {i n : Nat} {c c' : κ} {l : Ledger κ} (hc : c' ≠ c)
    (h : l[n]? = some (.slot c')) : (take i c l)[n]? = some (.slot c') := by
  rw [take, List.getElem?_map, h, Option.map_some, if_neg]
  rintro ⟨⟩
  exact hc rfl

/-! ## The counts -/

theorem count_take_slot (i : Nat) (c c' : κ) (l : Ledger κ) :
    (take i c l).count (.slot c') = if c' = c then 0 else l.count (.slot c') := by
  induction l with
  | nil => simp [take]
  | cons p l ih =>
      rw [take_cons, List.count_cons, List.count_cons, ih]
      by_cases hc : c' = c
      · subst hc
        by_cases hp : p = .slot c' <;> simp [hp]
      · by_cases hp : p = .slot c
        · subst hp
          simp [hc, Ne.symm hc]
        · simp [hc, hp]

theorem count_take_taken (i j : Nat) (c : κ) (l : Ledger κ) :
    (take i c l).count (.taken j)
      = l.count (.taken j) + if j = i then l.count (.slot c) else 0 := by
  induction l with
  | nil => simp [take]
  | cons p l ih =>
      rw [take_cons, List.count_cons, List.count_cons, List.count_cons, ih]
      by_cases hp : p = .slot c
      · subst hp
        by_cases hj : j = i
        · subst hj
          simp
          omega
        · simp [hj, Ne.symm hj]
      · by_cases hj : j = i
        · subst hj
          simp [hp]
          omega
        · simp [hp, hj]

/-- **Every token lies somewhere**: the slots and the takers together
hold as many as there are. -/
theorem sum_count {slots : Finset κ} {takers : Nat} {l : Ledger κ}
    (hslot : ∀ c, .slot c ∈ l → c ∈ slots) (htaken : ∀ i, .taken i ∈ l → i < takers) :
    ∑ c ∈ slots, l.count (.slot c) + ∑ i ∈ Finset.range takers, l.count (.taken i)
      = l.length := by
  induction l with
  | nil => simp
  | cons p l ih =>
      have hrest := ih (fun c hc => hslot c (List.mem_cons_of_mem p hc))
        fun i hi => htaken i (List.mem_cons_of_mem p hi)
      simp only [List.count_cons, Finset.sum_add_distrib, beq_iff_eq, List.length_cons]
      cases p with
      | slot c =>
          have hc := hslot c List.mem_cons_self
          simp [hc]
          omega
      | taken i =>
          have hi := htaken i List.mem_cons_self
          simp [hi]
          omega

end ScxMlfq.Harvest
