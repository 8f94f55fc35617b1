import Mathlib.Data.BitVec
import Mathlib.Data.Finset.Card

/-!
# Tally — a word that counts the members of a set

A counter in a machine word is moved by one whenever an element enters
or leaves a set. It then follows the size of the set from wherever it
started: the distance between the two never changes, so a wrong start is
never corrected. `Follows drift` is that relation, modulo the word;
a counter is right at one moment of a run exactly when it is right at
all of them.
-/

namespace ScxMlfq.Tally

variable {α : Type*} {w : Nat}

/-- The counter when `x` enters or leaves. -/
def count (c : BitVec w) (enters : Bool) : BitVec w :=
  if enters then c + 1 else c - 1

/-- The counter is `drift` short of the size of the set. -/
def Follows (drift : Nat) (c : BitVec w) (s : Finset α) : Prop :=
  c + BitVec.ofNat w drift = BitVec.ofNat w s.card

/-- A counter that starts at zero is short by the initial size. -/
theorem Follows.zero (s : Finset α) : Follows s.card (0 : BitVec w) s :=
  BitVec.zero_add _

/-- **Right once, right always**: as long as sizes fit the word, the
counter reads the size of the set exactly when it started right. -/
theorem Follows.toNat_eq_iff {drift : Nat} {c : BitVec w} {s : Finset α}
    (h : Follows drift c s) (hs : s.card < 2 ^ w) (hd : drift < 2 ^ w) :
    c.toNat = s.card ↔ drift = 0 := by
  have hnat := congrArg BitVec.toNat h
  rw [BitVec.toNat_add, BitVec.toNat_ofNat, BitVec.toNat_ofNat, Nat.mod_eq_of_lt hs,
    Nat.mod_eq_of_lt hd] at hnat
  have hc := c.isLt
  constructor
  · intro heq
    rcases Nat.lt_or_ge (c.toNat + drift) (2 ^ w) with hlt | hge
    · rw [Nat.mod_eq_of_lt hlt] at hnat
      omega
    · rw [Nat.mod_eq_sub_mod hge, Nat.mod_eq_of_lt (by omega)] at hnat
      omega
  · rintro rfl
    rwa [Nat.add_zero, Nat.mod_eq_of_lt hc] at hnat

/-! ## Transitions -/

variable [DecidableEq α]

/-- The set with `x` on the other side. -/
def toggle (s : Finset α) (x : α) : Finset α :=
  if x ∈ s then s.erase x else insert x s

/-- **One transition keeps the distance.** -/
theorem Follows.toggle {drift : Nat} {c : BitVec w} {s : Finset α}
    (h : Follows drift c s) (x : α) :
    Follows drift (count c (decide (x ∉ s))) (toggle s x) := by
  rw [Follows] at h ⊢
  by_cases hx : x ∈ s
  · have hcard : s.card = (s.erase x).card + 1 := (Finset.card_erase_add_one hx).symm
    rw [hcard, BitVec.ofNat_add] at h
    simp only [count, Tally.toggle, hx, if_true, not_true_eq_false, decide_false,
      Bool.false_eq_true, if_false]
    rw [sub_add_eq_add_sub, h]
    exact add_sub_cancel_right _ _
  · simp only [count, Tally.toggle, hx, if_false, not_false_eq_true, decide_true, if_true]
    rw [Finset.card_insert_of_notMem hx, BitVec.ofNat_add, ← h, add_right_comm]
    rfl

/-- A transition seen by a part of the elements. -/
theorem filter_toggle (s : Finset α) (x : α) (p : α → Prop) [DecidablePred p] :
    (toggle s x).filter p = if p x then toggle (s.filter p) x else s.filter p := by
  by_cases hp : p x
  · by_cases hx : x ∈ s
    · simp [toggle, hx, hp, Finset.filter_erase]
    · simp [toggle, hx, hp, Finset.filter_insert]
  · by_cases hx : x ∈ s
    · simp [toggle, hx, hp, Finset.filter_erase]
    · simp [toggle, hx, hp, Finset.filter_insert]

theorem toggle_subset {s t : Finset α} {x : α} (hs : s ⊆ t) (hx : x ∈ t) :
    toggle s x ⊆ t := by
  rw [toggle]
  split
  · exact (Finset.erase_subset x s).trans hs
  · exact Finset.insert_subset hx hs

end ScxMlfq.Tally
