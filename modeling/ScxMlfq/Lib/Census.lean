import Mathlib.Algebra.BigOperators.Group.Finset.Piecewise
import Mathlib.Algebra.Order.BigOperators.Group.Finset
import Mathlib.Data.BitVec
import Mathlib.Data.Fintype.Card
import Mathlib.Tactic.Abel

/-!
# Census — machine words that count members by class

Every member of a finite set belongs to one class or to none, and a
machine word per class counts its members. A member that changes class
takes one from its old class and adds one to the new one. The words then
stay as far from the true counts as they started, whatever the moves:
`Tracks` is that relation, with the distance of each class in the word's
own arithmetic. A member that is found in another class than the one it
was counted out of shifts the distance for good.
-/

namespace ScxMlfq.Census

variable {ι κ : Type*} [DecidableEq κ] {w : Nat}

/-- One member of the class `o`, as seen by class `k`. -/
def mark (w : Nat) (o : Option κ) (k : κ) : BitVec w := if o = some k then 1 else 0

@[simp] theorem mark_none (k : κ) : mark w none k = 0 := rfl

@[simp] theorem mark_self (k : κ) : mark w (some k) k = 1 := if_pos rfl

theorem mark_of_ne {o : Option κ} {k : κ} (h : o ≠ some k) : mark w o k = 0 := if_neg h

/-- The words after a member went from class `a` to class `b`. -/
def shift (g : κ → BitVec w) (a b : Option κ) : κ → BitVec w :=
  fun k => g k - mark w a k + mark w b k

@[simp] theorem shift_self (g : κ → BitVec w) (a : Option κ) : shift g a a = g := by
  funext k
  exact sub_add_cancel _ _

/-- Two moves of one member in a row. -/
theorem shift_shift (g : κ → BitVec w) (a b c : Option κ) :
    shift (shift g a b) b c = shift g a c := by
  funext k
  show g k - mark w a k + mark w b k - mark w b k + mark w c k = _
  rw [add_sub_cancel_right]
  rfl

/-- A member that enters a class is one added to its word. -/
theorem shift_enter (g : κ → BitVec w) (k : κ) :
    shift g none (some k) = Function.update g k (g k + 1) := by
  funext j
  by_cases hj : j = k
  · subst hj
    simp [shift]
  · have hmark : mark w (some k) j = 0 := mark_of_ne fun h => hj (Option.some.inj h).symm
    simp [shift, Function.update_of_ne hj, hmark]

/-- One that leaves is one taken from it. -/
theorem shift_leave (g : κ → BitVec w) (k : κ) :
    shift g (some k) none = Function.update g k (g k - 1) := by
  funext j
  by_cases hj : j = k
  · subst hj
    simp [shift]
  · have hmark : mark w (some k) j = 0 := mark_of_ne fun h => hj (Option.some.inj h).symm
    simp [shift, Function.update_of_ne hj, hmark]

variable [Fintype ι]

/-- The members of class `k`. -/
def members (own : ι → Option κ) (k : κ) : Finset ι :=
  Finset.univ.filter fun i => own i = some k

theorem mem_members {own : ι → Option κ} {k : κ} {i : ι} :
    i ∈ members own k ↔ own i = some k := by
  simp [members]

/-- How many members class `k` has. -/
def count (own : ι → Option κ) (k : κ) : Nat := (members own k).card

theorem count_pos {own : ι → Option κ} {k : κ} {i : ι} (h : own i = some k) :
    0 < count own k :=
  Finset.card_pos.mpr ⟨i, mem_members.mpr h⟩

theorem count_eq_zero {own : ι → Option κ} (h : ∀ i, own i = none) (k : κ) :
    count own k = 0 := by
  rw [count, Finset.card_eq_zero, members, Finset.filter_eq_empty_iff]
  intro i _
  simp [h i]

theorem count_le (own : ι → Option κ) (k : κ) : count own k ≤ Fintype.card ι :=
  Finset.card_le_univ _

/-- The classes of a set share out the members that have their class in
it. -/
theorem sum_count (own : ι → Option κ) (s : Finset κ)
    (hs : ∀ i k, own i = some k → k ∈ s) :
    ∑ k ∈ s, count own k = (Finset.univ.filter fun i => own i ≠ none).card := by
  classical
  have hmaps : ∀ i ∈ Finset.univ.filter fun i => own i ≠ none, own i ∈ s.image some := by
    intro i hi
    obtain ⟨k, hk⟩ := Option.ne_none_iff_exists'.mp (Finset.mem_filter.mp hi).2
    rw [hk]
    exact Finset.mem_image_of_mem _ (hs i k hk)
  rw [Finset.card_eq_sum_card_fiberwise hmaps,
    Finset.sum_image fun _ _ _ _ h => Option.some.inj h]
  apply Finset.sum_congr rfl
  intro k _
  rw [count, members, Finset.filter_filter]
  congr 1
  apply Finset.filter_congr
  intro i _
  constructor
  · intro h
    exact ⟨by simp [h], h⟩
  · exact fun h => h.2

/-- **A member that changes class moves one from class to class.** -/
theorem count_update [DecidableEq ι] (own : ι → Option κ) (i : ι) (b : Option κ) (k : κ) :
    BitVec.ofNat w (count (Function.update own i b) k)
      = BitVec.ofNat w (count own k) - mark w (own i) k + mark w b k := by
  -- the other members of the class, before and after
  have hrest : (members (Function.update own i b) k).erase i = (members own k).erase i := by
    ext j
    by_cases hj : j = i
    · simp [hj]
    · simp [hj, mem_members]
  have hcard (o : ι → Option κ) : BitVec.ofNat w (count o k)
      = BitVec.ofNat w ((members o k).erase i).card + mark w (o i) k := by
    by_cases hi : o i = some k
    · rw [count, ← Finset.card_erase_add_one (mem_members.mpr hi), BitVec.ofNat_add, hi,
        mark_self]
      rfl
    · have hnot : i ∉ members o k := fun h => hi (mem_members.mp h)
      rw [count, Finset.erase_eq_of_notMem hnot, mark_of_ne hi]
      exact (add_zero _).symm
  rw [hcard, hcard own, hrest, Function.update_self, add_sub_cancel_right]

/-! ## Words that track the counts -/

/-- Each word is its count and a distance. -/
def Tracks (drift : κ → BitVec w) (g : κ → BitVec w) (own : ι → Option κ) : Prop :=
  ∀ k, g k = BitVec.ofNat w (count own k) + drift k

/-- Zeroed words over no members. -/
theorem Tracks.zero {own : ι → Option κ} (h : ∀ i, own i = none) :
    Tracks 0 (fun _ => (0 : BitVec w)) own := by
  intro k
  rw [count_eq_zero h]
  exact (add_zero _).symm

/-- **A move keeps the distance.** -/
theorem Tracks.move [DecidableEq ι] {drift g : κ → BitVec w} {own : ι → Option κ}
    (h : Tracks drift g own) (i : ι) (b : Option κ) :
    Tracks drift (shift g (own i) b) (Function.update own i b) := by
  intro k
  rw [shift, h k, count_update]
  abel

/-- Words without distance read the counts, as long as these fit. -/
theorem Tracks.toNat {g : κ → BitVec w} {own : ι → Option κ} (h : Tracks 0 g own)
    (hfit : Fintype.card ι < 2 ^ w) (k : κ) : (g k).toNat = count own k := by
  rw [h k, Pi.zero_apply, add_zero, BitVec.toNat_ofNat]
  exact Nat.mod_eq_of_lt (Nat.lt_of_le_of_lt (count_le own k) hfit)

/-! ## Moves in flight -/

section Flights

variable {θ : Type*} [Fintype θ]

/-- A move that has taken its member out of class `o.1` and added it to
class `o.2` in the words, and not in the set. -/
def transit (w : Nat) (o : Option κ × Option κ) (k : κ) : BitVec w :=
  mark w o.2 k - mark w o.1 k

@[simp] theorem transit_none (k : κ) : transit w (none, none) k = 0 := sub_self _

/-- The moves of all parties. -/
def inFlight (flights : θ → Option κ × Option κ) (k : κ) : BitVec w :=
  ∑ t, transit w (flights t) k

theorem inFlight_none {flights : θ → Option κ × Option κ} (h : ∀ t, flights t = (none, none)) :
    (inFlight flights : κ → BitVec w) = 0 := by
  funext k
  exact Finset.sum_eq_zero fun t _ => by rw [h t, transit_none]

theorem inFlight_update [DecidableEq θ] (flights : θ → Option κ × Option κ) (t : θ)
    (o : Option κ × Option κ) (k : κ) :
    (inFlight (Function.update flights t o) k : BitVec w)
      = inFlight flights k - transit w (flights t) k + transit w o k := by
  have hsum (f : θ → Option κ × Option κ) : (inFlight f k : BitVec w)
      = transit w (f t) k + ∑ x ∈ Finset.univ.erase t, transit w (f x) k :=
    (Finset.add_sum_erase _ _ (Finset.mem_univ t)).symm
  have hrest : ∑ x ∈ Finset.univ.erase t, transit w (Function.update flights t o x) k
      = ∑ x ∈ Finset.univ.erase t, transit w (flights x) k := by
    refine Finset.sum_congr rfl fun x hx => ?_
    rw [Function.update_of_ne (Finset.ne_of_mem_erase hx)]
  rw [hsum, hsum flights, hrest, Function.update_self]
  abel

/-- **A step of a move in flight** that changes the words, the class of its
member and its own progress by the same amount keeps the law. -/
theorem Tracks.step [DecidableEq ι] [DecidableEq θ] {flights : θ → Option κ × Option κ}
    {g g' : κ → BitVec w} {own : ι → Option κ} (h : Tracks (inFlight flights) g own)
    {i : ι} {b : Option κ} {t : θ} {o : Option κ × Option κ}
    (hg : ∀ k, g' k = g k - mark w (own i) k + mark w b k - transit w (flights t) k
      + transit w o k) :
    Tracks (inFlight (Function.update flights t o)) g' (Function.update own i b) := by
  intro k
  rw [hg k, h k, count_update, inFlight_update]
  abel

end Flights

end ScxMlfq.Census
