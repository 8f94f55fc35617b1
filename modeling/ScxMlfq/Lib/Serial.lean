import Mathlib.Data.BitVec

/-!
# Serial — the wrapping order on machine words

A clock kept in a `w`-bit word has no largest value: it wraps, and two
readings are compared by the sign of their difference. This module is
the arithmetic of that comparison, over every width: the forward
distance `gap`, the order `Before`, the monotone register `advance`
that only ever moves forward, and the distance a register travels over
a list of proposals.

`Before` is not transitive on the whole circle. It is the order of the
naturals on any window shorter than half of it, which is what
`before_add_add` says and what every use needs.
-/

namespace ScxMlfq.Serial

variable {w : Nat}

/-! ## Forward distance -/

/-- How far `b` lies ahead of `a`, going forward around the circle. -/
def gap (a b : BitVec w) : Nat := (b - a).toNat

theorem gap_lt (a b : BitVec w) : gap a b < 2 ^ w := (b - a).isLt

@[simp] theorem gap_self (a : BitVec w) : gap a a = 0 := by
  simp [gap]

theorem add_gap (a b : BitVec w) : a + BitVec.ofNat w (gap a b) = b := by
  rw [gap, BitVec.ofNat_toNat, BitVec.setWidth_eq, add_sub_cancel]

/-- Moving `k` forward puts the word `k` ahead, up to full turns. -/
theorem gap_add_self (a : BitVec w) (k : Nat) :
    gap a (a + BitVec.ofNat w k) = k % 2 ^ w := by
  rw [gap, add_sub_cancel_left, BitVec.toNat_ofNat]

theorem gap_add_self_of_lt {a : BitVec w} {k : Nat} (h : k < 2 ^ w) :
    gap a (a + BitVec.ofNat w k) = k := by
  rw [gap_add_self, Nat.mod_eq_of_lt h]

/-- Distances add up around the circle. -/
theorem gap_trans (a b c : BitVec w) :
    gap a c = (gap a b + gap b c) % 2 ^ w := by
  have h : c - a = (b - a) + (c - b) := by
    rw [add_comm, sub_add_sub_cancel]
  rw [gap, h, BitVec.toNat_add]
  rfl

/-- Both ends of a distance may be moved by the same word. -/
theorem gap_add_add (a b c : BitVec w) : gap (a + c) (b + c) = gap a b := by
  rw [gap, gap, add_sub_add_right_eq_sub]

/-- A word added to a reading moves it forward by its value. -/
theorem add_ofNat_add (o x : BitVec w) (n : Nat) :
    o + BitVec.ofNat w n + x = o + BitVec.ofNat w (n + x.toNat) := by
  rw [BitVec.ofNat_add, BitVec.ofNat_toNat, BitVec.setWidth_eq, add_assoc]

/-- A word subtracted moves the reading back, not past the origin. -/
theorem add_ofNat_sub (o : BitVec w) {x : BitVec w} {n : Nat} (h : x.toNat ≤ n) :
    o + BitVec.ofNat w n - x = o + BitVec.ofNat w (n - x.toNat) := by
  rw [sub_eq_iff_eq_add, add_ofNat_add, Nat.sub_add_cancel h]

/-! ## The order -/

/-- `a` is before `b`: the difference, read as a signed word, is
positive. -/
def Before (a b : BitVec w) : Prop := 0 < (b - a).toInt

instance (a b : BitVec w) : Decidable (Before a b) :=
  inferInstanceAs (Decidable (0 < (b - a).toInt))

/-- `Before` in terms of the forward distance: not zero, and less than
half of the circle. -/
theorem before_iff_gap {a b : BitVec w} :
    Before a b ↔ 0 < gap a b ∧ 2 * gap a b < 2 ^ w := by
  have hlt := gap_lt a b
  simp only [Before, BitVec.toInt_eq_toNat_cond]
  change (0 : Int) < (if 2 * gap a b < 2 ^ w then ((gap a b : Nat) : Int)
    else ((gap a b : Nat) : Int) - ((2 ^ w : Nat) : Int)) ↔ _
  split <;> omega

theorem not_before_self (a : BitVec w) : ¬ Before a a := by
  simp [before_iff_gap]

theorem Before.gap_pos {a b : BitVec w} (h : Before a b) : 0 < gap a b :=
  (before_iff_gap.mp h).1

theorem Before.gap_lt_half {a b : BitVec w} (h : Before a b) :
    2 * gap a b < 2 ^ w :=
  (before_iff_gap.mp h).2

/-- Seen from a common origin, the wrapping order is the order of the
distances as long as these are less than half of the circle apart. -/
theorem before_add_add (o : BitVec w) {m n : Nat} (h : m < n)
    (hw : 2 * (n - m) < 2 ^ w) :
    Before (o + BitVec.ofNat w m) (o + BitVec.ofNat w n) := by
  have hn : o + BitVec.ofNat w n
      = (o + BitVec.ofNat w m) + BitVec.ofNat w (n - m) := by
    rw [add_assoc, ← BitVec.ofNat_add, Nat.add_sub_cancel' (Nat.le_of_lt h)]
  rw [hn, before_iff_gap, gap_add_self_of_lt (by omega)]
  omega

/-- The converse on the other half: at an equal or smaller distance the
word is not ahead. -/
theorem not_before_add_add (o : BitVec w) {m n : Nat} (h : n ≤ m)
    (hw : 2 * (m - n) ≤ 2 ^ w) :
    ¬ Before (o + BitVec.ofNat w m) (o + BitVec.ofNat w n) := by
  intro hb
  have hm : o + BitVec.ofNat w m
      = (o + BitVec.ofNat w n) + BitVec.ofNat w (m - n) := by
    rw [add_assoc, ← BitVec.ofNat_add, Nat.add_sub_cancel' h]
  have hback : gap (o + BitVec.ofNat w n) (o + BitVec.ofNat w m)
      = (m - n) % 2 ^ w := by
    rw [hm, gap_add_self]
  have hturn := gap_trans (o + BitVec.ofNat w m) (o + BitVec.ofNat w n)
    (o + BitVec.ofNat w m)
  rw [gap_self] at hturn
  have hfwd := hb.gap_lt_half
  have hpos := hb.gap_pos
  rcases Nat.lt_or_ge (m - n) (2 ^ w) with hlt | hge
  · rw [hback, Nat.mod_eq_of_lt hlt] at hturn
    rw [Nat.mod_eq_of_lt (by omega)] at hturn
    omega
  · omega

/-- On readings that have not wrapped yet and lie less than half of the
circle apart, a later reading is not before an earlier one. -/
theorem not_before_of_toNat_le {a b : BitVec w} (h : b.toNat ≤ a.toNat)
    (hw : 2 * (a.toNat - b.toNat) < 2 ^ w) : ¬ Before a b := by
  have ha : a = 0#w + BitVec.ofNat w a.toNat := by simp
  have hb : b = 0#w + BitVec.ofNat w b.toNat := by simp
  rw [ha, hb]
  exact not_before_add_add 0 h (by omega)

/-! ## Moving the origin -/

/-- The order does not see where the circle starts. -/
theorem before_translate {a b : BitVec w} (c : BitVec w) :
    Before (a + c) (b + c) ↔ Before a b := by
  rw [before_iff_gap, before_iff_gap, gap_add_add]

/-! ## A register that only moves forward -/

/-- Store the proposal if it is ahead of the register, else keep it. -/
def advance (c v : BitVec w) : BitVec w := if Before c v then v else c

/-- How far one proposal moves the register. -/
def travel (c v : BitVec w) : Nat := gap c (advance c v)

theorem advance_eq_add_travel (c v : BitVec w) :
    advance c v = c + BitVec.ofNat w (travel c v) :=
  (add_gap c (advance c v)).symm

/-- **A proposal that is not ahead by `k` moves the register at most
`k`**: the register takes the proposal or nothing. -/
theorem travel_le {c v : BitVec w} {k : Nat} (h : Before c v → gap c v ≤ k) :
    travel c v ≤ k := by
  rw [travel, advance]
  split
  · rename_i hb
    exact h hb
  · rw [gap_self]
    exact Nat.zero_le k

/-- The register is never behind the proposal it has seen. -/
theorem not_before_advance_self (c v : BitVec w) : ¬ Before (advance c v) v := by
  rw [advance]
  split
  · exact not_before_self v
  · assumption

/-- **A proposer that starts at or behind the register moves it by its
own step at most.** -/
theorem travel_add_le {c v : BitVec w} (h : ¬ Before c v) (d : BitVec w) :
    travel c (v + d) ≤ d.toNat := by
  apply travel_le
  intro hb
  have hstep : gap v (v + d) = d.toNat := by rw [gap, add_sub_cancel_left]
  have hsum := gap_trans c v (v + d)
  have hhalf := hb.gap_lt_half
  have hlt := gap_lt c v
  rw [hstep] at hsum
  rw [before_iff_gap] at h
  rcases Nat.lt_or_ge (gap c v + d.toNat) (2 ^ w) with hsmall | hwrap
  · rw [Nat.mod_eq_of_lt hsmall] at hsum
    omega
  · have hd := d.isLt
    rw [Nat.mod_eq_sub_mod hwrap, Nat.mod_eq_of_lt (by omega)] at hsum
    omega

/-- A reading behind the register stays behind it while the distance
stays within half of the circle. -/
theorem not_before_advance {c u v : BitVec w} (h : 2 * (gap v c + travel c u) ≤ 2 ^ w) :
    ¬ Before (advance c u) v := by
  have hadv : advance c u = v + BitVec.ofNat w (gap v c + travel c u) := by
    rw [BitVec.ofNat_add, ← add_assoc, add_gap, ← advance_eq_add_travel]
  have hself : v + BitVec.ofNat w 0 = v := by simp
  have hbehind := not_before_add_add v (Nat.zero_le (gap v c + travel c u)) h
  rwa [← hadv, hself] at hbehind

/-- The register after a list of proposals. -/
def advances (c : BitVec w) (vs : List (BitVec w)) : BitVec w :=
  vs.foldl advance c

/-- The distance the register covers over a list of proposals. -/
def travels : BitVec w → List (BitVec w) → Nat
  | _, [] => 0
  | c, v :: vs => travel c v + travels (advance c v) vs

@[simp] theorem advances_nil (c : BitVec w) : advances c [] = c := rfl

@[simp] theorem advances_cons (c v : BitVec w) (vs : List (BitVec w)) :
    advances c (v :: vs) = advances (advance c v) vs := rfl

theorem travels_append (c : BitVec w) (us vs : List (BitVec w)) :
    travels c (us ++ vs) = travels c us + travels (advances c us) vs := by
  induction us generalizing c with
  | nil => simp [travels]
  | cons u us ih =>
      rw [List.cons_append, travels, ih, travels, advances_cons, Nat.add_assoc]

/-- The register sits at its origin plus the distance covered. -/
theorem advances_eq_add_travels (c : BitVec w) (vs : List (BitVec w)) :
    advances c vs = c + BitVec.ofNat w (travels c vs) := by
  induction vs generalizing c with
  | nil => simp [travels]
  | cons v vs ih =>
      rw [advances_cons, ih, travels, BitVec.ofNat_add, ← add_assoc,
        ← advance_eq_add_travel]

end ScxMlfq.Serial
