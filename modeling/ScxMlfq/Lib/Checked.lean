import Mathlib.Data.BitVec

/-!
# Checked — word arithmetic that refuses to wrap

The operations of an unsigned machine word, each with a result only where
the word holds the exact number: a sum or a product below the modulus, a
difference of ordered operands, a quotient by a divisor that is not zero.
A computation written with them has a result exactly when none of its
steps wraps, and it is then the result of the wrapping one.
-/

namespace ScxMlfq.Checked

variable {w : Nat}

def add (a b : BitVec w) : Option (BitVec w) :=
  if a.toNat + b.toNat < 2 ^ w then some (a + b) else none

def sub (a b : BitVec w) : Option (BitVec w) :=
  if b.toNat ≤ a.toNat then some (a - b) else none

def mul (a b : BitVec w) : Option (BitVec w) :=
  if a.toNat * b.toNat < 2 ^ w then some (a * b) else none

def div (a b : BitVec w) : Option (BitVec w) :=
  if b.toNat = 0 then none else some (a / b)

def mod (a b : BitVec w) : Option (BitVec w) :=
  if b.toNat = 0 then none else some (a % b)

def shl (a : BitVec w) (n : Nat) : Option (BitVec w) :=
  if a.toNat * 2 ^ n < 2 ^ w then some (a <<< n) else none

/-- The signed difference, of words read in two's complement. -/
def ssub (a b : BitVec w) : Option (BitVec w) :=
  if (a - b).toInt = a.toInt - b.toInt then some (a - b) else none

/-- The signed negation. -/
def sneg (a : BitVec w) : Option (BitVec w) :=
  if (-a).toInt = -a.toInt then some (-a) else none

variable {a b c : BitVec w} {n : Nat}

theorem add_eq (h : a.toNat + b.toNat < 2 ^ w) : add a b = some (a + b) := if_pos h

theorem sub_eq (h : b.toNat ≤ a.toNat) : sub a b = some (a - b) := if_pos h

theorem mul_eq (h : a.toNat * b.toNat < 2 ^ w) : mul a b = some (a * b) := if_pos h

theorem div_eq (h : b.toNat ≠ 0) : div a b = some (a / b) := if_neg h

theorem mod_eq (h : b.toNat ≠ 0) : mod a b = some (a % b) := if_neg h

theorem shl_eq (h : a.toNat * 2 ^ n < 2 ^ w) : shl a n = some (a <<< n) := if_pos h

theorem ssub_eq (h : (a - b).toInt = a.toInt - b.toInt) : ssub a b = some (a - b) := if_pos h

theorem sneg_eq (h : (-a).toInt = -a.toInt) : sneg a = some (-a) := if_pos h

/-! ## What a result tells -/

theorem of_mul_eq_some (h : mul a b = some c) : a.toNat * b.toNat < 2 ^ w ∧ c = a * b := by
  rw [mul] at h
  split at h
  · rename_i hfits
    exact ⟨hfits, (Option.some.inj h).symm⟩
  · cases h

theorem of_add_eq_some (h : add a b = some c) : a.toNat + b.toNat < 2 ^ w ∧ c = a + b := by
  rw [add] at h
  split at h
  · rename_i hfits
    exact ⟨hfits, (Option.some.inj h).symm⟩
  · cases h

theorem of_shl_eq_some (h : shl a n = some c) : a.toNat * 2 ^ n < 2 ^ w ∧ c = a <<< n := by
  rw [shl] at h
  split at h
  · rename_i hfits
    exact ⟨hfits, (Option.some.inj h).symm⟩
  · cases h

/-! ## Signed results -/

/-- The signed number a word of `w` bits keeps of `x`. -/
def wrapped (w : Nat) (x : Int) : Int := x.bmod (2 ^ w)

/-- A signed result, where a word of `w` bits holds it. -/
def signed (w : Nat) (x : Int) : Option Int :=
  if -2 ^ w ≤ 2 * x ∧ 2 * x < 2 ^ w then some x else none

/-- The word read as a signed number, where that does not change it. -/
def toSigned (a : BitVec w) : Option Int :=
  if 2 * a.toNat < 2 ^ w then some a.toInt else none

theorem signed_eq {x : Int} (h : -2 ^ w ≤ 2 * x ∧ 2 * x < 2 ^ w) : signed w x = some x :=
  if_pos h

theorem toSigned_eq (h : 2 * a.toNat < 2 ^ w) : toSigned a = some a.toInt := if_pos h

/-- A number the word holds is not changed by it. -/
theorem wrapped_eq {x : Int} (h : -2 ^ w ≤ 2 * x ∧ 2 * x < 2 ^ w) : wrapped w x = x := by
  apply Int.bmod_eq_of_le_mul_two
  · rw [Nat.cast_pow, Nat.cast_ofNat]
    omega
  · rw [Nat.cast_pow, Nat.cast_ofNat]
    omega

/-! ## The numbers -/

theorem toNat_sub (h : b.toNat ≤ a.toNat) : (a - b).toNat = a.toNat - b.toNat :=
  BitVec.toNat_sub_of_le (BitVec.le_def.mpr h)

/-- A shift by `n` is a product with `2 ^ n`. -/
theorem toNat_shl (h : a.toNat * 2 ^ n < 2 ^ w) : (a <<< n).toNat = a.toNat * 2 ^ n := by
  rw [BitVec.toNat_shiftLeft, Nat.shiftLeft_eq, Nat.mod_eq_of_lt h]

/-- A right shift never grows a word. -/
theorem toNat_shr_le (a : BitVec w) (n : Nat) : (a >>> n).toNat ≤ a.toNat := by
  rw [BitVec.toNat_ushiftRight, Nat.shiftRight_eq_div_pow]
  exact Nat.div_le_self _ _

/-- A capped word is at most the cap. -/
theorem toNat_cap_le (a cap : BitVec w) : (if a > cap then cap else a).toNat ≤ cap.toNat := by
  split
  · exact Nat.le_refl _
  · rename_i h
    exact Nat.le_of_not_lt h

end ScxMlfq.Checked
