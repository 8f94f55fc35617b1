import Mathlib.Data.List.DropRight

/-!
# Decimal — numbers in a text

A bounded decimal number, with an optional sign in front, in a text that
may carry blanks around it. A number written in decimal reads as itself.
-/

namespace ScxMlfq.Decimal

/-- The text without the blanks around it. -/
def trim (blank : Char → Bool) (text : List Char) : List Char :=
  (text.dropWhile blank).rdropWhile blank

theorem dropWhile_append {blank : Char → Bool} {text tail : List Char} (hne : text ≠ [])
    (htext : ∀ c ∈ text, blank c = false) : (text ++ tail).dropWhile blank = text ++ tail := by
  cases text with
  | nil => exact absurd rfl hne
  | cons c text =>
      rw [List.cons_append, List.dropWhile_cons_of_neg]
      rw [htext c List.mem_cons_self]
      exact Bool.false_ne_true

/-- Blanks behind a text without blanks are trimmed. -/
theorem trim_append {blank : Char → Bool} {text tail : List Char} (hne : text ≠ [])
    (htext : ∀ c ∈ text, blank c = false) (htail : ∀ c ∈ tail, blank c = true) :
    trim blank (text ++ tail) = text := by
  have hlast : blank (text.getLast hne) = false := htext _ (List.getLast_mem hne)
  rw [trim, dropWhile_append hne htext]
  induction tail using List.reverseRecOn with
  | nil =>
      rw [List.append_nil, List.rdropWhile_eq_self_iff]
      intro h
      rw [hlast]
      exact Bool.false_ne_true
  | append_singleton tail c ih =>
      have hc : blank c = true := htail c (List.mem_append_right _ List.mem_cons_self)
      rw [← List.append_assoc, List.rdropWhile_concat_pos _ _ _ hc]
      exact ih fun d hd => htail d (List.mem_append_left _ hd)

theorem trim_self {blank : Char → Bool} {text : List Char} (hne : text ≠ [])
    (htext : ∀ c ∈ text, blank c = false) : trim blank text = text := by
  have h : trim blank (text ++ []) = text := trim_append hne htext nofun
  rw [List.append_nil] at h
  exact h

/-- The number below `limit` that the text is. -/
def read (limit : Nat) (text : List Char) : Option Nat :=
  let digits := if text.head? = some '+' then text.tail else text
  if digits ≠ [] ∧ digits.all Char.isDigit = true ∧ Nat.ofDigitChars 10 digits 0 < limit
  then some (Nat.ofDigitChars 10 digits 0) else none

theorem isDigit_toDigits (n : Nat) : ∀ c ∈ Nat.toDigits 10 n, c.isDigit = true := by
  intro c hc
  exact Nat.isDigit_of_mem_toDigits (by omega) (by omega) hc

/-- **A number reads as itself.** -/
theorem read_toDigits {limit n : Nat} (h : n < limit) :
    read limit (Nat.toDigits 10 n) = some n := by
  have hvalue : Nat.ofDigitChars 10 (Nat.toDigits 10 n) 0 = n :=
    Nat.ofDigitChars_toDigits (by omega) (by omega)
  have hplain : (Nat.toDigits 10 n).head? ≠ some '+' := by
    intro hplus
    have hdigit := isDigit_toDigits n '+' (List.mem_of_head? hplus)
    exact absurd hdigit (by decide)
  have hdigits : (Nat.toDigits 10 n).all Char.isDigit = true :=
    List.all_eq_true.mpr (isDigit_toDigits n)
  unfold read
  simp only [if_neg hplain, hvalue]
  exact if_pos ⟨Nat.toDigits_ne_nil, hdigits, h⟩

end ScxMlfq.Decimal
