import Mathlib.Data.List.Basic
import Mathlib.Order.Bounds.Basic

/-!
# Scan — first-match scans over an ordered candidate list

A scan of a sorted list returns the least candidate that passes its
test. A scan in two nested loops, over words and over the bits of a
word, that breaks off a word at a bound is the flat scan below the
bound.
-/

namespace ScxMlfq.Scan

section Least
variable {β : Type*} [LinearOrder β]

/-- The first of a sorted list that passes a test is the least that
does. -/
theorem isLeast_of_find? {l : List β} {ok : β → Bool} {b : β} (hs : l.Pairwise (· ≤ ·))
    (h : l.find? ok = some b) : IsLeast { c | c ∈ l ∧ ok c = true } b := by
  constructor
  · exact ⟨List.mem_of_find?_eq_some h, List.find?_some h⟩
  · intro c hc
    induction l with
    | nil => cases h
    | cons d l ih =>
        obtain ⟨hhead, htail⟩ := List.pairwise_cons.mp hs
        rw [List.find?_cons] at h
        split at h
        · cases h
          rcases List.mem_cons.mp hc.1 with hc' | hc'
          · exact le_of_eq hc'.symm
          · exact hhead c hc'
        · rename_i hd
          rcases List.mem_cons.mp hc.1 with hc' | hc'
          · have hok : ok c = true := hc.2
            rw [hc', hd] at hok
            exact absurd hok (by decide)
          · exact ih htail h ⟨hc', hc.2⟩

end Least

/-- A scan below `n` returns the least number that passes. -/
theorem isLeast_of_find?_range {ok : Nat → Bool} {n c : Nat}
    (h : (List.range n).find? ok = some c) : IsLeast { d | d < n ∧ ok d = true } c := by
  have hleast := isLeast_of_find? List.pairwise_le_range h
  simp only [List.mem_range] at hleast
  exact hleast

/-! ## Nested loops -/

variable (limit : Nat) (ok : Nat → Bool)

/-- The inner loop: it breaks at the bound. -/
def inner : List Nat → Option Nat
  | [] => none
  | cand :: rest =>
      if cand ≥ limit then none
      else if ok cand then some cand
      else inner rest

/-- The outer loop, over words of `w` bits. -/
def outer (w : Nat) : List Nat → Option Nat
  | [] => none
  | word :: rest =>
      match inner limit ok ((List.range w).map (word * w + ·)) with
      | some cand => some cand
      | none => outer w rest

theorem inner_eq_find? (cands : List Nat) :
    inner limit ok cands = (cands.takeWhile fun c => decide (c < limit)).find? ok := by
  induction cands with
  | nil => rfl
  | cons c cands ih =>
      rw [inner, List.takeWhile_cons]
      by_cases hc : c ≥ limit
      · have hnot : ¬ c < limit := by omega
        simp [hc, hnot]
      · have hlt : c < limit := by omega
        cases hok : ok c <;> simp [hc, hlt, hok, ih]

/-- A run of numbers cut at a bound. -/
theorem takeWhile_range' (a n : Nat) :
    (List.range' a n).takeWhile (fun c => decide (c < limit))
      = List.range' a (min n (limit - a)) := by
  induction n generalizing a with
  | zero => simp
  | succ n ih =>
      rw [List.range'_succ, List.takeWhile_cons]
      by_cases ha : a < limit
      · have hmin : min (n + 1) (limit - a) = min n (limit - (a + 1)) + 1 := by omega
        simp [ha, ih, hmin, List.range'_succ]
      · have hmin : min (n + 1) (limit - a) = 0 := by omega
        simp [ha, hmin]

/-- The nested scan of the words from `k` on. -/
theorem outer_range' (w k n : Nat) :
    outer limit ok w (List.range' k n)
      = (List.range' (k * w) (min (n * w) (limit - k * w))).find? ok := by
  induction n generalizing k with
  | zero => simp [outer]
  | succ n ih =>
      have hword : (List.range w).map (k * w + ·) = List.range' (k * w) w :=
        List.range'_eq_map_range.symm
      have hnext : (k + 1) * w = k * w + w := Nat.succ_mul k w
      have hsize : (n + 1) * w = n * w + w := Nat.succ_mul n w
      rw [List.range'_succ, outer, hword, inner_eq_find?, takeWhile_range', ih, hnext, hsize]
      -- the flat run is the one of this word followed by that of the rest
      have hsplit : List.range' (k * w) (min (n * w + w) (limit - k * w))
          = List.range' (k * w) (min w (limit - k * w))
            ++ List.range' (k * w + w) (min (n * w) (limit - (k * w + w))) := by
        by_cases hin : w ≤ limit - k * w
        · have hcut : min w (limit - k * w) = w := by omega
          have hlen : min (n * w + w) (limit - k * w)
              = w + min (n * w) (limit - (k * w + w)) := by omega
          rw [hcut, hlen, List.range'_append_1]
        · have hcut : min (n * w) (limit - (k * w + w)) = 0 := by omega
          have hlen : min (n * w + w) (limit - k * w) = min w (limit - k * w) := by omega
          rw [hcut, hlen, List.range'_zero, List.append_nil]
      rw [hsplit, List.find?_append]
      cases (List.range' (k * w) (min w (limit - k * w))).find? ok <;> rfl

/-- **The nested scan is the flat one**, below the bound and the bits
there are. -/
theorem outer_range (w n : Nat) :
    outer limit ok w (List.range n) = (List.range (min limit (n * w))).find? ok := by
  rw [List.range_eq_range', outer_range', Nat.zero_mul, Nat.sub_zero, Nat.min_comm,
    List.range_eq_range']

end ScxMlfq.Scan
