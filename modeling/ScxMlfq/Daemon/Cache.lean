import ScxMlfq.Intf.Types
import ScxMlfq.Lib.Decimal
import ScxMlfq.Lib.Lone
import ScxMlfq.Lib.Selection

/-!
# Daemon — Cache

The cache sizes of `src/topology.rs`: the size texts of sysfs, the size
of the last-level cache of a CPU, and the domain whose cache is strictly
the largest.
-/

namespace ScxMlfq

open Selection

/-! ## The texts -/

/-- The blanks `str::trim` takes off. -/
def isWhiteSpace (c : Char) : Bool :=
  (9 ≤ c.toNat && c.toNat ≤ 13) || (0x2000 ≤ c.toNat && c.toNat ≤ 0x200A)
    || [32, 0x85, 0xA0, 0x1680, 0x2028, 0x2029, 0x202F, 0x205F, 0x3000].contains c.toNat

/-- `trim().parse::<u64>().ok()`. -/
def parseU64 (text : List Char) : Option Nat :=
  Decimal.read (2 ^ 64) (Decimal.trim isWhiteSpace text)

/-- The number and the multiplier of a size. -/
def splitSuffix (s : List Char) : List Char × U64 :=
  match s.getLast? with
  | some 'K' => (s.dropLast, 1024)
  | some 'M' => (s.dropLast, 1024 * 1024)
  | some 'G' => (s.dropLast, 1024 * 1024 * 1024)
  | _ => (s, 1)

/-- `parse_cache_size`. The product wraps, as in a release build. -/
def parseCacheSize (size : List Char) : Option U64 :=
  let s := Decimal.trim isWhiteSpace size
  (parseU64 (splitSuffix s).1).map fun n => BitVec.ofNat 64 n * (splitSuffix s).2

/-- The suffixes with their multipliers. -/
def cacheSuffixes : List (List Char × U64) :=
  [(['K'], 1024), (['M'], 1024 * 1024), (['G'], 1024 * 1024 * 1024), ([], 1)]

theorem isWhiteSpace_of_isDigit {c : Char} (h : c.isDigit = true) : isWhiteSpace c = false := by
  have hrange : 48 ≤ c.toNat ∧ c.toNat ≤ 57 := by
    simpa [Char.isDigit, UInt32.le_iff_toNat_le] using h
  simp only [isWhiteSpace, List.contains_eq_mem, List.mem_cons, List.not_mem_nil, or_false,
    Bool.or_eq_false_iff, Bool.and_eq_false_iff, decide_eq_false_iff_not]
  omega

theorem toDigits_not_blank (n : Nat) : ∀ c ∈ Nat.toDigits 10 n, isWhiteSpace c = false :=
  fun c hc => isWhiteSpace_of_isDigit (Decimal.isDigit_toDigits n c hc)

/-- A number without a suffix is taken as it is. -/
theorem splitSuffix_toDigits (n : Nat) :
    splitSuffix (Nat.toDigits 10 n) = (Nat.toDigits 10 n, 1) := by
  have hdigit (c : Char) (hc : (Nat.toDigits 10 n).getLast? = some c) : c.isDigit = true :=
    Decimal.isDigit_toDigits n c (List.mem_of_getLast? hc)
  rw [splitSuffix]
  split
  · rename_i hc
    exact absurd (hdigit _ hc) (by decide)
  · rename_i hc
    exact absurd (hdigit _ hc) (by decide)
  · rename_i hc
    exact absurd (hdigit _ hc) (by decide)
  · rfl

theorem splitSuffix_append {suffix : List Char} {mult : U64}
    (h : (suffix, mult) ∈ cacheSuffixes) (n : Nat) :
    splitSuffix (Nat.toDigits 10 n ++ suffix) = (Nat.toDigits 10 n, mult) := by
  simp only [cacheSuffixes, List.mem_cons, List.not_mem_nil, or_false, Prod.mk.injEq] at h
  rcases h with ⟨rfl, rfl⟩ | ⟨rfl, rfl⟩ | ⟨rfl, rfl⟩ | ⟨rfl, rfl⟩
  · simp [splitSuffix]
  · simp [splitSuffix]
  · simp [splitSuffix]
  · rw [List.append_nil]
    exact splitSuffix_toDigits n

/-- **A size text reads as its size**, with any blanks behind it. -/
theorem parseCacheSize_text {suffix tail : List Char} {mult : U64} {n : Nat}
    (h : (suffix, mult) ∈ cacheSuffixes) (hn : n < 2 ^ 64)
    (htail : ∀ c ∈ tail, isWhiteSpace c = true) :
    parseCacheSize (Nat.toDigits 10 n ++ suffix ++ tail) = some (BitVec.ofNat 64 n * mult) := by
  have hsuffix : ∀ c ∈ suffix, isWhiteSpace c = false := by
    simp only [cacheSuffixes, List.mem_cons, List.not_mem_nil, or_false, Prod.mk.injEq] at h
    rcases h with ⟨rfl, -⟩ | ⟨rfl, -⟩ | ⟨rfl, -⟩ | ⟨rfl, -⟩ <;> simp [isWhiteSpace]
  have hplain : ∀ c ∈ Nat.toDigits 10 n ++ suffix, isWhiteSpace c = false := by
    intro c hc
    rcases List.mem_append.mp hc with hc | hc
    · exact toDigits_not_blank n c hc
    · exact hsuffix c hc
  have hne : Nat.toDigits 10 n ++ suffix ≠ [] := by
    intro hnil
    exact Nat.toDigits_ne_nil (List.append_eq_nil_iff.mp hnil).1
  rw [parseCacheSize, Decimal.trim_append hne hplain htail, splitSuffix_append h, parseU64,
    Decimal.trim_self Nat.toDigits_ne_nil (toDigits_not_blank n), Decimal.read_toDigits hn]
  rfl

/-! ## The last-level cache of a CPU -/

/-- An entry of `cpuN/cache`, with the texts of its files. -/
structure CacheIndex where
  name : Option (List Char)
  level : Option (List Char)
  id : Option (List Char)
  size : Option (List Char)

/-- The level and the size of an entry, unless it is skipped. -/
def readIndex (llcId : Option Nat) (entry : CacheIndex) : Option (Nat × U64) :=
  match entry.name with
  | none => none
  | some name =>
      if "index".toList.isPrefixOf name = false then none
      else match entry.level.bind parseU64 with
        | none => none
        | some level =>
            let id := entry.id.bind parseU64
            if llcId.isSome ∧ id.isSome ∧ id ≠ llcId then none
            else (entry.size.bind parseCacheSize).map fun size => (level, size)

/-- At least as deep. -/
def Deeper (x y : Nat × U64) : Prop := y.1 ≤ x.1

instance : DecidableRel Deeper := fun x y => inferInstanceAs (Decidable (y.1 ≤ x.1))
instance : Std.Total Deeper := ⟨fun x y => Nat.le_total y.1 x.1⟩
instance : IsTrans (Nat × U64) Deeper := ⟨fun _ _ _ hxy hyz => Nat.le_trans hyz hxy⟩

/-- What `llc_size_bytes` reads of a CPU. -/
structure CacheDir where
  /-- The text of `topology/llc_id`. -/
  llcId : Option (List Char) := none
  /-- The entries of the directory, none when it cannot be read. -/
  entries : Option (List CacheIndex) := none

/-- The deepest index so far, over the entries in order. -/
def bestIndex (llcId : Option Nat) (entries : List CacheIndex) : Option (Nat × U64) :=
  (entries.filterMap (readIndex llcId)).foldl (improve Deeper fun _ => true) none

/-- `llc_size_bytes`. -/
def llcSizeBytes (cache : CacheDir) : Option U64 :=
  match cache.entries with
  | none => none
  | some entries => (bestIndex (cache.llcId.bind parseU64) entries).map Prod.snd

/-- **The size of a CPU is that of the deepest cache** among the entries
that can be read and do not name another domain. -/
theorem llcSizeBytes_deepest {cache : CacheDir} {size : U64} (h : llcSizeBytes cache = some size) :
    ∃ entries level, cache.entries = some entries
      ∧ (∃ e ∈ entries, readIndex (cache.llcId.bind parseU64) e = some (level, size))
      ∧ ∀ e ∈ entries, ∀ x, readIndex (cache.llcId.bind parseU64) e = some x → x.1 ≤ level := by
  unfold llcSizeBytes at h
  split at h
  · cases h
  · rename_i entries hentries
    obtain ⟨best, hbest, rfl⟩ := Option.map_eq_some_iff.mp h
    have hscan := @isBest_foldl _ Deeper _ (fun _ => true) _ _
      (entries.filterMap (readIndex (cache.llcId.bind parseU64)))
    rw [bestIndex] at hbest
    rw [hbest] at hscan
    obtain ⟨hmem, hmax⟩ := hscan
    refine ⟨entries, best.1, hentries, List.mem_filterMap.mp hmem.1, fun e he x hx => ?_⟩
    exact hmax x ⟨List.mem_filterMap.mpr ⟨e, he, hx⟩, rfl⟩

/-! ## The largest domain -/

/-- `pick_largest_llc`. -/
def pickLargestLlc (sizes : List Nat) (nrLlcs : Nat) : Option Nat :=
  if nrLlcs < 2 then none
  else
    let window := sizes.take (min nrLlcs sizes.length)
    match window.max? with
    | none => none
    | some max => Lone.lone (fun s => decide (s = max)) window

/-- **The pick is the strict maximum.** -/
theorem pickLargestLlc_eq_some {sizes : List Nat} {nrLlcs llc : Nat} :
    pickLargestLlc sizes nrLlcs = some llc
      ↔ 2 ≤ nrLlcs ∧ llc < nrLlcs ∧ ∃ size, sizes[llc]? = some size
        ∧ ∀ i < nrLlcs, ∀ s, sizes[i]? = some s → i ≠ llc → s < size := by
  have hread (i : Nat) : (sizes.take (min nrLlcs sizes.length))[i]?
      = if i < nrLlcs then sizes[i]? else none := by
    rw [List.getElem?_take]
    by_cases hi : i < nrLlcs
    · rw [if_pos hi]
      split
      · rfl
      · exact (List.getElem?_eq_none (by omega)).symm
    · rw [if_neg hi, if_neg (by omega)]
  have hmem {s : Nat} : s ∈ sizes.take (min nrLlcs sizes.length)
      ↔ ∃ i, i < nrLlcs ∧ sizes[i]? = some s := by
    rw [List.mem_iff_getElem?]
    simp only [hread]
    constructor
    · intro h
      obtain ⟨i, hi⟩ := h
      split at hi
      · rename_i hlt
        exact ⟨i, hlt, hi⟩
      · cases hi
    · intro h
      obtain ⟨i, hlt, hi⟩ := h
      exact ⟨i, by rw [if_pos hlt, hi]⟩
  unfold pickLargestLlc
  by_cases hfew : nrLlcs < 2
  · rw [if_pos hfew]
    constructor
    · intro h
      cases h
    · intro h
      omega
  rw [if_neg hfew]
  simp only
  split
  · rename_i hmax
    constructor
    · intro h
      cases h
    · intro h
      obtain ⟨-, hlt, size, hsize, -⟩ := h
      have hin := hmem.mpr ⟨llc, hlt, hsize⟩
      rw [List.max?_eq_none_iff.mp hmax] at hin
      exact absurd hin List.not_mem_nil
  · rename_i max hmax
    obtain ⟨hin, hle⟩ := List.max?_eq_some_iff.mp hmax
    simp only [Lone.lone_eq_some, hread, decide_eq_true_eq]
    constructor
    · intro h
      obtain ⟨⟨size, hsize, rfl⟩, honly⟩ := h
      split at hsize
      · rename_i hlt
        refine ⟨by omega, hlt, size, hsize, fun i hi s hs hne => ?_⟩
        have hsle := hle s (hmem.mpr ⟨i, hi, hs⟩)
        have hsne : s ≠ size := fun heq => hne (honly i s (by rw [if_pos hi, hs]) heq)
        omega
      · cases hsize
    · intro h
      obtain ⟨-, hlt, size, hsize, hless⟩ := h
      obtain ⟨k, hk, hkmax⟩ := hmem.mp hin
      have hsle := hle size (hmem.mpr ⟨llc, hlt, hsize⟩)
      have heq : size = max := by
        by_cases hkl : k = llc
        · rw [hkl, hsize] at hkmax
          exact Option.some.inj hkmax
        · have hlt := hless k hk max hkmax hkl
          omega
      refine ⟨⟨size, by rw [if_pos hlt, hsize], heq⟩, fun i s hs hsmax => ?_⟩
      split at hs
      · rename_i hi
        by_contra hne
        have hlt := hless i hi s hs hne
        omega
      · cases hs

end ScxMlfq
