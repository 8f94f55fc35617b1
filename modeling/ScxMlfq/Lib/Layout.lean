import Mathlib.Data.BitVec
import Mathlib.Data.List.OfFn
import Mathlib.Tactic.Ring

/-!
# Layout — values in memory

How values of a type lie in memory: a fixed number of bytes, a write and
a read, and that a read finds what was written whatever lies behind it.
Words are written in either byte order. Layouts are put side by side,
repeated in arrays and carried along a coding of one type in another, so
that a structure has the layout of its fields in order.
-/

namespace ScxMlfq

/-- A byte. -/
abbrev Byte := BitVec 8

/-- The order of the bytes of a word. -/
inductive ByteOrder where
  | little
  | big
deriving DecidableEq, Repr

/-! ## Words -/

/-- The `n` low bytes of a number, least significant first. -/
def leBytes : Nat → Nat → List Byte
  | 0, _ => []
  | n + 1, v => BitVec.ofNat 8 v :: leBytes n (v / 256)

/-- The number of a list of bytes, least significant first. -/
def leValue : List Byte → Nat
  | [] => 0
  | b :: bytes => b.toNat + 256 * leValue bytes

@[simp] theorem length_leBytes (n v : Nat) : (leBytes n v).length = n := by
  induction n generalizing v with
  | zero => rfl
  | succ n ih => rw [leBytes, List.length_cons, ih]

theorem leValue_leBytes (n v : Nat) : leValue (leBytes n v) = v % 256 ^ n := by
  induction n generalizing v with
  | zero => rw [Nat.pow_zero, Nat.mod_one]; rfl
  | succ n ih =>
      have hpow : 256 ^ (n + 1) = 256 * 256 ^ n := by rw [Nat.pow_succ, Nat.mul_comm]
      rw [leBytes, leValue, ih, BitVec.toNat_ofNat, hpow, Nat.mod_mul]

/-- The bytes of the number of a list of bytes. -/
theorem leBytes_leValue (bs : List Byte) : leBytes bs.length (leValue bs) = bs := by
  induction bs with
  | nil => rfl
  | cons b bs ih =>
      have hb := b.isLt
      have hlow : BitVec.ofNat 8 (b.toNat + 256 * leValue bs) = b := by
        apply BitVec.eq_of_toNat_eq
        rw [BitVec.toNat_ofNat]
        omega
      rw [List.length_cons, leValue, leBytes, hlow,
        show (b.toNat + 256 * leValue bs) / 256 = leValue bs by omega, ih]

theorem leValue_lt (bs : List Byte) : leValue bs < 256 ^ bs.length := by
  induction bs with
  | nil => decide
  | cons b bs ih =>
      have hb := b.isLt
      rw [leValue, List.length_cons, Nat.pow_succ]
      omega

namespace ByteOrder

/-- The `n` low bytes of a number as they lie in memory. -/
def bytes : ByteOrder → Nat → Nat → List Byte
  | little, n, v => leBytes n v
  | big, n, v => (leBytes n v).reverse

/-- The number of the bytes in memory. -/
def value : ByteOrder → List Byte → Nat
  | little, bs => leValue bs
  | big, bs => leValue bs.reverse

@[simp] theorem length_bytes (order : ByteOrder) (n v : Nat) :
    (order.bytes n v).length = n := by
  cases order with
  | little => exact length_leBytes n v
  | big => rw [bytes, List.length_reverse, length_leBytes]

theorem value_bytes (order : ByteOrder) (n v : Nat) :
    order.value (order.bytes n v) = v % 256 ^ n := by
  cases order with
  | little => exact leValue_leBytes n v
  | big => rw [bytes, value, List.reverse_reverse, leValue_leBytes]

theorem bytes_value (order : ByteOrder) (bs : List Byte) :
    order.bytes bs.length (order.value bs) = bs := by
  cases order with
  | little => exact leBytes_leValue bs
  | big =>
      have h := leBytes_leValue bs.reverse
      rw [List.length_reverse] at h
      rw [bytes, value, h, List.reverse_reverse]

theorem value_lt (order : ByteOrder) (bs : List Byte) : order.value bs < 256 ^ bs.length := by
  cases order with
  | little => exact leValue_lt bs
  | big =>
      have h := leValue_lt bs.reverse
      rwa [List.length_reverse] at h

end ByteOrder

/-! ## Layouts -/

/-- A layout of the values of `α` in memory. -/
structure Layout (α : Type*) where
  size : Nat
  write : α → List Byte
  read : List Byte → α
  size_write : ∀ x, (write x).length = size
  read_write : ∀ x rest, read (write x ++ rest) = x

namespace Layout

variable {α β : Type*}

/-- A read finds what was written. -/
@[simp] theorem read_write_self (l : Layout α) (x : α) : l.read (l.write x) = x := by
  have h := l.read_write x []
  rwa [List.append_nil] at h

/-- A word of `n` bytes. -/
def word (order : ByteOrder) {w : Nat} (n : Nat) (h : w = 8 * n) : Layout (BitVec w) where
  size := n
  write v := order.bytes n v.toNat
  read bs := BitVec.ofNat w (order.value (bs.take n))
  size_write v := order.length_bytes n v.toNat
  read_write v rest := by
    have htake : (order.bytes n v.toNat ++ rest).take n = order.bytes n v.toNat := by
      rw [List.take_append_of_le_length (Nat.le_of_eq (order.length_bytes n _).symm)]
      exact List.take_of_length_le (Nat.le_of_eq (order.length_bytes n _))
    have hbound : v.toNat < 256 ^ n := by
      have hw : 2 ^ w = 256 ^ n := by rw [h, Nat.pow_mul]
      rw [← hw]
      exact v.isLt
    rw [htake, order.value_bytes, Nat.mod_eq_of_lt hbound, BitVec.ofNat_toNat,
      BitVec.setWidth_eq]

/-- Bytes that carry nothing: written as zero, read as nothing. -/
def pad (n : Nat) : Layout Unit where
  size := n
  write _ := List.replicate n 0
  read _ := ()
  size_write _ := List.length_replicate
  read_write _ _ := rfl

/-- One layout behind another. -/
def seq (l : Layout α) (m : Layout β) : Layout (α × β) where
  size := l.size + m.size
  write x := l.write x.1 ++ m.write x.2
  read bs := (l.read bs, m.read (bs.drop l.size))
  size_write x := by rw [List.length_append, l.size_write, m.size_write]
  read_write x rest := by
    have hdrop : (l.write x.1 ++ (m.write x.2 ++ rest)).drop l.size = m.write x.2 ++ rest := by
      rw [← l.size_write x.1, List.drop_left]
    rw [List.append_assoc, l.read_write, hdrop, m.read_write]

/-- The layout of a type coded in another. -/
def coded (l : Layout α) (code : β → α) (decode : α → β) (h : ∀ x, decode (code x) = x) :
    Layout β where
  size := l.size
  write x := l.write (code x)
  read bs := decode (l.read bs)
  size_write x := l.size_write (code x)
  read_write x rest := by rw [l.read_write, h]

/-! ## Arrays -/

/-- The bytes of a list of values, one behind the other. -/
def writeList (l : Layout α) (xs : List α) : List Byte := xs.flatMap l.write

theorem length_writeList (l : Layout α) (xs : List α) :
    (l.writeList xs).length = xs.length * l.size := by
  induction xs with
  | nil => rw [writeList, List.flatMap_nil, List.length_nil, List.length_nil, Nat.zero_mul]
  | cons x xs ih =>
      rw [writeList] at ih ⊢
      rw [List.flatMap_cons, List.length_append, l.size_write, ih, List.length_cons,
        Nat.succ_mul, Nat.add_comm]

/-- Element `i` lies at `i` sizes from the start. -/
theorem drop_writeList (l : Layout α) (xs : List α) (rest : List Byte) {i : Nat}
    (h : i ≤ xs.length) :
    (l.writeList xs ++ rest).drop (i * l.size) = l.writeList (xs.drop i) ++ rest := by
  induction xs generalizing i with
  | nil =>
      obtain rfl := Nat.le_zero.mp h
      rw [Nat.zero_mul]
      rfl
  | cons x xs ih =>
      cases i with
      | zero =>
          rw [Nat.zero_mul]
          rfl
      | succ i =>
          have hcons : l.writeList (x :: xs) = l.write x ++ l.writeList xs := List.flatMap_cons
          have hoff : (i + 1) * l.size = l.size + i * l.size := by ring
          rw [hcons, hoff, ← List.drop_drop, List.append_assoc, ← l.size_write x,
            List.drop_left, l.size_write x, ih (Nat.le_of_succ_le_succ h), List.drop_succ_cons]

/-- The element at a place of the array. -/
theorem read_writeList (l : Layout α) (xs : List α) (rest : List Byte) {i : Nat}
    (h : i < xs.length) : l.read ((l.writeList xs ++ rest).drop (i * l.size)) = xs[i] := by
  have hcons : xs.drop i = xs[i] :: xs.drop (i + 1) := List.drop_eq_getElem_cons h
  have hwrite : l.writeList (xs.drop i) = l.write xs[i] ++ l.writeList (xs.drop (i + 1)) := by
    rw [hcons]
    exact List.flatMap_cons
  rw [l.drop_writeList xs rest (Nat.le_of_lt h), hwrite, List.append_assoc, l.read_write]

/-- An array of `n` values. -/
def array (l : Layout α) (n : Nat) : Layout (Fin n → α) where
  size := n * l.size
  write f := l.writeList (List.ofFn f)
  read bs i := l.read (bs.drop (i * l.size))
  size_write f := by rw [l.length_writeList, List.length_ofFn]
  read_write f rest := by
    funext i
    rw [l.read_writeList (List.ofFn f) rest (by rw [List.length_ofFn]; exact i.isLt)]
    exact List.getElem_ofFn _

/-! ## The bytes that carry a value -/

/-- The bytes `live` tells carry the value: writing back what was read
leaves them as they were. The others are pads. -/
def Carries (l : Layout α) (live : Nat → Bool) : Prop :=
  ∀ data : List Byte, l.size ≤ data.length → ∀ i < l.size, live i = true →
    (l.write (l.read data))[i]? = data[i]?

/-- Every byte of a word carries it. -/
theorem carries_word (order : ByteOrder) {w : Nat} (n : Nat) (h : w = 8 * n) :
    (word order n h).Carries fun _ => true := by
  intro data hlen i hi _
  have htake : (data.take n).length = n := by
    rw [List.length_take]
    exact Nat.min_eq_left hlen
  have hvalue : (BitVec.ofNat w (order.value (data.take n))).toNat
      = order.value (data.take n) := by
    have hlt := order.value_lt (data.take n)
    rw [htake] at hlt
    rw [BitVec.toNat_ofNat, h, Nat.pow_mul]
    exact Nat.mod_eq_of_lt hlt
  have hbytes := order.bytes_value (data.take n)
  rw [htake] at hbytes
  show (order.bytes n (BitVec.ofNat w (order.value (data.take n))).toNat)[i]? = data[i]?
  rw [hvalue, hbytes]
  exact List.getElem?_take_of_lt hi

theorem carries_pad (n : Nat) : (pad n).Carries fun _ => false :=
  fun _ _ _ _ hlive => absurd hlive Bool.false_ne_true

theorem Carries.mono {l : Layout α} {p q : Nat → Bool} (h : l.Carries p)
    (hpq : ∀ i < l.size, q i = true → p i = true) : l.Carries q :=
  fun data hlen i hi hlive => h data hlen i hi (hpq i hi hlive)

/-- Side by side each layout keeps its own bytes. -/
theorem Carries.seq {l : Layout α} {m : Layout β} {p q : Nat → Bool} (hl : l.Carries p)
    (hm : m.Carries q) :
    (l.seq m).Carries fun i => if i < l.size then p i else q (i - l.size) := by
  intro data hlen i hi hlive
  have hsize : (l.seq m).size = l.size + m.size := rfl
  have hwrite : ((l.seq m).write ((l.seq m).read data))
      = l.write (l.read data) ++ m.write (m.read (data.drop l.size)) := rfl
  rw [hwrite]
  simp only at hlive
  by_cases hside : i < l.size
  · rw [if_pos hside] at hlive
    rw [List.getElem?_append_left (by rw [l.size_write]; exact hside)]
    exact hl data (by omega) i hside hlive
  · rw [if_neg hside] at hlive
    rw [List.getElem?_append_right (by rw [l.size_write]; omega), l.size_write,
      hm (data.drop l.size) (by rw [List.length_drop]; omega) _ (by omega) hlive,
      List.getElem?_drop, Nat.add_sub_cancel' (by omega)]

/-- A coding that loses nothing keeps the bytes. -/
theorem Carries.coded {l : Layout α} {live : Nat → Bool} (hl : l.Carries live) {code : β → α}
    {decode : α → β} (h : ∀ x, decode (code x) = x) (hback : ∀ y, code (decode y) = y) :
    (l.coded code decode h).Carries live := by
  intro data hlen i hi hlive
  show (l.write (code (decode (l.read data))))[i]? = data[i]?
  rw [hback]
  exact hl data hlen i hi hlive

end Layout

end ScxMlfq
