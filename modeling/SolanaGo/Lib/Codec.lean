/-
Byte codecs: what it means for a decoder to undo an encoder, and for an encoder
to be the only source of what a decoder accepts.

A decoder here has the shape every hand-written wire reader has: it takes the
bytes that are left, and returns a value together with the bytes it did not
read, or an error. Two laws relate it to an encoder, and they are the whole
interface of this file:

* `Inverts`: decoding an encoding followed by *any* tail gives the value back
  and leaves exactly the tail. The tail is quantified because a reader is never
  run on its own encoding alone, only on the front of a longer buffer.
* `Canonical`: whatever the decoder accepts is the encoding of the value it
  returned, followed by what it left. No second encoding of a value exists.

Both are closed under counted repetition, which is how every list on the wire
is read once its length prefix is known; fixed-size byte arrays are the leaves.
-/
import Mathlib.Data.List.Basic
import Mathlib.Tactic.Ring

set_option autoImplicit false

namespace Codec

/-- A byte string. -/
abbrev Bytes := List UInt8

/-- A decoder reads a value off the front of its input and returns it with the
unread remainder. -/
abbrev Decoder (ε α : Type) := Bytes → Except ε (α × Bytes)

/-! ## Little-endian numbers -/

/-- The number whose bytes are given, least significant first. -/
def leValue : Bytes → ℕ
  | [] => 0
  | b :: bs => b.toNat + 256 * leValue bs

/-- The `k` low bytes of a number, least significant first. -/
def leBytes : (k n : ℕ) → Bytes
  | 0, _ => []
  | k + 1, n => UInt8.ofNat n :: leBytes k (n / 256)

@[simp] theorem length_leBytes (k n : ℕ) : (leBytes k n).length = k := by
  induction k generalizing n with
  | zero => rfl
  | succ k ih => rw [leBytes, List.length_cons, ih]

theorem leValue_leBytes (k n : ℕ) : leValue (leBytes k n) = n % 256 ^ k := by
  induction k generalizing n with
  | zero => rw [leBytes, leValue, Nat.pow_zero, Nat.mod_one]
  | succ k ih =>
    have hlow : (UInt8.ofNat n).toNat = n % 256 := UInt8.toNat_ofNat'
    rw [leBytes, leValue, ih, hlow, Nat.pow_succ', Nat.mod_mul]

theorem leBytes_leValue (bs : Bytes) : leBytes bs.length (leValue bs) = bs := by
  induction bs with
  | nil => rfl
  | cons b bs ih =>
    have hlow : UInt8.ofNat (b.toNat + 256 * leValue bs) = b := by
      rw [← UInt8.toNat_inj, UInt8.toNat_ofNat']
      have hb := b.toNat_lt
      omega
    have hhigh : (b.toNat + 256 * leValue bs) / 256 = leValue bs := by
      have hb := b.toNat_lt
      omega
    rw [List.length_cons, leValue, leBytes, hlow, hhigh, ih]

theorem leValue_lt (bs : Bytes) : leValue bs < 256 ^ bs.length := by
  induction bs with
  | nil => exact Nat.one_pos
  | cons b bs ih =>
    have hb := b.toNat_lt
    rw [leValue, List.length_cons, Nat.pow_succ]
    omega

/-! ## The two laws -/

section Laws

variable {ε α : Type}

/-- `dec` undoes `enc` on the values satisfying `P`, whatever follows. -/
def Inverts (P : α → Prop) (enc : α → Bytes) (dec : Decoder ε α) : Prop :=
  ∀ a t, P a → dec (enc a ++ t) = .ok (a, t)

/-- Everything `dec` accepts is the encoding of a value satisfying `P`, followed
by what `dec` left unread. -/
def Canonical (P : α → Prop) (enc : α → Bytes) (dec : Decoder ε α) : Prop :=
  ∀ d a r, dec d = .ok (a, r) → P a ∧ d = enc a ++ r

/-- A successful bind is two successes. With `guard_eq_ok` it takes every `do` block
below apart. -/
theorem bind_eq_ok {β : Type} {x : Except ε α} {f : α → Except ε β} {b : β} :
    (x >>= f) = .ok b ↔ ∃ a, x = .ok a ∧ f a = .ok b := by
  cases x with
  | error e => simp [bind, Except.bind]
  | ok a => simp [bind, Except.bind]

/-- A passed guard. -/
theorem guard_eq_ok {c : Prop} [Decidable c] {e : ε} {x : Except ε α} {a : α} :
    (if c then .error e else x) = .ok a ↔ ¬ c ∧ x = .ok a := by
  by_cases hc : c
  · simp [hc]
  · simp [hc]

@[simp] theorem ok_bind {β : Type} (a : α) (f : α → Except ε β) :
    ((Except.ok a : Except ε α) >>= f) = f a := rfl

@[simp] theorem error_bind {β : Type} (e : ε) (f : α → Except ε β) :
    ((Except.error e : Except ε α) >>= f) = .error e := rfl

end Laws

/-! ## Fixed-size arrays -/

/-- An array of exactly `n` bytes. -/
def ByteArr (n : ℕ) : Type := { l : Bytes // l.length = n }

namespace ByteArr

variable {n : ℕ}

instance : DecidableEq (ByteArr n) := inferInstanceAs (DecidableEq { l : Bytes // l.length = n })

/-- The bytes of the array. -/
def toList (a : ByteArr n) : Bytes := a.1

@[simp] theorem length_toList (a : ByteArr n) : a.toList.length = n := a.2

@[ext] theorem ext {a b : ByteArr n} (h : a.toList = b.toList) : a = b := Subtype.ext h

/-- The all-zero array. -/
def zero (n : ℕ) : ByteArr n := ⟨List.replicate n 0, List.length_replicate⟩

instance : Inhabited (ByteArr n) := ⟨zero n⟩

/-- Copy from the front of `src` into a zeroed array: at most `n` bytes are
copied, and a shorter source leaves the rest zero. -/
def copyFrom (n : ℕ) (src : Bytes) : ByteArr n :=
  ⟨src.take n ++ List.replicate (n - src.length) 0, by
    rw [List.length_append, List.length_take, List.length_replicate]; omega⟩

theorem toList_copyFrom {src : Bytes} (h : n ≤ src.length) :
    (copyFrom n src).toList = src.take n := by
  show src.take n ++ List.replicate (n - src.length) 0 = src.take n
  rw [Nat.sub_eq_zero_of_le h, List.replicate_zero, List.append_nil]

@[simp] theorem copyFrom_append (a : ByteArr n) (t : Bytes) : copyFrom n (a.toList ++ t) = a := by
  ext1
  rw [toList_copyFrom (by rw [List.length_append, length_toList]; omega)]
  exact List.take_left' a.2

@[simp] theorem copyFrom_toList (a : ByteArr n) : copyFrom n a.toList = a := by
  have h := copyFrom_append a []
  rwa [List.append_nil] at h

end ByteArr

/-- The arrays `count` consecutive reads at offsets `0, n, 2n, …` find. -/
def splitArrays (n count : ℕ) (data : Bytes) : List (ByteArr n) :=
  (List.range count).map fun i => ByteArr.copyFrom n (data.drop (i * n))

/-- The concatenated bytes of a list of arrays. -/
def joinArrays {n : ℕ} (as : List (ByteArr n)) : Bytes := as.flatMap ByteArr.toList

section Arrays

variable {n : ℕ}

@[simp] theorem joinArrays_nil : joinArrays ([] : List (ByteArr n)) = [] := rfl

@[simp] theorem joinArrays_cons (a : ByteArr n) (as : List (ByteArr n)) :
    joinArrays (a :: as) = a.toList ++ joinArrays as := List.flatMap_cons

theorem joinArrays_append (as bs : List (ByteArr n)) :
    joinArrays (as ++ bs) = joinArrays as ++ joinArrays bs := List.flatMap_append

@[simp] theorem length_joinArrays (as : List (ByteArr n)) :
    (joinArrays as).length = n * as.length := by
  induction as with
  | nil => simp
  | cons a as ih =>
    rw [joinArrays_cons, List.length_append, ByteArr.length_toList, ih, List.length_cons]
    ring

@[simp] theorem length_splitArrays (n count : ℕ) (data : Bytes) :
    (splitArrays n count data).length = count := by
  rw [splitArrays, List.length_map, List.length_range]

/-- Peeling off the first read: the later offsets are the same offsets past it. -/
theorem splitArrays_succ (n count : ℕ) (data : Bytes) :
    splitArrays n (count + 1) data
      = ByteArr.copyFrom n data :: splitArrays n count (data.drop n) := by
  rw [splitArrays, List.range_succ_eq_map, List.map_cons, List.map_map, Nat.zero_mul,
    List.drop_zero, splitArrays]
  refine congrArg _ (List.map_congr_left fun i _ => ?_)
  simp only [Function.comp_apply, List.drop_drop]
  rw [Nat.succ_mul, Nat.add_comm]

/-- Splitting a concatenation gives the arrays back. -/
theorem splitArrays_joinArrays (as : List (ByteArr n)) (t : Bytes) :
    splitArrays n as.length (joinArrays as ++ t) = as := by
  induction as with
  | nil => rfl
  | cons a as ih =>
    rw [List.length_cons, splitArrays_succ, joinArrays_cons, List.append_assoc,
      ByteArr.copyFrom_append, List.drop_left' a.length_toList, ih]

/-- Joining what was split gives the bytes back, provided they were all there. -/
theorem joinArrays_splitArrays (count : ℕ) (data : Bytes) (h : n * count ≤ data.length) :
    joinArrays (splitArrays n count data) = data.take (n * count) := by
  induction count generalizing data with
  | zero => simp [splitArrays]
  | succ count ih =>
    have hn : n * (count + 1) = n + n * count := by ring
    rw [splitArrays_succ, joinArrays_cons, ByteArr.toList_copyFrom (by omega),
      ih (data.drop n) (by rw [List.length_drop]; omega), hn, List.take_add]

end Arrays

/-! ## Counted repetition -/

section Repeat

variable {ε α : Type}

/-- Decode `count` values one after the other. `dec` is told the index of the
value it reads, which a reader uses only to name it in an error. -/
def decodeRepeat (dec : ℕ → Decoder ε α) : ℕ → ℕ → Decoder ε (List α)
  | _, 0, data => .ok ([], data)
  | i, count + 1, data => do
    let (a, data) ← dec i data
    let (as, data) ← decodeRepeat dec (i + 1) count data
    .ok (a :: as, data)

/-- The concatenated encodings of a list. -/
def encodeAll (enc : α → Bytes) (as : List α) : Bytes := as.flatMap enc

@[simp] theorem encodeAll_nil (enc : α → Bytes) : encodeAll enc [] = [] := rfl

@[simp] theorem encodeAll_cons (enc : α → Bytes) (a : α) (as : List α) :
    encodeAll enc (a :: as) = enc a ++ encodeAll enc as := List.flatMap_cons

theorem length_encodeAll (enc : α → Bytes) (as : List α) :
    (encodeAll enc as).length = (as.map fun a => (enc a).length).sum := by
  rw [encodeAll, List.length_flatMap]

variable {P : α → Prop} {enc : α → Bytes} {dec : ℕ → Decoder ε α}

/-- Reading back a counted list, at any starting index. -/
theorem decodeRepeat_encodeAll (hdec : ∀ i, Inverts P enc (dec i)) (as : List α)
    (has : ∀ a ∈ as, P a) (i : ℕ) (t : Bytes) :
    decodeRepeat dec i as.length (encodeAll enc as ++ t) = .ok (as, t) := by
  induction as generalizing i with
  | nil => rfl
  | cons a as ih =>
    have ha : P a := has a (List.mem_cons_self ..)
    have htail : ∀ x ∈ as, P x := fun x hx => has x (List.mem_cons_of_mem a hx)
    rw [List.length_cons, decodeRepeat, encodeAll_cons, List.append_assoc, hdec i a _ ha]
    simp only [ok_bind]
    rw [ih htail (i + 1)]
    rfl

/-- A counted list that was accepted is `count` encodings in a row. -/
theorem decodeRepeat_canonical (hdec : ∀ i, Canonical P enc (dec i)) (count i : ℕ)
    (d r : Bytes) (as : List α) (h : decodeRepeat dec i count d = .ok (as, r)) :
    as.length = count ∧ (∀ a ∈ as, P a) ∧ d = encodeAll enc as ++ r := by
  induction count generalizing i d as with
  | zero =>
    simp only [decodeRepeat, Except.ok.injEq, Prod.mk.injEq] at h
    obtain ⟨rfl, rfl⟩ := h
    exact ⟨rfl, by simp, rfl⟩
  | succ count ih =>
    rw [decodeRepeat, bind_eq_ok] at h
    obtain ⟨⟨a, d'⟩, ha, h⟩ := h
    rw [bind_eq_ok] at h
    obtain ⟨⟨as', r'⟩, has, h⟩ := h
    simp only [Except.ok.injEq, Prod.mk.injEq] at h
    obtain ⟨rfl, rfl⟩ := h
    obtain ⟨hPa, hd⟩ := hdec i _ _ _ ha
    obtain ⟨hlen, hP, hd'⟩ := ih (i + 1) d' as' has
    refine ⟨by rw [List.length_cons, hlen], ?_, ?_⟩
    · intro x hx
      rcases List.mem_cons.mp hx with rfl | hx
      · exact hPa
      · exact hP x hx
    · rw [hd, hd', encodeAll_cons, List.append_assoc]

end Repeat

end Codec
