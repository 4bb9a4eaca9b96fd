/-
Base64: three bytes as four letters of sixty-four.

A group of three bytes is a number of 24 bits, written out in base 64. The last group may be
short: one byte takes two letters and two signs of padding, two bytes take three letters and
one. The text needs no escape inside a JSON string.
-/
import SolanaGo.Lib.Codec

set_option autoImplicit false

namespace Base64

open Codec (Bytes)

/-- The letters of the standard alphabet: `A` to `Z`, `a` to `z`, the digits, `+` and `/`. -/
def alphabet : Bytes :=
  [65, 66, 67, 68, 69, 70, 71, 72, 73, 74, 75, 76, 77, 78, 79, 80, 81, 82, 83, 84, 85, 86, 87, 88,
    89, 90, 97, 98, 99, 100, 101, 102, 103, 104, 105, 106, 107, 108, 109, 110, 111, 112, 113, 114,
    115, 116, 117, 118, 119, 120, 121, 122, 48, 49, 50, 51, 52, 53, 54, 55, 56, 57, 43, 47]

/-- The sign of padding, `=`. -/
def pad : UInt8 := 61

/-- The letter of the `k`-th digit, from the right, of a group. -/
def letter (group k : ℕ) : UInt8 := alphabet.getD (group / 64 ^ k % 64) 65

/-- The number of a group of three bytes. -/
def group (a b c : UInt8) : ℕ := (a.toNat * 256 + b.toNat) * 256 + c.toNat

/-- The base64 text of a byte string. -/
def encode : Bytes → Bytes
  | [] => []
  | [a] => [letter (group a 0 0) 3, letter (group a 0 0) 2, pad, pad]
  | [a, b] => [letter (group a b 0) 3, letter (group a b 0) 2, letter (group a b 0) 1, pad]
  | a :: b :: c :: bs =>
    letter (group a b c) 3 :: letter (group a b c) 2 :: letter (group a b c) 1
      :: letter (group a b c) 0 :: encode bs

/-- The number of four letters. -/
def ungroup (p q r s : UInt8) : ℕ :=
  ((alphabet.idxOf p * 64 + alphabet.idxOf q) * 64 + alphabet.idxOf r) * 64 + alphabet.idxOf s

/-- The `k`-th byte, from the right, of a group. -/
def byte (group k : ℕ) : UInt8 := UInt8.ofNat (group / 256 ^ k)

/-- The byte string of a base64 text. -/
def decode : Bytes → Option Bytes
  | [] => some []
  | p :: q :: r :: s :: text =>
    if p ∈ alphabet ∧ q ∈ alphabet then
      if r ∈ alphabet ∧ s ∈ alphabet then
        (decode text).map fun bs =>
          byte (ungroup p q r s) 2 :: byte (ungroup p q r s) 1 :: byte (ungroup p q r s) 0 :: bs
      else if text = [] ∧ s = pad then
        -- what is under the padding counts as zero
        if r ∈ alphabet then some [byte (ungroup p q r 65) 2, byte (ungroup p q r 65) 1]
        else if r = pad then some [byte (ungroup p q 65 65) 2]
        else none
      else none
    else none
  | _ => none

theorem encode_nil : encode [] = [] := rfl

theorem digit_lt (n k : ℕ) : n / 64 ^ k % 64 < 64 := Nat.mod_lt _ (by decide)

theorem letter_mem (n k : ℕ) : letter n k ∈ alphabet := by
  have hall : ∀ d < 64, alphabet.getD d 65 ∈ alphabet := by decide
  exact hall _ (digit_lt n k)

theorem idxOf_letter (n k : ℕ) : alphabet.idxOf (letter n k) = n / 64 ^ k % 64 := by
  have hall : ∀ d < 64, alphabet.idxOf (alphabet.getD d 65) = d := by decide
  exact hall _ (digit_lt n k)

theorem encode_mem (bs : Bytes) : ∀ c ∈ encode bs, c ∈ alphabet ∨ c = pad := by
  intro c hc
  induction bs using encode.induct with
  | case1 => cases hc
  | case2 a =>
    simp only [encode, List.mem_cons, List.not_mem_nil, or_false] at hc
    rcases hc with rfl | rfl | rfl | rfl
    · exact .inl (letter_mem _ _)
    · exact .inl (letter_mem _ _)
    · exact .inr rfl
    · exact .inr rfl
  | case3 a b =>
    simp only [encode, List.mem_cons, List.not_mem_nil, or_false] at hc
    rcases hc with rfl | rfl | rfl | rfl
    · exact .inl (letter_mem _ _)
    · exact .inl (letter_mem _ _)
    · exact .inl (letter_mem _ _)
    · exact .inr rfl
  | case4 a b c bs ih =>
    simp only [encode, List.mem_cons] at hc
    rcases hc with rfl | rfl | rfl | rfl | hc
    · exact .inl (letter_mem _ _)
    · exact .inl (letter_mem _ _)
    · exact .inl (letter_mem _ _)
    · exact .inl (letter_mem _ _)
    · exact ih hc

theorem group_lt (a b c : UInt8) : group a b c < 64 ^ 4 := by
  have ha := a.toNat_lt
  have hb := b.toNat_lt
  have hc := c.toNat_lt
  unfold group
  omega

theorem digits_sum {n : ℕ} (hn : n < 64 ^ 4) :
    ((n / 64 ^ 3 % 64 * 64 + n / 64 ^ 2 % 64) * 64 + n / 64 ^ 1 % 64) * 64 + n / 64 ^ 0 % 64
      = n := by
  omega

/-- Four letters give the number of the group again. -/
theorem ungroup_letters {n : ℕ} (hn : n < 64 ^ 4) :
    ungroup (letter n 3) (letter n 2) (letter n 1) (letter n 0) = n := by
  unfold ungroup
  rw [idxOf_letter, idxOf_letter, idxOf_letter, idxOf_letter]
  exact digits_sum hn

theorem byte_eq {n k : ℕ} {a : UInt8} (h : n / 256 ^ k % 256 = a.toNat) : byte n k = a := by
  apply UInt8.toNat_inj.mp
  rw [← h]
  exact UInt8.toNat_ofNat'

/-- The bytes of a group. -/
theorem byte_group (a b c : UInt8) :
    byte (group a b c) 2 = a ∧ byte (group a b c) 1 = b ∧ byte (group a b c) 0 = c := by
  have ha := a.toNat_lt
  have hb := b.toNat_lt
  have hc := c.toNat_lt
  refine ⟨byte_eq ?_, byte_eq ?_, byte_eq ?_⟩
  · unfold group
    omega
  · unfold group
    omega
  · unfold group
    omega

/-- What is written under the padding is the letter of zero. -/
theorem letter_eq_zero {n k : ℕ} (h : n / 64 ^ k % 64 = 0) : letter n k = 65 := by
  unfold letter
  rw [h]
  rfl

/-- **Base64 is invertible.** -/
theorem decode_encode (bs : Bytes) : decode (encode bs) = some bs := by
  induction bs using encode.induct with
  | case1 => rfl
  | case2 a =>
    have ha := a.toNat_lt
    have hlast : letter (group a 0 0) 0 = 65 := letter_eq_zero (by unfold group; simp; omega)
    have hthird : letter (group a 0 0) 1 = 65 := letter_eq_zero (by unfold group; simp; omega)
    have hgroup := ungroup_letters (group_lt a 0 0)
    rw [hlast, hthird] at hgroup
    rw [encode, decode, if_pos ⟨letter_mem _ _, letter_mem _ _⟩,
      if_neg fun h => absurd h.1 (by decide), if_pos ⟨rfl, rfl⟩, if_neg (by decide), if_pos rfl,
      hgroup, (byte_group a 0 0).1]
  | case3 a b =>
    have hlast : letter (group a b 0) 0 = 65 := letter_eq_zero (by unfold group; simp; omega)
    have hgroup := ungroup_letters (group_lt a b 0)
    rw [hlast] at hgroup
    rw [encode, decode, if_pos ⟨letter_mem _ _, letter_mem _ _⟩,
      if_neg fun h => absurd h.2 (by decide), if_pos ⟨rfl, rfl⟩, if_pos (letter_mem _ _),
      hgroup, (byte_group a b 0).1, (byte_group a b 0).2.1]
  | case4 a b c bs ih =>
    obtain ⟨ha, hb, hc⟩ := byte_group a b c
    rw [encode, decode, if_pos ⟨letter_mem _ _, letter_mem _ _⟩,
      if_pos ⟨letter_mem _ _, letter_mem _ _⟩, ungroup_letters (group_lt a b c), ih, ha, hb, hc]
    rfl

end Base64
