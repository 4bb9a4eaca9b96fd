/-
Numbers written in a base, most significant digit first, with their leading zeros.

A digit string is zeros followed by the digits of a number. Going from one base to another
changes the number's digits and keeps the zeros, one for one, so the way back restores the
string, whatever its length (`convert_convert`). This is how byte strings are written in
alphabets that are not a power of two: the zeros carry the length that the number alone
would lose.
-/
import Mathlib.Data.Nat.Digits.Lemmas

set_option autoImplicit false

namespace Positional

/-- The number a digit string stands for. -/
def value (b : ℕ) (ds : List ℕ) : ℕ := Nat.ofDigits b ds.reverse

/-- The number of zeros in front. -/
def zeros (ds : List ℕ) : ℕ := (ds.takeWhile (· == 0)).length

/-- A digit string of base `b` in base `b'`. -/
def convert (b b' : ℕ) (ds : List ℕ) : List ℕ :=
  List.replicate (zeros ds) 0 ++ (Nat.digits b' (value b ds)).reverse

/-- No zero in front. -/
def Normal (ds : List ℕ) : Prop := ds.head? ≠ some 0

section Zeros

variable {b b' : ℕ} {ds : List ℕ}

/-- Every digit string is zeros and a string with no zero in front. -/
theorem exists_normal (ds : List ℕ) : ∃ z x, ds = List.replicate z 0 ++ x ∧ Normal x := by
  induction ds with
  | nil => exact ⟨0, [], rfl, by simp [Normal]⟩
  | cons d ds ih =>
    by_cases hd : d = 0
    · obtain ⟨z, x, hds, hx⟩ := ih
      refine ⟨z + 1, x, ?_, hx⟩
      rw [hd, hds, List.replicate_succ, List.cons_append]
    · exact ⟨0, d :: ds, rfl, by simpa [Normal] using hd⟩

theorem zeros_append {x : List ℕ} (hx : Normal x) (z : ℕ) :
    zeros (List.replicate z 0 ++ x) = z := by
  have hnone : x.takeWhile (· == 0) = [] := by
    cases x with
    | nil => rfl
    | cons d x =>
      have hd : d ≠ 0 := by simpa [Normal] using hx
      simp [hd]
  unfold zeros
  rw [List.takeWhile_append_of_pos (by simp), hnone, List.append_nil, List.length_replicate]

theorem value_append (z : ℕ) (x : List ℕ) : value b (List.replicate z 0 ++ x) = value b x := by
  unfold value
  rw [List.reverse_append, List.reverse_replicate, Nat.ofDigits_append, Nat.ofDigits_replicate_zero,
    Nat.mul_zero, Nat.add_zero]

theorem convert_append {x : List ℕ} (hx : Normal x) (z : ℕ) :
    convert b b' (List.replicate z 0 ++ x)
      = List.replicate z 0 ++ (Nat.digits b' (value b x)).reverse := by
  unfold convert
  rw [zeros_append hx, value_append]

/-- The digits of a number have no zero in front. -/
theorem normal_digits (b n : ℕ) : Normal (Nat.digits b n).reverse := by
  unfold Normal
  rw [List.head?_reverse]
  intro hlast
  have hne : Nat.digits b n ≠ [] := by
    intro hnil
    rw [hnil] at hlast
    cases hlast
  have hn : n ≠ 0 := by
    rintro rfl
    exact hne (Nat.digits_zero b)
  rw [List.getLast?_eq_getLast_of_ne_nil hne, Option.some.injEq] at hlast
  exact Nat.getLast_digit_ne_zero b hn hlast

/-- A string with no zero in front is the digits of its number. -/
theorem digits_value (hb : 1 < b) {x : List ℕ} (hlt : ∀ d ∈ x, d < b) (hx : Normal x) :
    (Nat.digits b (value b x)).reverse = x := by
  unfold value
  rw [Nat.digits_ofDigits b hb _ (fun d hd => hlt d (List.mem_reverse.mp hd)), List.reverse_reverse]
  intro hne hlast
  refine hx ?_
  rw [← List.getLast?_reverse, List.getLast?_eq_getLast_of_ne_nil hne, hlast]

end Zeros

section Convert

variable {b b' : ℕ} {ds : List ℕ}

/-- **There and back.** -/
theorem convert_convert (hb : 1 < b) (hlt : ∀ d ∈ ds, d < b) :
    convert b' b (convert b b' ds) = ds := by
  obtain ⟨z, x, rfl, hx⟩ := exists_normal ds
  have hltx : ∀ d ∈ x, d < b := fun d hd => hlt d (List.mem_append_right _ hd)
  have hvalue : value b' (Nat.digits b' (value b x)).reverse = value b x := by
    rw [value, List.reverse_reverse, Nat.ofDigits_digits]
  rw [convert_append hx, convert_append (normal_digits b' _), hvalue, digits_value hb hltx hx]

theorem convert_lt (hb' : 1 < b') : ∀ d ∈ convert b b' ds, d < b' := by
  intro d hd
  rcases List.mem_append.mp hd with hd | hd
  · rw [List.eq_of_mem_replicate hd]
    exact Nat.lt_of_succ_lt hb'
  · exact Nat.digits_lt_base hb' (List.mem_reverse.mp hd)

theorem value_lt (hlt : ∀ d ∈ ds, d < b) (hb : 1 < b) : value b ds < b ^ ds.length := by
  have hlt' : ∀ d ∈ ds.reverse, d < b := fun d hd => hlt d (List.mem_reverse.mp hd)
  have hpow := Nat.ofDigits_lt_base_pow_length hb hlt'
  rwa [List.length_reverse] at hpow

/-- A smaller base does not make the string shorter. -/
theorem length_le_convert (hb' : 1 < b') (hle : b' ≤ b) (hlt : ∀ d ∈ ds, d < b) :
    ds.length ≤ (convert b b' ds).length := by
  obtain ⟨z, x, rfl, hx⟩ := exists_normal ds
  have hltx : ∀ d ∈ x, d < b := fun d hd => hlt d (List.mem_append_right _ hd)
  rw [convert_append hx, List.length_append, List.length_append, List.length_reverse]
  refine Nat.add_le_add_left ?_ _
  have hb : 1 < b := Nat.lt_of_lt_of_le hb' hle
  have hdigits : (Nat.digits b (value b x)).length = x.length := by
    rw [← List.length_reverse, digits_value hb hltx hx]
  rw [← hdigits, Nat.digits_length_le_iff hb]
  calc value b x < b' ^ (Nat.digits b' (value b x)).length :=
        (Nat.digits_length_le_iff hb' _).mp (Nat.le_refl _)
    _ ≤ b ^ (Nat.digits b' (value b x)).length := Nat.pow_le_pow_left hle _

/-- How long the string gets. -/
theorem length_convert_le (hb : 1 < b) (hb' : 1 < b') (hlt : ∀ d ∈ ds, d < b) {k m : ℕ}
    (hk : ds.length = k) (hpow : ∀ z ≤ k, b ^ (k - z) ≤ b' ^ (m - z)) (hkm : k ≤ m) :
    (convert b b' ds).length ≤ m := by
  obtain ⟨z, x, rfl, hx⟩ := exists_normal ds
  rw [List.length_append, List.length_replicate] at hk
  have hltx : ∀ d ∈ x, d < b := fun d hd => hlt d (List.mem_append_right _ hd)
  have hvalue : value b x < b' ^ (m - z) := by
    refine Nat.lt_of_lt_of_le (value_lt hltx hb) ?_
    have hstep := hpow z (by omega)
    rwa [show k - z = x.length by omega] at hstep
  rw [convert_append hx, List.length_append, List.length_replicate, List.length_reverse]
  have hlen := (Nat.digits_length_le_iff hb' (value b x)).mpr hvalue
  omega

end Convert

end Positional
