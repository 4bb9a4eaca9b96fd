/-
Whole numbers in JSON texts.

RFC 8259 writes a whole number as an optional minus and digits, a zero standing alone. Many
hand-written readers take any run of digits. The two differ in two ways only: digits may have
a needless zero in front, and a number may be the negative zero (`integerText_of_digits`,
`IntegerText.digits`).
-/
import SolanaGo.Lib.JsonReader

set_option autoImplicit false

namespace Json

open Codec (Bytes)

/-- The value of digits that follow others. -/
def digitsFrom : Bytes → ℕ → ℕ
  | [], n => n
  | c :: ds, n => digitsFrom ds (10 * n + (c.toNat - 48))

/-- The value of digits. -/
def digitsValue (ds : Bytes) : ℕ := digitsFrom ds 0

theorem le_digitsFrom (ds : Bytes) (n : ℕ) : n ≤ digitsFrom ds n := by
  induction ds generalizing n with
  | nil => exact Nat.le_refl n
  | cons c ds ih =>
    have hle := ih (10 * n + (c.toNat - 48))
    rw [digitsFrom]
    omega

/-- The value of a whole number. -/
def integerValue : Bytes → ℤ
  | [] => 0
  | c :: cs => if c == 45 then -(digitsValue cs : ℤ) else digitsValue (c :: cs)

/-- A number of RFC 8259 without fraction and exponent, and its value. -/
structure IntegerText (text : Bytes) (n : ℤ) : Prop where
  number : isNumber text = true
  whole : 46 ∉ text ∧ 101 ∉ text ∧ 69 ∉ text
  value : integerValue text = n

/-- A zero with a digit behind it. -/
def LeadingZero (text : Bytes) : Prop := ∃ c cs, text = 48 :: c :: cs

/-- The text `-0`. -/
def negativeZero : Bytes := [45, 48]

theorem isDigit_iff {c : UInt8} : isDigit c = true ↔ 48 ≤ c.toNat ∧ c.toNat ≤ 57 := by
  unfold isDigit
  rw [Bool.and_eq_true, decide_eq_true_iff, decide_eq_true_iff, UInt8.le_iff_toNat_le,
    UInt8.le_iff_toNat_le]
  exact Iff.rfl

/-- Behind the digits of a whole number there is nothing. -/
theorem isFraction_whole {cs : Bytes} (hwhole : 46 ∉ cs ∧ 101 ∉ cs ∧ 69 ∉ cs) :
    isFraction cs = true ↔ cs = [] := by
  constructor
  · intro h
    cases cs with
    | nil => rfl
    | cons c cs =>
      obtain ⟨hdot, he, hE⟩ := hwhole
      have hc46 : c ≠ 46 := fun hc => hdot (hc ▸ List.mem_cons_self)
      have hc101 : c ≠ 101 := fun hc => he (hc ▸ List.mem_cons_self)
      have hc69 : c ≠ 69 := fun hc => hE (hc ▸ List.mem_cons_self)
      simp [isFraction, isExponent, hc46, hc101, hc69] at h
  · rintro rfl
    rfl

/-- A whole number without a sign: zero, or digits that do not start with a zero. -/
theorem isUnsigned_whole {cs : Bytes} (hwhole : 46 ∉ cs ∧ 101 ∉ cs ∧ 69 ∉ cs) :
    isUnsigned cs = true ↔ isDigits cs = true ∧ ¬LeadingZero cs := by
  cases cs with
  | nil => exact iff_of_false (by simp [isUnsigned]) (by simp [isDigits])
  | cons c cs =>
    obtain ⟨hdot, he, hE⟩ := hwhole
    have htail : 46 ∉ cs ∧ 101 ∉ cs ∧ 69 ∉ cs :=
      ⟨fun h => hdot (List.mem_cons_of_mem _ h), fun h => he (List.mem_cons_of_mem _ h),
        fun h => hE (List.mem_cons_of_mem _ h)⟩
    rw [isUnsigned]
    by_cases hc : c = 48
    · subst hc
      rw [if_pos (by rfl), isFraction_whole htail]
      constructor
      · rintro rfl
        refine ⟨by decide, ?_⟩
        rintro ⟨c, cs, hcs⟩
        cases hcs
      · rintro ⟨-, hzero⟩
        cases cs with
        | nil => rfl
        | cons d cs => exact absurd ⟨d, cs, rfl⟩ hzero
    · have hsuffix := List.dropWhile_suffix isDigit (l := cs)
      have hwhole' : 46 ∉ cs.dropWhile isDigit ∧ 101 ∉ cs.dropWhile isDigit
          ∧ 69 ∉ cs.dropWhile isDigit :=
        ⟨fun h => htail.1 (hsuffix.subset h), fun h => htail.2.1 (hsuffix.subset h),
          fun h => htail.2.2 (hsuffix.subset h)⟩
      have hlead : ¬LeadingZero (c :: cs) := by
        rintro ⟨d, ds, hds⟩
        exact hc (List.cons.inj hds).1
      rw [if_neg (by simpa using hc), Bool.and_eq_true, isFraction_whole hwhole',
        List.dropWhile_eq_nil_iff]
      simp [isDigits, hlead]

/-- **Digits without a needless zero are a whole number.** -/
theorem integerText_of_digits {text : Bytes} (hdigits : isDigits text = true)
    (hlead : ¬LeadingZero text) : IntegerText text (digitsValue text) := by
  have hall : ∀ c ∈ text, isDigit c = true := by
    unfold isDigits at hdigits
    rw [Bool.and_eq_true, List.all_eq_true] at hdigits
    exact hdigits.2
  have hwhole : 46 ∉ text ∧ 101 ∉ text ∧ 69 ∉ text :=
    ⟨fun h => absurd (hall _ h) (by decide), fun h => absurd (hall _ h) (by decide),
      fun h => absurd (hall _ h) (by decide)⟩
  have hunsigned := (isUnsigned_whole hwhole).mpr ⟨hdigits, hlead⟩
  cases text with
  | nil => cases hdigits
  | cons c cs =>
    have hc : ¬(c == 45) = true := by
      intro hc
      have h45 : c = 45 := by simpa using hc
      exact absurd (h45 ▸ hall c List.mem_cons_self) (by decide)
    refine ⟨?_, hwhole, ?_⟩
    · rw [isNumber, if_neg hc]
      exact hunsigned
    · rw [integerValue, if_neg hc]

/-- A whole number has no needless zero. -/
theorem IntegerText.not_leadingZero {text : Bytes} {n : ℤ} (h : IntegerText text n) :
    ¬LeadingZero text := by
  rintro ⟨c, cs, rfl⟩
  have hnumber := h.number
  rw [isNumber, if_neg (by decide)] at hnumber
  exact ((isUnsigned_whole h.whole).mp hnumber).2 ⟨c, cs, rfl⟩

/-- Digits that do not start with a zero have a value. -/
theorem digitsValue_pos {c : UInt8} {cs : Bytes} (hc : isDigit c = true) (hne : c ≠ 48) :
    0 < digitsValue (c :: cs) := by
  have hdigit := isDigit_iff.mp hc
  have hne' : c.toNat ≠ 48 := fun h => hne (UInt8.toNat_inj.mp h)
  have hle := le_digitsFrom cs (10 * 0 + (c.toNat - 48))
  unfold digitsValue
  rw [digitsFrom]
  omega

/-- **A whole number that is not below zero** is digits, or the negative zero. -/
theorem IntegerText.digits {text : Bytes} {n : ℕ} (h : IntegerText text n) :
    (isDigits text = true ∧ digitsValue text = n) ∨ text = negativeZero := by
  have hnumber := h.number
  have hvalue := h.value
  cases text with
  | nil => cases hnumber
  | cons c cs =>
    rw [isNumber] at hnumber
    rw [integerValue] at hvalue
    by_cases hc : (c == 45) = true
    · rw [if_pos hc] at hnumber hvalue
      obtain ⟨hdot, he, hE⟩ := h.whole
      have hwhole : 46 ∉ cs ∧ 101 ∉ cs ∧ 69 ∉ cs :=
        ⟨fun h => hdot (List.mem_cons_of_mem _ h), fun h => he (List.mem_cons_of_mem _ h),
          fun h => hE (List.mem_cons_of_mem _ h)⟩
      obtain ⟨hdigits, hlead⟩ := (isUnsigned_whole hwhole).mp hnumber
      have hzero : digitsValue cs = 0 := by omega
      have hc45 : c = 45 := by simpa using hc
      refine Or.inr ?_
      cases cs with
      | nil => cases hdigits
      | cons d ds =>
        unfold isDigits at hdigits
        rw [Bool.and_eq_true, List.all_eq_true] at hdigits
        have hd48 : d = 48 := by
          by_contra hne
          have hpos : 0 < digitsValue (d :: ds) :=
            digitsValue_pos (hdigits.2 d List.mem_cons_self) hne
          omega
        cases ds with
        | nil => rw [hc45, hd48, negativeZero]
        | cons d' ds => exact absurd ⟨d', ds, by rw [hd48]⟩ hlead
    · rw [if_neg hc] at hnumber hvalue
      obtain ⟨hdigits, -⟩ := (isUnsigned_whole h.whole).mp hnumber
      exact Or.inl ⟨hdigits, by omega⟩

end Json
