/-
`confidential_fee.go`: the fee of a confidential transfer.

The fee is a share of the amount, rounded up and capped, and the delta is by how much rounding
has overshot. Both are computed in two words of 64 bits. `rawFee` is the fee before the cap,
over the natural numbers.
-/
import SolanaGo.Token2022.Arithmetic

set_option autoImplicit false

namespace SolanaGo.Token2022

open Codec Buffer

/-! ## The fee -/

/-- `bits.Mul64`. -/
def mul64 (x y : ℕ) : ℕ × ℕ := (x * y / 2 ^ 64, x * y % 2 ^ 64)

/-- `bits.Add64`. -/
def add64 (x y carry : ℕ) : ℕ × ℕ := ((x + y + carry) % 2 ^ 64, (x + y + carry) / 2 ^ 64)

/-- `bits.Sub64`. -/
def sub64 (x y borrow : ℕ) : ℕ × ℕ :=
  ((2 ^ 64 + x - (y + borrow)) % 2 ^ 64, if x < y + borrow then 1 else 0)

/-- `bits.Div64`. It panics if the quotient does not fit; the panic is a fault here. -/
def div64 (hi lo y : ℕ) : Except Fault (ℕ × ℕ) := do
  refuse (y ≤ hi) (.library "runtime error: integer overflow")
  return ((hi * 2 ^ 64 + lo) / y, (hi * 2 ^ 64 + lo) % y)

/-- `CalculateConfidentialTransferFee`: the fee, and the delta that is claimed. -/
def calculateConfidentialTransferFee (amount : ℕ) (basisPoints : UInt16) (maximumFee : UInt64) :
    Except Fault (ℕ × ℕ) := do
  refuse (10000 < basisPoints.toNat) (invalidInputError
    (.message "calculate confidential transfer fee: basis points exceed 10000"))
  let (hi, lo) := mul64 amount basisPoints.toNat
  let (lo, carry) := add64 lo 9999 0
  let hi := (hi + carry) % 2 ^ 64
  let (rawFee, _) ← div64 hi lo 10000
  if maximumFee.toNat < rawFee then return (maximumFee.toNat, 0)
  else
    let (feeHi, feeLo) := mul64 rawFee 10000
    let (numeratorHi, numeratorLo) := mul64 amount basisPoints.toNat
    let (deltaLo, borrow) := sub64 feeLo numeratorLo 0
    let (deltaHi, _) := sub64 feeHi numeratorHi borrow
    refuse (deltaHi ≠ 0) (invalidInputError
      (.message "calculate confidential transfer fee: delta overflow"))
    return (rawFee, deltaLo)

/-- The fee before the cap: the share of the amount, rounded up. -/
def rawFee (amount : ℕ) (basisPoints : UInt16) : ℕ := (amount * basisPoints.toNat + 9999) / 10000

section Fee

variable {amount : ℕ} {basisPoints : UInt16}

theorem rawFee_le (amount : ℕ) (h : basisPoints.toNat ≤ 10000) : rawFee amount basisPoints ≤ amount := by
  have hmul : amount * basisPoints.toNat ≤ amount * 10000 := Nat.mul_le_mul_left amount h
  unfold rawFee
  omega

/-- Rounding overshoots by less than one. -/
theorem rawFee_bounds (amount : ℕ) (basisPoints : UInt16) :
    amount * basisPoints.toNat ≤ 10000 * rawFee amount basisPoints
      ∧ 10000 * rawFee amount basisPoints ≤ amount * basisPoints.toNat + 9999 := by
  unfold rawFee
  omega

/-- A difference below `2^64` of two numbers, each in two words, fits the lower one. -/
theorem sub64_sub64 {x y : ℕ} (hle : y ≤ x) (hlt : x < y + 2 ^ 64) :
    (sub64 (x % 2 ^ 64) (y % 2 ^ 64) 0).1 = x - y
      ∧ (sub64 (x / 2 ^ 64) (y / 2 ^ 64) (sub64 (x % 2 ^ 64) (y % 2 ^ 64) 0).2).1 = 0 := by
  unfold sub64
  dsimp only
  refine ⟨by omega, ?_⟩
  by_cases hborrow : x % 2 ^ 64 < y % 2 ^ 64 + 0
  · have hhigh : x / 2 ^ 64 = y / 2 ^ 64 + 1 := by omega
    rw [if_pos hborrow, hhigh, Nat.add_sub_cancel, Nat.mod_self]
  · have hhigh : x / 2 ^ 64 = y / 2 ^ 64 + 0 := by omega
    rw [if_neg hborrow, hhigh, Nat.add_sub_cancel, Nat.mod_self]

/-- Neither the division nor the delta overflows. -/
theorem calculateConfidentialTransferFee_eq (hamount : amount < 2 ^ 64)
    (hbasis : basisPoints.toNat ≤ 10000) (maximumFee : UInt64) :
    calculateConfidentialTransferFee amount basisPoints maximumFee
      = .ok (if maximumFee.toNat < rawFee amount basisPoints then (maximumFee.toNat, 0)
        else (rawFee amount basisPoints,
          10000 * rawFee amount basisPoints - amount * basisPoints.toNat)) := by
  have hmul : amount * basisPoints.toNat ≤ (2 ^ 64 - 1) * 10000 :=
    Nat.mul_le_mul (by omega) hbasis
  obtain ⟨hlow, hhigh⟩ := rawFee_bounds amount basisPoints
  have hraw : rawFee amount basisPoints = (amount * basisPoints.toNat + 9999) / 10000 := rfl
  unfold calculateConfidentialTransferFee div64 mul64 add64
  dsimp only
  generalize amount * basisPoints.toNat = numerator at hmul hlow hhigh hraw ⊢
  generalize rawFee amount basisPoints = raw at hlow hhigh hraw ⊢
  -- The two words hold the numerator and what rounds it up.
  have hhi : (numerator / 2 ^ 64 + (numerator % 2 ^ 64 + 9999 + 0) / 2 ^ 64) % 2 ^ 64
      = (numerator + 9999) / 2 ^ 64 := by
    omega
  have hlo : (numerator % 2 ^ 64 + 9999 + 0) % 2 ^ 64 = (numerator + 9999) % 2 ^ 64 := by
    omega
  have hquotient : ((numerator + 9999) / 2 ^ 64 * 2 ^ 64 + (numerator + 9999) % 2 ^ 64) / 10000
      = raw := by
    rw [Nat.div_add_mod', hraw]
  rw [refuse, if_neg (Nat.not_lt.mpr hbasis), ok_bind, hhi, hlo, refuse, if_neg (by omega),
    ok_bind, hquotient]
  simp only [pure, Except.pure, ok_bind]
  by_cases hcap : maximumFee.toNat < raw
  · rw [if_pos hcap, if_pos hcap]
  · rw [Nat.mul_comm] at hlow hhigh
    obtain ⟨hdelta, hborrow⟩ := sub64_sub64 hlow (by omega)
    rw [if_neg hcap, if_neg hcap, hborrow, hdelta, refuse, if_neg (not_not.mpr rfl),
      Nat.mul_comm raw]
    rfl

/-- The fee before the cap is the ceiling of the share. -/
theorem rawFee_eq_ceil (amount : ℕ) (basisPoints : UInt16) :
    rawFee amount basisPoints = ⌈((amount * basisPoints.toNat : ℕ) : ℚ) / 10000⌉₊ := by
  refine eq_of_forall_ge_iff fun n => ?_
  have hceil : ((amount * basisPoints.toNat : ℕ) : ℚ) / 10000 ≤ n
      ↔ amount * basisPoints.toNat ≤ n * 10000 := by
    rw [div_le_iff₀ (by norm_num)]
    exact_mod_cast Iff.rfl
  rw [Nat.ceil_le, hceil]
  unfold rawFee
  omega

/-- **`CalculateConfidentialTransferFee`.** It returns a fee and a delta on every input with valid
basis points: the ceiling of the share and what the ceiling adds to it, or the cap and no
delta. -/
theorem calculateConfidentialTransferFee_ceil (amount : UInt64) (basisPoints : UInt16)
    (hbasis : basisPoints.toNat ≤ 10000) (maximumFee : UInt64) :
    ∃ fee delta,
      calculateConfidentialTransferFee amount.toNat basisPoints maximumFee = .ok (fee, delta)
        ∧ fee = min maximumFee.toNat ⌈((amount.toNat * basisPoints.toNat : ℕ) : ℚ) / 10000⌉₊
        ∧ fee ≤ amount.toNat
        ∧ (maximumFee.toNat < ⌈((amount.toNat * basisPoints.toNat : ℕ) : ℚ) / 10000⌉₊ → delta = 0)
        ∧ (⌈((amount.toNat * basisPoints.toNat : ℕ) : ℚ) / 10000⌉₊ ≤ maximumFee.toNat →
          (delta : ℤ) = 10000 * fee - amount.toNat * basisPoints.toNat)
        ∧ delta ≤ 9999 := by
  obtain ⟨hlow, hhigh⟩ := rawFee_bounds amount.toNat basisPoints
  have hle := rawFee_le amount.toNat hbasis
  rw [calculateConfidentialTransferFee_eq amount.toNat_lt hbasis, ← rawFee_eq_ceil]
  by_cases hcap : maximumFee.toNat < rawFee amount.toNat basisPoints
  · rw [if_pos hcap]
    exact ⟨_, _, rfl, (Nat.min_eq_left hcap.le).symm, by omega, fun _ => rfl,
      fun h => absurd hcap (Nat.not_lt.mpr h), by decide⟩
  · have hcap' := Nat.not_lt.mp hcap
    rw [if_neg hcap]
    refine ⟨_, _, rfl, (Nat.min_eq_right hcap').symm, hle, fun h => absurd h hcap, fun _ => ?_,
      by omega⟩
    push_cast [Nat.cast_sub hlow]
    rfl

/-- One lamport at one basis point: the fee is the whole amount. -/
theorem calculateConfidentialTransferFee_ceil_sample :
    ∃ fee delta, calculateConfidentialTransferFee (1 : UInt64).toNat 1 5 = .ok (fee, delta)
      ∧ fee = min (5 : UInt64).toNat ⌈(((1 : UInt64).toNat * (1 : UInt16).toNat : ℕ) : ℚ) / 10000⌉₊
      ∧ fee ≤ (1 : UInt64).toNat
      ∧ ((5 : UInt64).toNat < ⌈(((1 : UInt64).toNat * (1 : UInt16).toNat : ℕ) : ℚ) / 10000⌉₊ →
        delta = 0)
      ∧ (⌈(((1 : UInt64).toNat * (1 : UInt16).toNat : ℕ) : ℚ) / 10000⌉₊ ≤ (5 : UInt64).toNat →
        (delta : ℤ) = 10000 * fee - (1 : UInt64).toNat * (1 : UInt16).toNat)
      ∧ delta ≤ 9999 :=
  calculateConfidentialTransferFee_ceil 1 1 (by decide) 5

end Fee

end SolanaGo.Token2022
