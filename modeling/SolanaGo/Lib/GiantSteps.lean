/-
Discrete logarithms by giant steps into a table of baby steps.

The table knows the multiples `0, g, …, (m - 1) • g`. A point that is not in it is
moved back by `m • g` and looked up again. If the multiples of `g` that the search can
meet are different from each other, a point `a • g` is found after `a / m` steps with
`a % m` in the table (`giantSteps_nsmul`), and a point that is no such multiple is not
found (`giantSteps_eq_none`).
-/
import Mathlib.Algebra.Module.Basic
import Mathlib.Algebra.Module.Torsion.Field
import Mathlib.Algebra.Field.ZMod

set_option autoImplicit false

namespace GiantSteps

variable {P : Type} [AddCommGroup P]

/-- Look a point up, and move it back by `step` until it is found or the turns are used
up: the number of steps made, from `high` on, and what the table says. -/
def giantSteps (lookup : P → Option ℕ) (step : P) : (turns high : ℕ) → P → Option (ℕ × ℕ)
  | 0, _, _ => none
  | turns + 1, high, point =>
    match lookup point with
    | some low => some (high, low)
    | none => giantSteps lookup step turns (high + 1) (point - step)

/-- The table holds the first `m` multiples of `g`. -/
def IsTable (lookup : P → Option ℕ) (g : P) (m : ℕ) : Prop :=
  ∀ point v, lookup point = some v ↔ v < m ∧ point = v • g

/-- The first `n` multiples of `g` are different. -/
def DistinctBelow (g : P) (n : ℕ) : Prop := ∀ a b, a < n → b < n → a • g = b • g → a = b

section Search

variable {lookup : P → Option ℕ} {g : P} {m n : ℕ}

/-- Over the table, a multiple is not in it. -/
theorem lookup_eq_none (htable : IsTable lookup g m) (hdistinct : DistinctBelow g n) {a : ℕ}
    (hm : m ≤ a) (ha : a < n) : lookup (a • g) = none := by
  rw [Option.eq_none_iff_forall_not_mem]
  intro v hv
  obtain ⟨hvm, heq⟩ := (htable _ v).mp hv
  have hav := hdistinct a v ha (by omega) heq
  omega

/-- **What is found.** -/
theorem giantSteps_nsmul (htable : IsTable lookup g m) (hdistinct : DistinctBelow g n)
    (hm : 0 < m) {turns : ℕ} (high : ℕ) {a : ℕ} (hturns : m * turns ≤ n) (ha : a < m * turns) :
    giantSteps lookup (m • g) turns high (a • g) = some (high + a / m, a % m) := by
  -- One step takes `m` off the multiple and one off the turns.
  induction turns generalizing high a with
  | zero => omega
  | succ turns ih =>
    have hexpand : m * (turns + 1) = m * turns + m := Nat.mul_succ _ _
    unfold giantSteps
    by_cases hsmall : a < m
    · rw [(htable (a • g) a).mpr ⟨hsmall, rfl⟩]
      dsimp only
      rw [Nat.div_eq_of_lt hsmall, Nat.mod_eq_of_lt hsmall, Nat.add_zero]
    · have hback : a • g - m • g = (a - m) • g := by
        rw [sub_nsmul g (by omega), sub_eq_add_neg]
      have hdiv : high + 1 + (a - m) / m = high + a / m := by
        have hone : a / m = (a - m) / m + 1 := by
          rw [← Nat.add_div_right _ hm, Nat.sub_add_cancel (by omega)]
        omega
      rw [lookup_eq_none htable hdistinct (by omega) (by omega)]
      dsimp only
      rw [hback, ih (high + 1) (by omega) (by omega), hdiv, ← Nat.mod_eq_sub_mod (by omega)]

/-- **What is not found.** -/
theorem giantSteps_eq_none (htable : IsTable lookup g m) {turns high : ℕ} {point : P}
    (hpoint : ∀ a, a < m * turns → point ≠ a • g) :
    giantSteps lookup (m • g) turns high point = none := by
  induction turns generalizing high point with
  | zero => rfl
  | succ turns ih =>
    have hexpand : m * (turns + 1) = m * turns + m := Nat.mul_succ _ _
    have hmiss : lookup point = none := by
      rw [Option.eq_none_iff_forall_not_mem]
      intro v hv
      obtain ⟨hvm, heq⟩ := (htable point v).mp hv
      exact hpoint v (by omega) heq
    unfold giantSteps
    rw [hmiss]
    refine ih fun a ha heq => hpoint (a + m) (by omega) ?_
    rw [add_nsmul, ← heq, sub_add_cancel]

end Search

/-- In a group of prime order, the multiples below the order are different. -/
theorem distinctBelow_of_prime (ℓ : ℕ) [Fact ℓ.Prime] [Module (ZMod ℓ) P] {g : P} (hg : g ≠ 0)
    {n : ℕ} (hn : n ≤ ℓ) : DistinctBelow g n := by
  intro a b ha hb heq
  rw [← Nat.cast_smul_eq_nsmul (ZMod ℓ), ← Nat.cast_smul_eq_nsmul (ZMod ℓ)] at heq
  have hcast : (a : ZMod ℓ) = (b : ZMod ℓ) := smul_left_injective (ZMod ℓ) hg heq
  rw [ZMod.natCast_eq_natCast_iff', Nat.mod_eq_of_lt (by omega), Nat.mod_eq_of_lt (by omega)]
    at hcast
  exact hcast

end GiantSteps
