/-
Special soundness of proofs that are checked with one weighted sum.

Several equations `a0 = 0, a1 = 0, …` in a vector space are checked at once as
`a0 + w • a1 + w² • a2 + … = 0` (`horner`). If that holds for more scalars `w` than the
highest power, every equation holds: applied to a linear functional, the sum is a
polynomial in `w` with too many roots (`eq_zero_of_horner`).

Each equation is linear in the challenge, so two challenges that are both answered give
what the equation is about (`extract`).
-/
import Mathlib.Data.List.GetD
import Mathlib.LinearAlgebra.Dual.Lemmas
import Mathlib.LinearAlgebra.Lagrange

set_option autoImplicit false

namespace SpecialSoundness

open Polynomial

variable {F P : Type*} [Field F] [AddCommGroup P] [Module F P]

/-! ## Weighted sums -/

/-- `a0 + w • a1 + w² • a2 + …` -/
def horner (w : F) : List P → P
  | [] => 0
  | a :: as => a + w • horner w as

@[simp] theorem horner_nil (w : F) : horner w ([] : List P) = 0 := rfl

@[simp] theorem horner_cons (w : F) (a : P) (as : List P) :
    horner w (a :: as) = a + w • horner w as := rfl

/-- The sum as a polynomial in the weight, seen through a functional. -/
noncomputable def hornerPoly (φ : Module.Dual F P) : List P → F[X]
  | [] => 0
  | a :: as => C (φ a) + X * hornerPoly φ as

theorem eval_hornerPoly (φ : Module.Dual F P) (w : F) (as : List P) :
    (hornerPoly φ as).eval w = φ (horner w as) := by
  induction as with
  | nil => simp [hornerPoly]
  | cons a as ih => simp [hornerPoly, ih]

theorem coeff_hornerPoly (φ : Module.Dual F P) (as : List P) (i : ℕ) :
    (hornerPoly φ as).coeff i = φ (as.getD i 0) := by
  induction as generalizing i with
  | nil => simp [hornerPoly]
  | cons a as ih =>
    cases i with
    | zero => simp [hornerPoly]
    | succ i => simp [hornerPoly, ih]

theorem degree_hornerPoly_lt (φ : Module.Dual F P) (as : List P) :
    (hornerPoly φ as).degree < as.length := by
  refine (degree_lt_iff_coeff_zero _ _).mpr fun i hi => ?_
  rw [coeff_hornerPoly, List.getD_eq_default _ _ hi, map_zero]

/-- A sum that vanishes for as many weights as it has terms has only zero terms. -/
theorem eq_zero_of_horner {as : List P} {W : Finset F} (hcard : as.length ≤ W.card)
    (hzero : ∀ w ∈ W, horner w as = 0) {a : P} (ha : a ∈ as) : a = 0 := by
  refine (Module.forall_dual_apply_eq_zero_iff F a).mp fun φ => ?_
  have hpoly : hornerPoly φ as = 0 := by
    refine eq_zero_of_degree_lt_of_eval_finset_eq_zero W ?_ fun w hw => ?_
    · exact lt_of_lt_of_le (degree_hornerPoly_lt φ as) (by exact_mod_cast hcard)
    · rw [eval_hornerPoly, hzero w hw, map_zero]
  obtain ⟨i, hi, rfl⟩ := List.getElem_of_mem ha
  have hcoeff := coeff_hornerPoly φ as i
  rw [hpoly, coeff_zero, List.getD_eq_getElem as 0 hi] at hcoeff
  exact hcoeff.symm

/-! ## Transcripts that are accepted -/

/-- The check holds for more than `n` weights. -/
def VanishesBeyond (n : ℕ) (check : F → P) : Prop :=
  ∃ W : Finset F, n < W.card ∧ ∀ w ∈ W, check w = 0

/-- Two different challenges are answered, each for more than `n` weights. -/
def AnswersTwo {R : Type*} (n : ℕ) (check : R → F → F → P) : Prop :=
  ∃ c1 c2 : F, c1 ≠ c2 ∧ (∃ r, VanishesBeyond n (check r c1)) ∧ ∃ r, VanishesBeyond n (check r c2)

omit [Module F P] in
/-- A prover that can answer every challenge for every weight answers two. -/
theorem AnswersTwo.of_forall {R : Type*} [Fintype F] {n : ℕ} (hn : n < Fintype.card F)
    {check : R → F → F → P} (respond : F → R) (h : ∀ c w, check (respond c) c w = 0) :
    AnswersTwo n check :=
  ⟨0, 1, zero_ne_one, ⟨respond 0, Finset.univ, hn, fun w _ => h 0 w⟩,
    ⟨respond 1, Finset.univ, hn, fun w _ => h 1 w⟩⟩

/-- If the check is a weighted sum of equations, the equations hold for both answers. -/
theorem AnswersTwo.equations {R : Type*} {n : ℕ} {check : R → F → F → P} (h : AnswersTwo n check)
    {equations : R → F → List P} (hcheck : ∀ r c w, check r c w = horner w (equations r c))
    (hlen : ∀ r c, (equations r c).length ≤ n + 1) :
    ∃ c1 c2, c1 ≠ c2 ∧ ∃ r1 r2, (∀ a ∈ equations r1 c1, a = 0) ∧ ∀ a ∈ equations r2 c2, a = 0 := by
  have hall : ∀ r c, VanishesBeyond n (check r c) → ∀ a ∈ equations r c, a = 0 := by
    rintro r c ⟨W, hcard, hzero⟩ a ha
    refine eq_zero_of_horner ((hlen r c).trans hcard) (fun w hw => ?_) ha
    rw [← hcheck, hzero w hw]
  obtain ⟨c1, c2, hne, ⟨r1, h1⟩, ⟨r2, h2⟩⟩ := h
  exact ⟨c1, c2, hne, r1, r2, hall r1 c1 h1, hall r2 c2 h2⟩

/-- What two answers to one equation say. -/
theorem extract {c1 c2 : F} (hne : c1 ≠ c2) {x1 x2 b y : P} (h1 : x1 - c1 • b - y = 0)
    (h2 : x2 - c2 • b - y = 0) : b = (c1 - c2)⁻¹ • (x1 - x2) := by
  have hdiff : x1 - x2 = (c1 - c2) • b := by
    have hy : x1 - c1 • b = x2 - c2 • b := (sub_eq_zero.mp h1).trans (sub_eq_zero.mp h2).symm
    rw [sub_smul, sub_eq_sub_iff_add_eq_add, add_comm (c1 • b)]
    exact sub_eq_sub_iff_add_eq_add.mp hy
  rw [hdiff, inv_smul_smul₀ (sub_ne_zero.mpr hne)]

end SpecialSoundness
