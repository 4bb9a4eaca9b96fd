/-
The verifier's side of the inner-product argument.

The argument can be checked as it was made: round by round, the commitment takes up the two
cross terms and the bases are folded, until one base of each kind is left (`FoldsTo`). It can
also be checked with one sum over the bases that were there first, with the weights as scalars.
Both are the same (`foldsTo_iff`), by induction on the rounds.

A weight is the product of the challenges and inverses that the bits of its position select
(`getD_weights_eq_prod`), so the weight of the mirrored position is its inverse.
-/
import SolanaGo.Lib.InnerProduct
import Mathlib.Data.Nat.Bitwise
import Mathlib.Algebra.BigOperators.Ring.Finset

set_option autoImplicit false

namespace InnerProduct

variable {F P : Type*} [Field F] [AddCommGroup P] [Module F P]

/-! ## The weights by their bits -/

/-- The weights of the inverses are the inverses of the weights. -/
theorem weights_map_inv (us : List F) : weights (us.map (·⁻¹)) = (weights us).map (·⁻¹) := by
  induction us with
  | nil => simp [weights]
  | cons u us ih =>
    rw [List.map_cons, weights, weights, ih, List.map_append]
    simp only [List.map_map, Function.comp_def, mul_inv, inv_inv]

/-- The weight of the mirrored position. -/
theorem getD_weights_mirror (us : List F) {i : ℕ} (hi : i < 2 ^ us.length) :
    (weights us).getD (2 ^ us.length - 1 - i) 0 = ((weights us).getD i 0)⁻¹ := by
  have hlen : i < (weights us).length := by rwa [length_weights]
  rw [← getD_weights_inv us hi, weights_map_inv, getD_map _ hlen 0]

/-- **The weights.** The first challenge belongs to the top bit of a position. A set bit selects
the challenge, a clear one its inverse. -/
theorem getD_weights_eq_prod (us : List F) {i : ℕ} (hi : i < 2 ^ us.length) :
    (weights us).getD i 0
      = ∏ j ∈ Finset.range us.length,
        if i.testBit (us.length - 1 - j) then us.getD j 0 else (us.getD j 0)⁻¹ := by
  induction us generalizing i with
  | nil =>
    obtain rfl : i = 0 := by simpa using hi
    rfl
  | cons u us ih =>
    have hindex : ∀ j, (u :: us).length - 1 - (j + 1) = us.length - 1 - j := by
      intro j
      rw [List.length_cons]
      omega
    have htop : (u :: us).length - 1 - 0 = us.length := rfl
    rw [List.length_cons, Finset.prod_range_succ']
    simp only [← List.length_cons (a := u), hindex, htop, List.getD_cons_succ,
      List.getD_cons_zero]
    by_cases hlow : i < 2 ^ us.length
    · rw [(getD_weights_cons u us hlow).1, ih hlow, Nat.testBit_lt_two_pow hlow, mul_comm]
      rfl
    · rw [List.length_cons, pow_succ] at hi
      obtain ⟨j, rfl⟩ := Nat.exists_eq_add_of_le (Nat.le_of_not_lt hlow)
      have hj : j < 2 ^ us.length := by omega
      have hbits : ∀ m ∈ Finset.range us.length,
          (2 ^ us.length + j).testBit (us.length - 1 - m) = j.testBit (us.length - 1 - m) := by
        intro m hm
        have hm' := Finset.mem_range.mp hm
        exact Nat.testBit_two_pow_add_gt (by omega) j
      rw [(getD_weights_cons u us hj).2, ih hj, Nat.testBit_two_pow_add_eq,
        Nat.testBit_lt_two_pow hj, mul_comm]
      congr 1
      refine Finset.prod_congr rfl fun m hm => ?_
      rw [hbits m hm]

/-! ## The check by folding -/

/-- The check round by round. The commitment `p` takes up the cross terms of the round, the
bases are folded with the round's challenge, and the entries `a` and `b` open what is left. -/
def FoldsTo (q : P) (a b : F) : List F → List P → List P → List P → List P → P → Prop
  | u :: us, l :: left, r :: right, g, h, p =>
    FoldsTo q a b us left right
      (mix u⁻¹ u (g.take (g.length / 2)) (g.drop (g.length / 2)))
      (mix u u⁻¹ (h.take (h.length / 2)) (h.drop (h.length / 2)))
      ((u * u) • l + p + (u⁻¹ * u⁻¹) • r)
  | [], [], [], [g], [h], p => p = a • g + b • h + (a * b) • q
  | _, _, _, _, _, _ => False

/-- **One sum for all rounds.** The check by folding holds if the commitment with all cross
terms is opened over the weighted bases. -/
theorem foldsTo_iff (q : P) (a b : F) {us : List F} {left right g h : List P} (p : P)
    (hleft : left.length = us.length) (hright : right.length = us.length)
    (hg : g.length = 2 ^ us.length) (hh : h.length = 2 ^ us.length) :
    FoldsTo q a b us left right g h p
      ↔ p + dot (us.map fun u => u * u) left + dot (us.map fun u => u⁻¹ * u⁻¹) right
        = a • dot (weights us) g + b • dot (weights (us.map (·⁻¹))) h + (a * b) • q := by
  induction us generalizing left right g h p with
  | nil =>
    obtain rfl := List.eq_nil_of_length_eq_zero hleft
    obtain rfl := List.eq_nil_of_length_eq_zero hright
    obtain ⟨x, rfl⟩ := List.length_eq_one_iff.mp hg
    obtain ⟨y, rfl⟩ := List.length_eq_one_iff.mp hh
    simp [FoldsTo, weights]
  | cons u us ih =>
    obtain ⟨l, left, rfl⟩ := List.exists_cons_of_length_eq_add_one hleft
    obtain ⟨r, right, rfl⟩ := List.exists_cons_of_length_eq_add_one hright
    have hpow : 2 ^ (u :: us).length = 2 ^ us.length + 2 ^ us.length := by
      rw [List.length_cons, pow_succ, Nat.mul_two]
    have hhalf : g.length / 2 = 2 ^ us.length := by omega
    have hhalf' : h.length / 2 = 2 ^ us.length := by omega
    have hgL := length_take_half (hg.trans hpow) hhalf
    have hgR := length_drop_half (hg.trans hpow) hhalf
    have hhL := length_take_half (hh.trans hpow) hhalf'
    have hhR := length_drop_half (hh.trans hpow) hhalf'
    -- The weights of all rounds over the bases are those of the later rounds over the folded
    -- bases; for `h` the challenges are inverted.
    have hG := dot_weights_cons u us hgL hgR
    have hmap : (us.map (·⁻¹)).length = us.length := List.length_map _
    have hH := dot_weights_cons u⁻¹ (us.map (·⁻¹)) (hhL.trans (by rw [hmap]))
      (hhR.trans (by rw [hmap]))
    rw [List.take_append_drop] at hG hH
    rw [inv_inv] at hH
    rw [FoldsTo, ih _ (Nat.succ.inj hleft) (Nat.succ.inj hright)
      ((length_mix (hgL.trans hgR.symm)).trans hgL) ((length_mix (hhL.trans hhR.symm)).trans hhL),
      ← hG, ← hH, List.map_cons, List.map_cons, List.map_cons, dot_cons, dot_cons]
    have hsum : (u * u) • l + p + (u⁻¹ * u⁻¹) • r + dot (us.map fun u => u * u) left
          + dot (us.map fun u => u⁻¹ * u⁻¹) right
        = p + ((u * u) • l + dot (us.map fun u => u * u) left)
          + ((u⁻¹ * u⁻¹) • r + dot (us.map fun u => u⁻¹ * u⁻¹) right) := by
      abel
    rw [hsum]

/-! ## Two equations in one -/

/-- An expression that is affine in `d` is zero for two values of `d` exactly if both its
coefficients are zero. -/
theorem affine_eq_zero_twice_iff {p r : P} {d1 d2 : F} (hd : d1 ≠ d2) :
    p + d1 • r = 0 ∧ p + d2 • r = 0 ↔ p = 0 ∧ r = 0 := by
  refine ⟨?_, ?_⟩
  · rintro ⟨h1, h2⟩
    have hdiff : (d1 - d2) • r = 0 := by
      rw [sub_smul, eq_neg_of_add_eq_zero_right h1, eq_neg_of_add_eq_zero_right h2, sub_self]
    have hr : r = 0 := by
      have hinv := congrArg ((d1 - d2)⁻¹ • ·) hdiff
      simpa only [smul_smul, inv_mul_cancel₀ (sub_ne_zero.mpr hd), one_smul, smul_zero] using hinv
    rw [hr, smul_zero, add_zero] at h1
    exact ⟨h1, hr⟩
  · rintro ⟨hp, hr⟩
    rw [hp, hr, smul_zero, smul_zero, add_zero]
    exact ⟨rfl, rfl⟩

end InnerProduct
