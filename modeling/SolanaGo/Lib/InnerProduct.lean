/-
The inner-product argument: vectors halved round by round against a challenge.

A round replaces the bases by combinations of their halves, with the challenge `u` on one half
and `u⁻¹` on the other. After all rounds, what is left of the bases is given by products of
challenges and inverses, one for each entry (`weights`).

Vectors are lists. `dot` is the sum of products, of scalars with scalars or with points.
-/
import Mathlib.Algebra.BigOperators.Group.Finset.Basic
import Mathlib.Algebra.BigOperators.Intervals
import Mathlib.Algebra.Module.Basic
import Mathlib.Algebra.BigOperators.Group.List.Basic
import Mathlib.Algebra.Field.Basic
import Mathlib.Data.List.GetD
import Mathlib.Data.Nat.Log
import Mathlib.Tactic.Module
import Mathlib.Tactic.Abel

set_option autoImplicit false

namespace InnerProduct

section Sums

variable {F P : Type*} [CommRing F] [AddCommGroup P] [Module F P]

/-! ## Sums of products -/

/-- The sum of the products of two lists. -/
def dot (a : List F) (g : List P) : P := (List.zipWith (fun x p => x • p) a g).sum

@[simp] theorem dot_nil_left (g : List P) : dot ([] : List F) g = 0 := rfl

@[simp] theorem dot_nil_right (a : List F) : dot a ([] : List P) = 0 := by
  cases a <;> rfl

@[simp] theorem dot_cons (x : F) (a : List F) (p : P) (g : List P) :
    dot (x :: a) (p :: g) = x • p + dot a g := List.sum_cons

theorem dot_append {a b : List F} {g h : List P} (hlen : a.length = g.length) :
    dot (a ++ b) (g ++ h) = dot a g + dot b h := by
  unfold dot
  rw [List.zipWith_append hlen, List.sum_append]

/-- An entry of a list that is computed entry by entry. -/
theorem getD_map {α β : Type*} (f : α → β) {a : List α} {i : ℕ} (hi : i < a.length) (x : α)
    (y : β) : (a.map f).getD i y = f (a.getD i x) := by
  rw [List.getD_eq_getElem _ _ (by rwa [List.length_map]), List.getElem_map,
    List.getD_eq_getElem _ _ hi]

theorem getD_map_range {β : Type*} (f : ℕ → β) {n i : ℕ} (hi : i < n) (y : β) :
    ((List.range n).map f).getD i y = f i := by
  rw [getD_map f (by rwa [List.length_range]) 0, List.getD_eq_getElem _ _ (by rwa [List.length_range]),
    List.getElem_range]

/-- The lists entry by entry. -/
theorem dot_eq_sum {n : ℕ} {a : List F} {g : List P} (ha : a.length = n) (hg : g.length = n) :
    dot a g = ∑ i ∈ Finset.range n, a.getD i 0 • g.getD i 0 := by
  induction n generalizing a g with
  | zero =>
    obtain rfl := List.eq_nil_of_length_eq_zero ha
    rfl
  | succ n ih =>
    obtain ⟨x, a, rfl⟩ := List.exists_cons_of_length_eq_add_one ha
    obtain ⟨p, g, rfl⟩ := List.exists_cons_of_length_eq_add_one hg
    rw [dot_cons, Finset.sum_range_succ', ih (Nat.succ.inj ha) (Nat.succ.inj hg), add_comm]
    rfl

/-- The lists given by their entries. -/
theorem dot_eq_sum_of {n : ℕ} {a : List F} {g : List P} (ha : a.length = n) (hg : g.length = n)
    {f : ℕ → F} {p : ℕ → P} (hf : ∀ i < n, a.getD i 0 = f i) (hp : ∀ i < n, g.getD i 0 = p i) :
    dot a g = ∑ i ∈ Finset.range n, f i • p i := by
  rw [dot_eq_sum ha hg]
  refine Finset.sum_congr rfl fun i hi => ?_
  rw [hf i (Finset.mem_range.mp hi), hp i (Finset.mem_range.mp hi)]

/-! ## Combinations of two lists -/

/-- `x • p + y • q`, entry by entry. -/
def mix (x y : F) (p q : List P) : List P := List.zipWith (fun l r => x • l + y • r) p q

theorem length_mix {x y : F} {p q : List P} (h : p.length = q.length) :
    (mix x y p q).length = p.length := by
  unfold mix
  rw [List.length_zipWith, h, Nat.min_self]

theorem dot_mix_right {g h : List P} (hlen : g.length = h.length) (x y : F) (a : List F) :
    dot a (mix x y g h) = x • dot a g + y • dot a h := by
  induction a generalizing g h with
  | nil => simp
  | cons s a ih =>
    cases g with
    | nil =>
      obtain rfl := List.eq_nil_of_length_eq_zero hlen.symm
      simp [mix]
    | cons p g =>
      obtain ⟨r, h, rfl⟩ := List.exists_cons_of_length_eq_add_one hlen.symm
      have hstep : mix x y (p :: g) (r :: h) = (x • p + y • r) :: mix x y g h := rfl
      rw [hstep, dot_cons, dot_cons, dot_cons, ih (Nat.succ.inj hlen)]
      module

/-- A factor on every scalar. -/
theorem dot_map_mul (x : F) (a : List F) (g : List P) :
    dot (a.map (x * ·)) g = x • dot a g := by
  induction a generalizing g with
  | nil => simp
  | cons s a ih =>
    cases g with
    | nil => simp
    | cons p g => rw [List.map_cons, dot_cons, dot_cons, ih, smul_add, mul_smul]

/-! ## Weights -/

/-- The weights of all rounds, computed one after the other from the first one: each is the one
without its top bit times the square of that bit's challenge. -/
def weightsFrom (first : F) (squares : List F) (count : ℕ) : List F :=
  (List.range count).foldl (fun s k => s ++ [s.getD (k + 1 - 2 ^ Nat.log 2 (k + 1)) 0
    * squares.getD (squares.length - 1 - Nat.log 2 (k + 1)) 0]) [first]

end Sums

variable {F P : Type*} [Field F] [AddCommGroup P] [Module F P]

/-! ## All rounds -/

/-- The factor of each entry of the bases after all rounds: the first challenge decides
between the halves. -/
def weights : List F → List F
  | [] => [1]
  | u :: us => (weights us).map (u⁻¹ * ·) ++ (weights us).map (u * ·)

theorem length_weights (us : List F) : (weights us).length = 2 ^ us.length := by
  induction us with
  | nil => rfl
  | cons u us ih =>
    rw [weights, List.length_append, List.length_map, List.length_map, ih, List.length_cons]
    omega

/-- Backwards, the weights are those of the inverses. -/
theorem reverse_weights (us : List F) : (weights us).reverse = weights (us.map (·⁻¹)) := by
  induction us with
  | nil => rfl
  | cons u us ih =>
    rw [weights, List.reverse_append, ← List.map_reverse, ← List.map_reverse, ih, List.map_cons,
      weights, inv_inv]

/-- The first weight. -/
theorem getD_weights_zero (us : List F) : (weights us).getD 0 0 = (us.map (·⁻¹)).prod := by
  induction us with
  | nil => rfl
  | cons u us ih =>
    have hpos : 0 < (weights us).length := by
      rw [length_weights]
      exact Nat.two_pow_pos _
    rw [weights, List.getD_append _ _ _ _ (by rwa [List.length_map]), List.map_cons,
      List.prod_cons, ← ih, getD_map _ hpos 0]

/-- The entries of the two halves. -/
theorem getD_weights_cons (u : F) (us : List F) {i : ℕ} (hi : i < 2 ^ us.length) :
    (weights (u :: us)).getD i 0 = u⁻¹ * (weights us).getD i 0
      ∧ (weights (u :: us)).getD (2 ^ us.length + i) 0 = u * (weights us).getD i 0 := by
  have hlen : i < (weights us).length := by rwa [length_weights]
  refine ⟨?_, ?_⟩
  · rw [weights, List.getD_append _ _ _ _ (by rwa [List.length_map]), getD_map _ hlen 0]
  · rw [weights, List.getD_append_right _ _ _ _ (by rw [List.length_map, length_weights]; omega),
      List.length_map, length_weights, Nat.add_sub_cancel_left, getD_map _ hlen 0]

/-- Each weight comes from the one without its top bit, by the square of that bit's challenge. -/
theorem getD_weights {us : List F} (hus : ∀ u ∈ us, u ≠ 0) {i : ℕ} (hpos : 0 < i)
    (hi : i < 2 ^ us.length) :
    (weights us).getD i 0 = (weights us).getD (i - 2 ^ Nat.log 2 i) 0
      * (us.getD (us.length - 1 - Nat.log 2 i) 0 * us.getD (us.length - 1 - Nat.log 2 i) 0) := by
  induction us with
  | nil => simp at hi; omega
  | cons u us ih =>
    rw [List.length_cons, pow_succ, Nat.mul_two] at hi
    rw [List.length_cons, Nat.add_sub_cancel]
    by_cases htop : i < 2 ^ us.length
    · have hlog : Nat.log 2 i < us.length := Nat.log_lt_of_lt_pow hpos.ne' htop
      have hindex : us.length - Nat.log 2 i = us.length - 1 - Nat.log 2 i + 1 := by omega
      rw [(getD_weights_cons u us htop).1,
        (getD_weights_cons u us ((Nat.sub_le _ _).trans_lt htop)).1,
        ih (fun v hv => hus v (List.mem_cons_of_mem _ hv)) htop, hindex, List.getD_cons_succ]
      ring
    · have hlog : Nat.log 2 i = us.length := by
        refine Nat.log_eq_of_pow_le_of_lt_pow (by omega) ?_
        rw [pow_succ]
        omega
      obtain ⟨j, rfl⟩ := Nat.exists_eq_add_of_le (Nat.le_of_not_lt htop)
      have hu : u ≠ 0 := hus u List.mem_cons_self
      rw [hlog, Nat.sub_self, List.getD_cons_zero, Nat.add_sub_cancel_left,
        (getD_weights_cons u us (by omega)).2, (getD_weights_cons u us (by omega)).1]
      rw [mul_comm u⁻¹, mul_assoc, ← mul_assoc u⁻¹, inv_mul_cancel₀ hu, one_mul, mul_comm]

/-- They are the weights. -/
theorem weightsFrom_eq {us : List F} (hus : ∀ u ∈ us, u ≠ 0) {count : ℕ}
    (hcount : count < 2 ^ us.length) :
    weightsFrom (us.map (·⁻¹)).prod (us.map fun u => u * u) count
      = (weights us).take (count + 1) := by
  induction count with
  | zero =>
    have hlen := length_weights us
    obtain ⟨x, xs, hx⟩ : ∃ x xs, weights us = x :: xs :=
      List.exists_cons_of_length_pos (by rw [hlen]; exact Nat.two_pow_pos _)
    rw [← getD_weights_zero, hx]
    rfl
  | succ count ih =>
    have hlen := length_weights us
    have hlt : count + 1 < (weights us).length := by omega
    have hlow := Nat.pow_log_le_self 2 (Nat.succ_ne_zero count)
    have hpow := Nat.two_pow_pos (Nat.log 2 (count + 1))
    have hsquare : (us.map fun u => u * u).getD (us.length - 1 - Nat.log 2 (count + 1)) 0
        = us.getD (us.length - 1 - Nat.log 2 (count + 1)) 0
          * us.getD (us.length - 1 - Nat.log 2 (count + 1)) 0 := by
      rw [← mul_zero (0 : F), List.getD_map, mul_zero]
    have hstep : weightsFrom (us.map (·⁻¹)).prod (us.map fun u => u * u) (count + 1)
        = weightsFrom (us.map (·⁻¹)).prod (us.map fun u => u * u) count
          ++ [(weightsFrom (us.map (·⁻¹)).prod (us.map fun u => u * u) count).getD
              (count + 1 - 2 ^ Nat.log 2 (count + 1)) 0
            * (us.map fun u => u * u).getD
              ((us.map fun u => u * u).length - 1 - Nat.log 2 (count + 1)) 0] := by
      unfold weightsFrom
      rw [List.range_succ, List.foldl_append]
      rfl
    rw [hstep, ih (by omega), List.length_map, hsquare, List.getD_eq_getElem?_getD,
      List.getElem?_take_of_lt (by omega), ← List.getD_eq_getElem?_getD,
      ← getD_weights hus (Nat.succ_pos count) hcount, List.getD_eq_getElem _ _ hlt,
      List.take_append_getElem]

/-- The weights of the inverses, read from the weights. -/
theorem getD_weights_inv (us : List F) {i : ℕ} (hi : i < 2 ^ us.length) :
    (weights (us.map (·⁻¹))).getD i 0 = (weights us).getD (2 ^ us.length - 1 - i) 0 := by
  have hlen := length_weights us
  rw [← reverse_weights, List.getD_eq_getElem _ _ (by rw [List.length_reverse]; omega),
    List.getElem_reverse, ← List.getD_eq_getElem _ 0, hlen]

/-- Weighing the bases is weighing the folded bases. -/
theorem dot_weights_cons (u : F) (us : List F) {gL gR : List P} (hgL : gL.length = 2 ^ us.length)
    (hgR : gR.length = 2 ^ us.length) :
    dot (weights (u :: us)) (gL ++ gR) = dot (weights us) (mix u⁻¹ u gL gR) := by
  have hlen : ((weights us).map (u⁻¹ * ·)).length = gL.length := by
    rw [List.length_map, length_weights, hgL]
  rw [weights, dot_append hlen, dot_map_mul, dot_map_mul, dot_mix_right (hgL.trans hgR.symm)]

theorem length_take_half {α : Type*} {l : List α} {n half : ℕ} (hl : l.length = n + n)
    (hhalf : half = n) : (l.take half).length = n := by
  rw [List.length_take]
  omega

theorem length_drop_half {α : Type*} {l : List α} {n half : ℕ} (hl : l.length = n + n)
    (hhalf : half = n) : (l.drop half).length = n := by
  rw [List.length_drop]
  omega

end InnerProduct
