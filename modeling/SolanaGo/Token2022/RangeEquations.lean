/-
What the verifier's one sum stands for.

The range argument has two equations. One opens the polynomial commitment: `t_x` is the value
of the committed polynomial, whose constant term is made of the commitments and of
`delta(y, z)`. The other is the inner-product relation, checked by folding the generators round
by round. `verifyBatchedRangeProof` checks neither: it takes them together with a challenge `d`,
with the generators not folded but weighed by the list `s`.

Here both equations are stated on their own, with sums and powers in place of the loops
(`PolynomialEquation`, `InnerProductRelation`). The verifier's sum is `d` times the difference
of the first plus the difference of the second (`rangeProofSum_eq`), so it vanishes for two
values of `d` exactly if both hold.
-/
import SolanaGo.Lib.FoldingCheck
import SolanaGo.Token2022.RangeComplete

set_option autoImplicit false

namespace SolanaGo.Token2022

open Codec Buffer InnerProduct

/-! ## The reference equations -/

section Reference

variable {ℓ : ℕ} {P : Type} [AddCommGroup P] [Module (ZMod ℓ) P]

/-- The weights of the positions: `z ^ (j + 2) * 2 ^ bit` for each bit of the `j`-th value. -/
def referenceWeights (z : ZMod ℓ) (bitLengths : List ℕ) : List (ZMod ℓ) :=
  (bitLengths.zipIdx.map fun value =>
    (List.range value.1).map fun bit => z ^ (value.2 + 2) * (2 ^ bit : ℕ)).flatten

/-- `delta(y, z)`. -/
def referenceDelta (bitLengths : List ℕ) (y z : ZMod ℓ) : ZMod ℓ :=
  (z - z ^ 2) * ∑ i ∈ Finset.range bitLengths.sum, y ^ i
    - (bitLengths.zipIdx.map fun value =>
      z ^ (value.2 + 3) * ((∑ bit ∈ Finset.range value.1, 2 ^ bit : ℕ) : ZMod ℓ)).sum

/-- The second bases, scaled by the inverse powers of `y`. -/
def referenceBases (h : List P) (y : ZMod ℓ) (totalBits : ℕ) : List P :=
  (List.range totalBits).map fun i => y⁻¹ ^ i • h.getD i 0

namespace ConfidentialTransferService

variable (service : ConfidentialTransferService ℓ P) (proof : BatchedRangeProof ℓ)
  (points : RangeProofPoints P) (generators : RangeProofGenerators P) (commitments : List P)
  (bitLengths : List ℕ) (totalBits : ℕ) (c : RangeChallenges ℓ)

/-- What the polynomial commitment opens to at `x`. -/
def polynomialOpening : P :=
  ∑ j ∈ Finset.range commitments.length, c.z ^ (j + 2) • commitments.getD j 0
    + referenceDelta bitLengths c.y c.z • service.curve.base + c.x • points.t1 + c.x ^ 2 • points.t2

/-- The polynomial-commitment equation for `t_x`. -/
def PolynomialEquation : Prop :=
  proof.tx • service.curve.base + proof.txBlinding • service.curve.openingBase
    = service.polynomialOpening points commitments bitLengths c

/-- The commitment to the two vectors and their inner product, as the verifier knows it. -/
def vectorCommitment : P :=
  points.a + c.x • points.s - proof.eBlinding • service.curve.openingBase
    + (c.w * proof.tx) • service.curve.base
    - c.z • ∑ i ∈ Finset.range totalBits, generators.g.getD i 0
    + ∑ i ∈ Finset.range totalBits,
      (c.z * c.y ^ i + (referenceWeights c.z bitLengths).getD i 0)
        • (referenceBases generators.h c.y totalBits).getD i 0

/-- The inner-product relation, checked by folding the generators. -/
def InnerProductRelation [Fact ℓ.Prime] : Prop :=
  FoldsTo (c.w • service.curve.base) proof.innerProduct.a proof.innerProduct.b c.rounds
    points.left points.right generators.g (referenceBases generators.h c.y totalBits)
    (service.vectorCommitment proof points generators bitLengths totalBits c)

/-- The sum that `verifyBatchedRangeProof` compares with the identity. -/
def rangeProofSum : P :=
  multiscalarMul
    (rangeProofScalars proof (rangeVerificationScalars c.rounds totalBits) commitments.length
      bitLengths totalBits c.y c.z c.x c.w c.d)
    (service.rangeProofSumPoints points generators commitments)

end ConfidentialTransferService

/-! ## The loops and the reference sums -/

theorem length_referenceBases (h : List P) (y : ZMod ℓ) (totalBits : ℕ) :
    (referenceBases h y totalBits).length = totalBits := by
  rw [referenceBases, List.length_map, List.length_range]

theorem getD_referenceBases (h : List P) (y : ZMod ℓ) {totalBits i : ℕ} (hi : i < totalBits) :
    (referenceBases h y totalBits).getD i 0 = y⁻¹ ^ i • h.getD i 0 := getD_map_range _ hi 0

theorem scalarPowersFrom_eq_map (value current : ZMod ℓ) (size : ℕ) :
    scalarPowersFrom value size current = (List.range size).map fun i => current * value ^ i := by
  refine List.ext_getElem (by simp) fun i hi hi' => ?_
  have hsize : i < size := by simpa using hi
  rw [← List.getD_eq_getElem _ 0 hi, getD_scalarPowersFrom value current hsize, List.getElem_map,
    List.getElem_range]

/-- The loop over the values: `zPower` is a power by the position. -/
theorem bitWeights_eq (z : ZMod ℓ) (bitLengths : List ℕ) (m e : ℕ) :
    bitWeights z (z ^ (m + e)) bitLengths
      = ((bitLengths.zipIdx m).map fun value =>
        (List.range value.1).map fun bit => z ^ (value.2 + e) * 2 ^ bit).flatten := by
  induction bitLengths generalizing m with
  | nil => rfl
  | cons bitLength bitLengths ih =>
    rw [bitWeights, ← pow_succ, Nat.add_right_comm, ih, twoPowers_eq, map_mul_scalarPowersFrom,
      mul_one, scalarPowersFrom_eq_map, List.zipIdx_cons, List.map_cons, List.flatten_cons]

theorem bitWeights_eq_reference (z : ZMod ℓ) (bitLengths : List ℕ) :
    bitWeights z (z * z) bitLengths = referenceWeights z bitLengths := by
  rw [← sq, ← Nat.zero_add 2, bitWeights_eq]
  simp only [referenceWeights, Nat.cast_pow, Nat.cast_ofNat]

/-- The loop of `rangeProofDelta`, the same way. -/
theorem rangeProofDeltaFrom_eq_reference (z delta : ZMod ℓ) (bitLengths : List ℕ) (m e : ℕ) :
    rangeProofDeltaFrom z (z ^ (m + e)) delta bitLengths
      = delta - ((bitLengths.zipIdx m).map fun value =>
        z ^ (value.2 + e) * ∑ bit ∈ Finset.range value.1, 2 ^ bit).sum := by
  induction bitLengths generalizing m delta with
  | nil => simp [rangeProofDeltaFrom]
  | cons bitLength bitLengths ih =>
    rw [rangeProofDeltaFrom, ← pow_succ, Nat.add_right_comm, ih, scalarPowerSum_eq,
      Nat.cast_ofNat, List.zipIdx_cons, List.map_cons, List.sum_cons, sub_sub]

theorem rangeProofDelta_eq_reference (bitLengths : List ℕ) (y z : ZMod ℓ) :
    rangeProofDelta bitLengths y z = referenceDelta bitLengths y z := by
  show rangeProofDeltaFrom z (z * z * z) ((z - z * z) * scalarPowerSum y bitLengths.sum) bitLengths
    = referenceDelta bitLengths y z
  rw [← sq, ← pow_succ, ← Nat.zero_add (2 + 1), rangeProofDeltaFrom_eq_reference, scalarPowerSum_eq]
  simp only [referenceDelta, Nat.cast_sum, Nat.cast_pow, Nat.cast_ofNat]

/-- The scalars of the values, in the verifier's sum. -/
theorem dot_valueScalars (z d : ZMod ℓ) (commitments : List P) :
    dot ((scalarPowers z commitments.length).map fun zPower => d * (z * z * zPower)) commitments
      = d • ∑ j ∈ Finset.range commitments.length, z ^ (j + 2) • commitments.getD j 0 := by
  have hlen : ((scalarPowers z commitments.length).map fun zPower => d * (z * z * zPower)).length
      = commitments.length := by
    rw [List.length_map, length_scalarPowers]
  have hentries : ∀ j < commitments.length,
      ((scalarPowers z commitments.length).map fun zPower => d * (z * z * zPower)).getD j 0
        = d * z ^ (j + 2) := by
    intro j hj
    rw [getD_map _ (by rwa [length_scalarPowers]) 0, getD_scalarPowers z hj]
    ring
  rw [dot_eq_sum_of hlen rfl hentries fun _ _ => rfl, Finset.smul_sum]
  exact Finset.sum_congr rfl fun j _ => mul_smul _ _ _

/-- The scalars of the first generators. -/
theorem dot_gs (z a : ZMod ℓ) {n : ℕ} {g : List P} (hg : g.length = n) {s : List (ZMod ℓ)}
    (hs : s.length = n) :
    dot ((List.range n).map fun index => -z - a * s.getD index 0) g
      = -(z • ∑ i ∈ Finset.range n, g.getD i 0) - a • dot s g := by
  have hlen : ((List.range n).map fun index => -z - a * s.getD index 0).length = n := by
    rw [List.length_map, List.length_range]
  rw [dot_eq_sum_of hlen hg (fun i hi => getD_map_range _ hi 0) fun _ _ => rfl, dot_eq_sum hs hg,
    Finset.smul_sum, Finset.smul_sum, ← Finset.sum_neg_distrib, ← Finset.sum_sub_distrib]
  refine Finset.sum_congr rfl fun i _ => ?_
  module

variable [Fact ℓ.Prime]

/-- The scalars of the second generators. `s` is read backwards, which inverts the challenges. -/
theorem dot_hs {y : ZMod ℓ} (hy : y ≠ 0) (z b : ZMod ℓ) {n : ℕ} {h : List P} (hh : h.length = n)
    {bitLengths : List ℕ} (hbits : bitLengths.sum = n) {us : List (ZMod ℓ)}
    (hn : n = 2 ^ us.length) :
    dot ((List.range n).map fun index => z + (scalarPowers y⁻¹ n).getD index 0
          * (z * z * (bitWeights z 1 bitLengths).getD index 0
            - b * (weights us).getD (n - 1 - index) 0)) h
      = ∑ i ∈ Finset.range n, (z * y ^ i + (referenceWeights z bitLengths).getD i 0)
          • (referenceBases h y n).getD i 0
        - b • dot (weights (us.map (·⁻¹))) (referenceBases h y n) := by
  have hlen : ((List.range n).map fun index => z + (scalarPowers y⁻¹ n).getD index 0
      * (z * z * (bitWeights z 1 bitLengths).getD index 0
        - b * (weights us).getD (n - 1 - index) 0)).length = n := by
    rw [List.length_map, List.length_range]
  have hinverse : (weights (us.map (·⁻¹))).length = n := by
    rw [length_weights, List.length_map, hn]
  have hweight : ∀ i < n, z * z * (bitWeights z 1 bitLengths).getD i 0
      = (referenceWeights z bitLengths).getD i 0 := by
    intro i hi
    have hi' : i < (bitWeights z 1 bitLengths).length := by
      rwa [length_bitWeights, hbits]
    rw [← getD_map (z * z * ·) hi' 0 0, ← bitWeights_mul, mul_one, bitWeights_eq_reference]
  rw [dot_eq_sum_of hlen hh (fun i hi => getD_map_range _ hi 0) fun _ _ => rfl,
    dot_eq_sum hinverse (length_referenceBases h y n), Finset.smul_sum, ← Finset.sum_sub_distrib]
  refine Finset.sum_congr rfl fun i hi => ?_
  have hi' : i < n := Finset.mem_range.mp hi
  have hpow : y ^ i * y⁻¹ ^ i = 1 := by rw [← mul_pow, mul_inv_cancel₀ hy, one_pow]
  rw [hweight i hi', getD_scalarPowers _ hi', getD_referenceBases h y hi',
    getD_weights_inv us (hn ▸ hi'), ← hn]
  match_scalars
  linear_combination -z * hpow

end Reference

namespace ConfidentialTransferService

variable {ℓ : ℕ} [Fact ℓ.Prime] {P : Type} [AddCommGroup P] [Module (ZMod ℓ) P]
  (service : ConfidentialTransferService ℓ P)

/-! ## The sum -/

/-- What the two sides of the inner-product relation differ by, with the rounds in one sum. -/
def foldingDifference (proof : BatchedRangeProof ℓ) (points : RangeProofPoints P)
    (generators : RangeProofGenerators P) (bitLengths : List ℕ) (totalBits : ℕ)
    (c : RangeChallenges ℓ) : P :=
  service.vectorCommitment proof points generators bitLengths totalBits c
    + dot (c.rounds.map fun u => u * u) points.left
    + dot (c.rounds.map fun u => u⁻¹ * u⁻¹) points.right
    - (proof.innerProduct.a • dot (weights c.rounds) generators.g
      + proof.innerProduct.b • dot (weights (c.rounds.map (·⁻¹)))
        (referenceBases generators.h c.y totalBits)
      + (proof.innerProduct.a * proof.innerProduct.b) • c.w • service.curve.base)

section Sum

variable {service} {proof : BatchedRangeProof ℓ} {points : RangeProofPoints P}
  {generators : RangeProofGenerators P} {commitments : List P} {bitLengths : List ℕ} {n : ℕ}
  {c : RangeChallenges ℓ}

/-- **The verifier's sum** is affine in `d`: the difference of the inner-product relation, and
`d` times that of the polynomial-commitment equation. -/
theorem rangeProofSum_eq (hg : generators.g.length = n) (hh : generators.h.length = n)
    (hbits : bitLengths.sum = n) (hn : n = 2 ^ c.rounds.length)
    (hleft : points.left.length = c.rounds.length) (hright : points.right.length = c.rounds.length)
    (hy : c.y ≠ 0) (hu : ∀ u ∈ c.rounds, u ≠ 0) :
    service.rangeProofSum proof points generators commitments bitLengths n c
      = service.foldingDifference proof points generators bitLengths n c
        + c.d • (service.polynomialOpening points commitments bitLengths c
          - (proof.tx • service.curve.base + proof.txBlinding • service.curve.openingBase)) := by
  have hweights : (weights c.rounds).length = n := (length_weights c.rounds).trans hn.symm
  unfold rangeProofSum rangeProofScalars rangeProofSumPoints multiscalarMul
  simp only [List.cons_append, List.nil_append, dot_cons]
  rw [dot_append, dot_append, dot_append, dot_append, s_eq_weights hu hn, dot_valueScalars,
    dot_gs c.z _ hg hweights, dot_hs hy c.z _ hh hbits hn, rangeProofDelta_eq_reference]
  · unfold foldingDifference vectorCommitment polynomialOpening
    simp only [rangeVerificationScalars, List.map_map, Function.comp_def]
    module
  · rw [List.length_map, List.length_range, hh]
  · rw [List.length_map, List.length_range, hg]
  · show ((c.rounds.map (·⁻¹)).map _).length = points.right.length
    rw [List.length_map, List.length_map, hright]
  · show (c.rounds.map _).length = points.left.length
    rw [List.length_map, hleft]

/-- The inner-product relation, with the rounds in one sum. -/
theorem innerProductRelation_iff (hg : generators.g.length = n) (hn : n = 2 ^ c.rounds.length)
    (hleft : points.left.length = c.rounds.length)
    (hright : points.right.length = c.rounds.length) :
    service.InnerProductRelation proof points generators bitLengths n c
      ↔ service.foldingDifference proof points generators bitLengths n c = 0 := by
  unfold InnerProductRelation foldingDifference
  rw [foldsTo_iff _ _ _ _ hleft hright (hg.trans hn)
    ((length_referenceBases _ _ _).trans hn), sub_eq_zero]

end Sum

/-! ## The equivalence -/

/-- **One sum for two equations.** For a proof whose points are not the identity, and for
challenges `y` and of all rounds that are not zero, the verifier's sum vanishes for two different
values of `d` exactly if the polynomial-commitment equation and the inner-product relation hold.
The scalars `s` are the products of challenges and inverses by the bits of their positions, with
the inverse at the mirrored position. With the challenges that are read from the transcript, the
verifier accepts exactly if the sum vanishes. -/
theorem rangeProofSum_iff_equations [DecidableEq P] (hlaw : service.curve.Lawful)
    (hgenerators : service.HasGenerators) (proof : BatchedRangeProof ℓ)
    (points : RangeProofPoints P) (hencodes : service.Encodes proof points)
    (hid : points.NoIdentity) (commitments : List P) (bitLengths : List ℕ)
    (hcount : commitments.length = bitLengths.length) {k : ℕ} (hbits : bitLengths.sum = 2 ^ k)
    (hleft : points.left.length = k) (hright : points.right.length = k) (c : RangeChallenges ℓ)
    (hrounds : c.rounds.length = k) (hy : c.y ≠ 0) (hu : ∀ u ∈ c.rounds, u ≠ 0) :
    (∀ d1 d2, d1 ≠ d2 →
        (service.rangeProofSum proof points (service.rangeGenerators (2 ^ k)) commitments bitLengths
            (2 ^ k) { c with d := d1 } = 0
          ∧ service.rangeProofSum proof points (service.rangeGenerators (2 ^ k)) commitments
            bitLengths (2 ^ k) { c with d := d2 } = 0
        ↔ service.PolynomialEquation proof points commitments bitLengths c
          ∧ service.InnerProductRelation proof points (service.rangeGenerators (2 ^ k)) bitLengths
            (2 ^ k) c))
      ∧ (∀ i < 2 ^ k,
        (rangeVerificationScalars c.rounds (2 ^ k)).s.getD i 0
            = ∏ j ∈ Finset.range k,
              (if i.testBit (k - 1 - j) then c.rounds.getD j 0 else (c.rounds.getD j 0)⁻¹)
          ∧ (rangeVerificationScalars c.rounds (2 ^ k)).s.getD (2 ^ k - 1 - i) 0
            = ((rangeVerificationScalars c.rounds (2 ^ k)).s.getD i 0)⁻¹)
      ∧ ∀ (merlin : Transcript → ZMod ℓ) (transcript : Transcript), 0 < k → k < 32 →
        c = service.rangeChallenges merlin proof (2 ^ k) transcript →
        (service.verifyBatchedRangeProof merlin proof commitments bitLengths (2 ^ k) transcript
            = .ok ()
          ↔ service.rangeProofSum proof points (service.rangeGenerators (2 ^ k)) commitments
            bitLengths (2 ^ k) c = 0) := by
  obtain ⟨hg, hh⟩ := length_rangeGenerators hgenerators (2 ^ k)
  have hn : 2 ^ k = 2 ^ c.rounds.length := by rw [hrounds]
  refine ⟨?_, ?_, ?_⟩
  · intro d1 d2 hd
    rw [← hrounds] at hleft hright
    have hsum : ∀ d, service.rangeProofSum proof points (service.rangeGenerators (2 ^ k))
        commitments bitLengths (2 ^ k) { c with d := d } = _ :=
      fun d => rangeProofSum_eq (c := { c with d := d }) hg hh hbits hn hleft hright hy hu
    rw [hsum d1, hsum d2, innerProductRelation_iff hg hn hleft hright]
    -- Neither equation reads `d`.
    refine (affine_eq_zero_twice_iff hd).trans ?_
    rw [sub_eq_zero, and_comm]
    exact and_congr_left fun _ => eq_comm
  · intro i hi
    rw [s_eq_weights hu hn]
    subst hrounds
    exact ⟨getD_weights_eq_prod c.rounds hi, getD_weights_mirror c.rounds hi⟩
  · intro merlin transcript hk hk' hc
    have haccepts := verifyBatchedRangeProof_eq_ok hlaw hencodes hk hk' hc hrounds hleft hright
      hg hh hcount
    rw [haccepts, and_iff_right hid]
    rfl

end ConfidentialTransferService

/-! ## In the sample group -/

/-- Points of a proof with one round. -/
def sampleRangePoints : ConfidentialTransferService.RangeProofPoints (ZMod sampleOrder) :=
  ⟨1, 1, 1, 1, [1], [1]⟩

/-- A proof that holds them, for the value behind the commitment `7`. -/
def sampleRangeProof : BatchedRangeProof sampleOrder where
  a := sampleProver.pedersenCommitment 1
  s := sampleProver.pedersenCommitment 1
  t1 := sampleProver.pedersenCommitment 1
  t2 := sampleProver.pedersenCommitment 1
  tx := (4 : ℕ)
  txBlinding := 1
  eBlinding := (2 : ℕ)
  innerProduct := ⟨[sampleProver.pedersenCommitment 1], [sampleProver.pedersenCommitment 1],
    (2 : ℕ), 1⟩

open ConfidentialTransferService in
/-- With all challenges one, the sum over the generators `3`, `4` and `5`, `7` vanishes for
every `d`. -/
theorem rangeProofSum_sample (d : ZMod sampleOrder) :
    sampleProver.rangeProofSum sampleRangeProof sampleRangePoints
      (sampleProver.rangeGenerators (2 ^ 1)) [7] [2] (2 ^ 1) ⟨1, 1, 1, 1, [1], d⟩ = 0 := by
  have hrange : List.range 2 = [0, 1] := rfl
  have hscalars : rangeVerificationScalars [(1 : ZMod sampleOrder)] (2 ^ 1) = ⟨[1], [1], [1, 1]⟩ :=
    by simp [rangeVerificationScalars, weightsFrom]
  simp only [rangeProofSum, hscalars, rangeGenerators, rangeProofScalars, rangeProofSumPoints]
  simp [sampleProver, sampleCurve, sampleRangeProof, sampleRangePoints, multiscalarMul, hrange,
    Ristretto.newRangeProofGenerators, scalarPowers, scalarPowersFrom, bitWeights, twoPowers,
    rangeProofDelta, rangeProofDeltaFrom, scalarPowerSum]
  ring

/-- One value of two bits: the verifier accepts, and both equations hold. -/
theorem rangeProofSum_iff_equations_sample :
    sampleProver.verifyBatchedRangeProof (fun _ => 1) sampleRangeProof [7] [2] (2 ^ 1) [] = .ok ()
      ∧ sampleProver.PolynomialEquation sampleRangeProof sampleRangePoints [7] [2]
        ⟨1, 1, 1, 1, [1], 1⟩
      ∧ sampleProver.InnerProductRelation sampleRangeProof sampleRangePoints
        (sampleProver.rangeGenerators (2 ^ 1)) [2] (2 ^ 1) ⟨1, 1, 1, 1, [1], 1⟩ := by
  obtain ⟨hequations, -, haccepts⟩ :=
    sampleProver.rangeProofSum_iff_equations sampleCurve_lawful ⟨0, rfl⟩ sampleRangeProof
      sampleRangePoints ⟨rfl, rfl, rfl, rfl, rfl, rfl⟩
      ⟨one_ne_zero, one_ne_zero, one_ne_zero, one_ne_zero, by simp [sampleRangePoints],
        by simp [sampleRangePoints]⟩
      [7] [2] rfl rfl rfl rfl ⟨1, 1, 1, 1, [1], 1⟩ rfl one_ne_zero (by simp)
  refine ⟨(haccepts _ [] Nat.one_pos (by decide) rfl).mpr (rangeProofSum_sample 1), ?_⟩
  exact (hequations 0 1 zero_ne_one).mp ⟨rangeProofSum_sample 0, rangeProofSum_sample 1⟩

end SolanaGo.Token2022
