/-
`confidential_range.go`: the verifier of batched range proofs.

It reads the challenges from the transcript and checks everything with one sum of points. The
nested loops over the amounts and their bits are lists here, one entry for each bit of each
amount.
-/
import SolanaGo.Token2022.RangeInnerProduct

set_option autoImplicit false

namespace SolanaGo.Token2022

open Codec Buffer InnerProduct

/-- `type batchedRangeProof struct`. -/
structure BatchedRangeProof (ℓ : ℕ) where
  a : PedersenCommitment
  s : PedersenCommitment
  t1 : PedersenCommitment
  t2 : PedersenCommitment
  tx : ZMod ℓ
  txBlinding : ZMod ℓ
  eBlinding : ZMod ℓ
  innerProduct : RangeInnerProductProof ℓ

/-! ## Bits and their weights -/

section Scalars

variable {ℓ : ℕ}

/-- The values of `twoPower` in the loop over the bits of an amount. -/
def twoPowers : ℕ → ZMod ℓ → List (ZMod ℓ)
  | 0, _ => []
  | count + 1, twoPower => twoPower :: twoPowers count (twoPower + twoPower)

/-- `zPower * twoPower` for every position; `zPower` grows with the amounts. -/
def bitWeights (z : ZMod ℓ) : ZMod ℓ → List ℕ → List (ZMod ℓ)
  | _, [] => []
  | zPower, bitLength :: bitLengths =>
    (twoPowers bitLength 1).map (zPower * ·) ++ bitWeights z (zPower * z) bitLengths

/-- The loop of `rangeProofDelta`. -/
def rangeProofDeltaFrom (z : ZMod ℓ) : ZMod ℓ → ZMod ℓ → List ℕ → ZMod ℓ
  | _, delta, [] => delta
  | zPower, delta, bitLength :: bitLengths =>
    rangeProofDeltaFrom z (zPower * z) (delta - zPower * scalarPowerSum (2 : ℕ) bitLength) bitLengths

/-- `rangeProofDelta`. -/
def rangeProofDelta (bitLengths : List ℕ) (y z : ZMod ℓ) : ZMod ℓ :=
  let zSquared := z * z
  rangeProofDeltaFrom z (zSquared * z) ((z - zSquared) * scalarPowerSum y bitLengths.sum) bitLengths

end Scalars

/-! ## Transcripts -/

/-- `appendRangeProofDomainSeparator`. -/
def Transcript.appendRangeProofDomainSeparator (transcript : Transcript) (size : ℕ) : Transcript :=
  (transcript.appendDomainSeparator "range-proof").appendUint64 "n" size

/-- The transcript after the challenge `y`. -/
def Transcript.rangeY (transcript : Transcript) (totalBits : ℕ) (a s : PedersenCommitment) :
    Transcript :=
  (((transcript.appendRangeProofDomainSeparator totalBits).append "A" a.toList).append "S"
    s.toList).extract "y"

/-- The transcript after the challenge `x`, from that after `z`. -/
def Transcript.rangeX (transcript : Transcript) (t1 t2 : PedersenCommitment) : Transcript :=
  ((transcript.append "T_1" t1.toList).append "T_2" t2.toList).extract "x"

/-- The challenges of a range proof, with those of the inner-product argument. -/
structure RangeChallenges (ℓ : ℕ) where
  y : ZMod ℓ
  z : ZMod ℓ
  x : ZMod ℓ
  w : ZMod ℓ
  rounds : List (ZMod ℓ)
  d : ZMod ℓ

namespace ConfidentialTransferService

variable {ℓ : ℕ} {P : Type} [AddCommGroup P] [Module (ZMod ℓ) P] [DecidableEq P]
  (service : ConfidentialTransferService ℓ P) (merlin : Transcript → ZMod ℓ)

/-- The transcript after the challenge `w`, from that after `x`. -/
def rangeW (transcript : Transcript) (tx txBlinding eBlinding : ZMod ℓ) : Transcript :=
  (((transcript.append "t_x" (service.curve.scalarBytes tx).toList).append "t_x_blinding"
    (service.curve.scalarBytes txBlinding).toList).append "e_blinding"
      (service.curve.scalarBytes eBlinding).toList).extract "w"

/-- The transcript after the challenge `d`, from that after all rounds. -/
def rangeD (transcript : Transcript) (a b : ZMod ℓ) : Transcript :=
  ((transcript.append "ipp_a" (service.curve.scalarBytes a).toList).append "ipp_b"
    (service.curve.scalarBytes b).toList).extract "d"

/-- The challenges that are read with a proof. -/
def rangeChallenges (proof : BatchedRangeProof ℓ) (totalBits : ℕ) (transcript : Transcript) :
    RangeChallenges ℓ :=
  let afterY := transcript.rangeY totalBits proof.a proof.s
  let afterZ := afterY.extract "z"
  let afterX := afterZ.rangeX proof.t1 proof.t2
  let afterW := service.rangeW afterX proof.tx proof.txBlinding proof.eBlinding
  let beforeRounds := (afterW.extract "c").appendRangeInnerProductDomainSeparator totalBits
  let afterRounds := beforeRounds.appendRounds proof.innerProduct.left proof.innerProduct.right
  { y := merlin afterY
    z := merlin afterZ
    x := merlin afterX
    w := merlin afterW
    rounds :=
      roundChallenges merlin proof.innerProduct.left proof.innerProduct.right beforeRounds
    d := merlin (service.rangeD afterRounds proof.innerProduct.a proof.innerProduct.b) }

/-! ## The verifier -/

/-- The points of a proof, decoded. -/
structure RangeProofPoints (P : Type) where
  a : P
  s : P
  t1 : P
  t2 : P
  left : List P
  right : List P

/-- The scalars of the verifier's sum. -/
def rangeProofScalars (proof : BatchedRangeProof ℓ) (scalars : RangeVerificationScalars ℓ)
    (commitmentCount : ℕ) (bitLengths : List ℕ) (totalBits : ℕ) (y z x w d : ZMod ℓ) :
    List (ZMod ℓ) :=
  let zSquared := z * z
  let zAndTwo := bitWeights z 1 bitLengths
  let yInversePowers := scalarPowers y⁻¹ totalBits
  let gs := (List.range totalBits).map fun index =>
    -z - proof.innerProduct.a * scalars.s.getD index 0
  let hs := (List.range totalBits).map fun index =>
    z + yInversePowers.getD index 0 * (zSquared * zAndTwo.getD index 0
      - proof.innerProduct.b * scalars.s.getD (totalBits - 1 - index) 0)
  let basepointScalar := w * (proof.tx - proof.innerProduct.a * proof.innerProduct.b)
    + d * (rangeProofDelta bitLengths y z - proof.tx)
  let valueScalars := (scalarPowers z commitmentCount).map fun zPower => d * (zSquared * zPower)
  [1, x, d * x, d * (x * x), -(proof.eBlinding + d * proof.txBlinding), basepointScalar]
    ++ (scalars.challengeSquares ++ (scalars.inverseSquares ++ (gs ++ (hs ++ valueScalars))))

/-- The points of the verifier's sum. -/
def rangeProofSumPoints (points : RangeProofPoints P) (generators : RangeProofGenerators P)
    (commitments : List P) : List P :=
  [points.a, points.s, points.t1, points.t2, service.curve.openingBase, service.curve.base]
    ++ (points.left ++ (points.right ++ (generators.g ++ (generators.h ++ commitments))))

/-- `verifyBatchedRangeProof`. -/
def verifyBatchedRangeProof (proof : BatchedRangeProof ℓ) (commitments : List P)
    (bitLengths : List ℕ) (totalBits : ℕ) (transcript : Transcript) : Except Fault Unit := do
  refuse (commitments.length ≠ bitLengths.length ∨ totalBits = 0
    ∨ totalBits &&& (totalBits - 1) ≠ 0) (.message "invalid vector length")
  let generators := service.rangeGenerators totalBits
  let fault := .message "invalid range proof point"
  let a ← service.requirePoint proof.a "range proof point" fault
  let s ← service.requirePoint proof.s "range proof point" fault
  let t1 ← service.requirePoint proof.t1 "range proof point" fault
  let t2 ← service.requirePoint proof.t2 "range proof point" fault
  let transcript := transcript.rangeY totalBits proof.a proof.s
  let y := merlin transcript
  let transcript := transcript.extract "z"
  let z := merlin transcript
  let transcript := transcript.rangeX proof.t1 proof.t2
  let x := merlin transcript
  let transcript := service.rangeW transcript proof.tx proof.txBlinding proof.eBlinding
  let w := merlin transcript
  let (scalars, transcript) ← service.rangeInnerProductVerificationScalars merlin
    proof.innerProduct totalBits (transcript.extract "c")
  let d := merlin (service.rangeD transcript proof.innerProduct.a proof.innerProduct.b)
  let left ← proof.innerProduct.left.mapM fun encoded =>
    service.ristrettoPoint encoded.toList "range inner product L"
  let right ← proof.innerProduct.right.mapM fun encoded =>
    service.ristrettoPoint encoded.toList "range inner product R"
  let scalars := rangeProofScalars proof scalars commitments.length bitLengths totalBits y z x w d
  let points := service.rangeProofSumPoints ⟨a, s, t1, t2, left, right⟩ generators commitments
  refuse (scalars.length ≠ points.length) (.message "range proof multiscalar length mismatch")
  refuse (multiscalarMul scalars points ≠ 0) (.message "algebraic relation")

end ConfidentialTransferService

end SolanaGo.Token2022
