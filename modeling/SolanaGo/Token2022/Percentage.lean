/-
The proof of `confidential_percentage.go`: a fee is the maximum fee, or it is the
percentage of the amount that is claimed.

It is a proof of one of two statements. The prover answers the challenge for the statement
it can show, and simulates the other: it picks the other statement's responses first and
computes the commitments from them. The challenge is the sum of the two parts' challenges,
so one of them is free.
-/
import SolanaGo.Token2022.Validity

set_option autoImplicit false

namespace SolanaGo.Token2022

open Codec Buffer InnerProduct

/-- The commitments of the two parts of the proof. -/
structure PercentageCommitments (P : Type) where
  yMax : P
  yDelta : P
  yClaimed : P

/-- `type percentageWithCapProofValues struct`. -/
structure PercentageWithCapProofValues (ℓ : ℕ) (P : Type) extends PercentageCommitments P where
  zMax : ZMod ℓ
  cMax : ZMod ℓ
  zX : ZMod ℓ
  zDelta : ZMod ℓ
  zClaimed : ZMod ℓ

/-- The five random scalars of one of the provers. -/
structure PercentageWithCapScalars (ℓ : ℕ) where
  first : ZMod ℓ
  second : ZMod ℓ
  third : ZMod ℓ
  fourth : ZMod ℓ
  fifth : ZMod ℓ

namespace ConfidentialTransferService

variable {ℓ : ℕ} {P : Type} [AddCommGroup P] [Module (ZMod ℓ) P]
  (service : ConfidentialTransferService ℓ P)

/-! ## The two provers -/

/-- The commitments of `percentageWithCapAboveProof`: those of the equality part are computed
from its responses and its challenge. -/
def percentageAboveCommitments (delta claimed : P)
    (zX zDelta zClaimed equalityChallenge yMaxScalar : ZMod ℓ) : PercentageCommitments P where
  yMax := yMaxScalar • service.curve.openingBase
  yDelta := multiscalarMul [zX, zDelta, -equalityChallenge]
    [service.curve.base, service.curve.openingBase, delta]
  yClaimed := multiscalarMul [zX, zClaimed, -equalityChallenge]
    [service.curve.base, service.curve.openingBase, claimed]

/-- The values of `percentageWithCapAboveProof`. -/
def percentageAboveValues (percentageOpening : ZMod ℓ) (delta claimed : P)
    (zX zDelta zClaimed equalityChallenge yMaxScalar challenge : ZMod ℓ) :
    PercentageWithCapProofValues ℓ P where
  toPercentageCommitments := service.percentageAboveCommitments delta claimed zX zDelta zClaimed
    equalityChallenge yMaxScalar
  cMax := challenge - equalityChallenge
  zMax := (challenge - equalityChallenge) * percentageOpening + yMaxScalar
  zX := zX
  zDelta := zDelta
  zClaimed := zClaimed

/-- The commitments of `percentageWithCapBelowProof`: that of the maximum part is computed from
its response and its challenge. -/
def percentageBelowCommitments (percentage : P) (maxValue : ℕ)
    (zMax cMax yX yDeltaScalar yClaimedScalar : ZMod ℓ) : PercentageCommitments P where
  yMax := multiscalarMul [zMax, -cMax, cMax * (maxValue : ZMod ℓ)]
    [service.curve.openingBase, percentage, service.curve.base]
  yDelta := multiscalarMul [yX, yDeltaScalar] [service.curve.base, service.curve.openingBase]
  yClaimed := multiscalarMul [yX, yClaimedScalar] [service.curve.base, service.curve.openingBase]

/-- The values of `percentageWithCapBelowProof`. -/
def percentageBelowValues (percentage : P) (deltaOpening : ZMod ℓ) (deltaAmount : ℕ)
    (claimedOpening : ZMod ℓ) (maxValue : ℕ)
    (zMax cMax yX yDeltaScalar yClaimedScalar challenge : ZMod ℓ) :
    PercentageWithCapProofValues ℓ P where
  toPercentageCommitments := service.percentageBelowCommitments percentage maxValue zMax cMax yX
    yDeltaScalar yClaimedScalar
  zMax := zMax
  cMax := cMax
  zX := (challenge - cMax) * (deltaAmount : ZMod ℓ) + yX
  zDelta := (challenge - cMax) * deltaOpening + yDeltaScalar
  zClaimed := (challenge - cMax) * claimedOpening + yClaimedScalar

/-- What the verifier compares with the identity. -/
def percentageWithCapCheck (percentage delta claimed : P) (maxValue : ℕ)
    (proof : PercentageWithCapProofValues ℓ P) (challenge batching : ZMod ℓ) : P :=
  let equalityChallenge := challenge - proof.cMax
  let batchingSquared := batching * batching
  multiscalarMul
    [proof.cMax, -(proof.cMax * (maxValue : ZMod ℓ)), -proof.zMax, 1,
      batching * proof.zX, batching * proof.zDelta, -(batching * equalityChallenge), -batching,
      batchingSquared * proof.zX, batchingSquared * proof.zClaimed,
      -(batchingSquared * equalityChallenge), -batchingSquared]
    [percentage, service.curve.base, service.curve.openingBase, proof.yMax,
      service.curve.base, service.curve.openingBase, delta, proof.yDelta,
      service.curve.base, service.curve.openingBase, claimed, proof.yClaimed]

section Algebra

variable {service}

/-- The proof for the maximum passes the check, whatever the delta and claimed commitments
are. -/
theorem percentageWithCapCheck_above {maxValue : ℕ} {percentageOpening : ZMod ℓ} (delta claimed : P)
    (zX zDelta zClaimed equalityChallenge yMaxScalar challenge batching : ZMod ℓ) :
    service.percentageWithCapCheck (service.pedersenCommitmentPoint maxValue percentageOpening)
      delta claimed maxValue (service.percentageAboveValues percentageOpening delta claimed zX
        zDelta zClaimed equalityChallenge yMaxScalar challenge) challenge batching = 0 := by
  unfold percentageWithCapCheck percentageAboveValues percentageAboveCommitments
    pedersenCommitmentPoint
  simp only [dot_cons, dot_nil_left]
  module

/-- The proof for the percentage passes the check, whatever the percentage commitment is. -/
theorem percentageWithCapCheck_below (percentage : P) {deltaOpening claimedOpening : ZMod ℓ}
    {deltaAmount : ℕ} (maxValue : ℕ)
    (zMax cMax yX yDeltaScalar yClaimedScalar challenge batching : ZMod ℓ) :
    service.percentageWithCapCheck percentage
      (service.pedersenCommitmentPoint deltaAmount deltaOpening)
      (service.pedersenCommitmentPoint deltaAmount claimedOpening) maxValue
      (service.percentageBelowValues percentage deltaOpening deltaAmount claimedOpening maxValue
        zMax cMax yX yDeltaScalar yClaimedScalar challenge) challenge batching = 0 := by
  unfold percentageWithCapCheck percentageBelowValues percentageBelowCommitments
    pedersenCommitmentPoint
  simp only [dot_cons, dot_nil_left]
  module

end Algebra

end ConfidentialTransferService

end SolanaGo.Token2022
