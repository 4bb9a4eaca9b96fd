/-
`confidential_range_generators.go` and `confidential_range_inner_product.go`: the generators,
the powers of a scalar and the verifier's side of the inner-product argument.

The verifier reads the challenges of the rounds back from the cross terms, and its list `s` is
that of the weights of the general argument.
-/
import SolanaGo.Token2022.Transcript

set_option autoImplicit false

namespace SolanaGo.Token2022

open Codec Buffer InnerProduct

/-! ## Vectors and polynomials -/

/-- `type rangeInnerProductProof struct`. -/
@[ext] structure RangeInnerProductProof (ℓ : ℕ) where
  left : List PedersenCommitment
  right : List PedersenCommitment
  a : ZMod ℓ
  b : ZMod ℓ

section Scalars

variable {ℓ : ℕ}

/-- The loop of `scalarPowers`. -/
def scalarPowersFrom (value : ZMod ℓ) : ℕ → ZMod ℓ → List (ZMod ℓ)
  | 0, _ => []
  | size + 1, current => current :: scalarPowersFrom value size (current * value)

/-- `scalarPowers`. -/
def scalarPowers (value : ZMod ℓ) (size : ℕ) : List (ZMod ℓ) := scalarPowersFrom value size 1

/-- `scalarPowerSum`. -/
def scalarPowerSum (value : ZMod ℓ) (size : ℕ) : ZMod ℓ := (scalarPowers value size).sum

@[simp] theorem length_scalarPowersFrom (value current : ZMod ℓ) (size : ℕ) :
    (scalarPowersFrom value size current).length = size := by
  induction size generalizing current with
  | zero => rfl
  | succ size ih => rw [scalarPowersFrom, List.length_cons, ih]

@[simp] theorem length_scalarPowers (value : ZMod ℓ) (size : ℕ) :
    (scalarPowers value size).length = size := length_scalarPowersFrom value 1 size

theorem getD_scalarPowersFrom (value current : ZMod ℓ) {size i : ℕ} (hi : i < size) :
    (scalarPowersFrom value size current).getD i 0 = current * value ^ i := by
  induction size generalizing current i with
  | zero => omega
  | succ size ih =>
    cases i with
    | zero => rw [scalarPowersFrom, List.getD_cons_zero, pow_zero, mul_one]
    | succ i =>
      rw [scalarPowersFrom, List.getD_cons_succ, ih _ (by omega), pow_succ]
      ring

theorem getD_scalarPowers (value : ZMod ℓ) {size i : ℕ} (hi : i < size) :
    (scalarPowers value size).getD i 0 = value ^ i := by
  rw [scalarPowers, getD_scalarPowersFrom value 1 hi, one_mul]

end Scalars

/-- `appendRangeInnerProductDomainSeparator`. -/
def Transcript.appendRangeInnerProductDomainSeparator (transcript : Transcript) (size : ℕ) :
    Transcript :=
  (transcript.appendDomainSeparator "inner-product").appendUint64 "n" size

/-- The transcript after a round: both cross terms, and the challenge extracted. -/
def Transcript.appendRound (transcript : Transcript) (left right : PedersenCommitment) :
    Transcript :=
  ((transcript.append "L" left.toList).append "R" right.toList).extract "u"

/-- The transcript after the rounds with the given cross terms. -/
def Transcript.appendRounds : List PedersenCommitment → List PedersenCommitment → Transcript →
    Transcript
  | left :: lefts, right :: rights, transcript =>
    Transcript.appendRounds lefts rights (transcript.appendRound left right)
  | _, _, transcript => transcript

/-- The challenges of the rounds with the given cross terms. -/
def roundChallenges {ℓ : ℕ} (merlin : Transcript → ZMod ℓ) :
    List PedersenCommitment → List PedersenCommitment → Transcript → List (ZMod ℓ)
  | left :: lefts, right :: rights, transcript =>
    merlin (transcript.appendRound left right)
      :: roundChallenges merlin lefts rights (transcript.appendRound left right)
  | _, _, _ => []

namespace ConfidentialTransferService

/-! ## Generators -/

section Generators

variable {ℓ : ℕ} {P : Type} (service : ConfidentialTransferService ℓ P)

/-- `rangeGenerators`: those of the service, if there are enough. -/
def rangeGenerators (size : ℕ) : RangeProofGenerators P :=
  if size ≤ service.rangeProofGenerators.g.length then
    ⟨service.rangeProofGenerators.g.take size, service.rangeProofGenerators.h.take size⟩
  else service.curve.newRangeProofGenerators size

/-- The generators of the service are the first points of the chains, as `Start` leaves them, or
there are none. -/
def HasGenerators : Prop :=
  ∃ size, service.rangeProofGenerators = service.curve.newRangeProofGenerators size

variable {service}

theorem length_rangeGenerators (h : service.HasGenerators) (size : ℕ) :
    (service.rangeGenerators size).g.length = size
      ∧ (service.rangeGenerators size).h.length = size := by
  obtain ⟨available, hgenerators⟩ := h
  unfold rangeGenerators
  rw [hgenerators]
  unfold Ristretto.newRangeProofGenerators
  split
  · rename_i hle
    simp only [List.length_map, List.length_range] at hle
    simp only [List.length_take, List.length_map, List.length_range]
    omega
  · simp only [List.length_map, List.length_range, and_self]

end Generators

variable {ℓ : ℕ} {P : Type} [AddCommGroup P] [Module (ZMod ℓ) P] [DecidableEq P]
  (service : ConfidentialTransferService ℓ P) (merlin : Transcript → ZMod ℓ)

/-! ## The code -/

/-- A point that must decode and not be the identity. -/
def requirePoint (data : PedersenCommitment) (name : String) (fault : Fault) : Except Fault P :=
  match service.ristrettoPoint data.toList name with
  | .ok point => if point = 0 then .error fault else .ok point
  | .error _ => .error fault

/-- The loop of `rangeInnerProductVerificationScalars` over the cross terms. -/
def checkRounds : List PedersenCommitment → List PedersenCommitment → Except Fault Unit
  | left :: lefts, right :: rights => do
    let _ ← service.requirePoint left "range inner product L"
      (.message "verify range inner product proof: invalid L point")
    let _ ← service.requirePoint right "range inner product R"
      (.message "verify range inner product proof: invalid R point")
    checkRounds lefts rights
  | _, _ => .ok ()

/-- The three lists `rangeInnerProductVerificationScalars` returns. -/
structure RangeVerificationScalars (ℓ : ℕ) where
  challengeSquares : List (ZMod ℓ)
  inverseSquares : List (ZMod ℓ)
  s : List (ZMod ℓ)

/-- The lists, for the challenges of all rounds. -/
def rangeVerificationScalars (challenges : List (ZMod ℓ)) (size : ℕ) :
    RangeVerificationScalars ℓ where
  challengeSquares := challenges.map fun challenge => challenge * challenge
  inverseSquares := (challenges.map (·⁻¹)).map fun inverse => inverse * inverse
  s := weightsFrom (challenges.map (·⁻¹)).prod (challenges.map fun challenge => challenge * challenge)
    (size - 1)

/-- `rangeInnerProductVerificationScalars`. -/
def rangeInnerProductVerificationScalars (proof : RangeInnerProductProof ℓ) (size : ℕ)
    (transcript : Transcript) : Except Fault (RangeVerificationScalars ℓ × Transcript) := do
  let logSize := proof.left.length
  refuse (logSize = 0 ∨ logSize ≠ proof.right.length ∨ 32 ≤ logSize ∨ size ≠ 2 ^ logSize)
    (.message "verify range inner product proof: invalid vector length")
  let transcript := transcript.appendRangeInnerProductDomainSeparator size
  service.checkRounds proof.left proof.right
  return (rangeVerificationScalars (roundChallenges merlin proof.left proof.right transcript) size,
    transcript.appendRounds proof.left proof.right)

end ConfidentialTransferService

end SolanaGo.Token2022
