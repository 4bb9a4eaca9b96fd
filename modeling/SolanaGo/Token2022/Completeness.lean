/-
What the sigma proofs show, and that a prover who knows it convinces the verifier.

A statement is a relation between the points of a context and the scalars that are shown
for them. The checks are the verifiers' sums, the first messages and the responses are the
generators'. Challenges and batching scalars are arbitrary here: whatever the transcript
extracts, the sum is the identity.
-/
import SolanaGo.Token2022.Percentage

set_option autoImplicit false

namespace SolanaGo.Token2022

open InnerProduct

namespace ConfidentialTransferService

variable {ℓ : ℕ} {P : Type} [AddCommGroup P] [Module (ZMod ℓ) P]
  (service : ConfidentialTransferService ℓ P)

/-! ## Statements -/

/-- `secret` is the secret of the public key. -/
def IsSecretOf (publicKey : P) (secret : ZMod ℓ) : Prop :=
  secret • publicKey = service.curve.openingBase

/-- The ciphertext of the owner of `secret` encrypts zero. -/
structure ZeroCiphertextStatement (publicKey commitment handle : P) (secret : ZMod ℓ) : Prop where
  key : service.IsSecretOf publicKey secret
  zero : commitment = secret • handle

/-- A ciphertext and a commitment open to the same amount. -/
structure CommitmentEqualityStatement (publicKey ciphertextCommitment handle commitment : P)
    (shown : EqualityScalars ℓ) : Prop where
  key : service.IsSecretOf publicKey shown.secret
  ciphertext : ciphertextCommitment
    = shown.amount • service.curve.base + shown.secret • handle
  commitment : commitment
    = shown.amount • service.curve.base + shown.opening • service.curve.openingBase

/-- Two ciphertexts, under two keys, open to the same amount. -/
structure CiphertextEqualityStatement (firstPubkey secondPubkey firstCommitment firstHandle
    secondCommitment secondHandle : P) (shown : EqualityScalars ℓ) : Prop
    extends service.CommitmentEqualityStatement firstPubkey firstCommitment firstHandle
      secondCommitment shown where
  handle : secondHandle = shown.opening • secondPubkey

/-- A grouped ciphertext has one opening, for the commitment and every handle. -/
def GroupedValidityStatement (publicKeys : List P) (ciphertext : GroupedPoints P)
    (shown : ValidityScalars ℓ) : Prop :=
  ciphertext = service.groupedPoints publicKeys shown

/-- The percentage commitment opens to the maximum. -/
def PercentageIsMaximum (percentage : P) (maxValue : ℕ) : Prop :=
  ∃ opening : ZMod ℓ, percentage = service.pedersenCommitmentPoint maxValue opening

/-- The delta and the claimed commitment open to the same value. -/
def DeltaIsClaimed (delta claimed : P) : Prop :=
  ∃ value deltaOpening claimedOpening : ZMod ℓ,
    delta = value • service.curve.base + deltaOpening • service.curve.openingBase
      ∧ claimed = value • service.curve.base + claimedOpening • service.curve.openingBase

/-! ## Completeness -/

variable {service}

theorem IsSecretOf.ne_zero {publicKey : P} {secret : ZMod ℓ}
    (hopening : service.curve.openingBase ≠ 0) (h : service.IsSecretOf publicKey secret) :
    secret ≠ 0 := by
  intro hsecret
  refine hopening ?_
  rw [← show secret • publicKey = service.curve.openingBase from h, hsecret, zero_smul]

theorem CommitmentEqualityStatement.ciphertext_sub
    {publicKey ciphertextCommitment handle commitment : P} {shown : EqualityScalars ℓ}
    (h : service.CommitmentEqualityStatement publicKey ciphertextCommitment handle commitment
      shown) :
    ciphertextCommitment - shown.secret • handle = shown.amount • service.curve.base := by
  rw [h.ciphertext, add_sub_cancel_right]

variable (service) in
/-- **Completeness.** For every valid witness, all nonces, every challenge and every batching
scalar, the sum that the verifier compares with the identity is the identity. The last proof
is for an amount below the maximum with a delta that matches, or for the maximum with any
delta. -/
theorem sigmaProofs_complete [Fact ℓ.Prime] (hopening : service.curve.openingBase ≠ 0) :
    (∀ (publicKey : P) (secret : ZMod ℓ), service.IsSecretOf publicKey secret →
      ∀ nonce challenge, service.pubkeyValidityCheck publicKey
        (service.pubkeyValidityCommitment nonce) (pubkeyValidityResponse secret nonce challenge)
        challenge = 0)
    ∧ (∀ (publicKey commitment handle : P) (secret : ZMod ℓ),
      service.ZeroCiphertextStatement publicKey commitment handle secret →
      ∀ nonce challenge batching, service.zeroCiphertextCheck publicKey commitment handle
        (zeroCiphertextCommitments publicKey handle nonce)
        (zeroCiphertextResponse secret nonce challenge) challenge batching = 0)
    ∧ (∀ (firstPubkey secondPubkey firstCommitment firstHandle secondCommitment secondHandle : P)
      (shown : EqualityScalars ℓ),
      service.CiphertextEqualityStatement firstPubkey secondPubkey firstCommitment firstHandle
        secondCommitment secondHandle shown →
      ∀ nonces challenge batching, service.ciphertextCiphertextEqualityCheck firstPubkey
        secondPubkey firstCommitment firstHandle secondCommitment secondHandle
        (service.ciphertextEqualityCommitments firstPubkey secondPubkey firstHandle nonces)
        (shown.respond nonces challenge) challenge batching = 0)
    ∧ (∀ (publicKey ciphertextCommitment handle commitment : P) (shown : EqualityScalars ℓ),
      service.CommitmentEqualityStatement publicKey ciphertextCommitment handle commitment shown →
      ∀ nonces challenge batching, service.ciphertextCommitmentEqualityCheck publicKey
        ciphertextCommitment handle commitment
        (service.equalityCommitments publicKey handle nonces) (shown.respond nonces challenge)
        challenge batching = 0)
    ∧ (∀ (publicKeys : List P) (ciphertext : GroupedPoints P) (shown : ValidityScalars ℓ),
      service.GroupedValidityStatement publicKeys ciphertext shown →
      ∀ nonces challenge batching, service.groupedCiphertextValidityCheck publicKeys ciphertext
        (service.groupedPoints publicKeys nonces) (shown.respond nonces challenge) challenge
        batching = 0)
    ∧ (∀ (publicKeys : List P) (lowCiphertext highCiphertext : GroupedPoints P)
      (low high : ValidityScalars ℓ),
      service.GroupedValidityStatement publicKeys lowCiphertext low →
      service.GroupedValidityStatement publicKeys highCiphertext high →
      ∀ combining nonces challenge batching, service.groupedCiphertextValidityCheck publicKeys
        (lowCiphertext.combine highCiphertext combining) (service.groupedPoints publicKeys nonces)
        ((low.combine high combining).respond nonces challenge) challenge batching = 0)
    ∧ ∀ (percentageAmount deltaAmount maxValue : ℕ)
      (percentageOpening deltaOpening claimedOpening : ZMod ℓ) (percentage delta claimed : P),
      percentageAmount ≤ maxValue →
      percentage = service.pedersenCommitmentPoint percentageAmount percentageOpening →
      claimed = service.pedersenCommitmentPoint deltaAmount claimedOpening →
      (percentageAmount < maxValue →
        delta = service.pedersenCommitmentPoint deltaAmount deltaOpening) →
      ∀ (above below : PercentageWithCapScalars ℓ) (challenge batching : ZMod ℓ),
        service.percentageWithCapCheck percentage delta claimed maxValue
          (if percentageAmount < maxValue then
            service.percentageBelowValues percentage deltaOpening deltaAmount claimedOpening
              maxValue below.first below.second below.third below.fourth below.fifth challenge
          else
            service.percentageAboveValues percentageOpening delta claimed above.first above.second
              above.third above.fourth above.fifth challenge)
          challenge batching = 0 := by
  refine ⟨?_, ?_, ?_, ?_, ?_, ?_, ?_⟩
  · intro publicKey secret hkey nonce challenge
    exact pubkeyValidityCheck_eq_zero (hkey.ne_zero hopening) hkey nonce challenge
  · intro publicKey commitment handle secret h nonce challenge batching
    exact zeroCiphertextCheck_eq_zero h.key h.zero nonce challenge batching
  · intro firstPubkey secondPubkey firstCommitment firstHandle secondCommitment secondHandle shown
      h nonces challenge batching
    exact ciphertextCiphertextEqualityCheck_eq_zero shown h.key h.ciphertext_sub h.commitment
      h.handle nonces challenge batching
  · intro publicKey ciphertextCommitment handle commitment shown h nonces challenge batching
    exact ciphertextCommitmentEqualityCheck_eq_zero shown h.key h.ciphertext_sub h.commitment
      nonces challenge batching
  · rintro publicKeys ciphertext shown rfl nonces challenge batching
    exact groupedCiphertextValidityCheck_eq_zero publicKeys shown nonces challenge batching
  · rintro publicKeys lowCiphertext highCiphertext low high rfl rfl combining nonces challenge
      batching
    rw [groupedPoints_combine]
    exact groupedCiphertextValidityCheck_eq_zero publicKeys (low.combine high combining) nonces
      challenge batching
  · rintro percentageAmount deltaAmount maxValue percentageOpening deltaOpening claimedOpening
      percentage delta claimed hle rfl rfl hdelta above below challenge batching
    by_cases hlt : percentageAmount < maxValue
    · rw [if_pos hlt, hdelta hlt]
      exact percentageWithCapCheck_below _ maxValue _ _ _ _ _ challenge batching
    · rw [if_neg hlt, Nat.le_antisymm hle (Nat.le_of_not_lt hlt)]
      exact percentageWithCapCheck_above delta _ _ _ _ _ _ challenge batching

end ConfidentialTransferService

/-! ## In the sample group -/

open ConfidentialTransferService

/-- The secret 2 belongs to the public key 1. -/
theorem sampleProver_isSecretOf : sampleProver.IsSecretOf 1 2 := by
  show (2 : ZMod sampleOrder) • (1 : ZMod sampleOrder) = 2
  rw [smul_eq_mul, mul_one]

/-- What is shown about two ciphertexts of 7: the secret 2 and the opening 3. -/
def sampleShown : EqualityScalars sampleOrder := ⟨(2 : ℕ), (7 : ℕ), (3 : ℕ)⟩

/-- A ciphertext of zero with handle 5. -/
theorem sampleProver_zero :
    sampleProver.ZeroCiphertextStatement 1 ((2 : ZMod sampleOrder) • 5) 5 2 :=
  ⟨sampleProver_isSecretOf, rfl⟩

/-- Two ciphertexts of 7, under the public keys 1 and 4. -/
theorem sampleProver_equality : sampleProver.CiphertextEqualityStatement 1 4
    (sampleShown.amount • (1 : ZMod sampleOrder) + sampleShown.secret • 5) 5
    (sampleShown.amount • (1 : ZMod sampleOrder) + sampleShown.opening • 2)
    (sampleShown.opening • 4) sampleShown :=
  ⟨⟨sampleProver_isSecretOf, rfl, rfl⟩, rfl⟩

/-- Nonces for a proof about grouped ciphertexts. -/
def sampleNonces : ValidityScalars sampleOrder := ⟨(6 : ℕ), (8 : ℕ)⟩

/-- The random scalars of a proof about a fee. -/
def sampleScalars : PercentageWithCapScalars sampleOrder := ⟨1, (2 : ℕ), (3 : ℕ), (4 : ℕ), (5 : ℕ)⟩

/-- The proofs for these, for grouped ciphertexts, and for a fee of 3 with a maximum of 9 and
of 3, with the challenge 11 and the batching scalar 13. -/
theorem sigmaProofs_complete_sample :
    sampleProver.pubkeyValidityCheck 1 (sampleProver.pubkeyValidityCommitment 6)
        (pubkeyValidityResponse 2 6 11) 11 = 0
      ∧ sampleProver.zeroCiphertextCheck 1 ((2 : ZMod sampleOrder) • 5) 5
        (zeroCiphertextCommitments 1 5 (6 : ZMod sampleOrder)) (zeroCiphertextResponse 2 6 11) 11
        13 = 0
      ∧ sampleProver.ciphertextCiphertextEqualityCheck 1 4
        (sampleShown.amount • (1 : ZMod sampleOrder) + sampleShown.secret • 5) 5
        (sampleShown.amount • (1 : ZMod sampleOrder) + sampleShown.opening • 2)
        (sampleShown.opening • 4) (sampleProver.ciphertextEqualityCommitments 1 4 5 ⟨6, 8, 9⟩)
        (sampleShown.respond ⟨6, 8, 9⟩ 11) 11 13 = 0
      ∧ sampleProver.ciphertextCommitmentEqualityCheck 1
        (sampleShown.amount • (1 : ZMod sampleOrder) + sampleShown.secret • 5) 5
        (sampleShown.amount • (1 : ZMod sampleOrder) + sampleShown.opening • 2)
        (sampleProver.equalityCommitments 1 5 ⟨6, 8, 9⟩) (sampleShown.respond ⟨6, 8, 9⟩ 11) 11
        13 = 0
      ∧ sampleProver.groupedCiphertextValidityCheck [1, 4] (sampleProver.groupedPoints [1, 4] ⟨3, 7⟩)
        (sampleProver.groupedPoints [1, 4] sampleNonces)
        (ValidityScalars.respond ⟨3, 7⟩ sampleNonces 11) 11 13 = 0
      ∧ sampleProver.groupedCiphertextValidityCheck [1, 4, 5]
        ((sampleProver.groupedPoints [1, 4, 5] ⟨3, 7⟩).combine
          (sampleProver.groupedPoints [1, 4, 5] ⟨4, 1⟩) (17 : ZMod sampleOrder))
        (sampleProver.groupedPoints [1, 4, 5] sampleNonces)
        ((ValidityScalars.combine ⟨3, 7⟩ ⟨4, 1⟩ 17).respond sampleNonces 11) 11 13 = 0
      ∧ sampleProver.percentageWithCapCheck (sampleProver.pedersenCommitmentPoint 3 6)
        (sampleProver.pedersenCommitmentPoint 5 7) (sampleProver.pedersenCommitmentPoint 5 8) 9
        (sampleProver.percentageBelowValues (sampleProver.pedersenCommitmentPoint 3 6) 7 5 8 9
          1 2 3 4 5 11) 11 13 = 0
      ∧ sampleProver.percentageWithCapCheck (sampleProver.pedersenCommitmentPoint 3 6) 19
        (sampleProver.pedersenCommitmentPoint 5 8) 3
        (sampleProver.percentageAboveValues 6 19 (sampleProver.pedersenCommitmentPoint 5 8)
          1 2 3 4 5 11) 11 13 = 0 := by
  obtain ⟨hpubkey, hzero, hciphertexts, hcommitment, hsingle, hbatched, hpercentage⟩ :=
    sigmaProofs_complete sampleProver sample_two_ne_zero
  refine ⟨hpubkey 1 2 sampleProver_isSecretOf 6 11, hzero _ _ _ _ sampleProver_zero 6 11 13,
    hciphertexts _ _ _ _ _ _ _ sampleProver_equality _ 11 13,
    hcommitment _ _ _ _ _ sampleProver_equality.toCommitmentEqualityStatement _ 11 13,
    hsingle _ _ _ rfl _ 11 13, hbatched _ _ _ _ _ rfl rfl 17 _ 11 13, ?_, ?_⟩
  · exact hpercentage 3 5 9 6 7 8 _ _ _ (by decide) rfl rfl (fun _ => rfl) sampleScalars
      sampleScalars 11 13
  · exact hpercentage 3 5 3 6 7 8 _ 19 _ (by decide) rfl rfl (fun h => absurd h (by decide))
      sampleScalars sampleScalars 11 13

end SolanaGo.Token2022
