/-
The proofs of `confidential_equality.go`: that two ciphertexts, or a ciphertext and a
commitment, hold the same amount.

Both show three scalars: the secret of the first key, the amount, and the opening of the
second side. The commitments and the equations of the second proof are the first ones of
the other, which has one more, for the handle of the second ciphertext.
-/
import SolanaGo.Token2022.Sigma

set_option autoImplicit false

namespace SolanaGo.Token2022

open Codec Buffer InnerProduct

/-! ## Commitments and responses -/

/-- A scalar for the secret, the amount and the opening: nonces, what is shown, or
responses. -/
structure EqualityScalars (ℓ : ℕ) where
  secret : ZMod ℓ
  amount : ZMod ℓ
  opening : ZMod ℓ

/-- The responses. -/
def EqualityScalars.respond {ℓ : ℕ} (shown nonces : EqualityScalars ℓ) (challenge : ZMod ℓ) :
    EqualityScalars ℓ where
  secret := challenge * shown.secret + nonces.secret
  amount := challenge * shown.amount + nonces.amount
  opening := challenge * shown.opening + nonces.opening

/-- The commitments both proofs have. -/
structure EqualityCommitments (P : Type) where
  y0 : P
  y1 : P
  y2 : P

/-- The commitments of the proof about two ciphertexts. -/
structure CiphertextEqualityCommitments (P : Type) extends EqualityCommitments P where
  y3 : P

namespace ConfidentialTransferService

variable {ℓ : ℕ} {P : Type} [AddCommGroup P] [Module (ZMod ℓ) P]
  (service : ConfidentialTransferService ℓ P)

/-- The first message of both proofs. -/
def equalityCommitments (publicKey handle : P) (nonces : EqualityScalars ℓ) :
    EqualityCommitments P where
  y0 := nonces.secret • publicKey
  y1 := multiscalarMul [nonces.amount, nonces.secret] [service.curve.base, handle]
  y2 := multiscalarMul [nonces.amount, nonces.opening]
    [service.curve.base, service.curve.openingBase]

/-- The first message of the proof about two ciphertexts. -/
def ciphertextEqualityCommitments (firstPubkey secondPubkey firstHandle : P)
    (nonces : EqualityScalars ℓ) : CiphertextEqualityCommitments P where
  toEqualityCommitments := service.equalityCommitments firstPubkey firstHandle nonces
  y3 := nonces.opening • secondPubkey

/-- What the verifier of the proof about two ciphertexts compares with the identity. -/
def ciphertextCiphertextEqualityCheck (firstPubkey secondPubkey firstCommitment firstHandle
    secondCommitment secondHandle : P) (commitments : CiphertextEqualityCommitments P)
    (responses : EqualityScalars ℓ) (challenge batching : ZMod ℓ) : P :=
  let batchingSquared := batching * batching
  let batchingCubed := batching * batchingSquared
  multiscalarMul
    [responses.secret, -challenge, -1,
      batching * responses.amount, batching * responses.secret, -batching * challenge, -batching,
      batchingSquared * responses.amount, batchingSquared * responses.opening,
      -batchingSquared * challenge, -batchingSquared,
      batchingCubed * responses.opening, -batchingCubed * challenge, -batchingCubed]
    [firstPubkey, service.curve.openingBase, commitments.y0,
      service.curve.base, firstHandle, firstCommitment, commitments.y1,
      service.curve.base, service.curve.openingBase, secondCommitment, commitments.y2,
      secondPubkey, secondHandle, commitments.y3]

/-- What the verifier of the proof about a commitment compares with the identity. -/
def ciphertextCommitmentEqualityCheck (publicKey ciphertextCommitment handle commitment : P)
    (commitments : EqualityCommitments P) (responses : EqualityScalars ℓ)
    (challenge batching : ZMod ℓ) : P :=
  let batchingSquared := batching * batching
  multiscalarMul
    [responses.secret, -challenge, -1,
      batching * responses.amount, batching * responses.secret, -batching * challenge, -batching,
      batchingSquared * responses.amount, batchingSquared * responses.opening,
      -batchingSquared * challenge, -batchingSquared]
    [publicKey, service.curve.openingBase, commitments.y0,
      service.curve.base, handle, ciphertextCommitment, commitments.y1,
      service.curve.base, service.curve.openingBase, commitment, commitments.y2]

section Algebra

variable {service}

theorem ciphertextCiphertextEqualityCheck_eq_zero (shown : EqualityScalars ℓ)
    {firstPubkey secondPubkey firstCommitment firstHandle secondCommitment secondHandle : P}
    (hkey : shown.secret • firstPubkey = service.curve.openingBase)
    (hfirst : firstCommitment - shown.secret • firstHandle = shown.amount • service.curve.base)
    (hsecond : secondCommitment
      = shown.amount • service.curve.base + shown.opening • service.curve.openingBase)
    (hhandle : secondHandle = shown.opening • secondPubkey) (nonces : EqualityScalars ℓ)
    (challenge batching : ZMod ℓ) :
    service.ciphertextCiphertextEqualityCheck firstPubkey secondPubkey firstCommitment firstHandle
      secondCommitment secondHandle
      (service.ciphertextEqualityCommitments firstPubkey secondPubkey firstHandle nonces)
      (shown.respond nonces challenge) challenge batching = 0 := by
  unfold ciphertextCiphertextEqualityCheck ciphertextEqualityCommitments equalityCommitments
    EqualityScalars.respond
  rw [hhandle, hsecond, sub_eq_iff_eq_add.mp hfirst, ← hkey]
  simp only [dot_cons, dot_nil_left]
  module

theorem ciphertextCommitmentEqualityCheck_eq_zero (shown : EqualityScalars ℓ)
    {publicKey ciphertextCommitment handle commitment : P}
    (hkey : shown.secret • publicKey = service.curve.openingBase)
    (hfirst : ciphertextCommitment - shown.secret • handle = shown.amount • service.curve.base)
    (hsecond : commitment
      = shown.amount • service.curve.base + shown.opening • service.curve.openingBase)
    (nonces : EqualityScalars ℓ) (challenge batching : ZMod ℓ) :
    service.ciphertextCommitmentEqualityCheck publicKey ciphertextCommitment handle commitment
      (service.equalityCommitments publicKey handle nonces) (shown.respond nonces challenge)
      challenge batching = 0 := by
  unfold ciphertextCommitmentEqualityCheck equalityCommitments EqualityScalars.respond
  rw [hsecond, sub_eq_iff_eq_add.mp hfirst, ← hkey]
  simp only [dot_cons, dot_nil_left]
  module

end Algebra

end ConfidentialTransferService

end SolanaGo.Token2022
