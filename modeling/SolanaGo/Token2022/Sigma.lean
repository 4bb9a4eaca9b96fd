/-
The proofs of `confidential_sigma.go`: that the secret of a public key is known, and
that a ciphertext encrypts zero.

Each is a first message, a response and the sum that the verifier compares with the identity,
on points and scalars. For the generator's responses the sum is the identity, whatever the
challenges are.

Completeness and soundness speak of these three and of nothing else, so here and in the modules
of the other proofs they are all that is modelled of `Generate...` and `Verify...`: the parsing of
the bytes and the transcript, of which the challenges are outputs, are left out. They are there
for the range proofs (`RangeData.lean`, `RangeProof.lean`).
-/
import SolanaGo.Token2022.Transcript

set_option autoImplicit false

namespace SolanaGo.Token2022

open Codec Buffer InnerProduct

namespace ConfidentialTransferService

variable {ℓ : ℕ} {P : Type} [AddCommGroup P] [Module (ZMod ℓ) P]
  (service : ConfidentialTransferService ℓ P)

/-! ## Validity of a public key -/

/-- The first message of a proof of validity of a public key. -/
def pubkeyValidityCommitment (nonce : ZMod ℓ) : P := nonce • service.curve.openingBase

/-- The response. -/
def pubkeyValidityResponse (secret nonce challenge : ZMod ℓ) : ZMod ℓ := challenge * secret⁻¹ + nonce

/-- What the verifier compares with the identity. -/
def pubkeyValidityCheck (publicKey commitment : P) (response challenge : ZMod ℓ) : P :=
  multiscalarMul [response, -challenge, -1] [service.curve.openingBase, publicKey, commitment]

/-! ## Zero ciphertexts -/

/-- The first message of a zero ciphertext proof. -/
structure ZeroCiphertextCommitments (P : Type) where
  publicKey : P
  handle : P

/-- The first message, from a nonce. -/
def zeroCiphertextCommitments (publicKey handle : P) (nonce : ZMod ℓ) :
    ZeroCiphertextCommitments P where
  publicKey := nonce • publicKey
  handle := nonce • handle

/-- The response. -/
def zeroCiphertextResponse (secret nonce challenge : ZMod ℓ) : ZMod ℓ := challenge * secret + nonce

/-- What the verifier compares with the identity. -/
def zeroCiphertextCheck (publicKey commitment handle : P)
    (commitments : ZeroCiphertextCommitments P) (response challenge batching : ZMod ℓ) : P :=
  multiscalarMul
    [response, -challenge, -1, batching * response, -(batching * challenge), -batching]
    [publicKey, service.curve.openingBase, commitments.publicKey, handle, commitment,
      commitments.handle]

/-! ## The responses pass the check -/

section Algebra

variable {service} [Fact ℓ.Prime]

theorem pubkeyValidityCheck_eq_zero {secret : ZMod ℓ} {publicKey : P} (hsecret : secret ≠ 0)
    (hkey : secret • publicKey = service.curve.openingBase) (nonce challenge : ZMod ℓ) :
    service.pubkeyValidityCheck publicKey (service.pubkeyValidityCommitment nonce)
      (pubkeyValidityResponse secret nonce challenge) challenge = 0 := by
  have hpoint : publicKey = secret⁻¹ • service.curve.openingBase := by
    rw [← hkey, inv_smul_smul₀ hsecret]
  unfold pubkeyValidityCheck pubkeyValidityCommitment pubkeyValidityResponse
  rw [hpoint]
  simp only [dot_cons, dot_nil_left]
  module

theorem zeroCiphertextCheck_eq_zero {secret : ZMod ℓ} {publicKey commitment handle : P}
    (hkey : secret • publicKey = service.curve.openingBase) (hzero : commitment = secret • handle)
    (nonce challenge batching : ZMod ℓ) :
    service.zeroCiphertextCheck publicKey commitment handle
      (zeroCiphertextCommitments publicKey handle nonce)
      (zeroCiphertextResponse secret nonce challenge) challenge batching = 0 := by
  unfold zeroCiphertextCheck zeroCiphertextCommitments zeroCiphertextResponse
  rw [← hkey, hzero]
  simp only [dot_cons, dot_nil_left]
  module

end Algebra

end ConfidentialTransferService

end SolanaGo.Token2022
