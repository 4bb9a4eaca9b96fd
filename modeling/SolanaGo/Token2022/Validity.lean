/-
The proofs of `confidential_validity.go`: that grouped ciphertexts are made of one
commitment and one handle for each key, with the same opening.

There are two or three keys, and one or two ciphertexts. Two ciphertexts are combined into
one with a challenge, and the proof is about the combination. The four proofs are the
same code, so they are one model with the list of keys and the list of ciphertexts.
-/
import SolanaGo.Token2022.Equality

set_option autoImplicit false

namespace SolanaGo.Token2022

open Codec Buffer InnerProduct

/-! ## Grouped points -/

/-- A commitment and handles: a grouped ciphertext, or the first message of a proof. -/
structure GroupedPoints (P : Type) where
  commitment : P
  handles : List P

/-- A scalar for the opening and the amount: nonces, what is shown, or responses. -/
structure ValidityScalars (ℓ : ℕ) where
  opening : ZMod ℓ
  amount : ZMod ℓ

/-- The responses. -/
def ValidityScalars.respond {ℓ : ℕ} (shown nonces : ValidityScalars ℓ) (challenge : ZMod ℓ) :
    ValidityScalars ℓ where
  opening := challenge * shown.opening + nonces.opening
  amount := challenge * shown.amount + nonces.amount

/-- What is shown of two ciphertexts: `low + high * batching`. -/
def ValidityScalars.combine {ℓ : ℕ} (low high : ValidityScalars ℓ) (batching : ZMod ℓ) :
    ValidityScalars ℓ where
  opening := low.opening + high.opening * batching
  amount := low.amount + high.amount * batching

/-- Two ciphertexts, combined in the same way. -/
def GroupedPoints.combine {ℓ : ℕ} {P : Type} [AddCommGroup P] [Module (ZMod ℓ) P]
    (low high : GroupedPoints P) (batching : ZMod ℓ) : GroupedPoints P where
  commitment := low.commitment + batching • high.commitment
  handles := List.zipWith (fun l h => l + batching • h) low.handles high.handles

namespace ConfidentialTransferService

variable {ℓ : ℕ} {P : Type} [AddCommGroup P] [Module (ZMod ℓ) P]
  (service : ConfidentialTransferService ℓ P)

/-- A grouped ciphertext with the given opening and amount; the first message of a proof is one
with the nonces. -/
def groupedPoints (publicKeys : List P) (values : ValidityScalars ℓ) : GroupedPoints P where
  commitment := multiscalarMul [values.opening, values.amount]
    [service.curve.openingBase, service.curve.base]
  handles := publicKeys.map (values.opening • ·)

/-- The scalars of the verifier's loop: three for each key, with growing powers. -/
def validityScalars (response challenge batching : ZMod ℓ) : ℕ → ZMod ℓ → List (ZMod ℓ)
  | 0, _ => []
  | count + 1, power =>
    (power * batching) * response :: -(power * batching) * challenge :: -(power * batching)
      :: validityScalars response challenge batching count (power * batching)

/-- The points of the verifier's loop. -/
def validityPoints : List P → List P → List P → List P
  | publicKey :: publicKeys, handle :: handles, commitment :: commitments =>
    publicKey :: handle :: commitment :: validityPoints publicKeys handles commitments
  | _, _, _ => []

/-- What the verifier compares with the identity. -/
def groupedCiphertextValidityCheck (publicKeys : List P) (ciphertext commitments : GroupedPoints P)
    (responses : ValidityScalars ℓ) (challenge batching : ZMod ℓ) : P :=
  multiscalarMul
    ([responses.opening, responses.amount, -challenge, -1]
      ++ validityScalars responses.opening challenge batching publicKeys.length 1)
    ([service.curve.openingBase, service.curve.base, ciphertext.commitment, commitments.commitment]
      ++ validityPoints publicKeys ciphertext.handles commitments.handles)

section Algebra

variable {service}

theorem dot_validityScalars {shown nonces : ValidityScalars ℓ} (challenge batching : ZMod ℓ)
    (publicKeys : List P) (power : ZMod ℓ) :
    dot (validityScalars (shown.respond nonces challenge).opening challenge batching
        publicKeys.length power)
      (validityPoints publicKeys (publicKeys.map (shown.opening • ·))
        (publicKeys.map (nonces.opening • ·))) = 0 := by
  induction publicKeys generalizing power with
  | nil => rfl
  | cons publicKey publicKeys ih =>
    rw [List.length_cons, validityScalars, List.map_cons, List.map_cons, validityPoints, dot_cons,
      dot_cons, dot_cons, ih, ValidityScalars.respond]
    module

/-- The responses pass the check. -/
theorem groupedCiphertextValidityCheck_eq_zero (publicKeys : List P)
    (shown nonces : ValidityScalars ℓ) (challenge batching : ZMod ℓ) :
    service.groupedCiphertextValidityCheck publicKeys (service.groupedPoints publicKeys shown)
      (service.groupedPoints publicKeys nonces) (shown.respond nonces challenge) challenge
      batching = 0 := by
  unfold groupedCiphertextValidityCheck groupedPoints
  simp only [List.cons_append, List.nil_append, dot_cons, dot_nil_left]
  rw [dot_validityScalars]
  simp only [ValidityScalars.respond]
  module

/-- Combined ciphertexts are a ciphertext of what is combined. -/
theorem groupedPoints_combine (publicKeys : List P) (low high : ValidityScalars ℓ)
    (batching : ZMod ℓ) :
    (service.groupedPoints publicKeys low).combine (service.groupedPoints publicKeys high) batching
      = service.groupedPoints publicKeys (low.combine high batching) := by
  unfold GroupedPoints.combine groupedPoints ValidityScalars.combine
  congr 1
  · simp only [dot_cons, dot_nil_left]
    module
  · rw [List.zipWith_map, List.zipWith_self]
    refine List.map_congr_left fun publicKey _ => ?_
    module

end Algebra

/-! ## What the verifier accepts -/

section Lemmas

variable {service} (hlaw : service.curve.Lawful)

include hlaw

/-- A grouped ciphertext that was encrypted: the encoded points. -/
theorem encryptGroupedElGamal_eq {points : List P} {amount : ℕ} {opening : PedersenOpening}
    {r : ZMod ℓ} (hopening : service.curve.scalarOf opening.toList = .ok r) :
    service.encryptGroupedElGamal (points.map service.pedersenCommitment) amount opening
      = .ok (joinArrays (((service.groupedPoints points ⟨r, amount⟩).commitment
        :: (service.groupedPoints points ⟨r, amount⟩).handles).map
          service.pedersenCommitment)) := by
  have hhandles : (points.map service.pedersenCommitment).mapM (service.decryptHandle r)
      = .ok ((points.map (r • ·)).map service.pedersenCommitment) := by
    induction points with
    | nil => rfl
    | cons point points ih =>
      rw [List.map_cons, List.mapM_cons, ih, decryptHandle, ristrettoPoint_pedersenCommitment hlaw]
      rfl
  have hcommitment : service.pedersenCommitmentPoint amount r
      = (service.groupedPoints points ⟨r, amount⟩).commitment := by
    rw [pedersenCommitmentPoint_eq, groupedPoints]
    simp only [dot_cons, dot_nil_left]
    abel
  unfold encryptGroupedElGamal
  rw [scalarFromBytes_eq_ok.mpr hopening, ok_bind, hhandles, ok_bind, hcommitment, List.map_cons,
    joinArrays_cons]
  rfl

omit [Module (ZMod ℓ) P] in
/-- Keys that decode are encoded points. -/
theorem exists_points_of_mapM {publicKeys : List ElGamalPubkey} {f : P → P}
    {handles : List (ByteArr 32)}
    (h : publicKeys.mapM (fun publicKey => do
      let point ← service.ristrettoPoint publicKey.toList "ElGamal public key"
      return service.pedersenCommitment (f point)) = .ok handles) :
    ∃ points : List P, publicKeys = points.map service.pedersenCommitment := by
  induction publicKeys generalizing handles with
  | nil => exact ⟨[], rfl⟩
  | cons publicKey publicKeys ih =>
    rw [List.mapM_cons] at h
    obtain ⟨handle, hhandle, h⟩ := bind_eq_ok.mp h
    obtain ⟨handles', hhandles, -⟩ := bind_eq_ok.mp h
    obtain ⟨point, hpoint, -⟩ := bind_eq_ok.mp hhandle
    obtain ⟨points, rfl⟩ := ih hhandles
    exact ⟨point :: points, by rw [List.map_cons, eq_pedersenCommitment hlaw hpoint]⟩

/-- What is known of an encryption that succeeded. -/
theorem encryptGroupedElGamal_eq_ok {publicKeys : List ElGamalPubkey} {amount : ℕ}
    {opening : PedersenOpening} {bytes : Bytes}
    (h : service.encryptGroupedElGamal publicKeys amount opening = .ok bytes) :
    ∃ (points : List P) (r : ZMod ℓ), publicKeys = points.map service.pedersenCommitment
      ∧ service.curve.scalarOf opening.toList = .ok r := by
  unfold encryptGroupedElGamal at h
  obtain ⟨r, hr, h⟩ := bind_eq_ok.mp h
  obtain ⟨handles, hhandles, -⟩ := bind_eq_ok.mp h
  obtain ⟨points, rfl⟩ := exists_points_of_mapM hlaw hhandles
  exact ⟨points, r, rfl, scalarFromBytes_eq_ok.mp hr⟩

end Lemmas

end ConfidentialTransferService

end SolanaGo.Token2022
