/-
Pedersen commitments and twisted ElGamal encryption, as `confidential_encryption.go`,
`confidential_arithmetic.go` and `confidential_keys.go` compute them on bytes.

A ciphertext is two encoded points, commitment `a • G + r • H` and handle `r • P`, where
the public key is `P = s⁻¹ • H`. So `C - s • D` is the amount point, and that is all
that is kept by the operations: `Encrypts` says that a ciphertext decrypts to an
amount, whatever its opening, and one lemma for each operation says what it does to the
amount.
-/
import SolanaGo.Token2022.Curve

set_option autoImplicit false

namespace SolanaGo.Token2022

open Codec Buffer

/-- `type ElGamalSecretKey [32]byte`. -/
abbrev ElGamalSecretKey := ByteArr 32
/-- `type ElGamalPubkey [32]byte`. -/
abbrev ElGamalPubkey := ByteArr 32
/-- `type PedersenOpening [32]byte`. -/
abbrev PedersenOpening := ByteArr 32
/-- `type PedersenCommitment [32]byte`. -/
abbrev PedersenCommitment := ByteArr 32
/-- `type ElGamalCiphertext [64]byte`. -/
abbrev ElGamalCiphertext := ByteArr 64

/-- `type ElGamalKeypair struct`. -/
structure ElGamalKeypair where
  publicKey : ElGamalPubkey
  secretKey : ElGamalSecretKey
  deriving DecidableEq

/-- `SplitAmount`. -/
def splitAmount (amount : ℕ) : Except Fault (ℕ × ℕ) :=
  if 2 ^ 48 ≤ amount then
    .error (invalidInputError (.message "split confidential amount: amount exceeds 48 bits"))
  else .ok (amount % 2 ^ 16, (amount >>> 16) % 2 ^ 32)

/-- `CombineAmount`. -/
def combineAmount (low high : ℕ) : ℕ := low ||| high <<< 16

theorem combineAmount_eq {low : ℕ} (h : low < 2 ^ 16) (high : ℕ) :
    combineAmount low high = low + 2 ^ 16 * high := by
  unfold combineAmount
  rw [Nat.shiftLeft_eq, Nat.mul_comm, Nat.or_comm, Nat.add_comm]
  exact (Nat.two_pow_add_eq_or_of_lt h high).symm

theorem splitAmount_of_lt {amount : ℕ} (h : amount < 2 ^ 48) :
    splitAmount amount = .ok (amount % 2 ^ 16, amount / 2 ^ 16) := by
  have hhigh : (amount >>> 16) % 2 ^ 32 = amount / 2 ^ 16 := by
    rw [Nat.shiftRight_eq_div_pow]
    exact Nat.mod_eq_of_lt (by omega)
  unfold splitAmount
  rw [if_neg (by omega), hhigh]

namespace ConfidentialTransferService

variable {ℓ : ℕ} {P : Type} [AddCommGroup P] [Module (ZMod ℓ) P]
  (service : ConfidentialTransferService ℓ P)

/-! ## Keys and commitments -/

/-- `DeriveElGamalPubkey`. -/
def deriveElGamalPubkey (secret : ElGamalSecretKey) : Except Fault ElGamalPubkey :=
  match service.curve.scalarOf secret.toList with
  | .error msg => .error (.wrapped "derive ElGamal public key: " (.library msg))
  | .ok secretScalar =>
    if secretScalar = 0 then .error (.message "derive ElGamal public key: zero secret key")
    else .ok (service.curve.compress (secretScalar⁻¹ • service.curve.openingBase))

/-- `pedersenCommitmentPoint`. -/
def pedersenCommitmentPoint (amount : ℕ) (opening : ZMod ℓ) : P :=
  multiscalarMul [(amount : ZMod ℓ), opening] [service.curve.base, service.curve.openingBase]

/-- `CommitPedersen`. -/
def commitPedersen (amount : ℕ) (opening : PedersenOpening) : Except Fault PedersenCommitment := do
  let openingScalar ← service.scalarFromBytes opening.toList "Pedersen opening"
  return service.pedersenCommitment (service.pedersenCommitmentPoint amount openingScalar)

/-! ## Encryption -/

/-- The decryption handle for one key. -/
def decryptHandle (opening : ZMod ℓ) (publicKey : ElGamalPubkey) :
    Except Fault (ByteArr 32) := do
  let point ← service.ristrettoPoint publicKey.toList "ElGamal public key"
  return service.pedersenCommitment (opening • point)

/-- `encryptGroupedElGamal`: a commitment, and a handle for each key. -/
def encryptGroupedElGamal (publicKeys : List ElGamalPubkey) (amount : ℕ)
    (opening : PedersenOpening) : Except Fault Bytes := do
  let openingScalar ← service.scalarFromBytes opening.toList "Pedersen opening"
  let commitment :=
    service.pedersenCommitment (service.pedersenCommitmentPoint amount openingScalar)
  let handles ← publicKeys.mapM (service.decryptHandle openingScalar)
  return commitment.toList ++ joinArrays handles

/-- `EncryptElGamalWithOpening`. -/
def encryptElGamalWithOpening (publicKey : ElGamalPubkey) (amount : ℕ)
    (opening : PedersenOpening) : Except Fault ElGamalCiphertext := do
  let grouped ← service.encryptGroupedElGamal [publicKey] amount opening
  return ByteArr.copyFrom 64 grouped

/-! ## Ciphertexts -/

/-- `elGamalCiphertext`. -/
def elGamalCiphertext (commitment handle : P) : ElGamalCiphertext :=
  ⟨(service.pedersenCommitment commitment).toList ++ (service.pedersenCommitment handle).toList,
    by rw [List.length_append, ByteArr.length_toList, ByteArr.length_toList]⟩

variable (ciphertext : ElGamalCiphertext)

/-- `elGamalCiphertextPoints`. -/
def elGamalCiphertextPoints : Except Fault (P × P) := do
  let commitment ←
    service.ristrettoPoint (slot ciphertext.toList 0) "ElGamal ciphertext commitment"
  let handle ← service.ristrettoPoint (slot ciphertext.toList 1) "ElGamal ciphertext handle"
  return (commitment, handle)

/-- `combineElGamalCiphertexts`. -/
def combineElGamalCiphertexts (left right : ElGamalCiphertext) (subtract : Bool) :
    Except Fault ElGamalCiphertext := do
  let (leftCommitment, leftHandle) ← service.elGamalCiphertextPoints left
  let (rightCommitment, rightHandle) ← service.elGamalCiphertextPoints right
  if subtract then
    return service.elGamalCiphertext (leftCommitment - rightCommitment) (leftHandle - rightHandle)
  else
    return service.elGamalCiphertext (leftCommitment + rightCommitment) (leftHandle + rightHandle)

/-- `AddElGamalCiphertexts`. -/
def addElGamalCiphertexts (left right : ElGamalCiphertext) : Except Fault ElGamalCiphertext :=
  service.combineElGamalCiphertexts left right false

/-- `SubtractElGamalCiphertexts`. -/
def subtractElGamalCiphertexts (left right : ElGamalCiphertext) :
    Except Fault ElGamalCiphertext :=
  service.combineElGamalCiphertexts left right true

/-- `combineElGamalAmount`. -/
def combineElGamalAmount (amount : ℕ) (subtract : Bool) :
    Except Fault ElGamalCiphertext := do
  let (commitment, handle) ← service.elGamalCiphertextPoints ciphertext
  let encodedAmount := (amount : ZMod ℓ) • service.curve.base
  if subtract then return service.elGamalCiphertext (commitment - encodedAmount) handle
  else return service.elGamalCiphertext (commitment + encodedAmount) handle

/-- `AddElGamalAmount`. -/
def addElGamalAmount (amount : ℕ) : Except Fault ElGamalCiphertext :=
  service.combineElGamalAmount ciphertext amount false

/-- `SubtractElGamalAmount`. -/
def subtractElGamalAmount (amount : ℕ) : Except Fault ElGamalCiphertext :=
  service.combineElGamalAmount ciphertext amount true

/-- `DecryptElGamalTarget`. -/
def decryptElGamalTarget (secret : ElGamalSecretKey) (ciphertext : ElGamalCiphertext) :
    Except Fault PedersenCommitment := do
  let secretScalar ← service.scalarFromBytes secret.toList "ElGamal secret key"
  let (commitment, handle) ← service.elGamalCiphertextPoints ciphertext
  return service.pedersenCommitment (commitment - secretScalar • handle)

/-! ## What a ciphertext decrypts to -/

/-- Under the secret scalar `s`, the ciphertext decrypts to the amount `a`. -/
def Encrypts (s : ZMod ℓ) (ciphertext : ElGamalCiphertext) (a : ZMod ℓ) : Prop :=
  ∃ commitment handle, ciphertext = service.elGamalCiphertext commitment handle
    ∧ commitment - s • handle = a • service.curve.base

section Lemmas

variable {service} {s : ZMod ℓ} {a b : ZMod ℓ} {left right : ElGamalCiphertext}

theorem pedersenCommitmentPoint_eq (amount : ℕ) (opening : ZMod ℓ) :
    service.pedersenCommitmentPoint amount opening
      = (amount : ZMod ℓ) • service.curve.base + opening • service.curve.openingBase := by
  show (_ + (_ + 0) : P) = _
  rw [add_zero]

/-- A key that was derived. -/
theorem deriveElGamalPubkey_eq_ok {secret : ElGamalSecretKey} {publicKey : ElGamalPubkey}
    (h : service.deriveElGamalPubkey secret = .ok publicKey) :
    ∃ s, service.curve.scalarOf secret.toList = .ok s ∧ s ≠ 0
      ∧ publicKey = service.pedersenCommitment (s⁻¹ • service.curve.openingBase) := by
  unfold deriveElGamalPubkey at h
  split at h
  · cases h
  · rename_i s hs
    split at h
    · cases h
    · rename_i hne
      exact ⟨s, hs, hne, (Except.ok.inj h).symm⟩

variable (hlaw : service.curve.Lawful)

include hlaw

omit [Module (ZMod ℓ) P] in
theorem elGamalCiphertextPoints_elGamalCiphertext (commitment handle : P) :
    service.elGamalCiphertextPoints (service.elGamalCiphertext commitment handle)
      = .ok (commitment, handle) := by
  have hslots : (service.elGamalCiphertext commitment handle).toList
      = (service.pedersenCommitment commitment).toList
        ++ (service.pedersenCommitment handle).toList := rfl
  unfold elGamalCiphertextPoints
  rw [hslots, slot_zero, slot_succ, slot_self, ristrettoPoint_pedersenCommitment hlaw,
    ristrettoPoint_pedersenCommitment hlaw]
  rfl

/-- The all-zero ciphertext of a fresh account decrypts to zero. -/
theorem encrypts_zero (s : ZMod ℓ) : service.Encrypts s (ByteArr.zero 64) 0 := by
  refine ⟨0, 0, ?_, ?_⟩
  · refine ByteArr.ext ?_
    show List.replicate 64 0 = (service.curve.compress 0).toList ++ (service.curve.compress 0).toList
    rw [hlaw.compress_zero]
    rfl
  · rw [smul_zero, sub_zero, zero_smul]

/-- Adding ciphertexts adds the amounts. -/
theorem addElGamalCiphertexts_encrypts (hleft : service.Encrypts s left a)
    (hright : service.Encrypts s right b) :
    ∃ sum, service.addElGamalCiphertexts left right = .ok sum ∧ service.Encrypts s sum (a + b) := by
  obtain ⟨c, d, rfl, hc⟩ := hleft
  obtain ⟨c', d', rfl, hc'⟩ := hright
  refine ⟨service.elGamalCiphertext (c + c') (d + d'), ?_, c + c', d + d', rfl, ?_⟩
  · unfold addElGamalCiphertexts combineElGamalCiphertexts
    rw [elGamalCiphertextPoints_elGamalCiphertext hlaw,
      elGamalCiphertextPoints_elGamalCiphertext hlaw]
    rfl
  · rw [smul_add, add_sub_add_comm, hc, hc', add_smul]

/-- Adding a plain amount adds it. -/
theorem addElGamalAmount_encrypts (hleft : service.Encrypts s left a) (amount : ℕ) :
    ∃ sum, service.addElGamalAmount left amount = .ok sum
      ∧ service.Encrypts s sum (a + amount) := by
  obtain ⟨c, d, rfl, hc⟩ := hleft
  refine ⟨service.elGamalCiphertext (c + (amount : ZMod ℓ) • service.curve.base) d, ?_,
    c + (amount : ZMod ℓ) • service.curve.base, d, rfl, ?_⟩
  · unfold addElGamalAmount combineElGamalAmount
    rw [elGamalCiphertextPoints_elGamalCiphertext hlaw]
    rfl
  · rw [add_sub_right_comm, hc, add_smul]

/-- What is encrypted for one key: a commitment and a handle. -/
theorem encryptElGamalWithOpening_eq {point : P} {opening : PedersenOpening} {r : ZMod ℓ}
    (hopening : service.curve.scalarOf opening.toList = .ok r) (amount : ℕ) :
    service.encryptElGamalWithOpening (service.pedersenCommitment point) amount opening
      = .ok (service.elGamalCiphertext (service.pedersenCommitmentPoint amount r) (r • point)) := by
  have hhandle : service.decryptHandle r (service.pedersenCommitment point)
      = .ok (service.pedersenCommitment (r • point)) := by
    unfold decryptHandle
    rw [ristrettoPoint_pedersenCommitment hlaw]
    rfl
  unfold encryptElGamalWithOpening encryptGroupedElGamal
  rw [scalarFromBytes_eq_ok.mpr hopening]
  simp only [ok_bind, List.mapM_cons, List.mapM_nil, hhandle, joinArrays_cons, joinArrays_nil,
    pure, Except.pure]
  rw [List.append_nil]
  exact congrArg Except.ok (ByteArr.copyFrom_toList
    (service.elGamalCiphertext (service.pedersenCommitmentPoint amount r) (r • point)))

variable [Fact ℓ.Prime]

/-- What is encrypted with the public key decrypts with the secret key. -/
theorem encryptElGamalWithOpening_encrypts (hs : s ≠ 0) {opening : PedersenOpening} {r : ZMod ℓ}
    (hopening : service.curve.scalarOf opening.toList = .ok r) (amount : ℕ) :
    ∃ ciphertext, service.encryptElGamalWithOpening
        (service.pedersenCommitment (s⁻¹ • service.curve.openingBase)) amount opening
        = .ok ciphertext ∧ service.Encrypts s ciphertext amount := by
  refine ⟨_, encryptElGamalWithOpening_eq hlaw hopening amount, _, _, rfl, ?_⟩
  rw [pedersenCommitmentPoint_eq, smul_comm r, smul_inv_smul₀ hs, add_sub_cancel_right]

end Lemmas

end ConfidentialTransferService

end SolanaGo.Token2022
