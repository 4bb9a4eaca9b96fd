/-
What an account or a mint holds, decrypted: the available balance and the current supply, with
what they use of `confidential_cipher.go`, `confidential_balances.go` and
`confidential_arithmetic.go`.

The cipher of the decryptable balances is a library's. It is a parameter here, any function
that opens what was sealed: a ciphertext has 36 bytes, of which 12 are the nonce and 16 the
tag, so 8 bytes are left. All that matters below is that they hold a number below `2^64`.
-/
import SolanaGo.Token2022.Percentage
import SolanaGo.Token2022.RangeData
import SolanaGo.Token2022.DiscreteLog

set_option autoImplicit false

namespace SolanaGo.Token2022

open Codec Buffer

/-- `type AEKey [16]byte`. -/
abbrev AEKey := ByteArr 16
/-- `type AeCiphertext [36]byte`. -/
abbrev AeCiphertext := ByteArr 36
/-- `type GroupedElGamalCiphertext3Handles [128]byte`. -/
abbrev GroupedElGamalCiphertext3Handles := ByteArr 128

/-- `siv.NewGCM(key)` and `Open`, from a key, a nonce and what was sealed. -/
abbrev AeOpen := AEKey → Bytes → Bytes → Except String (ByteArr 8)

/-- `type ConfidentialTransferAccount struct`: the fields the flows read. -/
structure ConfidentialTransferAccount where
  elGamalPubkey : ElGamalPubkey := ByteArr.zero 32
  pendingBalanceLo : ElGamalCiphertext := ByteArr.zero 64
  pendingBalanceHi : ElGamalCiphertext := ByteArr.zero 64
  availableBalance : ElGamalCiphertext
  decryptableAvailableBalance : AeCiphertext

/-- `type ConfidentialMintBurn struct`: the fields the flows read. -/
structure ConfidentialMintBurn where
  confidentialSupply : ElGamalCiphertext
  decryptableSupply : AeCiphertext

/-! ## Decryptable amounts -/

/-- `DecryptAEAmount`. -/
def decryptAEAmount (aeOpen : AeOpen) (key : AEKey) (ciphertext : AeCiphertext) :
    Except Fault ℕ :=
  match aeOpen key (ciphertext.toList.take 12) (ciphertext.toList.drop 12) with
  | .error msg => .error (decryptionError
      (.wrapped "decrypt confidential amount: authenticate: " (.library msg)))
  | .ok plaintext => .ok (leValue plaintext.toList)

theorem decryptAEAmount_lt {aeOpen : AeOpen} {key : AEKey} {ciphertext : AeCiphertext} {amount : ℕ}
    (h : decryptAEAmount aeOpen key ciphertext = .ok amount) : amount < 2 ^ 64 := by
  unfold decryptAEAmount at h
  split at h
  · cases h
  · rename_i plaintext _
    obtain rfl := Except.ok.inj h
    have hlt := leValue_lt plaintext.toList
    rw [ByteArr.length_toList] at hlt
    exact hlt

/-- `DecryptConfidentialAvailableBalance`. -/
def decryptConfidentialAvailableBalance (aeOpen : AeOpen) (key : AEKey)
    (account : ConfidentialTransferAccount) : Except Fault ℕ :=
  wrapping "decrypt confidential available balance: "
    (decryptAEAmount aeOpen key account.decryptableAvailableBalance)

/-- `groupedElGamalHandle`. -/
def groupedElGamalHandle (data : Bytes) (handles index : ℕ) : Except Fault ElGamalCiphertext := do
  refuse (handles ≤ index)
    (.message ("grouped ElGamal handle: index " ++ toString index ++ " out of bounds"))
  return ByteArr.copyFrom 64 (slot data 0 ++ slot data (index + 1))

/-- `GroupedElGamalCiphertext3Handle`. -/
def groupedElGamalCiphertext3Handle (ciphertext : GroupedElGamalCiphertext3Handles) (index : ℕ) :
    Except Fault ElGamalCiphertext :=
  groupedElGamalHandle ciphertext.toList 3 index

namespace ConfidentialTransferService

variable {ℓ : ℕ} {P : Type} [AddCommGroup P] [Module (ZMod ℓ) P]
  (service : ConfidentialTransferService ℓ P) (aeOpen : AeOpen)

/-! ## Encryption with fresh openings -/

/-- `GeneratePedersenOpening`. -/
def generatePedersenOpening (random : List (ZMod ℓ)) :
    Except Fault (PedersenOpening × List (ZMod ℓ)) := do
  let (value, random) ← wrapping "generate Pedersen opening: " (setRandom random)
  return (service.curve.scalarBytes value, random)

/-- `EncryptElGamal`. -/
def encryptElGamal (publicKey : ElGamalPubkey) (amount : ℕ) (random : List (ZMod ℓ)) :
    Except Fault (ElGamalCiphertext × PedersenOpening × List (ZMod ℓ)) := do
  let (opening, random) ← service.generatePedersenOpening random
  let ciphertext ← service.encryptElGamalWithOpening publicKey amount opening
  return (ciphertext, opening, random)

/-- `ScaleElGamalCiphertext`. -/
def scaleElGamalCiphertext (ciphertext : ElGamalCiphertext) (multiplier : ℕ) :
    Except Fault ElGamalCiphertext := do
  let (commitment, handle) ← service.elGamalCiphertextPoints ciphertext
  return service.elGamalCiphertext ((multiplier : ZMod ℓ) • commitment)
    ((multiplier : ZMod ℓ) • handle)

/-- `CombineElGamalAmountCiphertexts`. -/
def combineElGamalAmountCiphertexts (low high : ElGamalCiphertext) :
    Except Fault ElGamalCiphertext := do
  let scaled ← service.scaleElGamalCiphertext high (2 ^ 16)
  service.addElGamalCiphertexts low scaled

/-- `DecryptElGamalU32`. -/
def decryptElGamalAmount (secret : ElGamalSecretKey) (ciphertext : ElGamalCiphertext) :
    Except Fault ℕ :=
  onError decryptionError (service.decryptElGamalU32 secret ciphertext service.discreteLog)

/-! ## Supply key and withheld amounts -/

/-- `DecryptCurrentConfidentialSupply`. -/
def decryptCurrentConfidentialSupply (key : AEKey) (keypair : ElGamalKeypair)
    (state : ConfidentialMintBurn) (random : List (ZMod ℓ)) :
    Except Fault (ℕ × List (ZMod ℓ)) :=
  let context := "decrypt current confidential supply: "
  do
    let decryptableSupply ← wrapping context (decryptAEAmount aeOpen key state.decryptableSupply)
    let (decryptableCiphertext, _, random) ←
      wrapping context (service.encryptElGamal keypair.publicKey decryptableSupply random)
    let deltaCiphertext ← wrapping context
      (service.subtractElGamalCiphertexts decryptableCiphertext state.confidentialSupply)
    let delta ← wrapping context (service.decryptElGamalAmount keypair.secretKey deltaCiphertext)
    refuse (decryptableSupply < delta) (.message "decrypt current confidential supply: overflow")
    return (decryptableSupply - delta, random)

end ConfidentialTransferService

end SolanaGo.Token2022
