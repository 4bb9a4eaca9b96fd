/-
Balances and the supply, as `confidential_balances.go` computes them from what is encrypted.

The current supply is not decrypted from its ciphertext, which may hold more than 32 bits.
The decryptable supply is encrypted again with a fresh opening, the confidential supply is
subtracted, and the difference is found as a discrete logarithm. In the group the difference
of two 64-bit amounts is a 32-bit amount exactly if it is one in the integers, as long as the
order is above `2^65`: nothing wraps around (`natCast_eq_sub_iff`). So the supply is found
exactly if the decryptable supply is at most `2^32 - 1` ahead of it
(`decryptCurrentConfidentialSupply_eq_ok_iff`).

What is derived from a balance is computed in 64-bit words with a look at the carry. Each of
these functions returns the exact sum or difference, or an error.
-/
import SolanaGo.Token2022.PendingBalance
import SolanaGo.Token2022.TransferFee

set_option autoImplicit false

namespace SolanaGo.Token2022

open Codec

/-! ## The cipher -/

/-- `siv.NewGCM(key)` and `Seal`, from a key, a nonce and a plaintext of eight bytes. -/
abbrev AeSeal := AEKey → Bytes → ByteArr 8 → ByteArr 24

/-- What is documented of the cipher: what was sealed is opened again. -/
def AeSeal.OpenedBy (aeSeal : AeSeal) (aeOpen : AeOpen) : Prop :=
  ∀ key nonce plaintext, aeOpen key nonce (aeSeal key nonce plaintext).toList = .ok plaintext

/-- `binary.LittleEndian.PutUint64(plaintext[:], amount)`. -/
def amountBytes (amount : ℕ) : ByteArr 8 := ⟨leBytes 8 amount, length_leBytes 8 _⟩

/-- `EncryptAEAmountWithNonce`. -/
def encryptAEAmountWithNonce (aeSeal : AeSeal) (key : AEKey) (amount : ℕ) (nonce : ByteArr 12) :
    AeCiphertext :=
  ⟨nonce.toList ++ (aeSeal key nonce.toList (amountBytes amount)).toList, by
    rw [List.length_append, ByteArr.length_toList, ByteArr.length_toList]⟩

/-- `EncryptAEAmount`, with `nonce` for what `rand.Read` returns. -/
def encryptAEAmount (aeSeal : AeSeal) (key : AEKey) (amount : ℕ)
    (nonce : Except String (ByteArr 12)) : Except Fault AeCiphertext :=
  match nonce with
  | .error msg => .error (.wrapped "encrypt confidential amount: nonce: " (.library msg))
  | .ok nonce => .ok (encryptAEAmountWithNonce aeSeal key amount nonce)

/-- An amount of 64 bits is decrypted again. -/
theorem decryptAEAmount_encryptAEAmountWithNonce {aeOpen : AeOpen} {aeSeal : AeSeal}
    (hcipher : aeSeal.OpenedBy aeOpen) (key : AEKey) {amount : ℕ} (hamount : amount < 2 ^ 64)
    (nonce : ByteArr 12) :
    decryptAEAmount aeOpen key (encryptAEAmountWithNonce aeSeal key amount nonce)
      = .ok amount := by
  have hlen : nonce.toList.length = 12 := nonce.length_toList
  have htake : (encryptAEAmountWithNonce aeSeal key amount nonce).toList.take 12
      = nonce.toList := List.take_left' hlen
  have hdrop : (encryptAEAmountWithNonce aeSeal key amount nonce).toList.drop 12
      = (aeSeal key nonce.toList (amountBytes amount)).toList :=
    List.drop_left' hlen
  unfold decryptAEAmount
  rw [htake, hdrop, hcipher]
  show Except.ok (leValue (leBytes 8 amount)) = .ok amount
  have hlt : amount < 256 ^ 8 := hamount
  rw [leValue_leBytes, Nat.mod_eq_of_lt hlt]

namespace ConfidentialTransferService

variable {ℓ : ℕ} {P : Type} [AddCommGroup P] [Module (ZMod ℓ) P]
  (service : ConfidentialTransferService ℓ P) (aeOpen : AeOpen)

/-! ## Balances -/

/-- `DecryptConfidentialPendingBalance`. -/
def decryptConfidentialPendingBalance (secret : ElGamalSecretKey)
    (account : ConfidentialTransferAccount) : Except Fault ℕ :=
  wrapping "decrypt confidential pending balance: "
    (service.decryptPendingBalance secret account.pendingBalanceLo account.pendingBalanceHi)

/-- `sum, carry := bits.Add64(x, y, 0)`, and an error for a carry. -/
def addWords (x y : ℕ) (overflow : Fault) : Except Fault ℕ :=
  let (sum, carry) := add64 x y 0
  if carry ≠ 0 then .error overflow else .ok sum

/-- The sum of the two balances. -/
def sumOfBalances (secret : ElGamalSecretKey) (key : AEKey) (account : ConfidentialTransferAccount)
    (overflow : Fault) : Except Fault ℕ := do
  let pending ← service.decryptConfidentialPendingBalance secret account
  let available ← decryptConfidentialAvailableBalance aeOpen key account
  addWords available pending overflow

/-- `availableBalanceAfterPending`. -/
def availableBalanceAfterPending (secret : ElGamalSecretKey) (key : AEKey)
    (account : ConfidentialTransferAccount) : Except Fault ℕ :=
  service.sumOfBalances aeOpen secret key account
    (.message "new decryptable available balance for apply pending: overflow")

/-- `availableBalanceAfterSpend`. -/
def availableBalanceAfterSpend (key : AEKey) (account : ConfidentialTransferAccount) (amount : ℕ)
    (underflow : String) : Except Fault ℕ := do
  let available ← decryptConfidentialAvailableBalance aeOpen key account
  if available < amount then
    let err := Fault.message ("new decryptable available balance: " ++ underflow)
    if underflow = "insufficient funds" then throw (insufficientFundsError err)
    else throw (invalidInputError err)
  return available - amount

/-- `confidentialSupplyAfterMint`. -/
def confidentialSupplyAfterMint (key : AEKey) (keypair : ElGamalKeypair)
    (state : ConfidentialMintBurn) (mintAmount : ℕ) (random : List (ZMod ℓ)) : Except Fault ℕ := do
  let (current, _) ← service.decryptCurrentConfidentialSupply aeOpen key keypair state random
  addWords current mintAmount (.message "new decryptable confidential supply: overflow")

/-! ## New decryptable amounts

For each of these the source has one function that draws a nonce and one that takes it; here
`nonce` is what was drawn, or the nonce given. -/

section New

variable (aeSeal : AeSeal) (nonce : Except String (ByteArr 12))

/-- `NewDecryptableAvailableBalanceForApplyPending`. -/
def newDecryptableAvailableBalanceForApplyPending (secret : ElGamalSecretKey) (key : AEKey)
    (account : ConfidentialTransferAccount) : Except Fault AeCiphertext := do
  let amount ← service.availableBalanceAfterPending aeOpen secret key account
  encryptAEAmount aeSeal key amount nonce

/-- `NewDecryptableAvailableBalanceForSpend`. -/
def newDecryptableAvailableBalanceForSpend (key : AEKey) (account : ConfidentialTransferAccount)
    (amount : ℕ) : Except Fault AeCiphertext := do
  let balance ← availableBalanceAfterSpend aeOpen key account amount "insufficient funds"
  encryptAEAmount aeSeal key balance nonce

/-- `NewDecryptableAvailableBalanceForBurn`. -/
def newDecryptableAvailableBalanceForBurn (key : AEKey) (account : ConfidentialTransferAccount)
    (amount : ℕ) : Except Fault AeCiphertext := do
  let balance ← availableBalanceAfterSpend aeOpen key account amount "overflow"
  encryptAEAmount aeSeal key balance nonce

/-- `NewDecryptableSupply`. -/
def newDecryptableSupply (key : AEKey) (keypair : ElGamalKeypair) (state : ConfidentialMintBurn)
    (mintAmount : ℕ) (random : List (ZMod ℓ)) : Except Fault AeCiphertext := do
  let supply ← service.confidentialSupplyAfterMint aeOpen key keypair state mintAmount random
  encryptAEAmount aeSeal key supply nonce

end New

/-! ## Sums and differences are exact -/

/-- A sum of words, unless it carries. -/
theorem addWords_eq_ok {x y n : ℕ} {overflow : Fault} :
    addWords x y overflow = .ok n ↔ x + y < 2 ^ 64 ∧ n = x + y := by
  unfold addWords add64
  dsimp only
  rw [Nat.add_zero]
  by_cases hfits : x + y < 2 ^ 64
  · rw [Nat.div_eq_of_lt hfits, Nat.mod_eq_of_lt hfits, if_neg (by decide), Except.ok.injEq]
    simp only [hfits, true_and, eq_comm]
  · have hcarry : (x + y) / 2 ^ 64 ≠ 0 := by
      rw [Nat.div_ne_zero_iff]
      omega
    rw [if_pos hcarry]
    simp only [reduceCtorEq, hfits, false_and]

/-- **The balance after a spend** is the difference. -/
theorem availableBalanceAfterSpend_eq_ok_iff {key : AEKey} {account : ConfidentialTransferAccount}
    {amount n : ℕ} {underflow : String} :
    availableBalanceAfterSpend aeOpen key account amount underflow = .ok n
      ↔ ∃ available, decryptAEAmount aeOpen key account.decryptableAvailableBalance = .ok available
        ∧ amount ≤ available ∧ n = available - amount := by
  unfold availableBalanceAfterSpend decryptConfidentialAvailableBalance
  rw [bind_eq_ok]
  simp only [wrapping_eq_ok]
  refine exists_congr fun available => and_congr_right fun _ => ?_
  by_cases hless : available < amount
  · rw [if_pos hless]
    simp only [Nat.not_le.mpr hless, false_and, iff_false]
    split <;> simp [throw, throwThe, MonadExceptOf.throw, Except.bind, bind]
  · rw [if_neg hless]
    simp [Nat.le_of_not_lt hless, pure, Except.pure, eq_comm]

section Balances

variable {service} {aeOpen}

/-- **The sum of the balances.** -/
theorem sumOfBalances_eq_ok_iff {secret : ElGamalSecretKey} {key : AEKey}
    {account : ConfidentialTransferAccount} {overflow : Fault} {n : ℕ} :
    service.sumOfBalances aeOpen secret key account overflow = .ok n
      ↔ ∃ pending available,
        service.decryptPendingBalance secret account.pendingBalanceLo account.pendingBalanceHi
            = .ok pending
        ∧ decryptAEAmount aeOpen key account.decryptableAvailableBalance = .ok available
        ∧ available + pending < 2 ^ 64 ∧ n = available + pending := by
  unfold sumOfBalances decryptConfidentialPendingBalance decryptConfidentialAvailableBalance
  simp only [bind_eq_ok, wrapping_eq_ok, addWords_eq_ok, exists_and_left]

omit [AddCommGroup P] [Module (ZMod ℓ) P] in
/-- A 32-bit amount is a difference of 64-bit amounts in the group exactly if it is one. -/
theorem natCast_eq_sub_iff (horder : 2 ^ 65 ≤ ℓ) {n d s : ℕ} (hn : n < 2 ^ 32) (hd : d < 2 ^ 64)
    (hs : s < 2 ^ 64) : (n : ZMod ℓ) = d - s ↔ n + s = d := by
  rw [eq_sub_iff_add_eq, ← Nat.cast_add, ZMod.natCast_eq_natCast_iff',
    Nat.mod_eq_of_lt (by omega), Nat.mod_eq_of_lt (by omega)]

variable [Fact ℓ.Prime] (hlaw : service.curve.Lawful)

include hlaw

/-- **The current supply.** -/
theorem decryptCurrentConfidentialSupply_eq_ok_iff [DecidableEq P] (horder : 2 ^ 65 ≤ ℓ)
    (hstarted : service.Started) {keypair : ElGamalKeypair} {s : ZMod ℓ}
    (hsecret : service.curve.scalarOf keypair.secretKey.toList = .ok s) (hs : s ≠ 0)
    (hpublic : keypair.publicKey = service.pedersenCommitment (s⁻¹ • service.curve.openingBase))
    {key : AEKey} {state : ConfidentialMintBurn} {d supply : ℕ}
    (hd : decryptAEAmount aeOpen key state.decryptableSupply = .ok d) (hsupply : supply < 2 ^ 64)
    (henc : service.Encrypts s state.confidentialSupply supply) (opening : ZMod ℓ)
    (random : List (ZMod ℓ)) {result : ℕ × List (ZMod ℓ)} :
    service.decryptCurrentConfidentialSupply aeOpen key keypair state (opening :: random)
        = .ok result
      ↔ supply ≤ d ∧ d - supply < 2 ^ 32 ∧ result = (supply, random) := by
  have hlt := decryptAEAmount_lt hd
  -- The decryptable supply under the drawn opening, and the difference.
  obtain ⟨ciphertext, hencrypt, hct⟩ :=
    encryptElGamalWithOpening_encrypts hlaw hs (hlaw.scalarOf_scalarBytes opening) d
  obtain ⟨difference, hsubtract, hdelta⟩ := subtractElGamalCiphertexts_encrypts hlaw hct henc
  have hfresh : service.encryptElGamal keypair.publicKey d (opening :: random)
      = .ok (ciphertext, service.curve.scalarBytes opening, random) := by
    unfold encryptElGamal generatePedersenOpening
    rw [hpublic]
    simp only [setRandom, wrapping_ok, ok_bind, pure, Except.pure, hencrypt]
  have hfound : ∀ delta, service.decryptElGamalAmount keypair.secretKey difference = .ok delta
      ↔ delta < 2 ^ 32 ∧ delta + supply = d := by
    intro delta
    unfold decryptElGamalAmount
    rw [onError_eq_ok, decryptElGamalU32_eq_ok_iff hlaw hstarted hsecret hdelta]
    refine and_congr_right fun hsmall => ?_
    exact natCast_eq_sub_iff horder hsmall hlt hsupply
  unfold decryptCurrentConfidentialSupply
  simp only [hd, hfresh, hsubtract, wrapping_ok, ok_bind, bind_eq_ok, wrapping_eq_ok, hfound,
    refuse_eq_ok]
  constructor
  · rintro ⟨delta, ⟨hsmall, rfl⟩, -, -, hresult⟩
    obtain rfl := Except.ok.inj hresult
    refine ⟨Nat.le_add_left _ _, by omega, ?_⟩
    rw [Nat.add_sub_cancel_left]
  · rintro ⟨hle, hsmall, rfl⟩
    refine ⟨d - supply, ⟨hsmall, Nat.sub_add_cancel hle⟩, (), by omega, ?_⟩
    rw [Nat.sub_sub_self hle]
    rfl

end Balances

/-! ## The new decryptable amounts -/

/-- The ciphertext holds the amount, under the secret key of the pair. -/
def EncryptsFor (keypair : ElGamalKeypair) (ciphertext : ElGamalCiphertext) (amount : ℕ) : Prop :=
  ∃ s, service.curve.scalarOf keypair.secretKey.toList = .ok s
    ∧ service.Encrypts s ciphertext amount

/-- An amount that is encrypted as soon as it is computed. -/
theorem bind_encryptAEAmount_eq_ok {aeSeal : AeSeal} {key : AEKey} {nonce : ByteArr 12}
    {balance : Except Fault ℕ} {ciphertext : AeCiphertext} :
    (balance >>= fun amount => encryptAEAmount aeSeal key amount (.ok nonce)) = .ok ciphertext
      ↔ ∃ n, balance = .ok n ∧ ciphertext = encryptAEAmountWithNonce aeSeal key n nonce := by
  rw [bind_eq_ok]
  refine exists_congr fun n => and_congr_right fun _ => ?_
  unfold encryptAEAmount
  rw [Except.ok.injEq, eq_comm]

/-- The balance after a spend, encrypted. -/
theorem bind_availableBalanceAfterSpend_eq_ok {aeSeal : AeSeal} {key : AEKey} {nonce : ByteArr 12}
    {account : ConfidentialTransferAccount} {amount : ℕ} {underflow : String}
    {ciphertext : AeCiphertext} :
    (availableBalanceAfterSpend aeOpen key account amount underflow >>= fun balance =>
        encryptAEAmount aeSeal key balance (.ok nonce)) = .ok ciphertext
      ↔ ∃ available, decryptAEAmount aeOpen key account.decryptableAvailableBalance = .ok available
        ∧ amount ≤ available
        ∧ ciphertext = encryptAEAmountWithNonce aeSeal key (available - amount) nonce := by
  rw [bind_encryptAEAmount_eq_ok]
  simp only [availableBalanceAfterSpend_eq_ok_iff]
  constructor
  · rintro ⟨n, ⟨available, havailable, hle, rfl⟩, rfl⟩
    exact ⟨available, havailable, hle, rfl⟩
  · rintro ⟨available, havailable, hle, rfl⟩
    exact ⟨_, ⟨available, havailable, hle, rfl⟩, rfl⟩

/-- **Balances and the supply are exact.** For a supply state that authenticates to `d` and
encrypts `supply` under the supply key, the current supply is found exactly if it is at most
`d` and less than `2^32` behind it, whatever opening is drawn. The new supply, the balance
after pending credits and the balance after a spend or a burn are the sums and differences of
what the ciphertexts hold, if these are amounts of 64 bits, and errors otherwise. -/
theorem confidentialBalances_exact [DecidableEq P] [Fact ℓ.Prime] (hlaw : service.curve.Lawful)
    (horder : 2 ^ 65 ≤ ℓ) (hstarted : service.Started) (aeSeal : AeSeal)
    (hcipher : aeSeal.OpenedBy aeOpen) (key : AEKey) (nonce : ByteArr 12) :
    (∀ keypair state d (supply : UInt64),
      service.deriveElGamalPubkey keypair.secretKey = .ok keypair.publicKey →
      decryptAEAmount aeOpen key state.decryptableSupply = .ok d →
      service.EncryptsFor keypair state.confidentialSupply supply.toNat →
      ∀ opening random,
        (∀ result, service.decryptCurrentConfidentialSupply aeOpen key keypair state
            (opening :: random) = .ok result
          ↔ supply.toNat ≤ d ∧ d - supply.toNat < 2 ^ 32 ∧ result = (supply.toNat, random))
        ∧ ∀ (mintAmount : UInt64) ciphertext,
          service.newDecryptableSupply aeOpen aeSeal (.ok nonce) key keypair state
              mintAmount.toNat (opening :: random) = .ok ciphertext
            ↔ supply.toNat ≤ d ∧ d - supply.toNat < 2 ^ 32
              ∧ supply.toNat + mintAmount.toNat < 2 ^ 64
              ∧ ciphertext = encryptAEAmountWithNonce aeSeal key
                (supply.toNat + mintAmount.toNat) nonce)
    ∧ (∀ secret account ciphertext,
      service.newDecryptableAvailableBalanceForApplyPending aeOpen aeSeal (.ok nonce) secret key
          account = .ok ciphertext
        ↔ ∃ pending available,
          service.decryptPendingBalance secret account.pendingBalanceLo account.pendingBalanceHi
            = .ok pending
          ∧ decryptAEAmount aeOpen key account.decryptableAvailableBalance = .ok available
          ∧ available + pending < 2 ^ 64
          ∧ ciphertext = encryptAEAmountWithNonce aeSeal key (available + pending) nonce)
    ∧ (∀ account (amount : UInt64) ciphertext,
      (newDecryptableAvailableBalanceForSpend aeOpen aeSeal (.ok nonce) key account amount.toNat
          = .ok ciphertext
        ↔ ∃ available, decryptAEAmount aeOpen key account.decryptableAvailableBalance = .ok available
          ∧ amount.toNat ≤ available
          ∧ ciphertext = encryptAEAmountWithNonce aeSeal key (available - amount.toNat) nonce)
      ∧ (newDecryptableAvailableBalanceForBurn aeOpen aeSeal (.ok nonce) key account amount.toNat
          = .ok ciphertext
        ↔ ∃ available, decryptAEAmount aeOpen key account.decryptableAvailableBalance = .ok available
          ∧ amount.toNat ≤ available
          ∧ ciphertext = encryptAEAmountWithNonce aeSeal key (available - amount.toNat) nonce))
    ∧ ∀ n < 2 ^ 64, decryptAEAmount aeOpen key (encryptAEAmountWithNonce aeSeal key n nonce)
      = .ok n := by
  refine ⟨fun keypair state d supply hkey hd hencrypts opening random => ?_,
    fun secret account ciphertext => ?_, fun account amount ciphertext => ⟨?_, ?_⟩,
    fun n hn => decryptAEAmount_encryptAEAmountWithNonce hcipher key hn nonce⟩
  · obtain ⟨s, hsecret, hs, hpublic⟩ := deriveElGamalPubkey_eq_ok hkey
    obtain ⟨s', hsecret', henc⟩ := hencrypts
    obtain rfl : s = s' := Except.ok.inj (hsecret.symm.trans hsecret')
    -- the search finds the difference of the two amounts, if it is in its range
    have hcurrent : ∀ {result}, service.decryptCurrentConfidentialSupply aeOpen key keypair state
          (opening :: random) = .ok result
        ↔ supply.toNat ≤ d ∧ d - supply.toNat < 2 ^ 32 ∧ result = (supply.toNat, random) :=
      decryptCurrentConfidentialSupply_eq_ok_iff hlaw horder hstarted hsecret hs hpublic hd
        supply.toNat_lt henc opening random
    refine ⟨fun result => hcurrent, fun mintAmount ciphertext => ?_⟩
    unfold newDecryptableSupply
    rw [bind_encryptAEAmount_eq_ok]
    unfold confidentialSupplyAfterMint
    simp only [bind_eq_ok, hcurrent, addWords_eq_ok]
    constructor
    · rintro ⟨n, ⟨_, ⟨hle, hsmall, rfl⟩, hfits, rfl⟩, rfl⟩
      exact ⟨hle, hsmall, hfits, rfl⟩
    · rintro ⟨hle, hsmall, hfits, rfl⟩
      exact ⟨_, ⟨_, ⟨hle, hsmall, rfl⟩, hfits, rfl⟩, rfl⟩
  · unfold newDecryptableAvailableBalanceForApplyPending availableBalanceAfterPending
    rw [bind_encryptAEAmount_eq_ok]
    simp only [sumOfBalances_eq_ok_iff]
    constructor
    · rintro ⟨n, ⟨pending, available, hpending, havailable, hfits, rfl⟩, rfl⟩
      exact ⟨pending, available, hpending, havailable, hfits, rfl⟩
    · rintro ⟨pending, available, hpending, havailable, hfits, rfl⟩
      exact ⟨_, ⟨pending, available, hpending, havailable, hfits, rfl⟩, rfl⟩
  · exact bind_availableBalanceAfterSpend_eq_ok aeOpen
  · exact bind_availableBalanceAfterSpend_eq_ok aeOpen

/-! ## In the sample group -/

/-- A cipher that puts sixteen zeros behind the amount. -/
def plainSeal : AeSeal := fun _ _ plaintext =>
  ByteArr.copyFrom 24 (plaintext.toList ++ List.replicate 16 0)

/-- It is opened by taking them away. -/
def plainOpen : AeOpen := fun _ _ sealed => .ok (ByteArr.copyFrom 8 sealed)

theorem plainSeal_openedBy : plainSeal.OpenedBy plainOpen := by
  intro key nonce plaintext
  have hlen : (plaintext.toList ++ List.replicate 16 0).length = 24 := by
    rw [List.length_append, plaintext.length_toList, List.length_replicate]
  refine congrArg Except.ok (ByteArr.ext ?_)
  unfold plainSeal
  rw [ByteArr.toList_copyFrom (by rw [ByteArr.length_toList]; decide),
    ByteArr.toList_copyFrom hlen.ge, List.take_take]
  exact List.take_left' plaintext.length_toList

/-- A decryptable supply of nine, and a supply of seven. -/
def sampleSupply : ConfidentialMintBurn where
  confidentialSupply := sampleService.elGamalCiphertext (7 : ℕ) 0
  decryptableSupply := encryptAEAmountWithNonce plainSeal (ByteArr.zero 16) 9 (ByteArr.zero 12)

/-- The secret key one and its public key. -/
def supplyKeypair : ElGamalKeypair := ⟨pubkeyOfOne, sampleEncode 1⟩

/-- The current supply, and the supply after a mint of four. -/
theorem confidentialBalances_exact_sample :
    sampleService.decryptCurrentConfidentialSupply plainOpen (ByteArr.zero 16) supplyKeypair
        sampleSupply [7] = .ok (7, [])
    ∧ ∃ ciphertext, sampleService.newDecryptableSupply plainOpen plainSeal
        (.ok (ByteArr.zero 12)) (ByteArr.zero 16) supplyKeypair sampleSupply 4 [7]
          = .ok ciphertext
      ∧ decryptAEAmount plainOpen (ByteArr.zero 16) ciphertext = .ok 11 := by
  have horder : 2 ^ 65 ≤ sampleOrder := by
    rw [sampleOrder_eq]
    decide
  have hsecret : sampleService.curve.scalarOf supplyKeypair.secretKey.toList = .ok 1 :=
    sampleDecode_sampleEncode 1
  have hencrypts : sampleService.EncryptsFor supplyKeypair sampleSupply.confidentialSupply
      (UInt64.toNat 7) := by
    refine ⟨1, hsecret, 7, 0, rfl, ?_⟩
    rw [smul_zero, sub_zero]
    exact (mul_one (7 : ZMod sampleOrder)).symm
  obtain ⟨hsupply, -, -, hopened⟩ := sampleService.confidentialBalances_exact plainOpen
    sampleCurve_lawful horder sampleService_started plainSeal plainSeal_openedBy
    (ByteArr.zero 16) (ByteArr.zero 12)
  obtain ⟨hcurrent, hmint⟩ := hsupply supplyKeypair sampleSupply 9 7 sampleService_key
    (hopened 9 (by decide)) hencrypts 7 []
  refine ⟨(hcurrent _).mpr ⟨by decide, by decide, rfl⟩, _,
    (hmint 4 _).mpr ⟨by decide, by decide, by decide, rfl⟩, hopened 11 (by decide)⟩

end ConfidentialTransferService

end SolanaGo.Token2022
