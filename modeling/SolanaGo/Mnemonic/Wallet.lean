/-
From a mnemonic to a wallet.

Whether a mnemonic is valid depends on its words alone, but the seed is derived from the
string as it was given: `PrivateKeyFromMnemonicAtPath` does not join the words again before
PBKDF2. So two strings with the same words are valid together, and lead to two wallets
unless they are the same string.

`mnemonic_wallet_iff` says so for every two strings with the same words, as far as the
derivation tells the two strings apart; `mnemonic_wallet_newline` is a newline at the end.
-/
import SolanaGo.Mnemonic.Validity

set_option autoImplicit false

namespace SolanaGo.Mnemonic

open Codec (Bytes ByteArr ok_bind error_bind)
open GoStrings Keyed

/-! ## The two strings -/

/-- The validity depends on the words. -/
theorem isMnemonicValid_congr {mnemonic mnemonic' : Bytes} (h : fields mnemonic = fields mnemonic')
    (index : Map Bytes UInt16) (sha256 : Bytes → ByteArr 32) :
    isMnemonicValid index sha256 mnemonic = isMnemonicValid index sha256 mnemonic' := by
  unfold isMnemonicValid
  rw [h]

section Wallet

variable (prims : Primitives) (index : Map Bytes UInt16)

/-- The key at the end of a path of indices. -/
def walletKey (indices : List ℕ) (mnemonic passphrase : Bytes) : ByteArr 64 :=
  prims.newKeyFromSeed
    (indices.foldl (slip10ChildKey prims)
      (splitSum (prims.hmacSha512 "ed25519 seed".toUTF8.data.toList
        (mnemonicToSeed prims mnemonic passphrase)))).1

/-- A seed of PBKDF2 has 64 bytes and is taken for a master key. -/
theorem slip10MasterKey_mnemonicToSeed (mnemonic passphrase : Bytes) :
    slip10MasterKey prims (mnemonicToSeed prims mnemonic passphrase)
      = .ok (splitSum (prims.hmacSha512 "ed25519 seed".toUTF8.data.toList
          (mnemonicToSeed prims mnemonic passphrase))) := by
  have hlen : (mnemonicToSeed prims mnemonic passphrase).length = 64 := ByteArr.length_toList _
  unfold slip10MasterKey
  rw [if_neg (by omega)]

/-- **The outcome**: an error if the mnemonic or the path is refused, else a key. -/
theorem privateKeyFromMnemonicAtPath_eq (mnemonic passphrase path : Bytes) :
    privateKeyFromMnemonicAtPath prims index mnemonic passphrase path
      = if isMnemonicValid index prims.sha256 mnemonic = true then
          (parseDerivationPath path).map fun indices =>
            walletKey prims indices mnemonic passphrase
        else .error { msg := "invalid mnemonic" } := by
  unfold privateKeyFromMnemonicAtPath
  cases isMnemonicValid index prims.sha256 mnemonic with
  | false => rfl
  | true =>
    show privateKeyFromSeedAtPath prims (mnemonicToSeed prims mnemonic passphrase) path = _
    unfold privateKeyFromSeedAtPath
    cases parseDerivationPath path with
    | error err => rfl
    | ok indices =>
      rw [ok_bind, slip10MasterKey_mnemonicToSeed, ok_bind]
      rfl

/-- Both calls fail, or both derive the same key. -/
def SameWallet (mnemonic mnemonic' passphrase path : Bytes) : Prop :=
  (∃ err err', privateKeyFromMnemonicAtPath prims index mnemonic passphrase path = .error err
      ∧ privateKeyFromMnemonicAtPath prims index mnemonic' passphrase path = .error err')
    ∨ ∃ key, privateKeyFromMnemonicAtPath prims index mnemonic passphrase path = .ok key
      ∧ privateKeyFromMnemonicAtPath prims index mnemonic' passphrase path = .ok key

/-- The derivation along a path does not take two strings to one key. -/
def TellsApart (mnemonic mnemonic' passphrase path : Bytes) : Prop :=
  ∀ indices, parseDerivationPath path = .ok indices →
    walletKey prims indices mnemonic passphrase = walletKey prims indices mnemonic' passphrase →
    mnemonic = mnemonic'

/-! ## Main result -/

/-- **Two strings with the same words** lead to the same outcome exactly if the mnemonic is
not valid, the path is refused, or they are one string. -/
theorem mnemonic_wallet_iff {mnemonic mnemonic' : Bytes}
    (hwords : fields mnemonic = fields mnemonic') (passphrase path : Bytes)
    (hapart : TellsApart prims mnemonic mnemonic' passphrase path) :
    SameWallet prims index mnemonic mnemonic' passphrase path
      ↔ isMnemonicValid index prims.sha256 mnemonic = false
        ∨ (∃ err, parseDerivationPath path = .error err) ∨ mnemonic = mnemonic' := by
  unfold SameWallet
  rw [privateKeyFromMnemonicAtPath_eq, privateKeyFromMnemonicAtPath_eq,
    ← isMnemonicValid_congr hwords]
  cases isMnemonicValid index prims.sha256 mnemonic with
  | false => simp
  | true =>
    rw [if_pos rfl, if_pos rfl]
    cases hpath : parseDerivationPath path with
    | error err => simp [Except.map]
    | ok indices =>
      have hsame : walletKey prims indices mnemonic passphrase
          = walletKey prims indices mnemonic' passphrase ↔ mnemonic = mnemonic' :=
        ⟨hapart indices hpath, fun h => h ▸ rfl⟩
      simp only [Except.map, reduceCtorEq, false_and, exists_false, false_or, Except.ok.injEq]
      rw [← hsame]
      constructor
      · rintro ⟨key, hkey, hkey'⟩
        exact hkey.trans hkey'.symm
      · intro h
        exact ⟨_, rfl, h.symm⟩

end Wallet

/-! ## A newline at the end -/

/-- Primitives that keep the end of the password. -/
def samplePrimitives : Primitives where
  sha256 := fun _ => ByteArr.zero 32
  pbkdf2 := fun password _ => ByteArr.copyFrom 64 password.reverse
  hmacSha512 := fun _ message => ByteArr.copyFrom 64 message
  newKeyFromSeed := ByteArr.copyFrom 64

theorem isMnemonicValid_samplePrimitives :
    isMnemonicValid (bip39WordIndex sampleRaw) samplePrimitives.sha256 sampleMnemonic = true :=
  isMnemonicValid_of_encode isWordList_sampleRaw (by decide) fields_sampleMnemonic

/-- A valid mnemonic, without and with a newline behind it: both calls fail at the path `x`,
and at `m` they derive two keys. -/
theorem mnemonic_wallet_paths :
    SameWallet samplePrimitives (bip39WordIndex sampleRaw) sampleMnemonic (sampleMnemonic ++ [10])
        [] [120]
      ∧ ¬SameWallet samplePrimitives (bip39WordIndex sampleRaw) sampleMnemonic
        (sampleMnemonic ++ [10]) [] [109] := by
  have hrefused : TellsApart samplePrimitives sampleMnemonic (sampleMnemonic ++ [10]) [] [120] := by
    rintro indices ⟨⟩
  have hapart : TellsApart samplePrimitives sampleMnemonic (sampleMnemonic ++ [10]) [] [109] := by
    rintro indices ⟨⟩ hsame
    exact absurd hsame (by decide)
  constructor
  · exact (mnemonic_wallet_iff _ _ (by decide) [] [120] hrefused).mpr (.inr (.inl ⟨_, rfl⟩))
  · rw [mnemonic_wallet_iff _ _ (by decide) [] [109] hapart, isMnemonicValid_samplePrimitives]
    rintro (hvalid | ⟨err, ⟨⟩⟩ | hsame)
    · exact absurd hvalid (by decide)
    · exact absurd hsame (by decide)

/-- **A newline behind a valid mnemonic leads to another wallet.** -/
theorem mnemonic_wallet_newline :
    fields sampleMnemonic = fields (sampleMnemonic ++ [10])
      ∧ ∃ key key', key ≠ key'
        ∧ privateKeyFromMnemonicAtPath samplePrimitives (bip39WordIndex sampleRaw) sampleMnemonic
          [] [109] = .ok key
        ∧ privateKeyFromMnemonicAtPath samplePrimitives (bip39WordIndex sampleRaw)
          (sampleMnemonic ++ [10]) [] [109] = .ok key' := by
  have hwords : fields sampleMnemonic = fields (sampleMnemonic ++ [10]) := by decide
  have hvalid := isMnemonicValid_samplePrimitives
  refine ⟨hwords, walletKey samplePrimitives [] sampleMnemonic [],
    walletKey samplePrimitives [] (sampleMnemonic ++ [10]) [], by decide, ?_, ?_⟩
  · rw [privateKeyFromMnemonicAtPath_eq, if_pos hvalid]
    rfl
  · rw [privateKeyFromMnemonicAtPath_eq, ← isMnemonicValid_congr hwords, if_pos hvalid]
    rfl

end SolanaGo.Mnemonic
