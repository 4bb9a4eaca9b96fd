/-
Signing in several calls: `PartialSign`, called with one key getter after the other.

Neither the message nor the signed payload depends on the signatures, so every call signs
the same bytes, and a call only touches the slots whose key its getter has. A slot
therefore ends with the signature of its key as soon as one of the getters has that
key, in whatever order they come (`signRun_signed`). With a deterministic scheme there
is one such signature, and so one final list.

The two transaction types run the same loop over the same slots, so the argument is made
once, about lists of signatures.
-/
import SolanaGo.Signing

set_option autoImplicit false

namespace SolanaGo

open Codec

/-! ## Slots -/

/-- The signatures after one call, over the keys that sign `msg`. -/
def callSlots (ed : Ed25519) (msg : Bytes) (keys : List PublicKey) (getter : PrivateKeyGetter)
    (sigs : List Signature) : List Signature :=
  signedSlots ed getter msg keys (initialSlots sigs keys.length)

/-- The signatures after some calls, over the keys that sign `msg`. -/
def signRun (ed : Ed25519) (msg : Bytes) (keys : List PublicKey) :
    List PrivateKeyGetter → List Signature → List Signature
  | [], sigs => sigs
  | getter :: getters, sigs =>
    signRun ed msg keys getters (callSlots ed msg keys getter sigs)

/-- The getters together have a key for every signer. -/
def Covers (getters : List PrivateKeyGetter) (keys : List PublicKey) : Prop :=
  ∀ key ∈ keys, ∃ getter ∈ getters, getter key ≠ none

/-- All private keys of a public key make the same signatures. -/
def Ed25519.Deterministic (ed : Ed25519) : Prop :=
  ∀ k k' key msg, ed.IsPrivateKeyOf k key → ed.IsPrivateKeyOf k' key → ed.sign k msg = ed.sign k' msg

/-- The signature was made with a private key of `key`. -/
def Ed25519.Signed (ed : Ed25519) (msg : Bytes) (key : PublicKey) (sig : Signature) : Prop :=
  ∃ k, ed.IsPrivateKeyOf k key ∧ sig = ed.sign k msg

section Slots

variable {ed : Ed25519} {msg : Bytes} {keys : List PublicKey}

theorem initialSlots_of_length {sigs : List Signature} {n : ℕ} (h : sigs.length = n) :
    initialSlots sigs n = sigs := by
  unfold initialSlots
  split
  · rename_i h0
    have hn : n = 0 := h.symm.trans h0
    rw [hn, List.replicate_zero, List.eq_nil_of_length_eq_zero h0]
  · rfl

/-- After a call there is a signature for every key. -/
theorem length_callSlots (getter : PrivateKeyGetter) {sigs : List Signature}
    (hlen : sigs.length = 0 ∨ sigs.length = keys.length) :
    (callSlots ed msg keys getter sigs).length = keys.length :=
  length_signedSlots ed getter msg (length_initialSlots (by omega)).symm

/-- After the calls there is still no signature, or one for every key. -/
theorem length_signRun_or (ed : Ed25519) (msg : Bytes) (getters : List PrivateKeyGetter)
    {sigs : List Signature} (hlen : sigs.length = 0 ∨ sigs.length = keys.length) :
    (signRun ed msg keys getters sigs).length = 0
      ∨ (signRun ed msg keys getters sigs).length = keys.length := by
  induction getters generalizing sigs with
  | nil => exact hlen
  | cons getter getters ih => exact ih (.inr (length_callSlots getter hlen))

/-- A slot is signed if it was, or if one of the getters has its key. -/
theorem signRun_signed {getters : List PrivateKeyGetter} (hhonest : ∀ g ∈ getters, ed.Honest g)
    {sigs : List Signature}
    (h : List.Forall₂ (fun key sig => ed.Signed msg key sig ∨ ∃ g ∈ getters, g key ≠ none) keys sigs) :
    List.Forall₂ (ed.Signed msg) keys (signRun ed msg keys getters sigs) := by
  induction getters generalizing sigs with
  | nil =>
    refine h.imp fun key sig hslot => ?_
    rcases hslot with hsigned | ⟨g, hmem, -⟩
    · exact hsigned
    · exact absurd hmem List.not_mem_nil
  | cons getter getters ih =>
    unfold signRun callSlots
    rw [initialSlots_of_length h.length_eq.symm]
    refine ih (fun g hg => hhonest g (List.mem_cons_of_mem _ hg)) ?_
    -- One call: the slot is signed now, or left for a later getter.
    have hlen := h.length_eq
    rw [List.forall₂_iff_get] at h ⊢
    refine ⟨(length_signedSlots ed getter msg hlen).symm, fun i hi hi' => ?_⟩
    have hslot := h.2 i hi (hlen ▸ hi)
    have hget : (signedSlots ed getter msg keys sigs).get ⟨i, hi'⟩
        = signedSlot ed getter msg (keys.get ⟨i, hi⟩) (sigs.get ⟨i, hlen ▸ hi⟩) := by
      simp [signedSlots]
    rw [hget, signedSlot]
    cases hk : getter (keys.get ⟨i, hi⟩) with
    | some k => exact .inl ⟨k, hhonest getter List.mem_cons_self _ k hk, rfl⟩
    | none =>
      rcases hslot with hsigned | ⟨g, hmem, hg⟩
      · exact .inl hsigned
      · rcases List.mem_cons.mp hmem with rfl | hmem
        · exact absurd hk hg
        · exact .inr ⟨g, hmem, hg⟩

/-- Getters that cover all keys leave every slot signed, whatever the slots hold before. -/
theorem signRun_covers {getters : List PrivateKeyGetter} (hhonest : ∀ g ∈ getters, ed.Honest g)
    (hcovers : Covers getters keys) {sigs : List Signature}
    (hlen : sigs.length = 0 ∨ sigs.length = keys.length) :
    List.Forall₂ (ed.Signed msg) keys (signRun ed msg keys getters sigs) := by
  cases getters with
  | nil =>
    have hnone : keys = [] := by
      refine List.eq_nil_iff_forall_not_mem.mpr fun key hkey => ?_
      obtain ⟨g, hg, -⟩ := hcovers key hkey
      exact absurd hg List.not_mem_nil
    rw [hnone, List.length_nil, or_self, List.length_eq_zero_iff] at hlen
    rw [hnone, hlen]
    exact .nil
  | cons getter getters =>
    have hslots : (initialSlots sigs keys.length).length = keys.length :=
      length_initialSlots (by omega)
    have hstart : signRun ed msg keys (getter :: getters) sigs
        = signRun ed msg keys (getter :: getters) (initialSlots sigs keys.length) := by
      unfold signRun callSlots
      rw [initialSlots_of_length hslots]
    rw [hstart]
    refine signRun_signed hhonest (List.forall₂_iff_get.mpr ⟨hslots.symm, fun i hi _ => ?_⟩)
    exact .inr (hcovers _ (List.get_mem _ _))

/-- There is one list of signatures. -/
theorem Ed25519.signed_unique (hdet : ed.Deterministic) {sigs sigs' : List Signature}
    (h : List.Forall₂ (ed.Signed msg) keys sigs) (h' : List.Forall₂ (ed.Signed msg) keys sigs') :
    sigs = sigs' := by
  induction h generalizing sigs' with
  | nil => exact (List.forall₂_nil_left_iff.mp h').symm
  | cons hsig hrest ih =>
    obtain ⟨sig', rest', hsig', hrest', rfl⟩ := List.forall₂_cons_left_iff.mp h'
    obtain ⟨k, hk, rfl⟩ := hsig
    obtain ⟨k', hk', rfl⟩ := hsig'
    rw [hdet k k' _ msg hk hk', ih hrest']

theorem Ed25519.Signed.verify (hacc : ed.AcceptsHonest) {key : PublicKey} {sig : Signature}
    (h : ed.Signed msg key sig) : ed.verify key msg sig = true := by
  obtain ⟨k, ⟨⟨seed, rfl⟩, rfl⟩, rfl⟩ := h
  exact hacc seed msg

/-- A call leaves the slots alone whose key it does not have. -/
theorem getElem?_signedSlots_of_none {getter : PrivateKeyGetter} {slots : List Signature}
    (hlen : keys.length = slots.length) {i : ℕ} {key : PublicKey} (hkey : keys[i]? = some key)
    (hnone : getter key = none) : (signedSlots ed getter msg keys slots)[i]? = slots[i]? := by
  obtain ⟨hi, rfl⟩ := List.getElem?_eq_some_iff.mp hkey
  have hi' : i < slots.length := hlen ▸ hi
  unfold signedSlots
  rw [List.getElem?_zipWith, hkey, List.getElem?_eq_getElem hi']
  dsimp only
  rw [signedSlot, hnone]

end Slots

/-! ## Calls on a transaction -/

/-- `PartialSign` with one getter after the other, up to the first error. -/
def Transaction.partialSigns (ed : Ed25519) :
    List PrivateKeyGetter → Transaction → Except Err Transaction
  | [], tx => .ok tx
  | getter :: getters, tx =>
    match tx.partialSign ed getter with
    | (tx, .ok _) => Transaction.partialSigns ed getters tx
    | (_, .error e) => .error e

/-- `PartialSign` with one getter after the other, up to the first error. -/
def TransactionV1.partialSigns (ed : Ed25519) :
    List PrivateKeyGetter → TransactionV1 → Except Err TransactionV1
  | [], tx => .ok tx
  | getter :: getters, tx =>
    match tx.partialSign ed getter with
    | (tx, .ok _) => TransactionV1.partialSigns ed getters tx
    | (_, .error e) => .error e

/-- The keys that sign a v1 transaction. -/
abbrev TransactionV1.signers (tx : TransactionV1) : List PublicKey :=
  tx.accountKeys.take tx.header.numRequiredSignatures.toNat

section Calls

variable {ed : Ed25519} (hacc : ed.AcceptsHonest)

include hacc

/-- One call on a transaction without signatures or with one for each signer. -/
theorem Transaction.partialSign_eq (tx : Transaction) {getter : PrivateKeyGetter}
    (hhonest : ed.Honest getter) {content : Bytes} (hm : tx.message.marshalBinary = .ok content)
    (hlen : tx.signatures.length = 0 ∨ tx.signatures.length = tx.message.signers.length) :
    let sigs := callSlots ed content tx.message.signers getter tx.signatures
    tx.partialSign ed getter = ({ tx with signatures := sigs }, .ok sigs) := by
  have hok : ¬ (tx.signatures.length ≠ 0 ∧ tx.signatures.length ≠ tx.message.signers.length) := by
    omega
  have hloop := signLoop_eq content hhonest hacc "failed to sign with key %q: "
    (length_initialSlots hok).symm
  unfold Transaction.partialSign
  rw [hm, wrapErr_ok]
  dsimp only
  rw [if_neg hok, hloop]
  rfl

/-- One call on a v1 transaction that passes the checks. -/
theorem TransactionV1.partialSign_eq (tx : TransactionV1) {getter : PrivateKeyGetter}
    (hhonest : ed.Honest getter) (hs : tx.sanitize = .ok ())
    (hsize : tx.appendSigned.length + 64 * tx.header.numRequiredSignatures.toNat
      ≤ transactionV1MaxSize)
    (hlen : tx.signatures.length = 0
      ∨ tx.signatures.length = tx.header.numRequiredSignatures.toNat) :
    let sigs := callSlots ed tx.appendSigned tx.signers getter tx.signatures
    tx.partialSign ed getter = ({ tx with signatures := sigs }, .ok sigs) := by
  have hok : ¬ (tx.signatures.length ≠ 0
      ∧ tx.signatures.length ≠ tx.header.numRequiredSignatures.toNat) := by omega
  have hkeys := TransactionV1.length_signers hs
  have hloop := signLoop_eq tx.appendSigned hhonest hacc "signing with %s: "
    (hkeys.trans (length_initialSlots hok).symm)
  unfold TransactionV1.partialSign callSlots
  rw [hs]
  dsimp only
  rw [if_neg (by omega), if_neg hok, hloop, hkeys]
  rfl

/-- Some calls on a transaction without signatures or with one for each signer. -/
theorem Transaction.partialSigns_eq (tx : Transaction) {getters : List PrivateKeyGetter}
    (hhonest : ∀ g ∈ getters, ed.Honest g) {content : Bytes}
    (hm : tx.message.marshalBinary = .ok content)
    (hlen : tx.signatures.length = 0 ∨ tx.signatures.length = tx.message.signers.length) :
    tx.partialSigns ed getters = .ok { tx with
      signatures := signRun ed content tx.message.signers getters tx.signatures } := by
  induction getters generalizing tx with
  | nil => rfl
  | cons getter getters ih =>
    rw [Transaction.partialSigns, tx.partialSign_eq hacc (hhonest getter List.mem_cons_self) hm hlen]
    exact ih _ (fun g hg => hhonest g (List.mem_cons_of_mem _ hg)) hm
      (.inr (length_callSlots getter hlen))

/-- Some calls on a v1 transaction that passes the checks. -/
theorem TransactionV1.partialSigns_eq (tx : TransactionV1) {getters : List PrivateKeyGetter}
    (hhonest : ∀ g ∈ getters, ed.Honest g) (hs : tx.sanitize = .ok ())
    (hsize : tx.appendSigned.length + 64 * tx.header.numRequiredSignatures.toNat
      ≤ transactionV1MaxSize)
    (hlen : tx.signatures.length = 0
      ∨ tx.signatures.length = tx.header.numRequiredSignatures.toNat) :
    tx.partialSigns ed getters = .ok { tx with
      signatures := signRun ed tx.appendSigned tx.signers getters tx.signatures } := by
  induction getters generalizing tx with
  | nil => rfl
  | cons getter getters ih =>
    have hkeys := TransactionV1.length_signers hs
    rw [TransactionV1.partialSigns,
      tx.partialSign_eq hacc (hhonest getter List.mem_cons_self) hs hsize hlen]
    rw [← hkeys] at hlen
    exact ih _ (fun g hg => hhonest g (List.mem_cons_of_mem _ hg)) hs hsize
      (.inr ((length_callSlots getter hlen).trans hkeys))

end Calls

/-! ## Every order ends in the same signatures -/

theorem length_signers {m : Message}
    (h : m.header.numRequiredSignatures.toNat ≤ m.accountKeys.length) :
    m.signers.length = m.header.numRequiredSignatures.toNat := by
  unfold Message.signers
  dsimp only
  rw [if_neg (by omega), List.length_take, Nat.min_eq_left h]

/-- The slots whose key the getter does not have hold what they held before. -/
def SlotsKept (getter : PrivateKeyGetter) (keys : List PublicKey)
    (before after : List Signature) : Prop :=
  ∀ (i : ℕ) (key : PublicKey), keys[i]? = some key → getter key = none →
    after[i]?.getD (ByteArr.zero 64) = before[i]?.getD (ByteArr.zero 64)

theorem slotsKept_callSlots {ed : Ed25519} {msg : Bytes} {keys : List PublicKey}
    {getter : PrivateKeyGetter} {sigs : List Signature}
    (hlen : sigs.length = 0 ∨ sigs.length = keys.length) :
    SlotsKept getter keys sigs (callSlots ed msg keys getter sigs) := by
  intro i key hkey hnone
  have hslots : (initialSlots sigs keys.length).length = keys.length :=
    length_initialSlots (by omega)
  obtain ⟨hi, -⟩ := List.getElem?_eq_some_iff.mp hkey
  have hi' : i < (initialSlots sigs keys.length).length := by omega
  unfold callSlots
  rw [getElem?_signedSlots_of_none hslots.symm hkey hnone, List.getElem?_eq_getElem hi',
    getElem_initialSlots hslots hi hi']
  rfl

/-- With getters that cover the keys: one signature for each key, all of them good, and the same
ones with any other such getters. -/
theorem signRun_final {ed : Ed25519} (hacc : ed.AcceptsHonest) (hdet : ed.Deterministic)
    (msg : Bytes) {keys : List PublicKey} {getters : List PrivateKeyGetter}
    (hhonest : ∀ g ∈ getters, ed.Honest g) (hcovers : Covers getters keys) {sigs : List Signature}
    (hlen : sigs.length = 0 ∨ sigs.length = keys.length) :
    (signRun ed msg keys getters sigs).length = keys.length
      ∧ List.Forall₂ (fun key sig => ed.verify key msg sig = true) keys
        (signRun ed msg keys getters sigs)
      ∧ ∀ getters', (∀ g ∈ getters', ed.Honest g) → Covers getters' keys →
        signRun ed msg keys getters' sigs = signRun ed msg keys getters sigs := by
  have hsigned : List.Forall₂ (ed.Signed msg) keys (signRun ed msg keys getters sigs) :=
    signRun_covers hhonest hcovers hlen
  refine ⟨hsigned.length_eq.symm, hsigned.imp fun key sig h => Ed25519.Signed.verify hacc h, ?_⟩
  intro getters' hhonest' hcovers'
  exact Ed25519.signed_unique hdet (signRun_covers hhonest' hcovers' hlen) hsigned

/-- **Signing in several calls.** Start with no signatures, and call `PartialSign` with any
getters that together have the keys of all required signers. Every call succeeds and
leaves the slots alone whose key it does not have; at the end there is one signature for
each required signer, they verify, and any other such calls end with the same list. -/
theorem partialSigns_covers (ed : Ed25519) (hacc : ed.AcceptsHonest) (hdet : ed.Deterministic)
    (getters : List PrivateKeyGetter) (hhonest : ∀ g ∈ getters, ed.Honest g) :
    (∀ tx : Transaction, tx.signatures = [] →
      tx.message.header.numRequiredSignatures.toNat ≤ tx.message.accountKeys.length →
      Covers getters tx.message.signers →
      ∃ sigs, tx.partialSigns ed getters = .ok { tx with signatures := sigs }
        ∧ sigs.length = tx.message.header.numRequiredSignatures.toNat
        ∧ { tx with signatures := sigs }.verifySignatures ed = .ok ()
        ∧ (∀ getters', (∀ g ∈ getters', ed.Honest g) → Covers getters' tx.message.signers →
          tx.partialSigns ed getters' = .ok { tx with signatures := sigs })
        ∧ ∀ front getter back, getters = front ++ getter :: back → ∃ before after,
          tx.partialSigns ed front = .ok before
            ∧ before.partialSign ed getter = (after, .ok after.signatures)
            ∧ SlotsKept getter tx.message.signers before.signatures after.signatures) ∧
    (∀ tx : TransactionV1, tx.signatures = [] →
      (∃ getter tx' sigs, tx.partialSign ed getter = (tx', .ok sigs)) →
      Covers getters tx.signers →
      ∃ sigs, tx.partialSigns ed getters = .ok { tx with signatures := sigs }
        ∧ sigs.length = tx.header.numRequiredSignatures.toNat
        ∧ { tx with signatures := sigs }.verifySignatures ed = .ok ()
        ∧ (∀ getters', (∀ g ∈ getters', ed.Honest g) →
          Covers getters' tx.signers →
          tx.partialSigns ed getters' = .ok { tx with signatures := sigs })
        ∧ ∀ front getter back, getters = front ++ getter :: back → ∃ before after,
          tx.partialSigns ed front = .ok before
            ∧ before.partialSign ed getter = (after, .ok after.signatures)
            ∧ SlotsKept getter tx.signers before.signatures after.signatures) := by
  -- either way the calls compute `signRun`, and `signRun_final` says where that ends
  refine ⟨fun tx hnone henough hcovers => ?_, fun tx hnone hsome hcovers => ?_⟩
  · obtain ⟨content, hm⟩ := tx.message.marshalBinary_ok
    have hsigners := length_signers henough
    have hlen : tx.signatures.length = 0 ∨ tx.signatures.length = tx.message.signers.length :=
      .inl (by rw [hnone]; rfl)
    obtain ⟨hcount, hgood, hsame⟩ := signRun_final hacc hdet content hhonest hcovers (.inl List.length_nil)
    refine ⟨signRun ed content tx.message.signers getters [], ?_, hcount.trans hsigners, ?_, ?_, ?_⟩
    · rw [tx.partialSigns_eq hacc hhonest hm hlen, hnone]
    · unfold Transaction.verifySignatures
      rw [hm, ok_bind]
      dsimp only
      rw [if_neg (not_not.mpr hcount.symm), verifyLoop_eq_ok _ _ _ hcount.symm]
      exact hgood
    · intro getters' hhonest' hcovers'
      rw [tx.partialSigns_eq hacc hhonest' hm hlen, hnone, hsame getters' hhonest' hcovers']
    · rintro front getter back rfl
      have hfront := fun g hg => hhonest g (List.mem_append_left _ hg)
      have hgetter := hhonest getter (List.mem_append_right _ List.mem_cons_self)
      have hslots := length_signRun_or ed content front hlen
      exact ⟨_, _, tx.partialSigns_eq hacc hfront hm hlen,
        Transaction.partialSign_eq hacc _ hgetter hm hslots, slotsKept_callSlots hslots⟩
  · obtain ⟨_, _, _, hfirst⟩ := hsome
    obtain ⟨hs, hsize, -⟩ := TransactionV1.partialSign_eq_ok hfirst
    have hkeys := TransactionV1.length_signers hs
    have hlen : tx.signatures.length = 0
        ∨ tx.signatures.length = tx.header.numRequiredSignatures.toNat :=
      .inl (by rw [hnone]; rfl)
    obtain ⟨hcount, hgood, hsame⟩ :=
      signRun_final hacc hdet tx.appendSigned hhonest hcovers (.inl List.length_nil)
    refine ⟨signRun ed tx.appendSigned _ getters [], ?_, hcount.trans hkeys, ?_, ?_, ?_⟩
    · rw [tx.partialSigns_eq hacc hhonest hs hsize hlen, hnone]
    · rw [TransactionV1.verifySignatures_eq_ok hs (hcount.trans hkeys)]
      exact hgood
    · intro getters' hhonest' hcovers'
      rw [tx.partialSigns_eq hacc hhonest' hs hsize hlen, hnone,
        hsame getters' hhonest' hcovers']
    · rintro front getter back rfl
      have hfront := fun g hg => hhonest g (List.mem_append_left _ hg)
      have hgetter := hhonest getter (List.mem_append_right _ List.mem_cons_self)
      have hslots := length_signRun_or ed tx.appendSigned front (hkeys ▸ hlen)
      exact ⟨_, _, tx.partialSigns_eq hacc hfront hs hsize hlen,
        TransactionV1.partialSign_eq hacc _ hgetter hs hsize (hkeys ▸ hslots),
        slotsKept_callSlots hslots⟩

/-- The getter that has the private keys of some public keys. -/
def sampleGetter (known : List PublicKey) : PrivateKeyGetter := fun key =>
  if key ∈ known then some (sampleEd25519.newKeyFromSeed key).toList else none

theorem sampleGetter_honest (known : List PublicKey) : sampleEd25519.Honest (sampleGetter known) := by
  intro key k h
  unfold sampleGetter at h
  split at h
  · obtain rfl := Option.some.inj h
    refine ⟨⟨key, rfl⟩, ByteArr.ext ?_⟩
    have hlen := key.length_toList
    have hkey : (sampleEd25519.newKeyFromSeed key).toList = key.toList ++ key.toList := by
      show (ByteArr.copyFrom 64 (key.toList ++ key.toList)).toList = _
      rw [ByteArr.toList_copyFrom (by rw [List.length_append]; omega),
        List.take_of_length_le (by rw [List.length_append]; omega)]
    rw [PrivateKey.toList_publicKey (ByteArr.length_toList _), hkey, List.drop_left' hlen]
  · exact absurd h (by simp)

theorem sampleEd25519_deterministic : sampleEd25519.Deterministic := by
  rintro k k' key msg ⟨⟨seed, rfl⟩, h⟩ ⟨⟨seed', rfl⟩, h'⟩
  have hdrop := PrivateKey.toList_publicKey (sampleEd25519.newKeyFromSeed seed).length_toList
  have hdrop' := PrivateKey.toList_publicKey (sampleEd25519.newKeyFromSeed seed').length_toList
  show ByteArr.copyFrom 64 (1 :: _) = ByteArr.copyFrom 64 (1 :: _)
  rw [← hdrop, ← hdrop', h, h']

/-- A transaction with two signers. -/
def samplePair : Transaction where
  message :=
    { header := { numRequiredSignatures := 2 }
      accountKeys := [ByteArr.copyFrom 32 [7], ByteArr.copyFrom 32 [8]] }

/-- A v1 transaction with two signers. -/
def samplePairV1 : TransactionV1 where
  header := { numRequiredSignatures := 2 }
  accountKeys := [ByteArr.copyFrom 32 [7], ByteArr.copyFrom 32 [8], ByteArr.copyFrom 32 [9]]
  instructions := [{ programIDIndex := 2, accounts := [0], data := [5] }]

/-- Two signers sign one after the other, in both orders and with a repeat. -/
theorem partialSigns_covers_pair :
    let first := sampleGetter [ByteArr.copyFrom 32 [7]]
    let second := sampleGetter [ByteArr.copyFrom 32 [8]]
    let sigs : List Signature := [ByteArr.copyFrom 64 [1, 7], ByteArr.copyFrom 64 [1, 8]]
    (sampleEd25519.AcceptsHonest ∧ sampleEd25519.Deterministic)
      ∧ samplePair.partialSigns sampleEd25519 [second, first, second]
        = .ok { samplePair with signatures := sigs }
      ∧ samplePairV1.partialSigns sampleEd25519 [second, first, second]
        = .ok { samplePairV1 with signatures := sigs } := by
  intro first second sigs
  have hhonest : ∀ getters : List PrivateKeyGetter, (∀ g ∈ getters, g = first ∨ g = second) →
      ∀ g ∈ getters, sampleEd25519.Honest g := by
    intro getters h g hg
    rcases h g hg with rfl | rfl
    · exact sampleGetter_honest _
    · exact sampleGetter_honest _
  have hpair := hhonest [first, second] (by simp)
  have hrepeat := hhonest [second, first, second] (by simp)
  have hcovers : ∀ getters, first ∈ getters → second ∈ getters →
      Covers getters [ByteArr.copyFrom 32 [7], ByteArr.copyFrom 32 [8]] := by
    intro getters h1 h2 key hkey
    simp only [List.mem_cons, List.not_mem_nil, or_false] at hkey
    rcases hkey with rfl | rfl
    · exact ⟨first, h1, by simp [first, sampleGetter]⟩
    · exact ⟨second, h2, by simp [second, sampleGetter]⟩
  obtain ⟨hlegacy, hv1⟩ := partialSigns_covers sampleEd25519 sampleEd25519_acceptsHonest
    sampleEd25519_deterministic [first, second] hpair
  refine ⟨⟨sampleEd25519_acceptsHonest, sampleEd25519_deterministic⟩, ?_, ?_⟩
  · obtain ⟨found, hfound, -, -, hsame, -⟩ := hlegacy samplePair rfl (by decide +kernel)
      (hcovers _ (by simp) (by simp))
    have hsigs : samplePair.partialSigns sampleEd25519 [first, second]
        = .ok { samplePair with signatures := sigs } := by decide +kernel
    rw [hsame _ hrepeat (hcovers _ (by simp) (by simp)), ← hfound, hsigs]
  · have hcall : samplePairV1.partialSign sampleEd25519 first
        = ((samplePairV1.partialSign sampleEd25519 first).1,
          .ok [ByteArr.copyFrom 64 [1, 7], ByteArr.zero 64]) := by decide +kernel
    obtain ⟨found, hfound, -, -, hsame, -⟩ := hv1 samplePairV1 rfl
      ⟨first, _, _, hcall⟩ (hcovers _ (by simp) (by simp))
    have hsigs : samplePairV1.partialSigns sampleEd25519 [first, second]
        = .ok { samplePairV1 with signatures := sigs } := by decide +kernel
    rw [hsame _ hrepeat (hcovers _ (by simp) (by simp)), ← hfound, hsigs]

end SolanaGo
