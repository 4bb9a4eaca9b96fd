/-
Signing and verifying, for both transaction types.

`PartialSign` fills the signature slots the key getter has a key for and leaves
the others as they were. `Sign` must then decide whether the result is complete,
and the two types decide differently:

* `Transaction.Sign` asks the getter for every required signer *before* it signs,
  so every slot is filled afresh;
* `TransactionV1.Sign` signs first and then looks for zero signatures. A slot the
  getter cannot fill passes that test as soon as anything non-zero was left in
  it.

So success of the first implies that the signatures verify
(`Transaction.sign_verifies`), and success of the second does so exactly when the
signatures it left alone already did (`TransactionV1.sign_verifies_iff`).

ed25519 is outside this package. It enters as the three functions of
`Ed25519`, with the one law that an honest signature is accepted.
-/
import SolanaGo.TransactionV1
import Mathlib.Data.List.Forall2

set_option autoImplicit false

namespace SolanaGo

open Codec

/-! ## ed25519 as a parameter -/

/-- `type PrivateKey []byte`. -/
abbrev PrivateKey := Bytes

/-- The functions of the ed25519 library this package calls. -/
structure Ed25519 where
  /-- `NewKeyFromSeed`: seed, then public key -/
  newKeyFromSeed : ByteArr 32 → ByteArr 64
  /-- `Sign` -/
  sign : PrivateKey → Bytes → Signature
  /-- `VerifyWithOptions` -/
  verify : PublicKey → Bytes → Signature → Bool

/-- `PrivateKey.PublicKey` of a valid key: its second half. -/
def PrivateKey.publicKey (k : PrivateKey) : PublicKey := ByteArr.copyFrom 32 (k.drop 32)

theorem PrivateKey.toList_publicKey {k : PrivateKey} (h : k.length = 64) :
    (PrivateKey.publicKey k).toList = k.drop 32 := by
  have hlen : (k.drop 32).length = 32 := by rw [List.length_drop, h]
  unfold PrivateKey.publicKey
  rw [ByteArr.toList_copyFrom hlen.ge, List.take_of_length_le hlen.le]

/-- The private key belongs to the public key: it was derived from a seed, and its
second half is the public key. -/
def Ed25519.IsPrivateKeyOf (ed : Ed25519) (k : PrivateKey) (key : PublicKey) : Prop :=
  (∃ seed, k = (ed.newKeyFromSeed seed).toList) ∧ PrivateKey.publicKey k = key

/-- Honest signatures are accepted. -/
def Ed25519.AcceptsHonest (ed : Ed25519) : Prop :=
  ∀ seed msg, let k := (ed.newKeyFromSeed seed).toList
    ed.verify (PrivateKey.publicKey k) msg (ed.sign k msg) = true

/-- `PrivateKey.Sign`. -/
def PrivateKey.sign (ed : Ed25519) (k : PrivateKey) (msg : Bytes) : Except Err Signature :=
  if k.length ≠ 64 then
    .error { msg := "invalid private key size, expected 64, got " ++ toString k.length }
  else .ok (ed.sign k msg)

/-- `type privateKeyGetter`. -/
abbrev PrivateKeyGetter := PublicKey → Option PrivateKey

/-- The getter answers with nothing or with the private key of the key asked for. -/
def Ed25519.Honest (ed : Ed25519) (getter : PrivateKeyGetter) : Prop :=
  ∀ key k, getter key = some k → ed.IsPrivateKeyOf k key

/-- A key of an honest getter signs, and what it signs verifies. -/
theorem Ed25519.Honest.sign {ed : Ed25519} {getter : PrivateKeyGetter} (h : ed.Honest getter)
    (hacc : ed.AcceptsHonest) {key : PublicKey} {k : PrivateKey} (hk : getter key = some k)
    (msg : Bytes) :
    PrivateKey.sign ed k msg = .ok (ed.sign k msg) ∧ ed.verify key msg (ed.sign k msg) = true := by
  obtain ⟨⟨seed, rfl⟩, rfl⟩ := h key k hk
  unfold PrivateKey.sign
  rw [if_neg (by rw [ByteArr.length_toList]; simp)]
  exact ⟨rfl, hacc seed msg⟩

/-! ## The signing loop

Both types run the same loop; they differ in the text of its error. On an error
the slots signed so far stay signed. -/

/-- Sign slot `i` and the following ones with the keys the getter has. -/
def signLoop (ed : Ed25519) (getter : PrivateKeyGetter) (msg : Bytes) (failed : String) :
    ℕ → List PublicKey → List Signature → List Signature × Except Err Unit
  | _, [], sigs => (sigs, .ok ())
  | i, key :: keys, sigs =>
    match getter key with
    | none => signLoop ed getter msg failed (i + 1) keys sigs
    | some k =>
      match PrivateKey.sign ed k msg with
      | .error e => (sigs, .error { msg := failed ++ e.msg, keys := key :: e.keys })
      | .ok s => signLoop ed getter msg failed (i + 1) keys (sigs.set i s)

/-- The verification loop: the first signature that does not verify is named. -/
def verifyLoop (ed : Ed25519) (msg : Bytes) : List PublicKey → List Signature → Except Err Unit
  | key :: keys, sig :: sigs =>
    if ed.verify key msg sig then verifyLoop ed msg keys sigs
    else .error { msg := "invalid signature by %s", keys := [key] }
  | _, _ => .ok ()

/-- What the loop leaves in the slot of `key`. -/
def signedSlot (ed : Ed25519) (getter : PrivateKeyGetter) (msg : Bytes) (key : PublicKey)
    (old : Signature) : Signature :=
  match getter key with
  | none => old
  | some k => ed.sign k msg

/-- What the loop leaves in all slots. -/
def signedSlots (ed : Ed25519) (getter : PrivateKeyGetter) (msg : Bytes)
    (keys : List PublicKey) (slots : List Signature) : List Signature :=
  List.zipWith (signedSlot ed getter msg) keys slots

theorem length_signedSlots (ed : Ed25519) (getter : PrivateKeyGetter) (msg : Bytes)
    {keys : List PublicKey} {slots : List Signature} (h : keys.length = slots.length) :
    (signedSlots ed getter msg keys slots).length = keys.length := by
  unfold signedSlots
  rw [List.length_zipWith, ← h, Nat.min_self]

section Loops

variable {ed : Ed25519} {getter : PrivateKeyGetter} (msg : Bytes)

/-- A loop that ran to its end treated slot by slot, whatever keys it was given. -/
theorem signLoop_eq_ok {failed : String} {keys : List PublicKey} (done : List Signature)
    {slots sigs : List Signature} (hlen : keys.length = slots.length)
    (h : signLoop ed getter msg failed done.length keys (done ++ slots) = (sigs, .ok ())) :
    sigs = done ++ signedSlots ed getter msg keys slots := by
  -- `done` are the slots already treated.
  unfold signedSlots
  induction keys generalizing done slots with
  | nil =>
    have hnil : slots = [] := List.eq_nil_of_length_eq_zero hlen.symm
    subst hnil
    exact (Prod.mk.inj h).1.symm
  | cons key keys ih =>
    match slots, hlen with
    | slot :: slots, hlen =>
      have hlen' : keys.length = slots.length := Nat.succ.inj hlen
      unfold signLoop at h
      rw [List.zipWith_cons_cons, signedSlot]
      cases hk : getter key with
      | none =>
        rw [hk] at h
        have hstep := ih (done ++ [slot]) hlen'
        rw [List.append_assoc, List.append_assoc, List.length_append] at hstep
        exact hstep h
      | some k =>
        rw [hk] at h
        dsimp only at h
        unfold PrivateKey.sign at h
        by_cases hk64 : k.length ≠ 64
        · rw [if_pos hk64] at h
          exact absurd (Prod.mk.inj h).2 (by simp)
        · have hset : (done ++ slot :: slots).set done.length (ed.sign k msg)
              = (done ++ [ed.sign k msg]) ++ slots := by
            rw [List.set_append_right _ _ (Nat.le_refl _), Nat.sub_self, List.set_cons_zero,
              List.append_assoc, List.singleton_append]
          rw [if_neg hk64] at h
          dsimp only at h
          rw [hset] at h
          have hstep := ih (done ++ [ed.sign k msg]) hlen'
          rw [List.append_assoc, List.append_assoc, List.length_append] at hstep
          rw [List.append_assoc] at h
          exact hstep h

/-- The slots, where they are what the caller returns. -/
theorem signLoop_map_eq_ok {failed : String} {keys : List PublicKey} {slots sigs : List Signature}
    (hlen : keys.length = slots.length)
    (h : (signLoop ed getter msg failed 0 keys slots).2.map
      (fun _ => (signLoop ed getter msg failed 0 keys slots).1) = .ok sigs) :
    (signLoop ed getter msg failed 0 keys slots).1 = signedSlots ed getter msg keys slots
      ∧ sigs = signedSlots ed getter msg keys slots := by
  cases hloop : signLoop ed getter msg failed 0 keys slots with
  | mk out result =>
    rw [hloop] at h
    cases result with
    | error e => exact nomatch h
    | ok _ =>
      obtain rfl : out = sigs := Except.ok.inj h
      have hout := signLoop_eq_ok msg [] hlen hloop
      exact ⟨hout, hout⟩

/-- With an honest getter the loop runs to its end. -/
theorem signLoop_ok (hhonest : ed.Honest getter) (hacc : ed.AcceptsHonest) (failed : String)
    (keys : List PublicKey) (i : ℕ) (sigs : List Signature) :
    (signLoop ed getter msg failed i keys sigs).2 = .ok () := by
  induction keys generalizing i sigs with
  | nil => rfl
  | cons key keys ih =>
    unfold signLoop
    cases hk : getter key with
    | none => exact ih (i + 1) sigs
    | some k =>
      dsimp only
      rw [(hhonest.sign hacc hk msg).1]
      exact ih (i + 1) _

/-- With an honest getter the loop treats slot by slot. -/
theorem signLoop_eq (hhonest : ed.Honest getter) (hacc : ed.AcceptsHonest) (failed : String)
    {keys : List PublicKey} {slots : List Signature} (hlen : keys.length = slots.length) :
    signLoop ed getter msg failed 0 keys slots = (signedSlots ed getter msg keys slots, .ok ()) := by
  have hok := signLoop_ok msg hhonest hacc failed keys 0 slots
  exact Prod.ext (signLoop_eq_ok msg [] hlen (Prod.ext rfl hok)) hok

/-- Verification is a check of every slot. -/
theorem verifyLoop_eq_ok (keys : List PublicKey) (sigs : List Signature)
    (hlen : keys.length = sigs.length) :
    verifyLoop ed msg keys sigs = .ok ()
      ↔ List.Forall₂ (fun key sig => ed.verify key msg sig = true) keys sigs := by
  induction keys generalizing sigs with
  | nil =>
    have hnil : sigs = [] := List.eq_nil_of_length_eq_zero hlen.symm
    subst hnil
    exact ⟨fun _ => .nil, fun _ => rfl⟩
  | cons key keys ih =>
    match sigs, hlen with
    | sig :: sigs, hlen =>
      unfold verifyLoop
      rw [List.forall₂_cons, ← ih sigs (Nat.succ.inj hlen)]
      by_cases hv : ed.verify key msg sig = true
      · simp [hv]
      · simp [hv]

/-- After signing, a slot verifies if it was signed or was good before. -/
theorem forall₂_signedSlots (hhonest : ed.Honest getter) (hacc : ed.AcceptsHonest)
    (keys : List PublicKey) (sigs : List Signature) (hlen : keys.length = sigs.length) :
    List.Forall₂ (fun key sig => ed.verify key msg sig = true) keys
        (signedSlots ed getter msg keys sigs)
      ↔ List.Forall₂ (fun key sig => getter key = none → ed.verify key msg sig = true) keys sigs := by
  unfold signedSlots
  induction keys generalizing sigs with
  | nil =>
    have hnil : sigs = [] := List.eq_nil_of_length_eq_zero hlen.symm
    subst hnil
    exact ⟨fun _ => .nil, fun _ => .nil⟩
  | cons key keys ih =>
    match sigs, hlen with
    | sig :: sigs, hlen =>
      rw [List.zipWith_cons_cons, List.forall₂_cons, List.forall₂_cons,
        ih sigs (Nat.succ.inj hlen)]
      refine and_congr_left fun _ => ?_
      unfold signedSlot
      cases hk : getter key with
      | none => simp
      | some k => simp [(hhonest.sign hacc hk msg).2]

end Loops

/-! ## `Transaction` -/

/-- The slots `PartialSign` starts from: fresh zero signatures if there are none. -/
def initialSlots (sigs : List Signature) (numSigners : ℕ) : List Signature :=
  if sigs.length = 0 then List.replicate numSigners (ByteArr.zero 64) else sigs

/-- `PartialSign`: the transaction afterwards, and the signatures returned. -/
def Transaction.partialSign (ed : Ed25519) (getter : PrivateKeyGetter) (tx : Transaction) :
    Transaction × Except Err (List Signature) :=
  match wrapErr "unable to encode message for signing: " tx.message.marshalBinary with
  | .error e => (tx, .error e)
  | .ok messageContent =>
    let signerKeys := tx.message.signers
    if tx.signatures.length ≠ 0 ∧ tx.signatures.length ≠ signerKeys.length then
      (tx, .error {
        msg := "invalid signatures length, expected " ++ toString signerKeys.length
          ++ ", actual " ++ toString tx.signatures.length })
    else
      let (signatures, result) := signLoop ed getter messageContent "failed to sign with key %q: " 0
        signerKeys (initialSlots tx.signatures signerKeys.length)
      ({ tx with signatures }, result.map fun _ => signatures)

/-- `Sign`. -/
def Transaction.sign (ed : Ed25519) (getter : PrivateKeyGetter) (tx : Transaction) :
    Transaction × Except Err (List Signature) :=
  match tx.message.signers.find? fun key => (getter key).isNone with
  | some key =>
    (tx, .error {
      msg := "signer key %q not found. Ensure all the signer keys are in the vault"
      keys := [key] })
  | none => tx.partialSign ed getter

/-- `VerifySignatures`. -/
def Transaction.verifySignatures (ed : Ed25519) (tx : Transaction) : Except Err Unit := do
  let msg ← tx.message.marshalBinary
  let signers := tx.message.signers
  if signers.length ≠ tx.signatures.length then
    .error { msg := "got " ++ toString signers.length ++ " signers, but "
      ++ toString tx.signatures.length ++ " signatures" }
  else verifyLoop ed msg signers tx.signatures

/-! ## `TransactionV1` -/

/-- `PartialSign`. -/
def TransactionV1.partialSign (ed : Ed25519) (getter : PrivateKeyGetter) (tx : TransactionV1) :
    TransactionV1 × Except Err (List Signature) :=
  match tx.sanitize with
  | .error e => (tx, .error e)
  | .ok () =>
    let numSigners := tx.header.numRequiredSignatures.toNat
    let payload := tx.appendSigned
    if transactionV1MaxSize < payload.length + 64 * numSigners then
      (tx, .error {
        msg := "v1 transaction: serialized size " ++ toString (payload.length + 64 * numSigners)
          ++ " exceeds the maximum of " ++ toString transactionV1MaxSize })
    else if tx.signatures.length ≠ 0 ∧ tx.signatures.length ≠ numSigners then
      (tx, .error {
        msg := "v1 transaction: " ++ toString tx.signatures.length
          ++ " signatures, header requires " ++ toString numSigners })
    else
      let (signatures, result) := signLoop ed getter payload "signing with %s: " 0
        (tx.accountKeys.take numSigners) (initialSlots tx.signatures numSigners)
      ({ tx with signatures }, result.map fun _ => signatures)

/-- `Sign`: the loop over the returned signatures looks for a zero one. -/
def TransactionV1.sign (ed : Ed25519) (getter : PrivateKeyGetter) (tx : TransactionV1) :
    TransactionV1 × Except Err (List Signature) :=
  match tx.partialSign ed getter with
  | (tx, .error e) => (tx, .error e)
  | (tx, .ok sigs) =>
    match (tx.accountKeys.zip sigs).find? fun p => p.2 == ByteArr.zero 64 with
    | some (key, _) =>
      (tx, .error {
        msg := "signer key %s: key not found. Ensure the getter returns every required signer"
        keys := [key] })
    | none => (tx, .ok sigs)

/-- `VerifySignatures`. -/
def TransactionV1.verifySignatures (ed : Ed25519) (tx : TransactionV1) : Except Err Unit := do
  tx.sanitize
  if tx.signatures.length ≠ tx.header.numRequiredSignatures.toNat then
    .error { msg := "v1 transaction: " ++ toString tx.signatures.length
      ++ " signatures, header requires " ++ toString tx.header.numRequiredSignatures.toNat }
  else verifyLoop ed tx.appendSigned tx.accountKeys tx.signatures

/-! ## After signing -/

section After

variable {ed : Ed25519} {getter : PrivateKeyGetter}

/-- The starting slots are as many as the signers unless the length check fails. -/
theorem length_initialSlots {sigs : List Signature} {numSigners : ℕ}
    (h : ¬ (sigs.length ≠ 0 ∧ sigs.length ≠ numSigners)) :
    (initialSlots sigs numSigners).length = numSigners := by
  unfold initialSlots
  by_cases h0 : sigs.length = 0
  · rw [if_pos h0, List.length_replicate]
  · rw [if_neg h0]
    by_contra hne
    exact h ⟨h0, hne⟩

/-- What a successful `PartialSign` did. -/
theorem Transaction.partialSign_eq_ok {tx tx' : Transaction} {sigs : List Signature}
    (h : tx.partialSign ed getter = (tx', .ok sigs)) :
    let slots := initialSlots tx.signatures tx.message.signers.length
    ∃ content, tx.message.marshalBinary = .ok content
      ∧ tx.message.signers.length = slots.length
      ∧ tx' = { tx with signatures := signedSlots ed getter content tx.message.signers slots } := by
  unfold Transaction.partialSign at h
  cases hm : tx.message.marshalBinary with
  | error e => rw [hm] at h; simp [wrapErr] at h
  | ok content =>
    rw [hm, wrapErr_ok] at h
    dsimp only at h
    by_cases hbad : tx.signatures.length ≠ 0 ∧ tx.signatures.length ≠ tx.message.signers.length
    · rw [if_pos hbad] at h; simp at h
    · have hlen := (length_initialSlots hbad).symm
      rw [if_neg hbad] at h
      obtain ⟨htx, hresult⟩ := Prod.mk.inj h
      obtain ⟨hslots, -⟩ := signLoop_map_eq_ok content hlen hresult
      exact ⟨content, rfl, hlen, htx.symm.trans
        (congrArg (fun signatures => { tx with signatures }) hslots)⟩

/-- **`Transaction.Sign`.** If it succeeds, the signatures verify. -/
theorem Transaction.sign_verifies (hhonest : ed.Honest getter) (hacc : ed.AcceptsHonest)
    {tx tx' : Transaction} {sigs : List Signature} (h : tx.sign ed getter = (tx', .ok sigs)) :
    tx'.verifySignatures ed = .ok () := by
  unfold Transaction.sign at h
  cases hfind : tx.message.signers.find? fun key => (getter key).isNone with
  | some key => rw [hfind] at h; simp at h
  | none =>
    rw [hfind] at h
    obtain ⟨content, hm, hlen, rfl⟩ := Transaction.partialSign_eq_ok h
    have hsigned := (length_signedSlots ed getter content hlen).symm
    unfold Transaction.verifySignatures
    rw [hm, ok_bind]
    dsimp only
    rw [if_neg (not_not.mpr hsigned), verifyLoop_eq_ok _ _ _ hsigned,
      forall₂_signedSlots content hhonest hacc _ _ hlen]
    -- The getter has a key for every signer, so no slot was left alone.
    refine List.forall₂_iff_get.mpr ⟨hlen, fun i hi _ hnone => ?_⟩
    have hsome := List.find?_eq_none.mp hfind _ (List.get_mem _ ⟨i, hi⟩)
    rw [hnone] at hsome
    simp at hsome

/-- The keys that sign are as many as the header says. -/
theorem TransactionV1.length_signers {tx : TransactionV1} (hs : tx.sanitize = .ok ()) :
    (tx.accountKeys.take tx.header.numRequiredSignatures.toNat).length
      = tx.header.numRequiredSignatures.toNat := by
  rw [List.length_take]
  exact Nat.min_eq_left (TransactionV1.sanitize_eq_ok hs).2

/-- What a successful `PartialSign` checked and did. -/
theorem TransactionV1.partialSign_eq_ok {tx tx' : TransactionV1} {sigs : List Signature}
    (h : tx.partialSign ed getter = (tx', .ok sigs)) :
    let numSigners := tx.header.numRequiredSignatures.toNat
    let slots := initialSlots tx.signatures numSigners
    tx.sanitize = .ok () ∧ tx.appendSigned.length + 64 * numSigners ≤ transactionV1MaxSize
      ∧ slots.length = numSigners
      ∧ tx' = { tx with
        signatures := signedSlots ed getter tx.appendSigned (tx.accountKeys.take numSigners) slots }
      ∧ sigs = tx'.signatures := by
  unfold TransactionV1.partialSign at h
  cases hs : tx.sanitize with
  | error e => rw [hs] at h; simp at h
  | ok u =>
    rw [hs] at h
    dsimp only at h
    by_cases hbig : transactionV1MaxSize
        < tx.appendSigned.length + 64 * tx.header.numRequiredSignatures.toNat
    · rw [if_pos hbig] at h; simp at h
    · rw [if_neg hbig] at h
      by_cases hbad : tx.signatures.length ≠ 0
          ∧ tx.signatures.length ≠ tx.header.numRequiredSignatures.toNat
      · rw [if_pos hbad] at h; simp at h
      · have hlen := length_initialSlots hbad
        rw [if_neg hbad] at h
        obtain ⟨rfl, hresult⟩ := Prod.mk.inj h
        obtain ⟨hslots, hsigs⟩ := signLoop_map_eq_ok tx.appendSigned
          ((TransactionV1.length_signers hs).trans hlen.symm) hresult
        exact ⟨rfl, not_lt.mp hbig, hlen,
          congrArg (fun signatures => { tx with signatures }) hslots, hsigs.trans hslots.symm⟩

/-- Keys past the signatures are not looked at. -/
theorem verifyLoop_take (msg : Bytes) (keys : List PublicKey) (sigs : List Signature) :
    verifyLoop ed msg keys sigs = verifyLoop ed msg (keys.take sigs.length) sigs := by
  induction keys generalizing sigs with
  | nil => rw [List.take_nil]
  | cons key keys ih =>
    match sigs with
    | [] => rfl
    | sig :: sigs =>
      rw [List.length_cons, List.take_succ_cons, verifyLoop, verifyLoop, ih]

/-- Verification of a sanitised transaction that holds the right number of
signatures. -/
theorem TransactionV1.verifySignatures_eq_ok {tx : TransactionV1} (hs : tx.sanitize = .ok ())
    {sigs : List Signature} (hlen : sigs.length = tx.header.numRequiredSignatures.toNat) :
    { tx with signatures := sigs }.verifySignatures ed = .ok ()
      ↔ List.Forall₂ (fun key sig => ed.verify key tx.appendSigned sig = true)
        (tx.accountKeys.take tx.header.numRequiredSignatures.toNat) sigs := by
  have hkeys := (TransactionV1.length_signers hs).trans hlen.symm
  unfold TransactionV1.verifySignatures
  rw [TransactionV1.sanitize_signatures, hs, TransactionV1.appendSigned_signatures, ok_bind,
    if_neg (not_not.mpr hlen), verifyLoop_take]
  dsimp only
  rw [hlen, verifyLoop_eq_ok _ _ _ hkeys]

/-- A starting slot is the old signature, or zero. -/
theorem getElem_initialSlots {sigs : List Signature} {numSigners i : ℕ}
    (hlen : (initialSlots sigs numSigners).length = numSigners) (hi : i < numSigners)
    (hi' : i < (initialSlots sigs numSigners).length) :
    (initialSlots sigs numSigners)[i] = sigs[i]?.getD (ByteArr.zero 64) := by
  unfold initialSlots at *
  by_cases h0 : sigs.length = 0
  · have hnil : sigs = [] := List.eq_nil_of_length_eq_zero h0
    simp [hnil]
  · have hlt : i < sigs.length := by rw [if_neg h0] at hlen; omega
    simp [h0, hlt]

/-- The slots a `TransactionV1` holds before signing whose key the getter does not
have are good. -/
def TransactionV1.KeptSlotsVerify (ed : Ed25519) (getter : PrivateKeyGetter)
    (tx : TransactionV1) : Prop :=
  ∀ (i : ℕ) (key : PublicKey), i < tx.header.numRequiredSignatures.toNat →
    tx.accountKeys[i]? = some key → getter key = none →
    ed.verify key tx.appendSigned (tx.signatures[i]?.getD (ByteArr.zero 64)) = true

/-- **`TransactionV1.Sign`.** If it succeeds, the signatures verify exactly when those
it left alone already did. -/
theorem TransactionV1.sign_verifies_iff (hhonest : ed.Honest getter) (hacc : ed.AcceptsHonest)
    {tx tx' : TransactionV1} {sigs : List Signature} (h : tx.sign ed getter = (tx', .ok sigs)) :
    tx'.verifySignatures ed = .ok () ↔ tx.KeptSlotsVerify ed getter := by
  have hpartial : tx.partialSign ed getter = (tx', .ok sigs) := by
    unfold TransactionV1.sign at h
    cases hp : tx.partialSign ed getter with
    | mk tx1 result =>
      rw [hp] at h
      cases result with
      | error e => simp at h
      | ok sigs1 =>
        dsimp only at h
        cases hz : (tx1.accountKeys.zip sigs1).find? fun p => p.2 == ByteArr.zero 64 with
        | some p => rw [hz] at h; simp at h
        | none => rw [hz] at h; exact h
  obtain ⟨hs, -, hlen, rfl, -⟩ := TransactionV1.partialSign_eq_ok hpartial
  have htake := TransactionV1.length_signers hs
  have hkeys := htake.trans hlen.symm
  rw [TransactionV1.verifySignatures_eq_ok hs ((length_signedSlots ed getter _ hkeys).trans htake),
    forall₂_signedSlots tx.appendSigned hhonest hacc _ _ hkeys, List.forall₂_iff_get]
  unfold TransactionV1.KeptSlotsVerify
  constructor
  · -- Slot by slot, from the lists to the indexes.
    rintro ⟨-, hslots⟩ i key hi hkey hnone
    have hi1 : i < (tx.accountKeys.take tx.header.numRequiredSignatures.toNat).length := by omega
    have hi2 : i < (initialSlots tx.signatures tx.header.numRequiredSignatures.toNat).length := by
      omega
    have hget := hslots i hi1 hi2
    rw [List.get_eq_getElem, List.get_eq_getElem, List.getElem_take] at hget
    rw [List.getElem?_eq_some_iff] at hkey
    obtain ⟨_, rfl⟩ := hkey
    rw [← getElem_initialSlots hlen hi hi2]
    exact hget hnone
  · intro hkept
    refine ⟨hkeys, fun i hi1 hi2 => ?_⟩
    have hi : i < tx.header.numRequiredSignatures.toNat := by omega
    rw [List.get_eq_getElem, List.get_eq_getElem, List.getElem_take,
      getElem_initialSlots hlen hi hi2]
    exact hkept i _ hi (List.getElem?_eq_getElem _)

end After

/-! ## Does a successful `Sign` verify? -/

/-- **`Sign`, then `VerifySignatures`.** Whatever signatures it holds before, a
`Transaction` that `Sign` accepts verifies; a `TransactionV1` that `Sign` accepts
verifies exactly when each required slot whose key the getter does not have already
held a signature that verifies. -/
theorem sign_verifySignatures (ed : Ed25519) (getter : PrivateKeyGetter)
    (hhonest : ed.Honest getter) (hacc : ed.AcceptsHonest) :
    (∀ (tx tx' : Transaction) (sigs : List Signature), tx.sign ed getter = (tx', .ok sigs) →
      tx'.verifySignatures ed = .ok ()) ∧
    (∀ (tx tx' : TransactionV1) (sigs : List Signature), tx.sign ed getter = (tx', .ok sigs) →
      (tx'.verifySignatures ed = .ok () ↔ tx.KeptSlotsVerify ed getter)) := by
  refine ⟨?_, ?_⟩
  · intro tx tx' sigs hsign
    exact Transaction.sign_verifies hhonest hacc hsign
  · intro tx tx' sigs hsign
    exact TransactionV1.sign_verifies_iff hhonest hacc hsign

/-- A stand-in for ed25519: a seed is its own public key, and a signature is a one
followed by the public key, whatever the message. -/
def sampleEd25519 : Ed25519 where
  newKeyFromSeed seed := ByteArr.copyFrom 64 (seed.toList ++ seed.toList)
  sign k _ := ByteArr.copyFrom 64 (1 :: k.drop 32)
  verify key _ sig := sig == ByteArr.copyFrom 64 (1 :: key.toList)

theorem sampleEd25519_acceptsHonest : sampleEd25519.AcceptsHonest := by
  intro seed msg k
  have hkey := PrivateKey.toList_publicKey (sampleEd25519.newKeyFromSeed seed).length_toList
  show (ByteArr.copyFrom 64 (1 :: k.drop 32)
    == ByteArr.copyFrom 64 (1 :: (PrivateKey.publicKey k).toList)) = true
  rw [hkey, beq_self_eq_true]

/-- A v1 transaction with one signer, and `sig` in its slot. -/
def sampleSigned (sig : Signature) : TransactionV1 where
  header := { numRequiredSignatures := 1 }
  accountKeys := [ByteArr.copyFrom 32 [7], ByteArr.copyFrom 32 [8]]
  instructions := [{ programIDIndex := 1, accounts := [0], data := [5] }]
  signatures := [sig]

/-- The signature its signer's key makes. -/
def goodSample : Signature := ByteArr.copyFrom 64 [1, 7]

/-- The getter that knows no key: `TransactionV1.Sign` succeeds on a transaction with
a leftover signature, and verification of the result fails. -/
theorem sign_verifySignatures_stale :
    let ed := sampleEd25519
    let getter : PrivateKeyGetter := fun _ => none
    let tx := sampleSigned (ByteArr.copyFrom 64 [9])
    (ed.Honest getter ∧ ed.AcceptsHonest) ∧ tx.sign ed getter = (tx, .ok tx.signatures)
      ∧ tx.verifySignatures ed
        = .error { msg := "invalid signature by %s", keys := [ByteArr.copyFrom 32 [7]] } := by
  refine ⟨⟨fun key k h => by simp at h, sampleEd25519_acceptsHonest⟩, ?_, ?_⟩
  · decide +kernel
  · decide +kernel

/-- The same getter, with a good signature in the slot. -/
theorem sign_verifySignatures_kept :
    let ed := sampleEd25519
    let getter : PrivateKeyGetter := fun _ => none
    let tx := sampleSigned goodSample
    (ed.Honest getter ∧ ed.AcceptsHonest) ∧ tx.sign ed getter = (tx, .ok tx.signatures)
      ∧ tx.KeptSlotsVerify ed getter := by
  have hhonest : sampleEd25519.Honest fun _ => none := fun key k h => by simp at h
  have hverify := (sign_verifySignatures sampleEd25519 (fun _ => none) hhonest
    sampleEd25519_acceptsHonest).2
  have hsign : (sampleSigned goodSample).sign sampleEd25519 (fun _ => none)
      = (sampleSigned goodSample, .ok [goodSample]) := by decide +kernel
  refine ⟨⟨hhonest, sampleEd25519_acceptsHonest⟩, hsign, ?_⟩
  exact (hverify _ _ _ hsign).mp (by decide +kernel)

end SolanaGo
