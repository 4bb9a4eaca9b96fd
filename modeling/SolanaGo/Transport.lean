/-
Transactions as text, and signing what was decoded.

`ToBase64` writes zero signatures for those that are missing, and `TransactionFromBase64` reads
them, so what is decoded is not always what was encoded (`transactionFromBase64_toBase64`).

# What is padded, and what is refused

`PartialSign` refuses a transaction that holds some signatures but not one for each signer. On
what was decoded this leaves one case only: more signatures than signers. A transaction with
fewer is padded on its way through the text, so the calls work on any transaction with at most
one signature for each signer (`Signable`), and since every slot is signed in the end it does
not matter what the slots held before.
-/
import SolanaGo.Lib.Base64
import SolanaGo.PartialSigning

set_option autoImplicit false

namespace SolanaGo

open Codec

/-- The number of line ends in front. -/
def lineEnds (text : Bytes) : ℕ := (text.takeWhile fun c => decide (c = 10 ∨ c = 13)).length

/-- The position of a `CorruptInputError`: `si` is that of the text, which starts with letter `j`
of a group. -/
def corruptAt (si j : ℕ) : Bytes → ℕ
  | [] => si - j
  | c :: text =>
    if c ∈ Base64.alphabet then corruptAt (si + 1) ((j + 1) % 4) text
    else if c = 10 ∨ c = 13 then corruptAt (si + 1) j text
    else if c ≠ Base64.pad ∨ j < 2 then si
    else
      -- padding: one sign more for `j = 2`, and nothing behind it
      let ends := lineEnds text
      if j = 3 then si + 1 + ends
      else
        match text.drop ends with
        | [] => si + 1 + ends
        | c :: text => if c ≠ Base64.pad then si + ends else si + 1 + ends + 1 + lineEnds text

/-- `base64.StdEncoding.DecodeString`, which passes over line ends. -/
def decodeBase64 (text : Bytes) : Except Err Bytes :=
  match Base64.decode (text.filter fun c => decide (c ≠ 10 ∧ c ≠ 13)) with
  | some data => .ok data
  | none => .error { msg := "illegal base64 data at input byte " ++ toString (corruptAt 0 0 text) }

/-- `TransactionFromBytes`. -/
def transactionFromBytes (data : Bytes) : Except Err Transaction := do
  let (tx, _) ← transactionFromBytesConsumed data
  .ok tx

/-- `TransactionFromBase64`. -/
def transactionFromBase64 (text : Bytes) : Except Err Transaction := do
  transactionFromBytes (← decodeBase64 text)

/-- `ToBase64`, which drops the error. -/
def Transaction.toBase64 (tx : Transaction) : Bytes :=
  match tx.marshalBinary with
  | .ok out => Base64.encode out
  | .error _ => Base64.encode []

/-- `PartialSign` with one getter after the other, each call on what `TransactionFromBase64`
makes of the `ToBase64` before it. -/
def decodedSigns (ed : Ed25519) : List PrivateKeyGetter → Transaction → Except Err Transaction
  | [], tx => .ok tx
  | getter :: getters, tx => do
    let received ← transactionFromBase64 tx.toBase64
    match received.partialSign ed getter with
    | (signed, .ok _) => decodedSigns ed getters signed
    | (_, .error e) => .error e

theorem decodeBase64_encode (data : Bytes) : decodeBase64 (Base64.encode data) = .ok data := by
  have hletters : ∀ c ∈ Base64.alphabet, c ≠ 10 ∧ c ≠ 13 := by decide +kernel
  have hlines : (Base64.encode data).filter (fun c => decide (c ≠ 10 ∧ c ≠ 13))
      = Base64.encode data := by
    rw [List.filter_eq_self]
    intro c hc
    rcases Base64.encode_mem data c hc with hc | rfl
    · exact decide_eq_true (hletters c hc)
    · rfl
  unfold decodeBase64
  rw [hlines, Base64.decode_encode]

/-- **What is received.** -/
theorem transactionFromBase64_toBase64 (tx : Transaction) (hm : tx.message.WireRepresentable)
    (hlen : tx.signatures.length ≤ 0xFFFF) :
    transactionFromBase64 tx.toBase64 = .ok tx.padded := by
  obtain ⟨buf, hbuf, hdecode⟩ := Transaction.unmarshalBinaryConsumed_marshal {} tx hm hlen
  have hread := hdecode []
  rw [List.append_nil] at hread
  unfold transactionFromBase64 Transaction.toBase64
  rw [hbuf]
  dsimp only
  rw [decodeBase64_encode, ok_bind, transactionFromBytes, transactionFromBytesConsumed, hread,
    ok_bind]

/-- A transaction that can be signed: its message is written without loss, it has the keys of its
signers, and it holds at most one signature for each of them. -/
structure Signable (tx : Transaction) : Prop where
  wire : tx.message.WireRepresentable
  enough : tx.message.header.numRequiredSignatures.toNat ≤ tx.message.accountKeys.length
  slots : tx.signatures.length ≤ tx.message.signers.length

namespace Signable

variable {tx : Transaction}

/-- What is decoded has one slot for each signer. -/
theorem length_padded (h : Signable tx) :
    tx.padded.signatures.length = tx.message.signers.length := by
  have hslots := h.slots
  rw [tx.padded_length, length_signers h.enough] at *
  rw [Transaction.numSigs]
  split <;> omega

theorem padded (h : Signable tx) : Signable tx.padded := ⟨h.wire, h.enough, h.length_padded.le⟩

theorem received (h : Signable tx) : transactionFromBase64 tx.toBase64 = .ok tx.padded := by
  have hslots := h.slots
  have hsigners := length_signers h.enough
  have hbyte := tx.message.header.numRequiredSignatures.toNat_lt
  exact transactionFromBase64_toBase64 tx h.wire (by omega)

/-- With one signature for each signer the text stands for the transaction as it is. -/
theorem padded_eq_self (h : Signable tx) (hall : tx.signatures.length = tx.message.signers.length) :
    tx.padded = tx := by
  have hsigners := length_signers h.enough
  exact Transaction.padded_eq_self (by omega)

variable {ed : Ed25519} {getters : List PrivateKeyGetter}

/-- The calls start from what is padded. -/
theorem decodedSigns_padded (h : Signable tx) (hcovers : Covers getters tx.message.signers) :
    decodedSigns ed getters tx = decodedSigns ed getters tx.padded := by
  cases getters with
  | nil =>
    -- no getter covers no signer, and there is nothing to pad
    have hnone : tx.message.signers = [] :=
      List.eq_nil_iff_forall_not_mem.mpr fun key hkey => by simpa using hcovers key hkey
    have hslots := h.slots
    rw [hnone] at hslots
    rw [h.padded_eq_self (by rw [hnone]; exact Nat.le_zero.mp hslots)]
  | cons getter getters =>
    rw [decodedSigns, decodedSigns, h.received, h.padded.received,
      h.padded.padded_eq_self h.length_padded]

/-- **Passing the text on changes nothing** once there is a slot for each signer. -/
theorem decodedSigns_eq (hacc : ed.AcceptsHonest) (hhonest : ∀ g ∈ getters, ed.Honest g)
    (h : Signable tx) (hall : tx.signatures.length = tx.message.signers.length) {content : Bytes}
    (hm : tx.message.marshalBinary = .ok content) :
    decodedSigns ed getters tx = .ok { tx with
      signatures := signRun ed content tx.message.signers getters tx.signatures } := by
  induction getters generalizing tx with
  | nil => rfl
  | cons getter getters ih =>
    have hgetter := hhonest getter List.mem_cons_self
    have hcall : (callSlots ed content tx.message.signers getter tx.signatures).length
        = tx.message.signers.length := length_callSlots getter (.inr hall)
    rw [decodedSigns, h.received, h.padded_eq_self hall, ok_bind,
      tx.partialSign_eq hacc hgetter hm (.inr hall)]
    exact ih (fun g hg => hhonest g (List.mem_cons_of_mem _ hg)) ⟨h.wire, h.enough, hcall.le⟩
      hcall hm

end Signable

/-- **Signing what was decoded.** A transaction that can be signed is written as text and read
back before each call of `PartialSign`, and the getters together have the keys of all required
signers. The calls end, in any order and however often a getter is used, with the same
transaction, its signatures verify, and decoding its text gives it back as it is. -/
theorem decodedSigns_covers (ed : Ed25519) (hacc : ed.AcceptsHonest) (hdet : ed.Deterministic)
    (tx : Transaction) (htx : Signable tx) (getters : List PrivateKeyGetter)
    (hhonest : ∀ g ∈ getters, ed.Honest g) (hcovers : Covers getters tx.message.signers) :
    ∃ signed, signed.message = tx.message ∧ signed.verifySignatures ed = .ok ()
      ∧ transactionFromBase64 signed.toBase64 = .ok signed
      ∧ ∀ getters', (∀ g ∈ getters', ed.Honest g) → Covers getters' tx.message.signers →
        decodedSigns ed getters' tx = .ok signed := by
  obtain ⟨content, hm⟩ := tx.message.marshalBinary_ok
  obtain ⟨hcount, hgood, hsame⟩ :=
    signRun_final hacc hdet content hhonest hcovers (.inr htx.length_padded)
  let signed : Transaction := { tx with
    signatures := signRun ed content tx.message.signers getters tx.padded.signatures }
  have hsigned : Signable signed := ⟨htx.wire, htx.enough, hcount.le⟩
  refine ⟨signed, rfl, ?_, ?_, ?_⟩
  · unfold Transaction.verifySignatures
    rw [hm, ok_bind]
    dsimp only
    rw [if_neg (not_not.mpr hcount.symm), verifyLoop_eq_ok _ _ _ hcount.symm]
    exact hgood
  · rw [hsigned.received, hsigned.padded_eq_self hcount]
  · intro getters' hhonest' hcovers'
    rw [htx.decodedSigns_padded hcovers',
      htx.padded.decodedSigns_eq hacc hhonest' htx.length_padded hm]
    exact congrArg (fun sigs => Except.ok { tx with signatures := sigs })
      (hsame getters' hhonest' hcovers')

/-- Two signers, one after the other, on a transaction that holds one signature already. -/
theorem decodedSigns_covers_pair :
    let tx := { samplePair with signatures := [ByteArr.copyFrom 64 [9]] }
    ∃ signed, signed.verifySignatures sampleEd25519 = .ok ()
      ∧ decodedSigns sampleEd25519 [sampleGetter [ByteArr.copyFrom 32 [8]],
        sampleGetter [ByteArr.copyFrom 32 [7]]] tx = .ok signed := by
  intro tx
  have hhonest : ∀ g ∈ [sampleGetter [ByteArr.copyFrom 32 [8]],
      sampleGetter [ByteArr.copyFrom 32 [7]]], sampleEd25519.Honest g := by
    intro g hg
    rcases List.mem_pair.mp hg with rfl | rfl <;> exact sampleGetter_honest _
  have hcovers : Covers [sampleGetter [ByteArr.copyFrom 32 [8]],
      sampleGetter [ByteArr.copyFrom 32 [7]]] tx.message.signers := by
    intro key hkey
    rcases List.mem_pair.mp hkey with rfl | rfl
    · exact ⟨_, List.mem_cons_of_mem _ List.mem_cons_self, by simp [sampleGetter]⟩
    · exact ⟨_, List.mem_cons_self, by simp [sampleGetter]⟩
  have htx : Signable tx :=
    ⟨⟨⟨by decide, by decide, List.forall_mem_nil _⟩, by decide, List.forall_mem_nil _,
      fun _ => ⟨rfl, by decide⟩⟩, by decide, by decide⟩
  obtain ⟨signed, -, hverify, -, hsame⟩ := decodedSigns_covers sampleEd25519
    sampleEd25519_acceptsHonest sampleEd25519_deterministic tx htx _ hhonest hcovers
  exact ⟨signed, hverify, hsame _ hhonest hcovers⟩

end SolanaGo
