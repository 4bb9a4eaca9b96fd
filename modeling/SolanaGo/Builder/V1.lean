/-
`NewTransactionV1`, and the bytes a v1 transaction is signed over.

Three pieces of code have to agree on the same bytes: `signedSize` computes their number,
`appendSigned` appends them, and `MarshalBinary` writes them in front of the signatures.
None of them reads the signatures, so what `PartialSign` signs before there are any is
what `MarshalBinary` writes once there are all (`partialSign_eq_ok`,
`marshalBinary_eq_ok`). The builder makes the checks of `MarshalBinary` itself, with the
number of signatures the header asks for.
-/
import SolanaGo.Builder
import SolanaGo.TransactionV1Codec

set_option autoImplicit false

namespace SolanaGo

open Codec

/-! ## The builder -/

/-- `NewTransactionV1`. -/
def newTransactionV1 (instructions : List Instruction) (lifetime : Hash)
    (config : TransactionConfig) (opts : List TransactionOption) : Except Err TransactionV1 :=
  let probe := applyOptions opts
  if probe.addressTables.isSome then
    .error { msg := "v1 transactions do not support address lookup tables" }
  else do
    let compiled ← newTransaction instructions lifetime opts
    let tx : TransactionV1 :=
      { header := compiled.message.header
        config
        lifetimeSpecifier := lifetime
        accountKeys := compiled.message.accountKeys
        instructions := compiled.message.instructions }
    tx.sanitize
    let size := tx.signedSize + 64 * tx.header.numRequiredSignatures.toNat
    if transactionV1MaxSize < size then
      .error { msg := "v1 transaction: serialized size " ++ toString size
        ++ " exceeds the maximum of " ++ toString transactionV1MaxSize }
    else .ok tx

/-- What the builder has checked when it returns a transaction. -/
theorem newTransactionV1_eq_ok {instructions : List Instruction} {lifetime : Hash}
    {config : TransactionConfig} {opts : List TransactionOption} {tx : TransactionV1}
    (h : newTransactionV1 instructions lifetime config opts = .ok tx) :
    tx.sanitize = .ok () ∧ tx.signatures = []
      ∧ tx.signedSize + 64 * tx.header.numRequiredSignatures.toNat ≤ transactionV1MaxSize := by
  unfold newTransactionV1 at h
  dsimp only at h
  obtain ⟨-, h⟩ := guard_eq_ok.mp h
  obtain ⟨compiled, -, h⟩ := bind_eq_ok.mp h
  obtain ⟨⟨⟩, hs, h⟩ := bind_eq_ok.mp h
  obtain ⟨hsize, h⟩ := guard_eq_ok.mp h
  obtain rfl := Except.ok.inj h
  exact ⟨hs, rfl, not_lt.mp hsize⟩

/-! ## The payload -/

section Payload

variable {ed : Ed25519}

/-- What `VerifySignatures` checks: the payload against every signature. -/
theorem TransactionV1.verifySignatures_iff {tx : TransactionV1} (hs : tx.sanitize = .ok ())
    (sigs : List Signature) :
    { tx with signatures := sigs }.verifySignatures ed = .ok ()
      ↔ List.Forall₂ (fun key sig => ed.verify key tx.appendSigned sig = true) tx.signers sigs := by
  by_cases hlen : sigs.length = tx.header.numRequiredSignatures.toNat
  · exact TransactionV1.verifySignatures_eq_ok hs hlen
  · constructor
    · intro h
      unfold TransactionV1.verifySignatures at h
      rw [TransactionV1.sanitize_signatures, hs, ok_bind, if_pos hlen] at h
      exact absurd h (by simp)
    · intro h
      exact absurd (h.length_eq.symm.trans (TransactionV1.length_signers hs)) hlen

/-- When `MarshalBinary` succeeds, and what it writes. -/
theorem TransactionV1.marshalBinary_eq_ok {tx : TransactionV1} (hs : tx.sanitize = .ok ())
    {sigs : List Signature} {buf : Bytes} :
    { tx with signatures := sigs }.marshalBinary = .ok buf
      ↔ sigs.length = tx.header.numRequiredSignatures.toNat
        ∧ tx.signedSize + 64 * sigs.length ≤ transactionV1MaxSize
        ∧ buf = tx.appendSigned ++ joinArrays sigs := by
  have hsize : { tx with signatures := sigs }.signedSize = tx.signedSize := rfl
  unfold TransactionV1.marshalBinary
  rw [TransactionV1.sanitize_signatures, hs, ok_bind, TransactionV1.appendSigned_signatures, hsize]
  dsimp only
  constructor
  · intro h
    obtain ⟨hlen, h⟩ := guard_eq_ok.mp h
    obtain ⟨hfits, h⟩ := guard_eq_ok.mp h
    exact ⟨not_not.mp hlen, not_lt.mp hfits, (Except.ok.inj h).symm⟩
  · rintro ⟨hlen, hfits, rfl⟩
    rw [if_neg (not_not.mpr hlen), if_neg (not_lt.mpr hfits)]

end Payload

/-! ## Sizes, payload and builder together -/

/-- **The bytes of a v1 transaction.** For a transaction that passes sanitisation, what is
appended has the size that was computed, it is what every signature is made over and checked
against, and with the signatures behind it is what `MarshalBinary` returns. A transaction
that the builder returned is marshalled with any signatures of the right number; and
`PartialSign` calls that have the keys of all its signers lead there. -/
theorem transactionV1_payload :
    (∀ tx : TransactionV1, tx.sanitize = .ok () →
      tx.appendSigned.length = tx.signedSize
        ∧ ∀ sigs : List Signature,
          (∀ buf, { tx with signatures := sigs }.marshalBinary = .ok buf →
            buf = tx.appendSigned ++ joinArrays sigs)
          ∧ (∀ ed getter tx' signed,
            { tx with signatures := sigs }.partialSign ed getter = (tx', .ok signed) →
            signed = signedSlots ed getter tx.appendSigned tx.signers
              (initialSlots sigs tx.header.numRequiredSignatures.toNat))
          ∧ ∀ ed, { tx with signatures := sigs }.verifySignatures ed = .ok ()
            ↔ List.Forall₂ (fun key sig => ed.verify key tx.appendSigned sig = true)
              tx.signers sigs)
    ∧ ∀ instructions lifetime config opts tx,
        newTransactionV1 instructions lifetime config opts = .ok tx →
        (∀ sigs : List Signature, sigs.length = tx.header.numRequiredSignatures.toNat →
          ∃ buf, { tx with signatures := sigs }.marshalBinary = .ok buf)
        ∧ ∀ (ed : Ed25519) (getters : List PrivateKeyGetter), ed.AcceptsHonest →
          (∀ g ∈ getters, ed.Honest g) → Covers getters tx.signers →
          ∃ tx' buf, tx.partialSigns ed getters = .ok tx' ∧ tx'.marshalBinary = .ok buf := by
  refine ⟨fun tx hs => ⟨tx.length_appendSigned, fun sigs => ⟨?_, ?_, ?_⟩⟩, ?_⟩
  · intro buf hbuf
    exact ((TransactionV1.marshalBinary_eq_ok hs).mp hbuf).2.2
  · intro ed getter tx' signed h
    obtain ⟨-, -, -, rfl, hslots⟩ := TransactionV1.partialSign_eq_ok h
    rwa [TransactionV1.appendSigned_signatures] at hslots
  · intro ed
    exact TransactionV1.verifySignatures_iff hs sigs
  · intro instructions lifetime config opts tx h
    obtain ⟨hs, hnone, hsize⟩ := newTransactionV1_eq_ok h
    have hmarshal : ∀ sigs : List Signature,
        sigs.length = tx.header.numRequiredSignatures.toNat →
        ∃ buf, { tx with signatures := sigs }.marshalBinary = .ok buf := by
      intro sigs hlen
      refine ⟨_, (TransactionV1.marshalBinary_eq_ok hs).mpr ⟨hlen, ?_, rfl⟩⟩
      rw [hlen]
      exact hsize
    refine ⟨hmarshal, fun ed getters hacc hhonest hcovers => ?_⟩
    have hpayload : tx.appendSigned.length + 64 * tx.header.numRequiredSignatures.toNat
        ≤ transactionV1MaxSize := by
      rw [tx.length_appendSigned]
      exact hsize
    have hsigned : List.Forall₂ (ed.Signed tx.appendSigned) tx.signers
        (signRun ed tx.appendSigned tx.signers getters []) :=
      signRun_covers hhonest hcovers (.inl List.length_nil)
    obtain ⟨buf, hbuf⟩ := hmarshal (signRun ed tx.appendSigned tx.signers getters [])
      (hsigned.length_eq.symm.trans (TransactionV1.length_signers hs))
    refine ⟨_, buf, ?_, hbuf⟩
    rw [tx.partialSigns_eq hacc hhonest hs hpayload (.inl (by rw [hnone]; rfl)), hnone]

/-- An instruction with two signers. -/
def pairInstruction : Instruction where
  programID := ByteArr.copyFrom 32 [9]
  accounts := [{ publicKey := ByteArr.copyFrom 32 [7], isSigner := true, isWritable := true },
    { publicKey := ByteArr.copyFrom 32 [8], isSigner := true }]
  data := .ok [5]

/-- It is built, signed by two getters and marshalled. -/
theorem transactionV1_payload_sample :
    ∃ tx tx' buf, newTransactionV1 [pairInstruction] (ByteArr.zero 32) {} [] = .ok tx
      ∧ tx.partialSigns sampleEd25519 [sampleGetter [ByteArr.copyFrom 32 [8]],
        sampleGetter [ByteArr.copyFrom 32 [7]]] = .ok tx'
      ∧ tx'.marshalBinary = .ok buf := by
  have hbuilt : newTransactionV1 [pairInstruction] (ByteArr.zero 32) {} []
      = .ok { header := { numRequiredSignatures := 2, numReadonlySignedAccounts := 1,
                          numReadonlyUnsignedAccounts := 1 }
              accountKeys := [ByteArr.copyFrom 32 [7], ByteArr.copyFrom 32 [8],
                ByteArr.copyFrom 32 [9]]
              instructions := [{ programIDIndex := 2, accounts := [0, 1], data := [5] }] } := by
    decide +kernel
  obtain ⟨tx', buf, hsigned, hbuf⟩ := (transactionV1_payload.2 _ _ _ _ _ hbuilt).2 sampleEd25519
    [sampleGetter [ByteArr.copyFrom 32 [8]], sampleGetter [ByteArr.copyFrom 32 [7]]]
    sampleEd25519_acceptsHonest
    (by
      intro g hg
      simp only [List.mem_cons, List.not_mem_nil, or_false] at hg
      rcases hg with rfl | rfl
      · exact sampleGetter_honest _
      · exact sampleGetter_honest _)
    (by
      intro key hkey
      have hmem : key = ByteArr.copyFrom 32 [7] ∨ key = ByteArr.copyFrom 32 [8] := by
        simpa [TransactionV1.signers] using hkey
      rcases hmem with rfl | rfl
      · exact ⟨_, List.mem_cons_of_mem _ List.mem_cons_self, by simp [sampleGetter]⟩
      · exact ⟨_, List.mem_cons_self, by simp [sampleGetter]⟩)
  exact ⟨_, tx', buf, hbuilt, hsigned, hbuf⟩

end SolanaGo
