/-
`transaction.go`: a transaction is a counted list of signatures followed by the
message they sign.

The decoder takes the signature count from the wire and the required count from
the message header, and never compares them; the encoder pads the list with zero
signatures up to the header's count. So the pair is exact in one direction
(`unmarshalBinaryConsumed_marshal`: the padded transaction comes back) and in the
other only when the wire held at least as many signatures as the header asks
for, which is what `transaction_marshal_decoded_iff` says.
-/
import SolanaGo.MessageCodec

set_option autoImplicit false

namespace SolanaGo

open Codec

/-! ## The transaction and its codec -/

/-- `type Transaction struct`. -/
structure Transaction where
  signatures : List Signature := []
  message : Message := {}
  deriving DecidableEq

/-- The number of signatures `MarshalBinary` writes: those present, or as many as
the header requires if that is more. -/
def Transaction.numSigs (tx : Transaction) : ℕ :=
  let numSigs := tx.signatures.length
  let required := tx.message.header.numRequiredSignatures.toNat
  if numSigs < required then required else numSigs

/-- `MarshalBinary`. -/
def Transaction.marshalBinary (tx : Transaction) : Except Err Bytes := do
  let messageContent ← wrapErr "failed to encode tx.Message to binary: " tx.message.marshalBinary
  let zero : Signature := ByteArr.zero 64
  .ok (appendShortvecLen tx.numSigs ++ (joinArrays tx.signatures
    ++ (joinArrays (List.replicate (tx.numSigs - tx.signatures.length) zero) ++ messageContent)))

/-- `unmarshalBinaryConsumed`, into the receiver `tx`. -/
def Transaction.unmarshalBinaryConsumed (tx : Transaction) (data : Bytes) :
    Except Err (Transaction × ℕ) := do
  let (numSigs, n) ← wrapErr "signatures length: " (decodeShortvecLen data)
  let rest := data.drop n
  if rest.length / signatureLength < numSigs then
    .error { msg := "signatures length " ++ toString numSigs ++ " too large for remaining "
      ++ toString rest.length ++ " bytes" }
  else do
    let signatures := splitArrays signatureLength numSigs rest
    let rest := rest.drop (numSigs * signatureLength)
    let (message, msgConsumed) ← wrapErr "unable to decode tx.Message: "
      (tx.message.unmarshalBinaryConsumed rest)
    .ok ({ signatures, message }, n + numSigs * signatureLength + msgConsumed)

/-- `TransactionFromBytesConsumed`: decodes into a new transaction. -/
def transactionFromBytesConsumed (data : Bytes) : Except Err (Transaction × ℕ) :=
  ({} : Transaction).unmarshalBinaryConsumed data

/-! ## Decoding what was marshalled -/

/-- The transaction with the zero signatures `MarshalBinary` writes for the
missing ones. -/
def Transaction.padded (tx : Transaction) : Transaction :=
  { tx with signatures := tx.signatures
      ++ List.replicate (tx.numSigs - tx.signatures.length) (ByteArr.zero 64) }

theorem Transaction.length_le_numSigs (tx : Transaction) :
    tx.signatures.length ≤ tx.numSigs := by
  rw [Transaction.numSigs]; split <;> omega

theorem Transaction.padded_length (tx : Transaction) :
    tx.padded.signatures.length = tx.numSigs := by
  have := tx.length_le_numSigs
  simp only [Transaction.padded, List.length_append, List.length_replicate]
  omega

/-- With enough signatures nothing is padded. -/
theorem Transaction.padded_eq_self {tx : Transaction}
    (h : tx.message.header.numRequiredSignatures.toNat ≤ tx.signatures.length) :
    tx.padded = tx := by
  have hnum : tx.numSigs = tx.signatures.length := by
    rw [Transaction.numSigs, if_neg (by omega)]
  rw [Transaction.padded, hnum, Nat.sub_self, List.replicate_zero, List.append_nil]

theorem Transaction.numSigs_le {tx : Transaction} (h : tx.signatures.length ≤ 0xFFFF) :
    tx.numSigs ≤ 0xFFFF := by
  have := tx.message.header.numRequiredSignatures.toNat_lt
  rw [Transaction.numSigs]; split <;> omega

theorem Transaction.marshalBinary_eq {tx : Transaction} {content : Bytes}
    (h : tx.message.marshalBinary = .ok content) :
    tx.marshalBinary = .ok (appendShortvecLen tx.padded.signatures.length
      ++ (joinArrays tx.padded.signatures ++ content)) := by
  have hjoin : joinArrays tx.padded.signatures = joinArrays tx.signatures
      ++ joinArrays (List.replicate (tx.numSigs - tx.signatures.length) (ByteArr.zero 64)) :=
    List.flatMap_append
  rw [Transaction.marshalBinary, h, wrapErr_ok, ok_bind, tx.padded_length, hjoin,
    List.append_assoc]

/-- Reading a counted signature list and a message behind it. -/
theorem Transaction.unmarshalBinaryConsumed_append (tx0 : Transaction) (sigs : List Signature)
    (content : Bytes) (m : Message) (k : ℕ) (hlen : sigs.length ≤ 0xFFFF)
    (hm : tx0.message.unmarshalBinaryConsumed content = .ok (m, k)) :
    tx0.unmarshalBinaryConsumed (appendShortvecLen sigs.length ++ (joinArrays sigs ++ content))
      = .ok ({ signatures := sigs, message := m },
        shortvecLen sigs.length + sigs.length * signatureLength + k) := by
  have hjoin : (joinArrays sigs).length = sigs.length * signatureLength := by
    rw [length_joinArrays, Nat.mul_comm]
  have hroom : ¬ (joinArrays sigs ++ content).length / signatureLength < sigs.length := by
    rw [List.length_append, hjoin]; simp only [signatureLength]; omega
  rw [Transaction.unmarshalBinaryConsumed, decodeShortvecLen_append, if_pos hlen, wrapErr_ok,
    ok_bind]
  dsimp only
  rw [List.drop_left' (appendShortvecLen_length _), if_neg hroom, splitArrays_joinArrays,
    List.drop_left' hjoin, hm, wrapErr_ok, ok_bind]

/-- **Decoding undoes encoding, up to padding.** -/
theorem Transaction.unmarshalBinaryConsumed_marshal (tx0 tx : Transaction)
    (hm : tx.message.WireRepresentable) (hlen : tx.signatures.length ≤ 0xFFFF) :
    ∃ buf, tx.marshalBinary = .ok buf
      ∧ ∀ t, tx0.unmarshalBinaryConsumed (buf ++ t) = .ok (tx.padded, buf.length) := by
  obtain ⟨content, hcontent, hdec⟩ := Message.unmarshalBinaryConsumed_marshal tx0.message _ hm
  refine ⟨_, tx.marshalBinary_eq hcontent, fun t => ?_⟩
  have hle : tx.padded.signatures.length ≤ 0xFFFF := by
    rw [tx.padded_length]; exact Transaction.numSigs_le hlen
  have h := tx0.unmarshalBinaryConsumed_append tx.padded.signatures (content ++ t) _ _ hle (hdec t)
  simp only [List.append_assoc]
  rw [h]
  simp only [List.length_append, appendShortvecLen_length, length_joinArrays]
  congr 2
  ring

/-! ## Marshalling what was decoded -/

/-- An accepted transaction: its signatures behind their count, then the
marshalled message, then what was not read. -/
theorem Transaction.unmarshalBinaryConsumed_canonical {tx0 tx : Transaction} {data : Bytes} {n : ℕ}
    (h : tx0.unmarshalBinaryConsumed data = .ok (tx, n)) :
    tx.message.WireRepresentable ∧ tx.signatures.length ≤ 0xFFFF
      ∧ ∃ content r, tx.message.marshalBinary = .ok content
        ∧ data = (appendShortvecLen tx.signatures.length
            ++ (joinArrays tx.signatures ++ content)) ++ r
        ∧ n = (appendShortvecLen tx.signatures.length
            ++ (joinArrays tx.signatures ++ content)).length := by
  rw [Transaction.unmarshalBinaryConsumed, bind_eq_ok] at h
  obtain ⟨⟨numSigs, k⟩, hsigs, h⟩ := h
  obtain ⟨hle, rfl, hdata⟩ := decodeShortvecLen_canonical (wrapErr_eq_ok.mp hsigs)
  obtain ⟨hroom, h⟩ := guard_eq_ok.mp h
  rw [bind_eq_ok] at h
  obtain ⟨⟨m, msgConsumed⟩, hmsg, h⟩ := h
  simp only [Except.ok.injEq, Prod.mk.injEq] at h
  obtain ⟨rfl, rfl⟩ := h
  obtain ⟨hm, content, r, hcontent, hrest, rfl⟩ :=
    Message.unmarshalBinaryConsumed_canonical (wrapErr_eq_ok.mp hmsg)
  generalize data.drop (shortvecLen numSigs) = rest at *
  have hfit : signatureLength * numSigs ≤ rest.length := by
    simp only [signatureLength] at hroom ⊢; omega
  refine ⟨hm, by rw [length_splitArrays]; exact hle, content, r, hcontent, ?_, ?_⟩
  · dsimp only
    rw [hdata, length_splitArrays, joinArrays_splitArrays _ _ hfit, List.append_assoc,
      List.append_assoc, ← hrest, Nat.mul_comm signatureLength, List.take_append_drop]
  · simp only [length_splitArrays, List.length_append, appendShortvecLen_length, length_joinArrays]
    ring

/-! ### The two counts on the wire -/

/-- The signature count at the front of a transaction's bytes. -/
def wireNumSignatures (data : Bytes) : ℕ :=
  match decodeShortvecLen data with
  | .ok (numSigs, _) => numSigs
  | .error _ => 0

/-- The required-signature byte of a message's bytes: behind the version byte if
there is one. -/
def wireRequiredSignatures : Bytes → ℕ
  | first :: rest =>
    if first &&& messageVersionPrefix ≠ 0 then (rest.headD 0).toNat else first.toNat
  | [] => 0

/-- The message part of a transaction's bytes. -/
def wireMessage (data : Bytes) : Bytes :=
  data.drop (shortvecLen (wireNumSignatures data) + signatureLength * wireNumSignatures data)

/-- Both counts of an accepted transaction can be read off its bytes. -/
theorem wire_counts {tx0 tx : Transaction} {data : Bytes} {n : ℕ}
    (h : tx0.unmarshalBinaryConsumed data = .ok (tx, n)) :
    wireNumSignatures data = tx.signatures.length
      ∧ wireRequiredSignatures (wireMessage data)
        = tx.message.header.numRequiredSignatures.toNat := by
  obtain ⟨hm, hle, content, r, hcontent, rfl, -⟩ :=
    Transaction.unmarshalBinaryConsumed_canonical h
  have hnum : wireNumSignatures ((appendShortvecLen tx.signatures.length
      ++ (joinArrays tx.signatures ++ content)) ++ r) = tx.signatures.length := by
    rw [wireNumSignatures, List.append_assoc, decodeShortvecLen_append, if_pos hle]
  refine ⟨hnum, ?_⟩
  have hmsg : wireMessage ((appendShortvecLen tx.signatures.length
      ++ (joinArrays tx.signatures ++ content)) ++ r) = content ++ r := by
    rw [wireMessage, hnum, ← List.append_assoc, List.append_assoc]
    refine List.drop_left' ?_
    rw [List.length_append, appendShortvecLen_length, length_joinArrays]
  rw [hmsg]
  obtain ⟨tail, htail⟩ := tx.message.appendBody_eq_cons
  cases hv : tx.message.version with
  | legacy =>
    have hbit : ¬ (tx.message.header.numRequiredSignatures &&& messageVersionPrefix ≠ 0) :=
      not_not.mpr ((and_80_eq_zero _).mpr (hm.legacy hv).2)
    rw [Message.marshalBinary_legacy hv, Except.ok.injEq, htail] at hcontent
    rw [← hcontent, List.cons_append, wireRequiredSignatures, if_neg hbit]
  | v0 =>
    have hbit : messageVersionPrefix &&& messageVersionPrefix ≠ 0 := by decide
    rw [Message.marshalBinary_v0 hv, Except.ok.injEq, htail] at hcontent
    rw [← hcontent, List.cons_append, wireRequiredSignatures, if_pos hbit]
    rfl

/-- **Re-encoding a decoded transaction.** The bytes that were read come back
exactly when the wire held at least as many signatures as the header requires;
with fewer the encoder inserts zero signatures. -/
theorem transaction_marshal_decoded_iff (tx0 tx : Transaction) (data : Bytes) (n : ℕ)
    (h : tx0.unmarshalBinaryConsumed data = .ok (tx, n)) :
    tx.marshalBinary = .ok (data.take n)
      ↔ wireRequiredSignatures (wireMessage data) ≤ wireNumSignatures data := by
  obtain ⟨hnum, hreq⟩ := wire_counts h
  obtain ⟨-, hle, content, r, hcontent, hdata, hn⟩ :=
    Transaction.unmarshalBinaryConsumed_canonical h
  rw [hnum, hreq, tx.marshalBinary_eq hcontent, hdata, List.take_left' hn.symm, Except.ok.injEq]
  constructor
  · intro heq
    -- Equal byte strings start with equal counts.
    have hlen := congrArg decodeShortvecLen heq
    have hle' : tx.padded.signatures.length ≤ 0xFFFF := by
      rw [tx.padded_length]; exact Transaction.numSigs_le hle
    rw [decodeShortvecLen_append, decodeShortvecLen_append, if_pos hle', if_pos hle,
      Except.ok.injEq, Prod.mk.injEq, tx.padded_length, Transaction.numSigs] at hlen
    by_contra hlt
    rw [if_pos (by omega)] at hlen
    omega
  · intro hge
    rw [Transaction.padded_eq_self hge]

/-- No signature, and a header that requires one. -/
def unsignedBytes : Bytes := [0, 1, 0, 0, 0] ++ List.replicate 32 0 ++ [0]

/-- What `unsignedBytes` decodes to. -/
def unsignedTransaction : Transaction where
  message := { header := { numRequiredSignatures := 1 } }

theorem unsignedBytes_decode :
    transactionFromBytesConsumed unsignedBytes = .ok (unsignedTransaction, 38) := by
  decide +kernel

/-- The accepted 38 bytes come back as 102: a zero signature was inserted. -/
theorem transaction_marshal_decoded_unsigned :
    transactionFromBytesConsumed unsignedBytes = .ok (unsignedTransaction, 38)
      ∧ unsignedTransaction.marshalBinary ≠ .ok (unsignedBytes.take 38) := by
  refine ⟨unsignedBytes_decode, ?_⟩
  rw [Transaction.marshalBinary_eq (Message.marshalBinary_legacy rfl)]
  intro h
  have hone : unsignedTransaction.padded.signatures.length = 1 := by decide
  have hlen := congrArg List.length (Except.ok.inj h)
  rw [hone, List.length_append, List.length_append, length_joinArrays, hone,
    List.length_take] at hlen
  omega

/-- One signature, and a header that requires one. -/
def signedBytes : Bytes :=
  [1] ++ List.replicate 64 9 ++ [1, 0, 0, 0] ++ List.replicate 32 0 ++ [0]

theorem transaction_marshal_decoded_signed :
    ({ unsignedTransaction with signatures := [⟨List.replicate 64 9, rfl⟩] } :
      Transaction).marshalBinary = .ok (signedBytes.take 102) :=
  (transaction_marshal_decoded_iff {} _ signedBytes 102 (by decide +kernel)).mpr
    (by decide +kernel)

/-! ## Transactions in a row -/

/-- A caller's loop: decode a transaction, and go on behind it while there are bytes. -/
def transactionsFromBytes : (turns : ℕ) → Bytes → Except Err (List Transaction × Bytes)
  | 0, data => .ok ([], data)
  | _ + 1, [] => .ok ([], [])
  | turns + 1, b :: data => do
    let (tx, n) ← transactionFromBytesConsumed (b :: data)
    let (txs, rest) ← transactionsFromBytes turns ((b :: data).drop n)
    .ok (tx :: txs, rest)

/-- An encoded transaction is not empty. -/
theorem Transaction.marshalBinary_ne_nil {tx : Transaction} {buf : Bytes}
    (h : tx.marshalBinary = .ok buf) : buf ≠ [] := by
  rw [Transaction.marshalBinary, bind_eq_ok] at h
  obtain ⟨content, -, h⟩ := h
  have hpos : 0 < (appendShortvecLen tx.numSigs).length := by
    rw [appendShortvecLen_length]
    exact shortvecLen_pos _
  rintro rfl
  have hlen := congrArg List.length (Except.ok.inj h)
  rw [List.length_append, List.length_nil] at hlen
  omega

/-- One turn of the loop on the encoding of a transaction. -/
theorem transactionsFromBytes_append {tx : Transaction} {buf : Bytes} (hne : buf ≠ [])
    (hdecode : ∀ t, transactionFromBytesConsumed (buf ++ t) = .ok (tx, buf.length)) (turns : ℕ)
    (t : Bytes) {txs : List Transaction} {rest : Bytes}
    (hrest : transactionsFromBytes turns t = .ok (txs, rest)) :
    transactionsFromBytes (turns + 1) (buf ++ t) = .ok (tx :: txs, rest) := by
  obtain ⟨b, buf', rfl⟩ := List.exists_cons_of_ne_nil hne
  have hfirst := hdecode t
  rw [List.cons_append] at hfirst ⊢
  rw [transactionsFromBytes, hfirst, ok_bind]
  dsimp only
  rw [← List.cons_append, List.drop_left' rfl, hrest, ok_bind]

/-- **Transactions in a row.** The encodings of any transactions the wire can carry, each with
as many signatures as its header requires, are decoded one after the other to those
transactions, and nothing is left. -/
theorem transactionsFromBytes_flatten (txs : List Transaction)
    (h : ∀ tx ∈ txs, tx.message.WireRepresentable
      ∧ tx.signatures.length = tx.message.header.numRequiredSignatures.toNat) :
    ∃ bufs, txs.mapM Transaction.marshalBinary = .ok bufs
      ∧ ∀ turns, txs.length ≤ turns → transactionsFromBytes turns bufs.flatten = .ok (txs, []) := by
  induction txs with
  | nil =>
    refine ⟨[], rfl, fun turns _ => ?_⟩
    cases turns <;> rfl
  | cons tx txs ih =>
    obtain ⟨bufs, hbufs, hrun⟩ := ih fun tx' hmem => h tx' (List.mem_cons_of_mem _ hmem)
    obtain ⟨hm, hsigs⟩ := h tx List.mem_cons_self
    have hlt := tx.message.header.numRequiredSignatures.toNat_lt
    obtain ⟨buf, hbuf, hdecode⟩ :=
      Transaction.unmarshalBinaryConsumed_marshal {} tx hm (by omega)
    rw [Transaction.padded_eq_self (by omega)] at hdecode
    refine ⟨buf :: bufs, ?_, fun turns hturns => ?_⟩
    · rw [List.mapM_cons, hbuf, ok_bind, hbufs, ok_bind]
      rfl
    · rw [List.length_cons] at hturns
      obtain ⟨turns, rfl⟩ : ∃ k, turns = k + 1 := ⟨turns - 1, by omega⟩
      rw [List.flatten_cons]
      exact transactionsFromBytes_append (Transaction.marshalBinary_ne_nil hbuf) hdecode turns _
        (hrun turns (by omega))

/-- Two transactions with one signature each. -/
theorem transactionsFromBytes_flatten_pair :
    ∃ bufs, [({ unsignedTransaction with signatures := [⟨List.replicate 64 9, rfl⟩] } : Transaction),
        { unsignedTransaction with signatures := [⟨List.replicate 64 7, rfl⟩] }].mapM
          Transaction.marshalBinary = .ok bufs
      ∧ ∀ turns, 2 ≤ turns → transactionsFromBytes turns bufs.flatten
        = .ok ([{ unsignedTransaction with signatures := [⟨List.replicate 64 9, rfl⟩] },
          { unsignedTransaction with signatures := [⟨List.replicate 64 7, rfl⟩] }], []) := by
  have hwire : unsignedTransaction.message.WireRepresentable :=
    ⟨⟨by decide, by decide, by simp [unsignedTransaction]⟩, by decide, by simp [unsignedTransaction],
      fun _ => ⟨rfl, by decide⟩⟩
  refine transactionsFromBytes_flatten _ fun tx hmem => ?_
  rcases List.mem_cons.mp hmem with rfl | hmem
  · exact ⟨hwire, by decide⟩
  · obtain rfl := List.mem_singleton.mp hmem
    exact ⟨hwire, by decide⟩

end SolanaGo
