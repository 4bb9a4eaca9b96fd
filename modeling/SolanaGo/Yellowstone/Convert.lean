/-
`convert.go`: the transactions of a stream.

A streamed transaction is a protobuf message. `Update.Transaction` takes the legacy and the
v0 ones, `Update.TransactionV1` those of version 1, and what tells them apart is whether
there is a configuration.

In the protobuf message the numbers of the header and the program index have 32 bits and
the account indexes are bytes, in the transaction they have 8, 16 and 16. The account indexes
of a transaction that can be marshalled fit a byte, so nothing is lost on the way there and
back: the conversion of the image is the transaction itself (`transactionOf_image`,
`transactionV1Of_imageV1`), and with it come its bytes and the verdict on its signatures.

The status metadata is converted beside the transaction; here it is a parameter.
-/
import SolanaGo.TransactionV1Codec
import SolanaGo.Yellowstone.Update

set_option autoImplicit false

namespace SolanaGo.Yellowstone

open Codec (Bytes ByteArr bind_eq_ok)

variable {StatusMeta Meta : Type}

/-! ## The conversions -/

/-- `GetTransaction().GetTransaction()`. -/
def transactionInfo : Pb.SubscribeUpdate StatusMeta →
    Option (Pb.SubscribeUpdateTransactionInfo StatusMeta)
  | .transaction update => update.transaction
  | _ => none

/-- The header of a message, which may be nil. -/
def convertHeader : Option Pb.MessageHeader → MessageHeader
  | none => {}
  | some h =>
    { numRequiredSignatures := h.numRequiredSignatures.toUInt8
      numReadonlySignedAccounts := h.numReadonlySignedAccounts.toUInt8
      numReadonlyUnsignedAccounts := h.numReadonlyUnsignedAccounts.toUInt8 }

/-- `convertAccountIndexes`. -/
def convertAccountIndexes (indexes : Bytes) : List UInt16 := indexes.map UInt8.toUInt16

/-- `convertInstructions`. -/
def convertInstructions (instructions : List Pb.CompiledInstruction) : List CompiledInstruction :=
  instructions.map fun ins =>
    { programIDIndex := ins.programIdIndex.toUInt16
      accounts := convertAccountIndexes ins.accounts
      data := ins.data }

/-- `convertPubkeys`. -/
def convertPubkeys (keys : List Bytes) : List PublicKey := keys.map pubkeyFromBytes

/-- The lookups of a message. -/
def convertLookups (lookups : List Pb.MessageAddressTableLookup) :
    List MessageAddressTableLookup :=
  lookups.map fun lookup =>
    { accountKey := pubkeyFromBytes lookup.accountKey
      writableIndexes := lookup.writableIndexes
      readonlyIndexes := lookup.readonlyIndexes }

section Convert

variable (convertMeta : StatusMeta → Except Err Meta)

/-- `convertMeta`, which takes nil to nil. -/
def convertMetaPointer : Option StatusMeta → Except Err (Option Meta)
  | none => .ok none
  | some statusMeta => (convertMeta statusMeta).map some

/-- `Update.Transaction`. A nil update is `none`. -/
def transactionOf (update : Option (Pb.SubscribeUpdate StatusMeta)) :
    Except Err (Transaction × Option Meta) :=
  match update with
  | none => .error { msg := "yellowstone update has no transaction" }
  | some update =>
    match transactionInfo update with
    | none => .error { msg := "transaction update has no transaction" }
    | some info =>
      match info.transaction with
      | none => .error { msg := "transaction update has no transaction" }
      | some transaction =>
        match transaction.message with
        | none => .error { msg := "transaction update has no message" }
        | some msg =>
          if msg.config.isSome then
            .error { msg := "transaction update is version 1; use TransactionV1" }
          else do
            let message : Message :=
              { header := convertHeader msg.header
                accountKeys := msg.accountKeys.map pubkeyFromBytes
                recentBlockhash := hashFromBytes msg.recentBlockhash
                instructions := convertInstructions msg.instructions }
            let message :=
              if msg.versioned then
                -- `SetVersion` takes the version that is a constant here
                let message := { message with version := .v0 }
                if 0 < msg.addressTableLookups.length then
                  message.setAddressTableLookups (convertLookups msg.addressTableLookups)
                else message
              else message
            let statusMeta ← convertMetaPointer convertMeta info.statusMeta
            .ok ({ signatures := transaction.signatures.map signatureFromBytes, message },
              statusMeta)

/-- `Update.TransactionV1`. Where the metadata fails the source returns the transaction beside
the error. -/
def transactionV1Of (update : Option (Pb.SubscribeUpdate StatusMeta)) :
    Except Err (TransactionV1 × Option Meta) :=
  match update with
  | none => .error { msg := "yellowstone update has no transaction" }
  | some update =>
    match transactionInfo update with
    | none => .error { msg := "transaction update has no transaction message" }
    | some info =>
      match info.transaction with
      | none => .error { msg := "transaction update has no transaction message" }
      | some transaction =>
        match transaction.message with
        | none => .error { msg := "transaction update has no transaction message" }
        | some msg =>
          match msg.config with
          | none => .error { msg := "transaction update is not version 1" }
          | some config =>
            if msg.addressTableLookups.length ≠ 0 then
              .error { msg := "v1 transaction contains address table lookups" }
            else do
              let tx : TransactionV1 :=
                { config :=
                    { priorityFeeLamports := config.priorityFee
                      computeUnitLimit := config.computeUnitLimit
                      loadedAccountsDataSizeLimit := config.loadedAccountsDataSizeLimit
                      heapSize := config.heapSize }
                  lifetimeSpecifier := hashFromBytes msg.recentBlockhash
                  accountKeys := convertPubkeys msg.accountKeys
                  instructions := convertInstructions msg.instructions
                  header := convertHeader msg.header
                  signatures := transaction.signatures.map signatureFromBytes }
              let statusMeta ← convertMetaPointer convertMeta info.statusMeta
              .ok (tx, statusMeta)

end Convert

/-! ## Images

What a node sends for a transaction, without metadata. -/

/-- The image of a header. -/
def headerImage (h : MessageHeader) : Pb.MessageHeader where
  numRequiredSignatures := h.numRequiredSignatures.toUInt32
  numReadonlySignedAccounts := h.numReadonlySignedAccounts.toUInt32
  numReadonlyUnsignedAccounts := h.numReadonlyUnsignedAccounts.toUInt32

/-- The image of an instruction. -/
def instructionImage (ix : CompiledInstruction) : Pb.CompiledInstruction where
  programIdIndex := ix.programIDIndex.toUInt32
  accounts := ix.accounts.map UInt16.toUInt8
  data := ix.data

/-- The image of a lookup. -/
def lookupImage (lookup : MessageAddressTableLookup) : Pb.MessageAddressTableLookup where
  accountKey := lookup.accountKey.toList
  writableIndexes := lookup.writableIndexes
  readonlyIndexes := lookup.readonlyIndexes

/-- An update that carries a message and its signatures. -/
def updateWith (signatures : List Signature) (message : Pb.Message) :
    Pb.SubscribeUpdate StatusMeta :=
  .transaction
    { transaction := some
        { transaction := some
            { signatures := signatures.map ByteArr.toList, message := some message } } }

/-- The image of a legacy or v0 transaction. -/
def image (tx : Transaction) : Pb.SubscribeUpdate StatusMeta :=
  updateWith tx.signatures
    { header := some (headerImage tx.message.header)
      accountKeys := tx.message.accountKeys.map ByteArr.toList
      recentBlockhash := tx.message.recentBlockhash.toList
      instructions := tx.message.instructions.map instructionImage
      versioned := decide (tx.message.version = .v0)
      addressTableLookups := tx.message.addressTableLookups.map lookupImage }

/-- The image of a v1 transaction. -/
def imageV1 (tx : TransactionV1) : Pb.SubscribeUpdate StatusMeta :=
  updateWith tx.signatures
    { header := some (headerImage tx.header)
      accountKeys := tx.accountKeys.map ByteArr.toList
      recentBlockhash := tx.lifetimeSpecifier.toList
      instructions := tx.instructions.map instructionImage
      versioned := true
      config := some
        { priorityFee := tx.config.priorityFeeLamports
          computeUnitLimit := tx.config.computeUnitLimit
          loadedAccountsDataSizeLimit := tx.config.loadedAccountsDataSizeLimit
          heapSize := tx.config.heapSize } }

/-! ## There and back -/

theorem convertHeader_image (h : MessageHeader) : convertHeader (some (headerImage h)) = h := by
  simp [convertHeader, headerImage]

/-- Arrays that are sent whole come back. -/
theorem map_copyFrom_toList {n : ℕ} (arrays : List (ByteArr n)) :
    (arrays.map ByteArr.toList).map (ByteArr.copyFrom n) = arrays := by
  rw [List.map_map]
  conv_rhs => rw [← List.map_id arrays]
  exact List.map_congr_left fun a _ => ByteArr.copyFrom_toList a

theorem convertLookups_image (lookups : List MessageAddressTableLookup) :
    convertLookups (lookups.map lookupImage) = lookups := by
  unfold convertLookups
  rw [List.map_map]
  conv_rhs => rw [← List.map_id lookups]
  refine List.map_congr_left fun lookup _ => ?_
  simp [lookupImage, pubkeyFromBytes]

/-- Instructions whose account indexes fit a byte come back. -/
theorem convertInstructions_image {instructions : List CompiledInstruction}
    (haccounts : ∀ ix ∈ instructions, ∀ a ∈ ix.accounts, a.toNat ≤ 255) :
    convertInstructions (instructions.map instructionImage) = instructions := by
  unfold convertInstructions
  rw [List.map_map]
  conv_rhs => rw [← List.map_id instructions]
  refine List.map_congr_left fun ix hix => ?_
  have hindexes := map_toUInt16_toUInt8 (haccounts ix hix)
  simp only [Function.comp_apply, instructionImage, convertAccountIndexes, hindexes, id]
  simp

section Images

variable (convertMeta : StatusMeta → Except Err Meta)

/-- **A legacy or v0 transaction comes back.** -/
theorem transactionOf_image {tx : Transaction} (h : tx.message.WireRepresentable) :
    transactionOf convertMeta (some (image tx)) = .ok (tx, none) := by
  have hixs : convertInstructions (tx.message.instructions.map instructionImage)
      = tx.message.instructions :=
    convertInstructions_image fun ix hix => (h.body.instructions_wire ix hix).accounts_le
  have hsigs : (tx.signatures.map ByteArr.toList).map signatureFromBytes = tx.signatures :=
    map_copyFrom_toList tx.signatures
  have hkeys : (tx.message.accountKeys.map ByteArr.toList).map pubkeyFromBytes
      = tx.message.accountKeys := map_copyFrom_toList tx.message.accountKeys
  have hhash : hashFromBytes tx.message.recentBlockhash.toList = tx.message.recentBlockhash :=
    ByteArr.copyFrom_toList _
  simp only [transactionOf, image, updateWith, transactionInfo, convertMetaPointer,
    convertHeader_image, hixs, hsigs, hkeys, hhash, convertLookups_image, Option.isSome_none]
  obtain ⟨signatures, version, accountKeys, header, recentBlockhash, instructions, lookups⟩ := tx
  cases version with
  | legacy =>
    obtain ⟨rfl, -⟩ := h.legacy rfl
    rfl
  | v0 =>
    -- without lookups they are not set
    cases lookups with
    | nil => rfl
    | cons lookup lookups => rfl

/-- **A v1 transaction comes back.** -/
theorem transactionV1Of_imageV1 {tx : TransactionV1} (h : tx.sanitize = .ok ()) :
    transactionV1Of convertMeta (some (imageV1 tx)) = .ok (tx, none) := by
  obtain ⟨-, -, hfits⟩ := TransactionV1.sanitize_fits h
  have hixs : convertInstructions (tx.instructions.map instructionImage) = tx.instructions :=
    convertInstructions_image fun ix hix => (hfits ix hix).accounts_le
  have hsigs : (tx.signatures.map ByteArr.toList).map signatureFromBytes = tx.signatures :=
    map_copyFrom_toList tx.signatures
  have hkeys : convertPubkeys (tx.accountKeys.map ByteArr.toList) = tx.accountKeys :=
    map_copyFrom_toList tx.accountKeys
  have hhash : hashFromBytes tx.lifetimeSpecifier.toList = tx.lifetimeSpecifier :=
    ByteArr.copyFrom_toList _
  simp only [transactionV1Of, imageV1, updateWith, transactionInfo, convertMetaPointer,
    convertHeader_image, hixs, hsigs, hkeys, hhash]
  rfl

variable {convertMeta}

/-- What `Update.Transaction` accepts has a message without a configuration. -/
theorem config_of_transactionOf {update : Option (Pb.SubscribeUpdate StatusMeta)}
    {result : Transaction × Option Meta} (h : transactionOf convertMeta update = .ok result) :
    ∃ info transaction message, update.bind transactionInfo = some info
      ∧ info.transaction = some transaction ∧ transaction.message = some message
      ∧ message.config = none := by
  unfold transactionOf at h
  cases update with
  | none => cases h
  | some update =>
    dsimp only at h
    cases hinfo : transactionInfo update with
    | none =>
      rw [hinfo] at h
      cases h
    | some info =>
      rw [hinfo] at h
      dsimp only at h
      cases htransaction : info.transaction with
      | none =>
        rw [htransaction] at h
        cases h
      | some transaction =>
        rw [htransaction] at h
        dsimp only at h
        cases hmessage : transaction.message with
        | none =>
          rw [hmessage] at h
          cases h
        | some message =>
          rw [hmessage] at h
          dsimp only at h
          by_cases hconfig : message.config.isSome
          · rw [if_pos hconfig] at h
            cases h
          · exact ⟨info, transaction, message, hinfo, htransaction, hmessage,
              Option.not_isSome_iff_eq_none.mp hconfig⟩

/-- What has no configuration `Update.TransactionV1` refuses. -/
theorem transactionV1Of_no_config {update : Pb.SubscribeUpdate StatusMeta}
    {info : Pb.SubscribeUpdateTransactionInfo StatusMeta} {transaction : Pb.Transaction}
    {message : Pb.Message} (hinfo : transactionInfo update = some info)
    (htransaction : info.transaction = some transaction)
    (hmessage : transaction.message = some message) (hconfig : message.config = none) :
    transactionV1Of convertMeta (some update)
      = .error { msg := "transaction update is not version 1" } := by
  unfold transactionV1Of
  dsimp only
  rw [hinfo]
  dsimp only
  rw [htransaction]
  dsimp only
  rw [hmessage]
  dsimp only
  rw [hconfig]

end Images

/-- **The streamed form.** Every transaction that the wire can carry, and every v1 transaction
that can be marshalled, is converted from its image into one with the same bytes, and the
verdict on its signatures is the same. No update is taken by both conversions. -/
theorem streamed_transaction (convertMeta : StatusMeta → Except Err Meta) :
    (∀ tx : Transaction, tx.message.WireRepresentable →
        ∃ tx', transactionOf convertMeta (some (image tx)) = .ok (tx', none)
          ∧ tx'.marshalBinary = tx.marshalBinary
          ∧ ∀ ed, tx'.verifySignatures ed = tx.verifySignatures ed)
      ∧ (∀ (tx : TransactionV1) (buf : Bytes), tx.marshalBinary = .ok buf →
          ∃ tx', transactionV1Of convertMeta (some (imageV1 tx)) = .ok (tx', none)
            ∧ tx'.marshalBinary = .ok buf
            ∧ ∀ ed, tx'.verifySignatures ed = tx.verifySignatures ed)
      ∧ ∀ update tx tx', ¬(transactionOf convertMeta update = .ok tx
          ∧ transactionV1Of convertMeta update = .ok tx') := by
  refine ⟨fun tx hwire => ?_, fun tx buf hbuf => ?_, fun update tx tx' => ?_⟩
  · exact ⟨tx, transactionOf_image convertMeta hwire, rfl, fun ed => rfl⟩
  · have hsanitize : tx.sanitize = .ok () := by
      obtain ⟨⟨⟩, hsanitize, -⟩ := bind_eq_ok.mp hbuf
      exact hsanitize
    exact ⟨tx, transactionV1Of_imageV1 convertMeta hsanitize, hbuf, fun ed => rfl⟩
  · rintro ⟨haccepts, haccepts'⟩
    obtain ⟨info, transaction, message, hinfo, htransaction, hmessage, hconfig⟩ :=
      config_of_transactionOf haccepts
    obtain ⟨update, rfl, hinfo⟩ := Option.bind_eq_some_iff.mp hinfo
    rw [transactionV1Of_no_config hinfo htransaction hmessage hconfig] at haccepts'
    cases haccepts'

/-- A v0 transaction with a lookup, signed by its one signer. -/
def signedSample : Transaction where
  signatures := [ByteArr.copyFrom 64 [1, 7]]
  message := sampleMessage

/-- It and a v1 transaction with two signatures are converted, with all their bytes. -/
theorem streamed_transaction_sample :
    (∃ tx', transactionOf (fun _ : Unit => .ok ()) (some (image signedSample)) = .ok (tx', none)
      ∧ tx'.marshalBinary = signedSample.marshalBinary
      ∧ signedSample.marshalBinary.map List.length = .ok 211)
    ∧ ∃ tx' buf, transactionV1Of (fun _ : Unit => .ok ()) (some (imageV1 sampleV1))
        = .ok (tx', none)
      ∧ sampleV1.marshalBinary = .ok buf ∧ tx'.marshalBinary = .ok buf := by
  have hbuf : sampleV1.marshalBinary
      = .ok (sampleV1.appendSigned ++ Codec.joinArrays sampleV1.signatures) := by decide +kernel
  obtain ⟨hlegacy, hv1, -⟩ := streamed_transaction fun _ : Unit => (.ok () : Except Err Unit)
  obtain ⟨tx, htx, hsame, -⟩ := hlegacy signedSample sampleMessage_wireRepresentable
  obtain ⟨tx', htx', hsame', -⟩ := hv1 sampleV1 _ hbuf
  exact ⟨⟨tx, htx, hsame, by decide +kernel⟩, tx', _, htx', hbuf, hsame'⟩

end SolanaGo.Yellowstone
