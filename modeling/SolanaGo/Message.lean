/-
`message.go`: the message of a transaction, its legacy and v0 wire formats, and
the account roles a message implies by position.

The codec is modelled function by function: `appendBody` and `marshalV0` on the
way out, `unmarshalBody`, `unmarshalLookups` and `unmarshalBinaryConsumed` on
the way in, each decoder taking the receiver it overwrites. Lists stand for
slices, so a nil and an empty slice are the same value here.

Not modelled here: the JSON form (`MessageJson`), base64, and the accessors nothing below
reads.
-/
import SolanaGo.Shortvec

set_option autoImplicit false

namespace SolanaGo

open Codec

/-! ## The message -/

/-- `type MessageVersion int`. The field is private and `SetVersion` refuses
every other value, so the two constants are the whole type. -/
inductive MessageVersion where
  | legacy
  | v0
  deriving DecidableEq, Repr

/-- The integer value of the constant. -/
def MessageVersion.toNat : MessageVersion → ℕ
  | .legacy => 0
  | .v0 => 1

/-- `type MessageHeader struct`. -/
structure MessageHeader where
  numRequiredSignatures : UInt8 := 0
  numReadonlySignedAccounts : UInt8 := 0
  numReadonlyUnsignedAccounts : UInt8 := 0
  deriving DecidableEq

/-- `type CompiledInstruction struct`. -/
structure CompiledInstruction where
  programIDIndex : UInt16
  accounts : List UInt16
  data : Bytes
  deriving DecidableEq

/-- `type MessageAddressTableLookup struct`. -/
structure MessageAddressTableLookup where
  accountKey : PublicKey
  writableIndexes : List UInt8
  readonlyIndexes : List UInt8
  deriving DecidableEq

/-- `type Message struct`. The field defaults are Go's zero value. -/
structure Message where
  version : MessageVersion := .legacy
  accountKeys : List PublicKey := []
  header : MessageHeader := {}
  recentBlockhash : Hash := ByteArr.zero 32
  instructions : List CompiledInstruction := []
  addressTableLookups : List MessageAddressTableLookup := []
  deriving DecidableEq

variable (mx : Message)

/-- `SetAddressTableLookups`. -/
def Message.setAddressTableLookups (lookups : List MessageAddressTableLookup) : Message :=
  { mx with addressTableLookups := lookups, version := .v0 }

/-! ## Roles by position -/

/-- `staticIndexIsWritable`. Subtraction on natural numbers stops at zero, which
is what the `max(…, 0)` of the source does. -/
def Message.staticIndexIsWritable (index : ℕ) : Bool :=
  let h := mx.header
  if h.numRequiredSignatures.toNat ≤ index then
    let numWritableUnsigned := mx.accountKeys.length - h.numRequiredSignatures.toNat
      - h.numReadonlyUnsignedAccounts.toNat
    decide (index - h.numRequiredSignatures.toNat < numWritableUnsigned)
  else
    decide (index < h.numRequiredSignatures.toNat - h.numReadonlySignedAccounts.toNat)

/-- `Signers`: the first `NumRequiredSignatures` keys, or all of them if there
are fewer. -/
def Message.signers : List PublicKey :=
  let numSigners := mx.header.numRequiredSignatures.toNat
  let numSigners := if mx.accountKeys.length < numSigners then mx.accountKeys.length else numSigners
  mx.accountKeys.take numSigners

/-! ## Encoding -/

/-- One compiled instruction inside `appendBody`. Both index casts keep the low
byte only. -/
def appendInstruction (ins : CompiledInstruction) : Bytes :=
  ins.programIDIndex.toUInt8 :: (appendShortvecLen ins.accounts.length
    ++ (ins.accounts.map UInt16.toUInt8 ++ (appendShortvecLen ins.data.length ++ ins.data)))

/-- `appendBody`: the version-independent part. -/
def Message.appendBody : Bytes :=
  mx.header.numRequiredSignatures :: mx.header.numReadonlySignedAccounts
    :: mx.header.numReadonlyUnsignedAccounts
    :: (appendShortvecLen mx.accountKeys.length ++ (joinArrays mx.accountKeys
      ++ (mx.recentBlockhash.toList ++ (appendShortvecLen mx.instructions.length
        ++ encodeAll appendInstruction mx.instructions))))

/-- `bodySize`: the size precomputed for `appendBody`. -/
def Message.bodySize : ℕ :=
  3 + (shortvecLen mx.accountKeys.length + publicKeyLength * mx.accountKeys.length)
    + mx.recentBlockhash.toList.length + shortvecLen mx.instructions.length
    + (mx.instructions.map fun ins => 1 + shortvecLen ins.accounts.length + ins.accounts.length
        + shortvecLen ins.data.length + ins.data.length).sum

/-- One lookup inside `marshalV0`. -/
def appendLookup (lookup : MessageAddressTableLookup) : Bytes :=
  lookup.accountKey.toList ++ (appendShortvecLen lookup.writableIndexes.length
    ++ (lookup.writableIndexes ++ (appendShortvecLen lookup.readonlyIndexes.length
      ++ lookup.readonlyIndexes)))

/-- The `size` computed by `marshalV0`. -/
def Message.v0Size : ℕ :=
  1 + mx.bodySize + shortvecLen mx.addressTableLookups.length
    + (mx.addressTableLookups.map fun lookup => publicKeyLength
        + shortvecLen lookup.writableIndexes.length + lookup.writableIndexes.length
        + shortvecLen lookup.readonlyIndexes.length + lookup.readonlyIndexes.length).sum

/-- `const messageVersionPrefix`. -/
def messageVersionPrefix : UInt8 := 0x80

/-- `marshalV0`. The version on the wire is the Go constant minus one. -/
def Message.marshalV0 : Except Err Bytes :=
  let solanaVersion := UInt8.ofNat (mx.version.toNat - 1)
  if 0x7F < solanaVersion then
    .error { msg := "invalid message version: " ++ toString mx.version.toNat }
  else
    .ok ((messageVersionPrefix ||| solanaVersion) :: (mx.appendBody
      ++ (appendShortvecLen mx.addressTableLookups.length
        ++ encodeAll appendLookup mx.addressTableLookups)))

/-- `MarshalBinary`. -/
def Message.marshalBinary : Except Err Bytes :=
  match mx.version with
  | .legacy => .ok mx.appendBody
  | .v0 => mx.marshalV0

/-- The capacity `MarshalBinary` allocates before it appends. -/
def Message.marshalSize : ℕ :=
  match mx.version with
  | .legacy => mx.bodySize
  | .v0 => mx.v0Size

/-! ## Decoding -/

/-- One iteration of the instruction loop of `unmarshalBody`. -/
def unmarshalInstruction (i : ℕ) : Decoder Err CompiledInstruction
  | [] => .error { msg := "instruction " ++ toString i ++ ": missing program ID index" }
  | programIDIndex :: data => do
    let (numAccounts, data) ← readShortvecLen
      ("instruction " ++ toString i ++ " accounts length: ") data
    if data.length < numAccounts then
      .error { msg := "instruction " ++ toString i ++ " accounts length " ++ toString numAccounts
        ++ " too large for remaining " ++ toString data.length ++ " bytes" }
    else do
      let accounts := (data.take numAccounts).map UInt8.toUInt16
      let data := data.drop numAccounts
      let (dataLen, data) ← readShortvecLen
        ("instruction " ++ toString i ++ " data length: ") data
      if data.length < dataLen then
        .error { msg := "instruction " ++ toString i ++ " data length " ++ toString dataLen
          ++ " too large for remaining " ++ toString data.length ++ " bytes" }
      else
        .ok ({ programIDIndex := programIDIndex.toUInt16, accounts, data := data.take dataLen },
          data.drop dataLen)

/-- `unmarshalBody`: fills the receiver `mx` and returns what is left. -/
def Message.unmarshalBody : Decoder Err Message
  | numRequiredSignatures :: numReadonlySignedAccounts :: numReadonlyUnsignedAccounts :: data => do
    let (numKeys, data) ← readShortvecLen "account keys length: " data
    if data.length / publicKeyLength < numKeys then
      .error { msg := "account keys length " ++ toString numKeys ++ " too large for remaining "
        ++ toString data.length ++ " bytes" }
    else do
      let accountKeys := splitArrays publicKeyLength numKeys data
      let data := data.drop (numKeys * publicKeyLength)
      if data.length < 32 then
        .error { msg := "message too short for recent blockhash: " ++ toString data.length
          ++ " bytes" }
      else do
        let recentBlockhash := ByteArr.copyFrom 32 data
        let data := data.drop 32
        let (numInstructions, data) ← readShortvecLen "instructions length: " data
        if data.length < numInstructions then
          .error { msg := "instructions length " ++ toString numInstructions
            ++ " too large for remaining " ++ toString data.length ++ " bytes" }
        else do
          let (instructions, data) ← decodeRepeat unmarshalInstruction 0 numInstructions data
          .ok ({ mx with
            header := { numRequiredSignatures, numReadonlySignedAccounts,
                        numReadonlyUnsignedAccounts }
            accountKeys, recentBlockhash, instructions }, data)
  | data => .error { msg := "message too short for header: " ++ toString data.length ++ " bytes" }

/-- `decodeLookupIndexes`. -/
def decodeLookupIndexes : Decoder Err (List UInt8) := fun data => do
  let (count, data) ← readShortvecLen "" data
  if data.length < count then
    .error { msg := "length " ++ toString count ++ " too large for remaining "
      ++ toString data.length ++ " bytes" }
  else .ok (data.take count, data.drop count)

/-- One iteration of the loop of `unmarshalLookups`. -/
def unmarshalLookup (i : ℕ) : Decoder Err MessageAddressTableLookup := fun data =>
  if data.length < publicKeyLength then
    .error { msg := "lookup " ++ toString i ++ ": missing account key" }
  else do
    let accountKey := ByteArr.copyFrom publicKeyLength data
    let data := data.drop publicKeyLength
    let (writableIndexes, data) ← wrapErr ("lookup " ++ toString i ++ " writable indexes: ")
      (decodeLookupIndexes data)
    let (readonlyIndexes, data) ← wrapErr ("lookup " ++ toString i ++ " readonly indexes: ")
      (decodeLookupIndexes data)
    .ok ({ accountKey, writableIndexes, readonlyIndexes }, data)

/-- `unmarshalLookups`. -/
def Message.unmarshalLookups : Decoder Err Message := fun data => do
  let (numLookups, data) ← readShortvecLen "address table lookups length: " data
  if numLookups = 0 then .ok ({ mx with addressTableLookups := [] }, data)
  else if data.length / 34 < numLookups then
    .error { msg := "address table lookups length " ++ toString numLookups
      ++ " too large for remaining " ++ toString data.length ++ " bytes" }
  else do
    let (addressTableLookups, data) ← decodeRepeat unmarshalLookup 0 numLookups data
    .ok ({ mx with addressTableLookups }, data)

/-- `unmarshalBinaryConsumed`: decodes into the receiver `mx` and returns it with
the number of bytes consumed. -/
def Message.unmarshalBinaryConsumed (data : Bytes) : Except Err (Message × ℕ) :=
  match data with
  | [] => .error { msg := "message data is empty" }
  | first :: tail =>
    if first &&& messageVersionPrefix ≠ 0 then
      let version := first &&& 0x7F
      if version ≠ 0 then
        .error { msg := "unsupported message version: " ++ toString version.toNat }
      else do
        let (mx, rest) ← { mx with version := .v0 }.unmarshalBody tail
        let (mx, rest) ← mx.unmarshalLookups rest
        .ok (mx, data.length - rest.length)
    else do
      let (mx, rest) ← { mx with version := .legacy, addressTableLookups := [] }.unmarshalBody data
      .ok (mx, data.length - rest.length)

end SolanaGo
