/-
The instructions of the Token Metadata program: their data, and the decoder.

The four create and update instructions carry the metadata, a record with three strings and a
list of creators that may be absent. `Data` refuses a string that is too long for its four-byte
length; the number of creators is cut to four bytes unchecked. The decoder reads such a number
back and makes the list before it reads the first creator.

The unexported `typ` of an instruction is left out where `Data` writes a constant in its place.
-/
import SolanaGo.Instructions

set_option autoImplicit false

namespace SolanaGo.TokenMetadata

open Codec hiding Decoder
open Bin

/-! ## Types -/

/-- `type InstructionType uint8`. -/
inductive InstructionType where
  | createMetadataAccount
  | updateMetadataAccount
  | deprecatedCreateMasterEdition
  | deprecatedMintNewEditionFromMasterEditionViaPrintingToken
  | updatePrimarySaleHappenedViaToken
  | deprecatedSetReservationList
  | deprecatedCreateReservationList
  | signMetadata
  | deprecatedMintPrintingTokensViaToken
  | deprecatedMintPrintingTokens
  | createMasterEdition
  | mintNewEditionFromMasterEditionViaToken
  | convertMasterEditionV1ToV2
  | mintNewEditionFromMasterEditionViaVaultProxy
  | puffMetadata
  | updateMetadataAccountV2
  | createMetadataAccountV2
  | createMasterEditionV3
  | verifyCollection
  | utilize
  | approveUseAuthority
  | revokeUseAuthority
  | unverifyCollection
  | approveCollectionAuthority
  | revokeCollectionAuthority
  deriving DecidableEq

namespace InstructionType

/-- The constants of the types. -/
def code : InstructionType → UInt8
  | createMetadataAccount => 0
  | updateMetadataAccount => 1
  | deprecatedCreateMasterEdition => 2
  | deprecatedMintNewEditionFromMasterEditionViaPrintingToken => 3
  | updatePrimarySaleHappenedViaToken => 4
  | deprecatedSetReservationList => 5
  | deprecatedCreateReservationList => 6
  | signMetadata => 7
  | deprecatedMintPrintingTokensViaToken => 8
  | deprecatedMintPrintingTokens => 9
  | createMasterEdition => 10
  | mintNewEditionFromMasterEditionViaToken => 11
  | convertMasterEditionV1ToV2 => 12
  | mintNewEditionFromMasterEditionViaVaultProxy => 13
  | puffMetadata => 14
  | updateMetadataAccountV2 => 15
  | createMetadataAccountV2 => 16
  | createMasterEditionV3 => 17
  | verifyCollection => 18
  | utilize => 19
  | approveUseAuthority => 20
  | revokeUseAuthority => 21
  | unverifyCollection => 22
  | approveCollectionAuthority => 23
  | revokeCollectionAuthority => 24

/-- The types up to `RevokeCollectionAuthorityInstruction`. -/
def ofCode : UInt8 → Option InstructionType
  | 0 => some createMetadataAccount
  | 1 => some updateMetadataAccount
  | 2 => some deprecatedCreateMasterEdition
  | 3 => some deprecatedMintNewEditionFromMasterEditionViaPrintingToken
  | 4 => some updatePrimarySaleHappenedViaToken
  | 5 => some deprecatedSetReservationList
  | 6 => some deprecatedCreateReservationList
  | 7 => some signMetadata
  | 8 => some deprecatedMintPrintingTokensViaToken
  | 9 => some deprecatedMintPrintingTokens
  | 10 => some createMasterEdition
  | 11 => some mintNewEditionFromMasterEditionViaToken
  | 12 => some convertMasterEditionV1ToV2
  | 13 => some mintNewEditionFromMasterEditionViaVaultProxy
  | 14 => some puffMetadata
  | 15 => some updateMetadataAccountV2
  | 16 => some createMetadataAccountV2
  | 17 => some createMasterEditionV3
  | 18 => some verifyCollection
  | 19 => some utilize
  | 20 => some approveUseAuthority
  | 21 => some revokeUseAuthority
  | 22 => some unverifyCollection
  | 23 => some approveCollectionAuthority
  | 24 => some revokeCollectionAuthority
  | _ => none

/-- `String`. -/
def string : InstructionType → String
  | createMetadataAccount => "CreateMetadataAccount"
  | updateMetadataAccount => "UpdateMetadataAccount"
  | deprecatedCreateMasterEdition => "DeprecatedCreateMasterEdition"
  | deprecatedMintNewEditionFromMasterEditionViaPrintingToken =>
    "DeprecatedMintNewEditionFromMasterEditionViaPrintingToken"
  | updatePrimarySaleHappenedViaToken => "UpdatePrimarySaleHappenedViaToken"
  | deprecatedSetReservationList => "DeprecatedSetReservationList"
  | deprecatedCreateReservationList => "DeprecatedCreateReservationList"
  | signMetadata => "SignMetadata"
  | deprecatedMintPrintingTokensViaToken => "DeprecatedMintPrintingTokensViaToken"
  | deprecatedMintPrintingTokens => "DeprecatedMintPrintingTokens"
  | createMasterEdition => "CreateMasterEdition"
  | mintNewEditionFromMasterEditionViaToken => "MintNewEditionFromMasterEditionViaToken"
  | convertMasterEditionV1ToV2 => "ConvertMasterEditionV1ToV2"
  | mintNewEditionFromMasterEditionViaVaultProxy => "MintNewEditionFromMasterEditionViaVaultProxy"
  | puffMetadata => "PuffMetadata"
  | updateMetadataAccountV2 => "UpdateMetadataAccountV2"
  | createMetadataAccountV2 => "CreateMetadataAccountV2"
  | createMasterEditionV3 => "CreateMasterEditionV3"
  | verifyCollection => "VerifyCollection"
  | utilize => "Utilize"
  | approveUseAuthority => "ApproveUseAuthority"
  | revokeUseAuthority => "RevokeUseAuthority"
  | unverifyCollection => "UnverifyCollection"
  | approveCollectionAuthority => "ApproveCollectionAuthority"
  | revokeCollectionAuthority => "RevokeCollectionAuthority"

end InstructionType

/-- `type Creator struct`. -/
@[ext] structure Creator where
  address : PublicKey
  verified : Bool
  share : UInt8
  deriving DecidableEq

/-- `type Data struct`. -/
@[ext] structure Data where
  name : Bytes
  symbol : Bytes
  uri : Bytes
  sellerFeeBasisPoints : UInt16
  creators : Option (List Creator)
  deriving DecidableEq

/-- `type UseMethod uint8`. -/
abbrev UseMethod := UInt8

/-- `type Uses struct`. -/
@[ext] structure Uses where
  useMethod : UseMethod
  remaining : UInt64
  total : UInt64
  deriving DecidableEq

/-- `type Collection struct`. -/
@[ext] structure Collection where
  verified : Bool
  key : PublicKey
  deriving DecidableEq

/-- `type DataV2 struct`. -/
@[ext] structure DataV2 where
  data : Data
  collection : Option Collection
  uses : Option Uses
  deriving DecidableEq

/-- `type CreateMetadataAccountArgs struct`. -/
@[ext] structure CreateMetadataAccountArgs where
  data : Data
  isMutable : Bool
  deriving DecidableEq

/-- `type CreateMetadataAccountArgsV2 struct`. -/
@[ext] structure CreateMetadataAccountArgsV2 where
  data : DataV2
  isMutable : Bool
  deriving DecidableEq

/-- `type UpdateMetadataAccountArgs struct`. -/
@[ext] structure UpdateMetadataAccountArgs where
  data : Option Data
  updateAuthority : Option PublicKey
  primarySaleHappened : Option Bool
  deriving DecidableEq

/-- `type UpdateMetadataAccountArgsV2 struct`. -/
@[ext] structure UpdateMetadataAccountArgsV2 where
  data : Option DataV2
  updateAuthority : Option PublicKey
  primarySaleHappened : Option Bool
  isMutable : Option Bool
  deriving DecidableEq

/-- `type CreateMasterEditionArgs struct`. -/
structure CreateMasterEditionArgs where
  maxSupply : Option UInt64
  deriving DecidableEq

/-! ## Arguments -/

/-- The three writes of a creator. -/
def Creator.encode (creator : Creator) (enc : Encoder) : Encoder :=
  let enc := enc.writePublicKey creator.address
  let enc := enc.writeBool creator.verified
  enc.writeUint8 creator.share

variable (dec : Decoder)

/-- The three reads of a creator. -/
def Creator.decode : Creator × Decoder :=
  let (address, dec) := dec.readPublicKey
  let (verified, dec) := dec.readBool
  let (share, dec) := dec.readUint8
  ({ address, verified, share }, dec)

/-- The creators behind their option: `uint32(len(*data.Creators))`, and each of them. -/
def encodeCreators (creators : List Creator) (enc : Encoder) : Encoder :=
  let enc := enc.writeUint32 (UInt32.ofNat creators.length)
  creators.foldl (fun enc creator => creator.encode enc) enc

/-- `make([]Creator, dec.ReadUint32())`, and each of them. -/
def decodeCreators : List Creator × Decoder :=
  let (count, dec) := dec.readUint32
  dec.readMany Creator.decode count.toNat

/-- `encode`. -/
def Data.encode (data : Data) (enc : Encoder) : Encoder :=
  let enc := enc.writeBorshString data.name
  let enc := enc.writeBorshString data.symbol
  let enc := enc.writeBorshString data.uri
  let enc := enc.writeUint16 data.sellerFeeBasisPoints
  enc.writeOptional encodeCreators data.creators

/-- `decode`, into an empty value. -/
def Data.decode : Data × Decoder :=
  let (name, dec) := dec.readBorshString
  let (symbol, dec) := dec.readBorshString
  let (uri, dec) := dec.readBorshString
  let (sellerFeeBasisPoints, dec) := dec.readUint16
  let (creators, dec) := dec.readOptional decodeCreators
  ({ name, symbol, uri, sellerFeeBasisPoints, creators }, dec)

/-- The two writes of a collection. -/
def Collection.encode (collection : Collection) (enc : Encoder) : Encoder :=
  let enc := enc.writeBool collection.verified
  enc.writePublicKey collection.key

/-- The two reads of a collection. -/
def Collection.decode : Collection × Decoder :=
  let (verified, dec) := dec.readBool
  let (key, dec) := dec.readPublicKey
  ({ verified, key }, dec)

/-- The three writes of a `Uses`. -/
def Uses.encode (uses : Uses) (enc : Encoder) : Encoder :=
  let enc := enc.writeUint8 uses.useMethod
  let enc := enc.writeUint64 uses.remaining
  enc.writeUint64 uses.total

/-- The three reads of a `Uses`. -/
def Uses.decode : Uses × Decoder :=
  let (useMethod, dec) := dec.readUint8
  let (remaining, dec) := dec.readUint64
  let (total, dec) := dec.readUint64
  ({ useMethod, remaining, total }, dec)

/-- `encode`. -/
def DataV2.encode (data : DataV2) (enc : Encoder) : Encoder :=
  let enc := data.data.encode enc
  let enc := enc.writeOptional Collection.encode data.collection
  enc.writeOptional Uses.encode data.uses

/-- `decode`, into an empty value. -/
def DataV2.decode : DataV2 × Decoder :=
  let (data, dec) := Data.decode dec
  let (collection, dec) := dec.readOptional Collection.decode
  let (uses, dec) := dec.readOptional Uses.decode
  ({ data, collection, uses }, dec)

/-- `decodeUpdateArgs`. -/
def decodeUpdateArgs : UpdateMetadataAccountArgs × Decoder :=
  let (data, dec) := dec.readOptional Data.decode
  let (updateAuthority, dec) := dec.readOptional Decoder.readPublicKey
  let (primarySaleHappened, dec) := dec.readOptional Decoder.readBool
  ({ data, updateAuthority, primarySaleHappened }, dec)

/-- `decodeUpdateArgsV2`. -/
def decodeUpdateArgsV2 : UpdateMetadataAccountArgsV2 × Decoder :=
  let (data, dec) := dec.readOptional DataV2.decode
  let (updateAuthority, dec) := dec.readOptional Decoder.readPublicKey
  let (primarySaleHappened, dec) := dec.readOptional Decoder.readBool
  let (isMutable, dec) := dec.readOptional Decoder.readBool
  ({ data, updateAuthority, primarySaleHappened, isMutable }, dec)

/-! ## Instructions -/

/-- `type CreateMetadataAccount struct`. -/
@[ext] structure CreateMetadataAccount where
  args : CreateMetadataAccountArgs
  accounts : AccountMetaSlice
  deriving DecidableEq

/-- `type CreateMetadataAccountV2 struct`. -/
@[ext] structure CreateMetadataAccountV2 where
  args : CreateMetadataAccountArgsV2
  accounts : AccountMetaSlice
  deriving DecidableEq

/-- `type UpdateMetadataAccount struct`. -/
@[ext] structure UpdateMetadataAccount where
  args : UpdateMetadataAccountArgs
  accounts : AccountMetaSlice
  deriving DecidableEq

/-- `type UpdateMetadataAccountV2 struct`. -/
@[ext] structure UpdateMetadataAccountV2 where
  args : UpdateMetadataAccountArgsV2
  accounts : AccountMetaSlice
  deriving DecidableEq

/-- `type CreateMasterEdition struct`. -/
structure CreateMasterEdition where
  args : CreateMasterEditionArgs
  accounts : AccountMetaSlice
  deriving DecidableEq

/-- `type CreateMasterEditionV3 struct`. -/
structure CreateMasterEditionV3 where
  args : CreateMasterEditionArgs
  accounts : AccountMetaSlice
  deriving DecidableEq

/-- `type SignMetadata struct`. -/
structure SignMetadata where
  accounts : AccountMetaSlice
  deriving DecidableEq

/-- `type PuffMetadata struct`. -/
structure PuffMetadata where
  accounts : AccountMetaSlice
  deriving DecidableEq

/-- `type UpdatePrimarySaleHappenedViaToken struct`. -/
structure UpdatePrimarySaleHappenedViaToken where
  accounts : AccountMetaSlice
  deriving DecidableEq

/-- `type VerifyCollection struct`. -/
structure VerifyCollection where
  accounts : AccountMetaSlice
  deriving DecidableEq

/-- `type UnverifyCollection struct`. -/
structure UnverifyCollection where
  accounts : AccountMetaSlice
  deriving DecidableEq

/-- `type RawInstruction struct`. -/
structure RawInstruction where
  accounts : AccountMetaSlice
  dataBytes : Bytes
  deriving DecidableEq

/-- `type DecodedInstruction struct`. -/
structure DecodedInstruction where
  type : InstructionType
  createMetadataAccount : Option CreateMetadataAccount := none
  updateMetadataAccount : Option UpdateMetadataAccount := none
  updatePrimarySaleHappenedViaToken : Option UpdatePrimarySaleHappenedViaToken := none
  signMetadata : Option SignMetadata := none
  createMasterEdition : Option CreateMasterEdition := none
  puffMetadata : Option PuffMetadata := none
  updateMetadataAccountV2 : Option UpdateMetadataAccountV2 := none
  createMetadataAccountV2 : Option CreateMetadataAccountV2 := none
  createMasterEditionV3 : Option CreateMasterEditionV3 := none
  verifyCollection : Option VerifyCollection := none
  unverifyCollection : Option UnverifyCollection := none
  raw : Option RawInstruction := none
  deriving DecidableEq

/-! ## Data -/

/-- `Data`. -/
def CreateMetadataAccount.data (inst : CreateMetadataAccount) : Except Err Bytes :=
  let enc := newEncoder []
  let enc := enc.writeUint8 InstructionType.createMetadataAccount.code
  let enc := inst.args.data.encode enc
  let enc := enc.writeBool inst.args.isMutable
  enc.result

/-- `Data`. -/
def CreateMetadataAccountV2.data (inst : CreateMetadataAccountV2) : Except Err Bytes :=
  let enc := newEncoder []
  let enc := enc.writeUint8 InstructionType.createMetadataAccountV2.code
  let enc := inst.args.data.encode enc
  let enc := enc.writeBool inst.args.isMutable
  enc.result

/-- `Data`. -/
def UpdateMetadataAccount.data (inst : UpdateMetadataAccount) : Except Err Bytes :=
  let enc := newEncoder []
  let enc := enc.writeUint8 InstructionType.updateMetadataAccount.code
  let enc := enc.writeOptional Data.encode inst.args.data
  let enc := enc.writeOptional Encoder.writePublicKey inst.args.updateAuthority
  let enc := enc.writeOptional Encoder.writeBool inst.args.primarySaleHappened
  enc.result

/-- `Data`. -/
def UpdateMetadataAccountV2.data (inst : UpdateMetadataAccountV2) : Except Err Bytes :=
  let enc := newEncoder []
  let enc := enc.writeUint8 InstructionType.updateMetadataAccountV2.code
  let enc := enc.writeOptional DataV2.encode inst.args.data
  let enc := enc.writeOptional Encoder.writePublicKey inst.args.updateAuthority
  let enc := enc.writeOptional Encoder.writeBool inst.args.primarySaleHappened
  let enc := enc.writeOptional Encoder.writeBool inst.args.isMutable
  enc.result

/-! ## The decoder -/

/-- The cases of `DecodeInstruction`, and nothing for its default. -/
def readFields (accounts : AccountMetaSlice) (dec : Decoder) :
    InstructionType → Option (DecodedInstruction × Decoder)
  | .createMetadataAccount =>
    let (data, dec) := Data.decode dec
    let (isMutable, dec) := dec.readBool
    some ({ type := .createMetadataAccount
            createMetadataAccount := some { args := { data, isMutable }, accounts } }, dec)
  | .updateMetadataAccount =>
    let (args, dec) := decodeUpdateArgs dec
    some ({ type := .updateMetadataAccount
            updateMetadataAccount := some { args, accounts } }, dec)
  | .updatePrimarySaleHappenedViaToken =>
    some ({ type := .updatePrimarySaleHappenedViaToken
            updatePrimarySaleHappenedViaToken := some { accounts } }, dec)
  | .signMetadata => some ({ type := .signMetadata, signMetadata := some { accounts } }, dec)
  | .createMasterEdition =>
    let (maxSupply, dec) := dec.readOptional Decoder.readUint64
    some ({ type := .createMasterEdition
            createMasterEdition := some { args := { maxSupply }, accounts } }, dec)
  | .puffMetadata => some ({ type := .puffMetadata, puffMetadata := some { accounts } }, dec)
  | .updateMetadataAccountV2 =>
    let (args, dec) := decodeUpdateArgsV2 dec
    some ({ type := .updateMetadataAccountV2
            updateMetadataAccountV2 := some { args, accounts } }, dec)
  | .createMetadataAccountV2 =>
    let (data, dec) := DataV2.decode dec
    let (isMutable, dec) := dec.readBool
    some ({ type := .createMetadataAccountV2
            createMetadataAccountV2 := some { args := { data, isMutable }, accounts } }, dec)
  | .createMasterEditionV3 =>
    let (maxSupply, dec) := dec.readOptional Decoder.readUint64
    some ({ type := .createMasterEditionV3
            createMasterEditionV3 := some { args := { maxSupply }, accounts } }, dec)
  | .verifyCollection =>
    some ({ type := .verifyCollection, verifyCollection := some { accounts } }, dec)
  | .unverifyCollection =>
    some ({ type := .unverifyCollection, unverifyCollection := some { accounts } }, dec)
  | _ => none

/-- `DecodeInstruction`. -/
def decodeInstruction (accounts : AccountMetaSlice) (data : Bytes) :
    Except Err DecodedInstruction :=
  let dec := newDecoder data
  let (code, dec) := dec.readUint8
  match dec.errOf with
  | (some err, _) => .error (err.wrap "token metadata instruction type: ")
  | (none, dec) =>
    match InstructionType.ofCode code with
    | none => .error { msg := "token metadata: unknown instruction: " ++ toString code }
    | some typ =>
      match readFields accounts dec typ with
      | none => .ok { type := typ, raw := some { accounts, dataBytes := data } }
      | some (out, dec) =>
        match dec.errOf with
        | (some err, _) => .error (err.wrap ("decode token metadata " ++ typ.string ++ ": "))
        | (none, _) => .ok out

end SolanaGo.TokenMetadata
