/-
The messages of a Yellowstone stream.

The types are those that the protobuf compiler makes of `geyser.proto` and
`solana-storage.proto`: a submessage is a pointer and may be absent, `bytes` are of any
length, and the small numbers of a transaction have 32 bits. Of an update there is the one
payload it carries; payloads that nothing here reads are one case.

Left out are the fields that no conversion reads: the filters and the time of an update, the
parent and the error of a slot, the rewards and counts of a block, and the signature, the
vote flag and the index beside a transaction. The status metadata of a transaction is a
parameter.
-/
import SolanaGo.Message

set_option autoImplicit false

namespace SolanaGo.Yellowstone

open Codec (Bytes ByteArr)

namespace Pb

/-! ## Transactions -/

/-- `message MessageHeader`. -/
structure MessageHeader where
  numRequiredSignatures : UInt32 := 0
  numReadonlySignedAccounts : UInt32 := 0
  numReadonlyUnsignedAccounts : UInt32 := 0
  deriving DecidableEq

/-- `message CompiledInstruction`. -/
structure CompiledInstruction where
  programIdIndex : UInt32
  accounts : Bytes
  data : Bytes
  deriving DecidableEq

/-- `message MessageAddressTableLookup`. -/
structure MessageAddressTableLookup where
  accountKey : Bytes
  writableIndexes : Bytes
  readonlyIndexes : Bytes
  deriving DecidableEq

/-- `message TransactionConfig`. -/
structure TransactionConfig where
  priorityFee : Option UInt64 := none
  computeUnitLimit : Option UInt32 := none
  loadedAccountsDataSizeLimit : Option UInt32 := none
  heapSize : Option UInt32 := none
  deriving DecidableEq

/-- `message Message`. -/
structure Message where
  header : Option MessageHeader := none
  accountKeys : List Bytes := []
  recentBlockhash : Bytes := []
  instructions : List CompiledInstruction := []
  versioned : Bool := false
  addressTableLookups : List MessageAddressTableLookup := []
  config : Option TransactionConfig := none
  deriving DecidableEq

/-- `message Transaction`. -/
structure Transaction where
  signatures : List Bytes := []
  message : Option Message := none
  deriving DecidableEq

/-- `message SubscribeUpdateTransactionInfo`. -/
structure SubscribeUpdateTransactionInfo (StatusMeta : Type) where
  transaction : Option Transaction := none
  statusMeta : Option StatusMeta := none

/-- `message SubscribeUpdateTransaction`. -/
structure SubscribeUpdateTransaction (StatusMeta : Type) where
  transaction : Option (SubscribeUpdateTransactionInfo StatusMeta) := none

/-! ## Accounts, slots and blocks -/

/-- `message SubscribeUpdateAccountInfo`. -/
structure SubscribeUpdateAccountInfo where
  pubkey : Bytes
  lamports : UInt64
  owner : Bytes
  executable : Bool
  rentEpoch : UInt64
  data : Bytes
  writeVersion : UInt64
  txnSignature : Bytes
  deriving DecidableEq

/-- `message SubscribeUpdateAccount`. -/
structure SubscribeUpdateAccount where
  account : Option SubscribeUpdateAccountInfo
  slot : UInt64
  isStartup : Bool
  deriving DecidableEq

/-- `enum SlotStatus`. -/
inductive SlotStatus where
  | processed
  | confirmed
  | finalized
  | firstShredReceived
  | completed
  | createdBank
  | dead
  /-- a number without a name -/
  | unknown (code : Int32)
  deriving DecidableEq

/-- `message SubscribeUpdateSlot`. -/
structure SubscribeUpdateSlot where
  slot : UInt64
  status : SlotStatus
  deriving DecidableEq

/-- `message SubscribeUpdateBlockMeta`. The height is a submessage with one field. -/
structure SubscribeUpdateBlockMeta where
  slot : UInt64
  blockhash : Bytes
  blockHeight : Option UInt64
  deriving DecidableEq

/-- `message SubscribeUpdate`: the payload. -/
inductive SubscribeUpdate (StatusMeta : Type) where
  | account (account : SubscribeUpdateAccount)
  | slot (slot : SubscribeUpdateSlot)
  | transaction (transaction : SubscribeUpdateTransaction StatusMeta)
  | blockMeta (blockMeta : SubscribeUpdateBlockMeta)
  /-- a transaction status, a block, an entry, a ping or a pong, or nothing at all -/
  | other

end Pb

/-- `pubkeyFromBytes`. -/
def pubkeyFromBytes (bytes : Bytes) : PublicKey := ByteArr.copyFrom 32 bytes

/-- `hashFromBytes`. -/
def hashFromBytes (bytes : Bytes) : Hash := ByteArr.copyFrom 32 bytes

/-- `SignatureFromBytes`. -/
def signatureFromBytes (bytes : Bytes) : Signature := ByteArr.copyFrom 64 bytes

end SolanaGo.Yellowstone
