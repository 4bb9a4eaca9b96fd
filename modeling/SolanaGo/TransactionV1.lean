/-
`transaction_v1.go`: the v1 transaction, its sanitisation rules and the bytes its
signatures cover.

The format has no lookup tables and no list lengths beyond a byte; resource
requests are optional words announced by a bit mask, and the signatures follow
the payload instead of preceding it. `sanitize` is the gate every operation
passes first, so what it guarantees (`sanitize_eq_ok`) is stated once and used
by all of them.
-/
import SolanaGo.Transaction

set_option autoImplicit false

namespace SolanaGo

open Codec

/-! ## Configuration -/

/-- `type TransactionConfig struct`. A nil pointer is `none`. -/
structure TransactionConfig where
  priorityFeeLamports : Option UInt64 := none
  computeUnitLimit : Option UInt32 := none
  loadedAccountsDataSizeLimit : Option UInt32 := none
  heapSize : Option UInt32 := none
  deriving DecidableEq

/-- `configBitPriorityFeeLo`. -/
def configBitPriorityFeeLo : UInt32 := (1 : UInt32) <<< 0

/-- `configBitPriorityFeeHi`. -/
def configBitPriorityFeeHi : UInt32 := (1 : UInt32) <<< 1

/-- `configBitComputeUnits`. -/
def configBitComputeUnits : UInt32 := (1 : UInt32) <<< 2

/-- `configBitLoadedDataSz`. -/
def configBitLoadedDataSz : UInt32 := (1 : UInt32) <<< 3

/-- `configBitHeapSize`. -/
def configBitHeapSize : UInt32 := (1 : UInt32) <<< 4

/-- `mask`. -/
def TransactionConfig.mask (c : TransactionConfig) : UInt32 :=
  (if c.priorityFeeLamports.isSome then configBitPriorityFeeLo ||| configBitPriorityFeeHi else 0)
    ||| (if c.computeUnitLimit.isSome then configBitComputeUnits else 0)
    ||| (if c.loadedAccountsDataSizeLimit.isSome then configBitLoadedDataSz else 0)
    ||| (if c.heapSize.isSome then configBitHeapSize else 0)

/-- `transactionV1HeapSizeMin`. -/
def transactionV1HeapSizeMin : ℕ := 32 * 1024

/-- `transactionV1HeapSizeMax`. -/
def transactionV1HeapSizeMax : ℕ := 256 * 1024

/-- `transactionV1HeapSizeUnit`. -/
def transactionV1HeapSizeUnit : ℕ := 1024

/-- `validate`. -/
def TransactionConfig.validate (c : TransactionConfig) : Except Err Unit :=
  match c.heapSize with
  | none => .ok ()
  | some h =>
    if h.toNat < transactionV1HeapSizeMin ∨ transactionV1HeapSizeMax < h.toNat
        ∨ h.toNat % transactionV1HeapSizeUnit ≠ 0 then
      .error { msg := "invalid heap size " ++ toString h.toNat ++ ": must be a multiple of "
        ++ toString transactionV1HeapSizeUnit ++ " in [" ++ toString transactionV1HeapSizeMin
        ++ ", " ++ toString transactionV1HeapSizeMax ++ "]" }
    else .ok ()

/-- `appendValues`. -/
def TransactionConfig.appendValues (c : TransactionConfig) : Bytes :=
  (c.priorityFeeLamports.elim [] fun v => leBytes 8 v.toNat)
    ++ ((c.computeUnitLimit.elim [] fun v => leBytes 4 v.toNat)
      ++ ((c.loadedAccountsDataSizeLimit.elim [] fun v => leBytes 4 v.toNat)
        ++ (c.heapSize.elim [] fun v => leBytes 4 v.toNat)))

/-! ## The transaction -/

/-- `TransactionV1VersionByte`. -/
def transactionV1VersionByte : UInt8 := 129

/-- `TransactionV1MaxSize`. -/
def transactionV1MaxSize : ℕ := 4096

/-- `transactionV1MaxSignatures`. -/
def transactionV1MaxSignatures : ℕ := 12

/-- `transactionV1MaxAddresses`. -/
def transactionV1MaxAddresses : ℕ := 64

/-- `transactionV1MaxInstructions`. -/
def transactionV1MaxInstructions : ℕ := 64

/-- `type TransactionV1 struct`. -/
structure TransactionV1 where
  header : MessageHeader := {}
  config : TransactionConfig := {}
  lifetimeSpecifier : Hash := ByteArr.zero 32
  accountKeys : List PublicKey := []
  instructions : List CompiledInstruction := []
  signatures : List Signature := []
  deriving DecidableEq

/-- The first address that was seen before. -/
def findDuplicate (seen : List PublicKey) : List PublicKey → Option PublicKey
  | [] => none
  | key :: keys => if key ∈ seen then some key else findDuplicate (key :: seen) keys

/-- The account-index loop of `sanitize`, on instruction `i`. -/
def checkAccountIndexes (numAddresses i : ℕ) : List UInt16 → Except Err Unit
  | [] => .ok ()
  | idx :: accounts =>
    if numAddresses ≤ idx.toNat then
      .error { msg := "v1 transaction: instruction " ++ toString i ++ " account index "
        ++ toString idx.toNat ++ " out of range" }
    else checkAccountIndexes numAddresses i accounts

/-- The instruction loop of `sanitize`, from instruction `i` on. -/
def checkInstructions (numAddresses : ℕ) : ℕ → List CompiledInstruction → Except Err Unit
  | _, [] => .ok ()
  | i, ix :: instructions =>
    if numAddresses ≤ ix.programIDIndex.toNat then
      .error { msg := "v1 transaction: instruction " ++ toString i ++ " program index "
        ++ toString ix.programIDIndex.toNat ++ " out of range" }
    else if 255 < ix.accounts.length then
      .error { msg := "v1 transaction: instruction " ++ toString i ++ " has "
        ++ toString ix.accounts.length ++ " accounts, maximum is 255" }
    else do
      checkAccountIndexes numAddresses i ix.accounts
      if 0xFFFF < ix.data.length then
        .error { msg := "v1 transaction: instruction " ++ toString i ++ " data is "
          ++ toString ix.data.length ++ " bytes, maximum is 65535" }
      else checkInstructions numAddresses (i + 1) instructions

/-- `sanitize`. -/
def TransactionV1.sanitize (tx : TransactionV1) : Except Err Unit :=
  let h := tx.header
  let numAddresses := tx.accountKeys.length
  if h.numRequiredSignatures.toNat < 1 then
    .error { msg := "v1 transaction: NumRequiredSignatures must be >= 1" }
  else if transactionV1MaxSignatures < h.numRequiredSignatures.toNat then
    .error { msg := "v1 transaction: " ++ toString h.numRequiredSignatures.toNat
      ++ " signatures exceeds the maximum of " ++ toString transactionV1MaxSignatures }
  else if h.numRequiredSignatures.toNat ≤ h.numReadonlySignedAccounts.toNat then
    .error { msg := "v1 transaction: NumReadonlySignedAccounts must be < NumRequiredSignatures "
      ++ "(the fee payer must be writable)" }
  else if transactionV1MaxAddresses < numAddresses then
    .error { msg := "v1 transaction: " ++ toString numAddresses
      ++ " addresses exceeds the maximum of " ++ toString transactionV1MaxAddresses }
  else if numAddresses < h.numRequiredSignatures.toNat + h.numReadonlyUnsignedAccounts.toNat then
    .error { msg := "v1 transaction: fewer addresses than the header requires" }
  else
    match findDuplicate [] tx.accountKeys with
    | some key => .error { msg := "v1 transaction: duplicate address %s", keys := [key] }
    | none =>
      if transactionV1MaxInstructions < tx.instructions.length then
        .error { msg := "v1 transaction: " ++ toString tx.instructions.length
          ++ " instructions exceeds the maximum of " ++ toString transactionV1MaxInstructions }
      else do
        checkInstructions numAddresses 0 tx.instructions
        tx.config.validate

/-! ## The signed payload -/

/-- `bits.OnesCount32`. -/
def onesCount32 (m : UInt32) : ℕ := (List.range 32).countP fun i => m.toNat.testBit i

/-- `signedSize`. -/
def TransactionV1.signedSize (tx : TransactionV1) : ℕ :=
  (1 + 3 + 4 + 32 + 1 + 1) + 32 * tx.accountKeys.length + 4 * onesCount32 tx.config.mask
    + 4 * tx.instructions.length
    + (tx.instructions.map fun ix => ix.accounts.length + ix.data.length).sum

/-- One instruction header of `appendSigned`. -/
def appendInstructionHeader (ix : CompiledInstruction) : Bytes :=
  ix.programIDIndex.toUInt8 :: UInt8.ofNat ix.accounts.length :: leBytes 2 ix.data.length

/-- One instruction payload of `appendSigned`. -/
def appendInstructionPayload (ix : CompiledInstruction) : Bytes :=
  ix.accounts.map UInt16.toUInt8 ++ ix.data

/-- `appendSigned`: everything before the signatures. -/
def TransactionV1.appendSigned (tx : TransactionV1) : Bytes :=
  transactionV1VersionByte :: tx.header.numRequiredSignatures
    :: tx.header.numReadonlySignedAccounts :: tx.header.numReadonlyUnsignedAccounts
    :: (leBytes 4 tx.config.mask.toNat ++ (tx.lifetimeSpecifier.toList
      ++ (UInt8.ofNat tx.instructions.length :: UInt8.ofNat tx.accountKeys.length
        :: (joinArrays tx.accountKeys ++ (tx.config.appendValues
          ++ (encodeAll appendInstructionHeader tx.instructions
            ++ encodeAll appendInstructionPayload tx.instructions))))))

/-! ## What sanitisation guarantees -/

/-- The header of a sanitised transaction: at least one signature is required, and
there are as many addresses as signatures. -/
theorem TransactionV1.sanitize_eq_ok {tx : TransactionV1} (h : tx.sanitize = .ok ()) :
    0 < tx.header.numRequiredSignatures.toNat
      ∧ tx.header.numRequiredSignatures.toNat ≤ tx.accountKeys.length := by
  unfold TransactionV1.sanitize at h
  obtain ⟨hpos, h⟩ := guard_eq_ok.mp h
  obtain ⟨-, h⟩ := guard_eq_ok.mp h
  obtain ⟨-, h⟩ := guard_eq_ok.mp h
  obtain ⟨-, h⟩ := guard_eq_ok.mp h
  obtain ⟨henough, -⟩ := guard_eq_ok.mp h
  exact ⟨by omega, by omega⟩

/-- Sanitisation does not look at the signatures. -/
theorem TransactionV1.sanitize_signatures (tx : TransactionV1) (sigs : List Signature) :
    { tx with signatures := sigs }.sanitize = tx.sanitize := rfl

/-- Neither does the payload they cover. -/
theorem TransactionV1.appendSigned_signatures (tx : TransactionV1) (sigs : List Signature) :
    { tx with signatures := sigs }.appendSigned = tx.appendSigned := rfl

end SolanaGo
