/-
The compact form of vote state updates and tower syncs: the writer and the reader.

The compact form writes the slots of the lockouts as differences: the first one from
the root, or from zero if there is none, and each other one from its predecessor. An
absent root is written as the all-ones slot, and the reader turns that slot into an
absent root again. A slot below its predecessor, a count past one byte and a list past
`MaxLockoutHistory` are refused by the writer; the reader refuses a difference that
leaves the range of slots.

A failed write or read returns its error at once (`thenWrite`, `thenRead`,
`checkErr`), with the encoder or decoder as it is then.
-/
import SolanaGo.Bin.Varint

set_option autoImplicit false

namespace SolanaGo.Vote

open Codec hiding Decoder
open Bin

/-! ## Values -/

/-- `MaxLockoutHistory`. -/
def maxLockoutHistory : ℕ := 31

/-- `math.MaxUint64`. -/
def maxUint64 : UInt64 := 18446744073709551615

/-- `type Lockout struct`. -/
structure Lockout where
  slot : UInt64
  confirmationCount : UInt32
  deriving DecidableEq

/-- `type VoteStateUpdate struct`. -/
@[ext] structure VoteStateUpdate where
  lockouts : List Lockout := []
  root : Option UInt64 := none
  hash : Hash := ByteArr.zero 32
  timestamp : Option Int64 := none
  deriving DecidableEq

/-- `type TowerSyncUpdate struct`. -/
@[ext] structure TowerSyncUpdate where
  lockouts : List Lockout := []
  root : Option UInt64 := none
  hash : Hash := ByteArr.zero 32
  timestamp : Option Int64 := none
  blockID : Hash := ByteArr.zero 32
  deriving DecidableEq

/-! ## Types of instructions -/

/-- `type InstructionType uint32`. -/
inductive InstructionType where
  | initializeAccount
  | authorize
  | vote
  | withdraw
  | updateValidatorIdentity
  | updateCommission
  | voteSwitch
  | authorizeChecked
  | updateVoteState
  | updateVoteStateSwitch
  | authorizeWithSeed
  | authorizeCheckedWithSeed
  | compactUpdateVoteState
  | compactUpdateVoteStateSwitch
  | towerSync
  | towerSyncSwitch
  | initializeAccountV2
  | updateCommissionCollector
  | updateCommissionBps
  | depositDelegatorRewards
  deriving DecidableEq

namespace InstructionType

/-- The cases of the decoder. -/
def ofCode : UInt32 → Option InstructionType
  | 0 => some initializeAccount
  | 1 => some authorize
  | 2 => some vote
  | 3 => some withdraw
  | 4 => some updateValidatorIdentity
  | 5 => some updateCommission
  | 6 => some voteSwitch
  | 7 => some authorizeChecked
  | 8 => some updateVoteState
  | 9 => some updateVoteStateSwitch
  | 10 => some authorizeWithSeed
  | 11 => some authorizeCheckedWithSeed
  | 12 => some compactUpdateVoteState
  | 13 => some compactUpdateVoteStateSwitch
  | 14 => some towerSync
  | 15 => some towerSyncSwitch
  | 16 => some initializeAccountV2
  | 17 => some updateCommissionCollector
  | 18 => some updateCommissionBps
  | 19 => some depositDelegatorRewards
  | _ => none

end InstructionType

/-! ## Errors -/

/-- `ErrTooManyLockouts`, with the count printed. -/
def errTooManyLockouts (count : ℕ) : Err :=
  { msg := "vote: too many lockouts: " ++ toString count ++ " > " ++ toString maxLockoutHistory }

/-- `ErrInvalidConfirmationCount`, with the count printed. -/
def errInvalidConfirmationCount (count : UInt32) : Err :=
  { msg := "vote: confirmation count exceeds compact u8: " ++ toString count }

/-- `ErrSlotOverflow`. -/
def errSlotOverflow : Err := { msg := "vote: compact slot delta overflow" }

/-- `ErrInvalidLockoutOrder`, with the two slots printed. -/
def errInvalidLockoutOrder (slot previous : UInt64) : Err :=
  { msg := "vote: lockout slots must not decrease: " ++ toString slot ++ " after "
      ++ toString previous }

/-- The error of the early length check of `decodeCompact`. -/
def errTruncatedCompact : Err :=
  { msg := "vote: truncated compact lockouts: " ++ Sentinel.unexpectedEOF.text }

/-! ## Writing -/

/-- `validate`. -/
def VoteStateUpdate.validate (update : VoteStateUpdate) : Option Err :=
  if maxLockoutHistory < update.lockouts.length then
    some (errTooManyLockouts update.lockouts.length)
  else none

/-- `if err != nil { return err }` behind a write. -/
def thenWrite (written : Option Err × Encoder) (next : Encoder → Option Err × Encoder) :
    Option Err × Encoder :=
  match written with
  | (some err, enc) => (some err, enc)
  | (none, enc) => next enc

/-- The loop of `writeCompact`. -/
def writeLockouts : List Lockout → (previous : UInt64) → Encoder → Option Err × Encoder
  | [], _, enc => (none, enc)
  | lockout :: lockouts, previous, enc =>
    if lockout.slot < previous then (some (errInvalidLockoutOrder lockout.slot previous), enc)
    else
      let delta := lockout.slot - previous
      if 255 < lockout.confirmationCount then
        (some (errInvalidConfirmationCount lockout.confirmationCount), enc)
      else
        let enc := enc.writeVarUint64 delta
        let enc := enc.writeUint8 lockout.confirmationCount.toUInt8
        writeLockouts lockouts lockout.slot enc

/-- The end of `writeCompact`: the hash and the timestamp. -/
def VoteStateUpdate.writeTail (update : VoteStateUpdate) (enc : Encoder) : Option Err × Encoder :=
  let enc := enc.writeHash update.hash
  let enc := enc.writeOption update.timestamp.isSome
  let enc := match update.timestamp with
    | some timestamp => enc.writeInt64 timestamp
    | none => enc
  enc.errOf

/-- `writeCompact`. -/
def VoteStateUpdate.writeCompact (update : VoteStateUpdate) (enc : Encoder) :
    Option Err × Encoder :=
  thenWrite (update.validate, enc) fun enc =>
    let root := update.root.getD maxUint64
    let enc := enc.writeUint64 root
    let enc := enc.writeCompactU16 update.lockouts.length
    let previous := update.root.getD 0
    thenWrite (writeLockouts update.lockouts previous enc) update.writeTail

/-- The vote state update inside a tower sync. -/
def TowerSyncUpdate.update (sync : TowerSyncUpdate) : VoteStateUpdate where
  lockouts := sync.lockouts
  root := sync.root
  hash := sync.hash
  timestamp := sync.timestamp

/-- `TowerSyncUpdate.write`. -/
def TowerSyncUpdate.write (sync : TowerSyncUpdate) (enc : Encoder) : Option Err × Encoder :=
  thenWrite (sync.update.writeCompact enc) fun enc => (enc.writeHash sync.blockID).errOf

/-! ## Reading -/

section Reading

variable {α β : Type}

/-- `if err != nil { return err }` behind a call. -/
def thenRead (read : Except Err α × Decoder) (next : α → Decoder → Except Err β × Decoder) :
    Except Err β × Decoder :=
  match read with
  | (.error err, dec) => (.error err, dec)
  | (.ok a, dec) => next a dec

/-- `if err := dec.Err(); err != nil { return err }`. -/
def checkErr (dec : Decoder) (next : Decoder → Except Err β × Decoder) : Except Err β × Decoder :=
  match dec.errOf with
  | (some err, dec) => (.error err, dec)
  | (none, dec) => next dec

end Reading

/-- The loop of `decodeCompact`. -/
def decodeLockouts : (count : ℕ) → (previous : UInt64) → Decoder →
    Except Err (List Lockout) × Decoder
  | 0, _, dec => (.ok [], dec)
  | count + 1, previous, dec =>
    let (delta, dec) := dec.readVarUint64
    let (confirmation, dec) := dec.readUint8
    checkErr dec fun dec =>
      if maxUint64 - previous < delta then (.error errSlotOverflow, dec)
      else
        let previous := previous + delta
        thenRead (decodeLockouts count previous dec) fun lockouts dec =>
          (.ok (⟨previous, confirmation.toUInt32⟩ :: lockouts), dec)

/-- The timestamp of `decodeCompact`, into a field that holds `old`. -/
def decodeTimestamp (old : Option Int64) (dec : Decoder) : Option Int64 × Decoder :=
  let (present, dec) := dec.readOption
  if present then
    let (timestamp, dec) := dec.readInt64
    (some timestamp, dec)
  else (old, dec)

/-- `decodeCompact`, into the receiver `value`. -/
def VoteStateUpdate.decodeCompact (value : VoteStateUpdate) (dec : Decoder) :
    Except Err VoteStateUpdate × Decoder :=
  let (root, dec) := dec.readUint64
  let (count, dec) := dec.readCompactU16
  checkErr dec fun dec =>
    if maxLockoutHistory < count then (.error (errTooManyLockouts count), dec)
    else if dec.remaining < count * 2 + 33 then (.error errTruncatedCompact, dec)
    else
      let valueRoot := if root ≠ maxUint64 then some root else value.root
      let previous := if valueRoot.isSome then root else 0
      thenRead (decodeLockouts count previous dec) fun lockouts dec =>
        let (hash, dec) := dec.readHash
        let (timestamp, dec) := decodeTimestamp value.timestamp dec
        checkErr dec fun dec => (.ok { lockouts, root := valueRoot, hash, timestamp }, dec)

/-- `TowerSyncUpdate.decode`. -/
def TowerSyncUpdate.decode (dec : Decoder) : Except Err TowerSyncUpdate × Decoder :=
  thenRead (VoteStateUpdate.decodeCompact {} dec) fun update dec =>
    let (blockID, dec) := dec.readHash
    checkErr dec fun dec =>
      (.ok { lockouts := update.lockouts, root := update.root, hash := update.hash,
             timestamp := update.timestamp, blockID }, dec)

end SolanaGo.Vote
