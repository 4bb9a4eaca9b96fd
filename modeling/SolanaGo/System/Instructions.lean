/-
The `CreateAccount` instruction of the System program: its data, and the instruction itself.
-/
import SolanaGo.Instructions

set_option autoImplicit false

namespace SolanaGo.System

open Codec hiding Decoder
open Bin

/-! ## Types -/

/-- `type InstructionType uint32`. -/
inductive InstructionType where
  | createAccount
  | assign
  | transfer
  | createAccountWithSeed
  | advanceNonceAccount
  | withdrawNonceAccount
  | initializeNonceAccount
  | authorizeNonceAccount
  | allocate
  | allocateWithSeed
  | assignWithSeed
  | transferWithSeed
  | upgradeNonceAccount
  | createAccountAllowPrefund
  deriving DecidableEq

namespace InstructionType

/-- The constants of the types. -/
def code : InstructionType → UInt32
  | createAccount => 0
  | assign => 1
  | transfer => 2
  | createAccountWithSeed => 3
  | advanceNonceAccount => 4
  | withdrawNonceAccount => 5
  | initializeNonceAccount => 6
  | authorizeNonceAccount => 7
  | allocate => 8
  | allocateWithSeed => 9
  | assignWithSeed => 10
  | transferWithSeed => 11
  | upgradeNonceAccount => 12
  | createAccountAllowPrefund => 13

end InstructionType

/-! ## Instructions -/

/-- `type CreateAccount struct`. -/
@[ext] structure CreateAccount where
  lamports : UInt64
  space : UInt64
  owner : PublicKey
  accounts : AccountMetaSlice
  deriving DecidableEq

/-! ## Data -/

/-- `Data`. -/
def CreateAccount.data (inst : CreateAccount) : Except Err Bytes :=
  let enc := newEncoder []
  let enc := enc.writeUint32 InstructionType.createAccount.code
  let enc := enc.writeUint64 inst.lamports
  let enc := enc.writeUint64 inst.space
  let enc := enc.writePublicKey inst.owner
  enc.result

/-- A `*CreateAccount` as an `Instruction`. -/
def CreateAccount.instruction (inst : CreateAccount) : SolanaGo.Instruction where
  programID := systemProgramID
  accounts := inst.accounts
  data := inst.data

/-- `NewCreateAccountInstruction`. -/
def newCreateAccountInstruction (lamports space : UInt64)
    (owner fundingAccount newAccount : PublicKey) : CreateAccount where
  lamports
  space
  owner
  accounts := [newAccountMeta fundingAccount true true, newAccountMeta newAccount true true]

end SolanaGo.System
