/-
The instructions of the Address Lookup Table program: their data, the decoder, and the
address of a table that is created.

Behind a type of four bytes stands the layout of that type. `ExtendLookupTable` carries a
counted list of addresses, and its count is checked twice before the list is made: against
the size of a table and against what is left of the input. The errors of these two checks
are returned as they are; those of the reader are wrapped with the name of the type.
-/
import SolanaGo.Pda

set_option autoImplicit false

namespace SolanaGo.AddressLookupTable

open Codec hiding Decoder
open Bin

/-! ## Values -/

/-- `LookupTableMaxAddresses`. -/
def lookupTableMaxAddresses : ℕ := 256

/-- `type InstructionType uint32`, the values that have a name. -/
inductive InstructionType where
  | createLookupTable
  | freezeLookupTable
  | extendLookupTable
  | deactivateLookupTable
  | closeLookupTable
  deriving DecidableEq

/-- The constants of the types. -/
def InstructionType.ofCode : UInt32 → Option InstructionType
  | 0 => some createLookupTable
  | 1 => some freezeLookupTable
  | 2 => some extendLookupTable
  | 3 => some deactivateLookupTable
  | 4 => some closeLookupTable
  | _ => none

namespace InstructionType

def code : InstructionType → UInt32
  | createLookupTable => 0
  | freezeLookupTable => 1
  | extendLookupTable => 2
  | deactivateLookupTable => 3
  | closeLookupTable => 4

/-- `String`. -/
def string : InstructionType → String
  | createLookupTable => "CreateLookupTable"
  | freezeLookupTable => "FreezeLookupTable"
  | extendLookupTable => "ExtendLookupTable"
  | deactivateLookupTable => "DeactivateLookupTable"
  | closeLookupTable => "CloseLookupTable"

theorem ofCode_eq_some {word : UInt32} {typ : InstructionType} :
    ofCode word = some typ ↔ word = typ.code := by
  constructor
  · intro h
    unfold ofCode at h
    split at h
    all_goals cases h <;> rfl
  · rintro rfl
    cases typ <;> rfl

end InstructionType

/-- The instructions without their accounts: the one non-nil field of `DecodedInstruction`. -/
inductive Fields where
  | createLookupTable (recentSlot : UInt64) (bumpSeed : UInt8)
  | freezeLookupTable
  | extendLookupTable (addresses : List PublicKey)
  | deactivateLookupTable
  | closeLookupTable

/-- An instruction, with the embedded `AccountMetaSlice`. -/
structure Instruction where
  fields : Fields
  accounts : AccountMetaSlice

/-- `ErrTooManyAddresses`, with the count printed. -/
def errTooManyAddresses (count : ℕ) : Err :=
  { msg := "addresslookup: too many addresses: " ++ toString count ++ " > "
      ++ toString lookupTableMaxAddresses }

namespace Fields

/-- `Type` of `DecodedInstruction`. -/
def type : Fields → InstructionType
  | createLookupTable _ _ => .createLookupTable
  | freezeLookupTable => .freezeLookupTable
  | extendLookupTable _ => .extendLookupTable
  | deactivateLookupTable => .deactivateLookupTable
  | closeLookupTable => .closeLookupTable

/-- `Data`. -/
def data : Fields → Except Err Bytes
  | createLookupTable recentSlot bumpSeed =>
    ((((newEncoder []).writeUint32 InstructionType.createLookupTable.code).writeUint64
      recentSlot).writeUint8 bumpSeed).result
  | extendLookupTable addresses =>
    if lookupTableMaxAddresses < addresses.length then
      .error (errTooManyAddresses addresses.length)
    else
      (addresses.foldl (fun e address => e.writePublicKey address)
        (((newEncoder []).writeUint32 InstructionType.extendLookupTable.code).writeUint64
          (UInt64.ofNat addresses.length))).result
  | freezeLookupTable => .ok [InstructionType.freezeLookupTable.code.toUInt8, 0, 0, 0]
  | deactivateLookupTable => .ok [InstructionType.deactivateLookupTable.code.toUInt8, 0, 0, 0]
  | closeLookupTable => .ok [InstructionType.closeLookupTable.code.toUInt8, 0, 0, 0]

/-- What stands behind the type. -/
def body : Fields → Bytes
  | createLookupTable recentSlot bumpSeed => leBytes 8 recentSlot.toNat ++ [bumpSeed]
  | extendLookupTable addresses =>
    leBytes 8 addresses.length ++ addresses.flatMap fun address => address.toList
  | _ => []

/-- There are no more addresses than a table holds. -/
def Fits : Fields → Prop
  | extendLookupTable addresses => addresses.length ≤ lookupTableMaxAddresses
  | _ => True

theorem toNat_length {addresses : List PublicKey}
    (h : addresses.length ≤ lookupTableMaxAddresses) :
    (UInt64.ofNat addresses.length).toNat = addresses.length := by
  exact UInt64.toNat_ofNat_of_lt' (h.trans_lt (by decide))

theorem data_eq_ok {fields : Fields} {bytes : Bytes} : fields.data = .ok bytes
    ↔ fields.Fits ∧ bytes = leBytes 4 fields.type.code.toNat ++ fields.body := by
  have hok : ∀ {bs : Bytes}, (.ok bs : Except Err Bytes) = .ok bytes ↔ True ∧ bytes = bs :=
    ⟨fun h => ⟨trivial, (Except.ok.inj h).symm⟩, fun h => congrArg _ h.2.symm⟩
  cases fields with
  | extendLookupTable addresses =>
    rw [data]
    split
    next hlong => exact iff_of_false (by simp) fun h => absurd h.1 (Nat.not_le.mpr hlong)
    next hfits =>
      have hlen := toNat_length (Nat.not_lt.mp hfits)
      have hwrite : ∀ (key : PublicKey) (e : Encoder),
          e.writePublicKey key = e.append key.toList := fun _ _ => rfl
      rw [Encoder.foldl_write hwrite, Encoder.writeUint64, Encoder.writeUint32,
        Encoder.append_append, Encoder.append_append, Encoder.result_append, hlen, hok]
      exact and_congr_left' (iff_of_true trivial (Nat.not_lt.mp hfits))
  | createLookupTable recentSlot bumpSeed => exact hok
  | _ => exact hok

end Fields

/-! ## The decoder -/

/-- The last check of the reader. -/
def finish (fields : Fields) (dec : Decoder) : Except Err Fields :=
  dec.check ("decode address lookup " ++ fields.type.string ++ ": ") fun _ => .ok fields

/-- The addresses of `ExtendLookupTableInstruction`, behind their count. -/
def decodeAddresses (count : UInt64) (dec : Decoder) : Except Err Fields :=
  if lookupTableMaxAddresses < count.toNat then .error (errTooManyAddresses count.toNat)
  else if dec.remaining < count.toNat * publicKeyLength then
    .error { msg := "decode " ++ toString count ++ " lookup addresses: need "
        ++ toString (count.toNat * publicKeyLength) ++ " bytes, have " ++ toString dec.remaining
        ++ ": " ++ Sentinel.unexpectedEOF.text }
  else
    let (addresses, dec) := dec.readMany Decoder.readPublicKey count.toNat
    finish (.extendLookupTable addresses) dec

/-- The cases of `DecodeInstruction`. -/
def decodeFields : InstructionType → Decoder → Except Err Fields
  | .createLookupTable, dec =>
    let (recentSlot, dec) := dec.readUint64
    let (bumpSeed, dec) := dec.readUint8
    finish (.createLookupTable recentSlot bumpSeed) dec
  | .freezeLookupTable, dec => finish .freezeLookupTable dec
  | .extendLookupTable, dec =>
    let (count, dec) := dec.readUint64
    dec.check "decode address count: " (decodeAddresses count)
  | .deactivateLookupTable, dec => finish .deactivateLookupTable dec
  | .closeLookupTable, dec => finish .closeLookupTable dec

/-- `DecodeInstruction` behind the type. -/
def decodeWord (accounts : AccountMetaSlice) (word : UInt32) (dec : Decoder) :
    Except Err Instruction :=
  match InstructionType.ofCode word with
  | none => .error { msg := "addresslookup: unknown instruction: " ++ toString word }
  | some typ => do
    let fields ← decodeFields typ dec
    return ⟨fields, accounts⟩

/-- `DecodeInstruction`. -/
def decodeInstruction (accounts : AccountMetaSlice) (data : Bytes) : Except Err Instruction :=
  let (word, dec) := (newDecoder data).readUint32
  dec.check "address lookup instruction type: " (decodeWord accounts word)

section Laws

open Decoder

variable {d : Decoder} {fields : Fields}

/-- The decoder accepts what begins with the layout. -/
def Accepts (d : Decoder) (fields : Fields) (typ : InstructionType) : Prop :=
  fields.type = typ ∧ fields.Fits ∧ ∃ tail, d.rest = fields.body ++ tail

theorem finish_eq_ok {f : Fields} : finish f d = .ok fields ↔ d.err = none ∧ f = fields := by
  rw [finish, check_eq_ok, Except.ok.injEq]

theorem createLookupTable_accepts (hnone : d.err = none) :
    decodeFields .createLookupTable d = .ok fields ↔ Accepts d fields .createLookupTable := by
  rw [decodeFields, finish_eq_ok]
  constructor
  · rintro ⟨herr, rfl⟩
    obtain ⟨herr1, -, -, hrest2⟩ := readUint8_reads.accepts Prod.mk.eta.symm herr
    obtain ⟨-, -, -, hrest1⟩ := readUint64_reads.accepts Prod.mk.eta.symm herr1
    refine ⟨rfl, trivial, d.readUint64.2.readUint8.2.rest, ?_⟩
    rw [hrest1, hrest2, Fields.body, List.append_assoc]
  · rintro ⟨htype, -, tail, hrest⟩
    cases fields with
    | createLookupTable recentSlot bumpSeed =>
      rw [Fields.body, List.append_assoc] at hrest
      obtain ⟨d1, hread1, herr1, hrest1, -⟩ := readUint64_reads.next trivial hnone hrest
      rw [hread1]
      dsimp only
      rw [readUint8_reads.inverts trivial herr1 hrest1]
      exact ⟨herr1, rfl⟩
    | _ => exact nomatch htype

theorem decodeAddresses_eq_ok {count : UInt64} (hnone : d.err = none) :
    decodeAddresses count d = .ok fields ↔ ∃ addresses : List PublicKey,
      fields = .extendLookupTable addresses ∧ addresses.length = count.toNat
      ∧ addresses.length ≤ lookupTableMaxAddresses
      ∧ ∃ tail, d.rest = (addresses.flatMap fun address => address.toList) ++ tail := by
  have hmany := readPublicKey_reads.many count.toNat
  unfold decodeAddresses
  split
  next hlong =>
    refine iff_of_false (by simp) ?_
    rintro ⟨addresses, -, hlen, hle, -⟩
    omega
  next hle =>
    split
    next hshort =>
      refine iff_of_false (by simp) ?_
      rintro ⟨addresses, -, hlen, -, tail, hrest⟩
      -- the keys of the list fill what is needed
      have hkeys : (addresses.flatMap fun address => address.toList).length
          = addresses.length * publicKeyLength := by
        simp [List.length_flatMap, publicKeyLength]
      have hall := length_rest d
      rw [hrest, List.length_append, hkeys, hlen] at hall
      omega
    next =>
      show finish (.extendLookupTable (readMany readPublicKey count.toNat d).1) _ = _ ↔ _
      rw [finish_eq_ok]
      constructor
      · rintro ⟨herr, rfl⟩
        obtain ⟨-, ⟨hlen, -⟩, -, hrest⟩ := hmany.accepts rfl herr
        exact ⟨_, rfl, hlen, by omega, _, hrest⟩
      · rintro ⟨addresses, rfl, hlen, -, tail, hrest⟩
        rw [hmany.inverts ⟨hlen, fun _ _ => trivial⟩ hnone hrest]
        exact ⟨hnone, rfl⟩

theorem extendLookupTable_accepts (hnone : d.err = none) :
    decodeFields .extendLookupTable d = .ok fields ↔ Accepts d fields .extendLookupTable := by
  show (d.readUint64).2.check _ (decodeAddresses d.readUint64.1) = _ ↔ _
  rw [readUint64_reads.check_eq_ok]
  constructor
  · rintro ⟨count, d', -, -, hd, hrest, hnext⟩
    obtain ⟨addresses, rfl, hlen, hle, tail, htail⟩ :=
      (decodeAddresses_eq_ok (hd ▸ hnone)).mp hnext
    refine ⟨rfl, hle, tail, ?_⟩
    rw [hrest, htail, Fields.body, hlen, List.append_assoc]
  · rintro ⟨htype, hle, tail, hrest⟩
    cases fields with
    | extendLookupTable addresses =>
      have hcount := Fields.toNat_length hle
      rw [Fields.body, List.append_assoc, ← hcount] at hrest
      obtain ⟨d', -, herr, hrest', hd⟩ := readUint64_reads.next trivial hnone hrest
      exact ⟨_, d', trivial, hnone, hd, hrest' ▸ hrest,
        (decodeAddresses_eq_ok herr).mpr ⟨addresses, rfl, hcount.symm, hle, tail, hrest'⟩⟩
    | _ => exact nomatch htype

theorem decodeFields_eq_ok (typ : InstructionType) (hnone : d.err = none) :
    decodeFields typ d = .ok fields ↔ Accepts d fields typ := by
  cases typ with
  | createLookupTable => exact createLookupTable_accepts hnone
  | extendLookupTable => exact extendLookupTable_accepts hnone
  | _ =>
    rw [decodeFields, finish_eq_ok]
    cases fields <;> simp [hnone, Accepts, Fields.type, Fields.Fits, Fields.body]

theorem decodeWord_eq_ok {accounts : AccountMetaSlice} {word : UInt32} {inst : Instruction}
    (hnone : d.err = none) : decodeWord accounts word d = .ok inst ↔ inst.accounts = accounts
      ∧ word = inst.fields.type.code ∧ inst.fields.Fits
      ∧ ∃ tail, d.rest = inst.fields.body ++ tail := by
  unfold decodeWord
  split
  next hword =>
    -- the word is that of no type
    refine iff_of_false (by simp) ?_
    rintro ⟨-, hcode, -⟩
    rw [InstructionType.ofCode_eq_some.mpr hcode] at hword
    exact nomatch hword
  next typ hword =>
    rw [bind_eq_ok]
    constructor
    · rintro ⟨fields, hfields, hinst⟩
      obtain rfl := Except.ok.inj hinst
      obtain ⟨rfl, haccepts⟩ := (decodeFields_eq_ok typ hnone).mp hfields
      exact ⟨rfl, InstructionType.ofCode_eq_some.mp hword, haccepts⟩
    · rintro ⟨rfl, hcode, haccepts⟩
      have htype : inst.fields.type = typ := Option.some.inj
        ((InstructionType.ofCode_eq_some.mpr hcode).symm.trans hword)
      exact ⟨_, (decodeFields_eq_ok typ hnone).mpr ⟨htype, haccepts⟩, rfl⟩

theorem decodeInstruction_eq (accounts : AccountMetaSlice) (data : Bytes) :
    decodeInstruction accounts data = (newDecoder data).readUint32.2.check
      "address lookup instruction type: " (decodeWord accounts (newDecoder data).readUint32.1) :=
  rfl

/-- What `Data` wrote is read back, with anything behind it. -/
theorem decodeInstruction_data {inst : Instruction} {bytes : Bytes}
    (hdata : inst.fields.data = .ok bytes) (tail : Bytes) :
    decodeInstruction inst.accounts (bytes ++ tail) = .ok inst := by
  obtain ⟨hfits, rfl⟩ := Fields.data_eq_ok.mp hdata
  rw [List.append_assoc, decodeInstruction_eq]
  apply readUint32_reads.check_eq_ok.mpr
  exact ⟨inst.fields.type.code, _, trivial, rfl, rfl, rfl,
    (decodeWord_eq_ok rfl).mpr ⟨rfl, rfl, hfits, tail, rfl⟩⟩

/-- **The decoder is the inverse of `Data`.** It returns an instruction exactly for the bytes that
`Data` writes for it, with anything behind them, and with the accounts it is given. A list of
addresses that `Data` refuses is never returned. -/
theorem addressLookupTable_decode_iff (accounts : AccountMetaSlice) (data : Bytes)
    (inst : Instruction) : decodeInstruction accounts data = .ok inst ↔ inst.accounts = accounts
      ∧ ∃ bytes tail, inst.fields.data = .ok bytes ∧ data = bytes ++ tail := by
  constructor
  · rw [decodeInstruction_eq, readUint32_reads.check_eq_ok]
    rintro ⟨word, d, -, -, hd, hrest, hnext⟩
    have hnone : d.err = none := hd ▸ rfl
    obtain ⟨haccounts, rfl, hfits, tail, htail⟩ := (decodeWord_eq_ok hnone).mp hnext
    refine ⟨haccounts, _, tail, Fields.data_eq_ok.mpr ⟨hfits, rfl⟩, ?_⟩
    rw [List.append_assoc, ← htail]
    exact hrest
  · rintro ⟨rfl, bytes, tail, hdata, rfl⟩
    exact decodeInstruction_data hdata tail

end Laws

/-! ## Creation -/

/-- `ProgramID`: `AddressLookupTab1e1111111111111111111111111`. -/
def programID : PublicKey :=
  ⟨[2, 119, 166, 175, 151, 51, 155, 122, 200, 141, 24, 146, 201, 4, 70, 245, 0, 2, 48, 146, 102,
    246, 46, 83, 193, 24, 36, 73, 130, 0, 0, 0], rfl⟩

/-- `DeriveLookupTableAddress`. -/
def deriveLookupTableAddress (prims : AddressPrimitives) (authority : PublicKey)
    (recentSlot : UInt64) : Except Err (PublicKey × UInt8) :=
  findProgramAddress prims programID [authority.toList, leBytes 8 recentSlot.toNat]

/-- The accounts of `CreateLookupTable`. -/
def createAccounts (authority payer lookupTable : PublicKey) : AccountMetaSlice :=
  [newAccountMeta lookupTable true false, newAccountMeta authority false true,
    newAccountMeta payer true true, newAccountMeta systemProgramID false false]

/-- `NewCreateLookupTableInstruction`. -/
def newCreateLookupTableInstruction (prims : AddressPrimitives) (authority payer : PublicKey)
    (recentSlot : UInt64) : Except Err (Instruction × PublicKey) := do
  let (lookupTable, bumpSeed) ← wrapErr "derive lookup table address: "
    (deriveLookupTableAddress prims authority recentSlot)
  return (⟨.createLookupTable recentSlot bumpSeed, createAccounts authority payer lookupTable⟩,
    lookupTable)

/-- **The address of a created table is derived from what its instruction carries.** The slot and
the bump that are read back from the data, with the authority, give the address of the first
account, and no larger bump gives any. -/
theorem newCreateLookupTableInstruction_iff (prims : AddressPrimitives)
    (authority payer lookupTable : PublicKey) (recentSlot : UInt64) (inst : Instruction) :
    newCreateLookupTableInstruction prims authority payer recentSlot = .ok (inst, lookupTable)
      ↔ ∃ bump bytes, inst.fields.data = .ok bytes
        ∧ (∀ tail, decodeInstruction inst.accounts (bytes ++ tail)
          = .ok ⟨.createLookupTable recentSlot bump, createAccounts authority payer lookupTable⟩)
        ∧ 1 ≤ bump ∧ createProgramAddress prims programID
          [authority.toList, leBytes 8 recentSlot.toNat, [bump]] = .ok lookupTable
        ∧ ∀ higher : UInt8, bump < higher → ∀ address, createProgramAddress prims programID
          [authority.toList, leBytes 8 recentSlot.toNat, [higher]] ≠ .ok address := by
  have hfind := findProgramAddress_eq_ok prims programID
    [authority.toList, leBytes 8 recentSlot.toNat] lookupTable
  unfold newCreateLookupTableInstruction
  simp only [bind_eq_ok, wrapErr_eq_ok]
  constructor
  · rintro ⟨⟨found, bump⟩, hfound, hinst⟩
    obtain ⟨rfl, rfl⟩ := Prod.mk.inj (Except.ok.inj hinst)
    exact ⟨bump, _, rfl, decodeInstruction_data rfl, (hfind bump).mp hfound⟩
  · rintro ⟨bump, bytes, hdata, hdecode, hbump⟩
    -- the bytes decode to what they were written for
    obtain rfl := Except.ok.inj ((decodeInstruction_data hdata []).symm.trans (hdecode []))
    exact ⟨(lookupTable, bump), (hfind bump).mpr hbump, rfl⟩

end SolanaGo.AddressLookupTable
