/-
What the decoders of the program packages allocate for a given input.

`made` of a decoder is the list of the lists it makes, each with its size and with the number of
bytes that are left when it is made. It is computed from the reads in front of each `make`,
whether or not the rest of the input can be read.

# The count, which is the trap

The Vote and the Address Lookup Table decoders compare a count with what is left before they
make the list (`checkedMake`), and the Token-2022 lists grow by one element for bytes that were
read. `Data.decode` of Token Metadata makes its list of creators first and reads it afterwards.

A `make` leaves no trace in what a decoder returns, so `made` is a function beside the decoder.
The last section ties the two together: where a decoder succeeds, the lists of what it returns
have the sizes in `made`.
-/
import SolanaGo.AddressLookupTable
import SolanaGo.Token2022.AccountData
import SolanaGo.Token2022.RangeData
import SolanaGo.TokenMetadata.Layouts
import SolanaGo.Vote.Compact

set_option autoImplicit false

namespace SolanaGo

open Codec hiding Decoder
open Bin

/-- A list that a decoder makes: its number of elements, and the number of bytes that are left
of the input when it is made. -/
structure Make where
  size : ℕ
  left : ℕ
  deriving DecidableEq

/-- The list is no longer than what is left, and that is part of the input. -/
def Make.Within (data : Bytes) (list : Make) : Prop :=
  list.size ≤ list.left ∧ list.left ≤ data.length

/-! ## Counts that are checked -/

/-- The list that is made for a count: none behind an error, for a count past `limit`, or if
less is left than `width` bytes for each element and `more` behind them. -/
def checkedMake (limit width more : ℕ) (counted : ℕ × Decoder) : List Make :=
  if counted.2.err.isSome ∨ limit < counted.1
      ∨ counted.2.remaining < counted.1 * width + more then []
  else [⟨counted.1, counted.2.remaining⟩]

/-- A `DecodeInstruction` that tells the types apart by a word. -/
def madeByWord {T : Type} (ofCode : UInt32 → Option T) (made : T → Decoder → List Make)
    (data : Bytes) : List Make :=
  let (code, dec) := (newDecoder data).readUint32
  if dec.err.isSome then []
  else
    match ofCode code with
    | none => []
    | some typ => made typ dec

namespace Vote

/-- `VoteData.decode`. -/
def VoteData.made (dec : Decoder) : List Make :=
  let (count, dec) := dec.readUint64
  checkedMake maxLockoutHistory 8 33 (count.toNat, dec)

/-- `VoteStateUpdate.decode`. -/
def VoteStateUpdate.made (dec : Decoder) : List Make :=
  let (count, dec) := dec.readUint64
  checkedMake maxLockoutHistory 12 34 (count.toNat, dec)

/-- `decodeCompact`. -/
def VoteStateUpdate.madeCompact (dec : Decoder) : List Make :=
  let (_, dec) := dec.readUint64
  checkedMake maxLockoutHistory 2 33 dec.readCompactU16

/-- The cases of `DecodeInstruction`. -/
def InstructionType.made : InstructionType → Decoder → List Make
  | vote, dec => VoteData.made dec
  | voteSwitch, dec => VoteData.made dec
  | updateVoteState, dec => VoteStateUpdate.made dec
  | updateVoteStateSwitch, dec => VoteStateUpdate.made dec
  | compactUpdateVoteState, dec => VoteStateUpdate.madeCompact dec
  | compactUpdateVoteStateSwitch, dec => VoteStateUpdate.madeCompact dec
  | towerSync, dec => VoteStateUpdate.madeCompact dec
  | towerSyncSwitch, dec => VoteStateUpdate.madeCompact dec
  | _, _ => []

/-- `DecodeInstruction`. -/
def made : Bytes → List Make := madeByWord InstructionType.ofCode InstructionType.made

end Vote

namespace AddressLookupTable

/-- The cases of `DecodeInstruction`. -/
def InstructionType.made : InstructionType → Decoder → List Make
  | extendLookupTable, dec =>
    let (count, dec) := dec.readUint64
    checkedMake lookupTableMaxAddresses publicKeyLength 0 (count.toNat, dec)
  | _, _ => []

/-- `DecodeInstruction`. -/
def made : Bytes → List Make := madeByWord InstructionType.ofCode InstructionType.made

end AddressLookupTable

/-! ## Lists that grow

These lists have no count in the input. Each element is appended behind the bytes it was read
from, so what is left is taken in front of the first read. -/

namespace Token2022

/-- The number of elements that the loop of `decodeExtensions` appends, also in front of an
entry that cannot be read. Each turn that appends moves over four bytes or more. -/
def extensionsMade : (turns : ℕ) → Decoder → ℕ
  | 0, _ => 0
  | turns + 1, dec =>
    if dec.remaining < 2 then 0
    else
      let (typ, dec) := dec.readUint16
      if dec.err.isSome ∨ typ = extensionUninitialized then 0
      else
        let (size, dec) := dec.readUint16
        let (_, dec) := dec.readBytes size.toNat
        if dec.err.isSome then 0 else extensionsMade turns dec + 1

/-- The extensions of `DecodeMint` and `DecodeAccount`, behind a base record of `size` bytes
that can be read. -/
def madeBehind (size : ℕ) (baseOk : Bool) (data : Bytes) : List Make :=
  if data.length = size ∨ data.length < Token.accountSize + 1 ∨ ¬baseOk then []
  else
    let dec := newDecoder (data.drop (Token.accountSize + 1))
    [⟨extensionsMade dec.remaining dec, dec.remaining⟩]

/-- `DecodeMint`. -/
def madeMint (data : Bytes) : List Make :=
  madeBehind Token.mintSize (Token.decodeMint (data.take Token.mintSize) ⟨[]⟩).1.isOk data

/-- `DecodeAccount`. -/
def madeAccount (data : Bytes) : List Make :=
  madeBehind Token.accountSize (Token.decodeAccount (data.take Token.accountSize)).isOk data

/-- `GetAccountDataSizeInstruction`. -/
def getAccountDataSizeInstruction : UInt8 := 21

/-- The loop of `GetAccountDataSize`, for at most `turns` turns. Each turn that is taken moves
over two bytes. -/
def readExtensionTypes : (turns : ℕ) → Decoder → List UInt16 × Decoder
  | 0, dec => ([], dec)
  | turns + 1, dec =>
    if 2 ≤ dec.remaining then
      let (typ, dec) := dec.readUint16
      let (types, dec) := readExtensionTypes turns dec
      (typ :: types, dec)
    else ([], dec)

/-- `DecodeInstruction`. -/
def made : Bytes → List Make
  | [] => []
  | code :: body =>
    if code = getAccountDataSizeInstruction then
      let dec := newDecoder body
      [⟨(readExtensionTypes dec.remaining dec).1.length, dec.remaining⟩]
    else []

/-- `parseRangeInnerProductProof`: two lists, sized by the length of the input. -/
def madeInnerProduct (data : Bytes) : List Make :=
  let logSize := (data.length / 32 - 2) / 2
  if data.length % 32 ≠ 0 ∨ data.length < 64 ∨ (data.length / 32 - 2) % 2 ≠ 0 ∨ 32 ≤ logSize then []
  else [⟨logSize, data.length⟩, ⟨logSize, data.length⟩]

end Token2022

/-! ## Counts that are not checked -/

namespace TokenMetadata

/-- `Data.decode`: the size passed to `make` is the count as it was read. -/
def Data.made (dec : Decoder) : List Make :=
  let (_, dec) := dec.readBorshString
  let (_, dec) := dec.readBorshString
  let (_, dec) := dec.readBorshString
  let (_, dec) := dec.readUint16
  let (present, dec) := dec.readOption
  if present then
    let (count, dec) := dec.readUint32
    [⟨count.toNat, dec.remaining⟩]
  else []

/-- The cases of `DecodeInstruction`. -/
def InstructionType.made : InstructionType → Decoder → List Make
  | createMetadataAccount, dec => Data.made dec
  | createMetadataAccountV2, dec => Data.made dec
  | updateMetadataAccount, dec =>
    let (present, dec) := dec.readOption
    if present then Data.made dec else []
  | updateMetadataAccountV2, dec =>
    let (present, dec) := dec.readOption
    if present then Data.made dec else []
  | _, _ => []

/-- `DecodeInstruction`. -/
def made (data : Bytes) : List Make :=
  let (code, dec) := (newDecoder data).readUint8
  if dec.err.isSome then []
  else
    match InstructionType.ofCode code with
    | none => []
    | some typ => typ.made dec

/-- `DecodeMetadata`. -/
def madeMetadata (data : Bytes) : List Make :=
  let (_, dec) := (newDecoder data).readUint8
  let (_, dec) := dec.readPublicKey
  let (_, dec) := dec.readPublicKey
  Data.made dec

end TokenMetadata

/-! ## The lists of what is returned

For the decoders that are modelled in full: a decoder that succeeds returns lists of exactly the
sizes that it made. -/

section Returned

attribute [local irreducible] Decoder.readUint64 Decoder.readUint32 Decoder.readCompactU16
  Decoder.readOption Decoder.readBool Decoder.readHash Decoder.readBorshString

theorem checkedMake_sizes {limit width more count : ℕ} {dec : Decoder} (herr : dec.err = none)
    (hlimit : ¬limit < count) (hleft : ¬dec.remaining < count * width + more) :
    (checkedMake limit width more (count, dec)).map Make.size = [count] := by
  unfold checkedMake
  rw [if_neg]
  · rfl
  · simp [herr, hlimit, hleft]

namespace Vote

variable {dec dec' : Decoder}

theorem length_decodeLockouts {count : ℕ} {previous : UInt64} {lockouts : List Lockout}
    (h : decodeLockouts count previous dec = (.ok lockouts, dec')) : lockouts.length = count := by
  induction count generalizing previous dec lockouts dec' with
  | zero =>
    obtain rfl := Except.ok.inj (Prod.mk.inj h).1
    rfl
  | succ count ih =>
    unfold decodeLockouts at h
    obtain ⟨-, h⟩ := checkErr_eq_ok.mp h
    split at h
    · simp at h
    · obtain ⟨rest, decRest, hrest, hcons⟩ := thenRead_eq_ok.mp h
      obtain rfl := Except.ok.inj (Prod.mk.inj hcons).1
      rw [List.length_cons, ih hrest]

theorem madeCompact_of_decodeCompact {value update : VoteStateUpdate}
    (h : value.decodeCompact dec = (.ok update, dec')) :
    (VoteStateUpdate.madeCompact dec).map Make.size = [update.lockouts.length] := by
  unfold VoteStateUpdate.decodeCompact at h
  obtain ⟨herr, h⟩ := checkErr_eq_ok.mp h
  split at h
  · simp at h
  next hlimit =>
  split at h
  · simp at h
  next hleft =>
  obtain ⟨lockouts, _, hlockouts, h⟩ := thenRead_eq_ok.mp h
  obtain ⟨-, hupdate⟩ := checkErr_eq_ok.mp h
  obtain rfl := Except.ok.inj (Prod.mk.inj hupdate).1
  dsimp only
  rw [length_decodeLockouts hlockouts]
  exact checkedMake_sizes herr hlimit hleft

/-- What `TowerSyncUpdate.decode` makes is what it returns. -/
theorem madeCompact_of_decode {sync : TowerSyncUpdate}
    (h : TowerSyncUpdate.decode dec = (.ok sync, dec')) :
    (VoteStateUpdate.madeCompact dec).map Make.size = [sync.lockouts.length] := by
  unfold TowerSyncUpdate.decode at h
  obtain ⟨update, _, hupdate, h⟩ := thenRead_eq_ok.mp h
  obtain ⟨-, hsync⟩ := checkErr_eq_ok.mp h
  obtain rfl := Except.ok.inj (Prod.mk.inj hsync).1
  exact madeCompact_of_decodeCompact hupdate

end Vote

namespace AddressLookupTable

/-- The lengths of the lists of an instruction. -/
def Fields.lengths : Fields → List ℕ
  | extendLookupTable addresses => [addresses.length]
  | _ => []

/-- What the decoder makes is what it returns. -/
theorem made_of_decodeInstruction {accounts : AccountMetaSlice} {data : Bytes}
    {inst : Instruction} (h : decodeInstruction accounts data = .ok inst) :
    (made data).map Make.size = inst.fields.lengths := by
  rw [decodeInstruction_eq] at h
  obtain ⟨herr, hword⟩ := Decoder.check_eq_ok.mp h
  obtain ⟨-, hcode, hfits, tail, hrest⟩ := (decodeWord_eq_ok herr).mp hword
  unfold made madeByWord
  dsimp only
  rw [herr, InstructionType.ofCode_eq_some.mpr hcode, if_neg (by simp)]
  dsimp only
  obtain ⟨fields, metas⟩ := inst
  cases fields with
  | extendLookupTable addresses =>
    have hcount := Fields.toNat_length hfits
    rw [Fields.body, List.append_assoc, ← hcount] at hrest
    obtain ⟨dec, hread, herr', hrest', -⟩ := Decoder.readUint64_reads.next trivial herr hrest
    have hleft := Decoder.length_rest dec
    rw [hrest', List.length_append] at hleft
    have hkeys : (addresses.flatMap fun address => address.toList).length
        = addresses.length * publicKeyLength := by
      simp [List.length_flatMap, publicKeyLength]
    unfold InstructionType.made Fields.type
    dsimp only
    rw [hread]
    dsimp only
    rw [hcount]
    exact checkedMake_sizes herr' (Nat.not_lt.mpr hfits) (by omega)
  | _ => rfl

end AddressLookupTable

namespace TokenMetadata

/-- `Data.decode` returns the list that it makes, of whatever decoder. -/
theorem Data.made_eq (dec : Decoder) :
    (Data.made dec).map Make.size = ((Data.decode dec).1.creators.map List.length).toList := by
  unfold Data.made Data.decode Decoder.readOptional
  dsimp only
  split
  · unfold decodeCreators
    simp only [List.map_cons, List.map_nil, Option.map_some, Option.toList_some,
      Decoder.length_readMany]
  · rfl

theorem readOptional_fst {α : Type} (read : Decoder → α × Decoder) (dec : Decoder) :
    (dec.readOptional read).1
      = if dec.readOption.1 then some (read dec.readOption.2).1 else none := by
  unfold Decoder.readOptional
  dsimp only
  split
  · rfl
  · rfl

attribute [local irreducible] Data.decode Data.made Decoder.readOptional

/-- The creators of an instruction. -/
def DecodedInstruction.creators (out : DecodedInstruction) : Option (List Creator) :=
  (out.createMetadataAccount.bind fun inst => inst.args.data.creators)
  <|> (out.createMetadataAccountV2.bind fun inst => inst.args.data.data.creators)
  <|> (out.updateMetadataAccount.bind fun inst => inst.args.data.bind fun data => data.creators)
  <|> (out.updateMetadataAccountV2.bind fun inst =>
      inst.args.data.bind fun data => data.data.creators)

theorem InstructionType.made_of_readFields {accounts : AccountMetaSlice} {dec dec' : Decoder}
    {typ : InstructionType} {out : DecodedInstruction}
    (h : readFields accounts dec typ = some (out, dec')) :
    (typ.made dec).map Make.size = (out.creators.map List.length).toList := by
  cases typ with
  | createMetadataAccount | createMetadataAccountV2 =>
    obtain rfl := (Prod.mk.inj (Option.some.inj h)).1
    show (Data.made dec).map Make.size = _
    rw [Data.made_eq]
    simp [DecodedInstruction.creators]
  | updateMetadataAccount | updateMetadataAccountV2 =>
    obtain rfl := (Prod.mk.inj (Option.some.inj h)).1
    cases hpresent : dec.readOption.1 with
    | false => simp [InstructionType.made, DecodedInstruction.creators, hpresent, readOptional_fst]
    | true =>
      simp [InstructionType.made, DecodedInstruction.creators, hpresent, readOptional_fst,
        Data.made_eq, DataV2.decode]
  | updatePrimarySaleHappenedViaToken | signMetadata | createMasterEdition | puffMetadata
  | createMasterEditionV3 | verifyCollection | unverifyCollection =>
    obtain rfl := (Prod.mk.inj (Option.some.inj h)).1
    rfl
  | _ => cases h

/-- What the decoder makes is what it returns, or nothing for the types it does not read. -/
theorem made_of_decodeInstruction {accounts : AccountMetaSlice} {data : Bytes}
    {out : DecodedInstruction} (h : decodeInstruction accounts data = .ok out) :
    (made data).map Make.size = (out.creators.map List.length).toList := by
  obtain ⟨code, dec, typ, hcode, herr, htype, hcase⟩ := decodeInstruction_eq_ok_iff.mp h
  unfold made
  rw [hcode]
  dsimp only
  rw [herr, htype, if_neg (by simp)]
  rcases hcase with ⟨hnone, rfl⟩ | ⟨dec', hread, -⟩
  · cases typ <;> first | rfl | cases hnone
  · exact InstructionType.made_of_readFields hread

end TokenMetadata

namespace Token2022

theorem readUint16_advances {dec : Decoder} (h : dec.readUint16.2.err = none) :
    Decoder.Advanced 2 dec dec.readUint16.2 := Decoder.readFixed_advances Prod.mk.eta.symm h

/-- The reads of an extension move over its head of four bytes and its payload. -/
theorem entry_advances {dec : Decoder} {n : ℕ}
    (herr : (dec.readUint16.2.readUint16.2.readBytes n).2.err = none) :
    Decoder.Advanced (2 + 2 + n) dec (dec.readUint16.2.readUint16.2.readBytes n).2 := by
  have hpayload : Decoder.Advanced n _ _ := Decoder.readBytes_advances Prod.mk.eta.symm herr
  have hsize := readUint16_advances hpayload.before
  have htype := readUint16_advances hsize.before
  exact (htype.trans hsize).trans hpayload

/-- The loop of `decodeExtensions` returns as many elements as it appends. -/
theorem extensionsMade_of_decode {turns : ℕ} {dec : Decoder} {acc out : List Extension}
    (hturns : dec.remaining ≤ turns) (h : decodeExtensionsLoop dec acc = .ok out) :
    out.length = acc.length + extensionsMade turns dec := by
  induction turns generalizing dec acc with
  | zero =>
    unfold decodeExtensionsLoop at h
    rw [if_pos (show dec.remaining < 2 by omega)] at h
    obtain rfl := Except.ok.inj h
    rfl
  | succ turns ih =>
    unfold decodeExtensionsLoop at h
    unfold extensionsMade
    by_cases hshort : dec.remaining < 2
    · rw [if_pos hshort] at h ⊢
      obtain rfl := Except.ok.inj h
      rfl
    rw [if_neg hshort] at h ⊢
    dsimp only at h ⊢
    split at h
    · simp at h
    next herr1 =>
    have hnone1 := Decoder.errOf_eq_none.mp herr1
    by_cases hzero : dec.readUint16.1 = extensionUninitialized
    · rw [if_pos hzero] at h
      obtain rfl := Except.ok.inj h
      rw [if_pos (Or.inr hzero)]
      rfl
    rw [if_neg hzero] at h
    rw [if_neg (by rw [hnone1]; simp [hzero])]
    split at h
    · simp at h
    next herr3 =>
    have hnone3 := Decoder.errOf_eq_none.mp herr3
    rw [if_neg (by rw [hnone3]; simp)]
    have hmoved := (entry_advances hnone3).pos
    have hsame := (entry_advances hnone3).data
    rw [ih (by unfold Decoder.remaining at *; rw [hsame]; omega) h, List.length_append,
      List.length_singleton]
    omega

/-- What the loop makes behind a base record is what `decodeExtensions` returns. -/
theorem madeBehind_of_decode {size : ℕ} {data : Bytes} {extensions : List Extension}
    (hsize : data.length ≠ size) (hlong : Token.accountSize + 1 ≤ data.length)
    (h : decodeExtensions (data.drop (Token.accountSize + 1)) = .ok extensions) :
    (madeBehind size true data).map Make.size = [extensions.length] := by
  have hlength := extensionsMade_of_decode (Nat.le_refl _) h
  unfold madeBehind
  rw [if_neg (by simp; omega), hlength]
  simp

/-- What `DecodeAccount` makes behind the account type is what it returns. -/
theorem madeAccount_of_decodeAccount {data : Bytes} {out : Account}
    (hlong : Token.accountSize + 1 ≤ data.length) (h : decodeAccount data = (out, none)) :
    (madeAccount data).map Make.size = [out.extensions.length] := by
  have hsize : data.length ≠ Token.accountSize := by omega
  unfold decodeAccount at h
  rw [if_neg (fun hshort => Nat.not_le.mpr hshort.2 hlong)] at h
  unfold madeAccount
  cases hbase : Token.decodeAccount (data.take Token.accountSize) with
  | error err =>
    rw [hbase] at h
    simp at h
  | ok base =>
    rw [hbase] at h
    dsimp only at h
    rw [if_neg hsize] at h
    cases hext : decodeExtensions (data.drop (Token.accountSize + 1)) with
    | error err => simp [hext] at h
    | ok extensions =>
      rw [hext] at h
      obtain rfl := (Prod.mk.inj h).1
      exact madeBehind_of_decode hsize hlong hext

/-- The same for `DecodeMint`. -/
theorem madeMint_of_decodeMint {data : Bytes} {store store' : Store PublicKey} {out : Mint}
    (hlong : Token.accountSize + 1 ≤ data.length)
    (h : decodeMint data store = ((out, none), store')) :
    (madeMint data).map Make.size = [out.extensions.length] := by
  have hsize : data.length ≠ Token.mintSize := fun heq => absurd hlong (by rw [heq]; decide)
  unfold decodeMint at h
  rw [if_neg (fun hshort => Nat.not_le.mpr hshort.2 hlong)] at h
  cases hbase : Token.decodeMint (data.take Token.mintSize) store with
  | mk base storeBase =>
  rw [hbase] at h
  cases base with
  | error err => simp at h
  | ok base =>
    -- whether the base can be read does not depend on the store
    have hany : ∃ mint store', Token.decodeMint (data.take Token.mintSize) ⟨[]⟩
        = (.ok mint, store') :=
      Token.decodeMint_isOk_iff.mpr (Token.decodeMint_isOk_iff.mp ⟨base, storeBase, hbase⟩)
    obtain ⟨mint, _, hmint⟩ := hany
    unfold madeMint
    rw [hmint]
    dsimp only at h
    rw [if_neg hsize] at h
    cases hext : decodeExtensions (data.drop (Token.accountSize + 1)) with
    | error err => simp [hext] at h
    | ok extensions =>
      rw [hext] at h
      obtain rfl := (Prod.mk.inj (Prod.mk.inj h).1).1
      exact madeBehind_of_decode hsize hlong hext

/-- What `parseRangeInnerProductProof` makes is what it returns. -/
theorem madeInnerProduct_of_parse {ℓ : ℕ} {P : Type} [AddCommGroup P] [Module (ZMod ℓ) P]
    {service : ConfidentialTransferService ℓ P} {data : Bytes} {proof : RangeInnerProductProof ℓ}
    (h : service.parseRangeInnerProductProof data = .ok proof) :
    (madeInnerProduct data).map Make.size = [proof.left.length, proof.right.length] := by
  unfold ConfidentialTransferService.parseRangeInnerProductProof at h
  obtain ⟨hsize, h⟩ := refuse_bind_eq_ok.mp h
  obtain ⟨hdepth, h⟩ := refuse_bind_eq_ok.mp h
  obtain ⟨a, -, h⟩ := bind_eq_ok.mp h
  obtain ⟨b, -, h⟩ := bind_eq_ok.mp h
  obtain rfl := Except.ok.inj h
  unfold madeInnerProduct
  rw [if_neg (by omega)]
  simp

end Token2022

end Returned

end SolanaGo
