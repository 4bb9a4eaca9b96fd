/-
The layouts of the Token Metadata instructions that carry metadata.

`Data` writes an instruction exactly if its strings fit their lengths
(`AccountInstruction.data_eq_ok`), and the decoder accepts exactly the bytes of instructions
whose strings and whose list of creators fit theirs (`decodeInstruction_eq_ok`). The gap
between the two is a list of 2³² creators or more, whose length `Data` cuts to four bytes.
-/
import SolanaGo.TokenMetadata.Instructions

set_option autoImplicit false

namespace SolanaGo.TokenMetadata

open Codec hiding Decoder
open Bin Decoder
open Encoder (Writes)

/-! ## Metadata -/

/-- The bytes of a string behind its length. -/
def borshBytes (v : Bytes) : Bytes := leBytes 4 v.length ++ v

/-- The byte of a flag. -/
def boolBytes (v : Bool) : Bytes := [if v then 1 else 0]

/-- The bytes of a creator. -/
def Creator.bytes (creator : Creator) : Bytes :=
  creator.address.toList ++ (boolBytes creator.verified ++ [creator.share])

/-- The bytes of a list of creators behind its length. -/
def creatorsBytes (creators : List Creator) : Bytes :=
  leBytes 4 (UInt32.ofNat creators.length).toNat ++ creators.flatMap Creator.bytes

/-- The bytes of a collection. -/
def Collection.bytes (collection : Collection) : Bytes :=
  boolBytes collection.verified ++ collection.key.toList

/-- The bytes of a `Uses`. -/
def Uses.bytes (uses : Uses) : Bytes :=
  [uses.useMethod] ++ (leBytes 8 uses.remaining.toNat ++ leBytes 8 uses.total.toNat)

namespace Data

/-- The bytes of the metadata. -/
def bytes (data : Data) : Bytes :=
  borshBytes data.name ++ (borshBytes data.symbol ++ (borshBytes data.uri
    ++ (leBytes 2 data.sellerFeeBasisPoints.toNat ++ optionalBytes creatorsBytes data.creators)))

/-- The strings fit their lengths. -/
def StringsFit (data : Data) : Prop :=
  data.name.length ≤ maxUint32 ∧ data.symbol.length ≤ maxUint32 ∧ data.uri.length ≤ maxUint32

/-- The list of creators fits its length. -/
def CreatorsFit (data : Data) : Prop :=
  ∀ creators, data.creators = some creators → creators.length < 2 ^ 32

end Data

/-- The bytes of the metadata. -/
def DataV2.bytes (data : DataV2) : Bytes :=
  data.data.bytes ++ (optionalBytes Collection.bytes data.collection
    ++ optionalBytes Uses.bytes data.uses)

section Writes

theorem Creator.encode_eq (creator : Creator) (enc : Encoder) :
    creator.encode enc = enc.append creator.bytes := by
  unfold Creator.encode Creator.bytes
  rw [Encoder.writePublicKey, Encoder.writeBool, Encoder.writeUint8, Encoder.append_append,
    Encoder.append_append]
  rfl

theorem encodeCreators_eq (creators : List Creator) (enc : Encoder) :
    encodeCreators creators enc = enc.append (creatorsBytes creators) := by
  unfold encodeCreators creatorsBytes
  rw [Encoder.foldl_write Creator.encode_eq, Encoder.writeUint32, Encoder.append_append]

theorem Collection.encode_eq (collection : Collection) (enc : Encoder) :
    collection.encode enc = enc.append collection.bytes := by
  unfold Collection.encode Collection.bytes
  rw [Encoder.writeBool, Encoder.writePublicKey, Encoder.append_append]
  rfl

theorem Uses.encode_eq (uses : Uses) (enc : Encoder) :
    uses.encode enc = enc.append uses.bytes := by
  unfold Uses.encode Uses.bytes
  rw [Encoder.writeUint8, Encoder.writeUint64, Encoder.writeUint64, Encoder.append_append,
    Encoder.append_append]

theorem Data.encode_writes (data : Data) : Writes data.StringsFit data.bytes data.encode := by
  have hfee : Writes True (leBytes 2 data.sellerFeeBasisPoints.toNat)
      fun e => e.writeUint16 data.sellerFeeBasisPoints := .of_append fun _ => rfl
  have hcreators : Writes True (optionalBytes creatorsBytes data.creators)
      fun e => e.writeOptional encodeCreators data.creators :=
    .of_append (Encoder.writeOptional_eq encodeCreators_eq _)
  have hall := ((Writes.borshString data.name).andThen ((Writes.borshString data.symbol).andThen
    ((Writes.borshString data.uri).andThen (hfee.andThen hcreators))))
  refine hall.congr ?_
  unfold Data.StringsFit
  tauto

theorem DataV2.encode_writes (data : DataV2) :
    Writes data.data.StringsFit data.bytes data.encode := by
  have hcollection : Writes True (optionalBytes Collection.bytes data.collection)
      fun e => e.writeOptional Collection.encode data.collection :=
    .of_append (Encoder.writeOptional_eq Collection.encode_eq _)
  have huses : Writes True (optionalBytes Uses.bytes data.uses)
      fun e => e.writeOptional Uses.encode data.uses :=
    .of_append (Encoder.writeOptional_eq Uses.encode_eq _)
  have hall := data.data.encode_writes.andThen (hcollection.andThen huses)
  exact hall.congr (by tauto)

end Writes

section Reads

-- the reads are only used through their laws; kept closed, they do not slow down the unifier
attribute [local irreducible] readPublicKey readBool readUint8 readUint16 readUint32 readUint64
  readBorshString readOptional readMany

theorem Creator.decode_reads : Reads (fun _ => True) Creator.bytes Creator.decode := by
  refine Parses.reads (.congrBytes (.anyField Creator.address readPublicKey_reads fun address =>
    .anyField Creator.verified readBool_reads fun verified =>
    .anyField Creator.share readUint8_reads fun share =>
    .pure ⟨address, verified, share⟩ fun i => ?_) fun i _ => ?_)
  · rw [Creator.ext_iff]
    tauto
  · rw [List.append_nil]
    rfl

theorem Collection.decode_reads : Reads (fun _ => True) Collection.bytes Collection.decode := by
  refine Parses.reads (.congrBytes (.anyField Collection.verified readBool_reads fun verified =>
    .anyField Collection.key readPublicKey_reads fun key =>
    .pure ⟨verified, key⟩ fun i => ?_) fun i _ => ?_)
  · rw [Collection.ext_iff]
    tauto
  · rw [List.append_nil]
    rfl

theorem Uses.decode_reads : Reads (fun _ => True) Uses.bytes Uses.decode := by
  refine Parses.reads (.congrBytes (.anyField Uses.useMethod readUint8_reads fun useMethod =>
    .anyField Uses.remaining readUint64_reads fun remaining =>
    .anyField Uses.total readUint64_reads fun total =>
    .pure ⟨useMethod, remaining, total⟩ fun i => ?_) fun i _ => ?_)
  · rw [Uses.ext_iff]
    tauto
  · rw [List.append_nil]
    rfl

theorem decodeCreators_reads :
    Reads (fun creators => creators.length < 2 ^ 32) creatorsBytes decodeCreators := by
  refine Parses.reads (.anyField (fun creators => UInt32.ofNat creators.length) readUint32_reads
    fun count => (Creator.decode_reads.many count.toNat).parses.congr fun creators => ?_)
  constructor
  · rintro ⟨hlt, rfl⟩
    exact ⟨(UInt32.toNat_ofNat_of_lt' hlt).symm, fun _ _ => trivial⟩
  · rintro ⟨hlen, -⟩
    have hlt := count.toNat_lt
    rw [← hlen] at hlt
    refine ⟨hlt, ?_⟩
    rw [hlen, UInt32.ofNat_toNat]

theorem Data.decode_reads :
    Reads (fun data => data.StringsFit ∧ data.CreatorsFit) Data.bytes Data.decode := by
  refine Parses.reads (.congrBytes
    (.field (P := fun data => (data.symbol.length ≤ maxUint32 ∧ data.uri.length ≤ maxUint32)
        ∧ data.CreatorsFit) Data.name readBorshString_reads (fun i => ?_) fun name =>
    .field (P := fun data => (data.uri.length ≤ maxUint32 ∧ data.CreatorsFit) ∧ data.name = name)
      Data.symbol readBorshString_reads (fun i => ?_) fun symbol =>
    .field (P := fun data => data.CreatorsFit ∧ data.name = name ∧ data.symbol = symbol)
      Data.uri readBorshString_reads (fun i => ?_) fun uri =>
    .anyField Data.sellerFeeBasisPoints readUint16_reads fun fee =>
    .field (P := fun data => data.name = name ∧ data.symbol = symbol ∧ data.uri = uri
        ∧ data.sellerFeeBasisPoints = fee)
      Data.creators decodeCreators_reads.optional (fun i => ?_) fun creators =>
    .pure ⟨name, symbol, uri, fee, creators⟩ fun i => ?_) fun i _ => ?_)
  · unfold Data.StringsFit
    tauto
  · tauto
  · tauto
  · unfold Data.CreatorsFit
    tauto
  · rw [Data.ext_iff]
    tauto
  · rw [List.append_nil]
    rfl

attribute [local irreducible] Data.decode

theorem DataV2.decode_reads :
    Reads (fun data => data.data.StringsFit ∧ data.data.CreatorsFit) DataV2.bytes
      DataV2.decode := by
  refine Parses.reads (.congrBytes
    (.field (P := fun _ => True) DataV2.data Data.decode_reads (fun i => ?_) fun data =>
    .anyField DataV2.collection Collection.decode_reads.anyOptional fun collection =>
    .anyField DataV2.uses Uses.decode_reads.anyOptional fun uses =>
    .pure ⟨data, collection, uses⟩ fun i => ?_) fun i _ => ?_)
  · tauto
  · rw [DataV2.ext_iff]
    tauto
  · rw [List.append_nil]
    rfl

attribute [local irreducible] DataV2.decode

theorem decodeUpdateArgs_reads :
    Reads (fun args => ∀ data, args.data = some data → data.StringsFit ∧ data.CreatorsFit)
      (fun args => optionalBytes Data.bytes args.data
        ++ (optionalBytes (fun key : PublicKey => key.toList) args.updateAuthority
          ++ optionalBytes boolBytes args.primarySaleHappened)) decodeUpdateArgs := by
  refine Parses.reads (.congrBytes (.field (P := fun _ => True) UpdateMetadataAccountArgs.data
      Data.decode_reads.optional (fun i => ?_) fun data =>
    .anyField UpdateMetadataAccountArgs.updateAuthority readPublicKey_reads.anyOptional
      fun updateAuthority =>
    .anyField UpdateMetadataAccountArgs.primarySaleHappened readBool_reads.anyOptional
      fun primarySaleHappened =>
    .pure ⟨data, updateAuthority, primarySaleHappened⟩ fun i => ?_) fun i _ => ?_)
  · rw [and_true]
  · rw [UpdateMetadataAccountArgs.ext_iff]
    tauto
  · rw [List.append_nil]
    rfl

theorem decodeUpdateArgsV2_reads :
    Reads (fun args => ∀ data, args.data = some data
        → data.data.StringsFit ∧ data.data.CreatorsFit)
      (fun args => optionalBytes DataV2.bytes args.data
        ++ (optionalBytes (fun key : PublicKey => key.toList) args.updateAuthority
          ++ (optionalBytes boolBytes args.primarySaleHappened
            ++ optionalBytes boolBytes args.isMutable))) decodeUpdateArgsV2 := by
  refine Parses.reads (.congrBytes (.field (P := fun _ => True) UpdateMetadataAccountArgsV2.data
      DataV2.decode_reads.optional (fun i => ?_) fun data =>
    .anyField UpdateMetadataAccountArgsV2.updateAuthority readPublicKey_reads.anyOptional
      fun updateAuthority =>
    .anyField UpdateMetadataAccountArgsV2.primarySaleHappened readBool_reads.anyOptional
      fun primarySaleHappened =>
    .anyField UpdateMetadataAccountArgsV2.isMutable readBool_reads.anyOptional fun isMutable =>
    .pure ⟨data, updateAuthority, primarySaleHappened, isMutable⟩ fun i => ?_) fun i _ => ?_)
  · rw [and_true]
  · rw [UpdateMetadataAccountArgsV2.ext_iff]
    tauto
  · rw [List.append_nil]
    rfl

end Reads

/-! ## Instructions -/

/-- An instruction that carries metadata. -/
inductive AccountInstruction where
  | createMetadataAccount (inst : CreateMetadataAccount)
  | createMetadataAccountV2 (inst : CreateMetadataAccountV2)
  | updateMetadataAccount (inst : UpdateMetadataAccount)
  | updateMetadataAccountV2 (inst : UpdateMetadataAccountV2)
  deriving DecidableEq

namespace AccountInstruction

/-- The type of an instruction. -/
def type : AccountInstruction → InstructionType
  | createMetadataAccount _ => .createMetadataAccount
  | createMetadataAccountV2 _ => .createMetadataAccountV2
  | updateMetadataAccount _ => .updateMetadataAccount
  | updateMetadataAccountV2 _ => .updateMetadataAccountV2

/-- `Data` of the instruction. -/
def data : AccountInstruction → Except Err Bytes
  | createMetadataAccount inst => inst.data
  | createMetadataAccountV2 inst => inst.data
  | updateMetadataAccount inst => inst.data
  | updateMetadataAccountV2 inst => inst.data

/-- The accounts of an instruction. -/
def accounts : AccountInstruction → AccountMetaSlice
  | createMetadataAccount inst => inst.accounts
  | createMetadataAccountV2 inst => inst.accounts
  | updateMetadataAccount inst => inst.accounts
  | updateMetadataAccountV2 inst => inst.accounts

/-- What the decoder returns for an instruction: its type, and the one field of the type. -/
def decoded : AccountInstruction → DecodedInstruction
  | createMetadataAccount inst =>
    { type := .createMetadataAccount, createMetadataAccount := some inst }
  | createMetadataAccountV2 inst =>
    { type := .createMetadataAccountV2, createMetadataAccountV2 := some inst }
  | updateMetadataAccount inst =>
    { type := .updateMetadataAccount, updateMetadataAccount := some inst }
  | updateMetadataAccountV2 inst =>
    { type := .updateMetadataAccountV2, updateMetadataAccountV2 := some inst }

/-- The metadata of an instruction that has any. -/
def metadata : AccountInstruction → Option Data
  | createMetadataAccount inst => some inst.args.data
  | createMetadataAccountV2 inst => some inst.args.data.data
  | updateMetadataAccount inst => inst.args.data
  | updateMetadataAccountV2 inst => inst.args.data.map (·.data)

/-- What stands behind the type of an instruction. -/
def body : AccountInstruction → Bytes
  | createMetadataAccount inst => inst.args.data.bytes ++ boolBytes inst.args.isMutable
  | createMetadataAccountV2 inst => inst.args.data.bytes ++ boolBytes inst.args.isMutable
  | updateMetadataAccount inst => optionalBytes Data.bytes inst.args.data
      ++ (optionalBytes (fun key : PublicKey => key.toList) inst.args.updateAuthority
        ++ optionalBytes boolBytes inst.args.primarySaleHappened)
  | updateMetadataAccountV2 inst => optionalBytes DataV2.bytes inst.args.data
      ++ (optionalBytes (fun key : PublicKey => key.toList) inst.args.updateAuthority
        ++ (optionalBytes boolBytes inst.args.primarySaleHappened
          ++ optionalBytes boolBytes inst.args.isMutable))

/-- The bytes of an instruction. -/
def bytes (inst : AccountInstruction) : Bytes := [inst.type.code] ++ inst.body

/-- The strings fit their lengths. -/
def StringsFit (inst : AccountInstruction) : Prop :=
  ∀ data, inst.metadata = some data → data.StringsFit

/-- The list of creators fits its length. -/
def CreatorsFit (inst : AccountInstruction) : Prop :=
  ∀ data, inst.metadata = some data → data.CreatorsFit

theorem decoded_injective {inst other : AccountInstruction} (h : inst.decoded = other.decoded) :
    inst = other := by
  cases inst <;> cases other <;> simp_all [decoded]

/-- **What `Data` writes**, and when. -/
theorem data_eq_ok {inst : AccountInstruction} {d : Bytes} :
    inst.data = .ok d ↔ inst.StringsFit ∧ d = inst.bytes := by
  have hkey : ∀ key : Option PublicKey,
      Writes True (optionalBytes (fun key : PublicKey => key.toList) key)
        fun e => e.writeOptional Encoder.writePublicKey key :=
    fun key => .of_append (Encoder.writeOptional_publicKey key)
  have hflag : ∀ flag : Option Bool, Writes True (optionalBytes boolBytes flag)
      fun e => e.writeOptional Encoder.writeBool flag :=
    fun flag => .of_append (Encoder.writeOptional_eq (fun _ _ => rfl) flag)
  have htype : ∀ code : UInt8, Writes True [code] fun e => e.writeUint8 code :=
    fun code => .of_append fun _ => rfl
  have hbool : ∀ flag : Bool, Writes True (boolBytes flag) fun e => e.writeBool flag :=
    fun flag => .of_append fun _ => rfl
  unfold StringsFit
  cases inst with
  | createMetadataAccount inst =>
    refine ((htype _).andThen (inst.args.data.encode_writes.andThen
      (hbool inst.args.isMutable))).result_eq_ok.trans (and_congr_left' ?_)
    simp [metadata]
  | createMetadataAccountV2 inst =>
    refine ((htype _).andThen (inst.args.data.encode_writes.andThen
      (hbool inst.args.isMutable))).result_eq_ok.trans (and_congr_left' ?_)
    simp [metadata]
  | updateMetadataAccount inst =>
    refine ((htype _).andThen ((Writes.optional Data.encode_writes inst.args.data).andThen
      ((hkey inst.args.updateAuthority).andThen
        (hflag inst.args.primarySaleHappened)))).result_eq_ok.trans (and_congr_left' ?_)
    simp [metadata]
  | updateMetadataAccountV2 inst =>
    refine ((htype _).andThen ((Writes.optional DataV2.encode_writes inst.args.data).andThen
      ((hkey inst.args.updateAuthority).andThen ((hflag inst.args.primarySaleHappened).andThen
        (hflag inst.args.isMutable))))).result_eq_ok.trans (and_congr_left' ?_)
    simp [metadata]

end AccountInstruction

/-! ## The decoder -/

theorem InstructionType.ofCode_eq_some (code : UInt8) (typ : InstructionType) :
    InstructionType.ofCode code = some typ ↔ code = typ.code := by
  constructor
  · intro h
    unfold InstructionType.ofCode at h
    split at h
    all_goals cases h <;> rfl
  · rintro rfl
    cases typ <;> rfl

/-- The types of the instructions that carry metadata. -/
def InstructionType.IsAccount (typ : InstructionType) : Prop :=
  typ = .createMetadataAccount ∨ typ = .createMetadataAccountV2
    ∨ typ = .updateMetadataAccount ∨ typ = .updateMetadataAccountV2

theorem AccountInstruction.type_isAccount (inst : AccountInstruction) : inst.type.IsAccount := by
  cases inst <;> simp [type, InstructionType.IsAccount]

/-- The decoder, read by read. -/
theorem decodeInstruction_eq_ok_iff {accounts : AccountMetaSlice} {data : Bytes}
    {out : DecodedInstruction} :
    decodeInstruction accounts data = .ok out
      ↔ ∃ code dec typ, (newDecoder data).readUint8 = (code, dec) ∧ dec.err = none
        ∧ InstructionType.ofCode code = some typ
        ∧ ((readFields accounts dec typ = none
            ∧ out = { type := typ, raw := some { accounts, dataBytes := data } })
          ∨ ∃ dec', readFields accounts dec typ = some (out, dec') ∧ dec'.err = none) := by
  unfold decodeInstruction
  cases hcode : (newDecoder data).readUint8 with
  | mk code dec =>
  cases herr : dec.err with
  | some failure => simp [hcode, Decoder.errOf, herr]
  | none =>
    dsimp only
    rw [hcode, Decoder.errOf_of_none herr]
    cases htype : InstructionType.ofCode code with
    | none => simp [htype]
    | some typ =>
      dsimp only
      cases hread : readFields accounts dec typ with
      | none =>
        simp [herr, htype, hread, eq_comm]
      | some result =>
        obtain ⟨value, dec'⟩ := result
        cases herr' : dec'.err with
        | some failure => simp [herr, htype, hread, herr', Decoder.errOf]
        | none => simp [herr, htype, hread, herr', Decoder.errOf, eq_comm]

/-- The strings and the list of creators fit their lengths. -/
def AccountInstruction.Fits (inst : AccountInstruction) : Prop :=
  inst.StringsFit ∧ inst.CreatorsFit

section Layouts

attribute [local irreducible] readBool Data.decode DataV2.decode decodeUpdateArgs
  decodeUpdateArgsV2

variable (accounts : AccountMetaSlice)

/-- The case of a type in the decoder. -/
def readCase (typ : InstructionType) (dec : Decoder) : DecodedInstruction × Decoder :=
  (readFields accounts dec typ).getD ({ type := typ }, dec)

/-- The case of a type reads the layout of the instructions that `inject` builds. -/
def ReadsLayout {ι : Type} (typ : InstructionType) (inject : ι → AccountInstruction)
    (P : ι → Prop) : Prop :=
  Parses P (fun i => (inject i).body) (fun i => (inject i).decoded) (lift (readCase accounts typ))

theorem createMetadataAccount_reads :
    ReadsLayout accounts .createMetadataAccount .createMetadataAccount
      fun i => (i.args.data.StringsFit ∧ i.args.data.CreatorsFit) ∧ i.accounts = accounts := by
  refine .congrBytes (.field (P := fun i : CreateMetadataAccount => i.accounts = accounts)
      (fun i => i.args.data) Data.decode_reads (fun i => Iff.rfl) fun data =>
    .anyField (fun i => i.args.isMutable) readBool_reads fun isMutable =>
    .pure (CreateMetadataAccount.mk ⟨data, isMutable⟩ accounts) fun i => ?_) fun i _ => ?_
  · rw [CreateMetadataAccount.ext_iff, CreateMetadataAccountArgs.ext_iff]
    tauto
  · rw [List.append_nil]
    rfl

theorem createMetadataAccountV2_reads :
    ReadsLayout accounts .createMetadataAccountV2 .createMetadataAccountV2
      fun i => (i.args.data.data.StringsFit ∧ i.args.data.data.CreatorsFit)
        ∧ i.accounts = accounts := by
  refine .congrBytes (.field (P := fun i : CreateMetadataAccountV2 => i.accounts = accounts)
      (fun i => i.args.data) DataV2.decode_reads (fun i => Iff.rfl) fun data =>
    .anyField (fun i => i.args.isMutable) readBool_reads fun isMutable =>
    .pure (CreateMetadataAccountV2.mk ⟨data, isMutable⟩ accounts) fun i => ?_) fun i _ => ?_
  · rw [CreateMetadataAccountV2.ext_iff, CreateMetadataAccountArgsV2.ext_iff]
    tauto
  · rw [List.append_nil]
    rfl

theorem updateMetadataAccount_reads :
    ReadsLayout accounts .updateMetadataAccount .updateMetadataAccount
      fun i => (∀ data, i.args.data = some data → data.StringsFit ∧ data.CreatorsFit)
        ∧ i.accounts = accounts := by
  refine .congrBytes (.field (P := fun i : UpdateMetadataAccount => i.accounts = accounts)
      (fun i => i.args) decodeUpdateArgs_reads (fun i => Iff.rfl) fun args =>
    .pure (UpdateMetadataAccount.mk args accounts) fun i => ?_) fun i _ => ?_
  · rw [UpdateMetadataAccount.ext_iff]
    tauto
  · rw [List.append_nil]
    rfl

theorem updateMetadataAccountV2_reads :
    ReadsLayout accounts .updateMetadataAccountV2 .updateMetadataAccountV2
      fun i => (∀ data, i.args.data = some data → data.data.StringsFit ∧ data.data.CreatorsFit)
        ∧ i.accounts = accounts := by
  refine .congrBytes (.field (P := fun i : UpdateMetadataAccountV2 => i.accounts = accounts)
      (fun i => i.args) decodeUpdateArgsV2_reads (fun i => Iff.rfl) fun args =>
    .pure (UpdateMetadataAccountV2.mk args accounts) fun i => ?_) fun i _ => ?_
  · rw [UpdateMetadataAccountV2.ext_iff]
    tauto
  · rw [List.append_nil]
    rfl

/-- The case of a type with metadata reads its instructions, and nothing else. -/
theorem readCase_parses {typ : InstructionType} (htyp : typ.IsAccount) :
    Parses (fun inst : AccountInstruction => inst.type = typ ∧ inst.Fits
        ∧ inst.accounts = accounts)
      AccountInstruction.body AccountInstruction.decoded (lift (readCase accounts typ)) := by
  rcases htyp with rfl | rfl | rfl | rfl
  · refine (createMetadataAccount_reads accounts).embed _ (fun inst h => ?_) fun i => ?_
    · cases inst <;> simp_all [AccountInstruction.type]
    · simp [AccountInstruction.type, AccountInstruction.Fits, AccountInstruction.StringsFit,
        AccountInstruction.CreatorsFit, AccountInstruction.metadata, AccountInstruction.accounts]
  · refine (createMetadataAccountV2_reads accounts).embed _ (fun inst h => ?_) fun i => ?_
    · cases inst <;> simp_all [AccountInstruction.type]
    · simp [AccountInstruction.type, AccountInstruction.Fits, AccountInstruction.StringsFit,
        AccountInstruction.CreatorsFit, AccountInstruction.metadata, AccountInstruction.accounts]
  · refine (updateMetadataAccount_reads accounts).embed _ (fun inst h => ?_) fun i => ?_
    · cases inst <;> simp_all [AccountInstruction.type]
    · simp [AccountInstruction.type, AccountInstruction.Fits, AccountInstruction.StringsFit,
        AccountInstruction.CreatorsFit, AccountInstruction.metadata, AccountInstruction.accounts,
        forall_and]
  · refine (updateMetadataAccountV2_reads accounts).embed _ (fun inst h => ?_) fun i => ?_
    · cases inst <;> simp_all [AccountInstruction.type]
    · simp [AccountInstruction.type, AccountInstruction.Fits, AccountInstruction.StringsFit,
        AccountInstruction.CreatorsFit, AccountInstruction.metadata, AccountInstruction.accounts,
        forall_and]

theorem readFields_eq_readCase {typ : InstructionType} (htyp : typ.IsAccount) (dec : Decoder) :
    readFields accounts dec typ = some (readCase accounts typ dec) := by
  rcases htyp with rfl | rfl | rfl | rfl <;> rfl

end Layouts

theorem readFields_type {accounts : AccountMetaSlice} {dec dec' : Decoder} {typ : InstructionType}
    {out : DecodedInstruction} (h : readFields accounts dec typ = some (out, dec')) :
    out.type = typ := by
  cases typ <;> simp only [readFields, reduceCtorEq, Option.some.injEq, Prod.mk.injEq] at h <;>
    exact h.1 ▸ rfl

/-- **What the decoder accepts** for the types that carry metadata: the bytes of an instruction
that fits its lengths, with anything behind. -/
theorem decodeInstruction_eq_ok {accounts : AccountMetaSlice} {data : Bytes}
    {out : DecodedInstruction} :
    decodeInstruction accounts data = .ok out ∧ out.type.IsAccount
      ↔ ∃ (inst : AccountInstruction) (tail : Bytes), out = inst.decoded ∧ inst.Fits
        ∧ inst.accounts = accounts ∧ data = inst.bytes ++ tail := by
  have hstart : (newDecoder data).rest = data := rfl
  rw [decodeInstruction_eq_ok_iff]
  constructor
  · rintro ⟨⟨code, dec, typ, hcode, herr, htype, hcase⟩, haccount⟩
    obtain ⟨-, -, -, hrest⟩ := readUint8_reads.accepts hcode herr
    have htyp : typ.IsAccount := by
      rcases hcase with ⟨-, rfl⟩ | ⟨dec', hread, -⟩
      · exact haccount
      · rwa [readFields_type hread] at haccount
    rw [readFields_eq_readCase accounts htyp] at hcase
    rcases hcase with ⟨hnone, -⟩ | ⟨dec', hread, herr'⟩
    · exact absurd hnone (by simp)
    · have hlift : lift (readCase accounts typ) dec = (.ok out, dec') := by
        unfold lift
        rw [Option.some.inj hread]
      obtain ⟨inst, rfl, -, ⟨rfl, hfits, haccounts⟩, -, hrest'⟩ :=
        (readCase_parses accounts htyp).accepts hlift herr'
      refine ⟨inst, dec'.rest, rfl, hfits, haccounts, ?_⟩
      rw [(InstructionType.ofCode_eq_some code _).mp htype] at hrest
      rw [AccountInstruction.bytes, List.append_assoc, ← hrest', ← hrest, hstart]
  · rintro ⟨inst, tail, rfl, hfits, haccounts, hdata⟩
    have htyp := inst.type_isAccount
    rw [AccountInstruction.bytes, List.append_assoc] at hdata
    obtain ⟨dec, hcode, herr, hrest, -⟩ :=
      readUint8_reads.next trivial rfl (hstart.trans hdata)
    have hread := (readCase_parses accounts htyp).inverts ⟨rfl, hfits, haccounts⟩ herr hrest
    obtain ⟨hvalue, hdec⟩ := Prod.mk.inj hread
    refine ⟨⟨_, dec, inst.type, hcode, herr, (InstructionType.ofCode_eq_some _ _).mpr rfl,
      .inr ⟨dec.past inst.body.length, ?_, herr⟩⟩, ?_⟩
    · rw [readFields_eq_readCase accounts htyp]
      exact congrArg some (Prod.ext (Except.ok.inj hvalue) hdec)
    · cases inst <;> exact htyp

/-! ## Round trips -/

/-- An instruction that the decoder returned fits its lengths. -/
theorem AccountInstruction.fits_of_decode {inst : AccountInstruction} {accounts : AccountMetaSlice}
    {data : Bytes} (h : decodeInstruction accounts data = .ok inst.decoded) : inst.Fits := by
  have htyp : inst.decoded.type.IsAccount := by
    have := inst.type_isAccount
    cases inst <;> exact this
  obtain ⟨other, tail, hsame, hfits, -⟩ := decodeInstruction_eq_ok.mp ⟨h, htyp⟩
  rwa [AccountInstruction.decoded_injective hsame]

/-- **Create and update instructions through their bytes.** Where `Data` succeeds, the decoder
returns the instruction exactly if its list of creators fits its length; and every input the
decoder accepts for these types starts with the `Data` of what it returned. -/
theorem decodeInstruction_data_iff (inst : AccountInstruction) (accounts : AccountMetaSlice)
    (data : Bytes) (out : DecodedInstruction) :
    (inst.data = .ok data →
      (decodeInstruction inst.accounts data = .ok inst.decoded ↔ inst.CreatorsFit))
    ∧ (decodeInstruction accounts data = .ok out → out.type.IsAccount →
      ∃ (read : AccountInstruction) (d : Bytes), out = read.decoded ∧ read.accounts = accounts
        ∧ read.data = .ok d ∧ d <+: data) := by
  constructor
  · intro hdata
    obtain ⟨hstrings, rfl⟩ := AccountInstruction.data_eq_ok.mp hdata
    constructor
    · intro hdecode
      exact (AccountInstruction.fits_of_decode hdecode).2
    · intro hcreators
      exact (decodeInstruction_eq_ok.mpr
        ⟨inst, [], rfl, ⟨hstrings, hcreators⟩, rfl, (List.append_nil _).symm⟩).1
  · intro hdecode htyp
    obtain ⟨read, tail, rfl, hfits, haccounts, rfl⟩ := decodeInstruction_eq_ok.mp ⟨hdecode, htyp⟩
    exact ⟨read, read.bytes, rfl, haccounts,
      AccountInstruction.data_eq_ok.mpr ⟨hfits.1, rfl⟩, List.prefix_append _ _⟩

/-- A creator. -/
def sampleCreator : Creator where
  address := ByteArr.zero 32
  verified := false
  share := 100

/-- An instruction with so many creators. -/
def withCreators (count : ℕ) : AccountInstruction :=
  .createMetadataAccount
    { args :=
        { data :=
            { name := []
              symbol := []
              uri := []
              sellerFeeBasisPoints := 0
              creators := some (List.replicate count sampleCreator) }
          isMutable := true }
      accounts := [] }

theorem withCreators_data (count : ℕ) :
    (withCreators count).data = .ok (withCreators count).bytes := by
  refine AccountInstruction.data_eq_ok.mpr ⟨?_, rfl⟩
  intro data hdata
  obtain rfl := Option.some.inj hdata
  refine ⟨?_, ?_, ?_⟩ <;> exact Nat.zero_le _

/-- Two creators are written, and returned. -/
theorem withCreators_returned :
    (withCreators 2).data = .ok (withCreators 2).bytes
      ∧ decodeInstruction (withCreators 2).accounts (withCreators 2).bytes
        = .ok (withCreators 2).decoded := by
  have hdata := withCreators_data 2
  refine ⟨hdata, ((decodeInstruction_data_iff _ [] _ (withCreators 2).decoded).1 hdata).mpr ?_⟩
  rintro _ ⟨⟩ _ ⟨⟩
  decide

/-- `Data` writes 2³² creators behind the length 0, and the decoder returns something else. -/
theorem withCreators_not_returned :
    ∃ d, (withCreators (2 ^ 32)).data = .ok d
      ∧ decodeInstruction (withCreators (2 ^ 32)).accounts d
        ≠ .ok (withCreators (2 ^ 32)).decoded := by
  refine ⟨_, withCreators_data (2 ^ 32), fun hdecode => ?_⟩
  have hfit := (AccountInstruction.fits_of_decode hdecode).2 _ rfl _ rfl
  rw [List.length_replicate] at hfit
  exact Nat.lt_irrefl _ hfit

end SolanaGo.TokenMetadata
