/-
The instructions of the Compute Budget program.

The type is one byte, and what stands behind the layout is accepted. So the type byte zero is
read in two ways: with eight bytes behind it as the retired request for units, with fewer as
the reserved instruction. The decoder is the inverse of `Data` but for that.
-/
import SolanaGo.Instructions

set_option autoImplicit false

namespace SolanaGo.ComputeBudget

open Codec hiding Decoder
open Bin

/-- `type InstructionType uint8`, the values that have a name. The first one is also
`RequestUnitsDeprecatedInstruction`. -/
inductive InstructionType where
  | unused
  | requestHeapFrame
  | setComputeUnitLimit
  | setComputeUnitPrice
  | setLoadedAccountsDataSizeLimit
  deriving DecidableEq

namespace InstructionType

/-- The constants of the types. -/
def code : InstructionType → UInt8
  | unused => 0
  | requestHeapFrame => 1
  | setComputeUnitLimit => 2
  | setComputeUnitPrice => 3
  | setLoadedAccountsDataSizeLimit => 4

def ofCode : UInt8 → Option InstructionType
  | 0 => some unused
  | 1 => some requestHeapFrame
  | 2 => some setComputeUnitLimit
  | 3 => some setComputeUnitPrice
  | 4 => some setLoadedAccountsDataSizeLimit
  | _ => none

/-- `String`. -/
def string : InstructionType → String
  | unused => "Unused"
  | requestHeapFrame => "RequestHeapFrame"
  | setComputeUnitLimit => "SetComputeUnitLimit"
  | setComputeUnitPrice => "SetComputeUnitPrice"
  | setLoadedAccountsDataSizeLimit => "SetLoadedAccountsDataSizeLimit"

theorem ofCode_eq_some {tag : UInt8} {typ : InstructionType} :
    ofCode tag = some typ ↔ tag = typ.code := by
  constructor
  · intro h
    unfold ofCode at h
    split at h
    all_goals cases h <;> rfl
  · rintro rfl
    cases typ <;> rfl

end InstructionType

/-- The instructions, and the one non-nil field of `DecodedInstruction`. -/
inductive Instruction where
  | unused
  | requestUnitsDeprecated (units additionalFee : UInt32)
  | requestHeapFrame (heapSize : UInt32)
  | setComputeUnitLimit (units : UInt32)
  | setComputeUnitPrice (microLamports : UInt64)
  | setLoadedAccountsDataSizeLimit (bytes : UInt32)
  deriving DecidableEq

namespace Instruction

/-- `Type` of `DecodedInstruction`. -/
def type : Instruction → InstructionType
  | unused | requestUnitsDeprecated _ _ => .unused
  | requestHeapFrame _ => .requestHeapFrame
  | setComputeUnitLimit _ => .setComputeUnitLimit
  | setComputeUnitPrice _ => .setComputeUnitPrice
  | setLoadedAccountsDataSizeLimit _ => .setLoadedAccountsDataSizeLimit

/-- `Data` of an instruction with one word of four bytes. -/
def dataUint32 (typ : InstructionType) (v : UInt32) : Except Err Bytes :=
  (((newEncoder []).writeUint8 typ.code).writeUint32 v).result

/-- `Data`. -/
def data : Instruction → Except Err Bytes
  | unused => .ok [InstructionType.unused.code]
  | requestUnitsDeprecated units additionalFee =>
    ((((newEncoder []).writeUint8 InstructionType.unused.code).writeUint32 units).writeUint32
      additionalFee).result
  | requestHeapFrame heapSize => dataUint32 .requestHeapFrame heapSize
  | setComputeUnitLimit units => dataUint32 .setComputeUnitLimit units
  | setComputeUnitPrice microLamports =>
    (((newEncoder []).writeUint8 InstructionType.setComputeUnitPrice.code).writeUint64
      microLamports).result
  | setLoadedAccountsDataSizeLimit bytes => dataUint32 .setLoadedAccountsDataSizeLimit bytes

/-- What stands behind the type. -/
def body : Instruction → Bytes
  | unused => []
  | requestUnitsDeprecated units additionalFee =>
    leBytes 4 units.toNat ++ leBytes 4 additionalFee.toNat
  | requestHeapFrame v | setComputeUnitLimit v | setLoadedAccountsDataSizeLimit v =>
    leBytes 4 v.toNat
  | setComputeUnitPrice microLamports => leBytes 8 microLamports.toNat

theorem data_eq (inst : Instruction) : inst.data = .ok (inst.type.code :: inst.body) := by
  cases inst <;> rfl

end Instruction

/-- The cases of `DecodeInstruction`. -/
def readFields : InstructionType → Decoder → Instruction × Decoder
  | .unused, dec =>
    if 8 ≤ dec.remaining then
      let (units, dec) := dec.readUint32
      let (additionalFee, dec) := dec.readUint32
      (.requestUnitsDeprecated units additionalFee, dec)
    else (.unused, dec)
  | .requestHeapFrame, dec => dec.readUint32.map .requestHeapFrame id
  | .setComputeUnitLimit, dec => dec.readUint32.map .setComputeUnitLimit id
  | .setComputeUnitPrice, dec => dec.readUint64.map .setComputeUnitPrice id
  | .setLoadedAccountsDataSizeLimit, dec =>
    dec.readUint32.map .setLoadedAccountsDataSizeLimit id

/-- `DecodeInstruction` behind the type. -/
def decodeFields (tag : UInt8) (dec : Decoder) : Except Err Instruction :=
  match InstructionType.ofCode tag with
  | none => .error { msg := "computebudget: unknown instruction: " ++ toString tag }
  | some typ =>
    let (inst, dec) := readFields typ dec
    dec.check ("decode compute budget " ++ typ.string ++ ": ") fun _ => .ok inst

/-- `DecodeInstruction`; the accounts are not looked at. -/
def decodeInstruction (data : Bytes) : Except Err Instruction :=
  let (tag, dec) := (newDecoder data).readUint8
  dec.check "compute budget instruction type: " (decodeFields tag)

/-! ## Both directions -/

section Laws

open Decoder

variable {α : Type} {d d' : Decoder} {inst : Instruction}

/-- The reader of a type stops at the end of its layout. With nothing in the layout, fewer
than eight bytes are left. -/
def ReadsType (typ : InstructionType) : Prop :=
  ∀ {d d' : Decoder} {inst : Instruction}, d.err = none →
    (readFields typ d = (inst, d') ∧ d'.err = none ↔ inst.type = typ
      ∧ d' = d.past inst.body.length ∧ d.rest = inst.body ++ d'.rest
      ∧ (inst = .unused → d'.rest.length < 8))

/-- A layout of one field, of which every value can be read. -/
theorem readsType_of_reads {enc : α → Bytes} {read : Decoder → α × Decoder}
    (h : Reads (fun _ => True) enc read) {typ : InstructionType} (inject : α → Instruction)
    (hfields : ∀ d, readFields typ d = (read d).map inject id)
    (hbody : ∀ a, (inject a).body = enc a) (hunused : ∀ a, inject a ≠ .unused)
    (honto : ∀ inst, inst.type = typ ↔ ∃ a, inst = inject a) : ReadsType typ := by
  intro d d' inst hnone
  rw [hfields]
  constructor
  · rintro ⟨hread, herr⟩
    obtain ⟨rfl, rfl⟩ := Prod.mk.inj hread
    obtain ⟨-, -, hd, hrest⟩ := h.accepts rfl herr
    rw [hbody]
    exact ⟨(honto _).mpr ⟨_, rfl⟩, hd, hrest, fun h => absurd h (hunused _)⟩
  · rintro ⟨htype, rfl, hrest, -⟩
    obtain ⟨a, rfl⟩ := (honto _).mp htype
    rw [hbody] at hrest ⊢
    rw [h.inverts trivial hnone hrest]
    exact ⟨rfl, hnone⟩

/-- The type that is read in two ways. -/
theorem readsType_unused : ReadsType .unused := by
  intro d d' inst hnone
  have hlength := length_rest d
  by_cases hlong : 8 ≤ d.remaining
  · rw [readFields, if_pos hlong]
    constructor
    · rintro ⟨hread, herr⟩
      obtain ⟨rfl, rfl⟩ := Prod.mk.inj hread
      obtain ⟨herr1, -, hd2, hrest2⟩ := readUint32_reads.accepts rfl herr
      obtain ⟨-, -, hd1, hrest1⟩ := readUint32_reads.accepts rfl herr1
      refine ⟨rfl, ?_, ?_, nofun⟩
      · rw [Instruction.body, List.length_append, ← past_past, ← hd1]
        exact hd2
      · rw [hrest1, hrest2, Instruction.body, List.append_assoc]
    · rintro ⟨htype, rfl, hrest, hshort⟩
      cases inst with
      | unused =>
        -- the rest is too long for the reserved instruction
        have hrest_lt : d.rest.length < 8 := hshort rfl
        omega
      | requestUnitsDeprecated units additionalFee =>
        rw [Instruction.body, List.append_assoc] at hrest
        obtain ⟨d1, hread1, herr1, hrest1, hd1⟩ := readUint32_reads.next trivial hnone hrest
        rw [hread1]
        dsimp only
        rw [readUint32_reads.inverts trivial herr1 hrest1, hd1, past_past, Instruction.body,
          List.length_append]
        exact ⟨rfl, hnone⟩
      | _ => exact nomatch htype
  · rw [readFields, if_neg hlong]
    constructor
    · rintro ⟨hread, herr⟩
      obtain ⟨rfl, rfl⟩ := Prod.mk.inj hread
      exact ⟨rfl, rfl, rfl, fun _ => by omega⟩
    · rintro ⟨htype, rfl, hrest, -⟩
      cases inst with
      | unused => exact ⟨rfl, hnone⟩
      | requestUnitsDeprecated units additionalFee =>
        rw [hrest] at hlength
        simp only [Instruction.body, List.length_append, length_leBytes] at hlength
        omega
      | _ => exact nomatch htype

theorem readsType (typ : InstructionType) : ReadsType typ := by
  cases typ with
  | unused => exact readsType_unused
  | requestHeapFrame | setComputeUnitLimit | setLoadedAccountsDataSizeLimit =>
    refine readsType_of_reads readUint32_reads _ (fun d => rfl) (fun a => rfl) ?_ fun inst => ?_
    · exact fun _ h => nomatch h
    · cases inst <;> simp [Instruction.type]
  | setComputeUnitPrice =>
    refine readsType_of_reads readUint64_reads _ (fun d => rfl) (fun a => rfl) ?_ fun inst => ?_
    · exact fun _ h => nomatch h
    · cases inst <;> simp [Instruction.type]

theorem decodeFields_eq_ok {tag : UInt8} (hnone : d.err = none) :
    decodeFields tag d = .ok inst ↔ tag = inst.type.code ∧ ∃ tail, d.rest = inst.body ++ tail
      ∧ (inst = .unused → tail.length < 8) := by
  unfold decodeFields
  split
  next htag =>
    have hne : tag ≠ inst.type.code := fun h =>
      nomatch htag.symm.trans (InstructionType.ofCode_eq_some.mpr h)
    simp [hne]
  next typ htag =>
    obtain rfl := InstructionType.ofCode_eq_some.mp htag
    dsimp only
    rw [Decoder.check_eq_ok]
    constructor
    · rintro ⟨herr, hinst⟩
      obtain rfl := Except.ok.inj hinst
      obtain ⟨htype, -, hrest, hshort⟩ := (readsType typ hnone).mp ⟨rfl, herr⟩
      exact ⟨congrArg InstructionType.code htype.symm, _, hrest, hshort⟩
    · rintro ⟨hcode, tail, hrest, hshort⟩
      obtain rfl : typ = inst.type := Option.some.inj
        (htag.symm.trans (InstructionType.ofCode_eq_some.mpr hcode))
      have hpast := rest_past_of_eq hrest
      obtain ⟨hread, herr⟩ := (readsType inst.type hnone).mpr
        ⟨rfl, rfl, hpast.symm ▸ hrest, hpast.symm ▸ hshort⟩
      rw [hread]
      exact ⟨herr, rfl⟩

/-- **The decoder is the inverse of `Data`.** It returns an instruction exactly for the bytes
that `Data` writes for it, with anything behind them; behind the reserved instruction, which has
the type byte of a longer one, with fewer than eight bytes. -/
theorem computeBudget_decode_iff (data : Bytes) (inst : Instruction) :
    decodeInstruction data = .ok inst ↔ ∃ bytes tail, inst.data = .ok bytes
      ∧ data = bytes ++ tail ∧ (inst = .unused → tail.length < 8) := by
  show (newDecoder data).readUint8.2.check _ (decodeFields (newDecoder data).readUint8.1) = _ ↔ _
  rw [readUint8_reads.check_eq_ok, inst.data_eq]
  constructor
  · rintro ⟨tag, d, -, -, hd, hrest, hnext⟩
    have hnone : d.err = none := hd ▸ rfl
    obtain ⟨rfl, tail, htail, hshort⟩ := (decodeFields_eq_ok hnone).mp hnext
    exact ⟨_, tail, rfl, hrest.trans (congrArg _ htail), hshort⟩
  · rintro ⟨bytes, tail, hdata, rfl, hshort⟩
    obtain rfl := Except.ok.inj hdata
    exact ⟨inst.type.code, _, trivial, rfl, rfl, rfl,
      (decodeFields_eq_ok rfl).mpr ⟨rfl, tail, rfl, hshort⟩⟩

end Laws

end SolanaGo.ComputeBudget
