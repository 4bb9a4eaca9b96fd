/-
The token instructions with optional public keys, and the SPL option rule.

`Spl` is the reader of the other side: an option is one tag byte, a zero alone means that
there is no key, a one is followed by the key; whatever is not needed is not looked at. It
is not part of the package. `initialize mint` and `initialize mint 2` write their option by
that rule, so the reader finds their fields (`readInitializeMint_data`).
-/
import SolanaGo.Bin.Fields

set_option autoImplicit false

namespace SolanaGo

open Codec hiding Decoder
open Bin

/-! ## The SPL option rule -/

namespace Spl

/-- One byte. -/
def readByte : Bytes → Option (UInt8 × Bytes)
  | [] => none
  | b :: data => some (b, data)

/-- A key. -/
def readKey (data : Bytes) : Option (PublicKey × Bytes) :=
  if publicKeyLength ≤ data.length then
    some (ByteArr.copyFrom publicKeyLength data, data.drop publicKeyLength)
  else none

/-- A little-endian word of `k` bytes. -/
def readWord (k : ℕ) (data : Bytes) : Option (ℕ × Bytes) :=
  if k ≤ data.length then some (leValue (data.take k), data.drop k) else none

/-- An optional key: tag zero alone, or tag one and the key. -/
def readOption : Bytes → Option (Option PublicKey × Bytes)
  | [] => none
  | tag :: data =>
    if tag = 0 then some (none, data)
    else if tag = 1 then (readKey data).map fun (key, data) => (some key, data)
    else none

@[simp] theorem readKey_append (key : PublicKey) (t : Bytes) :
    readKey (key.toList ++ t) = some (key, t) := by
  have hlen : publicKeyLength ≤ (key.toList ++ t).length := by
    rw [List.length_append, key.length_toList]
    exact Nat.le_add_right _ _
  unfold readKey
  rw [if_pos hlen, ByteArr.copyFrom_append, List.drop_left' key.length_toList]

@[simp] theorem readWord_append (k n : ℕ) (t : Bytes) :
    readWord k (leBytes k n ++ t) = some (n % 256 ^ k, t) := by
  have hlen := length_leBytes k n
  unfold readWord
  rw [if_pos (by rw [List.length_append]; omega), List.take_left' hlen, List.drop_left' hlen,
    leValue_leBytes]

@[simp] theorem readOption_zero (t : Bytes) : readOption (0 :: t) = some (none, t) := rfl

@[simp] theorem readOption_one (key : PublicKey) (t : Bytes) :
    readOption (1 :: (key.toList ++ t)) = some (some key, t) := by
  rw [readOption, if_neg (by decide), if_pos rfl, readKey_append]
  rfl

/-- The bytes of an optional key. -/
def optionBytes : Option PublicKey → Bytes
  | none => [0]
  | some key => 1 :: key.toList

@[simp] theorem readOption_append (key : Option PublicKey) (t : Bytes) :
    readOption (optionBytes key ++ t) = some (key, t) := by
  cases key with
  | none => rfl
  | some key => exact readOption_one key t

end Spl

/-! ## Writing an option by the rule -/

/-- `enc.WriteOption(key != nil)`, and the key if there is one. -/
def Bin.Encoder.writeOptionalKey (key : Option PublicKey) (enc : Encoder) : Encoder :=
  let enc := enc.writeOption key.isSome
  match key with
  | some key => enc.writePublicKey key
  | none => enc

theorem Bin.Encoder.writeOptionalKey_eq (key : Option PublicKey) (enc : Encoder) :
    enc.writeOptionalKey key = enc.append (Spl.optionBytes key) := by
  cases key with
  | none => rfl
  | some key =>
    show (enc.append [1]).append key.toList = _
    rw [Encoder.append_append]
    rfl

namespace Token

/-! ## `InitializeMint` and `InitializeMint2` -/

/-- `InitializeMintInstruction`. -/
def initializeMintInstruction : UInt8 := 0

/-- `InitializeMint2Instruction`. -/
def initializeMint2Instruction : UInt8 := 20

/-- `type InitializeMint struct`, without the accounts. -/
structure InitializeMint where
  decimals : UInt8
  mintAuthority : PublicKey
  freezeAuthority : Option PublicKey
  deriving DecidableEq

/-- `data`. -/
def InitializeMint.dataAs (inst : InitializeMint) (typ : UInt8) : Except Err Bytes :=
  let enc := newEncoder []
  let enc := enc.writeUint8 typ
  let enc := enc.writeUint8 inst.decimals
  let enc := enc.writePublicKey inst.mintAuthority
  let enc := enc.writeOptionalKey inst.freezeAuthority
  enc.result

/-- `InitializeMint.Data`. -/
def InitializeMint.data (inst : InitializeMint) : Except Err Bytes :=
  inst.dataAs initializeMintInstruction

/-- `InitializeMint2.Data`, on the embedded `InitializeMint`. -/
def InitializeMint.data2 (inst : InitializeMint) : Except Err Bytes :=
  inst.dataAs initializeMint2Instruction

/-- The other side's reader, for both. -/
def readInitializeMint (data : Bytes) : Option (UInt8 × InitializeMint) := do
  let (typ, data) ← Spl.readByte data
  let (decimals, data) ← Spl.readByte data
  let (mintAuthority, data) ← Spl.readKey data
  let (freezeAuthority, _) ← Spl.readOption data
  some (typ, { decimals, mintAuthority, freezeAuthority })

theorem InitializeMint.dataAs_eq (inst : InitializeMint) (typ : UInt8) :
    inst.dataAs typ = .ok (typ :: inst.decimals :: (inst.mintAuthority.toList
      ++ Spl.optionBytes inst.freezeAuthority)) := by
  unfold InitializeMint.dataAs
  simp only [Encoder.writeOptionalKey_eq, Encoder.writePublicKey, Encoder.writeUint8,
    Encoder.append_append, Encoder.result_append]
  rfl

/-- The reader finds the type and the fields. -/
theorem readInitializeMint_data (inst : InitializeMint) (typ : UInt8) :
    ∃ data, inst.dataAs typ = .ok data ∧ readInitializeMint data = some (typ, inst) := by
  refine ⟨_, inst.dataAs_eq typ, ?_⟩
  have hoption : Spl.readOption (Spl.optionBytes inst.freezeAuthority)
      = some (inst.freezeAuthority, []) := by
    have happend := Spl.readOption_append inst.freezeAuthority []
    rwa [List.append_nil] at happend
  simp [readInitializeMint, Spl.readByte, hoption]

end Token

end SolanaGo
