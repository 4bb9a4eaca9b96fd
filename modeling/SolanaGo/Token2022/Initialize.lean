/-
The Token-2022 instructions with optional public keys: `InitializeMintCloseAuthority` and
`InitializeTransferFeeConfig`.

The first writes its option by the SPL rule. The second writes 32 zero bytes behind the
tag of an absent authority, and its own decoder skips them; a reader that follows the rule
takes them for what comes next. As they are zeros it reads no second authority, no basis
points and no maximum fee, so it goes wrong exactly where there is one of these behind an
absent authority (`readInitializeTransferFeeConfig_iff`).
-/
import SolanaGo.Token.Initialize

set_option autoImplicit false

namespace SolanaGo.Token2022

open Codec hiding Decoder
open Bin

/-! ## The instructions -/

/-- `InitializeMintCloseAuthorityInstruction`. -/
def initializeMintCloseAuthorityInstruction : UInt8 := 25

/-- `TransferFeeExtensionInstruction`. -/
def transferFeeExtensionInstruction : UInt8 := 26

/-- `type InitializeMintCloseAuthority struct`, without the accounts. -/
structure InitializeMintCloseAuthority where
  closeAuthority : Option PublicKey
  deriving DecidableEq

/-- `Data`. -/
def InitializeMintCloseAuthority.data (inst : InitializeMintCloseAuthority) : Except Err Bytes :=
  let enc := newEncoder []
  let enc := enc.writeUint8 initializeMintCloseAuthorityInstruction
  let enc := enc.writeOptionalKey inst.closeAuthority
  enc.result

/-- `type InitializeTransferFeeConfig struct`, without the accounts. -/
structure InitializeTransferFeeConfig where
  transferFeeConfigAuthority : Option PublicKey
  withdrawWithheldAuthority : Option PublicKey
  transferFeeBasisPoints : UInt16
  maximumFee : UInt64
  deriving DecidableEq

/-- `enc.WriteOption(key != nil)`, and the key or a zero key. -/
def writePaddedKey (key : Option PublicKey) (enc : Encoder) : Encoder :=
  let enc := enc.writeOption key.isSome
  match key with
  | none => enc.writePublicKey (ByteArr.zero 32)
  | some key => enc.writePublicKey key

variable (inst : InitializeTransferFeeConfig)

/-- `Data`. -/
def InitializeTransferFeeConfig.data : Except Err Bytes :=
  let enc := newEncoder []
  let enc := enc.writeUint8 transferFeeExtensionInstruction
  let enc := enc.writeUint8 0
  let enc := writePaddedKey inst.transferFeeConfigAuthority enc
  let enc := writePaddedKey inst.withdrawWithheldAuthority enc
  let enc := enc.writeUint16 inst.transferFeeBasisPoints
  let enc := enc.writeUint64 inst.maximumFee
  enc.result

/-! ## The other side's readers -/

/-- The reader of `InitializeMintCloseAuthority`. -/
def readInitializeMintCloseAuthority (data : Bytes) :
    Option (UInt8 × InitializeMintCloseAuthority) := do
  let (typ, data) ← Spl.readByte data
  let (closeAuthority, _) ← Spl.readOption data
  some (typ, { closeAuthority })

/-- The reader of `InitializeTransferFeeConfig`. -/
def readInitializeTransferFeeConfig (data : Bytes) :
    Option (UInt8 × UInt8 × InitializeTransferFeeConfig) := do
  let (typ, data) ← Spl.readByte data
  let (sub, data) ← Spl.readByte data
  let (transferFeeConfigAuthority, data) ← Spl.readOption data
  let (withdrawWithheldAuthority, data) ← Spl.readOption data
  let (basisPoints, data) ← Spl.readWord 2 data
  let (maximumFee, _) ← Spl.readWord 8 data
  some (typ, sub,
    { transferFeeConfigAuthority
      withdrawWithheldAuthority
      transferFeeBasisPoints := UInt16.ofNat basisPoints
      maximumFee := UInt64.ofNat maximumFee })

/-- The reader, part by part. -/
theorem readInitializeTransferFeeConfig_eq {typ sub : UInt8} {data data1 data2 data3 data4 : Bytes}
    {config withdraw : Option PublicKey} {points fee : ℕ}
    (h1 : Spl.readOption data = some (config, data1))
    (h2 : Spl.readOption data1 = some (withdraw, data2))
    (h3 : Spl.readWord 2 data2 = some (points, data3))
    (h4 : Spl.readWord 8 data3 = some (fee, data4)) :
    readInitializeTransferFeeConfig (typ :: sub :: data)
      = some (typ, sub, ⟨config, withdraw, UInt16.ofNat points, UInt64.ofNat fee⟩) := by
  simp [readInitializeTransferFeeConfig, Spl.readByte, h1, h2, h3, h4]

/-! ## The close authority -/

theorem readInitializeMintCloseAuthority_data (inst : InitializeMintCloseAuthority) :
    ∃ data, inst.data = .ok data ∧ readInitializeMintCloseAuthority data
      = some (initializeMintCloseAuthorityInstruction, inst) := by
  have hdata : inst.data
      = .ok (initializeMintCloseAuthorityInstruction :: Spl.optionBytes inst.closeAuthority) := by
    unfold InitializeMintCloseAuthority.data
    simp only [Encoder.writeOptionalKey_eq, Encoder.writeUint8, Encoder.append_append,
      Encoder.result_append]
    rfl
  have hoption : Spl.readOption (Spl.optionBytes inst.closeAuthority)
      = some (inst.closeAuthority, []) := by
    have happend := Spl.readOption_append inst.closeAuthority []
    rwa [List.append_nil] at happend
  refine ⟨_, hdata, ?_⟩
  simp [readInitializeMintCloseAuthority, Spl.readByte, hoption]

/-! ## The transfer fee configuration -/

/-- The tag and the 32 bytes that are always written. -/
def paddedBytes : Option PublicKey → Bytes
  | none => 0 :: (ByteArr.zero 32).toList
  | some key => 1 :: key.toList

theorem writePaddedKey_eq (key : Option PublicKey) (enc : Encoder) :
    writePaddedKey key enc = enc.append (paddedBytes key) := by
  cases key with
  | none =>
    show (enc.append [0]).append _ = _
    rw [Encoder.append_append]
    rfl
  | some key =>
    show (enc.append [1]).append _ = _
    rw [Encoder.append_append]
    rfl

/-- The two numbers. -/
def InitializeTransferFeeConfig.numbers : Bytes :=
  leBytes 2 inst.transferFeeBasisPoints.toNat ++ leBytes 8 inst.maximumFee.toNat

theorem InitializeTransferFeeConfig.data_eq :
    inst.data = .ok (transferFeeExtensionInstruction :: 0
      :: (paddedBytes inst.transferFeeConfigAuthority
        ++ (paddedBytes inst.withdrawWithheldAuthority ++ inst.numbers))) := by
  unfold InitializeTransferFeeConfig.data
  simp only [writePaddedKey_eq, Encoder.writeUint8, Encoder.writeUint16, Encoder.writeUint64,
    Encoder.append_append, Encoder.result_append, List.append_assoc]
  rfl

/-- Where the reader stands in zeros it reads numbers that are zero. -/
theorem readWords_zeros {n : ℕ} (h : 10 ≤ n) (t : Bytes) :
    ∃ rest, Spl.readWord 2 (List.replicate n 0 ++ t) = some (0, List.replicate (n - 2) 0 ++ t)
      ∧ Spl.readWord 8 (List.replicate (n - 2) 0 ++ t) = some (0, rest) := by
  have hword : ∀ k m, k ≤ m → Spl.readWord k (List.replicate m (0 : UInt8) ++ t)
      = some (0, List.replicate (m - k) 0 ++ t) := by
    intro k m hk
    have hsplit : List.replicate m (0 : UInt8)
        = List.replicate k 0 ++ List.replicate (m - k) 0 := by
      rw [List.replicate_append_replicate, Nat.add_sub_cancel' hk]
    have hzero : List.replicate k (0 : UInt8) = leBytes k 0 := by
      clear hsplit hk
      induction k with
      | zero => rfl
      | succ k ih => rw [List.replicate_succ, ih]; rfl
    rw [hsplit, List.append_assoc, hzero, Spl.readWord_append, Nat.zero_mod]
  exact ⟨_, hword 2 n (by omega), hword 8 (n - 2) (by omega)⟩

/-- The numbers of an instruction are read back. -/
theorem readWords_numbers :
    Spl.readWord 2 inst.numbers
        = some (inst.transferFeeBasisPoints.toNat, leBytes 8 inst.maximumFee.toNat)
      ∧ Spl.readWord 8 (leBytes 8 inst.maximumFee.toNat)
        = some (inst.maximumFee.toNat, []) := by
  have hpoints : inst.transferFeeBasisPoints.toNat < 256 ^ 2 := inst.transferFeeBasisPoints.toNat_lt
  have hfee : inst.maximumFee.toNat < 256 ^ 8 := inst.maximumFee.toNat_lt
  constructor
  · unfold InitializeTransferFeeConfig.numbers
    rw [Spl.readWord_append, Nat.mod_eq_of_lt hpoints]
  · have happend := Spl.readWord_append 8 inst.maximumFee.toNat []
    rwa [List.append_nil, Nat.mod_eq_of_lt hfee] at happend

/-- What the reader finds: zeros, from the first absent authority on. -/
def InitializeTransferFeeConfig.found : InitializeTransferFeeConfig :=
  match inst.transferFeeConfigAuthority, inst.withdrawWithheldAuthority with
  | some _, some _ => inst
  | some key, none => ⟨some key, none, 0, 0⟩
  | none, _ => ⟨none, none, 0, 0⟩

theorem readInitializeTransferFeeConfig_data :
    ∃ data, inst.data = .ok data ∧ readInitializeTransferFeeConfig data
      = some (transferFeeExtensionInstruction, 0, inst.found) := by
  refine ⟨_, inst.data_eq, ?_⟩
  obtain ⟨config, withdraw, points, fee⟩ := inst
  cases config with
  | none =>
    -- The first option ends at its tag, the second one is the first zero behind it.
    obtain ⟨rest, hpoints, hfee⟩ := readWords_zeros (n := 31) (by decide)
      (paddedBytes withdraw ++ InitializeTransferFeeConfig.numbers ⟨none, withdraw, points, fee⟩)
    exact readInitializeTransferFeeConfig_eq (Spl.readOption_zero _) (Spl.readOption_zero _)
      hpoints hfee
  | some key =>
    cases withdraw with
    | none =>
      -- The second option ends at its tag, and the numbers are read from the zeros.
      obtain ⟨rest, hpoints, hfee⟩ := readWords_zeros (n := 32) (by decide)
        (InitializeTransferFeeConfig.numbers ⟨some key, none, points, fee⟩)
      exact readInitializeTransferFeeConfig_eq (Spl.readOption_one key _)
        (Spl.readOption_zero _) hpoints hfee
    | some key' =>
      obtain ⟨hpoints, hfee⟩ := readWords_numbers ⟨some key, some key', points, fee⟩
      refine (readInitializeTransferFeeConfig_eq (Spl.readOption_one key _)
        (Spl.readOption_one key' _) hpoints hfee).trans ?_
      rw [UInt16.ofNat_toNat, UInt64.ofNat_toNat]
      rfl

/-- The numbers are zero and there is no second authority. -/
def InitializeTransferFeeConfig.EndsInZeros : Prop :=
  inst.withdrawWithheldAuthority = none ∧ inst.transferFeeBasisPoints = 0 ∧ inst.maximumFee = 0

theorem InitializeTransferFeeConfig.found_eq_iff :
    inst.found = inst ↔ (inst.transferFeeConfigAuthority.isSome = true
      ∧ inst.withdrawWithheldAuthority.isSome = true) ∨ inst.EndsInZeros := by
  obtain ⟨config, withdraw, points, fee⟩ := inst
  unfold InitializeTransferFeeConfig.found InitializeTransferFeeConfig.EndsInZeros
  cases config <;> cases withdraw <;> simp [eq_comm]

/-- **The transfer fee configuration.** The reader finds the fields if both authorities are
present, or if all that stands behind an absent one is zero. -/
theorem readInitializeTransferFeeConfig_iff :
    (∃ data, inst.data = .ok data ∧ readInitializeTransferFeeConfig data
        = some (transferFeeExtensionInstruction, 0, inst))
      ↔ (inst.transferFeeConfigAuthority.isSome = true
          ∧ inst.withdrawWithheldAuthority.isSome = true) ∨ inst.EndsInZeros := by
  rw [← inst.found_eq_iff]
  obtain ⟨data, hdata, hfound⟩ := readInitializeTransferFeeConfig_data inst
  constructor
  · rintro ⟨data', hdata', hread⟩
    obtain rfl : data = data' := Except.ok.inj (hdata.symm.trans hdata')
    rw [hfound] at hread
    exact (Prod.mk.inj (Prod.mk.inj (Option.some.inj hread)).2).2
  · intro heq
    rw [heq] at hfound
    exact ⟨data, hdata, hfound⟩

/-! ## All four -/

/-- The instructions with optional keys. -/
inductive OptionalKeysInstruction where
  | initializeMint (inst : Token.InitializeMint)
  | initializeMint2 (inst : Token.InitializeMint)
  | initializeMintCloseAuthority (inst : InitializeMintCloseAuthority)
  | initializeTransferFeeConfig (inst : InitializeTransferFeeConfig)

/-- The reader finds the type and exactly the fields in `Data`. -/
def OptionalKeysInstruction.ReadBack : OptionalKeysInstruction → Prop
  | .initializeMint inst => ∃ data, inst.data = .ok data
      ∧ Token.readInitializeMint data = some (Token.initializeMintInstruction, inst)
  | .initializeMint2 inst => ∃ data, inst.data2 = .ok data
      ∧ Token.readInitializeMint data = some (Token.initializeMint2Instruction, inst)
  | .initializeMintCloseAuthority inst => ∃ data, inst.data = .ok data
      ∧ readInitializeMintCloseAuthority data
        = some (initializeMintCloseAuthorityInstruction, inst)
  | .initializeTransferFeeConfig inst => ∃ data, inst.data = .ok data
      ∧ readInitializeTransferFeeConfig data = some (transferFeeExtensionInstruction, 0, inst)

/-- The instruction is not a transfer fee configuration with something behind an absent
authority. -/
def OptionalKeysInstruction.NothingMisread : OptionalKeysInstruction → Prop
  | .initializeTransferFeeConfig inst =>
    (inst.transferFeeConfigAuthority.isSome = true ∧ inst.withdrawWithheldAuthority.isSome = true)
      ∨ inst.EndsInZeros
  | _ => True

/-- **Optional keys.** A reader that follows the SPL option rule finds exactly the fields of
an instruction unless it is a transfer fee configuration with a second authority, basis
points or a maximum fee behind an absent authority. -/
theorem optionalKeys_iff (inst : OptionalKeysInstruction) :
    inst.ReadBack ↔ inst.NothingMisread := by
  cases inst with
  | initializeMint inst => exact iff_of_true (Token.readInitializeMint_data inst _) trivial
  | initializeMint2 inst => exact iff_of_true (Token.readInitializeMint_data inst _) trivial
  | initializeMintCloseAuthority inst =>
    exact iff_of_true (readInitializeMintCloseAuthority_data inst) trivial
  | initializeTransferFeeConfig inst => exact readInitializeTransferFeeConfig_iff inst

/-- A configuration without authorities, with one percent and a maximum. -/
def unownedConfig : InitializeTransferFeeConfig where
  transferFeeConfigAuthority := none
  withdrawWithheldAuthority := none
  transferFeeBasisPoints := 100
  maximumFee := 5000

/-- **A fee that is not found.** `Data` succeeds, and the reader finds no fee in it. -/
theorem unownedConfig_misread :
    ∃ data, unownedConfig.data = .ok data
      ∧ readInitializeTransferFeeConfig data = some (transferFeeExtensionInstruction, 0,
        { unownedConfig with transferFeeBasisPoints := 0, maximumFee := 0 })
      ∧ ¬(OptionalKeysInstruction.initializeTransferFeeConfig unownedConfig).ReadBack := by
  refine ⟨_, unownedConfig.data_eq, by decide +kernel, ?_⟩
  rintro ⟨data, hdata, hread⟩
  rw [unownedConfig.data_eq] at hdata
  obtain rfl := Except.ok.inj hdata
  exact absurd hread (by decide +kernel)

end SolanaGo.Token2022
