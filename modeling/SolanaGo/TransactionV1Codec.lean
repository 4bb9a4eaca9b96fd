/-
`transaction_v1.go`: the binary form of a v1 transaction, both ways.

The format keeps the lengths apart from what they count. The two list counts and the bit
mask of the configuration stand in the fixed 42-byte front, the instruction headers precede
all instruction payloads, and the number of signatures is a header byte. So the decoder
cuts the input by numbers it read earlier, and both directions are proved part by part:

* the configuration (`readConfig_appendValues`, `appendValues_readConfig`), where a mask that
  passes the checks is the mask of the fields it announces (`exists_configMask`);
* the instructions (`readInstructions_encode`, `readInstructions_eq_ok`), by induction on
  their number;
* the parts put together (`unmarshalBody_body`, `unmarshalBody_eq_ok`).
-/
import SolanaGo.PartialSigning

set_option autoImplicit false

namespace SolanaGo

open Codec

/-! ## The code -/

variable (tx : TransactionV1)

/-- `MarshalBinary`. -/
def TransactionV1.marshalBinary : Except Err Bytes := do
  tx.sanitize
  if tx.signatures.length ≠ tx.header.numRequiredSignatures.toNat then
    .error { msg := "v1 transaction: " ++ toString tx.signatures.length
      ++ " signatures, header requires " ++ toString tx.header.numRequiredSignatures.toNat }
  else
    let size := tx.signedSize + 64 * tx.signatures.length
    if transactionV1MaxSize < size then
      .error { msg := "v1 transaction: serialized size " ++ toString size
        ++ " exceeds the maximum of " ++ toString transactionV1MaxSize }
    else .ok (tx.appendSigned ++ joinArrays tx.signatures)

/-- `configKnownBits`. -/
def configKnownBits : UInt32 :=
  configBitPriorityFeeLo ||| configBitPriorityFeeHi ||| configBitComputeUnits
    ||| configBitLoadedDataSz ||| configBitHeapSize

/-- Read a word of `k` bytes off the front, if it is there. -/
def configWord (present : Bool) (k : ℕ) (values : Bytes) : Option ℕ × Bytes :=
  if present then (some (leValue (values.take k)), values.drop k) else (none, values)

/-- The configuration words, in ascending order of the bits that announce them. -/
def readConfig (mask : UInt32) (values : Bytes) : TransactionConfig :=
  let (fee, values) := configWord (mask &&& configBitPriorityFeeLo != 0) 8 values
  let (units, values) := configWord (mask &&& configBitComputeUnits != 0) 4 values
  let (loaded, values) := configWord (mask &&& configBitLoadedDataSz != 0) 4 values
  let (heap, _) := configWord (mask &&& configBitHeapSize != 0) 4 values
  { priorityFeeLamports := fee.map UInt64.ofNat
    computeUnitLimit := units.map UInt32.ofNat
    loadedAccountsDataSizeLimit := loaded.map UInt32.ofNat
    heapSize := heap.map UInt32.ofNat }

/-- One optional word of the configuration: assigned, and taken off the values, if the mask
announces it. -/
def assignWord {α : Type} (present : Bool) (k : ℕ) (ofNat : ℕ → α)
    (assign : TransactionConfig → α → TransactionConfig) (config : TransactionConfig)
    (values : Bytes) : TransactionConfig × Bytes :=
  if present then (assign config (ofNat (leValue (values.take k))), values.drop k)
  else (config, values)

/-- `tx.Config = TransactionConfig{}` and the four assignments behind it. -/
def TransactionV1.assignConfig (mask : UInt32) (values : Bytes) : TransactionV1 :=
  let tx := { tx with config := {} }
  let (config, values) := assignWord (mask &&& configBitPriorityFeeLo != 0) 8 UInt64.ofNat
    (fun config fee => { config with priorityFeeLamports := some fee }) tx.config values
  let (config, values) := assignWord (mask &&& configBitComputeUnits != 0) 4 UInt32.ofNat
    (fun config v => { config with computeUnitLimit := some v }) config values
  let (config, values) := assignWord (mask &&& configBitLoadedDataSz != 0) 4 UInt32.ofNat
    (fun config v => { config with loadedAccountsDataSizeLimit := some v }) config values
  let (config, _) := assignWord (mask &&& configBitHeapSize != 0) 4 UInt32.ofNat
    (fun config v => { config with heapSize := some v }) config values
  { tx with config }

/-- The instruction loop, from instruction `i` on: four bytes of `headers` say how much of
`rest` belongs to the instruction. -/
def readInstructions : (count i : ℕ) → (headers rest : Bytes) →
    Except Err (List CompiledInstruction × Bytes)
  | 0, _, _, rest => .ok ([], rest)
  | count + 1, i, headers, rest =>
    let numAccounts := (headers.getD 1 0).toNat
    let dataLen := leValue ((headers.drop 2).take 2)
    if rest.length < numAccounts + dataLen then
      .error { msg := "v1 transaction: truncated payload for instruction " ++ toString i }
    else do
      let ix : CompiledInstruction :=
        { programIDIndex := (headers.getD 0 0).toUInt16
          accounts := (rest.take numAccounts).map UInt8.toUInt16
          data := (rest.drop numAccounts).take dataLen }
      let (ixs, rest) ← readInstructions count (i + 1) (headers.drop 4)
        (rest.drop (numAccounts + dataLen))
      .ok (ix :: ixs, rest)

/-- The part of `UnmarshalBinary` after the fixed front, which has set the header and the
lifetime specifier of the receiver. -/
def TransactionV1.unmarshalBody (mask : UInt32) (numInstructions numAddresses : ℕ) (rest : Bytes) :
    Except Err TransactionV1 :=
  let unknown := mask &&& ~~~configKnownBits
  if unknown ≠ 0 then
    .error { msg := "v1 transaction: unknown config mask bits 0x"
      ++ String.ofList (Nat.toDigits 16 unknown.toNat) }
  else if (mask &&& configBitPriorityFeeLo != 0) ≠ (mask &&& configBitPriorityFeeHi != 0) then
    .error { msg := "v1 transaction: priority-fee config requires both mask bits 0 and 1" }
  else if rest.length < 32 * numAddresses then
    .error { msg := "v1 transaction: truncated addresses" }
  else
    let tx := { tx with accountKeys := splitArrays 32 numAddresses rest }
    let rest := rest.drop (32 * numAddresses)
    let configLen := 4 * onesCount32 mask
    if rest.length < configLen then
      .error { msg := "v1 transaction: truncated config values" }
    else
      let tx := tx.assignConfig mask (rest.take configLen)
      let rest := rest.drop configLen
      if rest.length < 4 * numInstructions then
        .error { msg := "v1 transaction: truncated instruction headers" }
      else do
        let (instructions, rest) ← readInstructions numInstructions 0
          (rest.take (4 * numInstructions)) (rest.drop (4 * numInstructions))
        let tx := { tx with instructions }
        let numSignatures := tx.header.numRequiredSignatures.toNat
        if rest.length < 64 * numSignatures then
          .error { msg := "v1 transaction: truncated signatures" }
        else
          let tx := { tx with signatures := splitArrays 64 numSignatures rest }
          if rest.length ≠ 64 * numSignatures then
            .error { msg := "v1 transaction: trailing data after signatures" }
          else do
            tx.sanitize
            .ok tx

/-- `UnmarshalBinary`, into the receiver `tx`. -/
def TransactionV1.unmarshalBinaryInto (data : Bytes) : Except Err TransactionV1 :=
  if transactionV1MaxSize < data.length then
    .error { msg := "v1 transaction: " ++ toString data.length
      ++ " bytes exceeds the maximum of " ++ toString transactionV1MaxSize }
  else if data.length < 42 then .error { msg := "v1 transaction: truncated header" }
  else if data.getD 0 0 ≠ transactionV1VersionByte then
    .error { msg := "v1 transaction: version byte " ++ toString (data.getD 0 0).toNat
      ++ ", want " ++ toString transactionV1VersionByte.toNat }
  else
    let tx := { tx with header :=
      { numRequiredSignatures := data.getD 1 0
        numReadonlySignedAccounts := data.getD 2 0
        numReadonlyUnsignedAccounts := data.getD 3 0 } }
    let mask := UInt32.ofNat (leValue ((data.drop 4).take 4))
    let tx := { tx with lifetimeSpecifier := ByteArr.copyFrom 32 (data.drop 8) }
    tx.unmarshalBody mask (data.getD 40 0).toNat (data.getD 41 0).toNat (data.drop 42)

/-- `UnmarshalBinary` into a new transaction, as `TransactionV1FromBytes` has it. What the
receiver held before is not part of the result (`unmarshalBinaryInto_eq`). -/
def TransactionV1.unmarshalBinary (data : Bytes) : Except Err TransactionV1 :=
  TransactionV1.unmarshalBinaryInto {} data

/-! ## The configuration -/

/-- The words assigned to an empty configuration are the words that were read. -/
theorem TransactionV1.assignConfig_eq (mask : UInt32) (values : Bytes) :
    tx.assignConfig mask values = { tx with config := readConfig mask values } := by
  unfold TransactionV1.assignConfig readConfig assignWord configWord
  cases (mask &&& configBitPriorityFeeLo != 0) <;>
    cases (mask &&& configBitComputeUnits != 0) <;>
      cases (mask &&& configBitLoadedDataSz != 0) <;>
        cases (mask &&& configBitHeapSize != 0) <;> rfl

/-- The mask that announces the given fields. -/
def configMask (fee units loaded heap : Bool) : UInt32 :=
  (if fee then configBitPriorityFeeLo ||| configBitPriorityFeeHi else 0)
    ||| (if units then configBitComputeUnits else 0)
    ||| (if loaded then configBitLoadedDataSz else 0)
    ||| (if heap then configBitHeapSize else 0)

theorem TransactionConfig.mask_eq (c : TransactionConfig) :
    c.mask = configMask c.priorityFeeLamports.isSome c.computeUnitLimit.isSome
      c.loadedAccountsDataSizeLimit.isSome c.heapSize.isSome := rfl

/-- What the decoder finds in such a mask. -/
theorem configMask_bits (fee units loaded heap : Bool) :
    let mask := configMask fee units loaded heap
    mask &&& ~~~configKnownBits = 0
      ∧ (mask &&& configBitPriorityFeeLo != 0) = fee
      ∧ (mask &&& configBitPriorityFeeHi != 0) = fee
      ∧ (mask &&& configBitComputeUnits != 0) = units
      ∧ (mask &&& configBitLoadedDataSz != 0) = loaded
      ∧ (mask &&& configBitHeapSize != 0) = heap
      ∧ onesCount32 mask = 2 * fee.toNat + units.toNat + loaded.toNat + heap.toNat
      ∧ mask.toNat < 32 := by
  revert fee units loaded heap
  decide +kernel

/-- The checks leave no other mask. -/
theorem exists_configMask {mask : UInt32} (hknown : mask &&& ~~~configKnownBits = 0)
    (hfee : (mask &&& configBitPriorityFeeLo != 0) = (mask &&& configBitPriorityFeeHi != 0)) :
    ∃ fee units loaded heap, mask = configMask fee units loaded heap := by
  have hall : ∀ n < 32, (UInt32.ofNat n &&& configBitPriorityFeeLo != 0)
      = (UInt32.ofNat n &&& configBitPriorityFeeHi != 0) →
      UInt32.ofNat n = configMask (UInt32.ofNat n &&& configBitPriorityFeeLo != 0)
        (UInt32.ofNat n &&& configBitComputeUnits != 0)
        (UInt32.ofNat n &&& configBitLoadedDataSz != 0)
        (UInt32.ofNat n &&& configBitHeapSize != 0) := by decide +kernel
  -- Bits above the known ones are clear, so the mask is below 32.
  have hand : mask &&& configKnownBits = mask := by
    refine UInt32.toBitVec_inj.mp (BitVec.eq_of_getLsbD_eq fun i hi => ?_)
    have hbit := congrArg (fun m : UInt32 => m.toBitVec.getLsbD i) hknown
    simp only [UInt32.toBitVec_and, UInt32.toBitVec_not, BitVec.getLsbD_and, BitVec.getLsbD_not,
      hi, decide_true, Bool.true_and, UInt32.toBitVec_zero, BitVec.getLsbD_zero] at hbit
    rw [UInt32.toBitVec_and, BitVec.getLsbD_and]
    revert hbit
    cases mask.toBitVec.getLsbD i <;> cases configKnownBits.toBitVec.getLsbD i <;> simp
  have hlow : mask.toNat < 32 := by
    rw [← hand, UInt32.toNat_and]
    exact Nat.and_lt_two_pow _ (by decide +kernel : configKnownBits.toNat < 2 ^ 5)
  have hmask : UInt32.ofNat mask.toNat = mask := UInt32.ofNat_toNat
  have h := hall mask.toNat hlow
  rw [hmask] at h
  exact ⟨_, _, _, _, h hfee⟩

/-- A word that was written is read back. -/
theorem configWord_append {α : Type} {toNat : α → ℕ} {k : ℕ} (hlt : ∀ a, toNat a < 256 ^ k)
    (v : Option α) (t : Bytes) :
    configWord v.isSome k ((v.elim [] fun a => leBytes k (toNat a)) ++ t) = (v.map toNat, t) := by
  cases v with
  | none => rfl
  | some a =>
    have hlen := length_leBytes k (toNat a)
    unfold configWord
    simp only [Option.isSome_some, if_true, Option.elim_some, Option.map_some]
    rw [List.take_left' hlen, List.drop_left' hlen, leValue_leBytes, Nat.mod_eq_of_lt (hlt a)]

/-- Reading the configuration words back, whatever follows. -/
theorem readConfig_appendValues (c : TransactionConfig) (t : Bytes) :
    readConfig c.mask (c.appendValues ++ t) = c := by
  have h64 : ∀ v : UInt64, v.toNat < 256 ^ 8 := fun v => v.toNat_lt
  have h32 : ∀ v : UInt32, v.toNat < 256 ^ 4 := fun v => v.toNat_lt
  obtain ⟨-, hfee, -, hunits, hloaded, hheap, -, -⟩ := configMask_bits
    c.priorityFeeLamports.isSome c.computeUnitLimit.isSome
    c.loadedAccountsDataSizeLimit.isSome c.heapSize.isSome
  unfold readConfig TransactionConfig.appendValues
  rw [c.mask_eq, hfee, hunits, hloaded, hheap]
  simp only [List.append_assoc, configWord_append h64, configWord_append h32, Option.map_map]
  have hid64 : UInt64.ofNat ∘ UInt64.toNat = id := funext fun v => UInt64.ofNat_toNat
  have hid32 : UInt32.ofNat ∘ UInt32.toNat = id := funext fun v => UInt32.ofNat_toNat
  rw [hid64, hid32, Option.map_id, Option.map_id]
  rfl

/-- What reading a word leaves, and that writing it again gives the bytes that were read. -/
theorem configWord_spec {α : Type} {toNat : α → ℕ} {ofNat : ℕ → α} {k : ℕ}
    (hinv : ∀ n < 256 ^ k, toNat (ofNat n) = n) (present : Bool) (values : Bytes)
    (hlen : k * present.toNat ≤ values.length) :
    let word := configWord present k values
    (word.1.map ofNat).isSome = present
      ∧ word.2.length = values.length - k * present.toNat
      ∧ ((word.1.map ofNat).elim [] fun a => leBytes k (toNat a)) ++ word.2 = values := by
  cases present with
  | false => exact ⟨rfl, rfl, rfl⟩
  | true =>
    have htake : (values.take k).length = k := by
      rw [List.length_take]
      simp only [Bool.toNat_true] at hlen
      omega
    refine ⟨rfl, by simp [configWord], ?_⟩
    have hlt := leValue_lt (values.take k)
    rw [htake] at hlt
    show leBytes k (toNat (ofNat (leValue (values.take k)))) ++ values.drop k = values
    rw [hinv _ hlt]
    nth_rewrite 1 [← htake]
    rw [leBytes_leValue, List.take_append_drop]

/-- The configuration that was read announces and writes the words it was read from. -/
theorem appendValues_readConfig {fee units loaded heap : Bool} {values : Bytes}
    (hlen : values.length = 4 * onesCount32 (configMask fee units loaded heap)) :
    let c := readConfig (configMask fee units loaded heap) values
    c.mask = configMask fee units loaded heap ∧ c.appendValues = values := by
  obtain ⟨-, hfee, -, hunits, hloaded, hheap, hcount, -⟩ := configMask_bits fee units loaded heap
  have h64 : ∀ n < 256 ^ 8, (UInt64.ofNat n).toNat = n := fun n hn => UInt64.toNat_ofNat_of_lt hn
  have h32 : ∀ n < 256 ^ 4, (UInt32.ofNat n).toNat = n := fun n hn => UInt32.toNat_ofNat_of_lt hn
  rw [hcount] at hlen
  obtain ⟨hsome1, hlen1, happ1⟩ := configWord_spec h64 fee values (by omega)
  obtain ⟨hsome2, hlen2, happ2⟩ := configWord_spec h32 units (configWord fee 8 values).2 (by omega)
  obtain ⟨hsome3, hlen3, happ3⟩ := configWord_spec h32 loaded
    (configWord units 4 (configWord fee 8 values).2).2 (by omega)
  obtain ⟨hsome4, hlen4, happ4⟩ := configWord_spec h32 heap
    (configWord loaded 4 (configWord units 4 (configWord fee 8 values).2).2).2 (by omega)
  -- The four words take up all of the bytes.
  have hend := List.eq_nil_of_length_eq_zero (hlen4.trans (by omega))
  rw [hend, List.append_nil] at happ4
  unfold readConfig
  rw [hfee, hunits, hloaded, hheap]
  refine ⟨?_, ?_⟩
  · rw [TransactionConfig.mask_eq]
    dsimp only
    rw [hsome1, hsome2, hsome3, hsome4]
  · unfold TransactionConfig.appendValues
    dsimp only
    rw [happ4, happ3, happ2, happ1]

/-! ## The instructions -/

/-- The instruction fits the bytes of its header and payload. -/
structure CompiledInstruction.FitsV1 (ix : CompiledInstruction) : Prop where
  program_le : ix.programIDIndex.toNat ≤ 255
  accounts_length_le : ix.accounts.length ≤ 255
  accounts_le : ∀ idx ∈ ix.accounts, idx.toNat ≤ 255
  data_length_le : ix.data.length ≤ 0xFFFF

theorem length_appendInstructionHeader (ix : CompiledInstruction) :
    (appendInstructionHeader ix).length = 4 := rfl

theorem length_encodeAll_headers (ixs : List CompiledInstruction) :
    (encodeAll appendInstructionHeader ixs).length = 4 * ixs.length := by
  induction ixs with
  | nil => rfl
  | cons ix ixs ih =>
    rw [encodeAll_cons, List.length_append, ih, length_appendInstructionHeader, List.length_cons]
    ring

/-- Instructions that were written are read back. -/
theorem readInstructions_encode {ixs : List CompiledInstruction} (hfit : ∀ ix ∈ ixs, ix.FitsV1)
    (i : ℕ) (t : Bytes) :
    readInstructions ixs.length i (encodeAll appendInstructionHeader ixs)
      (encodeAll appendInstructionPayload ixs ++ t) = .ok (ixs, t) := by
  induction ixs generalizing i with
  | nil => rfl
  | cons ix ixs ih =>
    have hix := hfit ix List.mem_cons_self
    have hnum : (UInt8.ofNat ix.accounts.length).toNat = ix.accounts.length :=
      UInt8.toNat_ofNat_of_lt (Nat.lt_succ_of_le hix.accounts_length_le)
    have hdata : leValue (leBytes 2 ix.data.length) = ix.data.length := by
      rw [leValue_leBytes, Nat.mod_eq_of_lt (by have := hix.data_length_le; omega)]
    -- The four bytes of the header, and the two parts of the payload.
    have hread0 : (encodeAll appendInstructionHeader (ix :: ixs)).getD 0 0
        = ix.programIDIndex.toUInt8 := rfl
    have hread1 : (encodeAll appendInstructionHeader (ix :: ixs)).getD 1 0
        = UInt8.ofNat ix.accounts.length := rfl
    have hread2 : ((encodeAll appendInstructionHeader (ix :: ixs)).drop 2).take 2
        = leBytes 2 ix.data.length := rfl
    have hread4 : (encodeAll appendInstructionHeader (ix :: ixs)).drop 4
        = encodeAll appendInstructionHeader ixs := rfl
    have hpay : encodeAll appendInstructionPayload (ix :: ixs) ++ t
        = ix.accounts.map UInt16.toUInt8
          ++ (ix.data ++ (encodeAll appendInstructionPayload ixs ++ t)) := by
      rw [encodeAll_cons, appendInstructionPayload, List.append_assoc, List.append_assoc]
    have hacc : (ix.accounts.map UInt16.toUInt8).length = ix.accounts.length :=
      List.length_map _
    rw [List.length_cons, readInstructions, hread0, hread1, hread2, hread4, hnum, hdata, hpay,
      ← List.drop_drop, List.take_left' hacc, List.drop_left' hacc, List.take_left' rfl,
      List.drop_left' rfl, ih fun x hx => hfit x (List.mem_cons_of_mem _ hx)]
    dsimp only
    rw [if_neg (by rw [List.length_append, List.length_append, hacc]; omega), ok_bind,
      toUInt16_toUInt8 hix.program_le, map_toUInt16_toUInt8 hix.accounts_le]

theorem drop_eq_getD_cons {data : Bytes} {n : ℕ} (h : n < data.length) :
    data.drop n = data.getD n 0 :: data.drop (n + 1) := by
  rw [List.drop_eq_getElem_cons h, List.getD_eq_getElem?_getD, List.getElem?_eq_getElem h,
    Option.getD_some]

/-- Instructions that were read are written back. -/
theorem readInstructions_eq_ok {count i : ℕ} {headers rest rest' : Bytes}
    {ixs : List CompiledInstruction} (hlen : headers.length = 4 * count)
    (h : readInstructions count i headers rest = .ok (ixs, rest')) :
    ixs.length = count ∧ headers = encodeAll appendInstructionHeader ixs
      ∧ rest = encodeAll appendInstructionPayload ixs ++ rest' := by
  induction count generalizing i headers rest ixs with
  | zero =>
    obtain ⟨rfl, rfl⟩ := Prod.mk.inj (Except.ok.inj h)
    exact ⟨rfl, List.eq_nil_of_length_eq_zero hlen, rfl⟩
  | succ count ih =>
    rw [readInstructions] at h
    obtain ⟨henough, h⟩ := guard_eq_ok.mp h
    obtain ⟨⟨ixs', rest''⟩, hrec, h⟩ := bind_eq_ok.mp h
    obtain ⟨rfl, rfl⟩ := Prod.mk.inj (Except.ok.inj h)
    obtain ⟨hcount, hheaders, hrest⟩ := ih (by rw [List.length_drop]; omega) hrec
    have hacc : (rest.take (headers.getD 1 0).toNat).length = (headers.getD 1 0).toNat := by
      rw [List.length_take]; omega
    have hdata : ((rest.drop (headers.getD 1 0).toNat).take
        (leValue ((headers.drop 2).take 2))).length = leValue ((headers.drop 2).take 2) := by
      rw [List.length_take, List.length_drop]; omega
    have htwo : ((headers.drop 2).take 2).length = 2 := by
      rw [List.length_take, List.length_drop]; omega
    refine ⟨by rw [List.length_cons, hcount], ?_, ?_⟩
    · have hword := leBytes_leValue ((headers.drop 2).take 2)
      rw [htwo] at hword
      rw [encodeAll_cons, ← hheaders, appendInstructionHeader, toUInt8_toUInt16, List.length_map,
        hacc, hdata, hword, UInt8.ofNat_toNat, List.cons_append, List.cons_append,
        ← List.drop_drop (i := 2) (j := 2), List.take_append_drop,
        ← drop_eq_getD_cons (by omega), ← drop_eq_getD_cons (by omega), List.drop_zero]
    · rw [encodeAll_cons, appendInstructionPayload, map_toUInt8_toUInt16, List.append_assoc,
        List.append_assoc, ← hrest, ← List.drop_drop, List.take_append_drop,
        List.take_append_drop]

/-! ## What sanitisation guarantees -/

theorem checkAccountIndexes_eq_ok {numAddresses i : ℕ} {accounts : List UInt16}
    (h : checkAccountIndexes numAddresses i accounts = .ok ()) :
    ∀ idx ∈ accounts, idx.toNat < numAddresses := by
  induction accounts with
  | nil => simp
  | cons idx accounts ih =>
    obtain ⟨hidx, h⟩ := guard_eq_ok.mp h
    intro x hx
    rcases List.mem_cons.mp hx with rfl | hx
    · omega
    · exact ih h x hx

/-- The instructions of a sanitised transaction fit their bytes. -/
theorem checkInstructions_eq_ok {numAddresses i : ℕ} (hfew : numAddresses ≤ 256)
    {ixs : List CompiledInstruction} (h : checkInstructions numAddresses i ixs = .ok ()) :
    ∀ ix ∈ ixs, ix.FitsV1 := by
  induction ixs generalizing i with
  | nil => simp
  | cons ix ixs ih =>
    obtain ⟨hprogram, h⟩ := guard_eq_ok.mp h
    obtain ⟨haccounts, h⟩ := guard_eq_ok.mp h
    obtain ⟨_, hindexes, h⟩ := bind_eq_ok.mp h
    obtain ⟨hdata, h⟩ := guard_eq_ok.mp h
    intro x hx
    rcases List.mem_cons.mp hx with rfl | hx
    · refine ⟨by omega, by omega, fun idx hidx => ?_, by omega⟩
      have := checkAccountIndexes_eq_ok hindexes idx hidx
      omega
    · exact ih h x hx

/-- The lists of a sanitised transaction fit the bytes of their lengths. -/
theorem TransactionV1.sanitize_fits {tx : TransactionV1} (h : tx.sanitize = .ok ()) :
    tx.accountKeys.length ≤ 64 ∧ tx.instructions.length ≤ 64
      ∧ ∀ ix ∈ tx.instructions, ix.FitsV1 := by
  unfold TransactionV1.sanitize at h
  obtain ⟨-, h⟩ := guard_eq_ok.mp h
  obtain ⟨-, h⟩ := guard_eq_ok.mp h
  obtain ⟨-, h⟩ := guard_eq_ok.mp h
  obtain ⟨hkeys, h⟩ := guard_eq_ok.mp h
  obtain ⟨-, h⟩ := guard_eq_ok.mp h
  have hkeys : tx.accountKeys.length ≤ 64 := by
    unfold transactionV1MaxAddresses at hkeys
    omega
  cases hdup : findDuplicate [] tx.accountKeys with
  | some key => rw [hdup] at h; exact absurd h (by simp)
  | none =>
    rw [hdup] at h
    obtain ⟨hixs, h⟩ := guard_eq_ok.mp h
    obtain ⟨_, hcheck, -⟩ := bind_eq_ok.mp h
    unfold transactionV1MaxInstructions at hixs
    exact ⟨hkeys, by omega, checkInstructions_eq_ok (by omega) hcheck⟩

/-! ## The whole transaction -/

/-- The bytes after the fixed front. -/
def TransactionV1.body : Bytes :=
  joinArrays tx.accountKeys ++ (tx.config.appendValues
    ++ (encodeAll appendInstructionHeader tx.instructions
      ++ (encodeAll appendInstructionPayload tx.instructions ++ joinArrays tx.signatures)))

theorem TransactionConfig.length_appendValues (c : TransactionConfig) :
    c.appendValues.length = 4 * onesCount32 c.mask := by
  obtain ⟨-, -, -, -, -, -, hcount, -⟩ := configMask_bits
    c.priorityFeeLamports.isSome c.computeUnitLimit.isSome
    c.loadedAccountsDataSizeLimit.isSome c.heapSize.isSome
  have hword : ∀ {α : Type} (k : ℕ) (f : α → ℕ) (v : Option α),
      (v.elim [] fun a => leBytes k (f a)).length = k * v.isSome.toNat := by
    intro α k f v
    cases v with
    | none => rfl
    | some a => rw [Option.elim_some, length_leBytes, Option.isSome_some, Bool.toNat_true, mul_one]
  unfold TransactionConfig.appendValues
  rw [c.mask_eq, hcount, List.length_append, List.length_append, List.length_append,
    hword 8 UInt64.toNat, hword 4 UInt32.toNat, hword 4 UInt32.toNat, hword 4 UInt32.toNat]
  omega

/-- The payload has the size the code computes for it. -/
theorem TransactionV1.length_appendSigned : tx.appendSigned.length = tx.signedSize := by
  have hpay : ∀ ix, (appendInstructionPayload ix).length = ix.accounts.length + ix.data.length := by
    intro ix
    rw [appendInstructionPayload, List.length_append, List.length_map]
  unfold TransactionV1.appendSigned TransactionV1.signedSize
  simp only [List.length_cons, List.length_append, length_leBytes, ByteArr.length_toList,
    length_joinArrays, length_encodeAll_headers, TransactionConfig.length_appendValues]
  rw [length_encodeAll, funext hpay]
  omega

/-- Decoding the parts of a transaction that passes the checks. -/
theorem TransactionV1.unmarshalBody_body {into tx : TransactionV1}
    (hheader : into.header = tx.header) (hlife : into.lifetimeSpecifier = tx.lifetimeSpecifier)
    (hs : tx.sanitize = .ok ())
    (hsigs : tx.signatures.length = tx.header.numRequiredSignatures.toNat) :
    into.unmarshalBody tx.config.mask tx.instructions.length tx.accountKeys.length tx.body
      = .ok tx := by
  obtain ⟨-, -, hfit⟩ := TransactionV1.sanitize_fits hs
  obtain ⟨hknown, hlo, hhi, -⟩ := configMask_bits
    tx.config.priorityFeeLamports.isSome tx.config.computeUnitLimit.isSome
    tx.config.loadedAccountsDataSizeLimit.isSome tx.config.heapSize.isSome
  rw [← TransactionConfig.mask_eq] at hknown hlo hhi
  have hkeys := length_joinArrays tx.accountKeys
  have hvalues := tx.config.length_appendValues
  have hheaders := length_encodeAll_headers tx.instructions
  have hend : (joinArrays tx.signatures).length = 64 * tx.header.numRequiredSignatures.toNat := by
    rw [length_joinArrays, hsigs]
  have hsplit := splitArrays_joinArrays tx.signatures []
  rw [List.append_nil, hsigs] at hsplit
  have hconfig := readConfig_appendValues tx.config []
  rw [List.append_nil] at hconfig
  unfold TransactionV1.unmarshalBody TransactionV1.body
  simp only [TransactionV1.assignConfig_eq, hheader, hlife]
  rw [if_neg (not_not.mpr hknown), if_neg (by rw [hlo, hhi]; simp),
    if_neg (by rw [List.length_append]; omega), splitArrays_joinArrays, List.drop_left' hkeys,
    if_neg (by rw [List.length_append]; omega), List.take_left' hvalues, List.drop_left' hvalues,
    if_neg (by rw [List.length_append]; omega), List.take_left' hheaders,
    List.drop_left' hheaders, readInstructions_encode hfit, ok_bind]
  dsimp only
  rw [if_neg (by omega), if_neg (not_not.mpr hend), hconfig, hsplit, hs, ok_bind]

/-- What was decoded has the parts it was decoded from. -/
theorem TransactionV1.unmarshalBody_eq_ok {into tx : TransactionV1} {mask : UInt32}
    {numInstructions numAddresses : ℕ} {rest : Bytes}
    (h : into.unmarshalBody mask numInstructions numAddresses rest = .ok tx) :
    tx.header = into.header ∧ tx.config.mask = mask
      ∧ tx.lifetimeSpecifier = into.lifetimeSpecifier
      ∧ tx.instructions.length = numInstructions ∧ tx.accountKeys.length = numAddresses
      ∧ tx.signatures.length = into.header.numRequiredSignatures.toNat ∧ tx.body = rest
      ∧ tx.sanitize = .ok () := by
  unfold TransactionV1.unmarshalBody at h
  simp only [TransactionV1.assignConfig_eq] at h
  obtain ⟨hknown, h⟩ := guard_eq_ok.mp h
  obtain ⟨hfee, h⟩ := guard_eq_ok.mp h
  obtain ⟨hkeys, h⟩ := guard_eq_ok.mp h
  obtain ⟨hvalues, h⟩ := guard_eq_ok.mp h
  obtain ⟨hheaders, h⟩ := guard_eq_ok.mp h
  obtain ⟨⟨instructions, rest'⟩, hread, h⟩ := bind_eq_ok.mp h
  obtain ⟨-, h⟩ := guard_eq_ok.mp h
  obtain ⟨hend, h⟩ := guard_eq_ok.mp h
  obtain ⟨_, hs, h⟩ := bind_eq_ok.mp h
  obtain rfl := Except.ok.inj h
  obtain ⟨fee, units, loaded, heap, rfl⟩ := exists_configMask (not_not.mp hknown) (not_not.mp hfee)
  obtain ⟨hmask, hwords⟩ := appendValues_readConfig (by
    rw [List.length_take, Nat.min_eq_left (not_lt.mp hvalues)])
  obtain ⟨hcount, hheads, hpays⟩ := readInstructions_eq_ok (by
    rw [List.length_take, Nat.min_eq_left (not_lt.mp hheaders)]) hread
  refine ⟨rfl, hmask, rfl, hcount, length_splitArrays .., length_splitArrays .., ?_, hs⟩
  unfold TransactionV1.body
  dsimp only at hend ⊢
  rw [hwords, ← hheads, joinArrays_splitArrays _ _ (by omega), joinArrays_splitArrays _ _ (by omega),
    List.take_of_length_le (by omega : rest'.length ≤ _), ← hpays, List.take_append_drop,
    List.take_append_drop, List.take_append_drop]

theorem TransactionV1.appendSigned_append :
    tx.appendSigned ++ joinArrays tx.signatures
      = transactionV1VersionByte :: tx.header.numRequiredSignatures
        :: tx.header.numReadonlySignedAccounts :: tx.header.numReadonlyUnsignedAccounts
        :: (leBytes 4 tx.config.mask.toNat ++ (tx.lifetimeSpecifier.toList
          ++ (UInt8.ofNat tx.instructions.length :: UInt8.ofNat tx.accountKeys.length
            :: tx.body))) := by
  unfold TransactionV1.appendSigned TransactionV1.body
  simp only [List.cons_append, List.append_assoc]

/-- The fixed front of a byte string that is long enough. -/
theorem front_eq {data : Bytes} (h : 42 ≤ data.length) :
    data = data.getD 0 0 :: data.getD 1 0 :: data.getD 2 0 :: data.getD 3 0
      :: ((data.drop 4).take 4 ++ ((ByteArr.copyFrom 32 (data.drop 8)).toList
        ++ (data.getD 40 0 :: data.getD 41 0 :: data.drop 42))) := by
  rw [ByteArr.toList_copyFrom (by rw [List.length_drop]; omega),
    ← drop_eq_getD_cons (by omega), ← drop_eq_getD_cons (by omega)]
  have hlife : (data.drop 8).take 32 ++ data.drop 40 = data.drop 8 := by
    rw [show 40 = 8 + 32 from rfl, ← List.drop_drop, List.take_append_drop]
  have hmask : (data.drop 4).take 4 ++ data.drop 8 = data.drop 4 := by
    rw [show 8 = 4 + 4 from rfl, ← List.drop_drop, List.take_append_drop]
  rw [hlife, hmask, ← drop_eq_getD_cons (by omega), ← drop_eq_getD_cons (by omega),
    ← drop_eq_getD_cons (by omega), ← drop_eq_getD_cons (by omega), List.drop_zero]

theorem getD_of_drop {data t : Bytes} {n : ℕ} {b : UInt8} (h : data.drop n = b :: t) :
    data.getD n 0 = b ∧ data.drop (n + 1) = t := by
  refine ⟨?_, ?_⟩
  · rw [List.getD_eq_getElem?_getD, ← Nat.add_zero n, ← List.getElem?_drop, h]
    rfl
  · rw [← List.drop_drop, h]
    rfl

/-- Decoding reads the fixed front and decodes the parts. -/
theorem TransactionV1.unmarshalBinary_front (header : MessageHeader) {mask : UInt32} (life : Hash)
    (numInstructions numAddresses : UInt8) (rest : Bytes) {data : Bytes}
    (hdata : data = transactionV1VersionByte :: header.numRequiredSignatures
      :: header.numReadonlySignedAccounts :: header.numReadonlyUnsignedAccounts
      :: (leBytes 4 mask.toNat ++ (life.toList ++ (numInstructions :: numAddresses :: rest))))
    (hsize : data.length ≤ transactionV1MaxSize) :
    TransactionV1.unmarshalBinary data
      = { header, lifetimeSpecifier := life : TransactionV1 }.unmarshalBody mask
        numInstructions.toNat numAddresses.toNat rest := by
  have hword := length_leBytes 4 mask.toNat
  have hmask : UInt32.ofNat (leValue (leBytes 4 mask.toNat)) = mask := by
    rw [leValue_leBytes, Nat.mod_eq_of_lt (show mask.toNat < 256 ^ 4 from mask.toNat_lt),
      UInt32.ofNat_toNat]
  -- What stands at the fixed offsets.
  have h4 : data.drop 4
      = leBytes 4 mask.toNat ++ (life.toList ++ (numInstructions :: numAddresses :: rest)) := by
    rw [hdata]
    rfl
  have h8 : data.drop 8 = life.toList ++ (numInstructions :: numAddresses :: rest) := by
    rw [show 8 = 4 + 4 from rfl, ← List.drop_drop, h4, List.drop_left' hword]
  have h40 : data.drop 40 = numInstructions :: numAddresses :: rest := by
    rw [show 40 = 8 + 32 from rfl, ← List.drop_drop, h8, List.drop_left' life.length_toList]
  obtain ⟨hixs, h41⟩ := getD_of_drop h40
  obtain ⟨hkeys, h42⟩ := getD_of_drop h41
  have hlong : 42 ≤ data.length := by
    have := congrArg List.length h41
    rw [List.length_drop, List.length_cons] at this
    omega
  unfold TransactionV1.unmarshalBinary TransactionV1.unmarshalBinaryInto
  rw [if_neg (by omega), if_neg (by omega), h4, List.take_left' hword, hmask, h8,
    ByteArr.copyFrom_append, hixs, hkeys, h42, hdata]
  exact if_neg fun h => h rfl

/-- A transaction that was marshalled is decoded as it was. -/
theorem TransactionV1.unmarshalBinary_marshalBinary {tx : TransactionV1} {buf : Bytes}
    (h : tx.marshalBinary = .ok buf) : TransactionV1.unmarshalBinary buf = .ok tx := by
  obtain ⟨_, hs, h⟩ := bind_eq_ok.mp h
  obtain ⟨hsigs, h⟩ := guard_eq_ok.mp h
  obtain ⟨hsize, h⟩ := guard_eq_ok.mp h
  obtain rfl := Except.ok.inj h
  obtain ⟨hkeys, hixs, -⟩ := TransactionV1.sanitize_fits hs
  have hlen : (tx.appendSigned ++ joinArrays tx.signatures).length
      = tx.signedSize + 64 * tx.signatures.length := by
    rw [List.length_append, tx.length_appendSigned, length_joinArrays]
  have hnumKeys : (UInt8.ofNat tx.accountKeys.length).toNat = tx.accountKeys.length :=
    UInt8.toNat_ofNat_of_lt (lt_of_le_of_lt hkeys (by decide))
  have hnumIxs : (UInt8.ofNat tx.instructions.length).toNat = tx.instructions.length :=
    UInt8.toNat_ofNat_of_lt (lt_of_le_of_lt hixs (by decide))
  rw [TransactionV1.unmarshalBinary_front tx.header tx.lifetimeSpecifier _ _ tx.body
    tx.appendSigned_append (by omega), hnumKeys, hnumIxs]
  exact TransactionV1.unmarshalBody_body rfl rfl hs (not_not.mp hsigs)

/-- Bytes that were decoded are marshalled as they were. -/
theorem TransactionV1.marshalBinary_unmarshalBinary {data : Bytes} {tx : TransactionV1}
    (h : TransactionV1.unmarshalBinary data = .ok tx) :
    data.length ≤ transactionV1MaxSize ∧ tx.marshalBinary = .ok data := by
  unfold TransactionV1.unmarshalBinary TransactionV1.unmarshalBinaryInto at h
  obtain ⟨hsize, h⟩ := guard_eq_ok.mp h
  obtain ⟨hlong, h⟩ := guard_eq_ok.mp h
  obtain ⟨hversion, h⟩ := guard_eq_ok.mp h
  obtain ⟨hheader, hmask, hlife, hixs, hkeys, hsigs, hbody, hs⟩ := TransactionV1.unmarshalBody_eq_ok h
  have hword : leBytes 4 tx.config.mask.toNat = (data.drop 4).take 4 := by
    have hfour : ((data.drop 4).take 4).length = 4 := by
      rw [List.length_take, List.length_drop]
      omega
    have hlt := leValue_lt ((data.drop 4).take 4)
    have hback := leBytes_leValue ((data.drop 4).take 4)
    rw [hfour] at hlt hback
    rw [hmask, UInt32.toNat_ofNat_of_lt' hlt, hback]
  have hdata : tx.appendSigned ++ joinArrays tx.signatures = data := by
    rw [tx.appendSigned_append, hheader, hword, hlife, hixs, hkeys, hbody, UInt8.ofNat_toNat,
      UInt8.ofNat_toNat, ← not_not.mp hversion]
    exact (front_eq (not_lt.mp hlong)).symm
  have hlen : tx.signedSize + 64 * tx.signatures.length = data.length := by
    rw [← hdata, List.length_append, tx.length_appendSigned, length_joinArrays]
  refine ⟨not_lt.mp hsize, ?_⟩
  unfold TransactionV1.marshalBinary
  rw [hs, ok_bind, if_neg (not_not.mpr (by rw [hsigs, hheader]))]
  dsimp only
  rw [if_neg (by omega), hdata]

/-- **The v1 codec.** What `MarshalBinary` writes is decoded to the same transaction, and
what `UnmarshalBinary` accepts has at most 4096 bytes and is marshalled to the same bytes. -/
theorem transactionV1_codec :
    (∀ (tx : TransactionV1) (buf : Bytes), tx.marshalBinary = .ok buf →
      TransactionV1.unmarshalBinary buf = .ok tx) ∧
    (∀ (data : Bytes) (tx : TransactionV1), TransactionV1.unmarshalBinary data = .ok tx →
      data.length ≤ 4096 ∧ tx.marshalBinary = .ok data) :=
  ⟨fun _ _ => TransactionV1.unmarshalBinary_marshalBinary,
    fun _ _ => TransactionV1.marshalBinary_unmarshalBinary⟩

/-- A transaction with a priority fee, a heap size, two signatures and an instruction. -/
def sampleV1 : TransactionV1 :=
  { samplePairV1 with
    config := { priorityFeeLamports := some 5000, heapSize := some 65536 }
    signatures := [ByteArr.copyFrom 64 [1, 7], ByteArr.copyFrom 64 [1, 8]] }

/-- It is marshalled to 284 bytes, and they are decoded. -/
theorem transactionV1_codec_sample :
    ∃ buf, sampleV1.marshalBinary = .ok buf ∧ buf.length = 284
      ∧ TransactionV1.unmarshalBinary buf = .ok sampleV1 := by
  have hbuf : sampleV1.marshalBinary
      = .ok (sampleV1.appendSigned ++ joinArrays sampleV1.signatures) := by decide +kernel
  exact ⟨_, hbuf, by decide +kernel, transactionV1_codec.1 _ _ hbuf⟩

end SolanaGo
