/-
Bounds on what the decoders of the program packages allocate.

Byte fields are windows into the input or copies of them, so none is longer than what is left
behind its length (`length_readBytes_le` and its two corollaries). A count that was compared with
what is left makes no list longer than that either (`checkedMake_within`), and neither does a loop
that appends one element for bytes it has read.

# The exception

The creators of Token Metadata are announced by four bytes that nothing is compared with.
`Data.mem_made_iff` says it in terms of the input: the list that is made has exactly the size
that is announced behind the three strings, the fee and the tag, with whatever stands behind the
count left. So the two halves of "no list is longer than the input, because every count is
compared with what is left" fail on different inputs, and `made_le_length_iff` has an exact
condition for each.
-/
import SolanaGo.Allocations
import SolanaGo.Bin.Checked

set_option autoImplicit false

namespace SolanaGo

open Codec hiding Decoder
open Bin

/-! ## Byte fields -/

namespace Bin.Decoder

theorem remaining_le (d : Decoder) : d.remaining ≤ d.data.length := Nat.sub_le _ _

/-- A raw read returns no more than what is left, whatever length it is asked for. -/
theorem length_readBytes_le (n : ℤ) (d : Decoder) : (d.readBytes n).1.length ≤ d.remaining := by
  unfold readBytes
  split
  · exact Nat.zero_le _
  · unfold window remaining
    rw [List.length_take, List.length_drop]
    omega

theorem length_readBorshString_le (d : Decoder) :
    d.readBorshString.1.length ≤ d.readUint32.2.remaining := length_readBytes_le _ _

theorem length_readBincodeString_le (d : Decoder) :
    d.readBincodeString.1.length ≤ d.readUint64.2.remaining := by
  have hread := length_readBytes_le (d.readUint64.1.toNat : ℤ) d.readUint64.2
  unfold readBincodeString readBincodeStringBytes
  dsimp only
  split
  · exact Nat.zero_le _
  · split
    · exact Nat.zero_le _
    · split
      · exact Nat.zero_le _
      · exact hread

end Bin.Decoder

/-! ## Counts that are checked -/

theorem checkedMake_within {limit width more : ℕ} {counted : ℕ × Decoder} {list : Make}
    (hwidth : 0 < width) (hlist : list ∈ checkedMake limit width more counted) :
    list.Within counted.2.data := by
  unfold checkedMake at hlist
  split at hlist
  · simp at hlist
  · next hchecked =>
      obtain rfl := List.mem_singleton.mp hlist
      have hmul := Nat.le_mul_of_pos_right counted.1 hwidth
      refine ⟨?_, counted.2.remaining_le⟩
      dsimp only
      omega

/-- It is enough that the cases keep within what is left for them. -/
theorem madeByWord_within {T : Type} {ofCode : UInt32 → Option T} {made : T → Decoder → List Make}
    (hmade : ∀ typ dec, ∀ list ∈ made typ dec, list.Within dec.data) {data : Bytes} {list : Make}
    (hlist : list ∈ madeByWord ofCode made data) : list.Within data := by
  unfold madeByWord at hlist
  dsimp only at hlist
  split at hlist
  · cases hlist
  split at hlist
  · cases hlist
  · have hwithin := hmade _ _ list hlist
    rwa [readUint32_safe.data] at hwithin

namespace Vote

variable {dec : Decoder} {list : Make}

theorem VoteData.made_within (hlist : list ∈ VoteData.made dec) : list.Within dec.data := by
  have hwithin : list.Within dec.readUint64.2.data := checkedMake_within (by decide) hlist
  rwa [readUint64_safe.data] at hwithin

theorem VoteStateUpdate.made_within (hlist : list ∈ VoteStateUpdate.made dec) :
    list.Within dec.data := by
  have hwithin : list.Within dec.readUint64.2.data := checkedMake_within (by decide) hlist
  rwa [readUint64_safe.data] at hwithin

theorem VoteStateUpdate.madeCompact_within (hlist : list ∈ VoteStateUpdate.madeCompact dec) :
    list.Within dec.data := by
  have hwithin : list.Within dec.readUint64.2.readCompactU16.2.data :=
    checkedMake_within (by decide) hlist
  rwa [readCompactU16_safe.data, readUint64_safe.data] at hwithin

theorem made_within {data : Bytes} (hlist : list ∈ made data) : list.Within data := by
  refine madeByWord_within (fun typ dec list hlist => ?_) hlist
  cases typ with
  | vote | voteSwitch => exact VoteData.made_within hlist
  | updateVoteState | updateVoteStateSwitch => exact VoteStateUpdate.made_within hlist
  | compactUpdateVoteState | compactUpdateVoteStateSwitch | towerSync | towerSyncSwitch =>
    exact VoteStateUpdate.madeCompact_within hlist
  | _ => cases hlist

end Vote

theorem AddressLookupTable.made_within {data : Bytes} {list : Make} (hlist : list ∈ made data) :
    list.Within data := by
  refine madeByWord_within (fun typ dec list hlist => ?_) hlist
  cases typ with
  | extendLookupTable =>
    have hwithin : list.Within dec.readUint64.2.data := checkedMake_within (by decide) hlist
    rwa [readUint64_safe.data] at hwithin
  | _ => cases hlist

/-! ## Lists that grow -/

namespace Token2022

theorem extensionsMade_le (turns : ℕ) (dec : Decoder) :
    4 * extensionsMade turns dec ≤ dec.remaining := by
  induction turns generalizing dec with
  | zero => exact Nat.zero_le _
  | succ turns ih =>
    unfold extensionsMade
    dsimp only
    split
    · exact Nat.zero_le _
    split
    · exact Nat.zero_le _
    split
    · exact Nat.zero_le _
    next herr =>
    have hnone := Option.not_isSome_iff_eq_none.mp herr
    obtain ⟨-, hdata, hpos, hbound⟩ := entry_advances hnone
    have hrest := ih (dec.readUint16.2.readUint16.2.readBytes
      dec.readUint16.2.readUint16.1.toNat).2
    unfold Decoder.remaining at hrest ⊢
    rw [hdata, hpos] at hrest
    omega

/-- The loop asks for two bytes in front of each read, so no read of it fails. -/
theorem length_readExtensionTypes_le (turns : ℕ) {dec : Decoder} (herr : dec.err = none) :
    2 * (readExtensionTypes turns dec).1.length ≤ dec.remaining := by
  induction turns generalizing dec with
  | zero => exact Nat.zero_le _
  | succ turns ih =>
    unfold readExtensionTypes
    split
    · next hleft =>
        have hread : dec.readUint16.2 = { dec with pos := dec.pos + 2 } := by
          unfold Decoder.remaining at hleft
          unfold Decoder.readUint16
          rw [Decoder.readFixed_ok herr (by omega)]
        have hrest := ih (show dec.readUint16.2.err = none by rw [hread]; exact herr)
        have hmoved : dec.readUint16.2.remaining + 2 = dec.remaining := by
          rw [hread]
          unfold Decoder.remaining at hleft ⊢
          dsimp only
          omega
        rw [List.length_cons]
        omega
    · exact Nat.zero_le _

theorem madeBehind_within {size : ℕ} {baseOk : Bool} {data : Bytes} {list : Make}
    (hlist : list ∈ madeBehind size baseOk data) : list.Within data := by
  unfold madeBehind at hlist
  split at hlist
  · simp at hlist
  · obtain rfl := List.mem_singleton.mp hlist
    have hle := extensionsMade_le (newDecoder (data.drop (Token.accountSize + 1))).remaining
      (newDecoder (data.drop (Token.accountSize + 1)))
    refine ⟨by dsimp only; omega, ?_⟩
    show (data.drop (Token.accountSize + 1)).length - 0 ≤ data.length
    rw [List.length_drop]
    omega

theorem made_within {data : Bytes} {list : Make} (hlist : list ∈ made data) :
    list.Within data := by
  unfold made at hlist
  split at hlist
  · simp at hlist
  split at hlist
  · next body _ =>
      obtain rfl := List.mem_singleton.mp hlist
      have hle := length_readExtensionTypes_le (newDecoder body).remaining
        (show (newDecoder body).err = none from rfl)
      refine ⟨by dsimp only; omega, ?_⟩
      exact (Decoder.remaining_le _).trans (Nat.le_succ _)
  · simp at hlist

/-- There are 64 bytes for an element of each of the two lists. -/
theorem madeInnerProduct_within {data : Bytes} {list : Make}
    (hlist : list ∈ madeInnerProduct data) : list.Within data := by
  unfold madeInnerProduct at hlist
  dsimp only at hlist
  split at hlist
  · simp at hlist
  · have heq : list = ⟨(data.length / 32 - 2) / 2, data.length⟩ := by simpa using hlist
    rw [heq]
    refine ⟨?_, Nat.le_refl _⟩
    dsimp only
    omega

end Token2022

/-! ## What is announced -/

namespace TokenMetadata

/-- A `Data` up to the count of its creators: three strings, the fee, the tag of a list that
is there, the count, and `list.left` bytes behind it. -/
def AnnouncesCreators (list : Make) (bytes : Bytes) : Prop :=
  ∃ (name symbol uri tail : Bytes) (fee : UInt16),
    name.length ≤ maxUint32 ∧ symbol.length ≤ maxUint32 ∧ uri.length ≤ maxUint32
    ∧ list.size ≤ maxUint32 ∧ tail.length = list.left
    ∧ bytes = (leBytes 4 name.length ++ name) ++ ((leBytes 4 symbol.length ++ symbol)
        ++ ((leBytes 4 uri.length ++ uri)
          ++ (leBytes 2 fee.toNat ++ ([1] ++ (leBytes 4 list.size ++ tail)))))

variable {list : Make} {dec : Decoder}

/-- A read of a number that is not zero did not fail. -/
theorem readUint32_of_ne_zero (h : dec.readUint32.1 ≠ 0) : dec.readUint32.2.err = none := by
  unfold Decoder.readUint32 Decoder.readFixed at h ⊢
  split at h
  · exact absurd rfl h
  · next hok =>
      rw [if_neg hok]
      simp only [not_or, Bool.not_eq_true, Option.isSome_eq_false_iff, Option.isNone_iff_eq_none]
        at hok
      exact hok.1

/-- A tag that says that a value follows did not fail. -/
theorem readOption_of_true (h : dec.readOption.1 = true) : dec.readOption.2.err = none := by
  unfold Decoder.readOption Decoder.readBool Decoder.readTag at h ⊢
  split at h
  · cases h
  · next hok =>
      rw [if_neg hok]
      split at h
      · cases h
      · next htag =>
          rw [if_neg htag]
          simp only [not_or, Bool.not_eq_true, Option.isSome_eq_false_iff,
            Option.isNone_iff_eq_none] at hok
          exact hok.1

/-- **`Data.decode` makes what the input announces.** -/
theorem Data.mem_made_iff (hsize : 0 < list.size) :
    list ∈ Data.made dec ↔ dec.err = none ∧ AnnouncesCreators list dec.rest := by
  constructor
  · intro hmem
    unfold Data.made at hmem
    dsimp only at hmem
    split at hmem
    · next hpresent =>
        obtain rfl := List.mem_singleton.mp hmem
        -- No read in front of the count has failed.
        have hcount := readUint32_of_ne_zero fun hzero => by
          rw [hzero] at hsize
          exact Nat.lt_irrefl 0 hsize
        obtain ⟨hnone5, -, -, hrest5⟩ := Decoder.readUint32_reads.accepts Prod.mk.eta.symm hcount
        obtain ⟨hnone4, -, -, hrest4⟩ := Decoder.readOption_reads.accepts Prod.mk.eta.symm hnone5
        obtain ⟨hnone3, -, -, hrest3⟩ := Decoder.readUint16_reads.accepts Prod.mk.eta.symm hnone4
        obtain ⟨hnone2, huri, -, hrest2⟩ :=
          Decoder.readBorshString_reads.accepts Prod.mk.eta.symm hnone3
        obtain ⟨hnone1, hsymbol, -, hrest1⟩ :=
          Decoder.readBorshString_reads.accepts Prod.mk.eta.symm hnone2
        obtain ⟨hnone, hname, -, hrest⟩ :=
          Decoder.readBorshString_reads.accepts Prod.mk.eta.symm hnone1
        rw [hrest1, hrest2, hrest3, hrest4, hrest5, hpresent] at hrest
        exact ⟨hnone, _, _, _, _, _, hname, hsymbol, huri,
          Nat.le_sub_one_of_lt (UInt32.toNat_lt _), Decoder.length_rest _, hrest⟩
    · cases hmem
  · rintro ⟨herr, name, symbol, uri, tail, fee, hname, hsymbol, huri, hcount, hleft, hrest⟩
    obtain ⟨dec1, hread1, herr1, hrest1, -⟩ := Decoder.readBorshString_reads.next hname herr hrest
    obtain ⟨dec2, hread2, herr2, hrest2, -⟩ :=
      Decoder.readBorshString_reads.next hsymbol herr1 hrest1
    obtain ⟨dec3, hread3, herr3, hrest3, -⟩ :=
      Decoder.readBorshString_reads.next huri herr2 hrest2
    obtain ⟨dec4, hread4, herr4, hrest4, -⟩ := Decoder.readUint16_reads.next trivial herr3 hrest3
    obtain ⟨dec5, hread5, herr5, hrest5, -⟩ :=
      Decoder.readOption_reads.next (a := true) trivial herr4 hrest4
    have hword : (UInt32.ofNat list.size).toNat = list.size := UInt32.toNat_ofNat_of_lt' (by
      unfold maxUint32 at hcount
      show list.size < 2 ^ 32
      omega)
    rw [← hword] at hrest5
    obtain ⟨dec6, hread6, -, hrest6, -⟩ := Decoder.readUint32_reads.next trivial herr5 hrest5
    have hremaining : dec6.remaining = list.left := by
      rw [← Decoder.length_rest, hrest6, hleft]
    unfold Data.made
    rw [hread1]
    dsimp only
    rw [hread2]
    dsimp only
    rw [hread3]
    dsimp only
    rw [hread4]
    dsimp only
    rw [hread5]
    dsimp only
    rw [if_pos rfl, hread6, hword]
    dsimp only
    rw [hremaining]
    exact List.mem_singleton_self list

/-- What is left at the count is part of the input, whether or not a read has failed. -/
theorem Data.left_le_of_mem_made (hlist : list ∈ Data.made dec) : list.left ≤ dec.data.length := by
  unfold Data.made at hlist
  dsimp only at hlist
  split at hlist
  · obtain rfl := List.mem_singleton.mp hlist
    refine (Decoder.remaining_le _).trans ?_
    unfold Decoder.readOption Decoder.readBool
    rw [readUint32_safe.data, (readTag_safe 1).data, readUint16_safe.data,
      readBorshString_safe.data, readBorshString_safe.data, readBorshString_safe.data]
  · cases hlist

/-- The bytes in front of the metadata of an instruction: its type, and the tag of an update
that carries any. -/
def instructionHeads : List Bytes := [[0], [16], [1, 1], [15, 1]]

/-- The same with the type in front. -/
theorem exists_head_iff {code : UInt8} {rest : Bytes} {A : Bytes → Prop} :
    (∃ head ∈ instructionHeads, ∃ body, code :: rest = head ++ body ∧ A body)
      ↔ ((code = 0 ∨ code = 16) ∧ A rest)
        ∨ ((code = 1 ∨ code = 15) ∧ ∃ body, rest = [1] ++ body ∧ A body) := by
  simp only [instructionHeads, List.mem_cons, List.not_mem_nil, or_false, exists_eq_or_imp,
    exists_eq_left, List.cons_append, List.nil_append, List.cons.injEq]
  aesop

/-- Metadata behind a tag. -/
theorem mem_made_optional_iff (hsize : 0 < list.size) (herr : dec.err = none) :
    list ∈ (if dec.readOption.1 then Data.made dec.readOption.2 else [])
      ↔ ∃ body, dec.rest = [1] ++ body ∧ AnnouncesCreators list body := by
  constructor
  · intro hmem
    cases hpresent : dec.readOption.1 with
    | false =>
      rw [hpresent] at hmem
      cases hmem
    | true =>
      rw [if_pos hpresent] at hmem
      have hnone := readOption_of_true hpresent
      obtain ⟨-, -, -, hrest⟩ := Decoder.readOption_reads.accepts Prod.mk.eta.symm hnone
      rw [hpresent] at hrest
      exact ⟨_, hrest, ((Data.mem_made_iff hsize).mp hmem).2⟩
  · rintro ⟨body, hrest, hannounced⟩
    obtain ⟨dec', hread, herr', hrest', -⟩ :=
      Decoder.readOption_reads.next (a := true) trivial herr hrest
    rw [hread, if_pos rfl]
    rw [← hrest'] at hannounced
    exact (Data.mem_made_iff hsize).mpr ⟨herr', hannounced⟩

theorem mem_made_iff {data : Bytes} (hsize : 0 < list.size) :
    list ∈ made data ↔ ∃ head ∈ instructionHeads, ∃ body, data = head ++ body
      ∧ AnnouncesCreators list body := by
  cases data with
  | nil =>
    constructor
    · intro hmem
      cases hmem
    · rintro ⟨head, hhead, body, hdata, -⟩
      obtain ⟨rfl, -⟩ := List.append_eq_nil_iff.mp hdata.symm
      simp [instructionHeads] at hhead
  | cons code rest =>
    obtain ⟨dec, hread, herr, hrest, -⟩ := Decoder.readUint8_reads.next
      (d := newDecoder (code :: rest)) (a := code) (t := rest) trivial rfl rfl
    rw [exists_head_iff]
    unfold made
    rw [hread]
    dsimp only
    have hplain : AnnouncesCreators list dec.rest ↔ list ∈ Data.made dec := by
      rw [Data.mem_made_iff hsize]
      simp only [herr, true_and]
    rw [herr, ← hrest, ← mem_made_optional_iff hsize herr, hplain, if_neg (by simp)]
    cases htype : InstructionType.ofCode code with
    | none =>
      -- The four types are all types.
      have hcodes : code ≠ 0 ∧ code ≠ 16 ∧ code ≠ 1 ∧ code ≠ 15 := by
        refine ⟨?_, ?_, ?_, ?_⟩
        all_goals
          rintro rfl
          cases htype
      simp [hcodes]
    | some typ =>
      obtain rfl := (InstructionType.ofCode_eq_some code typ).mp htype
      cases typ <;> simp [InstructionType.made, InstructionType.code]

theorem mem_madeMetadata_iff {data : Bytes} (hsize : 0 < list.size) :
    list ∈ madeMetadata data ↔ ∃ head body, head.length = 65 ∧ data = head ++ body
      ∧ AnnouncesCreators list body := by
  unfold madeMetadata
  dsimp only
  rw [Data.mem_made_iff hsize]
  constructor
  · rintro ⟨herr, hannounced⟩
    obtain ⟨hnone2, -, -, hrest2⟩ := Decoder.readPublicKey_reads.accepts Prod.mk.eta.symm herr
    obtain ⟨hnone1, -, -, hrest1⟩ := Decoder.readPublicKey_reads.accepts Prod.mk.eta.symm hnone2
    obtain ⟨-, -, -, hrest⟩ := Decoder.readUint8_reads.accepts Prod.mk.eta.symm hnone1
    rw [hrest1, hrest2, ← List.append_assoc, ← List.append_assoc] at hrest
    refine ⟨_, _, ?_, hrest, hannounced⟩
    rw [List.length_append, List.length_append, ByteArr.length_toList, ByteArr.length_toList]
    rfl
  · rintro ⟨head, body, hhead, rfl, hannounced⟩
    have hmoves : Decoder.Moves (1 + (32 + 32)) fun dec =>
        dec.readUint8.2.readPublicKey.2.readPublicKey.2 :=
      (Decoder.readFixed_moves 1).andThen
        ((Decoder.readFixed_moves 32).andThen (Decoder.readFixed_moves 32))
    have hend := hmoves.eq (newDecoder (head ++ body)) rfl (by
      show 0 + (1 + (32 + 32)) ≤ (head ++ body).length
      rw [List.length_append, hhead]
      omega)
    rw [hend]
    refine ⟨rfl, ?_⟩
    show AnnouncesCreators list ((head ++ body).drop (0 + (1 + (32 + 32))))
    rw [List.drop_append_of_le_length (by omega), List.drop_of_length_le (by omega)]
    exact hannounced

theorem left_le_of_mem_made {data : Bytes} (hlist : list ∈ made data) :
    list.left ≤ data.length := by
  have hdata : (newDecoder data).readUint8.2.data = data := readUint8_safe.data _
  have hoption : ∀ dec : Decoder, dec.readOption.2.data = dec.data := (readTag_safe 1).data
  unfold made at hlist
  dsimp only at hlist
  split at hlist
  · cases hlist
  split at hlist
  · cases hlist
  next typ _ =>
  unfold InstructionType.made at hlist
  rw [← hdata]
  split at hlist
  · exact Data.left_le_of_mem_made hlist
  · exact Data.left_le_of_mem_made hlist
  all_goals
    first
      | exact absurd hlist (List.not_mem_nil)
      | (dsimp only at hlist
         split at hlist
         · rw [← hoption]
           exact Data.left_le_of_mem_made hlist
         · cases hlist)

theorem left_le_of_mem_madeMetadata {data : Bytes} (hlist : list ∈ madeMetadata data) :
    list.left ≤ data.length := by
  unfold madeMetadata at hlist
  dsimp only at hlist
  have hle := Data.left_le_of_mem_made hlist
  rwa [readPublicKey_safe.data, readPublicKey_safe.data, readUint8_safe.data] at hle

end TokenMetadata

/-! ## All decoders -/

/-- The instruction decoders and the account decoders of the program packages, and the one parser
of proofs that makes lists. -/
inductive ProgramDecoder where
  -- the `DecodeInstruction` of each package
  | addressLookupTable
  | computeBudget
  | loaderV2
  | loaderV3
  | loaderV4
  | stake
  | system
  | token
  | token2022
  | tokenMetadata
  | vote
  -- the confidential instructions of Token-2022
  | confidentialTransferInstruction
  | confidentialTransferFeeInstruction
  | confidentialMintBurnInstruction
  | zkProofInstruction
  | elGamalRegistryInstruction
  | confidentialRecordInstruction
  -- accounts
  | tokenMint
  | tokenAccount
  | tokenMultisig
  | token2022Mint
  | token2022Account
  | token2022Multisig
  | metadata
  | masterEditionV2
  | edition
  | editionMarker
  | confidentialTransferMint
  | confidentialTransferAccount
  | confidentialTransferFeeConfig
  | confidentialTransferFeeAmount
  | confidentialMintBurn
  | proofContextState
  | confidentialRecord
  | elGamalRegistry
  -- proofs
  | rangeInnerProductProof
  deriving DecidableEq

namespace ProgramDecoder

/-- The lists that the decoder makes for this input. Those at the end read fields of fixed widths
and byte fields only. -/
def made : ProgramDecoder → Bytes → List Make
  | vote => Vote.made
  | addressLookupTable => AddressLookupTable.made
  | token2022 => Token2022.made
  | token2022Mint => Token2022.madeMint
  | token2022Account => Token2022.madeAccount
  | rangeInnerProductProof => Token2022.madeInnerProduct
  | tokenMetadata => TokenMetadata.made
  | metadata => TokenMetadata.madeMetadata
  | computeBudget | loaderV2 | loaderV3 | loaderV4 | stake | system | token
  | confidentialTransferInstruction | confidentialTransferFeeInstruction
  | confidentialMintBurnInstruction | zkProofInstruction | elGamalRegistryInstruction
  | confidentialRecordInstruction | tokenMint | tokenAccount | tokenMultisig | token2022Multisig
  | masterEditionV2 | edition | editionMarker | confidentialTransferMint
  | confidentialTransferAccount | confidentialTransferFeeConfig | confidentialTransferFeeAmount
  | confidentialMintBurn | proofContextState | confidentialRecord | elGamalRegistry => fun _ => []

/-- The input announces this list to a decoder of Token Metadata: so many creators, with so many
bytes behind their count. -/
def Announces : ProgramDecoder → Bytes → Make → Prop
  | tokenMetadata, data, list =>
    ∃ head ∈ TokenMetadata.instructionHeads, ∃ body, data = head ++ body
      ∧ TokenMetadata.AnnouncesCreators list body
  | metadata, data, list =>
    ∃ head body, head.length = 65 ∧ data = head ++ body
      ∧ TokenMetadata.AnnouncesCreators list body
  | _, _, _ => False

/-- The input announces more creators than there are bytes behind their count. -/
def Overannounced (decoder : ProgramDecoder) (data : Bytes) : Prop :=
  ∃ list, decoder.Announces data list ∧ list.left < list.size

/-- Each list is made within the input or it is one that is announced, and every list that is
announced is made. -/
structure Accounted (data : Bytes) (announced : Make → Prop) (lists : List Make) : Prop where
  left_le : ∀ list ∈ lists, list.left ≤ data.length
  covered : ∀ list ∈ lists, list.size ≤ list.left ∨ announced list
  mem : ∀ list : Make, 0 < list.size → announced list → list ∈ lists

section Accounted

variable {data : Bytes} {announced : Make → Prop} {lists : List Make}

theorem Accounted.of_within (hlists : ∀ list ∈ lists, list.Within data)
    (hnone : ∀ list, ¬announced list) : Accounted data announced lists where
  left_le list hlist := (hlists list hlist).2
  covered list hlist := Or.inl (hlists list hlist).1
  mem list _ hannounced := absurd hannounced (hnone list)

theorem Accounted.of_iff (hleft : ∀ list ∈ lists, list.left ≤ data.length)
    (hiff : ∀ {list : Make}, 0 < list.size → (list ∈ lists ↔ announced list)) :
    Accounted data announced lists where
  left_le := hleft
  covered list hlist := by
    rcases Nat.eq_zero_or_pos list.size with hzero | hpos
    · exact Or.inl (hzero ▸ Nat.zero_le _)
    · exact Or.inr ((hiff hpos).mp hlist)
  mem list hsize := (hiff hsize).mpr

end Accounted

/-- Only the two decoders of Token Metadata make lists that are announced and nothing else. -/
theorem made_accounted (decoder : ProgramDecoder) (data : Bytes) :
    Accounted data (decoder.Announces data) (decoder.made data) := by
  cases decoder with
  | vote => exact .of_within (fun _ => Vote.made_within) fun _ => not_false
  | addressLookupTable =>
    exact .of_within (fun _ => AddressLookupTable.made_within) fun _ => not_false
  | token2022 => exact .of_within (fun _ => Token2022.made_within) fun _ => not_false
  | token2022Mint => exact .of_within (fun _ => Token2022.madeBehind_within) fun _ => not_false
  | token2022Account => exact .of_within (fun _ => Token2022.madeBehind_within) fun _ => not_false
  | rangeInnerProductProof =>
    exact .of_within (fun _ => Token2022.madeInnerProduct_within) fun _ => not_false
  | tokenMetadata =>
    exact .of_iff (fun _ => TokenMetadata.left_le_of_mem_made) TokenMetadata.mem_made_iff
  | metadata =>
    exact .of_iff (fun _ => TokenMetadata.left_le_of_mem_madeMetadata)
      TokenMetadata.mem_madeMetadata_iff
  | _ => exact .of_within (fun _ hlist => absurd hlist List.not_mem_nil) fun _ => not_false

end ProgramDecoder

/-- **Allocations.** A byte field that a decoder reads is no longer than what is left behind its
length. For the lists two bounds part ways: each list that a decoder makes is no
longer than what is left when it is made, exactly unless the input announces more creators to a
decoder of Token Metadata than there are bytes behind their count; and it is no longer than the
whole input, exactly unless it announces more creators than the input has bytes. -/
theorem made_le_length_iff (decoder : ProgramDecoder) (data : Bytes) :
    (∀ dec : Decoder, dec.data = data → ∀ n : ℤ,
      Make.Within data ⟨(dec.readBytes n).1.length, dec.remaining⟩
      ∧ Make.Within data ⟨dec.readBorshString.1.length, dec.readUint32.2.remaining⟩
      ∧ Make.Within data ⟨dec.readBincodeString.1.length, dec.readUint64.2.remaining⟩)
    ∧ ((∀ list ∈ decoder.made data, list.Within data) ↔ ¬decoder.Overannounced data)
    ∧ ((∀ list ∈ decoder.made data, list.size ≤ data.length)
      ↔ ¬∃ list, decoder.Announces data list ∧ data.length < list.size) := by
  have haccounted := decoder.made_accounted data
  refine ⟨?_, ⟨?_, ?_⟩, ⟨?_, ?_⟩⟩
  · rintro dec rfl n
    refine ⟨⟨dec.length_readBytes_le n, dec.remaining_le⟩, ⟨dec.length_readBorshString_le, ?_⟩,
      ⟨dec.length_readBincodeString_le, ?_⟩⟩
    · exact (Decoder.remaining_le _).trans_eq (congrArg List.length (readUint32_safe.data dec))
    · exact (Decoder.remaining_le _).trans_eq (congrArg List.length (readUint64_safe.data dec))
  · rintro hall ⟨list, hlist, hlong⟩
    have hmade := haccounted.mem list (Nat.zero_lt_of_lt hlong) hlist
    exact absurd (hall list hmade).1 (Nat.not_le.mpr hlong)
  · intro hfits list hlist
    have hleft := haccounted.left_le list hlist
    obtain hle | hlist := haccounted.covered list hlist
    · exact ⟨hle, hleft⟩
    · exact ⟨Nat.not_lt.mp fun hlong => hfits ⟨list, hlist, hlong⟩, hleft⟩
  · rintro hall ⟨list, hlist, hlong⟩
    have hmade := haccounted.mem list (Nat.zero_lt_of_lt hlong) hlist
    exact absurd (hall list hmade) (Nat.not_le.mpr hlong)
  · intro hfits list hlist
    have hleft := haccounted.left_le list hlist
    obtain hle | hlist := haccounted.covered list hlist
    · exact hle.trans hleft
    · exact Nat.not_lt.mp fun hlong => hfits ⟨list, hlist, hlong⟩

/-- A new metadata account with three empty strings, no fee and creators announced: four bytes
of count that nothing follows. -/
def bareCreators (count : Bytes) : Bytes :=
  [0] ++ leBytes 4 0 ++ leBytes 4 0 ++ leBytes 4 0 ++ leBytes 2 0 ++ [1] ++ count

/-- Twenty bytes that make a list of 2³² - 1 creators with nothing left, and twenty that make one
of as many creators as there are bytes, none of them left. -/
theorem creators_made_past_length :
    ProgramDecoder.tokenMetadata.made (bareCreators [255, 255, 255, 255]) = [⟨2 ^ 32 - 1, 0⟩]
    ∧ (bareCreators [255, 255, 255, 255]).length = 20
    ∧ ProgramDecoder.tokenMetadata.made (bareCreators [20, 0, 0, 0]) = [⟨20, 0⟩] := by
  decide

end SolanaGo
