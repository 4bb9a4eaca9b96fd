/-
`confidential_range.go`, `confidential_range_inner_product.go`: range proofs and contexts as
bytes, there and back.

What is marshalled is parsed (`RangeData.lean`). Here is the other direction: what the parsers
accept is the marshalling of what they return. The layout of a proof depends on the number of
its rounds, which the parser computes from the length of the data; the slots of the data are the
slots of the marshalling, whatever that number is. In a context the commitments end at the first
slot of zeros, and the loop refuses anything but zeros behind it.

Two bounds are part of this. The parser refuses a proof with 32 rounds or more, as the verifier
does. And the parser of a context reads 264 bytes and does not look at the length: the verifier
has compared it before.
-/
import SolanaGo.Token2022.RangeData

set_option autoImplicit false

namespace SolanaGo.Token2022

open Codec Buffer InnerProduct

/-! ## Data as slots -/

theorem length_slot {data : Bytes} {i : ℕ} (h : 32 * (i + 1) ≤ data.length) :
    (slot data i).length = 32 := by
  unfold slot
  rw [length_slice h]
  omega

/-- A slot as an array. -/
theorem toList_copyFrom_slot {data : Bytes} {i : ℕ} (h : 32 * (i + 1) ≤ data.length) :
    (ByteArr.copyFrom 32 (slot data i)).toList = slot data i := by
  have hlen := length_slot h
  rw [ByteArr.toList_copyFrom (Nat.le_of_eq hlen.symm)]
  exact List.take_of_length_le (Nat.le_of_eq hlen)

/-- The first slots of data, as arrays. -/
def slotArrays (data : Bytes) (count : ℕ) : List (ByteArr 32) :=
  (List.range count).map fun i => ByteArr.copyFrom 32 (slot data i)

/-- The slots, joined, are the data. -/
theorem joinArrays_slotArrays {data : Bytes} {count : ℕ} (h : 32 * count ≤ data.length) :
    joinArrays (slotArrays data count) = data.take (32 * count) := by
  induction count with
  | zero => rfl
  | succ count ih =>
    unfold slotArrays at ih ⊢
    rw [List.range_succ, List.map_append, joinArrays_append, ih (by omega), List.map_singleton,
      joinArrays_cons, joinArrays_nil, List.append_nil, toList_copyFrom_slot h]
    show slice data 0 (32 * count) ++ slice data (32 * count) (32 * (count + 1))
      = slice data 0 (32 * (count + 1))
    exact slice_append_slice (Nat.zero_le _) (by omega)

theorem getElem?_map_range {α : Type} (f : ℕ → α) (count j : ℕ) :
    ((List.range count).map f)[j]? = if j < count then some (f j) else none := by
  rw [List.getElem?_map]
  split
  · next hlt => rw [List.getElem?_range hlt]; rfl
  · next hge => rw [List.getElem?_eq_none (by rw [List.length_range]; omega)]; rfl

/-- The even and the odd entries of a list in turn are the list. -/
theorem interleave_range {α : Type} (f : ℕ → α) (count : ℕ) :
    interleave ((List.range count).map fun i => f (2 * i))
      ((List.range count).map fun i => f (2 * i + 1)) = (List.range (2 * count)).map f := by
  have hlen : ((List.range count).map fun i => f (2 * i)).length
      = ((List.range count).map fun i => f (2 * i + 1)).length := by
    rw [List.length_map, List.length_map]
  apply List.ext_getElem?
  intro i
  obtain ⟨j, hj⟩ : ∃ j, i = 2 * j ∨ i = 2 * j + 1 := ⟨i / 2, by omega⟩
  obtain ⟨heven, hodd⟩ := getElem?_interleave hlen j
  rcases hj with rfl | rfl
  · have hlt : 2 * j < 2 * count ↔ j < count := by omega
    rw [heven, getElem?_map_range, getElem?_map_range]
    simp only [hlt]
  · have hlt : 2 * j + 1 < 2 * count ↔ j < count := by omega
    rw [hodd, getElem?_map_range, getElem?_map_range]
    simp only [hlt]

/-- A list that is filled up, by its entries. -/
theorem eq_padded {α : Type} {fill : α} {entries filled : List α} {n : ℕ}
    (hcount : entries.length ≤ n) (hlen : filled.length = n)
    (h : ∀ i < n, filled[i]? = some (entries.getD i fill)) :
    filled = entries ++ List.replicate (n - entries.length) fill := by
  apply List.ext_getElem?
  intro i
  by_cases hi : i < n
  · rw [h i hi, getElem?_padded fill entries hi]
  · rw [List.getElem?_eq_none (by omega), List.getElem?_eq_none]
    rw [List.length_append, List.length_replicate]
    omega

namespace ConfidentialTransferService

variable {ℓ : ℕ} {P : Type} [AddCommGroup P] {service : ConfidentialTransferService ℓ P}
  (hlaw : service.curve.Lawful)

/-! ## Proofs -/

section Proofs

include hlaw

/-- A slot that decodes is the encoding of the scalar it decodes to. -/
theorem scalarBytes_of_slot {data : Bytes} {i : ℕ} {name : String} {x : ZMod ℓ}
    (h : service.scalarFromBytes (slot data i) name = .ok x) :
    service.curve.scalarBytes x = ByteArr.copyFrom 32 (slot data i) := by
  have hbytes := hlaw.scalarBytes_scalarOf _ _ (scalarFromBytes_eq_ok.mp h)
  rw [← hbytes, ByteArr.copyFrom_toList]

/-- **What the parser of the inner product accepts** is a marshalling: the slots in turn, with the
number of rounds read off the length. -/
theorem eq_marshal_of_parseRangeInnerProductProof {data : Bytes} {proof : RangeInnerProductProof ℓ}
    (h : service.parseRangeInnerProductProof data = .ok proof) :
    proof.left.length = proof.right.length ∧ proof.left.length < 32
      ∧ data = service.marshalRangeInnerProductProof proof := by
  unfold parseRangeInnerProductProof at h
  obtain ⟨hsize, h⟩ := refuse_bind_eq_ok.mp h
  obtain ⟨hdepth, h⟩ := refuse_bind_eq_ok.mp h
  obtain ⟨a, ha, h⟩ := bind_eq_ok.mp h
  obtain ⟨b, hb, h⟩ := bind_eq_ok.mp h
  obtain rfl := Except.ok.inj h
  generalize hk : (data.length / 32 - 2) / 2 = k at *
  have hlength : data.length = 32 * (2 * k + 2) := by omega
  refine ⟨by rw [List.length_map, List.length_map], ?_, ?_⟩
  · rw [List.length_map, List.length_range]
    omega
  · unfold marshalRangeInnerProductProof
    dsimp only
    rw [interleave_range fun i => ByteArr.copyFrom 32 (slot data i), scalarBytes_of_slot hlaw ha,
      scalarBytes_of_slot hlaw hb]
    have hslots : slotArrays data (2 * k + 2) = (List.range (2 * k)).map
        (fun i => ByteArr.copyFrom 32 (slot data i)) ++ [ByteArr.copyFrom 32 (slot data (2 * k)),
          ByteArr.copyFrom 32 (slot data (2 * k + 1))] := by
      unfold slotArrays
      rw [List.range_succ, List.range_succ, List.map_append, List.map_append, List.append_assoc]
      rfl
    rw [← hslots, joinArrays_slotArrays (Nat.le_of_eq hlength.symm), ← hlength, List.take_length]

/-- **What the parser of a range proof accepts** is a marshalling: seven slots in front, and the
inner product behind them. -/
theorem eq_marshal_of_parseBatchedRangeProof {data : Bytes} {proof : BatchedRangeProof ℓ}
    (h : service.parseBatchedRangeProof data = .ok proof) :
    proof.innerProduct.left.length = proof.innerProduct.right.length
      ∧ proof.innerProduct.left.length < 32 ∧ data = service.marshalBatchedRangeProof proof := by
  unfold parseBatchedRangeProof at h
  obtain ⟨hsize, h⟩ := refuse_bind_eq_ok.mp h
  obtain ⟨tx, htx, h⟩ := bind_eq_ok.mp h
  obtain ⟨txBlinding, htxBlinding, h⟩ := bind_eq_ok.mp h
  obtain ⟨eBlinding, heBlinding, h⟩ := bind_eq_ok.mp h
  obtain ⟨innerProduct, hinner, h⟩ := bind_eq_ok.mp h
  obtain rfl := Except.ok.inj h
  obtain ⟨hpaired, hdepth, hdrop⟩ := eq_marshal_of_parseRangeInnerProductProof hlaw hinner
  refine ⟨hpaired, hdepth, ?_⟩
  have hfront : joinArrays (slotArrays data 7) = data.take 224 :=
    joinArrays_slotArrays (by omega)
  unfold marshalBatchedRangeProof
  dsimp only
  rw [scalarBytes_of_slot hlaw htx, scalarBytes_of_slot hlaw htxBlinding,
    scalarBytes_of_slot hlaw heBlinding, ← hdrop]
  exact (List.take_append_drop 224 data).symm.trans (congrArg (· ++ data.drop 224) hfront.symm)

omit [AddCommGroup P] hlaw in
/-- A proof with 32 rounds or more is refused. -/
theorem parseRangeInnerProductProof_deep {proof : RangeInnerProductProof ℓ}
    (hlen : proof.left.length = proof.right.length) (hdepth : 32 ≤ proof.left.length) :
    service.parseRangeInnerProductProof (service.marshalRangeInnerProductProof proof)
      = .error (.message "decode range inner product proof: invalid length") := by
  have hsize := length_marshalRangeInnerProductProof service hlen
  have hlog : 32 ≤ ((service.marshalRangeInnerProductProof proof).length / 32 - 2) / 2 := by
    rw [hsize]
    omega
  unfold parseRangeInnerProductProof
  unfold refuse
  rw [if_neg (by rw [hsize]; omega), ok_bind]
  dsimp only
  rw [if_pos hlog]
  rfl

/-- The scalars before the rounds are read, so the error is the one of the inner product. -/
theorem parseBatchedRangeProof_deep {proof : BatchedRangeProof ℓ}
    (hlen : proof.innerProduct.left.length = proof.innerProduct.right.length)
    (hdepth : 32 ≤ proof.innerProduct.left.length) :
    service.parseBatchedRangeProof (service.marshalBatchedRangeProof proof)
      = .error (.message "decode range inner product proof: invalid length") := by
  rw [parseBatchedRangeProof_marshal_eq hlaw hlen, parseRangeInnerProductProof_deep hlen hdepth]
  rfl

end Proofs

/-! ## Contexts -/

/-- A slot, and the slots after it. -/
theorem forall_lt_succ_shift {Q : ℕ → ℕ → Prop} {index turns : ℕ} (hhead : Q index 0)
    (htail : ∀ i < turns, Q (index + 1 + i) (i + 1)) : ∀ i < turns + 1, Q (index + i) i := by
  intro i hi
  cases i with
  | zero => exact hhead
  | succ i =>
    have hnext := htail i (Nat.lt_of_succ_lt_succ hi)
    rw [Nat.add_assoc, Nat.add_comm 1 i] at hnext
    exact hnext

namespace RangeSlots

variable {context : Bytes} {index turns : ℕ} {points : List P} {bitLengths : List UInt8}

/-- No slots are left. -/
theorem nil : service.RangeSlots context index 0 [] [] where
  paired := rfl
  count := Nat.le_refl 0
  noIdentity := by simp
  legal := by simp
  slot_eq _ hi := absurd hi (Nat.not_lt_zero _)
  bits_eq _ hi := absurd hi (Nat.not_lt_zero _)

/-- A slot of zeros, in front of nothing but zeros. -/
theorem zero (h : service.RangeSlots context (index + 1) turns [] [])
    (hslot : slot context index = (ByteArr.zero 32).toList)
    (hbits : context.getD (256 + index) 0 = 0) :
    service.RangeSlots context index (turns + 1) [] [] where
  paired := rfl
  count := Nat.zero_le _
  noIdentity := by simp
  legal := by simp
  slot_eq := forall_lt_succ_shift (Q := fun position _ => slot context position
    = (ByteArr.zero 32).toList) hslot h.slot_eq
  bits_eq := forall_lt_succ_shift (Q := fun position _ => context.getD (256 + position) 0
    = 0) hbits h.bits_eq

/-- A commitment in front. -/
theorem cons {point : P} {bitLength : UInt8}
    (h : service.RangeSlots context (index + 1) turns points bitLengths)
    (hslot : slot context index = (service.pedersenCommitment point).toList)
    (hbits : context.getD (256 + index) 0 = bitLength) (hpoint : point ≠ 0)
    (hlegal : ¬ (bitLength = 0 ∨ 64 < bitLength)) :
    service.RangeSlots context index (turns + 1) (point :: points) (bitLength :: bitLengths) where
  paired := congrArg Nat.succ h.paired
  count := Nat.succ_le_succ h.count
  noIdentity := List.forall_mem_cons.mpr ⟨hpoint, h.noIdentity⟩
  legal := List.forall_mem_cons.mpr ⟨hlegal, h.legal⟩
  slot_eq := forall_lt_succ_shift (Q := fun position i => slot context position
    = (((point :: points).map service.pedersenCommitment).getD i (ByteArr.zero 32)).toList)
    hslot h.slot_eq
  bits_eq := forall_lt_succ_shift (Q := fun position i => context.getD (256 + position) 0
    = (bitLength :: bitLengths).getD i 0) hbits h.bits_eq

/-- What follows the bit lengths is not read. -/
theorem append {context rest : Bytes} (hsize : 264 ≤ context.length)
    (h : service.RangeSlots context 0 8 points bitLengths) :
    service.RangeSlots (context ++ rest) 0 8 points bitLengths where
  paired := h.paired
  count := h.count
  noIdentity := h.noIdentity
  legal := h.legal
  slot_eq i hi := by
    rw [slot_append (by omega)]
    exact h.slot_eq i hi
  bits_eq i hi := by
    rw [List.getD_append _ _ _ _ (by omega)]
    exact h.bits_eq i hi

/-- **The slots determine the context.** -/
theorem take_eq {context : Bytes} (hsize : 264 ≤ context.length)
    (h : service.RangeSlots context 0 8 points bitLengths) :
    context.take 264 = rangeProofContext (points.map service.pedersenCommitment) bitLengths := by
  have hcommitments : slotArrays context 8 = points.map service.pedersenCommitment
      ++ List.replicate (8 - (points.map service.pedersenCommitment).length) (ByteArr.zero 32) := by
    refine eq_padded (by rw [List.length_map]; exact h.count) ?_ ?_
    · rw [slotArrays, List.length_map, List.length_range]
    · intro i hi
      have hslot := h.slot_eq i hi
      rw [Nat.zero_add] at hslot
      rw [slotArrays, List.getElem?_map, List.getElem?_range hi, Option.map_some, hslot,
        ByteArr.copyFrom_toList]
  have hbits : slice context 256 264 = bitLengths ++ List.replicate (8 - bitLengths.length) 0 := by
    refine eq_padded (h.paired.trans_le h.count) (length_slice hsize) ?_
    intro i hi
    have hbit := h.bits_eq i hi
    rw [Nat.zero_add, List.getD_eq_getElem _ _ (by omega)] at hbit
    rw [getElem?_slice, if_pos (by omega), List.getElem?_eq_getElem (by omega), hbit]
  have hjoin : slice context 0 256 ++ slice context 256 264 = slice context 0 264 :=
    slice_append_slice (by decide) (by decide)
  unfold rangeProofContext
  rw [← hcommitments, ← hbits, joinArrays_slotArrays (by omega)]
  exact hjoin.symm

end RangeSlots

section Contexts

variable [DecidableEq P]

include hlaw

/-- **What the loop accepts.** Behind a slot of zeros nothing but zeros is accepted, so that the
commitments of the slots are a list and the zeros what is left of the context. -/
theorem rangeSlots_of_parseRangeCommitments {context : Bytes} {turns index : ℕ} {padding : Bool}
    {entries : List (P × ℕ)} (hsize : 32 * (index + turns) ≤ context.length)
    (h : service.parseRangeCommitments context turns index padding = .ok entries) :
    ∃ (points : List P) (bitLengths : List UInt8),
      entries = points.zip (bitLengths.map UInt8.toNat) ∧ (padding = true → points = [])
        ∧ service.RangeSlots context index turns points bitLengths := by
  induction turns generalizing index padding entries with
  | zero =>
    obtain rfl := Except.ok.inj h
    exact ⟨[], [], rfl, fun _ => rfl, .nil⟩
  | succ turns ih =>
    have hlen : (slot context index).length = 32 := length_slot (by omega)
    rw [parseRangeCommitments] at h
    by_cases hzero : (slot context index).all (· == 0) = true
    · -- The flag is set for the slots that follow, so that they hold no commitment.
      rw [if_pos hzero] at h
      obtain ⟨hbits, h⟩ := refuse_bind_eq_ok.mp h
      obtain ⟨points, bitLengths, rfl, hnil, hslots⟩ := ih (by omega) h
      obtain rfl := hnil rfl
      obtain rfl := List.eq_nil_of_length_eq_zero hslots.paired
      refine ⟨[], [], rfl, fun _ => rfl, hslots.zero ?_ (not_not.mp hbits)⟩
      refine List.eq_replicate_iff.mpr ⟨hlen, ?_⟩
      intro byte hbyte
      exact beq_iff_eq.mp (List.all_eq_true.mp hzero byte hbyte)
    · rw [if_neg hzero] at h
      obtain ⟨hpadding, h⟩ := refuse_bind_eq_ok.mp h
      obtain ⟨point, hpoint, h⟩ := bind_eq_ok.mp h
      obtain ⟨hlegal, h⟩ := refuse_bind_eq_ok.mp h
      obtain ⟨rest, hrest, h⟩ := bind_eq_ok.mp h
      obtain rfl := Except.ok.inj h
      obtain ⟨hencoded, hne⟩ := requirePoint_eq_ok hlaw hpoint
      obtain ⟨points, bitLengths, rfl, -, hslots⟩ := ih (by omega) hrest
      refine ⟨point :: points, context.getD (256 + index) 0 :: bitLengths, rfl,
        fun hflag => absurd hflag hpadding, hslots.cons ?_ rfl hne hlegal⟩
      rw [← hencoded, toList_copyFrom_slot (by omega)]

/-- **What the parser of a context accepts**: at least one commitment, and zeros behind them. -/
theorem rangeSlots_of_parseBatchedRangeProofContext {context : Bytes} {points : List P}
    {lengths : List ℕ} (hsize : 264 ≤ context.length)
    (h : service.parseBatchedRangeProofContext context = .ok (points, lengths)) :
    points ≠ [] ∧ ∃ bitLengths : List UInt8, lengths = bitLengths.map UInt8.toNat
      ∧ service.RangeSlots context 0 8 points bitLengths := by
  unfold parseBatchedRangeProofContext at h
  obtain ⟨entries, hentries, h⟩ := bind_eq_ok.mp h
  obtain ⟨hcount, h⟩ := refuse_bind_eq_ok.mp h
  obtain ⟨points', bitLengths, rfl, -, hslots⟩ :=
    rangeSlots_of_parseRangeCommitments hlaw (by omega) hentries
  have hlen : (bitLengths.map UInt8.toNat).length = points'.length := by
    rw [List.length_map, hslots.paired]
  rw [List.map_fst_zip hlen.ge, List.map_snd_zip hlen.le] at h
  obtain ⟨rfl, rfl⟩ := Prod.mk.inj (Except.ok.inj h)
  refine ⟨?_, bitLengths, rfl, hslots⟩
  rintro rfl
  exact hcount rfl

/-- The generator writes 264 bytes. -/
theorem length_batchedRangeProofContext {commitments : List PedersenCommitment} {amounts : List ℕ}
    {bitLengths : List UInt8} {openings : List PedersenOpening} {context : Bytes}
    {scalars : List (ZMod ℓ)} {lengths : List ℕ}
    (h : service.batchedRangeProofContext commitments amounts bitLengths openings
      = .ok (context, scalars, lengths)) : context.length = 264 := by
  obtain ⟨points, -, rfl, -, -, -, rfl, -, hslots⟩ := batchedRangeProofContext_eq_ok hlaw h
  apply length_rangeProofContext
  · rw [List.length_map]
    exact hslots.count
  · rw [List.length_map, hslots.paired]

/-- The checks of the generator pass for points and lengths that were parsed. -/
theorem checkRangeCommitments_points {points : List P} {bitLengths : List UInt8}
    {scalars : List (ZMod ℓ)} (hbits : bitLengths.length = points.length)
    (hscalars : scalars.length = points.length) (hpoints : ∀ point ∈ points, point ≠ 0)
    (hlegal : ∀ bitLength ∈ bitLengths, ¬ (bitLength = 0 ∨ 64 < bitLength)) :
    service.checkRangeCommitments (points.map service.pedersenCommitment) bitLengths
      (scalars.map service.curve.scalarBytes) = .ok scalars := by
  induction points generalizing bitLengths scalars with
  | nil =>
    obtain rfl := List.eq_nil_of_length_eq_zero hbits
    obtain rfl := List.eq_nil_of_length_eq_zero hscalars
    rfl
  | cons point points ih =>
    obtain ⟨bitLength, bitLengths, rfl⟩ := List.exists_cons_of_length_eq_add_one hbits
    obtain ⟨scalar, scalars, rfl⟩ := List.exists_cons_of_length_eq_add_one hscalars
    obtain ⟨hpoint, hpoints⟩ := List.forall_mem_cons.mp hpoints
    obtain ⟨hbit, hlegal⟩ := List.forall_mem_cons.mp hlegal
    rw [List.map_cons, List.map_cons, checkRangeCommitments]
    refine (requirePoint_bind_eq_ok hlaw rfl).mpr ⟨hpoint, refuse_bind_eq_ok.mpr ⟨hbit, ?_⟩⟩
    rw [scalarFromBytes_scalarBytes hlaw, ok_bind,
      ih (Nat.succ.inj hbits) (Nat.succ.inj hscalars) hpoints hlegal]
    rfl

omit [DecidableEq P] in
/-- A slot with a commitment. -/
theorem RangeSlots.slot_ne_zero {context : Bytes} {points : List P} {bitLengths : List UInt8}
    {i : ℕ} (h : service.RangeSlots context 0 8 points bitLengths) (hi : i < points.length) :
    slot context i ≠ List.replicate 32 0 := by
  have hslot := h.slot_eq i (by have := h.count; omega)
  rw [Nat.zero_add, List.getD_eq_getElem _ _ (by rwa [List.length_map]), List.getElem_map] at hslot
  rw [hslot]
  intro hzero
  exact h.noIdentity _ (List.getElem_mem hi) ((pedersenCommitment_eq_identityBytes hlaw).mp hzero)

omit [DecidableEq P] hlaw in
/-- The slots behind the commitments. -/
theorem RangeSlots.slot_eq_zero {context : Bytes} {points : List P} {bitLengths : List UInt8}
    {i : ℕ} (h : service.RangeSlots context 0 8 points bitLengths) (hle : points.length ≤ i)
    (hi : i < 8) :
    slot context i = List.replicate 32 0 ∧ context.getD (256 + i) 0 = 0 := by
  have hslot := h.slot_eq i hi
  have hbits := h.bits_eq i hi
  rw [Nat.zero_add, List.getD_eq_default _ _ (by rwa [List.length_map])] at hslot
  rw [Nat.zero_add, List.getD_eq_default bitLengths 0 (by rwa [h.paired])] at hbits
  exact ⟨hslot, hbits⟩

/-- The generator makes the context again, with any amounts and openings. -/
theorem RangeSlots.batchedRangeProofContext_eq {context : Bytes} {points : List P}
    {bitLengths : List UInt8} {amounts : List ℕ} {scalars : List (ZMod ℓ)}
    (h : service.RangeSlots context 0 8 points bitLengths) (hsize : 264 ≤ context.length)
    (hpos : points ≠ []) (hamounts : amounts.length = points.length)
    (hscalars : scalars.length = points.length) :
    service.batchedRangeProofContext (points.map service.pedersenCommitment) amounts bitLengths
        (scalars.map service.curve.scalarBytes)
      = .ok (context.take 264, scalars, bitLengths.map UInt8.toNat) := by
  have hlength : points.length ≠ 0 := fun hzero => hpos (List.eq_nil_of_length_eq_zero hzero)
  unfold batchedRangeProofContext
  rw [checkRangeCommitments_points hlaw h.paired hscalars h.noIdentity h.legal, ok_bind,
    h.take_eq hsize]
  refine refuse_bind_eq_ok.mpr ⟨?_, rfl⟩
  have hcount := h.count
  have hpaired := h.paired
  rw [List.length_map, List.length_map]
  omega

end Contexts

/-! ## There and back -/

section RoundTrip

variable [DecidableEq P]

/-- **Range proofs and contexts as bytes.** A proof whose cross terms come in pairs is parsed to
itself if it has fewer than 32 rounds, and refused otherwise; what is parsed is the marshalling of
the proof that is returned. A context that the generator makes is parsed to its points and bit
lengths, whatever follows it; and of what is parsed the first 264 bytes are made by the generator
from the points and bit lengths that are returned, with any amounts and openings. The slots that
hold no commitment are zeros, with a bit length of zero, and come last. -/
theorem rangeBytes_roundTrip (hlaw : service.curve.Lawful) :
    (∀ proof : BatchedRangeProof ℓ,
      proof.innerProduct.left.length = proof.innerProduct.right.length →
        (proof.innerProduct.left.length < 32 →
          service.parseBatchedRangeProof (service.marshalBatchedRangeProof proof) = .ok proof)
        ∧ (32 ≤ proof.innerProduct.left.length →
          service.parseBatchedRangeProof (service.marshalBatchedRangeProof proof)
            = .error (.message "decode range inner product proof: invalid length")))
    ∧ (∀ (data : Bytes) (proof : BatchedRangeProof ℓ),
      service.parseBatchedRangeProof data = .ok proof →
        proof.innerProduct.left.length = proof.innerProduct.right.length
        ∧ proof.innerProduct.left.length < 32
        ∧ data = service.marshalBatchedRangeProof proof)
    ∧ (∀ (commitments : List PedersenCommitment) (amounts : List ℕ) (bitLengths : List UInt8)
        (openings : List PedersenOpening) (context : Bytes) (scalars : List (ZMod ℓ))
        (lengths : List ℕ),
      service.batchedRangeProofContext commitments amounts bitLengths openings
          = .ok (context, scalars, lengths) →
        context.length = 264 ∧ lengths = bitLengths.map UInt8.toNat
        ∧ ∃ points : List P, commitments = points.map service.pedersenCommitment
          ∧ ∀ rest, service.parseBatchedRangeProofContext (context ++ rest)
            = .ok (points, lengths))
    ∧ (∀ (context : Bytes) (points : List P) (lengths : List ℕ), 264 ≤ context.length →
      service.parseBatchedRangeProofContext context = .ok (points, lengths) →
        1 ≤ points.length ∧ points.length ≤ 8
        ∧ (∃ bitLengths : List UInt8, ∀ (amounts : List ℕ) (scalars : List (ZMod ℓ)),
          amounts.length = points.length → scalars.length = points.length →
            service.batchedRangeProofContext (points.map service.pedersenCommitment) amounts
                bitLengths (scalars.map service.curve.scalarBytes)
              = .ok (context.take 264, scalars, lengths))
        ∧ (∀ i < points.length, slot context i ≠ List.replicate 32 0)
        ∧ ∀ i, points.length ≤ i → i < 8 →
          slot context i = List.replicate 32 0 ∧ context.getD (256 + i) 0 = 0) := by
  refine ⟨?_, ?_, ?_, ?_⟩
  · intro proof hlen
    exact ⟨parseBatchedRangeProof_marshal hlaw hlen, parseBatchedRangeProof_deep hlaw hlen⟩
  · intro data proof h
    exact eq_marshal_of_parseBatchedRangeProof hlaw h
  · intro commitments amounts bitLengths openings context scalars lengths h
    obtain ⟨points, hpos, hcommitments, -, -, -, -, hlengths, hslots⟩ :=
      batchedRangeProofContext_eq_ok hlaw h
    have hsize := length_batchedRangeProofContext hlaw h
    refine ⟨hsize, hlengths, points, hcommitments, ?_⟩
    intro rest
    rw [hlengths]
    exact (hslots.append hsize.ge).parse_eq hlaw hpos
  · intro context points lengths hsize h
    obtain ⟨hpos, bitLengths, rfl, hslots⟩ :=
      rangeSlots_of_parseBatchedRangeProofContext hlaw hsize h
    refine ⟨List.length_pos_of_ne_nil hpos, hslots.count, ⟨bitLengths, ?_⟩, ?_, ?_⟩
    · intro amounts scalars hamounts hscalars
      exact hslots.batchedRangeProofContext_eq hlaw hsize hpos hamounts hscalars
    · intro i hi hzero
      exact hslots.slot_ne_zero hlaw hi hzero
    · intro i hle hlt
      exact hslots.slot_eq_zero hle hlt

end RoundTrip

end ConfidentialTransferService

/-! ## In the sample group -/

/-- A proof with a number of rounds. -/
def deepRangeProof (rounds : ℕ) : BatchedRangeProof sampleOrder where
  a := sampleProver.pedersenCommitment 1
  s := sampleProver.pedersenCommitment (2 : ℕ)
  t1 := sampleProver.pedersenCommitment (3 : ℕ)
  t2 := sampleProver.pedersenCommitment (4 : ℕ)
  tx := (5 : ℕ)
  txBlinding := (6 : ℕ)
  eBlinding := (7 : ℕ)
  innerProduct := ⟨List.replicate rounds (sampleProver.pedersenCommitment 1),
    List.replicate rounds (sampleProver.pedersenCommitment (2 : ℕ)), (6 : ℕ), (9 : ℕ)⟩

theorem deepRangeProof_paired (rounds : ℕ) :
    (deepRangeProof rounds).innerProduct.left.length
        = (deepRangeProof rounds).innerProduct.right.length
      ∧ (deepRangeProof rounds).innerProduct.left.length = rounds := by
  unfold deepRangeProof
  rw [List.length_replicate, List.length_replicate]
  exact ⟨rfl, rfl⟩

/-- A context with one commitment to 64 bits. -/
def sampleRangeContext : Bytes :=
  rangeProofContext (([1] : List (ZMod sampleOrder)).map sampleProver.pedersenCommitment) [64]

theorem length_sampleRangeContext : sampleRangeContext.length = 264 :=
  length_rangeProofContext (by decide) rfl

theorem sampleRangeContext_slots : sampleProver.RangeSlots sampleRangeContext 0 8 [1] [64] := by
  apply ConfidentialTransferService.rangeSlots_rangeProofContext
  · decide
  · rfl
  · intro point hpoint
    rw [List.mem_singleton.mp hpoint]
    exact sampleCurve_lawful.base_ne_zero
  · intro bitLength hbitLength
    rw [List.mem_singleton.mp hbitLength]
    decide

/-- A proof with eight rounds and a context with one commitment, there and back. -/
theorem rangeBytes_roundTrip_sample :
    sampleProver.parseBatchedRangeProof (sampleProver.marshalBatchedRangeProof (deepRangeProof 8))
        = .ok (deepRangeProof 8)
      ∧ (∀ rest, sampleProver.parseBatchedRangeProofContext (sampleRangeContext ++ rest)
        = .ok ([1], [64]))
      ∧ ∀ i, 1 ≤ i → i < 8 →
        slot sampleRangeContext i = List.replicate 32 0
          ∧ sampleRangeContext.getD (256 + i) 0 = 0 := by
  have hlaw : sampleProver.curve.Lawful := sampleCurve_lawful
  obtain ⟨hproof, -, hmade, hparsed⟩ := ConfidentialTransferService.rangeBytes_roundTrip hlaw
  obtain ⟨hpaired, hrounds⟩ := deepRangeProof_paired 8
  have hslots := sampleRangeContext_slots
  have hcontext := hslots.batchedRangeProofContext_eq hlaw length_sampleRangeContext.ge
    (List.cons_ne_nil 1 []) (show [5].length = 1 from rfl) (show [3].length = 1 from rfl)
  rw [List.take_of_length_le length_sampleRangeContext.le] at hcontext
  have hread := hslots.parse_eq hlaw (List.cons_ne_nil 1 [])
  obtain ⟨-, -, -, -, hzeros⟩ := hparsed _ _ _ length_sampleRangeContext.ge hread
  refine ⟨(hproof _ hpaired).1 (by omega), ?_, hzeros⟩
  obtain ⟨-, -, points, hpoints, hrest⟩ := hmade _ _ _ _ _ _ _ hcontext
  intro rest
  have hempty := hrest []
  rw [List.append_nil, hread] at hempty
  rw [hrest rest, ← hempty]
  rfl

/-- **The two bounds.** A proof with 32 rounds is refused, and a context is accepted with a byte
behind it that no generator writes. -/
theorem rangeBytes_bounds :
    sampleProver.parseBatchedRangeProof
        (sampleProver.marshalBatchedRangeProof (deepRangeProof 32))
        = .error (.message "decode range inner product proof: invalid length")
      ∧ sampleProver.parseBatchedRangeProofContext (sampleRangeContext ++ [7]) = .ok ([1], [64])
      ∧ ∀ commitments amounts bitLengths openings scalars lengths,
        sampleProver.batchedRangeProofContext commitments amounts bitLengths openings
          ≠ .ok (sampleRangeContext ++ [7], scalars, lengths) := by
  have hlaw : sampleProver.curve.Lawful := sampleCurve_lawful
  obtain ⟨hpaired, hrounds⟩ := deepRangeProof_paired 32
  refine ⟨ConfidentialTransferService.parseBatchedRangeProof_deep hlaw hpaired hrounds.ge, ?_, ?_⟩
  · have hslots : sampleProver.RangeSlots (sampleRangeContext ++ [7]) 0 8 [1] [64] :=
      sampleRangeContext_slots.append length_sampleRangeContext.ge
    exact hslots.parse_eq hlaw (List.cons_ne_nil 1 [])
  · intro commitments amounts bitLengths openings scalars lengths h
    have hsize := ConfidentialTransferService.length_batchedRangeProofContext hlaw h
    rw [List.length_append, length_sampleRangeContext] at hsize
    cases hsize

end SolanaGo.Token2022
