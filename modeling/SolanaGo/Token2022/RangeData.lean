/-
`confidential_range.go`: the encodings of batched range proofs and of their contexts.

A context is eight commitments and eight bit lengths, filled up with zeros.
-/
import SolanaGo.Token2022.RangeComplete

set_option autoImplicit false

namespace SolanaGo.Token2022

open Codec Buffer InnerProduct

/-! ## Alternating lists -/

/-- The entries of two lists in turn. -/
def interleave {α : Type} : List α → List α → List α
  | left :: lefts, right :: rights => left :: right :: interleave lefts rights
  | _, _ => []

section Interleave

variable {α : Type} {left right : List α}

theorem length_interleave (h : left.length = right.length) :
    (interleave left right).length = 2 * left.length := by
  induction left generalizing right with
  | nil =>
    obtain rfl := List.eq_nil_of_length_eq_zero h.symm
    rfl
  | cons l left ih =>
    obtain ⟨r, right, rfl⟩ := List.exists_cons_of_length_eq_add_one h.symm
    simp only [interleave, List.length_cons, ih (Nat.succ.inj h)]
    omega

theorem getElem?_interleave (h : left.length = right.length) (i : ℕ) :
    (interleave left right)[2 * i]? = left[i]? ∧ (interleave left right)[2 * i + 1]? = right[i]? := by
  induction left generalizing right i with
  | nil =>
    obtain rfl := List.eq_nil_of_length_eq_zero h.symm
    exact ⟨rfl, rfl⟩
  | cons l left ih =>
    obtain ⟨r, right, rfl⟩ := List.exists_cons_of_length_eq_add_one h.symm
    cases i with
    | zero => exact ⟨rfl, rfl⟩
    | succ i => exact ih (Nat.succ.inj h) i

end Interleave

/-! ## Sizes -/

/-- The context of a range proof: eight commitments and eight bit lengths. -/
def rangeProofContext (commitments : List PedersenCommitment) (bitLengths : List UInt8) : Bytes :=
  joinArrays (commitments ++ List.replicate (8 - commitments.length) (ByteArr.zero 32))
    ++ (bitLengths ++ List.replicate (8 - bitLengths.length) 0)

/-- An entry of a list that is filled up. -/
theorem getElem?_padded {α : Type} (fill : α) (entries : List α) {n i : ℕ} (hi : i < n) :
    (entries ++ List.replicate (n - entries.length) fill)[i]? = some (entries.getD i fill) := by
  rcases Nat.lt_or_ge i entries.length with hlt | hge
  · rw [List.getElem?_append_left hlt, List.getD_eq_getElem _ _ hlt, List.getElem?_eq_getElem hlt]
  · rw [List.getElem?_append_right hge, List.getD_eq_default _ _ hge, List.getElem?_replicate,
      if_pos (by omega)]

/-- A slot is not changed by what follows it. -/
theorem slot_append {data rest : Bytes} {i : ℕ} (h : 32 * (i + 1) ≤ data.length) :
    slot (data ++ rest) i = slot data i := by
  unfold slot slice
  rw [List.drop_append_of_le_length (by omega), List.take_append_of_le_length]
  rw [List.length_drop]
  omega

section Context

variable {commitments : List PedersenCommitment} {bitLengths : List UInt8}

theorem length_rangeProofContext (hcount : commitments.length ≤ 8)
    (hlen : bitLengths.length = commitments.length) :
    (rangeProofContext commitments bitLengths).length = 264 := by
  simp only [rangeProofContext, List.length_append, length_joinArrays, List.length_replicate]
  omega

/-- The slots of a context are the commitments, and zeros. -/
theorem slot_rangeProofContext {i : ℕ} (hi : i < 8) :
    slot (rangeProofContext commitments bitLengths) i
      = (commitments.getD i (ByteArr.zero 32)).toList := by
  have hentry := getElem?_padded (ByteArr.zero 32) commitments hi
  have hlen := (List.getElem?_eq_some_iff.mp hentry).1
  rw [← slot_joinArrays hentry]
  apply slot_append
  rw [length_joinArrays]
  omega

/-- The bit lengths of a context. -/
theorem getD_rangeProofContext (hcount : commitments.length ≤ 8) {i : ℕ} :
    (rangeProofContext commitments bitLengths).getD (256 + i) 0 = bitLengths.getD i 0 := by
  have hlen : (joinArrays (commitments
      ++ List.replicate (8 - commitments.length) (ByteArr.zero 32))).length = 256 := by
    rw [length_joinArrays, List.length_append, List.length_replicate]
    omega
  unfold rangeProofContext
  rw [List.getD_append_right _ _ _ _ (by omega), hlen, Nat.add_sub_cancel_left]
  rcases Nat.lt_or_ge i bitLengths.length with hlt | hge
  · rw [List.getD_append _ _ _ _ hlt]
  · rw [List.getD_append_right _ _ _ _ hge, List.getD_eq_getElem?_getD,
      List.getElem?_getD_replicate_default_eq, List.getD_eq_default _ _ hge]

end Context

namespace ConfidentialTransferService

variable {ℓ : ℕ} {P : Type} [AddCommGroup P] [Module (ZMod ℓ) P] [DecidableEq P]
  (service : ConfidentialTransferService ℓ P) (merlin : Transcript → ZMod ℓ)

/-! ## Contexts -/

/-- The loop of `batchedRangeProofContext`, with the openings it decodes. -/
def checkRangeCommitments : List PedersenCommitment → List UInt8 → List PedersenOpening →
    Except Fault (List (ZMod ℓ))
  | commitment :: commitments, bitLength :: bitLengths, opening :: openings => do
    let _ ← service.requirePoint commitment "range proof commitment" (.message "invalid commitment")
    refuse (bitLength = 0 ∨ 64 < bitLength) (.message "illegal amount bit length")
    let openingScalar ← service.scalarFromBytes opening.toList "range proof opening"
    let openingScalars ← checkRangeCommitments commitments bitLengths openings
    return openingScalar :: openingScalars
  | _, _, _ => .ok []

/-- `batchedRangeProofContext`. -/
def batchedRangeProofContext (commitments : List PedersenCommitment) (amounts : List ℕ)
    (bitLengths : List UInt8) (openings : List PedersenOpening) :
    Except Fault (Bytes × List (ZMod ℓ) × List ℕ) := do
  let count := commitments.length
  refuse (count = 0 ∨ 8 < count ∨ amounts.length ≠ count ∨ bitLengths.length ≠ count
    ∨ openings.length ≠ count) (.message "illegal commitment length")
  let openingScalars ← service.checkRangeCommitments commitments bitLengths openings
  return (rangeProofContext commitments bitLengths, openingScalars, bitLengths.map UInt8.toNat)

/-- The loop of `parseBatchedRangeProofContext`. After the first slot of zeros, all are zeros. -/
def parseRangeCommitments (context : Bytes) : (turns index : ℕ) → (padding : Bool) →
    Except Fault (List (P × ℕ))
  | 0, _, _ => .ok []
  | turns + 1, index, padding => do
    let encoded := slot context index
    let bitLength := context.getD (256 + index) 0
    if encoded.all (· == 0) then
      refuse (bitLength ≠ 0) (.message "invalid range proof context padding")
      parseRangeCommitments context turns (index + 1) true
    else
      refuse (padding = true) (.message "invalid range proof context padding")
      let point ← service.requirePoint (ByteArr.copyFrom 32 encoded) "range proof commitment"
        (.message "invalid range proof commitment")
      refuse (bitLength = 0 ∨ 64 < bitLength) (.message "illegal amount bit length")
      let entries ← parseRangeCommitments context turns (index + 1) padding
      return (point, bitLength.toNat) :: entries

/-- `parseBatchedRangeProofContext`. -/
def parseBatchedRangeProofContext (context : Bytes) : Except Fault (List P × List ℕ) := do
  let entries ← service.parseRangeCommitments context 8 0 false
  refuse (entries.length = 0) (.message "illegal commitment length")
  return (entries.map Prod.fst, entries.map Prod.snd)

/-- The slots of a context from an index on: commitments, then zeros. -/
structure RangeSlots (context : Bytes) (index turns : ℕ) (points : List P)
    (bitLengths : List UInt8) : Prop where
  paired : bitLengths.length = points.length
  count : points.length ≤ turns
  noIdentity : ∀ point ∈ points, point ≠ 0
  legal : ∀ bitLength ∈ bitLengths, ¬ (bitLength = 0 ∨ 64 < bitLength)
  slot_eq : ∀ i < turns, slot context (index + i)
    = ((points.map service.pedersenCommitment).getD i (ByteArr.zero 32)).toList
  bits_eq : ∀ i < turns, context.getD (256 + (index + i)) 0 = bitLengths.getD i 0

/-! ## Proofs as bytes -/

/-- `marshalRangeInnerProductProof`. -/
def marshalRangeInnerProductProof (proof : RangeInnerProductProof ℓ) : Bytes :=
  joinArrays (interleave proof.left proof.right
    ++ [service.curve.scalarBytes proof.a, service.curve.scalarBytes proof.b])

/-- `parseRangeInnerProductProof`. -/
def parseRangeInnerProductProof (data : Bytes) : Except Fault (RangeInnerProductProof ℓ) := do
  refuse (data.length % 32 ≠ 0 ∨ data.length < 64 ∨ (data.length / 32 - 2) % 2 ≠ 0)
    (.message "decode range inner product proof: invalid length")
  let logSize := (data.length / 32 - 2) / 2
  refuse (32 ≤ logSize) (.message "decode range inner product proof: invalid length")
  let left := (List.range logSize).map fun index => ByteArr.copyFrom 32 (slot data (2 * index))
  let right := (List.range logSize).map fun index => ByteArr.copyFrom 32 (slot data (2 * index + 1))
  let a ← service.scalarFromBytes (slot data (2 * logSize)) "range inner product a"
  let b ← service.scalarFromBytes (slot data (2 * logSize + 1)) "range inner product b"
  return ⟨left, right, a, b⟩

/-- `marshalBatchedRangeProof`. -/
def marshalBatchedRangeProof (proof : BatchedRangeProof ℓ) : Bytes :=
  joinArrays [proof.a, proof.s, proof.t1, proof.t2, service.curve.scalarBytes proof.tx,
      service.curve.scalarBytes proof.txBlinding, service.curve.scalarBytes proof.eBlinding]
    ++ service.marshalRangeInnerProductProof proof.innerProduct

/-- `parseBatchedRangeProof`. -/
def parseBatchedRangeProof (data : Bytes) : Except Fault (BatchedRangeProof ℓ) := do
  refuse (data.length < 224 ∨ data.length % 32 ≠ 0)
    (.message "decode batched range proof: invalid length")
  let tx ← service.scalarFromBytes (slot data 4) "range proof t_x"
  let txBlinding ← service.scalarFromBytes (slot data 5) "range proof t_x blinding"
  let eBlinding ← service.scalarFromBytes (slot data 6) "range proof e blinding"
  let innerProduct ← service.parseRangeInnerProductProof (data.drop 224)
  return {
    a := ByteArr.copyFrom 32 (slot data 0)
    s := ByteArr.copyFrom 32 (slot data 1)
    t1 := ByteArr.copyFrom 32 (slot data 2)
    t2 := ByteArr.copyFrom 32 (slot data 3)
    tx := tx
    txBlinding := txBlinding
    eBlinding := eBlinding
    innerProduct := innerProduct }

/-! ## Decoding what was encoded -/

section Lemmas

variable {service} {merlin} (hlaw : service.curve.Lawful)

include hlaw

omit [Module (ZMod ℓ) P] [DecidableEq P] in
/-- A slot of zeros is the identity. -/
theorem all_zero_pedersenCommitment {point : P} :
    (service.pedersenCommitment point).toList.all (· == 0) = true ↔ point = 0 := by
  rw [← pedersenCommitment_eq_identityBytes hlaw, List.all_eq_true]
  refine ⟨fun h => ?_, fun h => ?_⟩
  · refine List.eq_replicate_iff.mpr ⟨ByteArr.length_toList _, fun byte hbyte => ?_⟩
    exact beq_iff_eq.mp (h byte hbyte)
  · rw [h]
    intro byte hbyte
    exact beq_iff_eq.mpr (List.eq_of_mem_replicate hbyte)

omit [Module (ZMod ℓ) P] in
/-- What the generator checks. -/
theorem checkRangeCommitments_eq_ok {commitments : List PedersenCommitment}
    {bitLengths : List UInt8} {openings : List PedersenOpening} {scalars : List (ZMod ℓ)}
    (hbits : bitLengths.length = commitments.length)
    (hopenings : openings.length = commitments.length)
    (h : service.checkRangeCommitments commitments bitLengths openings = .ok scalars) :
    (∃ points : List P, commitments = points.map service.pedersenCommitment
        ∧ ∀ point ∈ points, point ≠ 0)
      ∧ (∀ bitLength ∈ bitLengths, ¬ (bitLength = 0 ∨ 64 < bitLength))
      ∧ List.Forall₂ (fun opening r => service.curve.scalarOf opening.toList = .ok r) openings
        scalars := by
  induction commitments generalizing bitLengths openings scalars with
  | nil =>
    obtain rfl := List.eq_nil_of_length_eq_zero hbits
    obtain rfl := List.eq_nil_of_length_eq_zero hopenings
    obtain rfl := Except.ok.inj h
    exact ⟨⟨[], rfl, by simp⟩, by simp, .nil⟩
  | cons commitment commitments ih =>
    obtain ⟨bitLength, bitLengths, rfl⟩ := List.exists_cons_of_length_eq_add_one hbits
    obtain ⟨opening, openings, rfl⟩ := List.exists_cons_of_length_eq_add_one hopenings
    rw [checkRangeCommitments] at h
    obtain ⟨point, hpoint, h⟩ := bind_eq_ok.mp h
    obtain ⟨hlength, h⟩ := refuse_bind_eq_ok.mp h
    obtain ⟨r, hr, h⟩ := bind_eq_ok.mp h
    obtain ⟨rs, hrest, h⟩ := bind_eq_ok.mp h
    obtain rfl := Except.ok.inj h
    obtain ⟨hencoded, hne⟩ := requirePoint_eq_ok hlaw hpoint
    obtain ⟨⟨points, rfl, hpoints⟩, hlengths, hscalars⟩ :=
      ih (Nat.succ.inj hbits) (Nat.succ.inj hopenings) hrest
    refine ⟨⟨point :: points, ?_, ?_⟩, ?_, .cons (scalarFromBytes_eq_ok.mp hr) hscalars⟩
    · rw [List.map_cons, hencoded]
    · exact List.forall_mem_cons.mpr ⟨hne, hpoints⟩
    · exact List.forall_mem_cons.mpr ⟨hlength, hlengths⟩

omit [Module (ZMod ℓ) P] in
/-- The commitments of a context, then zeros, are read back. -/
theorem parseRangeCommitments_eq {context : Bytes} {turns index : ℕ} {padding : Bool}
    {points : List P} {bitLengths : List UInt8} (hpadding : padding = true → points = [])
    (h : service.RangeSlots context index turns points bitLengths) :
    service.parseRangeCommitments context turns index padding
      = .ok (points.zip (bitLengths.map UInt8.toNat)) := by
  induction turns generalizing index padding points bitLengths with
  | zero =>
    obtain rfl := List.eq_nil_of_length_eq_zero (Nat.le_zero.mp h.count)
    rfl
  | succ turns ih =>
    have hslot := h.slot_eq 0 (Nat.succ_pos turns)
    have hlength := h.bits_eq 0 (Nat.succ_pos turns)
    have hslots : ∀ i < turns, slot context (index + 1 + i)
        = ((points.map service.pedersenCommitment).getD (i + 1) (ByteArr.zero 32)).toList := by
      intro i hi
      rw [Nat.add_assoc, Nat.add_comm 1 i]
      exact h.slot_eq (i + 1) (Nat.succ_lt_succ hi)
    have hlengths : ∀ i < turns, context.getD (256 + (index + 1 + i)) 0
        = bitLengths.getD (i + 1) 0 := by
      intro i hi
      rw [Nat.add_assoc index, Nat.add_comm 1 i]
      exact h.bits_eq (i + 1) (Nat.succ_lt_succ hi)
    rw [Nat.add_zero] at hslot hlength
    rw [parseRangeCommitments]
    rw [hslot, hlength]
    cases points with
    | nil =>
      obtain rfl := List.eq_nil_of_length_eq_zero h.paired
      have hhead : (([] : List P).map service.pedersenCommitment).getD 0 (ByteArr.zero 32)
          = ByteArr.zero 32 := rfl
      rw [hhead, if_pos (by decide)]
      refine refuse_bind_eq_ok.mpr ⟨by simp, ?_⟩
      exact ih (fun _ => rfl) ⟨rfl, Nat.zero_le _, by simp, by simp, hslots, hlengths⟩
    | cons point points =>
      obtain ⟨bitLength, bitLengths, rfl⟩ := List.exists_cons_of_length_eq_add_one h.paired
      obtain ⟨hpoint, hpoints⟩ := List.forall_mem_cons.mp h.noIdentity
      obtain ⟨hbit, hbits⟩ := List.forall_mem_cons.mp h.legal
      have hnot : padding = false := by
        cases padding with
        | false => rfl
        | true => cases hpadding rfl
      subst hnot
      have hhead : ((point :: points).map service.pedersenCommitment).getD 0 (ByteArr.zero 32)
          = service.pedersenCommitment point := rfl
      rw [hhead, if_neg (fun hzero => hpoint ((all_zero_pedersenCommitment hlaw).mp hzero)),
        ByteArr.copyFrom_toList]
      refine refuse_bind_eq_ok.mpr ⟨by simp, (requirePoint_bind_eq_ok hlaw rfl).mpr
        ⟨hpoint, refuse_bind_eq_ok.mpr ⟨hbit, bind_eq_ok.mpr ⟨_, ?_, rfl⟩⟩⟩⟩
      exact ih (fun hflag => by cases hflag) ⟨Nat.succ.inj h.paired,
        Nat.le_of_succ_le_succ h.count, hpoints, hbits, hslots, hlengths⟩

omit [Module (ZMod ℓ) P] in
/-- A context is read back by its slots. -/
theorem RangeSlots.parse_eq {context : Bytes} {points : List P} {bitLengths : List UInt8}
    (h : service.RangeSlots context 0 8 points bitLengths) (hpos : points ≠ []) :
    service.parseBatchedRangeProofContext context = .ok (points, bitLengths.map UInt8.toNat) := by
  have hlen : (bitLengths.map UInt8.toNat).length = points.length := by
    rw [List.length_map, h.paired]
  unfold parseBatchedRangeProofContext
  rw [parseRangeCommitments_eq hlaw (fun hflag => by cases hflag) h, ok_bind,
    List.map_fst_zip hlen.ge, List.map_snd_zip hlen.le]
  refine refuse_bind_eq_ok.mpr ⟨?_, rfl⟩
  rw [List.length_zip, hlen, Nat.min_self]
  exact fun hzero => hpos (List.eq_nil_of_length_eq_zero hzero)

omit [Module (ZMod ℓ) P] [DecidableEq P] hlaw in
/-- The slots of a context that the generator has filled. -/
theorem rangeSlots_rangeProofContext {points : List P} {bitLengths : List UInt8}
    (hcount : points.length ≤ 8) (hlen : bitLengths.length = points.length)
    (hpoints : ∀ point ∈ points, point ≠ 0)
    (hbits : ∀ bitLength ∈ bitLengths, ¬ (bitLength = 0 ∨ 64 < bitLength)) :
    service.RangeSlots (rangeProofContext (points.map service.pedersenCommitment) bitLengths) 0 8
      points bitLengths where
  paired := hlen
  count := hcount
  noIdentity := hpoints
  legal := hbits
  slot_eq i hi := by
    rw [Nat.zero_add]
    exact slot_rangeProofContext hi
  bits_eq i hi := by
    rw [Nat.zero_add]
    exact getD_rangeProofContext (by rwa [List.length_map])

omit [Module (ZMod ℓ) P] in
/-- What is known of a context that was made. -/
theorem batchedRangeProofContext_eq_ok {commitments : List PedersenCommitment} {amounts : List ℕ}
    {bitLengths : List UInt8} {openings : List PedersenOpening} {context : Bytes}
    {scalars : List (ZMod ℓ)} {lengths : List ℕ}
    (h : service.batchedRangeProofContext commitments amounts bitLengths openings
      = .ok (context, scalars, lengths)) :
    ∃ points : List P, points ≠ [] ∧ commitments = points.map service.pedersenCommitment
      ∧ amounts.length = points.length
      ∧ List.Forall₂ (fun opening r => service.curve.scalarOf opening.toList = .ok r) openings
        scalars
      ∧ scalars.length = points.length ∧ context = rangeProofContext commitments bitLengths
      ∧ lengths = bitLengths.map UInt8.toNat
      ∧ service.RangeSlots context 0 8 points bitLengths := by
  unfold batchedRangeProofContext at h
  obtain ⟨hguard, h⟩ := refuse_bind_eq_ok.mp h
  obtain ⟨hpos, hcount, hamounts, hbits, hopenings⟩ := by simpa only [not_or, not_not] using hguard
  obtain ⟨scalars', hcheck, h⟩ := bind_eq_ok.mp h
  obtain ⟨rfl, rfl, rfl⟩ := by simpa only [Prod.mk.injEq] using Except.ok.inj h
  obtain ⟨⟨points, rfl, hpoints⟩, hlegal, hscalars⟩ :=
    checkRangeCommitments_eq_ok hlaw hbits hopenings hcheck
  rw [List.length_map] at hpos hcount hamounts hbits hopenings
  refine ⟨points, ?_, rfl, hamounts, hscalars, ?_, rfl, rfl,
    rangeSlots_rangeProofContext (Nat.not_lt.mp hcount) hbits hpoints hlegal⟩
  · rintro rfl
    exact hpos rfl
  · rw [← hscalars.length_eq, hopenings]

variable (service) in
omit [AddCommGroup P] [Module (ZMod ℓ) P] [DecidableEq P] hlaw in
/-- The slots of the cross terms. -/
theorem slot_marshalRangeInnerProductProof {proof : RangeInnerProductProof ℓ}
    (hlen : proof.left.length = proof.right.length) :
    (∀ i (h : i < proof.left.length),
        slot (service.marshalRangeInnerProductProof proof) (2 * i) = proof.left[i].toList)
      ∧ (∀ i (h : i < proof.right.length),
        slot (service.marshalRangeInnerProductProof proof) (2 * i + 1) = proof.right[i].toList)
      ∧ slot (service.marshalRangeInnerProductProof proof) (2 * proof.left.length)
        = (service.curve.scalarBytes proof.a).toList
      ∧ slot (service.marshalRangeInnerProductProof proof) (2 * proof.left.length + 1)
        = (service.curve.scalarBytes proof.b).toList := by
  have hinter := length_interleave hlen
  refine ⟨fun i hi => slot_joinArrays ?_, fun i hi => slot_joinArrays ?_, slot_joinArrays ?_,
    slot_joinArrays ?_⟩
  · rw [List.getElem?_append_left (by omega), (getElem?_interleave hlen i).1,
      List.getElem?_eq_getElem hi]
  · rw [List.getElem?_append_left (by omega), (getElem?_interleave hlen i).2,
      List.getElem?_eq_getElem hi]
  · rw [List.getElem?_append_right (by omega), hinter, Nat.sub_self]
    rfl
  · rw [List.getElem?_append_right (by omega), hinter, Nat.add_sub_cancel_left]
    rfl

variable (service) in
omit [AddCommGroup P] [Module (ZMod ℓ) P] [DecidableEq P] hlaw in
theorem length_marshalRangeInnerProductProof {proof : RangeInnerProductProof ℓ}
    (hlen : proof.left.length = proof.right.length) :
    (service.marshalRangeInnerProductProof proof).length = 32 * (2 * proof.left.length + 2) := by
  unfold marshalRangeInnerProductProof
  rw [length_joinArrays, List.length_append, length_interleave hlen]
  rfl

omit [Module (ZMod ℓ) P] [DecidableEq P] in
/-- An inner-product proof is read back. -/
theorem parseRangeInnerProductProof_marshal {proof : RangeInnerProductProof ℓ}
    (hlen : proof.left.length = proof.right.length) (hlt : proof.left.length < 32) :
    service.parseRangeInnerProductProof (service.marshalRangeInnerProductProof proof)
      = .ok proof := by
  obtain ⟨hleft, hright, ha, hb⟩ := slot_marshalRangeInnerProductProof service hlen
  have hsize := length_marshalRangeInnerProductProof service hlen
  have hlog : ((service.marshalRangeInnerProductProof proof).length / 32 - 2) / 2
      = proof.left.length := by
    rw [hsize]
    omega
  unfold parseRangeInnerProductProof
  rw [hlog]
  dsimp only
  rw [ha, hb, scalarFromBytes_scalarBytes hlaw, scalarFromBytes_scalarBytes hlaw]
  refine refuse_bind_eq_ok.mpr ⟨?_, refuse_bind_eq_ok.mpr ⟨Nat.not_le.mpr hlt, ?_⟩⟩
  · rw [hsize]
    omega
  · refine congrArg Except.ok (RangeInnerProductProof.ext ?_ ?_ rfl rfl)
    · refine List.ext_getElem (by simp) fun i _ hi => ?_
      rw [List.getElem_map, List.getElem_range, hleft i hi, ByteArr.copyFrom_toList]
    · refine List.ext_getElem (by simp [hlen]) fun i _ hi => ?_
      rw [List.getElem_map, List.getElem_range, hright i hi, ByteArr.copyFrom_toList]

omit [Module (ZMod ℓ) P] [DecidableEq P] in
/-- What is in front of the inner product is read back, whatever the parser makes of the rest. -/
theorem parseBatchedRangeProof_marshal_eq {proof : BatchedRangeProof ℓ}
    (hlen : proof.innerProduct.left.length = proof.innerProduct.right.length) :
    service.parseBatchedRangeProof (service.marshalBatchedRangeProof proof)
      = service.parseRangeInnerProductProof
          (service.marshalRangeInnerProductProof proof.innerProduct)
        >>= fun innerProduct => .ok { proof with innerProduct := innerProduct } := by
  have hsize := length_marshalRangeInnerProductProof service hlen
  have hdrop : (service.marshalBatchedRangeProof proof).drop 224
      = service.marshalRangeInnerProductProof proof.innerProduct :=
    List.drop_left' (length_joinArrays _)
  have hguard : ¬ ((service.marshalBatchedRangeProof proof).length < 224
      ∨ (service.marshalBatchedRangeProof proof).length % 32 ≠ 0) := by
    have hfront := congrArg List.length hdrop
    rw [List.length_drop, hsize] at hfront
    omega
  unfold parseBatchedRangeProof refuse
  rw [if_neg hguard, ok_bind, hdrop]
  simp only [marshalBatchedRangeProof, joinArrays_cons, joinArrays_nil, List.append_assoc, slot_zero,
    slot_succ, scalarFromBytes_scalarBytes hlaw, ByteArr.copyFrom_toList, ok_bind]
  rfl

omit [Module (ZMod ℓ) P] [DecidableEq P] in
/-- A range proof is read back. -/
theorem parseBatchedRangeProof_marshal {proof : BatchedRangeProof ℓ}
    (hlen : proof.innerProduct.left.length = proof.innerProduct.right.length)
    (hlt : proof.innerProduct.left.length < 32) :
    service.parseBatchedRangeProof (service.marshalBatchedRangeProof proof) = .ok proof := by
  rw [parseBatchedRangeProof_marshal_eq hlaw hlen, parseRangeInnerProductProof_marshal hlaw hlen hlt]
  rfl

end Lemmas

end ConfidentialTransferService

end SolanaGo.Token2022
