/-
`confidential_record.go` and `confidential_auxiliary_decode.go`: proof data that is written to a
record account piece by piece.

A plan creates the record, initializes it and then writes the data in pieces of the chunk size.
The loop over the pieces counts in a Go `int`, so its offset is an `Int64` here and the addition
at the end of a turn wraps. It never does: a second turn needs a chunk size below the length of
the data.

The record program keeps the data behind a header of 33 bytes. `replay` runs the writes against
such an account, and what is proved of the plan is that this rebuilds the data.
-/
import SolanaGo.Token2022.Percentage
import SolanaGo.Token2022.RangeData
import SolanaGo.System.Instructions
import SolanaGo.Lib.Transition

set_option autoImplicit false

namespace SolanaGo.Token2022

open Codec Buffer

/-! ## Instructions of the record program -/

/-- `type ConfidentialAuxiliaryInstruction struct`. -/
structure ConfidentialAuxiliaryInstruction where
  programID : PublicKey
  accounts : AccountMetaSlice
  data : Bytes
  deriving DecidableEq

/-- A `*ConfidentialAuxiliaryInstruction` as an `Instruction`. -/
def ConfidentialAuxiliaryInstruction.instruction (inst : ConfidentialAuxiliaryInstruction) :
    Instruction where
  programID := inst.programID
  accounts := inst.accounts
  data := .ok inst.data

/-- `type ConfidentialRecordInstructionData struct`. -/
structure ConfidentialRecordInstructionData where
  offset : UInt64 := 0
  data : Bytes := []
  dataLength : UInt64 := 0
  deriving DecidableEq

/-- `type ConfidentialRecordPlan struct`. -/
structure ConfidentialRecordPlan where
  createAndWrite : List Instruction
  close : Instruction
  space : UInt64

/-- `ConfidentialRecordDataOffset`. -/
def confidentialRecordDataOffset : UInt32 := 33

/-- `proofData[lo:hi]` for bounds of type `int`. Bounds that do not fit are a panic. -/
def sliceInt (proofData : Bytes) (lo hi : Int64) : Except Fault Bytes :=
  if 0 ≤ lo ∧ lo ≤ hi ∧ hi ≤ Int64.ofNat proofData.length then
    .ok (slice proofData lo.toNatClampNeg hi.toNatClampNeg)
  else .error (.library "slice bounds out of range")

namespace ConfidentialTransferService

variable {ℓ : ℕ} {P : Type} (service : ConfidentialTransferService ℓ P)

/-- `InitializeConfidentialRecord`. -/
def initializeConfidentialRecord (record authority : PublicKey) :
    ConfidentialAuxiliaryInstruction where
  programID := service.recordProgramID
  accounts := [newAccountMeta record true false, newAccountMeta authority false false]
  data := [0]

/-- `WriteConfidentialRecord`. -/
def writeConfidentialRecord (record authority : PublicKey) (offset : UInt64) (data : Bytes) :
    ConfidentialAuxiliaryInstruction where
  programID := service.recordProgramID
  accounts := [newAccountMeta record true false, newAccountMeta authority false true]
  data := 1 :: (leBytes 8 offset.toNat ++ (leBytes 4 (UInt32.ofNat data.length).toNat ++ data))

/-- `CloseConfidentialRecord`. -/
def closeConfidentialRecord (record authority destination : PublicKey) :
    ConfidentialAuxiliaryInstruction where
  programID := service.recordProgramID
  accounts := [newAccountMeta record true false, newAccountMeta authority false true,
    newAccountMeta destination true false]
  data := [3]

/-- The loop of `ConfidentialProofRecordInstructions`, for at most `turns` turns. -/
def appendRecordWrites (record authority : PublicKey) (proofData : Bytes) (chunkSize : Int64) :
    (turns : ℕ) → (offset : Int64) → (instructions : List Instruction) →
      Except Fault (List Instruction)
  | 0, _, _ => .error (.library "out of turns")
  | turns + 1, offset, instructions =>
    let len := Int64.ofNat proofData.length
    if offset < len then do
      let stop := if chunkSize < len - offset then offset + chunkSize else len
      let piece ← sliceInt proofData offset stop
      let write := service.writeConfidentialRecord record authority offset.toUInt64 piece
      appendRecordWrites record authority proofData chunkSize turns (offset + chunkSize)
        (instructions ++ [write.instruction])
    else .ok instructions

/-- `ConfidentialProofRecordInstructions`. Every turn of its loop but the last passes a byte of
the data. -/
def confidentialProofRecordInstructions (payer record authority destination : PublicKey)
    (lamports : UInt64) (proofData : Bytes) (chunkSize : Int64) :
    Except Fault ConfidentialRecordPlan := do
  refuse (chunkSize ≤ 0) (.message
    ("create confidential proof record: invalid chunk size " ++ toString chunkSize))
  let space := UInt64.ofNat proofData.length + confidentialRecordDataOffset.toUInt64
  let create := System.newCreateAccountInstruction lamports space service.recordProgramID payer
    record
  let instructions ← service.appendRecordWrites record authority proofData chunkSize
    (proofData.length + 1) 0
    [create.instruction, (service.initializeConfidentialRecord record authority).instruction]
  .ok { createAndWrite := instructions
        close := (service.closeConfidentialRecord record authority destination).instruction
        space }

/-- `DecodeConfidentialRecordInstruction`. -/
def decodeConfidentialRecordInstruction (accounts : AccountMetaSlice) (data : Bytes) :
    Except Fault (ConfidentialAuxiliaryInstruction × ConfidentialRecordInstructionData) :=
  let inst : ConfidentialAuxiliaryInstruction :=
    { programID := service.recordProgramID, accounts, data }
  let tag := data.getD 0 0
  if data.length = 0 ∨ 4 < tag then
    .error (.message "decode confidential record instruction: invalid data")
  else if tag = 1 then
    if data.length < 13 then
      .error (.message "decode confidential record write: invalid data")
    else if leValue (slice data 9 13) ≠ data.length - 13 then
      .error (.message "decode confidential record write: invalid data length")
    else .ok (inst, { offset := UInt64.ofNat (leValue (slice data 1 9)), data := data.drop 13 })
  else if tag = 4 then
    if data.length ≠ 9 then
      .error (.message "decode confidential record reallocate: invalid data")
    else .ok (inst, { dataLength := UInt64.ofNat (leValue (data.drop 1)) })
  else if data.length ≠ 1 then
    .error (.message
      ("decode confidential record instruction " ++ toString tag ++ ": invalid data"))
  else .ok (inst, {})

end ConfidentialTransferService

/-! ## The record program

Its own side of the writes. Nothing of it is in the repository. -/

/-- A write at an offset behind the header, if the account has room for it. -/
def writeRecord (record : Bytes) (write : ConfidentialRecordInstructionData) : Option Bytes :=
  let start := confidentialRecordDataOffset.toNat + write.offset.toNat
  if start + write.data.length ≤ record.length then some (overwrite record start write.data)
  else none

/-- The record after the writes. -/
def replay : Bytes → List ConfidentialRecordInstructionData → Option Bytes :=
  Transition.run writeRecord

/-- The place of a write in the data, and what is written. -/
def ConfidentialRecordInstructionData.piece (write : ConfidentialRecordInstructionData) :
    ℕ × Bytes := (write.offset.toNat, write.data)

/-- The write of a piece. -/
def ofPiece (piece : UInt64 × Bytes) : ConfidentialRecordInstructionData :=
  { offset := piece.1, data := piece.2 }

/-- Writes that tile the data rebuild it, whatever the account held before. -/
theorem replay_of_tiles {data header back : Bytes} {lo : ℕ}
    {writes : List ConfidentialRecordInstructionData}
    (hheader : header.length = confidentialRecordDataOffset.toNat)
    (htiles : Tiles data lo (writes.map (·.piece))) (hback : lo + back.length = data.length) :
    replay (header ++ data.take lo ++ back) writes = some (header ++ data) := by
  induction writes generalizing lo back with
  | nil =>
    have hlo : lo = data.length := htiles
    have hnil : back = [] := List.eq_nil_of_length_eq_zero (by omega)
    rw [hlo, hnil, List.take_length, List.append_nil]
    rfl
  | cons write writes ih =>
    obtain ⟨hoffset, -, hle, hpiece, hrest⟩ := htiles
    change write.offset.toNat = lo at hoffset
    change lo + write.data.length ≤ data.length at hle
    change write.data = slice data lo (lo + write.data.length) at hpiece
    have hfront : (header ++ data.take lo).length
        = confidentialRecordDataOffset.toNat + write.offset.toNat := by
      rw [List.length_append, List.length_take, hheader, hoffset]
      omega
    have hstep : writeRecord (header ++ data.take lo ++ back) write
        = some (header ++ data.take (lo + write.data.length)
          ++ back.drop write.data.length) := by
      unfold writeRecord
      rw [if_pos (by rw [List.length_append, hfront, hoffset]; omega), ← hfront,
        overwrite_append, List.append_assoc header]
      have htake : data.take lo ++ write.data = data.take (lo + write.data.length) := by
        rw [List.take_add, hpiece]
        simp [slice]
      rw [htake]
    refine Transition.run_cons_eq_some.mpr ⟨_, hstep, ?_⟩
    exact ih hrest (by rw [List.length_drop]; omega)

/-! ## The loop -/

/-- An `int` that is a natural number. -/
def IsNat (x : Int64) (n : ℕ) : Prop := x.toInt = n

namespace IsNat

variable {x y : Int64} {m n : ℕ}

theorem ofNat {n : ℕ} (h : n < 2 ^ 63) : IsNat (Int64.ofNat n) n := Int64.toInt_ofNat_of_lt h

theorem add (hx : IsNat x m) (hy : IsNat y n) (h : m + n < 2 ^ 63) : IsNat (x + y) (m + n) := by
  unfold IsNat at *
  rw [Int64.toInt_add, hx, hy]
  exact Int.bmod_eq_of_le (by omega) (by omega)

theorem sub (hx : IsNat x m) (hy : IsNat y n) (h : n ≤ m) : IsNat (x - y) (m - n) := by
  have hlt := x.toInt_lt
  unfold IsNat at *
  rw [Int64.toInt_sub, hx, hy, Int.bmod_eq_of_le (by omega) (by omega)]
  omega

theorem lt_iff (hx : IsNat x m) (hy : IsNat y n) : x < y ↔ m < n := by
  unfold IsNat at *
  rw [Int64.lt_iff_toInt_lt, hx, hy]
  omega

theorem le_iff (hx : IsNat x m) (hy : IsNat y n) : x ≤ y ↔ m ≤ n := by
  unfold IsNat at *
  rw [Int64.le_iff_toInt_le, hx, hy]
  omega

theorem zero : IsNat 0 0 := rfl

theorem zero_le (hx : IsNat x m) : 0 ≤ x := (zero.le_iff hx).mpr (Nat.zero_le m)

theorem toNatClampNeg (hx : IsNat x m) : x.toNatClampNeg = m := by
  rw [← Int64.toNat_toInt, hx]
  omega

theorem toNat_toUInt64 (hx : IsNat x m) : x.toUInt64.toNat = m := by
  rw [Int64.toNat_toUInt64_of_le hx.zero_le, hx.toNatClampNeg]

/-- A positive `int`. -/
theorem exists_of_pos (h : 0 < x) : ∃ n, 0 < n ∧ n < 2 ^ 63 ∧ IsNat x n := by
  have hpos : 0 < x.toInt := Int64.lt_iff_toInt_lt.mp h
  have hlt := x.toInt_lt
  refine ⟨x.toInt.toNat, by omega, by omega, ?_⟩
  unfold IsNat
  omega

end IsNat

theorem sliceInt_eq {proofData : Bytes} {lo hi : Int64} {m n : ℕ}
    (hlen : proofData.length < 2 ^ 63) (hlo : IsNat lo m) (hhi : IsNat hi n) (hle : m ≤ n)
    (hn : n ≤ proofData.length) : sliceInt proofData lo hi = .ok (slice proofData m n) := by
  unfold sliceInt
  rw [if_pos ⟨hlo.zero_le, (hlo.le_iff hhi).mpr hle, (hhi.le_iff (.ofNat hlen)).mpr hn⟩,
    hlo.toNatClampNeg, hhi.toNatClampNeg]

namespace ConfidentialTransferService

variable {ℓ : ℕ} {P : Type} (service : ConfidentialTransferService ℓ P)

/-- **The loop of the plan.** It appends writes that tile the data from the offset on, none
longer than the chunk size. A turn behind the first one needs a chunk size below the length of
the data, so no addition wraps. -/
theorem appendRecordWrites_tiles (record authority : PublicKey) {proofData : Bytes}
    {chunkSize : Int64} {chunk : ℕ} (hlen : proofData.length < 2 ^ 32)
    (hchunk : IsNat chunkSize chunk) (hpos : 0 < chunk) (hint : chunk < 2 ^ 63)
    {turns : ℕ} {offset : Int64} {lo : ℕ} (instructions : List Instruction)
    (hoffset : IsNat offset lo) (hturns : proofData.length - lo < turns)
    (hlo : lo = 0 ∨ chunk ≤ lo) :
    ∃ pieces : List (UInt64 × Bytes),
      service.appendRecordWrites record authority proofData chunkSize turns offset instructions
          = .ok (instructions ++ pieces.map fun piece =>
            (service.writeConfidentialRecord record authority piece.1 piece.2).instruction)
        ∧ Tiles proofData (min lo proofData.length)
          (pieces.map fun piece => (piece.1.toNat, piece.2))
        ∧ ∀ piece ∈ pieces, piece.2.length ≤ chunk := by
  have hlenNat : IsNat (Int64.ofNat proofData.length) proofData.length := .ofNat (by omega)
  induction turns generalizing offset lo instructions with
  | zero => omega
  | succ turns ih =>
    unfold appendRecordWrites
    by_cases hend : lo < proofData.length
    · -- a turn: the piece ends at the next offset, or at the end of the data
      rw [if_pos ((hoffset.lt_iff hlenNat).mpr hend)]
      have hnext : IsNat (offset + chunkSize) (lo + chunk) := hoffset.add hchunk (by omega)
      obtain ⟨stop, hmin, hstop⟩ : ∃ stop, min (lo + chunk) proofData.length = stop
          ∧ IsNat (if chunkSize < Int64.ofNat proofData.length - offset then offset + chunkSize
            else Int64.ofNat proofData.length) stop := by
        have hcond : (chunkSize < Int64.ofNat proofData.length - offset)
            ↔ chunk < proofData.length - lo := hchunk.lt_iff (hlenNat.sub hoffset hend.le)
        by_cases hshort : chunk < proofData.length - lo
        · rw [if_pos (hcond.mpr hshort)]
          exact ⟨_, Nat.min_eq_left (by omega), hnext⟩
        · rw [if_neg (mt hcond.mp hshort)]
          exact ⟨_, Nat.min_eq_right (by omega), hlenNat⟩
      dsimp only
      rw [sliceInt_eq (by omega) hoffset hstop (by omega) (by omega), ok_bind]
      obtain ⟨pieces, hrun, htiles, hshort⟩ := ih (instructions ++
        [(service.writeConfidentialRecord record authority offset.toUInt64
          (slice proofData lo stop)).instruction]) hnext (by omega) (by omega)
      refine ⟨(offset.toUInt64, slice proofData lo stop) :: pieces, ?_, ?_, ?_⟩
      · rw [hrun, List.append_assoc]
        rfl
      · rw [hmin] at htiles
        rw [Nat.min_eq_left hend.le, List.map_cons, hoffset.toNat_toUInt64]
        exact htiles.cons_slice (by omega) (by omega)
      · intro piece hmem
        rcases List.mem_cons.mp hmem with rfl | hmem
        · have hpiece : (slice proofData lo stop).length = stop - lo := length_slice (by omega)
          exact hpiece.trans_le (by omega)
        · exact hshort piece hmem
    · -- the loop ends
      rw [if_neg (mt (hoffset.lt_iff hlenNat).mp hend)]
      refine ⟨[], by rw [List.map_nil, List.append_nil], ?_, nofun⟩
      exact Nat.min_eq_right (by omega)

/-! ## The plan -/

/-- A write is read back as it was built. -/
theorem decode_writeConfidentialRecord (accounts : AccountMetaSlice)
    (record authority : PublicKey) (offset : UInt64) {data : Bytes}
    (hdata : data.length < 2 ^ 32) :
    service.decodeConfidentialRecordInstruction accounts
        (service.writeConfidentialRecord record authority offset data).data
      = .ok ({ programID := service.recordProgramID, accounts
               data := (service.writeConfidentialRecord record authority offset data).data },
             { offset, data }) := by
  have hword : (UInt32.ofNat data.length).toNat = data.length := UInt32.toNat_ofNat_of_lt' hdata
  have hlength : (leBytes 4 data.length).length = 4 := length_leBytes 4 _
  have hoffset : (leBytes 8 offset.toNat).length = 8 := length_leBytes 8 _
  unfold writeConfidentialRecord decodeConfidentialRecordInstruction
  rw [hword]
  have hslice : slice (1 :: (leBytes 8 offset.toNat ++ (leBytes 4 data.length ++ data))) 9 13
      = leBytes 4 data.length := by
    unfold slice
    rw [List.drop_succ_cons, List.drop_left' hoffset, List.take_left' hlength]
  have hfront : slice (1 :: (leBytes 8 offset.toNat ++ (leBytes 4 data.length ++ data))) 1 9
      = leBytes 8 offset.toNat := by
    unfold slice
    rw [List.drop_succ_cons, List.drop_zero, List.take_left' hoffset]
  have hback : (1 :: (leBytes 8 offset.toNat ++ (leBytes 4 data.length ++ data))).drop 13
      = data := by
    rw [List.drop_succ_cons, ← List.append_assoc, List.drop_left' (by simp)]
  have hlen : (1 :: (leBytes 8 offset.toNat ++ (leBytes 4 data.length ++ data))).length
      = 13 + data.length := by
    simp only [List.length_cons, List.length_append, length_leBytes]
    omega
  have hvalue : leValue (leBytes 4 data.length) = data.length := by
    rw [leValue_leBytes]
    exact Nat.mod_eq_of_lt hdata
  have hcount : leValue (leBytes 8 offset.toNat) = offset.toNat := by
    rw [leValue_leBytes]
    exact Nat.mod_eq_of_lt offset.toNat_lt
  dsimp only
  rw [List.getD_cons_zero, hslice, hfront, hback, hlen, hvalue, hcount, if_neg (by simp),
    if_pos rfl, if_neg (by omega), if_neg (by omega), UInt64.ofNat_toNat]

/-- A write instruction of a plan, read through the decoder. -/
def readRecordWrite (inst : Instruction) : Option ConfidentialRecordInstructionData :=
  match inst.data with
  | .error _ => none
  | .ok data =>
    if data.head? = some 1 then
      (service.decodeConfidentialRecordInstruction inst.accounts data).toOption.map (·.2)
    else none

theorem readRecordWrite_write (record authority : PublicKey) (offset : UInt64) {data : Bytes}
    (hdata : data.length < 2 ^ 32) :
    service.readRecordWrite
        (service.writeConfidentialRecord record authority offset data).instruction
      = some { offset, data } := by
  unfold readRecordWrite ConfidentialAuxiliaryInstruction.instruction
  dsimp only
  rw [service.decode_writeConfidentialRecord _ record authority offset hdata]
  rfl

theorem mapM_readRecordWrite (record authority : PublicKey) {pieces : List (UInt64 × Bytes)}
    (hpieces : ∀ piece ∈ pieces, piece.2.length < 2 ^ 32) :
    (pieces.map fun piece =>
        (service.writeConfidentialRecord record authority piece.1 piece.2).instruction).mapM
          service.readRecordWrite
      = some (pieces.map ofPiece) := by
  induction pieces with
  | nil => rfl
  | cons piece pieces ih =>
    rw [List.map_cons, List.mapM_cons,
      service.readRecordWrite_write _ _ _ (hpieces piece List.mem_cons_self),
      ih fun p hp => hpieces p (List.mem_cons_of_mem _ hp)]
    rfl

theorem space_toNat {proofData : Bytes} (hdata : proofData.length < 2 ^ 32) :
    (UInt64.ofNat proofData.length + confidentialRecordDataOffset.toUInt64).toNat
      = confidentialRecordDataOffset.toNat + proofData.length := by
  have hlen : (UInt64.ofNat proofData.length).toNat = proofData.length :=
    UInt64.toNat_ofNat_of_lt' (Nat.lt_trans hdata (by decide))
  have hheader : confidentialRecordDataOffset.toNat = 33 := rfl
  rw [UInt64.toNat_add, hlen, UInt32.toNat_toUInt64, hheader]
  omega

/-- The plan, with its pieces. -/
theorem confidentialProofRecordInstructions_eq
    (payer record authority destination : PublicKey) (lamports : UInt64) {proofData : Bytes}
    {chunkSize : Int64} (hdata : proofData.length < 2 ^ 32) (hchunk : 0 < chunkSize) :
    let space := UInt64.ofNat proofData.length + confidentialRecordDataOffset.toUInt64
    ∃ pieces : List (UInt64 × Bytes),
      service.confidentialProofRecordInstructions payer record authority destination lamports
          proofData chunkSize
        = .ok
          { createAndWrite := [(System.newCreateAccountInstruction lamports space
                service.recordProgramID payer record).instruction,
              (service.initializeConfidentialRecord record authority).instruction]
              ++ pieces.map fun piece =>
                (service.writeConfidentialRecord record authority piece.1 piece.2).instruction
            close := (service.closeConfidentialRecord record authority destination).instruction
            space }
        ∧ Tiles proofData 0 (pieces.map fun piece => (piece.1.toNat, piece.2))
        ∧ ∀ piece ∈ pieces, (piece.2.length : ℤ) ≤ chunkSize.toInt := by
  intro space
  obtain ⟨chunk, hpos, hint, hnat⟩ := IsNat.exists_of_pos hchunk
  obtain ⟨pieces, hrun, htiles, hshort⟩ := service.appendRecordWrites_tiles record authority hdata
    hnat hpos hint
    [(System.newCreateAccountInstruction lamports space service.recordProgramID payer
        record).instruction,
      (service.initializeConfidentialRecord record authority).instruction]
    IsNat.zero (Nat.lt_succ_self _) (.inl rfl)
  rw [Nat.zero_min] at htiles
  refine ⟨pieces, ?_, htiles, ?_⟩
  · unfold confidentialProofRecordInstructions
    have hpositive : ¬ chunkSize ≤ 0 := Int64.not_le.mpr hchunk
    refine refuse_bind_eq_ok.mpr ⟨hpositive, bind_eq_ok.mpr ⟨_, hrun, rfl⟩⟩
  · intro piece hmem
    rw [hnat]
    exact Int.ofNat_le.mpr (hshort piece hmem)

/-- **A record plan rebuilds its data.** For data shorter than 4 GiB and any positive chunk
size the plan is built, all its instructions behind the creation and the initialization are
writes for the decoder, and a zeroed record of the planned space holds the data behind its
header once they ran. The writes are in order and disjoint, and each is non-empty, at most of
the chunk size and within the record. -/
theorem confidentialProofRecordInstructions_replay
    (payer record authority destination : PublicKey) (lamports : UInt64) (proofData : Bytes)
    (chunkSize : Int64) (hdata : proofData.length < 2 ^ 32) (hchunk : 0 < chunkSize) :
    ∃ plan writes, service.confidentialProofRecordInstructions payer record authority destination
        lamports proofData chunkSize = .ok plan
      ∧ plan.createAndWrite.take 2
        = [(System.newCreateAccountInstruction lamports plan.space service.recordProgramID payer
            record).instruction,
          (service.initializeConfidentialRecord record authority).instruction]
      ∧ (plan.createAndWrite.drop 2).mapM service.readRecordWrite = some writes
      ∧ (replay (List.replicate plan.space.toNat 0) writes).map
          (·.drop confidentialRecordDataOffset.toNat) = some proofData
      ∧ writes.Pairwise (fun first second =>
          first.offset.toNat + first.data.length ≤ second.offset.toNat)
      ∧ ∀ write ∈ writes, write.data ≠ [] ∧ (write.data.length : ℤ) ≤ chunkSize.toInt
        ∧ confidentialRecordDataOffset.toNat + write.offset.toNat + write.data.length
          ≤ plan.space.toNat := by
  obtain ⟨pieces, hplan, htiles, hshort⟩ := service.confidentialProofRecordInstructions_eq payer
    record authority destination lamports hdata hchunk
  have hspace := space_toNat hdata
  have hwithin : ∀ piece ∈ pieces, piece.2 ≠ []
      ∧ piece.1.toNat + piece.2.length ≤ proofData.length :=
    fun piece hmem => htiles.within _ (List.mem_map_of_mem hmem)
  refine ⟨_, pieces.map ofPiece, hplan, rfl, ?_, ?_, ?_, ?_⟩
  · refine service.mapM_readRecordWrite record authority fun piece hmem => ?_
    have hle := (hwithin piece hmem).2
    omega
  · -- the pieces tile the data, so replaying them over zeros writes all of it
    have htiles' : Tiles proofData 0 ((pieces.map ofPiece).map (·.piece)) := by
      rw [List.map_map]
      exact htiles
    have hzeros : List.replicate (confidentialRecordDataOffset.toNat + proofData.length) (0 : UInt8)
        = List.replicate confidentialRecordDataOffset.toNat 0 ++ proofData.take 0
          ++ List.replicate proofData.length 0 := by
      rw [List.take_zero, List.append_nil, List.replicate_append_replicate]
    have hlen : (List.replicate confidentialRecordDataOffset.toNat (0 : UInt8)).length
        = confidentialRecordDataOffset.toNat := List.length_replicate
    dsimp only
    rw [hspace, hzeros, replay_of_tiles hlen htiles' (by simp), Option.map_some,
      List.drop_left' hlen]
  · rw [List.pairwise_map]
    exact List.pairwise_map.mp htiles.pairwise
  · intro write hmem
    obtain ⟨piece, hpiece, rfl⟩ := List.mem_map.mp hmem
    obtain ⟨hne, hle⟩ := hwithin piece hpiece
    refine ⟨hne, hshort piece hpiece, ?_⟩
    rw [hspace, Nat.add_assoc]
    exact Nat.add_le_add_left hle _

/-- Five bytes in pieces of two. -/
theorem confidentialProofRecordInstructions_replay_five :
    ([1, 2, 3, 4, 5] : Bytes).length < 2 ^ 32 ∧ (0 : Int64) < 2
      ∧ ∃ plan writes, sampleProver.confidentialProofRecordInstructions (ByteArr.zero 32)
          (ByteArr.zero 32) (ByteArr.zero 32) (ByteArr.zero 32) 0 [1, 2, 3, 4, 5] 2 = .ok plan
        ∧ (plan.createAndWrite.drop 2).mapM sampleProver.readRecordWrite = some writes
        ∧ (replay (List.replicate plan.space.toNat 0) writes).map
            (·.drop confidentialRecordDataOffset.toNat) = some [1, 2, 3, 4, 5] := by
  have hdata : ([1, 2, 3, 4, 5] : Bytes).length < 2 ^ 32 := by decide
  have hchunk : (0 : Int64) < 2 := by decide
  obtain ⟨plan, writes, hplan, -, hread, hreplay, -⟩ :=
    sampleProver.confidentialProofRecordInstructions_replay (ByteArr.zero 32) (ByteArr.zero 32)
      (ByteArr.zero 32) (ByteArr.zero 32) 0 [1, 2, 3, 4, 5] 2 hdata hchunk
  exact ⟨hdata, hchunk, plan, writes, hplan, hread, hreplay⟩

end ConfidentialTransferService

end SolanaGo.Token2022
