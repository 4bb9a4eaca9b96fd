/-
Sequences of reads, with every access to the buffer checked.

The reads of the other modules are total functions: a byte that is not there would be
read as zero. Here the same reads are written with the accesses of the source, each of
which panics outside its slice (`indexAt`, `sliceFrom`, `bytesAt`), and with the one
subtraction from the position. On a decoder whose position is inside its buffer they never
panic and are the reads of the other modules. `Safe` says this of a read together with the
rest of the contract: the buffer stays, the position stays inside, and on a decoder that
has failed the read returns its zero value and changes nothing.

A run is a list of operations, of any kind and with any sizes, `Err` among them. `decoder_runs`
is the contract for runs, by induction from `Safe` for each operation.
-/
import SolanaGo.Bin.Fields

set_option autoImplicit false

namespace SolanaGo.Bin

open Codec hiding Decoder
open Utf8

/-! ## Accesses -/

/-- Why the program stops. -/
inductive Panic where
  | outOfRange
  | negativePosition
  deriving DecidableEq

/-- `data[i]`. -/
def indexAt (data : Bytes) (i : ℕ) : Except Panic UInt8 :=
  match data[i]? with
  | some b => .ok b
  | none => .error .outOfRange

/-- `data[i:]`. -/
def sliceFrom (data : Bytes) (i : ℕ) : Except Panic Bytes :=
  if i ≤ data.length then .ok (data.drop i) else .error .outOfRange

/-- `data[i:i+n]`, or the `n` bytes from `i` on that a conversion reads. -/
def bytesAt (data : Bytes) (i n : ℕ) : Except Panic Bytes :=
  if i + n ≤ data.length then .ok ((data.drop i).take n) else .error .outOfRange

theorem indexAt_eq {data : Bytes} {i : ℕ} (h : i < data.length) :
    indexAt data i = .ok (data[i]?.getD 0) := by
  unfold indexAt
  rw [List.getElem?_eq_getElem h]
  rfl

theorem bytesAt_eq {data : Bytes} {i n : ℕ} (h : i + n ≤ data.length) :
    bytesAt data i n = .ok ((data.drop i).take n) := if_pos h

/-! ## The reads, with checked accesses -/

namespace Checked

/-- The body of the fixed-width reads. -/
def readFixed {α : Type} (n : ℕ) (zero : α) (parse : Bytes → α) (d : Decoder) :
    Except Panic (α × Decoder) :=
  if d.err.isSome ∨ (d.data.length : ℤ) - d.pos < n then .ok (zero, d.fail .unexpectedEOF n)
  else do
    let bs ← bytesAt d.data d.pos n
    .ok (parse bs, { d with pos := d.pos + n })

/-- The body of `ReadBool` and `ReadCOption`. -/
def readTag (n : ℕ) (d : Decoder) : Except Panic (Bool × Decoder) :=
  if d.err.isSome ∨ (d.data.length : ℤ) - d.pos < n then .ok (false, d.fail .unexpectedEOF n)
  else do
    let bs ← bytesAt d.data d.pos n
    if 1 < leValue bs then .ok (false, d.fail .invalidTag (leValue bs))
    else .ok (leValue bs = 1, { d with pos := d.pos + n })

/-- `ReadBytes`. -/
def readBytes (n : ℤ) (d : Decoder) : Except Panic (Bytes × Decoder) :=
  if d.err.isSome ∨ n < 0 ∨ (d.data.length : ℤ) - d.pos < n then
    .ok ([], if n < 0 then d.fail .overflow n else d.fail .unexpectedEOF n)
  else do
    let bs ← bytesAt d.data d.pos n.toNat
    .ok (bs, { d with pos := d.pos + n.toNat })

/-- `ReadBytesCopy`: the copy has `n` bytes, as many as were read. -/
def readBytesCopy (n : ℤ) (d : Decoder) : Except Panic (Bytes × Decoder) := do
  let (v, d) ← readBytes n d
  let out ← bytesAt v 0 v.length
  .ok (out, d)

/-- `unsafe.String(&b[0], len(b))`, unless `b` is empty. -/
def stringOf (b : Bytes) : Except Panic Bytes :=
  if b.length = 0 then .ok [] else bytesAt b 0 b.length

/-- `ReadUint8`. -/
def readUint8 : Decoder → Except Panic (UInt8 × Decoder) := readFixed 1 0 fun bs => bs.headD 0

/-- `ReadUint16`. -/
def readUint16 : Decoder → Except Panic (UInt16 × Decoder) :=
  readFixed 2 0 fun bs => UInt16.ofNat (leValue bs)

/-- `ReadUint32`. -/
def readUint32 : Decoder → Except Panic (UInt32 × Decoder) :=
  readFixed 4 0 fun bs => UInt32.ofNat (leValue bs)

/-- `ReadUint64`. -/
def readUint64 : Decoder → Except Panic (UInt64 × Decoder) :=
  readFixed 8 0 fun bs => UInt64.ofNat (leValue bs)

/-- `ReadInt64`. -/
def readInt64 (d : Decoder) : Except Panic (Int64 × Decoder) := do
  let (v, d) ← readUint64 d
  .ok (v.toInt64, d)

/-- `ReadPublicKey`. -/
def readPublicKey : Decoder → Except Panic (PublicKey × Decoder) :=
  readFixed publicKeyLength (ByteArr.zero 32) fun bs => ByteArr.copyFrom 32 bs

/-- `ReadSignature`. -/
def readSignature : Decoder → Except Panic (Signature × Decoder) :=
  readFixed signatureLength (ByteArr.zero 64) fun bs => ByteArr.copyFrom 64 bs

/-- `ReadHash`. -/
def readHash : Decoder → Except Panic (Hash × Decoder) := readPublicKey

/-- `ReadBool`. -/
def readBool : Decoder → Except Panic (Bool × Decoder) := readTag 1

/-- `ReadOption`. -/
def readOption : Decoder → Except Panic (Bool × Decoder) := readBool

/-- `ReadCOption`. -/
def readCOption : Decoder → Except Panic (Bool × Decoder) := readTag 4

/-- `ReadBorshString`. -/
def readBorshString (d : Decoder) : Except Panic (Bytes × Decoder) := do
  let (n, d) ← readUint32 d
  let (b, d) ← readBytes n.toNat d
  let s ← stringOf b
  .ok (s, d)

/-- `ReadBorshStringCopy`. -/
def readBorshStringCopy (d : Decoder) : Except Panic (Bytes × Decoder) := do
  let (n, d) ← readUint32 d
  readBytes n.toNat d

/-- `readBincodeStringBytes`. -/
def readBincodeStringBytes (d : Decoder) : Except Panic (Bytes × Decoder) := do
  let (n, d) ← readUint64 d
  if d.err.isSome then .ok ([], d)
  else if maxInt < n.toNat then .ok ([], d.fail .overflow maxInt)
  else do
    let (b, d) ← readBytes n.toNat d
    if d.err.isNone && !isUtf8 b then
      if d.pos < b.length then .error .negativePosition
      else .ok ([], { d with pos := d.pos - b.length }.fail .invalidUTF8 b.length)
    else .ok (b, d)

/-- `ReadBincodeString`. -/
def readBincodeString (d : Decoder) : Except Panic (Bytes × Decoder) := do
  let (b, d) ← readBincodeStringBytes d
  let s ← stringOf b
  .ok (s, d)

/-- `ReadBincodeStringCopy`. -/
def readBincodeStringCopy : Decoder → Except Panic (Bytes × Decoder) := readBincodeStringBytes

/-- `readCompactU16Slow`. -/
def readCompactU16Slow (d : Decoder) : Except Panic (ℕ × Decoder) :=
  if d.err.isSome ∨ (d.data.length : ℤ) - d.pos < 1 then .ok (0, d.fail .unexpectedEOF 1)
  else do
    let b0 ← indexAt d.data d.pos
    if b0 < 0x80 then .ok (b0.toNat, { d with pos := d.pos + 1 })
    else do
      let value := (b0 &&& 0x7F).toNat
      let rest ← sliceFrom d.data (d.pos + 1)
      if rest.length < 1 then .ok (0, d.fail .unexpectedEOF 2)
      else do
        let b1 ← indexAt rest 0
        if b1 = 0 then .ok (0, d.fail .nonCanonical b1.toNat)
        else do
          let value := value ||| ((b1 &&& 0x7F).toNat <<< 7)
          if b1 < 0x80 then .ok (value, { d with pos := d.pos + 2 })
          else if rest.length < 2 then .ok (0, d.fail .unexpectedEOF 3)
          else do
            let b2 ← indexAt rest 1
            if b2 = 0 then .ok (0, d.fail .nonCanonical b2.toNat)
            else
              let value := value ||| ((b2 &&& 0x7F).toNat <<< 14)
              if 0x80 ≤ b2 ∨ 0xFFFF < value then .ok (0, d.fail .overflow value)
              else .ok (value, { d with pos := d.pos + 3 })

/-- `ReadCompactU16`. -/
def readCompactU16 (d : Decoder) : Except Panic (ℕ × Decoder) :=
  if d.err.isNone ∧ 1 ≤ (d.data.length : ℤ) - d.pos then do
    let b0 ← indexAt d.data d.pos
    if b0 < 0x80 then .ok (b0.toNat, { d with pos := d.pos + 1 })
    else readCompactU16Slow d
  else readCompactU16Slow d

/-- The loop of `ReadVarUint64`. -/
def readVarUint64Loop (d : Decoder) :
    (fuel index : ℕ) → (value : UInt64) → Except Panic (UInt64 × Decoder)
  | 0, _, _ => .ok (0, d.fail .overflow 10)
  | fuel + 1, index, value =>
    if (d.data.length : ℤ) - d.pos ≤ index then .ok (0, d.fail .unexpectedEOF (index + 1))
    else do
      let current ← indexAt d.data (d.pos + index)
      if index = 9 ∧ 1 < current then .ok (0, d.fail .overflow (index + 1))
      else
        let value := value ||| ((current &&& 0x7F).toUInt64 <<< UInt64.ofNat (7 * index))
        if current < 0x80 then
          if 0 < index ∧ current = 0 then .ok (0, d.fail .nonCanonical (index + 1))
          else .ok (value, { d with pos := d.pos + index + 1 })
        else readVarUint64Loop d fuel (index + 1) value

/-- `ReadVarUint64`. -/
def readVarUint64 (d : Decoder) : Except Panic (UInt64 × Decoder) :=
  if d.err.isSome then .ok (0, d) else readVarUint64Loop d 10 0 0

end Checked

/-! ## The contract of one read -/

/-- The buffer stays, and a position inside it stays inside. -/
structure Kept (d d' : Decoder) : Prop where
  data : d'.data = d.data
  bounds : d.pos ≤ d.data.length → d'.pos ≤ d.data.length

theorem Kept.refl (d : Decoder) : Kept d d := ⟨rfl, id⟩

theorem Kept.fail (d : Decoder) (s : Sentinel) (arg : ℤ) : Kept d (d.fail s arg) := by
  unfold Decoder.fail
  split
  · exact Kept.refl d
  · exact ⟨rfl, id⟩

theorem Kept.past {d : Decoder} {n : ℕ} (h : d.pos + n ≤ d.data.length) : Kept d (d.past n) :=
  ⟨rfl, fun _ => h⟩

theorem Kept.trans {d1 d2 d3 : Decoder} (h : Kept d1 d2) (h' : Kept d2 d3) : Kept d1 d3 := by
  refine ⟨h'.data.trans h.data, fun hpos => ?_⟩
  have hbound := h'.bounds
  rw [h.data] at hbound
  exact hbound (h.bounds hpos)

/-- Inside its buffer the checked read is the read, which keeps the buffer and stays inside;
once the decoder has failed it returns `zero` and changes nothing. -/
structure Safe {α : Type} (zero : α) (checked : Decoder → Except Panic (α × Decoder))
    (read : Decoder → α × Decoder) : Prop where
  checked : ∀ {d : Decoder}, d.pos ≤ d.data.length → checked d = .ok (read d)
  kept : ∀ d, Kept d (read d).2
  frozen : ∀ {d : Decoder}, d.err.isSome = true → read d = (zero, d)

theorem Safe.data {α : Type} {zero : α} {checked : Decoder → Except Panic (α × Decoder)}
    {read : Decoder → α × Decoder} (h : Safe zero checked read) (d : Decoder) :
    (read d).2.data = d.data := (h.kept d).data

section Reads

variable {α : Type} {zero : α}

/-- The checks of the source, which subtract, against those of the model, which add. -/
theorem short_iff (d : Decoder) (n : ℕ) :
    (d.data.length : ℤ) - d.pos < n ↔ d.data.length < d.pos + n := by omega

theorem readFixed_safe (n : ℕ) (parse : Bytes → α) :
    Safe zero (Checked.readFixed n zero parse) (Decoder.readFixed n zero parse) where
  checked {d} _ := by
    unfold Checked.readFixed Decoder.readFixed
    simp only [short_iff]
    by_cases hshort : d.err.isSome = true ∨ d.data.length < d.pos + n
    · rw [if_pos hshort, if_pos hshort]
    · rw [if_neg hshort, if_neg hshort, bytesAt_eq (by omega), ok_bind]
      rfl
  kept d := by
    unfold Decoder.readFixed
    split
    · exact Kept.fail d _ _
    · exact Kept.past (by omega)
  frozen {d} hsome := by
    unfold Decoder.readFixed
    rw [if_pos (Or.inl hsome), Decoder.fail_of_isSome hsome]

theorem readTag_safe (n : ℕ) : Safe false (Checked.readTag n) (Decoder.readTag n) where
  checked {d} _ := by
    unfold Checked.readTag Decoder.readTag
    simp only [short_iff]
    by_cases hshort : d.err.isSome = true ∨ d.data.length < d.pos + n
    · rw [if_pos hshort, if_pos hshort]
    · have hwindow : (d.data.drop d.pos).take n = d.window n := rfl
      rw [if_neg hshort, if_neg hshort, bytesAt_eq (by omega), ok_bind, hwindow]
      split <;> rfl
  kept d := by
    unfold Decoder.readTag
    split
    · exact Kept.fail d _ _
    · split
      · exact Kept.fail d _ _
      · exact Kept.past (by omega)
  frozen {d} hsome := by
    unfold Decoder.readTag
    rw [if_pos (Or.inl hsome), Decoder.fail_of_isSome hsome]

theorem readBytes_safe (n : ℤ) : Safe [] (Checked.readBytes n) (Decoder.readBytes n) where
  checked {d} _ := by
    unfold Checked.readBytes Decoder.readBytes
    by_cases hbad : d.err.isSome = true ∨ n < 0 ∨ (d.data.length : ℤ) - d.pos < n
    · rw [if_pos hbad, if_pos hbad]
    · rw [if_neg hbad, if_neg hbad, bytesAt_eq (by omega), ok_bind]
      rfl
  kept d := by
    unfold Decoder.readBytes
    split
    · dsimp only
      split <;> exact Kept.fail d _ _
    · exact Kept.past (by omega)
  frozen {d} hsome := by
    unfold Decoder.readBytes
    rw [if_pos (Or.inl hsome), Decoder.fail_of_isSome hsome, Decoder.fail_of_isSome hsome]
    split <;> rfl

/-- All bytes of a slice. -/
theorem bytesAt_all (b : Bytes) : bytesAt b 0 b.length = .ok b := by
  rw [bytesAt_eq (by omega), List.drop_zero, List.take_length]

theorem stringOf_eq (b : Bytes) : Checked.stringOf b = .ok b := by
  unfold Checked.stringOf
  split
  · next h => rw [List.eq_nil_of_length_eq_zero h]
  · exact bytesAt_all b

theorem readBytesCopy_safe (n : ℤ) :
    Safe [] (Checked.readBytesCopy n) (Decoder.readBytesCopy n) where
  checked {d} hpos := by
    unfold Checked.readBytesCopy
    rw [(readBytes_safe n).checked hpos, ok_bind]
    dsimp only
    rw [bytesAt_all, ok_bind]
    rfl
  kept := (readBytes_safe n).kept
  frozen := (readBytes_safe n).frozen

/-- A read whose length is read first. -/
theorem Safe.andThen {β : Type} {zero' : β} {checked : Decoder → Except Panic (α × Decoder)}
    {read : Decoder → α × Decoder} {checked' : α → Decoder → Except Panic (β × Decoder)}
    {read' : α → Decoder → β × Decoder} (h : Safe zero checked read)
    (h' : ∀ a, Safe zero' (checked' a) (read' a)) :
    Safe zero' (fun d => checked d >>= fun r => checked' r.1 r.2)
      (fun d => read' (read d).1 (read d).2) where
  checked {d} hpos := by
    have hpos' : (read d).2.pos ≤ (read d).2.data.length := by
      rw [h.data]
      exact (h.kept d).bounds hpos
    rw [h.checked hpos, ok_bind, (h' _).checked hpos']
  kept d := (h.kept d).trans ((h' _).kept _)
  frozen {d} hsome := by
    rw [h.frozen hsome]
    exact (h' zero).frozen hsome

theorem readUint8_safe : Safe 0 Checked.readUint8 Decoder.readUint8 := readFixed_safe 1 _

theorem readUint16_safe : Safe 0 Checked.readUint16 Decoder.readUint16 := readFixed_safe 2 _

theorem readUint32_safe : Safe 0 Checked.readUint32 Decoder.readUint32 := readFixed_safe 4 _

theorem readUint64_safe : Safe 0 Checked.readUint64 Decoder.readUint64 := readFixed_safe 8 _

theorem readPublicKey_safe :
    Safe (ByteArr.zero 32) Checked.readPublicKey Decoder.readPublicKey := readFixed_safe 32 _

theorem readSignature_safe :
    Safe (ByteArr.zero 64) Checked.readSignature Decoder.readSignature := readFixed_safe 64 _

theorem readInt64_safe : Safe 0 Checked.readInt64 Decoder.readInt64 where
  checked {d} hpos := by
    unfold Checked.readInt64
    rw [readUint64_safe.checked hpos]
    rfl
  kept := readUint64_safe.kept
  frozen {d} hsome := by
    unfold Decoder.readInt64
    rw [readUint64_safe.frozen hsome]
    rfl

theorem readBorshStringCopy_safe :
    Safe [] Checked.readBorshStringCopy Decoder.readBorshStringCopy := by
  have hsafe : Safe [] (fun d => Checked.readUint32 d >>= fun r => Checked.readBytes r.1.toNat r.2)
      (fun d => Decoder.readBytes d.readUint32.1.toNat d.readUint32.2) :=
    readUint32_safe.andThen fun n => readBytes_safe n.toNat
  exact hsafe

/-- Turning what was read into a string changes nothing. -/
theorem Safe.stringOf {checked : Decoder → Except Panic (Bytes × Decoder)}
    {read : Decoder → Bytes × Decoder} (h : Safe [] checked read) :
    Safe [] (fun d => do
      let (b, d) ← checked d
      let s ← Checked.stringOf b
      .ok (s, d)) read where
  checked {d} hpos := by
    rw [h.checked hpos, ok_bind]
    dsimp only
    rw [stringOf_eq, ok_bind]
  kept := h.kept
  frozen := h.frozen

theorem readBorshString_safe : Safe [] Checked.readBorshString Decoder.readBorshString := by
  have hsafe := readBorshStringCopy_safe.stringOf
  refine ⟨fun {d} hpos => ?_, hsafe.kept, hsafe.frozen⟩
  have hchecked := hsafe.checked hpos
  unfold Checked.readBorshStringCopy at hchecked
  rw [bind_assoc] at hchecked
  exact hchecked

/-- The text behind its length. -/
theorem bincodeText_safe (n : UInt64) :
    Safe []
      (fun d => if d.err.isSome then .ok ([], d)
        else if maxInt < n.toNat then .ok ([], d.fail .overflow maxInt)
        else do
          let (b, d) ← Checked.readBytes n.toNat d
          if d.err.isNone && !isUtf8 b then
            if d.pos < b.length then .error .negativePosition
            else .ok ([], { d with pos := d.pos - b.length }.fail .invalidUTF8 b.length)
          else .ok (b, d))
      (fun d => if d.err.isSome then ([], d)
        else if maxInt < n.toNat then ([], d.fail .overflow maxInt)
        else
          let (b, d) := d.readBytes n.toNat
          if d.err.isNone && !isUtf8 b then
            ([], { d with pos := d.pos - b.length }.fail .invalidUTF8 b.length)
          else (b, d)) := by
  have hbytes := readBytes_safe n.toNat
  refine ⟨fun {d} hpos => ?_, fun d => ?_, fun {d} hsome => ?_⟩
  · by_cases hsome : d.err.isSome = true
    · simp only [hsome, if_true]
    · by_cases hlong : maxInt < n.toNat
      · simp only [hsome, hlong, if_true, if_false, Bool.false_eq_true]
      · rw [if_neg hsome, if_neg hlong, if_neg hsome, if_neg hlong, hbytes.checked hpos, ok_bind]
        cases hread : d.readBytes n.toNat with
        | mk b d2 =>
        dsimp only
        split
        · next hbad =>
            have hnone : d2.err = none := by simpa using (Bool.and_eq_true_iff.mp hbad).1
            obtain ⟨-, -, hd, -⟩ := Decoder.readBytes_accepts hread hnone
            have hback : ¬d2.pos < b.length := by
              rw [hd]
              show ¬d.pos + b.length < b.length
              omega
            rw [if_neg hback]
        · rfl
  · have hkept := hbytes.kept d
    dsimp only
    split
    · exact Kept.refl d
    · split
      · exact Kept.fail d _ _
      · split
        · refine Kept.trans ?_ (Kept.fail _ _ _)
          exact ⟨hkept.data, fun hpos => (Nat.sub_le _ _).trans (hkept.bounds hpos)⟩
        · exact hkept
  · simp only [hsome, if_true]

theorem readBincodeStringBytes_safe :
    Safe [] Checked.readBincodeStringBytes Decoder.readBincodeStringBytes :=
  readUint64_safe.andThen bincodeText_safe

theorem readBincodeString_safe : Safe [] Checked.readBincodeString Decoder.readBincodeString :=
  readBincodeStringBytes_safe.stringOf

end Reads

section Varints

/-- A byte that is left. -/
theorem indexAt_pos {d : Decoder} {i : ℕ} (h : i < d.remaining) :
    indexAt d.data (d.pos + i) = .ok (d.byteAt i) := by
  unfold Decoder.remaining at h
  rw [indexAt_eq (by omega)]
  rfl

/-- The same byte, in the slice behind the first one. -/
theorem indexAt_rest {d : Decoder} {i : ℕ} (h : i + 1 < d.remaining) :
    indexAt (d.data.drop (d.pos + 1)) i = .ok (d.byteAt (i + 1)) := by
  unfold Decoder.remaining at h
  have hoffset : d.pos + 1 + i = d.pos + (i + 1) := by omega
  rw [indexAt_eq (by rw [List.length_drop]; omega), List.getElem?_drop, hoffset]
  rfl

theorem readCompactU16Slow_checked (d : Decoder) :
    Checked.readCompactU16Slow d = .ok d.readCompactU16Slow := by
  have hone : (d.data.length : ℤ) - d.pos < 1 ↔ d.remaining < 1 := by
    unfold Decoder.remaining
    omega
  unfold Checked.readCompactU16Slow Decoder.readCompactU16Slow
  simp only [hone]
  by_cases h1 : d.err.isSome = true ∨ d.remaining < 1
  · rw [if_pos h1, if_pos h1]
  · have hrem : 0 < d.remaining := by omega
    have hslice : d.pos + 1 ≤ d.data.length := by
      unfold Decoder.remaining at hrem
      omega
    have hlen : (d.data.drop (d.pos + 1)).length = d.remaining - 1 := by
      unfold Decoder.remaining
      rw [List.length_drop]
      omega
    have hfirst := indexAt_pos hrem
    rw [Nat.add_zero] at hfirst
    rw [if_neg h1, if_neg h1, hfirst, ok_bind]
    by_cases hb0 : d.byteAt 0 < 0x80
    · rw [if_pos hb0, if_pos hb0]
    · rw [if_neg hb0, if_neg hb0, sliceFrom, if_pos hslice, ok_bind, hlen]
      -- From here on a byte is read when the slice behind the first one is long enough.
      by_cases h2 : d.remaining < 2
      · rw [if_pos (by omega), if_pos h2]
      · rw [if_neg (by omega), if_neg h2, indexAt_rest (by omega), ok_bind]
        by_cases hz1 : d.byteAt 1 = 0
        · rw [if_pos hz1, if_pos hz1]
        · rw [if_neg hz1, if_neg hz1]
          by_cases hb1 : d.byteAt 1 < 0x80
          · rw [if_pos hb1, if_pos hb1]
          · rw [if_neg hb1, if_neg hb1]
            by_cases h3 : d.remaining < 3
            · rw [if_pos (by omega), if_pos h3]
            · rw [if_neg (by omega), if_neg h3, indexAt_rest (by omega), ok_bind]
              by_cases hz2 : d.byteAt 2 = 0
              · rw [if_pos hz2, if_pos hz2]
              · rw [if_neg hz2, if_neg hz2]
                split <;> rfl

theorem readCompactU16_checked (d : Decoder) :
    Checked.readCompactU16 d = .ok d.readCompactU16 := by
  have hone : 1 ≤ (d.data.length : ℤ) - d.pos ↔ 1 ≤ d.remaining := by
    unfold Decoder.remaining
    omega
  unfold Checked.readCompactU16 Decoder.readCompactU16
  simp only [hone, readCompactU16Slow_checked]
  by_cases hready : d.err.isNone = true ∧ 1 ≤ d.remaining
  · have hfirst := indexAt_pos hready.2
    rw [Nat.add_zero] at hfirst
    rw [if_pos hready, hfirst, ok_bind]
    by_cases hb0 : d.byteAt 0 < 0x80
    · rw [if_pos hb0, if_pos ⟨hready.1, hready.2, hb0⟩]
    · rw [if_neg hb0, if_neg fun h => hb0 h.2.2]
  · rw [if_neg hready, if_neg fun h => hready ⟨h.1, h.2.1⟩]

theorem readCompactU16_safe : Safe 0 Checked.readCompactU16 Decoder.readCompactU16 where
  checked _ := readCompactU16_checked _
  kept d := by
    by_cases hsome : d.err.isSome = true
    · rw [Decoder.readCompactU16_of_isSome hsome]
      exact Kept.refl d
    · have heq := Decoder.readCompactU16_eq (d := d) (by simpa using hsome)
      split at heq
      · next v k hdec =>
          obtain ⟨-, hk, hrest⟩ := decodeShortvecLen_canonical hdec
          have hlen := congrArg List.length hrest
          rw [List.length_append, appendShortvecLen_length, ← hk, Decoder.length_rest] at hlen
          unfold Decoder.remaining at hlen
          rw [heq]
          exact ⟨rfl, fun hpos => show d.pos + k ≤ d.data.length by omega⟩
      · obtain ⟨s, arg, hfail⟩ := heq
        rw [hfail]
        exact Kept.fail d s arg
  frozen := Decoder.readCompactU16_of_isSome

theorem readVarUint64Loop_checked (d : Decoder) (fuel index : ℕ) (value : UInt64) :
    Checked.readVarUint64Loop d fuel index value = .ok (d.readVarUint64Loop fuel index value) := by
  induction fuel generalizing index value with
  | zero => rfl
  | succ fuel ih =>
    have hiff : (d.data.length : ℤ) - d.pos ≤ index ↔ d.remaining ≤ index := by
      unfold Decoder.remaining
      omega
    unfold Checked.readVarUint64Loop Decoder.readVarUint64Loop
    simp only [hiff]
    by_cases hend : d.remaining ≤ index
    · rw [if_pos hend, if_pos hend]
    · rw [if_neg hend, if_neg hend, indexAt_pos (Nat.lt_of_not_le hend), ok_bind]
      simp only [ih]
      split
      · rfl
      · split
        · split <;> rfl
        · rfl

theorem readVarUint64Loop_kept (d : Decoder) (fuel index : ℕ) (value : UInt64) :
    Kept d (d.readVarUint64Loop fuel index value).2 := by
  induction fuel generalizing index value with
  | zero => exact Kept.fail d _ _
  | succ fuel ih =>
    unfold Decoder.readVarUint64Loop
    dsimp only
    split
    · exact Kept.fail d _ _
    · next hmore =>
        split
        · exact Kept.fail d _ _
        · split
          · split
            · exact Kept.fail d _ _
            · unfold Decoder.remaining at hmore
              exact ⟨rfl, fun _ => show d.pos + index + 1 ≤ d.data.length by omega⟩
          · exact ih _ _

theorem readVarUint64_safe : Safe 0 Checked.readVarUint64 Decoder.readVarUint64 where
  checked _ := by
    unfold Checked.readVarUint64 Decoder.readVarUint64
    rw [readVarUint64Loop_checked]
    split <;> rfl
  kept d := by
    unfold Decoder.readVarUint64
    split
    · exact Kept.refl d
    · exact readVarUint64Loop_kept d 10 0 0
  frozen hsome := by
    unfold Decoder.readVarUint64
    rw [if_pos hsome]

end Varints

/-! ## Operations -/

/-- The calls a caller can make: the reads, `Skip` and `Err`. -/
inductive Op where
  | skip (n : ℤ)
  | readUint8
  | readUint16
  | readUint32
  | readUint64
  | readInt64
  | readBool
  | readBytes (n : ℤ)
  | readBytesCopy (n : ℤ)
  | readPublicKey
  | readSignature
  | readHash
  | readBorshString
  | readBorshStringCopy
  | readBincodeString
  | readBincodeStringCopy
  | readOption
  | readCOption
  | readCompactU16
  | readVarUint64
  | err
  deriving DecidableEq

/-- What a call returns. -/
inductive Val where
  | unit
  | uint8 (v : UInt8)
  | uint16 (v : UInt16)
  | uint32 (v : UInt32)
  | uint64 (v : UInt64)
  | int64 (v : Int64)
  | bool (v : Bool)
  | bytes (v : Bytes)
  | publicKey (v : PublicKey)
  | signature (v : Signature)
  | hash (v : Hash)
  | string (v : Bytes)
  | int (v : ℕ)
  | error (v : Option Failure)
  deriving DecidableEq

/-- The zero value of what the call returns. -/
def Op.zero : Op → Val
  | .skip _ => .unit
  | .readUint8 => .uint8 0
  | .readUint16 => .uint16 0
  | .readUint32 => .uint32 0
  | .readUint64 => .uint64 0
  | .readInt64 => .int64 0
  | .readBool | .readOption | .readCOption => .bool false
  | .readBytes _ | .readBytesCopy _ => .bytes []
  | .readPublicKey => .publicKey (ByteArr.zero 32)
  | .readSignature => .signature (ByteArr.zero 64)
  | .readHash => .hash (ByteArr.zero 32)
  | .readBorshString | .readBorshStringCopy => .string []
  | .readBincodeString | .readBincodeStringCopy => .string []
  | .readCompactU16 => .int 0
  | .readVarUint64 => .uint64 0
  | .err => .error none

/-- The call, as a read of the model. -/
def Op.run : Op → Decoder → Val × Decoder
  | .skip n, d => (.unit, d.skip n)
  | .readUint8, d => d.readUint8.map .uint8 id
  | .readUint16, d => d.readUint16.map .uint16 id
  | .readUint32, d => d.readUint32.map .uint32 id
  | .readUint64, d => d.readUint64.map .uint64 id
  | .readInt64, d => d.readInt64.map .int64 id
  | .readBool, d => d.readBool.map .bool id
  | .readBytes n, d => (d.readBytes n).map .bytes id
  | .readBytesCopy n, d => (d.readBytesCopy n).map .bytes id
  | .readPublicKey, d => d.readPublicKey.map .publicKey id
  | .readSignature, d => d.readSignature.map .signature id
  | .readHash, d => d.readHash.map .hash id
  | .readBorshString, d => d.readBorshString.map .string id
  | .readBorshStringCopy, d => d.readBorshStringCopy.map .string id
  | .readBincodeString, d => d.readBincodeString.map .string id
  | .readBincodeStringCopy, d => d.readBincodeStringCopy.map .string id
  | .readOption, d => d.readOption.map .bool id
  | .readCOption, d => d.readCOption.map .bool id
  | .readCompactU16, d => d.readCompactU16.map .int id
  | .readVarUint64, d => d.readVarUint64.map .uint64 id
  | .err, d => (.error d.errOf.2.err, d.errOf.2)

/-- The result of a checked read, as the result of a call. -/
def boxed {α : Type} (val : α → Val) (result : Except Panic (α × Decoder)) :
    Except Panic (Val × Decoder) := do
  let (a, d) ← result
  .ok (val a, d)

/-- The call, with its accesses checked. -/
def Op.checked : Op → Decoder → Except Panic (Val × Decoder)
  | .skip n, d => .ok (.unit, d.skip n)
  | .readUint8, d => boxed .uint8 (Checked.readUint8 d)
  | .readUint16, d => boxed .uint16 (Checked.readUint16 d)
  | .readUint32, d => boxed .uint32 (Checked.readUint32 d)
  | .readUint64, d => boxed .uint64 (Checked.readUint64 d)
  | .readInt64, d => boxed .int64 (Checked.readInt64 d)
  | .readBool, d => boxed .bool (Checked.readBool d)
  | .readBytes n, d => boxed .bytes (Checked.readBytes n d)
  | .readBytesCopy n, d => boxed .bytes (Checked.readBytesCopy n d)
  | .readPublicKey, d => boxed .publicKey (Checked.readPublicKey d)
  | .readSignature, d => boxed .signature (Checked.readSignature d)
  | .readHash, d => boxed .hash (Checked.readHash d)
  | .readBorshString, d => boxed .string (Checked.readBorshString d)
  | .readBorshStringCopy, d => boxed .string (Checked.readBorshStringCopy d)
  | .readBincodeString, d => boxed .string (Checked.readBincodeString d)
  | .readBincodeStringCopy, d => boxed .string (Checked.readBincodeStringCopy d)
  | .readOption, d => boxed .bool (Checked.readOption d)
  | .readCOption, d => boxed .bool (Checked.readCOption d)
  | .readCompactU16, d => boxed .int (Checked.readCompactU16 d)
  | .readVarUint64, d => boxed .uint64 (Checked.readVarUint64 d)
  | .err, d => .ok (.error d.errOf.2.err, d.errOf.2)

/-- A read keeps its contract as a call. -/
theorem Safe.boxed {α : Type} {zero : α} {checked : Decoder → Except Panic (α × Decoder)}
    {read : Decoder → α × Decoder} (h : Safe zero checked read) (val : α → Val) :
    Safe (val zero) (fun d => boxed val (checked d)) (fun d => (read d).map val id) where
  checked hpos := by
    rw [h.checked hpos]
    rfl
  kept := h.kept
  frozen hsome := by
    rw [h.frozen hsome]
    rfl

theorem skip_safe (n : ℤ) :
    Safe .unit (fun d => .ok (Val.unit, d.skip n)) (fun d => (Val.unit, d.skip n)) where
  checked _ := rfl
  kept d := by
    unfold Decoder.skip
    split
    · exact Kept.refl d
    · split
      · exact Kept.fail d _ _
      · split
        · exact Kept.fail d _ _
        · exact Kept.past (by omega)
  frozen {d} hsome := by
    unfold Decoder.skip
    rw [if_pos hsome]

/-- Every call but `Err` keeps the contract. -/
theorem Op.safe {op : Op} (h : op ≠ .err) : Safe op.zero op.checked op.run := by
  cases op with
  | skip n => exact skip_safe n
  | readUint8 => exact readUint8_safe.boxed _
  | readUint16 => exact readUint16_safe.boxed _
  | readUint32 => exact readUint32_safe.boxed _
  | readUint64 => exact readUint64_safe.boxed _
  | readInt64 => exact readInt64_safe.boxed _
  | readBool => exact (readTag_safe 1).boxed _
  | readBytes n => exact (readBytes_safe n).boxed _
  | readBytesCopy n => exact (readBytesCopy_safe n).boxed _
  | readPublicKey => exact readPublicKey_safe.boxed _
  | readSignature => exact readSignature_safe.boxed _
  | readHash => exact readPublicKey_safe.boxed _
  | readBorshString => exact readBorshString_safe.boxed _
  | readBorshStringCopy => exact readBorshStringCopy_safe.boxed _
  | readBincodeString => exact readBincodeString_safe.boxed _
  | readBincodeStringCopy => exact readBincodeStringBytes_safe.boxed _
  | readOption => exact (readTag_safe 1).boxed _
  | readCOption => exact (readTag_safe 4).boxed _
  | readCompactU16 => exact readCompactU16_safe.boxed _
  | readVarUint64 => exact readVarUint64_safe.boxed _
  | err => exact absurd rfl h

/-! ## Runs -/

/-- The calls one after the other. -/
def checkedRun : List Op → Decoder → Except Panic (List Val × Decoder)
  | [], d => .ok ([], d)
  | op :: ops, d => do
    let (v, d) ← op.checked d
    let (vs, d) ← checkedRun ops d
    .ok (v :: vs, d)

/-- The sentinel that `errors.Is` finds in the recorded error. -/
def Failure.sentinel : Failure → Sentinel
  | .bare sentinel => sentinel
  | .wrapped _ sentinel => sentinel

/-- `Err` changes the recorded error only, and not its sentinel. -/
theorem errOf_kept (d : Decoder) :
    d.errOf.2.data = d.data ∧ d.errOf.2.pos = d.pos
      ∧ d.errOf.2.err.map Failure.sentinel = d.err.map Failure.sentinel := by
  unfold Decoder.errOf
  cases herr : d.err with
  | none =>
    dsimp only
    rw [herr]
    exact ⟨rfl, rfl, rfl⟩
  | some f =>
    cases f with
    | bare s => exact ⟨rfl, rfl, rfl⟩
    | wrapped c s =>
      refine ⟨rfl, rfl, ?_⟩
      show Option.map _ d.err = _
      rw [herr]

/-- What a call returns on a decoder that has failed with `s`: a read its zero value, and
`Err` an error that matches `s`. -/
def Op.Spent (s : Sentinel) (op : Op) (v : Val) : Prop :=
  if op = .err then ∃ f, v = .error (some f) ∧ f.sentinel = s else v = op.zero

/-- One call on a decoder whose position is inside its buffer. -/
theorem Op.step (op : Op) {d : Decoder} (hpos : d.pos ≤ d.data.length) :
    ∃ v d', op.checked d = .ok (v, d') ∧ Kept d d'
      ∧ ∀ s, d.err.map Failure.sentinel = some s →
        d'.pos = d.pos ∧ d'.err.map Failure.sentinel = some s ∧ op.Spent s v := by
  by_cases herr : op = .err
  · subst herr
    obtain ⟨hdata, hsame, hsentinel⟩ := errOf_kept d
    refine ⟨_, _, rfl, ⟨hdata, fun h => hsame ▸ h⟩,
      fun s hs => ⟨hsame, hsentinel.trans hs, ?_⟩⟩
    rw [hs] at hsentinel
    obtain ⟨f, hf, hfs⟩ := Option.map_eq_some_iff.mp hsentinel
    exact ⟨f, by rw [hf], hfs⟩
  · have hsafe := Op.safe herr
    refine ⟨(op.run d).1, (op.run d).2, hsafe.checked hpos, hsafe.kept d, fun s hs => ?_⟩
    obtain ⟨f, hf, -⟩ := Option.map_eq_some_iff.mp hs
    have hfrozen := hsafe.frozen (d := d) (by rw [hf]; rfl)
    rw [hfrozen]
    refine ⟨rfl, hs, ?_⟩
    unfold Op.Spent
    rw [if_neg herr]

/-- The same for some calls. -/
theorem checkedRun_step (ops : List Op) {d : Decoder} (hpos : d.pos ≤ d.data.length) :
    ∃ vs d', checkedRun ops d = .ok (vs, d') ∧ Kept d d'
      ∧ ∀ s, d.err.map Failure.sentinel = some s →
        d'.pos = d.pos ∧ d'.err.map Failure.sentinel = some s
          ∧ List.Forall₂ (Op.Spent s) ops vs := by
  induction ops generalizing d with
  | nil => exact ⟨[], d, rfl, Kept.refl d, fun s hs => ⟨rfl, hs, .nil⟩⟩
  | cons op ops ih =>
    obtain ⟨v, d1, hcall, hkept, hspent⟩ := op.step hpos
    obtain ⟨vs, d2, hrun, hkept', hspent'⟩ :=
      ih (d := d1) (by rw [hkept.data]; exact hkept.bounds hpos)
    refine ⟨v :: vs, d2, ?_, hkept.trans hkept', fun s hs => ?_⟩
    · unfold checkedRun
      rw [hcall, ok_bind]
      dsimp only
      rw [hrun, ok_bind]
    · obtain ⟨hsame, herr, hv⟩ := hspent s hs
      obtain ⟨hsame', herr', hvs⟩ := hspent' s herr
      exact ⟨hsame'.trans hsame, herr', .cons hv hvs⟩

/-- **Sequences of reads.** Whatever is called on a new decoder, no access is outside the
buffer and the position stays inside it. From the first failure on the position stays where
it is, every read returns its zero value, and `Err` keeps answering with an error that
matches the first failure's sentinel. -/
theorem decoder_runs (data : Bytes) (before after : List Op) :
    ∃ vs d vs' d', checkedRun before (newDecoder data) = .ok (vs, d)
      ∧ checkedRun after d = .ok (vs', d')
      ∧ d.data = data ∧ d.pos ≤ data.length ∧ d'.data = data ∧ d'.pos ≤ data.length
      ∧ ∀ f, d.err = some f →
        d'.pos = d.pos ∧ (∃ f', d'.err = some f' ∧ f'.sentinel = f.sentinel)
          ∧ List.Forall₂ (Op.Spent f.sentinel) after vs' := by
  have hzero : (newDecoder data).pos ≤ (newDecoder data).data.length := Nat.zero_le _
  obtain ⟨vs, d, hrun, hkept, -⟩ := checkedRun_step before hzero
  obtain ⟨vs', d', hrun', hkept', hspent⟩ :=
    checkedRun_step after (d := d) (by rw [hkept.data]; exact hkept.bounds hzero)
  have hboth := hkept.trans hkept'
  refine ⟨vs, d, vs', d', hrun, hrun', hkept.data, hkept.bounds hzero, hboth.data,
    hboth.bounds hzero, fun f hf => ?_⟩
  obtain ⟨hsame, herr, hvs⟩ := hspent f.sentinel (by rw [hf]; rfl)
  obtain ⟨f', hf', hfs⟩ := Option.map_eq_some_iff.mp herr
  exact ⟨hsame, ⟨f', hf', hfs⟩, hvs⟩

end SolanaGo.Bin
