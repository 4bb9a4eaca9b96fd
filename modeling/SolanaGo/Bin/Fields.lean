/-
The other reads and writes of the `binary` package: the remaining widths, raw bytes, and
the two layouts of strings.

A string is its bytes. Behind a length of four bytes it may be any (Borsh), behind one of
eight it has to be UTF-8 (bincode); the reader of the latter goes back to the end of the
length when it is not. The copying reads return the same bytes as the others, in memory
of their own, which the model does not distinguish. An `int` has 64 bits.

Each pair again satisfies both laws of `Reads`. A raw read may be of no bytes at all, so
its two directions are stated apart, and the first one needs the position to be inside the
input (`readBytes_ok`, `readBytes_accepts`).
-/
import SolanaGo.Bin.Varint
import SolanaGo.Lib.Utf8

set_option autoImplicit false

namespace SolanaGo.Bin

open Codec hiding Decoder
open Utf8

/-- `math.MaxInt`, the length of the longest slice or string. -/
def maxInt : ℕ := 2 ^ 63 - 1

/-- `math.MaxUint32`. -/
def maxUint32 : ℕ := 2 ^ 32 - 1

namespace Encoder

/-! ## Writes -/

/-- `WriteUint16`. -/
def writeUint16 (v : UInt16) : Encoder → Encoder := append (leBytes 2 v.toNat)

/-- `WriteUint32`. -/
def writeUint32 (v : UInt32) : Encoder → Encoder := append (leBytes 4 v.toNat)

/-- `WriteBytes`. -/
def writeBytes (v : Bytes) : Encoder → Encoder := append v

/-- `WritePublicKey`. -/
def writePublicKey (v : PublicKey) : Encoder → Encoder := append v.toList

/-- `WriteSignature`. -/
def writeSignature (v : Signature) : Encoder → Encoder := append v.toList

/-- `WriteBorshString`. -/
def writeBorshString (v : Bytes) (e : Encoder) : Encoder :=
  if e.err.isSome then e
  else if maxUint32 < v.length then e.fail .overflow v.length
  else { e with data := e.data ++ leBytes 4 v.length ++ v }

/-- `WriteBincodeString`. -/
def writeBincodeString (v : Bytes) (e : Encoder) : Encoder :=
  if e.err.isSome then e
  else if !isUtf8 v then e.fail .invalidUTF8 v.length
  else { e with data := e.data ++ leBytes 8 v.length ++ v }

/-- `WriteCOption`. -/
def writeCOption (v : Bool) : Encoder → Encoder := append [if v then 1 else 0, 0, 0, 0]

/-- `return enc.Bytes(), enc.Err()`, for a caller that looks at the error first. -/
def result (e : Encoder) : Except Err Bytes :=
  match e.errOf with
  | (some err, _) => .error err
  | (none, e) => .ok e.data

/-- What was appended to a new encoder. -/
@[simp] theorem result_append (bs : Bytes) : ((newEncoder []).append bs).result = .ok bs := rfl

/-- A string that fits its length is appended behind it. -/
theorem writeBorshString_of_le {v : Bytes} (h : v.length ≤ maxUint32) (e : Encoder) :
    e.writeBorshString v = e.append (leBytes 4 v.length ++ v) := by
  unfold writeBorshString append
  rw [if_neg (Nat.not_lt.mpr h), List.append_assoc]

/-- A string of characters is appended behind its length. -/
theorem writeBincodeString_of_isUtf8 {v : Bytes} (h : isUtf8 v = true) (e : Encoder) :
    e.writeBincodeString v = e.append (leBytes 8 v.length ++ v) := by
  unfold writeBincodeString append
  rw [h, List.append_assoc]
  rfl

theorem fail_data (e : Encoder) (s : Sentinel) (arg : ℤ) : (e.fail s arg).data = e.data := by
  unfold fail
  split <;> rfl

theorem fail_err_isSome (e : Encoder) (s : Sentinel) (arg : ℤ) :
    (e.fail s arg).err.isSome = true := by
  unfold fail
  split
  · next h => rw [h]; rfl
  · rfl

end Encoder

namespace Decoder

/-! ## Reads -/

/-- `Skip`. -/
def skip (n : ℤ) (d : Decoder) : Decoder :=
  if d.err.isSome then d
  else if n < 0 then d.fail .overflow n
  else if (d.data.length : ℤ) - d.pos < n then d.fail .unexpectedEOF n
  else { d with pos := d.pos + n.toNat }

/-- `ReadUint32`. -/
def readUint32 : Decoder → UInt32 × Decoder := readFixed 4 0 fun bs => UInt32.ofNat (leValue bs)

/-- `ReadSignature`. -/
def readSignature : Decoder → Signature × Decoder :=
  readFixed signatureLength (ByteArr.zero 64) fun bs => ByteArr.copyFrom 64 bs

/-- `ReadBytesCopy`. -/
def readBytesCopy (n : ℤ) : Decoder → Bytes × Decoder := readBytes n

/-- `ReadBorshString`. -/
def readBorshString (d : Decoder) : Bytes × Decoder :=
  let (n, d) := d.readUint32
  d.readBytes n.toNat

/-- `ReadBorshStringCopy`. -/
def readBorshStringCopy : Decoder → Bytes × Decoder := readBorshString

/-- `readBincodeStringBytes`. -/
def readBincodeStringBytes (d : Decoder) : Bytes × Decoder :=
  let (n, d) := d.readUint64
  if d.err.isSome then ([], d)
  else if maxInt < n.toNat then ([], d.fail .overflow maxInt)
  else
    let (b, d) := d.readBytes n.toNat
    if d.err.isNone && !isUtf8 b then
      ([], { d with pos := d.pos - b.length }.fail .invalidUTF8 b.length)
    else (b, d)

/-- `ReadBincodeString`. -/
def readBincodeString : Decoder → Bytes × Decoder := readBincodeStringBytes

/-- `ReadBincodeStringCopy`. -/
def readBincodeStringCopy : Decoder → Bytes × Decoder := readBincodeStringBytes

/-! ## The fixed widths -/

theorem readUint16_reads : Reads (fun _ => True) (fun v : UInt16 => leBytes 2 v.toNat) readUint16 :=
  readWord_reads (by decide) (fun _ => UInt16.ofNat_toNat) UInt16.toNat_lt
    fun _ => UInt16.toNat_ofNat_of_lt'

theorem readUint32_reads : Reads (fun _ => True) (fun v : UInt32 => leBytes 4 v.toNat) readUint32 :=
  readWord_reads (by decide) (fun _ => UInt32.ofNat_toNat) UInt32.toNat_lt
    fun _ => UInt32.toNat_ofNat_of_lt'

theorem readPublicKey_reads : Reads (fun _ => True) (fun v : PublicKey => v.toList) readPublicKey :=
  readArray_reads (by decide)

theorem readSignature_reads : Reads (fun _ => True) (fun v : Signature => v.toList) readSignature :=
  readArray_reads (by decide)

theorem readBool_reads :
    Reads (fun _ => True) (fun b : Bool => [if b then (1 : UInt8) else 0]) readBool := readOption_reads

theorem readCOption_reads :
    Reads (fun _ => True) (fun b : Bool => [if b then (1 : UInt8) else 0, 0, 0, 0]) readCOption := by
  have hbytes : (fun b : Bool => [if b then (1 : UInt8) else 0, 0, 0, 0])
      = fun b : Bool => leBytes 4 (if b then 1 else 0) := by
    funext b
    cases b <;> rfl
  rw [hbytes]
  exact readTag_reads (by decide)

/-! ## Bytes and strings -/

/-- A raw read in front of its bytes. -/
theorem readBytes_ok {d : Decoder} {bs t : Bytes} (hpos : d.pos ≤ d.data.length)
    (herr : d.err = none) (hrest : d.rest = bs ++ t) :
    d.readBytes bs.length = (bs, d.past bs.length) := by
  have hlen := length_rest d
  rw [hrest, List.length_append] at hlen
  unfold remaining at hlen
  unfold readBytes
  rw [if_neg, Int.toNat_natCast, window_eq, hrest, List.take_left' rfl]
  · rfl
  · rintro (hsome | hneg | hshort)
    · rw [herr] at hsome
      simp at hsome
    · omega
    · omega

/-- A raw read that leaves no error. -/
theorem readBytes_accepts {d d' : Decoder} {n : ℤ} {bs : Bytes} (hread : d.readBytes n = (bs, d'))
    (herr : d'.err = none) :
    d.err = none ∧ (bs.length : ℤ) = n ∧ d' = d.past bs.length ∧ d.rest = bs ++ d'.rest := by
  have hadv := readBytes_advances hread herr
  have hin := hadv.inBounds
  unfold readBytes at hread
  split at hread
  · have hd := (Prod.mk.inj hread).2
    split at hd
    · exact absurd hd (ne_of_fail herr)
    · exact absurd hd (ne_of_fail herr)
  · next hok =>
      obtain ⟨rfl, rfl⟩ := Prod.mk.inj hread
      have hlen : (d.window n.toNat).length = n.toNat := by
        have hrem := length_rest d
        unfold remaining at hrem
        rw [window_eq, List.length_take]
        omega
      refine ⟨hadv.before, by omega, ?_, ?_⟩
      · rw [hlen]
        rfl
      · show d.rest = d.window n.toNat ++ (d.past n.toNat).rest
        rw [window_eq, rest_past, List.take_append_drop]

/-- Reading over a front of the input stays inside it. -/
theorem past_pos_le {d : Decoder} {bs t : Bytes} (hpos : d.pos ≤ d.data.length)
    (hrest : d.rest = bs ++ t) : (d.past bs.length).pos ≤ (d.past bs.length).data.length := by
  have hlen := length_rest d
  rw [hrest, List.length_append] at hlen
  unfold remaining at hlen
  show d.pos + bs.length ≤ d.data.length
  omega

/-- In front of something that is left the position is inside the input. -/
theorem pos_le_of_rest {d : Decoder} {bs t : Bytes} (hne : 0 < bs.length) (hrest : d.rest = bs ++ t) :
    d.pos ≤ d.data.length := by
  have hbound := inBounds hne hrest
  omega

theorem readBorshString_reads :
    Reads (fun v => v.length ≤ maxUint32) (fun v => leBytes 4 v.length ++ v) readBorshString := by
  refine ⟨fun {d v t} hv herr hrest => ?_, fun {d v d'} hread herr => ?_⟩
  · have hword : (UInt32.ofNat v.length).toNat = v.length := UInt32.toNat_ofNat_of_lt' (by
      unfold maxUint32 at hv
      show v.length < 2 ^ 32
      omega)
    have hlen : (leBytes 4 v.length).length = 4 := length_leBytes 4 _
    rw [List.append_assoc, ← hword] at hrest
    have hpos := past_pos_le (pos_le_of_rest (by rw [length_leBytes]; decide) hrest) hrest
    obtain ⟨d1, hread1, herr1, hrest1, hd1⟩ := readUint32_reads.next trivial herr hrest
    rw [← hd1] at hpos
    unfold readBorshString
    rw [hread1]
    dsimp only
    rw [hword, readBytes_ok hpos herr1 hrest1, hd1, past_past, List.length_append, length_leBytes,
      hlen]
  · unfold readBorshString at hread
    cases hread1 : d.readUint32 with
    | mk n d1 =>
      rw [hread1] at hread
      obtain ⟨herr1, hlen, hd', hrest'⟩ := readBytes_accepts hread herr
      obtain ⟨hnone, -, hd1, hrest1⟩ := readUint32_reads.accepts hread1 herr1
      have hn : n.toNat = v.length := by omega
      have hlt := n.toNat_lt
      rw [hn] at hd1 hrest1
      refine ⟨hnone, ?_, ?_, ?_⟩
      · unfold maxUint32
        omega
      · rw [hd', hd1, past_past, List.length_append]
      · rw [hrest1, hrest', List.append_assoc]

theorem readBincodeString_reads :
    Reads (fun v => isUtf8 v = true ∧ v.length ≤ maxInt) (fun v => leBytes 8 v.length ++ v)
      readBincodeString := by
  refine ⟨fun {d v t} hv herr hrest => ?_, fun {d v d'} hread herr => ?_⟩
  · have hlong := hv.2
    have hword : (UInt64.ofNat v.length).toNat = v.length := UInt64.toNat_ofNat_of_lt' (by
      unfold maxInt at hlong
      show v.length < 2 ^ 64
      omega)
    have hlen : (leBytes 8 v.length).length = 8 := length_leBytes 8 _
    rw [List.append_assoc, ← hword] at hrest
    have hpos := past_pos_le (pos_le_of_rest (by rw [length_leBytes]; decide) hrest) hrest
    obtain ⟨d1, hread1, herr1, hrest1, hd1⟩ := readUint64_reads.next trivial herr hrest
    rw [← hd1] at hpos
    unfold readBincodeString readBincodeStringBytes
    rw [hread1]
    dsimp only
    rw [if_neg (by rw [herr1]; simp), hword, if_neg (Nat.not_lt.mpr hlong),
      readBytes_ok hpos herr1 hrest1]
    dsimp only
    rw [hv.1, if_neg (by simp), hd1, past_past, List.length_append, length_leBytes, hlen]
  · unfold readBincodeString readBincodeStringBytes at hread
    cases hread1 : d.readUint64 with
    | mk n d1 =>
    rw [hread1] at hread
    dsimp only at hread
    split at hread
    · next hsome =>
        rw [(Prod.mk.inj hread).2, herr] at hsome
        simp at hsome
    · split at hread
      · exact absurd (Prod.mk.inj hread).2 (ne_of_fail herr)
      · next hfits =>
          cases hread2 : d1.readBytes n.toNat with
          | mk b d2 =>
          rw [hread2] at hread
          dsimp only at hread
          split at hread
          · exact absurd (Prod.mk.inj hread).2 (ne_of_fail herr)
          · next hutf8 =>
              obtain ⟨rfl, rfl⟩ := Prod.mk.inj hread
              obtain ⟨herr1, hlen, hd2, hrest2⟩ := readBytes_accepts hread2 herr
              obtain ⟨hnone, -, hd1, hrest1⟩ := readUint64_reads.accepts hread1 herr1
              have hn : n.toNat = b.length := by omega
              rw [hn] at hd1 hrest1 hfits
              rw [herr] at hutf8
              refine ⟨hnone, ⟨by simpa using hutf8, Nat.not_lt.mp hfits⟩, ?_, ?_⟩
              · rw [hd2, hd1, past_past, List.length_append]
              · rw [hrest1, hrest2, List.append_assoc]

end Decoder

end SolanaGo.Bin
