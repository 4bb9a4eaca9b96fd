/-
Sequences of writes, and the reads that match them.

A write on an encoder without an error either appends the bytes of its value or records an
error and appends nothing (`Field.write_of_fits`, `Field.write_of_not_fits`); on an encoder
with an error it does nothing. So a sequence that leaves no error has appended the bytes of
its values one behind the other (`writeAll_eq`), and each matching read finds its own bytes
in front of it and the others behind (`read_field`), whatever they are.
-/
import SolanaGo.Bin.Checked

set_option autoImplicit false

namespace SolanaGo.Bin

open Codec hiding Decoder
open Utf8

/-! ## Typed writes -/

/-- A Go string: its bytes, of which there are at most `math.MaxInt`. -/
def Text : Type := { v : Bytes // v.length ≤ maxInt }

/-- A value with the method that writes it. -/
inductive Field where
  | uint8 (v : UInt8)
  | uint16 (v : UInt16)
  | uint32 (v : UInt32)
  | uint64 (v : UInt64)
  | int64 (v : Int64)
  | bool (v : Bool)
  | bytes (v : Bytes)
  | publicKey (v : PublicKey)
  | signature (v : Signature)
  | hash (v : Hash)
  | borshString (v : Text)
  | bincodeString (v : Text)
  | option (v : Bool)
  | cOption (v : Bool)
  | compactU16 (v : ℤ)
  | varUint64 (v : UInt64)

/-- The write. -/
def Field.write : Field → Encoder → Encoder
  | .uint8 v => Encoder.writeUint8 v
  | .uint16 v => Encoder.writeUint16 v
  | .uint32 v => Encoder.writeUint32 v
  | .uint64 v => Encoder.writeUint64 v
  | .int64 v => Encoder.writeInt64 v
  | .bool v => Encoder.writeBool v
  | .bytes v => Encoder.writeBytes v
  | .publicKey v => Encoder.writePublicKey v
  | .signature v => Encoder.writeSignature v
  | .hash v => Encoder.writeHash v
  | .borshString v => Encoder.writeBorshString v.1
  | .bincodeString v => Encoder.writeBincodeString v.1
  | .option v => Encoder.writeOption v
  | .cOption v => Encoder.writeCOption v
  | .compactU16 v => Encoder.writeCompactU16 v
  | .varUint64 v => Encoder.writeVarUint64 v

/-- The writes one after the other. -/
def writeAll (fields : List Field) (e : Encoder) : Encoder :=
  fields.foldl (fun e f => f.write e) e

/-- The value, as a read returns it. -/
def Field.value : Field → Val
  | .uint8 v => .uint8 v
  | .uint16 v => .uint16 v
  | .uint32 v => .uint32 v
  | .uint64 v => .uint64 v
  | .int64 v => .int64 v
  | .bool v | .option v | .cOption v => .bool v
  | .bytes v => .bytes v
  | .publicKey v => .publicKey v
  | .signature v => .signature v
  | .hash v => .hash v
  | .borshString v | .bincodeString v => .string v.1
  | .compactU16 v => .int v.toNat
  | .varUint64 v => .uint64 v

/-- The reads that match a write. Raw bytes are asked for by their number, and what is
returned as a view can also be had as a copy. -/
inductive ReadBy : Field → Op → Prop
  | uint8 (v : UInt8) : ReadBy (.uint8 v) .readUint8
  | uint16 (v : UInt16) : ReadBy (.uint16 v) .readUint16
  | uint32 (v : UInt32) : ReadBy (.uint32 v) .readUint32
  | uint64 (v : UInt64) : ReadBy (.uint64 v) .readUint64
  | int64 (v : Int64) : ReadBy (.int64 v) .readInt64
  | bool (v : Bool) : ReadBy (.bool v) .readBool
  | bytes (v : Bytes) : ReadBy (.bytes v) (.readBytes v.length)
  | bytesCopy (v : Bytes) : ReadBy (.bytes v) (.readBytesCopy v.length)
  | publicKey (v : PublicKey) : ReadBy (.publicKey v) .readPublicKey
  | signature (v : Signature) : ReadBy (.signature v) .readSignature
  | hash (v : Hash) : ReadBy (.hash v) .readHash
  | borshString (v : Text) : ReadBy (.borshString v) .readBorshString
  | borshStringCopy (v : Text) : ReadBy (.borshString v) .readBorshStringCopy
  | bincodeString (v : Text) : ReadBy (.bincodeString v) .readBincodeString
  | bincodeStringCopy (v : Text) : ReadBy (.bincodeString v) .readBincodeStringCopy
  | option (v : Bool) : ReadBy (.option v) .readOption
  | cOption (v : Bool) : ReadBy (.cOption v) .readCOption
  | compactU16 (v : ℤ) : ReadBy (.compactU16 v) .readCompactU16
  | varUint64 (v : UInt64) : ReadBy (.varUint64 v) .readVarUint64

/-! ## What a write does -/

/-- The values that can be written. -/
def Field.Fits : Field → Prop
  | .borshString v => v.1.length ≤ maxUint32
  | .bincodeString v => isUtf8 v.1 = true
  | .compactU16 v => 0 ≤ v ∧ v ≤ 65535
  | _ => True

/-- The bytes of the value. -/
def Field.encoding : Field → Bytes
  | .uint8 v => [v]
  | .uint16 v => leBytes 2 v.toNat
  | .uint32 v => leBytes 4 v.toNat
  | .uint64 v => leBytes 8 v.toNat
  | .int64 v => leBytes 8 v.toUInt64.toNat
  | .bool v | .option v => [if v then 1 else 0]
  | .bytes v => v
  | .publicKey v => v.toList
  | .signature v => v.toList
  | .hash v => v.toList
  | .borshString v => leBytes 4 v.1.length ++ v.1
  | .bincodeString v => leBytes 8 v.1.length ++ v.1
  | .cOption v => [if v then 1 else 0, 0, 0, 0]
  | .compactU16 v => appendShortvecLen v.toNat
  | .varUint64 v => appendShortvecLen v.toNat

/-- A value that can be written is appended. -/
theorem Field.write_of_fits {f : Field} (h : f.Fits) (e : Encoder) :
    f.write e = e.append f.encoding := by
  cases f with
  | borshString v => exact Encoder.writeBorshString_of_le h e
  | bincodeString v => exact Encoder.writeBincodeString_of_isUtf8 h e
  | compactU16 v =>
    obtain ⟨n, rfl⟩ := Int.eq_ofNat_of_zero_le h.1
    have hle : n ≤ 0xFFFF := by
      have hle := h.2
      omega
    exact Encoder.writeCompactU16_of_le hle e
  | varUint64 v =>
    show e.append (Encoder.varUint64Bytes v) = _
    rw [Encoder.varUint64Bytes_eq]
    rfl
  | _ => rfl

/-- Any other value is refused. -/
theorem Field.write_of_not_fits {f : Field} (h : ¬f.Fits) {e : Encoder} (herr : e.err = none) :
    ∃ s arg, f.write e = e.fail s arg := by
  have hnone : ¬e.err.isSome = true := by rw [herr]; simp
  cases f with
  | borshString v =>
    refine ⟨.overflow, v.1.length, ?_⟩
    show e.writeBorshString v.1 = _
    unfold Encoder.writeBorshString
    rw [if_neg hnone, if_pos (Nat.lt_of_not_le h)]
  | bincodeString v =>
    have hbad : isUtf8 v.1 = false := Bool.eq_false_iff.mpr h
    refine ⟨.invalidUTF8, v.1.length, ?_⟩
    show e.writeBincodeString v.1 = _
    unfold Encoder.writeBincodeString
    rw [if_neg hnone, hbad]
    rfl
  | compactU16 v =>
    have hbad : v < 0 ∨ 65535 < v := by
      by_contra hin
      exact h ⟨by omega, by omega⟩
    refine ⟨.overflow, v, ?_⟩
    show e.writeCompactU16 v = _
    unfold Encoder.writeCompactU16
    rw [if_neg hnone, if_pos hbad]
  | _ => exact absurd trivial h

/-- On an encoder with an error a write does nothing. -/
theorem Field.write_of_isSome (f : Field) {e : Encoder} (h : e.err.isSome = true) :
    f.write e = e := by
  have happend : ∀ bs, e.append bs = e := fun bs => if_pos h
  cases f with
  | borshString v => exact if_pos h
  | bincodeString v => exact if_pos h
  | compactU16 v => exact if_pos h
  | _ => exact happend _

theorem writeAll_of_isSome (fields : List Field) {e : Encoder} (h : e.err.isSome = true) :
    writeAll fields e = e := by
  induction fields with
  | nil => rfl
  | cons f fields ih =>
    show writeAll fields (f.write e) = e
    rw [f.write_of_isSome h, ih]

/-- **Writes without an error.** All values can be written, and their bytes are appended. -/
theorem writeAll_eq {fields : List Field} {e : Encoder} (h : (writeAll fields e).err = none) :
    (∀ f ∈ fields, f.Fits) ∧ writeAll fields e = e.append (fields.flatMap Field.encoding) := by
  induction fields generalizing e with
  | nil =>
    have hnone : e.err = none := h
    refine ⟨by simp, ?_⟩
    rw [List.flatMap_nil, Encoder.append_of_none hnone, List.append_nil]
    rfl
  | cons f fields ih =>
    have h' : (writeAll fields (f.write e)).err = none := h
    obtain ⟨hfits, hbytes⟩ := ih h'
    have herr1 : (f.write e).err = none := by
      rw [hbytes, Encoder.append_err] at h'
      exact h'
    have herr : e.err = none := by
      by_contra hne
      have hsome := Option.isSome_iff_ne_none.mpr hne
      rw [f.write_of_isSome hsome] at herr1
      exact hne herr1
    have hf : f.Fits := by
      by_contra hnot
      obtain ⟨s, arg, hfail⟩ := Field.write_of_not_fits hnot herr
      have hsome := e.fail_err_isSome s arg
      rw [← hfail, herr1] at hsome
      simp at hsome
    refine ⟨List.forall_mem_cons.mpr ⟨hf, hfits⟩, ?_⟩
    show writeAll fields (f.write e) = _
    rw [hbytes, Field.write_of_fits hf, Encoder.append_append, List.flatMap_cons]

/-! ## The reads -/

/-- A read with both laws in front of an encoding, as a call. -/
theorem Decoder.Reads.call {α : Type} {P : α → Prop} {enc : α → Bytes} {read : Decoder → α × Decoder}
    (h : Decoder.Reads P enc read) {a : α} (ha : P a) {d : Decoder} (herr : d.err = none) {t : Bytes}
    (hrest : d.rest = enc a ++ t) (val : α → Val) :
    (read d).map val id = (val a, d.past (enc a).length) := by
  rw [h.inverts ha herr hrest]
  rfl

/-- The same for raw bytes. -/
theorem readBytes_call {v t : Bytes} {d : Decoder} (hpos : d.pos ≤ d.data.length)
    (herr : d.err = none) (hrest : d.rest = v ++ t) :
    (d.readBytes v.length).map Val.bytes id = (.bytes v, d.past v.length) := by
  rw [Decoder.readBytes_ok hpos herr hrest]
  rfl

/-- A matching read in front of its value. -/
theorem read_field {f : Field} {op : Op} (hmatch : ReadBy f op) (hfits : f.Fits) {d : Decoder}
    (hpos : d.pos ≤ d.data.length) (herr : d.err = none) {t : Bytes}
    (hrest : d.rest = f.encoding ++ t) :
    op ≠ .err ∧ op.run d = (f.value, d.past f.encoding.length) := by
  cases hmatch with
  | uint8 v => exact ⟨by simp, Decoder.readUint8_reads.call trivial herr hrest _⟩
  | uint16 v => exact ⟨by simp, Decoder.readUint16_reads.call trivial herr hrest _⟩
  | uint32 v => exact ⟨by simp, Decoder.readUint32_reads.call trivial herr hrest _⟩
  | uint64 v => exact ⟨by simp, Decoder.readUint64_reads.call trivial herr hrest _⟩
  | int64 v => exact ⟨by simp, Decoder.readInt64_reads.call trivial herr hrest _⟩
  | bool v => exact ⟨by simp, Decoder.readBool_reads.call trivial herr hrest _⟩
  | bytes v => exact ⟨by simp, readBytes_call hpos herr hrest⟩
  | bytesCopy v => exact ⟨by simp, readBytes_call hpos herr hrest⟩
  | publicKey v => exact ⟨by simp, Decoder.readPublicKey_reads.call trivial herr hrest _⟩
  | signature v => exact ⟨by simp, Decoder.readSignature_reads.call trivial herr hrest _⟩
  | hash v => exact ⟨by simp, Decoder.readHash_reads.call trivial herr hrest _⟩
  | borshString v => exact ⟨by simp, Decoder.readBorshString_reads.call hfits herr hrest _⟩
  | borshStringCopy v => exact ⟨by simp, Decoder.readBorshString_reads.call hfits herr hrest _⟩
  | bincodeString v =>
    exact ⟨by simp, Decoder.readBincodeString_reads.call ⟨hfits, v.2⟩ herr hrest _⟩
  | bincodeStringCopy v =>
    exact ⟨by simp, Decoder.readBincodeString_reads.call ⟨hfits, v.2⟩ herr hrest _⟩
  | option v => exact ⟨by simp, Decoder.readOption_reads.call trivial herr hrest _⟩
  | cOption v => exact ⟨by simp, Decoder.readCOption_reads.call trivial herr hrest _⟩
  | compactU16 v =>
    have hle : v.toNat ≤ 0xFFFF := by
      have hle := hfits.2
      omega
    exact ⟨by simp, Decoder.readCompactU16_reads.call hle herr hrest _⟩
  | varUint64 v => exact ⟨by simp, Decoder.readVarUint64_reads.call trivial herr hrest _⟩

/-- The matching reads in front of the values. -/
theorem checkedRun_fields {fields : List Field} {ops : List Op} (hmatch : List.Forall₂ ReadBy fields ops)
    (hfits : ∀ f ∈ fields, f.Fits) {d : Decoder} (hpos : d.pos ≤ d.data.length)
    (herr : d.err = none) {t : Bytes} (hrest : d.rest = fields.flatMap Field.encoding ++ t) :
    checkedRun ops d
      = .ok (fields.map Field.value, d.past (fields.flatMap Field.encoding).length) := by
  induction hmatch generalizing d with
  | nil => rfl
  | @cons f op fields ops hop _ ih =>
    rw [List.flatMap_cons, List.append_assoc] at hrest
    obtain ⟨hne, hrun⟩ := read_field hop (hfits f List.mem_cons_self) hpos herr hrest
    have hstep := ih (fun f hf => hfits f (List.mem_cons_of_mem _ hf))
      (Decoder.past_pos_le hpos hrest) herr (Decoder.rest_past_of_eq hrest)
    unfold checkedRun
    rw [(Op.safe hne).checked hpos, hrun, ok_bind]
    dsimp only
    rw [hstep, ok_bind, Decoder.past_past, List.flatMap_cons, List.length_append]
    rfl

/-! ## Both directions -/

/-- **Sequences of writes.** If no error is recorded, the matching reads over the bytes that
were appended return the values and end with nothing left and no error. If a write records
an error, the bytes are what they were before it, and no later write changes anything. -/
theorem encoder_sequences (dst : Bytes) :
    (∀ (fields : List Field) (ops : List Op), List.Forall₂ ReadBy fields ops →
      (writeAll fields (newEncoder dst)).err = none →
      ∃ bytes d, (writeAll fields (newEncoder dst)).data = dst ++ bytes
        ∧ checkedRun ops (newDecoder bytes) = .ok (fields.map Field.value, d)
        ∧ d.err = none ∧ d.remaining = 0)
    ∧ ∀ (fields : List Field) (f : Field) (later : List Field),
      (writeAll fields (newEncoder dst)).err = none →
      (f.write (writeAll fields (newEncoder dst))).err ≠ none →
      (f.write (writeAll fields (newEncoder dst))).data = (writeAll fields (newEncoder dst)).data
        ∧ writeAll later (f.write (writeAll fields (newEncoder dst)))
          = f.write (writeAll fields (newEncoder dst)) := by
  refine ⟨fun fields ops hmatch herr => ?_, fun fields f later herr hfail => ⟨?_, ?_⟩⟩
  · obtain ⟨hfits, hwritten⟩ := writeAll_eq herr
    refine ⟨fields.flatMap Field.encoding, _, ?_, checkedRun_fields hmatch hfits (Nat.zero_le _) rfl
      (List.append_nil _).symm, rfl, ?_⟩
    · rw [hwritten, Encoder.append_of_none rfl]
      rfl
    · show List.length _ - (0 + _) = 0
      exact Nat.sub_eq_zero_of_le (Nat.le_of_eq (Nat.zero_add _).symm)
  · by_cases hf : f.Fits
    · rw [Field.write_of_fits hf, Encoder.append_err] at hfail
      exact absurd herr hfail
    · obtain ⟨s, arg, hrefused⟩ := Field.write_of_not_fits hf herr
      rw [hrefused]
      exact Encoder.fail_data _ s arg
  · exact writeAll_of_isSome later (Option.isSome_iff_ne_none.mpr hfail)

/-- Values of five kinds. -/
def mixedFields : List Field :=
  [.uint16 7, .compactU16 300, .borshString ⟨[111, 107], by decide⟩, .cOption true, .varUint64 1000]

/-- They are read back from behind two bytes; after a length that is refused, nothing more is
written. -/
theorem encoder_sequences_mixed :
    (∃ bytes d, (writeAll mixedFields (newEncoder [1, 2])).data = [1, 2] ++ bytes
        ∧ checkedRun [.readUint16, .readCompactU16, .readBorshStringCopy, .readCOption,
          .readVarUint64] (newDecoder bytes) = .ok (mixedFields.map Field.value, d)
        ∧ d.err = none ∧ d.remaining = 0)
      ∧ (writeAll (.compactU16 (-1) :: mixedFields) (newEncoder [1, 2])).data = [1, 2] := by
  obtain ⟨hread, hrefused⟩ := encoder_sequences [1, 2]
  constructor
  · exact hread mixedFields _ (.cons (.uint16 _) (.cons (.compactU16 _) (.cons (.borshStringCopy _)
      (.cons (.cOption _) (.cons (.varUint64 _) .nil))))) rfl
  · obtain ⟨hdata, hlater⟩ := hrefused [] (.compactU16 (-1)) mixedFields rfl (by decide)
    exact (congrArg Encoder.data hlater).trans hdata

end SolanaGo.Bin
