/-
The message codec: decoding undoes encoding on every message the wire can
carry, and nothing else is accepted.

The wire carries a message when its list lengths fit a compact-u16, its
instruction indexes fit a byte, and the first byte of a legacy body cannot be
mistaken for a version byte. `WireRepresentable` is exactly that, and it is exact
in both directions: `unmarshalBinaryConsumed_marshal` reads every such message
back, and `unmarshalBinaryConsumed_canonical` shows that a decoded message is
always such a message, so a message that is not one never survives the trip.

The proofs follow the wire: one pair of laws for an instruction, one for a
lookup, then the body, then the two versions.
-/
import SolanaGo.Message

set_option autoImplicit false

namespace SolanaGo

open Codec

/-! ## What the wire can carry -/

/-- An instruction the wire can carry: indexes in a byte, lengths in a compact-u16. -/
structure CompiledInstruction.WireRepresentable (ins : CompiledInstruction) : Prop where
  programIDIndex_le : ins.programIDIndex.toNat ≤ 255
  accounts_length_le : ins.accounts.length ≤ 0xFFFF
  accounts_le : ∀ a ∈ ins.accounts, a.toNat ≤ 255
  data_length_le : ins.data.length ≤ 0xFFFF

/-- A lookup the wire can carry. -/
structure MessageAddressTableLookup.WireRepresentable (lookup : MessageAddressTableLookup) :
    Prop where
  writable_length_le : lookup.writableIndexes.length ≤ 0xFFFF
  readonly_length_le : lookup.readonlyIndexes.length ≤ 0xFFFF

/-- The conditions on the version-independent part. -/
structure Message.BodyRepresentable (m : Message) : Prop where
  accountKeys_length_le : m.accountKeys.length ≤ 0xFFFF
  instructions_length_le : m.instructions.length ≤ 0xFFFF
  instructions_wire : ∀ ins ∈ m.instructions, ins.WireRepresentable

/-- A message the wire can carry. A legacy message has no lookups and fewer than
128 required signatures: its first byte is that count, and a set high bit there
announces a version. -/
structure Message.WireRepresentable (m : Message) : Prop where
  body : m.BodyRepresentable
  lookups_length_le : m.addressTableLookups.length ≤ 0xFFFF
  lookups_wire : ∀ lookup ∈ m.addressTableLookups, lookup.WireRepresentable
  legacy : m.version = .legacy →
    m.addressTableLookups = [] ∧ m.header.numRequiredSignatures.toNat < 128

/-! ## Instructions -/

theorem toUInt16_toUInt8 {x : UInt16} (h : x.toNat ≤ 255) : x.toUInt8.toUInt16 = x := by
  rw [← UInt16.toNat_inj, UInt8.toNat_toUInt16, UInt16.toNat_toUInt8]
  omega

theorem toUInt8_toUInt16 (b : UInt8) : b.toUInt16.toUInt8 = b := by
  rw [← UInt8.toNat_inj, UInt16.toNat_toUInt8, UInt8.toNat_toUInt16]
  have := b.toNat_lt
  omega

theorem toUInt16_toNat_le (b : UInt8) : b.toUInt16.toNat ≤ 255 := by
  rw [UInt8.toNat_toUInt16]
  have := b.toNat_lt
  omega

/-- Widening undoes narrowing on indexes that fit a byte. -/
theorem map_toUInt16_toUInt8 {xs : List UInt16} (h : ∀ a ∈ xs, a.toNat ≤ 255) :
    (xs.map UInt16.toUInt8).map UInt8.toUInt16 = xs := by
  rw [List.map_map]
  conv_rhs => rw [← List.map_id xs]
  exact List.map_congr_left fun a ha => toUInt16_toUInt8 (h a ha)

theorem map_toUInt8_toUInt16 (xs : List UInt8) :
    (xs.map UInt8.toUInt16).map UInt16.toUInt8 = xs := by
  rw [List.map_map]
  conv_rhs => rw [← List.map_id xs]
  exact List.map_congr_left fun b _ => toUInt8_toUInt16 b

theorem appendInstruction_length (ins : CompiledInstruction) :
    (appendInstruction ins).length = 1 + shortvecLen ins.accounts.length + ins.accounts.length
      + shortvecLen ins.data.length + ins.data.length := by
  simp only [appendInstruction, List.length_cons, List.length_append, List.length_map,
    appendShortvecLen_length]
  ring

theorem unmarshalInstruction_inverts (i : ℕ) :
    Inverts CompiledInstruction.WireRepresentable appendInstruction (unmarshalInstruction i) := by
  intro ins t h
  have hacc : (ins.accounts.map UInt16.toUInt8).length = ins.accounts.length := List.length_map _
  simp only [appendInstruction, List.cons_append, List.append_assoc, unmarshalInstruction]
  rw [readShortvecLen_inverts _ _ _ h.accounts_length_le, ok_bind]
  dsimp only
  rw [if_neg (by rw [List.length_append, hacc]; omega), List.take_left' hacc,
    List.drop_left' hacc, readShortvecLen_inverts _ _ _ h.data_length_le, ok_bind]
  dsimp only
  rw [if_neg (by rw [List.length_append]; omega), List.take_left' rfl, List.drop_left' rfl,
    toUInt16_toUInt8 h.programIDIndex_le, map_toUInt16_toUInt8 h.accounts_le]

theorem unmarshalInstruction_canonical (i : ℕ) :
    Canonical CompiledInstruction.WireRepresentable appendInstruction (unmarshalInstruction i) := by
  intro d ins r h
  cases d with
  | nil => simp [unmarshalInstruction] at h
  | cons b d =>
    rw [unmarshalInstruction, bind_eq_ok] at h
    obtain ⟨⟨numAccounts, d1⟩, hacc, h⟩ := h
    obtain ⟨hna, rfl⟩ := readShortvecLen_canonical _ _ _ _ hacc
    obtain ⟨hlt, h⟩ := guard_eq_ok.mp h
    rw [bind_eq_ok] at h
    obtain ⟨⟨dataLen, d2⟩, hdata, h⟩ := h
    obtain ⟨hdl, hd1⟩ := readShortvecLen_canonical _ _ _ _ hdata
    obtain ⟨hlt2, h⟩ := guard_eq_ok.mp h
    simp only [Except.ok.injEq, Prod.mk.injEq] at h
    obtain ⟨rfl, rfl⟩ := h
    have hla : (d1.take numAccounts).length = numAccounts := by
      rw [List.length_take]; omega
    have hld : (d2.take dataLen).length = dataLen := by
      rw [List.length_take]; omega
    refine ⟨⟨?_, ?_, ?_, ?_⟩, ?_⟩
    · exact toUInt16_toNat_le b
    · rw [List.length_map, hla]; exact hna
    · intro a ha
      obtain ⟨x, -, rfl⟩ := List.mem_map.mp ha
      exact toUInt16_toNat_le x
    · rw [hld]; exact hdl
    · simp only [appendInstruction, List.length_map, hla, hld, map_toUInt8_toUInt16,
        toUInt8_toUInt16, List.cons_append, List.append_assoc, List.take_append_drop]
      rw [← hd1, List.take_append_drop]

/-! ## The body -/

theorem length_appendInstructions (instructions : List CompiledInstruction) :
    instructions.length ≤ (encodeAll appendInstruction instructions).length := by
  induction instructions with
  | nil => simp
  | cons ins instructions ih =>
    rw [encodeAll_cons, List.length_append, List.length_cons, appendInstruction_length]
    omega

theorem Message.appendBody_length (m : Message) : m.appendBody.length = m.bodySize := by
  have hins : (encodeAll appendInstruction m.instructions).length
      = (m.instructions.map fun ins => 1 + shortvecLen ins.accounts.length + ins.accounts.length
        + shortvecLen ins.data.length + ins.data.length).sum := by
    rw [length_encodeAll]
    exact congrArg List.sum (List.map_congr_left fun ins _ => appendInstruction_length ins)
  simp only [Message.appendBody, Message.bodySize, List.length_cons, List.length_append,
    appendShortvecLen_length, length_joinArrays, ByteArr.length_toList, hins]
  ring

/-- The body reads back into any receiver; the receiver's version and lookups
stay. -/
theorem Message.unmarshalBody_append (mx m : Message) (h : m.BodyRepresentable) (t : Bytes) :
    mx.unmarshalBody (m.appendBody ++ t)
      = .ok ({ m with version := mx.version, addressTableLookups := mx.addressTableLookups }, t) := by
  have hjoin : (joinArrays m.accountKeys).length = m.accountKeys.length * 32 := by
    rw [length_joinArrays, Nat.mul_comm]
  have hhash : m.recentBlockhash.toList.length = 32 := ByteArr.length_toList _
  simp only [Message.appendBody, List.cons_append, List.append_assoc, Message.unmarshalBody]
  rw [readShortvecLen_inverts _ _ _ h.accountKeys_length_le, ok_bind]
  dsimp only
  rw [if_neg (by rw [List.length_append, hjoin]; simp only [publicKeyLength]; omega),
    splitArrays_joinArrays,
    List.drop_left' hjoin, if_neg (by rw [List.length_append, hhash]; omega),
    ByteArr.copyFrom_append, List.drop_left' hhash,
    readShortvecLen_inverts _ _ _ h.instructions_length_le, ok_bind]
  dsimp only
  rw [if_neg (by
      rw [List.length_append]; have := length_appendInstructions m.instructions; omega),
    decodeRepeat_encodeAll unmarshalInstruction_inverts _ h.instructions_wire, ok_bind]

/-- An accepted body is the encoding of the message it produced. -/
theorem Message.unmarshalBody_canonical (mx m : Message) (d r : Bytes)
    (h : mx.unmarshalBody d = .ok (m, r)) :
    m.BodyRepresentable ∧ m.version = mx.version
      ∧ m.addressTableLookups = mx.addressTableLookups ∧ d = m.appendBody ++ r := by
  match d, h with
  | b0 :: b1 :: b2 :: d, h =>
    rw [Message.unmarshalBody, bind_eq_ok] at h
    obtain ⟨⟨numKeys, d1⟩, hkeys, h⟩ := h
    obtain ⟨hnk, rfl⟩ := readShortvecLen_canonical _ _ _ _ hkeys
    obtain ⟨hlt, h⟩ := guard_eq_ok.mp h
    obtain ⟨hshort, h⟩ := guard_eq_ok.mp h
    rw [bind_eq_ok] at h
    obtain ⟨⟨numInstructions, d2⟩, hins, h⟩ := h
    obtain ⟨hni, hd2⟩ := readShortvecLen_canonical _ _ _ _ hins
    obtain ⟨hlt2, h⟩ := guard_eq_ok.mp h
    rw [bind_eq_ok] at h
    obtain ⟨⟨instructions, d3⟩, hrep, h⟩ := h
    simp only [Except.ok.injEq, Prod.mk.injEq] at h
    obtain ⟨rfl, rfl⟩ := h
    obtain ⟨hlen, hwire, rfl⟩ := decodeRepeat_canonical
      unmarshalInstruction_canonical numInstructions 0 d2 d3 instructions hrep
    have hk32 : publicKeyLength * numKeys ≤ d1.length := by
      simp only [publicKeyLength] at hlt ⊢; omega
    refine ⟨⟨?_, ?_, hwire⟩, rfl, rfl, ?_⟩
    · rw [length_splitArrays]; exact hnk
    · rw [hlen]; exact hni
    · simp only [Message.appendBody, length_splitArrays, hlen, List.cons_append,
        List.append_assoc]
      rw [← hd2, joinArrays_splitArrays _ _ hk32,
        ByteArr.toList_copyFrom (by omega), List.take_append_drop,
        Nat.mul_comm publicKeyLength, List.take_append_drop]
  | [], h => simp [Message.unmarshalBody] at h
  | [_], h => simp [Message.unmarshalBody] at h
  | [_, _], h => simp [Message.unmarshalBody] at h

/-! ## Lookups -/

theorem decodeLookupIndexes_append (xs t : Bytes) (h : xs.length ≤ 0xFFFF) :
    decodeLookupIndexes (appendShortvecLen xs.length ++ (xs ++ t)) = .ok (xs, t) := by
  rw [decodeLookupIndexes, readShortvecLen_inverts _ _ _ h, ok_bind]
  dsimp only
  rw [if_neg (by rw [List.length_append]; omega), List.take_left' rfl, List.drop_left' rfl]

theorem decodeLookupIndexes_canonical {d xs r : Bytes} (h : decodeLookupIndexes d = .ok (xs, r)) :
    xs.length ≤ 0xFFFF ∧ d = appendShortvecLen xs.length ++ (xs ++ r) := by
  rw [decodeLookupIndexes, bind_eq_ok] at h
  obtain ⟨⟨count, d1⟩, hc, h⟩ := h
  obtain ⟨hle, rfl⟩ := readShortvecLen_canonical _ _ _ _ hc
  obtain ⟨hlt, h⟩ := guard_eq_ok.mp h
  simp only [Except.ok.injEq, Prod.mk.injEq] at h
  obtain ⟨rfl, rfl⟩ := h
  have hlen : (d1.take count).length = count := by rw [List.length_take]; omega
  exact ⟨by rw [hlen]; exact hle, by rw [hlen, List.take_append_drop]⟩

theorem appendLookup_length (lookup : MessageAddressTableLookup) :
    (appendLookup lookup).length = publicKeyLength
      + shortvecLen lookup.writableIndexes.length + lookup.writableIndexes.length
      + shortvecLen lookup.readonlyIndexes.length + lookup.readonlyIndexes.length := by
  simp only [appendLookup, List.length_append, ByteArr.length_toList, appendShortvecLen_length]
  ring

theorem shortvecLen_pos (n : ℕ) : 0 < shortvecLen n := by
  rw [shortvecLen]; split <;> omega

theorem unmarshalLookup_inverts (i : ℕ) :
    Inverts MessageAddressTableLookup.WireRepresentable appendLookup (unmarshalLookup i) := by
  intro lookup t h
  have hkey : lookup.accountKey.toList.length = 32 := ByteArr.length_toList _
  simp only [appendLookup, List.append_assoc, unmarshalLookup]
  rw [if_neg (by rw [List.length_append, hkey]; simp only [publicKeyLength]; omega),
    ByteArr.copyFrom_append,
    List.drop_left' hkey, decodeLookupIndexes_append _ _ h.writable_length_le, wrapErr_ok, ok_bind]
  dsimp only
  rw [decodeLookupIndexes_append _ _ h.readonly_length_le, wrapErr_ok, ok_bind]

theorem unmarshalLookup_canonical (i : ℕ) :
    Canonical MessageAddressTableLookup.WireRepresentable appendLookup (unmarshalLookup i) := by
  intro d lookup r h
  obtain ⟨hshort, h⟩ := guard_eq_ok.mp h
  rw [bind_eq_ok] at h
  obtain ⟨⟨writable, d1⟩, hw, h⟩ := h
  rw [bind_eq_ok] at h
  obtain ⟨⟨readonly, d2⟩, hr, h⟩ := h
  simp only [Except.ok.injEq, Prod.mk.injEq] at h
  obtain ⟨rfl, rfl⟩ := h
  obtain ⟨hwl, hd1⟩ := decodeLookupIndexes_canonical (wrapErr_eq_ok.mp hw)
  obtain ⟨hrl, hd2⟩ := decodeLookupIndexes_canonical (wrapErr_eq_ok.mp hr)
  refine ⟨⟨hwl, hrl⟩, ?_⟩
  simp only [appendLookup, List.append_assoc]
  rw [← hd2, ← hd1, ByteArr.toList_copyFrom (Nat.le_of_not_lt hshort), List.take_append_drop]

theorem length_appendLookups (lookups : List MessageAddressTableLookup) :
    34 * lookups.length ≤ (encodeAll appendLookup lookups).length := by
  induction lookups with
  | nil => simp
  | cons lookup lookups ih =>
    have hw := shortvecLen_pos lookup.writableIndexes.length
    have hr := shortvecLen_pos lookup.readonlyIndexes.length
    rw [encodeAll_cons, List.length_append, List.length_cons, appendLookup_length]
    simp only [publicKeyLength]
    omega

theorem Message.unmarshalLookups_append (mx : Message) (lookups : List MessageAddressTableLookup)
    (hlen : lookups.length ≤ 0xFFFF) (hwire : ∀ l ∈ lookups, l.WireRepresentable) (t : Bytes) :
    mx.unmarshalLookups (appendShortvecLen lookups.length ++ (encodeAll appendLookup lookups ++ t))
      = .ok ({ mx with addressTableLookups := lookups }, t) := by
  rw [Message.unmarshalLookups, readShortvecLen_inverts _ _ _ hlen, ok_bind]
  dsimp only
  cases lookups with
  | nil => rfl
  | cons lookup lookups =>
    have hbig := length_appendLookups (lookup :: lookups)
    rw [if_neg (by simp), if_neg (by rw [List.length_append]; omega),
      decodeRepeat_encodeAll unmarshalLookup_inverts _ hwire, ok_bind]

theorem Message.unmarshalLookups_canonical (mx m : Message) (d r : Bytes)
    (h : mx.unmarshalLookups d = .ok (m, r)) :
    m.addressTableLookups.length ≤ 0xFFFF ∧ (∀ l ∈ m.addressTableLookups, l.WireRepresentable)
      ∧ m = { mx with addressTableLookups := m.addressTableLookups }
      ∧ d = appendShortvecLen m.addressTableLookups.length
          ++ (encodeAll appendLookup m.addressTableLookups ++ r) := by
  rw [Message.unmarshalLookups, bind_eq_ok] at h
  obtain ⟨⟨numLookups, d1⟩, hn, h⟩ := h
  obtain ⟨hle, rfl⟩ := readShortvecLen_canonical _ _ _ _ hn
  dsimp only at h
  by_cases h0 : numLookups = 0
  · rw [if_pos h0] at h
    simp only [Except.ok.injEq, Prod.mk.injEq] at h
    obtain ⟨rfl, rfl⟩ := h
    subst h0
    exact ⟨by simp, by simp, rfl, by simp⟩
  · rw [if_neg h0] at h
    obtain ⟨-, h⟩ := guard_eq_ok.mp h
    rw [bind_eq_ok] at h
    obtain ⟨⟨lookups, d2⟩, hrep, h⟩ := h
    simp only [Except.ok.injEq, Prod.mk.injEq] at h
    obtain ⟨rfl, rfl⟩ := h
    obtain ⟨hlen, hwire, rfl⟩ := decodeRepeat_canonical
      unmarshalLookup_canonical numLookups 0 d1 d2 lookups hrep
    exact ⟨by rw [hlen]; exact hle, hwire, rfl, by rw [hlen]⟩

/-! ## The whole message -/

theorem Message.marshalBinary_legacy {m : Message} (hv : m.version = .legacy) :
    m.marshalBinary = .ok m.appendBody := by
  rw [Message.marshalBinary, hv]

theorem Message.marshalBinary_v0 {m : Message} (hv : m.version = .v0) :
    m.marshalBinary = .ok (messageVersionPrefix :: (m.appendBody
      ++ (appendShortvecLen m.addressTableLookups.length
        ++ encodeAll appendLookup m.addressTableLookups))) := by
  rw [Message.marshalBinary, hv]
  simp only [Message.marshalV0, hv]
  rfl

/-- Both versions marshal. -/
theorem Message.marshalBinary_ok (m : Message) : ∃ buf, m.marshalBinary = .ok buf := by
  cases hv : m.version with
  | legacy => exact ⟨_, Message.marshalBinary_legacy hv⟩
  | v0 => exact ⟨_, Message.marshalBinary_v0 hv⟩

/-- `MarshalBinary` writes as many bytes as it allocated. -/
theorem Message.marshalBinary_length {m : Message} {buf : Bytes} (h : m.marshalBinary = .ok buf) :
    buf.length = m.marshalSize := by
  cases hv : m.version with
  | legacy =>
    rw [Message.marshalBinary_legacy hv, Except.ok.injEq] at h
    rw [← h, Message.appendBody_length, Message.marshalSize, hv]
  | v0 =>
    have hlookups : (encodeAll appendLookup m.addressTableLookups).length
        = (m.addressTableLookups.map fun lookup => publicKeyLength
          + shortvecLen lookup.writableIndexes.length + lookup.writableIndexes.length
          + shortvecLen lookup.readonlyIndexes.length + lookup.readonlyIndexes.length).sum := by
      rw [length_encodeAll]
      exact congrArg List.sum (List.map_congr_left fun lookup _ => appendLookup_length lookup)
    rw [Message.marshalBinary_v0 hv, Except.ok.injEq] at h
    rw [← h, List.length_cons, List.length_append, List.length_append, Message.appendBody_length,
      appendShortvecLen_length, hlookups, Message.marshalSize, hv]
    simp only [Message.v0Size]
    ring

/-- The first byte of a body is the required-signature count. -/
theorem Message.appendBody_eq_cons (m : Message) :
    ∃ tail, m.appendBody = m.header.numRequiredSignatures :: tail := ⟨_, rfl⟩

theorem unmarshalBinaryConsumed_legacy (mx m : Message) (h : m.WireRepresentable)
    (hv : m.version = .legacy) (t : Bytes) :
    mx.unmarshalBinaryConsumed (m.appendBody ++ t) = .ok (m, m.appendBody.length) := by
  obtain ⟨hnone, hsig⟩ := h.legacy hv
  obtain ⟨tail, htail⟩ := m.appendBody_eq_cons
  have hbit : ¬ (m.header.numRequiredSignatures &&& messageVersionPrefix ≠ 0) :=
    not_not.mpr ((and_80_eq_zero _).mpr hsig)
  have hbody := Message.unmarshalBody_append
    { mx with version := .legacy, addressTableLookups := [] } m h.body t
  have hm : { m with version := .legacy, addressTableLookups := [] } = m := by
    cases m; simp_all
  rw [hm] at hbody
  have hlen : (m.appendBody ++ t).length - t.length = m.appendBody.length := by
    rw [List.length_append]; omega
  rw [← hlen]
  rw [htail, List.cons_append] at hbody ⊢
  rw [Message.unmarshalBinaryConsumed, if_neg hbit, hbody, ok_bind]

theorem unmarshalBinaryConsumed_v0 (mx m : Message) (h : m.WireRepresentable)
    (hv : m.version = .v0) (t : Bytes) :
    mx.unmarshalBinaryConsumed (messageVersionPrefix :: (m.appendBody
        ++ (appendShortvecLen m.addressTableLookups.length
          ++ encodeAll appendLookup m.addressTableLookups)) ++ t)
      = .ok (m, (messageVersionPrefix :: (m.appendBody
        ++ (appendShortvecLen m.addressTableLookups.length
          ++ encodeAll appendLookup m.addressTableLookups))).length) := by
  have hbit : messageVersionPrefix &&& messageVersionPrefix ≠ 0 := by decide
  have hzero : ¬ (messageVersionPrefix &&& 0x7F ≠ 0) := by decide
  rw [List.cons_append, Message.unmarshalBinaryConsumed, if_pos hbit, if_neg hzero]
  simp only [List.append_assoc]
  rw [Message.unmarshalBody_append _ m h.body, ok_bind]
  dsimp only
  rw [Message.unmarshalLookups_append _ _ h.lookups_length_le h.lookups_wire, ok_bind]
  dsimp only
  have hm : { m with version := .v0 } = m := by
    cases m; simp_all
  rw [hm]
  simp only [List.length_cons, List.length_append]
  congr 2
  omega

/-- **Decoding undoes encoding.** A message the wire can carry marshals, and its
bytes decode to it and report their length, into any receiver and in front of
any other bytes. -/
theorem Message.unmarshalBinaryConsumed_marshal (mx m : Message) (h : m.WireRepresentable) :
    ∃ buf, m.marshalBinary = .ok buf
      ∧ ∀ t, mx.unmarshalBinaryConsumed (buf ++ t) = .ok (m, buf.length) := by
  cases hv : m.version with
  | legacy =>
    exact ⟨_, Message.marshalBinary_legacy hv, unmarshalBinaryConsumed_legacy mx m h hv⟩
  | v0 => exact ⟨_, Message.marshalBinary_v0 hv, unmarshalBinaryConsumed_v0 mx m h hv⟩

/-- A first byte with the version bit set and version zero is the prefix. -/
theorem eq_messageVersionPrefix {first : UInt8} (hbit : first &&& messageVersionPrefix ≠ 0)
    (hzero : ¬ first &&& 0x7F ≠ 0) : first = messageVersionPrefix := by
  have h128 : ¬ first.toNat < 128 := fun hlt => hbit ((and_80_eq_zero first).mpr hlt)
  have hlow : first.toNat % 128 = 0 := by
    rw [← and_7f_toNat, not_not.mp hzero]; rfl
  have := first.toNat_lt
  rw [← UInt8.toNat_inj]
  show first.toNat = 128
  omega

/-- **Only encodings are accepted.** What the decoder accepts is the marshalled
form of the message it returned, followed by what it did not read; and that
message is one the wire can carry. -/
theorem Message.unmarshalBinaryConsumed_canonical {mx m : Message} {data : Bytes} {n : ℕ}
    (h : mx.unmarshalBinaryConsumed data = .ok (m, n)) :
    m.WireRepresentable
      ∧ ∃ buf r, m.marshalBinary = .ok buf ∧ data = buf ++ r ∧ n = buf.length := by
  cases data with
  | nil => simp [Message.unmarshalBinaryConsumed] at h
  | cons first tail =>
    rw [Message.unmarshalBinaryConsumed] at h
    by_cases hbit : first &&& messageVersionPrefix ≠ 0
    · rw [if_pos hbit] at h
      obtain ⟨hzero, h⟩ := guard_eq_ok.mp h
      rw [bind_eq_ok] at h
      obtain ⟨⟨mb, rest⟩, hbody, h⟩ := h
      rw [bind_eq_ok] at h
      obtain ⟨⟨ml, rest'⟩, hlookups, h⟩ := h
      simp only [Except.ok.injEq, Prod.mk.injEq] at h
      obtain ⟨rfl, rfl⟩ := h
      obtain ⟨hB, hver, -, rfl⟩ := Message.unmarshalBody_canonical _ _ _ _ hbody
      obtain ⟨hlen, hwire, hml, rfl⟩ := Message.unmarshalLookups_canonical _ _ _ _ hlookups
      have hlv : ml.version = .v0 := by rw [hml]; exact hver
      have hbodyEq : ml.appendBody = mb.appendBody := by rw [hml]; rfl
      refine ⟨⟨?_, hlen, hwire, fun hleg => by rw [hlv] at hleg; simp at hleg⟩,
        _, rest', Message.marshalBinary_v0 hlv, ?_, ?_⟩
      · rw [hml]; exact ⟨hB.1, hB.2, hB.3⟩
      · rw [eq_messageVersionPrefix hbit hzero, hbodyEq, List.cons_append, List.append_assoc,
          List.append_assoc]
      · rw [hbodyEq]
        simp only [List.length_cons, List.length_append]
        omega
    · rw [if_neg hbit, bind_eq_ok] at h
      obtain ⟨⟨mb, rest⟩, hbody, h⟩ := h
      simp only [Except.ok.injEq, Prod.mk.injEq] at h
      obtain ⟨rfl, rfl⟩ := h
      obtain ⟨hB, hver, hnone, hdata⟩ := Message.unmarshalBody_canonical _ _ _ _ hbody
      have hfirst : mb.header.numRequiredSignatures = first := by
        obtain ⟨tl, htl⟩ := mb.appendBody_eq_cons
        rw [htl, List.cons_append, List.cons.injEq] at hdata
        exact hdata.1.symm
      have hsig : mb.header.numRequiredSignatures.toNat < 128 := by
        rw [hfirst]; exact (and_80_eq_zero first).mp (not_not.mp hbit)
      refine ⟨⟨hB, by rw [hnone]; simp, by rw [hnone]; simp, fun _ => ⟨hnone, hsig⟩⟩,
        _, rest, Message.marshalBinary_legacy hver, hdata, ?_⟩
      rw [hdata, List.length_append]
      omega

/-! ## The round trip, as callers use it -/

/-- **The message round trip.** Marshalling a message the wire can carry fills
its buffer exactly, and decoding those bytes in front of any others returns the
message and the number of bytes marshalled. -/
theorem message_round_trip (mx m : Message) (t : Bytes) (h : m.WireRepresentable) :
    ∃ buf, m.marshalBinary = .ok buf
      ∧ mx.unmarshalBinaryConsumed (buf ++ t) = .ok (m, buf.length)
      ∧ buf.length = m.marshalSize := by
  obtain ⟨buf, hbuf, hdec⟩ := Message.unmarshalBinaryConsumed_marshal mx m h
  exact ⟨buf, hbuf, hdec t, Message.marshalBinary_length hbuf⟩

/-- A v0 message with a signer, an instruction and a lookup. -/
def sampleMessage : Message where
  version := .v0
  accountKeys := [ByteArr.copyFrom 32 [1], ByteArr.copyFrom 32 [2]]
  header := { numRequiredSignatures := 1, numReadonlyUnsignedAccounts := 1 }
  instructions := [{ programIDIndex := 1, accounts := [0, 2], data := [7, 8, 9] }]
  addressTableLookups :=
    [{ accountKey := ByteArr.copyFrom 32 [3], writableIndexes := [4], readonlyIndexes := [] }]

theorem sampleMessage_wireRepresentable : sampleMessage.WireRepresentable := by
  refine ⟨⟨by decide, by decide, ?_⟩, by decide, ?_, fun h => by simp [sampleMessage] at h⟩
  · intro ins hins
    obtain rfl := List.mem_singleton.mp hins
    exact ⟨by decide, by decide, by simp, by decide⟩
  · intro lookup hlookup
    obtain rfl := List.mem_singleton.mp hlookup
    exact ⟨by decide, by decide⟩

theorem message_round_trip_sample :
    ∃ buf, sampleMessage.marshalBinary = .ok buf
      ∧ ({} : Message).unmarshalBinaryConsumed (buf ++ [0xFF]) = .ok (sampleMessage, buf.length)
      ∧ buf.length = sampleMessage.marshalSize :=
  message_round_trip {} sampleMessage [0xFF] sampleMessage_wireRepresentable

/-- **Re-encoding a decoded message.** What was read comes back byte for byte, so the bytes
a signature was made over can be had again from the decoded message; and whatever decodes
to the same message was read from the same bytes. -/
theorem message_marshal_decoded {mx m : Message} {data : Bytes} {n : ℕ}
    (h : mx.unmarshalBinaryConsumed data = .ok (m, n)) :
    m.marshalBinary = .ok (data.take n) ∧ n ≤ data.length
      ∧ ∀ (mx' : Message) (data' : Bytes) (n' : ℕ),
        mx'.unmarshalBinaryConsumed data' = .ok (m, n') → data'.take n' = data.take n := by
  have hmarshal : ∀ {mx m : Message} {data : Bytes} {n : ℕ},
      mx.unmarshalBinaryConsumed data = .ok (m, n) →
        m.marshalBinary = .ok (data.take n) ∧ n ≤ data.length := by
    intro mx m data n h
    obtain ⟨-, buf, r, hbuf, rfl, rfl⟩ := Message.unmarshalBinaryConsumed_canonical h
    refine ⟨?_, ?_⟩
    · rw [List.take_left' rfl, hbuf]
    · rw [List.length_append]
      omega
  refine ⟨(hmarshal h).1, (hmarshal h).2, fun mx' data' n' h' => ?_⟩
  exact Except.ok.inj ((hmarshal h').1.symm.trans (hmarshal h).1)

/-- The bytes of the sample, and a byte that is not read. -/
def trailedBytes : Bytes :=
  [0x80, 1, 0, 1, 2, 1] ++ List.replicate 31 0 ++ [2] ++ List.replicate 63 0
    ++ [1, 1, 2, 0, 2, 3, 7, 8, 9, 1, 3] ++ List.replicate 31 0 ++ [1, 4, 0, 0xFF]

theorem message_marshal_decoded_trailed :
    sampleMessage.marshalBinary = .ok (trailedBytes.take 146)
      ∧ 146 ≤ trailedBytes.length
      ∧ ∀ (mx' : Message) (data' : Bytes) (n' : ℕ),
        mx'.unmarshalBinaryConsumed data' = .ok (sampleMessage, n') →
          data'.take n' = trailedBytes.take 146 :=
  @message_marshal_decoded {} _ _ _ (by decide +kernel)

/-! ## Where a message ends -/

/-- A decoded message is decoded from the bytes that were read and from any extension of
them, into any receiver. -/
theorem Message.unmarshalBinaryConsumed_extend {mx m : Message} {data : Bytes} {n : ℕ}
    (h : mx.unmarshalBinaryConsumed data = .ok (m, n)) (mx' : Message) (t : Bytes) :
    mx'.unmarshalBinaryConsumed (data.take n ++ t) = .ok (m, n) := by
  obtain ⟨hwire, buf, r, hbuf, rfl, rfl⟩ := Message.unmarshalBinaryConsumed_canonical h
  obtain ⟨buf', hbuf', hdec⟩ := Message.unmarshalBinaryConsumed_marshal mx' m hwire
  obtain rfl : buf = buf' := Except.ok.inj (hbuf.symm.trans hbuf')
  rw [List.take_left' rfl]
  exact hdec t

/-- **Messages end where they end.** Of the bytes that were read, every strict front part
is refused, and with anything behind them they are read as before. -/
theorem message_prefix_free {mx m : Message} {data : Bytes} {n : ℕ}
    (h : mx.unmarshalBinaryConsumed data = .ok (m, n)) :
    (∀ (mx' : Message) (front : Bytes), front <+: data.take n → front ≠ data.take n →
        ∃ err, mx'.unmarshalBinaryConsumed front = .error err)
      ∧ ∀ (mx' : Message) (t : Bytes),
        mx'.unmarshalBinaryConsumed (data.take n ++ t) = .ok (m, n) := by
  refine ⟨fun mx' front hfront hne => ?_, Message.unmarshalBinaryConsumed_extend h⟩
  cases hdec : mx'.unmarshalBinaryConsumed front with
  | error err => exact ⟨err, rfl⟩
  | ok result =>
    -- A message read from the front part would be read from the whole, and end too early.
    obtain ⟨m', n'⟩ := result
    obtain ⟨s, hs⟩ := hfront
    have hlong : n' ≤ front.length := by
      obtain ⟨-, buf, r, -, rfl, rfl⟩ := Message.unmarshalBinaryConsumed_canonical hdec
      rw [List.length_append]
      omega
    have hread := Message.unmarshalBinaryConsumed_extend hdec mx' (front.drop n' ++ s)
    rw [← List.append_assoc, List.take_append_drop, hs] at hread
    have hwhole := Message.unmarshalBinaryConsumed_extend h mx' []
    rw [List.append_nil, hread] at hwhole
    have hn : n' = n := (Prod.mk.inj (Except.ok.inj hwhole)).2
    have hlen := congrArg List.length hs
    rw [List.length_append, List.length_take] at hlen
    have hnil : s = [] := List.length_eq_zero_iff.mp (by omega)
    rw [hnil, List.append_nil] at hs
    exact absurd hs hne

/-- The sample without its last byte, and with a byte behind it. -/
theorem message_prefix_free_trailed :
    (∃ err, ({} : Message).unmarshalBinaryConsumed (trailedBytes.take 145) = .error err)
      ∧ ({} : Message).unmarshalBinaryConsumed (trailedBytes.take 146 ++ [7])
        = .ok (sampleMessage, 146) := by
  have hboth := @message_prefix_free {} sampleMessage trailedBytes 146 (by decide +kernel)
  exact ⟨hboth.1 {} _ (by decide +kernel) (by decide +kernel), hboth.2 {} [7]⟩

end SolanaGo
