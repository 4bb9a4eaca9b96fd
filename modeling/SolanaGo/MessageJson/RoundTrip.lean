/-
The JSON form of a transaction is valid JSON and gives the transaction back.

The literals of `MarshalJSON` are put together to objects and arrays first
(`Message.marshalJSON_legacy`, `Message.marshalJSON_v0`, `Transaction.marshalJSON_eq`): with
that the text is valid because its parts are, and `sonic` finds the parts by what is assumed of
it, which is the grammar of RFC 8259 and the documented use of field names.

`RoundTrips write decode` says of a type that its texts are valid and that decoding one gives
the value back, whatever was in the place before. It passes from the elements to a slice
(`RoundTrips.slice`) and from the fields to a struct, one member after the other (`Assigns`).
The message is the one place where it needs a condition: a legacy message is written without
its lookups.
-/
import SolanaGo.Lib.JsonReader
import SolanaGo.MessageJson.Form

set_option autoImplicit false

namespace SolanaGo

open Codec
open Json

/-! ## What is assumed of the packages -/

/-- **`base58` is invertible**, and its texts are letters and digits. -/
structure Base58Package.Invertible (b58 : Base58Package) : Prop where
  decode_encode : ∀ bs, b58.decode (b58.encode bs) = .ok bs
  decode32_encode32 : ∀ p, b58.decode32 (b58.encode32 p) = .ok p
  decode64_encode64 : ∀ s, b58.decode64 (b58.encode64 s) = .ok s
  encode_nil : b58.encode [] = []
  alphabet : ∀ bs, ∀ c ∈ b58.encode bs, c ∈ Base58.alphabet
  alphabet32 : ∀ p, ∀ c ∈ b58.encode32 p, c ∈ Base58.alphabet
  alphabet64 : ∀ s, ∀ c ∈ b58.encode64 s, c ∈ Base58.alphabet
  length32 : ∀ p, publicKeyLength ≤ (b58.encode32 p).length
    ∧ (b58.encode32 p).length ≤ encodedMaxLen32

/-- **`sonic` reads JSON as RFC 8259 defines it**: the parts of an object and of an array are
those of the syntax tree, and a whole number in decimal is that number. A key that is the name
of a field is for that field. -/
structure SonicUnmarshal.FollowsRfc8259 (sonic : SonicUnmarshal) : Prop where
  object : ∀ (lead trail pad : Space) (members : List (Member Value)),
    (Value.object pad members).valid = true → (∀ m ∈ members, Plain m.key.1) →
    sonic.object (lead.1 ++ ((Value.object pad members).render ++ trail.1))
      = .ok (some (members.map fun m => (m.key.1, m.value.render)))
  array : ∀ (lead trail pad : Space) (elems : List (Element Value)),
    (Value.array pad elems).valid = true →
    sonic.array (lead.1 ++ ((Value.array pad elems).render ++ trail.1))
      = .ok (some (elems.map fun e => e.value.render))
  uint : ∀ bits n, n < 2 ^ bits → sonic.uint bits (decimal n) = .ok (some n)
  field : ∀ names name, name ∈ names → sonic.field names name = some name

/-! ## The texts as objects and arrays -/

section Texts

variable (b58 : Base58Package)

theorem appendUint8Array_eq (values : List UInt8) :
    appendUint8Array values = compactArray (values.map fun v => decimal v.toNat) := rfl

/-- The members of an instruction. -/
def CompiledInstruction.jsonMembers (ins : CompiledInstruction) : List (Bytes × Bytes) :=
  [ (ascii "programIdIndex", decimal ins.programIDIndex.toNat),
    (ascii "accounts", compactArray (ins.accounts.map fun a => decimal a.toNat)),
    (ascii "data", quoted (b58.encode ins.data)) ]

theorem CompiledInstruction.appendJSON_eq (ins : CompiledInstruction) :
    ins.appendJSON b58 = compactObject (ins.jsonMembers b58) := by
  simp only [CompiledInstruction.appendJSON, CompiledInstruction.jsonMembers, compactObject,
    commaSeparated, compactArray, quoted, List.map_cons, List.map_nil, List.flatMap_cons,
    List.flatMap_nil, List.append_assoc, List.cons_append, List.nil_append]
  rfl

/-- The members of a lookup. -/
def MessageAddressTableLookup.jsonMembers (lookup : MessageAddressTableLookup) :
    List (Bytes × Bytes) :=
  [ (ascii "accountKey", PublicKey.marshalJSON b58 lookup.accountKey),
    (ascii "writableIndexes", appendUint8Array lookup.writableIndexes),
    (ascii "readonlyIndexes", appendUint8Array lookup.readonlyIndexes) ]

theorem MessageAddressTableLookup.appendJSON_eq (lookup : MessageAddressTableLookup) :
    lookup.appendJSON b58 = compactObject (lookup.jsonMembers b58) := by
  simp only [MessageAddressTableLookup.appendJSON, MessageAddressTableLookup.jsonMembers,
    PublicKey.marshalJSON, compactObject, commaSeparated, quoted, List.map_cons, List.map_nil,
    List.flatMap_cons, List.flatMap_nil, List.append_assoc, List.cons_append, List.nil_append]
  rfl

/-- The members of a header. -/
def MessageHeader.jsonMembers (h : MessageHeader) : List (Bytes × Bytes) :=
  [ (ascii "numRequiredSignatures", decimal h.numRequiredSignatures.toNat),
    (ascii "numReadonlySignedAccounts", decimal h.numReadonlySignedAccounts.toNat),
    (ascii "numReadonlyUnsignedAccounts", decimal h.numReadonlyUnsignedAccounts.toNat) ]

/-- The members every message has. -/
def Message.jsonMembers (mx : Message) : List (Bytes × Bytes) :=
  [ (ascii "accountKeys", compactArray (mx.accountKeys.map (PublicKey.marshalJSON b58))),
    (ascii "header", compactObject mx.header.jsonMembers),
    (ascii "recentBlockhash", PublicKey.marshalJSON b58 mx.recentBlockhash),
    (ascii "instructions",
      compactArray (mx.instructions.map (CompiledInstruction.appendJSON b58))) ]

/-- The member that says that a message is versioned. -/
def Message.lookupsMember (mx : Message) : Bytes × Bytes :=
  (ascii "addressTableLookups",
    compactArray (mx.addressTableLookups.map (MessageAddressTableLookup.appendJSON b58)))

theorem Message.marshalJSON_legacy {mx : Message} (h : mx.version = .legacy) :
    mx.marshalJSON b58 = .ok (compactObject (mx.jsonMembers b58)) := by
  unfold Message.marshalJSON
  rw [if_neg (by simpa using h)]
  simp only [Message.jsonMembers, MessageHeader.jsonMembers, PublicKey.marshalJSON, compactObject,
    commaSeparated, compactArray, quoted, List.map_cons, List.map_nil, List.flatMap_cons,
    List.flatMap_nil, List.append_assoc, List.cons_append, List.nil_append]
  rfl

theorem Message.marshalJSON_v0 {mx : Message} (h : mx.version = .v0) :
    mx.marshalJSON b58
      = .ok (compactObject (mx.jsonMembers b58 ++ [mx.lookupsMember b58])) := by
  unfold Message.marshalJSON
  rw [if_pos (by simp [h])]
  simp only [Message.jsonMembers, Message.lookupsMember, MessageHeader.jsonMembers,
    PublicKey.marshalJSON, compactObject, commaSeparated, compactArray, quoted, List.map_cons,
    List.map_nil, List.flatMap_cons, List.flatMap_nil, List.append_assoc, List.cons_append,
    List.nil_append]
  rfl

theorem Transaction.marshalJSON_eq {tx : Transaction} {message : Bytes}
    (h : tx.message.marshalJSON b58 = .ok message) :
    tx.marshalJSON b58 = .ok (compactObject
      [ (ascii "signatures", compactArray (tx.signatures.map (Signature.marshalJSON b58))),
        (ascii "message", message) ]) := by
  unfold Transaction.marshalJSON
  rw [h, ok_bind]
  simp only [compactObject, commaSeparated, compactArray, quoted, List.map_cons,
    List.map_nil, List.flatMap_cons, List.flatMap_nil, List.append_assoc, List.cons_append,
    List.nil_append]
  rfl

end Texts

/-! ## Objects and arrays -/

section Containers

variable {sonic : SonicUnmarshal}

variable {members : List (Bytes × Bytes)}

theorem SonicUnmarshal.FollowsRfc8259.compactObject (hsonic : sonic.FollowsRfc8259)
    (h : ∀ m ∈ members, Plain m.1 ∧ ValidText m.2) :
    sonic.object (compactObject members) = .ok (some members) := by
  obtain ⟨ms, hms, hmembers⟩ := exists_members h
  have hplain : ∀ m ∈ ms.map compactMember, Plain m.key.1 := by
    intro m hm
    obtain ⟨m', hm', rfl⟩ := List.mem_map.mp hm
    have hmem : (m'.1.1, m'.2.render) ∈ members := by
      rw [← hmembers]
      exact List.mem_map_of_mem hm'
    exact (h _ hmem).1
  have hread := hsonic.object blank blank blank _ (valid_compactObject hms) hplain
  rw [render_compactObject, hmembers, List.map_map] at hread
  have hnil : blank.1 ++ (Json.compactObject members ++ blank.1) = Json.compactObject members :=
    List.append_nil _
  rw [hnil] at hread
  rw [hread, ← hmembers]
  rfl

theorem SonicUnmarshal.FollowsRfc8259.compactArray (hsonic : sonic.FollowsRfc8259)
    {texts : List Bytes} (h : ∀ text ∈ texts, ValidText text) :
    sonic.array (compactArray texts) = .ok (some texts) := by
  obtain ⟨vs, hvs, htexts⟩ := exists_values h
  have hread := hsonic.array blank blank blank _ (valid_compactArray hvs)
  rw [render_compactArray, htexts, List.map_map] at hread
  have hnil : blank.1 ++ (Json.compactArray texts ++ blank.1) = Json.compactArray texts :=
    List.append_nil _
  rw [hnil] at hread
  rw [hread, ← htexts]
  rfl

/-- Members with plain names and valid texts that take a struct, one after the other, from one
value to another. -/
inductive Assigns {σ : Type} (fields : List (JsonField σ)) :
    List (Bytes × Bytes) → σ → σ → Prop
  | nil (s : σ) : Assigns fields [] s s
  | cons {name text : Bytes} {decode : σ → Bytes → Except Err σ}
      {members : List (Bytes × Bytes)} {s s1 s' : σ} (hname : Plain name) (htext : ValidText text)
      (hfield : fields.lookup name = some decode) (hdecode : decode s text = .ok s1)
      (hrest : Assigns fields members s1 s') : Assigns fields ((name, text) :: members) s s'

theorem Assigns.valid {σ : Type} {fields : List (JsonField σ)} {s s' : σ}
    (h : Assigns fields members s s') : ∀ m ∈ members, Plain m.1 ∧ ValidText m.2 := by
  induction h with
  | nil s => exact List.forall_mem_nil _
  | cons hname htext _ _ _ ih => exact List.forall_mem_cons.mpr ⟨⟨hname, htext⟩, ih⟩

theorem Assigns.foldlM_setField (hsonic : sonic.FollowsRfc8259) {σ : Type}
    {fields : List (JsonField σ)} {s s' : σ} (h : Assigns fields members s s') :
    members.foldlM (sonic.setField fields) s = .ok s' := by
  induction h with
  | nil s => rfl
  | @cons name text decode members s s1 s' _ _ hfield hdecode _ ih =>
    have hmem : name ∈ fields.map Prod.fst := by
      obtain ⟨l1, l2, rfl, -⟩ := List.lookup_eq_some_iff.mp hfield
      simp
    have hset : sonic.setField fields s (name, text) = .ok s1 := by
      unfold SonicUnmarshal.setField
      rw [hsonic.field _ _ hmem, Option.bind_some, hfield]
      exact hdecode
    rw [List.foldlM_cons, hset, ok_bind, ih]

/-- **A struct from the text of its members.** -/
theorem Assigns.intoStruct (hsonic : sonic.FollowsRfc8259) {σ : Type} {fields : List (JsonField σ)}
    {s s' : σ} (h : Assigns fields members s s') :
    sonic.intoStruct fields s (compactObject members) = .ok s' := by
  unfold SonicUnmarshal.intoStruct
  rw [hsonic.compactObject h.valid, ok_bind]
  exact h.foldlM_setField hsonic

/-- What is written is valid JSON, and decoding it gives the value back, whatever value it
overwrites. -/
structure RoundTrips {α : Type} (write : α → Bytes) (decode : α → Bytes → Except Err α) :
    Prop where
  valid : ∀ a, ValidText (write a)
  decode_write : ∀ old a, decode old (write a) = .ok a

theorem decodeEach_map {α : Type} {write : α → Bytes} {decode : α → Bytes → Except Err α}
    (h : RoundTrips write decode) (zero : α) (old as : List α) :
    SonicUnmarshal.decodeEach zero decode old (as.map write) = .ok as := by
  induction as generalizing old with
  | nil => rfl
  | cons a as ih =>
    rw [List.map_cons, SonicUnmarshal.decodeEach, h.decode_write, ok_bind, ih, ok_bind]

/-- **From the elements to a slice.** -/
theorem RoundTrips.slice (hsonic : sonic.FollowsRfc8259) {α : Type} {write : α → Bytes}
    {decode : α → Bytes → Except Err α} (h : RoundTrips write decode) (zero : α) :
    RoundTrips (fun as => compactArray (as.map write)) (sonic.intoSlice zero decode) := by
  have hvalid (as : List α) : ∀ text ∈ as.map write, ValidText text := by
    intro text htext
    obtain ⟨a, -, rfl⟩ := List.mem_map.mp htext
    exact h.valid a
  refine ⟨fun as => ValidText.array (hvalid as), fun old as => ?_⟩
  unfold SonicUnmarshal.intoSlice
  rw [hsonic.compactArray (hvalid as), ok_bind]
  exact decodeEach_map h zero old as

/-- One more member, whose field comes back by itself. -/
theorem RoundTrips.assigns {σ α : Type} {fields : List (JsonField σ)} {name : Bytes}
    {write : α → Bytes} {decode : α → Bytes → Except Err α} (h : RoundTrips write decode)
    {get : σ → α} {set : σ → α → σ} {a : α} (hname : Plain name)
    (hfield : fields.lookup name = some fun s data => decode (get s) data >>= fun a => .ok (set s a))
    {s s' : σ} (hrest : Assigns fields members (set s a) s') :
    Assigns fields ((name, write a) :: members) s s' := by
  refine .cons hname (h.valid a) hfield ?_ hrest
  rw [h.decode_write, ok_bind]

/-- The same for a type with an `UnmarshalJSON`, which does not read what it overwrites. -/
theorem RoundTrips.assignsNew {σ α : Type} {fields : List (JsonField σ)} {name : Bytes}
    {write : α → Bytes} {decode : Bytes → Except Err α} (h : RoundTrips write fun _ => decode)
    {set : σ → α → σ} {a : α} (hname : Plain name)
    (hfield : fields.lookup name = some fun s data => decode data >>= fun a => .ok (set s a))
    {s s' : σ} (hrest : Assigns fields members (set s a) s') :
    Assigns fields ((name, write a) :: members) s s' := by
  refine .cons hname (h.valid a) hfield ?_ hrest
  rw [h.decode_write a, ok_bind]

/-- **From the fields to a struct.** -/
theorem RoundTrips.struct (hsonic : sonic.FollowsRfc8259) {σ : Type} {fields : List (JsonField σ)}
    {members : σ → List (Bytes × Bytes)} (h : ∀ old s, Assigns fields (members s) old s) :
    RoundTrips (fun s => compactObject (members s)) (sonic.intoStruct fields) :=
  ⟨fun s => ValidText.object (h s s).valid, fun old s => (h old s).intoStruct hsonic⟩

end Containers

/-! ## Numbers and strings -/

section Scalars

variable {sonic : SonicUnmarshal} {b58 : Base58Package} {fmtQ : Bytes → String}

theorem roundTrips_uint8 (hsonic : sonic.FollowsRfc8259) :
    RoundTrips (fun v : UInt8 => decimal v.toNat) sonic.intoUint8 := by
  refine ⟨fun v => ValidText.number _, fun old v => ?_⟩
  unfold SonicUnmarshal.intoUint8
  rw [hsonic.uint 8 v.toNat v.toNat_lt, ok_bind]
  exact congrArg Except.ok UInt8.ofNat_toNat

theorem roundTrips_uint16 (hsonic : sonic.FollowsRfc8259) :
    RoundTrips (fun v : UInt16 => decimal v.toNat) sonic.intoUint16 := by
  refine ⟨fun v => ValidText.number _, fun old v => ?_⟩
  unfold SonicUnmarshal.intoUint16
  rw [hsonic.uint 16 v.toNat v.toNat_lt, ok_bind]
  exact congrArg Except.ok UInt16.ofNat_toNat

/-- The range check passes what came from bytes. -/
theorem uint8Values_map (values : List UInt8) (i : ℕ) :
    uint8Values i (values.map UInt8.toUInt16) = .ok values := by
  induction values generalizing i with
  | nil => rfl
  | cons v values ih =>
    have hrange : ¬ 0xFF < v.toUInt16 := by
      have hv := v.toNat_lt
      rw [UInt16.lt_iff_toNat_lt, UInt8.toNat_toUInt16]
      simp only [UInt16.reduceToNat]
      omega
    rw [List.map_cons, uint8Values, if_neg hrange, ih, ok_bind, UInt8.toUInt8_toUInt16]

theorem roundTrips_uint8Slice (hsonic : sonic.FollowsRfc8259) :
    RoundTrips appendUint8Array (fun _ => uint8SliceUnmarshalJSON sonic) := by
  have hslice := (roundTrips_uint16 hsonic).slice hsonic 0
  have htext (values : List UInt8) : appendUint8Array values
      = compactArray ((values.map UInt8.toUInt16).map fun v => decimal v.toNat) := by
    rw [appendUint8Array_eq, List.map_map]
    rfl
  refine ⟨fun values => ?_, fun _ values => ?_⟩
  · rw [htext]
    exact hslice.valid _
  · unfold uint8SliceUnmarshalJSON
    rw [htext, hslice.decode_write, ok_bind]
    exact uint8Values_map values 0

theorem plain_of_alphabet {text : Bytes} (h : ∀ c ∈ text, c ∈ Base58.alphabet) : Plain text := by
  have hall : Plain Base58.alphabet := by decide
  exact fun c hc => hall c (h c hc)

/-- Plain text in quotes is unquoted in place. -/
theorem jsonUnquote_quoted {text : Bytes} (h : Plain text) :
    jsonUnquote sonic (quoted text) = .ok text := by
  have hraw : (quoted text).tail.dropLast = text := List.dropLast_concat
  have hclean : text.all (fun c => !(c == backslash || c == quote || c < 0x20)) = true := by
    rw [List.all_eq_true]
    intro c hc
    obtain ⟨⟨⟨hlow, -⟩, hquote⟩, hback⟩ := isPlain_iff.mp (h c hc)
    have hlow' : ¬ c < 0x20 := by simpa using hlow
    simp [hquote, hback, hlow']
  unfold jsonUnquote
  dsimp only
  rw [hraw, if_pos]
  refine ⟨?_, rfl, ?_, hclean⟩
  · simp [quoted]
  · unfold quoted
    rw [← List.cons_append, List.getLast?_concat]

/-- From the decoder of a string to that of its JSON. -/
theorem RoundTrips.quoted {α : Type} {encode : α → Bytes} {decode : Bytes → Except Err α}
    (hplain : ∀ a, Plain (encode a)) (hdecode : ∀ a, decode (encode a) = .ok a) :
    RoundTrips (fun a => quoted (encode a)) fun _ data => jsonUnquote sonic data >>= decode := by
  refine ⟨fun a => ValidText.string (hplain a), fun _ a => ?_⟩
  rw [jsonUnquote_quoted (hplain a), ok_bind, hdecode]

theorem publicKeyFromBase58_encode (hb58 : b58.Invertible) (p : PublicKey) :
    publicKeyFromBase58 b58 (b58.encode32 p) = .ok p := by
  have hlen := hb58.length32 p
  unfold publicKeyFromBase58
  rw [if_neg (by omega), hb58.decode32_encode32]

variable (sonic fmtQ) in
theorem roundTrips_publicKey (hb58 : b58.Invertible) :
    RoundTrips (PublicKey.marshalJSON b58) fun _ => PublicKey.unmarshalJSON sonic b58 fmtQ := by
  refine RoundTrips.quoted (fun p => plain_of_alphabet (hb58.alphabet32 p)) fun p => ?_
  rw [publicKeyFromBase58_encode hb58]
  rfl

variable (sonic fmtQ) in
theorem roundTrips_hash (hb58 : b58.Invertible) :
    RoundTrips (PublicKey.marshalJSON b58) fun _ => Hash.unmarshalJSON sonic b58 fmtQ := by
  refine RoundTrips.quoted (fun h => plain_of_alphabet (hb58.alphabet32 h)) fun h => ?_
  rw [publicKeyFromBase58_encode hb58]
  rfl

variable (sonic fmtQ) in
theorem roundTrips_signature (hb58 : b58.Invertible) :
    RoundTrips (Signature.marshalJSON b58) fun _ => Signature.unmarshalJSON sonic b58 fmtQ := by
  refine RoundTrips.quoted (fun s => plain_of_alphabet (hb58.alphabet64 s)) fun s => ?_
  unfold signatureFromBase58
  rw [hb58.decode64_encode64]
  rfl

/-- Only the empty data has the empty text, which is not handed to the decoder. -/
theorem roundTrips_data (hb58 : b58.Invertible) :
    RoundTrips (fun data => quoted (b58.encode data)) fun _ => base58UnmarshalJSON sonic b58 := by
  refine RoundTrips.quoted (fun bs => plain_of_alphabet (hb58.alphabet bs)) fun bs => ?_
  by_cases hnil : b58.encode bs = []
  · have hdecode := hb58.decode_encode bs
    rw [hnil, ← hb58.encode_nil, hb58.decode_encode] at hdecode
    rw [if_pos hnil]
    exact hdecode
  · rw [if_neg hnil]
    exact hb58.decode_encode bs

end Scalars

/-! ## Structs -/

section Structs

variable {sonic : SonicUnmarshal} {b58 : Base58Package} {fmtQ : Bytes → String}

theorem roundTrips_header (hsonic : sonic.FollowsRfc8259) :
    RoundTrips (fun h => compactObject h.jsonMembers)
      (sonic.intoStruct (MessageHeader.jsonFields sonic)) := by
  have huint8 := roundTrips_uint8 hsonic
  refine RoundTrips.struct hsonic fun old h => ?_
  refine huint8.assigns (by decide) rfl ?_
  refine huint8.assigns (by decide) rfl ?_
  refine huint8.assigns (by decide) rfl ?_
  exact .nil _

theorem roundTrips_instruction (hsonic : sonic.FollowsRfc8259) (hb58 : b58.Invertible) :
    RoundTrips (CompiledInstruction.appendJSON b58)
      (sonic.intoStruct (CompiledInstruction.jsonFields sonic b58)) := by
  have huint16 := roundTrips_uint16 hsonic
  rw [funext (CompiledInstruction.appendJSON_eq b58)]
  refine RoundTrips.struct hsonic fun old ins => ?_
  refine huint16.assigns (by decide) rfl ?_
  refine (huint16.slice hsonic 0).assigns (by decide) rfl ?_
  refine (roundTrips_data hb58).assignsNew (by decide) rfl ?_
  exact .nil _

variable (fmtQ) in
theorem roundTrips_lookup (hsonic : sonic.FollowsRfc8259) (hb58 : b58.Invertible) :
    RoundTrips (MessageAddressTableLookup.appendJSON b58)
      (sonic.intoStruct (MessageAddressTableLookup.jsonFields sonic b58 fmtQ)) := by
  have hindexes := roundTrips_uint8Slice hsonic
  rw [funext (MessageAddressTableLookup.appendJSON_eq b58)]
  refine RoundTrips.struct hsonic fun old lookup => ?_
  refine (roundTrips_publicKey sonic fmtQ hb58).assignsNew (by decide) rfl ?_
  refine hindexes.assignsNew (by decide) rfl ?_
  refine hindexes.assignsNew (by decide) rfl ?_
  exact .nil _

variable (fmtQ) in
/-- The members every message has, into `aux`. -/
theorem assigns_aux (hsonic : sonic.FollowsRfc8259) (hb58 : b58.Invertible) (mx : Message)
    {members : List (Bytes × Bytes)} {aux : MessageAux}
    (hrest : Assigns (MessageAux.jsonFields sonic b58 fmtQ) members
      ⟨mx.accountKeys, mx.header, mx.recentBlockhash, mx.instructions, none⟩ aux) :
    Assigns (MessageAux.jsonFields sonic b58 fmtQ) (mx.jsonMembers b58 ++ members) {} aux := by
  have hkeys := (roundTrips_publicKey sonic fmtQ hb58).slice hsonic (ByteArr.zero 32)
  have hinstructions := (roundTrips_instruction hsonic hb58).slice hsonic ⟨0, [], []⟩
  refine hkeys.assigns (by decide) rfl ?_
  refine (roundTrips_header hsonic).assigns (by decide) rfl ?_
  refine (roundTrips_hash sonic fmtQ hb58).assignsNew (by decide) rfl ?_
  refine hinstructions.assigns (by decide) rfl ?_
  exact hrest

/-- The text of the lookups starts with a bracket, so it is not `null`. -/
theorem compactArray_ne_null (texts : List Bytes) : compactArray texts ≠ nullText := by
  unfold compactArray nullText
  intro h
  exact absurd (List.cons.inj h).1 (by decide)

variable (sonic fmtQ) in
/-- The lookups are kept as they are. -/
theorem assigns_lookups {mx : Message} (h : ValidText (mx.lookupsMember b58).2)
    (aux : MessageAux) :
    Assigns (MessageAux.jsonFields sonic b58 fmtQ) [mx.lookupsMember b58] aux
      { aux with addressTableLookups := some (mx.lookupsMember b58).2 } := by
  have hname : Plain (ascii "addressTableLookups") := by decide
  refine .cons hname h rfl ?_ (.nil _)
  rw [if_neg (compactArray_ne_null _)]
  rfl

variable (fmtQ) in
/-- **The message.** A legacy message comes back only without lookups, which are not written. -/
theorem Message.unmarshalJSON_marshalJSON (hsonic : sonic.FollowsRfc8259)
    (hb58 : b58.Invertible) (receiver : Message) {mx : Message}
    (hlegacy : mx.version = .legacy → mx.addressTableLookups = []) :
    ∃ text, mx.marshalJSON b58 = .ok text ∧ ValidText text
      ∧ receiver.unmarshalJSON sonic b58 fmtQ text = .ok mx := by
  cases hversion : mx.version with
  | legacy =>
    have hassigns := assigns_aux fmtQ hsonic hb58 mx (.nil _)
    rw [List.append_nil] at hassigns
    refine ⟨_, Message.marshalJSON_legacy b58 hversion, ValidText.object hassigns.valid, ?_⟩
    unfold Message.unmarshalJSON
    rw [hassigns.intoStruct hsonic, ok_bind]
    dsimp only
    rw [← hversion, ← hlegacy hversion]
  | v0 =>
    have hlookups := (roundTrips_lookup fmtQ hsonic hb58).slice hsonic
      ⟨ByteArr.zero 32, [], []⟩
    have hassigns := assigns_aux fmtQ hsonic hb58 mx
      (assigns_lookups sonic fmtQ (hlookups.valid mx.addressTableLookups) _)
    refine ⟨_, Message.marshalJSON_v0 b58 hversion, ValidText.object hassigns.valid, ?_⟩
    unfold Message.unmarshalJSON
    rw [hassigns.intoStruct hsonic, ok_bind]
    dsimp only
    rw [Message.lookupsMember, hlookups.decode_write, ok_bind, ← hversion]

end Structs

/-! ## The transaction -/

section RoundTrip

variable {sonic : SonicUnmarshal} {b58 : Base58Package}

/-- **The JSON form of a transaction is valid and gives it back**, version and all, into any
receiver, so that the binary form of what was read is that of the transaction. -/
theorem transaction_json_round_trip (hsonic : sonic.FollowsRfc8259) (hb58 : b58.Invertible)
    (fmtQ : Bytes → String) (receiver tx : Transaction)
    (hlegacy : tx.message.version = .legacy → tx.message.addressTableLookups = []) :
    ∃ text tx', tx.marshalJSON b58 = .ok text ∧ ValidText text
      ∧ receiver.unmarshalJSON sonic b58 fmtQ text = .ok tx'
      ∧ tx' = tx ∧ tx'.message.version = tx.message.version
      ∧ tx'.marshalBinary = tx.marshalBinary := by
  obtain ⟨message, hmessage, hvalid, hread⟩ :=
    Message.unmarshalJSON_marshalJSON fmtQ hsonic hb58 receiver.message hlegacy
  have hsignatures := (roundTrips_signature sonic fmtQ hb58).slice hsonic (ByteArr.zero 64)
  have hname : Plain (ascii "message") := by decide
  have hassigns : Assigns (Transaction.jsonFields sonic b58 fmtQ)
      [ (ascii "signatures", compactArray (tx.signatures.map (Signature.marshalJSON b58))),
        (ascii "message", message) ] receiver tx := by
    refine hsignatures.assigns (by decide) rfl ?_
    refine .cons hname hvalid rfl ?_ (.nil _)
    rw [hread, ok_bind]
  exact ⟨_, tx, Transaction.marshalJSON_eq b58 hmessage, ValidText.object hassigns.valid,
    hassigns.intoStruct hsonic, rfl, rfl, rfl⟩

end RoundTrip

/-! ## Packages that do what is assumed -/

/-- The number of a decimal text. -/
def readDecimal (text : Bytes) : Option ℕ :=
  if isDigits text then some (Nat.ofDigits 10 (text.reverse.map fun c => c.toNat - 48)) else none

theorem readDecimal_decimal (n : ℕ) : readDecimal (decimal n) = some n := by
  by_cases hn : n = 0
  · rw [hn]
    rfl
  · have hdigits : isDigits (decimal n) = true := by
      obtain ⟨c, cs, hcs, -⟩ := decimal_head hn
      unfold isDigits
      rw [List.all_eq_true.mpr (decimal_digits n), hcs]
      rfl
    have hvalues : (decimal n).reverse.map (fun c => c.toNat - 48) = Nat.digits 10 n := by
      unfold decimal
      rw [if_neg hn, ← List.map_reverse, List.reverse_reverse, List.map_map]
      refine (List.map_congr_left fun d hd => ?_).trans (List.map_id _)
      have hlt : d < 10 := Nat.digits_lt_base (by decide) hd
      have hall : ∀ d < 10, (UInt8.ofNat (48 + d)).toNat - 48 = d := by decide
      exact hall d hlt
    unfold readDecimal
    rw [if_pos hdigits, hvalues, Nat.ofDigits_digits]

/-- A decoder of JSON, with one error for everything. -/
def jsonDecoder : SonicUnmarshal where
  object text :=
    match objectTexts text with
    | some members => .ok (some members)
    | none => if text = nullText then .ok none else .error { msg := "object" }
  array text :=
    match arrayTexts text with
    | some texts => .ok (some texts)
    | none => if text = nullText then .ok none else .error { msg := "array" }
  uint bits text :=
    match readDecimal text with
    | some n => if n < 2 ^ bits then .ok (some n) else .error { msg := "range" }
    | none => if text = nullText then .ok none else .error { msg := "number" }
  string text := if text = nullText then .ok none else .error { msg := "escape" }
  field names name := if name ∈ names then some name else none

theorem jsonDecoder_followsRfc8259 : jsonDecoder.FollowsRfc8259 where
  object lead trail pad members _ _ := by
    show (match objectTexts _ with
      | some members => _
      | none => _) = _
    rw [objectTexts_render]
  array lead trail pad elems _ := by
    show (match arrayTexts _ with
      | some texts => _
      | none => _) = _
    rw [arrayTexts_render]
  uint bits n hn := by
    show (match readDecimal _ with
      | some n => _
      | none => _) = _
    rw [readDecimal_decimal]
    exact if_pos hn
  field names name h := if_pos h

theorem decodeFixed_encode {n : ℕ} (a : ByteArr n) :
    decodeFixed n (Base58.encode a.toList) = .ok a := by
  unfold decodeFixed
  rw [Base58.decode_encode]
  dsimp only
  rw [if_pos a.length_toList, ByteArr.copyFrom_toList]

theorem base58_invertible : base58.Invertible where
  decode_encode bs := by
    simp only [base58, Base58.decode_encode]
  decode32_encode32 := decodeFixed_encode
  decode64_encode64 := decodeFixed_encode
  encode_nil := Base58.encode_nil
  alphabet bs := Base58.encode_mem bs
  alphabet32 p := Base58.encode_mem p.toList
  alphabet64 s := Base58.encode_mem s.toList
  length32 p := Base58.length_encode_32 p.length_toList

/-- A v0 transaction without lookups, and with an instruction without data. -/
def sampleV0 : Transaction where
  signatures := [ByteArr.zero 64]
  message := {
    version := .v0
    accountKeys := [ByteArr.zero 32]
    header := { numRequiredSignatures := 1 }
    instructions := [⟨0, [0], []⟩] }

/-- It is a v0 transaction again, also in a receiver that held something else. -/
theorem transaction_json_round_trip_v0 :
    ∃ text tx', sampleV0.marshalJSON base58 = .ok text ∧ ValidText text
      ∧ ({ signatures := [ByteArr.zero 64, ByteArr.zero 64] } : Transaction).unmarshalJSON
        jsonDecoder base58 (fun _ => "") text = .ok tx'
      ∧ tx' = sampleV0 ∧ tx'.message.version = sampleV0.message.version
      ∧ tx'.marshalBinary = sampleV0.marshalBinary :=
  transaction_json_round_trip jsonDecoder_followsRfc8259 base58_invertible (fun _ => "") _ sampleV0
    (fun h => nomatch h)

end SolanaGo
