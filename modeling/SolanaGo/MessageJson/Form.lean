/-
The JSON form of a transaction: `MarshalJSON` and `UnmarshalJSON` of `message.go` and
`transaction.go`, and of the types of the fields in `public_key.go`, `hash.go`,
`signature.go`, `data.go` and `json.go`.

The text is written by hand, one literal after the other, and read by `sonic`, which decodes
by the types of the fields and calls `UnmarshalJSON` where a type has one. `SonicUnmarshal`
is what `sonic` does with one text: the parts of an object or an array, a number, a string.
`intoStruct` and `intoSlice` are how it fills a struct and a slice with them. A decoder takes
the value it overwrites, since a member that is missing or `null` leaves a field as it was.

The version of a message has no text of its own: the key `addressTableLookups` is written
for a v0 message and for no other, and read back as its version.

Strings are byte strings, as in Go. What a receiver holds after an error is not modelled.
-/
import SolanaGo.Lib.Base58
import SolanaGo.Lib.JsonGrammar
import SolanaGo.Transaction

set_option autoImplicit false

namespace SolanaGo

open Codec
open Json (quote backslash openBracket closeBracket closeBrace decimal commaSeparated nullText)

/-- The bytes of an ASCII literal. -/
def ascii (text : String) : Bytes := text.toList.map fun c => UInt8.ofNat c.toNat

/-! ## The packages the form is written with -/

/-- `base58`, on the strings of JSON. -/
structure Base58Package where
  /-- `AppendEncode` -/
  encode : Bytes → Bytes
  /-- `AppendEncode32` -/
  encode32 : PublicKey → Bytes
  /-- `AppendEncode64` -/
  encode64 : Signature → Bytes
  /-- `Decode` -/
  decode : Bytes → Except Err Bytes
  /-- `Decode32` -/
  decode32 : Bytes → Except Err PublicKey
  /-- `Decode64` -/
  decode64 : Bytes → Except Err Signature

/-- The bytes of a text, if there are `n` of them. -/
def decodeFixed (n : ℕ) (text : Bytes) : Except Err (ByteArr n) :=
  match Base58.decode text with
  | none => .error { msg := "base58" }
  | some bs => if bs.length = n then .ok (ByteArr.copyFrom n bs) else .error { msg := "length" }

/-- Base58 as `Lib/Base58` has it. -/
def base58 : Base58Package where
  encode := Base58.encode
  encode32 p := Base58.encode p.toList
  encode64 s := Base58.encode s.toList
  decode text :=
    match Base58.decode text with
    | none => .error { msg := "base58" }
    | some bs => .ok bs
  decode32 := decodeFixed 32
  decode64 := decodeFixed 64

/-- `sonic.Unmarshal`, on one text. The result is `none` if the text is `null`. -/
structure SonicUnmarshal where
  /-- the keys of an object, with the texts of their values -/
  object : Bytes → Except Err (Option (List (Bytes × Bytes)))
  /-- the texts of the elements of an array -/
  array : Bytes → Except Err (Option (List Bytes))
  /-- a number that fits so many bits -/
  uint : ℕ → Bytes → Except Err (Option ℕ)
  /-- a string -/
  string : Bytes → Except Err (Option Bytes)
  /-- which of a struct's fields, given by their names, a key is for -/
  field : List Bytes → Bytes → Option Bytes

/-- `const base58.EncodedMaxLen32`. -/
def encodedMaxLen32 : ℕ := 44

/-- How `sonic` decodes one field of a struct: its name, and the decoder of its type. -/
abbrev JsonField (σ : Type) := Bytes × (σ → Bytes → Except Err σ)

namespace SonicUnmarshal

variable (sonic : SonicUnmarshal)

/-- One member of an object: into the field it is for, if there is one. -/
def setField {σ : Type} (fields : List (JsonField σ)) (s : σ) (m : Bytes × Bytes) :
    Except Err σ :=
  match (sonic.field (fields.map Prod.fst) m.1).bind fun name => fields.lookup name with
  | none => .ok s
  | some decode => decode s m.2

/-- An object into a struct. -/
def intoStruct {σ : Type} (fields : List (JsonField σ)) (s : σ) (data : Bytes) : Except Err σ := do
  match ← sonic.object data with
  | none => .ok s
  | some members => members.foldlM (sonic.setField fields) s

/-- The elements of a slice, over those it had. -/
def decodeEach {α : Type} (zero : α) (decode : α → Bytes → Except Err α) :
    List α → List Bytes → Except Err (List α)
  | _, [] => .ok []
  | old, text :: texts => do
    let a ← decode (old.headD zero) text
    let as ← decodeEach zero decode old.tail texts
    .ok (a :: as)

/-- An array into a slice. -/
def intoSlice {α : Type} (zero : α) (decode : α → Bytes → Except Err α) (old : List α)
    (data : Bytes) : Except Err (List α) := do
  match ← sonic.array data with
  | none => .ok []
  | some texts => decodeEach zero decode old texts

/-- A number into a `uint8`. -/
def intoUint8 (old : UInt8) (data : Bytes) : Except Err UInt8 := do
  match ← sonic.uint 8 data with
  | none => .ok old
  | some n => .ok (UInt8.ofNat n)

/-- A number into a `uint16`. -/
def intoUint16 (old : UInt16) (data : Bytes) : Except Err UInt16 := do
  match ← sonic.uint 16 data with
  | none => .ok old
  | some n => .ok (UInt16.ofNat n)

end SonicUnmarshal

/-! ## Writing -/

section Marshal

variable (b58 : Base58Package)

/-- `PublicKey.MarshalJSON`. -/
def PublicKey.marshalJSON (p : PublicKey) : Bytes := quote :: (b58.encode32 p ++ [quote])

/-- `Signature.MarshalJSON`. -/
def Signature.marshalJSON (s : Signature) : Bytes := quote :: (b58.encode64 s ++ [quote])

/-- `appendUint8Array`. -/
def appendUint8Array (values : List UInt8) : Bytes :=
  openBracket :: (commaSeparated (values.map fun v => decimal v.toNat) ++ [closeBracket])

/-- One instruction inside `Message.MarshalJSON`. -/
def CompiledInstruction.appendJSON (ins : CompiledInstruction) : Bytes :=
  ascii "\x7b\"programIdIndex\":" ++ (decimal ins.programIDIndex.toNat
    ++ (ascii ",\"accounts\":[" ++ (commaSeparated (ins.accounts.map fun a => decimal a.toNat)
    ++ (ascii "],\"data\":\"" ++ (b58.encode ins.data ++ ascii "\"\x7d")))))

/-- One lookup inside `Message.MarshalJSON`. -/
def MessageAddressTableLookup.appendJSON (lookup : MessageAddressTableLookup) : Bytes :=
  ascii "\x7b\"accountKey\":\"" ++ (b58.encode32 lookup.accountKey
    ++ (ascii "\",\"writableIndexes\":" ++ (appendUint8Array lookup.writableIndexes
    ++ (ascii ",\"readonlyIndexes\":" ++ (appendUint8Array lookup.readonlyIndexes
    ++ [closeBrace])))))

/-- `Message.MarshalJSON`. Only a versioned message has the last key. -/
def Message.marshalJSON (mx : Message) : Except Err Bytes :=
  let lookups := if mx.version ≠ .legacy then
    ascii ",\"addressTableLookups\":[" ++ (commaSeparated
      (mx.addressTableLookups.map (MessageAddressTableLookup.appendJSON b58)) ++ [closeBracket])
    else []
  .ok (ascii "\x7b\"accountKeys\":["
    ++ (commaSeparated (mx.accountKeys.map (PublicKey.marshalJSON b58))
    ++ (ascii "],\"header\":\x7b\"numRequiredSignatures\":"
    ++ (decimal mx.header.numRequiredSignatures.toNat
    ++ (ascii ",\"numReadonlySignedAccounts\":"
    ++ (decimal mx.header.numReadonlySignedAccounts.toNat
    ++ (ascii ",\"numReadonlyUnsignedAccounts\":"
    ++ (decimal mx.header.numReadonlyUnsignedAccounts.toNat
    ++ (ascii "\x7d,\"recentBlockhash\":\"" ++ (b58.encode32 mx.recentBlockhash
    ++ (ascii "\",\"instructions\":["
    ++ (commaSeparated (mx.instructions.map (CompiledInstruction.appendJSON b58))
    ++ (closeBracket :: (lookups ++ [closeBrace]))))))))))))))

/-- `Transaction.MarshalJSON`. -/
def Transaction.marshalJSON (tx : Transaction) : Except Err Bytes := do
  let message ← tx.message.marshalJSON b58
  .ok (ascii "\x7b\"signatures\":["
    ++ (commaSeparated (tx.signatures.map (Signature.marshalJSON b58))
    ++ (ascii "],\"message\":" ++ (message ++ [closeBrace]))))

end Marshal

/-! ## Reading -/

section Unmarshal

-- `fmtQ` is the `%q` verb of `fmt`.
variable (sonic : SonicUnmarshal) (b58 : Base58Package) (fmtQ : Bytes → String)

/-- `jsonUnquote`: in place if there is nothing to unescape. -/
def jsonUnquote (data : Bytes) : Except Err Bytes :=
  let raw := data.tail.dropLast
  if 2 ≤ data.length ∧ data.head? = some quote ∧ data.getLast? = some quote
      ∧ raw.all (fun c => !(c == backslash || c == quote || c < 0x20)) = true then .ok raw
  else do
    let s ← sonic.string data
    .ok (s.getD [])

/-- `PublicKeyFromBase58`. -/
def publicKeyFromBase58 (text : Bytes) : Except Err PublicKey :=
  if text.length < publicKeyLength ∨ encodedMaxLen32 < text.length then
    .error { msg := "invalid encoded length, expected " ++ toString publicKeyLength ++ " to "
      ++ toString encodedMaxLen32 ++ ", got " ++ toString text.length }
  else
    match b58.decode32 text with
    | .ok decoded => .ok decoded
    | .error err =>
      match b58.decode text with
      | .error decErr => .error (decErr.wrap "decode: ")
      | .ok val =>
        if val.length ≠ publicKeyLength then
          .error { msg := "invalid length, expected " ++ toString publicKeyLength ++ ", got "
            ++ toString val.length }
        else .error (err.wrap "decode: ")

/-- `SignatureFromBase58`. -/
def signatureFromBase58 (text : Bytes) : Except Err Signature :=
  wrapErr "decode: " (b58.decode64 text)

/-- `PublicKey.UnmarshalJSON`. -/
def PublicKey.unmarshalJSON (data : Bytes) : Except Err PublicKey := do
  let s ← jsonUnquote sonic data
  wrapErr ("invalid public key " ++ fmtQ s ++ ": ") (publicKeyFromBase58 b58 s)

/-- `Hash.UnmarshalJSON`. -/
def Hash.unmarshalJSON (data : Bytes) : Except Err Hash := do
  let s ← jsonUnquote sonic data
  wrapErr ("invalid hash " ++ fmtQ s ++ ": ") (publicKeyFromBase58 b58 s)

/-- `Signature.UnmarshalJSON`. -/
def Signature.unmarshalJSON (data : Bytes) : Except Err Signature := do
  let str ← jsonUnquote sonic data
  wrapErr ("invalid signature " ++ fmtQ str ++ ": ") (signatureFromBase58 b58 str)

/-- `Base58.UnmarshalJSON`. -/
def base58UnmarshalJSON (data : Bytes) : Except Err Bytes := do
  let s ← jsonUnquote sonic data
  if s = [] then .ok [] else b58.decode s

/-- The loop of `Uint8SliceAsNum.UnmarshalJSON`, from index `i` on. -/
def uint8Values (i : ℕ) : List UInt16 → Except Err (List UInt8)
  | [] => .ok []
  | v :: values =>
    if 0xFF < v then
      .error { msg := "value " ++ toString v ++ " at index " ++ toString i
        ++ " exceeds uint8 range" }
    else do
      let out ← uint8Values (i + 1) values
      .ok (v.toUInt8 :: out)

/-- `Uint8SliceAsNum.UnmarshalJSON`. -/
def uint8SliceUnmarshalJSON (data : Bytes) : Except Err (List UInt8) := do
  let values ← sonic.intoSlice 0 sonic.intoUint16 [] data
  uint8Values 0 values

/-- The tags of `MessageHeader`. -/
def MessageHeader.jsonFields : List (JsonField MessageHeader) :=
  [ (ascii "numRequiredSignatures", fun h data => do
      let n ← sonic.intoUint8 h.numRequiredSignatures data
      .ok { h with numRequiredSignatures := n }),
    (ascii "numReadonlySignedAccounts", fun h data => do
      let n ← sonic.intoUint8 h.numReadonlySignedAccounts data
      .ok { h with numReadonlySignedAccounts := n }),
    (ascii "numReadonlyUnsignedAccounts", fun h data => do
      let n ← sonic.intoUint8 h.numReadonlyUnsignedAccounts data
      .ok { h with numReadonlyUnsignedAccounts := n }) ]

/-- The tags of `CompiledInstruction`. -/
def CompiledInstruction.jsonFields : List (JsonField CompiledInstruction) :=
  [ (ascii "programIdIndex", fun ins data => do
      let programIDIndex ← sonic.intoUint16 ins.programIDIndex data
      .ok { ins with programIDIndex }),
    (ascii "accounts", fun ins data => do
      let accounts ← sonic.intoSlice 0 sonic.intoUint16 ins.accounts data
      .ok { ins with accounts }),
    (ascii "data", fun ins data => do
      let data ← base58UnmarshalJSON sonic b58 data
      .ok { ins with data }) ]

/-- The tags of `MessageAddressTableLookup`. -/
def MessageAddressTableLookup.jsonFields : List (JsonField MessageAddressTableLookup) :=
  [ (ascii "accountKey", fun lookup data => do
      let accountKey ← PublicKey.unmarshalJSON sonic b58 fmtQ data
      .ok { lookup with accountKey }),
    (ascii "writableIndexes", fun lookup data => do
      let writableIndexes ← uint8SliceUnmarshalJSON sonic data
      .ok { lookup with writableIndexes }),
    (ascii "readonlyIndexes", fun lookup data => do
      let readonlyIndexes ← uint8SliceUnmarshalJSON sonic data
      .ok { lookup with readonlyIndexes }) ]

/-- The struct `aux` of `Message.UnmarshalJSON`. The last field is a pointer to the raw text. -/
structure MessageAux where
  accountKeys : List PublicKey := []
  header : MessageHeader := {}
  recentBlockhash : Hash := ByteArr.zero 32
  instructions : List CompiledInstruction := []
  addressTableLookups : Option Bytes := none

/-- The tags of `aux`. A `null` sets the pointer to nil. -/
def MessageAux.jsonFields : List (JsonField MessageAux) :=
  [ (ascii "accountKeys", fun aux data => do
      let accountKeys ← sonic.intoSlice (ByteArr.zero 32)
        (fun _ => PublicKey.unmarshalJSON sonic b58 fmtQ) aux.accountKeys data
      .ok { aux with accountKeys }),
    (ascii "header", fun aux data => do
      let header ← sonic.intoStruct (MessageHeader.jsonFields sonic) aux.header data
      .ok { aux with header }),
    (ascii "recentBlockhash", fun aux data => do
      let recentBlockhash ← Hash.unmarshalJSON sonic b58 fmtQ data
      .ok { aux with recentBlockhash }),
    (ascii "instructions", fun aux data => do
      let instructions ← sonic.intoSlice ⟨0, [], []⟩
        (sonic.intoStruct (CompiledInstruction.jsonFields sonic b58)) aux.instructions data
      .ok { aux with instructions }),
    (ascii "addressTableLookups", fun aux data =>
      .ok { aux with addressTableLookups := if data = nullText then none else some data }) ]

/-- `Message.UnmarshalJSON`, into the receiver `mx`. -/
def Message.unmarshalJSON (mx : Message) (data : Bytes) : Except Err Message := do
  let aux ← sonic.intoStruct (MessageAux.jsonFields sonic b58 fmtQ) {} data
  let mx := { mx with
    accountKeys := aux.accountKeys
    header := aux.header
    recentBlockhash := aux.recentBlockhash
    instructions := aux.instructions }
  match aux.addressTableLookups with
  | none => .ok { mx with version := .legacy, addressTableLookups := [] }
  | some raw => do
    let addressTableLookups ← sonic.intoSlice ⟨ByteArr.zero 32, [], []⟩
      (sonic.intoStruct (MessageAddressTableLookup.jsonFields sonic b58 fmtQ))
      mx.addressTableLookups raw
    .ok { mx with version := .v0, addressTableLookups }

/-- The tags of `Transaction`. -/
def Transaction.jsonFields : List (JsonField Transaction) :=
  [ (ascii "signatures", fun tx data => do
      let signatures ← sonic.intoSlice (ByteArr.zero 64)
        (fun _ => Signature.unmarshalJSON sonic b58 fmtQ) tx.signatures data
      .ok { tx with signatures }),
    (ascii "message", fun tx data => do
      let message ← tx.message.unmarshalJSON sonic b58 fmtQ data
      .ok { tx with message }) ]

/-- `Transaction.UnmarshalJSON`, into the receiver `tx`. -/
def Transaction.unmarshalJSON (tx : Transaction) (data : Bytes) : Except Err Transaction :=
  sonic.intoStruct (Transaction.jsonFields sonic b58 fmtQ) tx data

end Unmarshal

end SolanaGo
