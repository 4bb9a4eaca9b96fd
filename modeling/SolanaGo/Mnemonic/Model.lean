/-
`mnemonic.go`: wallets from mnemonics.

A mnemonic is a string. `IsMnemonicValid` looks at its words: it packs their 11-bit indexes
into a buffer and compares the last bits with a hash of the rest. `MnemonicToSeed` looks at
the string itself, which is what PBKDF2 hashes. From the seed a key is derived along a path
of hardened indexes, with HMAC-SHA512 at each step.

Parameters are the embedded word list, SHA-256, PBKDF2, HMAC-SHA512 and the key pair of a
seed.
-/
import SolanaGo.Lib.Bits
import SolanaGo.Lib.GoStrings
import SolanaGo.Lib.Keyed
import SolanaGo.Shortvec

set_option autoImplicit false

namespace SolanaGo.Mnemonic

open Codec (Bytes ByteArr)
open GoStrings Keyed Bits

/-! ## The word list -/

/-- The words of the embedded file. -/
def bip39Words (bip39EnglishRaw : Bytes) : List Bytes := (lines bip39EnglishRaw).map trimNewline

/-- The loop of `bip39WordIndex`. -/
def indexWords (index : Map Bytes UInt16) (i : UInt16) : List Bytes → Map Bytes UInt16
  | [] => index
  | word :: words => indexWords (index.set word i) (i + 1) words

/-- `bip39WordIndex`. -/
def bip39WordIndex (bip39EnglishRaw : Bytes) : Map Bytes UInt16 :=
  indexWords Map.empty 0 (bip39Words bip39EnglishRaw)

/-! ## Validation -/

/-- One bit of the index of word `i`, the highest first. -/
def packBit (idx : UInt16) (i : ℕ) (buf : Bytes) (b : ℕ) : Bytes :=
  if idx &&& (1 : UInt16) <<< UInt16.ofNat (10 - b) ≠ 0 then setBit buf (i * 11 + b) else buf

/-- The loop over the bits of an index. -/
def packWord (idx : UInt16) (i : ℕ) (buf : Bytes) : Bytes :=
  (List.range 11).foldl (packBit idx i) buf

/-- The loop over the words, from word `i` on; `none` at a word that is not in the list. -/
def packWords (index : Map Bytes UInt16) (i : ℕ) (words : List Bytes) (buf : Bytes) :
    Option Bytes :=
  match words with
  | [] => some buf
  | word :: words =>
    match index word with
    | none => none
    | some idx => packWords index (i + 1) words (packWord idx i buf)

/-- `IsMnemonicValid`. -/
def isMnemonicValid (index : Map Bytes UInt16) (sha256 : Bytes → ByteArr 32) (mnemonic : Bytes) :
    Bool :=
  let words := fields mnemonic
  if words.length ∈ [12, 15, 18, 21, 24] then
    let totalBits := words.length * 11
    let checksumBits := totalBits / 33
    let entropyBits := totalBits - checksumBits
    match packWords index 0 words (List.replicate ((totalBits + 7) / 8) 0) with
    | none => false
    | some buf =>
      let hash := sha256 (buf.take (entropyBits / 8))
      (List.range checksumBits).all fun b =>
        readBit buf (entropyBits + b) == readBit hash.toList b
  else false

/-! ## Derivation -/

/-- What the derivation takes from other packages. -/
structure Primitives where
  /-- `sha256.Sum256` -/
  sha256 : Bytes → ByteArr 32
  /-- `pbkdf2.Key(sha512.New, password, salt, 2048, 64)` -/
  pbkdf2 : Bytes → Bytes → ByteArr 64
  /-- `hmac.New(sha512.New, key)`, all that is written to it, and `Sum` -/
  hmacSha512 : Bytes → Bytes → ByteArr 64
  /-- `ed25519.NewKeyFromSeed` -/
  newKeyFromSeed : Bytes → ByteArr 64

/-- `slip10HardenedOffset`. -/
def slip10HardenedOffset : ℕ := 0x80000000

/-- The error of `strconv.ParseUint` behind a path. -/
def numErrorText : NumError → String
  | .invalidSyntax => "invalid derivation path %q: strconv.ParseUint: parsing %q: invalid syntax"
  | .valueOutOfRange =>
    "invalid derivation path %q: strconv.ParseUint: parsing %q: value out of range"

/-- One segment of a path. The texts of the errors are formats, for the path. -/
def parseSegment (seg : Bytes) : Except Err ℕ :=
  let seg := trimSpace seg
  match seg.getLast? with
  | none => .error { msg := "invalid derivation path %q: empty segment" }
  | some last =>
    if last = 39 ∨ last = 104 ∨ last = 72 then
      match parseUint32 seg.dropLast with
      | .error err => .error { msg := numErrorText err }
      | .ok n =>
        if slip10HardenedOffset ≤ n then
          .error { msg := "invalid derivation path %q: index " ++ toString n ++ " out of range" }
        else .ok (n + slip10HardenedOffset)
    else
      .error { msg := "invalid derivation path %q: SLIP-0010 ed25519 requires hardened segments "
        ++ "(suffix ' or h)" }

/-- The loop of `parseDerivationPath`. -/
def parseSegments : List Bytes → Except Err (List ℕ)
  | [] => .ok []
  | seg :: segments => do
    let index ← parseSegment seg
    let indices ← parseSegments segments
    .ok (index :: indices)

/-- `parseDerivationPath`. -/
def parseDerivationPath (path : Bytes) : Except Err (List ℕ) :=
  let trimmed := trimSpace path
  if trimmed = [] ∨ trimmed = [109] ∨ trimmed = [47] then .ok []
  else parseSegments ((trimByte 47 (trimByte 109 trimmed)).splitOn 47)

/-- A key and its chain code. -/
def splitSum (sum : ByteArr 64) : Bytes × Bytes := (sum.toList.take 32, sum.toList.drop 32)

section Derivation

variable (prims : Primitives)

/-- `slip10MasterKey`. -/
def slip10MasterKey (seed : Bytes) : Except Err (Bytes × Bytes) :=
  if seed.length < 16 ∨ 64 < seed.length then
    .error { msg := "invalid seed length " ++ toString seed.length ++ " (want 16..64 bytes)" }
  else .ok (splitSum (prims.hmacSha512 "ed25519 seed".toUTF8.data.toList seed))

/-- `slip10ChildKey`. The index is written with its highest byte first. -/
def slip10ChildKey (parent : Bytes × Bytes) (index : ℕ) : Bytes × Bytes :=
  splitSum (prims.hmacSha512 parent.2 (0 :: (parent.1 ++ (Codec.leBytes 4 index).reverse)))

/-- `PrivateKeyFromSeedAtPath`. -/
def privateKeyFromSeedAtPath (seed path : Bytes) : Except Err (ByteArr 64) := do
  let indices ← parseDerivationPath path
  let master ← slip10MasterKey prims seed
  let (key, _) := indices.foldl (slip10ChildKey prims) master
  .ok (prims.newKeyFromSeed key)

/-- `MnemonicToSeed`. -/
def mnemonicToSeed (mnemonic passphrase : Bytes) : Bytes :=
  (prims.pbkdf2 mnemonic ("mnemonic".toUTF8.data.toList ++ passphrase)).toList

/-- `PrivateKeyFromMnemonicAtPath`. -/
def privateKeyFromMnemonicAtPath (index : Map Bytes UInt16) (mnemonic passphrase path : Bytes) :
    Except Err (ByteArr 64) :=
  if !isMnemonicValid index prims.sha256 mnemonic then .error { msg := "invalid mnemonic" }
  else privateKeyFromSeedAtPath prims (mnemonicToSeed prims mnemonic passphrase) path

end Derivation

end SolanaGo.Mnemonic
