/-
Decoding of Token-2022 mints: the base mint of the token program, then, from the
offset where a longer account has its type byte, a list of extensions.

The base part is decoded by the token program's `DecodeMint`, so it has that
function's aliasing: `decodeMint_reads_iff` says for both programs exactly when the
caller reads the mint the bytes lay out.
-/
import SolanaGo.Token.Accounts

set_option autoImplicit false

namespace SolanaGo.Token2022

open Codec hiding Decoder
open Bin Buffer Token

/-! ## Extensions -/

/-- `type Extension struct`, with `ExtensionType` a number. -/
structure Extension where
  type : UInt16
  data : Bytes
  deriving DecidableEq

/-- `ExtensionUninitialized`. -/
def extensionUninitialized : UInt16 := 0

/-- The loop of `decodeExtensions`. -/
def decodeExtensionsLoop (dec : Decoder) (extensions : List Extension) :
    Except Err (List Extension) :=
  if dec.remaining < 2 then .ok extensions
  else
    match _h1 : dec.readUint16 with
    | (typ, dec1) =>
      match dec1.errOf.1 with
      | some err => .error (err.wrap "decode token-2022 extension type: ")
      | none =>
        if typ = extensionUninitialized then .ok extensions
        else
          match _h2 : dec1.readUint16 with
          | (size, dec2) =>
            match _h3 : dec2.readBytes size.toNat with
            | (payload, dec3) =>
              match herr : dec3.errOf.1 with
              | some err =>
                .error (err.wrap ("decode token-2022 extension " ++ toString typ ++ ": "))
              | none => decodeExtensionsLoop dec3 (extensions ++ [{ type := typ, data := payload }])
  termination_by dec.remaining
  decreasing_by
    -- Errors are sticky, so none of the three reads failed.
    obtain ⟨herr2, hdata3, hpos3, _⟩ :=
      Decoder.readBytes_advances _h3 (Decoder.errOf_eq_none.mp herr)
    obtain ⟨herr1, hdata2, hpos2, _⟩ := Decoder.readFixed_advances _h2 herr2
    obtain ⟨_, hdata1, hpos1, hlen⟩ := Decoder.readFixed_advances _h1 herr1
    unfold Decoder.remaining
    rw [hdata3, hdata2, hdata1]
    omega

/-- `decodeExtensions`. -/
def decodeExtensions (data : Bytes) : Except Err (List Extension) :=
  decodeExtensionsLoop (newDecoder data) []

/-! ## Mints -/

/-- `type Mint struct`: the base mint is embedded. -/
structure Mint where
  base : Token.Mint := {}
  extensions : List Extension := []
  deriving DecidableEq

/-- `DecodeMint`. When the extensions do not decode, the base is returned with the
error. -/
def decodeMint (data : Bytes) (store : Store PublicKey) :
    (Mint × Option Err) × Store PublicKey :=
  if data.length ≠ mintSize ∧ data.length < accountSize + 1 then
    (({}, some { msg := errInvalidAccountSize ++ ": mint: " ++ toString data.length }), store)
  else
    match Token.decodeMint (data.take mintSize) store with
    | (.error err, store) => (({}, some err), store)
    | (.ok base, store) =>
      if data.length = mintSize then (({ base }, none), store)
      else
        match decodeExtensions (data.drop (accountSize + 1)) with
        | .error err => (({ base }, some err), store)
        | .ok extensions => (({ base, extensions }, none), store)

/-- An image of a Token-2022 mint: a base mint alone, or followed by enough bytes for
extensions to start where those of an account do. -/
structure MintImage (data : Bytes) : Prop where
  base : Token.MintImage (data.take mintSize)
  length : data.length = mintSize ∨ accountSize + 1 ≤ data.length

/-- On an image, the base part is what the token program's decoder returns for the
first 82 bytes, and only the extensions can fail. -/
theorem decodeMint_eq {data : Bytes} (h : MintImage data) (store : Store PublicKey) :
    ∃ extensions err, decodeMint data store
      = (({ base := decodedMint (data.take mintSize)
              (store.alloc (keyAt (data.take mintSize) 50)).1, extensions }, err),
        (store.alloc (keyAt (data.take mintSize) 50)).2)
      ∧ (err = none ↔ data.length = mintSize
        ∨ ∃ extensions, decodeExtensions (data.drop (accountSize + 1)) = .ok extensions) := by
  have hlen : ¬ (data.length ≠ mintSize ∧ data.length < accountSize + 1) := by
    rintro ⟨hne, hlt⟩
    rcases h.length with heq | hge
    · exact hne heq
    · omega
  unfold decodeMint
  rw [if_neg hlen, Token.decodeMint_eq h.base store]
  dsimp only
  by_cases hbase : data.length = mintSize
  · rw [if_pos hbase]
    exact ⟨[], none, rfl, by simp [hbase]⟩
  · rw [if_neg hbase]
    cases hext : decodeExtensions (data.drop (accountSize + 1)) with
    | error err => exact ⟨[], some err, rfl, by simp [hbase]⟩
    | ok extensions => exact ⟨extensions, none, rfl, by simp⟩

/-! ## Is it the mint that the bytes lay out? -/

/-- **`DecodeMint` of both token programs.** Every mint image decodes, and the mint
the caller reads after the call is the one laid out exactly when the image has no
mint authority, or the same 32 bytes in both authority fields. -/
theorem decodeMint_reads_iff (store : Store PublicKey) :
    (∀ data, Token.MintImage data → ∃ mint store',
      Token.decodeMint data store = (.ok mint, store')
      ∧ (mint.read store' = mintLayout data
        ↔ leValue (slice data 0 4) = 0 ∨ slice data 4 36 = slice data 50 82)) ∧
    (∀ data, MintImage data → ∃ mint err store',
      decodeMint data store = ((mint, err), store')
      ∧ (err = none ↔ data.length = mintSize
        ∨ ∃ extensions, decodeExtensions (data.drop (accountSize + 1)) = .ok extensions)
      ∧ (mint.base.read store' = mintLayout (data.take mintSize)
        ↔ leValue (slice data 0 4) = 0 ∨ slice data 4 36 = slice data 50 82)) := by
  refine ⟨?_, ?_⟩
  · intro data himage
    refine ⟨_, _, Token.decodeMint_eq himage store, ?_⟩
    rw [decodedMint_read, mintRead_eq_layout_iff himage]
  · intro data himage
    obtain ⟨extensions, err, hmint, herr⟩ := decodeMint_eq himage store
    refine ⟨_, _, _, hmint, herr, ?_⟩
    -- The layout of the base part lies within its 82 bytes.
    have hslice : ∀ lo hi, hi ≤ mintSize →
        slice (data.take mintSize) lo hi = slice data lo hi := by
      intro lo hi hle
      unfold slice
      rw [List.drop_take, List.take_take, Nat.min_eq_left (by omega)]
    rw [decodedMint_read, mintRead_eq_layout_iff himage.base, hslice 0 4 (by decide),
      hslice 4 36 (by decide), hslice 50 82 (by decide)]

/-- The image of a mint with the given authorities, a supply of 3 and 6 decimals. -/
def sampleMint (mintTag freezeTag mint freeze : UInt8) : Bytes :=
  [mintTag, 0, 0, 0] ++ (List.replicate 32 mint ++ ([3, 0, 0, 0, 0, 0, 0, 0, 6, 1]
    ++ ([freezeTag, 0, 0, 0] ++ List.replicate 32 freeze)))

/-- A mint with a mint authority of sevens and no freeze authority: its mint authority
is read as the zero key. -/
theorem decodeMint_reads_aliased :
    let data := sampleMint 1 0 7 0
    Token.MintImage data
      ∧ (Token.decodeMint data ⟨[]⟩).1.map (fun mint => (mint.read
          (Token.decodeMint data ⟨[]⟩).2).mintAuthority)
        = .ok (some (ByteArr.zero 32))
      ∧ (mintLayout data).mintAuthority = some (keyAt data 4)
      ∧ keyAt data 4 ≠ ByteArr.zero 32 := by
  decide +kernel

/-- A mint without mint authority is read as it is laid out. -/
theorem decodeMint_reads_unowned :
    let data := sampleMint 0 1 0 9
    Token.MintImage data ∧ ∃ mint store',
      Token.decodeMint data ⟨[]⟩ = (.ok mint, store') ∧ mint.read store' = mintLayout data := by
  have himage : Token.MintImage (sampleMint 0 1 0 9) := by decide +kernel
  obtain ⟨mint, store', hdec, hiff⟩ := (decodeMint_reads_iff ⟨[]⟩).1 _ himage
  exact ⟨himage, mint, store', hdec, hiff.mpr (Or.inl (by decide +kernel))⟩

end SolanaGo.Token2022
