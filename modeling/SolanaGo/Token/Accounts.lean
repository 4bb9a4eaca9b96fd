/-
Decoding of SPL token mints and accounts.

`DecodeMint` hands out its two optional authorities as pointers, and both point to
the same local variable `authority`, which is assigned a second time between the two.
What the caller finds behind the first pointer is therefore decided by the store the
call leaves, not by the first read. The model keeps the variable as a cell of a
`Store` and the pointers as references to it.

`decodeMint_eq` computes the whole call on a valid image, `decodedMint_read` what
the caller reads: every field as the layout has it, except that a present mint
authority reads as the 32 bytes of the freeze authority.

`DecodeAccount` has a variable for each of its pointers, so its options are values here. Both
decoders accept every image of their size with valid tags and nothing else
(`decodeMint_isOk_iff`, `decodeAccount_isOk_iff`).
-/
import SolanaGo.Bin.Decoder
import SolanaGo.Lib.Buffer
import SolanaGo.Lib.Store

set_option autoImplicit false

namespace SolanaGo.Token

open Codec hiding Decoder
open Bin Buffer

/-! ## The decoder -/

/-- `MintSize`. -/
def mintSize : ℕ := 82

/-- `AccountSize`. -/
def accountSize : ℕ := 165

/-- The text of `ErrInvalidAccountSize`. -/
def errInvalidAccountSize : String := "token: invalid account size"

/-- `type Mint struct`. The authorities are pointers. -/
structure Mint where
  mintAuthority : Option Store.Ref := none
  supply : UInt64 := 0
  decimals : UInt8 := 0
  isInitialized : Bool := false
  freezeAuthority : Option Store.Ref := none
  deriving DecidableEq

/-- `DecodeMint`, with the store of public-key variables before and after. -/
def decodeMint (data : Bytes) (store : Store PublicKey) : Except Err Mint × Store PublicKey :=
  if data.length ≠ mintSize then
    (.error { msg := errInvalidAccountSize ++ ": mint: " ++ toString data.length }, store)
  else
    let dec := newDecoder data
    let (hasMintAuthority, dec) := dec.readCOption
    let (key, dec) := dec.readPublicKey
    -- `authority := dec.ReadPublicKey()`
    let (authority, store) := store.alloc key
    let mintAuthority := if hasMintAuthority then some authority else none
    let (supply, dec) := dec.readUint64
    let (decimals, dec) := dec.readUint8
    let (isInitialized, dec) := dec.readBool
    let (hasFreezeAuthority, dec) := dec.readCOption
    let (key, dec) := dec.readPublicKey
    -- `authority = dec.ReadPublicKey()`
    let store := store.write authority key
    let freezeAuthority := if hasFreezeAuthority then some authority else none
    match dec.errOf.1 with
    | some err => (.error (err.wrap "decode token mint: "), store)
    | none =>
      (.ok { mintAuthority, supply, decimals, isInitialized, freezeAuthority }, store)

/-! ## What the caller reads -/

/-- A mint with its pointers followed. -/
@[ext] structure MintView where
  mintAuthority : Option PublicKey
  supply : UInt64
  decimals : UInt8
  isInitialized : Bool
  freezeAuthority : Option PublicKey
  deriving DecidableEq

/-- The mint as read through a store. -/
def Mint.read (mint : Mint) (store : Store PublicKey) : MintView where
  mintAuthority := mint.mintAuthority.bind store.load
  supply := mint.supply
  decimals := mint.decimals
  isInitialized := mint.isInitialized
  freezeAuthority := mint.freezeAuthority.bind store.load

/-! ## The layout -/

/-- The public key in bytes `lo..lo + 32` of the image. -/
def keyAt (data : Bytes) (lo : ℕ) : PublicKey := ByteArr.copyFrom 32 (slice data lo (lo + 32))

/-- An image of a mint: 82 bytes, with valid option tags and a valid flag. -/
structure MintImage (data : Bytes) : Prop where
  length : data.length = mintSize
  mintTag : leValue (slice data 0 4) ≤ 1
  flag : leValue (slice data 45 46) ≤ 1
  freezeTag : leValue (slice data 46 50) ≤ 1

instance (data : Bytes) : Decidable (MintImage data) :=
  decidable_of_iff (data.length = mintSize ∧ leValue (slice data 0 4) ≤ 1
      ∧ leValue (slice data 45 46) ≤ 1 ∧ leValue (slice data 46 50) ≤ 1)
    ⟨fun ⟨h1, h2, h3, h4⟩ => ⟨h1, h2, h3, h4⟩, fun ⟨h1, h2, h3, h4⟩ => ⟨h1, h2, h3, h4⟩⟩

/-- The mint that an image lays out. -/
def mintLayout (data : Bytes) : MintView where
  mintAuthority := if leValue (slice data 0 4) = 1 then some (keyAt data 4) else none
  supply := UInt64.ofNat (leValue (slice data 36 44))
  decimals := (slice data 44 45).headD 0
  isInitialized := leValue (slice data 45 46) = 1
  freezeAuthority := if leValue (slice data 46 50) = 1 then some (keyAt data 50) else none

/-! ## The whole call -/

/-- A decoder without error, `pos` bytes in. -/
def decoderAt (data : Bytes) (pos : ℕ) : Decoder := { data, pos }

section Steps

variable {data : Bytes} {pos : ℕ}

theorem readFixed_decoderAt {α : Type} {n : ℕ} (zero : α) (parse : Bytes → α)
    (h : pos + n ≤ data.length) :
    Decoder.readFixed n zero parse (decoderAt data pos)
      = (parse (slice data pos (pos + n)), decoderAt data (pos + n)) := by
  rw [Decoder.readFixed_ok rfl h]
  unfold slice
  rw [Nat.add_sub_cancel_left]
  rfl

theorem readTag_decoderAt {n : ℕ} (h : pos + n ≤ data.length)
    (htag : leValue (slice data pos (pos + n)) ≤ 1) :
    Decoder.readTag n (decoderAt data pos)
      = (decide (leValue (slice data pos (pos + n)) = 1), decoderAt data (pos + n)) := by
  unfold slice at htag ⊢
  rw [Nat.add_sub_cancel_left] at htag ⊢
  exact Decoder.readTag_ok rfl h htag

end Steps

/-- The mint the call returns: the layout, with pointers to one cell. -/
def decodedMint (data : Bytes) (authority : Store.Ref) : Mint where
  mintAuthority := if leValue (slice data 0 4) = 1 then some authority else none
  supply := (mintLayout data).supply
  decimals := (mintLayout data).decimals
  isInitialized := (mintLayout data).isInitialized
  freezeAuthority := if leValue (slice data 46 50) = 1 then some authority else none

/-- **`DecodeMint` on an image.** Both pointers are to the one cell the call
allocates, and that cell ends up with bytes 50 to 82. -/
theorem decodeMint_eq {data : Bytes} (h : MintImage data) (store : Store PublicKey) :
    decodeMint data store
      = (.ok (decodedMint data (store.alloc (keyAt data 50)).1),
        (store.alloc (keyAt data 50)).2) := by
  have hlen : data.length = 82 := h.length
  -- The reads, in order; each leaves the decoder where the next one starts.
  have hread1 : (newDecoder data).readCOption
      = (decide (leValue (slice data 0 4) = 1), decoderAt data 4) :=
    readTag_decoderAt (by omega) h.mintTag
  have hread2 : (decoderAt data 4).readPublicKey = (keyAt data 4, decoderAt data 36) :=
    readFixed_decoderAt _ _ (by rw [hlen]; decide)
  have hread3 : (decoderAt data 36).readUint64 = ((mintLayout data).supply, decoderAt data 44) :=
    readFixed_decoderAt _ _ (by omega)
  have hread4 : (decoderAt data 44).readUint8 = ((mintLayout data).decimals, decoderAt data 45) :=
    readFixed_decoderAt _ _ (by omega)
  have hread5 : (decoderAt data 45).readBool
      = ((mintLayout data).isInitialized, decoderAt data 46) :=
    readTag_decoderAt (by omega) h.flag
  have hread6 : (decoderAt data 46).readCOption
      = (decide (leValue (slice data 46 50) = 1), decoderAt data 50) :=
    readTag_decoderAt (by omega) h.freezeTag
  have hread7 : (decoderAt data 50).readPublicKey = (keyAt data 50, decoderAt data 82) :=
    readFixed_decoderAt _ _ (by rw [hlen]; decide)
  unfold decodeMint
  rw [if_neg (not_not.mpr h.length)]
  simp only [hread1, hread2, hread3, hread4, hread5, hread6, hread7]
  -- The second assignment overwrites the cell.
  rw [Store.write_alloc]
  simp only [decide_eq_true_eq]
  rfl

section Advances

variable {dec : Decoder}

theorem readPublicKey_advances (h : dec.readPublicKey.2.err = none) :
    Decoder.Advanced 32 dec dec.readPublicKey.2 := Decoder.readFixed_advances Prod.mk.eta.symm h

theorem readUint64_advances (h : dec.readUint64.2.err = none) :
    Decoder.Advanced 8 dec dec.readUint64.2 := Decoder.readFixed_advances Prod.mk.eta.symm h

theorem readUint8_advances (h : dec.readUint8.2.err = none) :
    Decoder.Advanced 1 dec dec.readUint8.2 := Decoder.readFixed_advances Prod.mk.eta.symm h

theorem readBool_advances (h : dec.readBool.2.err = none) :
    Decoder.Advanced 1 dec dec.readBool.2 ∧ leValue (dec.window 1) ≤ 1 :=
  Decoder.readTag_advances Prod.mk.eta.symm h

theorem readCOption_advances (h : dec.readCOption.2.err = none) :
    Decoder.Advanced 4 dec dec.readCOption.2 ∧ leValue (dec.window 4) ≤ 1 :=
  Decoder.readTag_advances Prod.mk.eta.symm h

end Advances

/-- The tag behind reads that have moved over `pos` bytes. -/
theorem tag_of_advanced {data : Bytes} {dec : Decoder} {pos n : ℕ}
    (h : Decoder.Advanced pos (newDecoder data) dec) (htag : leValue (dec.window n) ≤ 1) :
    leValue (slice data pos (pos + n)) ≤ 1 := by
  have hpos : dec.pos = pos := h.pos.trans (Nat.zero_add pos)
  have hdata : dec.data = data := h.data
  unfold Decoder.window at htag
  unfold slice
  rw [hdata, hpos] at htag
  rw [Nat.add_sub_cancel_left]
  exact htag

/-- **What `DecodeMint` accepts.** -/
theorem decodeMint_isOk_iff {data : Bytes} {store : Store PublicKey} :
    (∃ mint store', decodeMint data store = (.ok mint, store')) ↔ MintImage data := by
  constructor
  · rintro ⟨mint, store', h⟩
    unfold decodeMint at h
    by_cases hlen : data.length ≠ mintSize
    · rw [if_pos hlen] at h
      cases (Prod.mk.inj h).1
    rw [if_neg hlen] at h
    dsimp only at h
    split at h
    · cases (Prod.mk.inj h).1
    next hnone =>
    -- No read has failed: from the last one back to the first.
    have hlast := readPublicKey_advances (Decoder.errOf_eq_none.mp hnone)
    obtain ⟨hadv6, hfreeze⟩ := readCOption_advances hlast.before
    obtain ⟨hadv5, hflag⟩ := readBool_advances hadv6.before
    have hadv4 := readUint8_advances hadv5.before
    have hadv3 := readUint64_advances hadv4.before
    have hadv2 := readPublicKey_advances hadv3.before
    obtain ⟨hadv1, hmint⟩ := readCOption_advances hadv2.before
    have hto45 := ((hadv1.trans hadv2).trans hadv3).trans hadv4
    exact ⟨not_not.mp hlen, hmint, tag_of_advanced hto45 hflag,
      tag_of_advanced (hto45.trans hadv5) hfreeze⟩
  · intro himage
    exact ⟨_, _, decodeMint_eq himage store⟩

/-- What is behind the pointers: the layout, but for a present mint authority, which
reads as bytes 50 to 82. -/
def mintRead (data : Bytes) : MintView :=
  { mintLayout data with
    mintAuthority := if leValue (slice data 0 4) = 1 then some (keyAt data 50) else none }

/-- **What the caller reads.** -/
theorem decodedMint_read (data : Bytes) (store : Store PublicKey) :
    (decodedMint data (store.alloc (keyAt data 50)).1).read (store.alloc (keyAt data 50)).2
      = mintRead data := by
  have hcell : ∀ c : Prop, [Decidable c] →
      (if c then some (store.alloc (keyAt data 50)).1 else none).bind
        (store.alloc (keyAt data 50)).2.load = if c then some (keyAt data 50) else none := by
    intro c _
    by_cases hc : c
    · rw [if_pos hc, if_pos hc, Option.bind_some, Store.load_alloc]
    · rw [if_neg hc, if_neg hc, Option.bind_none]
  unfold Mint.read decodedMint mintRead
  dsimp only
  rw [hcell, hcell]
  rfl

/-- Two key fields of an image hold the same key if they hold the same bytes. -/
theorem keyAt_eq_iff {data : Bytes} {lo lo' : ℕ} (h : lo + 32 ≤ data.length)
    (h' : lo' + 32 ≤ data.length) :
    keyAt data lo = keyAt data lo' ↔ slice data lo (lo + 32) = slice data lo' (lo' + 32) := by
  have hlen : ∀ i, i + 32 ≤ data.length → (slice data i (i + 32)).length = 32 := by
    intro i hi
    rw [length_slice hi, Nat.add_sub_cancel_left]
  have hlist : ∀ i, i + 32 ≤ data.length → (keyAt data i).toList = slice data i (i + 32) := by
    intro i hi
    unfold keyAt
    rw [ByteArr.toList_copyFrom (hlen i hi).ge, List.take_of_length_le (hlen i hi).le]
  constructor
  · intro heq
    rw [← hlist lo h, ← hlist lo' h', heq]
  · intro heq
    apply ByteArr.ext
    rw [hlist lo h, hlist lo' h', heq]

/-- The mint read is the mint laid out exactly when there is no mint authority, or it
is the key in the place of the freeze authority. -/
theorem mintRead_eq_layout_iff {data : Bytes} (h : MintImage data) :
    mintRead data = mintLayout data
      ↔ leValue (slice data 0 4) = 0 ∨ slice data 4 36 = slice data 50 82 := by
  have hlen : data.length = 82 := h.length
  have hkeys : keyAt data 4 = keyAt data 50 ↔ slice data 4 36 = slice data 50 82 :=
    keyAt_eq_iff (by omega) (by omega)
  have hfield : mintRead data = mintLayout data
      ↔ (mintRead data).mintAuthority = (mintLayout data).mintAuthority := by
    constructor
    · intro heq
      rw [heq]
    · intro heq
      exact MintView.ext heq rfl rfl rfl rfl
  rw [hfield]
  unfold mintRead mintLayout
  dsimp only
  have htag := h.mintTag
  by_cases hone : leValue (slice data 0 4) = 1
  · rw [if_pos hone, if_pos hone, Option.some.injEq, eq_comm, hkeys]
    constructor
    · exact Or.inr
    · rintro (hzero | heq)
      · omega
      · exact heq
  · rw [if_neg hone, if_neg hone]
    exact ⟨fun _ => Or.inl (by omega), fun _ => rfl⟩

/-! ## Accounts -/

/-- `type Account struct`. Its pointers are to variables of their own. -/
structure Account where
  mint : PublicKey := ByteArr.zero 32
  owner : PublicKey := ByteArr.zero 32
  amount : UInt64 := 0
  delegate : Option PublicKey := none
  state : UInt8 := 0
  isNative : Option UInt64 := none
  delegatedAmount : UInt64 := 0
  closeAuthority : Option PublicKey := none
  deriving DecidableEq

/-- `DecodeAccount`. -/
def decodeAccount (data : Bytes) : Except Err Account :=
  if data.length ≠ accountSize then
    .error { msg := errInvalidAccountSize ++ ": account: " ++ toString data.length }
  else
    let dec := newDecoder data
    let (mint, dec) := dec.readPublicKey
    let (owner, dec) := dec.readPublicKey
    let (amount, dec) := dec.readUint64
    let (hasDelegate, dec) := dec.readCOption
    let (delegate, dec) := dec.readPublicKey
    let (state, dec) := dec.readUint8
    let (isNative, dec) := dec.readCOption
    let (reserve, dec) := dec.readUint64
    let (delegatedAmount, dec) := dec.readUint64
    let (hasCloseAuthority, dec) := dec.readCOption
    let (authority, dec) := dec.readPublicKey
    match dec.errOf.1 with
    | some err => .error (err.wrap "decode token account: ")
    | none =>
      .ok
        { mint, owner, amount, state, delegatedAmount
          delegate := if hasDelegate then some delegate else none
          isNative := if isNative then some reserve else none
          closeAuthority := if hasCloseAuthority then some authority else none }

/-- An image of a token account: 165 bytes with valid option tags. -/
structure AccountImage (data : Bytes) : Prop where
  length : data.length = accountSize
  delegateTag : leValue (slice data 72 76) ≤ 1
  nativeTag : leValue (slice data 109 113) ≤ 1
  closeTag : leValue (slice data 129 133) ≤ 1

instance (data : Bytes) : Decidable (AccountImage data) :=
  decidable_of_iff (data.length = accountSize ∧ leValue (slice data 72 76) ≤ 1
      ∧ leValue (slice data 109 113) ≤ 1 ∧ leValue (slice data 129 133) ≤ 1)
    ⟨fun ⟨h1, h2, h3, h4⟩ => ⟨h1, h2, h3, h4⟩, fun ⟨h1, h2, h3, h4⟩ => ⟨h1, h2, h3, h4⟩⟩

/-- The number of eight bytes at `lo`. -/
def uint64At (data : Bytes) (lo : ℕ) : UInt64 := UInt64.ofNat (leValue (slice data lo (lo + 8)))

/-- The account that an image lays out. -/
def accountLayout (data : Bytes) : Account where
  mint := keyAt data 0
  owner := keyAt data 32
  amount := uint64At data 64
  delegate := if leValue (slice data 72 76) = 1 then some (keyAt data 76) else none
  state := (slice data 108 109).headD 0
  isNative := if leValue (slice data 109 113) = 1 then some (uint64At data 113) else none
  delegatedAmount := uint64At data 121
  closeAuthority := if leValue (slice data 129 133) = 1 then some (keyAt data 133) else none

/-- **`DecodeAccount` on an image** returns what is laid out. -/
theorem decodeAccount_eq {data : Bytes} (h : AccountImage data) :
    decodeAccount data = .ok (accountLayout data) := by
  have hlen : data.length = 165 := h.length
  have hread1 : (newDecoder data).readPublicKey = (keyAt data 0, decoderAt data 32) :=
    readFixed_decoderAt _ _ (by rw [hlen]; decide)
  have hread2 : (decoderAt data 32).readPublicKey = (keyAt data 32, decoderAt data 64) :=
    readFixed_decoderAt _ _ (by rw [hlen]; decide)
  have hread3 : (decoderAt data 64).readUint64 = (uint64At data 64, decoderAt data 72) :=
    readFixed_decoderAt _ _ (by omega)
  have hread4 : (decoderAt data 72).readCOption
      = (decide (leValue (slice data 72 76) = 1), decoderAt data 76) :=
    readTag_decoderAt (by omega) h.delegateTag
  have hread5 : (decoderAt data 76).readPublicKey = (keyAt data 76, decoderAt data 108) :=
    readFixed_decoderAt _ _ (by rw [hlen]; decide)
  have hread6 : (decoderAt data 108).readUint8
      = ((accountLayout data).state, decoderAt data 109) :=
    readFixed_decoderAt _ _ (by omega)
  have hread7 : (decoderAt data 109).readCOption
      = (decide (leValue (slice data 109 113) = 1), decoderAt data 113) :=
    readTag_decoderAt (by omega) h.nativeTag
  have hread8 : (decoderAt data 113).readUint64 = (uint64At data 113, decoderAt data 121) :=
    readFixed_decoderAt _ _ (by omega)
  have hread9 : (decoderAt data 121).readUint64 = (uint64At data 121, decoderAt data 129) :=
    readFixed_decoderAt _ _ (by omega)
  have hread10 : (decoderAt data 129).readCOption
      = (decide (leValue (slice data 129 133) = 1), decoderAt data 133) :=
    readTag_decoderAt (by omega) h.closeTag
  have hread11 : (decoderAt data 133).readPublicKey = (keyAt data 133, decoderAt data 165) :=
    readFixed_decoderAt _ _ (by rw [hlen]; decide)
  unfold decodeAccount
  rw [if_neg (not_not.mpr h.length)]
  simp only [hread1, hread2, hread3, hread4, hread5, hread6, hread7, hread8, hread9, hread10,
    hread11, decide_eq_true_eq]
  rfl

/-- **What `DecodeAccount` accepts.** -/
theorem decodeAccount_isOk_iff {data : Bytes} :
    (∃ account, decodeAccount data = .ok account) ↔ AccountImage data := by
  constructor
  · rintro ⟨account, h⟩
    unfold decodeAccount at h
    by_cases hlen : data.length ≠ accountSize
    · rw [if_pos hlen] at h
      cases h
    rw [if_neg hlen] at h
    dsimp only at h
    split at h
    · cases h
    next hnone =>
    have hlast := readPublicKey_advances (Decoder.errOf_eq_none.mp hnone)
    obtain ⟨hadv10, hclose⟩ := readCOption_advances hlast.before
    have hadv9 := readUint64_advances hadv10.before
    have hadv8 := readUint64_advances hadv9.before
    obtain ⟨hadv7, hnative⟩ := readCOption_advances hadv8.before
    have hadv6 := readUint8_advances hadv7.before
    have hadv5 := readPublicKey_advances hadv6.before
    obtain ⟨hadv4, hdelegate⟩ := readCOption_advances hadv5.before
    have hadv3 := readUint64_advances hadv4.before
    have hadv2 := readPublicKey_advances hadv3.before
    have hadv1 := readPublicKey_advances hadv2.before
    have hto72 := (hadv1.trans hadv2).trans hadv3
    have hto109 := ((hto72.trans hadv4).trans hadv5).trans hadv6
    have hto129 := ((hto109.trans hadv7).trans hadv8).trans hadv9
    have hdelegateTag := tag_of_advanced hto72 hdelegate
    have hnativeTag := tag_of_advanced hto109 hnative
    have hcloseTag := tag_of_advanced hto129 hclose
    exact ⟨not_not.mp hlen, hdelegateTag, hnativeTag, hcloseTag⟩
  · intro himage
    exact ⟨_, decodeAccount_eq himage⟩

end SolanaGo.Token
