/-
`pda.go`: program addresses.

`CreateProgramAddress` hashes the seeds, the program and a marker, and refuses a hash that is
a point of the curve. `FindProgramAddress` puts one more byte behind the seeds, the bump, and
counts it down from 255 until the hash is not a point.

The search does not call `CreateProgramAddress`. It lays out the preimage once, writes the
byte into it before each hash, and checks the seeds before it knows the bump: fewer than
`MaxSeeds` of them, where `CreateProgramAddress` takes up to `MaxSeeds`. That this is the same
as calling `CreateProgramAddress` with the bump as one more seed is `searchBump_eq_ok` and
`createProgramAddress_bump`, and `findProgramAddress_iff` says what is found.

SHA-256 and the decompression of a point are parameters; nothing is assumed about them.
-/
import SolanaGo.Instructions

set_option autoImplicit false

namespace SolanaGo

open Codec

/-! ## The model -/

/-- `MaxSeeds`. -/
def maxSeeds : ℕ := 16

/-- `PDA_MARKER`. -/
def pdaMarker : Bytes := "ProgramDerivedAddress".toUTF8.data.toList

/-- `ErrNoValidProgramAddress`. -/
def errNoValidProgramAddress : Err := { msg := "unable to find a valid program address" }

/-- `errAddressOnCurve`. -/
def errAddressOnCurve : Err := { msg := "invalid seeds; address must fall off the curve" }

/-- What the derivation takes from other packages. -/
structure AddressPrimitives where
  /-- `sha256.Sum256` -/
  sha256 : Bytes → ByteArr 32
  /-- `SetBytes` and `SetCompressedY` return no error -/
  decompresses : Bytes → Bool

/-- `appendPDAPreimage`. -/
def appendPDAPreimage (buf : Bytes) : List Bytes → Except Err Bytes
  | [] => .ok buf
  | seed :: seeds =>
    if maxSeedLength < seed.length then .error errMaxSeedLengthExceeded
    else appendPDAPreimage (buf ++ seed) seeds

section Model

variable (prims : AddressPrimitives) (programID : PublicKey)

/-- `isOnCurve`. -/
def isOnCurve (b : Bytes) : Bool :=
  if b.length ≠ 32 then false else prims.decompresses b

/-- `CreateProgramAddress`. -/
def createProgramAddress (seeds : List Bytes) : Except Err PublicKey :=
  if maxSeeds < seeds.length then .error errMaxSeedLengthExceeded
  else do
    let buf ← appendPDAPreimage [] seeds
    let buf := buf ++ programID.toList
    let buf := buf ++ pdaMarker
    let hash := prims.sha256 buf
    if isOnCurve prims hash.toList then .error errAddressOnCurve else .ok hash

/-- The loop of `FindProgramAddress`, from a bump down. The byte is written into the buffer
that the turns share. -/
def searchBump (bumpIdx : ℕ) (buf : Bytes) : ℕ → Except Err (PublicKey × UInt8)
  | 0 => .error errNoValidProgramAddress
  | bump + 1 =>
    let buf := buf.set bumpIdx (UInt8.ofNat (bump + 1))
    let hash := prims.sha256 buf
    if !isOnCurve prims hash.toList then .ok (hash, UInt8.ofNat (bump + 1))
    else searchBump bumpIdx buf bump

/-- `FindProgramAddress`. -/
def findProgramAddress (seeds : List Bytes) : Except Err (PublicKey × UInt8) :=
  if maxSeeds ≤ seeds.length then .error errMaxSeedLengthExceeded
  else do
    let buf ← appendPDAPreimage [] seeds
    let bumpIdx := buf.length
    let buf := buf ++ [0]
    let buf := buf ++ programID.toList
    let buf := buf ++ pdaMarker
    searchBump prims bumpIdx buf 255

end Model

/-! ## The seeds -/

/-- The seeds are within the limits of `CreateProgramAddress`. -/
structure SeedsFit (seeds : List Bytes) : Prop where
  count_le : seeds.length ≤ maxSeeds
  length_le : ∀ seed ∈ seeds, seed.length ≤ maxSeedLength

variable {seeds : List Bytes}

theorem appendPDAPreimage_of_le (h : ∀ seed ∈ seeds, seed.length ≤ maxSeedLength) (buf : Bytes) :
    appendPDAPreimage buf seeds = .ok (buf ++ seeds.flatten) := by
  induction seeds generalizing buf with
  | nil =>
    rw [List.flatten_nil, List.append_nil]
    rfl
  | cons seed seeds ih =>
    unfold appendPDAPreimage
    rw [if_neg (not_lt.mpr (h seed List.mem_cons_self)),
      ih fun seed' hseed' => h seed' (List.mem_cons_of_mem _ hseed'), List.flatten_cons,
      List.append_assoc]

theorem appendPDAPreimage_of_lt (h : ∃ seed ∈ seeds, maxSeedLength < seed.length) (buf : Bytes) :
    appendPDAPreimage buf seeds = .error errMaxSeedLengthExceeded := by
  induction seeds generalizing buf with
  | nil =>
    obtain ⟨seed, hseed, -⟩ := h
    exact absurd hseed List.not_mem_nil
  | cons seed seeds ih =>
    unfold appendPDAPreimage
    by_cases hlong : maxSeedLength < seed.length
    · rw [if_pos hlong]
    · rw [if_neg hlong]
      obtain ⟨seed', hseed', hlt⟩ := h
      rcases List.mem_cons.mp hseed' with rfl | hseed'
      · exact absurd hlt hlong
      · exact ih ⟨seed', hseed', hlt⟩ _

/-- Seeds that do not fit are too many, or one of them is too long. -/
theorem not_seedsFit_iff :
    ¬SeedsFit seeds ↔ maxSeeds < seeds.length ∨ ∃ seed ∈ seeds, maxSeedLength < seed.length := by
  constructor
  · intro h
    by_contra hfits
    push Not at hfits
    exact h ⟨hfits.1, hfits.2⟩
  · rintro (hcount | ⟨seed, hseed, hlong⟩) hfits
    · exact absurd hfits.count_le (not_le.mpr hcount)
    · exact absurd (hfits.length_le seed hseed) (not_le.mpr hlong)

/-- A bump is a seed of one byte. -/
theorem seedsFit_bump_iff {bump : UInt8} :
    SeedsFit (seeds ++ [[bump]])
      ↔ seeds.length < maxSeeds ∧ ∀ seed ∈ seeds, seed.length ≤ maxSeedLength := by
  constructor
  · intro h
    have hcount := h.count_le
    rw [List.length_append, List.length_singleton] at hcount
    exact ⟨hcount, fun seed hseed => h.length_le seed (List.mem_append_left _ hseed)⟩
  · rintro ⟨hcount, hlength⟩
    refine ⟨?_, ?_⟩
    · rw [List.length_append, List.length_singleton]
      exact hcount
    · intro seed hseed
      rcases List.mem_append.mp hseed with hseed | hseed
      · exact hlength seed hseed
      · rw [List.mem_singleton.mp hseed, List.length_singleton]
        decide

/-! ## The search -/

section Search

variable {prims : AddressPrimitives} {programID : PublicKey} {seeds : List Bytes}

/-- The hash of the preimage with a bump. -/
def bumpHash (prims : AddressPrimitives) (programID : PublicKey) (seeds : List Bytes)
    (bump : UInt8) : PublicKey :=
  prims.sha256 (seeds.flatten ++ bump :: (programID.toList ++ pdaMarker))

theorem createProgramAddress_of_not_fits (h : ¬SeedsFit seeds) :
    createProgramAddress prims programID seeds = .error errMaxSeedLengthExceeded := by
  unfold createProgramAddress
  by_cases hcount : maxSeeds < seeds.length
  · rw [if_pos hcount]
  · rw [if_neg hcount]
    rcases not_seedsFit_iff.mp h with hcount' | hlong
    · exact absurd hcount' hcount
    · rw [appendPDAPreimage_of_lt hlong, error_bind]

variable {bump : UInt8}

/-- **`CreateProgramAddress` with a bump.** -/
theorem createProgramAddress_bump (h : SeedsFit (seeds ++ [[bump]])) :
    createProgramAddress prims programID (seeds ++ [[bump]])
      = if isOnCurve prims (bumpHash prims programID seeds bump).toList
        then .error errAddressOnCurve else .ok (bumpHash prims programID seeds bump) := by
  unfold createProgramAddress bumpHash
  rw [if_neg (not_lt.mpr h.count_le), appendPDAPreimage_of_le h.length_le, ok_bind]
  simp only [List.nil_append, List.flatten_append, List.flatten_cons, List.flatten_nil,
    List.append_assoc, List.cons_append, List.append_nil]

/-- The byte that was written last is replaced. -/
theorem set_append_cons (front back : Bytes) (old new : UInt8) :
    (front ++ old :: back).set front.length new = front ++ new :: back := by
  rw [List.set_append_right _ _ (le_refl _), Nat.sub_self, List.set_cons_zero]

/-- **What the search finds** is the first bump, counted down, whose hash is off the curve. -/
theorem searchBump_eq_ok (front back : Bytes) (old : UInt8) (start : ℕ) {address : PublicKey} :
    searchBump prims front.length (front ++ old :: back) start = .ok (address, bump)
      ↔ ∃ n, 1 ≤ n ∧ n ≤ start ∧ bump = UInt8.ofNat n
        ∧ address = prims.sha256 (front ++ UInt8.ofNat n :: back)
        ∧ isOnCurve prims (prims.sha256 (front ++ UInt8.ofNat n :: back)).toList = false
        ∧ ∀ m, n < m → m ≤ start →
          isOnCurve prims (prims.sha256 (front ++ UInt8.ofNat m :: back)).toList = true := by
  induction start generalizing old with
  | zero =>
    refine iff_of_false (by simp [searchBump]) ?_
    rintro ⟨n, hpos, hle, -⟩
    omega
  | succ start ih =>
    unfold searchBump
    dsimp only
    rw [set_append_cons]
    cases hcurve : isOnCurve prims
        (prims.sha256 (front ++ UInt8.ofNat (start + 1) :: back)).toList with
    | false =>
      rw [if_pos (by rfl)]
      constructor
      · rintro ⟨⟩
        exact ⟨start + 1, by omega, le_refl _, rfl, rfl, hcurve, fun m hlt hle => by omega⟩
      · rintro ⟨n, -, hle, rfl, rfl, hoff, hhigher⟩
        -- a smaller one would have passed over this one
        rcases Nat.lt_or_ge n (start + 1) with hlt | hge
        · rw [hhigher (start + 1) hlt (le_refl _)] at hcurve
          cases hcurve
        · rw [le_antisymm hle hge]
    | true =>
      rw [if_neg (by simp), ih]
      constructor
      · rintro ⟨n, hpos, hle, rfl, rfl, hoff, hhigher⟩
        refine ⟨n, hpos, by omega, rfl, rfl, hoff, fun m hlt hle' => ?_⟩
        rcases Nat.lt_or_ge start m with hlast | hless
        · rw [show m = start + 1 by omega]
          exact hcurve
        · exact hhigher m hlt hless
      · rintro ⟨n, hpos, hle, rfl, rfl, hoff, hhigher⟩
        have hne : n ≠ start + 1 := by
          rintro rfl
          rw [hcurve] at hoff
          cases hoff
        exact ⟨n, hpos, by omega, rfl, rfl, hoff, fun m hlt hle' => hhigher m hlt (by omega)⟩

/-- **The search fails** where every bump has a hash on the curve. -/
theorem searchBump_eq_error (front back : Bytes) (old : UInt8) (start : ℕ) {err : Err} :
    searchBump prims front.length (front ++ old :: back) start = .error err
      ↔ err = errNoValidProgramAddress ∧ ∀ n, 1 ≤ n → n ≤ start →
        isOnCurve prims (prims.sha256 (front ++ UInt8.ofNat n :: back)).toList = true := by
  induction start generalizing old with
  | zero =>
    unfold searchBump
    constructor
    · rintro ⟨⟩
      exact ⟨rfl, fun n hpos hle => by omega⟩
    · rintro ⟨rfl, -⟩
      rfl
  | succ start ih =>
    unfold searchBump
    dsimp only
    rw [set_append_cons]
    cases hcurve : isOnCurve prims
        (prims.sha256 (front ++ UInt8.ofNat (start + 1) :: back)).toList with
    | false =>
      rw [if_pos (by rfl)]
      refine iff_of_false (by simp) ?_
      rintro ⟨-, hall⟩
      rw [hall (start + 1) (by omega) (le_refl _)] at hcurve
      cases hcurve
    | true =>
      rw [if_neg (by simp), ih]
      refine and_congr_right fun _ => ⟨fun hall n hpos hle => ?_, fun hall n hpos hle => ?_⟩
      · rcases Nat.lt_or_ge start n with hlast | hless
        · rw [show n = start + 1 by omega]
          exact hcurve
        · exact hall n hpos hless
      · exact hall n hpos (by omega)

/-! ## Main result -/

theorem findProgramAddress_of_fits (h : SeedsFit (seeds ++ [[bump]])) :
    findProgramAddress prims programID seeds
      = searchBump prims seeds.flatten.length
          (seeds.flatten ++ 0 :: (programID.toList ++ pdaMarker)) 255 := by
  obtain ⟨hcount, hlength⟩ := seedsFit_bump_iff.mp h
  unfold findProgramAddress
  rw [if_neg (not_le.mpr hcount), appendPDAPreimage_of_le hlength, ok_bind]
  simp only [List.nil_append, List.append_assoc, List.cons_append]

theorem findProgramAddress_of_not_fits (h : ¬SeedsFit (seeds ++ [[bump]])) :
    findProgramAddress prims programID seeds = .error errMaxSeedLengthExceeded := by
  unfold findProgramAddress
  by_cases hcount : maxSeeds ≤ seeds.length
  · rw [if_pos hcount]
  · rw [if_neg hcount]
    have hlong : ∃ seed ∈ seeds, maxSeedLength < seed.length := by
      by_contra hfits
      push Not at hfits
      exact h (seedsFit_bump_iff.mpr ⟨not_le.mp hcount, hfits⟩)
    rw [appendPDAPreimage_of_lt hlong, error_bind]

/-- `CreateProgramAddress` with a bump succeeds where the hash is off the curve. -/
theorem createProgramAddress_bump_eq_ok (h : SeedsFit (seeds ++ [[bump]])) {address : PublicKey} :
    createProgramAddress prims programID (seeds ++ [[bump]]) = .ok address
      ↔ address = bumpHash prims programID seeds bump
        ∧ isOnCurve prims (bumpHash prims programID seeds bump).toList = false := by
  rw [createProgramAddress_bump h]
  cases isOnCurve prims (bumpHash prims programID seeds bump).toList with
  | false => simp [eq_comm]
  | true => simp

/-- The numbers that are counted fit a byte. -/
theorem toNat_ofNat_bump {n : ℕ} (h : n ≤ 255) : (UInt8.ofNat n).toNat = n :=
  UInt8.toNat_ofNat_of_lt (Nat.lt_succ_of_le h)

/-- Whether the seeds fit does not depend on the bump. -/
theorem seedsFit_bump_congr (h : SeedsFit (seeds ++ [[bump]])) (bump' : UInt8) :
    SeedsFit (seeds ++ [[bump']]) := seedsFit_bump_iff.mpr (seedsFit_bump_iff.mp h)

theorem findProgramAddress_eq_ok (prims : AddressPrimitives) (programID : PublicKey)
    (seeds : List Bytes) (address : PublicKey) (bump : UInt8) :
    findProgramAddress prims programID seeds = .ok (address, bump)
      ↔ 1 ≤ bump ∧ createProgramAddress prims programID (seeds ++ [[bump]]) = .ok address
        ∧ ∀ higher : UInt8, bump < higher → ∀ address',
          createProgramAddress prims programID (seeds ++ [[higher]]) ≠ .ok address' := by
  by_cases hfits : SeedsFit (seeds ++ [[bump]])
  · rw [findProgramAddress_of_fits hfits, searchBump_eq_ok, createProgramAddress_bump_eq_ok hfits]
    constructor
    · rintro ⟨n, hpos, hle, rfl, rfl, hoff, hhigher⟩
      have hn : (UInt8.ofNat n).toNat = n := toNat_ofNat_bump hle
      refine ⟨?_, ⟨rfl, hoff⟩, fun higher hlt address' hok => ?_⟩
      · rw [UInt8.le_iff_toNat_le, hn]
        exact hpos
      · rw [UInt8.lt_iff_toNat_lt, hn] at hlt
        obtain ⟨-, hoff'⟩ :=
          (createProgramAddress_bump_eq_ok (seedsFit_bump_congr hfits higher)).mp hok
        have hon := hhigher higher.toNat hlt (Nat.le_of_lt_succ higher.toNat_lt)
        rw [UInt8.ofNat_toNat] at hon
        exact absurd (hon.symm.trans hoff') (by decide)
    · rintro ⟨hpos, ⟨rfl, hoff⟩, hhigher⟩
      refine ⟨bump.toNat, UInt8.le_iff_toNat_le.mp hpos, Nat.le_of_lt_succ bump.toNat_lt,
        UInt8.ofNat_toNat.symm, ?_, ?_, fun m hlt hle => ?_⟩
      · rw [UInt8.ofNat_toNat]
        rfl
      · rw [UInt8.ofNat_toNat]
        exact hoff
      · have hm : (UInt8.ofNat m).toNat = m := toNat_ofNat_bump hle
        have hlt' : bump < UInt8.ofNat m := by
          rw [UInt8.lt_iff_toNat_lt, hm]
          exact hlt
        by_contra hoff'
        exact hhigher _ hlt' _ ((createProgramAddress_bump_eq_ok
          (seedsFit_bump_congr hfits _)).mpr ⟨rfl, Bool.eq_false_of_not_eq_true hoff'⟩)
  · rw [findProgramAddress_of_not_fits hfits, createProgramAddress_of_not_fits hfits]
    simp

theorem findProgramAddress_eq_error (prims : AddressPrimitives) (programID : PublicKey)
    (seeds : List Bytes) (err : Err) :
    findProgramAddress prims programID seeds = .error err
      ↔ (err = errMaxSeedLengthExceeded ∧ ¬SeedsFit (seeds ++ [[0]]))
        ∨ (err = errNoValidProgramAddress ∧ SeedsFit (seeds ++ [[0]])
          ∧ ∀ bump : UInt8, 1 ≤ bump → ∀ address,
            createProgramAddress prims programID (seeds ++ [[bump]]) ≠ .ok address) := by
  by_cases hfits : SeedsFit (seeds ++ [[0]])
  · rw [findProgramAddress_of_fits hfits, searchBump_eq_error]
    simp only [hfits, not_true_eq_false, and_false, false_or, true_and]
    refine and_congr_right fun _ =>
      ⟨fun hall bump hpos address hok => ?_, fun hall n hpos hle => ?_⟩
    · obtain ⟨-, hoff⟩ := (createProgramAddress_bump_eq_ok (seedsFit_bump_congr hfits bump)).mp hok
      have hon := hall bump.toNat (UInt8.le_iff_toNat_le.mp hpos) (Nat.le_of_lt_succ bump.toNat_lt)
      rw [UInt8.ofNat_toNat] at hon
      exact absurd (hon.symm.trans hoff) (by decide)
    · have hn : (UInt8.ofNat n).toNat = n := toNat_ofNat_bump hle
      have hpos' : 1 ≤ UInt8.ofNat n := by
        rw [UInt8.le_iff_toNat_le, hn]
        exact hpos
      by_contra hoff
      exact hall _ hpos' _ ((createProgramAddress_bump_eq_ok
        (seedsFit_bump_congr hfits _)).mpr ⟨rfl, Bool.eq_false_of_not_eq_true hoff⟩)
  · rw [findProgramAddress_of_not_fits hfits]
    simp [hfits, eq_comm]

end Search

/-- **`FindProgramAddress`.** It returns the largest bump for which `CreateProgramAddress` of
the seeds and the bump succeeds, with the address this returns; and it fails where there is
no such bump, or where the seeds with a bump are too many or one of them is too long. -/
theorem findProgramAddress_iff (prims : AddressPrimitives) (programID : PublicKey)
    (seeds : List Bytes) :
    (∀ address bump, findProgramAddress prims programID seeds = .ok (address, bump)
        ↔ 1 ≤ bump ∧ createProgramAddress prims programID (seeds ++ [[bump]]) = .ok address
          ∧ ∀ higher : UInt8, bump < higher → ∀ address',
            createProgramAddress prims programID (seeds ++ [[higher]]) ≠ .ok address')
      ∧ ((∃ err, findProgramAddress prims programID seeds = .error err)
        ↔ (∀ bump : UInt8, 1 ≤ bump → ∀ address,
            createProgramAddress prims programID (seeds ++ [[bump]]) ≠ .ok address)
          ∨ maxSeeds < seeds.length + 1 ∨ ∃ seed ∈ seeds, maxSeedLength < seed.length) := by
  refine ⟨findProgramAddress_eq_ok prims programID seeds, ?_⟩
  simp only [findProgramAddress_eq_error]
  have hbreaks : ¬SeedsFit (seeds ++ [[0]])
      ↔ maxSeeds < seeds.length + 1 ∨ ∃ seed ∈ seeds, maxSeedLength < seed.length := by
    rw [seedsFit_bump_iff, not_and_or, not_lt, Nat.lt_succ_iff]
    push Not
    rfl
  constructor
  · rintro ⟨err, ⟨-, hbroken⟩ | ⟨-, -, hnone⟩⟩
    · exact Or.inr (hbreaks.mp hbroken)
    · exact Or.inl hnone
  · rintro (hnone | hbroken)
    · by_cases hfits : SeedsFit (seeds ++ [[0]])
      · exact ⟨_, Or.inr ⟨rfl, hfits, hnone⟩⟩
      · exact ⟨_, Or.inl ⟨rfl, hfits⟩⟩
    · exact ⟨_, Or.inl ⟨rfl, hbreaks.mpr hbroken⟩⟩

end SolanaGo
