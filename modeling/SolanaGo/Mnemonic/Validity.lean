/-
Which mnemonics are valid.

`encode` is the encoding of BIP-39: the bits of the entropy, behind them the first bits of
its hash, and a word for each 11 of them. `isMnemonicValid_iff` says that a mnemonic is
valid exactly if its words are the encoding of some entropy.

The two sides are compared bit by bit. Position `p` of the packed buffer holds bit
`10 - p % 11` of the index of word `p / 11` (`bitAt_packIndexes`), and position `p` of the
encoded bits is the same bit of the number of group `p / 11` (`testBit_field`). With `k` bits
of checksum there are `3 k` words, `33 k` bits and `4 k` bytes of entropy.
-/
import SolanaGo.Mnemonic.Model

set_option autoImplicit false

namespace SolanaGo.Mnemonic

open Codec (Bytes ByteArr)
open GoStrings Keyed Bits

/-! ## The encoding -/

/-- The entropy and its checksum: one bit of the hash for four bytes of entropy. -/
def encodedBits (sha256 : Bytes → ByteArr 32) (entropy : Bytes) : List Bool :=
  bits entropy ++ (bits (sha256 entropy).toList).take (entropy.length / 4)

/-- The number that 11 of the bits spell. -/
def groupIndex (encoded : List Bool) (j : ℕ) : ℕ := field (encoded.getD · false) 11 (11 * j)

/-- **The encoding of BIP-39.** -/
def encode (words : List Bytes) (sha256 : Bytes → ByteArr 32) (entropy : Bytes) : List Bytes :=
  let encoded := encodedBits sha256 entropy
  (List.range (encoded.length / 11)).map fun j => words.getD (groupIndex encoded j) []

/-- The embedded file holds 2048 words, all of them different. -/
structure IsWordList (bip39EnglishRaw : Bytes) : Prop where
  length_eq : (bip39Words bip39EnglishRaw).length = 2048
  nodup : (bip39Words bip39EnglishRaw).Nodup

/-! ## The index of the words -/

theorem indexWords_eq_some {index : Map Bytes UInt16} {i : UInt16} {words : List Bytes}
    (hnodup : words.Nodup) {word : Bytes} {k : UInt16} :
    indexWords index i words word = some k
      ↔ (∃ j, words[j]? = some word ∧ k = i + UInt16.ofNat j)
        ∨ (word ∉ words ∧ index word = some k) := by
  induction words generalizing index i with
  | nil => simp [indexWords]
  | cons head words ih =>
    obtain ⟨hhead, hnodup⟩ := List.nodup_cons.mp hnodup
    unfold indexWords
    rw [ih hnodup]
    constructor
    · rintro (⟨j, hj, rfl⟩ | ⟨hword, hset⟩)
      · refine Or.inl ⟨j + 1, hj, ?_⟩
        rw [UInt16.ofNat_add, UInt16.add_assoc, UInt16.add_comm 1]
        rfl
      · by_cases hsame : word = head
        · subst hsame
          rw [Map.set_self] at hset
          obtain rfl := Option.some.inj hset
          exact Or.inl ⟨0, rfl, (UInt16.add_zero _).symm⟩
        · rw [Map.set_of_ne _ _ hsame] at hset
          exact Or.inr ⟨by simp [hsame, hword], hset⟩
    · rintro (⟨j, hj, rfl⟩ | ⟨hword, hindex⟩)
      · cases j with
        | zero =>
          obtain rfl : head = word := Option.some.inj hj
          refine Or.inr ⟨hhead, ?_⟩
          rw [Map.set_self]
          exact congrArg some (UInt16.add_zero _).symm
        | succ j =>
          refine Or.inl ⟨j, hj, ?_⟩
          rw [Nat.succ_eq_add_one, UInt16.ofNat_add, UInt16.add_assoc, UInt16.add_comm 1]
          rfl
      · obtain ⟨hne, hword⟩ := not_or.mp (mt List.mem_cons.mpr hword)
        exact Or.inr ⟨hword, by rw [Map.set_of_ne _ _ hne, hindex]⟩

/-- **The index inverts the word list.** -/
theorem bip39WordIndex_eq_some {raw : Bytes} (h : IsWordList raw) {word : Bytes} {k : UInt16} :
    bip39WordIndex raw word = some k ↔ (bip39Words raw)[k.toNat]? = some word := by
  unfold bip39WordIndex
  rw [indexWords_eq_some h.nodup]
  constructor
  · rintro (⟨j, hj, rfl⟩ | ⟨-, hnone⟩)
    · have hlt : j < 2048 := h.length_eq ▸ (List.getElem?_eq_some_iff.mp hj).1
      have hval : (UInt16.ofNat j).toNat = j := UInt16.toNat_ofNat_of_lt (by show j < 65536; omega)
      rw [UInt16.zero_add, hval]
      exact hj
    · cases hnone
  · intro hk
    refine Or.inl ⟨k.toNat, hk, ?_⟩
    rw [UInt16.zero_add, UInt16.ofNat_toNat]

/-! ## The packed buffer -/

/-- One bit of an index. -/
theorem and_shiftLeft_ne_zero {idx : UInt16} {k : ℕ} (hk : k ≤ 10) :
    idx &&& (1 : UInt16) <<< UInt16.ofNat k ≠ 0 ↔ idx.toNat.testBit k = true := by
  have hval : ∀ k : Fin 11, ((1 : UInt16) <<< UInt16.ofNat k).toNat = 2 ^ (k : ℕ) := by decide
  rw [Ne, ← UInt16.toNat_inj, UInt16.toNat_and, hval ⟨k, Nat.lt_succ_of_le hk⟩, Nat.and_two_pow]
  cases idx.toNat.testBit k with
  | false => simp
  | true => simp

/-- The bit that a word with an index brings to a position. -/
def wordBit (idx : UInt16) (i q : ℕ) : Bool :=
  decide (q / 11 = i) && idx.toNat.testBit (10 - q % 11)

theorem bitAt_packBit {idx : UInt16} {i b : ℕ} {buf : Bytes} (hb : b ≤ 10)
    (h : i * 11 + 11 ≤ 8 * buf.length) :
    (packBit idx i buf b).length = buf.length
      ∧ ∀ q, bitAt (packBit idx i buf b) q
        = (bitAt buf q || (wordBit idx i q && decide (q % 11 = b))) := by
  unfold packBit
  have hplace : ∀ q, q = i * 11 + b ↔ q / 11 = i ∧ q % 11 = b := by omega
  by_cases hset : idx &&& (1 : UInt16) <<< UInt16.ofNat (10 - b) ≠ 0
  · rw [if_pos hset]
    refine ⟨length_setBit _ _, fun q => ?_⟩
    have hbit := (and_shiftLeft_ne_zero (by omega)).mp hset
    rw [bitAt_setBit (by omega), Bool.or_comm]
    congr 1
    unfold wordBit
    by_cases hq : q = i * 11 + b
    · obtain ⟨hdiv, hmod⟩ := (hplace q).mp hq
      rw [decide_eq_true hq, decide_eq_true hdiv, decide_eq_true hmod, hmod, hbit]
      rfl
    · rw [decide_eq_false hq]
      rcases not_and_or.mp (mt (hplace q).mpr hq) with hdiv | hmod
      · rw [decide_eq_false hdiv]
        rfl
      · rw [decide_eq_false hmod, Bool.and_false]
  · rw [if_neg hset]
    refine ⟨rfl, fun q => ?_⟩
    have hbit : idx.toNat.testBit (10 - b) = false :=
      Bool.eq_false_of_not_eq_true (mt (and_shiftLeft_ne_zero (by omega)).mpr hset)
    unfold wordBit
    by_cases hmod : q % 11 = b
    · rw [hmod, hbit, Bool.and_false, Bool.false_and, Bool.or_false]
    · rw [decide_eq_false hmod, Bool.and_false, Bool.or_false]

/-- The bits of a word that are packed after `n` turns. -/
theorem bitAt_foldl_packBit {idx : UInt16} {i : ℕ} {buf : Bytes}
    (h : i * 11 + 11 ≤ 8 * buf.length) {n : ℕ} (hn : n ≤ 11) :
    ((List.range n).foldl (packBit idx i) buf).length = buf.length
      ∧ ∀ q, bitAt ((List.range n).foldl (packBit idx i) buf) q
        = (bitAt buf q || (wordBit idx i q && decide (q % 11 < n))) := by
  induction n with
  | zero =>
    refine ⟨rfl, fun q => ?_⟩
    rw [decide_eq_false (Nat.not_lt_zero _), Bool.and_false, Bool.or_false]
    rfl
  | succ n ih =>
    obtain ⟨hlen, hbits⟩ := ih (by omega)
    rw [List.range_succ, List.foldl_append]
    generalize (List.range n).foldl (packBit idx i) buf = done at hlen hbits
    obtain ⟨hlen', hbits'⟩ :=
      bitAt_packBit (show n ≤ 10 by omega) (show i * 11 + 11 ≤ 8 * done.length by omega)
    refine ⟨hlen'.trans hlen, fun q => (hbits' q).trans ?_⟩
    have hor : (decide (q % 11 < n) || decide (q % 11 = n)) = decide (q % 11 < n + 1) := by
      rw [← Bool.decide_or, decide_eq_decide]
      omega
    rw [hbits, Bool.or_assoc, ← Bool.and_or_distrib_left, hor]

theorem bitAt_packWord {idx : UInt16} {i : ℕ} {buf : Bytes} (h : i * 11 + 11 ≤ 8 * buf.length) :
    (packWord idx i buf).length = buf.length
      ∧ ∀ q, bitAt (packWord idx i buf) q = (bitAt buf q || wordBit idx i q) := by
  obtain ⟨hlen, hbits⟩ := bitAt_foldl_packBit h (le_refl 11)
  refine ⟨hlen, fun q => ?_⟩
  have hlt : q % 11 < 11 := Nat.mod_lt _ (by decide)
  unfold packWord
  rw [hbits, decide_eq_true hlt, Bool.and_true]

/-- The buffer, once the words are found. -/
def packIndexes (i : ℕ) (idxs : List UInt16) (buf : Bytes) : Bytes :=
  match idxs with
  | [] => buf
  | idx :: idxs => packIndexes (i + 1) idxs (packWord idx i buf)

theorem packWords_eq_some {index : Map Bytes UInt16} {i : ℕ} {words : List Bytes}
    {buf buf' : Bytes} :
    packWords index i words buf = some buf'
      ↔ ∃ idxs, List.Forall₂ (fun word idx => index word = some idx) words idxs
        ∧ buf' = packIndexes i idxs buf := by
  induction words generalizing i buf with
  | nil =>
    unfold packWords
    constructor
    · rintro ⟨⟩
      exact ⟨[], List.Forall₂.nil, rfl⟩
    · rintro ⟨idxs, hidxs, rfl⟩
      cases hidxs
      rfl
  | cons word words ih =>
    unfold packWords
    cases hword : index word with
    | none =>
      refine iff_of_false (by simp) ?_
      rintro ⟨idxs, hidxs, -⟩
      cases hidxs with
      | cons hhead _ =>
        rw [hword] at hhead
        cases hhead
    | some idx =>
      dsimp only
      rw [ih]
      constructor
      · rintro ⟨idxs, hidxs, rfl⟩
        exact ⟨idx :: idxs, List.Forall₂.cons hword hidxs, rfl⟩
      · rintro ⟨idxs, hidxs, rfl⟩
        cases hidxs with
        | cons hhead htail =>
          rw [hword] at hhead
          obtain rfl := Option.some.inj hhead
          exact ⟨_, htail, rfl⟩

/-- The bit of position `q` in the indexes of the words. -/
def indexBit (idxs : List UInt16) (q : ℕ) : Bool :=
  (idxs.getD (q / 11) 0).toNat.testBit (10 - q % 11)

theorem bitAt_packIndexes_from {i : ℕ} {idxs : List UInt16} {buf : Bytes}
    (h : (i + idxs.length) * 11 ≤ 8 * buf.length) :
    (packIndexes i idxs buf).length = buf.length
      ∧ ∀ q, bitAt (packIndexes i idxs buf) q
        = (bitAt buf q || (decide (i ≤ q / 11) && indexBit idxs (q - i * 11))) := by
  induction idxs generalizing i buf with
  | nil => simp [packIndexes, indexBit]
  | cons idx idxs ih =>
    rw [List.length_cons] at h
    have hroom : i * 11 + 11 ≤ 8 * buf.length := by omega
    obtain ⟨hlen, hbits⟩ := bitAt_packWord hroom
    have hroom' : (i + 1 + idxs.length) * 11 ≤ 8 * (packWord idx i buf).length := by
      rw [hlen]
      omega
    obtain ⟨hlen', hbits'⟩ := ih hroom'
    unfold packIndexes
    refine ⟨hlen'.trans hlen, fun q => ?_⟩
    rw [hbits', hbits, Bool.or_assoc]
    congr 1
    unfold wordBit indexBit
    rcases Nat.lt_trichotomy (q / 11) i with hlt | heq | hgt
    · have h1 : ¬q / 11 = i := by omega
      have h2 : ¬i + 1 ≤ q / 11 := by omega
      have h3 : ¬i ≤ q / 11 := by omega
      simp [h1, h2, h3]
    · have h2 : ¬i + 1 ≤ q / 11 := by omega
      have hdiv : (q - i * 11) / 11 = 0 := by omega
      have hmod : (q - i * 11) % 11 = q % 11 := by omega
      simp [heq, hdiv, hmod]
    · have h1 : ¬q / 11 = i := by omega
      have h2 : i + 1 ≤ q / 11 := by omega
      have h3 : i ≤ q / 11 := by omega
      have hdiv : (q - i * 11) / 11 = (q - (i + 1) * 11) / 11 + 1 := by omega
      have hmod : (q - i * 11) % 11 = (q - (i + 1) * 11) % 11 := by omega
      simp [h1, h2, h3, hdiv, hmod]

/-- **The packed buffer.** Its bits are those of the indexes. -/
theorem bitAt_packIndexes {idxs : List UInt16} {n : ℕ} (h : idxs.length * 11 ≤ 8 * n) :
    (packIndexes 0 idxs (List.replicate n 0)).length = n
      ∧ ∀ q, bitAt (packIndexes 0 idxs (List.replicate n 0)) q = indexBit idxs q := by
  have hbuf : (0 + idxs.length) * 11 ≤ 8 * (List.replicate n (0 : UInt8)).length := by
    rw [List.length_replicate, Nat.zero_add]
    exact h
  obtain ⟨hlen, hbits⟩ := bitAt_packIndexes_from hbuf
  rw [List.length_replicate] at hlen
  refine ⟨hlen, fun q => ?_⟩
  rw [hbits, bitAt_replicate_zero]
  simp

/-! ## What is checked -/

section Check

variable {sha256 : Bytes → ByteArr 32}

/-- The bits of `k` checksum bits and their entropy are those of the indexes. -/
def Spells (sha256 : Bytes → ByteArr 32) (k : ℕ) (idxs : List UInt16) (entropy : Bytes) : Prop :=
  ∀ p < 33 * k, (encodedBits sha256 entropy).getD p false = indexBit idxs p

theorem length_encodedBits {entropy : Bytes} {k : ℕ} (hlen : entropy.length = 4 * k)
    (hk : k ≤ 8) : (encodedBits sha256 entropy).length = 33 * k := by
  unfold encodedBits
  rw [List.length_append, length_bits, List.length_take, length_bits, ByteArr.length_toList, hlen]
  omega

theorem getD_encodedBits_entropy {entropy : Bytes} {p : ℕ} (h : p < 8 * entropy.length) :
    (encodedBits sha256 entropy).getD p false = bitAt entropy p := by
  unfold encodedBits
  rw [List.getD_eq_getElem?_getD, List.getElem?_append_left (by rw [length_bits]; exact h),
    getElem?_bits h]
  rfl

theorem getD_encodedBits_checksum {entropy : Bytes} {k b : ℕ} (hlen : entropy.length = 4 * k)
    (hk : k ≤ 8) (hb : b < k) :
    (encodedBits sha256 entropy).getD (32 * k + b) false
      = bitAt (sha256 entropy).toList b := by
  unfold encodedBits
  have hbits : (bits entropy).length = 32 * k := by
    rw [length_bits, hlen]
    omega
  rw [List.getD_eq_getElem?_getD, List.getElem?_append_right (by omega), hbits,
    Nat.add_sub_cancel_left, List.getElem?_take_of_lt (by omega),
    getElem?_bits (by rw [ByteArr.length_toList]; omega)]
  rfl

/-- The entropy that indexes spell, and the check of its hash. -/
theorem spells_iff {k : ℕ} {idxs : List UInt16} {buf entropy : Bytes}
    (hlen : entropy.length = 4 * k) (hk : k ≤ 8) (hbuf : 4 * k ≤ buf.length)
    (hbits : ∀ q, bitAt buf q = indexBit idxs q) :
    Spells sha256 k idxs entropy
      ↔ entropy = buf.take (4 * k)
        ∧ ∀ b < k, bitAt buf (32 * k + b) = bitAt (sha256 (buf.take (4 * k))).toList b := by
  have htake : (buf.take (4 * k)).length = 4 * k := by
    rw [List.length_take]
    omega
  constructor
  · intro hspells
    have hentropy : entropy = buf.take (4 * k) := by
      refine ext_bitAt (hlen.trans htake.symm) fun q hq => ?_
      rw [bitAt_take (by omega), hbits, ← hspells q (by omega), getD_encodedBits_entropy hq]
    refine ⟨hentropy, fun b hb => ?_⟩
    rw [hbits, ← hspells _ (by omega), getD_encodedBits_checksum hlen hk hb, hentropy]
  · rintro ⟨rfl, hcheck⟩ p hp
    rcases Nat.lt_or_ge p (32 * k) with hlt | hge
    · rw [getD_encodedBits_entropy (by omega), bitAt_take (by omega), hbits]
    · have hb : p - 32 * k < k := by omega
      have hp' : p = 32 * k + (p - 32 * k) := by omega
      rw [hp', getD_encodedBits_checksum hlen hk hb, ← hcheck _ hb, hbits]

/-- The counts of words that are accepted, as multiples of three. -/
theorem wordCount_iff {n : ℕ} : n ∈ [12, 15, 18, 21, 24] ↔ ∃ k, 4 ≤ k ∧ k ≤ 8 ∧ n = 3 * k := by
  constructor
  · intro h
    simp only [List.mem_cons, List.not_mem_nil, or_false] at h
    exact ⟨n / 3, by omega, by omega, by omega⟩
  · rintro ⟨k, hlow, hhigh, rfl⟩
    simp only [List.mem_cons, List.not_mem_nil, or_false]
    omega

/-- **What `IsMnemonicValid` checks**: the indexes of the words spell some entropy. -/
theorem isMnemonicValid_spells {index : Map Bytes UInt16} {mnemonic : Bytes} :
    isMnemonicValid index sha256 mnemonic = true
      ↔ ∃ k idxs entropy, 4 ≤ k ∧ k ≤ 8 ∧ (fields mnemonic).length = 3 * k
        ∧ List.Forall₂ (fun word idx => index word = some idx) (fields mnemonic) idxs
        ∧ entropy.length = 4 * k ∧ Spells sha256 k idxs entropy := by
  unfold isMnemonicValid
  dsimp only
  generalize fields mnemonic = words
  by_cases hcount : words.length ∈ [12, 15, 18, 21, 24]
  · rw [if_pos hcount]
    obtain ⟨k, hlow, hhigh, hlen⟩ := wordCount_iff.mp hcount
    have htotal : words.length * 11 = 33 * k := by omega
    have hchecksum : 33 * k / 33 = k := by omega
    have hentropy : 33 * k - k = 32 * k := by omega
    have hbytes : 32 * k / 8 = 4 * k := by omega
    rw [htotal, hchecksum, hentropy, hbytes]
    -- for indexes of these words, the check of the buffer is `Spells`
    have hcheck : ∀ idxs : List UInt16, idxs.length = words.length →
        ((List.range k).all (fun b =>
            readBit (packIndexes 0 idxs (List.replicate ((33 * k + 7) / 8) 0)) (32 * k + b)
              == readBit (sha256 ((packIndexes 0 idxs
                  (List.replicate ((33 * k + 7) / 8) 0)).take (4 * k))).toList b) = true
          ↔ ∃ entropy, entropy.length = 4 * k ∧ Spells sha256 k idxs entropy) := by
      intro idxs hidxs
      have hroom : idxs.length * 11 ≤ 8 * ((33 * k + 7) / 8) := by omega
      obtain ⟨hbuf, hbits⟩ := bitAt_packIndexes hroom
      generalize packIndexes 0 idxs (List.replicate ((33 * k + 7) / 8) 0) = buf at hbuf hbits
      have hle : 4 * k ≤ buf.length := by omega
      simp only [List.all_eq_true, List.mem_range, beq_iff_eq, readBit_inj]
      constructor
      · intro hall
        have htake : (buf.take (4 * k)).length = 4 * k := by
          rw [List.length_take]
          omega
        exact ⟨_, htake, (spells_iff htake hhigh hle hbits).mpr ⟨rfl, hall⟩⟩
      · rintro ⟨entropy, hlength, hspells⟩
        exact ((spells_iff hlength hhigh hle hbits).mp hspells).2
    constructor
    · intro hvalid
      cases hpack : packWords index 0 words (List.replicate ((33 * k + 7) / 8) 0) with
      | none =>
        rw [hpack] at hvalid
        cases hvalid
      | some buf =>
        rw [hpack] at hvalid
        obtain ⟨idxs, hidxs, rfl⟩ := packWords_eq_some.mp hpack
        obtain ⟨entropy, hlength, hspells⟩ := (hcheck idxs hidxs.length_eq.symm).mp hvalid
        exact ⟨k, idxs, entropy, hlow, hhigh, hlen, hidxs, hlength, hspells⟩
    · rintro ⟨k', idxs, entropy, -, -, hlen', hidxs, hlength, hspells⟩
      obtain rfl : k' = k := by omega
      have hpack := packWords_eq_some.mpr ⟨idxs, hidxs,
        Eq.refl (packIndexes 0 idxs (List.replicate ((33 * k' + 7) / 8) 0))⟩
      rw [hpack]
      exact (hcheck idxs hidxs.length_eq.symm).mpr ⟨entropy, hlength, hspells⟩
  · rw [if_neg hcount]
    refine iff_of_false (by simp) ?_
    rintro ⟨k, idxs, entropy, hlow, hhigh, hlen, -⟩
    exact hcount (wordCount_iff.mpr ⟨k, hlow, hhigh, hlen⟩)

end Check

/-! ## Main result -/

section Main

variable {raw : Bytes} {sha256 : Bytes → ByteArr 32}

theorem length_encode {words : List Bytes} {entropy : Bytes} {k : ℕ}
    (hlen : entropy.length = 4 * k) (hk : k ≤ 8) :
    (encode words sha256 entropy).length = 3 * k := by
  unfold encode
  rw [List.length_map, List.length_range, length_encodedBits hlen hk]
  omega

theorem getElem?_encode {words : List Bytes} {entropy : Bytes} {k j : ℕ}
    (hlen : entropy.length = 4 * k) (hk : k ≤ 8) (hj : j < 3 * k) :
    (encode words sha256 entropy)[j]?
      = some (words.getD (groupIndex (encodedBits sha256 entropy) j) []) := by
  unfold encode
  dsimp only
  rw [List.getElem?_map, List.getElem?_range (by rw [length_encodedBits hlen hk]; omega)]
  rfl

/-- The group of a word is its index, where the bits are those of the indexes. -/
theorem groupIndex_eq {k j : ℕ} {idxs : List UInt16} {entropy : Bytes}
    (hspells : Spells sha256 k idxs entropy) (hj : j < 3 * k)
    (hidx : (idxs.getD j 0).toNat < 2048) :
    groupIndex (encodedBits sha256 entropy) j = (idxs.getD j 0).toNat := by
  refine field_eq hidx fun b hb => ?_
  rw [hspells _ (by omega)]
  unfold indexBit
  rw [show (11 * j + b) / 11 = j by omega, show (11 * j + b) % 11 = b by omega]

/-- Indexes that spell the entropy are those of its encoding. -/
theorem eq_encode_of_spells (hraw : IsWordList raw) {k : ℕ} (hk : k ≤ 8) {words : List Bytes}
    {idxs : List UInt16} {entropy : Bytes} (hcount : words.length = 3 * k)
    (hidxs : List.Forall₂ (fun word idx => bip39WordIndex raw word = some idx) words idxs)
    (hlen : entropy.length = 4 * k) (hspells : Spells sha256 k idxs entropy) :
    words = encode (bip39Words raw) sha256 entropy := by
  refine List.ext_getElem? fun j => ?_
  by_cases hj : j < 3 * k
  · have hj1 : j < words.length := hcount ▸ hj
    have hj2 : j < idxs.length := hidxs.length_eq ▸ hj1
    have hword : bip39WordIndex raw (words.getD j []) = some (idxs.getD j 0) := by
      rw [List.getD_eq_getElem _ _ hj1, List.getD_eq_getElem _ _ hj2]
      exact hidxs.get hj1 hj2
    rw [bip39WordIndex_eq_some hraw] at hword
    have hbound : (idxs.getD j 0).toNat < 2048 :=
      hraw.length_eq ▸ (List.getElem?_eq_some_iff.mp hword).1
    have hget : (bip39Words raw).getD (idxs.getD j 0).toNat [] = words.getD j [] := by
      rw [List.getD_eq_getElem?_getD, hword]
      rfl
    rw [getElem?_encode hlen hk hj, groupIndex_eq hspells hj hbound, hget,
      List.getD_eq_getElem _ _ (hcount ▸ hj), List.getElem?_eq_getElem]
  · rw [List.getElem?_eq_none (by omega),
      List.getElem?_eq_none (by rw [length_encode hlen hk]; omega)]

/-- The indexes of an encoding. -/
def encodedIndexes (sha256 : Bytes → ByteArr 32) (k : ℕ) (entropy : Bytes) : List UInt16 :=
  (List.range (3 * k)).map fun j => UInt16.ofNat (groupIndex (encodedBits sha256 entropy) j)

theorem toNat_getD_encodedIndexes {k j : ℕ} {entropy : Bytes} (hj : j < 3 * k) :
    ((encodedIndexes sha256 k entropy).getD j 0).toNat
      = groupIndex (encodedBits sha256 entropy) j := by
  unfold encodedIndexes
  rw [List.getD_eq_getElem?_getD, List.getElem?_map, List.getElem?_range hj]
  have hlt : groupIndex (encodedBits sha256 entropy) j < 2048 := field_lt _ _ _
  exact UInt16.toNat_ofNat_of_lt (lt_trans hlt (by decide))

/-- The encoding of an entropy has indexes, and they spell the entropy. -/
theorem encode_spells (hraw : IsWordList raw) {k : ℕ} (hk : k ≤ 8) {entropy : Bytes}
    (hlen : entropy.length = 4 * k) :
    List.Forall₂ (fun word idx => bip39WordIndex raw word = some idx)
        (encode (bip39Words raw) sha256 entropy) (encodedIndexes sha256 k entropy)
      ∧ Spells sha256 k (encodedIndexes sha256 k entropy) entropy := by
  have hlength : (encodedIndexes sha256 k entropy).length = 3 * k := by
    unfold encodedIndexes
    rw [List.length_map, List.length_range]
  constructor
  · refine List.forall₂_iff_get.mpr ⟨(length_encode hlen hk).trans hlength.symm, ?_⟩
    intro j hj hj'
    have hj3 : j < 3 * k := hlength ▸ hj'
    have hidx : ((encodedIndexes sha256 k entropy).getD j 0).toNat
        = groupIndex (encodedBits sha256 entropy) j := toNat_getD_encodedIndexes hj3
    have hlt : groupIndex (encodedBits sha256 entropy) j < (bip39Words raw).length :=
      hraw.length_eq ▸ field_lt _ _ _
    have hword : (encode (bip39Words raw) sha256 entropy)[j]? = _ := getElem?_encode hlen hk hj3
    rw [List.getElem?_eq_getElem hj] at hword
    rw [bip39WordIndex_eq_some hraw, List.get_eq_getElem, List.get_eq_getElem,
      Option.some.inj hword]
    rw [List.getD_eq_getElem _ _ hj'] at hidx
    show (bip39Words raw)[_]? = _
    rw [hidx, List.getElem?_eq_getElem hlt, List.getD_eq_getElem _ _ hlt]
  · intro p hp
    unfold indexBit
    rw [toNat_getD_encodedIndexes (by omega)]
    have hbit := testBit_field ((encodedBits sha256 entropy).getD · false)
      (Nat.mod_lt p (show 0 < 11 by decide)) (11 * (p / 11))
    rw [Nat.div_add_mod] at hbit
    exact hbit.symm

/-- The words of an encoding are valid. -/
theorem isMnemonicValid_of_encode (hraw : IsWordList raw) {mnemonic entropy : Bytes}
    (hmem : entropy.length ∈ [16, 20, 24, 28, 32])
    (hwords : fields mnemonic = encode (bip39Words raw) sha256 entropy) :
    isMnemonicValid (bip39WordIndex raw) sha256 mnemonic = true := by
  simp only [List.mem_cons, List.not_mem_nil, or_false] at hmem
  have hlen : entropy.length = 4 * (entropy.length / 4) := by omega
  have hhigh : entropy.length / 4 ≤ 8 := by omega
  obtain ⟨hidxs, hspells⟩ := @encode_spells raw sha256 hraw _ hhigh entropy hlen
  refine isMnemonicValid_spells.mpr
    ⟨entropy.length / 4, _, entropy, by omega, hhigh, ?_, ?_, hlen, hspells⟩
  · rw [hwords]
    exact length_encode hlen hhigh
  · rw [hwords]
    exact hidxs

/-- **A mnemonic is valid exactly if its words encode some entropy.** -/
theorem isMnemonicValid_iff (hraw : IsWordList raw) (sha256 : Bytes → ByteArr 32)
    (mnemonic : Bytes) :
    isMnemonicValid (bip39WordIndex raw) sha256 mnemonic = true
      ↔ ∃ entropy : Bytes, entropy.length ∈ [16, 20, 24, 28, 32]
        ∧ fields mnemonic = encode (bip39Words raw) sha256 entropy := by
  constructor
  · intro hvalid
    obtain ⟨k, idxs, entropy, hlow, hhigh, hcount, hidxs, hlen, hspells⟩ :=
      isMnemonicValid_spells.mp hvalid
    refine ⟨entropy, ?_, eq_encode_of_spells hraw hhigh hcount hidxs hlen hspells⟩
    simp only [List.mem_cons, List.not_mem_nil, or_false]
    omega
  · rintro ⟨entropy, hmem, hwords⟩
    exact isMnemonicValid_of_encode hraw hmem hwords

end Main

/-! ## A word list -/

/-- A word of two letters. -/
def sampleWord (i : ℕ) : Bytes := [UInt8.ofNat (64 + i / 32), UInt8.ofNat (64 + i % 32)]

/-- The words of two letters, one a line. -/
def sampleRaw : Bytes := ((List.range 2048).map sampleWord).flatMap (· ++ [10])

theorem toNat_sampleWord {i : ℕ} (h : i < 2048) :
    (sampleWord i).map UInt8.toNat = [64 + i / 32, 64 + i % 32] := by
  unfold sampleWord
  have hfirst : (UInt8.ofNat (64 + i / 32)).toNat = 64 + i / 32 :=
    UInt8.toNat_ofNat_of_lt (by show _ < 256; omega)
  have hsecond : (UInt8.ofNat (64 + i % 32)).toNat = 64 + i % 32 :=
    UInt8.toNat_ofNat_of_lt (by show _ < 256; omega)
  rw [List.map_cons, List.map_cons, List.map_nil, hfirst, hsecond]

theorem bip39Words_sampleRaw : bip39Words sampleRaw = (List.range 2048).map sampleWord := by
  refine lines_words fun word hword => ?_
  obtain ⟨i, hi, rfl⟩ := List.mem_map.mp hword
  have hbytes := toNat_sampleWord (List.mem_range.mp hi)
  have hnot : ∀ c : UInt8, c.toNat < 64 → c ∉ sampleWord i := by
    intro c hc hmem
    have hmem' := List.mem_map_of_mem (f := UInt8.toNat) hmem
    rw [hbytes] at hmem'
    simp only [List.mem_cons, List.not_mem_nil, or_false] at hmem'
    omega
  exact ⟨hnot 10 (by decide), hnot 13 (by decide)⟩

theorem isWordList_sampleRaw : IsWordList sampleRaw := by
  constructor
  · rw [bip39Words_sampleRaw, List.length_map, List.length_range]
  · rw [bip39Words_sampleRaw]
    refine List.Nodup.map_on ?_ List.nodup_range
    intro i hi j hj hsame
    have hbytes := congrArg (List.map UInt8.toNat) hsame
    rw [toNat_sampleWord (List.mem_range.mp hi), toNat_sampleWord (List.mem_range.mp hj)] at hbytes
    simp only [List.cons.injEq, and_true] at hbytes
    omega

/-- The first word twelve times, with spaces between and a newline at the end. -/
def sampleMnemonic : Bytes := (List.replicate 11 [64, 64, 32]).flatten ++ [64, 64, 10]

theorem fields_sampleMnemonic :
    fields sampleMnemonic
      = encode (bip39Words sampleRaw) (fun _ => ByteArr.zero 32) (List.replicate 16 0) := by
  rw [bip39Words_sampleRaw]
  decide +kernel

/-- It encodes sixteen zeros, if their hash starts with zeros. -/
theorem isMnemonicValid_sample :
    isMnemonicValid (bip39WordIndex sampleRaw) (fun _ => ByteArr.zero 32) sampleMnemonic = true :=
  (isMnemonicValid_iff isWordList_sampleRaw _ sampleMnemonic).mpr
    ⟨List.replicate 16 0, by decide, fields_sampleMnemonic⟩

end SolanaGo.Mnemonic
