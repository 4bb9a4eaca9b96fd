/-
The reads of the `binary` package against the writes.

A read returns its value and the decoder afterwards; whether it worked is only known
from the decoder's error. `Reads P enc read` is what the callers need of one, in both
directions: in front of an encoding the read returns the value and moves over exactly
those bytes, and a read that leaves no error had an encoding in front of it. It is
proved for the fixed widths, for the tags, and for the two variable-length integers,
whose encodings are canonical: the compact-u16 reader accepts what `decodeShortvecLen`
accepts, and the LEB128 loop is met in the middle, with the bytes behind it as the
value accumulated so far.
-/
import SolanaGo.Bin.Encoder

set_option autoImplicit false

namespace SolanaGo.Bin

open Codec hiding Decoder

namespace Decoder

/-! ## The reads -/

/-- `ReadInt64`. -/
def readInt64 (d : Decoder) : Int64 × Decoder :=
  let (v, d) := d.readUint64
  (v.toInt64, d)

/-- `ReadHash`. -/
def readHash : Decoder → Hash × Decoder := readPublicKey

/-- `ReadOption`. -/
def readOption : Decoder → Bool × Decoder := readBool

/-- The byte at an offset from the position, for an offset below `remaining`. -/
def byteAt (d : Decoder) (i : ℕ) : UInt8 := d.data[d.pos + i]?.getD 0

/-- `readCompactU16Slow`. -/
def readCompactU16Slow (d : Decoder) : ℕ × Decoder :=
  if d.err.isSome ∨ d.remaining < 1 then (0, d.fail .unexpectedEOF 1)
  else
    let b0 := d.byteAt 0
    if b0 < 0x80 then (b0.toNat, { d with pos := d.pos + 1 })
    else
      let value := (b0 &&& 0x7F).toNat
      if d.remaining < 2 then (0, d.fail .unexpectedEOF 2)
      else
        let b1 := d.byteAt 1
        if b1 = 0 then (0, d.fail .nonCanonical b1.toNat)
        else
          let value := value ||| ((b1 &&& 0x7F).toNat <<< 7)
          if b1 < 0x80 then (value, { d with pos := d.pos + 2 })
          else if d.remaining < 3 then (0, d.fail .unexpectedEOF 3)
          else
            let b2 := d.byteAt 2
            if b2 = 0 then (0, d.fail .nonCanonical b2.toNat)
            else
              let value := value ||| ((b2 &&& 0x7F).toNat <<< 14)
              if 0x80 ≤ b2 ∨ 0xFFFF < value then (0, d.fail .overflow value)
              else (value, { d with pos := d.pos + 3 })

/-- `ReadCompactU16`. -/
def readCompactU16 (d : Decoder) : ℕ × Decoder :=
  if d.err.isNone ∧ 1 ≤ d.remaining ∧ d.byteAt 0 < 0x80 then
    ((d.byteAt 0).toNat, { d with pos := d.pos + 1 })
  else d.readCompactU16Slow

/-- The loop of `ReadVarUint64`, with `fuel` of its ten turns left. -/
def readVarUint64Loop (d : Decoder) : (fuel index : ℕ) → (value : UInt64) → UInt64 × Decoder
  | 0, _, _ => (0, d.fail .overflow 10)
  | fuel + 1, index, value =>
    if d.remaining ≤ index then (0, d.fail .unexpectedEOF (index + 1))
    else
      let current := d.byteAt index
      if index = 9 ∧ 1 < current then (0, d.fail .overflow (index + 1))
      else
        let value := value ||| ((current &&& 0x7F).toUInt64 <<< UInt64.ofNat (7 * index))
        if current < 0x80 then
          if 0 < index ∧ current = 0 then (0, d.fail .nonCanonical (index + 1))
          else (value, { d with pos := d.pos + index + 1 })
        else readVarUint64Loop d fuel (index + 1) value

/-- `ReadVarUint64`. -/
def readVarUint64 (d : Decoder) : UInt64 × Decoder :=
  if d.err.isSome then (0, d) else d.readVarUint64Loop 10 0 0

/-! ## The two laws of a read -/

/-- What is left to read. -/
def rest (d : Decoder) : Bytes := d.data.drop d.pos

/-- The decoder moved over `n` bytes. -/
def past (d : Decoder) (n : ℕ) : Decoder := { d with pos := d.pos + n }

@[simp] theorem past_err (d : Decoder) (n : ℕ) : (d.past n).err = d.err := rfl

@[simp] theorem past_past (d : Decoder) (m n : ℕ) : (d.past m).past n = d.past (m + n) := by
  unfold past
  rw [Nat.add_assoc]

theorem rest_past (d : Decoder) (n : ℕ) : (d.past n).rest = d.rest.drop n := by
  unfold rest past
  rw [List.drop_drop]

/-- Moving over the front leaves what is behind it. -/
theorem rest_past_of_eq {d : Decoder} {bs t : Bytes} (h : d.rest = bs ++ t) :
    (d.past bs.length).rest = t := by
  rw [rest_past, h, List.drop_left]

theorem length_rest (d : Decoder) : d.rest.length = d.remaining := List.length_drop

/-- `read` reads what `enc` writes, and nothing else. -/
structure Reads {α : Type} (P : α → Prop) (enc : α → Bytes) (read : Decoder → α × Decoder) :
    Prop where
  inverts : ∀ {d : Decoder} {a : α} {t : Bytes}, P a → d.err = none → d.rest = enc a ++ t →
    read d = (a, d.past (enc a).length)
  accepts : ∀ {d : Decoder} {a : α} {d' : Decoder}, read d = (a, d') → d'.err = none →
    d.err = none ∧ P a ∧ d' = d.past (enc a).length ∧ d.rest = enc a ++ d'.rest

/-- A read in front of an encoding, and the decoder it leaves. -/
theorem Reads.next {α : Type} {P : α → Prop} {enc : α → Bytes} {read : Decoder → α × Decoder}
    (h : Reads P enc read) {d : Decoder} {a : α} {t : Bytes} (ha : P a) (herr : d.err = none)
    (hrest : d.rest = enc a ++ t) :
    ∃ d', read d = (a, d') ∧ d'.err = none ∧ d'.rest = t ∧ d' = d.past (enc a).length :=
  ⟨_, h.inverts ha herr hrest, herr, rest_past_of_eq hrest, rfl⟩

section Fixed

variable {α : Type} {P : α → Prop} {enc : α → Bytes} {n : ℕ} {zero : α} {parse : Bytes → α}

/-- A failed read leaves an error. -/
theorem ne_of_fail {d d' : Decoder} {s : Sentinel} {arg : ℤ} (herr : d'.err = none) :
    d.fail s arg ≠ d' := by
  rintro rfl
  have hsome := fail_err_isSome d s arg
  rw [herr] at hsome
  simp at hsome

theorem window_eq (d : Decoder) (n : ℕ) : d.window n = d.rest.take n := rfl

/-- Enough bytes are left in front of an encoding. -/
theorem inBounds {d : Decoder} {bs t : Bytes} (hpos : 0 < bs.length) (h : d.rest = bs ++ t) :
    d.pos + bs.length ≤ d.data.length := by
  have hlen := length_rest d
  rw [h, List.length_append] at hlen
  unfold remaining at hlen
  omega

/-- **Fixed widths.** -/
theorem readFixed_reads (hn : 0 < n) (hlen : ∀ a, (enc a).length = n)
    (hparse : ∀ a, P a → parse (enc a) = a)
    (henc : ∀ bs, bs.length = n → P (parse bs) ∧ enc (parse bs) = bs) :
    Reads P enc (readFixed n zero parse) := by
  refine ⟨fun {d a t} ha herr hrest => ?_, fun {d a d'} hread herr => ?_⟩
  · have hbound := inBounds (by rw [hlen]; exact hn) hrest
    rw [hlen] at hbound
    have hwindow : d.window n = enc a := by
      rw [window_eq, hrest, ← hlen a, List.take_left]
    rw [readFixed_ok herr hbound, hwindow, hparse a ha, hlen]
    rfl
  · have hadv := readFixed_advances hread herr
    rw [readFixed_ok hadv.before hadv.inBounds] at hread
    obtain ⟨rfl, rfl⟩ := Prod.mk.inj hread
    have hwindow : (d.window n).length = n := by
      have hrem := length_rest d
      have hin := hadv.inBounds
      unfold remaining at hrem
      rw [window_eq, List.length_take]
      omega
    obtain ⟨hP, hbs⟩ := henc _ hwindow
    refine ⟨hadv.before, hP, ?_, ?_⟩
    · rw [hlen]
      rfl
    · rw [hbs]
      show d.rest = d.window n ++ (d.past n).rest
      rw [window_eq, rest_past, List.take_append_drop]

end Fixed

/-- Little-endian words. -/
theorem readWord_reads {α : Type} {n : ℕ} {zero : α} {toNat : α → ℕ} {ofNat : ℕ → α} (hn : 0 < n)
    (hof : ∀ v, ofNat (toNat v) = v) (hlt : ∀ v, toNat v < 256 ^ n)
    (hto : ∀ k, k < 256 ^ n → toNat (ofNat k) = k) : Reads (fun _ => True)
      (fun v => leBytes n (toNat v)) (readFixed n zero fun bs => ofNat (leValue bs)) := by
  refine readFixed_reads hn (fun v => length_leBytes n _) (fun v _ => ?_) fun bs hbs => ?_
  · rw [leValue_leBytes, Nat.mod_eq_of_lt (hlt v), hof]
  · have hvalue := leValue_lt bs
    rw [hbs] at hvalue
    refine ⟨trivial, ?_⟩
    rw [hto _ hvalue, ← hbs, leBytes_leValue]

theorem readUint64_reads : Reads (fun _ => True) (fun v : UInt64 => leBytes 8 v.toNat) readUint64 :=
  readWord_reads (by decide) (fun _ => UInt64.ofNat_toNat) UInt64.toNat_lt
    fun _ => UInt64.toNat_ofNat_of_lt'

theorem readUint8_reads : Reads (fun _ => True) (fun v : UInt8 => [v]) readUint8 := by
  refine readFixed_reads (by decide) (fun v => rfl) (fun v _ => rfl) fun bs hbs => ⟨trivial, ?_⟩
  obtain ⟨b, rfl⟩ := List.length_eq_one_iff.mp hbs
  rfl

/-- Arrays of bytes. -/
theorem readArray_reads {n : ℕ} (hn : 0 < n) : Reads (fun _ => True) (fun v : ByteArr n => v.toList)
    (readFixed n (ByteArr.zero n) fun bs => ByteArr.copyFrom n bs) := by
  refine readFixed_reads hn (fun v => v.length_toList)
    (fun v _ => ByteArr.copyFrom_toList v) fun bs hbs => ⟨trivial, ?_⟩
  rw [ByteArr.toList_copyFrom (Nat.le_of_eq hbs.symm)]
  exact List.take_of_length_le (Nat.le_of_eq hbs)

theorem readHash_reads : Reads (fun _ => True) (fun v : Hash => v.toList) readHash :=
  readArray_reads (by decide)

theorem readInt64_reads :
    Reads (fun _ => True) (fun v : Int64 => leBytes 8 v.toUInt64.toNat) readInt64 := by
  refine ⟨fun {d a t} _ herr hrest => ?_, fun {d a d'} hread herr => ?_⟩
  · unfold readInt64
    rw [readUint64_reads.inverts trivial herr hrest]
    dsimp only
    rw [Int64.toInt64_toUInt64]
  · unfold readInt64 at hread
    obtain ⟨rfl, rfl⟩ := Prod.mk.inj hread
    obtain ⟨hnone, -, hd', hrest⟩ := readUint64_reads.accepts rfl herr
    rw [UInt64.toUInt64_toInt64]
    exact ⟨hnone, trivial, hd', hrest⟩

/-- Tags of `n` bytes. -/
theorem readTag_reads {n : ℕ} (hn : 0 < n) :
    Reads (fun _ => True) (fun b : Bool => leBytes n (if b then 1 else 0)) (readTag n) := by
  have hvalue : ∀ b : Bool, leValue (leBytes n (if b then 1 else 0)) = if b then 1 else 0 := by
    intro b
    have hone : 1 < 256 ^ n := Nat.one_lt_pow (by omega) (by decide)
    rw [leValue_leBytes, Nat.mod_eq_of_lt]
    split <;> omega
  refine ⟨fun {d b t} _ herr hrest => ?_, fun {d b d'} hread herr => ?_⟩
  · have hlen := length_leBytes n (if b then 1 else 0)
    have hbound := inBounds (by rw [hlen]; exact hn) hrest
    have hwindow : d.window n = leBytes n (if b then 1 else 0) := by
      rw [window_eq, hrest, List.take_left' hlen]
    have htag : leValue (d.window n) ≤ 1 := by
      rw [hwindow, hvalue]
      split <;> omega
    rw [hlen] at hbound
    rw [readTag_ok herr hbound htag, hwindow, hvalue, hlen]
    cases b <;> rfl
  · unfold readTag at hread
    split at hread
    · exact absurd (Prod.mk.inj hread).2 (ne_of_fail herr)
    · next hshort =>
        rw [not_or, Bool.not_eq_true, Option.isSome_eq_false_iff, Option.isNone_iff_eq_none] at hshort
        split at hread
        · exact absurd (Prod.mk.inj hread).2 (ne_of_fail herr)
        · next htag =>
            obtain ⟨rfl, rfl⟩ := Prod.mk.inj hread
            have hwindow : (d.window n).length = n := by
              have hrem := length_rest d
              unfold remaining at hrem
              rw [window_eq, List.length_take]
              omega
            have hbytes : leBytes n (if decide (leValue (d.window n) = 1) then 1 else 0)
                = d.window n := by
              have hback := leBytes_leValue (d.window n)
              rw [hwindow] at hback
              simp only [decide_eq_true_eq]
              by_cases h1 : leValue (d.window n) = 1
              · rw [if_pos h1, ← h1, hback]
              · have h0 : leValue (d.window n) = 0 := by omega
                rw [if_neg h1, ← h0, hback]
            refine ⟨hshort.1, trivial, ?_, ?_⟩
            · rw [length_leBytes]
              rfl
            · rw [hbytes]
              show d.rest = d.window n ++ (d.past n).rest
              rw [window_eq, rest_past, List.take_append_drop]

/-- A one-byte tag. -/
theorem readOption_reads :
    Reads (fun _ => True) (fun b : Bool => [if b then (1 : UInt8) else 0]) readOption := by
  have hbytes : (fun b : Bool => [if b then (1 : UInt8) else 0])
      = fun b : Bool => leBytes 1 (if b then 1 else 0) := by
    funext b
    cases b <;> rfl
  rw [hbytes]
  exact readTag_reads (by decide)

/-! ## Compact lengths -/

/-- The byte at an offset is a byte of what is left. -/
theorem byteAt_eq (d : Decoder) (i : ℕ) : d.byteAt i = d.rest[i]?.getD 0 := by
  unfold byteAt rest
  rw [List.getElem?_drop]

/-- The fast path is the first branch of the slow one. -/
theorem readCompactU16_eq_slow {d : Decoder} (herr : d.err = none) :
    d.readCompactU16 = d.readCompactU16Slow := by
  unfold readCompactU16
  split
  · next h =>
      have hguard : ¬(d.err.isSome = true ∨ d.remaining < 1) := by
        rw [herr]
        simp only [Option.isSome_none, Bool.false_eq_true, false_or]
        omega
      unfold readCompactU16Slow
      rw [if_neg hguard]
      dsimp only
      rw [if_pos h.2.2]
  · rfl

/-- **`ReadCompactU16`** accepts what `decodeShortvecLen` accepts. -/
theorem readCompactU16_eq {d : Decoder} (herr : d.err = none) :
    match decodeShortvecLen d.rest with
    | .ok (v, k) => d.readCompactU16 = (v, d.past k)
    | .error _ => ∃ s arg, d.readCompactU16 = (0, d.fail s arg) := by
  have hslow : d.readCompactU16 = d.readCompactU16Slow := readCompactU16_eq_slow herr
  have hnot : d.err.isSome = false := by rw [herr]; rfl
  have hlen := length_rest d
  rw [hslow]
  unfold readCompactU16Slow decodeShortvecLen
  simp only [byteAt_eq, hnot, ← hlen]
  generalize d.rest = r
  have hlt : ∀ b : UInt8, b < 0x80 ↔ b.toNat < 128 := fun b => UInt8.lt_iff_toNat_lt
  have hle : ∀ b : UInt8, 0x80 ≤ b ↔ ¬b.toNat < 128 := fun b => by
    rw [UInt8.le_iff_toNat_le, Nat.not_lt]
    rfl
  have hmask : ∀ b : UInt8, b.toNat &&& 127 = b.toNat % 128 := fun b => by
    rw [← and_7f_toNat, UInt8.toNat_and]
    rfl
  -- One case for each number of bytes the source asks for.
  cases r with
  | nil => simp [decodeShortvecLoop]
  | cons b0 t =>
    rw [decodeShortvecLoop_succ rfl (by norm_num)]
    by_cases h0 : b0.toNat < 128
    · have hfit : ¬0xFFFF < b0.toNat := by omega
      simp [hlt, h0, hfit, past]
    · have hv : b0.toNat % 128 < 2 ^ 7 := Nat.mod_lt _ (by norm_num)
      simp only [Nat.mul_zero, Nat.pow_zero, Nat.mul_one, Nat.zero_add, Nat.lt_irrefl, false_and,
        if_false, h0]
      cases t with
      | nil => simp [decodeShortvecLoop, hlt, h0]
      | cons b1 t =>
        rw [decodeShortvecLoop_succ rfl (by simpa using hv)]
        have htwo : ¬t.length + 1 + 1 < 2 := by omega
        have hor1 := or_shiftLeft_of_lt (b := b1.toNat % 128) hv
        by_cases hz : b1 = 0
        · simp [hlt, h0, hz, htwo]
        · by_cases h1 : b1.toNat < 128
          · have hfit : ¬0xFFFF < b0.toNat % 128 + b1.toNat * 128 := by omega
            rw [Nat.mod_eq_of_lt h1] at hor1
            simp [hlt, h0, hz, h1, hmask, hor1, hfit, htwo, Nat.mod_eq_of_lt h1, past]
          · have hv1 : b0.toNat % 128 + b1.toNat % 128 * 128 < 2 ^ 14 := by omega
            simp only [h1, hz, Nat.mul_one, and_false, if_false]
            cases t with
            | nil => simp [decodeShortvecLoop, hlt, h0, hz, h1]
            | cons b2 t =>
              rw [decodeShortvecLoop_succ rfl (by simpa using hv1)]
              have htwo : ¬t.length + 1 + 1 + 1 < 2 := by omega
              have hthree : ¬t.length + 1 + 1 + 1 < 3 := by omega
              have hor2 := or_shiftLeft_of_lt (b := b2.toNat % 128) hv1
              by_cases hz2 : b2 = 0
              · simp [hlt, h0, hz, h1, hz2, htwo, hthree]
              · by_cases h2 : b2.toNat < 128
                · rw [Nat.mod_eq_of_lt h2] at hor2
                  by_cases hfit : 0xFFFF < b0.toNat % 128 + b1.toNat % 128 * 128
                      + b2.toNat * 16384
                  · simp [hlt, hle, h0, hz, h1, hz2, h2, hmask, hor1, hor2, hfit, htwo, hthree,
                      Nat.mod_eq_of_lt h2]
                  · simp [hlt, hle, h0, hz, h1, hz2, h2, hmask, hor1, hor2, hfit, htwo, hthree,
                      Nat.mod_eq_of_lt h2, past]
                · simp [decodeShortvecLoop, hlt, hle, h0, hz, h1, hz2, h2, htwo, hthree]

/-- A decoder that has failed stays as it is. -/
theorem fail_of_isSome {d : Decoder} (h : d.err.isSome = true) (s : Sentinel) (arg : ℤ) :
    d.fail s arg = d := by
  unfold fail
  split
  · rfl
  · next hnone =>
      rw [hnone] at h
      simp at h

theorem readCompactU16_of_isSome {d : Decoder} (h : d.err.isSome = true) :
    d.readCompactU16 = (0, d) := by
  have hnot : ¬(d.err.isNone = true ∧ 1 ≤ d.remaining ∧ d.byteAt 0 < 0x80) := by
    rintro ⟨hnone, -⟩
    rw [Option.isNone_iff_eq_none.mp hnone] at h
    simp at h
  unfold readCompactU16 readCompactU16Slow
  rw [if_neg hnot, if_pos (Or.inl h), fail_of_isSome h]

theorem readCompactU16_reads : Reads (· ≤ 0xFFFF) appendShortvecLen readCompactU16 := by
  refine ⟨fun {d v t} hv herr hrest => ?_, fun {d v d'} hread herr => ?_⟩
  · have heq := readCompactU16_eq herr
    rw [hrest, decodeShortvecLen_append, if_pos hv] at heq
    rw [heq, appendShortvecLen_length]
  · have hnone : d.err = none := by
      by_contra hsome
      have hsome' := Option.isSome_iff_ne_none.mpr hsome
      rw [readCompactU16_of_isSome hsome'] at hread
      rw [← (Prod.mk.inj hread).2] at herr
      exact hsome herr
    have heq := readCompactU16_eq hnone
    split at heq
    · next v' k hdec =>
        obtain ⟨rfl, rfl⟩ := Prod.mk.inj (hread.symm.trans heq)
        obtain ⟨hle, hk, hrest⟩ := decodeShortvecLen_canonical hdec
        rw [appendShortvecLen_length, ← hk, rest_past]
        exact ⟨hnone, hle, rfl, hrest⟩
    · obtain ⟨s, arg, hfail⟩ := heq
      rw [hread] at hfail
      exact absurd (Prod.mk.inj hfail).2.symm (ne_of_fail herr)

/-! ## LEB128 -/

section Var

variable {d : Decoder} {index : ℕ} {value : UInt64}

/-- A byte's seven bits above the accumulated value. -/
theorem toNat_or_payload (hindex : index ≤ 9) (hv : value.toNat < 2 ^ (7 * index)) {c : UInt8}
    (hfit : c.toNat % 128 * 2 ^ (7 * index) < 2 ^ 64) :
    (value ||| ((c &&& 0x7F).toUInt64 <<< UInt64.ofNat (7 * index))).toNat
      = value.toNat + c.toNat % 128 * 2 ^ (7 * index) := by
  have hshift : (UInt64.ofNat (7 * index)).toNat % 64 = 7 * index := by
    rw [UInt64.toNat_ofNat']
    omega
  rw [← Nat.shiftLeft_eq] at hfit
  rw [UInt64.toNat_or, UInt64.toNat_shiftLeft, UInt8.toNat_toUInt64, and_7f_toNat, hshift,
    Nat.mod_eq_of_lt hfit, or_shiftLeft_of_lt hv]

/-- A byte that passed the check on the tenth fits the word. -/
theorem payload_lt {c : UInt8} (hindex : index ≤ 9) (hlast : ¬(index = 9 ∧ 1 < c.toNat)) :
    c.toNat % 128 * 2 ^ (7 * index) < 2 ^ 64 := by
  by_cases h9 : index = 9
  · have hc : c.toNat ≤ 1 := by
      by_contra h1
      exact hlast ⟨h9, Nat.lt_of_not_le h1⟩
    subst h9
    omega
  · have hpow : 2 ^ (7 * index) ≤ 2 ^ 56 := Nat.pow_le_pow_right (by norm_num) (by omega)
    have hmul : c.toNat % 128 * 2 ^ (7 * index) ≤ 127 * 2 ^ 56 :=
      Nat.mul_le_mul (by omega) hpow
    omega

/-- One turn of the loop, with the masks read as arithmetic. -/
theorem readVarUint64Loop_succ {fuel : ℕ} {c : UInt8} {t : Bytes} (hrest : d.rest.drop index = c :: t) :
    d.readVarUint64Loop (fuel + 1) index value
      = if index = 9 ∧ 1 < c.toNat then (0, d.fail .overflow (index + 1))
        else if c.toNat < 128 then
          if 0 < index ∧ c = 0 then (0, d.fail .nonCanonical (index + 1))
          else (value ||| ((c &&& 0x7F).toUInt64 <<< UInt64.ofNat (7 * index)),
            d.past (index + 1))
        else d.readVarUint64Loop fuel (index + 1)
          (value ||| ((c &&& 0x7F).toUInt64 <<< UInt64.ofNat (7 * index))) := by
  have hlen : ¬d.remaining ≤ index := by
    have hdrop := congrArg List.length hrest
    rw [List.length_drop, List.length_cons, length_rest] at hdrop
    omega
  have hbyte : d.byteAt index = c := by
    rw [byteAt_eq, ← Nat.add_zero index, ← List.getElem?_drop, hrest]
    rfl
  have hone : (1 < c) = (1 < c.toNat) := propext UInt8.lt_iff_toNat_lt
  have hlow : (c < 0x80) = (c.toNat < 128) := propext UInt8.lt_iff_toNat_lt
  rw [readVarUint64Loop, if_neg hlen]
  dsimp only
  rw [hbyte]
  simp only [hone, hlow]
  rfl

/-- The loop in front of an encoding it is in the middle of. -/
theorem readVarUint64Loop_append {fuel n : ℕ} {code t : Bytes} (h : Leb128 n code)
    (hfuel : index + fuel = 10) (hv : value.toNat < 2 ^ (7 * index)) (hn : 0 < index → n ≠ 0)
    (hfit : value.toNat + n * 2 ^ (7 * index) < 2 ^ 64) (hrest : d.rest.drop index = code ++ t) :
    d.readVarUint64Loop fuel index value
      = (UInt64.ofNat (value.toNat + n * 2 ^ (7 * index)), d.past (index + code.length)) := by
  induction fuel generalizing index value n code with
  | zero =>
    -- Ten bytes are behind: `n` is at least one, and weighs at least `2 ^ 70`.
    obtain rfl : index = 10 := hfuel
    have hn0 : n ≠ 0 := hn (by omega)
    omega
  | succ fuel ih =>
    have hindex : index ≤ 9 := by omega
    cases h with
    | @last b hb =>
      have hz : ¬(0 < index ∧ b = 0) := by
        rintro ⟨h0, rfl⟩
        exact hn h0 rfl
      have hlast : ¬(index = 9 ∧ 1 < b.toNat) := by
        rintro ⟨rfl, h1⟩
        omega
      have hvalue := toNat_or_payload hindex hv (payload_lt hindex hlast)
      rw [Nat.mod_eq_of_lt hb] at hvalue
      rw [readVarUint64Loop_succ hrest, if_neg hlast, if_pos hb, if_neg hz, ← hvalue,
        UInt64.ofNat_toNat]
      rfl
    | @more b n code hb hn' hcode =>
      have hsum := add_payload_add value.toNat (b.toNat % 128) n index
      have hlast : ¬(index = 9 ∧ 1 < b.toNat) := by
        rintro ⟨rfl, -⟩
        omega
      have hvalue := toNat_or_payload hindex hv (payload_lt hindex hlast)
      have hv' := add_payload_lt hv (Nat.mod_lt b.toNat (by norm_num : 0 < 128))
      have htail : d.rest.drop (index + 1) = code ++ t := by
        rw [← List.drop_drop, hrest]
        rfl
      rw [readVarUint64Loop_succ hrest, if_neg hlast, if_neg (by omega),
        ih hcode (by omega) (by rw [hvalue]; exact hv') (fun _ => hn')
          (by rw [hvalue, hsum]; exact hfit) htail, hvalue, hsum, List.length_cons,
        Nat.add_assoc, Nat.add_comm 1]

/-- What the loop accepts is an encoding it is in the middle of. -/
theorem readVarUint64Loop_canonical {fuel : ℕ} {v : UInt64} {d' : Decoder}
    (hfuel : index + fuel = 10) (hv : value.toNat < 2 ^ (7 * index))
    (hread : d.readVarUint64Loop fuel index value = (v, d')) (herr : d'.err = none) :
    ∃ n code, Leb128 n code ∧ v.toNat = value.toNat + n * 2 ^ (7 * index) ∧ (0 < index → n ≠ 0)
      ∧ d' = d.past (index + code.length) ∧ d.rest.drop index = code ++ d'.rest := by
  induction fuel generalizing index value with
  | zero => exact absurd (Prod.mk.inj hread).2 (ne_of_fail herr)
  | succ fuel ih =>
    cases hrest : d.rest.drop index with
    | nil =>
      have hlen : d.remaining ≤ index := by
        rw [← length_rest]
        exact List.drop_eq_nil_iff.mp hrest
      rw [readVarUint64Loop, if_pos hlen] at hread
      exact absurd (Prod.mk.inj hread).2 (ne_of_fail herr)
    | cons c t =>
      have htail : d.rest.drop (index + 1) = t := by
        rw [← List.drop_drop, hrest]
        rfl
      rw [readVarUint64Loop_succ hrest] at hread
      by_cases hlast : index = 9 ∧ 1 < c.toNat
      · rw [if_pos hlast] at hread
        exact absurd (Prod.mk.inj hread).2 (ne_of_fail herr)
      rw [if_neg hlast] at hread
      have hindex : index ≤ 9 := by omega
      have hvalue := toNat_or_payload hindex hv (payload_lt hindex hlast)
      by_cases hlow : c.toNat < 128
      · rw [if_pos hlow] at hread
        by_cases hz : 0 < index ∧ c = 0
        · rw [if_pos hz] at hread
          exact absurd (Prod.mk.inj hread).2 (ne_of_fail herr)
        rw [if_neg hz] at hread
        obtain ⟨rfl, rfl⟩ := Prod.mk.inj hread
        rw [Nat.mod_eq_of_lt hlow] at hvalue
        refine ⟨c.toNat, [c], .last hlow, hvalue, ?_, rfl, by rw [rest_past, htail]; rfl⟩
        intro h0 hc
        exact hz ⟨h0, UInt8.toNat_inj.mp hc⟩
      · rw [if_neg hlow] at hread
        have hv' := add_payload_lt hv (Nat.mod_lt c.toNat (by norm_num : 0 < 128))
        rw [← hvalue] at hv'
        obtain ⟨n, code, hcode, hsum, hn, hd', hrest'⟩ := ih (by omega) hv' hread
        have hn0 : n ≠ 0 := hn (Nat.succ_pos index)
        refine ⟨_, c :: code, .more (Nat.le_of_not_lt hlow) hn0 hcode, ?_, by omega, ?_, ?_⟩
        · rw [hsum, hvalue, add_payload_add]
        · rw [hd', List.length_cons, Nat.add_assoc, Nat.add_comm 1]
        · rw [List.cons_append, ← hrest', htail]

theorem readVarUint64_reads :
    Reads (fun _ => True) (fun v : UInt64 => appendShortvecLen v.toNat) readVarUint64 := by
  refine ⟨fun {d v t} _ herr hrest => ?_, fun {d v d'} hread herr => ?_⟩
  · have hnot : ¬d.err.isSome = true := by rw [herr]; simp
    have hzero : (0 : UInt64).toNat = 0 := rfl
    have hfit : (0 : UInt64).toNat + v.toNat * 2 ^ (7 * 0) < 2 ^ 64 := by
      have hlt := v.toNat_lt
      rw [hzero]
      omega
    unfold readVarUint64
    rw [if_neg hnot, readVarUint64Loop_append (leb128_appendShortvecLen _) rfl (by decide)
      (by omega) hfit hrest]
    simp
  · by_cases hsome : d.err.isSome = true
    · unfold readVarUint64 at hread
      rw [if_pos hsome] at hread
      obtain ⟨-, rfl⟩ := Prod.mk.inj hread
      rw [herr] at hsome
      simp at hsome
    · unfold readVarUint64 at hread
      rw [if_neg hsome] at hread
      obtain ⟨n, code, hcode, hn, -, hd', hrest⟩ :=
        readVarUint64Loop_canonical rfl (by decide) hread herr
      have hvn : v.toNat = n := by simpa using hn
      rw [hvn, ← leb128_iff.mp hcode]
      refine ⟨by simpa using hsome, trivial, ?_, hrest⟩
      rw [hd', Nat.zero_add]

end Var

end Decoder

end SolanaGo.Bin
