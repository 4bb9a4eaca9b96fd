/-
`shortvec.go`: the compact-u16 length prefix of the Solana wire format, and the
value types every other file of the package reads and writes.

A length is a little-endian base-128 varint: seven payload bits a byte, the top
bit set on every byte but the last. The encoder loops on any `int`; the decoder
reads at most three bytes and refuses a value past `0xFFFF` and a zero
continuation byte. The three facts the codecs above this file rest on are

* `appendShortvecLen_length`: the encoder writes `shortvecLen n` bytes,
* `decodeShortvecLen_append`: lengths up to `0xFFFF` are read back, and longer
  ones are refused whatever follows,
* `decodeShortvecLen_canonical`: an accepted prefix is the encoding of its value.

The loop is kept as the Go has it (test against `0x80`, emit the low seven bits
with the continuation bit, shift), on natural numbers: a length is never
negative.
-/
import SolanaGo.Lib.Codec

set_option autoImplicit false

namespace SolanaGo

open Codec

/-! ## Values -/

/-- `type PublicKey [32]byte`. -/
abbrev PublicKey := ByteArr 32

instance : LawfulBEq PublicKey := inferInstance

/-- `type Hash PublicKey`. -/
abbrev Hash := PublicKey

/-- `type Signature [64]byte`. -/
abbrev Signature := ByteArr 64

/-- `const PublicKeyLength`. -/
abbrev publicKeyLength : ℕ := 32

/-- `const SignatureLength`. -/
abbrev signatureLength : ℕ := 64

/-- `PublicKey.IsZero`. -/
def PublicKey.isZero (p : PublicKey) : Bool := p == ByteArr.zero 32

/-- An error value: its text with numbers printed, and the keys its `%s` and
`%q` verbs print (in base58, which is outside this package). -/
structure Err where
  /-- the format string, numeric operands already printed -/
  msg : String
  /-- the key operands, in order -/
  keys : List PublicKey := []
  deriving DecidableEq

/-- `fmt.Errorf("<pre>%w", err)`. -/
def Err.wrap (pre : String) (e : Err) : Err := { e with msg := pre ++ e.msg }

/-- Wrap the error of a computation, if it has one. -/
def wrapErr {α : Type} (pre : String) : Except Err α → Except Err α
  | .ok a => .ok a
  | .error e => .error (e.wrap pre)

@[simp] theorem wrapErr_ok {α : Type} (pre : String) (a : α) :
    wrapErr pre (.ok a : Except Err α) = .ok a := rfl

theorem wrapErr_eq_ok {α : Type} {pre : String} {x : Except Err α} {a : α} :
    wrapErr pre x = .ok a ↔ x = .ok a := by
  cases x <;> simp [wrapErr]

/-! ## `appendShortvecLen` and `shortvecLen` -/

/-- The bytes `appendShortvecLen` writes for `n`; the Go function appends them
to a buffer. -/
def appendShortvecLen (n : ℕ) : Bytes :=
  if 0x80 ≤ n then (UInt8.ofNat n ||| 0x80) :: appendShortvecLen (n >>> 7)
  else [UInt8.ofNat n]
termination_by n
decreasing_by rw [Nat.shiftRight_eq_div_pow]; omega

/-- `shortvecLen`: the number of bytes `appendShortvecLen` writes. -/
def shortvecLen (n : ℕ) : ℕ :=
  if 0x80 ≤ n then shortvecLen (n >>> 7) + 1 else 1
termination_by n
decreasing_by rw [Nat.shiftRight_eq_div_pow]; omega

theorem appendShortvecLen_of_lt {n : ℕ} (h : n < 0x80) :
    appendShortvecLen n = [UInt8.ofNat n] := by
  rw [appendShortvecLen, if_neg (by omega)]

theorem appendShortvecLen_of_le {n : ℕ} (h : 0x80 ≤ n) :
    appendShortvecLen n = (UInt8.ofNat n ||| 0x80) :: appendShortvecLen (n / 128) := by
  rw [appendShortvecLen, if_pos h, Nat.shiftRight_eq_div_pow]

/-- The size helper agrees with the encoder. -/
@[simp] theorem appendShortvecLen_length (n : ℕ) :
    (appendShortvecLen n).length = shortvecLen n := by
  fun_induction shortvecLen n with
  | case1 n h ih => rw [appendShortvecLen, if_pos h, List.length_cons, ih]
  | case2 n h => rw [appendShortvecLen, if_neg h]; rfl

/-! ## The encoding of a number

`Leb128 n code` says what the encoding of a number is, without saying how to compute
it: seven bits a byte from the lowest on, the top bit on every byte but the last, and
no zero byte behind another. A number has exactly one, the one the loop above writes;
the decoders here and in the `binary` package are met in the middle of one. -/

/-- The base-128 encoding of `n`, lowest byte first. -/
inductive Leb128 : (n : ℕ) → (code : Bytes) → Prop
  | last {b : UInt8} : b.toNat < 128 → Leb128 b.toNat [b]
  | more {b : UInt8} {n : ℕ} {code : Bytes} : 128 ≤ b.toNat → n ≠ 0 → Leb128 n code →
      Leb128 (b.toNat % 128 + 128 * n) (b :: code)

theorem ofNat_or_80_toNat (n : ℕ) : (UInt8.ofNat n ||| 0x80).toNat = n % 128 + 128 := by
  have h : ∀ i : Fin 256, i.val ||| 128 = i.val % 128 + 128 := by decide +kernel
  rw [UInt8.toNat_or, UInt8.toNat_ofNat']
  have := h ⟨n % 256, by omega⟩
  simp only [Nat.mod_mod_of_dvd n (by norm_num : 128 ∣ 256)] at this
  exact this

/-- The shortvec loop writes an encoding. -/
theorem leb128_appendShortvecLen (n : ℕ) : Leb128 n (appendShortvecLen n) := by
  induction n using Nat.strongRecOn with
  | ind n ih =>
    by_cases hlt : n < 0x80
    · have hbyte : (UInt8.ofNat n).toNat = n := by
        rw [UInt8.toNat_ofNat']
        omega
      have hlast : Leb128 (UInt8.ofNat n).toNat [UInt8.ofNat n] := .last (by omega)
      rw [appendShortvecLen_of_lt hlt]
      rwa [hbyte] at hlast
    · have hge : 0x80 ≤ n := Nat.le_of_not_lt hlt
      have hbyte : (UInt8.ofNat n ||| 0x80).toNat = n % 128 + 128 := ofNat_or_80_toNat n
      have hmore : Leb128 ((UInt8.ofNat n ||| 0x80).toNat % 128 + 128 * (n / 128))
          ((UInt8.ofNat n ||| 0x80) :: appendShortvecLen (n / 128)) :=
        .more (by omega) (by omega) (ih (n / 128) (by omega))
      have hsum : (UInt8.ofNat n ||| 0x80).toNat % 128 + 128 * (n / 128) = n := by omega
      rw [appendShortvecLen_of_le hge]
      rwa [hsum] at hmore

/-- **A number has one encoding**, the one the shortvec loop writes. -/
theorem leb128_iff {n : ℕ} {code : Bytes} : Leb128 n code ↔ code = appendShortvecLen n := by
  constructor
  · intro h
    induction h with
    | @last b hb =>
      rw [appendShortvecLen_of_lt hb, UInt8.ofNat_toNat]
    | @more b n code hb hn _ ih =>
      have hbound := b.toNat_lt
      have hdiv : (b.toNat % 128 + 128 * n) / 128 = n := by omega
      have hbyte : UInt8.ofNat (b.toNat % 128 + 128 * n) ||| 0x80 = b := by
        rw [← UInt8.toNat_inj, ofNat_or_80_toNat]
        omega
      rw [appendShortvecLen_of_le (by omega), hbyte, hdiv, ih]
  · rintro rfl
    exact leb128_appendShortvecLen n

/-! ## `decodeShortvecLen` -/

/-- `errShortvecTruncated`. -/
def errShortvecTruncated : Err := { msg := "shortvec: truncated length" }

/-- `errShortvecTooLarge`. -/
def errShortvecTooLarge : Err := { msg := "shortvec: length exceeds uint16 range" }

/-- `errShortvecNonCanonical`. -/
def errShortvecNonCanonical : Err := { msg := "shortvec: non-canonical length encoding" }

/-- The loop of `decodeShortvecLen` from iteration `i` on, with `fuel`
iterations left of its three and `value` accumulated so far. -/
def decodeShortvecLoop (data : Bytes) : (fuel i value : ℕ) → Except Err (ℕ × ℕ)
  | 0, _, _ => .error errShortvecTooLarge
  | fuel + 1, i, value =>
    if h : i < data.length then
      let b := data[i]
      if 0 < i ∧ b = 0 then .error errShortvecNonCanonical
      else
        let value := value ||| ((b &&& 0x7F).toNat <<< (7 * i))
        if b &&& 0x80 = 0 then
          if 0xFFFF < value then .error errShortvecTooLarge else .ok (value, i + 1)
        else decodeShortvecLoop data fuel (i + 1) value
    else .error errShortvecTruncated

/-- `decodeShortvecLen`: the value and the number of bytes it took. -/
def decodeShortvecLen (data : Bytes) : Except Err (ℕ × ℕ) := decodeShortvecLoop data 3 0 0

/-! ### One byte, as arithmetic

The masks of the loop are `% 128` and a comparison with `128`; both are checked
once over the 256 byte values. -/

theorem and_7f_toNat (b : UInt8) : (b &&& 0x7F).toNat = b.toNat % 128 := by
  rw [UInt8.toNat_and]
  exact Nat.and_two_pow_sub_one_eq_mod b.toNat 7

theorem and_80_eq_zero (b : UInt8) : b &&& 0x80 = 0 ↔ b.toNat < 128 := by
  have h : ∀ i : Fin 256, i.val &&& 128 = 0 ↔ i.val < 128 := by decide +kernel
  rw [← UInt8.toNat_inj, UInt8.toNat_and]
  exact h ⟨b.toNat, b.toNat_lt⟩

theorem or_shiftLeft_of_lt {a b i : ℕ} (h : a < 2 ^ i) : a ||| (b <<< i) = a + b * 2 ^ i := by
  rw [Nat.or_comm, Nat.shiftLeft_eq, Nat.mul_comm, ← Nat.two_pow_add_eq_or_of_lt h,
    Nat.add_comm]

/-- Seven more bits on top of the accumulated value. -/
theorem add_payload_lt {value b i : ℕ} (hv : value < 2 ^ (7 * i)) (hb : b < 128) :
    value + b * 2 ^ (7 * i) < 2 ^ (7 * (i + 1)) := by
  have hpow : 2 ^ (7 * (i + 1)) = 128 * 2 ^ (7 * i) := by
    rw [Nat.mul_add, Nat.pow_add, Nat.mul_comm]
  have hle : b * 2 ^ (7 * i) ≤ 127 * 2 ^ (7 * i) := Nat.mul_le_mul_right _ (by omega)
  omega

/-- A byte's payload and the number behind it, above the accumulated value. -/
theorem add_payload_add (value b n i : ℕ) :
    value + b * 2 ^ (7 * i) + n * 2 ^ (7 * (i + 1)) = value + (b + 128 * n) * 2 ^ (7 * i) := by
  rw [Nat.mul_add 7, Nat.pow_add]
  ring

/-- What the loop makes of the byte at `i`, with the masks read as arithmetic. -/
theorem decodeShortvecLoop_succ {data t : Bytes} {b : UInt8} {fuel i value : ℕ}
    (hdrop : data.drop i = b :: t) (hv : value < 2 ^ (7 * i)) :
    decodeShortvecLoop data (fuel + 1) i value
      = if 0 < i ∧ b = 0 then .error errShortvecNonCanonical
        else if b.toNat < 128 then
          if 0xFFFF < value + b.toNat * 2 ^ (7 * i) then .error errShortvecTooLarge
          else .ok (value + b.toNat * 2 ^ (7 * i), i + 1)
        else decodeShortvecLoop data fuel (i + 1) (value + b.toNat % 128 * 2 ^ (7 * i)) := by
  have h : i < data.length := by
    by_contra hle
    rw [List.drop_eq_nil_of_le (Nat.le_of_not_lt hle)] at hdrop
    simp at hdrop
  have hget : data[i] = b := by
    rw [List.drop_eq_getElem_cons h] at hdrop
    exact (List.cons.inj hdrop).1
  rw [decodeShortvecLoop, dif_pos h]
  simp only [hget, and_80_eq_zero, and_7f_toNat, or_shiftLeft_of_lt hv]
  by_cases hc : b.toNat < 128
  · simp only [hc, if_true, Nat.mod_eq_of_lt hc]
  · simp only [hc, if_false]

/-! ### Reading an encoding back

The loop is met in the middle: `i` bytes are behind it, they contributed
`value < 2 ^ (7 * i)`, and what lies ahead encodes `n`. The remaining
iterations either read all of `n` or run out, and they run out only on values
past the range. -/

/-- The loop on an encoding it is in the middle of. -/
theorem decodeShortvecLoop_append {data code t : Bytes} {fuel i value n : ℕ} (h : Leb128 n code)
    (hfuel : i + fuel = 3) (hv : value < 2 ^ (7 * i)) (hn : 0 < i → n ≠ 0)
    (hdrop : data.drop i = code ++ t) :
    decodeShortvecLoop data fuel i value
      = if value + n * 2 ^ (7 * i) ≤ 0xFFFF then .ok (value + n * 2 ^ (7 * i), i + code.length)
        else .error errShortvecTooLarge := by
  induction fuel generalizing i value n code with
  | zero =>
    -- Three bytes are behind: `n` is at least one, and weighs at least `2 ^ 21`.
    obtain rfl : i = 3 := hfuel
    have hn0 : n ≠ 0 := hn (by omega)
    rw [decodeShortvecLoop, if_neg (by omega)]
  | succ fuel ih =>
    cases h with
    | @last b hb =>
      have hz : ¬(0 < i ∧ b = 0) := by
        rintro ⟨h0, rfl⟩
        exact hn h0 rfl
      rw [decodeShortvecLoop_succ hdrop hv, if_neg hz, if_pos hb]
      simp only [← Nat.not_le, ite_not, List.length_singleton]
    | @more b n code hb hn' hcode =>
      have hz : ¬(0 < i ∧ b = 0) := by
        rintro ⟨-, rfl⟩
        exact absurd hb (by decide)
      have hv' := add_payload_lt hv (Nat.mod_lt b.toNat (by norm_num : 0 < 128))
      have htail : data.drop (i + 1) = code ++ t := by
        rw [← List.drop_drop, hdrop]
        rfl
      rw [decodeShortvecLoop_succ hdrop hv, if_neg hz, if_neg (by omega),
        ih hcode (by omega) hv' (fun _ => hn') htail, add_payload_add, List.length_cons,
        Nat.add_assoc, Nat.add_comm 1]

/-- **The length prefix.** A length up to `0xFFFF` is read back with the number
of bytes it took; a longer one is refused, whatever follows it. -/
theorem decodeShortvecLen_append (n : ℕ) (t : Bytes) :
    decodeShortvecLen (appendShortvecLen n ++ t)
      = if n ≤ 0xFFFF then .ok (n, shortvecLen n) else .error errShortvecTooLarge := by
  have h := decodeShortvecLoop_append (leb128_appendShortvecLen n) (rfl : 0 + 3 = 3)
    (by norm_num : 0 < 2 ^ (7 * 0)) (by omega) (List.drop_zero (l := appendShortvecLen n ++ t))
  simpa [decodeShortvecLen] using h

/-! ### What is accepted -/

/-- An accepting run of the loop read an encoding. -/
theorem decodeShortvecLoop_canonical {data : Bytes} {fuel i value v k : ℕ}
    (hfuel : i + fuel = 3) (hv : value < 2 ^ (7 * i))
    (h : decodeShortvecLoop data fuel i value = .ok (v, k)) :
    ∃ n code, Leb128 n code ∧ v = value + n * 2 ^ (7 * i) ∧ (0 < i → n ≠ 0) ∧ v ≤ 0xFFFF ∧
      k = i + code.length ∧ data.drop i = code ++ data.drop k := by
  induction fuel generalizing i value with
  | zero => simp [decodeShortvecLoop] at h
  | succ fuel ih =>
    cases hdrop : data.drop i with
    | nil =>
      have hlen : ¬i < data.length := Nat.not_lt.mpr (List.drop_eq_nil_iff.mp hdrop)
      rw [decodeShortvecLoop, dif_neg hlen] at h
      simp at h
    | cons b t =>
      have htail : data.drop (i + 1) = t := by
        rw [← List.drop_drop, hdrop]
        rfl
      rw [decodeShortvecLoop_succ hdrop hv] at h
      by_cases hz : 0 < i ∧ b = 0
      · simp [hz] at h
      rw [if_neg hz] at h
      by_cases hb : b.toNat < 128
      · rw [if_pos hb] at h
        by_cases hbig : 0xFFFF < value + b.toNat * 2 ^ (7 * i)
        · simp [hbig] at h
        rw [if_neg hbig] at h
        simp only [Except.ok.injEq, Prod.mk.injEq] at h
        obtain ⟨rfl, rfl⟩ := h
        refine ⟨b.toNat, [b], .last hb, rfl, ?_, by omega, rfl, by rw [htail]; rfl⟩
        intro h0 hb0
        exact hz ⟨h0, UInt8.toNat_inj.mp hb0⟩
      · rw [if_neg hb] at h
        have hv' := add_payload_lt hv (Nat.mod_lt b.toNat (by norm_num : 0 < 128))
        obtain ⟨n, code, hcode, hval, hn, hle, hk, hrest⟩ := ih (by omega) hv' h
        have hn0 : n ≠ 0 := hn (Nat.succ_pos i)
        refine ⟨_, b :: code, .more (Nat.le_of_not_lt hb) hn0 hcode, ?_, by omega, hle, ?_, ?_⟩
        · rw [hval, add_payload_add]
        · rw [hk, List.length_cons]
          omega
        · rw [List.cons_append, ← hrest, htail]

/-- An accepted length prefix is the encoding of its value: no length has a
second encoding the decoder takes. -/
theorem decodeShortvecLen_canonical {data : Bytes} {v k : ℕ}
    (h : decodeShortvecLen data = .ok (v, k)) :
    v ≤ 0xFFFF ∧ k = shortvecLen v ∧ data = appendShortvecLen v ++ data.drop k := by
  obtain ⟨n, code, hcode, hv, -, hle, hk, hd⟩ :=
    decodeShortvecLoop_canonical (rfl : 0 + 3 = 3) (by norm_num : 0 < 2 ^ (7 * 0)) h
  obtain rfl : v = n := by simpa using hv
  obtain rfl := leb128_iff.mp hcode
  exact ⟨hle, by simpa using hk, hd⟩

/-! ## Reading a length and moving past it

Every use of `decodeShortvecLen` in the package is the same three lines: decode,
wrap the error in the name of the list, drop the bytes read. -/

/-- `n, k, err := decodeShortvecLen(data)`, the error wrapped in `pre`, followed
by `data = data[k:]`. -/
def readShortvecLen (pre : String) : Decoder Err ℕ := fun data => do
  let (v, n) ← wrapErr pre (decodeShortvecLen data)
  .ok (v, data.drop n)

theorem readShortvecLen_inverts (pre : String) :
    Inverts (· ≤ 0xFFFF) appendShortvecLen (readShortvecLen pre) := by
  intro n t hn
  rw [readShortvecLen, decodeShortvecLen_append, if_pos hn, wrapErr_ok, ok_bind]
  dsimp only
  rw [List.drop_left' (appendShortvecLen_length n)]

theorem readShortvecLen_canonical (pre : String) :
    Canonical (· ≤ 0xFFFF) appendShortvecLen (readShortvecLen pre) := by
  intro d v r h
  rw [readShortvecLen, bind_eq_ok] at h
  obtain ⟨⟨v', n⟩, hv, h⟩ := h
  simp only [Except.ok.injEq, Prod.mk.injEq] at h
  obtain ⟨rfl, rfl⟩ := h
  obtain ⟨hle, -, hd⟩ := decodeShortvecLen_canonical (wrapErr_eq_ok.mp hv)
  exact ⟨hle, hd⟩

end SolanaGo
