/-
The two decoders and the two encoders of compact lengths, against one description.

`Leb128 n code` says what the encoding of a number is, without saying how to compute
it, and a number has exactly one (`leb128_iff`). The message package's decoder is
characterised by the description (`decodeShortvecLen_iff`), and the binary package's
decoder by the first one, at any position of any input (`readCompactU16_iff`).
-/
import SolanaGo.Bin.Varint

set_option autoImplicit false

namespace SolanaGo.Bin

open Codec hiding Decoder

/-! ## The decoders -/

/-- What the message package's decoder accepts. -/
theorem decodeShortvecLen_iff {data : Bytes} {v k : ℕ} :
    decodeShortvecLen data = .ok (v, k)
      ↔ v ≤ 0xFFFF ∧ ∃ code, Leb128 v code ∧ code <+: data ∧ k = code.length := by
  constructor
  · intro h
    obtain ⟨hle, hk, hdata⟩ := decodeShortvecLen_canonical h
    refine ⟨hle, appendShortvecLen v, leb128_appendShortvecLen v, ⟨data.drop k, hdata.symm⟩, ?_⟩
    rw [hk, appendShortvecLen_length]
  · rintro ⟨hle, code, hcode, ⟨t, rfl⟩, rfl⟩
    obtain rfl := leb128_iff.mp hcode
    rw [decodeShortvecLen_append, if_pos hle, appendShortvecLen_length]

/-- The binary package's decoder accepts what the message package's decoder accepts of
the bytes that are left. -/
theorem readCompactU16_iff {d : Decoder} (herr : d.err = none) {v k : ℕ} :
    (∃ d', d.readCompactU16 = (v, d') ∧ d'.err = none ∧ d'.pos = d.pos + k)
      ↔ decodeShortvecLen d.rest = .ok (v, k) := by
  have heq := Decoder.readCompactU16_eq herr
  constructor
  · rintro ⟨d', hread, herr', hpos⟩
    cases hdec : decodeShortvecLen d.rest with
    | error e =>
      rw [hdec] at heq
      obtain ⟨s, arg, hfail⟩ := heq
      rw [hread] at hfail
      exact absurd (Prod.mk.inj hfail).2.symm (Decoder.ne_of_fail herr')
    | ok result =>
      obtain ⟨v', k'⟩ := result
      rw [hdec] at heq
      obtain ⟨rfl, rfl⟩ := Prod.mk.inj (hread.symm.trans heq)
      have hk : d.pos + k' = d.pos + k := hpos
      rw [Nat.add_left_cancel hk]
  · intro hdec
    rw [hdec] at heq
    exact ⟨d.past k, heq, herr, rfl⟩

/-! ## All four -/

/-- **Compact lengths.** Every number has one encoding, and for the numbers up to 65535
both encoders append it. The two decoders accept the same inputs, with the same value and
the same number of bytes, and they accept exactly the inputs that start with the encoding
of such a number. -/
theorem compactU16_agree :
    (∀ n, ∃! code, Leb128 n code)
      ∧ (∀ n code, n ≤ 65535 → Leb128 n code →
          appendShortvecLen n = code
            ∧ ∀ dst, (newEncoder dst).writeCompactU16 n = newEncoder (dst ++ code))
      ∧ ∀ (before data : Bytes) (v k : ℕ),
          (decodeShortvecLen data = .ok (v, k)
            ↔ v ≤ 65535 ∧ ∃ code, Leb128 v code ∧ code <+: data ∧ k = code.length)
          ∧ ((∃ d', Decoder.readCompactU16 { data := before ++ data, pos := before.length }
                = (v, d') ∧ d'.err = none ∧ d'.pos = before.length + k)
            ↔ decodeShortvecLen data = .ok (v, k)) := by
  refine ⟨fun n => ?_, fun n code hle hcode => ?_, fun before data v k => ⟨?_, ?_⟩⟩
  · exact ⟨appendShortvecLen n, leb128_appendShortvecLen n, fun code => leb128_iff.mp⟩
  · obtain rfl := leb128_iff.mp hcode
    refine ⟨rfl, fun dst => ?_⟩
    rw [Encoder.writeCompactU16_of_le hle, Encoder.append_of_none rfl]
    rfl
  · exact decodeShortvecLen_iff
  · have hrest : Decoder.rest { data := before ++ data, pos := before.length } = data :=
      List.drop_left
    have hiff := readCompactU16_iff (v := v) (k := k)
      (d := { data := before ++ data, pos := before.length }) rfl
    rw [hrest] at hiff
    exact hiff

end SolanaGo.Bin
