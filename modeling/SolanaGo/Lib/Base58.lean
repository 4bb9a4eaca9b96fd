/-
Base58: a byte string as a string over fifty-eight letters and digits.

The bytes are the digits of a number in base 256, written out in base 58, with one `1` for
every zero byte in front. The alphabet has no quote, no backslash and no control character,
so the text needs no escape inside a JSON string.
-/
import SolanaGo.Lib.Codec
import SolanaGo.Lib.Positional

set_option autoImplicit false

namespace Base58

open Codec (Bytes)
open Positional

/-- `123456789ABCDEFGHJKLMNPQRSTUVWXYZabcdefghijkmnopqrstuvwxyz`. -/
def alphabet : Bytes :=
  [49, 50, 51, 52, 53, 54, 55, 56, 57, 65, 66, 67, 68, 69, 70, 71, 72, 74, 75, 76, 77, 78, 80, 81,
    82, 83, 84, 85, 86, 87, 88, 89, 90, 97, 98, 99, 100, 101, 102, 103, 104, 105, 106, 107, 109,
    110, 111, 112, 113, 114, 115, 116, 117, 118, 119, 120, 121, 122]

/-- The letter of a digit. -/
def letter (d : ℕ) : UInt8 := alphabet.getD d 49

/-- The base58 text of a byte string. -/
def encode (bs : Bytes) : Bytes := (convert 256 58 (bs.map UInt8.toNat)).map letter

/-- The byte string of a base58 text. -/
def decode (text : Bytes) : Option Bytes :=
  if text.all (alphabet.contains ·) then
    some ((convert 58 256 (text.map (alphabet.idxOf ·))).map UInt8.ofNat)
  else none

theorem letter_mem {d : ℕ} (hd : d < 58) : letter d ∈ alphabet := by
  have hall : ∀ d < 58, letter d ∈ alphabet := by decide
  exact hall d hd

theorem idxOf_letter {d : ℕ} (hd : d < 58) : alphabet.idxOf (letter d) = d := by
  have hall : ∀ d < 58, alphabet.idxOf (letter d) = d := by decide
  exact hall d hd

theorem toNat_lt (bs : Bytes) : ∀ d ∈ bs.map UInt8.toNat, d < 256 := by
  intro d hd
  obtain ⟨b, -, rfl⟩ := List.mem_map.mp hd
  exact b.toNat_lt

theorem encode_mem (bs : Bytes) : ∀ c ∈ encode bs, c ∈ alphabet := by
  intro c hc
  obtain ⟨d, hd, rfl⟩ := List.mem_map.mp hc
  exact letter_mem (convert_lt (by decide) d hd)

/-- **Base58 is invertible.** -/
theorem decode_encode (bs : Bytes) : decode (encode bs) = some bs := by
  have hdigits : (encode bs).map (alphabet.idxOf ·) = convert 256 58 (bs.map UInt8.toNat) := by
    unfold encode
    rw [List.map_map]
    refine (List.map_congr_left fun d hd => ?_).trans (List.map_id _)
    exact idxOf_letter (convert_lt (by decide) d hd)
  have hletters : (encode bs).all (alphabet.contains ·) = true := by
    rw [List.all_eq_true]
    exact fun c hc => List.elem_eq_true_of_mem (encode_mem bs c hc)
  have hbytes : (bs.map UInt8.toNat).map UInt8.ofNat = bs := by
    rw [List.map_map]
    refine (List.map_congr_left fun b _ => ?_).trans (List.map_id _)
    exact UInt8.ofNat_toNat
  unfold decode
  rw [if_pos hletters, hdigits, convert_convert (by decide) (toNat_lt bs), hbytes]

theorem encode_nil : encode [] = [] := by
  simp [encode, convert, zeros, value]

/-- The text of thirty-two bytes has from thirty-two to forty-four letters. -/
theorem length_encode_32 {bs : Bytes} (hlen : bs.length = 32) :
    32 ≤ (encode bs).length ∧ (encode bs).length ≤ 44 := by
  have hdigits : (bs.map UInt8.toNat).length = 32 := by rw [List.length_map, hlen]
  unfold encode
  rw [List.length_map]
  refine ⟨?_, length_convert_le (by decide) (by decide) (toNat_lt bs) hdigits (by decide)
    (by decide)⟩
  rw [← hdigits]
  exact length_le_convert (by decide) (by decide) (toNat_lt bs)

end Base58
