/-
Bits of a byte string, the highest bit of a byte first.

A byte string is also a string of bits, with position `p` in byte `p / 8`. `setBit` sets one
of them in place, and `field` is the number that consecutive bits spell. The rule for
`setBit` is `bitAt_setBit`; `ext_bitAt` says that the bits are all there is to the bytes, and
`testBit_field` and `field_eq` that a field and its bits determine each other.
-/
import Mathlib.Data.List.Basic
import Mathlib.Data.Nat.Bitwise

set_option autoImplicit false

namespace Bits

/-! ## Positions -/

variable (buf : List UInt8)

/-- The bit at a position; behind the end there are zeros. -/
def bitAt (pos : ℕ) : Bool := (buf.getD (pos / 8) 0).toNat.testBit (7 - pos % 8)

/-- Set the bit at a position. -/
def setBit (pos : ℕ) : List UInt8 :=
  buf.modify (pos / 8) (· ||| (1 : UInt8) <<< UInt8.ofNat (7 - pos % 8))

/-- Read the bit at a position, as a number. -/
def readBit (pos : ℕ) : UInt8 :=
  buf.getD (pos / 8) 0 >>> UInt8.ofNat (7 - pos % 8) &&& 1

@[simp] theorem length_setBit (pos : ℕ) :
    (setBit buf pos).length = buf.length := List.length_modify _ _ _

theorem testBit_one_shiftLeft {k : ℕ} (hk : k ≤ 7) (j : ℕ) :
    ((1 : UInt8) <<< UInt8.ofNat k).toNat.testBit j = decide (k = j) := by
  have hval : ∀ k : Fin 8, ((1 : UInt8) <<< UInt8.ofNat k).toNat = 2 ^ (k : ℕ) := by decide
  rw [hval ⟨k, Nat.lt_succ_of_le hk⟩, Nat.testBit_two_pow]

/-- **Setting a bit** changes this bit only. -/
theorem bitAt_setBit {buf : List UInt8} {pos : ℕ} (h : pos / 8 < buf.length) (q : ℕ) :
    bitAt (setBit buf pos) q = (decide (q = pos) || bitAt buf q) := by
  unfold bitAt setBit
  rw [List.getD_eq_getElem?_getD, List.getElem?_modify, List.getD_eq_getElem?_getD]
  by_cases hbyte : pos / 8 = q / 8
  · rw [← hbyte, List.getElem?_eq_getElem h]
    simp only [if_true, Option.map_eq_map, Option.map_some, Option.getD_some, UInt8.toNat_or,
      Nat.testBit_or]
    rw [testBit_one_shiftLeft (by omega), Bool.or_comm]
    congr 1
    refine decide_eq_decide.mpr ?_
    omega
  · have hne : q ≠ pos := by
      rintro rfl
      exact hbyte rfl
    rw [decide_eq_false hne, Bool.false_or]
    simp [hbyte]

theorem bitAt_replicate_zero (n q : ℕ) : bitAt (List.replicate n 0) q = false := by
  unfold bitAt
  rw [List.getD_eq_getElem?_getD, List.getElem?_replicate]
  split
  · exact Nat.zero_testBit _
  · exact Nat.zero_testBit _

theorem bitAt_take {n q : ℕ} (h : q < 8 * n) (buf : List UInt8) :
    bitAt (buf.take n) q = bitAt buf q := by
  unfold bitAt
  rw [List.getD_eq_getElem?_getD, List.getElem?_take_of_lt (by omega),
    ← List.getD_eq_getElem?_getD]

/-- **Bytes with the same bits are the same.** -/
theorem ext_bitAt {a b : List UInt8} (hlen : a.length = b.length)
    (h : ∀ q < 8 * a.length, bitAt a q = bitAt b q) : a = b := by
  refine List.ext_getElem hlen fun i hi hi' => ?_
  rw [← UInt8.toNat_inj]
  refine Nat.eq_of_testBit_eq fun j => ?_
  by_cases hj : j < 8
  · -- bit `j` of byte `i` is at position `8 i + (7 - j)`
    have hbit := h (8 * i + (7 - j)) (by omega)
    unfold bitAt at hbit
    rw [show (8 * i + (7 - j)) / 8 = i by omega, show 7 - (8 * i + (7 - j)) % 8 = j by omega,
      List.getD_eq_getElem _ _ hi, List.getD_eq_getElem _ _ hi'] at hbit
    exact hbit
  · have hhigh : ∀ x : UInt8, x.toNat.testBit j = false := by
      intro x
      have hle : 2 ^ 8 ≤ 2 ^ j := Nat.pow_le_pow_right (by omega) (by omega)
      exact Nat.testBit_lt_two_pow (lt_of_lt_of_le x.toNat_lt hle)
    rw [hhigh, hhigh]

theorem readBit_eq (pos : ℕ) : readBit buf pos = if bitAt buf pos then 1 else 0 := by
  unfold readBit bitAt
  generalize buf.getD (pos / 8) 0 = x
  have hk : 7 - pos % 8 ≤ 7 := by omega
  generalize 7 - pos % 8 = k at hk
  have hshift : (UInt8.ofNat k).toNat % 8 = k := by
    have hval : (UInt8.ofNat k).toNat = k :=
      UInt8.toNat_ofNat_of_lt (lt_of_le_of_lt hk (by decide))
    omega
  rw [← UInt8.toNat_inj, UInt8.toNat_and, UInt8.toNat_shiftRight, hshift]
  have hone : x.toNat >>> k &&& 1 = (x.toNat.testBit k).toNat := by
    rw [Nat.and_one_is_mod, Nat.testBit_eq_decide_div_mod_eq, Nat.shiftRight_eq_div_pow]
    have := Nat.mod_two_eq_zero_or_one (x.toNat / 2 ^ k)
    rcases this with h | h <;> simp [h]
  show x.toNat >>> k &&& 1 = _
  rw [hone]
  cases x.toNat.testBit k with
  | false => rfl
  | true => rfl

theorem readBit_inj {a b : List UInt8} {p q : ℕ} :
    readBit a p = readBit b q ↔ bitAt a p = bitAt b q := by
  rw [readBit_eq, readBit_eq]
  cases bitAt a p with
  | false =>
    cases bitAt b q with
    | false => simp
    | true => simp
  | true =>
    cases bitAt b q with
    | false => simp
    | true => simp

/-! ## All the bits -/

/-- The bits of a byte string. -/
def bits : List Bool := (List.range (8 * buf.length)).map (bitAt buf)

@[simp] theorem length_bits : (bits buf).length = 8 * buf.length := by
  simp [bits]

theorem getElem?_bits {buf : List UInt8} {q : ℕ} (h : q < 8 * buf.length) :
    (bits buf)[q]? = some (bitAt buf q) := by
  unfold bits
  rw [List.getElem?_map, List.getElem?_range h]
  rfl

/-! ## Fields -/

/-- The number that the `width` bits from `start` on spell, the highest first. -/
def field (bit : ℕ → Bool) (width start : ℕ) : ℕ :=
  Nat.ofBits fun i : Fin width => bit (start + (width - 1 - i))

theorem field_lt (bit : ℕ → Bool) (width start : ℕ) : field bit width start < 2 ^ width :=
  Nat.ofBits_lt_two_pow _

theorem testBit_field (bit : ℕ → Bool) {width b : ℕ} (h : b < width) (start : ℕ) :
    (field bit width start).testBit (width - 1 - b) = bit (start + b) := by
  unfold field
  rw [Nat.testBit_ofBits_lt _ _ (by omega)]
  congr 1
  show start + (width - 1 - (width - 1 - b)) = start + b
  omega

/-- A number whose bits are those of the field. -/
theorem field_eq {bit : ℕ → Bool} {width start n : ℕ} (hn : n < 2 ^ width)
    (h : ∀ b < width, n.testBit (width - 1 - b) = bit (start + b)) :
    field bit width start = n := by
  unfold field
  have hbits : (fun i : Fin width => bit (start + (width - 1 - i)))
      = fun i : Fin width => n.testBit i := by
    funext i
    have hi := i.isLt
    have hbit := h (width - 1 - i) (by omega)
    rw [show width - 1 - (width - 1 - (i : ℕ)) = i by omega] at hbit
    exact hbit.symm
  rw [hbits, Nat.ofBits_testBit, Nat.mod_eq_of_lt hn]

end Bits
