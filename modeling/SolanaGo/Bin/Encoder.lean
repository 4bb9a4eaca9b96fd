/-
The `binary` package's `Encoder`: it appends to a byte slice, and its errors are
sticky.

A write on an encoder that has failed does nothing; on one that has not, it appends
the bytes of its argument (`Encoder.append`). The only writes that can fail by
themselves are the ones with a length to represent. The bytes of the two
variable-length integers are those of `appendShortvecLen`: the compact-u16 writer
spells its three lengths out (`compactU16Bytes_eq`), the LEB128 writer runs the same
loop on a word (`varUint64Bytes_eq`).
-/
import SolanaGo.Bin.Decoder

set_option autoImplicit false

namespace SolanaGo.Bin

open Codec hiding Decoder

/-- `type Encoder struct`. -/
structure Encoder where
  data : Bytes
  err : Option Failure := none
  failPos : ℕ := 0
  failArg : ℤ := 0
  deriving DecidableEq

/-- `NewEncoder`. -/
def newEncoder (dst : Bytes) : Encoder := { data := dst }

namespace Encoder

/-- `fail`: only the first failure is recorded. -/
def fail (e : Encoder) (sentinel : Sentinel) (arg : ℤ) : Encoder :=
  match e.err with
  | some _ => e
  | none => { e with err := some (.bare sentinel), failPos := e.data.length, failArg := arg }

/-- The context `Err` puts in front of the two sentinels a write can record. -/
def context (e : Encoder) : Sentinel → String
  | .overflow => "length " ++ toString e.failArg ++ " at offset " ++ toString e.failPos ++ ": "
  | .invalidUTF8 => "string at offset " ++ toString e.failPos ++ ": "
  | _ => ""

/-- `Err`: the wrapped error replaces the bare one. -/
def errOf (e : Encoder) : Option Err × Encoder :=
  match e.err with
  | none => (none, e)
  | some (.bare sentinel) =>
    (some { msg := e.context sentinel ++ sentinel.text },
      { e with err := some (.wrapped (e.context sentinel) sentinel) })
  | some (.wrapped context sentinel) => (some { msg := context ++ sentinel.text }, e)

/-- The body the plain writes share. -/
def append (bs : Bytes) (e : Encoder) : Encoder :=
  if e.err.isSome then e else { e with data := e.data ++ bs }

/-- `WriteUint8`. -/
def writeUint8 (v : UInt8) : Encoder → Encoder := append [v]

/-- `WriteUint64`. -/
def writeUint64 (v : UInt64) : Encoder → Encoder := append (leBytes 8 v.toNat)

/-- `WriteInt64`. -/
def writeInt64 (v : Int64) : Encoder → Encoder := writeUint64 v.toUInt64

/-- `WriteBool`. -/
def writeBool (v : Bool) : Encoder → Encoder := append [if v then 1 else 0]

/-- `WriteHash`. -/
def writeHash (v : Hash) : Encoder → Encoder := append v.toList

/-- `WriteOption`. -/
def writeOption (v : Bool) : Encoder → Encoder := writeBool v

/-- The three lengths of `WriteCompactU16`. -/
def compactU16Bytes (v : ℕ) : Bytes :=
  if v < 1 <<< 7 then [UInt8.ofNat v]
  else if v < 1 <<< 14 then [UInt8.ofNat v ||| 0x80, UInt8.ofNat (v >>> 7)]
  else [UInt8.ofNat v ||| 0x80, UInt8.ofNat (v >>> 7) ||| 0x80, UInt8.ofNat (v >>> 14)]

/-- `WriteCompactU16`. -/
def writeCompactU16 (v : ℤ) (e : Encoder) : Encoder :=
  if e.err.isSome then e
  else if v < 0 ∨ 65535 < v then e.fail .overflow v
  else { e with data := e.data ++ compactU16Bytes v.toNat }

theorem toNat_shiftRight_seven (v : UInt64) : (v >>> 7).toNat = v.toNat / 128 := by
  rw [UInt64.toNat_shiftRight]
  show v.toNat >>> 7 = v.toNat / 128
  rw [Nat.shiftRight_eq_div_pow]

/-- The loop of `WriteVarUint64`. -/
def varUint64Bytes (v : UInt64) : Bytes :=
  if 0x80 ≤ v then (v.toUInt8 ||| 0x80) :: varUint64Bytes (v >>> 7) else [v.toUInt8]
termination_by v.toNat
decreasing_by
  rename_i h
  have hle : 128 ≤ v.toNat := UInt64.le_iff_toNat_le.mp h
  rw [toNat_shiftRight_seven]
  omega

/-- `WriteVarUint64`. -/
def writeVarUint64 (v : UInt64) : Encoder → Encoder := append (varUint64Bytes v)

/-! ## What a write does -/

/-- `Err` answers nil exactly when no failure is recorded. -/
@[simp] theorem errOf_of_none {e : Encoder} (h : e.err = none) : e.errOf = (none, e) := by
  unfold errOf
  rw [h]

theorem append_of_none {e : Encoder} (h : e.err = none) (bs : Bytes) :
    e.append bs = { e with data := e.data ++ bs } := by
  unfold append
  rw [h]
  rfl

@[simp] theorem append_err (e : Encoder) (bs : Bytes) : (e.append bs).err = e.err := by
  unfold append
  split <;> rfl

/-- Two writes in a row. -/
theorem append_append (e : Encoder) (bs cs : Bytes) :
    (e.append bs).append cs = e.append (bs ++ cs) := by
  unfold append
  by_cases h : e.err.isSome = true
  · rw [if_pos h, if_pos h, if_pos h]
  · rw [if_neg h, if_neg h, if_neg h]
    simp

/-- A length in range is spelled out as the shortvec loop writes it. -/
theorem compactU16Bytes_eq {v : ℕ} (h : v ≤ 0xFFFF) : compactU16Bytes v = appendShortvecLen v := by
  unfold compactU16Bytes
  simp only [Nat.shiftRight_eq_div_pow, Nat.reduceShiftLeft, Nat.reducePow]
  by_cases h1 : v < 128
  · rw [if_pos h1, appendShortvecLen_of_lt h1]
  · rw [if_neg h1, appendShortvecLen_of_le (Nat.le_of_not_lt h1)]
    by_cases h2 : v < 16384
    · rw [if_pos h2, appendShortvecLen_of_lt (by omega)]
    · rw [if_neg h2, appendShortvecLen_of_le (by omega), appendShortvecLen_of_lt (by omega),
        Nat.div_div_eq_div_mul]

/-- A length in range is appended. -/
theorem writeCompactU16_of_le {v : ℕ} (h : v ≤ 0xFFFF) (e : Encoder) :
    e.writeCompactU16 v = e.append (appendShortvecLen v) := by
  unfold writeCompactU16 append
  have hrange : ¬((v : ℤ) < 0 ∨ 65535 < (v : ℤ)) := by omega
  rw [if_neg hrange, Int.toNat_natCast, compactU16Bytes_eq h]

/-- The LEB128 loop writes what the shortvec loop writes. -/
theorem varUint64Bytes_eq (v : UInt64) : varUint64Bytes v = appendShortvecLen v.toNat := by
  fun_induction varUint64Bytes v with
  | case1 v h ih =>
    have hle : 0x80 ≤ v.toNat := UInt64.le_iff_toNat_le.mp h
    have hbyte : v.toUInt8 = UInt8.ofNat v.toNat := rfl
    rw [appendShortvecLen_of_le hle, ih, toNat_shiftRight_seven, hbyte]
  | case2 v h =>
    have hlt : v.toNat < 0x80 := by
      rw [UInt64.le_iff_toNat_le] at h
      exact Nat.lt_of_not_le h
    rw [appendShortvecLen_of_lt hlt]
    rfl

end Encoder

end SolanaGo.Bin
