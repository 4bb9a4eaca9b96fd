/-
The `binary` package's `Decoder`: a cursor over a byte slice whose errors are
sticky.

Every read is a function from the decoder to its result and the decoder
afterwards, as the source's methods are: a failed read does not abort, it records
the first failure and returns a zero value, and the caller asks for the error once
at the end. The source repeats one body for each fixed width, so the model has it
once (`readFixed`), and once more for the reads that check a tag (`readTag`).

A read of `n` bytes that starts without error and with `n` bytes left returns
those bytes (`readFixed_ok`, `readTag_ok`); a read after which no error is recorded
was such a read (`readFixed_advances`).
-/
import SolanaGo.Shortvec

set_option autoImplicit false

namespace SolanaGo.Bin

open Codec hiding Decoder

/-! ## Failures -/

/-- The sentinel errors. -/
inductive Sentinel where
  | unexpectedEOF
  | invalidTag
  | nonCanonical
  | overflow
  | invalidUTF8
  deriving DecidableEq

/-- The text of the sentinel. -/
def Sentinel.text : Sentinel → String
  | .unexpectedEOF => "binary: unexpected EOF"
  | .invalidTag => "binary: invalid tag"
  | .nonCanonical => "binary: non-canonical compact-u16"
  | .overflow => "binary: length overflow"
  | .invalidUTF8 => "binary: invalid UTF-8"

/-- What the decoder's `err` field holds: a bare sentinel, or, once `Err` was asked,
the sentinel wrapped in its context. -/
inductive Failure where
  | bare (sentinel : Sentinel)
  | wrapped (context : String) (sentinel : Sentinel)
  deriving DecidableEq

/-- `type Decoder struct`. -/
structure Decoder where
  data : Bytes
  pos : ℕ := 0
  err : Option Failure := none
  failPos : ℕ := 0
  failArg : ℤ := 0
  deriving DecidableEq

/-- `NewDecoder`. -/
def newDecoder (data : Bytes) : Decoder := { data }

namespace Decoder

/-- `Remaining`. The position never passes the end, so the difference is a length. -/
def remaining (d : Decoder) : ℕ := d.data.length - d.pos

/-- `fail`: only the first failure is recorded. -/
def fail (d : Decoder) (sentinel : Sentinel) (arg : ℤ) : Decoder :=
  match d.err with
  | some _ => d
  | none => { d with err := some (.bare sentinel), failPos := d.pos, failArg := arg }

/-- The context `wrapErr` puts in front of a sentinel. -/
def context (d : Decoder) : Sentinel → String
  | .unexpectedEOF =>
    "need " ++ toString d.failArg ++ " bytes at offset " ++ toString d.failPos ++ ", have "
      ++ toString ((d.data.length : ℤ) - d.failPos) ++ ": "
  | .invalidTag => "tag " ++ toString d.failArg ++ " at offset " ++ toString d.failPos ++ ": "
  | .nonCanonical => "zero continuation byte at offset " ++ toString d.failPos ++ ": "
  | .overflow => "length " ++ toString d.failArg ++ " at offset " ++ toString d.failPos ++ ": "
  | .invalidUTF8 => "string at offset " ++ toString d.failPos ++ ": "

/-- `wrapErr`: the wrapped error replaces the bare one, so the context is built once. -/
def wrapErr (d : Decoder) : Failure → Err × Decoder
  | .bare sentinel =>
    ({ msg := d.context sentinel ++ sentinel.text },
      { d with err := some (.wrapped (d.context sentinel) sentinel) })
  | .wrapped context sentinel => ({ msg := context ++ sentinel.text }, d)

/-- `Err`. -/
def errOf (d : Decoder) : Option Err × Decoder :=
  match d.err with
  | none => (none, d)
  | some failure => ((d.wrapErr failure).1, (d.wrapErr failure).2)

/-! ## Reads -/

/-- The next `n` bytes. -/
def window (d : Decoder) (n : ℕ) : Bytes := (d.data.drop d.pos).take n

/-- The body the fixed-width reads share: `zero` unless `n` bytes are left. -/
def readFixed {α : Type} (n : ℕ) (zero : α) (parse : Bytes → α) (d : Decoder) : α × Decoder :=
  if d.err.isSome ∨ d.data.length < d.pos + n then (zero, d.fail .unexpectedEOF n)
  else (parse (d.window n), { d with pos := d.pos + n })

/-- `ReadUint8`. -/
def readUint8 : Decoder → UInt8 × Decoder := readFixed 1 0 fun bs => bs.headD 0

/-- `ReadUint16`. -/
def readUint16 : Decoder → UInt16 × Decoder := readFixed 2 0 fun bs => UInt16.ofNat (leValue bs)

/-- `ReadUint64`. -/
def readUint64 : Decoder → UInt64 × Decoder := readFixed 8 0 fun bs => UInt64.ofNat (leValue bs)

/-- `ReadPublicKey`. -/
def readPublicKey : Decoder → PublicKey × Decoder :=
  readFixed publicKeyLength (ByteArr.zero 32) fun bs => ByteArr.copyFrom 32 bs

/-- The body of the two reads that check a tag of `n` bytes: zero is false, one is
true, and on any other value the position stays. -/
def readTag (n : ℕ) (d : Decoder) : Bool × Decoder :=
  if d.err.isSome ∨ d.data.length < d.pos + n then (false, d.fail .unexpectedEOF n)
  else if 1 < leValue (d.window n) then (false, d.fail .invalidTag (leValue (d.window n)))
  else (leValue (d.window n) = 1, { d with pos := d.pos + n })

/-- `ReadBool`. -/
def readBool : Decoder → Bool × Decoder := readTag 1

/-- `ReadCOption`. -/
def readCOption : Decoder → Bool × Decoder := readTag 4

/-- `ReadBytes`, for any `n` the caller may compute. The source returns a view of the
input, which the caller does not write to. -/
def readBytes (n : ℤ) (d : Decoder) : Bytes × Decoder :=
  if d.err.isSome ∨ n < 0 ∨ (d.data.length : ℤ) - d.pos < n then
    ([], if n < 0 then d.fail .overflow n else d.fail .unexpectedEOF n)
  else (d.window n.toNat, { d with pos := d.pos + n.toNat })

/-! ## What a read does -/

/-- `Err` answers nil exactly when no failure is recorded. -/
@[simp] theorem errOf_eq_none {d : Decoder} : d.errOf.1 = none ↔ d.err = none := by
  unfold errOf
  cases d.err with
  | none => simp
  | some failure => simp

@[simp] theorem fail_err_isSome (d : Decoder) (s : Sentinel) (arg : ℤ) :
    (d.fail s arg).err.isSome = true := by
  unfold fail
  split
  · next h => rw [h]; rfl
  · rfl

section Reads

variable {α : Type} {n : ℕ} {zero : α} {parse : Bytes → α} {d : Decoder}

/-- Without an error and with enough bytes left, a read returns the bytes. -/
theorem readFixed_ok (herr : d.err = none) (hlen : d.pos + n ≤ d.data.length) :
    readFixed n zero parse d = (parse (d.window n), { d with pos := d.pos + n }) := by
  unfold readFixed
  rw [if_neg]
  rintro (hsome | hshort)
  · rw [herr] at hsome; simp at hsome
  · omega

/-- The same for a tag, which also has to be valid. -/
theorem readTag_ok (herr : d.err = none) (hlen : d.pos + n ≤ d.data.length)
    (htag : leValue (d.window n) ≤ 1) :
    readTag n d = (decide (leValue (d.window n) = 1), { d with pos := d.pos + n }) := by
  unfold readTag
  rw [if_neg, if_neg (Nat.not_lt.mpr htag)]
  rintro (hsome | hshort)
  · rw [herr] at hsome; simp at hsome
  · omega

/-- What a read over `n` bytes changes when it leaves no error: the position only. -/
structure Advanced (n : ℕ) (d d' : Decoder) : Prop where
  before : d.err = none
  data : d'.data = d.data
  pos : d'.pos = d.pos + n
  inBounds : d.pos + n ≤ d.data.length

theorem Advanced.trans {m n : ℕ} {d d' d'' : Decoder} (h : Advanced m d d')
    (h' : Advanced n d' d'') : Advanced (m + n) d d'' := by
  have hin := h'.inBounds
  rw [h.pos, h.data] at hin
  refine ⟨h.before, h'.data.trans h.data, ?_, by omega⟩
  rw [h'.pos, h.pos, Nat.add_assoc]

/-- A read that leaves no error moved over its bytes. -/
theorem readFixed_advances {a : α} {d' : Decoder} (h : readFixed n zero parse d = (a, d'))
    (herr : d'.err = none) : Advanced n d d' := by
  unfold readFixed at h
  split at h
  · have hsome := fail_err_isSome d .unexpectedEOF n
    rw [(Prod.mk.inj h).2, herr] at hsome
    simp at hsome
  · obtain rfl := (Prod.mk.inj h).2
    exact ⟨herr, rfl, rfl, by omega⟩

/-- The same for a tag, which was valid. -/
theorem readTag_advances {b : Bool} {d' : Decoder} (h : readTag n d = (b, d'))
    (herr : d'.err = none) : Advanced n d d' ∧ leValue (d.window n) ≤ 1 := by
  have hfail : ∀ s arg, d.fail s arg ≠ d' := by
    intro s arg heq
    have hsome := fail_err_isSome d s arg
    rw [heq, herr] at hsome
    simp at hsome
  unfold readTag at h
  split at h
  · exact absurd (Prod.mk.inj h).2 (hfail _ _)
  · split at h
    · exact absurd (Prod.mk.inj h).2 (hfail _ _)
    · next htag =>
        obtain rfl := (Prod.mk.inj h).2
        exact ⟨⟨herr, rfl, rfl, by omega⟩, Nat.le_of_not_lt htag⟩

/-- A read of bytes that leaves no error moved over them. -/
theorem readBytes_advances {n : ℤ} {bs : Bytes} {d' : Decoder} (h : readBytes n d = (bs, d'))
    (herr : d'.err = none) : Advanced n.toNat d d' := by
  have hfail : ∀ s, d.fail s n ≠ d' := by
    intro s heq
    have hsome := fail_err_isSome d s n
    rw [heq, herr] at hsome
    simp at hsome
  unfold readBytes at h
  split at h
  · have hd := (Prod.mk.inj h).2
    split at hd
    · exact absurd hd (hfail _)
    · exact absurd hd (hfail _)
  · obtain rfl := (Prod.mk.inj h).2
    exact ⟨herr, rfl, rfl, by omega⟩

end Reads

end Decoder

end SolanaGo.Bin
