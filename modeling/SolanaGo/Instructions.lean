/-
What the program packages share: the accounts of an instruction, the limit of a seed, and the
check of the reader's error that stands behind the reads of a decoder.
-/
import SolanaGo.Builder
import SolanaGo.Bin.Layout

set_option autoImplicit false

namespace SolanaGo

open Codec hiding Decoder
open Bin Utf8

/-- `type AccountMetaSlice`. -/
abbrev AccountMetaSlice := List AccountMeta

/-- `NewAccountMeta`. -/
def newAccountMeta (pubKey : PublicKey) (writable signer : Bool) : AccountMeta :=
  { publicKey := pubKey, isWritable := writable, isSigner := signer }

/-- `SystemProgramID`. -/
def systemProgramID : PublicKey := ByteArr.zero 32

/-- `MaxSeedLength`. -/
def maxSeedLength : ℕ := 32

/-- `ErrMaxSeedLengthExceeded`. -/
def errMaxSeedLengthExceeded : Err := { msg := "max seed length exceeded" }

namespace Bin.Decoder

variable {α β : Type}

/-- `if err := dec.Err(); err != nil`: the error with its context, or on with the decoder. -/
def check (context : String) (next : Decoder → Except Err β) (d : Decoder) : Except Err β :=
  match d.errOf with
  | (some err, _) => .error (err.wrap context)
  | (none, d) => next d

theorem check_eq_ok {context : String} {next : Decoder → Except Err β} {d : Decoder} {b : β} :
    d.check context next = .ok b ↔ d.err = none ∧ next d = .ok b := by
  unfold check
  cases herr : d.err with
  | none =>
    rw [errOf_of_none herr]
    simp
  | some failure =>
    unfold errOf
    simp [herr]

/-- A read, its check, and what follows. -/
theorem Reads.check_eq_ok {P : α → Prop} {enc : α → Bytes} {read : Decoder → α × Decoder}
    (h : Reads P enc read) {context : String} {next : α → Decoder → Except Err β} {d : Decoder}
    {b : β} : (read d).2.check context (next (read d).1) = .ok b
      ↔ ∃ a d', P a ∧ d.err = none ∧ d' = d.past (enc a).length ∧ d.rest = enc a ++ d'.rest
        ∧ next a d' = .ok b := by
  rw [Decoder.check_eq_ok]
  constructor
  · rintro ⟨herr, hnext⟩
    obtain ⟨hnone, hP, hd, hrest⟩ := h.accepts rfl herr
    exact ⟨_, _, hP, hnone, hd, hrest, hnext⟩
  · rintro ⟨a, d', hP, herr, rfl, hrest, hnext⟩
    rw [h.inverts hP herr hrest]
    exact ⟨herr, hnext⟩

end Bin.Decoder

end SolanaGo
