/-
What all zero-knowledge proofs share: the transcript and the random scalars.

The transcript is `merlin`'s. Its challenges are hashes of everything it was given, and
of the challenges before. Here a transcript is the list of what was done to it, and
`merlin` is any function that says which scalar is extracted. Generator and verifier use
the same function, and nothing else is assumed of it.

A generator takes its random scalars from a list. The theorems are for every list, so for
all random draws; a list that is used up stands for a reader that fails.
-/
import SolanaGo.Token2022.Encryption

set_option autoImplicit false

namespace SolanaGo.Token2022

open Codec Buffer

/-! ## Transcripts -/

/-- What is done to a transcript. -/
inductive TranscriptOp where
  | new (label : String)
  | message (label : String) (data : Bytes)
  | extract (label : String)

/-- `merlin.Transcript`. -/
abbrev Transcript := List TranscriptOp

variable (transcript : Transcript) (label : String)

/-- The bytes of a label. -/
def labelBytes : Bytes := label.toUTF8.data.toList

/-- `AppendMessage`, which `appendTranscriptScalar` and `appendTranscriptPoint` call. -/
def Transcript.append (data : Bytes) : Transcript :=
  List.append transcript [.message label data]

/-- `appendTranscriptUint64`. -/
def Transcript.appendUint64 (value : ℕ) : Transcript :=
  transcript.append label (leBytes 8 value)

/-- `appendProofDomainSeparator`. -/
def Transcript.appendDomainSeparator : Transcript :=
  transcript.append "dom-sep" (labelBytes label)

/-- The transcript after `transcriptChallengeScalar`. The challenge is what `merlin` says of
it. -/
def Transcript.extract : Transcript :=
  List.append transcript [.extract label]

/-! ## Proof data -/

/-- The encoding of the identity. -/
def identityBytes : Bytes := (ByteArr.zero 32).toList

/-- `SetRandom`: the next scalar of the reader. -/
def setRandom {ℓ : ℕ} : List (ZMod ℓ) → Except Fault (ZMod ℓ × List (ZMod ℓ))
  | [] => .error (.library "EOF")
  | value :: random => .ok (value, random)

/-! ## Keys and ciphertexts as points -/

namespace ConfidentialTransferService

variable {ℓ : ℕ} {P : Type} [AddCommGroup P] [Module (ZMod ℓ) P]
  (service : ConfidentialTransferService ℓ P)

section Lemmas

variable {service}

omit [Module (ZMod ℓ) P] in
/-- Only the identity is encoded as zeros. -/
theorem pedersenCommitment_eq_identityBytes (hlaw : service.curve.Lawful) {point : P} :
    (service.pedersenCommitment point).toList = identityBytes ↔ point = 0 := by
  refine ⟨fun h => ?_, fun h => ?_⟩
  · have hzero : service.curve.compress point = service.curve.compress 0 := by
      rw [hlaw.compress_zero]
      exact ByteArr.ext h
    exact hlaw.compress_injective hzero
  · subst h
    exact congrArg ByteArr.toList hlaw.compress_zero

/-- A commitment that was made. -/
theorem commitPedersen_eq_ok {amount : ℕ} {opening : PedersenOpening} {r : ZMod ℓ}
    (hopening : service.curve.scalarOf opening.toList = .ok r) :
    service.commitPedersen amount opening
      = .ok (service.pedersenCommitment (service.pedersenCommitmentPoint amount r)) := by
  unfold commitPedersen
  rw [scalarFromBytes_eq_ok.mpr hopening]
  rfl

end Lemmas

end ConfidentialTransferService

end SolanaGo.Token2022
