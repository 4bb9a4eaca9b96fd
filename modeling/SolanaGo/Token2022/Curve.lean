/-
What the confidential-transfer code rests on: the ristretto group and its scalars,
byte strings made of 32-byte slots, and classified errors.

The group comes from `curve25519-voi`. It is a parameter here: a module over the
integers modulo a prime, with the encodings the library documents (`Ristretto.Lawful`):
decoding undoes encoding, and accepts nothing else. The two generators and the chains
of range-proof generators are hashes, so they are parameters as well.
-/
import SolanaGo.Lib.Codec
import SolanaGo.Lib.Buffer
import SolanaGo.Lib.GiantSteps
import SolanaGo.Lib.InnerProduct
import Mathlib.NumberTheory.LucasLehmer

set_option autoImplicit false

namespace SolanaGo.Token2022

open Codec Buffer

/-! ## Slots -/

/-- `data[32*i : 32*(i+1)]`. -/
def slot (data : Bytes) (i : ℕ) : Bytes := slice data (32 * i) (32 * (i + 1))

@[simp] theorem slot_zero (a : ByteArr 32) (t : Bytes) : slot (a.toList ++ t) 0 = a.toList := by
  show ((a.toList ++ t).drop (32 * 0)).take (32 * (0 + 1) - 32 * 0) = a.toList
  rw [Nat.mul_zero, List.drop_zero]
  exact List.take_left' a.length_toList

@[simp] theorem slot_self (a : ByteArr 32) : slot a.toList 0 = a.toList := by
  have h := slot_zero a []
  rw [List.append_nil] at h
  exact h

@[simp] theorem slot_succ (a : ByteArr 32) (t : Bytes) (i : ℕ) :
    slot (a.toList ++ t) (i + 1) = slot t i := by
  have hdrop : (a.toList ++ t).drop (32 * (i + 1)) = t.drop (32 * i) := by
    rw [Nat.mul_succ, Nat.add_comm, ← List.drop_drop, List.drop_left' a.length_toList]
  have hlen : 32 * (i + 1 + 1) - 32 * (i + 1) = 32 * (i + 1) - 32 * i := by omega
  unfold slot slice
  rw [hdrop, hlen]

/-- The slots of joined arrays. -/
theorem slot_joinArrays {as : List (ByteArr 32)} {i : ℕ} {a : ByteArr 32} (h : as[i]? = some a) :
    slot (joinArrays as) i = a.toList := by
  induction as generalizing i with
  | nil => simp at h
  | cons b as ih =>
    rw [joinArrays_cons]
    cases i with
    | zero =>
      obtain rfl := Option.some.inj h
      exact slot_zero b _
    | succ i =>
      rw [slot_succ]
      exact ih h

/-! ## Errors -/

/-- `kind` of a `ConfidentialTransferError`. -/
inductive FaultKind where
  | invalidInput
  | invalidProof
  | insufficientFunds
  | decryption
  deriving DecidableEq

/-- The errors of the confidential-transfer code. -/
inductive Fault where
  /-- an error of the curve library, or of the source of randomness -/
  | library (msg : String)
  | message (text : String)
  /-- `fmt.Errorf("<context>%w", err)` -/
  | wrapped (context : String) (err : Fault)
  /-- `ConfidentialTransferError` -/
  | classified (kind : FaultKind) (err : Fault)
  deriving DecidableEq

/-- `errors.As(err, &classified)`. -/
def Fault.isClassified : Fault → Bool
  | .library _ => false
  | .message _ => false
  | .wrapped _ err => err.isClassified
  | .classified _ _ => true

/-- `confidentialTransferError`: an error that is classified keeps its kind. -/
def confidentialTransferError (err : Fault) (kind : FaultKind) : Fault :=
  if err.isClassified then err else .classified kind err

/-- `invalidInputError`. -/
def invalidInputError (err : Fault) : Fault := confidentialTransferError err .invalidInput

/-- `insufficientFundsError`. -/
def insufficientFundsError (err : Fault) : Fault :=
  confidentialTransferError err .insufficientFunds

/-- `decryptionError`. -/
def decryptionError (err : Fault) : Fault := confidentialTransferError err .decryption

/-- Change the error of a computation, if it has one. -/
def onError {α : Type} (f : Fault → Fault) : Except Fault α → Except Fault α
  | .ok a => .ok a
  | .error err => .error (f err)

/-- `fmt.Errorf("<context>%w", err)` around a computation. -/
def wrapping {α : Type} (context : String) : Except Fault α → Except Fault α :=
  onError (.wrapped context)

/-- `if c { return fault }`. -/
def refuse (c : Prop) [Decidable c] (fault : Fault) : Except Fault Unit :=
  if c then .error fault else .ok ()

theorem refuse_eq_ok {c : Prop} [Decidable c] {fault : Fault} {u : Unit} :
    refuse c fault = .ok u ↔ ¬ c := by
  unfold refuse
  by_cases hc : c
  · simp [hc]
  · simp [hc]

theorem refuse_bind_eq_ok {α : Type} {c : Prop} [Decidable c] {fault : Fault}
    {f : Unit → Except Fault α} {a : α} :
    (refuse c fault >>= f) = .ok a ↔ ¬ c ∧ f () = .ok a := by
  unfold refuse
  by_cases hc : c
  · simp [hc]
  · simp [hc]

@[simp] theorem onError_ok {α : Type} (f : Fault → Fault) (a : α) :
    onError f (.ok a : Except Fault α) = .ok a := rfl

@[simp] theorem wrapping_ok {α : Type} (context : String) (a : α) :
    wrapping context (.ok a : Except Fault α) = .ok a := rfl

theorem onError_eq_ok {α : Type} {f : Fault → Fault} {x : Except Fault α} {a : α} :
    onError f x = .ok a ↔ x = .ok a := by
  cases x with
  | ok b => rfl
  | error e => simp [onError]

theorem wrapping_eq_ok {α : Type} {context : String} {x : Except Fault α} {a : α} :
    wrapping context x = .ok a ↔ x = .ok a := onError_eq_ok

/-! ## The group -/

/-- What the code uses of the packages `curve` and `scalar`. -/
structure Ristretto (ℓ : ℕ) (P : Type) where
  /-- `RISTRETTO_BASEPOINT_POINT` -/
  base : P
  /-- the point the encoding of the basepoint is hashed to -/
  openingBase : P
  /-- the points `rangeGeneratorChain` hashes its labels `G` and `H` to -/
  chainG : ℕ → P
  chainH : ℕ → P
  /-- `SetRistrettoPoint` -/
  compress : P → ByteArr 32
  /-- `UnmarshalBinary` of a point -/
  decompress : Bytes → Except String P
  /-- `MarshalBinary` and `ToBytes` of a scalar -/
  scalarBytes : ZMod ℓ → ByteArr 32
  /-- `NewFromCanonicalBytes` -/
  scalarOf : Bytes → Except String (ZMod ℓ)

/-- What is documented of them: both encodings are canonical, the identity is encoded as
zeros, and the group has a prime order above `2^32`. -/
structure Ristretto.Lawful {ℓ : ℕ} {P : Type} [AddCommGroup P] (curve : Ristretto ℓ P) :
    Prop where
  base_ne_zero : curve.base ≠ 0
  decompress_compress : ∀ point, curve.decompress (curve.compress point).toList = .ok point
  compress_decompress : ∀ data point, curve.decompress data = .ok point →
    (curve.compress point).toList = data
  compress_zero : curve.compress 0 = ByteArr.zero 32
  scalarOf_scalarBytes : ∀ x, curve.scalarOf (curve.scalarBytes x).toList = .ok x
  scalarBytes_scalarOf : ∀ data x, curve.scalarOf data = .ok x →
    (curve.scalarBytes x).toList = data
  order_gt : 2 ^ 32 < ℓ

theorem Ristretto.Lawful.compress_injective {ℓ : ℕ} {P : Type} [AddCommGroup P]
    {curve : Ristretto ℓ P} (h : curve.Lawful) {p q : P}
    (heq : curve.compress p = curve.compress q) : p = q := by
  have hp := h.decompress_compress p
  rw [heq, h.decompress_compress q] at hp
  exact (Except.ok.inj hp).symm

/-! ## A small model of the laws

The integers modulo a Mersenne prime, encoded in little-endian order. The scalars are
encoded as those of the real group are. -/

/-- The order of the sample group. -/
@[irreducible] def sampleOrder : ℕ := 2 ^ 127 - 1

theorem sampleOrder_eq : sampleOrder = 2 ^ 127 - 1 := by
  unfold sampleOrder
  rfl

theorem sampleOrder_prime : sampleOrder.Prime := by
  rw [sampleOrder_eq]
  exact lucas_lehmer_sufficiency 127 (by norm_num) (by norm_num)

instance : Fact sampleOrder.Prime := ⟨sampleOrder_prime⟩

/-- A number modulo the order, in 32 bytes. -/
def sampleEncode (x : ZMod sampleOrder) : ByteArr 32 := ⟨leBytes 32 x.val, length_leBytes 32 _⟩

/-- 32 bytes that hold a number below the order. -/
def sampleDecode (data : Bytes) : Except String (ZMod sampleOrder) :=
  if data.length = 32 ∧ leValue data < sampleOrder then .ok (leValue data : ZMod sampleOrder)
  else .error "not canonical"

/-- The sample group. -/
def sampleCurve : Ristretto sampleOrder (ZMod sampleOrder) where
  base := 1
  openingBase := 2
  chainG i := i + 3
  chainH i := 2 * i + 5
  compress := sampleEncode
  decompress := sampleDecode
  scalarBytes := sampleEncode
  scalarOf := sampleDecode

theorem sampleDecode_sampleEncode (x : ZMod sampleOrder) :
    sampleDecode (sampleEncode x).toList = .ok x := by
  have hlt : x.val < sampleOrder := ZMod.val_lt x
  have hvalue : leValue (sampleEncode x).toList = x.val := by
    show leValue (leBytes 32 x.val) = x.val
    rw [leValue_leBytes]
    refine Nat.mod_eq_of_lt (Nat.lt_trans hlt ?_)
    rw [sampleOrder_eq]
    decide
  unfold sampleDecode
  rw [if_pos ⟨ByteArr.length_toList _, by rw [hvalue]; exact hlt⟩, hvalue, ZMod.natCast_zmod_val]

theorem sampleEncode_sampleDecode {data : Bytes} {x : ZMod sampleOrder}
    (h : sampleDecode data = .ok x) : (sampleEncode x).toList = data := by
  unfold sampleDecode at h
  split at h
  · rename_i hdata
    obtain rfl := Except.ok.inj h
    show leBytes 32 (leValue data : ZMod sampleOrder).val = data
    rw [ZMod.val_natCast_of_lt hdata.2, ← hdata.1, leBytes_leValue]
  · cases h

theorem sampleEncode_zero : sampleEncode 0 = ByteArr.zero 32 := by
  have hval : (0 : ZMod sampleOrder).val = 0 := ZMod.val_zero
  refine ByteArr.ext ?_
  show leBytes 32 (0 : ZMod sampleOrder).val = List.replicate 32 0
  rw [hval]
  decide

theorem sample_two_ne_zero : (2 : ZMod sampleOrder) ≠ 0 := by
  intro h
  have hdvd : sampleOrder ∣ 2 := (ZMod.natCast_eq_zero_iff 2 sampleOrder).mp h
  exact absurd (Nat.le_of_dvd (by decide) hdvd) (by rw [sampleOrder_eq]; decide)

/-- The laws can be satisfied. -/
theorem sampleCurve_lawful : sampleCurve.Lawful where
  base_ne_zero := (one_ne_zero : (1 : ZMod sampleOrder) ≠ 0)
  decompress_compress := sampleDecode_sampleEncode
  compress_decompress _ _ := sampleEncode_sampleDecode
  compress_zero := sampleEncode_zero
  scalarOf_scalarBytes := sampleDecode_sampleEncode
  scalarBytes_scalarOf _ _ := sampleEncode_sampleDecode
  order_gt := by rw [sampleOrder_eq]; decide

/-- `MultiscalarMul`. -/
abbrev multiscalarMul {ℓ : ℕ} {P : Type} [AddCommGroup P] [Module (ZMod ℓ) P]
    (scalars : List (ZMod ℓ)) (points : List P) : P := InnerProduct.dot scalars points

/-- `type rangeProofGenerators struct`. -/
structure RangeProofGenerators (P : Type) where
  g : List P := []
  h : List P := []

/-- `newRangeProofGenerators`: the first points of the two chains. -/
def Ristretto.newRangeProofGenerators {ℓ : ℕ} {P : Type} (curve : Ristretto ℓ P) (size : ℕ) :
    RangeProofGenerators P where
  g := (List.range size).map curve.chainG
  h := (List.range size).map curve.chainH

/-- `type ConfidentialTransferService struct`, for the group it works in. -/
structure ConfidentialTransferService (ℓ : ℕ) (P : Type) where
  curve : Ristretto ℓ P
  proofProgramID : ByteArr 32 := ByteArr.zero 32
  recordProgramID : ByteArr 32 := ByteArr.zero 32
  discreteLog : ByteArr 32 → Option ℕ := fun _ => none
  rangeProofGenerators : RangeProofGenerators P := {}

/-- A service for the sample group. -/
def sampleProver : ConfidentialTransferService sampleOrder (ZMod sampleOrder) where
  curve := sampleCurve

namespace ConfidentialTransferService

variable {ℓ : ℕ} {P : Type} (service : ConfidentialTransferService ℓ P)

/-- `scalarFromBytes`. -/
def scalarFromBytes (data : Bytes) (name : String) : Except Fault (ZMod ℓ) :=
  match service.curve.scalarOf data with
  | .error msg => .error (.wrapped ("decode " ++ name ++ ": ") (.library msg))
  | .ok value => .ok value

/-- `ristrettoPoint`. -/
def ristrettoPoint (data : Bytes) (name : String) : Except Fault P :=
  match service.curve.decompress data with
  | .error msg => .error (.wrapped ("decode " ++ name ++ ": ") (.library msg))
  | .ok point => .ok point

/-- `pedersenCommitment`: the encoding of a point. -/
def pedersenCommitment (point : P) : ByteArr 32 := service.curve.compress point

section Lemmas

variable {service}

theorem scalarFromBytes_eq_ok {data : Bytes} {name : String} {x : ZMod ℓ} :
    service.scalarFromBytes data name = .ok x ↔ service.curve.scalarOf data = .ok x := by
  unfold scalarFromBytes
  cases service.curve.scalarOf data with
  | ok value => simp
  | error msg => simp

theorem ristrettoPoint_eq_ok {data : Bytes} {name : String} {point : P} :
    service.ristrettoPoint data name = .ok point ↔ service.curve.decompress data = .ok point := by
  unfold ristrettoPoint
  cases service.curve.decompress data with
  | ok value => simp
  | error msg => simp

variable [AddCommGroup P] (hlaw : service.curve.Lawful)

include hlaw

/-- An encoded point is decoded under any name. -/
theorem ristrettoPoint_pedersenCommitment (point : P) (name : String) :
    service.ristrettoPoint (service.pedersenCommitment point).toList name = .ok point :=
  ristrettoPoint_eq_ok.mpr (hlaw.decompress_compress point)

/-- Encoded points are decoded. -/
theorem mapM_ristrettoPoint (name : String) (points : List P) :
    (points.map service.pedersenCommitment).mapM
      (fun encoded => service.ristrettoPoint encoded.toList name) = .ok points := by
  induction points with
  | nil => rfl
  | cons point points ih =>
    rw [List.map_cons, List.mapM_cons, ristrettoPoint_pedersenCommitment hlaw, ok_bind, ih]
    rfl

/-- An encoded scalar is decoded under any name. -/
theorem scalarFromBytes_scalarBytes (x : ZMod ℓ) (name : String) :
    service.scalarFromBytes (service.curve.scalarBytes x).toList name = .ok x :=
  scalarFromBytes_eq_ok.mpr (hlaw.scalarOf_scalarBytes x)

/-- What decodes is the encoding of the point it decodes to. -/
theorem eq_pedersenCommitment {a : ByteArr 32} {name : String} {point : P}
    (h : service.ristrettoPoint a.toList name = .ok point) :
    a = service.pedersenCommitment point :=
  ByteArr.ext (hlaw.compress_decompress _ _ (ristrettoPoint_eq_ok.mp h)).symm

end Lemmas

end ConfidentialTransferService

end SolanaGo.Token2022
