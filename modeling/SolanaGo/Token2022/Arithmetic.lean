/-
Arithmetic on ciphertexts, commitments and openings: the rest of `confidential_arithmetic.go`,
and the grouped encryptions of `confidential_encryption.go`.

Every operation works on bytes, and decodes what it is given. Two relations carry all of them.
`Encrypts` says what a ciphertext decrypts to, and `Opens` what a commitment is a commitment to
when its opening is shown; for each operation one lemma says that it goes through and what it
does to the amount. An expression is then followed from its leaves up: a ciphertext decrypts,
and a commitment opens, to the value of the expression over the scalars.
-/
import SolanaGo.Token2022.Flows

set_option autoImplicit false

namespace SolanaGo.Token2022

open Codec Buffer

/-- `type GroupedElGamalCiphertext2Handles [96]byte`. -/
abbrev GroupedElGamalCiphertext2Handles := ByteArr 96

/-- `GroupedElGamalCiphertext2Handle`. -/
def groupedElGamalCiphertext2Handle (ciphertext : GroupedElGamalCiphertext2Handles) (index : ℕ) :
    Except Fault ElGamalCiphertext :=
  groupedElGamalHandle ciphertext.toList 2 index

namespace ConfidentialTransferService

variable {ℓ : ℕ} {P : Type} [AddCommGroup P] [Module (ZMod ℓ) P]
  (service : ConfidentialTransferService ℓ P)

/-! ## Grouped encryptions -/

/-- `EncryptGroupedElGamal2WithOpening`. -/
def encryptGroupedElGamal2WithOpening (publicKeys : Fin 2 → ElGamalPubkey) (amount : ℕ)
    (opening : PedersenOpening) : Except Fault GroupedElGamalCiphertext2Handles := do
  let grouped ← service.encryptGroupedElGamal (List.ofFn publicKeys) amount opening
  return ByteArr.copyFrom 96 grouped

/-- `EncryptGroupedElGamal3WithOpening`. -/
def encryptGroupedElGamal3WithOpening (publicKeys : Fin 3 → ElGamalPubkey) (amount : ℕ)
    (opening : PedersenOpening) : Except Fault GroupedElGamalCiphertext3Handles := do
  let grouped ← service.encryptGroupedElGamal (List.ofFn publicKeys) amount opening
  return ByteArr.copyFrom 128 grouped

/-! ## Commitments and openings -/

/-- `combinePedersenCommitments`. -/
def combinePedersenCommitments (left right : PedersenCommitment) (subtract : Bool) :
    Except Fault PedersenCommitment := do
  let leftPoint ← service.ristrettoPoint left.toList "left Pedersen commitment"
  let rightPoint ← service.ristrettoPoint right.toList "right Pedersen commitment"
  if subtract then return service.pedersenCommitment (leftPoint - rightPoint)
  else return service.pedersenCommitment (leftPoint + rightPoint)

/-- `AddPedersenCommitments`. -/
def addPedersenCommitments (left right : PedersenCommitment) : Except Fault PedersenCommitment :=
  service.combinePedersenCommitments left right false

/-- `SubtractPedersenCommitments`. -/
def subtractPedersenCommitments (left right : PedersenCommitment) :
    Except Fault PedersenCommitment :=
  service.combinePedersenCommitments left right true

/-- `ScalePedersenCommitment`. -/
def scalePedersenCommitment (commitment : PedersenCommitment) (multiplier : ℕ) :
    Except Fault PedersenCommitment := do
  let point ← service.ristrettoPoint commitment.toList "Pedersen commitment"
  return service.pedersenCommitment ((multiplier : ZMod ℓ) • point)

/-- `pedersenOpening`: a buffer of 32 bytes is long enough for `ToBytes`. -/
def pedersenOpening (value : ZMod ℓ) : PedersenOpening := service.curve.scalarBytes value

/-- `combinePedersenOpenings`. -/
def combinePedersenOpenings (left right : PedersenOpening) (subtract : Bool) :
    Except Fault PedersenOpening := do
  let leftScalar ← service.scalarFromBytes left.toList "left Pedersen opening"
  let rightScalar ← service.scalarFromBytes right.toList "right Pedersen opening"
  if subtract then return service.pedersenOpening (leftScalar - rightScalar)
  else return service.pedersenOpening (leftScalar + rightScalar)

/-- `AddPedersenOpenings`. -/
def addPedersenOpenings (left right : PedersenOpening) : Except Fault PedersenOpening :=
  service.combinePedersenOpenings left right false

/-- `SubtractPedersenOpenings`. -/
def subtractPedersenOpenings (left right : PedersenOpening) : Except Fault PedersenOpening :=
  service.combinePedersenOpenings left right true

/-- `ScalePedersenOpening`. -/
def scalePedersenOpening (opening : PedersenOpening) (multiplier : ℕ) :
    Except Fault PedersenOpening := do
  let value ← service.scalarFromBytes opening.toList "Pedersen opening"
  return service.pedersenOpening (value * (multiplier : ZMod ℓ))

/-- `CombinePedersenAmount`. -/
def combinePedersenAmount (commitmentLow commitmentHigh : PedersenCommitment)
    (openingLow openingHigh : PedersenOpening) :
    Except Fault (PedersenCommitment × PedersenOpening) :=
  wrapping "combine Pedersen amount: " do
    let scaledCommitment ← service.scalePedersenCommitment commitmentHigh (2 ^ 16)
    let commitment ← service.addPedersenCommitments commitmentLow scaledCommitment
    let scaledOpening ← service.scalePedersenOpening openingHigh (2 ^ 16)
    let opening ← service.addPedersenOpenings openingLow scaledOpening
    return (commitment, opening)

/-! ## What a commitment opens to -/

/-- With this opening, the commitment is one to the amount `a`. -/
def Opens (commitment : PedersenCommitment) (opening : PedersenOpening) (a : ZMod ℓ) : Prop :=
  ∃ r, service.curve.scalarOf opening.toList = .ok r
    ∧ commitment = service.pedersenCommitment
      (a • service.curve.base + r • service.curve.openingBase)

section Commitments

variable {service} {left right commitment low high : PedersenCommitment}
  {leftOpening rightOpening opening openingLow openingHigh : PedersenOpening} {a b : ZMod ℓ}

/-- The commitments that `CommitPedersen` makes are those to whole amounts. -/
theorem commitPedersen_eq_ok_iff {amount : ℕ} :
    service.commitPedersen amount opening = .ok commitment
      ↔ service.Opens commitment opening amount := by
  refine ⟨fun h => ?_, fun ⟨r, hr, hcommitment⟩ => ?_⟩
  · obtain ⟨r, hr, h⟩ := bind_eq_ok.mp h
    refine ⟨r, scalarFromBytes_eq_ok.mp hr, ?_⟩
    rw [← pedersenCommitmentPoint_eq]
    exact (Except.ok.inj h).symm
  · rw [commitPedersen_eq_ok hr, pedersenCommitmentPoint_eq, hcommitment]

variable (hlaw : service.curve.Lawful)

include hlaw

theorem addPedersen_opens (hleft : service.Opens left leftOpening a)
    (hright : service.Opens right rightOpening b) :
    ∃ sum opening, service.addPedersenCommitments left right = .ok sum
      ∧ service.addPedersenOpenings leftOpening rightOpening = .ok opening
      ∧ service.Opens sum opening (a + b) := by
  obtain ⟨r, hr, rfl⟩ := hleft
  obtain ⟨t, ht, rfl⟩ := hright
  refine ⟨_, service.pedersenOpening (r + t), ?_, ?_, r + t, hlaw.scalarOf_scalarBytes _, rfl⟩
  · unfold addPedersenCommitments combinePedersenCommitments
    rw [ristrettoPoint_pedersenCommitment hlaw, ristrettoPoint_pedersenCommitment hlaw]
    refine congrArg (fun point => Except.ok (service.pedersenCommitment point)) ?_
    module
  · unfold addPedersenOpenings combinePedersenOpenings
    rw [scalarFromBytes_eq_ok.mpr hr, scalarFromBytes_eq_ok.mpr ht]
    rfl

theorem subtractPedersen_opens (hleft : service.Opens left leftOpening a)
    (hright : service.Opens right rightOpening b) :
    ∃ difference opening, service.subtractPedersenCommitments left right = .ok difference
      ∧ service.subtractPedersenOpenings leftOpening rightOpening = .ok opening
      ∧ service.Opens difference opening (a - b) := by
  obtain ⟨r, hr, rfl⟩ := hleft
  obtain ⟨t, ht, rfl⟩ := hright
  refine ⟨_, service.pedersenOpening (r - t), ?_, ?_, r - t, hlaw.scalarOf_scalarBytes _, rfl⟩
  · unfold subtractPedersenCommitments combinePedersenCommitments
    rw [ristrettoPoint_pedersenCommitment hlaw, ristrettoPoint_pedersenCommitment hlaw]
    refine congrArg (fun point => Except.ok (service.pedersenCommitment point)) ?_
    module
  · unfold subtractPedersenOpenings combinePedersenOpenings
    rw [scalarFromBytes_eq_ok.mpr hr, scalarFromBytes_eq_ok.mpr ht]
    rfl

theorem scalePedersen_opens (h : service.Opens commitment opening a) (multiplier : ℕ) :
    ∃ scaled scaledOpening, service.scalePedersenCommitment commitment multiplier = .ok scaled
      ∧ service.scalePedersenOpening opening multiplier = .ok scaledOpening
      ∧ service.Opens scaled scaledOpening (multiplier * a) := by
  obtain ⟨r, hr, rfl⟩ := h
  refine ⟨_, service.pedersenOpening (r * multiplier), ?_, ?_, r * multiplier,
    hlaw.scalarOf_scalarBytes _, rfl⟩
  · unfold scalePedersenCommitment
    rw [ristrettoPoint_pedersenCommitment hlaw]
    refine congrArg (fun point => Except.ok (service.pedersenCommitment point)) ?_
    module
  · unfold scalePedersenOpening
    rw [scalarFromBytes_eq_ok.mpr hr]
    rfl

/-- The two parts of an amount, put together. -/
theorem combinePedersenAmount_opens (hlow : service.Opens low openingLow a)
    (hhigh : service.Opens high openingHigh b) :
    ∃ commitment opening,
      service.combinePedersenAmount low high openingLow openingHigh = .ok (commitment, opening)
      ∧ service.Opens commitment opening (a + (2 ^ 16 : ℕ) * b) := by
  obtain ⟨scaled, scaledOpening, hscaled, hscaledOpening, hopens⟩ :=
    scalePedersen_opens hlaw hhigh (2 ^ 16)
  obtain ⟨sum, opening, hsum, hopening, hopens⟩ := addPedersen_opens hlaw hlow hopens
  refine ⟨sum, opening, ?_, hopens⟩
  unfold combinePedersenAmount
  rw [hscaled, ok_bind, hsum, ok_bind, hscaledOpening, ok_bind, hopening]
  rfl

/-- What was encrypted for some keys: a commitment, and a handle for each key. -/
theorem encryptGroupedElGamal_points {publicKeys : List ElGamalPubkey} {amount : ℕ} {bytes : Bytes}
    (h : service.encryptGroupedElGamal publicKeys amount opening = .ok bytes) :
    ∃ (points : List P) (r : ZMod ℓ), publicKeys = points.map service.pedersenCommitment
      ∧ service.curve.scalarOf opening.toList = .ok r
      ∧ bytes = joinArrays ((service.pedersenCommitmentPoint amount r
        :: points.map (r • ·)).map service.pedersenCommitment) := by
  obtain ⟨points, r, rfl, hr⟩ := encryptGroupedElGamal_eq_ok hlaw h
  refine ⟨points, r, rfl, hr, ?_⟩
  have hcommitment : (service.groupedPoints points ⟨r, amount⟩).commitment
      = service.pedersenCommitmentPoint amount r := by
    rw [pedersenCommitmentPoint_eq, groupedPoints]
    simp only [InnerProduct.dot_cons, InnerProduct.dot_nil_left]
    abel
  rw [encryptGroupedElGamal_eq hlaw hr, hcommitment] at h
  exact (Except.ok.inj h).symm

/-- The commitment of a grouped encryption opens to the amount. -/
theorem encryptGroupedElGamal_opens {publicKeys : List ElGamalPubkey} {amount : ℕ} {bytes : Bytes}
    (h : service.encryptGroupedElGamal publicKeys amount opening = .ok bytes) :
    service.Opens (ByteArr.copyFrom 32 bytes) opening amount := by
  obtain ⟨points, r, -, hr, rfl⟩ := encryptGroupedElGamal_points hlaw h
  refine ⟨r, hr, ?_⟩
  rw [List.map_cons, joinArrays_cons, ByteArr.copyFrom_append, pedersenCommitmentPoint_eq]

/-- A grouped encryption fills its array. -/
theorem toList_copyFrom_grouped {publicKeys : List ElGamalPubkey} {amount n : ℕ} {bytes : Bytes}
    (h : service.encryptGroupedElGamal publicKeys amount opening = .ok bytes)
    (hn : n = 32 * (publicKeys.length + 1)) : (ByteArr.copyFrom n bytes).toList = bytes := by
  obtain ⟨points, r, rfl, -, rfl⟩ := encryptGroupedElGamal_points hlaw h
  rw [List.length_map] at hn
  have hlen : (joinArrays ((service.pedersenCommitmentPoint amount r
      :: points.map (r • ·)).map service.pedersenCommitment)).length = n := by
    rw [length_joinArrays, List.length_map, List.length_cons, List.length_map, hn]
  rw [ByteArr.toList_copyFrom (Nat.le_of_eq hlen.symm), List.take_of_length_le (Nat.le_of_eq hlen)]

end Commitments

/-! ## What a ciphertext decrypts to -/

section Ciphertexts

variable {service} {s a b : ZMod ℓ} {left right : ElGamalCiphertext}
  (hlaw : service.curve.Lawful)

include hlaw

/-- Subtracting ciphertexts subtracts the amounts. -/
theorem subtractElGamalCiphertexts_encrypts (hleft : service.Encrypts s left a)
    (hright : service.Encrypts s right b) :
    ∃ difference, service.subtractElGamalCiphertexts left right = .ok difference
      ∧ service.Encrypts s difference (a - b) := by
  obtain ⟨c, d, rfl, hc⟩ := hleft
  obtain ⟨c', d', rfl, hc'⟩ := hright
  refine ⟨service.elGamalCiphertext (c - c') (d - d'), ?_, c - c', d - d', rfl, ?_⟩
  · unfold subtractElGamalCiphertexts combineElGamalCiphertexts
    rw [elGamalCiphertextPoints_elGamalCiphertext hlaw,
      elGamalCiphertextPoints_elGamalCiphertext hlaw]
    rfl
  · rw [smul_sub, sub_sub_sub_comm, hc, hc', sub_smul]

/-- Subtracting a plain amount subtracts it. -/
theorem subtractElGamalAmount_encrypts (hleft : service.Encrypts s left a) (amount : ℕ) :
    ∃ difference, service.subtractElGamalAmount left amount = .ok difference
      ∧ service.Encrypts s difference (a - amount) := by
  obtain ⟨c, d, rfl, hc⟩ := hleft
  refine ⟨service.elGamalCiphertext (c - (amount : ZMod ℓ) • service.curve.base) d, ?_,
    c - (amount : ZMod ℓ) • service.curve.base, d, rfl, ?_⟩
  · unfold subtractElGamalAmount combineElGamalAmount
    rw [elGamalCiphertextPoints_elGamalCiphertext hlaw]
    rfl
  · rw [sub_right_comm, hc, sub_smul]

/-- Scaling a ciphertext scales the amount. -/
theorem scaleElGamalCiphertext_encrypts (hleft : service.Encrypts s left a) (multiplier : ℕ) :
    ∃ scaled, service.scaleElGamalCiphertext left multiplier = .ok scaled
      ∧ service.Encrypts s scaled (multiplier * a) := by
  obtain ⟨c, d, rfl, hc⟩ := hleft
  refine ⟨service.elGamalCiphertext ((multiplier : ZMod ℓ) • c) ((multiplier : ZMod ℓ) • d), ?_,
    _, _, rfl, ?_⟩
  · unfold scaleElGamalCiphertext
    rw [elGamalCiphertextPoints_elGamalCiphertext hlaw]
    rfl
  · rw [smul_comm s, ← smul_sub, hc, mul_smul]

/-- Putting two parts together scales the high one. -/
theorem combineElGamalAmountCiphertexts_encrypts (hlow : service.Encrypts s left a)
    (hhigh : service.Encrypts s right b) :
    ∃ combined, service.combineElGamalAmountCiphertexts left right = .ok combined
      ∧ service.Encrypts s combined (a + (2 ^ 16 : ℕ) * b) := by
  obtain ⟨scaled, hscaled, henc⟩ := scaleElGamalCiphertext_encrypts hlaw hhigh (2 ^ 16)
  obtain ⟨combined, hcombined, henc⟩ := addElGamalCiphertexts_encrypts hlaw hlow henc
  refine ⟨combined, ?_, henc⟩
  unfold combineElGamalAmountCiphertexts
  rw [hscaled, ok_bind, hcombined]

/-- A ciphertext is decrypted to its amount point. -/
theorem decryptElGamalTarget_of_encrypts {secret : ElGamalSecretKey}
    (hs : service.curve.scalarOf secret.toList = .ok s) (h : service.Encrypts s left a) :
    service.decryptElGamalTarget secret left
      = .ok (service.pedersenCommitment (a • service.curve.base)) := by
  obtain ⟨c, d, rfl, hc⟩ := h
  unfold decryptElGamalTarget
  rw [scalarFromBytes_eq_ok.mpr hs, ok_bind, elGamalCiphertextPoints_elGamalCiphertext hlaw,
    ok_bind, ← hc]
  rfl

variable [Fact ℓ.Prime]

/-- What is encrypted for several keys decrypts with the secret key of each, once its handle is
taken out. -/
theorem groupedElGamalHandle_encrypts (hs : s ≠ 0) {publicKeys : List ElGamalPubkey}
    {amount index : ℕ} {opening : PedersenOpening} {bytes : Bytes}
    (hkey : publicKeys[index]?
      = some (service.pedersenCommitment (s⁻¹ • service.curve.openingBase)))
    (h : service.encryptGroupedElGamal publicKeys amount opening = .ok bytes) :
    ∃ ciphertext, groupedElGamalHandle bytes publicKeys.length index = .ok ciphertext
      ∧ service.Encrypts s ciphertext amount := by
  obtain ⟨points, r, rfl, -, rfl⟩ := encryptGroupedElGamal_points hlaw h
  rw [List.getElem?_map] at hkey
  obtain ⟨point, hpoint, hencoded⟩ := Option.map_eq_some_iff.mp hkey
  obtain rfl := hlaw.compress_injective hencoded
  have hhandle : ((service.pedersenCommitmentPoint amount r :: points.map (r • ·)).map
      service.pedersenCommitment)[index + 1]?
      = some (service.pedersenCommitment (r • s⁻¹ • service.curve.openingBase)) := by
    rw [List.map_cons, List.getElem?_cons_succ, List.getElem?_map, List.getElem?_map, hpoint]
    rfl
  have hindex : index < points.length := (List.getElem?_eq_some_iff.mp hpoint).1
  refine ⟨service.elGamalCiphertext (service.pedersenCommitmentPoint amount r)
    (r • s⁻¹ • service.curve.openingBase), ?_, _, _, rfl, ?_⟩
  · unfold groupedElGamalHandle
    rw [List.length_map, refuse, if_neg (Nat.not_le.mpr hindex), ok_bind, slot_joinArrays hhandle,
      slot_joinArrays (a := service.pedersenCommitment (service.pedersenCommitmentPoint amount r))
        rfl]
    exact congrArg Except.ok (ByteArr.copyFrom_toList (service.elGamalCiphertext
      (service.pedersenCommitmentPoint amount r) (r • s⁻¹ • service.curve.openingBase)))
  · rw [pedersenCommitmentPoint_eq, smul_comm r, smul_inv_smul₀ hs, add_sub_cancel_right]

end Ciphertexts

end ConfidentialTransferService

/-! ## Expressions over ciphertexts -/

/-- What can be computed from encryptions under one key. -/
inductive CipherExpr where
  /-- an encryption under the key -/
  | encrypt (amount : ℕ) (opening : PedersenOpening)
  /-- an encryption for two or three keys, with the handle of the key at `index` -/
  | grouped2 (publicKeys : Fin 2 → ElGamalPubkey) (index : Fin 2) (amount : ℕ)
      (opening : PedersenOpening)
  | grouped3 (publicKeys : Fin 3 → ElGamalPubkey) (index : Fin 3) (amount : ℕ)
      (opening : PedersenOpening)
  | add (left right : CipherExpr)
  | subtract (left right : CipherExpr)
  | scale (expr : CipherExpr) (multiplier : ℕ)
  | addAmount (expr : CipherExpr) (amount : ℕ)
  | subtractAmount (expr : CipherExpr) (amount : ℕ)
  | combine (low high : CipherExpr)

namespace CipherExpr

variable {ℓ : ℕ} {P : Type} [AddCommGroup P] [Module (ZMod ℓ) P]

/-- The expression over the scalars. -/
def amount (ℓ : ℕ) : CipherExpr → ZMod ℓ
  | encrypt amount _ => amount
  | grouped2 _ _ amount _ => amount
  | grouped3 _ _ amount _ => amount
  | add left right => left.amount ℓ + right.amount ℓ
  | subtract left right => left.amount ℓ - right.amount ℓ
  | scale expr multiplier => multiplier * expr.amount ℓ
  | addAmount expr amount => expr.amount ℓ + amount
  | subtractAmount expr amount => expr.amount ℓ - amount
  | combine low high => low.amount ℓ + (2 ^ 16 : ℕ) * high.amount ℓ

/-- The expression as the code computes it. -/
def eval (service : ConfidentialTransferService ℓ P) (publicKey : ElGamalPubkey) :
    CipherExpr → Except Fault ElGamalCiphertext
  | encrypt amount opening => service.encryptElGamalWithOpening publicKey amount opening
  | grouped2 publicKeys index amount opening => do
    let grouped ← service.encryptGroupedElGamal2WithOpening publicKeys amount opening
    groupedElGamalCiphertext2Handle grouped index
  | grouped3 publicKeys index amount opening => do
    let grouped ← service.encryptGroupedElGamal3WithOpening publicKeys amount opening
    groupedElGamalCiphertext3Handle grouped index
  | add left right => do
    service.addElGamalCiphertexts (← left.eval service publicKey) (← right.eval service publicKey)
  | subtract left right => do
    service.subtractElGamalCiphertexts (← left.eval service publicKey)
      (← right.eval service publicKey)
  | scale expr multiplier => do
    service.scaleElGamalCiphertext (← expr.eval service publicKey) multiplier
  | addAmount expr amount => do
    service.addElGamalAmount (← expr.eval service publicKey) amount
  | subtractAmount expr amount => do
    service.subtractElGamalAmount (← expr.eval service publicKey) amount
  | combine low high => do
    service.combineElGamalAmountCiphertexts (← low.eval service publicKey)
      (← high.eval service publicKey)

/-- The leaves are encryptions that were made, each under the key. -/
def Encrypted (service : ConfidentialTransferService ℓ P) (publicKey : ElGamalPubkey) :
    CipherExpr → Prop
  | encrypt amount opening =>
    ∃ ciphertext, service.encryptElGamalWithOpening publicKey amount opening = .ok ciphertext
  | grouped2 publicKeys index amount opening => publicKeys index = publicKey
    ∧ ∃ grouped, service.encryptGroupedElGamal2WithOpening publicKeys amount opening = .ok grouped
  | grouped3 publicKeys index amount opening => publicKeys index = publicKey
    ∧ ∃ grouped, service.encryptGroupedElGamal3WithOpening publicKeys amount opening = .ok grouped
  | add left right => left.Encrypted service publicKey ∧ right.Encrypted service publicKey
  | subtract left right => left.Encrypted service publicKey ∧ right.Encrypted service publicKey
  | scale expr _ => expr.Encrypted service publicKey
  | addAmount expr _ => expr.Encrypted service publicKey
  | subtractAmount expr _ => expr.Encrypted service publicKey
  | combine low high => low.Encrypted service publicKey ∧ high.Encrypted service publicKey

variable {service : ConfidentialTransferService ℓ P} [Fact ℓ.Prime]

open ConfidentialTransferService

/-- Every operation goes through, and the ciphertext decrypts to the value of the expression. -/
theorem eval_encrypts (hlaw : service.curve.Lawful) {s : ZMod ℓ} (hs : s ≠ 0) (expr : CipherExpr)
    (hleaves : expr.Encrypted service
      (service.pedersenCommitment (s⁻¹ • service.curve.openingBase))) :
    ∃ ciphertext, expr.eval service
        (service.pedersenCommitment (s⁻¹ • service.curve.openingBase)) = .ok ciphertext
      ∧ service.Encrypts s ciphertext (expr.amount ℓ) := by
  -- each case is the lemma of its operation, at what the parts were evaluated to
  induction expr with
  | encrypt amount opening =>
    obtain ⟨ciphertext, h⟩ := hleaves
    obtain ⟨bytes, hbytes, -⟩ := bind_eq_ok.mp h
    obtain ⟨-, r, -, hr, -⟩ := encryptGroupedElGamal_points hlaw hbytes
    exact encryptElGamalWithOpening_encrypts hlaw hs hr amount
  | grouped2 publicKeys index amount opening =>
    obtain ⟨hkey, grouped, h⟩ := hleaves
    obtain ⟨bytes, hbytes, h⟩ := bind_eq_ok.mp h
    obtain rfl := Except.ok.inj h
    obtain ⟨ciphertext, hhandle, henc⟩ := groupedElGamalHandle_encrypts hlaw hs
      (by rw [List.getElem?_ofFn, dif_pos index.isLt, Fin.eta, hkey]) hbytes
    refine ⟨ciphertext, ?_, henc⟩
    rw [eval, encryptGroupedElGamal2WithOpening, hbytes]
    show groupedElGamalHandle (ByteArr.copyFrom 96 bytes).toList 2 index = _
    rw [toList_copyFrom_grouped hlaw hbytes (by rw [List.length_ofFn])]
    rw [List.length_ofFn] at hhandle
    exact hhandle
  | grouped3 publicKeys index amount opening =>
    obtain ⟨hkey, grouped, h⟩ := hleaves
    obtain ⟨bytes, hbytes, h⟩ := bind_eq_ok.mp h
    obtain rfl := Except.ok.inj h
    obtain ⟨ciphertext, hhandle, henc⟩ := groupedElGamalHandle_encrypts hlaw hs
      (by rw [List.getElem?_ofFn, dif_pos index.isLt, Fin.eta, hkey]) hbytes
    refine ⟨ciphertext, ?_, henc⟩
    rw [eval, encryptGroupedElGamal3WithOpening, hbytes]
    show groupedElGamalHandle (ByteArr.copyFrom 128 bytes).toList 3 index = _
    rw [toList_copyFrom_grouped hlaw hbytes (by rw [List.length_ofFn])]
    rw [List.length_ofFn] at hhandle
    exact hhandle
  | add left right ihleft ihright =>
    obtain ⟨l, hl, hleft⟩ := ihleft hleaves.1
    obtain ⟨r, hr, hright⟩ := ihright hleaves.2
    rw [eval, hl, hr]
    exact addElGamalCiphertexts_encrypts hlaw hleft hright
  | subtract left right ihleft ihright =>
    obtain ⟨l, hl, hleft⟩ := ihleft hleaves.1
    obtain ⟨r, hr, hright⟩ := ihright hleaves.2
    rw [eval, hl, hr]
    exact subtractElGamalCiphertexts_encrypts hlaw hleft hright
  | scale expr multiplier ih =>
    obtain ⟨c, hc, henc⟩ := ih hleaves
    rw [eval, hc]
    exact scaleElGamalCiphertext_encrypts hlaw henc multiplier
  | addAmount expr amount ih =>
    obtain ⟨c, hc, henc⟩ := ih hleaves
    rw [eval, hc]
    exact addElGamalAmount_encrypts hlaw henc amount
  | subtractAmount expr amount ih =>
    obtain ⟨c, hc, henc⟩ := ih hleaves
    rw [eval, hc]
    exact subtractElGamalAmount_encrypts hlaw henc amount
  | combine low high ihlow ihhigh =>
    obtain ⟨l, hl, hlow⟩ := ihlow hleaves.1
    obtain ⟨r, hr, hhigh⟩ := ihhigh hleaves.2
    rw [eval, hl, hr]
    exact combineElGamalAmountCiphertexts_encrypts hlaw hlow hhigh

end CipherExpr

/-! ## Expressions over commitments -/

/-- What can be computed from commitments, with their openings beside them. -/
inductive CommitmentExpr where
  | commit (amount : ℕ) (opening : PedersenOpening)
  /-- the commitment at the start of a grouped encryption -/
  | grouped (publicKeys : List ElGamalPubkey) (amount : ℕ) (opening : PedersenOpening)
  | add (left right : CommitmentExpr)
  | subtract (left right : CommitmentExpr)
  | scale (expr : CommitmentExpr) (multiplier : ℕ)
  | combine (low high : CommitmentExpr)

namespace CommitmentExpr

variable {ℓ : ℕ} {P : Type} [AddCommGroup P] [Module (ZMod ℓ) P]

/-- The expression over the scalars. -/
def amount (ℓ : ℕ) : CommitmentExpr → ZMod ℓ
  | commit amount _ => amount
  | grouped _ amount _ => amount
  | add left right => left.amount ℓ + right.amount ℓ
  | subtract left right => left.amount ℓ - right.amount ℓ
  | scale expr multiplier => multiplier * expr.amount ℓ
  | combine low high => low.amount ℓ + (2 ^ 16 : ℕ) * high.amount ℓ

/-- The commitment and the opening, as the code computes them in parallel. -/
def eval (service : ConfidentialTransferService ℓ P) :
    CommitmentExpr → Except Fault (PedersenCommitment × PedersenOpening)
  | commit amount opening => do
    return (← service.commitPedersen amount opening, opening)
  | grouped publicKeys amount opening => do
    let bytes ← service.encryptGroupedElGamal publicKeys amount opening
    return (ByteArr.copyFrom 32 bytes, opening)
  | add left right => do
    let (left, leftOpening) ← left.eval service
    let (right, rightOpening) ← right.eval service
    return (← service.addPedersenCommitments left right,
      ← service.addPedersenOpenings leftOpening rightOpening)
  | subtract left right => do
    let (left, leftOpening) ← left.eval service
    let (right, rightOpening) ← right.eval service
    return (← service.subtractPedersenCommitments left right,
      ← service.subtractPedersenOpenings leftOpening rightOpening)
  | scale expr multiplier => do
    let (commitment, opening) ← expr.eval service
    return (← service.scalePedersenCommitment commitment multiplier,
      ← service.scalePedersenOpening opening multiplier)
  | combine low high => do
    let (low, openingLow) ← low.eval service
    let (high, openingHigh) ← high.eval service
    service.combinePedersenAmount low high openingLow openingHigh

/-- The leaves are commitments that were made. -/
def Committed (service : ConfidentialTransferService ℓ P) : CommitmentExpr → Prop
  | commit amount opening =>
    ∃ commitment, service.commitPedersen amount opening = .ok commitment
  | grouped publicKeys amount opening =>
    ∃ bytes, service.encryptGroupedElGamal publicKeys amount opening = .ok bytes
  | add left right => left.Committed service ∧ right.Committed service
  | subtract left right => left.Committed service ∧ right.Committed service
  | scale expr _ => expr.Committed service
  | combine low high => low.Committed service ∧ high.Committed service

variable {service : ConfidentialTransferService ℓ P}

open ConfidentialTransferService

/-- Every operation goes through, and the commitment opens to the value of the expression. -/
theorem eval_opens (hlaw : service.curve.Lawful) (expr : CommitmentExpr)
    (hleaves : expr.Committed service) :
    ∃ commitment opening, expr.eval service = .ok (commitment, opening)
      ∧ service.Opens commitment opening (expr.amount ℓ) := by
  induction expr with
  | commit amount opening =>
    obtain ⟨commitment, h⟩ := hleaves
    refine ⟨commitment, opening, ?_, commitPedersen_eq_ok_iff.mp h⟩
    rw [eval, h]
    rfl
  | grouped publicKeys amount opening =>
    obtain ⟨bytes, h⟩ := hleaves
    refine ⟨ByteArr.copyFrom 32 bytes, opening, ?_, encryptGroupedElGamal_opens hlaw h⟩
    rw [eval, h]
    rfl
  | add left right ihleft ihright =>
    obtain ⟨l, lOpening, hl, hleft⟩ := ihleft hleaves.1
    obtain ⟨r, rOpening, hr, hright⟩ := ihright hleaves.2
    obtain ⟨sum, opening, hsum, hopening, hopens⟩ := addPedersen_opens hlaw hleft hright
    refine ⟨sum, opening, ?_, hopens⟩
    simp only [eval, hl, hr, hsum, hopening, ok_bind, pure, Except.pure]
  | subtract left right ihleft ihright =>
    obtain ⟨l, lOpening, hl, hleft⟩ := ihleft hleaves.1
    obtain ⟨r, rOpening, hr, hright⟩ := ihright hleaves.2
    obtain ⟨sum, opening, hsum, hopening, hopens⟩ := subtractPedersen_opens hlaw hleft hright
    refine ⟨sum, opening, ?_, hopens⟩
    simp only [eval, hl, hr, hsum, hopening, ok_bind, pure, Except.pure]
  | scale expr multiplier ih =>
    obtain ⟨c, cOpening, hc, hopens⟩ := ih hleaves
    obtain ⟨scaled, opening, hscaled, hopening, hopens⟩ :=
      scalePedersen_opens hlaw hopens multiplier
    refine ⟨scaled, opening, ?_, hopens⟩
    simp only [eval, hc, hscaled, hopening, ok_bind, pure, Except.pure]
  | combine low high ihlow ihhigh =>
    obtain ⟨l, lOpening, hl, hlow⟩ := ihlow hleaves.1
    obtain ⟨r, rOpening, hr, hhigh⟩ := ihhigh hleaves.2
    obtain ⟨combined, opening, hcombined, hopens⟩ := combinePedersenAmount_opens hlaw hlow hhigh
    refine ⟨combined, opening, ?_, hopens⟩
    simp only [eval, hl, hr, hcombined, ok_bind]

end CommitmentExpr

namespace ConfidentialTransferService

variable {ℓ : ℕ} {P : Type} [AddCommGroup P] [Module (ZMod ℓ) P]
  {service : ConfidentialTransferService ℓ P}

/-- **Expressions.** Under a key that can be derived, so a canonical secret that is not zero,
every expression over encryptions is computed without an error and decrypts to the amount point
of the expression over the scalars. Every expression over commitments, computed in parallel
over the openings, opens to that amount. -/
theorem expressions_homomorphic [Fact ℓ.Prime] (hlaw : service.curve.Lawful) :
    (∀ (secret : ElGamalSecretKey) (publicKey : ElGamalPubkey) (expr : CipherExpr),
      service.deriveElGamalPubkey secret = .ok publicKey → expr.Encrypted service publicKey →
      ∃ ciphertext, expr.eval service publicKey = .ok ciphertext
        ∧ service.decryptElGamalTarget secret ciphertext
          = .ok (service.pedersenCommitment (expr.amount ℓ • service.curve.base)))
    ∧ ∀ expr : CommitmentExpr, expr.Committed service →
      ∃ commitment opening, expr.eval service = .ok (commitment, opening)
        ∧ service.Opens commitment opening (expr.amount ℓ) := by
  refine ⟨fun secret publicKey expr hkey hleaves => ?_, CommitmentExpr.eval_opens hlaw⟩
  obtain ⟨s, hsecret, hs, rfl⟩ := deriveElGamalPubkey_eq_ok hkey
  obtain ⟨ciphertext, heval, henc⟩ := CipherExpr.eval_encrypts hlaw hs expr hleaves
  exact ⟨ciphertext, heval, decryptElGamalTarget_of_encrypts hlaw hsecret henc⟩

/-- The point of the secret key two, encoded. -/
def pubkeyOfTwo : ElGamalPubkey :=
  sampleProver.pedersenCommitment (((2 : ℕ) : ZMod sampleOrder)⁻¹ • sampleProver.curve.openingBase)

/-- `5 + 2^16 * 3 - 1`, where the high part was encrypted for two keys. -/
def sampleCipherExpr : CipherExpr :=
  .subtractAmount (.combine (.encrypt 5 (sampleEncode (7 : ℕ)))
    (.grouped2 ![sampleEncode (4 : ℕ), pubkeyOfTwo] (Fin.last 1) 3 (sampleEncode (9 : ℕ)))) 1

/-- `5 + 2^16 * 3`, of two commitments. -/
def sampleCommitmentExpr : CommitmentExpr :=
  .combine (.commit 5 (sampleEncode (7 : ℕ))) (.commit 3 (sampleEncode (9 : ℕ)))

/-- The two sample expressions. -/
theorem expressions_homomorphic_sample :
    (∃ ciphertext, sampleCipherExpr.eval sampleProver pubkeyOfTwo = .ok ciphertext
      ∧ sampleProver.decryptElGamalTarget (sampleEncode 2) ciphertext
        = .ok (sampleProver.pedersenCommitment ((5 + 2 ^ 16 * 3 - 1 : ZMod sampleOrder)
          • sampleProver.curve.base)))
    ∧ ∃ commitment opening, sampleCommitmentExpr.eval sampleProver = .ok (commitment, opening)
      ∧ sampleProver.Opens commitment opening (5 + 2 ^ 16 * 3) := by
  have hlaw : sampleProver.curve.Lawful := sampleCurve_lawful
  have hopening : ∀ x : ZMod sampleOrder, sampleProver.curve.scalarOf (sampleEncode x).toList
      = .ok x := sampleDecode_sampleEncode
  obtain ⟨hcipher, hcommitment⟩ := expressions_homomorphic hlaw
  obtain ⟨ciphertext, heval, hdecrypt⟩ := hcipher (sampleEncode 2) pubkeyOfTwo sampleCipherExpr
    (by unfold deriveElGamalPubkey
        rw [hopening]
        dsimp only
        rw [if_neg sample_two_ne_zero]
        rfl)
    ⟨⟨_, encryptElGamalWithOpening_eq hlaw (hopening 7) 5⟩, rfl, _, by
      unfold encryptGroupedElGamal2WithOpening
      have hkeys : List.ofFn ![sampleEncode (4 : ℕ), pubkeyOfTwo]
          = [((4 : ℕ) : ZMod sampleOrder),
              (2 : ZMod sampleOrder)⁻¹ • sampleProver.curve.openingBase].map
            sampleProver.pedersenCommitment := rfl
      rw [hkeys, encryptGroupedElGamal_eq hlaw (hopening (9 : ℕ))]
      rfl⟩
  obtain ⟨commitment, opening, heval', hopens⟩ := hcommitment sampleCommitmentExpr
    ⟨⟨_, commitPedersen_eq_ok (hopening 7)⟩, _, commitPedersen_eq_ok (hopening 9)⟩
  refine ⟨⟨ciphertext, heval, ?_⟩, commitment, opening, heval', ?_⟩
  · simpa [sampleCipherExpr, CipherExpr.amount, -Nat.reducePow] using hdecrypt
  · simpa [sampleCommitmentExpr, CommitmentExpr.amount, -Nat.reducePow] using hopens

end ConfidentialTransferService

end SolanaGo.Token2022
