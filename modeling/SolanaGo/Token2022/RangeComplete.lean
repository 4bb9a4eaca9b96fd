/-
When the verifier of the batched range proofs accepts.

The verifier weights each bit of each amount with a power of two and with a power of `z` for its
amount. The code builds these weights in loops that carry the current power along; first come
their lengths, their closed forms as powers, and the sum of powers in the delta term.

Once the points of a proof are decoded (`Encodes`), the checks of the verifier are that none of
them is the identity, and that one sum over them is (`verifyBatchedRangeProof_eq_ok`).
-/
import SolanaGo.Token2022.RangeProof

set_option autoImplicit false

namespace SolanaGo.Token2022

open Codec Buffer InnerProduct

/-! ## Weights of the bits -/

section Scalars

variable {ℓ : ℕ}

theorem length_twoPowers (count : ℕ) (twoPower : ZMod ℓ) :
    (twoPowers count twoPower).length = count := by
  induction count generalizing twoPower with
  | zero => rfl
  | succ count ih => rw [twoPowers, List.length_cons, ih]

theorem twoPowers_eq (count : ℕ) (twoPower : ZMod ℓ) :
    twoPowers count twoPower = scalarPowersFrom 2 count twoPower := by
  induction count generalizing twoPower with
  | zero => rfl
  | succ count ih => rw [twoPowers, scalarPowersFrom, ih, mul_two]

theorem length_bitWeights (z zPower : ZMod ℓ) (bitLengths : List ℕ) :
    (bitWeights z zPower bitLengths).length = bitLengths.sum := by
  induction bitLengths generalizing zPower with
  | nil => rfl
  | cons bitLength bitLengths ih =>
    rw [bitWeights, List.length_append, List.length_map, length_twoPowers, ih, List.sum_cons]

/-- A factor on the first power is a factor on all weights. -/
theorem bitWeights_mul (z factor zPower : ZMod ℓ) (bitLengths : List ℕ) :
    bitWeights z (factor * zPower) bitLengths
      = (bitWeights z zPower bitLengths).map (factor * ·) := by
  induction bitLengths generalizing zPower with
  | nil => rfl
  | cons bitLength bitLengths ih =>
    rw [bitWeights, bitWeights, List.map_append, mul_assoc, ih, List.map_map]
    congr 1
    refine List.map_congr_left fun power _ => ?_
    exact mul_assoc factor zPower power

theorem map_mul_scalarPowersFrom (value factor current : ZMod ℓ) (size : ℕ) :
    (scalarPowersFrom value size current).map (factor * ·)
      = scalarPowersFrom value size (factor * current) := by
  induction size generalizing current with
  | zero => rfl
  | succ size ih => rw [scalarPowersFrom, scalarPowersFrom, List.map_cons, ih, mul_assoc]

theorem sum_scalarPowersFrom (value current : ZMod ℓ) (size : ℕ) :
    (scalarPowersFrom value size current).sum
      = current * ∑ i ∈ Finset.range size, value ^ i := by
  induction size generalizing current with
  | zero => simp [scalarPowersFrom]
  | succ size ih =>
    rw [scalarPowersFrom, List.sum_cons, ih, Finset.sum_range_succ']
    simp only [pow_succ, ← Finset.sum_mul]
    ring

theorem scalarPowerSum_eq (value : ZMod ℓ) (size : ℕ) :
    scalarPowerSum value size = ∑ i ∈ Finset.range size, value ^ i := by
  rw [scalarPowerSum, scalarPowers, sum_scalarPowersFrom, one_mul]

end Scalars

namespace ConfidentialTransferService

variable {ℓ : ℕ} {P : Type} [AddCommGroup P] [Module (ZMod ℓ) P]

/-! ## The points of a proof -/

variable [Fact ℓ.Prime] (service : ConfidentialTransferService ℓ P) {n : ℕ}

/-- The points that a proof encodes. -/
structure Encodes (proof : BatchedRangeProof ℓ) (points : RangeProofPoints P) : Prop where
  a : proof.a = service.pedersenCommitment points.a
  s : proof.s = service.pedersenCommitment points.s
  t1 : proof.t1 = service.pedersenCommitment points.t1
  t2 : proof.t2 = service.pedersenCommitment points.t2
  left : proof.innerProduct.left = points.left.map service.pedersenCommitment
  right : proof.innerProduct.right = points.right.map service.pedersenCommitment

/-! ## The verifier's sum -/

section Sum

theorem s_eq_weights {us : List (ZMod ℓ)} (hus : ∀ u ∈ us, u ≠ 0) (hn : n = 2 ^ us.length) :
    (rangeVerificationScalars us n).s = weights us := by
  have hpos := Nat.two_pow_pos us.length
  show weightsFrom (us.map (·⁻¹)).prod (us.map fun u => u * u) (n - 1) = weights us
  rw [weightsFrom_eq hus (by omega), Nat.sub_add_cancel (by omega), List.take_of_length_le]
  rw [length_weights, hn]

end Sum

/-! ## Acceptance -/

/-- No point of a proof is the identity. -/
structure RangeProofPoints.NoIdentity (points : RangeProofPoints P) : Prop where
  a : points.a ≠ 0
  s : points.s ≠ 0
  t1 : points.t1 ≠ 0
  t2 : points.t2 ≠ 0
  left : ∀ point ∈ points.left, point ≠ 0
  right : ∀ point ∈ points.right, point ≠ 0

section Verify

variable [DecidableEq P] {service} {merlin : Transcript → ZMod ℓ} (hlaw : service.curve.Lawful)

include hlaw

omit [Module (ZMod ℓ) P] [Fact ℓ.Prime] in
/-- A point that was required. -/
theorem requirePoint_eq_ok {data : PedersenCommitment} {point : P} {name : String} {fault : Fault}
    (h : service.requirePoint data name fault = .ok point) :
    data = service.pedersenCommitment point ∧ point ≠ 0 := by
  unfold requirePoint at h
  split at h
  · rename_i decoded hdecoded
    split at h
    · cases h
    · rename_i hne
      obtain rfl := Except.ok.inj h
      exact ⟨eq_pedersenCommitment hlaw hdecoded, hne⟩
  · cases h

omit [Module (ZMod ℓ) P] [Fact ℓ.Prime] in
theorem requirePoint_bind_eq_ok {α : Type} {data : PedersenCommitment} {point : P} {name : String}
    {fault : Fault} {f : P → Except Fault α} {result : α}
    (hdata : data = service.pedersenCommitment point) :
    (service.requirePoint data name fault >>= f) = .ok result
      ↔ point ≠ 0 ∧ f point = .ok result := by
  unfold requirePoint
  rw [hdata, ristrettoPoint_pedersenCommitment hlaw]
  by_cases hpoint : point = 0
  · simp [hpoint]
  · simp [hpoint]

omit [Module (ZMod ℓ) P] [Fact ℓ.Prime] in
theorem checkRounds_eq_ok {left right : List P} (hlen : left.length = right.length) :
    service.checkRounds (left.map service.pedersenCommitment)
        (right.map service.pedersenCommitment) = .ok ()
      ↔ (∀ point ∈ left, point ≠ 0) ∧ ∀ point ∈ right, point ≠ 0 := by
  induction left generalizing right with
  | nil =>
    obtain rfl := List.eq_nil_of_length_eq_zero hlen.symm
    simp [checkRounds]
  | cons l left ih =>
    obtain ⟨r, right, rfl⟩ := List.exists_cons_of_length_eq_add_one hlen.symm
    rw [List.map_cons, List.map_cons, checkRounds, requirePoint_bind_eq_ok hlaw rfl,
      requirePoint_bind_eq_ok hlaw rfl, ih (Nat.succ.inj hlen), List.forall_mem_cons,
      List.forall_mem_cons]
    tauto

omit [Module (ZMod ℓ) P] [Fact ℓ.Prime] in
theorem rangeInnerProductVerificationScalars_bind_eq_ok {α : Type}
    {proof : RangeInnerProductProof ℓ}
    {left right : List P} {k : ℕ} {transcript : Transcript}
    {f : RangeVerificationScalars ℓ × Transcript → Except Fault α} {result : α} (hk : 0 < k)
    (hk' : k < 32) (hleft : proof.left = left.map service.pedersenCommitment)
    (hright : proof.right = right.map service.pedersenCommitment) (hl : left.length = k)
    (hr : right.length = k) :
    (service.rangeInnerProductVerificationScalars merlin proof (2 ^ k) transcript >>= f)
        = .ok result
      ↔ ((∀ point ∈ left, point ≠ 0) ∧ ∀ point ∈ right, point ≠ 0)
        ∧ f (rangeVerificationScalars (roundChallenges merlin proof.left proof.right
            (transcript.appendRangeInnerProductDomainSeparator (2 ^ k))) (2 ^ k),
          (transcript.appendRangeInnerProductDomainSeparator (2 ^ k)).appendRounds proof.left
            proof.right) = .ok result := by
  have hguard : ¬ (proof.left.length = 0 ∨ proof.left.length ≠ proof.right.length
      ∨ 32 ≤ proof.left.length ∨ 2 ^ k ≠ 2 ^ proof.left.length) := by
    rw [hleft, hright, List.length_map, List.length_map, hl, hr]
    omega
  have hcheck := checkRounds_eq_ok hlaw (hl.trans hr.symm)
  rw [← hleft, ← hright] at hcheck
  unfold rangeInnerProductVerificationScalars
  rw [bind_assoc, refuse_bind_eq_ok, and_iff_right hguard, bind_assoc, bind_eq_ok]
  refine ⟨?_, ?_⟩
  · rintro ⟨⟨⟩, hrounds, hrest⟩
    exact ⟨hcheck.mp hrounds, hrest⟩
  · rintro ⟨hpoints, hrest⟩
    exact ⟨(), hcheck.mpr hpoints, hrest⟩

/-- The verifier accepts a proof if none of its points is the identity and the sum is. -/
theorem verifyBatchedRangeProof_eq_ok {proof : BatchedRangeProof ℓ} {points : RangeProofPoints P}
    (hencodes : service.Encodes proof points) {c : RangeChallenges ℓ} {k : ℕ}
    {transcript : Transcript} {commitments : List P} {bitLengths : List ℕ} (hk : 0 < k)
    (hk' : k < 32) (hc : c = service.rangeChallenges merlin proof (2 ^ k) transcript)
    (hrounds : c.rounds.length = k) (hleftLen : points.left.length = k)
    (hrightLen : points.right.length = k)
    (hg : (service.rangeGenerators (2 ^ k)).g.length = 2 ^ k)
    (hh : (service.rangeGenerators (2 ^ k)).h.length = 2 ^ k)
    (hlen : commitments.length = bitLengths.length) :
    service.verifyBatchedRangeProof merlin proof commitments bitLengths (2 ^ k) transcript = .ok ()
      ↔ points.NoIdentity
        ∧ multiscalarMul
          (rangeProofScalars proof (rangeVerificationScalars c.rounds (2 ^ k)) commitments.length
            bitLengths (2 ^ k) c.y c.z c.x c.w c.d)
          (service.rangeProofSumPoints points (service.rangeGenerators (2 ^ k)) commitments)
          = 0 := by
  have hguard : ¬ (commitments.length ≠ bitLengths.length ∨ 2 ^ k = 0
      ∨ 2 ^ k &&& (2 ^ k - 1) ≠ 0) := by
    have hpow := Nat.two_pow_pos k
    rw [hlen, Nat.and_two_pow_sub_one_eq_mod, Nat.mod_self]
    omega
  unfold verifyBatchedRangeProof
  rw [refuse_bind_eq_ok, and_iff_right hguard]
  dsimp only
  rw [requirePoint_bind_eq_ok hlaw hencodes.a, requirePoint_bind_eq_ok hlaw hencodes.s,
    requirePoint_bind_eq_ok hlaw hencodes.t1, requirePoint_bind_eq_ok hlaw hencodes.t2,
    rangeInnerProductVerificationScalars_bind_eq_ok hlaw hk hk' hencodes.left hencodes.right
      hleftLen hrightLen]
  dsimp only
  rw [show proof.innerProduct.left.mapM (fun encoded =>
      service.ristrettoPoint encoded.toList "range inner product L") = .ok points.left by
    rw [hencodes.left]; exact mapM_ristrettoPoint hlaw _ _, ok_bind,
    show proof.innerProduct.right.mapM (fun encoded =>
      service.ristrettoPoint encoded.toList "range inner product R") = .ok points.right by
    rw [hencodes.right]; exact mapM_ristrettoPoint hlaw _ _, ok_bind, refuse_bind_eq_ok,
    refuse_eq_ok]
  have hlengths : (rangeProofScalars proof (rangeVerificationScalars c.rounds (2 ^ k))
      commitments.length bitLengths (2 ^ k) c.y c.z c.x c.w c.d).length
      = (service.rangeProofSumPoints points (service.rangeGenerators (2 ^ k))
        commitments).length := by
    simp [rangeProofScalars, rangeProofSumPoints, rangeVerificationScalars, hleftLen, hrightLen,
      hrounds, hg, hh]
  subst hc
  refine ⟨?_, ?_⟩
  · rintro ⟨ha0, hs0, ht10, ht20, ⟨hleft0, hright0⟩, -, hsum⟩
    exact ⟨⟨ha0, hs0, ht10, ht20, hleft0, hright0⟩, not_not.mp hsum⟩
  · rintro ⟨hid, hsum⟩
    exact ⟨hid.a, hid.s, hid.t1, hid.t2, ⟨hid.left, hid.right⟩, not_not.mpr hlengths,
      not_not.mpr hsum⟩

end Verify

end ConfidentialTransferService

end SolanaGo.Token2022
