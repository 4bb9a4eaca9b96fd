/-
Decryption of amounts: the table of baby steps, the search in it, and the pending
balance in its two parts.

`buildDiscreteLogTable` splits its 65536 entries among workers; whatever their number,
the table holds exactly the points `v • G` for `v < 65536` (`buildDiscreteLogTable_isTable`).
With it the search finds every 32-bit amount (`decodePedersenCommitmentU32_nsmul`).

A pending balance is two ciphertexts, for the low 16 bits and for the rest of each
credit. Their sums are decrypted one by one, and `DecryptPendingBalance` refuses a low
sum that no longer fits 16 bits, so `decryptPendingBalance_encrypts` has two cases.
-/
import SolanaGo.Token2022.Encryption

set_option autoImplicit false

namespace SolanaGo.Token2022

open Codec GiantSteps

/-- `type discreteLogEntry struct`. -/
structure DiscreteLogEntry where
  key : ByteArr 32
  value : ℕ

/-- One assignment to the map. -/
def insertEntry (table : ByteArr 32 → Option ℕ) (entry : DiscreteLogEntry) :
    ByteArr 32 → Option ℕ :=
  fun key => if key = entry.key then some entry.value else table key

/-- `len(builder.entries)`. -/
def tableSize : ℕ := 65536

namespace Ristretto

variable {ℓ : ℕ} {P : Type} [AddCommGroup P] [Module (ZMod ℓ) P]
  (curve : Ristretto ℓ P)

/-! ## The table -/

/-- `compressedRistrettoKey`. -/
def compressedRistrettoKey (point : P) : ByteArr 32 := curve.compress point

/-- The loop of `build`. -/
def buildLoop : (turns value : ℕ) → P → List DiscreteLogEntry → List DiscreteLogEntry
  | 0, _, _, entries => entries
  | turns + 1, value, point, entries =>
    buildLoop turns (value + 1) (point + curve.base)
      (entries.set value ⟨curve.compressedRistrettoKey point, value % 2 ^ 16⟩)

/-- `build`: the entries from `start` up to `stop`. -/
def build (start stop : ℕ) (entries : List DiscreteLogEntry) : List DiscreteLogEntry :=
  curve.buildLoop (stop - start) start ((start : ZMod ℓ) • curve.base) entries

/-- The loop that starts the workers. Each writes to its own part of the entries, so they
are run here one after the other. -/
def buildChunks (size chunk : ℕ) : (turns start : ℕ) → List DiscreteLogEntry →
    List DiscreteLogEntry
  | 0, _, entries => entries
  | turns + 1, start, entries =>
    if start < size then
      buildChunks size chunk turns (start + chunk)
        (curve.build start (min (start + chunk) size) entries)
    else entries

/-- The entries, with `procs` for `runtime.GOMAXPROCS(0)`. -/
def buildEntries (size procs : ℕ) : List DiscreteLogEntry :=
  let workers := min procs size
  let chunk := (size + workers - 1) / workers
  curve.buildChunks size chunk size 0 (List.replicate size ⟨ByteArr.zero 32, 0⟩)

/-- `buildDiscreteLogTable`. -/
def buildDiscreteLogTable (procs : ℕ) : ByteArr 32 → Option ℕ :=
  (curve.buildEntries tableSize procs).foldl insertEntry fun _ => none

/-! ## The table is right -/

/-- The entry for a value. -/
def entry (value : ℕ) : DiscreteLogEntry :=
  ⟨curve.compressedRistrettoKey (value • curve.base), value % 2 ^ 16⟩

section Table

variable {curve}

omit [Module (ZMod ℓ) P] in
theorem length_buildLoop (turns value : ℕ) (point : P) (entries : List DiscreteLogEntry) :
    (curve.buildLoop turns value point entries).length = entries.length := by
  induction turns generalizing value point entries with
  | zero => rfl
  | succ turns ih => rw [buildLoop, ih, List.length_set]

omit [Module (ZMod ℓ) P] in
/-- A worker fills its part and leaves the others. -/
theorem getElem?_buildLoop (turns value : ℕ) (entries : List DiscreteLogEntry)
    (h : value + turns ≤ entries.length) (i : ℕ) :
    (curve.buildLoop turns value (value • curve.base) entries)[i]?
      = if value ≤ i ∧ i < value + turns then some (curve.entry i) else entries[i]? := by
  induction turns generalizing value entries with
  | zero => rw [if_neg (by omega)]; rfl
  | succ turns ih =>
    have hnext : value • curve.base + curve.base
        = (value + 1) • curve.base := (succ_nsmul _ _).symm
    rw [buildLoop, hnext, ih _ _ (by rw [List.length_set]; omega), List.getElem?_set]
    by_cases hi : i = value
    · subst hi
      rw [if_neg (by omega), if_pos rfl, if_pos (by omega), if_pos (by omega)]
      rfl
    · by_cases hlater : value ≤ i ∧ i < value + (turns + 1)
      · rw [if_pos (by omega), if_pos hlater]
      · rw [if_neg (by omega), if_neg (by omega), if_neg hlater]

theorem build_eq (start stop : ℕ) (entries : List DiscreteLogEntry) :
    curve.build start stop entries
      = curve.buildLoop (stop - start) start (start • curve.base) entries := by
  unfold build
  rw [Nat.cast_smul_eq_nsmul]

/-- The workers together fill all entries: the next one starts where the last has
stopped. -/
theorem getElem?_buildChunks {size chunk : ℕ} (hchunk : 0 < chunk) {turns start : ℕ}
    {entries : List DiscreteLogEntry} (hlen : entries.length = size)
    (hturns : size ≤ start + turns)
    (hdone : ∀ i, i < start → i < size → entries[i]? = some (curve.entry i)) {i : ℕ}
    (hi : i < size) :
    (curve.buildChunks size chunk turns start entries)[i]? = some (curve.entry i) := by
  induction turns generalizing start entries with
  | zero => exact hdone i (by omega) hi
  | succ turns ih =>
    unfold buildChunks
    by_cases hstart : start < size
    · rw [if_pos hstart]
      refine ih ?_ (by omega) fun j hj hjs => ?_
      · rw [build_eq, length_buildLoop, hlen]
      · rw [build_eq, getElem?_buildLoop _ _ _ (by omega)]
        by_cases hnew : start ≤ j
        · rw [if_pos (by omega)]
        · rw [if_neg (by omega)]
          exact hdone j (by omega) hjs
    · rw [if_neg hstart]
      exact hdone i (by omega) hi

theorem length_buildChunks (size chunk turns start : ℕ) (entries : List DiscreteLogEntry) :
    (curve.buildChunks size chunk turns start entries).length = entries.length := by
  induction turns generalizing start entries with
  | zero => rfl
  | succ turns ih =>
    unfold buildChunks
    split
    · rw [ih, build_eq, length_buildLoop]
    · rfl

/-- **The entries do not depend on the number of workers.** -/
theorem buildEntries_eq {size procs : ℕ} (hsize : 0 < size) (hprocs : 0 < procs) :
    curve.buildEntries size procs = (List.range size).map curve.entry := by
  have hworkers : 0 < min procs size := by omega
  have hchunk : 0 < (size + min procs size - 1) / min procs size :=
    Nat.div_pos (by omega) hworkers
  have hlen : (curve.buildEntries size procs).length = size := by
    unfold buildEntries
    rw [length_buildChunks, List.length_replicate]
  refine List.ext_getElem? fun i => ?_
  by_cases hi : i < size
  · have hget : (curve.buildEntries size procs)[i]? = some (curve.entry i) :=
      getElem?_buildChunks hchunk List.length_replicate (by omega) (fun j hj => by omega) hi
    rw [hget, List.getElem?_map, List.getElem?_range hi]
    rfl
  · rw [List.getElem?_eq_none (by omega), List.getElem?_eq_none]
    rw [List.length_map, List.length_range]
    omega

variable [Fact ℓ.Prime] (hlaw : curve.Lawful)

include hlaw

theorem distinctBelow_base : DistinctBelow curve.base (2 ^ 32) :=
  distinctBelow_of_prime ℓ hlaw.base_ne_zero (Nat.le_of_lt hlaw.order_gt)

/-- The map holds what was assigned, since no two keys are the same. -/
theorem foldl_insertEntry {size : ℕ} (hsize : size ≤ 2 ^ 16) (key : ByteArr 32) (v : ℕ) :
    ((List.range size).map curve.entry).foldl insertEntry (fun _ => none) key = some v
      ↔ v < size ∧ key = curve.compressedRistrettoKey (v • curve.base) := by
  induction size with
  | zero => simp
  | succ size ih =>
    have hmod : size % 2 ^ 16 = size := Nat.mod_eq_of_lt (by omega)
    rw [List.range_succ, List.map_append, List.foldl_append, List.map_singleton,
      List.foldl_cons, List.foldl_nil, insertEntry]
    by_cases hkey : key = (curve.entry size).key
    · rw [if_pos hkey]
      have hvalue : (curve.entry size).value = size := hmod
      rw [hvalue, Option.some.injEq]
      refine ⟨fun h => ⟨by omega, h ▸ hkey⟩, fun ⟨hv, heq⟩ => ?_⟩
      have hpoint := hlaw.compress_injective (hkey.symm.trans heq)
      exact distinctBelow_base hlaw size v (by omega) (by omega) hpoint
    · rw [if_neg hkey, ih (by omega)]
      refine ⟨fun ⟨hv, heq⟩ => ⟨by omega, heq⟩, fun ⟨hv, heq⟩ => ⟨?_, heq⟩⟩
      have hne : v ≠ size := by
        rintro rfl
        exact hkey heq
      omega

/-- **The table.** For every number of workers it holds exactly the points `v • G` with
`v < 65536`. -/
theorem buildDiscreteLogTable_isTable {procs : ℕ} (hprocs : 0 < procs) :
    IsTable (fun p => curve.buildDiscreteLogTable procs (curve.compressedRistrettoKey p))
      curve.base tableSize := by
  intro point v
  unfold buildDiscreteLogTable
  dsimp only
  rw [buildEntries_eq (by decide) hprocs, foldl_insertEntry hlaw (by decide)]
  refine and_congr_right fun _ => ⟨fun h => hlaw.compress_injective h, fun h => ?_⟩
  rw [h]

end Table

end Ristretto

namespace ConfidentialTransferService

variable {ℓ : ℕ} {P : Type} [AddCommGroup P] [Module (ZMod ℓ) P]
  (service : ConfidentialTransferService ℓ P)

/-- `ZkE1Gama1Proof11111111111111111111111111111`. -/
def zkElGamalProofProgramID : ByteArr 32 :=
  ⟨[8, 99, 117, 172, 226, 174, 234, 40, 26, 107, 55, 77, 104, 27, 167, 106, 83, 204, 246, 56, 192,
    116, 85, 147, 108, 5, 208, 101, 64, 0, 0, 0], rfl⟩

/-- `recr1L3PCGKLbckBqMNcJhuuyU1zgo8nBhfLVsJNwr5`. -/
def splRecordProgramID : ByteArr 32 :=
  ⟨[12, 183, 254, 149, 165, 94, 209, 91, 29, 140, 189, 214, 111, 63, 76, 173, 175, 179, 159, 60,
    225, 206, 74, 154, 47, 220, 170, 212, 36, 219, 249, 206], rfl⟩

/-- `Start`, with `procs` for `runtime.GOMAXPROCS(0)`. -/
def start (curve : Ristretto ℓ P) (procs : ℕ) : ConfidentialTransferService ℓ P where
  curve := curve
  proofProgramID := zkElGamalProofProgramID
  recordProgramID := splRecordProgramID
  discreteLog := curve.buildDiscreteLogTable procs
  rangeProofGenerators := curve.newRangeProofGenerators 256

/-! ## Decryption -/

/-- The error for a point that is no 32-bit multiple of the base. -/
def outsideRange : Fault :=
  .message "decode Pedersen decrypt target: discrete log outside u32 range"

/-- `decodePedersenCommitmentU32`. -/
def decodePedersenCommitmentU32 (target : PedersenCommitment) (table : ByteArr 32 → Option ℕ) :
    Except Fault ℕ := do
  let point ← service.ristrettoPoint target.toList "Pedersen decrypt target"
  let step := (tableSize : ZMod ℓ) • service.curve.base
  match giantSteps (fun p => table (service.curve.compressedRistrettoKey p)) step 65536 0 point with
  | some (high, low) => return high <<< 16 ||| low
  | none => throw outsideRange

/-- `decryptElGamalU32`. -/
def decryptElGamalU32 (secret : ElGamalSecretKey) (ciphertext : ElGamalCiphertext)
    (table : ByteArr 32 → Option ℕ) : Except Fault ℕ := do
  let target ← service.decryptElGamalTarget secret ciphertext
  service.decodePedersenCommitmentU32 target table

/-- The error for a low part that has outgrown its 16 bits. -/
def lowAmountExceeds : Fault :=
  decryptionError (.message "decrypt pending balance: low amount exceeds 16 bits")

/-- `DecryptPendingBalance`. -/
def decryptPendingBalance (secret : ElGamalSecretKey) (low high : ElGamalCiphertext) :
    Except Fault ℕ := do
  let lowAmount ←
    onError decryptionError (service.decryptElGamalU32 secret low service.discreteLog)
  if 65535 < lowAmount then throw lowAmountExceeds
  let highAmount ←
    onError decryptionError (service.decryptElGamalU32 secret high service.discreteLog)
  return combineAmount (lowAmount % 2 ^ 16) highAmount

/-! ## Decryption is right -/

/-- The service after `Start`, with some number of workers. -/
def Started : Prop := ∃ procs, 0 < procs ∧ service = start service.curve procs

theorem start_started (curve : Ristretto ℓ P) {procs : ℕ} (h : 0 < procs) :
    (start curve procs).Started := ⟨procs, h, rfl⟩

section Decryption

variable {service} [Fact ℓ.Prime] (hlaw : service.curve.Lawful)

include hlaw

/-- With a table of the baby steps, the point of a 32-bit amount is found. -/
theorem decodePedersenCommitmentU32_of_isTable {table : ByteArr 32 → Option ℕ}
    (htable : IsTable (fun p => table (service.curve.compressedRistrettoKey p)) service.curve.base
      tableSize) {a : ℕ} (ha : a < 2 ^ 32) :
    service.decodePedersenCommitmentU32 (service.pedersenCommitment (a • service.curve.base)) table
      = .ok a := by
  have hbound : a < tableSize * 65536 := by
    unfold tableSize
    omega
  have hsearch := giantSteps_nsmul htable (Ristretto.distinctBelow_base hlaw) (by decide) 0
    (by decide) hbound
  have hlow : a % tableSize < 2 ^ 16 := Nat.mod_lt _ (by decide)
  have hjoin : (0 + a / tableSize) <<< 16 ||| a % tableSize = a := by
    have hcombine := combineAmount_eq hlow (0 + a / tableSize)
    unfold combineAmount at hcombine
    rw [Nat.or_comm, hcombine, Nat.zero_add]
    exact Nat.mod_add_div a tableSize
  unfold decodePedersenCommitmentU32
  rw [ristrettoPoint_pedersenCommitment hlaw, ok_bind, Nat.cast_smul_eq_nsmul]
  dsimp only
  rw [hsearch]
  dsimp only
  rw [hjoin]
  rfl

/-- And any other point is refused. -/
theorem decodePedersenCommitmentU32_outside {table : ByteArr 32 → Option ℕ}
    (htable : IsTable (fun p => table (service.curve.compressedRistrettoKey p)) service.curve.base
      tableSize) {point : P} (hpoint : ∀ a < 2 ^ 32, point ≠ a • service.curve.base) :
    service.decodePedersenCommitmentU32 (service.pedersenCommitment point) table
      = .error outsideRange := by
  have hmiss : ∀ a, a < tableSize * 65536 → point ≠ a • service.curve.base := by
    intro a ha
    refine hpoint a ?_
    unfold tableSize at ha
    omega
  unfold decodePedersenCommitmentU32
  rw [ristrettoPoint_pedersenCommitment hlaw, ok_bind, Nat.cast_smul_eq_nsmul]
  dsimp only
  rw [giantSteps_eq_none htable hmiss]
  rfl

/-- **Every 32-bit amount is found.** -/
theorem decodePedersenCommitmentU32_nsmul (hstarted : service.Started) {a : ℕ}
    (ha : a < 2 ^ 32) :
    service.decodePedersenCommitmentU32
        (service.pedersenCommitment ((a : ZMod ℓ) • service.curve.base)) service.discreteLog
      = .ok a := by
  obtain ⟨procs, hprocs, hstart⟩ := hstarted
  have htable : service.discreteLog = service.curve.buildDiscreteLogTable procs :=
    congrArg discreteLog hstart
  rw [Nat.cast_smul_eq_nsmul, htable]
  exact decodePedersenCommitmentU32_of_isTable hlaw
    (Ristretto.buildDiscreteLogTable_isTable hlaw hprocs) ha

variable {secret : ElGamalSecretKey}

/-- Decryption is the search for the point of the amount. -/
theorem decryptElGamalU32_eq {s a : ZMod ℓ} (hsecret : service.curve.scalarOf secret.toList = .ok s)
    {ciphertext : ElGamalCiphertext} (hct : service.Encrypts s ciphertext a)
    (table : ByteArr 32 → Option ℕ) :
    service.decryptElGamalU32 secret ciphertext table = service.decodePedersenCommitmentU32
      (service.pedersenCommitment (a • service.curve.base)) table := by
  obtain ⟨commitment, handle, rfl, hpoint⟩ := hct
  unfold decryptElGamalU32 decryptElGamalTarget
  rw [scalarFromBytes_eq_ok.mpr hsecret, ok_bind, elGamalCiphertextPoints_elGamalCiphertext hlaw,
    ok_bind]
  dsimp only
  rw [hpoint]
  rfl

/-- A ciphertext of a 32-bit amount decrypts to it. -/
theorem decryptElGamalU32_encrypts (hstarted : service.Started) {s : ZMod ℓ}
    (hsecret : service.curve.scalarOf secret.toList = .ok s) {ciphertext : ElGamalCiphertext}
    {a : ℕ} (hct : service.Encrypts s ciphertext a) (ha : a < 2 ^ 32) :
    service.decryptElGamalU32 secret ciphertext service.discreteLog = .ok a := by
  rw [decryptElGamalU32_eq hlaw hsecret hct]
  exact decodePedersenCommitmentU32_nsmul hlaw hstarted ha

/-- What a ciphertext decrypts to: the 32-bit amount that it encrypts, if there is one. -/
theorem decryptElGamalU32_eq_ok_iff (hstarted : service.Started) {s a : ZMod ℓ}
    (hsecret : service.curve.scalarOf secret.toList = .ok s) {ciphertext : ElGamalCiphertext}
    (hct : service.Encrypts s ciphertext a) {n : ℕ} :
    service.decryptElGamalU32 secret ciphertext service.discreteLog = .ok n
      ↔ n < 2 ^ 32 ∧ (n : ZMod ℓ) = a := by
  constructor
  · intro h
    by_cases hsmall : ∃ b < 2 ^ 32, ((b : ℕ) : ZMod ℓ) = a
    · obtain ⟨b, hb, rfl⟩ := hsmall
      rw [decryptElGamalU32_encrypts hlaw hstarted hsecret hct hb] at h
      obtain rfl := Except.ok.inj h
      exact ⟨hb, rfl⟩
    · obtain ⟨procs, hprocs, hstart⟩ := hstarted
      have htable : service.discreteLog = service.curve.buildDiscreteLogTable procs :=
        congrArg discreteLog hstart
      have houtside : ∀ b < 2 ^ 32, a • service.curve.base ≠ b • service.curve.base := by
        intro b hb heq
        rw [← Nat.cast_smul_eq_nsmul (ZMod ℓ)] at heq
        exact hsmall ⟨b, hb, (smul_left_injective (ZMod ℓ) hlaw.base_ne_zero heq).symm⟩
      rw [decryptElGamalU32_eq hlaw hsecret hct, htable, decodePedersenCommitmentU32_outside hlaw
        (Ristretto.buildDiscreteLogTable_isTable hlaw hprocs) houtside] at h
      cases h
  · rintro ⟨hn, rfl⟩
    exact decryptElGamalU32_encrypts hlaw hstarted hsecret hct hn

/-- **The pending balance.** Parts that decrypt to `a` and `b` are put together, unless `a`
has outgrown its 16 bits. -/
theorem decryptPendingBalance_encrypts (hstarted : service.Started) {s : ZMod ℓ}
    (hsecret : service.curve.scalarOf secret.toList = .ok s) {low high : ElGamalCiphertext}
    {a b : ℕ} (hlow : service.Encrypts s low a) (hhigh : service.Encrypts s high b)
    (ha : a < 2 ^ 32) (hb : b < 2 ^ 32) :
    service.decryptPendingBalance secret low high
      = if a < 2 ^ 16 then .ok (a + 2 ^ 16 * b) else .error lowAmountExceeds := by
  unfold decryptPendingBalance
  rw [decryptElGamalU32_encrypts hlaw hstarted hsecret hlow ha, onError_ok, ok_bind]
  by_cases hfits : a < 2 ^ 16
  · rw [if_neg (by omega), if_pos hfits, decryptElGamalU32_encrypts hlaw hstarted hsecret hhigh hb,
      onError_ok]
    simp only [ok_bind, Nat.mod_eq_of_lt hfits, combineAmount_eq hfits]
    rfl
  · rw [if_pos (by omega), if_neg hfits]
    rfl

end Decryption

end ConfidentialTransferService

end SolanaGo.Token2022
