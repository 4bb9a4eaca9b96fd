/-
A pending balance after any number of credits.

Each credit is split into its low 16 bits and the rest. Both parts are added to the
pending ciphertexts, encrypted by the sender or, in a deposit, as plain amounts. The
low parts of several credits together can be more than 16 bits long; the sum is still in
the ciphertext, but `DecryptPendingBalance` does not return it.
-/
import SolanaGo.Token2022.DiscreteLog

set_option autoImplicit false

namespace SolanaGo.Token2022

open Codec

/-- How a part of a credit is added: encrypted with an opening, or as a plain amount. -/
inductive Deposit where
  | encrypted (opening : PedersenOpening)
  | plain

/-- A credit, and how its two parts are added. -/
structure Credit where
  amount : ℕ
  low : Deposit
  high : Deposit

/-- The sum of the low parts. -/
def lowSum (credits : List Credit) : ℕ := (credits.map fun c => c.amount % 2 ^ 16).sum

/-- The sum of the high parts. -/
def highSum (credits : List Credit) : ℕ := (credits.map fun c => c.amount / 2 ^ 16).sum

theorem lowSum_cons (credit : Credit) (credits : List Credit) :
    lowSum (credit :: credits) = credit.amount % 2 ^ 16 + lowSum credits := List.sum_cons

theorem highSum_cons (credit : Credit) (credits : List Credit) :
    highSum (credit :: credits) = credit.amount / 2 ^ 16 + highSum credits := List.sum_cons

/-- The parts add up to the credits. -/
theorem lowSum_add_highSum (credits : List Credit) :
    lowSum credits + 2 ^ 16 * highSum credits = (credits.map Credit.amount).sum := by
  induction credits with
  | nil => rfl
  | cons credit credits ih =>
    rw [lowSum_cons, highSum_cons, List.map_cons, List.sum_cons, ← ih]
    have hsplit := Nat.mod_add_div credit.amount (2 ^ 16)
    omega

namespace ConfidentialTransferService

variable {ℓ : ℕ} {P : Type} [AddCommGroup P] [Module (ZMod ℓ) P]
  (service : ConfidentialTransferService ℓ P)

/-- A part of a credit added to its pending ciphertext. -/
def addPart (publicKey : ElGamalPubkey) (pending : ElGamalCiphertext) (part : ℕ) :
    Deposit → Except Fault ElGamalCiphertext
  | .encrypted opening => do
    let ciphertext ← service.encryptElGamalWithOpening publicKey part opening
    service.addElGamalCiphertexts pending ciphertext
  | .plain => service.addElGamalAmount pending part

/-- A credit added to the pending ciphertexts. -/
def addCredit (publicKey : ElGamalPubkey) (pending : ElGamalCiphertext × ElGamalCiphertext)
    (credit : Credit) : Except Fault (ElGamalCiphertext × ElGamalCiphertext) := do
  let (low, high) ← splitAmount credit.amount
  let pendingLow ← service.addPart publicKey pending.1 low credit.low
  let pendingHigh ← service.addPart publicKey pending.2 high credit.high
  return (pendingLow, pendingHigh)

/-- The pending ciphertexts of a fresh account after some credits. -/
def pendingBalance (publicKey : ElGamalPubkey) (credits : List Credit) :
    Except Fault (ElGamalCiphertext × ElGamalCiphertext) :=
  credits.foldlM (service.addCredit publicKey) (ByteArr.zero 64, ByteArr.zero 64)

/-- The opening, if there is one, is a scalar. -/
def HasOpening : Deposit → Prop
  | .encrypted opening => ∃ r, service.curve.scalarOf opening.toList = .ok r
  | .plain => True

section Credits

variable {service} [Fact ℓ.Prime] {s : ZMod ℓ} (hlaw : service.curve.Lawful) (hs : s ≠ 0)

include hlaw hs

/-- Either way, the part is added to the amount. -/
theorem addPart_encrypts {pending : ElGamalCiphertext} {a : ℕ}
    (hpending : service.Encrypts s pending a) (part : ℕ) {deposit : Deposit}
    (hopening : service.HasOpening deposit) :
    ∃ sum, service.addPart (service.pedersenCommitment (s⁻¹ • service.curve.openingBase)) pending
        part deposit = .ok sum ∧ service.Encrypts s sum ((a + part : ℕ) : ZMod ℓ) := by
  rw [Nat.cast_add]
  cases deposit with
  | encrypted opening =>
    obtain ⟨r, hr⟩ := hopening
    obtain ⟨ciphertext, hencrypt, hct⟩ := encryptElGamalWithOpening_encrypts hlaw hs hr part
    obtain ⟨sum, hsum, hamount⟩ := addElGamalCiphertexts_encrypts hlaw hpending hct
    refine ⟨sum, ?_, hamount⟩
    rw [addPart, hencrypt, ok_bind, hsum]
  | plain => exact addElGamalAmount_encrypts hlaw hpending part

/-- Credits keep the pending ciphertexts encryptions of the sums of their parts. -/
theorem foldlM_addCredit (credits : List Credit)
    (hcredits : ∀ credit ∈ credits, credit.amount < 2 ^ 48
      ∧ service.HasOpening credit.low ∧ service.HasOpening credit.high)
    {low0 high0 : ElGamalCiphertext} {a b : ℕ} (hlow : service.Encrypts s low0 a)
    (hhigh : service.Encrypts s high0 b) :
    ∃ low high, credits.foldlM
        (service.addCredit (service.pedersenCommitment (s⁻¹ • service.curve.openingBase)))
        (low0, high0) = .ok (low, high)
      ∧ service.Encrypts s low ((a + lowSum credits : ℕ) : ZMod ℓ)
      ∧ service.Encrypts s high ((b + highSum credits : ℕ) : ZMod ℓ) := by
  induction credits generalizing low0 high0 a b with
  | nil => exact ⟨low0, high0, rfl, hlow, hhigh⟩
  | cons credit credits ih =>
    obtain ⟨hamount, hopenLow, hopenHigh⟩ := hcredits credit List.mem_cons_self
    obtain ⟨low1, hadd1, hlow1⟩ := addPart_encrypts hlaw hs hlow (credit.amount % 2 ^ 16) hopenLow
    obtain ⟨high1, hadd2, hhigh1⟩ :=
      addPart_encrypts hlaw hs hhigh (credit.amount / 2 ^ 16) hopenHigh
    obtain ⟨low, high, hrun, hlow', hhigh'⟩ := ih
      (fun c hc => hcredits c (List.mem_cons_of_mem _ hc)) hlow1 hhigh1
    have hstep : service.addCredit
        (service.pedersenCommitment (s⁻¹ • service.curve.openingBase)) (low0, high0) credit
        = .ok (low1, high1) := by
      unfold addCredit
      rw [splitAmount_of_lt hamount, ok_bind]
      dsimp only
      rw [hadd1, ok_bind, hadd2]
      rfl
    rw [Nat.add_assoc] at hlow' hhigh'
    refine ⟨low, high, ?_, hlow', hhigh'⟩
    rw [List.foldlM_cons, hstep, ok_bind, hrun]

/-- After any credits, the two parts are decrypted and put together, unless the low parts
have outgrown 16 bits. -/
theorem pendingBalance_decrypts (hstarted : service.Started) {secret : ElGamalSecretKey}
    (hsecret : service.curve.scalarOf secret.toList = .ok s) (credits : List Credit)
    (hcredits : ∀ credit ∈ credits, credit.amount < 2 ^ 48
      ∧ service.HasOpening credit.low ∧ service.HasOpening credit.high)
    (hlow : lowSum credits < 2 ^ 32) (hhigh : highSum credits < 2 ^ 32) :
    ∃ low high, service.pendingBalance
        (service.pedersenCommitment (s⁻¹ • service.curve.openingBase)) credits = .ok (low, high)
      ∧ service.decryptPendingBalance secret low high
        = if lowSum credits < 2 ^ 16 then .ok (credits.map Credit.amount).sum
          else .error lowAmountExceeds := by
  have hzero : service.Encrypts s (ByteArr.zero 64) ((0 : ℕ) : ZMod ℓ) := by
    rw [Nat.cast_zero]
    exact encrypts_zero hlaw s
  obtain ⟨low, high, hrun, henc, henc'⟩ := foldlM_addCredit hlaw hs credits hcredits hzero hzero
  rw [Nat.zero_add] at henc henc'
  refine ⟨low, high, hrun, ?_⟩
  rw [decryptPendingBalance_encrypts hlaw hstarted hsecret henc henc' hlow hhigh,
    lowSum_add_highSum]

end Credits

/-- **The pending balance is the sum of the credits.** For every list of credits below
`2^48` whose parts each sum to less than `2^32`, added encrypted with any openings or as
plain amounts: the balance decrypts to the exact sum if the low parts sum to at most
65535, and is refused as too long for 16 bits otherwise. -/
theorem decryptPendingBalance_pendingBalance [Fact ℓ.Prime] (hlaw : service.curve.Lawful)
    (hstarted : service.Started) {secret : ElGamalSecretKey} {publicKey : ElGamalPubkey}
    (hkey : service.deriveElGamalPubkey secret = .ok publicKey) (credits : List Credit)
    (hcredits : ∀ credit ∈ credits, credit.amount < 2 ^ 48
      ∧ service.HasOpening credit.low ∧ service.HasOpening credit.high)
    (hlow : lowSum credits < 2 ^ 32) (hhigh : highSum credits < 2 ^ 32) :
    ∃ low high, service.pendingBalance publicKey credits = .ok (low, high)
      ∧ service.decryptPendingBalance secret low high
        = if lowSum credits ≤ 65535 then .ok (credits.map Credit.amount).sum
          else .error lowAmountExceeds := by
  obtain ⟨s, hsecret, hs, rfl⟩ := deriveElGamalPubkey_eq_ok hkey
  obtain ⟨low, high, hrun, hdecrypt⟩ :=
    pendingBalance_decrypts hlaw hs hstarted hsecret credits hcredits hlow hhigh
  refine ⟨low, high, hrun, ?_⟩
  rw [hdecrypt]
  exact if_congr (by omega) rfl rfl

end ConfidentialTransferService

open ConfidentialTransferService

/-- A started service over the sample group. -/
def sampleService : ConfidentialTransferService sampleOrder (ZMod sampleOrder) :=
  start sampleCurve 1

theorem sampleService_started : sampleService.Started := start_started sampleCurve Nat.one_pos

/-- The public key of the secret key one. -/
def pubkeyOfOne : ElGamalPubkey :=
  sampleService.pedersenCommitment
    ((1 : ZMod sampleOrder)⁻¹ • sampleService.curve.openingBase)

theorem sampleService_key :
    sampleService.deriveElGamalPubkey (sampleEncode 1) = .ok pubkeyOfOne := by
  have hone : sampleService.curve.scalarOf (sampleEncode 1).toList = .ok 1 :=
    sampleDecode_sampleEncode 1
  unfold deriveElGamalPubkey
  rw [hone]
  dsimp only
  rw [if_neg one_ne_zero]
  rfl

/-- One credit encrypted with the opening one, one deposited. -/
theorem decryptPendingBalance_sample :
    ∃ low high, sampleService.pendingBalance pubkeyOfOne
        [⟨65536, .encrypted (sampleEncode 1), .encrypted (sampleEncode 1)⟩, ⟨65535, .plain, .plain⟩]
        = .ok (low, high)
      ∧ sampleService.decryptPendingBalance (sampleEncode 1) low high = .ok 131071 := by
  have hopening : sampleService.HasOpening (.encrypted (sampleEncode 1)) :=
    ⟨1, sampleDecode_sampleEncode 1⟩
  refine sampleService.decryptPendingBalance_pendingBalance sampleCurve_lawful
    sampleService_started sampleService_key _ (fun credit hmem => ?_) (by decide) (by decide)
  rcases List.mem_cons.mp hmem with rfl | hmem
  · exact ⟨by decide, hopening, hopening⟩
  · obtain rfl := List.mem_singleton.mp hmem
    exact ⟨by decide, trivial, trivial⟩

/-- Two deposits whose low parts sum to 65536. -/
def outgrownCredits : List Credit := [⟨65535, .plain, .plain⟩, ⟨1, .plain, .plain⟩]

/-- The credits are within the bounds and sum to 65536, but the balance is refused. -/
theorem decryptPendingBalance_outgrown :
    (∀ credit ∈ outgrownCredits, credit.amount < 2 ^ 48) ∧ lowSum outgrownCredits < 2 ^ 32
      ∧ highSum outgrownCredits < 2 ^ 32 ∧ (outgrownCredits.map Credit.amount).sum = 65536
      ∧ sampleService.deriveElGamalPubkey (sampleEncode 1) = .ok pubkeyOfOne
      ∧ ∃ low high, sampleService.pendingBalance pubkeyOfOne outgrownCredits = .ok (low, high)
        ∧ sampleService.decryptPendingBalance (sampleEncode 1) low high
          = .error (.classified .decryption
              (.message "decrypt pending balance: low amount exceeds 16 bits")) := by
  refine ⟨by decide, by decide, by decide, by decide, sampleService_key, ?_⟩
  have hone : sampleService.curve.scalarOf (sampleEncode 1).toList = .ok 1 :=
    sampleDecode_sampleEncode 1
  refine pendingBalance_decrypts sampleCurve_lawful one_ne_zero sampleService_started hone
    outgrownCredits (fun credit hmem => ?_) (by decide) (by decide)
  rcases List.mem_cons.mp hmem with rfl | hmem
  · exact ⟨by decide, trivial, trivial⟩
  · obtain rfl := List.mem_singleton.mp hmem
    exact ⟨by decide, trivial, trivial⟩

end SolanaGo.Token2022
