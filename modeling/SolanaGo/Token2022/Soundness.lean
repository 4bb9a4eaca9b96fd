/-
Special soundness of the sigma verifiers.

Each verifier checks several equations with one sum, weighted by powers of the batching
scalar. The sum is written as such a weighted sum first (`…Check_eq_horner`). For more
batching scalars than the highest power, all equations hold. Two challenges then give the
scalars of the statement, each as a quotient of differences of responses and challenges:
`answerQuotient`.
-/
import SolanaGo.Lib.SpecialSoundness
import SolanaGo.Token2022.Completeness

set_option autoImplicit false

namespace SolanaGo.Token2022

open InnerProduct SpecialSoundness

variable {ℓ : ℕ}

/-- The scalar that two responses to two challenges give. -/
def answerQuotient (c1 c2 z1 z2 : ZMod ℓ) : ZMod ℓ := (c1 - c2)⁻¹ * (z1 - z2)

/-- What two answers of an equality proof show. -/
def EqualityScalars.quotient (c1 c2 : ZMod ℓ) (z1 z2 : EqualityScalars ℓ) : EqualityScalars ℓ where
  secret := answerQuotient c1 c2 z1.secret z2.secret
  amount := answerQuotient c1 c2 z1.amount z2.amount
  opening := answerQuotient c1 c2 z1.opening z2.opening

namespace ConfidentialTransferService

variable {P : Type} [AddCommGroup P] [Module (ZMod ℓ) P]
  {service : ConfidentialTransferService ℓ P}

/-! ## The checks as weighted sums -/

theorem pubkeyValidityCheck_eq_horner [Fact ℓ.Prime] (publicKey commitment : P)
    (response challenge batching : ZMod ℓ) :
    service.pubkeyValidityCheck publicKey commitment response challenge
      = horner batching
        [response • service.curve.openingBase - challenge • publicKey - commitment] := by
  unfold pubkeyValidityCheck
  simp only [dot_cons, dot_nil_left, horner_cons, horner_nil]
  module

theorem zeroCiphertextCheck_eq_horner [Fact ℓ.Prime] (publicKey commitment handle : P)
    (commitments : ZeroCiphertextCommitments P) (response challenge batching : ZMod ℓ) :
    service.zeroCiphertextCheck publicKey commitment handle commitments response challenge batching
      = horner batching
        [response • publicKey - challenge • service.curve.openingBase - commitments.publicKey,
          response • handle - challenge • commitment - commitments.handle] := by
  unfold zeroCiphertextCheck
  simp only [dot_cons, dot_nil_left, horner_cons, horner_nil]
  module

theorem ciphertextCommitmentEqualityCheck_eq_horner [Fact ℓ.Prime]
    (publicKey ciphertextCommitment handle commitment : P) (commitments : EqualityCommitments P)
    (responses : EqualityScalars ℓ) (challenge batching : ZMod ℓ) :
    service.ciphertextCommitmentEqualityCheck publicKey ciphertextCommitment handle commitment
        commitments responses challenge batching
      = horner batching
        [responses.secret • publicKey - challenge • service.curve.openingBase - commitments.y0,
          responses.amount • service.curve.base + responses.secret • handle
            - challenge • ciphertextCommitment - commitments.y1,
          responses.amount • service.curve.base
            + responses.opening • service.curve.openingBase - challenge • commitment
            - commitments.y2] := by
  unfold ciphertextCommitmentEqualityCheck
  simp only [dot_cons, dot_nil_left, horner_cons, horner_nil]
  module

theorem ciphertextCiphertextEqualityCheck_eq_horner [Fact ℓ.Prime]
    (firstPubkey secondPubkey firstCommitment firstHandle secondCommitment secondHandle : P)
    (commitments : CiphertextEqualityCommitments P) (responses : EqualityScalars ℓ)
    (challenge batching : ZMod ℓ) :
    service.ciphertextCiphertextEqualityCheck firstPubkey secondPubkey firstCommitment firstHandle
        secondCommitment secondHandle commitments responses challenge batching
      = horner batching
        [responses.secret • firstPubkey - challenge • service.curve.openingBase - commitments.y0,
          responses.amount • service.curve.base + responses.secret • firstHandle
            - challenge • firstCommitment - commitments.y1,
          responses.amount • service.curve.base
            + responses.opening • service.curve.openingBase - challenge • secondCommitment
            - commitments.y2,
          responses.opening • secondPubkey - challenge • secondHandle - commitments.y3] := by
  unfold ciphertextCiphertextEqualityCheck
  simp only [dot_cons, dot_nil_left, horner_cons, horner_nil]
  module

/-- The equations for the handles, one for each key. -/
def handleEquations (response challenge : ZMod ℓ) : List P → List P → List P → List P
  | publicKey :: publicKeys, handle :: handles, commitment :: commitments =>
    (response • publicKey - challenge • handle - commitment)
      :: handleEquations response challenge publicKeys handles commitments
  | _, _, _ => []

theorem length_handleEquations_le (response challenge : ZMod ℓ)
    (publicKeys handles commitments : List P) :
    (handleEquations response challenge publicKeys handles commitments).length
      ≤ publicKeys.length := by
  fun_induction handleEquations response challenge publicKeys handles commitments with
  | case1 publicKey publicKeys handle handles commitment commitments ih => exact Nat.succ_le_succ ih
  | case2 => exact Nat.zero_le _

theorem dot_validityScalars_eq_horner [Fact ℓ.Prime] (response challenge batching : ZMod ℓ)
    (publicKeys handles commitments : List P) (power : ZMod ℓ)
    (hhandles : handles.length = publicKeys.length)
    (hcommitments : commitments.length = publicKeys.length) :
    dot (validityScalars response challenge batching publicKeys.length power)
        (validityPoints publicKeys handles commitments)
      = (power * batching) • horner batching
        (handleEquations response challenge publicKeys handles commitments) := by
  induction publicKeys generalizing handles commitments power with
  | nil => simp [validityScalars, handleEquations]
  | cons publicKey publicKeys ih =>
    obtain ⟨handle, handles, rfl⟩ := List.exists_cons_of_length_eq_add_one hhandles
    obtain ⟨commitment, commitments, rfl⟩ := List.exists_cons_of_length_eq_add_one hcommitments
    rw [List.length_cons, validityScalars, validityPoints, dot_cons, dot_cons, dot_cons,
      ih _ _ _ (Nat.succ.inj hhandles) (Nat.succ.inj hcommitments), handleEquations, horner_cons]
    module

theorem groupedCiphertextValidityCheck_eq_horner [Fact ℓ.Prime] {publicKeys : List P}
    {ciphertext commitments : GroupedPoints P}
    (hhandles : ciphertext.handles.length = publicKeys.length)
    (hcommitments : commitments.handles.length = publicKeys.length)
    (responses : ValidityScalars ℓ) (challenge batching : ZMod ℓ) :
    service.groupedCiphertextValidityCheck publicKeys ciphertext commitments responses challenge
        batching
      = horner batching
        ((responses.opening • service.curve.openingBase + responses.amount • service.curve.base
            - challenge • ciphertext.commitment - commitments.commitment)
          :: handleEquations responses.opening challenge publicKeys ciphertext.handles
            commitments.handles) := by
  unfold groupedCiphertextValidityCheck
  simp only [List.cons_append, List.nil_append, dot_cons, horner_cons]
  rw [dot_validityScalars_eq_horner _ _ _ _ _ _ _ hhandles hcommitments]
  module

theorem percentageWithCapCheck_eq_horner [Fact ℓ.Prime] (percentage delta claimed : P)
    (maxValue : ℕ) (proof : PercentageWithCapProofValues ℓ P) (challenge batching : ZMod ℓ) :
    service.percentageWithCapCheck percentage delta claimed maxValue proof challenge batching
      = horner batching
        [proof.cMax • percentage - (proof.cMax * (maxValue : ZMod ℓ)) • service.curve.base
            - proof.zMax • service.curve.openingBase + proof.yMax,
          proof.zX • service.curve.base + proof.zDelta • service.curve.openingBase
            - (challenge - proof.cMax) • delta - proof.yDelta,
          proof.zX • service.curve.base + proof.zClaimed • service.curve.openingBase
            - (challenge - proof.cMax) • claimed - proof.yClaimed] := by
  unfold percentageWithCapCheck
  simp only [dot_cons, dot_nil_left, horner_cons, horner_nil]
  module

/-! ## Extraction -/

variable [Fact ℓ.Prime] {c1 c2 : ZMod ℓ}

/-- Two answers to an equation with one response. -/
theorem extract_one (hne : c1 ≠ c2) {z1 z2 : ZMod ℓ} {g b y : P} (h1 : z1 • g - c1 • b - y = 0)
    (h2 : z2 • g - c2 • b - y = 0) : b = answerQuotient c1 c2 z1 z2 • g := by
  rw [extract hne h1 h2, answerQuotient]
  module

/-- Two answers to an equation with two responses. -/
theorem extract_two (hne : c1 ≠ c2) {z1 z2 x1 x2 : ZMod ℓ} {g h b y : P}
    (h1 : z1 • g + x1 • h - c1 • b - y = 0) (h2 : z2 • g + x2 • h - c2 • b - y = 0) :
    b = answerQuotient c1 c2 z1 z2 • g + answerQuotient c1 c2 x1 x2 • h := by
  rw [extract hne h1 h2, answerQuotient, answerQuotient]
  module

theorem exists_isSecretOf {publicKey commitment : P} (hne : publicKey ≠ 0)
    (h : AnswersTwo 0 fun response challenge _ : ZMod ℓ =>
      service.pubkeyValidityCheck publicKey commitment response challenge) :
    ∃ secret, service.IsSecretOf publicKey secret := by
  obtain ⟨c1, c2, hc, z1, z2, h1, h2⟩ := h.equations
    (fun z c w => pubkeyValidityCheck_eq_horner publicKey commitment z c w) fun _ _ => le_rfl
  rw [List.forall_mem_singleton] at h1 h2
  have hkey := extract_one hc h1 h2
  have hscalar : answerQuotient c1 c2 z1 z2 ≠ 0 := by
    intro hscalar
    rw [hscalar, zero_smul] at hkey
    exact hne hkey
  refine ⟨(answerQuotient c1 c2 z1 z2)⁻¹, ?_⟩
  show (answerQuotient c1 c2 z1 z2)⁻¹ • publicKey = service.curve.openingBase
  rw [hkey, inv_smul_smul₀ hscalar]

theorem exists_zeroCiphertextStatement {publicKey commitment handle : P}
    {commitments : ZeroCiphertextCommitments P}
    (h : AnswersTwo 1 (service.zeroCiphertextCheck publicKey commitment handle commitments)) :
    ∃ secret, service.ZeroCiphertextStatement publicKey commitment handle secret := by
  obtain ⟨c1, c2, hc, z1, z2, h1, h2⟩ := h.equations
    (zeroCiphertextCheck_eq_horner publicKey commitment handle commitments) fun _ _ => le_rfl
  simp only [List.forall_mem_cons] at h1 h2
  obtain ⟨hkey1, hzero1, -⟩ := h1
  obtain ⟨hkey2, hzero2, -⟩ := h2
  exact ⟨answerQuotient c1 c2 z1 z2, (extract_one hc hkey1 hkey2).symm,
    extract_one hc hzero1 hzero2⟩

theorem exists_commitmentEqualityStatement
    {publicKey ciphertextCommitment handle commitment : P} {commitments : EqualityCommitments P}
    (h : AnswersTwo 2 (service.ciphertextCommitmentEqualityCheck publicKey ciphertextCommitment
      handle commitment commitments)) :
    ∃ shown, service.CommitmentEqualityStatement publicKey ciphertextCommitment handle commitment
      shown := by
  obtain ⟨c1, c2, hc, z1, z2, h1, h2⟩ := h.equations
    (ciphertextCommitmentEqualityCheck_eq_horner publicKey ciphertextCommitment handle commitment
      commitments) fun _ _ => le_rfl
  simp only [List.forall_mem_cons] at h1 h2
  obtain ⟨hkey1, hciphertext1, hcommitment1, -⟩ := h1
  obtain ⟨hkey2, hciphertext2, hcommitment2, -⟩ := h2
  refine ⟨EqualityScalars.quotient c1 c2 z1 z2, ?_⟩
  exact {
    key := (extract_one hc hkey1 hkey2).symm
    ciphertext := extract_two hc hciphertext1 hciphertext2
    commitment := extract_two hc hcommitment1 hcommitment2 }

theorem exists_ciphertextEqualityStatement
    {firstPubkey secondPubkey firstCommitment firstHandle secondCommitment secondHandle : P}
    {commitments : CiphertextEqualityCommitments P}
    (h : AnswersTwo 3 (service.ciphertextCiphertextEqualityCheck firstPubkey secondPubkey
      firstCommitment firstHandle secondCommitment secondHandle commitments)) :
    ∃ shown, service.CiphertextEqualityStatement firstPubkey secondPubkey firstCommitment
      firstHandle secondCommitment secondHandle shown := by
  obtain ⟨c1, c2, hc, z1, z2, h1, h2⟩ := h.equations
    (ciphertextCiphertextEqualityCheck_eq_horner firstPubkey secondPubkey firstCommitment
      firstHandle secondCommitment secondHandle commitments) fun _ _ => le_rfl
  simp only [List.forall_mem_cons] at h1 h2
  obtain ⟨hkey1, hfirst1, hsecond1, hhandle1, -⟩ := h1
  obtain ⟨hkey2, hfirst2, hsecond2, hhandle2, -⟩ := h2
  refine ⟨EqualityScalars.quotient c1 c2 z1 z2, ?_⟩
  exact {
    key := (extract_one hc hkey1 hkey2).symm
    ciphertext := extract_two hc hfirst1 hfirst2
    commitment := extract_two hc hsecond1 hsecond2
    handle := extract_one hc hhandle1 hhandle2 }

/-- Two answers give the same opening for every handle. -/
theorem handles_eq_of_handleEquations (hne : c1 ≠ c2) {z1 z2 : ZMod ℓ}
    {publicKeys handles commitments : List P} (hhandles : handles.length = publicKeys.length)
    (hcommitments : commitments.length = publicKeys.length)
    (h1 : ∀ a ∈ handleEquations z1 c1 publicKeys handles commitments, a = 0)
    (h2 : ∀ a ∈ handleEquations z2 c2 publicKeys handles commitments, a = 0) :
    handles = publicKeys.map (answerQuotient c1 c2 z1 z2 • ·) := by
  induction publicKeys generalizing handles commitments with
  | nil => exact List.eq_nil_of_length_eq_zero hhandles
  | cons publicKey publicKeys ih =>
    obtain ⟨handle, handles, rfl⟩ := List.exists_cons_of_length_eq_add_one hhandles
    obtain ⟨commitment, commitments, rfl⟩ := List.exists_cons_of_length_eq_add_one hcommitments
    rw [handleEquations, List.forall_mem_cons] at h1 h2
    rw [List.map_cons, ← extract_one hne h1.1 h2.1,
      ← ih (Nat.succ.inj hhandles) (Nat.succ.inj hcommitments) h1.2 h2.2]

theorem groupedValidityStatement_iff {publicKeys : List P} {ciphertext : GroupedPoints P}
    {shown : ValidityScalars ℓ} :
    service.GroupedValidityStatement publicKeys ciphertext shown
      ↔ ciphertext.commitment = shown.opening • service.curve.openingBase
          + shown.amount • service.curve.base
        ∧ ciphertext.handles = publicKeys.map (shown.opening • ·) := by
  obtain ⟨commitment, handles⟩ := ciphertext
  unfold GroupedValidityStatement groupedPoints
  rw [GroupedPoints.mk.injEq]
  simp only [dot_cons, dot_nil_left, add_zero]

theorem exists_groupedValidityStatement {publicKeys : List P}
    {ciphertext commitments : GroupedPoints P}
    (hhandles : ciphertext.handles.length = publicKeys.length)
    (hcommitments : commitments.handles.length = publicKeys.length)
    (h : AnswersTwo publicKeys.length
      (service.groupedCiphertextValidityCheck publicKeys ciphertext commitments)) :
    ∃ shown, service.GroupedValidityStatement publicKeys ciphertext shown := by
  obtain ⟨c1, c2, hc, z1, z2, h1, h2⟩ := h.equations
    (groupedCiphertextValidityCheck_eq_horner hhandles hcommitments)
    fun _ _ => Nat.succ_le_succ (length_handleEquations_le _ _ _ _ _)
  rw [List.forall_mem_cons] at h1 h2
  exact ⟨⟨answerQuotient c1 c2 z1.opening z2.opening, answerQuotient c1 c2 z1.amount z2.amount⟩,
    groupedValidityStatement_iff.mpr ⟨extract_two hc h1.1 h2.1,
      handles_eq_of_handleEquations hc hhandles hcommitments h1.2 h2.2⟩⟩

/-! ### Two ciphertexts

A combination `low + t • high` is linear in `t`, so the combining scalar takes the place of the
challenge, and the low ciphertext that of the first message. -/

theorem handleEquations_of_combine {opening t : ZMod ℓ} {publicKeys low high : List P}
    (h : List.zipWith (fun l h => l + t • h) low high = publicKeys.map (opening • ·)) :
    ∀ a ∈ handleEquations opening t publicKeys high low, a = 0 := by
  induction publicKeys generalizing low high with
  | nil => simp [handleEquations]
  | cons publicKey publicKeys ih =>
    cases low with
    | nil => simp at h
    | cons l low =>
      cases high with
      | nil => simp at h
      | cons r high =>
        rw [List.zipWith_cons_cons, List.map_cons, List.cons.injEq] at h
        rw [handleEquations, List.forall_mem_cons, ← h.1]
        exact ⟨by abel, ih h.2⟩

/-- The low handles, once the high ones are known. -/
theorem low_eq_of_handleEquations {opening t q : ZMod ℓ} {publicKeys low : List P}
    (hlen : low.length = publicKeys.length)
    (h : ∀ a ∈ handleEquations opening t publicKeys (publicKeys.map (q • ·)) low, a = 0) :
    low = publicKeys.map ((opening - t * q) • ·) := by
  induction publicKeys generalizing low with
  | nil => exact List.eq_nil_of_length_eq_zero hlen
  | cons publicKey publicKeys ih =>
    obtain ⟨l, low, rfl⟩ := List.exists_cons_of_length_eq_add_one hlen
    rw [List.map_cons, handleEquations, List.forall_mem_cons] at h
    rw [List.map_cons, ← ih (Nat.succ.inj hlen) h.2, ← sub_eq_zero.mp h.1, sub_smul, mul_smul]

theorem groupedValidityStatement_of_combine {publicKeys : List P} {low high : GroupedPoints P}
    (hlow : low.handles.length = publicKeys.length)
    (hhigh : high.handles.length = publicKeys.length) {t1 t2 : ZMod ℓ} (hne : t1 ≠ t2)
    {shown1 shown2 : ValidityScalars ℓ}
    (h1 : service.GroupedValidityStatement publicKeys (low.combine high t1) shown1)
    (h2 : service.GroupedValidityStatement publicKeys (low.combine high t2) shown2) :
    (∃ shown, service.GroupedValidityStatement publicKeys low shown)
      ∧ ∃ shown, service.GroupedValidityStatement publicKeys high shown := by
  rw [groupedValidityStatement_iff] at h1 h2
  have hequation : ∀ {t : ZMod ℓ} {x : P}, low.commitment + t • high.commitment = x →
      x - t • high.commitment - low.commitment = 0 := by
    rintro t x rfl
    abel
  have hcommitment := extract_two hne (hequation h1.1) (hequation h2.1)
  have hhandles := handles_eq_of_handleEquations hne hhigh hlow (handleEquations_of_combine h1.2)
    (handleEquations_of_combine h2.2)
  -- The low ciphertext is what is left of the first combination.
  have hlowHandles := handleEquations_of_combine h1.2
  rw [hhandles] at hlowHandles
  have hlowCommitment := sub_eq_zero.mp (hequation h1.1)
  rw [hcommitment] at hlowCommitment
  refine ⟨⟨⟨_, shown1.amount - t1 * answerQuotient t1 t2 shown1.amount shown2.amount⟩,
    groupedValidityStatement_iff.mpr ⟨?_, low_eq_of_handleEquations hlow hlowHandles⟩⟩,
    ⟨⟨_, _⟩, groupedValidityStatement_iff.mpr ⟨hcommitment, hhandles⟩⟩⟩
  rw [← hlowCommitment]
  module

/-! ### One of two statements -/

theorem answerQuotient_mul_right (hne : c1 ≠ c2) (x : ZMod ℓ) :
    answerQuotient c1 c2 (c1 * x) (c2 * x) = x := by
  unfold answerQuotient
  rw [← sub_mul, inv_mul_cancel_left₀ (sub_ne_zero.mpr hne)]

/-- The challenge is split between the two statements, so two challenges differ in one of the
parts. -/
theorem percentageIsMaximum_or_deltaIsClaimed {percentage delta claimed : P} {maxValue : ℕ}
    {commitments : PercentageCommitments P}
    (h : AnswersTwo 2 fun proof : { proof : PercentageWithCapProofValues ℓ P //
        proof.toPercentageCommitments = commitments } =>
      service.percentageWithCapCheck percentage delta claimed maxValue proof.1) :
    service.PercentageIsMaximum percentage maxValue ∨ service.DeltaIsClaimed delta claimed := by
  obtain ⟨c1, c2, hc, ⟨proof1, hproof1⟩, ⟨proof2, hproof2⟩, h1, h2⟩ := h.equations
    (fun proof => percentageWithCapCheck_eq_horner percentage delta claimed maxValue proof.1)
    fun _ _ => le_rfl
  simp only [List.forall_mem_cons] at h1 h2
  obtain ⟨hmax1, hdelta1, hclaimed1, -⟩ := h1
  obtain ⟨hmax2, hdelta2, hclaimed2, -⟩ := h2
  have hsame : proof2.toPercentageCommitments = proof1.toPercentageCommitments :=
    hproof2.trans hproof1.symm
  rw [hsame] at hmax2 hdelta2 hclaimed2
  by_cases hmax : proof1.cMax = proof2.cMax
  · have hequality : c1 - proof1.cMax ≠ c2 - proof2.cMax := by
      rw [hmax]
      exact fun heq => hc (sub_left_injective heq)
    exact .inr ⟨_, _, _, extract_two hequality hdelta1 hdelta2,
      extract_two hequality hclaimed1 hclaimed2⟩
  · have hequation : ∀ {c z : ZMod ℓ} {y : P}, c • percentage
        - (c * (maxValue : ZMod ℓ)) • service.curve.base - z • service.curve.openingBase + y = 0 →
        (c * (maxValue : ZMod ℓ)) • service.curve.base + z • service.curve.openingBase
          - c • percentage - y = 0 := by
      intro c z y hy
      rw [← neg_eq_zero, ← hy]
      abel
    have hpercentage := extract_two hmax (hequation hmax1) (hequation hmax2)
    rw [answerQuotient_mul_right hmax] at hpercentage
    refine .inl ⟨answerQuotient proof1.cMax proof2.cMax proof1.zMax proof2.zMax, ?_⟩
    rw [hpercentage]
    unfold pedersenCommitmentPoint
    simp only [dot_cons, dot_nil_left, add_zero]

/-! ## Special soundness -/

variable (service) in
/-- **Special soundness.** For every context and first message: if the verifier's equation
holds for two different challenges, each with some responses and for more batching scalars
than its highest power, there is a witness for the statement. For two grouped ciphertexts
this is asked for two combining scalars, each with a first message of its own. -/
theorem sigmaVerifiers_specialSound :
    (∀ publicKey commitment : P, publicKey ≠ 0 →
      AnswersTwo 0 (fun response challenge _ : ZMod ℓ =>
        service.pubkeyValidityCheck publicKey commitment response challenge) →
      ∃ secret, service.IsSecretOf publicKey secret)
    ∧ (∀ (publicKey commitment handle : P) (commitments : ZeroCiphertextCommitments P),
      AnswersTwo 1 (service.zeroCiphertextCheck publicKey commitment handle commitments) →
      ∃ secret, service.ZeroCiphertextStatement publicKey commitment handle secret)
    ∧ (∀ (firstPubkey secondPubkey firstCommitment firstHandle secondCommitment secondHandle : P)
      (commitments : CiphertextEqualityCommitments P),
      AnswersTwo 3 (service.ciphertextCiphertextEqualityCheck firstPubkey secondPubkey
        firstCommitment firstHandle secondCommitment secondHandle commitments) →
      ∃ shown, service.CiphertextEqualityStatement firstPubkey secondPubkey firstCommitment
        firstHandle secondCommitment secondHandle shown)
    ∧ (∀ (publicKey ciphertextCommitment handle commitment : P)
      (commitments : EqualityCommitments P),
      AnswersTwo 2 (service.ciphertextCommitmentEqualityCheck publicKey ciphertextCommitment handle
        commitment commitments) →
      ∃ shown, service.CommitmentEqualityStatement publicKey ciphertextCommitment handle commitment
        shown)
    ∧ (∀ (publicKeys : List P) (ciphertext commitments : GroupedPoints P),
      ciphertext.handles.length = publicKeys.length →
      commitments.handles.length = publicKeys.length →
      AnswersTwo publicKeys.length
        (service.groupedCiphertextValidityCheck publicKeys ciphertext commitments) →
      ∃ shown, service.GroupedValidityStatement publicKeys ciphertext shown)
    ∧ (∀ (publicKeys : List P) (low high : GroupedPoints P),
      low.handles.length = publicKeys.length → high.handles.length = publicKeys.length →
      ∀ (t1 t2 : ZMod ℓ) (commitments1 commitments2 : GroupedPoints P), t1 ≠ t2 →
      commitments1.handles.length = publicKeys.length →
      commitments2.handles.length = publicKeys.length →
      AnswersTwo publicKeys.length (service.groupedCiphertextValidityCheck publicKeys
        (low.combine high t1) commitments1) →
      AnswersTwo publicKeys.length (service.groupedCiphertextValidityCheck publicKeys
        (low.combine high t2) commitments2) →
      (∃ shown, service.GroupedValidityStatement publicKeys low shown)
        ∧ ∃ shown, service.GroupedValidityStatement publicKeys high shown)
    ∧ ∀ (percentage delta claimed : P) (maxValue : ℕ) (commitments : PercentageCommitments P),
      AnswersTwo 2 (fun proof : { proof : PercentageWithCapProofValues ℓ P //
          proof.toPercentageCommitments = commitments } =>
        service.percentageWithCapCheck percentage delta claimed maxValue proof.1) →
      service.PercentageIsMaximum percentage maxValue ∨ service.DeltaIsClaimed delta claimed := by
  refine ⟨?_, ?_, ?_, ?_, ?_, ?_, ?_⟩
  · intro publicKey commitment hne h
    exact exists_isSecretOf hne h
  · intro publicKey commitment handle commitments h
    exact exists_zeroCiphertextStatement h
  · intro firstPubkey secondPubkey firstCommitment firstHandle secondCommitment secondHandle
      commitments h
    exact exists_ciphertextEqualityStatement h
  · intro publicKey ciphertextCommitment handle commitment commitments h
    exact exists_commitmentEqualityStatement h
  · intro publicKeys ciphertext commitments hhandles hcommitments h
    exact exists_groupedValidityStatement hhandles hcommitments h
  · intro publicKeys low high hlow hhigh t1 t2 commitments1 commitments2 hne hcommitments1
      hcommitments2 h1 h2
    -- two combinations of the ciphertexts are extracted, and the two are solved for
    have hlen : ∀ t : ZMod ℓ, (low.combine high t).handles.length = publicKeys.length := by
      intro t
      rw [GroupedPoints.combine, List.length_zipWith, hlow, hhigh, Nat.min_self]
    obtain ⟨shown1, h1⟩ := exists_groupedValidityStatement (hlen t1) hcommitments1 h1
    obtain ⟨shown2, h2⟩ := exists_groupedValidityStatement (hlen t2) hcommitments2 h2
    exact groupedValidityStatement_of_combine hlow hhigh hne h1 h2
  · intro percentage delta claimed maxValue commitments h
    exact percentageIsMaximum_or_deltaIsClaimed h

end ConfidentialTransferService

/-! ## In the sample group

The honest prover answers every challenge, so it answers two. -/

open ConfidentialTransferService

theorem lt_card_sample {n : ℕ} (h : n < 10) : n < Fintype.card (ZMod sampleOrder) := by
  rw [ZMod.card, sampleOrder_eq]
  exact h.trans (by decide)

theorem sampleProver_answers_pubkey : AnswersTwo 0 fun response challenge _ : ZMod sampleOrder =>
    sampleProver.pubkeyValidityCheck 1 (sampleProver.pubkeyValidityCommitment 6) response
      challenge :=
  .of_forall (lt_card_sample (by decide)) (pubkeyValidityResponse 2 6) fun c _ =>
    pubkeyValidityCheck_eq_zero sample_two_ne_zero sampleProver_isSecretOf 6 c

theorem sampleProver_answers_zero : AnswersTwo 1 (sampleProver.zeroCiphertextCheck 1
    ((2 : ZMod sampleOrder) • 5) 5 (zeroCiphertextCommitments 1 5 (6 : ZMod sampleOrder))) :=
  .of_forall (lt_card_sample (by decide)) (zeroCiphertextResponse 2 6) fun c w =>
    zeroCiphertextCheck_eq_zero sampleProver_zero.key sampleProver_zero.zero 6 c w

theorem sampleProver_answers_equality : AnswersTwo 3 (sampleProver.ciphertextCiphertextEqualityCheck
    1 4 (sampleShown.amount • (1 : ZMod sampleOrder) + sampleShown.secret • 5) 5
    (sampleShown.amount • (1 : ZMod sampleOrder) + sampleShown.opening • 2)
    (sampleShown.opening • 4) (sampleProver.ciphertextEqualityCommitments 1 4 5 ⟨6, 8, 9⟩)) :=
  .of_forall (lt_card_sample (by decide)) (sampleShown.respond ⟨6, 8, 9⟩) fun c w =>
    ciphertextCiphertextEqualityCheck_eq_zero sampleShown sampleProver_equality.key
      sampleProver_equality.ciphertext_sub sampleProver_equality.commitment
      sampleProver_equality.handle ⟨6, 8, 9⟩ c w

theorem sampleProver_answers_commitment : AnswersTwo 2
    (sampleProver.ciphertextCommitmentEqualityCheck 1
      (sampleShown.amount • (1 : ZMod sampleOrder) + sampleShown.secret • 5) 5
      (sampleShown.amount • (1 : ZMod sampleOrder) + sampleShown.opening • 2)
      (sampleProver.equalityCommitments 1 5 ⟨6, 8, 9⟩)) :=
  .of_forall (lt_card_sample (by decide)) (sampleShown.respond ⟨6, 8, 9⟩) fun c w =>
    ciphertextCommitmentEqualityCheck_eq_zero sampleShown sampleProver_equality.key
      sampleProver_equality.ciphertext_sub sampleProver_equality.commitment ⟨6, 8, 9⟩ c w

theorem sampleProver_answers_validity (shown : ValidityScalars sampleOrder) :
    AnswersTwo 2 (sampleProver.groupedCiphertextValidityCheck [1, 4]
      (sampleProver.groupedPoints [1, 4] shown) (sampleProver.groupedPoints [1, 4] sampleNonces)) :=
  .of_forall (lt_card_sample (by decide)) (shown.respond sampleNonces) fun c w =>
    groupedCiphertextValidityCheck_eq_zero [1, 4] shown sampleNonces c w

/-- The fee 3 is the maximum, and the delta commitment is any point. -/
theorem sampleProver_answers_percentage : AnswersTwo 2
    (fun proof : { proof : PercentageWithCapProofValues sampleOrder (ZMod sampleOrder) //
        proof.toPercentageCommitments = sampleProver.percentageAboveCommitments 19 21 1 2 3 4 5 } =>
      sampleProver.percentageWithCapCheck (sampleProver.pedersenCommitmentPoint 3 6) 19 21 3
        proof.1) :=
  .of_forall (lt_card_sample (by decide))
    (fun c => ⟨sampleProver.percentageAboveValues 6 19 21 1 2 3 4 5 c, rfl⟩) fun c w =>
    percentageWithCapCheck_above 19 21 1 2 3 4 5 c w

/-- Witnesses for what the prover of the sample group answers. -/
theorem sigmaVerifiers_specialSound_sample :
    (∃ secret, sampleProver.IsSecretOf 1 secret)
      ∧ (∃ secret, sampleProver.ZeroCiphertextStatement 1 ((2 : ZMod sampleOrder) • 5) 5 secret)
      ∧ (∃ shown, sampleProver.CiphertextEqualityStatement 1 4
        (sampleShown.amount • (1 : ZMod sampleOrder) + sampleShown.secret • 5) 5
        (sampleShown.amount • (1 : ZMod sampleOrder) + sampleShown.opening • 2)
        (sampleShown.opening • 4) shown)
      ∧ (∃ shown, sampleProver.CommitmentEqualityStatement 1
        (sampleShown.amount • (1 : ZMod sampleOrder) + sampleShown.secret • 5) 5
        (sampleShown.amount • (1 : ZMod sampleOrder) + sampleShown.opening • 2) shown)
      ∧ (∃ shown, sampleProver.GroupedValidityStatement [1, 4]
        (sampleProver.groupedPoints [1, 4] ⟨3, 7⟩) shown)
      ∧ ((∃ shown, sampleProver.GroupedValidityStatement [1, 4]
          (sampleProver.groupedPoints [1, 4] ⟨3, 7⟩) shown)
        ∧ ∃ shown, sampleProver.GroupedValidityStatement [1, 4]
          (sampleProver.groupedPoints [1, 4] ⟨4, 1⟩) shown)
      ∧ (sampleProver.PercentageIsMaximum (sampleProver.pedersenCommitmentPoint 3 6) 3
        ∨ sampleProver.DeltaIsClaimed 19 21) := by
  obtain ⟨hpubkey, hzero, hciphertexts, hcommitment, hsingle, hbatched, hpercentage⟩ :=
    sigmaVerifiers_specialSound sampleProver
  refine ⟨hpubkey 1 _ one_ne_zero sampleProver_answers_pubkey,
    hzero _ _ _ _ sampleProver_answers_zero, hciphertexts _ _ _ _ _ _ _ sampleProver_answers_equality,
    hcommitment _ _ _ _ _ sampleProver_answers_commitment,
    hsingle _ _ _ rfl rfl (sampleProver_answers_validity ⟨3, 7⟩), ?_,
    hpercentage _ _ _ _ _ sampleProver_answers_percentage⟩
  refine hbatched [1, 4] _ _ rfl rfl 0 1 (sampleProver.groupedPoints [1, 4] sampleNonces)
    (sampleProver.groupedPoints [1, 4] sampleNonces) zero_ne_one rfl rfl ?_ ?_
  · rw [groupedPoints_combine]
    exact sampleProver_answers_validity _
  · rw [groupedPoints_combine]
    exact sampleProver_answers_validity _

end SolanaGo.Token2022
