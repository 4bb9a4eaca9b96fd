/-
The roles the runtime reads back from a compiled message.

A message does not carry roles: a static key is a signer if it stands among the
first `NumRequiredSignatures` keys, and writable if it is not among the last so
many of its class. So the header counts describe the keys only if the keys stand
in blocks: writable signers, readonly signers, writable others, readonly others.

The compiler sorts before it merges, and the order of a signer is decided by its
first meta alone. A key that one meta makes a readonly signer and another a writable
non-signer is counted as a writable signer, but stands in the readonly block, by
key. If a readonly signer stands before it there, the two exchange their roles.
`newTransaction_roles_iff` says that this is the only way roles are lost.
-/
import SolanaGo.Builder.Resolve
import Mathlib.Data.List.Pairwise

set_option autoImplicit false

namespace SolanaGo

open Codec Keyed

/-! ## Reading roles -/

/-- An account as the runtime sees it. -/
structure RuntimeAccount where
  key : Option PublicKey
  isSigner : Bool
  isWritable : Bool
  deriving DecidableEq

/-- The account list of `runtimeKeys` with the role of each position. -/
def Message.runtimeAccounts (contents : PublicKey → List PublicKey) (m : Message) :
    List RuntimeAccount :=
  (m.accountKeys.zipIdx.map fun (k, i) =>
      { key := some k, isSigner := i < m.header.numRequiredSignatures.toNat,
        isWritable := m.staticIndexIsWritable i })
    ++ (m.addressTableLookups.flatMap fun l => l.writableIndexes.map fun index =>
        { key := lookupKey contents l.accountKey index, isSigner := false, isWritable := true })
    ++ (m.addressTableLookups.flatMap fun l => l.readonlyIndexes.map fun index =>
        { key := lookupKey contents l.accountKey index, isSigner := false, isWritable := false })

variable (instructions : List Instruction) (ms : List AccountMeta)

/-- Some instruction marks the key as signer. -/
def MarkedSigner (k : PublicKey) : Prop :=
  ∃ ins ∈ instructions, ∃ m ∈ ins.accounts, m.publicKey = k ∧ m.isSigner = true

/-- Some instruction marks the key as writable. -/
def MarkedWritable (k : PublicKey) : Prop :=
  ∃ ins ∈ instructions, ∃ m ∈ ins.accounts, m.publicKey = k ∧ m.isWritable = true

/-- Some instruction marks the key as signer and writable in one meta. -/
def MarkedWritableSigner (k : PublicKey) : Prop :=
  ∃ ins ∈ instructions, ∃ m ∈ ins.accounts,
    m.publicKey = k ∧ m.isSigner = true ∧ m.isWritable = true

/-- The runtime reads the roles the instructions ask for. -/
def RolesKept (feePayer : PublicKey) (accounts : List RuntimeAccount) : Prop :=
  ∀ account ∈ accounts, ∀ k, account.key = some k →
    (account.isSigner = true ↔ k = feePayer ∨ MarkedSigner instructions k)
      ∧ (account.isWritable = true ↔ k = feePayer ∨ MarkedWritable instructions k)

/-- No readonly signer sorts before a signer that is writable only through other
metas. -/
def NoPromotedSigner (feePayer : PublicKey) : Prop :=
  ∀ a b, a ≠ feePayer → b ≠ feePayer →
    MarkedSigner instructions a → ¬ MarkedWritable instructions a →
    MarkedSigner instructions b → MarkedWritable instructions b →
    ¬ MarkedWritableSigner instructions b →
    compareKeys a b ≠ .lt

/-! ## The header counts -/

/-- The counters in closed form. -/
theorem foldl_count (h : MessageHeader) :
    ms.foldl MessageHeader.count h =
      { numRequiredSignatures := h.numRequiredSignatures
          + UInt8.ofNat (ms.countP (·.isSigner))
        numReadonlySignedAccounts := h.numReadonlySignedAccounts
          + UInt8.ofNat (ms.countP fun m => m.isSigner && !m.isWritable)
        numReadonlyUnsignedAccounts := h.numReadonlyUnsignedAccounts
          + UInt8.ofNat (ms.countP fun m => !m.isSigner && !m.isWritable) } := by
  induction ms generalizing h with
  | nil => simp
  | cons m ms ih =>
    have hone : ∀ (x : UInt8) (n : ℕ), x + 1 + UInt8.ofNat n = x + UInt8.ofNat (n + 1) := by
      intro x n
      rw [UInt8.ofNat_add, UInt8.add_assoc, UInt8.add_comm (UInt8.ofNat n)]
      rfl
    rw [List.foldl_cons, ih]
    cases hs : m.isSigner <;> cases hw : m.isWritable <;>
      simp [MessageHeader.count, hs, hw, hone]

/-- The writable ones are those that are not readonly. -/
theorem length_sub_countP_readonly :
    ms.length - ms.countP (fun m => !m.isWritable) = ms.countP (·.isWritable) := by
  have hlen : ms.length = ms.countP (·.isWritable) + ms.countP (fun m => ¬ m.isWritable = true) :=
    List.length_eq_countP_add_countP _
  have hneg : ms.countP (fun m => !m.isWritable) = ms.countP (fun m => ¬ m.isWritable = true) :=
    List.countP_congr fun m _ => by simp
  rw [hneg]
  omega

/-- The two classes of a list of static accounts. -/
abbrev signersOf : List AccountMeta := ms.filter (·.isSigner)

/-- The accounts nobody signs for. -/
abbrev othersOf : List AccountMeta := ms.filter fun m => !m.isSigner

section Static

variable {ms : List AccountMeta} {m : Message}

/-- With fewer than 256 accounts in each class the counters are the class sizes. -/
theorem header_counts (hsigners : (signersOf ms).length ≤ 255)
    (hothers : (othersOf ms).length ≤ 255)
    (hheader : m.header = ms.foldl MessageHeader.count {}) :
    m.header.numRequiredSignatures.toNat = (signersOf ms).length
      ∧ m.header.numReadonlySignedAccounts.toNat = (signersOf ms).countP (fun m => !m.isWritable)
      ∧ m.header.numReadonlyUnsignedAccounts.toNat = (othersOf ms).countP fun m => !m.isWritable := by
  have hros : ms.countP (fun m => m.isSigner && !m.isWritable)
      = (signersOf ms).countP fun m => !m.isWritable := by
    rw [List.countP_filter]
    exact List.countP_congr fun m _ => by simp [and_comm]
  have hrou : ms.countP (fun m => !m.isSigner && !m.isWritable)
      = (othersOf ms).countP fun m => !m.isWritable := by
    rw [List.countP_filter]
    exact List.countP_congr fun m _ => by simp [and_comm]
  have hsmall : ∀ n : ℕ, n ≤ 255 → (UInt8.ofNat n).toNat = n := by
    intro n hn
    rw [UInt8.toNat_ofNat', Nat.mod_eq_of_lt (by omega)]
  rw [hheader, foldl_count, hros, hrou, List.countP_eq_length_filter]
  simp only [UInt8.zero_add]
  exact ⟨hsmall _ hsigners, hsmall _ (List.countP_le_length.trans hsigners),
    hsmall _ (List.countP_le_length.trans hothers)⟩

/-- Signer flags are read back when the signers stand in front. -/
theorem isSigner_read (hlen : ms.length ≤ 255)
    (hfront : ms.Pairwise fun a b => b.isSigner = true → a.isSigner = true)
    (hheader : m.header = ms.foldl MessageHeader.count {}) (i : ℕ) (hi : i < ms.length) :
    decide (i < m.header.numRequiredSignatures.toNat) = ms[i].isSigner := by
  rw [(header_counts ((List.length_filter_le _ _).trans hlen)
    ((List.length_filter_le _ _).trans hlen) hheader).1, ← List.countP_eq_length_filter]
  exact (countBlock_iff (·.isSigner) ms).mpr hfront i hi

/-- Writable flags are read back exactly when both classes stand in blocks. -/
theorem isWritable_read_iff (hlen : ms.length ≤ 255)
    (hfront : ms.Pairwise fun a b => b.isSigner = true → a.isSigner = true)
    (hkeys : m.accountKeys = ms.map (·.publicKey))
    (hheader : m.header = ms.foldl MessageHeader.count {}) :
    (∀ (i : ℕ) (hi : i < ms.length), m.staticIndexIsWritable i = ms[i].isWritable)
      ↔ ((signersOf ms).Pairwise fun a b => b.isWritable = true → a.isWritable = true)
        ∧ (othersOf ms).Pairwise fun a b => b.isWritable = true → a.isWritable = true := by
  obtain ⟨hreq, hros, hrou⟩ := header_counts ((List.length_filter_le _ _).trans hlen)
    ((List.length_filter_le _ _).trans hlen) hheader
  have hsplit : ms = signersOf ms ++ othersOf ms := eq_filter_append _ hfront
  have hlength : ms.length = (signersOf ms).length + (othersOf ms).length := by
    conv_lhs => rw [hsplit]
    rw [List.length_append]
  -- Read position by position, the two classes apart.
  have hleft : ∀ (i : ℕ) (_ : i < (signersOf ms).length),
      m.staticIndexIsWritable i = decide (i < (signersOf ms).countP (·.isWritable)) := by
    intro i hi
    rw [Message.staticIndexIsWritable, hreq, if_neg (by omega), hros,
      length_sub_countP_readonly]
  have hright : ∀ (i : ℕ), m.staticIndexIsWritable ((signersOf ms).length + i)
      = decide (i < (othersOf ms).countP (·.isWritable)) := by
    intro i
    rw [Message.staticIndexIsWritable, hreq, if_pos (by omega), hrou, hkeys, List.length_map,
      hlength, Nat.add_sub_cancel_left, Nat.add_sub_cancel_left, length_sub_countP_readonly]
  have hgetLeft : ∀ (i : ℕ) (hi : i < ms.length) (hs : i < (signersOf ms).length),
      ms[i] = (signersOf ms)[i] := fun i hi hs =>
    (List.getElem_of_eq hsplit hi).trans (List.getElem_append_left hs)
  have hgetRight : ∀ (i : ℕ) (hi : (signersOf ms).length + i < ms.length)
      (ho : i < (othersOf ms).length), ms[(signersOf ms).length + i] = (othersOf ms)[i] := by
    intro i hi ho
    rw [List.getElem_of_eq hsplit hi, List.getElem_append_right (Nat.le_add_right _ _)]
    simp only [Nat.add_sub_cancel_left]
  rw [← countBlock_iff, ← countBlock_iff]
  constructor
  · intro h
    refine ⟨fun i hi => ?_, fun i hi => ?_⟩
    · rw [← hleft i hi, h i (by omega), hgetLeft i (by omega) hi]
    · rw [← hright i, h _ (by omega), hgetRight i (by omega) hi]
  · rintro ⟨hs, ho⟩ i hi
    rcases Nat.lt_or_ge i (signersOf ms).length with hlt | hge
    · rw [hleft i hlt, hs i hlt, hgetLeft i hi hlt]
    · obtain ⟨j, rfl⟩ := Nat.exists_eq_add_of_le hge
      rw [hright j, ho j (by omega), hgetRight j hi (by omega)]

end Static

/-! ## The accounts of a call stand in blocks, except promoted signers -/

section Marks

variable {instructions : List Instruction} {k : PublicKey}

theorem markedSigner_iff :
    isSignerIn (collectMetas instructions) k = true ↔ MarkedSigner instructions k :=
  isSignerIn_collectMetas

theorem markedWritable_iff :
    isWritableIn (collectMetas instructions) k = true ↔ MarkedWritable instructions k := by
  rw [isWritableIn_iff, exists_collectMetas (by simp)]
  rfl

theorem markedWritableSigner_iff :
    isWritableSignerIn (collectMetas instructions) k = true
      ↔ MarkedWritableSigner instructions k := by
  rw [isWritableSignerIn_iff, exists_collectMetas (by simp)]
  rfl

end Marks

section Blocks

variable (instructions : List Instruction) (feePayer : PublicKey)

/-- The keys behind the payer. -/
abbrev restKeys : List PublicKey := (uniqKeys (collectMetas instructions)).erase feePayer

theorem restKeys_pairwise : (restKeys instructions feePayer).Pairwise fun a b =>
    MetaLE (firstMeta (collectMetas instructions) a) (firstMeta (collectMetas instructions) b) :=
  (uniqKeys_pairwise _).sublist List.erase_sublist

theorem nodup_restKeys : (restKeys instructions feePayer).Nodup := (nodup_uniqKeys _).erase _

/-- Signers stand in front. -/
theorem restOf_signers_front : (restOf feePayer instructions).Pairwise fun a b =>
    b.isSigner = true → a.isSigner = true := by
  rw [restOf, List.pairwise_map]
  refine (restKeys_pairwise instructions feePayer).imp fun {a b} hab hb => ?_
  rw [metaLE_iff] at hab
  simp only [firstMeta, accountOf] at *
  grind

/-- Among the others the writable ones stand in front. -/
theorem restOf_others_block : (othersOf (restOf feePayer instructions)).Pairwise fun a b =>
    b.isWritable = true → a.isWritable = true := by
  rw [List.pairwise_filter, restOf, List.pairwise_map]
  refine (restKeys_pairwise instructions feePayer).imp fun {a b} hab ha hb hw => ?_
  rw [metaLE_iff] at hab
  simp only [firstMeta, accountOf] at *
  grind

/-- A signer's writability is in some meta if it is in a signer meta. -/
theorem isWritableIn_of_isWritableSignerIn {metas : List AccountMeta} {k : PublicKey}
    (h : isWritableSignerIn metas k = true) : isWritableIn metas k = true := by
  obtain ⟨m, hm, hk, -, hw⟩ := isWritableSignerIn_iff.mp h
  exact isWritableIn_iff.mpr ⟨m, hm, hk, hw⟩

theorem compareKeys_lt_of_le_of_ne {a b : PublicKey} (h : KeyLE a b) (hne : a ≠ b) :
    compareKeys a b = .lt := by
  cases hc : compareKeys a b with
  | lt => rfl
  | eq => exact absurd (compareKeys_eq_iff.mp hc) hne
  | gt => rw [KeyLE, hc] at h; simp at h

/-- Of two keys behind the payer one stands before the other. -/
theorem restKeys_trichotomy {R : PublicKey → PublicKey → Prop}
    (h : (restKeys instructions feePayer).Pairwise R) {a b : PublicKey}
    (ha : a ∈ restKeys instructions feePayer) (hb : b ∈ restKeys instructions feePayer)
    (hne : a ≠ b) : R a b ∨ R b a := by
  have : Std.Symm fun a b => R a b ∨ R b a := ⟨fun _ _ => Or.symm⟩
  have hsym : (restKeys instructions feePayer).Pairwise fun a b => R a b ∨ R b a := h.imp Or.inl
  exact hsym.forall ha hb hne

/-- Among the signers they do exactly when no readonly signer sorts before a
promoted one. -/
theorem restOf_signers_block_iff :
    ((signersOf (restOf feePayer instructions)).Pairwise fun a b =>
        b.isWritable = true → a.isWritable = true)
      ↔ NoPromotedSigner instructions feePayer := by
  rw [List.pairwise_filter, restOf, List.pairwise_map]
  simp only [accountOf]
  constructor
  · intro hblock a b hap hbp hsa hwa hsb hwb hwsb hlt
    rw [← markedSigner_iff] at hsa hsb
    rw [← markedWritable_iff] at hwa hwb
    rw [← markedWritableSigner_iff] at hwsb
    have hne : a ≠ b := by
      rintro rfl
      rw [compareKeys_eq_iff.mpr rfl] at hlt
      simp at hlt
    -- One of the two stands first: either the block order or the key order is broken.
    have hmem : ∀ {k}, k ≠ feePayer → isSignerIn (collectMetas instructions) k = true →
        k ∈ restKeys instructions feePayer := by
      intro k hk hs
      obtain ⟨m, hm, hkey, -⟩ := isSignerIn_iff.mp hs
      exact (nodup_uniqKeys _).mem_erase_iff.mpr ⟨hk, mem_uniqKeys.mpr ⟨m, hm, hkey⟩⟩
    rcases restKeys_trichotomy instructions feePayer
      (hblock.and (restKeys_pairwise instructions feePayer)) (hmem hap hsa) (hmem hbp hsb) hne
      with ⟨hw, -⟩ | ⟨-, hle⟩
    · exact hwa (hw hsa hsb hwb)
    · have hwsa : ¬ isWritableSignerIn (collectMetas instructions) a = true :=
        fun h => hwa (isWritableIn_of_isWritableSignerIn h)
      rw [metaLE_iff] at hle
      simp only [firstMeta, hsa, hsb, if_true] at hle
      have hkey : KeyLE b a := by grind
      rw [KeyLE, compareKeys_swap, hlt] at hkey
      simp at hkey
  · intro hno
    have hord := (restKeys_pairwise instructions feePayer).and (nodup_restKeys instructions feePayer)
    refine hord.imp_of_mem fun {a b} ha hb hab hsa hsb hwb => ?_
    obtain ⟨hle, hne⟩ := hab
    have hap := ((nodup_uniqKeys _).mem_erase_iff.mp ha).1
    have hbp := ((nodup_uniqKeys _).mem_erase_iff.mp hb).1
    by_contra hwa
    -- `a` is readonly, so by the order `b` is promoted and sorts behind it.
    have hwsa : ¬ isWritableSignerIn (collectMetas instructions) a = true :=
      fun h => hwa (isWritableIn_of_isWritableSignerIn h)
    rw [metaLE_iff] at hle
    simp only [firstMeta, hsa, hsb, if_true] at hle
    have hwsb : ¬ isWritableSignerIn (collectMetas instructions) b = true := by grind
    have hkey : KeyLE a b := by grind
    refine hno a b hap hbp (markedSigner_iff.mp hsa) (fun h => hwa (markedWritable_iff.mpr h))
      (markedSigner_iff.mp hsb) (markedWritable_iff.mp hwb)
      (fun h => hwsb (markedWritableSigner_iff.mpr h)) ?_
    exact compareKeys_lt_of_le_of_ne hkey hne

/-! ### The static accounts -/

variable (entries : Map PublicKey LookupTableEntry)

/-- The static accounts of a call. -/
abbrev staticsOfCall : List AccountMeta :=
  staticAccounts entries (programIDsOf instructions) feePayer (restOf feePayer instructions)

theorem staticsOf_sublist (programIDs : List PublicKey) (ms : List AccountMeta) :
    (staticsOf entries programIDs ms).Sublist ms := List.filter_sublist

/-- Signers are never loaded. -/
theorem signersOf_staticsOf (programIDs : List PublicKey) (ms : List AccountMeta) :
    signersOf (staticsOf entries programIDs ms) = signersOf ms := by
  rw [signersOf, staticsOf, List.filter_filter]
  refine List.filter_congr fun m _ => ?_
  cases hs : m.isSigner with
  | false => rfl
  | true =>
    cases hl : loadedOf entries programIDs m with
    | none => rfl
    | some l => rw [(key_of_loadedOf _ _ hl).2.2.1] at hs; simp at hs

theorem staticsOfCall_signers_front : (staticsOfCall instructions feePayer entries).Pairwise
    fun a b => b.isSigner = true → a.isSigner = true :=
  List.pairwise_cons.mpr ⟨fun _ _ _ => rfl,
    (restOf_signers_front instructions feePayer).sublist (staticsOf_sublist _ _ _)⟩

/-- The static accounts stand in blocks exactly when there is no promoted signer
behind a readonly one. -/
theorem staticsOfCall_blocks_iff :
    ((signersOf (staticsOfCall instructions feePayer entries)).Pairwise
        (fun a b => b.isWritable = true → a.isWritable = true)
      ∧ (othersOf (staticsOfCall instructions feePayer entries)).Pairwise
        fun a b => b.isWritable = true → a.isWritable = true)
      ↔ NoPromotedSigner instructions feePayer := by
  have hsigners : signersOf (staticsOfCall instructions feePayer entries)
      = payerMeta feePayer :: signersOf (restOf feePayer instructions) := by
    rw [staticsOfCall, staticAccounts, signersOf, List.filter_cons_of_pos rfl, ← signersOf,
      signersOf_staticsOf]
  have hothers : (othersOf (staticsOfCall instructions feePayer entries)).Pairwise
      fun a b => b.isWritable = true → a.isWritable = true := by
    rw [staticsOfCall, staticAccounts, othersOf, List.filter_cons_of_neg (by simp [payerMeta])]
    exact (restOf_others_block instructions feePayer).sublist
      ((staticsOf_sublist _ _ _).filter _)
  rw [hsigners, List.pairwise_cons, restOf_signers_block_iff]
  exact ⟨fun h => h.1.2, fun h => ⟨⟨fun _ _ _ => rfl, h⟩, hothers⟩⟩

/-- The flags of a static account are what the instructions ask for. -/
theorem staticsOfCall_flags {m : AccountMeta} (hm : m ∈ staticsOfCall instructions feePayer entries) :
    (m.isSigner = true ↔ m.publicKey = feePayer ∨ MarkedSigner instructions m.publicKey)
      ∧ (m.isWritable = true
        ↔ m.publicKey = feePayer ∨ MarkedWritable instructions m.publicKey) := by
  rcases List.mem_cons.mp hm with rfl | hm
  · exact ⟨by simp [payerMeta], by simp [payerMeta]⟩
  · have hrest := (staticsOf_sublist _ _ _).subset hm
    have hne : m.publicKey ≠ feePayer := (mem_restOf.mp (List.mem_map_of_mem hrest)).1
    obtain ⟨k, -, rfl⟩ := List.mem_map.mp hrest
    rw [← markedSigner_iff, ← markedWritable_iff]
    exact ⟨by simp only [hne, false_or]; rfl, by simp only [hne, false_or]; rfl⟩

end Blocks

/-! ## Roles of a compiled transaction -/

theorem rolesKept_append {instructions : List Instruction} {feePayer : PublicKey}
    {as bs : List RuntimeAccount} :
    RolesKept instructions feePayer (as ++ bs)
      ↔ RolesKept instructions feePayer as ∧ RolesKept instructions feePayer bs :=
  List.forall_mem_append

section Call

variable {instructions : List Instruction} {feePayer : PublicKey}
variable {entries : Map PublicKey LookupTableEntry} {contents : PublicKey → List PublicKey}

/-- Loaded accounts have their roles: the list they are in says so. -/
theorem rolesKept_loaded
    (hentries : ∀ k e, entries k = some e → lookupKey contents e.table e.index = some k)
    (w : Bool) :
    let loaded := loadedAccounts entries (programIDsOf instructions) (restOf feePayer instructions)
    RolesKept instructions feePayer ((tableKeysOf loaded).flatMap fun t =>
      ((selected loaded w t).map (·.index)).map fun index =>
        { key := lookupKey contents t index, isSigner := false, isWritable := w }) := by
  intro loaded account hacc k hk
  obtain ⟨t, -, hacc⟩ := List.mem_flatMap.mp hacc
  rw [List.map_map] at hacc
  obtain ⟨l, hl, rfl⟩ := List.mem_map.mp hacc
  obtain ⟨hmem, rfl, hw⟩ := mem_selected.mp hl
  obtain ⟨m, hm, hml⟩ := List.mem_filterMap.mp hmem
  obtain ⟨hkey, hlw, hsigner, -, hentry⟩ := key_of_loadedOf _ _ hml
  have hkm : k = m.publicKey := by
    have := hentries _ _ hentry
    rw [Function.comp_apply] at hk
    exact Option.some.inj (hk.symm.trans this)
  have hne : k ≠ feePayer := by
    rw [hkm]; exact (mem_restOf.mp (List.mem_map_of_mem hm)).1
  obtain ⟨k', -, rfl⟩ := List.mem_map.mp hm
  obtain rfl : k = k' := hkm
  rw [← markedSigner_iff, ← markedWritable_iff]
  simp only [hne, false_or]
  refine ⟨?_, ?_⟩
  · rw [show isSignerIn (collectMetas instructions) k = false from hsigner]
    simp
  · rw [show isWritableIn (collectMetas instructions) k = w from hlw.symm.trans hw]
    rfl

/-- Static accounts have their roles exactly when their writable flags are read
back. -/
theorem rolesKept_static_iff {m : Message}
    (hlen : (staticsOfCall instructions feePayer entries).length ≤ 255)
    (hkeys : m.accountKeys = (staticsOfCall instructions feePayer entries).map (·.publicKey))
    (hheader : m.header = (staticsOfCall instructions feePayer entries).foldl
      MessageHeader.count {}) :
    RolesKept instructions feePayer (m.accountKeys.zipIdx.map fun (k, i) =>
        { key := some k, isSigner := i < m.header.numRequiredSignatures.toNat,
          isWritable := m.staticIndexIsWritable i })
      ↔ NoPromotedSigner instructions feePayer := by
  have hfront := staticsOfCall_signers_front instructions feePayer entries
  rw [← staticsOfCall_blocks_iff instructions feePayer entries,
    ← isWritable_read_iff hlen hfront hkeys hheader]
  have hget : ∀ (i : ℕ) (hi : i < (staticsOfCall instructions feePayer entries).length),
      ((staticsOfCall instructions feePayer entries)[i].publicKey, i) ∈ m.accountKeys.zipIdx := by
    intro i hi
    rw [hkeys, List.mem_zipIdx_iff_getElem?, List.getElem?_map, List.getElem?_eq_getElem hi]
    rfl
  constructor
  · intro h i hi
    obtain ⟨-, hw⟩ := h _ (List.mem_map_of_mem (hget i hi)) _ rfl
    have hflags := (staticsOfCall_flags instructions feePayer entries (List.getElem_mem hi)).2
    rw [Bool.eq_iff_iff]
    exact hw.trans hflags.symm
  · intro h account hacc k hk
    obtain ⟨⟨k', i⟩, hki, rfl⟩ := List.mem_map.mp hacc
    have hkey : ((staticsOfCall instructions feePayer entries).map (·.publicKey))[i]? = some k' := by
      rwa [hkeys, List.mem_zipIdx_iff_getElem?] at hki
    rw [List.getElem?_map, Option.map_eq_some_iff] at hkey
    obtain ⟨a, ha, rfl⟩ := hkey
    obtain ⟨hi, rfl⟩ := List.getElem?_eq_some_iff.mp ha
    obtain rfl : _ = k := Option.some.inj hk
    obtain ⟨hs, hw⟩ := staticsOfCall_flags instructions feePayer entries (List.getElem_mem hi)
    refine ⟨?_, ?_⟩
    · rw [← hs, ← isSigner_read hlen hfront hheader i hi]
    · rw [← hw, ← h i hi]

/-- The roles of a message with the layout of a call. -/
theorem rolesKept_iff {m : Message}
    (hentries : ∀ k e, entries k = some e → lookupKey contents e.table e.index = some k)
    (hlen : (staticsOfCall instructions feePayer entries).length ≤ 255)
    (hkeys : m.accountKeys = (staticsOfCall instructions feePayer entries).map (·.publicKey))
    (hheader : m.header = (staticsOfCall instructions feePayer entries).foldl
      MessageHeader.count {})
    (hlookups : m.addressTableLookups = lookupsOf (loadedAccounts entries
      (programIDsOf instructions) (restOf feePayer instructions))) :
    RolesKept instructions feePayer (m.runtimeAccounts contents)
      ↔ NoPromotedSigner instructions feePayer := by
  rw [Message.runtimeAccounts, rolesKept_append, rolesKept_append,
    rolesKept_static_iff hlen hkeys hheader, hlookups, lookupsOf, List.flatMap_map,
    List.flatMap_map]
  exact ⟨fun h => h.1.1, fun h =>
    ⟨⟨h, rolesKept_loaded hentries true⟩, rolesKept_loaded hentries false⟩⟩

end Call

/-- **Roles.** With at most 127 distinct accounts, the runtime reads back from the
message exactly the roles the instructions ask for, unless a readonly signer
sorts before a signer that only other metas make writable. -/
theorem newTransaction_roles_iff (instructions : List Instruction) (hash : Hash)
    (opts : List TransactionOption) (tx : Transaction) (feePayer : PublicKey)
    (h : newTransaction instructions hash opts = .ok tx)
    (hpayer : payerOf instructions opts = .ok feePayer)
    (hsize : (distinctAccounts instructions opts).card ≤ 127) :
    RolesKept instructions feePayer (tx.message.runtimeAccounts (applyOptions opts).contents)
      ↔ NoPromotedSigner instructions feePayer := by
  obtain ⟨feePayer', entries, compiled, hpayer', hentries, -, rfl⟩ := newTransaction_eq_ok h
  obtain rfl : feePayer' = feePayer := Except.ok.inj (hpayer'.symm.trans hpayer)
  have hpoint := (indexAddressTables_spec _ _ hentries).1
  have hlen : (staticsOfCall instructions feePayer' entries).length ≤ 255 := by
    have hall := length_callKeys entries feePayer' instructions hpayer
    rw [callKeys, compiledKeys, List.length_append, List.length_map] at hall
    rw [staticsOfCall]
    omega
  refine rolesKept_iff hpoint hlen ?_ ?_ ?_
  · rw [layoutMessage_eq]
  · rw [layoutMessage_eq]
  · rw [layoutMessage_eq]

/-! ### Two calls -/

/-- Key 2 is a readonly signer; key 4 is a readonly signer in one meta and a
writable non-signer in another. -/
def promotingInstruction : Instruction where
  programID := sampleKey 3
  accounts := [{ publicKey := sampleKey 2, isSigner := true },
    { publicKey := sampleKey 4, isSigner := true },
    { publicKey := sampleKey 4, isWritable := true }]
  data := .ok []

/-- What it compiles to with key 1 as payer. -/
def promotingCompiled : Transaction where
  message :=
    { accountKeys := [sampleKey 1, sampleKey 2, sampleKey 4, sampleKey 3]
      header := { numRequiredSignatures := 3, numReadonlySignedAccounts := 1,
                  numReadonlyUnsignedAccounts := 1 }
      instructions := [{ programIDIndex := 3, accounts := [1, 2, 2], data := [] }] }

/-- The runtime writes key 2, which nobody asked for, and refuses to write key 4. -/
theorem newTransaction_roles_promoted :
    newTransaction [promotingInstruction] (ByteArr.zero 32) [.payer (sampleKey 1)]
        = .ok promotingCompiled
      ∧ (distinctAccounts [promotingInstruction] [.payer (sampleKey 1)]).card ≤ 127
      ∧ ¬ RolesKept [promotingInstruction] (sampleKey 1)
        (promotingCompiled.message.runtimeAccounts
          (applyOptions [.payer (sampleKey 1)]).contents) := by
  refine ⟨by decide +kernel, by decide +kernel, fun h => ?_⟩
  obtain ⟨-, hw⟩ := h { key := some (sampleKey 2), isSigner := true, isWritable := true }
    (by decide +kernel) _ rfl
  have hnone : ∀ m ∈ promotingInstruction.accounts, m.publicKey = sampleKey 2 →
      m.isWritable = false := by decide
  rcases hw.mp rfl with hpayer | ⟨ins, hins, m, hm, hk, hw⟩
  · exact absurd hpayer (by decide)
  · obtain rfl := List.mem_singleton.mp hins
    rw [hnone m hm hk] at hw
    exact Bool.false_ne_true hw

theorem newTransaction_roles_sample :
    RolesKept [sampleInstruction] (sampleKey 1)
      (sampleCompiled.message.runtimeAccounts (applyOptions sampleOptions).contents) := by
  refine (newTransaction_roles_iff [sampleInstruction] (ByteArr.zero 32) sampleOptions
    sampleCompiled (sampleKey 1) (by decide +kernel) (by decide +kernel) (by decide +kernel)).mpr ?_
  -- The only signer is the payer.
  rintro a b ha - ⟨ins, hins, m, hm, rfl, hs⟩ - - - -
  obtain rfl := List.mem_singleton.mp hins
  have honly : ∀ m ∈ sampleInstruction.accounts, m.isSigner = true →
      m.publicKey = sampleKey 1 := by decide
  exact absurd (honly m hm hs) ha

end SolanaGo
