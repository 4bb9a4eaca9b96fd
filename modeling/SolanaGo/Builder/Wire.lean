/-
Compiling and then marshalling: when does the message come back?

`NewTransaction` bounds the length of a lookup table and nothing else. Its header
counters are bytes, its indexes are 16-bit, the encoder keeps the low byte of an
index, a list length past `0xFFFF` is written but refused by the decoder, and the
first byte of a legacy message doubles as a version marker. `FitsWire` collects
the sizes that make all of this harmless, in terms of the inputs, and
`newTransaction_wire_iff` says that they are necessary as well: an oversized call
compiles and marshals without an error into bytes that mean something else.

The direction that needs an argument is necessity for the account count. Every
compiled key but the payer is named by some instruction, so with more than 256
keys the key at index 256 is named, and its index loses its high byte.
-/
import SolanaGo.Builder.Roles

set_option autoImplicit false

namespace SolanaGo

open Codec Keyed

/-! ## The two sides -/

/-- The payer and the keys of the metas with a mark. -/
def markedKeys (mark : AccountMeta → Bool) (instructions : List Instruction)
    (feePayer : PublicKey) : Finset PublicKey :=
  insert feePayer (((instructions.flatMap (·.accounts)).filter mark).map (·.publicKey)).toFinset

/-- The keys that sign. -/
abbrev signerKeys := markedKeys (·.isSigner)

/-- The keys that are written. -/
abbrev writableKeys := markedKeys (·.isWritable)

/-- Some account is loaded through a table: it is in one, does not sign and is not
a program. -/
def LoadsThroughTable (instructions : List Instruction) (feePayer : PublicKey)
    (contents : PublicKey → List PublicKey) : Prop :=
  ∃ k ∈ usedKeys instructions, k ∉ signerKeys instructions feePayer
    ∧ k ∉ instructions.map (·.programID) ∧ ∃ t, k ∈ contents t

/-- The sizes that fit the wire. -/
structure FitsWire (instructions : List Instruction) (opts : List TransactionOption)
    (feePayer : PublicKey) : Prop where
  accounts : (distinctAccounts instructions opts).card ≤ 256
  signers : ¬ LoadsThroughTable instructions feePayer (applyOptions opts).contents →
    (signerKeys instructions feePayer).card ≤ 127
  numInstructions : instructions.length ≤ 0xFFFF
  accountLists : ∀ ins ∈ instructions, ins.accounts.length ≤ 0xFFFF
  data : ∀ ins ∈ instructions, ∀ d, ins.data = .ok d → d.length ≤ 0xFFFF

/-- Nothing was truncated: the bytes decode to the message, its counters are the
numbers of accounts, and its indexes resolve. -/
structure SurvivesWire (instructions : List Instruction) (opts : List TransactionOption)
    (feePayer : PublicKey) (tx : Transaction) : Prop where
  decodes : ∀ (tx0 : Transaction) (buf : Bytes), tx.marshalBinary = .ok buf →
    ∃ tx' n, tx0.unmarshalBinaryConsumed buf = .ok (tx', n) ∧ tx'.message = tx.message
  numRequiredSignatures : tx.message.header.numRequiredSignatures.toNat
    = (signerKeys instructions feePayer).card
  numReadonlySignedAccounts : tx.message.header.numReadonlySignedAccounts.toNat
    = (signerKeys instructions feePayer \ writableKeys instructions feePayer).card
  numReadonlyUnsignedAccounts : tx.message.header.numReadonlyUnsignedAccounts.toNat
    = ((tx.message.accountKeys.toFinset \ signerKeys instructions feePayer)
      \ writableKeys instructions feePayer).card
  resolves : ∃ keys, tx.message.runtimeKeys (applyOptions opts).contents = keys.map some
    ∧ List.Forall₂ (ResolvesTo keys) instructions tx.message.instructions

/-! ## Counting accounts -/

section Count

variable {instructions : List Instruction} {feePayer : PublicKey}

theorem mem_markedKeys {mark : AccountMeta → Bool} {k : PublicKey} :
    k ∈ markedKeys mark instructions feePayer ↔ k = feePayer
      ∨ ∃ ins ∈ instructions, ∃ m ∈ ins.accounts, m.publicKey = k ∧ mark m = true := by
  rw [markedKeys, Finset.mem_insert, List.mem_toFinset, List.mem_map]
  refine or_congr_right ?_
  simp only [List.mem_filter, List.mem_flatMap]
  constructor
  · rintro ⟨m, ⟨⟨ins, hins, hm⟩, hs⟩, hk⟩
    exact ⟨ins, hins, m, hm, hk, hs⟩
  · rintro ⟨ins, hins, m, hm, hk, hs⟩
    exact ⟨m, ⟨⟨ins, hins, hm⟩, hs⟩, hk⟩

theorem mem_signerKeys {k : PublicKey} : k ∈ signerKeys instructions feePayer
    ↔ k = feePayer ∨ MarkedSigner instructions k := mem_markedKeys

theorem mem_writableKeys {k : PublicKey} : k ∈ writableKeys instructions feePayer
    ↔ k = feePayer ∨ MarkedWritable instructions k := mem_markedKeys

variable (instructions feePayer) (entries : Map PublicKey LookupTableEntry)

theorem nodup_staticsOfCall :
    ((staticsOfCall instructions feePayer entries).map (·.publicKey)).Nodup := by
  have h := nodup_callKeys entries feePayer instructions
  rw [callKeys, compiledKeys] at h
  exact (List.nodup_append.mp h).1

/-- Counting static accounts by a predicate is counting keys. -/
theorem countP_staticsOfCall (p : AccountMeta → Bool) (s : Finset PublicKey)
    (h : ∀ k, k ∈ s ↔ ∃ m ∈ staticsOfCall instructions feePayer entries,
      m.publicKey = k ∧ p m = true) :
    (staticsOfCall instructions feePayer entries).countP p = s.card := by
  have hnd : (((staticsOfCall instructions feePayer entries).filter p).map (·.publicKey)).Nodup :=
    (List.filter_sublist.map _).nodup (nodup_staticsOfCall instructions feePayer entries)
  rw [List.countP_eq_length_filter, ← List.length_map (·.publicKey),
    ← List.toFinset_card_of_nodup hnd]
  congr 1
  ext k
  rw [List.mem_toFinset, List.mem_map, h]
  simp only [List.mem_filter]
  exact exists_congr fun m => by tauto

/-- Every signer is a static account. -/
theorem exists_static_signer {k : PublicKey} (h : k ∈ signerKeys instructions feePayer) :
    ∃ m ∈ staticsOfCall instructions feePayer entries, m.publicKey = k ∧ m.isSigner = true := by
  rcases mem_signerKeys.mp h with rfl | hmark
  · exact ⟨payerMeta k, List.mem_cons_self .., rfl, rfl⟩
  · by_cases hp : k = feePayer
    · exact ⟨payerMeta feePayer, List.mem_cons_self .., hp.symm, rfl⟩
    · have hs := markedSigner_iff.mpr hmark
      obtain ⟨ins, hins, m, hm, hk, -⟩ := hmark
      have hrest : k ∈ (restOf feePayer instructions).map (·.publicKey) :=
        mem_restOf.mpr ⟨hp, hk ▸ account_mem_usedKeys hins hm⟩
      obtain ⟨m, hm, rfl⟩ := List.mem_map.mp hrest
      obtain ⟨k, -, rfl⟩ := List.mem_map.mp hm
      have hmem : accountOf (collectMetas instructions) k
          ∈ signersOf (staticsOf entries (programIDsOf instructions) (restOf feePayer instructions)) := by
        rw [signersOf_staticsOf]
        exact List.mem_filter.mpr ⟨hm, hs⟩
      exact ⟨_, List.mem_cons_of_mem _ (List.mem_filter.mp hmem).1, rfl, hs⟩

theorem length_signersOf_staticsOfCall :
    (signersOf (staticsOfCall instructions feePayer entries)).length
      = (signerKeys instructions feePayer).card := by
  rw [← List.countP_eq_length_filter]
  refine countP_staticsOfCall instructions feePayer entries _ _ fun k => ?_
  refine ⟨exists_static_signer instructions feePayer entries, ?_⟩
  rintro ⟨m, hm, rfl, hs⟩
  exact mem_signerKeys.mpr ((staticsOfCall_flags _ _ _ hm).1.mp hs)

theorem readonlySigned_staticsOfCall :
    (signersOf (staticsOfCall instructions feePayer entries)).countP (fun m => !m.isWritable)
      = (signerKeys instructions feePayer \ writableKeys instructions feePayer).card := by
  rw [List.countP_filter]
  refine countP_staticsOfCall instructions feePayer entries _ _ fun k => ?_
  rw [Finset.mem_sdiff]
  constructor
  · rintro ⟨hs, hw⟩
    obtain ⟨m, hm, rfl, hms⟩ := exists_static_signer instructions feePayer entries hs
    have hmw : ¬ m.isWritable = true := fun h =>
      hw (mem_writableKeys.mpr ((staticsOfCall_flags _ _ _ hm).2.mp h))
    exact ⟨m, hm, rfl, by simp [hms, hmw]⟩
  · rintro ⟨m, hm, rfl, hp⟩
    obtain ⟨hs, hw⟩ := staticsOfCall_flags _ _ _ hm
    rw [mem_signerKeys, mem_writableKeys, ← hs, ← hw]
    simpa [and_comm] using hp

theorem readonlyUnsigned_staticsOfCall :
    (othersOf (staticsOfCall instructions feePayer entries)).countP (fun m => !m.isWritable)
      = ((((staticsOfCall instructions feePayer entries).map (·.publicKey)).toFinset
        \ signerKeys instructions feePayer) \ writableKeys instructions feePayer).card := by
  rw [List.countP_filter]
  refine countP_staticsOfCall instructions feePayer entries _ _ fun k => ?_
  rw [Finset.mem_sdiff, Finset.mem_sdiff, List.mem_toFinset, List.mem_map]
  constructor
  · rintro ⟨⟨⟨m, hm, rfl⟩, hs⟩, hw⟩
    obtain ⟨hs', hw'⟩ := staticsOfCall_flags _ _ _ hm
    rw [mem_signerKeys, ← hs'] at hs
    rw [mem_writableKeys, ← hw'] at hw
    exact ⟨m, hm, rfl, by simp [hs, hw]⟩
  · rintro ⟨m, hm, rfl, hp⟩
    obtain ⟨hs, hw⟩ := staticsOfCall_flags _ _ _ hm
    rw [mem_signerKeys, mem_writableKeys, ← hs, ← hw]
    exact ⟨⟨⟨m, hm, rfl⟩, by simp_all⟩, by simp_all⟩

end Count

/-! ## The loaded accounts of a call -/

section Loaded

variable (instructions : List Instruction) (feePayer : PublicKey)
variable (entries : Map PublicKey LookupTableEntry)

/-- The loaded accounts of a call. -/
abbrev loadedOfCall : List LoadedAccount :=
  loadedAccounts entries (programIDsOf instructions) (restOf feePayer instructions)

theorem nodup_loadedOfCall : ((loadedOfCall instructions feePayer entries).map (·.key)).Nodup := by
  rw [map_key_loadedAccounts]
  exact (List.filter_sublist.map _).nodup (nodup_restOf feePayer instructions)

/-- Every compiled key is static or loaded. -/
theorem length_callKeys_add :
    (callKeys entries feePayer instructions).length
      = (staticsOfCall instructions feePayer entries).length
        + (loadedOfCall instructions feePayer entries).length := by
  have hnd := nodup_loadedOfCall instructions feePayer entries
  have hperm : (loadedKeys (loadedOfCall instructions feePayer entries) true
      ++ loadedKeys (loadedOfCall instructions feePayer entries) false).Perm
        ((loadedOfCall instructions feePayer entries).map (·.key)) := by
    refine (List.perm_ext_iff_of_nodup ?_ hnd).mpr fun k => mem_loadedKeys_or
    exact List.nodup_append'.mpr
      ⟨nodup_loadedKeys hnd true, nodup_loadedKeys hnd false, disjoint_loadedKeys hnd⟩
  rw [callKeys, compiledKeys, List.length_append, hperm.length_eq, List.length_map, List.length_map]

/-- Accounts are loaded exactly when one is eligible. -/
theorem loadedOfCall_ne_nil_iff {contents : PublicKey → List PublicKey}
    (hdom : ∀ k, (entries k).isSome = true ↔ ∃ t, k ∈ contents t) :
    loadedOfCall instructions feePayer entries ≠ []
      ↔ LoadsThroughTable instructions feePayer contents := by
  constructor
  · intro hne
    obtain ⟨l, hl⟩ := List.exists_mem_of_ne_nil _ hne
    obtain ⟨hne, hsigner, hprog⟩ := loaded_of_mem_drop (List.mem_map_of_mem hl)
    obtain ⟨m, hm, hml⟩ := List.mem_filterMap.mp hl
    obtain ⟨hkey, -, -, -, hentry⟩ := key_of_loadedOf _ _ hml
    refine ⟨l.key, ?_, ?_, hprog, (hdom _).mp ?_⟩
    · rw [hkey]; exact (mem_restOf.mp (List.mem_map_of_mem hm)).2
    · rw [mem_signerKeys, ← markedSigner_iff, hsigner]
      simp [hne]
    · rw [hkey, hentry]; rfl
  · rintro ⟨k, hused, hsigner, hprog, ht⟩
    rw [mem_signerKeys, not_or, ← markedSigner_iff, Bool.not_eq_true] at hsigner
    have hrest := mem_restOf.mpr ⟨hsigner.1, hused⟩
    obtain ⟨m, hm, rfl⟩ := List.mem_map.mp hrest
    obtain ⟨k, -, rfl⟩ := List.mem_map.mp hm
    obtain ⟨e, he⟩ := Option.isSome_iff_exists.mp ((hdom _).mpr ht)
    have hprog' : k ∉ programIDsOf instructions := by
      rw [programIDsOf, mem_distinct]; exact hprog
    have hcond : (accountOf (collectMetas instructions) k).isSigner = false
        ∧ (accountOf (collectMetas instructions) k).publicKey ∉ programIDsOf instructions :=
      ⟨hsigner.2, hprog'⟩
    have hl : loadedOf entries (programIDsOf instructions)
        (accountOf (collectMetas instructions) k)
        = some { key := k, table := e.table, index := e.index,
                 writable := isWritableIn (collectMetas instructions) k } := by
      rw [loadedOf, he]
      exact if_pos hcond
    exact List.ne_nil_of_mem (List.mem_filterMap.mpr ⟨_, hm, hl⟩)

end Loaded

/-! ## Indexes as bytes -/

/-- The index of the key at a position below `65536` is that position. -/
theorem number_getElem {keys : List PublicKey} (hnd : keys.Nodup) {i : ℕ} (hi : i < keys.length)
    (hsmall : i < 65536) : ((number Map.empty 0 keys keys[i]).getD 0).toNat = i := by
  rw [number_apply _ _ hnd, if_pos (List.getElem_mem hi), Option.getD_some, UInt16.zero_add,
    hnd.idxOf_getElem i hi, UInt16.toNat_ofNat', Nat.mod_eq_of_lt hsmall]

theorem number_le_255 {keys : List PublicKey} (hnd : keys.Nodup) (hlen : keys.length ≤ 256)
    {k : PublicKey} (hk : k ∈ keys) : ((number Map.empty 0 keys k).getD 0).toNat ≤ 255 := by
  obtain ⟨i, hi, rfl⟩ := List.getElem_of_mem hk
  rw [number_getElem hnd hi (by omega)]
  omega

/-- Compiled instructions the wire can carry, from instructions of the right size. -/
theorem CompiledAs.wireRepresentable {keys : List PublicKey} {ins : Instruction}
    {c : CompiledInstruction} (h : CompiledAs (number Map.empty 0 keys) ins c) (hnd : keys.Nodup)
    (hlen : keys.length ≤ 256) (hprog : ins.programID ∈ keys)
    (haccs : ∀ m ∈ ins.accounts, m.publicKey ∈ keys) (hacc : ins.accounts.length ≤ 0xFFFF)
    (hdata : ∀ d, ins.data = .ok d → d.length ≤ 0xFFFF) : c.WireRepresentable where
  programIDIndex_le := by rw [h.programID]; exact number_le_255 hnd hlen hprog
  accounts_length_le := by rw [h.accounts, List.length_map]; exact hacc
  accounts_le := by
    rw [h.accounts]
    intro a ha
    obtain ⟨m, hm, rfl⟩ := List.mem_map.mp ha
    exact number_le_255 hnd hlen (haccs m hm)
  data_length_le := hdata _ h.data

/-- The partner of an element of related lists. -/
theorem exists_related {α β : Type} {R : α → β → Prop} {as : List α} {bs : List β}
    (h : List.Forall₂ R as bs) {a : α} (ha : a ∈ as) : ∃ b ∈ bs, R a b := by
  induction h with
  | nil => simp at ha
  | @cons a' b as bs hd _ ih =>
    rcases List.mem_cons.mp ha with rfl | ha
    · exact ⟨b, List.mem_cons_self .., hd⟩
    · obtain ⟨b', hb', h'⟩ := ih ha
      exact ⟨b', List.mem_cons_of_mem _ hb', h'⟩

/-- A named key whose compiled instructions fit the wire has an index below 256. -/
theorem index_le_of_wire {keyIndex : Map PublicKey UInt16} {instructions : List Instruction}
    {compiled : List CompiledInstruction}
    (h : List.Forall₂ (CompiledAs keyIndex) instructions compiled)
    (hwire : ∀ c ∈ compiled, c.WireRepresentable) {k : PublicKey}
    (hk : k ∈ usedKeys instructions) : ((keyIndex k).getD 0).toNat ≤ 255 := by
  induction h with
  | nil => simp [usedKeys] at hk
  | @cons ins c instructions compiled hd _ ih =>
    have hc := hwire c (List.mem_cons_self ..)
    rw [usedKeys, List.flatMap_cons, List.mem_append, List.mem_cons] at hk
    rcases hk with (rfl | hk) | hk
    · rw [← hd.programID]
      exact hc.programIDIndex_le
    · obtain ⟨m, hm, rfl⟩ := List.mem_map.mp hk
      refine hc.accounts_le _ ?_
      rw [hd.accounts]
      exact List.mem_map.mpr ⟨m, hm, rfl⟩
    · exact ih (fun c' hc' => hwire c' (List.mem_cons_of_mem _ hc')) hk

/-- Conversely a call whose instructions fit the wire compiles at most 256 keys: the
payer has index 0, and any key at index 256 would be named. -/
theorem length_callKeys_le_of_wire {entries : Map PublicKey LookupTableEntry}
    {feePayer : PublicKey} {instructions : List Instruction}
    {compiled : List CompiledInstruction}
    (h : List.Forall₂ (CompiledAs (number Map.empty 0 (callKeys entries feePayer instructions)))
      instructions compiled)
    (hwire : ∀ c ∈ compiled, c.WireRepresentable) :
    (callKeys entries feePayer instructions).length ≤ 256 := by
  by_contra hlt
  have hi : 256 < (callKeys entries feePayer instructions).length := by omega
  have hnd := nodup_callKeys entries feePayer instructions
  have hzero : (callKeys entries feePayer instructions)[0] = feePayer := rfl
  have hused : (callKeys entries feePayer instructions)[256] ∈ usedKeys instructions := by
    rcases (mem_callKeys _ _ _).mp (List.getElem_mem hi) with heq | hmem
    · have h256 : 256 = 0 := hnd.getElem_inj_iff.mp (heq.trans hzero.symm)
      omega
    · exact hmem
  have := index_le_of_wire h hwire hused
  rw [number_getElem hnd hi (by omega)] at this
  omega

/-! ## The round trip -/

/-- The message of a call: its layout with the compiled instructions. -/
abbrev callMessage (hash : Hash) (entries : Map PublicKey LookupTableEntry) (feePayer : PublicKey)
    (instructions : List Instruction) (compiled : List CompiledInstruction) : Message :=
  { (layoutMessage hash entries (programIDsOf instructions)
      (payerMeta feePayer :: restOf feePayer instructions)).1 with instructions := compiled }

section Trip

variable {hash : Hash} {entries : Map PublicKey LookupTableEntry} {feePayer : PublicKey}
variable {instructions : List Instruction} {compiled : List CompiledInstruction}
variable {opts : List TransactionOption}

theorem callMessage_version : (callMessage hash entries feePayer instructions compiled).version
    = if loadedOfCall instructions feePayer entries = [] then .legacy else .v0 := by
  rw [callMessage, layoutMessage_eq]

theorem callMessage_accountKeys :
    (callMessage hash entries feePayer instructions compiled).accountKeys
      = (staticsOfCall instructions feePayer entries).map (·.publicKey) := by
  rw [callMessage, layoutMessage_eq]

theorem callMessage_header : (callMessage hash entries feePayer instructions compiled).header
    = (staticsOfCall instructions feePayer entries).foldl MessageHeader.count {} := by
  rw [callMessage, layoutMessage_eq]

theorem callMessage_lookups :
    (callMessage hash entries feePayer instructions compiled).addressTableLookups
      = lookupsOf (loadedOfCall instructions feePayer entries) := by
  rw [callMessage, layoutMessage_eq]

/-- There are at most as many lookups as loaded accounts, and at most as many
indexes in each. -/
theorem lookupsOf_sizes (loaded : List LoadedAccount) :
    (lookupsOf loaded).length ≤ loaded.length
      ∧ ∀ l ∈ lookupsOf loaded, l.writableIndexes.length ≤ loaded.length
        ∧ l.readonlyIndexes.length ≤ loaded.length := by
  refine ⟨?_, fun l hl => ?_⟩
  · have hsub : tableKeysOf loaded ⊆ loaded.map (·.table) := fun t ht =>
      List.mem_map.mpr (mem_tableKeysOf.mp ht)
    have := ((nodup_tableKeysOf loaded).subperm hsub).length_le
    rw [List.length_map] at this
    rw [lookupsOf, List.length_map]
    exact this
  · obtain ⟨t, -, rfl⟩ := List.mem_map.mp hl
    simp only [List.length_map]
    exact ⟨List.length_filter_le _ _, List.length_filter_le _ _⟩

/-- Both classes of static accounts have at most 255 members if the call fits. -/
theorem static_classes_le (hlen : (callKeys entries feePayer instructions).length ≤ 256)
    (hsigners : loadedOfCall instructions feePayer entries = [] →
      (signerKeys instructions feePayer).card ≤ 127) :
    (signersOf (staticsOfCall instructions feePayer entries)).length ≤ 255
      ∧ (othersOf (staticsOfCall instructions feePayer entries)).length ≤ 255 := by
  have hadd := length_callKeys_add instructions feePayer entries
  have hpayer : (othersOf (staticsOfCall instructions feePayer entries)).length + 1
      ≤ (staticsOfCall instructions feePayer entries).length := by
    rw [staticsOfCall, staticAccounts, othersOf, List.filter_cons_of_neg (by simp [payerMeta]),
      List.length_cons]
    exact Nat.succ_le_succ (List.length_filter_le _ _)
  refine ⟨?_, by omega⟩
  by_cases hnil : loadedOfCall instructions feePayer entries = []
  · rw [length_signersOf_staticsOfCall]
    exact (hsigners hnil).trans (by omega)
  · have hpos := List.length_pos_iff.mpr hnil
    exact (List.length_filter_le _ _).trans (by omega)

/-- A call that fits the wire compiles to a message the wire can carry. -/
theorem callMessage_wireRepresentable
    (hcompiled : List.Forall₂ (CompiledAs (number Map.empty 0
      (callKeys entries feePayer instructions))) instructions compiled)
    (hlen : (callKeys entries feePayer instructions).length ≤ 256)
    (hsigners : loadedOfCall instructions feePayer entries = [] →
      (signerKeys instructions feePayer).card ≤ 127)
    (hins : instructions.length ≤ 0xFFFF)
    (haccs : ∀ ins ∈ instructions, ins.accounts.length ≤ 0xFFFF)
    (hdata : ∀ ins ∈ instructions, ∀ d, ins.data = .ok d → d.length ≤ 0xFFFF) :
    (callMessage hash entries feePayer instructions compiled).WireRepresentable := by
  have hadd := length_callKeys_add instructions feePayer entries
  have hnd := nodup_callKeys entries feePayer instructions
  obtain ⟨hlookups, hindexes⟩ := lookupsOf_sizes (loadedOfCall instructions feePayer entries)
  refine ⟨⟨?_, ?_, ?_⟩, ?_, ?_, ?_⟩
  · rw [callMessage_accountKeys, List.length_map]; omega
  · rw [← hcompiled.length_eq]; exact hins
  · intro c hc
    obtain ⟨ins, hmem, hci⟩ := exists_related hcompiled.flip hc
    exact hci.wireRepresentable hnd hlen
      ((mem_callKeys _ _ _).mpr (.inr (programID_mem_usedKeys hmem)))
      (fun m hm => (mem_callKeys _ _ _).mpr (.inr (account_mem_usedKeys hmem hm)))
      (haccs ins hmem) (hdata ins hmem)
  · rw [callMessage_lookups]; omega
  · rw [callMessage_lookups]
    intro l hl
    obtain ⟨hw, hr⟩ := hindexes l hl
    exact ⟨by omega, by omega⟩
  · intro hlegacy
    rw [callMessage_version] at hlegacy
    have hnil : loadedOfCall instructions feePayer entries = [] := by
      by_contra hne
      rw [if_neg hne] at hlegacy
      simp at hlegacy
    refine ⟨by rw [callMessage_lookups, hnil]; rfl, ?_⟩
    obtain ⟨hs, ho⟩ := static_classes_le hlen hsigners
    rw [(header_counts hs ho callMessage_header).1, length_signersOf_staticsOfCall]
    have := hsigners hnil
    omega

variable (hash compiled) in
/-- The counters of a call that fits are the numbers of accounts. -/
theorem callMessage_counts (hlen : (callKeys entries feePayer instructions).length ≤ 256)
    (hsigners : loadedOfCall instructions feePayer entries = [] →
      (signerKeys instructions feePayer).card ≤ 127) :
    let m := callMessage hash entries feePayer instructions compiled
    m.header.numRequiredSignatures.toNat = (signerKeys instructions feePayer).card
      ∧ m.header.numReadonlySignedAccounts.toNat
        = (signerKeys instructions feePayer \ writableKeys instructions feePayer).card
      ∧ m.header.numReadonlyUnsignedAccounts.toNat
        = ((m.accountKeys.toFinset \ signerKeys instructions feePayer)
          \ writableKeys instructions feePayer).card := by
  intro m
  obtain ⟨hs, ho⟩ := static_classes_le hlen hsigners
  obtain ⟨h1, h2, h3⟩ := header_counts hs ho (callMessage_header : m.header = _)
  rw [h1, h2, h3, length_signersOf_staticsOfCall, readonlySigned_staticsOfCall,
    readonlyUnsigned_staticsOfCall, ← callMessage_accountKeys]
  exact ⟨rfl, rfl, rfl⟩

/-- A message that came back is one the wire can carry. -/
theorem wireRepresentable_of_decodes {m : Message}
    (h : ∀ (tx0 : Transaction) (buf : Bytes), ({ message := m } : Transaction).marshalBinary = .ok buf →
      ∃ tx' n, tx0.unmarshalBinaryConsumed buf = .ok (tx', n) ∧ tx'.message = m) :
    m.WireRepresentable := by
  obtain ⟨content, hcontent⟩ : ∃ content, m.marshalBinary = .ok content := by
    cases hv : m.version with
    | legacy => exact ⟨_, Message.marshalBinary_legacy hv⟩
    | v0 => exact ⟨_, Message.marshalBinary_v0 hv⟩
  obtain ⟨tx', n, hdec, rfl⟩ := h {} _ (Transaction.marshalBinary_eq hcontent)
  exact (Transaction.unmarshalBinaryConsumed_canonical hdec).1

end Trip

/-- A transaction that survives came from a call that fits. -/
theorem fitsWire_of_survivesWire {instructions : List Instruction} {hash : Hash}
    {opts : List TransactionOption} {tx : Transaction} {feePayer : PublicKey}
    (h : newTransaction instructions hash opts = .ok tx)
    (hpayer : payerOf instructions opts = .ok feePayer)
    (hs : SurvivesWire instructions opts feePayer tx) : FitsWire instructions opts feePayer := by
  obtain ⟨feePayer', entries, compiled, hpayer', hentries, hcompiled, rfl⟩ := newTransaction_eq_ok h
  obtain rfl : feePayer' = feePayer := Except.ok.inj (hpayer'.symm.trans hpayer)
  have hloads := loadedOfCall_ne_nil_iff instructions feePayer' entries
    (indexAddressTables_spec _ _ hentries).2
  have hwire : (callMessage hash entries feePayer' instructions compiled).WireRepresentable :=
    wireRepresentable_of_decodes hs.decodes
  have hall := hwire.body.instructions_wire
  refine ⟨?_, ?_, ?_, ?_, ?_⟩
  · rw [← length_callKeys entries feePayer' instructions hpayer]
    exact length_callKeys_le_of_wire hcompiled hall
  · intro hno
    have hnil : loadedOfCall instructions feePayer' entries = [] := by
      by_contra hne
      exact hno (hloads.mp hne)
    have hlegacy : (callMessage hash entries feePayer' instructions compiled).version = .legacy := by
      rw [callMessage_version, if_pos hnil]
    have hreq := hs.numRequiredSignatures
    exact hreq ▸ Nat.le_of_lt_succ (hwire.legacy hlegacy).2
  · rw [hcompiled.length_eq]
    exact hwire.body.instructions_length_le
  · intro ins hins
    obtain ⟨c, hc, hci⟩ := exists_related hcompiled hins
    have := (hall c hc).accounts_length_le
    rwa [hci.accounts, List.length_map] at this
  · intro ins hins d hd
    obtain ⟨c, hc, hci⟩ := exists_related hcompiled hins
    have := (hall c hc).data_length_le
    rw [hci.data] at hd
    rwa [Except.ok.inj hd] at this

/-- A call that fits compiles to a transaction that survives. -/
theorem survivesWire_of_fitsWire {instructions : List Instruction} {hash : Hash}
    {opts : List TransactionOption} {tx : Transaction} {feePayer : PublicKey}
    (h : newTransaction instructions hash opts = .ok tx)
    (hpayer : payerOf instructions opts = .ok feePayer)
    (hf : FitsWire instructions opts feePayer) : SurvivesWire instructions opts feePayer tx := by
  obtain ⟨feePayer', entries, compiled, hpayer', hentries, hcompiled, rfl⟩ := newTransaction_eq_ok h
  obtain rfl : feePayer' = feePayer := Except.ok.inj (hpayer'.symm.trans hpayer)
  obtain ⟨hpoint, hdom⟩ := indexAddressTables_spec _ _ hentries
  have hlen : (callKeys entries feePayer' instructions).length ≤ 256 := by
    rw [length_callKeys entries feePayer' instructions hpayer]; exact hf.accounts
  have hsigners : loadedOfCall instructions feePayer' entries = [] →
      (signerKeys instructions feePayer').card ≤ 127 := fun hnil =>
    hf.signers fun hl => (loadedOfCall_ne_nil_iff instructions feePayer' entries hdom).mpr hl hnil
  have hwire : (callMessage hash entries feePayer' instructions compiled).WireRepresentable :=
    callMessage_wireRepresentable hcompiled hlen hsigners hf.numInstructions hf.accountLists
      hf.data
  obtain ⟨hreq, hros, hrou⟩ := callMessage_counts hash compiled hlen hsigners
  refine ⟨?_, hreq, hros, hrou, callKeys entries feePayer' instructions, ?_, ?_⟩
  · intro tx0 buf hbuf
    obtain ⟨buf', hbuf', hdec⟩ := Transaction.unmarshalBinaryConsumed_marshal tx0
      { message := callMessage hash entries feePayer' instructions compiled } hwire (by simp)
    obtain rfl : buf' = buf := Except.ok.inj (hbuf'.symm.trans hbuf)
    have := hdec []
    rw [List.append_nil] at this
    exact ⟨_, _, this, rfl⟩
  · exact runtimeKeys_layout _ _ _ _ _ _ _ hpoint
  · exact forall₂_resolvesTo hcompiled (nodup_callKeys _ _ _) (by omega)
      fun k hk => (mem_callKeys _ _ _).mpr (.inr hk)

/-- **The wire.** What `NewTransaction` compiles survives marshalling exactly when
the call fits the wire. -/
theorem newTransaction_wire_iff (instructions : List Instruction) (hash : Hash)
    (opts : List TransactionOption) (tx : Transaction) (feePayer : PublicKey)
    (h : newTransaction instructions hash opts = .ok tx)
    (hpayer : payerOf instructions opts = .ok feePayer) :
    SurvivesWire instructions opts feePayer tx ↔ FitsWire instructions opts feePayer :=
  ⟨fitsWire_of_survivesWire h hpayer, survivesWire_of_fitsWire h hpayer⟩

/-! ### A call that does not fit, and one that does -/

/-- Keys 0 to 127 sign. -/
def crowdedInstruction : Instruction where
  programID := sampleKey 200
  accounts := (List.range 128).map fun i =>
    { publicKey := sampleKey (UInt8.ofNat i), isSigner := true }
  data := .ok []

/-- With 128 signers a legacy transaction starts with the version prefix `0x80`,
and does not come back. -/
theorem newTransaction_wire_crowded :
    ∃ tx, newTransaction [crowdedInstruction] (ByteArr.zero 32) [] = .ok tx
      ∧ payerOf [crowdedInstruction] [] = .ok (sampleKey 0)
      ∧ ¬ SurvivesWire [crowdedInstruction] [] (sampleKey 0) tx := by
  have hpayer : payerOf [crowdedInstruction] [] = .ok (sampleKey 0) := by decide +kernel
  obtain ⟨tx, htx⟩ : ∃ tx, newTransaction [crowdedInstruction] (ByteArr.zero 32) [] = .ok tx :=
    newTransaction_isOk _ hpayer rfl fun ins hins => ⟨[], by rw [List.mem_singleton.mp hins]; rfl⟩
  refine ⟨tx, htx, hpayer, fun hs => ?_⟩
  have hno : ¬ LoadsThroughTable [crowdedInstruction] (sampleKey 0) (applyOptions []).contents := by
    rintro ⟨k, -, -, -, t, ht⟩
    exact absurd ht (List.not_mem_nil)
  have hle := (fitsWire_of_survivesWire htx hpayer hs).signers hno
  exact absurd hle (by decide +kernel)

theorem newTransaction_wire_sample :
    SurvivesWire [sampleInstruction] sampleOptions (sampleKey 1) sampleCompiled := by
  refine (newTransaction_wire_iff [sampleInstruction] (ByteArr.zero 32) sampleOptions
    sampleCompiled (sampleKey 1) (by decide +kernel) (by decide +kernel)).mpr ?_
  refine ⟨by decide +kernel, fun _ => by decide +kernel, by decide, by decide, ?_⟩
  intro ins hins d hd
  obtain rfl := List.mem_singleton.mp hins
  obtain rfl : [5, 6] = d := Except.ok.inj hd
  decide

end SolanaGo
