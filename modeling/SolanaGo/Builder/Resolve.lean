/-
What `NewTransaction` compiles: every index resolves to the key it stands for.

The pieces are the table index (`indexAddressTables_spec`: an entry points at its
address, and every address of a table has one), the compiled instructions
(`compileInstructions_spec`) and the layout of the keys; `newTransaction_eq_ok`
takes a successful call apart into them. The table map is ranged over in an
arbitrary order, but the keys are sorted before anything is read, so two orders of
one map give one result (`indexAddressTables_same`).
-/
import SolanaGo.Builder.Layout
import Mathlib.Data.Finset.Card
import Mathlib.Data.Finset.Dedup
import Mathlib.Data.Finset.Insert

set_option autoImplicit false

namespace SolanaGo

open Codec Keyed

/-! ## The table map -/

/-- A lookup in a list of entries with distinct keys finds the entry. -/
theorem lookup_eq_some_iff_mem {l : List (PublicKey × List PublicKey)}
    (hnd : (l.map Prod.fst).Nodup) {k : PublicKey} {v : List PublicKey} :
    l.lookup k = some v ↔ (k, v) ∈ l := by
  induction l with
  | nil => simp
  | cons p l ih =>
    obtain ⟨a, b⟩ := p
    obtain ⟨ha, hl⟩ := List.nodup_cons.mp hnd
    rw [List.lookup_cons, List.mem_cons, Prod.mk.injEq]
    by_cases hk : k = a
    · subst hk
      simp only [BEq.rfl, true_and, Option.some.injEq]
      refine ⟨fun h => .inl h.symm, ?_⟩
      rintro (h | h)
      · exact h.symm
      · exact absurd (List.mem_map_of_mem h) ha
    · have hbeq : (k == a) = false := by simpa using hk
      simp only [hbeq, hk, false_and, false_or]
      exact ih hl

/-- Two iteration orders of one map. -/
def AddressTables.Same (tables tables' : AddressTables) : Prop :=
  tables.entries.Perm tables'.entries

theorem AddressTables.Same.get_eq {tables tables' : AddressTables} (h : tables.Same tables') :
    tables.get = tables'.get := by
  funext k
  rw [AddressTables.get, AddressTables.get]
  congr 1
  apply Option.ext
  intro v
  rw [lookup_eq_some_iff_mem tables.nodup_keys, lookup_eq_some_iff_mem tables'.nodup_keys]
  exact List.Perm.mem_iff h

theorem AddressTables.mem_keys_of_mem_get {tables : AddressTables} {t k : PublicKey}
    (h : k ∈ tables.get t) : t ∈ tables.entries.map Prod.fst := by
  rw [AddressTables.get] at h
  cases hl : tables.entries.lookup t with
  | none => rw [hl] at h; simp at h
  | some v => exact List.mem_map_of_mem ((lookup_eq_some_iff_mem tables.nodup_keys).mp hl)

/-! ## The table index -/

/-- The contents of the tables an options value names. -/
def TransactionOptions.contents (options : TransactionOptions) (key : PublicKey) :
    List PublicKey :=
  match options.addressTables with
  | some tables => tables.get key
  | none => []

/-- The inner loop: an entry is an old one or points into this table, and every
address of the table is now known. -/
theorem indexTable_spec (tableKey : PublicKey) (table : List PublicKey) (n : ℕ)
    (entries : Map PublicKey LookupTableEntry) :
    let entries' := (table.zipIdx n).foldl (fun entries (address, i) =>
      if (entries address).isSome then entries
      else entries.set address { table := tableKey, index := UInt8.ofNat i }) entries
    (∀ k e, entries' k = some e → entries k = some e
        ∨ ∃ j, table[j]? = some k ∧ e = { table := tableKey, index := UInt8.ofNat (n + j) })
      ∧ ∀ k, (entries' k).isSome = true ↔ (entries k).isSome = true ∨ k ∈ table := by
  induction table generalizing n entries with
  | nil => simp
  | cons a table ih =>
    rw [List.zipIdx_cons, List.foldl_cons]
    dsimp only
    by_cases hknown : (entries a).isSome = true
    · rw [if_pos hknown]
      obtain ⟨hpoint, hdom⟩ := ih (n + 1) entries
      refine ⟨fun k e he => ?_, fun k => ?_⟩
      · rcases hpoint k e he with hold | ⟨j, hj, rfl⟩
        · exact .inl hold
        · exact .inr ⟨j + 1, by simpa using hj, by rw [Nat.add_right_comm, Nat.add_assoc]⟩
      · rw [hdom, List.mem_cons]
        refine ⟨fun h => h.imp_right .inr, ?_⟩
        rintro (h | rfl | h)
        · exact .inl h
        · exact .inl hknown
        · exact .inr h
    · rw [if_neg hknown]
      obtain ⟨hpoint, hdom⟩ := ih (n + 1) (entries.set a { table := tableKey,
                                                           index := UInt8.ofNat n })
      refine ⟨fun k e he => ?_, fun k => ?_⟩
      · rcases hpoint k e he with hold | ⟨j, hj, rfl⟩
        · by_cases hk : k = a
          · subst hk
            rw [Map.set_self, Option.some.injEq] at hold
            exact .inr ⟨0, rfl, hold.symm⟩
          · rw [Map.set_of_ne _ _ hk] at hold
            exact .inl hold
        · exact .inr ⟨j + 1, by simpa using hj, by rw [Nat.add_right_comm, Nat.add_assoc]⟩
      · rw [hdom, List.mem_cons]
        by_cases hk : k = a
        · subst hk; simp
        · rw [Map.set_of_ne _ _ hk]
          simp [hk]

/-- The loop over the tables keeps: entries point at their address. -/
theorem indexTables_spec (tables : AddressTables) (keys : List PublicKey)
    (entries entries' : Map PublicKey LookupTableEntry)
    (h : indexTables tables entries keys = .ok entries')
    (hpoint : ∀ k e, entries k = some e → lookupKey tables.get e.table e.index = some k) :
    (∀ k e, entries' k = some e → lookupKey tables.get e.table e.index = some k)
      ∧ ∀ k, (entries' k).isSome = true ↔ (entries k).isSome = true
        ∨ ∃ t ∈ keys, k ∈ tables.get t := by
  induction keys generalizing entries with
  | nil =>
    rw [indexTables, Except.ok.injEq] at h
    subst h
    exact ⟨hpoint, by simp⟩
  | cons t keys ih =>
    obtain ⟨hlen, h⟩ := guard_eq_ok.mp h
    obtain ⟨hpt, hdom⟩ := indexTable_spec t (tables.get t) 0 entries
    have hnext : ∀ k e, indexTable t entries (tables.get t) k = some e →
        lookupKey tables.get e.table e.index = some k := by
      intro k e he
      rcases hpt k e he with hold | ⟨j, hj, rfl⟩
      · exact hpoint k e hold
      · -- The position fits the byte because the table has at most 256 entries.
        have hjlt := (List.getElem?_eq_some_iff.mp hj).1
        rw [lookupKey, Nat.zero_add, UInt8.toNat_ofNat', Nat.mod_eq_of_lt (by omega)]
        exact hj
    obtain ⟨hpt', hdom'⟩ := ih _ h hnext
    refine ⟨hpt', fun k => ?_⟩
    rw [hdom', indexTable, hdom, or_assoc]
    simp only [List.mem_cons, exists_eq_or_imp]

/-- **The table index.** Every entry points at its address inside the named table,
and every address of every table has an entry. -/
theorem indexAddressTables_spec (options : TransactionOptions)
    (entries : Map PublicKey LookupTableEntry)
    (h : indexAddressTables options.addressTables = .ok entries) :
    (∀ k e, entries k = some e → lookupKey options.contents e.table e.index = some k)
      ∧ ∀ k, (entries k).isSome = true ↔ ∃ t, k ∈ options.contents t := by
  cases ht : options.addressTables with
  | none =>
    rw [ht, indexAddressTables, Except.ok.injEq] at h
    subst h
    simp [TransactionOptions.contents, ht]
  | some tables =>
    have hcontents : options.contents = tables.get := by
      funext k; rw [TransactionOptions.contents, ht]
    rw [hcontents]
    rw [ht, indexAddressTables] at h
    by_cases hpos : 0 < tables.entries.length
    · rw [if_pos hpos] at h
      obtain ⟨hpoint, hdom⟩ := indexTables_spec tables _ _ _ h (by simp)
      refine ⟨hpoint, fun k => ?_⟩
      rw [hdom]
      simp only [Map.empty_apply, Option.isSome_none, Bool.false_eq_true, false_or, mem_sortKeys]
      exact ⟨fun ⟨t, _, hk⟩ => ⟨t, hk⟩,
        fun ⟨t, hk⟩ => ⟨t, AddressTables.mem_keys_of_mem_get hk, hk⟩⟩
    · rw [if_neg hpos, Except.ok.injEq] at h
      have hnil : tables.entries = [] := List.eq_nil_of_length_eq_zero (by omega)
      subst h
      simp [AddressTables.get, hnil]

/-- Two options that differ at most in the iteration order of a map. -/
inductive TransactionOption.Same : TransactionOption → TransactionOption → Prop
  | payer (p : PublicKey) : Same (.payer p) (.payer p)
  | noTables : Same (.addressTables none) (.addressTables none)
  | tables {t t' : AddressTables} (h : t.Same t') :
      Same (.addressTables (some t)) (.addressTables (some t'))

/-- The same, for the options after they were applied. -/
inductive TransactionOptions.Same : TransactionOptions → TransactionOptions → Prop
  | noTables (p : PublicKey) : Same { payer := p } { payer := p }
  | tables (p : PublicKey) {t t' : AddressTables} (h : t.Same t') :
      Same { payer := p, addressTables := some t } { payer := p, addressTables := some t' }

theorem TransactionOption.Same.apply {o o' : TransactionOption} (h : o.Same o')
    {s s' : TransactionOptions} (hs : s.Same s') :
    TransactionOptions.Same (TransactionOption.apply s o) (TransactionOption.apply s' o') := by
  cases h with
  | payer p =>
    cases hs with
    | noTables => exact .noTables p
    | tables _ ht => exact .tables p ht
  | noTables =>
    cases hs with
    | noTables p => exact .noTables p
    | tables p ht => exact .noTables p
  | tables ht =>
    cases hs with
    | noTables p => exact .tables p ht
    | tables p _ => exact .tables p ht

theorem applyOptions_same {opts opts' : List TransactionOption}
    (h : List.Forall₂ TransactionOption.Same opts opts') :
    (applyOptions opts).Same (applyOptions opts') := by
  have hfold : ∀ s s' : TransactionOptions, s.Same s' →
      TransactionOptions.Same (opts.foldl TransactionOption.apply s)
        (opts'.foldl TransactionOption.apply s') := by
    induction h with
    | nil => exact fun s s' hs => hs
    | cons hd _ ih => exact fun s s' hs => ih _ _ (hd.apply hs)
  exact hfold _ _ (.noTables _)

theorem feePayerOf_same {s s' : TransactionOptions} (h : s.Same s') (first : Instruction) :
    feePayerOf s first = feePayerOf s' first := by
  cases h with
  | noTables => rfl
  | tables => rfl

/-- **The table index does not depend on the iteration order.** -/
theorem indexAddressTables_same {s s' : TransactionOptions} (h : s.Same s') :
    indexAddressTables s.addressTables = indexAddressTables s'.addressTables := by
  cases h with
  | noTables => rfl
  | @tables p t t' ht =>
    have hloop : ∀ keys entries, indexTables t entries keys = indexTables t' entries keys := by
      intro keys
      induction keys with
      | nil => intro entries; rfl
      | cons k keys ih =>
        intro entries
        rw [indexTables, indexTables, ht.get_eq, ih]
    rw [indexAddressTables, indexAddressTables, hloop, List.Perm.length_eq ht,
      sortKeys_eq_of_perm (List.Perm.map Prod.fst ht)]

/-! ## Compiled instructions -/

/-- A compiled instruction stands for an instruction under a numbering. -/
structure CompiledAs (keyIndex : Map PublicKey UInt16) (ins : Instruction)
    (c : CompiledInstruction) : Prop where
  data : ins.data = .ok c.data
  programID : c.programIDIndex = (keyIndex ins.programID).getD 0
  accounts : c.accounts = ins.accounts.map fun m => (keyIndex m.publicKey).getD 0

theorem compileInstructions_spec (keyIndex : Map PublicKey UInt16) (n : ℕ)
    (instructions : List Instruction) (compiled : List CompiledInstruction)
    (h : compileInstructions keyIndex n instructions = .ok compiled) :
    List.Forall₂ (CompiledAs keyIndex) instructions compiled := by
  induction instructions generalizing n compiled with
  | nil =>
    rw [compileInstructions, Except.ok.injEq] at h
    subst h
    exact .nil
  | cons ins instructions ih =>
    rw [compileInstructions, bind_eq_ok] at h
    obtain ⟨data, hdata, h⟩ := h
    rw [bind_eq_ok] at h
    obtain ⟨rest, hrest, h⟩ := h
    rw [Except.ok.injEq] at h
    subst h
    exact .cons ⟨wrapErr_eq_ok.mp hdata, rfl, rfl⟩ (ih _ _ hrest)

theorem compileInstructions_isOk (keyIndex : Map PublicKey UInt16) (n : ℕ)
    (instructions : List Instruction) (h : ∀ ins ∈ instructions, ∃ d, ins.data = .ok d) :
    ∃ compiled, compileInstructions keyIndex n instructions = .ok compiled := by
  induction instructions generalizing n with
  | nil => exact ⟨[], rfl⟩
  | cons ins instructions ih =>
    obtain ⟨d, hd⟩ := h ins (List.mem_cons_self ..)
    obtain ⟨compiled, hcompiled⟩ := ih (n + 1) fun i hi => h i (List.mem_cons_of_mem _ hi)
    rw [compileInstructions, hd, wrapErr_ok, ok_bind, hcompiled, ok_bind]
    exact ⟨_, rfl⟩

/-! ## The compiled transaction -/

/-- The fee payer of a call. -/
def payerOf (instructions : List Instruction) (opts : List TransactionOption) :
    Except Err PublicKey :=
  match instructions with
  | [] => .error { msg := "requires at least one instruction to create a transaction" }
  | first :: _ => feePayerOf (applyOptions opts) first

variable {instructions : List Instruction}

/-- A successful call, taken apart. -/
theorem newTransaction_eq_ok {hash : Hash} {opts : List TransactionOption} {tx : Transaction}
    (h : newTransaction instructions hash opts = .ok tx) :
    ∃ feePayer entries compiled, payerOf instructions opts = .ok feePayer
      ∧ indexAddressTables (applyOptions opts).addressTables = .ok entries
      ∧ List.Forall₂ (CompiledAs (number Map.empty 0 (compiledKeys entries
          (programIDsOf instructions) feePayer (restOf feePayer instructions))))
          instructions compiled
      ∧ tx = { message := { (layoutMessage hash entries (programIDsOf instructions)
          (payerMeta feePayer :: restOf feePayer instructions)).1 with
            instructions := compiled } } := by
  cases instructions with
  | nil => simp [newTransaction] at h
  | cons first rest =>
    rw [newTransaction, bind_eq_ok] at h
    obtain ⟨feePayer, hpayer, h⟩ := h
    rw [bind_eq_ok] at h
    obtain ⟨entries, hentries, h⟩ := h
    rw [orderedKeys_eq] at h
    have hindex : (layoutMessage hash entries (programIDsOf (first :: rest))
        (payerMeta feePayer :: restOf feePayer (first :: rest))).2
        = number Map.empty 0 (compiledKeys entries (programIDsOf (first :: rest)) feePayer
          (restOf feePayer (first :: rest))) := by
      rw [layoutMessage_eq]
    cases hlayout : layoutMessage hash entries (programIDsOf (first :: rest))
      (payerMeta feePayer :: restOf feePayer (first :: rest)) with
    | mk message keyIndex =>
      rw [hlayout] at h hindex
      rw [bind_eq_ok] at h
      obtain ⟨compiled, hcompiled, h⟩ := h
      refine ⟨feePayer, entries, compiled, hpayer, hentries, ?_, ?_⟩
      · rw [← hindex]
        exact compileInstructions_spec _ _ _ _ hcompiled
      · rw [hlayout]
        exact (Except.ok.inj h).symm

/-- Nothing but the payer, the tables and the instruction data can fail. -/
theorem newTransaction_isOk (hash : Hash) {opts : List TransactionOption} {feePayer : PublicKey}
    {entries : Map PublicKey LookupTableEntry} (hpayer : payerOf instructions opts = .ok feePayer)
    (hentries : indexAddressTables (applyOptions opts).addressTables = .ok entries)
    (hdata : ∀ ins ∈ instructions, ∃ d, ins.data = .ok d) :
    ∃ tx, newTransaction instructions hash opts = .ok tx := by
  cases instructions with
  | nil => simp [payerOf] at hpayer
  | cons first rest =>
    have hp : feePayerOf (applyOptions opts) first = .ok feePayer := hpayer
    rw [newTransaction, hp, ok_bind, hentries, ok_bind]
    cases layoutMessage hash entries (programIDsOf (first :: rest))
      (orderedKeys feePayer (first :: rest)) with
    | mk message keyIndex =>
      obtain ⟨compiled, hcompiled⟩ := compileInstructions_isOk keyIndex 0 (first :: rest) hdata
      dsimp only
      rw [hcompiled, ok_bind]
      exact ⟨_, rfl⟩

/-- Iteration order decides nothing, failures included. -/
theorem newTransaction_same (instructions : List Instruction) (hash : Hash)
    {opts opts' : List TransactionOption} (h : List.Forall₂ TransactionOption.Same opts opts') :
    newTransaction instructions hash opts = newTransaction instructions hash opts' := by
  have hs := applyOptions_same h
  cases instructions with
  | nil => rfl
  | cons first rest =>
    rw [newTransaction, newTransaction, feePayerOf_same hs, indexAddressTables_same hs]

/-! ### The accounts of a call -/

/-- The keys the instructions name. -/
def usedKeys (instructions : List Instruction) : List PublicKey :=
  instructions.flatMap fun ins => ins.programID :: ins.accounts.map (·.publicKey)

/-- The distinct accounts of a call, its payer included. -/
def distinctAccounts (instructions : List Instruction) (opts : List TransactionOption) :
    Finset PublicKey :=
  match payerOf instructions opts with
  | .ok feePayer => insert feePayer (usedKeys instructions).toFinset
  | .error _ => (usedKeys instructions).toFinset

theorem mem_collectMetas {m : AccountMeta} :
    m ∈ collectMetas instructions ↔ (∃ ins ∈ instructions, m ∈ ins.accounts)
      ∨ ∃ ins ∈ instructions, m = { publicKey := ins.programID } := by
  rw [collectMetas, List.mem_append, List.mem_flatMap, List.mem_map, programIDsOf]
  refine or_congr_right ?_
  simp only [mem_distinct, List.mem_map]
  constructor
  · rintro ⟨_, ⟨ins, hins, rfl⟩, rfl⟩
    exact ⟨ins, hins, rfl⟩
  · rintro ⟨ins, hins, rfl⟩
    exact ⟨_, ⟨ins, hins, rfl⟩, rfl⟩

theorem mem_uniqKeys_collectMetas {k : PublicKey} :
    k ∈ uniqKeys (collectMetas instructions) ↔ k ∈ usedKeys instructions := by
  rw [mem_uniqKeys, usedKeys, List.mem_flatMap]
  simp only [mem_collectMetas, List.mem_cons, List.mem_map]
  constructor
  · rintro ⟨m, ⟨ins, hins, hm⟩ | ⟨ins, hins, rfl⟩, rfl⟩
    · exact ⟨ins, hins, .inr ⟨m, hm, rfl⟩⟩
    · exact ⟨ins, hins, .inl rfl⟩
  · rintro ⟨ins, hins, rfl | ⟨m, hm, rfl⟩⟩
    · exact ⟨_, .inr ⟨ins, hins, rfl⟩, rfl⟩
    · exact ⟨m, .inl ⟨ins, hins, hm⟩, rfl⟩

theorem map_publicKey_restOf (feePayer : PublicKey) (instructions : List Instruction) :
    (restOf feePayer instructions).map (·.publicKey)
      = (uniqKeys (collectMetas instructions)).erase feePayer := by
  rw [restOf, List.map_map]
  exact List.map_id _

theorem nodup_restOf (feePayer : PublicKey) (instructions : List Instruction) :
    ((restOf feePayer instructions).map (·.publicKey)).Nodup := by
  rw [map_publicKey_restOf]
  exact (nodup_uniqKeys _).erase _

theorem feePayer_notMem_restOf (feePayer : PublicKey) (instructions : List Instruction) :
    feePayer ∉ (restOf feePayer instructions).map (·.publicKey) := by
  rw [map_publicKey_restOf]
  exact (nodup_uniqKeys _).not_mem_erase

theorem mem_restOf {feePayer k : PublicKey} :
    k ∈ (restOf feePayer instructions).map (·.publicKey)
      ↔ k ≠ feePayer ∧ k ∈ usedKeys instructions := by
  rw [map_publicKey_restOf, (nodup_uniqKeys _).mem_erase_iff, mem_uniqKeys_collectMetas]

section Compiled

variable (entries : Map PublicKey LookupTableEntry) (feePayer : PublicKey)
variable (instructions : List Instruction)

/-- The compiled keys of a call. -/
def callKeys : List PublicKey :=
  compiledKeys entries (programIDsOf instructions) feePayer (restOf feePayer instructions)

theorem mem_callKeys {k : PublicKey} :
    k ∈ callKeys entries feePayer instructions ↔ k = feePayer ∨ k ∈ usedKeys instructions := by
  rw [callKeys, mem_compiledKeys, mem_restOf]
  tauto

theorem nodup_callKeys : (callKeys entries feePayer instructions).Nodup :=
  nodup_compiledKeys _ _ _ _ (nodup_restOf _ _) (feePayer_notMem_restOf _ _)

/-- A call compiles as many keys as it has distinct accounts. -/
theorem length_callKeys {opts : List TransactionOption}
    (h : payerOf instructions opts = .ok feePayer) :
    (callKeys entries feePayer instructions).length
      = (distinctAccounts instructions opts).card := by
  rw [← List.toFinset_card_of_nodup (nodup_callKeys entries feePayer instructions)]
  congr 1
  ext k
  rw [List.mem_toFinset, mem_callKeys, distinctAccounts, h, Finset.mem_insert, List.mem_toFinset]

end Compiled

/-! ### Every index resolves -/

/-- A compiled instruction, resolved in an account list, is the instruction. -/
structure ResolvesTo (keys : List PublicKey) (ins : Instruction) (c : CompiledInstruction) :
    Prop where
  data : ins.data = .ok c.data
  programID : keys[c.programIDIndex.toNat]? = some ins.programID
  accounts : c.accounts.map (fun a => keys[a.toNat]?) = ins.accounts.map fun m => some m.publicKey

variable {instructions : List Instruction}

theorem programID_mem_usedKeys {ins : Instruction} (h : ins ∈ instructions) :
    ins.programID ∈ usedKeys instructions :=
  List.mem_flatMap.mpr ⟨ins, h, List.mem_cons_self ..⟩

theorem account_mem_usedKeys {ins : Instruction} {m : AccountMeta} (h : ins ∈ instructions)
    (hm : m ∈ ins.accounts) : m.publicKey ∈ usedKeys instructions :=
  List.mem_flatMap.mpr ⟨ins, h, List.mem_cons_of_mem _ (List.mem_map_of_mem hm)⟩

theorem CompiledAs.resolvesTo {keys : List PublicKey} {ins : Instruction} {c : CompiledInstruction}
    (h : CompiledAs (number Map.empty 0 keys) ins c) (hnd : keys.Nodup)
    (hlen : keys.length ≤ 65536) (hprog : ins.programID ∈ keys)
    (haccs : ∀ m ∈ ins.accounts, m.publicKey ∈ keys) : ResolvesTo keys ins c := by
  refine ⟨h.data, ?_, ?_⟩
  · rw [h.programID]
    exact number_resolves hnd hlen hprog
  · rw [h.accounts, List.map_map]
    exact List.map_congr_left fun m hm => number_resolves hnd hlen (haccs m hm)

theorem forall₂_resolvesTo {keys : List PublicKey} {compiled : List CompiledInstruction}
    (h : List.Forall₂ (CompiledAs (number Map.empty 0 keys)) instructions compiled)
    (hnd : keys.Nodup) (hlen : keys.length ≤ 65536)
    (hused : ∀ k ∈ usedKeys instructions, k ∈ keys) :
    List.Forall₂ (ResolvesTo keys) instructions compiled := by
  have hmem : ∀ ins ∈ instructions, ins.programID ∈ keys ∧ ∀ m ∈ ins.accounts, m.publicKey ∈ keys :=
    fun ins hins => ⟨hused _ (programID_mem_usedKeys hins),
      fun m hm => hused _ (account_mem_usedKeys hins hm)⟩
  clear hused
  induction h with
  | nil => exact .nil
  | @cons ins c instructions compiled hd _ ih =>
    obtain ⟨hprog, haccs⟩ := hmem ins (List.mem_cons_self ..)
    exact .cons (hd.resolvesTo hnd hlen hprog haccs)
      (ih fun ins' hins' => hmem ins' (List.mem_cons_of_mem _ hins'))

/-- A mark that programs do not carry comes from an instruction's accounts. -/
theorem exists_collectMetas {P : AccountMeta → Prop} (hP : ∀ k, ¬ P { publicKey := k }) :
    (∃ m ∈ collectMetas instructions, P m) ↔ ∃ ins ∈ instructions, ∃ m ∈ ins.accounts, P m := by
  simp only [mem_collectMetas]
  constructor
  · rintro ⟨m, ⟨ins, hins, hm⟩ | ⟨ins, hins, rfl⟩, hPm⟩
    · exact ⟨ins, hins, m, hm, hPm⟩
    · exact absurd hPm (hP _)
  · rintro ⟨ins, hins, m, hm, hPm⟩
    exact ⟨m, .inl ⟨ins, hins, hm⟩, hPm⟩

theorem isSignerIn_collectMetas {k : PublicKey} :
    isSignerIn (collectMetas instructions) k = true
      ↔ ∃ ins ∈ instructions, ∃ m ∈ ins.accounts, m.publicKey = k ∧ m.isSigner = true := by
  rw [isSignerIn_iff, exists_collectMetas (by simp)]

/-- A loaded key is neither the payer, nor a signer, nor a program. -/
theorem loaded_of_mem_drop {entries : Map PublicKey LookupTableEntry} {feePayer k : PublicKey}
    (hk : k ∈ (loadedAccounts entries (programIDsOf instructions) (restOf feePayer instructions)).map (·.key))
    :
    k ≠ feePayer ∧ isSignerIn (collectMetas instructions) k = false
      ∧ k ∉ instructions.map (·.programID) := by
  obtain ⟨l, hl, rfl⟩ := List.mem_map.mp hk
  obtain ⟨m, hm, hml⟩ := List.mem_filterMap.mp hl
  obtain ⟨hkey, -, hsigner, hprog, -⟩ := key_of_loadedOf _ _ hml
  rw [hkey]
  refine ⟨?_, ?_, ?_⟩
  · exact (mem_restOf.mp (List.mem_map_of_mem hm)).1
  · obtain ⟨k, -, rfl⟩ := List.mem_map.mp hm
    exact hsigner
  · rwa [programIDsOf, mem_distinct] at hprog

/-- **Every index resolves.** In the runtime's account list each compiled
instruction is the one it was compiled from; the list has no duplicates and
starts with the payer; payer, signers and programs are never loaded through a
table; and the iteration order of the table map does not matter. -/
theorem newTransaction_resolves (instructions : List Instruction) (hash : Hash)
    (opts : List TransactionOption) (tx : Transaction)
    (h : newTransaction instructions hash opts = .ok tx)
    (hsize : (distinctAccounts instructions opts).card ≤ 65536) :
    ∃ keys feePayer, payerOf instructions opts = .ok feePayer
      ∧ tx.message.runtimeKeys (applyOptions opts).contents = keys.map some
      ∧ keys.Nodup ∧ keys[0]? = some feePayer
      ∧ List.Forall₂ (ResolvesTo keys) instructions tx.message.instructions
      ∧ (∀ k ∈ keys.drop tx.message.accountKeys.length, k ≠ feePayer
          ∧ (∀ ins ∈ instructions, k ≠ ins.programID
            ∧ ∀ m ∈ ins.accounts, m.publicKey = k → m.isSigner = false))
      ∧ ∀ opts', List.Forall₂ TransactionOption.Same opts opts' →
          newTransaction instructions hash opts' = .ok tx := by
  obtain ⟨feePayer, entries, compiled, hpayer, hentries, hcompiled, rfl⟩ := newTransaction_eq_ok h
  have hnd := nodup_callKeys entries feePayer instructions
  have hlen : (callKeys entries feePayer instructions).length ≤ 65536 := by
    rw [length_callKeys _ _ _ hpayer]; exact hsize
  refine ⟨callKeys entries feePayer instructions, feePayer, hpayer, ?_, hnd, rfl, ?_, ?_, ?_⟩
  · exact runtimeKeys_layout _ _ _ _ _ _ _ (indexAddressTables_spec _ _ hentries).1
  · exact forall₂_resolvesTo hcompiled hnd hlen fun k hk => (mem_callKeys _ _ _).mpr (.inr hk)
  · intro k hk
    have hkl : k ∈ (loadedAccounts entries (programIDsOf instructions)
        (restOf feePayer instructions)).map (·.key) := by
      rw [layoutMessage_eq] at hk
      rw [callKeys, compiledKeys, List.drop_left' rfl] at hk
      exact mem_loadedKeys_or.mp hk
    obtain ⟨hne, hsigner, hprog⟩ := loaded_of_mem_drop hkl
    refine ⟨hne, fun ins hins => ⟨fun heq => hprog (heq ▸ List.mem_map_of_mem hins), ?_⟩⟩
    intro m hm hkey
    by_contra hs
    have := isSignerIn_collectMetas.mpr ⟨ins, hins, m, hm, hkey, by simpa using hs⟩
    rw [hsigner] at this
    exact Bool.false_ne_true this
  · intro opts' hsame
    rw [← newTransaction_same instructions hash hsame, h]

/-! ### A call with a lookup table -/

/-- The key whose first byte is `b`. -/
def sampleKey (b : UInt8) : PublicKey := ByteArr.copyFrom 32 [b]

/-- Key 1 pays and signs, key 2 is written and lives in table 9, key 3 is the
program. -/
def sampleInstruction : Instruction where
  programID := sampleKey 3
  accounts := [{ publicKey := sampleKey 1, isSigner := true },
    { publicKey := sampleKey 2, isWritable := true }]
  data := .ok [5, 6]

/-- Table 9 holds key 7 and key 2. -/
def sampleTables : AddressTables where
  entries := [(sampleKey 9, [sampleKey 7, sampleKey 2])]
  nodup_keys := List.nodup_singleton _

/-- The options of the call. -/
def sampleOptions : List TransactionOption := [.addressTables (some sampleTables)]

/-- What the call compiles to. -/
def sampleCompiled : Transaction where
  message :=
    { version := .v0
      accountKeys := [sampleKey 1, sampleKey 3]
      header := { numRequiredSignatures := 1, numReadonlyUnsignedAccounts := 1 }
      instructions := [{ programIDIndex := 1, accounts := [0, 2], data := [5, 6] }]
      addressTableLookups := [{ accountKey := sampleKey 9, writableIndexes := [1],
                                readonlyIndexes := [] }] }

theorem newTransaction_resolves_sample :
    ∃ keys feePayer, payerOf [sampleInstruction] sampleOptions = .ok feePayer
      ∧ sampleCompiled.message.runtimeKeys (applyOptions sampleOptions).contents = keys.map some
      ∧ keys.Nodup ∧ keys[0]? = some feePayer
      ∧ List.Forall₂ (ResolvesTo keys) [sampleInstruction] sampleCompiled.message.instructions :=
  have ⟨keys, feePayer, hpayer, hkeys, hnd, hzero, hins, _⟩ :=
    newTransaction_resolves [sampleInstruction] (ByteArr.zero 32) sampleOptions sampleCompiled
      (by decide +kernel) (by decide +kernel)
  ⟨keys, feePayer, hpayer, hkeys, hnd, hzero, hins⟩

end SolanaGo
