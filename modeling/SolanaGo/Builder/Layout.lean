/-
From ordered keys to a message: the static and the loaded keys, their indexes,
and the runtime's reading of both.

Every key gets its index by one of three loops: the split loop numbers the static
keys, and each of the two passes over the tables numbers the loaded keys of one
kind. All three count on from where the previous one stopped, so together they
number one list, `compiledKeys`: the static keys, the writable loaded keys table
by table, the readonly loaded keys table by table. That is the runtime's own account
list (`runtimeKeys_layout`), and the index of a key is its position there
(`number_resolves`).
-/
import SolanaGo.Builder.Accounts

set_option autoImplicit false

namespace SolanaGo

open Codec Keyed

/-! ## Consecutive indexes -/

/-- Give the keys consecutive indexes from `next` on. -/
def number (keyIndex : Map PublicKey UInt16) (next : UInt16) :
    List PublicKey → Map PublicKey UInt16
  | [] => keyIndex
  | k :: ks => number (keyIndex.set k next) (next + 1) ks

theorem add_ofNat_succ (next : UInt16) (n : ℕ) :
    next + 1 + UInt16.ofNat n = next + UInt16.ofNat (n + 1) := by
  rw [UInt16.ofNat_add, UInt16.add_assoc, UInt16.add_comm (UInt16.ofNat n)]
  rfl

theorem add_ofNat_zero (next : UInt16) : next + UInt16.ofNat 0 = next := UInt16.add_zero next

theorem number_append (keyIndex : Map PublicKey UInt16) (next : UInt16) (ks ks' : List PublicKey) :
    number keyIndex next (ks ++ ks')
      = number (number keyIndex next ks) (next + UInt16.ofNat ks.length) ks' := by
  induction ks generalizing keyIndex next with
  | nil => rw [List.nil_append, number, List.length_nil, add_ofNat_zero]
  | cons k ks ih =>
    rw [List.cons_append, number, ih, number, List.length_cons, add_ofNat_succ]

theorem number_apply (keyIndex : Map PublicKey UInt16) (next : UInt16) {ks : List PublicKey}
    (hnd : ks.Nodup) (k : PublicKey) :
    number keyIndex next ks k
      = if k ∈ ks then some (next + UInt16.ofNat (ks.idxOf k)) else keyIndex k := by
  induction ks generalizing keyIndex next with
  | nil => rfl
  | cons a ks ih =>
    obtain ⟨ha, hks⟩ := List.nodup_cons.mp hnd
    rw [number, ih _ _ hks]
    by_cases hk : k = a
    · subst hk
      rw [if_neg ha, Map.set_self, if_pos (List.mem_cons_self ..), List.idxOf_cons_self,
        add_ofNat_zero]
    · rw [Map.set_of_ne _ _ hk]
      by_cases hmem : k ∈ ks
      · rw [if_pos hmem, if_pos (List.mem_cons_of_mem a hmem),
          List.idxOf_cons_ne _ (Ne.symm hk), add_ofNat_succ]
      · rw [if_neg hmem, if_neg]
        intro h
        rcases List.mem_cons.mp h with h | h
        · exact hk h
        · exact hmem h

/-- With at most `65536` keys an index is a position. -/
theorem number_resolves {ks : List PublicKey} (hnd : ks.Nodup) (hlen : ks.length ≤ 65536)
    {k : PublicKey} (hk : k ∈ ks) :
    ks[((number Map.empty 0 ks k).getD 0).toNat]? = some k := by
  have hlt : ks.idxOf k < ks.length := List.idxOf_lt_length_iff.mpr hk
  rw [number_apply _ _ hnd, if_pos hk, Option.getD_some, UInt16.zero_add, UInt16.toNat_ofNat',
    Nat.mod_eq_of_lt (by omega), List.getElem?_eq_getElem hlt, List.getElem_idxOf]

/-! ## The split -/

section Split

variable (lookupEntries : Map PublicKey LookupTableEntry) (programIDs : List PublicKey)

/-- What a key behind the payer is loaded as, if it is. -/
def loadedOf (m : AccountMeta) : Option LoadedAccount :=
  match lookupEntries m.publicKey with
  | some entry =>
    if m.isSigner = false ∧ m.publicKey ∉ programIDs then
      some { key := m.publicKey, table := entry.table, index := entry.index,
             writable := m.isWritable }
    else none
  | none => none

/-- The keys that stay static. -/
def staticsOf (ms : List AccountMeta) : List AccountMeta :=
  ms.filter fun m => (loadedOf lookupEntries programIDs m).isNone

theorem splitStep_zero (s : SplitState) (m : AccountMeta) :
    splitStep lookupEntries programIDs s (m, 0) = s.addStatic m := by
  rw [splitStep]
  cases lookupEntries m.publicKey with
  | none => rfl
  | some entry => exact if_neg (by simp)

theorem splitStep_of_pos (s : SplitState) (m : AccountMeta) {idx : ℕ} (h : 0 < idx) :
    splitStep lookupEntries programIDs s (m, idx)
      = match loadedOf lookupEntries programIDs m with
        | some l => { s with loaded := s.loaded ++ [l] }
        | none => s.addStatic m := by
  rw [splitStep, loadedOf]
  cases lookupEntries m.publicKey with
  | none => rfl
  | some entry =>
    have hne : idx ≠ 0 := by omega
    by_cases hc : m.isSigner = false ∧ m.publicKey ∉ programIDs
    · simp [hc, hne]
    · simp [hc, hne]

/-- The split loop behind the payer, in closed form. -/
theorem foldl_splitStep (ms : List AccountMeta) (idx : ℕ) (hidx : 0 < idx) (s : SplitState) :
    (ms.zipIdx idx).foldl (splitStep lookupEntries programIDs) s =
      { accountKeys := s.accountKeys
          ++ (staticsOf lookupEntries programIDs ms).map (·.publicKey)
        header := (staticsOf lookupEntries programIDs ms).foldl MessageHeader.count s.header
        keyIndex := number s.keyIndex s.next
          ((staticsOf lookupEntries programIDs ms).map (·.publicKey))
        next := s.next + UInt16.ofNat (staticsOf lookupEntries programIDs ms).length
        loaded := s.loaded ++ ms.filterMap (loadedOf lookupEntries programIDs) } := by
  induction ms generalizing idx s with
  | nil => simp [staticsOf, number]
  | cons m ms ih =>
    rw [List.zipIdx_cons, List.foldl_cons, splitStep_of_pos _ _ _ _ hidx,
      ih (idx + 1) (Nat.succ_pos idx)]
    cases hl : loadedOf lookupEntries programIDs m with
    | some l => simp [staticsOf, hl]
    | none =>
      simp [staticsOf, hl, SplitState.addStatic, number, add_ofNat_succ]

/-- The static accounts: the payer and what is not loaded. -/
def staticAccounts (feePayer : PublicKey) (rest : List AccountMeta) : List AccountMeta :=
  payerMeta feePayer :: staticsOf lookupEntries programIDs rest

/-- The loaded accounts. -/
def loadedAccounts (rest : List AccountMeta) : List LoadedAccount :=
  rest.filterMap (loadedOf lookupEntries programIDs)

/-- **The split.** -/
theorem splitKeys_eq (feePayer : PublicKey) (rest : List AccountMeta) :
    splitKeys lookupEntries programIDs (payerMeta feePayer :: rest) =
      let statics := staticAccounts lookupEntries programIDs feePayer rest
      { accountKeys := statics.map (·.publicKey)
        header := statics.foldl MessageHeader.count {}
        keyIndex := number Map.empty 0 (statics.map (·.publicKey))
        next := UInt16.ofNat statics.length
        loaded := loadedAccounts lookupEntries programIDs rest } := by
  rw [splitKeys, List.zipIdx_cons, List.foldl_cons, splitStep_zero,
    foldl_splitStep _ _ _ _ (by omega)]
  have hnext : (1 : UInt16) + UInt16.ofNat (staticsOf lookupEntries programIDs rest).length
      = UInt16.ofNat ((staticsOf lookupEntries programIDs rest).length + 1) := by
    rw [UInt16.ofNat_add, UInt16.add_comm]
    rfl
  simp [staticAccounts, loadedAccounts, SplitState.addStatic, number, payerMeta, hnext]

end Split

/-! ## The two passes -/

/-- The accounts of one table with one writability. -/
def selected (loaded : List LoadedAccount) (writable : Bool) (tableKey : PublicKey) :
    List LoadedAccount :=
  loaded.filter fun l => l.table = tableKey ∧ l.writable = writable

/-- The loaded keys of one writability, table by table. -/
def loadedKeys (loaded : List LoadedAccount) (writable : Bool) : List PublicKey :=
  (tableKeysOf loaded).flatMap fun t => (selected loaded writable t).map (·.key)

theorem indexLoaded_eq (tableKey : PublicKey) (writable : Bool) (s : IndexState)
    (loaded : List LoadedAccount) :
    indexLoaded tableKey writable s loaded =
      let sel := selected loaded writable tableKey
      (sel.map (·.index), { keyIndex := number s.keyIndex s.next (sel.map (·.key))
                            next := s.next + UInt16.ofNat sel.length }) := by
  induction loaded generalizing s with
  | nil => simp [indexLoaded, selected, number]
  | cons l loaded ih =>
    rw [indexLoaded]
    by_cases h : l.table = tableKey ∧ l.writable = writable
    · simp [h, ih, selected, number, add_ofNat_succ]
    · have hsel : selected (l :: loaded) writable tableKey = selected loaded writable tableKey := by
        rw [selected, List.filter_cons_of_neg (by simpa using h), selected]
      rw [if_neg h, ih, hsel]

theorem indexPass_eq (writable : Bool) (loaded : List LoadedAccount) (s : IndexState)
    (tableKeys : List PublicKey) :
    indexPass writable loaded s tableKeys =
      let keys := tableKeys.flatMap fun t => (selected loaded writable t).map (·.key)
      (tableKeys.map fun t => (selected loaded writable t).map (·.index),
        { keyIndex := number s.keyIndex s.next keys, next := s.next + UInt16.ofNat keys.length }) := by
  induction tableKeys generalizing s with
  | nil => simp [indexPass, number]
  | cons t tableKeys ih =>
    simp only [indexPass, indexLoaded_eq, ih, List.map_cons, List.flatMap_cons, number_append,
      List.length_map, List.length_append, UInt16.ofNat_add, UInt16.add_assoc]

/-- The lookups of a message. -/
def lookupsOf (loaded : List LoadedAccount) : List MessageAddressTableLookup :=
  (tableKeysOf loaded).map fun t =>
    { accountKey := t
      writableIndexes := (selected loaded true t).map (·.index)
      readonlyIndexes := (selected loaded false t).map (·.index) }

theorem zipWith_zip_map {α β γ δ : Type} (f : α → β × γ → δ) (g : α → β) (h : α → γ)
    (l : List α) :
    List.zipWith f l (List.zip (l.map g) (l.map h)) = l.map fun a => f a (g a, h a) := by
  induction l with
  | nil => rfl
  | cons a l ih => rw [List.map_cons, List.map_cons, List.zip_cons_cons, List.zipWith_cons_cons, ih,
      List.map_cons]

theorem indexLookups_eq (s : IndexState) (loaded : List LoadedAccount) :
    indexLookups s loaded =
      let keys := loadedKeys loaded true ++ loadedKeys loaded false
      (lookupsOf loaded,
        { keyIndex := number s.keyIndex s.next keys, next := s.next + UInt16.ofNat keys.length }) := by
  simp only [indexLookups, indexPass_eq, zipWith_zip_map, lookupsOf, loadedKeys, number_append,
    List.length_append, UInt16.ofNat_add, UInt16.add_assoc]

/-! ## The message layout -/

section Layout

variable (lookupEntries : Map PublicKey LookupTableEntry) (programIDs : List PublicKey)
variable (feePayer : PublicKey) (rest : List AccountMeta)

/-- All keys in the order of their indexes. -/
def compiledKeys : List PublicKey :=
  let loaded := loadedAccounts lookupEntries programIDs rest
  (staticAccounts lookupEntries programIDs feePayer rest).map (·.publicKey)
    ++ (loadedKeys loaded true ++ loadedKeys loaded false)

/-- **The layout.** A message with loaded accounts is v0, and its keys are numbered
in the order of `compiledKeys`. -/
theorem layoutMessage_eq (hash : Hash) :
    layoutMessage hash lookupEntries programIDs (payerMeta feePayer :: rest) =
      let statics := staticAccounts lookupEntries programIDs feePayer rest
      let loaded := loadedAccounts lookupEntries programIDs rest
      ({ version := if loaded = [] then .legacy else .v0
         accountKeys := statics.map (·.publicKey)
         header := statics.foldl MessageHeader.count {}
         recentBlockhash := hash
         addressTableLookups := lookupsOf loaded },
        number Map.empty 0 (compiledKeys lookupEntries programIDs feePayer rest)) := by
  rw [layoutMessage, splitKeys_eq]
  dsimp only
  generalize hl : loadedAccounts lookupEntries programIDs rest = loaded
  cases loaded with
  | nil =>
    have hkeys : tableKeysOf [] = [] := rfl
    simp [compiledKeys, hl, lookupsOf, loadedKeys, hkeys]
  | cons l loaded =>
    simp [compiledKeys, hl, indexLookups_eq, Message.setAddressTableLookups, number_append]

/-! ### Which keys, and each once -/

theorem key_of_loadedOf {m : AccountMeta} {l : LoadedAccount}
    (h : loadedOf lookupEntries programIDs m = some l) :
    l.key = m.publicKey ∧ l.writable = m.isWritable ∧ m.isSigner = false
      ∧ m.publicKey ∉ programIDs
      ∧ lookupEntries m.publicKey = some { table := l.table, index := l.index } := by
  rw [loadedOf] at h
  cases he : lookupEntries m.publicKey with
  | none => rw [he] at h; simp at h
  | some entry =>
    rw [he] at h
    dsimp only at h
    by_cases hc : m.isSigner = false ∧ m.publicKey ∉ programIDs
    · rw [if_pos hc, Option.some.injEq] at h
      subst h
      exact ⟨rfl, rfl, hc.1, hc.2, rfl⟩
    · rw [if_neg hc] at h; simp at h

/-- The keys of the loaded accounts. -/
theorem map_key_loadedAccounts :
    (loadedAccounts lookupEntries programIDs rest).map (·.key)
      = (rest.filter fun m => (loadedOf lookupEntries programIDs m).isSome).map (·.publicKey) := by
  induction rest with
  | nil => rfl
  | cons m rest ih =>
    rw [loadedAccounts] at ih ⊢
    cases hl : loadedOf lookupEntries programIDs m with
    | none =>
      rw [List.filterMap_cons_none hl, List.filter_cons_of_neg (by simp [hl]), ih]
    | some l =>
      rw [List.filterMap_cons_some hl, List.filter_cons_of_pos (by simp [hl]), List.map_cons,
        List.map_cons, ih, (key_of_loadedOf _ _ hl).1]

end Layout

variable {loaded : List LoadedAccount}

theorem mem_tableKeysOf {t : PublicKey} : t ∈ tableKeysOf loaded ↔ ∃ l ∈ loaded, l.table = t := by
  rw [tableKeysOf, mem_sortKeys, mem_distinct, List.mem_map]

theorem nodup_tableKeysOf (loaded : List LoadedAccount) : (tableKeysOf loaded).Nodup :=
  nodup_sortKeys (nodup_distinct _)

theorem mem_selected {w : Bool} {t : PublicKey} {l : LoadedAccount} :
    l ∈ selected loaded w t ↔ l ∈ loaded ∧ l.table = t ∧ l.writable = w := by
  simp [selected]

theorem mem_loadedKeys {w : Bool} {k : PublicKey} :
    k ∈ loadedKeys loaded w ↔ ∃ l ∈ loaded, l.key = k ∧ l.writable = w := by
  rw [loadedKeys, List.mem_flatMap]
  constructor
  · rintro ⟨t, -, hk⟩
    obtain ⟨l, hl, rfl⟩ := List.mem_map.mp hk
    obtain ⟨hmem, -, hw⟩ := mem_selected.mp hl
    exact ⟨l, hmem, rfl, hw⟩
  · rintro ⟨l, hl, rfl, hw⟩
    exact ⟨l.table, mem_tableKeysOf.mpr ⟨l, hl, rfl⟩,
      List.mem_map_of_mem (mem_selected.mpr ⟨hl, rfl, hw⟩)⟩

/-- Two loaded accounts with one key are one. -/
theorem eq_of_key_eq (hnd : (loaded.map (·.key)).Nodup) {l l' : LoadedAccount} (hl : l ∈ loaded)
    (hl' : l' ∈ loaded) (h : l.key = l'.key) : l = l' :=
  List.inj_on_of_nodup_map hnd hl hl' h

theorem nodup_loadedKeys (hnd : (loaded.map (·.key)).Nodup) (w : Bool) :
    (loadedKeys loaded w).Nodup := by
  rw [loadedKeys, List.nodup_flatMap]
  refine ⟨fun t _ => (List.filter_sublist.map _).nodup hnd, ?_⟩
  refine (nodup_tableKeysOf loaded).imp fun {t t'} hne k hk hk' => ?_
  obtain ⟨l, hl, rfl⟩ := List.mem_map.mp hk
  obtain ⟨l', hl', hkey⟩ := List.mem_map.mp hk'
  obtain ⟨hm, rfl, -⟩ := mem_selected.mp hl
  obtain ⟨hm', rfl, -⟩ := mem_selected.mp hl'
  exact hne (congrArg _ (eq_of_key_eq hnd hm hm' hkey.symm))

theorem disjoint_loadedKeys (hnd : (loaded.map (·.key)).Nodup) :
    (loadedKeys loaded true).Disjoint (loadedKeys loaded false) := by
  intro k hk hk'
  obtain ⟨l, hl, rfl, hw⟩ := mem_loadedKeys.mp hk
  obtain ⟨l', hl', hkey, hw'⟩ := mem_loadedKeys.mp hk'
  rw [eq_of_key_eq hnd hl hl' hkey.symm, hw'] at hw
  exact Bool.false_ne_true hw

theorem mem_loadedKeys_or {k : PublicKey} :
    k ∈ loadedKeys loaded true ++ loadedKeys loaded false ↔ k ∈ loaded.map (·.key) := by
  rw [List.mem_append, mem_loadedKeys, mem_loadedKeys, List.mem_map]
  constructor
  · rintro (⟨l, hl, hk, -⟩ | ⟨l, hl, hk, -⟩)
    · exact ⟨l, hl, hk⟩
    · exact ⟨l, hl, hk⟩
  · rintro ⟨l, hl, hk⟩
    cases hw : l.writable with
    | true => exact .inl ⟨l, hl, hk, hw⟩
    | false => exact .inr ⟨l, hl, hk, hw⟩

section Keys

variable (lookupEntries : Map PublicKey LookupTableEntry) (programIDs : List PublicKey)
variable (feePayer : PublicKey) (rest : List AccountMeta)

/-- Every key of the input is compiled, and no other. -/
theorem mem_compiledKeys {k : PublicKey} :
    k ∈ compiledKeys lookupEntries programIDs feePayer rest
      ↔ k = feePayer ∨ k ∈ rest.map (·.publicKey) := by
  rw [compiledKeys, List.mem_append, mem_loadedKeys_or, map_key_loadedAccounts, staticAccounts,
    List.map_cons, List.mem_cons, payerMeta, staticsOf, or_assoc]
  refine or_congr_right ?_
  simp only [List.mem_map, List.mem_filter]
  constructor
  · rintro (⟨m, ⟨hm, -⟩, hk⟩ | ⟨m, ⟨hm, -⟩, hk⟩)
    · exact ⟨m, hm, hk⟩
    · exact ⟨m, hm, hk⟩
  · rintro ⟨m, hm, hk⟩
    cases hl : loadedOf lookupEntries programIDs m with
    | none => exact .inl ⟨m, ⟨hm, by simp [hl]⟩, hk⟩
    | some l => exact .inr ⟨m, ⟨hm, by simp [hl]⟩, hk⟩

/-- No key is compiled twice. -/
theorem nodup_compiledKeys (hnd : (rest.map (·.publicKey)).Nodup)
    (hpayer : feePayer ∉ rest.map (·.publicKey)) :
    (compiledKeys lookupEntries programIDs feePayer rest).Nodup := by
  have hloaded : ((loadedAccounts lookupEntries programIDs rest).map (·.key)).Nodup := by
    rw [map_key_loadedAccounts]
    exact (List.filter_sublist.map _).nodup hnd
  have hstatics : ((staticsOf lookupEntries programIDs rest).map (·.publicKey)).Sublist
      (rest.map (·.publicKey)) := List.filter_sublist.map _
  rw [compiledKeys, List.nodup_append']
  refine ⟨?_, ?_, ?_⟩
  · rw [staticAccounts, List.map_cons, List.nodup_cons]
    exact ⟨fun h => hpayer (hstatics.subset h), hstatics.nodup hnd⟩
  · rw [List.nodup_append']
    exact ⟨nodup_loadedKeys hloaded true, nodup_loadedKeys hloaded false,
      disjoint_loadedKeys hloaded⟩
  · intro k hk hk'
    rw [mem_loadedKeys_or, map_key_loadedAccounts] at hk'
    obtain ⟨m, hm, rfl⟩ := List.mem_map.mp hk'
    obtain ⟨hmem, hsome⟩ := List.mem_filter.mp hm
    rw [staticAccounts, List.map_cons, List.mem_cons] at hk
    rcases hk with hk | hk
    · have hpk : m.publicKey = feePayer := hk
      exact hpayer (hpk ▸ List.mem_map_of_mem hmem)
    · obtain ⟨m', hm', hkey⟩ := List.mem_map.mp hk
      obtain ⟨hmem', hnone⟩ := List.mem_filter.mp hm'
      rw [List.inj_on_of_nodup_map hnd hmem' hmem hkey, Option.isNone_iff_eq_none] at hnone
      rw [hnone] at hsome
      simp at hsome

end Keys

/-! ## The runtime's account list -/

variable (contents : PublicKey → List PublicKey)

/-- The account a lookup index names, given the contents of the tables. -/
def lookupKey (tableKey : PublicKey) (index : UInt8) : Option PublicKey :=
  (contents tableKey)[index.toNat]?

/-- The account list the runtime indexes: the static keys, then all writable
lookups table by table, then all readonly lookups. -/
def Message.runtimeKeys (m : Message) : List (Option PublicKey) :=
  m.accountKeys.map some
    ++ (m.addressTableLookups.flatMap fun l =>
        l.writableIndexes.map (lookupKey contents l.accountKey))
    ++ (m.addressTableLookups.flatMap fun l =>
        l.readonlyIndexes.map (lookupKey contents l.accountKey))

/-- One half of the lookups resolves to the loaded keys of that half. -/
theorem resolve_loadedKeys (loaded : List LoadedAccount) (w : Bool)
    (h : ∀ l ∈ loaded, lookupKey contents l.table l.index = some l.key) :
    ((tableKeysOf loaded).flatMap fun t =>
        ((selected loaded w t).map (·.index)).map (lookupKey contents t))
      = (loadedKeys loaded w).map some := by
  rw [loadedKeys, List.map_flatMap]
  refine List.flatMap_congr fun t _ => ?_
  rw [List.map_map, List.map_map]
  refine List.map_congr_left fun l hl => ?_
  obtain ⟨hmem, rfl, -⟩ := mem_selected.mp hl
  exact h l hmem

/-- **The runtime reads the compiled keys**, whatever the compiled instructions
are. -/
theorem runtimeKeys_layout (lookupEntries : Map PublicKey LookupTableEntry)
    (programIDs : List PublicKey) (feePayer : PublicKey) (rest : List AccountMeta) (hash : Hash)
    (instructions : List CompiledInstruction)
    (hentries : ∀ k e, lookupEntries k = some e → lookupKey contents e.table e.index = some k) :
    Message.runtimeKeys contents { (layoutMessage hash lookupEntries programIDs
        (payerMeta feePayer :: rest)).1 with instructions }
      = (compiledKeys lookupEntries programIDs feePayer rest).map some := by
  have hloaded : ∀ l ∈ loadedAccounts lookupEntries programIDs rest,
      lookupKey contents l.table l.index = some l.key := by
    intro l hl
    obtain ⟨m, -, hm⟩ := List.mem_filterMap.mp hl
    obtain ⟨hkey, -, -, -, hentry⟩ := key_of_loadedOf _ _ hm
    rw [hkey]
    exact hentries _ _ hentry
  rw [layoutMessage_eq]
  simp only [Message.runtimeKeys, lookupsOf, List.flatMap_map, resolve_loadedKeys _ _ _ hloaded,
    compiledKeys, List.map_append, List.append_assoc]

end SolanaGo
