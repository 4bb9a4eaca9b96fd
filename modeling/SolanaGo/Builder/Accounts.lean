/-
The account order `NewTransaction` computes: sort, in-place merge, payer first.

The sort puts signers before non-signers, writable before readonly, and breaks
ties by key. The merge keeps the first meta of each key and ORs the writability of
the later ones into it. So two different flags describe a key afterwards:

* the flag its *position* was decided by, that of its first meta
  (`firstMeta`): writable if one meta marks it signer and writable at once;
* the flag it ends up with (`accountOf`): writable if any meta marks it
  writable.

They agree on keys nobody signs for. On a signer they differ when one meta makes
it a readonly signer and another a writable non-signer. The results of
this file are the two lists (`uniq_eq`, `orderedKeys_eq`) and the order of the
keys (`uniqKeys_pairwise`).
-/
import SolanaGo.Builder

set_option autoImplicit false

namespace SolanaGo

open Codec Keyed

/-! ## The two orders are linear -/

theorem compareKeys_eq_iff {a b : PublicKey} : compareKeys a b = .eq ↔ a = b := by
  rw [compareKeys, Std.LawfulEqCmp.compare_eq_iff_eq]
  exact ⟨ByteArr.ext, congrArg _⟩

theorem compareKeys_swap (a b : PublicKey) : compareKeys a b = (compareKeys b a).swap :=
  (Std.OrientedCmp.eq_swap : compare a.toList b.toList = (compare b.toList a.toList).swap)

instance : IsTrans PublicKey KeyLE where
  trans a b c hab hbc := by
    have hab' : (compare a.toList b.toList).isLE = true := hab
    have hac : (compare a.toList c.toList).isLE = true := Std.TransCmp.isLE_trans hab' hbc
    exact hac

theorem isLE_total_of_swap {x y : Ordering} (h : x = y.swap) : x.isLE = true ∨ y.isLE = true := by
  subst h; cases y <;> simp

theorem eq_of_isLE_of_swap {x y : Ordering} (h : x = y.swap) (hx : x.isLE = true)
    (hy : y.isLE = true) : x = .eq := by
  subst h; cases y <;> simp_all

instance : Std.Total KeyLE := ⟨fun a b => isLE_total_of_swap (compareKeys_swap a b)⟩

instance : Std.Antisymm KeyLE :=
  ⟨fun a b h h' => compareKeys_eq_iff.mp (eq_of_isLE_of_swap (compareKeys_swap a b) h h')⟩

/-- The comparison of the sort, read as three conditions. -/
theorem metaLE_iff (a b : AccountMeta) :
    MetaLE a b ↔ (a.isSigner = true ∧ b.isSigner = false)
      ∨ (a.isSigner = b.isSigner ∧ a.isWritable = true ∧ b.isWritable = false)
      ∨ (a.isSigner = b.isSigner ∧ a.isWritable = b.isWritable
        ∧ KeyLE a.publicKey b.publicKey) := by
  obtain ⟨ka, wa, sa⟩ := a
  obtain ⟨kb, wb, sb⟩ := b
  cases sa <;> cases sb <;> cases wa <;> cases wb <;> simp [MetaLE, compareMetas, KeyLE]

theorem metaLE_refl (a : AccountMeta) : MetaLE a a :=
  (metaLE_iff a a).mpr (.inr (.inr ⟨rfl, rfl, (Std.Total.total a.publicKey a.publicKey).elim id id⟩))

instance : Std.Total MetaLE where
  total a b := by
    have := Std.Total.total (r := KeyLE) a.publicKey b.publicKey
    rw [metaLE_iff, metaLE_iff]
    cases a.isSigner <;> cases b.isSigner <;> cases a.isWritable <;> cases b.isWritable <;>
      simp_all

instance : IsTrans AccountMeta MetaLE where
  trans a b c hab hbc := by
    have hkey : KeyLE a.publicKey b.publicKey → KeyLE b.publicKey c.publicKey →
        KeyLE a.publicKey c.publicKey := IsTrans.trans _ _ _
    rw [metaLE_iff] at *
    grind

variable (metas : List AccountMeta)

theorem sortMetas_perm : (sortMetas metas).Perm metas :=
  List.perm_insertionSort _ _

theorem sortMetas_pairwise : (sortMetas metas).Pairwise MetaLE :=
  List.pairwise_insertionSort _ _

/-- Sorting keys forgets the order they came in. -/
theorem sortKeys_eq_of_perm {ks ks' : List PublicKey} (h : ks.Perm ks') :
    sortKeys ks = sortKeys ks' :=
  List.Perm.eq_of_pairwise' (List.pairwise_insertionSort KeyLE ks)
    (List.pairwise_insertionSort KeyLE ks')
    ((List.perm_insertionSort _ _).trans (h.trans (List.perm_insertionSort _ _).symm))

theorem mem_sortKeys {ks : List PublicKey} {k : PublicKey} : k ∈ sortKeys ks ↔ k ∈ ks :=
  (List.perm_insertionSort _ _).mem_iff

theorem nodup_sortKeys {ks : List PublicKey} (h : ks.Nodup) : (sortKeys ks).Nodup :=
  (List.perm_insertionSort _ _).nodup_iff.mpr h

/-- The `slices.Contains` loop keeps first occurrences. -/
theorem distinct_eq_firsts (ids : List PublicKey) : distinct ids = firsts id ids := by
  have hstep : (fun (acc : List PublicKey) a => if a ∈ acc then acc else acc ++ [a])
      = keepNew id := by
    funext acc a
    rw [keepNew, List.map_id, id]
  rw [distinct, hstep]
  rfl

theorem mem_distinct {ids : List PublicKey} {k : PublicKey} : k ∈ distinct ids ↔ k ∈ ids := by
  have h : k ∈ (firsts id ids).map id ↔ k ∈ ids.map id := mem_keys_firsts ids k
  rwa [List.map_id, List.map_id, ← distinct_eq_firsts] at h

theorem nodup_distinct (ids : List PublicKey) : (distinct ids).Nodup := by
  have h : ((firsts id ids).map id).Nodup := nodup_keys_firsts ids
  rwa [List.map_id, ← distinct_eq_firsts] at h

/-! ## The in-place merge -/

/-- Some meta marks the key as signer. -/
def isSignerIn (k : PublicKey) : Bool :=
  metas.any fun m => m.publicKey = k ∧ m.isSigner = true

/-- Some meta marks the key as writable. -/
def isWritableIn (k : PublicKey) : Bool :=
  metas.any fun m => m.publicKey = k ∧ m.isWritable = true

/-- Some meta marks the key as signer and writable at once. -/
def isWritableSignerIn (k : PublicKey) : Bool :=
  metas.any fun m => m.publicKey = k ∧ m.isSigner = true ∧ m.isWritable = true

/-- A meta with the writability of all metas of its key. -/
def mergeInto (m : AccountMeta) : AccountMeta :=
  { m with isWritable := isWritableIn metas m.publicKey }

/-- What `uniq` holds after the metas of `done` were read. -/
def uniqOf (done : List AccountMeta) : List AccountMeta :=
  (firsts (·.publicKey) done).map (mergeInto done)

theorem isWritableIn_concat (m : AccountMeta) (k : PublicKey) :
    isWritableIn (metas ++ [m]) k
      = (isWritableIn metas k || (decide (m.publicKey = k) && m.isWritable)) := by
  simp [isWritableIn]

theorem map_publicKey_uniqOf (done : List AccountMeta) :
    (uniqOf done).map (·.publicKey) = (firsts (·.publicKey) done).map (·.publicKey) := by
  rw [uniqOf, List.map_map]
  rfl

theorem mergeInto_concat (done : List AccountMeta) (m f : AccountMeta) :
    mergeInto (done ++ [m]) f
      = if m.publicKey = f.publicKey then
          { mergeInto done f with isWritable := (mergeInto done f).isWritable || m.isWritable }
        else mergeInto done f := by
  rw [mergeInto, isWritableIn_concat]
  by_cases h : m.publicKey = f.publicKey
  · simp [h, mergeInto]
  · simp [h, mergeInto]

/-- A key seen before: its cell gets the writability of the new meta. -/
theorem uniqOf_concat_of_mem {done : List AccountMeta} {m : AccountMeta} {k : ℕ}
    (hk : ((uniqOf done).map (·.publicKey))[k]? = some m.publicKey) :
    uniqOf (done ++ [m]) = (uniqOf done).modify k fun u =>
      { u with isWritable := u.isWritable || m.isWritable } := by
  rw [map_publicKey_uniqOf] at hk
  have hf : firsts (·.publicKey) (done ++ [m]) = firsts (·.publicKey) done := by
    rw [firsts_concat, keepNew, if_pos (List.mem_of_getElem? hk)]
  have hnd : ((firsts (·.publicKey) done).map (·.publicKey)).Nodup := nodup_keys_firsts done
  apply List.ext_getElem?
  intro i
  rw [List.getElem?_modify, uniqOf, hf, uniqOf, List.getElem?_map, List.getElem?_map]
  cases hi : (firsts (·.publicKey) done)[i]? with
  | none => rfl
  | some f =>
    have hif : ((firsts (·.publicKey) done).map (·.publicKey))[i]? = some f.publicKey := by
      rw [List.getElem?_map, hi]; rfl
    rw [Option.map_some, Option.map_some, Option.map_eq_map, Option.map_some, mergeInto_concat]
    -- `k` is the only cell with this key.
    have hiff : m.publicKey = f.publicKey ↔ k = i := by
      constructor
      · intro h
        have hklt := (List.getElem?_eq_some_iff.mp hk).1
        exact (List.getElem?_inj hklt hnd).mp (by rw [hk, hif, h])
      · rintro rfl
        rw [hk] at hif
        exact Option.some.inj hif
    by_cases h : k = i
    · rw [if_pos (hiff.mpr h), if_pos h]
    · rw [if_neg (fun hm => h (hiff.mp hm)), if_neg h]

/-- A new key: its meta is appended as it is. -/
theorem uniqOf_concat_of_not_mem {done : List AccountMeta} {m : AccountMeta}
    (h : m.publicKey ∉ (uniqOf done).map (·.publicKey)) :
    uniqOf (done ++ [m]) = uniqOf done ++ [m] := by
  rw [map_publicKey_uniqOf] at h
  have hdone : m.publicKey ∉ done.map (·.publicKey) := fun hm => h ((mem_keys_firsts done _).mpr hm)
  have hold : (firsts (·.publicKey) done).map (mergeInto (done ++ [m])) = uniqOf done := by
    refine List.map_congr_left fun f hf => ?_
    rw [mergeInto_concat, if_neg]
    intro hm
    exact h (hm ▸ List.mem_map_of_mem hf)
  have hnone : isWritableIn done m.publicKey = false := by
    rw [isWritableIn, List.any_eq_false]
    intro x hx
    simp only [decide_eq_true_eq]
    rintro ⟨hkey, -⟩
    exact hdone (hkey ▸ List.mem_map_of_mem hx)
  have hnew : mergeInto (done ++ [m]) m = m := by
    rw [mergeInto, isWritableIn_concat, hnone]
    simp
  rw [uniqOf, firsts_concat, keepNew, if_neg h, List.map_append, hold, List.map_singleton, hnew]

/-- The loop invariant of the compaction after `i` metas: the cells in front hold
`uniq`, the cells from `i` on have not been written, and the index knows exactly
the keys of `uniq`. -/
structure DedupInv (metas : List AccountMeta) (i : ℕ) (s : DedupState) : Prop where
  uniq : s.uniq = uniqOf (metas.take i)
  numUniq_le : s.numUniq ≤ i
  unread : s.metas.drop i = metas.drop i
  length : s.metas.length = metas.length
  index : Locates s.uniqIndex (s.uniq.map (·.publicKey))

theorem dedupInv_init : DedupInv metas 0 { metas } where
  uniq := by simp [DedupState.uniq, uniqOf]
  numUniq_le := Nat.le_refl 0
  unread := rfl
  length := rfl
  index := by simp [Locates, DedupState.uniq]

/-- Changing a flag leaves the keys. -/
theorem map_publicKey_modify (l : List AccountMeta) (k : ℕ) (b : Bool) :
    (l.modify k fun u => { u with isWritable := u.isWritable || b }).map (·.publicKey)
      = l.map (·.publicKey) := by
  apply List.ext_getElem?
  intro i
  rw [List.getElem?_map, List.getElem?_modify, List.getElem?_map]
  cases l[i]? with
  | none => rfl
  | some u =>
    rw [Option.map_eq_map, Option.map_some, Option.map_some, Option.map_some]
    split <;> rfl

section Step

variable {metas : List AccountMeta} {i : ℕ} {s : DedupState} {m : AccountMeta}

/-- The meta read at step `i` is the original one: no write has reached it. -/
theorem DedupInv.read (h : DedupInv metas i s) : s.metas[i]? = metas[i]? := by
  have := congrArg (·[0]?) h.unread
  simpa [List.getElem?_drop] using this

theorem DedupInv.unread_succ (h : DedupInv metas i s) :
    s.metas.drop (i + 1) = metas.drop (i + 1) := by
  rw [← List.drop_drop, h.unread, List.drop_drop]

theorem DedupInv.length_uniq (h : DedupInv metas i s) (hi : i < metas.length) :
    s.uniq.length = s.numUniq := by
  have := h.numUniq_le
  have := h.length
  rw [DedupState.uniq, List.length_take]
  omega

theorem take_succ_of_getElem? (hm : metas[i]? = some m) :
    metas.take (i + 1) = metas.take i ++ [m] := by
  rw [List.take_add_one, hm]
  rfl

/-- A step on a known key. -/
theorem DedupInv.merge (h : DedupInv metas i s) (hi : i < metas.length) (hm : metas[i]? = some m)
    {k : ℕ} (hidx : s.uniqIndex m.publicKey = some k) :
    DedupInv metas (i + 1) { s with metas := s.metas.modify k fun u =>
      { u with isWritable := u.isWritable || m.isWritable } } := by
  have hk := (h.index _ _).mp hidx
  have hklt : k < s.numUniq := by
    have := (List.getElem?_eq_some_iff.mp hk).1
    rwa [List.length_map, h.length_uniq hi] at this
  have hnum := h.numUniq_le
  have huniq : (s.metas.modify k fun u =>
      { u with isWritable := u.isWritable || m.isWritable }).take s.numUniq
      = s.uniq.modify k fun u => { u with isWritable := u.isWritable || m.isWritable } :=
    List.take_modify _ _ _ _
  refine ⟨?_, Nat.le_succ_of_le hnum, ?_, ?_, ?_⟩
  · rw [DedupState.uniq, huniq, take_succ_of_getElem? hm, h.uniq]
    rw [h.uniq] at hk
    exact (uniqOf_concat_of_mem hk).symm
  · exact (List.drop_modify_of_lt _ _ _ _ (by omega)).trans h.unread_succ
  · exact (List.length_modify _ _ _).trans h.length
  · rw [DedupState.uniq, huniq, map_publicKey_modify]
    exact h.index

/-- A step on a new key. -/
theorem DedupInv.append (h : DedupInv metas i s) (hi : i < metas.length) (hm : metas[i]? = some m)
    (hidx : s.uniqIndex m.publicKey = none) :
    DedupInv metas (i + 1) { metas := s.metas.set s.numUniq m, numUniq := s.numUniq + 1,
                             uniqIndex := s.uniqIndex.set m.publicKey s.numUniq } := by
  have hnew := h.index.eq_none_iff.mp hidx
  have hnum := h.numUniq_le
  have hlen := h.length
  have huniq : (s.metas.set s.numUniq m).take (s.numUniq + 1) = s.uniq ++ [m] := by
    rw [List.take_add_one, List.take_set_of_le (Nat.le_refl _), List.getElem?_set_self (by omega)]
    rfl
  refine ⟨?_, Nat.succ_le_succ hnum, ?_, ?_, ?_⟩
  · rw [DedupState.uniq, huniq, take_succ_of_getElem? hm, h.uniq]
    rw [h.uniq] at hnew
    exact (uniqOf_concat_of_not_mem hnew).symm
  · exact (List.drop_set_of_lt (by omega)).trans h.unread_succ
  · exact List.length_set.trans hlen
  · have hloc := h.index.concat hnew
    rw [List.length_map, h.length_uniq hi] at hloc
    rw [DedupState.uniq, huniq, List.map_append]
    exact hloc

/-- One iteration keeps the invariant. -/
theorem DedupInv.step (h : DedupInv metas i s) (hi : i < metas.length) :
    DedupInv metas (i + 1) (dedupStep s i) := by
  have hm : metas[i]? = some metas[i] := List.getElem?_eq_getElem hi
  rw [dedupStep, h.read, hm]
  dsimp only
  cases hidx : s.uniqIndex metas[i].publicKey with
  | some k => exact h.merge hi hm hidx
  | none => exact h.append hi hm hidx

end Step

variable (metas : List AccountMeta)

/-- **The compaction.** After the loop the front of the array is the merged list
and the index locates its keys. -/
theorem dedupMetas_spec : DedupInv metas metas.length (dedupMetas metas) := by
  have hrun : ∀ n, n ≤ metas.length →
      DedupInv metas n ((List.range n).foldl dedupStep { metas }) := by
    intro n hn
    induction n with
    | zero => exact dedupInv_init metas
    | succ n ih =>
      rw [List.range_succ, List.foldl_append]
      exact (ih (by omega)).step (by omega)
  exact hrun _ (Nat.le_refl _)

theorem dedupMetas_uniq : (dedupMetas metas).uniq = uniqOf metas := by
  rw [(dedupMetas_spec metas).uniq, List.take_length]

/-! ## The flags of a key -/

/-- The meta of a key that the sort puts first. -/
def firstMeta (k : PublicKey) : AccountMeta where
  publicKey := k
  isSigner := isSignerIn metas k
  isWritable := if isSignerIn metas k then isWritableSignerIn metas k else isWritableIn metas k

/-- The account a key ends up as. -/
def accountOf (k : PublicKey) : AccountMeta where
  publicKey := k
  isSigner := isSignerIn metas k
  isWritable := isWritableIn metas k

/-- The keys of `uniq`, in order. -/
def uniqKeys : List PublicKey :=
  (firsts (·.publicKey) (sortMetas metas)).map (·.publicKey)

theorem isSignerIn_iff {metas : List AccountMeta} {k : PublicKey} :
    isSignerIn metas k = true ↔ ∃ m ∈ metas, m.publicKey = k ∧ m.isSigner = true := by
  simp [isSignerIn]

theorem isWritableIn_iff {metas : List AccountMeta} {k : PublicKey} :
    isWritableIn metas k = true ↔ ∃ m ∈ metas, m.publicKey = k ∧ m.isWritable = true := by
  simp [isWritableIn]

theorem isWritableSignerIn_iff {metas : List AccountMeta} {k : PublicKey} :
    isWritableSignerIn metas k = true
      ↔ ∃ m ∈ metas, m.publicKey = k ∧ m.isSigner = true ∧ m.isWritable = true := by
  simp [isWritableSignerIn]

theorem mem_uniqKeys {metas : List AccountMeta} {k : PublicKey} :
    k ∈ uniqKeys metas ↔ ∃ m ∈ metas, m.publicKey = k := by
  rw [uniqKeys, mem_keys_firsts, List.mem_map]
  exact exists_congr fun m => and_congr_left fun _ => (sortMetas_perm metas).mem_iff

theorem nodup_uniqKeys : (uniqKeys metas).Nodup :=
  nodup_keys_firsts _

/-- A meta below all metas of its key has exactly the flags of `firstMeta`. -/
theorem eq_firstMeta {metas : List AccountMeta} {f : AccountMeta} (hf : f ∈ metas)
    (hmin : ∀ m ∈ metas, m.publicKey = f.publicKey → MetaLE f m) :
    f = firstMeta metas f.publicKey := by
  have hsigner : f.isSigner = isSignerIn metas f.publicKey := by
    rw [Bool.eq_iff_iff, isSignerIn_iff]
    refine ⟨fun h => ⟨f, hf, rfl, h⟩, ?_⟩
    rintro ⟨m, hm, hkey, hs⟩
    have := (metaLE_iff f m).mp (hmin m hm hkey)
    grind
  have hwritable : f.isWritable = if isSignerIn metas f.publicKey
      then isWritableSignerIn metas f.publicKey else isWritableIn metas f.publicKey := by
    rw [← hsigner]
    cases hs : f.isSigner with
    | true =>
      rw [if_pos rfl, Bool.eq_iff_iff, isWritableSignerIn_iff]
      refine ⟨fun h => ⟨f, hf, rfl, hs, h⟩, ?_⟩
      rintro ⟨m, hm, hkey, hms, hmw⟩
      have := (metaLE_iff f m).mp (hmin m hm hkey)
      grind
    | false =>
      rw [if_neg Bool.false_ne_true, Bool.eq_iff_iff, isWritableIn_iff]
      refine ⟨fun h => ⟨f, hf, rfl, h⟩, ?_⟩
      rintro ⟨m, hm, hkey, hmw⟩
      have := (metaLE_iff f m).mp (hmin m hm hkey)
      grind
  obtain ⟨k, w, s⟩ := f
  simp only [firstMeta, AccountMeta.mk.injEq, true_and]
  exact ⟨hwritable, hsigner⟩

/-- The metas kept by the scan. -/
theorem firsts_sortMetas :
    firsts (·.publicKey) (sortMetas metas) = (uniqKeys metas).map (firstMeta metas) := by
  rw [uniqKeys, List.map_map]
  conv_lhs => rw [← List.map_id (firsts (·.publicKey) (sortMetas metas))]
  refine List.map_congr_left fun f hf => ?_
  have hmem : f ∈ metas :=
    (sortMetas_perm metas).mem_iff.mp ((firsts_sublist (sortMetas metas)).subset hf)
  refine eq_firstMeta hmem fun m hm hkey => ?_
  exact firsts_rel metaLE_refl (sortMetas_pairwise metas) f hf m
    ((sortMetas_perm metas).mem_iff.mpr hm) hkey

/-- **The key order.** Keys stand in the order of their first metas. -/
theorem uniqKeys_pairwise :
    (uniqKeys metas).Pairwise fun a b => MetaLE (firstMeta metas a) (firstMeta metas b) := by
  have h : (firsts (·.publicKey) (sortMetas metas)).Pairwise MetaLE :=
    (sortMetas_pairwise metas).sublist (firsts_sublist _)
  rw [firsts_sortMetas] at h
  exact List.pairwise_map.mp h

/-- **The merged list.** Every key with the flags of all its metas. -/
theorem uniq_eq : (dedupMetas (sortMetas metas)).uniq = (uniqKeys metas).map (accountOf metas) := by
  have hany : ∀ k, isWritableIn (sortMetas metas) k = isWritableIn metas k := fun k =>
    (sortMetas_perm metas).any_eq
  rw [dedupMetas_uniq, uniqOf, firsts_sortMetas, List.map_map]
  refine List.map_congr_left fun k _ => ?_
  simp only [Function.comp_apply, mergeInto, firstMeta, accountOf, hany]

/-! ## The payer in front -/

/-- The meta the payer is given. -/
def payerMeta (feePayer : PublicKey) : AccountMeta :=
  { publicKey := feePayer, isSigner := true, isWritable := true }

/-- The accounts behind the payer. -/
def restOf (feePayer : PublicKey) (instructions : List Instruction) : List AccountMeta :=
  ((uniqKeys (collectMetas instructions)).erase feePayer).map
    (accountOf (collectMetas instructions))

/-- **All keys.** The payer, then the others with their merged flags. -/
theorem orderedKeys_eq (feePayer : PublicKey) (instructions : List Instruction) :
    orderedKeys feePayer instructions = payerMeta feePayer :: restOf feePayer instructions := by
  rw [restOf]
  generalize hm : collectMetas instructions = metas
  have hloc := (dedupMetas_spec (sortMetas metas)).index
  have hkeys : ((uniqKeys metas).map (accountOf metas)).map (·.publicKey) = uniqKeys metas := by
    rw [List.map_map]; exact List.map_id _
  rw [uniq_eq, hkeys] at hloc
  simp only [orderedKeys, hm, movePayerFirst, payerMeta, uniq_eq, List.cons.injEq, true_and]
  cases hidx : (dedupMetas (sortMetas metas)).uniqIndex feePayer with
  | none =>
    rw [List.erase_of_not_mem (hloc.eq_none_iff.mp hidx)]
  | some k =>
    have hk := (hloc _ _).mp hidx
    obtain ⟨hlt, hget⟩ := List.getElem?_eq_some_iff.mp hk
    have herase : (uniqKeys metas).erase feePayer = (uniqKeys metas).eraseIdx k := by
      rw [← hget]
      exact (nodup_uniqKeys metas).erase_getElem k hlt
    rw [herase, List.eraseIdx_eq_take_drop_succ, List.map_append, List.map_take, List.map_drop]

end SolanaGo
