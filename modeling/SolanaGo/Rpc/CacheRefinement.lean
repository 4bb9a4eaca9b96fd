/-
The sharded account cache is one map.

The specification is a single map from keys to entries (`SingleMap`). A write at a key
that is there replaces the data if its slot is not older, adds its flags and restarts
the clock of the entry; nothing is said of shards. `get_step` shows that the answers of
the shards change under an operation as the single map does, and by induction they are
equal after every sequence of operations.

Of the single map three things follow. A write never lowers the slot of an entry. The
flags of an entry are those of the writes since the key was last absent
(`sinceRemoval`). And slot and data of an entry are a register in which the latest
version wins, so writes at different slots may come in any order.
-/
import SolanaGo.Rpc.AccountCache

set_option autoImplicit false

namespace SolanaGo.Rpc

open Codec (ByteArr)
open Keyed (Map)
open LatestWins (Versioned putOption foldl_putOption_perm)

variable {Account : Type}

/-! ## The single map -/

/-- What the cache is for: one map from keys to entries. -/
abbrev SingleMap (Account : Type) := Map PublicKey (CacheEntry Account)

namespace SingleMap

variable (m : SingleMap Account)

/-- A write replaces the data only when its slot is not older than the stored one. -/
def store (write : AccountWrite Account) (now : Int64) : SingleMap Account :=
  m.set write.key <|
    match m write.key with
    | none => ⟨write.data, write.slot, write.streamed, write.immutable, now, now⟩
    | some e =>
      ⟨if e.slot ≤ write.slot then write.data else e.data,
        if e.slot ≤ write.slot then write.slot else e.slot,
        e.streamed || write.streamed, e.immutable || write.immutable, now, e.lastRead⟩

/-- A removal. -/
def clear (key : PublicKey) : SingleMap Account :=
  fun key' => if key' = key then none else m key'

/-- Entries that were last read before the cutoff go. -/
def evict (cutoff : Int64) : SingleMap Account :=
  fun key => (m key).filter fun e => !decide (e.lastRead < cutoff)

/-- What is served for a key. -/
def serves (freshFor : Int64) (key : PublicKey) (now : Int64) : Option (Option Account) :=
  match m key with
  | none => none
  | some e => if e.fresh now freshFor then some e.data else none

/-- Serving an entry restarts its read clock. -/
def touch (freshFor : Int64) (key : PublicKey) (now : Int64) : SingleMap Account :=
  match m key with
  | none => m
  | some e => if e.fresh now freshFor then m.set key { e with lastRead := now } else m

/-- One operation, for a freshness window and a default time to live. -/
def step (freshFor ttl : Int64) (m : SingleMap Account) : CacheEvent Account → SingleMap Account
  | .store write now => m.store write now
  | .clear key => m.clear key
  | .tidy ttl' now =>
    let age := if ttl' ≤ 0 then ttl else ttl'
    if age ≤ 0 then m else m.evict (now - age)
  | .lookup key now => m.touch freshFor key now

/-- A sequence of operations. -/
def run (freshFor ttl : Int64) (m : SingleMap Account) (events : List (CacheEvent Account)) :
    SingleMap Account := events.foldl (step freshFor ttl) m

end SingleMap

/-! ## The simulation -/

namespace AccountCache

variable (ac : AccountCache Account)

theorem get_set (write : AccountWrite Account) (now : Int64) (key : PublicKey) :
    (ac.set write now).get key
      = if key = write.key then some (setEntry write now (ac.get write.key)) else ac.get key :=
  Sharded.get_alter ac.shard ac.shards write.key _ key

theorem get_del (key key' : PublicKey) :
    (ac.del key).get key' = if key' = key then none else ac.get key' :=
  Sharded.get_alter ac.shard ac.shards key _ key'

theorem get_tidy (ttl now : Int64) :
    (ac.tidy ttl now).get = if ttl ≤ 0 then ac.get else SingleMap.evict ac.get (now - ttl) := by
  unfold tidy
  split
  · rfl
  · exact funext fun key => Sharded.get_filterAll ac.shard ac.shards _ key

theorem tidy_settings (ttl now : Int64) :
    (ac.tidy ttl now).freshFor = ac.freshFor ∧ (ac.tidy ttl now).ttl = ac.ttl := by
  unfold tidy
  split
  · exact ⟨rfl, rfl⟩
  · exact ⟨rfl, rfl⟩

/-- What `set` makes of an entry is what the single map does. -/
theorem get_set_eq (write : AccountWrite Account) (now : Int64) :
    (ac.set write now).get = SingleMap.store ac.get write now := by
  funext key
  rw [get_set]
  unfold SingleMap.store Map.set
  by_cases hkey : key = write.key
  · rw [if_pos hkey, if_pos hkey]
    cases ac.get write.key with
    | none => rfl
    | some prev =>
      unfold setEntry
      dsimp only
      by_cases hslot : prev.slot ≤ write.slot
      · rw [if_pos hslot, if_pos hslot, if_pos hslot]
      · rw [if_neg hslot, if_neg hslot, if_neg hslot]
  · rw [if_neg hkey, if_neg hkey]

/-- What `lookupAt` returns. -/
theorem lookupAt_fst (key : PublicKey) (now : Int64) :
    (ac.lookupAt key now).1 = SingleMap.serves ac.get ac.freshFor key now := by
  unfold lookupAt SingleMap.serves
  cases ac.get key with
  | none => rfl
  | some e =>
    dsimp only
    split
    · rfl
    · rfl

/-- What `lookupAt` leaves. -/
theorem get_lookupAt (key : PublicKey) (now : Int64) :
    (ac.lookupAt key now).2.get = SingleMap.touch ac.get ac.freshFor key now := by
  unfold lookupAt SingleMap.touch
  cases hkey : ac.get key with
  | none => rfl
  | some e =>
    dsimp only
    split
    · funext key'
      exact Sharded.get_alter ac.shard ac.shards key _ key'
    · rfl

/-- The counters are beside the point. -/
theorem lookup_eq (key : PublicKey) (now : Int64) :
    (ac.lookup key now).1 = (ac.lookupAt key now).1
      ∧ (ac.lookup key now).2.get = (ac.lookupAt key now).2.get
      ∧ (ac.lookup key now).2.freshFor = ac.freshFor ∧ (ac.lookup key now).2.ttl = ac.ttl := by
  have hfields : (ac.lookupAt key now).2.freshFor = ac.freshFor
      ∧ (ac.lookupAt key now).2.ttl = ac.ttl := by
    unfold lookupAt
    cases ac.get key with
    | none => exact ⟨rfl, rfl⟩
    | some e =>
      dsimp only
      split
      · exact ⟨rfl, rfl⟩
      · exact ⟨rfl, rfl⟩
  unfold lookup
  generalize ac.lookupAt key now = result at hfields ⊢
  obtain ⟨data, ac'⟩ := result
  cases data with
  | none => exact ⟨rfl, rfl, hfields⟩
  | some data => exact ⟨rfl, rfl, hfields⟩

/-- **The shards follow the single map.** -/
theorem get_step (event : CacheEvent Account) :
    (ac.step event).get = SingleMap.step ac.freshFor ac.ttl ac.get event := by
  cases event with
  | store write now => exact get_set_eq ac write now
  | clear key => exact funext (get_del ac key)
  | tidy ttl now => exact get_tidy ac _ now
  | lookup key now =>
    simp only [step, SingleMap.step]
    rw [(lookup_eq ac key now).2.1]
    exact get_lookupAt ac key now

/-- The settings stay. -/
theorem step_settings (event : CacheEvent Account) :
    (ac.step event).freshFor = ac.freshFor ∧ (ac.step event).ttl = ac.ttl := by
  cases event with
  | store write now => exact ⟨rfl, rfl⟩
  | clear key => exact ⟨rfl, rfl⟩
  | tidy ttl now => exact tidy_settings ac _ now
  | lookup key now => exact (lookup_eq ac key now).2.2

theorem run_settings (events : List (CacheEvent Account)) :
    (ac.run events).freshFor = ac.freshFor ∧ (ac.run events).ttl = ac.ttl := by
  induction events generalizing ac with
  | nil => exact ⟨rfl, rfl⟩
  | cons event events ih =>
    obtain ⟨hfresh, httl⟩ := step_settings ac event
    obtain ⟨ihfresh, ihttl⟩ := ih (ac.step event)
    exact ⟨ihfresh.trans hfresh, ihttl.trans httl⟩

/-- **Every sequence of operations.** -/
theorem get_run (events : List (CacheEvent Account)) :
    (ac.run events).get = SingleMap.run ac.freshFor ac.ttl ac.get events := by
  induction events generalizing ac with
  | nil => rfl
  | cons event events ih =>
    obtain ⟨hfresh, httl⟩ := step_settings ac event
    have hrest := ih (ac.step event)
    rw [hfresh, httl, get_step] at hrest
    exact hrest

end AccountCache

/-! ## Slots -/

/-- An entry as a register with a version. -/
def CacheEntry.view (e : CacheEntry Account) : Versioned ℕ (Option Account) :=
  ⟨e.slot.toNat, e.data⟩

/-- What a write brings. -/
def AccountWrite.view (write : AccountWrite Account) : Versioned ℕ (Option Account) :=
  ⟨write.slot.toNat, write.data⟩

/-- **Slot and data are a register in which the latest version wins.** -/
theorem setEntry_view (write : AccountWrite Account) (now : Int64)
    (prev : Option (CacheEntry Account)) :
    some (AccountCache.setEntry write now prev).view
      = putOption (prev.map CacheEntry.view) write.view := by
  cases prev with
  | none => rfl
  | some prev =>
    unfold AccountCache.setEntry
    show _ = some (LatestWins.put prev.view write.view)
    dsimp only
    by_cases hslot : prev.slot ≤ write.slot
    · rw [if_pos hslot, LatestWins.put_of_le (UInt64.le_iff_toNat_le.mp hslot)]
      rfl
    · have hlt : write.slot.toNat < prev.slot.toNat :=
        not_le.mp fun hle => hslot (UInt64.le_iff_toNat_le.mpr hle)
      rw [if_neg hslot, LatestWins.put_of_lt hlt]
      rfl

/-- The write of an operation at a key, if it is one. -/
def writeAt (key : PublicKey) : CacheEvent Account → Option (AccountWrite Account)
  | .store write _ => if write.key = key then some write else none
  | _ => none

/-- The entry of a key goes, or stays up to its read clock. -/
def GoesOrStays (before after : Option (CacheEntry Account)) : Prop :=
  after = none ∨ ∃ e lastRead, before = some e ∧ after = some { e with lastRead }

/-- An entry that is as before stays. -/
theorem GoesOrStays.refl (entry : Option (CacheEntry Account)) : GoesOrStays entry entry := by
  cases entry with
  | none => exact Or.inl rfl
  | some e => exact Or.inr ⟨e, e.lastRead, rfl, rfl⟩

theorem evict_goesOrStays (m : SingleMap Account) (cutoff : Int64) (key : PublicKey) :
    GoesOrStays (m key) (m.evict cutoff key) := by
  unfold SingleMap.evict
  cases m key with
  | none => exact Or.inl rfl
  | some e =>
    rw [Option.filter_some]
    split
    · exact Or.inr ⟨e, e.lastRead, rfl, rfl⟩
    · exact Or.inl rfl

theorem touch_goesOrStays (m : SingleMap Account) (freshFor : Int64) (key' : PublicKey)
    (now : Int64) (key : PublicKey) : GoesOrStays (m key) (m.touch freshFor key' now key) := by
  unfold SingleMap.touch
  cases he : m key' with
  | none => exact GoesOrStays.refl _
  | some e =>
    dsimp only
    split
    · by_cases hkey : key = key'
      · subst hkey
        rw [Map.set_self]
        exact Or.inr ⟨e, now, he, rfl⟩
      · rw [Map.set_of_ne _ _ hkey]
        exact GoesOrStays.refl _
    · exact GoesOrStays.refl _

namespace AccountCache

/-- **What an operation does at one key.** A write at the key merges into its entry; every
other operation leaves the entry, up to its read clock, or removes it. -/
theorem step_at (ac : AccountCache Account) (event : CacheEvent Account) (key : PublicKey) :
    (∃ write now, writeAt key event = some write
        ∧ (ac.step event).get key = some (setEntry write now (ac.get key)))
      ∨ (writeAt key event = none ∧ GoesOrStays (ac.get key) ((ac.step event).get key)) := by
  cases event with
  | store write now =>
    simp only [step, get_set, writeAt]
    by_cases hkey : key = write.key
    · subst hkey
      exact Or.inl ⟨write, now, if_pos rfl, if_pos rfl⟩
    · rw [if_neg hkey, if_neg (Ne.symm hkey)]
      exact Or.inr ⟨rfl, GoesOrStays.refl _⟩
  | clear key' =>
    refine Or.inr ⟨rfl, ?_⟩
    simp only [step, get_del]
    by_cases hkey : key = key'
    · rw [if_pos hkey]
      exact Or.inl rfl
    · rw [if_neg hkey]
      exact GoesOrStays.refl _
  | tidy ttl now =>
    refine Or.inr ⟨rfl, ?_⟩
    simp only [step, cacheTidy, get_tidy]
    generalize (if ttl ≤ 0 then ac.ttl else ttl) = age
    by_cases hage : age ≤ 0
    · rw [if_pos hage]
      exact GoesOrStays.refl _
    · rw [if_neg hage]
      exact evict_goesOrStays _ _ _
  | lookup key' now =>
    rw [get_step]
    exact Or.inr ⟨rfl, touch_goesOrStays _ _ _ _ _⟩

/-- **The slot of an entry never falls** under an operation that leaves the entry there. -/
theorem slot_le_step (ac : AccountCache Account) (event : CacheEvent Account) {key : PublicKey}
    {e e' : CacheEntry Account} (hbefore : ac.get key = some e)
    (hafter : (ac.step event).get key = some e') : e.slot ≤ e'.slot := by
  rcases ac.step_at event key with ⟨write, now, -, hwrite⟩ | ⟨-, hgone | ⟨e0, lastRead, he0, hstay⟩⟩
  · rw [hbefore] at hwrite
    obtain rfl := Option.some.inj (hafter.symm.trans hwrite)
    have hle := LatestWins.version_le_put e.view write.view
    rw [← Option.some.inj (setEntry_view write now (some e))] at hle
    exact UInt64.le_iff_toNat_le.mpr hle
  · exact absurd (hgone.symm.trans hafter) (by simp)
  · obtain rfl := Option.some.inj (hafter.symm.trans hstay)
    obtain rfl := Option.some.inj (hbefore.symm.trans he0)
    exact UInt64.le_refl _

end AccountCache

/-! ## Flags -/

namespace AccountCache

/-- The writes at a key since it was last absent, in the course of a sequence of
operations; `writes` are those before it. -/
def sinceRemoval (key : PublicKey) (ac : AccountCache Account)
    (writes : List (AccountWrite Account)) :
    List (CacheEvent Account) → List (AccountWrite Account)
  | [] => writes
  | event :: events =>
    let ac' := ac.step event
    let writes' := if (ac'.get key).isNone then [] else writes ++ (writeAt key event).toList
    sinceRemoval key ac' writes' events

/-- An entry has the flags of the writes. -/
def HasFlags (writes : List (AccountWrite Account)) (entry : Option (CacheEntry Account)) : Prop :=
  match entry with
  | none => writes = []
  | some e => e.streamed = writes.any (·.streamed) ∧ e.immutable = writes.any (·.immutable)

/-- **One operation keeps the flags those of the writes.** -/
theorem hasFlags_step {ac : AccountCache Account} {key : PublicKey}
    {writes : List (AccountWrite Account)} (h : HasFlags writes (ac.get key))
    (event : CacheEvent Account) :
    HasFlags (if ((ac.step event).get key).isNone then []
      else writes ++ (writeAt key event).toList) ((ac.step event).get key) := by
  rcases ac.step_at event key with
    ⟨write, now, hat, hwrite⟩ | ⟨hat, hgone | ⟨e, lastRead, he, hstay⟩⟩
  · rw [hwrite, hat]
    cases hprev : ac.get key with
    | none =>
      rw [hprev] at h
      obtain rfl : writes = [] := h
      exact ⟨by simp [setEntry], by simp [setEntry]⟩
    | some prev =>
      rw [hprev] at h
      obtain ⟨hstreamed, himmutable⟩ := h
      show (setEntry write now (some prev)).streamed = (writes ++ [write]).any (·.streamed)
        ∧ (setEntry write now (some prev)).immutable = (writes ++ [write]).any (·.immutable)
      rw [List.any_append, List.any_append, ← hstreamed, ← himmutable]
      unfold setEntry
      dsimp only
      split
      · simp
      · simp
  · rw [hgone]
    rfl
  · rw [he] at h
    rw [hstay, hat]
    show HasFlags (writes ++ []) _
    rw [List.append_nil]
    exact h

/-- Every sequence of operations. -/
theorem hasFlags_run {ac : AccountCache Account} {key : PublicKey}
    {writes : List (AccountWrite Account)} (h : HasFlags writes (ac.get key))
    (events : List (CacheEvent Account)) :
    HasFlags (sinceRemoval key ac writes events) ((ac.run events).get key) := by
  induction events generalizing ac writes with
  | nil => exact h
  | cons event events ih => exact ih (hasFlags_step h event)

end AccountCache

/-! ## The order of writes -/

/-- Writes with the time of each. -/
abbrev TimedWrites (Account : Type) := List (AccountWrite Account × Int64)

/-- The operations. -/
def TimedWrites.events (writes : TimedWrites Account) : List (CacheEvent Account) :=
  writes.map fun write => .store write.1 write.2

/-- What a write brings to a key. -/
def arrivalAt (key : PublicKey) (write : AccountWrite Account) :
    Option (Versioned ℕ (Option Account)) :=
  if write.key = key then some write.view else none

namespace AccountCache

/-- Writes at a key are arrivals at its register. -/
theorem view_run (ac : AccountCache Account) (writes : TimedWrites Account) (key : PublicKey) :
    ((ac.run writes.events).get key).map CacheEntry.view
      = (writes.map Prod.fst).foldl
        (fun held write => (arrivalAt key write).elim held (putOption held))
        ((ac.get key).map CacheEntry.view) := by
  induction writes generalizing ac with
  | nil => rfl
  | cons write writes ih =>
    obtain ⟨write, now⟩ := write
    have hstep : ((ac.set write now).get key).map CacheEntry.view
        = (arrivalAt key write).elim ((ac.get key).map CacheEntry.view)
          (putOption ((ac.get key).map CacheEntry.view)) := by
      rw [get_set]
      unfold arrivalAt
      by_cases hkey : key = write.key
      · subst hkey
        rw [if_pos rfl, if_pos rfl]
        exact setEntry_view write now (ac.get write.key)
      · rw [if_neg hkey, if_neg (Ne.symm hkey)]
        rfl
    rw [List.map_cons, List.foldl_cons, ← hstep]
    exact ih (ac.set write now)

/-- **The order of writes at different slots does not matter.** -/
theorem data_run_perm (ac : AccountCache Account) {writes writes' : TimedWrites Account}
    (hperm : (writes.map Prod.fst).Perm (writes'.map Prod.fst))
    (hdistinct : (writes.map Prod.fst).Pairwise fun a b => a.key = b.key → a.slot ≠ b.slot)
    (key : PublicKey) :
    ((ac.run writes.events).get key).map (·.data)
      = ((ac.run writes'.events).get key).map (·.data) := by
  have hversions : (writes.map Prod.fst).Pairwise fun a b => ∀ x ∈ arrivalAt key a,
      ∀ y ∈ arrivalAt key b, x.version ≠ y.version := by
    refine hdistinct.imp fun {a b} hab x hx y hy => ?_
    unfold arrivalAt at hx hy
    obtain ⟨ha, hx⟩ := Option.mem_ite_none_right.mp hx
    obtain ⟨hb, hy⟩ := Option.mem_ite_none_right.mp hy
    obtain rfl := Option.some.inj hx
    obtain rfl := Option.some.inj hy
    intro heq
    exact hab (ha.trans hb.symm) (UInt64.toNat_inj.mp heq)
  have hview := foldl_putOption_perm (arrivalAt key) hperm hversions
    ((ac.get key).map CacheEntry.view)
  rw [← view_run, ← view_run] at hview
  have hdata := congrArg (Option.map Versioned.value) hview
  rw [Option.map_map, Option.map_map] at hdata
  exact hdata

end AccountCache

/-! ## Refinement -/

/-- A new cache answers like the empty map. -/
theorem get_newAccountCache {opts : CacheOptions} {ac : AccountCache Account}
    (hnew : newAccountCache Account opts = some ac) : ac.get = Map.empty := by
  obtain ⟨n, -, rfl⟩ := Option.map_eq_some_iff.mp hnew
  exact funext fun key => Sharded.get_empty _ key

/-- **The sharded cache refines one map.** After every sequence of operations the cache
holds, and serves, what the single map does. The slot of an entry that stays never falls;
its flags are those of the writes since the key was last absent; and the data that writes
at different slots leave does not depend on their order. -/
theorem accountCache_refines {opts : CacheOptions} {ac : AccountCache Account}
    (hnew : newAccountCache Account opts = some ac) (events : List (CacheEvent Account)) :
    (∀ key, (ac.run events).get key = SingleMap.run ac.freshFor ac.ttl Map.empty events key)
      ∧ (∀ key now, ((ac.run events).lookup key now).1
        = (SingleMap.run ac.freshFor ac.ttl Map.empty events).serves ac.freshFor key now)
      ∧ (∀ event key e e', (ac.run events).get key = some e →
        ((ac.run events).step event).get key = some e' → e.slot ≤ e'.slot)
      ∧ (∀ key e, (ac.run events).get key = some e →
        e.streamed = (ac.sinceRemoval key [] events).any (·.streamed)
          ∧ e.immutable = (ac.sinceRemoval key [] events).any (·.immutable))
      ∧ (∀ writes writes' : TimedWrites Account,
        (writes.map Prod.fst).Perm (writes'.map Prod.fst) →
        ((writes.map Prod.fst).Pairwise fun a b => a.key = b.key → a.slot ≠ b.slot) →
        ∀ key, (((ac.run events).run writes.events).get key).map (·.data)
          = (((ac.run events).run writes'.events).get key).map (·.data)) := by
  have hempty := get_newAccountCache hnew
  have hget : (ac.run events).get = SingleMap.run ac.freshFor ac.ttl Map.empty events := by
    rw [AccountCache.get_run, hempty]
  refine ⟨fun key => congrFun hget key, fun key now => ?_, fun event key e e' => ?_,
    fun key e he => ?_, fun writes writes' hperm hdistinct key => ?_⟩
  · rw [(AccountCache.lookup_eq _ key now).1, AccountCache.lookupAt_fst, hget,
      (ac.run_settings events).1]
  · exact AccountCache.slot_le_step _ event
  · have hstart : AccountCache.HasFlags [] (ac.get key) := by
      rw [hempty]
      rfl
    have hflags := AccountCache.hasFlags_run hstart events
    rw [he] at hflags
    exact hflags
  · exact AccountCache.data_run_perm _ hperm hdistinct key

/-- A late response from an older slot, at a key that is fed by a stream. -/
def lateWrite (key : PublicKey) : List (CacheEvent ℕ) :=
  [.store (cacheStoreStreamed key (some 10) 100) 1, .store (cacheStore key (some 5) 90) 2,
    .lookup key 3]

/-- The newer data stays, and so does the flag of the stream. -/
theorem accountCache_refines_late : ∃ ac, newAccountCache ℕ {} = some ac
    ∧ ((ac.run (lateWrite (ByteArr.zero 32))).lookup (ByteArr.zero 32) 4).1 = some (some 10)
    ∧ (∀ key, (ac.run (lateWrite (ByteArr.zero 32))).get key
      = SingleMap.run ac.freshFor ac.ttl Map.empty (lateWrite (ByteArr.zero 32)) key)
    ∧ ∀ e, (ac.run (lateWrite (ByteArr.zero 32))).get (ByteArr.zero 32) = some e →
      e.streamed = (ac.sinceRemoval (ByteArr.zero 32) [] (lateWrite (ByteArr.zero 32))).any
        (·.streamed) := by
  have hlate : (newAccountCache ℕ {}).map (fun ac =>
      ((ac.run (lateWrite (ByteArr.zero 32))).lookup (ByteArr.zero 32) 4).1)
      = some (some (some 10)) := by decide +kernel
  obtain ⟨ac, hnew, hserved⟩ := Option.map_eq_some_iff.mp hlate
  obtain ⟨hget, -, -, hflags, -⟩ := accountCache_refines hnew (lateWrite (ByteArr.zero 32))
  exact ⟨ac, hnew, hserved, hget, fun e he => (hflags _ e he).1⟩

end SolanaGo.Rpc
