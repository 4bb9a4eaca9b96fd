/-
`cachedGetMultipleAccounts`: many accounts at once, from the cache and from the server.

The call goes through the keys once. A key that the cache serves is answered there; the
others are collected without repetition, each with the positions it was asked at. One
request then fetches what is missing, and the values of the response are put at the
positions of their keys and stored.

The response is a list of values, and the loop over it takes the key of a value by its
index. `placeFetched_eq` says what comes out of that for a response of any length: a short
response leaves nil behind, and a value behind the last key that was asked for stops the
program.

`clock i` is the time at which the value with index `i` is stored. The commitment of the
request is left out: it goes to the server unseen.
-/
import SolanaGo.Bin.Checked
import SolanaGo.Rpc.CacheRefinement

set_option autoImplicit false

namespace SolanaGo.Rpc

open Keyed (Map firsts)
open Bin (Panic)

variable {Account : Type}

/-! ## The call -/

/-- `type Context struct`. -/
structure Context where
  slot : UInt64 := 0
  apiVersion : Option String := none
  deriving DecidableEq

/-- `type GetMultipleAccountsResult struct`. A value is a pointer, which may be nil. -/
structure GetMultipleAccountsResult (Account : Type) where
  context : Context := {}
  value : List (Option Account)
  deriving DecidableEq

/-- `xs[i] = x`. -/
def assign {α : Type} (xs : List α) (i : ℕ) (x : α) : Except Panic (List α) :=
  if i < xs.length then .ok (xs.set i x) else .error .outOfRange

/-- What the first loop has when it goes to the next key. -/
structure Gathered (Account : Type) where
  value : List (Option Account)
  fetchKeys : List PublicKey := []
  positions : Map PublicKey (List ℕ) := Map.empty
  hits : UInt64 := 0
  cache : AccountCache Account

/-- `for i, key := range accounts`. -/
def gather (now : Int64) : (i : ℕ) → List PublicKey → Gathered Account →
    Except Panic (Gathered Account)
  | _, [], g => .ok g
  | i, key :: keys, g =>
    match g.cache.lookupAt key now with
    | (some data, cache) => do
      let value ← assign g.value i data
      gather now (i + 1) keys { g with value, hits := g.hits + 1, cache }
    | (none, cache) =>
      let seen := (g.positions key).isSome
      let fetchKeys := if seen then g.fetchKeys else g.fetchKeys ++ [key]
      let positions := g.positions.set key ((g.positions key).getD [] ++ [i])
      gather now (i + 1) keys { g with fetchKeys, positions, cache }

/-- The cache behind the first loop, with the hits and the misses counted. -/
def Gathered.counted (g : Gathered Account) : AccountCache Account :=
  { g.cache with
    hits := g.cache.hits + g.hits
    misses := g.cache.misses + UInt64.ofNat g.fetchKeys.length }

/-- `for _, idx := range positions[key]`. -/
def fillPositions (value : List (Option Account)) (data : Option Account) :
    List ℕ → Except Panic (List (Option Account))
  | [] => .ok value
  | idx :: idxs => do
    let value ← assign value idx data
    fillPositions value data idxs

/-- `for i, value := range fetched.Value`, with the cache as it is when the loop ends or
stops. -/
def placeFetched (g : Gathered Account) (slot : UInt64) (clock : ℕ → Int64) : (i : ℕ) →
    List (Option Account) → List (Option Account) → AccountCache Account →
    Except Panic (List (Option Account)) × AccountCache Account
  | _, [], out, cache => (.ok out, cache)
  | i, data :: rest, out, cache =>
    match g.fetchKeys[i]? with
    | none => (.error .outOfRange, cache)
    | some key =>
      match fillPositions out data ((g.positions key).getD []) with
      | .error panic => (.error panic, cache)
      | .ok out =>
        let cache := match data with
          | some account => cache.set (cacheStore key (some account) slot) (clock i)
          | none => cache
        placeFetched g slot clock (i + 1) rest out cache

/-- A call: what it returns, the cache it leaves and the requests it makes. -/
structure Call (Account : Type) where
  result : Except Panic (Except Err (GetMultipleAccountsResult Account))
  cache : AccountCache Account
  requests : List (List PublicKey)

/-- `cachedGetMultipleAccounts`. The answer of `GetMultipleAccountsWithOpts` is `fetch`. -/
def cachedGetMultipleAccounts (accounts : List PublicKey) (ac : AccountCache Account)
    (now : Int64) (clock : ℕ → Int64)
    (fetch : List PublicKey → Except Err (GetMultipleAccountsResult Account)) : Call Account :=
  match gather now 0 accounts
      { value := List.replicate accounts.length none, cache := ac } with
  | .error panic => { result := .error panic, cache := ac, requests := [] }
  | .ok g =>
    let cache := g.counted
    if g.fetchKeys.length = 0 then
      { result := .ok (.ok { value := g.value }), cache, requests := [] }
    else
      match fetch g.fetchKeys with
      | .error err => { result := .ok (.error err), cache, requests := [g.fetchKeys] }
      | .ok fetched =>
        match placeFetched g fetched.context.slot clock 0 fetched.value g.value cache with
        | (.error panic, cache) => { result := .error panic, cache, requests := [g.fetchKeys] }
        | (.ok value, cache) =>
          { result := .ok (.ok { context := fetched.context, value })
            cache
            requests := [g.fetchKeys] }

/-! ## What it is for -/

namespace AccountCache

/-- What the cache serves for a key at this time. -/
def serves (ac : AccountCache Account) (now : Int64) (key : PublicKey) : Option (Option Account) :=
  (ac.lookupAt key now).1

/-- The keys that the cache does not serve, each once. -/
def missing (ac : AccountCache Account) (now : Int64) (keys : List PublicKey) : List PublicKey :=
  firsts id (keys.filter fun key => (ac.serves now key).isNone)

/-- **Each missing key once.** -/
theorem nodup_missing (ac : AccountCache Account) (now : Int64) (keys : List PublicKey) :
    (ac.missing now keys).Nodup := by
  have hnodup : ((ac.missing now keys).map id).Nodup := Keyed.nodup_keys_firsts _
  rwa [List.map_id] at hnodup

theorem mem_missing {ac : AccountCache Account} {now : Int64} {keys : List PublicKey}
    {key : PublicKey} :
    key ∈ ac.missing now keys ↔ key ∈ keys ∧ ac.serves now key = none := by
  have hmem : key ∈ (ac.missing now keys).map id
      ↔ key ∈ (keys.filter fun key => (ac.serves now key).isNone).map id :=
    Keyed.mem_keys_firsts _ key
  rw [List.map_id, List.map_id] at hmem
  rw [hmem, List.mem_filter, Option.isNone_iff_eq_none]

/-- One more key. -/
theorem missing_concat (ac : AccountCache Account) (now : Int64) (keys : List PublicKey)
    (key : PublicKey) :
    ac.missing now (keys ++ [key])
      = if ac.serves now key = none ∧ key ∉ ac.missing now keys then
          ac.missing now keys ++ [key]
        else ac.missing now keys := by
  unfold missing
  rw [List.filter_append]
  cases hserves : ac.serves now key with
  | some data => simp [hserves]
  | none =>
    rw [List.filter_cons_of_pos (by simp [hserves]), List.filter_nil, Keyed.firsts_concat]
    unfold Keyed.keepNew
    rw [List.map_id]
    simp only [id_eq, true_and]
    split <;> simp_all

end AccountCache

/-- An entry without its read clock. -/
def CacheEntry.stored (e : CacheEntry Account) : CacheEntry Account := { e with lastRead := 0 }

namespace AccountCache

theorem stored_lookupAt (ac : AccountCache Account) (now : Int64) (key key' : PublicKey) :
    ((ac.lookupAt key now).2.get key').map CacheEntry.stored
      = (ac.get key').map CacheEntry.stored := by
  rw [get_lookupAt]
  unfold SingleMap.touch
  cases hkey : ac.get key with
  | none => rfl
  | some e =>
    dsimp only
    by_cases hfresh : e.fresh now ac.freshFor = true
    · rw [if_pos hfresh]
      by_cases hsame : key' = key
      · rw [hsame, Map.set_self, hkey]
        rfl
      · rw [Map.set_of_ne _ _ hsame]
    · rw [if_neg hfresh]

/-- What is served does not depend on the read clock. -/
theorem serves_congr {ac ac' : AccountCache Account} (hfresh : ac'.freshFor = ac.freshFor)
    {key : PublicKey}
    (hstored : (ac'.get key).map CacheEntry.stored = (ac.get key).map CacheEntry.stored)
    (now : Int64) : ac'.serves now key = ac.serves now key := by
  have hread : ∀ ac : AccountCache Account, ac.serves now key
      = ((ac.get key).map CacheEntry.stored).bind fun e =>
          if e.fresh now ac.freshFor then some e.data else none := by
    intro ac
    unfold serves
    rw [lookupAt_fst]
    unfold SingleMap.serves
    cases ac.get key with
    | none => rfl
    | some e => rfl
  rw [hread, hread, hstored, hfresh]

theorem serves_lookupAt (ac : AccountCache Account) (now : Int64) (key key' : PublicKey) :
    (ac.lookupAt key now).2.serves now key' = ac.serves now key' := by
  refine serves_congr ?_ (ac.stored_lookupAt now key key') now
  unfold lookupAt
  split
  · rfl
  · split
    · rfl
    · rfl

end AccountCache

/-! ## The first loop -/

/-- The positions of a key. -/
def positionsOf (key : PublicKey) (keys : List PublicKey) : List ℕ :=
  (List.range keys.length).filter fun i => keys[i]? = some key

theorem mem_positionsOf {key : PublicKey} {keys : List PublicKey} {i : ℕ} :
    i ∈ positionsOf key keys ↔ keys[i]? = some key := by
  unfold positionsOf
  rw [List.mem_filter, List.mem_range, decide_eq_true_iff]
  constructor
  · exact And.right
  · intro hkey
    exact ⟨(List.getElem?_eq_some_iff.mp hkey).1, hkey⟩

theorem positionsOf_concat (key key' : PublicKey) (keys : List PublicKey) :
    positionsOf key (keys ++ [key'])
      = positionsOf key keys ++ if key' = key then [keys.length] else [] := by
  unfold positionsOf
  rw [List.length_append, List.length_singleton, List.range_succ, List.filter_append]
  congr 1
  · apply List.filter_congr
    intro i hi
    rw [List.getElem?_append_left (List.mem_range.mp hi)]
  · rw [List.filter_singleton, List.getElem?_concat_length]
    simp

theorem positionsOf_eq_nil {key : PublicKey} {keys : List PublicKey} (h : key ∉ keys) :
    positionsOf key keys = [] := by
  rw [List.eq_nil_iff_forall_not_mem]
  intro i hi
  exact h (List.mem_of_getElem? (mem_positionsOf.mp hi))

theorem assign_append {α : Type} (front : List α) (old x : α) (back : List α) :
    assign (front ++ old :: back) front.length x = .ok (front ++ x :: back) := by
  unfold assign
  rw [if_pos (by simp), List.set_append_right _ _ (Nat.le_refl _), Nat.sub_self, List.set_cons_zero]

/-- The first loop behind the keys `done`, with `rest` keys to go. -/
structure GatheredOver (ac : AccountCache Account) (now : Int64) (done : List PublicKey)
    (rest : ℕ) (g : Gathered Account) : Prop where
  value : g.value = done.map (fun key => (ac.serves now key).join) ++ List.replicate rest none
  fetchKeys : g.fetchKeys = ac.missing now done
  positions : ∀ key, g.positions key
    = if key ∈ ac.missing now done then some (positionsOf key done) else none
  serves : ∀ key, g.cache.serves now key = ac.serves now key
  stored : ∀ key, (g.cache.get key).map CacheEntry.stored = (ac.get key).map CacheEntry.stored

section Gather

variable {ac : AccountCache Account} {now : Int64} {done : List PublicKey} {rest : ℕ}
  {g : Gathered Account} {key : PublicKey}

/-- A key that is served. -/
theorem GatheredOver.hit (h : GatheredOver ac now done (rest + 1) g) {data : Option Account}
    (hserves : ac.serves now key = some data) :
    ∃ value, assign g.value done.length data = .ok value
      ∧ GatheredOver ac now (done ++ [key]) rest
        { g with value, hits := g.hits + 1, cache := (g.cache.lookupAt key now).2 } := by
  have hmissing : ac.missing now (done ++ [key]) = ac.missing now done := by
    rw [AccountCache.missing_concat, if_neg]
    simp [hserves]
  refine ⟨done.map (fun key => (ac.serves now key).join) ++ data :: List.replicate rest none,
    ?_, ?_, ?_, ?_, ?_, ?_⟩
  · have hassign := assign_append (done.map fun key => (ac.serves now key).join) none data
      (List.replicate rest none)
    rw [List.length_map] at hassign
    rw [h.value, List.replicate_succ, hassign]
  · rw [List.map_append, List.map_singleton, hserves, List.append_assoc]
    rfl
  · rw [hmissing]
    exact h.fetchKeys
  · intro key'
    rw [hmissing]
    refine (h.positions key').trans ?_
    by_cases hmem : key' ∈ ac.missing now done
    · have hne : key ≠ key' := by
        rintro rfl
        rw [(AccountCache.mem_missing.mp hmem).2] at hserves
        cases hserves
      rw [if_pos hmem, if_pos hmem, positionsOf_concat, if_neg hne, List.append_nil]
    · rw [if_neg hmem, if_neg hmem]
  · intro key'
    exact (g.cache.serves_lookupAt now key key').trans (h.serves key')
  · intro key'
    exact (g.cache.stored_lookupAt now key key').trans (h.stored key')

/-- A key that is missing. -/
theorem GatheredOver.miss (h : GatheredOver ac now done (rest + 1) g)
    (hserves : ac.serves now key = none) :
    GatheredOver ac now (done ++ [key]) rest
      { g with
        fetchKeys := if (g.positions key).isSome then g.fetchKeys else g.fetchKeys ++ [key]
        positions := g.positions.set key ((g.positions key).getD [] ++ [done.length])
        cache := (g.cache.lookupAt key now).2 } := by
  -- The position list of the key, before and after.
  have hold : (g.positions key).getD [] = positionsOf key done := by
    rw [h.positions key]
    by_cases hmem : key ∈ ac.missing now done
    · rw [if_pos hmem]
      rfl
    · rw [if_neg hmem, positionsOf_eq_nil]
      · rfl
      · exact fun hdone => hmem (AccountCache.mem_missing.mpr ⟨hdone, hserves⟩)
  have hkeys : ∀ key', key' ∈ ac.missing now (done ++ [key])
      ↔ key' = key ∨ key' ∈ ac.missing now done := by
    intro key'
    rw [AccountCache.mem_missing, AccountCache.mem_missing, List.mem_append, List.mem_singleton]
    constructor
    · rintro ⟨hdone | rfl, hnone⟩
      · exact Or.inr ⟨hdone, hnone⟩
      · exact Or.inl rfl
    · rintro (rfl | ⟨hdone, hnone⟩)
      · exact ⟨Or.inr rfl, hserves⟩
      · exact ⟨Or.inl hdone, hnone⟩
  refine ⟨?_, ?_, ?_, ?_, ?_⟩
  · rw [List.map_append, List.map_singleton, hserves, List.append_assoc]
    exact h.value
  · dsimp only
    rw [h.positions key, AccountCache.missing_concat, h.fetchKeys]
    by_cases hmem : key ∈ ac.missing now done
    · simp [hmem]
    · simp [hmem, hserves]
  · intro key'
    dsimp only
    rw [hold]
    by_cases hsame : key' = key
    · subst hsame
      rw [Map.set_self, if_pos ((hkeys key').mpr (Or.inl rfl)), positionsOf_concat, if_pos rfl]
    · rw [Map.set_of_ne _ _ hsame, h.positions key', positionsOf_concat, if_neg (Ne.symm hsame),
        List.append_nil]
      by_cases hmem : key' ∈ ac.missing now done
      · rw [if_pos hmem, if_pos ((hkeys key').mpr (Or.inr hmem))]
      · rw [if_neg hmem, if_neg]
        rw [hkeys]
        simp [hsame, hmem]
  · intro key'
    exact (g.cache.serves_lookupAt now key key').trans (h.serves key')
  · intro key'
    exact (g.cache.stored_lookupAt now key key').trans (h.stored key')

/-- **The first loop** ends, and has then gone over all keys. -/
theorem gather_eq (keys : List PublicKey) (h : GatheredOver ac now done keys.length g) :
    ∃ g', gather now done.length keys g = .ok g' ∧ GatheredOver ac now (done ++ keys) 0 g' := by
  induction keys generalizing done g with
  | nil =>
    refine ⟨g, rfl, ?_⟩
    rwa [List.append_nil]
  | cons key keys ih =>
    have hlookup : (g.cache.lookupAt key now).1 = ac.serves now key := h.serves key
    have hlength : done.length + 1 = (done ++ [key]).length := by simp
    unfold gather
    cases hread : g.cache.lookupAt key now with
    | mk served cache =>
    have hcache : cache = (g.cache.lookupAt key now).2 := by rw [hread]
    rw [hread] at hlookup
    cases served with
    | some data =>
      obtain ⟨value, hassign, hnext⟩ := h.hit hlookup.symm
      rw [← hcache] at hnext
      dsimp only
      rw [hassign, hlength]
      have hdone := ih hnext
      rwa [List.append_assoc] at hdone
    | none =>
      have hnext := h.miss hlookup.symm
      rw [← hcache] at hnext
      dsimp only
      rw [hlength]
      have hdone := ih hnext
      rwa [List.append_assoc] at hdone

end Gather

/-! ## The second loop -/

/-- The positions of one key are filled. -/
theorem fillPositions_eq {out : List (Option Account)} (data : Option Account) {idxs : List ℕ}
    (h : ∀ i ∈ idxs, i < out.length) :
    ∃ out', fillPositions out data idxs = .ok out' ∧ out'.length = out.length
      ∧ ∀ i, out'[i]? = if i ∈ idxs then some data else out[i]? := by
  induction idxs generalizing out with
  | nil => exact ⟨out, rfl, rfl, fun i => by simp⟩
  | cons idx idxs ih =>
    have hidx : idx < out.length := h idx List.mem_cons_self
    have hrest : ∀ i ∈ idxs, i < (out.set idx data).length := by
      intro i hi
      rw [List.length_set]
      exact h i (List.mem_cons_of_mem idx hi)
    obtain ⟨out', hfill, hlength, hat⟩ := ih hrest
    refine ⟨out', ?_, ?_, ?_⟩
    · unfold fillPositions assign
      rw [if_pos hidx]
      exact hfill
    · rw [hlength, List.length_set]
    · intro i
      rw [hat, List.getElem?_set]
      by_cases hi : i ∈ idxs
      · rw [if_pos hi, if_pos (List.mem_cons_of_mem idx hi)]
      · rw [if_neg hi]
        by_cases hsame : idx = i
        · subst hsame
          rw [if_pos rfl, if_pos hidx, if_pos List.mem_cons_self]
        · rw [if_neg hsame, if_neg]
          simp [hi, Ne.symm hsame]

section Deliver

variable {ac : AccountCache Account} {now : Int64} {keys : List PublicKey}

/-- The value of a response for a key: the one at the position of the key in the request, and
nil if the response ends before it. -/
def answer (fetchKeys : List PublicKey) (response : List (Option Account)) (key : PublicKey) :
    Option Account :=
  response[fetchKeys.idxOf key]?.join

/-- The second loop behind `i` values of the response. -/
structure DeliveredUpTo (ac : AccountCache Account) (now : Int64) (keys : List PublicKey)
    (response : List (Option Account)) (i : ℕ) (out : List (Option Account)) : Prop where
  length : out.length = keys.length
  at_key : ∀ (p : ℕ) (key : PublicKey), keys[p]? = some key → out[p]?
    = some ((ac.serves now key).getD (answer (ac.missing now keys) (response.take i) key))

/-- Before the loop, what is served is there and the rest is nil. -/
theorem deliveredUpTo_zero (ac : AccountCache Account) (now : Int64) (keys : List PublicKey)
    (response : List (Option Account)) :
    DeliveredUpTo ac now keys response 0 (keys.map fun key => (ac.serves now key).join) := by
  refine ⟨List.length_map _, ?_⟩
  intro p key hkey
  rw [List.getElem?_map, hkey]
  unfold answer
  cases hserves : ac.serves now key with
  | none => simp [hserves]
  | some data => simp [hserves]

/-- The value with the next index goes to the positions of its key. -/
theorem DeliveredUpTo.next {response out out' : List (Option Account)} {i : ℕ} {key : PublicKey}
    {data : Option Account} (h : DeliveredUpTo ac now keys response i out)
    (hkey : (ac.missing now keys)[i]? = some key) (hdata : response[i]? = some data)
    (hlength : out'.length = out.length)
    (hat : ∀ p, out'[p]? = if p ∈ positionsOf key keys then some data else out[p]?) :
    DeliveredUpTo ac now keys response (i + 1) out' := by
  have hnodup := ac.nodup_missing now keys
  obtain ⟨hi, hkeyAt⟩ := List.getElem?_eq_some_iff.mp hkey
  have hindex : (ac.missing now keys).idxOf key = i := by
    rw [← hkeyAt]
    exact hnodup.idxOf_getElem i hi
  refine ⟨hlength.trans h.length, ?_⟩
  intro p key' hp
  rw [hat]
  by_cases hsame : key' = key
  · subst hsame
    have hnone := (AccountCache.mem_missing.mp (List.mem_of_getElem? hkey)).2
    rw [if_pos (mem_positionsOf.mpr hp), hnone]
    unfold answer
    rw [hindex, List.getElem?_take_of_lt (Nat.lt_succ_self i), hdata]
    rfl
  · have hp' : p ∉ positionsOf key keys := by
      rw [mem_positionsOf, hp]
      simpa using hsame
    rw [if_neg hp', h.at_key p key' hp]
    unfold answer
    -- another key has another index
    have hne : (ac.missing now keys).idxOf key' ≠ i := by
      intro heq
      have hlt : (ac.missing now keys).idxOf key' < (ac.missing now keys).length := by omega
      have hgot := List.getElem_idxOf hlt
      simp only [heq, hkeyAt] at hgot
      exact hsame hgot.symm
    rw [List.getElem?_take, List.getElem?_take]
    by_cases hlt : (ac.missing now keys).idxOf key' < i
    · rw [if_pos hlt, if_pos (by omega)]
    · rw [if_neg hlt, if_neg (by omega)]

/-- What the second loop stores from index `i` on: each value of the response that is not nil,
under the key it was asked for with. -/
def storedFrom (i : ℕ) (fetchKeys : List PublicKey) (response : List (Option Account))
    (slot : UInt64) (clock : ℕ → Int64) (before : SingleMap Account) : SingleMap Account :=
  fun key =>
    let j := fetchKeys.idxOf key
    if i ≤ j ∧ j < fetchKeys.length then
      match response[j]? with
      | some (some account) =>
        some (AccountCache.setEntry (cacheStore key (some account) slot) (clock j) (before key))
      | _ => before key
    else before key

theorem storedFrom_of_length_le {i : ℕ} {fetchKeys : List PublicKey}
    {response : List (Option Account)} (h : response.length ≤ i ∨ fetchKeys.length ≤ i)
    (slot : UInt64) (clock : ℕ → Int64) (before : SingleMap Account) :
    storedFrom i fetchKeys response slot clock before = before := by
  funext key
  unfold storedFrom
  dsimp only
  split
  · next hj =>
      rw [List.getElem?_eq_none (by omega)]
  · rfl

/-- One turn of the loop stores one value. -/
theorem storedFrom_succ {i : ℕ} {fetchKeys : List PublicKey} {response : List (Option Account)}
    {key : PublicKey} {data : Option Account} (hnodup : fetchKeys.Nodup)
    (hkey : fetchKeys[i]? = some key) (hdata : response[i]? = some data) (slot : UInt64)
    (clock : ℕ → Int64) (cache : AccountCache Account) :
    storedFrom i fetchKeys response slot clock cache.get
      = storedFrom (i + 1) fetchKeys response slot clock
          (match data with
            | some account => cache.set (cacheStore key (some account) slot) (clock i)
            | none => cache).get := by
  obtain ⟨hi, hkeyAt⟩ := List.getElem?_eq_some_iff.mp hkey
  have hindex : fetchKeys.idxOf key = i := by
    rw [← hkeyAt]
    exact hnodup.idxOf_getElem i hi
  funext key'
  unfold storedFrom
  dsimp only
  by_cases hsame : key' = key
  · subst hsame
    rw [hindex, if_pos ⟨Nat.le_refl i, hi⟩, if_neg (by omega), hdata]
    cases data with
    | none => rfl
    | some account =>
      rw [AccountCache.get_set]
      exact (if_pos rfl).symm
  · have hother : (match data with
        | some account => cache.set (cacheStore key (some account) slot) (clock i)
        | none => cache).get key' = cache.get key' := by
      cases data with
      | none => rfl
      | some account =>
        rw [AccountCache.get_set]
        exact if_neg hsame
    have hne : fetchKeys.idxOf key' ≠ i := by
      intro heq
      have hlt : fetchKeys.idxOf key' < fetchKeys.length := by omega
      have hgot := List.getElem_idxOf hlt
      simp only [heq, hkeyAt] at hgot
      exact hsame hgot.symm
    have hcond : (i ≤ fetchKeys.idxOf key' ∧ fetchKeys.idxOf key' < fetchKeys.length)
        ↔ (i + 1 ≤ fetchKeys.idxOf key' ∧ fetchKeys.idxOf key' < fetchKeys.length) := by
      constructor
      · rintro ⟨hle, hlt⟩
        exact ⟨by omega, hlt⟩
      · rintro ⟨hle, hlt⟩
        exact ⟨by omega, hlt⟩
    rw [hother]
    simp only [hcond]

/-- **The second loop.** It ends if the response has no more values than were asked for, and
stops at the first value behind them otherwise. Either way it has stored each value under its
own key. -/
theorem placeFetched_eq {g : Gathered Account} (hg : GatheredOver ac now keys 0 g)
    {response out : List (Option Account)} {i : ℕ} (hi : i ≤ (ac.missing now keys).length)
    (hout : DeliveredUpTo ac now keys response i out) (slot : UInt64) (clock : ℕ → Int64)
    (cache : AccountCache Account) :
    ∃ cache', (placeFetched g slot clock i (response.drop i) out cache).2 = cache'
      ∧ cache'.get = storedFrom i (ac.missing now keys) response slot clock cache.get
      ∧ if response.length ≤ (ac.missing now keys).length then
          ∃ out', (placeFetched g slot clock i (response.drop i) out cache).1 = .ok out'
            ∧ DeliveredUpTo ac now keys response response.length out'
        else (placeFetched g slot clock i (response.drop i) out cache).1 = .error .outOfRange := by
  induction hrest : response.drop i generalizing i out cache with
  | nil =>
    have hend : response.length ≤ i := List.drop_eq_nil_iff.mp hrest
    refine ⟨cache, rfl, (storedFrom_of_length_le (Or.inl hend) slot clock _).symm, ?_⟩
    rw [if_pos (by omega)]
    refine ⟨out, rfl, hout.length, ?_⟩
    intro p key hkey
    rw [hout.at_key p key hkey, List.take_of_length_le hend, List.take_length]
  | cons data rest ih =>
    have hdata : response[i]? = some data := by
      rw [← List.head?_drop, hrest]
      rfl
    have htail : response.drop (i + 1) = rest := by
      rw [← List.tail_drop, hrest]
      rfl
    unfold placeFetched
    rw [hg.fetchKeys]
    cases hkey : (ac.missing now keys)[i]? with
    | none =>
      have hend : (ac.missing now keys).length ≤ i := List.getElem?_eq_none_iff.mp hkey
      have hlt := (List.getElem?_eq_some_iff.mp hdata).1
      refine ⟨cache, rfl, (storedFrom_of_length_le (Or.inr hend) slot clock _).symm, ?_⟩
      rw [if_neg (by omega)]
    | some key =>
      have hmem := List.mem_of_getElem? hkey
      have hpositions : (g.positions key).getD [] = positionsOf key keys := by
        rw [hg.positions key, if_pos hmem]
        rfl
      have hbounds : ∀ p ∈ positionsOf key keys, p < out.length := by
        intro p hp
        rw [hout.length]
        exact (List.getElem?_eq_some_iff.mp (mem_positionsOf.mp hp)).1
      obtain ⟨out', hfill, hlength, hat⟩ := fillPositions_eq data hbounds
      dsimp only
      rw [hpositions, hfill, storedFrom_succ (ac.nodup_missing now keys) hkey hdata]
      have hi' := (List.getElem?_eq_some_iff.mp hkey).1
      exact ih hi' (hout.next hkey hdata hlength hat) _ htail

end Deliver

/-! ## The whole call -/

section Whole

variable (accounts : List PublicKey) (ac : AccountCache Account) (now : Int64)

theorem exists_gathered :
    ∃ g, gather now 0 accounts { value := List.replicate accounts.length none, cache := ac } = .ok g
      ∧ GatheredOver ac now accounts 0 g := by
  have hstart : GatheredOver ac now [] accounts.length
      { value := List.replicate accounts.length none, cache := ac } :=
    ⟨rfl, rfl, fun _ => rfl, fun _ => rfl, fun _ => rfl⟩
  exact gather_eq accounts hstart

theorem DeliveredUpTo.eq_map {response out : List (Option Account)}
    (h : DeliveredUpTo ac now accounts response response.length out) :
    out = accounts.map fun key =>
      (ac.serves now key).getD (answer (ac.missing now accounts) response key) := by
  apply List.ext_getElem?
  intro p
  rw [List.getElem?_map]
  cases hkey : accounts[p]? with
  | none =>
    have hend : accounts.length ≤ p := List.getElem?_eq_none_iff.mp hkey
    exact List.getElem?_eq_none (by rw [h.length]; exact hend)
  | some key =>
    rw [h.at_key p key hkey, List.take_length]
    rfl

/-- The value that each key gets from the call. -/
def delivered (response : List (Option Account)) : List (Option Account) :=
  accounts.map fun key =>
    (ac.serves now key).getD (answer (ac.missing now accounts) response key)

/-- What a call does for each answer of the server. -/
structure CallSpec (clock : ℕ → Int64)
    (fetch : List PublicKey → Except Err (GetMultipleAccountsResult Account))
    (call : Call Account) : Prop where
  requests : call.requests.flatten = ac.missing now accounts
  one_request : call.requests.length ≤ 1
  served : ac.missing now accounts = [] →
    call.result = .ok (.ok { value := delivered accounts ac now [] })
  failed : ac.missing now accounts ≠ [] → ∀ err, fetch (ac.missing now accounts) = .error err →
    call.result = .ok (.error err)
  fetched : ac.missing now accounts ≠ [] → ∀ response,
    fetch (ac.missing now accounts) = .ok response →
    call.result = if response.value.length ≤ (ac.missing now accounts).length then
        .ok (.ok { context := response.context
                   value := delivered accounts ac now response.value })
      else .error .outOfRange
  stored : ∃ before : SingleMap Account,
    (∀ key, (before key).map CacheEntry.stored = (ac.get key).map CacheEntry.stored)
    ∧ call.cache.get = match fetch (ac.missing now accounts) with
        | .error _ => before
        | .ok response => storedFrom 0 (ac.missing now accounts) response.value
            response.context.slot clock before

/-- **`cachedGetMultipleAccounts`.** -/
theorem callSpec (clock : ℕ → Int64)
    (fetch : List PublicKey → Except Err (GetMultipleAccountsResult Account)) :
    CallSpec accounts ac now clock fetch
      (cachedGetMultipleAccounts accounts ac now clock fetch) := by
  obtain ⟨g, hgather, hg⟩ := exists_gathered accounts ac now
  have hvalue : g.value = accounts.map fun key => (ac.serves now key).join := by
    rw [hg.value]
    simp
  unfold cachedGetMultipleAccounts
  rw [hgather]
  dsimp only
  by_cases hnone : ac.missing now accounts = []
  · -- nothing is missing
    have hstored : ∀ response slot (before : SingleMap Account),
        storedFrom 0 (ac.missing now accounts) response slot clock before = before := by
      intro response slot before
      exact storedFrom_of_length_le (Or.inr (by rw [hnone]; exact Nat.le_refl 0)) slot clock before
    have hanswer := (deliveredUpTo_zero ac now accounts []).eq_map
    rw [if_pos (by rw [hg.fetchKeys, hnone]; rfl)]
    refine ⟨hnone.symm, Nat.zero_le 1, ?_, fun hne => absurd hnone hne,
      fun hne => absurd hnone hne, g.cache.get, hg.stored, ?_⟩
    · intro _
      rw [hvalue]
      unfold delivered
      rw [← hanswer]
    · cases fetch (ac.missing now accounts) with
      | error err => rfl
      | ok response => exact (hstored _ _ _).symm
  · rw [if_neg (by rw [hg.fetchKeys, List.length_eq_zero_iff]; exact hnone), hg.fetchKeys]
    cases hfetch : fetch (ac.missing now accounts) with
    | error err =>
      refine ⟨List.append_nil _, Nat.le_refl 1, fun h => absurd h hnone, ?_, ?_, g.cache.get,
        hg.stored, by rw [hfetch]; rfl⟩
      · intro _ err' herr
        rw [hfetch] at herr
        rw [Except.error.inj herr]
      · intro _ response hresponse
        rw [hfetch] at hresponse
        cases hresponse
    | ok response =>
      have hstart := deliveredUpTo_zero ac now accounts response.value
      rw [← hvalue] at hstart
      have hplace := fun cache =>
        placeFetched_eq hg (Nat.zero_le _) hstart response.context.slot clock cache
      simp only [List.drop_zero] at hplace
      obtain ⟨cache, hcache, hstored, hresult⟩ := hplace g.counted
      dsimp only
      generalize placeFetched g response.context.slot clock 0 response.value g.value g.counted
        = loop at hcache hresult ⊢
      obtain ⟨result, cache'⟩ := loop
      obtain rfl : cache' = cache := hcache
      -- the loop fails at the first account behind those that were asked for
      by_cases hshort : response.value.length ≤ (ac.missing now accounts).length
      · rw [if_pos hshort] at hresult
        obtain ⟨out, hout, hdelivered⟩ := hresult
        obtain rfl : result = .ok out := hout
        refine ⟨List.append_nil _, Nat.le_refl 1, fun h => absurd h hnone, ?_, ?_, g.cache.get,
          hg.stored, by rw [hfetch]; exact hstored⟩
        · intro _ err herr
          rw [hfetch] at herr
          cases herr
        · intro _ response' hresponse
          rw [hfetch] at hresponse
          obtain rfl := Except.ok.inj hresponse
          rw [if_pos hshort, hdelivered.eq_map]
          rfl
      · rw [if_neg hshort] at hresult
        obtain rfl : result = .error .outOfRange := hresult
        refine ⟨List.append_nil _, Nat.le_refl 1, fun h => absurd h hnone, ?_, ?_, g.cache.get,
          hg.stored, by rw [hfetch]; exact hstored⟩
        · intro _ err herr
          rw [hfetch] at herr
          cases herr
        · intro _ response' hresponse
          rw [hfetch] at hresponse
          obtain rfl := Except.ok.inj hresponse
          rw [if_neg hshort]

/-- **One value for each key.** If the server answers each request with the accounts of the
keys in order, the call returns for each key what the cache serves, or else its account. Each
key that the cache does not serve is requested once, and no other key is. -/
theorem cachedGetMultipleAccounts_values (clock : ℕ → Int64)
    (account : PublicKey → Option Account) (context : List PublicKey → Context) :
    let call := cachedGetMultipleAccounts accounts ac now clock fun keys =>
      .ok { context := context keys, value := keys.map account }
    (∃ context, call.result = .ok (.ok
      { context, value := accounts.map fun key => (ac.serves now key).getD (account key) }))
    ∧ call.requests.length ≤ 1 ∧ call.requests.flatten.Nodup
    ∧ ∀ key, key ∈ call.requests.flatten ↔ key ∈ accounts ∧ ac.serves now key = none := by
  intro call
  have hspec := callSpec accounts ac now clock fun keys =>
    .ok { context := context keys, value := keys.map account }
  -- The answer for a missing key is its account.
  have hvalues : delivered accounts ac now ((ac.missing now accounts).map account)
      = accounts.map fun key => (ac.serves now key).getD (account key) := by
    unfold delivered
    apply List.map_congr_left
    intro key hkey
    cases hserves : ac.serves now key with
    | some data => rfl
    | none =>
      have hmem := AccountCache.mem_missing.mpr ⟨hkey, hserves⟩
      have hlt := List.idxOf_lt_length_of_mem hmem
      unfold answer
      rw [List.getElem?_map, List.getElem?_eq_getElem hlt, List.getElem_idxOf hlt]
      rfl
  refine ⟨?_, hspec.one_request, ?_, ?_⟩
  · by_cases hnone : ac.missing now accounts = []
    · refine ⟨{}, ?_⟩
      rw [hspec.served hnone, ← hvalues, hnone]
      rfl
    · refine ⟨context (ac.missing now accounts), ?_⟩
      rw [hspec.fetched hnone _ rfl, if_pos (by rw [List.length_map]), hvalues]
  · rw [hspec.requests]
    exact ac.nodup_missing now accounts
  · intro key
    rw [hspec.requests]
    exact AccountCache.mem_missing

/-- **Responses of any length.** The call indexes out of range exactly if something is missing
and the response has more values than were asked for. In any case an account is stored under
the key it was requested with only, and the other entries are as they were. -/
theorem cachedGetMultipleAccounts_inRange_iff (clock : ℕ → Int64)
    (fetch : List PublicKey → Except Err (GetMultipleAccountsResult Account)) :
    let call := cachedGetMultipleAccounts accounts ac now clock fetch
    let asked := ac.missing now accounts
    ((∃ returned, call.result = .ok returned)
      ↔ asked = [] ∨ ∀ response, fetch asked = .ok response → response.value.length ≤ asked.length)
    ∧ ∀ key, (call.cache.get key).map CacheEntry.stored = (ac.get key).map CacheEntry.stored
      ∨ ∃ i response account before, asked[i]? = some key ∧ fetch asked = .ok response
        ∧ response.value[i]? = some (some account)
        ∧ before.map CacheEntry.stored = (ac.get key).map CacheEntry.stored
        ∧ call.cache.get key = some (AccountCache.setEntry
            (cacheStore key (some account) response.context.slot) (clock i) before) := by
  intro call asked
  have hspec : CallSpec accounts ac now clock fetch call := callSpec accounts ac now clock fetch
  constructor
  · by_cases hnone : asked = []
    · exact iff_of_true ⟨_, hspec.served hnone⟩ (Or.inl hnone)
    cases hfetch : fetch asked with
    | error err =>
      refine iff_of_true ⟨_, hspec.failed hnone err hfetch⟩ (Or.inr ?_)
      intro response hresponse
      cases hresponse
    | ok response =>
      rw [hspec.fetched hnone response hfetch]
      by_cases hshort : response.value.length ≤ asked.length
      · rw [if_pos hshort]
        refine iff_of_true ⟨_, rfl⟩ (Or.inr ?_)
        intro response' hresponse
        obtain rfl := Except.ok.inj hresponse
        exact hshort
      · rw [if_neg hshort]
        refine iff_of_false ?_ ?_
        · rintro ⟨returned, hreturned⟩
          cases hreturned
        · rintro (hempty | hall)
          · exact hnone hempty
          · exact hshort (hall response rfl)
  · intro key
    obtain ⟨before, hbefore, hcache⟩ := hspec.stored
    rw [hcache]
    cases hfetch : fetch (ac.missing now accounts) with
    | error err => exact Or.inl (hbefore key)
    | ok response =>
      dsimp only
      unfold storedFrom
      dsimp only
      split
      · next hindex =>
          split
          · next account haccount =>
              refine Or.inr ⟨_, response, account, before key, ?_, rfl, haccount, hbefore key,
                rfl⟩
              rw [List.getElem?_eq_getElem hindex.2, List.getElem_idxOf hindex.2]
          · exact Or.inl (hbefore key)
      · exact Or.inl (hbefore key)

end Whole

/-- Two values for one key: the second has no key to be stored under. -/
theorem cachedGetMultipleAccounts_long_response :
    ∃ ac, newAccountCache ℕ { shards := 1 } = some ac
      ∧ (cachedGetMultipleAccounts [Codec.ByteArr.zero 32] ac 0 (fun _ => 0)
          fun _ => .ok { value := [some 1, some 2] }).result = .error .outOfRange :=
  ⟨_, rfl, rfl⟩

end SolanaGo.Rpc
