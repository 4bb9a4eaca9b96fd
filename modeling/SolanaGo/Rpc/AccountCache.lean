/-
The account cache of the RPC client: the model.

The cache is a table of entries in shards, picked by the last eight bytes of the key.
An entry carries the slot of its data; a write at an older slot leaves the data alone.
Its two flags, set by a stream or for data that never changes, are only ever added to,
and an entry with a flag is served without regard to its age. `tidy` removes entries
that were not read for a while.

Beside the entries the cache holds the head of the chain, for each commitment level the
slot, the block height and the latest blockhash, each with the time it was stored.

Times are nanoseconds as the clock returns them; the clock is read by the caller of an
operation here, so that an operation is a function. What is left out is `len` and the
janitor's ticker, which is nothing but calls of `tidy`.
-/
import SolanaGo.Lib.LatestWins
import SolanaGo.Lib.Sharded
import SolanaGo.Message
import Mathlib.Data.Int.Order.Basic

set_option autoImplicit false

namespace SolanaGo.Rpc

open Codec (Bytes ByteArr)
open Keyed (Map)

/-! ## Options -/

/-- `time.Millisecond`. -/
def millisecond : Int64 := 1000000

/-- `time.Second`. -/
def second : Int64 := 1000 * millisecond

/-- `time.Hour`. -/
def hour : Int64 := 3600 * second

def defaultCacheFreshFor : Int64 := 800 * millisecond
def defaultCacheTTL : Int64 := hour
def defaultCacheShards : Int64 := 256
def defaultCacheHeadFreshFor : Int64 := 2 * second

/-- `type CacheOptions struct`. -/
structure CacheOptions where
  freshFor : Int64 := 0
  ttl : Int64 := 0
  shards : Int64 := 0
  headFreshFor : Int64 := 0

/-- An option that is set replaces the default. -/
def orDefault (value default : Int64) : Int64 := if 0 < value then value else default

/-- `for n < shards { n <<= 1 }`. A 64-bit integer has doubled itself to zero before the
turns run out, and then the loop does not end. -/
def roundUp : ℕ → Int64 → Int64 → Option Int64
  | 0, _, _ => none
  | turns + 1, shards, n => if n < shards then roundUp turns shards (n <<< 1) else some n

/-! ## Entries -/

variable {Account : Type}

/-- `type cacheEntry struct`. An account is a pointer, which may be nil. -/
structure CacheEntry (Account : Type) where
  data : Option Account
  slot : UInt64
  streamed : Bool
  immutable : Bool
  cachedAt : Int64
  lastRead : Int64

/-- `fresh`. -/
def CacheEntry.fresh (e : CacheEntry Account) (now freshFor : Int64) : Bool :=
  e.streamed || e.immutable || decide (now - e.cachedAt < freshFor)

/-- What is written: the arguments of `set`. -/
structure AccountWrite (Account : Type) where
  key : PublicKey
  data : Option Account
  slot : UInt64
  streamed : Bool
  immutable : Bool

/-- `CacheStore`. -/
def cacheStore (key : PublicKey) (data : Option Account) (slot : UInt64) : AccountWrite Account :=
  { key, data, slot, streamed := false, immutable := false }

/-- `CacheStoreStreamed`. -/
def cacheStoreStreamed (key : PublicKey) (data : Option Account) (slot : UInt64) :
    AccountWrite Account :=
  { key, data, slot, streamed := true, immutable := false }

/-! ## The head of the chain -/

/-- `type headState struct`. -/
structure HeadState where
  slot : UInt64 := 0
  slotAt : Int64 := 0
  blockHeight : UInt64 := 0
  blockHeightAt : Int64 := 0
  blockhash : Hash := ByteArr.zero 32
  lastValidBlockHeight : UInt64 := 0
  blockhashSlot : UInt64 := 0
  blockhashAt : Int64 := 0

/-! ## The cache -/

/-- `type accountCache struct`. There is a shard for each value under the mask. -/
structure AccountCache (Account : Type) where
  mask : UInt64
  shards : Sharded.Table PublicKey (CacheEntry Account) (mask.toNat + 1)
  freshFor : Int64
  headFreshFor : Int64
  ttl : Int64
  head : Vector HeadState 3 := Vector.replicate 3 {}
  hits : UInt64 := 0
  misses : UInt64 := 0

/-- `newAccountCache`. -/
def newAccountCache (Account : Type) (opts : CacheOptions) : Option (AccountCache Account) :=
  (roundUp 64 (orDefault opts.shards defaultCacheShards) 1).map fun n =>
    let mask := (n - 1).toUInt64
    { mask
      -- `make([]cacheShard, n)`: there are `mask + 1` of them
      shards := Sharded.empty PublicKey (CacheEntry Account) (mask.toNat + 1)
      freshFor := orDefault opts.freshFor defaultCacheFreshFor
      headFreshFor := orDefault opts.headFreshFor defaultCacheHeadFreshFor
      ttl := orDefault opts.ttl defaultCacheTTL }

/-- The last eight bytes of a key, the first of them the lowest. -/
def keyTail (key : PublicKey) : UInt64 :=
  let byte := fun i => (key.toList.getD i 0).toUInt64
  byte 24 ||| byte 25 <<< 8 ||| byte 26 <<< 16 ||| byte 27 <<< 24 ||| byte 28 <<< 32
    ||| byte 29 <<< 40 ||| byte 30 <<< 48 ||| byte 31 <<< 56

namespace AccountCache

variable (ac : AccountCache Account)

/-- `shard`: the index, which is below the number of shards. -/
def shard (key : PublicKey) : Fin (ac.mask.toNat + 1) :=
  ⟨(keyTail key &&& ac.mask).toNat, by
    rw [UInt64.toNat_and]
    exact Nat.lt_succ_of_le Nat.and_le_right⟩

/-- `get`. -/
def get (key : PublicKey) : Option (CacheEntry Account) :=
  Sharded.get ac.shard ac.shards key

/-- `lookupAt`: the account, if it is served, and the read clock. -/
def lookupAt (key : PublicKey) (now : Int64) : Option (Option Account) × AccountCache Account :=
  match ac.get key with
  | none => (none, ac)
  | some e =>
    if e.fresh now ac.freshFor then
      (some e.data, { ac with
        shards := Sharded.alter ac.shard ac.shards key fun _ => some { e with lastRead := now } })
    else (none, ac)

/-- `lookup`. -/
def lookup (key : PublicKey) (now : Int64) : Option (Option Account) × AccountCache Account :=
  match ac.lookupAt key now with
  | (some data, ac) => (some data, { ac with hits := ac.hits + 1 })
  | (none, ac) => (none, { ac with misses := ac.misses + 1 })

/-- `set`: what becomes of the entry of the key. -/
def setEntry (write : AccountWrite Account) (now : Int64) : Option (CacheEntry Account) →
    CacheEntry Account
  | none =>
    { data := write.data, slot := write.slot, streamed := write.streamed
      immutable := write.immutable, cachedAt := now, lastRead := now }
  | some prev =>
    let prev := { prev with
      streamed := prev.streamed || write.streamed
      immutable := prev.immutable || write.immutable }
    let prev := if write.slot ≥ prev.slot then { prev with data := write.data, slot := write.slot }
      else prev
    { prev with cachedAt := now }

/-- `set`. -/
def set (write : AccountWrite Account) (now : Int64) : AccountCache Account :=
  { ac with
    shards := Sharded.alter ac.shard ac.shards write.key fun prev => some (setEntry write now prev) }

/-- `del`. -/
def del (key : PublicKey) : AccountCache Account :=
  { ac with shards := Sharded.alter ac.shard ac.shards key fun _ => none }

/-- `tidy`. -/
def tidy (ttl now : Int64) : AccountCache Account :=
  if ttl ≤ 0 then ac
  else
    let cutoff := now - ttl
    { ac with shards := Sharded.filterAll ac.shards fun e => !decide (e.lastRead < cutoff) }

/-- `CacheTidy`. -/
def cacheTidy (ttl now : Int64) : AccountCache Account :=
  ac.tidy (if ttl ≤ 0 then ac.ttl else ttl) now

end AccountCache

/-! ## Sequences of operations -/

/-- An operation on the accounts, with the time of the clock. -/
inductive CacheEvent (Account : Type) where
  | store (write : AccountWrite Account) (now : Int64)
  /-- `CacheClear` -/
  | clear (key : PublicKey)
  | tidy (ttl now : Int64)
  | lookup (key : PublicKey) (now : Int64)

namespace AccountCache

/-- **One operation.** -/
def step (ac : AccountCache Account) : CacheEvent Account → AccountCache Account
  | .store write now => ac.set write now
  | .clear key => ac.del key
  | .tidy ttl now => ac.cacheTidy ttl now
  | .lookup key now => (ac.lookup key now).2

/-- A sequence of operations. -/
def run (ac : AccountCache Account) (events : List (CacheEvent Account)) : AccountCache Account :=
  events.foldl step ac

end AccountCache

end SolanaGo.Rpc
