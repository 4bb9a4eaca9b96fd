/-
The head of the chain in the cache.

For each commitment level the cache holds a slot, a block height and a blockhash with
its last valid height and its slot. They are three registers in which the latest
version wins, written by three functions of the same shape, and each carries the time
it was last written. A lookup serves a register that was written within the freshness
window. The client methods look up, and on a miss store what the node returns; since
other goroutines may work in between, a lookup and a store are separate events here.

Everything is said once for all registers (`register_storeHead`): a store changes the
register of its own level and kind, and only if its version is not below the one held.
So a register holds the last store it accepted (`lastAccepted`), and what is served is
that store, whole and fresh.
-/
import SolanaGo.Rpc.AccountCache

set_option autoImplicit false

namespace SolanaGo.Rpc

variable {Account : Type}

/-! ## Commitment levels -/

/-- `type CommitmentType string`. -/
inductive CommitmentType where
  | processed
  | confirmed
  | finalized
  /-- the empty string -/
  | unset
  /-- any other string -/
  | other (name : String)
  deriving DecidableEq

/-- `cacheIndex`: the place of the level, if it is one. -/
def CommitmentType.cacheIndex : CommitmentType → Option (Fin 3)
  | .processed => some 0
  | .confirmed => some 1
  | .finalized => some 2
  | .unset => some 2
  | .other _ => none

/-! ## Stores and lookups -/

/-- `type GetLatestBlockhashResult struct`, as the cache fills it. -/
structure LatestBlockhash where
  blockhash : Hash
  lastValidBlockHeight : UInt64
  slot : UInt64
  deriving DecidableEq

/-- The blockhash of a level, with what belongs to it. -/
def HeadState.latest (head : HeadState) : LatestBlockhash :=
  ⟨head.blockhash, head.lastValidBlockHeight, head.blockhashSlot⟩

namespace AccountCache

variable (ac : AccountCache Account) (commitment : CommitmentType)

/-- The part the three stores share: a change of the state of the level, under the
lock. -/
def modifyHead (change : HeadState → HeadState) : AccountCache Account :=
  match commitment.cacheIndex with
  | none => ac
  | some idx => { ac with head := ac.head.set idx (change ac.head[idx]) }

/-- `storeSlot`. -/
def storeSlot (slot : UInt64) (now : Int64) : AccountCache Account :=
  ac.modifyHead commitment fun head =>
    if slot ≥ head.slot then { head with slot, slotAt := now } else head

/-- `storeBlockHeight`. -/
def storeBlockHeight (height : UInt64) (now : Int64) : AccountCache Account :=
  ac.modifyHead commitment fun head =>
    if height ≥ head.blockHeight then { head with blockHeight := height, blockHeightAt := now }
    else head

/-- `storeBlockhash`. -/
def storeBlockhash (hash : Hash) (lastValidBlockHeight slot : UInt64) (now : Int64) :
    AccountCache Account :=
  ac.modifyHead commitment fun head =>
    if slot ≥ head.blockhashSlot then
      { head with blockhash := hash, lastValidBlockHeight, blockhashSlot := slot
                  blockhashAt := now }
    else head

/-- The part the three lookups share: what is read of the state of the level is served if
it was written, and not before the cutoff. -/
def lookupHead {α : Type} (now : Int64) (read : HeadState → α) (readAt : HeadState → Int64) :
    Option α × AccountCache Account :=
  match commitment.cacheIndex with
  | none => (none, ac)
  | some idx =>
    let cutoff := now - ac.headFreshFor
    let head := ac.head[idx]
    if readAt head = 0 ∨ readAt head < cutoff then (none, { ac with misses := ac.misses + 1 })
    else (some (read head), { ac with hits := ac.hits + 1 })

/-- `lookupSlot`. -/
def lookupSlot (now : Int64) : Option UInt64 × AccountCache Account :=
  ac.lookupHead commitment now (·.slot) (·.slotAt)

/-- `lookupBlockHeight`. -/
def lookupBlockHeight (now : Int64) : Option UInt64 × AccountCache Account :=
  ac.lookupHead commitment now (·.blockHeight) (·.blockHeightAt)

/-- `lookupBlockhash`. -/
def lookupBlockhash (now : Int64) : Option LatestBlockhash × AccountCache Account :=
  ac.lookupHead commitment now (·.latest) (·.blockhashAt)

end AccountCache

/-! ## The registers -/

/-- The three registers of a level. -/
inductive HeadField where
  | slot
  | blockHeight
  | blockhash
  deriving DecidableEq

/-- What a register holds, a store brings and a lookup serves. -/
inductive HeadValue where
  | slot (slot : UInt64)
  | blockHeight (height : UInt64)
  | blockhash (latest : LatestBlockhash)
  deriving DecidableEq

namespace HeadValue

/-- The register the value is for. -/
def field : HeadValue → HeadField
  | .slot _ => .slot
  | .blockHeight _ => .blockHeight
  | .blockhash _ => .blockhash

/-- What orders the values of a register. -/
def version : HeadValue → UInt64
  | .slot n => n
  | .blockHeight height => height
  | .blockhash latest => latest.slot

end HeadValue

/-- The value and the time of a register. -/
def HeadState.register (head : HeadState) (field : HeadField) : HeadValue × Int64 :=
  match field with
  | .slot => (.slot head.slot, head.slotAt)
  | .blockHeight => (.blockHeight head.blockHeight, head.blockHeightAt)
  | .blockhash => (.blockhash head.latest, head.blockhashAt)

namespace AccountCache

/-- The store for a value. -/
def storeHead (ac : AccountCache Account) (commitment : CommitmentType) (value : HeadValue)
    (now : Int64) : AccountCache Account :=
  match value with
  | .slot slot => ac.storeSlot commitment slot now
  | .blockHeight height => ac.storeBlockHeight commitment height now
  | .blockhash latest =>
    ac.storeBlockhash commitment latest.blockhash latest.lastValidBlockHeight latest.slot now

/-- The lookup for a register. -/
def serveHead (ac : AccountCache Account) (commitment : CommitmentType) (field : HeadField)
    (now : Int64) : Option HeadValue × AccountCache Account :=
  match field with
  | .slot => (ac.lookupSlot commitment now).map (Option.map .slot) id
  | .blockHeight => (ac.lookupBlockHeight commitment now).map (Option.map .blockHeight) id
  | .blockhash => (ac.lookupBlockhash commitment now).map (Option.map .blockhash) id

end AccountCache

/-- An event at the head, with the time of the clock. -/
inductive HeadEvent where
  | store (commitment : CommitmentType) (value : HeadValue) (now : Int64)
  | lookup (commitment : CommitmentType) (field : HeadField) (now : Int64)

namespace AccountCache

/-- **One event.** -/
def headStep (ac : AccountCache Account) : HeadEvent → AccountCache Account
  | .store commitment value now => ac.storeHead commitment value now
  | .lookup commitment field now => (ac.serveHead commitment field now).2

/-- A sequence of events. -/
def headRun (ac : AccountCache Account) (events : List HeadEvent) : AccountCache Account :=
  events.foldl headStep ac

end AccountCache

/-! ## What an event does -/

/-- The state of a level after a store. -/
def HeadState.accept (head : HeadState) (value : HeadValue) (now : Int64) : HeadState :=
  match value with
  | .slot slot => if slot ≥ head.slot then { head with slot, slotAt := now } else head
  | .blockHeight height =>
    if height ≥ head.blockHeight then { head with blockHeight := height, blockHeightAt := now }
    else head
  | .blockhash latest =>
    if latest.slot ≥ head.blockhashSlot then
      { head with blockhash := latest.blockhash
                  lastValidBlockHeight := latest.lastValidBlockHeight
                  blockhashSlot := latest.slot
                  blockhashAt := now }
    else head

/-- The other registers are as they were. -/
theorem register_accept_ne (head : HeadState) {value : HeadValue} {field : HeadField}
    (h : value.field ≠ field) (now : Int64) :
    (head.accept value now).register field = head.register field := by
  unfold HeadState.accept
  cases value with
  | slot n =>
    dsimp only
    split
    · cases field with
      | slot => exact absurd rfl h
      | blockHeight => rfl
      | blockhash => rfl
    · rfl
  | blockHeight height =>
    dsimp only
    split
    · cases field with
      | slot => rfl
      | blockHeight => exact absurd rfl h
      | blockhash => rfl
    · rfl
  | blockhash latest =>
    dsimp only
    split
    · cases field with
      | slot => rfl
      | blockHeight => rfl
      | blockhash => exact absurd rfl h
    · rfl

/-- The register of the value takes it, unless its version is below the one held. -/
theorem register_accept_self (head : HeadState) (value : HeadValue) (now : Int64) :
    (head.accept value now).register value.field
      = if (head.register value.field).1.version ≤ value.version then (value, now)
        else head.register value.field := by
  unfold HeadState.accept
  cases value with
  | slot n =>
    dsimp only
    split
    · next hle => exact (if_pos hle).symm
    · next hle => exact (if_neg hle).symm
  | blockHeight height =>
    dsimp only
    split
    · next hle => exact (if_pos hle).symm
    · next hle => exact (if_neg hle).symm
  | blockhash latest =>
    dsimp only
    split
    · next hle => exact (if_pos hle).symm
    · next hle => exact (if_neg hle).symm

namespace AccountCache

variable (ac : AccountCache Account) (commitment : CommitmentType)

theorem storeHead_eq (value : HeadValue) (now : Int64) :
    ac.storeHead commitment value now = ac.modifyHead commitment (·.accept value now) := by
  cases value with
  | slot slot => rfl
  | blockHeight height => rfl
  | blockhash latest => rfl

/-- Only the state of the level changes. -/
theorem head_modifyHead (change : HeadState → HeadState) (idx : Fin 3) :
    (ac.modifyHead commitment change).head[idx]
      = if commitment.cacheIndex = some idx then change ac.head[idx] else ac.head[idx] := by
  unfold modifyHead
  cases commitment.cacheIndex with
  | none => rfl
  | some idx' =>
    dsimp only
    rw [Fin.getElem_fin, Vector.getElem_set]
    by_cases hidx : idx' = idx
    · subst hidx
      rw [if_pos rfl, if_pos rfl]
    · rw [if_neg fun heq => hidx (Fin.ext heq),
        if_neg fun heq => hidx (Option.some.inj heq)]
      rfl

/-- The value of a register, with the time of its last store. -/
def register (idx : Fin 3) (field : HeadField) : HeadValue × Int64 :=
  ac.head[idx].register field

/-- The register takes the store of an event. -/
def Accepts (idx : Fin 3) (field : HeadField) (commitment : CommitmentType) (value : HeadValue) :
    Prop :=
  commitment.cacheIndex = some idx ∧ value.field = field
    ∧ (ac.register idx field).1.version ≤ value.version

instance (ac : AccountCache Account) (idx : Fin 3) (field : HeadField)
    (commitment : CommitmentType) (value : HeadValue) :
    Decidable (ac.Accepts idx field commitment value) :=
  inferInstanceAs (Decidable (_ ∧ _ ∧ _))

/-- **What a store does to the registers.** -/
theorem register_storeHead (value : HeadValue) (now : Int64) (idx : Fin 3) (field : HeadField) :
    (ac.storeHead commitment value now).register idx field
      = if ac.Accepts idx field commitment value then (value, now) else ac.register idx field := by
  unfold register
  rw [storeHead_eq, head_modifyHead]
  by_cases hidx : commitment.cacheIndex = some idx
  · rw [if_pos hidx]
    by_cases hfield : value.field = field
    · subst hfield
      rw [register_accept_self]
      by_cases hle : (ac.head[idx].register value.field).1.version ≤ value.version
      · have haccepts : ac.Accepts idx value.field commitment value := ⟨hidx, rfl, hle⟩
        rw [if_pos hle, if_pos haccepts]
      · have hrefuses : ¬ac.Accepts idx value.field commitment value := fun h => hle h.2.2
        rw [if_neg hle, if_neg hrefuses]
    · have hrefuses : ¬ac.Accepts idx field commitment value := fun h => hfield h.2.1
      rw [register_accept_ne _ hfield, if_neg hrefuses]
  · have hrefuses : ¬ac.Accepts idx field commitment value := fun h => hidx h.1
    rw [if_neg hidx, if_neg hrefuses]

/-- What a lookup serves. -/
def served (field : HeadField) (now : Int64) :
    Option HeadValue := (ac.serveHead commitment field now).1

theorem lookupHead_map {α β : Type} (now : Int64) (read : HeadState → α)
    (readAt : HeadState → Int64) (f : α → β) :
    (ac.lookupHead commitment now read readAt).1.map f = commitment.cacheIndex.bind fun idx =>
      if readAt ac.head[idx] = 0 ∨ readAt ac.head[idx] < now - ac.headFreshFor then none
      else some (f (read ac.head[idx])) := by
  unfold lookupHead
  cases commitment.cacheIndex with
  | none => rfl
  | some idx =>
    rw [Option.bind_some]
    dsimp only
    by_cases hstale : readAt ac.head[idx] = 0 ∨ readAt ac.head[idx] < now - ac.headFreshFor
    · rw [if_pos hstale, if_pos hstale]
      rfl
    · rw [if_neg hstale, if_neg hstale]
      rfl

/-- **What a lookup serves**: the register, if it was written and not before the cutoff. -/
theorem served_eq (field : HeadField) (now : Int64) :
    ac.served commitment field now = commitment.cacheIndex.bind fun idx =>
      if (ac.register idx field).2 = 0 ∨ (ac.register idx field).2 < now - ac.headFreshFor then none
      else some (ac.register idx field).1 := by
  cases field with
  | slot => exact ac.lookupHead_map commitment now _ _ HeadValue.slot
  | blockHeight => exact ac.lookupHead_map commitment now _ _ HeadValue.blockHeight
  | blockhash => exact ac.lookupHead_map commitment now _ _ HeadValue.blockhash

/-- A lookup counts, and changes nothing else. -/
theorem serveHead_snd (field : HeadField) (now : Int64) :
    (ac.serveHead commitment field now).2.head = ac.head
      ∧ (ac.serveHead commitment field now).2.headFreshFor = ac.headFreshFor := by
  have hlookup : ∀ {α : Type} (read : HeadState → α) (readAt : HeadState → Int64),
      (ac.lookupHead commitment now read readAt).2.head = ac.head
        ∧ (ac.lookupHead commitment now read readAt).2.headFreshFor = ac.headFreshFor := by
    intro α read readAt
    unfold lookupHead
    split
    · exact ⟨rfl, rfl⟩
    · dsimp only
      split
      · exact ⟨rfl, rfl⟩
      · exact ⟨rfl, rfl⟩
  cases field with
  | slot => exact hlookup _ _
  | blockHeight => exact hlookup _ _
  | blockhash => exact hlookup _ _

theorem storeHead_headFreshFor (value : HeadValue) (now : Int64) :
    (ac.storeHead commitment value now).headFreshFor = ac.headFreshFor := by
  rw [storeHead_eq]
  unfold modifyHead
  split
  · rfl
  · rfl

theorem headStep_headFreshFor (event : HeadEvent) :
    (ac.headStep event).headFreshFor = ac.headFreshFor := by
  cases event with
  | store commitment value now => exact ac.storeHead_headFreshFor commitment value now
  | lookup commitment field now => exact (ac.serveHead_snd commitment field now).2

theorem headRun_headFreshFor (events : List HeadEvent) :
    (ac.headRun events).headFreshFor = ac.headFreshFor := by
  induction events generalizing ac with
  | nil => rfl
  | cons event events ih => exact (ih (ac.headStep event)).trans (ac.headStep_headFreshFor event)

/-! ## Versions -/

/-- **The version of a register never falls.** -/
theorem version_le_headStep (event : HeadEvent) (idx : Fin 3) (field : HeadField) :
    (ac.register idx field).1.version ≤ ((ac.headStep event).register idx field).1.version := by
  cases event with
  | store commitment value now =>
    simp only [headStep, register_storeHead]
    split
    · next haccepts => exact haccepts.2.2
    · exact UInt64.le_refl _
  | lookup commitment field' now =>
    simp only [headStep, register, (ac.serveHead_snd commitment field' now).1]
    exact UInt64.le_refl _

theorem version_le_headRun (events : List HeadEvent) (idx : Fin 3) (field : HeadField) :
    (ac.register idx field).1.version ≤ ((ac.headRun events).register idx field).1.version := by
  induction events generalizing ac with
  | nil => exact UInt64.le_refl _
  | cons event events ih =>
    exact UInt64.le_trans (ac.version_le_headStep event idx field) (ih (ac.headStep event))

/-! ## The last store -/

/-- The store of an event, if the register takes it. -/
def accepted (idx : Fin 3) (field : HeadField) :
    HeadEvent → Option (HeadValue × Int64)
  | .store commitment value now =>
    if ac.Accepts idx field commitment value then some (value, now) else none
  | .lookup _ _ _ => none

/-- The last store the register took in the course of a sequence of events; `last` is the
one before it. -/
def lastAccepted (idx : Fin 3) (field : HeadField) (ac : AccountCache Account)
    (last : Option (HeadValue × Int64)) : List HeadEvent → Option (HeadValue × Int64)
  | [] => last
  | event :: events =>
    lastAccepted idx field (ac.headStep event) ((ac.accepted idx field event).or last) events

/-- The register holds the last store, or was never written. -/
def Holds (last : Option (HeadValue × Int64)) (register : HeadValue × Int64) : Prop :=
  match last with
  | none => register.2 = 0
  | some store => register = store

theorem holds_headStep {ac : AccountCache Account} {idx : Fin 3} {field : HeadField}
    {last : Option (HeadValue × Int64)} (h : Holds last (ac.register idx field))
    (event : HeadEvent) :
    Holds ((ac.accepted idx field event).or last) ((ac.headStep event).register idx field) := by
  cases event with
  | store commitment value now =>
    simp only [headStep, accepted, register_storeHead]
    by_cases haccepts : ac.Accepts idx field commitment value
    · rw [if_pos haccepts, if_pos haccepts]
      rfl
    · rw [if_neg haccepts, if_neg haccepts]
      exact h
  | lookup commitment field' now =>
    simp only [headStep, register, (ac.serveHead_snd commitment field' now).1]
    exact h

/-- **A register holds the last store it took.** -/
theorem holds_headRun {ac : AccountCache Account} {idx : Fin 3} {field : HeadField}
    {last : Option (HeadValue × Int64)} (h : Holds last (ac.register idx field))
    (events : List HeadEvent) :
    Holds (lastAccepted idx field ac last events) ((ac.headRun events).register idx field) := by
  induction events generalizing ac last with
  | nil => exact h
  | cons event events ih => exact ih (holds_headStep h event)

/-- The last store is one of the events, at the level of the register. -/
theorem lastAccepted_mem {ac : AccountCache Account} {idx : Fin 3} {field : HeadField}
    {last : Option (HeadValue × Int64)} {events : List HeadEvent} {value : HeadValue} {stamp : Int64}
    (h : lastAccepted idx field ac last events = some (value, stamp)) :
    last = some (value, stamp) ∨ ∃ commitment, commitment.cacheIndex = some idx
      ∧ HeadEvent.store commitment value stamp ∈ events := by
  induction events generalizing ac last with
  | nil => exact Or.inl h
  | cons event events ih =>
    rcases ih h with hlast | ⟨commitment, hidx, hmem⟩
    · rcases Option.or_eq_some_iff.mp hlast with haccepted | ⟨-, hlast⟩
      · cases event with
        | store commitment value' now =>
          simp only [accepted] at haccepted
          obtain ⟨haccepts, heq⟩ := Option.ite_none_right_eq_some.mp haccepted
          obtain ⟨rfl, rfl⟩ := Prod.mk.inj (Option.some.inj heq)
          exact Or.inr ⟨commitment, haccepts.1, List.mem_cons_self⟩
        | lookup commitment field' now => exact absurd haccepted (by simp [accepted])
      · exact Or.inl hlast
    · exact Or.inr ⟨commitment, hidx, List.mem_cons_of_mem _ hmem⟩

end AccountCache

/-! ## Freshness -/

/-- A time that is not before the cutoff is within the window, also where the cutoff
wraps around. -/
theorem sub_le_of_not_lt_cutoff {now stamp window : Int64} (hwindow : 0 ≤ window.toInt)
    (h : ¬stamp < now - window) : now.toInt - stamp.toInt ≤ window.toInt := by
  have hle := mt Int64.lt_iff_toInt_lt.mpr h
  rw [Int64.toInt_sub, Int.bmod] at hle
  have hnow := now.toInt_lt
  have hlow := now.le_toInt
  have hwide := window.toInt_lt
  omega

/-- A positive option stays, and the defaults are positive. -/
theorem headFreshFor_nonneg {opts : CacheOptions} {ac : AccountCache Account}
    (hnew : newAccountCache Account opts = some ac) : 0 ≤ ac.headFreshFor.toInt := by
  obtain ⟨n, -, rfl⟩ := Option.map_eq_some_iff.mp hnew
  show 0 ≤ (orDefault opts.headFreshFor defaultCacheHeadFreshFor).toInt
  unfold orDefault
  split
  · next hpos => exact le_of_lt (Int64.lt_iff_toInt_lt.mp hpos)
  · decide

/-- A new cache has written no register, and their versions are zero. -/
theorem register_newAccountCache {opts : CacheOptions} {ac : AccountCache Account}
    (hnew : newAccountCache Account opts = some ac) (idx : Fin 3) (field : HeadField) :
    (ac.register idx field).1.version = 0 ∧ (ac.register idx field).2 = 0 := by
  obtain ⟨n, -, rfl⟩ := Option.map_eq_some_iff.mp hnew
  have hhead : (Vector.replicate 3 ({} : HeadState))[idx] = {} := by
    rw [Fin.getElem_fin, Vector.getElem_replicate]
  unfold AccountCache.register
  dsimp only
  rw [hhead]
  cases field with
  | slot => exact ⟨rfl, rfl⟩
  | blockHeight => exact ⟨rfl, rfl⟩
  | blockhash => exact ⟨rfl, rfl⟩

/-! ## Main result -/

namespace AccountCache

/-- What is served is the value of the register of the level. -/
theorem served_eq_some {ac : AccountCache Account} {commitment : CommitmentType}
    {field : HeadField} {now : Int64} {value : HeadValue}
    (h : ac.served commitment field now = some value) :
    ∃ idx, commitment.cacheIndex = some idx ∧ (ac.register idx field).1 = value
      ∧ (ac.register idx field).2 ≠ 0
      ∧ ¬(ac.register idx field).2 < now - ac.headFreshFor := by
  rw [served_eq] at h
  obtain ⟨idx, hidx, h⟩ := Option.bind_eq_some_iff.mp h
  obtain ⟨hfresh, hvalue⟩ := Option.ite_none_left_eq_some.mp h
  obtain ⟨hwritten, hfresh⟩ := not_or.mp hfresh
  exact ⟨idx, hidx, Option.some.inj hvalue, hwritten, hfresh⟩

end AccountCache

/-- **The served head.** In every interleaving of stores and lookups: what is served of a
register never falls in its version; a store at one level leaves what the others serve,
the unset level being the finalized one; and what is served is one store as a whole, the
last one the register took, made within the freshness window. -/
theorem chainHead_served {opts : CacheOptions} {ac : AccountCache Account}
    (hnew : newAccountCache Account opts = some ac) (events : List HeadEvent) :
    (∀ later commitment commitment' field now now' value value',
        commitment.cacheIndex = commitment'.cacheIndex →
        (ac.headRun events).served commitment field now = some value →
        ((ac.headRun events).headRun later).served commitment' field now' = some value' →
        value.version ≤ value'.version)
      ∧ (∀ commitment commitment' value now field now',
        commitment.cacheIndex ≠ commitment'.cacheIndex →
        ((ac.headRun events).storeHead commitment value now).served commitment' field now'
          = (ac.headRun events).served commitment' field now')
      ∧ CommitmentType.unset.cacheIndex = CommitmentType.finalized.cacheIndex
      ∧ (∀ commitment field now value,
        (ac.headRun events).served commitment field now = some value →
        ∃ idx commitment' stamp, commitment.cacheIndex = some idx
          ∧ commitment'.cacheIndex = some idx ∧ .store commitment' value stamp ∈ events
          ∧ AccountCache.lastAccepted idx field ac none events = some (value, stamp)
          ∧ now.toInt - stamp.toInt ≤ ac.headFreshFor.toInt) := by
  refine ⟨?_, ?_, rfl, ?_⟩
  · intro later commitment commitment' field now now' value value' hsame hserved hserved'
    obtain ⟨idx, hidx, rfl, -, -⟩ := AccountCache.served_eq_some hserved
    obtain ⟨idx', hidx', rfl, -, -⟩ := AccountCache.served_eq_some hserved'
    obtain rfl : idx = idx' := Option.some.inj (hidx.symm.trans (hsame.trans hidx'))
    exact AccountCache.version_le_headRun _ later idx field
  · intro commitment commitment' value now field now' hother
    rw [AccountCache.served_eq, AccountCache.served_eq, AccountCache.storeHead_headFreshFor]
    cases hidx : commitment'.cacheIndex with
    | none => rfl
    | some idx =>
      rw [hidx] at hother
      have hrefuses : ¬(ac.headRun events).Accepts idx field commitment value :=
        fun h => hother h.1
      simp only [Option.bind_some, AccountCache.register_storeHead, if_neg hrefuses]
  · intro commitment field now value hserved
    obtain ⟨idx, hidx, hvalue, hwritten, hfresh⟩ := AccountCache.served_eq_some hserved
    have hempty : AccountCache.Holds none (ac.register idx field) :=
      (register_newAccountCache hnew idx field).2
    have hholds := AccountCache.holds_headRun hempty events
    cases hlast : AccountCache.lastAccepted idx field ac none events with
    | none =>
      rw [hlast] at hholds
      exact absurd hholds hwritten
    | some store =>
      rw [hlast] at hholds
      obtain ⟨value', stamp⟩ := store
      have hregister : (ac.headRun events).register idx field = (value', stamp) := hholds
      rw [hregister] at hvalue hfresh
      obtain rfl : value' = value := hvalue
      rw [AccountCache.headRun_headFreshFor] at hfresh
      rcases AccountCache.lastAccepted_mem hlast with hnone | ⟨commitment', hidx', hmem⟩
      · exact absurd hnone (by simp)
      · exact ⟨idx, commitment', stamp, hidx, hidx', hmem, hlast,
          sub_le_of_not_lt_cutoff (headFreshFor_nonneg hnew) hfresh⟩

/-- A slot is streamed, and a node answers late with an older one. -/
def lateSlot : List HeadEvent :=
  [.store .finalized (.slot 5) 1000, .lookup .unset .slot 2000, .store .unset (.slot 4) 3000]

/-- The unset level serves the newer slot. -/
theorem chainHead_served_late : ∃ ac, newAccountCache ℕ {} = some ac
    ∧ (ac.headRun lateSlot).served .unset .slot 4000 = some (.slot 5)
    ∧ ∃ idx commitment' stamp, CommitmentType.unset.cacheIndex = some idx
      ∧ commitment'.cacheIndex = some idx ∧ .store commitment' (.slot 5) stamp ∈ lateSlot
      ∧ AccountCache.lastAccepted idx .slot ac none lateSlot = some (.slot 5, stamp)
      ∧ (4000 : Int64).toInt - stamp.toInt ≤ ac.headFreshFor.toInt := by
  have hlate : (newAccountCache ℕ {}).map (fun ac => (ac.headRun lateSlot).served .unset .slot 4000)
      = some (some (.slot 5)) := by decide +kernel
  obtain ⟨ac, hnew, hserved⟩ := Option.map_eq_some_iff.mp hlate
  obtain ⟨-, -, -, hstore⟩ := chainHead_served hnew lateSlot
  exact ⟨ac, hnew, hserved, hstore _ _ _ _ hserved⟩

end SolanaGo.Rpc
