/-
`Pipe`: a stream of updates feeds the cache of the RPC client.

Each update goes into the cache as it arrives: an account under its key, a slot under the
level of its status, and the height and the blockhash of a block under the level of the
subscription. The cache keeps in each place the value with the highest version, and of two
with the same version the later one.

`pipe_served` puts that together for a whole stream. What is served afterwards is said in
terms of the updates alone: the latest (`LatestWins.IsLatest`) of the block metas with a
height and a hash, the largest height, the largest slot of each status, and the latest
update of each account.
-/
import SolanaGo.MessageJson.Form
import SolanaGo.Rpc.CacheRefinement
import SolanaGo.Rpc.ChainHead
import SolanaGo.Yellowstone.Update

set_option autoImplicit false

namespace SolanaGo.Yellowstone

open Codec (Bytes ByteArr)
open LatestWins Rpc

variable {StatusMeta : Type}

/-! ## The loop -/

/-- `type Account struct` of the RPC client, with the data as `DataBytesOrJSONFromBytes` holds
it. -/
structure Account where
  lamports : UInt64
  owner : PublicKey
  data : Bytes
  executable : Bool
  rentEpoch : ℕ
  space : UInt64
  deriving DecidableEq

/-- `type AccountUpdate struct`. -/
structure AccountUpdate where
  pubkey : PublicKey
  lamports : UInt64
  owner : PublicKey
  executable : Bool
  rentEpoch : UInt64
  data : Bytes
  writeVersion : UInt64
  txnSignature : Option Signature
  slot : UInt64
  isStartup : Bool
  deriving DecidableEq

/-- `Update.Account`. -/
def accountOf : Pb.SubscribeUpdate StatusMeta → Option AccountUpdate
  | .account update => update.account.map fun info =>
    { pubkey := pubkeyFromBytes info.pubkey
      lamports := info.lamports
      owner := pubkeyFromBytes info.owner
      executable := info.executable
      rentEpoch := info.rentEpoch
      data := info.data
      writeVersion := info.writeVersion
      txnSignature := if 0 < info.txnSignature.length then
          some (signatureFromBytes info.txnSignature)
        else none
      slot := update.slot
      isStartup := update.isStartup }
  | _ => none

/-- The account that `storeAccount` hands to the sink. -/
def AccountUpdate.converted (update : AccountUpdate) : Account where
  lamports := update.lamports
  owner := update.owner
  data := update.data
  executable := update.executable
  rentEpoch := update.rentEpoch.toNat
  space := UInt64.ofNat update.data.length

/-- `storeAccount`. -/
def storeAccount (update : Pb.SubscribeUpdate StatusMeta) (sink : AccountCache Account)
    (now : Int64) : AccountCache Account :=
  match accountOf update with
  | none => sink
  | some update =>
    sink.set (cacheStoreStreamed update.pubkey (some update.converted) update.slot) now

/-- `slotCommitment`. -/
def slotCommitment : Pb.SlotStatus → Option CommitmentType
  | .processed => some .processed
  | .confirmed => some .confirmed
  | .finalized => some .finalized
  | _ => none

/-- `maxBlockhashAge`. -/
def maxBlockhashAge : UInt64 := 150

/-- `HashFromBase58`. -/
def hashFromBase58 (b58 : Base58Package) (text : Bytes) : Except Err Hash :=
  publicKeyFromBase58 b58 text

/-- An update with the times at which its first and its second store read the clock. -/
structure Received (StatusMeta : Type) where
  update : Pb.SubscribeUpdate StatusMeta
  now : Int64
  later : Int64

/-- One turn of the loop of `Pipe`. -/
def forward (b58 : Base58Package) (commitment : CommitmentType) (sink : AccountCache Account)
    (received : Received StatusMeta) : AccountCache Account :=
  match received.update with
  | .account _ => storeAccount received.update sink received.now
  | .slot slot =>
    match slotCommitment slot.status with
    | none => sink
    | some level => sink.storeSlot level slot.slot received.now
  | .blockMeta blockMeta =>
    match blockMeta.blockHeight with
    | none => sink
    | some height =>
      let sink := sink.storeBlockHeight commitment height received.now
      match hashFromBase58 b58 blockMeta.blockhash with
      | .error _ => sink
      | .ok hash =>
        sink.storeBlockhash commitment hash (height + maxBlockhashAge) blockMeta.slot received.later
  | _ => sink

/-- How a stream ends: by `io.EOF`, or by another error. -/
inductive StreamEnd where
  | eof
  | failed (err : Err)

/-- `Pipe`: what it returns, and the cache it leaves. -/
def pipe (b58 : Base58Package) (commitment : CommitmentType) (stream : List (Received StatusMeta))
    (ending : StreamEnd) (sink : AccountCache Account) : Option Err × AccountCache Account :=
  match stream with
  | [] =>
    match ending with
    | .eof => (none, sink)
    | .failed err => (some err, sink)
  | received :: stream => pipe b58 commitment stream ending (forward b58 commitment sink received)

theorem pipe_snd (b58 : Base58Package) (commitment : CommitmentType)
    (stream : List (Received StatusMeta)) (ending : StreamEnd) (sink : AccountCache Account) :
    (pipe b58 commitment stream ending sink).2 = stream.foldl (forward b58 commitment) sink := by
  induction stream generalizing sink with
  | nil =>
    unfold pipe
    cases ending with
    | eof => rfl
    | failed err => rfl
  | cons received stream ih => exact ih _

end SolanaGo.Yellowstone

/-! ## Registers after a sequence of stores -/

namespace SolanaGo.Rpc.AccountCache

open LatestWins

variable {Account : Type}

/-- What an event brings to a register. -/
def storeAt (idx : Fin 3) (field : HeadField) : HeadEvent → Option (HeadValue × Int64)
  | .store commitment value now =>
    if commitment.cacheIndex = some idx ∧ value.field = field then some (value, now) else none
  | .lookup _ _ _ => none

/-- A register that has not been written holds the latest of what is brought to it. -/
theorem register_headRun_eq_latest {ac : AccountCache Account} {idx : Fin 3} {field : HeadField}
    (hzero : (ac.register idx field).1.version = 0) (events : List HeadEvent) :
    (ac.headRun events).register idx field
      = (latest (fun store : HeadValue × Int64 => store.1.version.toNat)
          (events.filterMap (storeAt idx field))).getD (ac.register idx field) := by
  induction events using List.reverseRecOn with
  | nil => rfl
  | append_singleton events event ih =>
    have hrun : ac.headRun (events ++ [event]) = (ac.headRun events).headStep event := by
      unfold headRun
      rw [List.foldl_append]
      rfl
    rw [hrun, List.filterMap_append]
    cases event with
    | lookup commitment field' now =>
      simp only [headStep, register, (AccountCache.serveHead_snd _ commitment field' now).1]
      simp only [storeAt, List.filterMap_cons, List.filterMap_nil, List.append_nil]
      exact ih
    | store commitment value now =>
      simp only [headStep, register_storeHead]
      by_cases hplace : commitment.cacheIndex = some idx ∧ value.field = field
      · have hbrought : [HeadEvent.store commitment value now].filterMap (storeAt idx field)
            = [(value, now)] := by
          simp [storeAt, hplace]
        rw [hbrought, latest_concat]
        cases hheld : latest (fun store : HeadValue × Int64 => store.1.version.toNat)
            (events.filterMap (storeAt idx field)) with
        | none =>
          rw [hheld] at ih
          have haccepts : (ac.headRun events).Accepts idx field commitment value := by
            refine ⟨hplace.1, hplace.2, ?_⟩
            rw [ih]
            show (ac.register idx field).1.version ≤ value.version
            rw [hzero]
            exact UInt64.zero_le
          rw [if_pos haccepts]
          rfl
        | some held =>
          rw [hheld] at ih
          have haccepts : (ac.headRun events).Accepts idx field commitment value
              ↔ held.1.version.toNat ≤ value.version.toNat := by
            unfold Accepts
            rw [ih, ← UInt64.le_iff_toNat_le]
            exact ⟨fun h => h.2.2, fun h => ⟨hplace.1, hplace.2, h⟩⟩
          unfold keepLatest
          dsimp only
          by_cases hle : held.1.version.toNat ≤ value.version.toNat
          · rw [if_pos hle, if_pos (haccepts.mpr hle)]
            rfl
          · rw [if_neg hle, if_neg (mt haccepts.mp hle), ih]
      · have hbrought : [HeadEvent.store commitment value now].filterMap (storeAt idx field)
            = [] := by
          simp [storeAt, hplace]
        rw [hbrought, List.append_nil, if_neg fun haccepts => hplace ⟨haccepts.1, haccepts.2.1⟩]
        exact ih

theorem head_headStep_congr {ac ac' : AccountCache Account} (h : ac.head = ac'.head)
    (event : HeadEvent) : (ac.headStep event).head = (ac'.headStep event).head := by
  cases event with
  | lookup commitment field now =>
    exact ((ac.serveHead_snd commitment field now).1).trans
      (h.trans (ac'.serveHead_snd commitment field now).1.symm)
  | store commitment value now =>
    simp only [headStep, storeHead_eq]
    unfold modifyHead
    cases commitment.cacheIndex with
    | none => exact h
    | some idx =>
      dsimp only
      rw [h]

theorem head_headRun_congr {ac ac' : AccountCache Account} (h : ac.head = ac'.head)
    (events : List HeadEvent) : (ac.headRun events).head = (ac'.headRun events).head := by
  induction events generalizing ac ac' with
  | nil => exact h
  | cons event events ih => exact ih (head_headStep_congr h event)

theorem get_storeHead (ac : AccountCache Account) (commitment : CommitmentType)
    (value : HeadValue) (now : Int64) : (ac.storeHead commitment value now).get = ac.get := by
  rw [storeHead_eq]
  unfold modifyHead
  cases commitment.cacheIndex with
  | none => rfl
  | some idx => rfl

end SolanaGo.Rpc.AccountCache

namespace SolanaGo.Yellowstone

open Codec (Bytes ByteArr)
open LatestWins Rpc

variable {StatusMeta : Type}

/-! ## The head of the chain -/

section Head

variable (b58 : Base58Package) (commitment : CommitmentType)

/-- The stores of an update at the head of the chain. -/
def headEvents (received : Received StatusMeta) : List HeadEvent :=
  match received.update with
  | .slot slot =>
    match slotCommitment slot.status with
    | none => []
    | some level => [.store level (.slot slot.slot) received.now]
  | .blockMeta blockMeta =>
    match blockMeta.blockHeight with
    | none => []
    | some height =>
      .store commitment (.blockHeight height) received.now
        :: match hashFromBase58 b58 blockMeta.blockhash with
          | .error _ => []
          | .ok hash =>
            [.store commitment (.blockhash ⟨hash, height + maxBlockhashAge, blockMeta.slot⟩)
              received.later]
  | _ => []

theorem head_forward (sink : AccountCache Account) (received : Received StatusMeta) :
    (forward b58 commitment sink received).head
        = (sink.headRun (headEvents b58 commitment received)).head
      ∧ (forward b58 commitment sink received).headFreshFor = sink.headFreshFor := by
  unfold forward headEvents
  cases received.update with
  | account account =>
    dsimp only
    unfold storeAccount
    split
    · exact ⟨rfl, rfl⟩
    · exact ⟨rfl, rfl⟩
  | slot slot =>
    dsimp only
    split
    · exact ⟨rfl, rfl⟩
    · next level _ =>
        exact ⟨rfl, sink.storeHead_headFreshFor level (.slot slot.slot) received.now⟩
  | transaction transaction => exact ⟨rfl, rfl⟩
  | other => exact ⟨rfl, rfl⟩
  | blockMeta blockMeta =>
    dsimp only
    split
    · exact ⟨rfl, rfl⟩
    · next height _ =>
        have hheight := sink.storeHead_headFreshFor commitment (.blockHeight height) received.now
        split
        · exact ⟨rfl, hheight⟩
        · next hash _ =>
            exact ⟨rfl, (AccountCache.storeHead_headFreshFor _ commitment
              (.blockhash ⟨hash, height + maxBlockhashAge, blockMeta.slot⟩) received.later).trans
              hheight⟩

/-- The head of the chain behind a stream. -/
theorem head_stream (sink : AccountCache Account) (stream : List (Received StatusMeta)) :
    (stream.foldl (forward b58 commitment) sink).head
        = (sink.headRun (stream.flatMap (headEvents b58 commitment))).head
      ∧ (stream.foldl (forward b58 commitment) sink).headFreshFor = sink.headFreshFor := by
  induction stream generalizing sink with
  | nil => exact ⟨rfl, rfl⟩
  | cons received stream ih =>
    obtain ⟨hhead, hfresh⟩ := head_forward b58 commitment sink received
    obtain ⟨hrest, hfresh'⟩ := ih (forward b58 commitment sink received)
    refine ⟨?_, hfresh'.trans hfresh⟩
    have hrun : sink.headRun ((received :: stream).flatMap (headEvents b58 commitment))
        = (sink.headRun (headEvents b58 commitment received)).headRun
            (stream.flatMap (headEvents b58 commitment)) := by
      rw [List.flatMap_cons]
      unfold AccountCache.headRun
      rw [List.foldl_append]
    rw [hrun]
    exact hrest.trans (AccountCache.head_headRun_congr hhead _)

/-- A value stored at a time on the clock has not expired by now. -/
structure InWindow (window now stamp : Int64) : Prop where
  pos : 0 < stamp.toInt
  le : stamp.toInt ≤ now.toInt
  age : now.toInt - stamp.toInt ≤ window.toInt

theorem InWindow.served {window now stamp : Int64} (hwindow : 0 ≤ window.toInt)
    (h : InWindow window now stamp) : ¬(stamp = 0 ∨ stamp < now - window) := by
  rintro (hzero | hold)
  · have hpos := h.pos
    rw [hzero] at hpos
    exact absurd hpos (by decide)
  · rw [Int64.lt_iff_toInt_lt, Int64.toInt_sub, Int.bmod] at hold
    have hpos := h.pos
    have hle := h.le
    have hage := h.age
    have hnow := now.toInt_lt
    have hwide := window.toInt_lt
    omega

variable {b58 commitment}

/-- **What is served of a register.** If each update brings at most one value to the register,
and nothing has expired, the latest of these values is served. -/
theorem served_stream {β : Type} {opts : CacheOptions} {sink : AccountCache Account}
    (hnew : newAccountCache Account opts = some sink) {level : CommitmentType} {idx : Fin 3}
    (hlevel : level.cacheIndex = some idx) {field : HeadField}
    (pick : Pb.SubscribeUpdate StatusMeta → Option β) (value : β → HeadValue)
    (time : Received StatusMeta → Int64)
    (hpick : ∀ received : Received StatusMeta,
      (headEvents b58 commitment received).filterMap (AccountCache.storeAt idx field)
        = ((pick received.update).map fun b => (value b, time received)).toList)
    {stream : List (Received StatusMeta)} {now : Int64}
    (hwindow : ∀ received ∈ stream, InWindow sink.headFreshFor now (time received)) :
    (stream.foldl (forward b58 commitment) sink).served level field now
      = (latest (fun b => (value b).version.toNat)
          ((stream.map Received.update).filterMap pick)).map value := by
  -- what is brought, with its times
  let brought : List (β × Int64) :=
    stream.filterMap fun received => (pick received.update).map fun b => (b, time received)
  have hstores : (stream.flatMap (headEvents b58 commitment)).filterMap
      (AccountCache.storeAt idx field) = brought.map fun b => (value b.1, b.2) := by
    rw [List.filterMap_flatMap, List.map_filterMap, List.filterMap_eq_flatMap_toList]
    refine List.flatMap_congr fun received _ => ?_
    rw [hpick, Option.map_map]
    rfl
  have hpicked : (stream.map Received.update).filterMap pick = brought.map Prod.fst := by
    rw [List.filterMap_map, List.map_filterMap]
    refine List.filterMap_congr fun received _ => ?_
    rw [Option.map_map]
    exact Option.map_id'.symm
  obtain ⟨hhead, hfresh⟩ := head_stream b58 commitment sink stream
  have hregister : (stream.foldl (forward b58 commitment) sink).register idx field
      = ((latest (fun b : β × Int64 => (value b.1).version.toNat) brought).map
          fun b => (value b.1, b.2)).getD (sink.register idx field) := by
    have hrun := AccountCache.register_headRun_eq_latest
      (register_newAccountCache hnew idx field).1
      (stream.flatMap (headEvents b58 commitment))
    rw [hstores, latest_map] at hrun
    unfold AccountCache.register at hrun ⊢
    rw [hhead]
    exact hrun
  rw [AccountCache.served_eq, hlevel, Option.bind_some, hregister, hfresh, hpicked, latest_map]
  cases hheld : latest (fun b : β × Int64 => (value b.1).version.toNat) brought with
  | none =>
    rw [if_pos]
    · rfl
    · exact Or.inl (register_newAccountCache hnew idx field).2
  | some held =>
    have hmem := (latest_eq_some_iff.mp hheld).mem
    obtain ⟨received, hreceived, hheld⟩ := List.mem_filterMap.mp hmem
    obtain ⟨b, -, rfl⟩ := Option.map_eq_some_iff.mp hheld
    have hserved := (hwindow received hreceived).served (headFreshFor_nonneg hnew)
    rw [if_neg]
    · rfl
    · exact hserved

end Head

/-! ## What a stream says -/

/-- A block meta with a height and a valid hash. -/
structure ValidMeta where
  slot : UInt64
  height : UInt64
  hash : Hash
  deriving DecidableEq

/-- The block meta of an update, if it has a height and a valid hash. -/
def validMetaOf (b58 : Base58Package) : Pb.SubscribeUpdate StatusMeta → Option ValidMeta
  | .blockMeta blockMeta => blockMeta.blockHeight.bind fun height =>
    match hashFromBase58 b58 blockMeta.blockhash with
    | .error _ => none
    | .ok hash => some ⟨blockMeta.slot, height, hash⟩
  | _ => none

/-- What is served for a block meta. -/
def ValidMeta.latestBlockhash (valid : ValidMeta) : LatestBlockhash :=
  ⟨valid.hash, valid.height + maxBlockhashAge, valid.slot⟩

/-- The height in an update. -/
def heightOf : Pb.SubscribeUpdate StatusMeta → Option UInt64
  | .blockMeta blockMeta => blockMeta.blockHeight
  | _ => none

/-- The slot that an update reports with a status. -/
def slotWith (status : Pb.SlotStatus) : Pb.SubscribeUpdate StatusMeta → Option UInt64
  | .slot slot => if slot.status = status then some slot.slot else none
  | _ => none

/-- The account update for a key. -/
def accountAt (key : PublicKey) (update : Pb.SubscribeUpdate StatusMeta) : Option AccountUpdate :=
  (accountOf update).filter fun account => account.pubkey = key

section Stores

variable {b58 : Base58Package} {commitment : CommitmentType} {idx : Fin 3}

theorem blockMeta_stores (hidx : commitment.cacheIndex = some idx)
    (received : Received StatusMeta) :
    (headEvents b58 commitment received).filterMap (AccountCache.storeAt idx .blockhash)
      = ((validMetaOf b58 received.update).map fun valid =>
          (HeadValue.blockhash valid.latestBlockhash, received.later)).toList
    ∧ (headEvents b58 commitment received).filterMap (AccountCache.storeAt idx .blockHeight)
      = ((heightOf received.update).map fun height =>
          (HeadValue.blockHeight height, received.now)).toList := by
  unfold headEvents validMetaOf heightOf
  cases received.update with
  | account account => exact ⟨rfl, rfl⟩
  | transaction transaction => exact ⟨rfl, rfl⟩
  | other => exact ⟨rfl, rfl⟩
  | slot slot =>
    dsimp only
    cases slotCommitment slot.status with
    | none => exact ⟨rfl, rfl⟩
    | some level => simp [AccountCache.storeAt, HeadValue.field]
  | blockMeta blockMeta =>
    dsimp only
    cases blockMeta.blockHeight with
    | none => exact ⟨rfl, rfl⟩
    | some height =>
      cases hashFromBase58 b58 blockMeta.blockhash with
      | error err => simp [AccountCache.storeAt, HeadValue.field, hidx]
      | ok hash => simp [AccountCache.storeAt, HeadValue.field, hidx, ValidMeta.latestBlockhash]

/-- Two statuses that are levels are at different places. -/
theorem status_eq_of_cacheIndex {status status' : Pb.SlotStatus} {level level' : CommitmentType}
    (h : slotCommitment status = some level) (h' : slotCommitment status' = some level')
    (hidx : level.cacheIndex = some idx) (hidx' : level'.cacheIndex = some idx) :
    status = status' := by
  have hsame := hidx.trans hidx'.symm
  cases status <;> cases h <;> cases status' <;> cases h' <;> first | rfl | cases hsame

theorem slot_stores {status : Pb.SlotStatus} {level : CommitmentType}
    (hstatus : slotCommitment status = some level) (hidx : level.cacheIndex = some idx)
    (received : Received StatusMeta) :
    (headEvents b58 commitment received).filterMap (AccountCache.storeAt idx .slot)
      = ((slotWith status received.update).map fun slot =>
          (HeadValue.slot slot, received.now)).toList := by
  unfold headEvents slotWith
  cases received.update with
  | account account => rfl
  | transaction transaction => rfl
  | other => rfl
  | slot slot =>
    dsimp only
    by_cases hsame : slot.status = status
    · rw [if_pos hsame, hsame, hstatus]
      simp [AccountCache.storeAt, HeadValue.field, hidx]
    · rw [if_neg hsame]
      cases hother : slotCommitment slot.status with
      | none => rfl
      | some level' =>
        have hne : level'.cacheIndex ≠ some idx :=
          fun hidx' => hsame (status_eq_of_cacheIndex hother hstatus hidx' hidx)
        simp [AccountCache.storeAt, hne]
  | blockMeta blockMeta =>
    dsimp only
    cases blockMeta.blockHeight with
    | none => rfl
    | some height =>
      cases hashFromBase58 b58 blockMeta.blockhash with
      | error err => simp [AccountCache.storeAt, HeadValue.field]
      | ok hash => simp [AccountCache.storeAt, HeadValue.field]

end Stores

/-! ## The accounts -/

section Accounts

variable (b58 : Base58Package) (commitment : CommitmentType)

/-- An update changes the entry of the account it is about. -/
theorem get_forward (sink : AccountCache Account) (received : Received StatusMeta)
    (key : PublicKey) :
    (forward b58 commitment sink received).get key
      = match accountAt key received.update with
        | none => sink.get key
        | some update => some (AccountCache.setEntry
            (cacheStoreStreamed update.pubkey (some update.converted) update.slot) received.now
            (sink.get key)) := by
  unfold forward
  cases received.update with
  | account account =>
    dsimp only
    unfold storeAccount accountAt
    cases accountOf (Pb.SubscribeUpdate.account account : Pb.SubscribeUpdate StatusMeta) with
    | none => rfl
    | some update =>
      dsimp only
      rw [AccountCache.get_set]
      show (if key = update.pubkey then _ else _) = _
      by_cases hkey : key = update.pubkey
      · subst hkey
        rw [Option.filter_some_pos (by simp), if_pos rfl]
        rfl
      · rw [Option.filter_some_neg (by simpa using Ne.symm hkey), if_neg hkey]
  | slot slot =>
    dsimp only
    cases slotCommitment slot.status with
    | none => rfl
    | some level =>
      exact congrFun (sink.get_storeHead level (.slot slot.slot) received.now) key
  | transaction transaction => rfl
  | other => rfl
  | blockMeta blockMeta =>
    dsimp only
    cases blockMeta.blockHeight with
    | none => rfl
    | some height =>
      have hheight := sink.get_storeHead commitment (.blockHeight height) received.now
      dsimp only
      cases hashFromBase58 b58 blockMeta.blockhash with
      | error err => exact congrFun hheight key
      | ok hash =>
        have hhash := AccountCache.get_storeHead
          (sink.storeBlockHeight commitment height received.now) commitment
          (.blockhash ⟨hash, height + maxBlockhashAge, blockMeta.slot⟩) received.later
        exact (congrFun hhash key).trans (congrFun hheight key)

/-- An entry that holds the latest update of its account. -/
structure Mirrors (entry : CacheEntry Account) (update : AccountUpdate) : Prop where
  data : entry.data = some update.converted
  slot : entry.slot = update.slot
  streamed : entry.streamed = true

/-- What is held of the latest update. -/
def HoldsLatest (entry : Option (CacheEntry Account)) : Option AccountUpdate → Prop
  | none => entry = none
  | some update => ∃ e, entry = some e ∧ Mirrors e update

theorem holdsLatest_setEntry {entry : Option (CacheEntry Account)} {held : Option AccountUpdate}
    (h : HoldsLatest entry held) (update : AccountUpdate) (now : Int64) :
    HoldsLatest
      (some (AccountCache.setEntry
        (cacheStoreStreamed update.pubkey (some update.converted) update.slot) now entry))
      (keepLatest (fun update : AccountUpdate => update.slot.toNat) held update) := by
  cases held with
  | none =>
    obtain rfl : entry = none := h
    exact ⟨_, rfl, rfl, rfl, rfl⟩
  | some previous =>
    obtain ⟨e, rfl, hmirrors⟩ := h
    have hslot := hmirrors.slot
    unfold keepLatest AccountCache.setEntry cacheStoreStreamed
    dsimp only
    by_cases hle : previous.slot.toNat ≤ update.slot.toNat
    · have hge : update.slot ≥ e.slot := by
        rw [hslot]
        exact UInt64.le_iff_toNat_le.mpr hle
      rw [if_pos hle, if_pos hge]
      exact ⟨_, rfl, rfl, rfl, Bool.or_true _⟩
    · have hge : ¬update.slot ≥ e.slot := by
        rw [hslot]
        exact mt UInt64.le_iff_toNat_le.mp hle
      rw [if_neg hle, if_neg hge]
      exact ⟨_, rfl, hmirrors.data, hslot, Bool.or_true _⟩

/-- **The accounts behind a stream.** -/
theorem get_stream {sink : AccountCache Account} {key : PublicKey} (hempty : sink.get key = none)
    (stream : List (Received StatusMeta)) :
    HoldsLatest ((stream.foldl (forward b58 commitment) sink).get key)
      (latest (fun update : AccountUpdate => update.slot.toNat)
        ((stream.map Received.update).filterMap (accountAt key))) := by
  induction stream using List.reverseRecOn with
  | nil => exact hempty
  | append_singleton stream received ih =>
    rw [List.foldl_append, List.map_append, List.filterMap_append]
    show HoldsLatest ((forward b58 commitment _ received).get key) _
    rw [get_forward]
    show HoldsLatest _ (latest _ (_ ++ [received.update].filterMap (accountAt key)))
    cases hat : accountAt key received.update with
    | none =>
      rw [List.filterMap_cons_none hat, List.filterMap_nil, List.append_nil]
      exact ih
    | some update =>
      rw [List.filterMap_cons_some hat, List.filterMap_nil, latest_concat]
      exact holdsLatest_setEntry ih update received.now

/-- The lookup of an account that is streamed. -/
theorem lookup_stream {sink : AccountCache Account} {key : PublicKey}
    (hempty : sink.get key = none) (stream : List (Received StatusMeta)) (now : Int64) :
    ((stream.foldl (forward b58 commitment) sink).lookup key now).1
      = (latest (fun update : AccountUpdate => update.slot.toNat)
          ((stream.map Received.update).filterMap (accountAt key))).map
            fun update => some update.converted := by
  have hholds := get_stream b58 commitment hempty stream
  rw [(AccountCache.lookup_eq _ key now).1, AccountCache.lookupAt_fst]
  unfold SingleMap.serves
  cases hlatest : latest (fun update : AccountUpdate => update.slot.toNat)
      ((stream.map Received.update).filterMap (accountAt key)) with
  | none =>
    rw [hlatest] at hholds
    have hnone : (stream.foldl (forward b58 commitment) sink).get key = none := hholds
    rw [hnone]
    rfl
  | some update =>
    rw [hlatest] at hholds
    obtain ⟨e, he, hmirrors⟩ := hholds
    rw [he]
    dsimp only
    have hfresh : e.fresh now (stream.foldl (forward b58 commitment) sink).freshFor = true := by
      unfold CacheEntry.fresh
      rw [hmirrors.streamed]
      rfl
    rw [if_pos hfresh, hmirrors.data]
    rfl

end Accounts

/-! ## Main result -/

theorem lookupHead_of_none {α : Type} {level : CommitmentType} (h : level.cacheIndex = none)
    (ac : AccountCache Account) (now : Int64) (read : HeadState → α)
    (readAt : HeadState → Int64) : (ac.lookupHead level now read readAt).1 = none := by
  unfold AccountCache.lookupHead
  rw [h]

section Main

variable {b58 : Base58Package} {commitment : CommitmentType} {opts : CacheOptions}
variable {sink : AccountCache Account} (hnew : newAccountCache Account opts = some sink)
variable {stream : List (Received StatusMeta)} {now : Int64}

include hnew

theorem lookupBlockhash_stream {idx : Fin 3} (hidx : commitment.cacheIndex = some idx)
    (hwindow : ∀ received ∈ stream, InWindow sink.headFreshFor now received.later) :
    ((stream.foldl (forward b58 commitment) sink).lookupBlockhash commitment now).1
      = (latest (fun valid : ValidMeta => valid.slot.toNat)
          ((stream.map Received.update).filterMap (validMetaOf b58))).map
            ValidMeta.latestBlockhash := by
  have hserved := served_stream hnew hidx (validMetaOf b58)
    (fun valid => HeadValue.blockhash valid.latestBlockhash) Received.later
    (fun received => (blockMeta_stores hidx received).1) hwindow
  refine Option.map_injective (fun a b h => HeadValue.blockhash.inj h) (hserved.trans ?_)
  rw [Option.map_map]
  rfl

theorem lookupBlockHeight_stream {idx : Fin 3} (hidx : commitment.cacheIndex = some idx)
    (hwindow : ∀ received ∈ stream, InWindow sink.headFreshFor now received.now) :
    ((stream.foldl (forward b58 commitment) sink).lookupBlockHeight commitment now).1
      = latest UInt64.toNat ((stream.map Received.update).filterMap heightOf) := by
  have hserved : (stream.foldl (forward b58 commitment) sink).served commitment .blockHeight now
      = _ :=
    served_stream hnew hidx heightOf HeadValue.blockHeight Received.now
      (fun received => (blockMeta_stores hidx received).2)
      hwindow
  exact Option.map_injective (fun a b h => HeadValue.blockHeight.inj h) hserved

theorem lookupSlot_stream {status : Pb.SlotStatus} {level : CommitmentType}
    (hstatus : slotCommitment status = some level)
    (hwindow : ∀ received ∈ stream, InWindow sink.headFreshFor now received.now) :
    ((stream.foldl (forward b58 commitment) sink).lookupSlot level now).1
      = latest UInt64.toNat ((stream.map Received.update).filterMap (slotWith status)) := by
  have hlevel : ∃ idx, level.cacheIndex = some idx := by
    cases status <;> cases hstatus <;> exact ⟨_, rfl⟩
  obtain ⟨idx, hidx⟩ := hlevel
  have hserved : (stream.foldl (forward b58 commitment) sink).served level .slot now = _ :=
    served_stream hnew hidx (slotWith status) HeadValue.slot Received.now
      (slot_stores hstatus hidx) hwindow
  exact Option.map_injective (fun a b h => HeadValue.slot.inj h) hserved

omit hnew in
/-- Numbers are told apart by their value. -/
theorem latest_toNat_iff {l : List UInt64} {n : UInt64} :
    latest UInt64.toNat l = some n ↔ n ∈ l ∧ ∀ m ∈ l, m ≤ n := by
  rw [latest_eq_some_iff_largest fun a b h => UInt64.toNat_inj.mp h]
  simp only [UInt64.le_iff_toNat_le]

/-- **What is served behind a stream.** A new cache that `Pipe` feeds at one level, with
nothing expired: the blockhash is that of the last of the block metas of the highest slot
with a height and a valid hash; the height is the largest one; the slot of a level is the
largest one of its status; and an account is the last of its updates of the highest slot.
At a level that the cache does not know nothing is served. -/
theorem pipe_served
    (hwindow : ∀ received ∈ stream, InWindow sink.headFreshFor now received.now
      ∧ InWindow sink.headFreshFor now received.later) (ending : StreamEnd) :
    (∀ latest, ((pipe b58 commitment stream ending sink).2.lookupBlockhash commitment now).1
        = some latest
        ↔ commitment.cacheIndex ≠ none
          ∧ ∃ valid, IsLatest (fun valid : ValidMeta => valid.slot.toNat)
              ((stream.map Received.update).filterMap (validMetaOf b58)) valid
            ∧ latest = ⟨valid.hash, valid.height + 150, valid.slot⟩)
      ∧ (∀ height, ((pipe b58 commitment stream ending sink).2.lookupBlockHeight commitment now).1
          = some height
          ↔ commitment.cacheIndex ≠ none
            ∧ height ∈ (stream.map Received.update).filterMap heightOf
            ∧ ∀ other ∈ (stream.map Received.update).filterMap heightOf, other ≤ height)
      ∧ (∀ status level, slotCommitment status = some level →
          ∀ slot, ((pipe b58 commitment stream ending sink).2.lookupSlot level now).1 = some slot
            ↔ slot ∈ (stream.map Received.update).filterMap (slotWith status)
              ∧ ∀ other ∈ (stream.map Received.update).filterMap (slotWith status), other ≤ slot)
      ∧ ∀ key now' data, ((pipe b58 commitment stream ending sink).2.lookup key now').1 = some data
          ↔ ∃ update, IsLatest (fun update : AccountUpdate => update.slot.toNat)
              ((stream.map Received.update).filterMap (accountAt key)) update
            ∧ data = some update.converted := by
  rw [pipe_snd]
  have hnows : ∀ received ∈ stream, InWindow sink.headFreshFor now received.now :=
    fun received hreceived => (hwindow received hreceived).1
  have hlaters : ∀ received ∈ stream, InWindow sink.headFreshFor now received.later :=
    fun received hreceived => (hwindow received hreceived).2
  -- each register holds the latest of what is stored in it, and so answers just that
  refine ⟨fun latest => ?_, fun height => ?_, fun status level hstatus slot => ?_,
    fun key now' data => ?_⟩
  · cases hidx : commitment.cacheIndex with
    | none =>
      have hnone := lookupHead_of_none hidx (stream.foldl (forward b58 commitment) sink) now
        HeadState.latest HeadState.blockhashAt
      refine iff_of_false (fun h => ?_) fun h => h.1 rfl
      exact absurd (hnone.symm.trans h) (by simp)
    | some idx =>
      rw [lookupBlockhash_stream hnew hidx hlaters, Option.map_eq_some_iff]
      simp only [latest_eq_some_iff]
      refine ⟨fun ⟨valid, hvalid, hserved⟩ => ⟨by simp, valid, hvalid, hserved.symm⟩, ?_⟩
      rintro ⟨-, valid, hvalid, hserved⟩
      exact ⟨valid, hvalid, hserved.symm⟩
  · cases hidx : commitment.cacheIndex with
    | none =>
      have hnone := lookupHead_of_none hidx (stream.foldl (forward b58 commitment) sink) now
        HeadState.blockHeight HeadState.blockHeightAt
      refine iff_of_false (fun h => ?_) fun h => h.1 rfl
      exact absurd (hnone.symm.trans h) (by simp)
    | some idx =>
      rw [lookupBlockHeight_stream hnew hidx hnows, latest_toNat_iff]
      exact ⟨fun h => ⟨by simp, h⟩, fun h => h.2⟩
  · rw [lookupSlot_stream hnew hstatus hnows, latest_toNat_iff]
  · have hempty : sink.get key = none := by
      rw [get_newAccountCache hnew]
      rfl
    rw [lookup_stream b58 commitment hempty stream now', Option.map_eq_some_iff]
    simp only [latest_eq_some_iff]
    constructor
    · rintro ⟨update, hupdate, rfl⟩
      exact ⟨update, hupdate, rfl⟩
    · rintro ⟨update, hupdate, rfl⟩
      exact ⟨update, hupdate, rfl⟩

end Main

/-- A block at slot 7, whose hash is 32 zero bytes, and late an older one with a larger height. -/
def sampleStream : List (Received Unit) :=
  [⟨.slot ⟨7, .confirmed⟩, 1000, 1001⟩,
    ⟨.blockMeta ⟨7, List.replicate 32 49, some 3⟩, 1010, 1011⟩,
    ⟨.blockMeta ⟨5, List.replicate 31 49 ++ [50], some 9⟩, 1020, 1021⟩]

/-- The older block does not replace the blockhash. -/
theorem pipe_served_late : ∃ sink, newAccountCache Account {} = some sink
    ∧ ((pipe base58 .confirmed sampleStream .eof sink).2.lookupBlockhash .confirmed 2000).1
      = some ⟨ByteArr.zero 32, 153, 7⟩
    ∧ ((pipe base58 .confirmed sampleStream .eof sink).2.lookupBlockHeight .confirmed 2000).1
      = some 9
    ∧ ((pipe base58 .confirmed sampleStream .eof sink).2.lookupSlot .confirmed 2000).1
      = some 7 := by
  have hwindow : ∀ received ∈ sampleStream,
      InWindow (orDefault 0 defaultCacheHeadFreshFor) 2000 received.now
        ∧ InWindow (orDefault 0 defaultCacheHeadFreshFor) 2000 received.later := by
    intro received hreceived
    simp only [sampleStream, List.mem_cons, List.not_mem_nil, or_false] at hreceived
    rcases hreceived with rfl | rfl | rfl
    · exact ⟨⟨by decide, by decide, by decide⟩, by decide, by decide, by decide⟩
    · exact ⟨⟨by decide, by decide, by decide⟩, by decide, by decide, by decide⟩
    · exact ⟨⟨by decide, by decide, by decide⟩, by decide, by decide, by decide⟩
  have hsome : (newAccountCache Account {}).isSome := by decide +kernel
  obtain ⟨sink, hnew⟩ := Option.isSome_iff_exists.mp hsome
  have hfresh : sink.headFreshFor = orDefault 0 defaultCacheHeadFreshFor := by
    obtain ⟨n, -, rfl⟩ := Option.map_eq_some_iff.mp hnew
    rfl
  rw [← hfresh] at hwindow
  obtain ⟨hblockhash, hheight, hslot, -⟩ :=
    @pipe_served Unit base58 .confirmed {} sink hnew sampleStream 2000 hwindow .eof
  refine ⟨sink, hnew, (hblockhash _).mpr ⟨by decide, ⟨7, 3, _⟩, ?_, rfl⟩, (hheight 9).mpr ?_,
    (hslot .confirmed .confirmed rfl 7).mpr ?_⟩
  · exact latest_eq_some_iff.mp (by decide +kernel)
  · have hheights : (sampleStream.map Received.update).filterMap heightOf = [3, 9] := rfl
    rw [hheights]
    exact ⟨by decide, by decide, List.forall_mem_cons.mpr ⟨by decide, by simp⟩⟩
  · have hslots : (sampleStream.map Received.update).filterMap (slotWith .confirmed) = [7] := rfl
    rw [hslots]
    exact ⟨by decide, by simp⟩

end SolanaGo.Yellowstone
