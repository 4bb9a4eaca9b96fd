/-
`transaction_builder.go`: `NewTransaction`, the compiler from a list of
instructions to a message.

The function is modelled stage by stage, in the order of the source:

1. `feePayerOf`: the payer option, or the first signer of the first instruction;
2. `indexAddressTables`: address → (table, position), tables in key order;
3. `collectMetas`: every account meta, then the invoked programs;
4. `sortMetas`: signers first, then writable, then by key;
5. `dedupMetas`: the in-place compaction that merges writability;
6. `movePayerFirst`: the payer rotated to the front;
7. `splitKeys`: static keys against table-loaded keys, with the header counters;
8. `indexLookups`: indexes of the loaded keys, two passes over the tables;
9. `compileInstructions`: keys replaced by indexes.

Counters and indexes keep the machine types of the source (`uint8` in the
header, `uint16` for an index), so they wrap here as they do there. A Go map is
its lookup function; a map that is ranged over is the list of its entries in the
order the range happens to visit them. The methods of an `Instruction` are
taken to answer the same on every call.
-/
import SolanaGo.Transaction
import SolanaGo.Lib.Keyed
import Mathlib.Data.List.Sort

set_option autoImplicit false

namespace SolanaGo

open Codec Keyed

/-! ## Inputs -/

/-- `type AccountMeta struct`. -/
structure AccountMeta where
  publicKey : PublicKey
  isWritable : Bool := false
  isSigner : Bool := false
  deriving DecidableEq

/-- `type Instruction interface`, as the answers of its three methods. -/
structure Instruction where
  programID : PublicKey
  accounts : List AccountMeta
  data : Except Err Bytes

/-- `map[PublicKey][]PublicKey`: the entries in iteration order. -/
structure AddressTables where
  entries : List (PublicKey × List PublicKey)
  nodup_keys : (entries.map Prod.fst).Nodup

/-- `tables[key]`, the empty slice when the key is absent. -/
def AddressTables.get (tables : AddressTables) (key : PublicKey) : List PublicKey :=
  (tables.entries.lookup key).getD []

/-- `type transactionOptions struct`. A nil map is `none`. -/
structure TransactionOptions where
  payer : PublicKey := ByteArr.zero 32
  addressTables : Option AddressTables := none

/-- The two options of the package, `TransactionPayer` and
`TransactionAddressTables`. -/
inductive TransactionOption where
  | payer (payer : PublicKey)
  | addressTables (tables : Option AddressTables)

/-- `apply`. -/
def TransactionOption.apply (opts : TransactionOptions) : TransactionOption → TransactionOptions
  | .payer p => { opts with payer := p }
  | .addressTables tables => { opts with addressTables := tables }

/-- The options after every `apply`, in order. -/
def applyOptions (opts : List TransactionOption) : TransactionOptions :=
  opts.foldl TransactionOption.apply {}

/-! ## The fee payer -/

/-- The payer option, or the first signer of the first instruction. -/
def feePayerOf (options : TransactionOptions) (first : Instruction) : Except Err PublicKey :=
  if PublicKey.isZero options.payer then
    match first.accounts.find? (·.isSigner) with
    | some m => .ok m.publicKey
    | none => .error { msg := "cannot determine fee payer: pass the TransactionPayer option, " ++
        "or make a signer the first instruction's first account" }
  else .ok options.payer

/-! ## Lookup tables -/

/-- `type lookupTableEntry struct`. -/
structure LookupTableEntry where
  table : PublicKey
  index : UInt8
  deriving DecidableEq

/-- `bytes.Compare(a[:], b[:])`. -/
def compareKeys (a b : PublicKey) : Ordering := compare a.toList b.toList

/-- `bytes.Compare(a[:], b[:]) <= 0`. -/
def KeyLE (a b : PublicKey) : Prop := (compareKeys a b).isLE = true

instance : DecidableRel KeyLE := fun _ _ => inferInstanceAs (Decidable (_ = true))

/-- `slices.SortFunc` with `compareKeys`. -/
def sortKeys (keys : List PublicKey) : List PublicKey := keys.insertionSort KeyLE

/-- The inner loop over one table: an address already indexed stays. -/
def indexTable (tableKey : PublicKey) (entries : Map PublicKey LookupTableEntry)
    (table : List PublicKey) : Map PublicKey LookupTableEntry :=
  table.zipIdx.foldl (fun entries (address, i) =>
    if (entries address).isSome then entries
    else entries.set address { table := tableKey, index := UInt8.ofNat i }) entries

/-- The loop over the sorted table keys. -/
def indexTables (tables : AddressTables) (entries : Map PublicKey LookupTableEntry) :
    List PublicKey → Except Err (Map PublicKey LookupTableEntry)
  | [] => .ok entries
  | tableKey :: keys =>
    let table := tables.get tableKey
    if 256 < table.length then
      .error { msg := "max lookup table index exceeded for %s table", keys := [tableKey] }
    else indexTables tables (indexTable tableKey entries table) keys

/-- `lookupEntries`: nil, so answering nothing, when no tables are given. -/
def indexAddressTables : Option AddressTables → Except Err (Map PublicKey LookupTableEntry)
  | none => .ok Map.empty
  | some tables =>
    if 0 < tables.entries.length then
      indexTables tables Map.empty (sortKeys (tables.entries.map Prod.fst))
    else .ok Map.empty

/-! ## Collecting, sorting and merging the metas -/

/-- The list built by `if !slices.Contains(ids, id) { ids = append(ids, id) }`. -/
def distinct (ids : List PublicKey) : List PublicKey :=
  ids.foldl (fun acc id => if id ∈ acc then acc else acc ++ [id]) []

/-- `programIDs`. -/
def programIDsOf (instructions : List Instruction) : List PublicKey :=
  distinct (instructions.map (·.programID))

/-- `metas`: the accounts of every instruction, then the programs as readonly
non-signers. -/
def collectMetas (instructions : List Instruction) : List AccountMeta :=
  instructions.flatMap (·.accounts)
    ++ (programIDsOf instructions).map fun programID => { publicKey := programID }

/-- The comparison of the sort. -/
def compareMetas (a b : AccountMeta) : Ordering :=
  if a.isSigner ≠ b.isSigner then
    if a.isSigner then .lt else .gt
  else if a.isWritable ≠ b.isWritable then
    if a.isWritable then .lt else .gt
  else compareKeys a.publicKey b.publicKey

/-- A comparison that is not positive. -/
def MetaLE (a b : AccountMeta) : Prop := (compareMetas a b).isLE = true

instance : DecidableRel MetaLE := fun _ _ => inferInstanceAs (Decidable (_ = true))

/-- `slices.SortStableFunc(metas, …)`. -/
def sortMetas (metas : List AccountMeta) : List AccountMeta := metas.insertionSort MetaLE

/-- The loop state of the deduplication: `uniq` is the first `numUniq` cells of
the array that is being read. -/
structure DedupState where
  metas : List AccountMeta
  numUniq : ℕ := 0
  uniqIndex : Map PublicKey ℕ := Map.empty

/-- Iteration `i`: merge into the cell of the key, or append. -/
def dedupStep (s : DedupState) (i : ℕ) : DedupState :=
  match s.metas[i]? with
  | none => s
  | some m =>
    match s.uniqIndex m.publicKey with
    | some k =>
      { s with metas := s.metas.modify k fun u =>
          { u with isWritable := u.isWritable || m.isWritable } }
    | none =>
      { metas := s.metas.set s.numUniq m
        numUniq := s.numUniq + 1
        uniqIndex := s.uniqIndex.set m.publicKey s.numUniq }

/-- The deduplication loop. -/
def dedupMetas (metas : List AccountMeta) : DedupState :=
  (List.range metas.length).foldl dedupStep { metas }

/-- `uniq` after the loop. -/
def DedupState.uniq (s : DedupState) : List AccountMeta := s.metas.take s.numUniq

/-- `allKeys`: the payer in front, forced signer and writable; the keys that were
before it move up by one. -/
def movePayerFirst (feePayer : PublicKey) (uniqIndex : Map PublicKey ℕ)
    (uniq : List AccountMeta) : List AccountMeta :=
  { publicKey := feePayer, isSigner := true, isWritable := true } ::
    match uniqIndex feePayer with
    | some feePayerAt => uniq.take feePayerAt ++ uniq.drop (feePayerAt + 1)
    | none => uniq

/-! ## Static and loaded keys -/

/-- `type loadedAccount struct`. -/
structure LoadedAccount where
  key : PublicKey
  table : PublicKey
  index : UInt8
  writable : Bool
  deriving DecidableEq

/-- The loop state of the split. -/
structure SplitState where
  accountKeys : List PublicKey := []
  header : MessageHeader := {}
  keyIndex : Map PublicKey UInt16 := Map.empty
  next : UInt16 := 0
  loaded : List LoadedAccount := []

/-- The header counters after one more static key. -/
def MessageHeader.count (h : MessageHeader) (m : AccountMeta) : MessageHeader :=
  if m.isSigner then
    { h with
      numRequiredSignatures := h.numRequiredSignatures + 1
      numReadonlySignedAccounts :=
        if m.isWritable then h.numReadonlySignedAccounts else h.numReadonlySignedAccounts + 1 }
  else
    { h with
      numReadonlyUnsignedAccounts :=
        if m.isWritable then h.numReadonlyUnsignedAccounts
        else h.numReadonlyUnsignedAccounts + 1 }

/-- A static key takes the next index and is counted in the header. -/
def SplitState.addStatic (s : SplitState) (m : AccountMeta) : SplitState :=
  { s with
    accountKeys := s.accountKeys ++ [m.publicKey]
    keyIndex := s.keyIndex.set m.publicKey s.next
    next := s.next + 1
    header := s.header.count m }

/-- One iteration of the split, on the key at position `idx`. -/
def splitStep (lookupEntries : Map PublicKey LookupTableEntry) (programIDs : List PublicKey)
    (s : SplitState) : AccountMeta × ℕ → SplitState
  | (m, idx) =>
    match lookupEntries m.publicKey with
    | some entry =>
      if idx ≠ 0 ∧ m.isSigner = false ∧ m.publicKey ∉ programIDs then
        { s with loaded := s.loaded ++ [{ key := m.publicKey, table := entry.table,
                                          index := entry.index, writable := m.isWritable }] }
      else s.addStatic m
    | none => s.addStatic m

/-- The split loop. -/
def splitKeys (lookupEntries : Map PublicKey LookupTableEntry) (programIDs : List PublicKey)
    (allKeys : List AccountMeta) : SplitState :=
  allKeys.zipIdx.foldl (splitStep lookupEntries programIDs) {}

/-! ## Indexes of the loaded keys -/

/-- What the two passes over the tables carry along. -/
structure IndexState where
  keyIndex : Map PublicKey UInt16
  next : UInt16

/-- The inner loop: the accounts of one table with the given writability, in
order; returns their positions in the table. -/
def indexLoaded (tableKey : PublicKey) (writable : Bool) :
    IndexState → List LoadedAccount → List UInt8 × IndexState
  | s, [] => ([], s)
  | s, l :: loaded =>
    if l.table = tableKey ∧ l.writable = writable then
      let (indexes, s) := indexLoaded tableKey writable
        { keyIndex := s.keyIndex.set l.key s.next, next := s.next + 1 } loaded
      (l.index :: indexes, s)
    else indexLoaded tableKey writable s loaded

/-- One pass over the tables; returns the positions table by table. -/
def indexPass (writable : Bool) (loaded : List LoadedAccount) :
    IndexState → List PublicKey → List (List UInt8) × IndexState
  | s, [] => ([], s)
  | s, tableKey :: tableKeys =>
    let (indexes, s) := indexLoaded tableKey writable s loaded
    let (rest, s) := indexPass writable loaded s tableKeys
    (indexes :: rest, s)

/-- `tableKeys`: the tables in use, sorted. -/
def tableKeysOf (loaded : List LoadedAccount) : List PublicKey :=
  sortKeys (distinct (loaded.map (·.table)))

/-- Both passes: all writable lookups, then all readonly lookups. -/
def indexLookups (s : IndexState) (loaded : List LoadedAccount) :
    List MessageAddressTableLookup × IndexState :=
  let tableKeys := tableKeysOf loaded
  let (writable, s) := indexPass true loaded s tableKeys
  let (readonly, s) := indexPass false loaded s tableKeys
  (List.zipWith (fun accountKey (w, r) =>
      { accountKey, writableIndexes := w, readonlyIndexes := r })
    tableKeys (List.zip writable readonly), s)

/-! ## The compiler -/

/-- The last loop: keys replaced by their indexes. A key the map does not have
reads as zero. -/
def compileInstructions (keyIndex : Map PublicKey UInt16) :
    ℕ → List Instruction → Except Err (List CompiledInstruction)
  | _, [] => .ok []
  | txIdx, instruction :: instructions => do
    let accounts := instruction.accounts.map fun m => (keyIndex m.publicKey).getD 0
    let data ← wrapErr ("encoding instruction [" ++ toString txIdx ++ "] data: ") instruction.data
    let rest ← compileInstructions keyIndex (txIdx + 1) instructions
    .ok ({ programIDIndex := (keyIndex instruction.programID).getD 0, accounts, data } :: rest)

/-- `allKeys`, from the instructions and the payer. -/
def orderedKeys (feePayer : PublicKey) (instructions : List Instruction) : List AccountMeta :=
  let s := dedupMetas (sortMetas (collectMetas instructions))
  movePayerFirst feePayer s.uniqIndex s.uniq

/-- The message without its instructions, and the index of every key. -/
def layoutMessage (recentBlockHash : Hash) (lookupEntries : Map PublicKey LookupTableEntry)
    (programIDs : List PublicKey) (allKeys : List AccountMeta) :
    Message × Map PublicKey UInt16 :=
  let s := splitKeys lookupEntries programIDs allKeys
  let message : Message := { recentBlockhash := recentBlockHash, accountKeys := s.accountKeys,
                             header := s.header }
  if 0 < s.loaded.length then
    let (lookups, i) := indexLookups { keyIndex := s.keyIndex, next := s.next } s.loaded
    (message.setAddressTableLookups lookups, i.keyIndex)
  else (message, s.keyIndex)

/-- `NewTransaction`. -/
def newTransaction (instructions : List Instruction) (recentBlockHash : Hash)
    (opts : List TransactionOption) : Except Err Transaction :=
  match instructions with
  | [] => .error { msg := "requires at least one instruction to create a transaction" }
  | first :: _ => do
    let options := applyOptions opts
    let feePayer ← feePayerOf options first
    let lookupEntries ← indexAddressTables options.addressTables
    let (message, keyIndex) := layoutMessage recentBlockHash lookupEntries
      (programIDsOf instructions) (orderedKeys feePayer instructions)
    let compiled ← compileInstructions keyIndex 0 instructions
    .ok { message := { message with instructions := compiled } }

end SolanaGo
