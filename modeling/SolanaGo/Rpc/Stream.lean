/-
`StreamProgramAccounts`: the incremental JSON splitter and the stream of accounts
it feeds.

The scanner keeps one array. `fill` moves what must survive (from `mark` on) to the
front, doubles the array if that is not enough room, and reads more bytes behind it;
every other function only moves `pos` and `mark`. What the scanner returns are views
of the array:

* the raw bytes of a value are used before the next scanner call, so the model
  returns them as bytes;
* the bytes of an object key are turned into a string only after the colon was
  scanned, and scanning the colon may refill the array. The model returns a `View`
  and reads it when the source does.

An array that was outgrown is kept in `old`, unchanged, since a view may still be of
it.

The loops of the scanner are bounded by `Scanner.work`, a number that each turn
makes smaller.
-/
import SolanaGo.Lib.Buffer
import SolanaGo.Lib.Json

set_option autoImplicit false

namespace SolanaGo.Rpc

open Codec (Bytes)
open Buffer Json

/-! ## Bytes -/

/-- `isJSONSpace`: blank, tab, newline, carriage return. -/
def isJSONSpace (c : UInt8) : Bool := c == 32 || c == 9 || c == 10 || c == 13

/-- The key `error`. -/
def keyError : Bytes := [101, 114, 114, 111, 114]
/-- The key `result`. -/
def keyResult : Bytes := [114, 101, 115, 117, 108, 116]
/-- The key `context`. -/
def keyContext : Bytes := [99, 111, 110, 116, 101, 120, 116]
/-- The key `value`. -/
def keyValue : Bytes := [118, 97, 108, 117, 101]

/-! ## Errors -/

/-- `type RPCError struct`, its `Data` as raw JSON. -/
structure RPCError where
  code : ℤ
  message : String
  data : Option Bytes := none
  deriving DecidableEq

/-- The errors of this file. -/
inductive ScanErr where
  /-- `io.ErrUnexpectedEOF` -/
  | unexpectedEOF
  /-- an error of the reader -/
  | reader (msg : String)
  /-- a format and the bytes its `%q` verbs print -/
  | message (format : String) (operands : List UInt8)
  /-- an error of the JSON decoder -/
  | sonic (msg : String)
  /-- an error of the callback -/
  | callback (msg : String)
  /-- a JSON-RPC error envelope -/
  | rpc (err : RPCError)
  /-- `fmt.Errorf("<context>%w", err)` -/
  | wrapped (context : String) (err : ScanErr)
  /-- the bound of a loop was too small, which does not happen -/
  | stuck
  deriving DecidableEq

/-! ## The reader -/

/-- An `io.Reader` over a body. How the body is cut into reads is given by the length
`cut e` of the read that starts at offset `e`; a read never returns more than it has
room for, nor more than is left. -/
structure Reader where
  /-- the bytes not yet delivered -/
  rest : Bytes
  /-- how many bytes were delivered -/
  offset : ℕ := 0
  cut : ℕ → ℕ
  /-- what the reader answers at the end: `io.EOF`, or an error of its own -/
  failure : Option String := none

/-- `Read` into `room` bytes. -/
def Reader.read (r : Reader) (room : ℕ) : Bytes × Reader :=
  let got := r.rest.take (min (r.cut r.offset) room)
  (got, { r with rest := r.rest.drop got.length, offset := r.offset + got.length })

/-! ## The scanner -/

/-- `type jsonScanner struct`. -/
structure Scanner where
  r : Reader
  /-- earlier arrays of the buffer -/
  old : List Bytes := []
  /-- the array, up to the last byte ever written to it -/
  buf : Bytes := []
  /-- `cap(buf)` -/
  cap : ℕ
  pos : ℕ := 0
  /-- `end` -/
  fin : ℕ := 0
  mark : ℕ := 0

/-- A slice of one of the scanner's arrays. -/
structure View where
  array : ℕ
  lo : ℕ
  hi : ℕ

/-- The bytes behind a view, now. -/
def Scanner.view (s : Scanner) (v : View) : Bytes :=
  slice ((s.old ++ [s.buf])[v.array]?.getD []) v.lo v.hi

/-- `buf[pos]`, for a position before `end`. -/
def Scanner.byte (s : Scanner) : UInt8 := s.buf[s.pos]?.getD 0

/-- A bound on the turns of the scanner's loops: a turn consumes a byte, or moves
bytes from the reader to the buffer. -/
def Scanner.work (s : Scanner) : ℕ := 2 * s.r.rest.length + (s.fin - s.pos)

/-- A scanner function: it may fail, and changes the scanner either way. -/
abbrev Scan := ExceptT ScanErr (StateM Scanner)

/-- The compaction of `fill`. -/
def Scanner.compact (s : Scanner) : Scanner :=
  if 0 < s.mark then
    { s with
      buf := overwrite s.buf 0 (slice s.buf s.mark s.fin)
      pos := s.pos - s.mark
      fin := s.fin - s.mark
      mark := 0 }
  else s

/-- The growth of `fill`. -/
def Scanner.grow (s : Scanner) : Scanner :=
  if s.fin = s.cap then
    { s with old := s.old ++ [s.buf], buf := s.buf.take s.fin, cap := s.cap * 2 }
  else s

/-- The read of `fill`. -/
def Scanner.refill (s : Scanner) : Scanner :=
  let (got, r) := s.r.read (s.cap - s.fin)
  { s with r, buf := overwrite s.buf s.fin got, fin := s.fin + got.length }

/-- `fill`. -/
def fill : Scan Unit := fun s =>
  let before := s.compact.grow
  let after := before.refill
  if before.fin < after.fin then (.ok (), after)
  else
    match after.r.failure with
    | none => (.error .unexpectedEOF, after)
    | some msg => (.error (.reader msg), after)

/-- The loop of `peekNonSpace`. -/
def peekLoop : ℕ → Scan UInt8
  | 0 => throw .stuck
  | turns + 1 => fun s =>
    if s.pos < s.fin then
      if isJSONSpace s.byte then peekLoop turns { s with pos := s.pos + 1, mark := s.pos + 1 }
      else (.ok s.byte, s)
    else
      match fill s with
      | (.error e, s) => (.error e, s)
      | (.ok (), s) => peekLoop turns s

/-- `peekNonSpace`. -/
def peekNonSpace : Scan UInt8 := fun s => peekLoop (s.work + 1) s

/-- `s.pos++`. -/
def advance : Scan Unit := fun s => (.ok (), { s with pos := s.pos + 1 })

/-- `nextNonSpace`. -/
def nextNonSpace : Scan UInt8 := do
  let c ← peekNonSpace
  advance
  return c

/-- `expect`. -/
def expect (want : UInt8) : Scan Unit := do
  let c ← nextNonSpace
  if c ≠ want then throw (.message "expected %q, got %q" [want, c])

/-- The loop of `scanStringRest`. -/
def scanStringLoop : ℕ → (start : ℕ) → (escaped : Bool) → Scan View
  | 0, _, _ => throw .stuck
  | turns + 1, start, escaped => fun s =>
    if s.pos < s.fin then
      let c := s.byte
      let s := { s with pos := s.pos + 1 }
      if escaped then scanStringLoop turns start false s
      else if c = backslash then scanStringLoop turns start true s
      else if c = quote then
        (.ok { array := s.old.length, lo := start, hi := s.pos - 1 }, { s with mark := s.pos })
      else scanStringLoop turns start false s
    else
      let before := s.mark
      match fill s with
      | (.error e, s) => (.error e, s)
      | (.ok (), s) => scanStringLoop turns (start - (before - s.mark)) escaped s

/-- `scanStringRest`. -/
def scanStringRest : Scan View := fun s =>
  let s := { s with mark := s.pos - 1 }
  scanStringLoop (s.work + 1) s.pos false s

/-- The local variables of `scanValue`. -/
structure ValueState where
  depth : ℕ := 0
  inString : Bool := false
  escaped : Bool := false
  deriving DecidableEq

/-- What a byte does to the value being scanned. -/
inductive ValueStep where
  /-- it belongs to the value -/
  | next (st : ValueState)
  /-- the value ends before it -/
  | endBefore
  /-- it is the last byte of the value -/
  | endAfter
  deriving DecidableEq

/-- The body of the inner loop of `scanValue`. -/
def valueByte (st : ValueState) (c : UInt8) : ValueStep :=
  if st.inString then
    if st.escaped then .next { st with escaped := false }
    else if c = backslash then .next { st with escaped := true }
    else if c = quote then
      if st.depth = 0 then .endAfter else .next { st with inString := false }
    else .next st
  else if c = quote then .next { st with inString := true }
  else if c = openBrace ∨ c = openBracket then .next { st with depth := st.depth + 1 }
  else if c = closeBrace ∨ c = closeBracket then
    -- At depth zero this is the terminator of the enclosing container.
    if st.depth = 0 then .endBefore
    else if st.depth - 1 = 0 then .endAfter
    else .next { st with depth := st.depth - 1 }
  else if c = comma then if st.depth = 0 then .endBefore else .next st
  else .next st

/-- The loop of `scanValue`. When `fill` fails `start` is not moved, although `fill`
has compacted the buffer. -/
def scanValueLoop : ℕ → (start : ℕ) → ValueState → Scan Bytes
  | 0, _, _ => throw .stuck
  | turns + 1, start, st => fun s =>
    if s.pos < s.fin then
      match valueByte st s.byte with
      | .next st => scanValueLoop turns start st { s with pos := s.pos + 1 }
      | .endBefore => (.ok (slice s.buf start s.pos), { s with mark := s.pos })
      | .endAfter =>
        (.ok (slice s.buf start (s.pos + 1)), { s with pos := s.pos + 1, mark := s.pos + 1 })
    else
      let before := s.mark
      match fill s with
      | (.error e, s) =>
        if e = .unexpectedEOF ∧ st.depth = 0 ∧ st.inString = false ∧ start < s.pos then
          (.ok (slice s.buf start s.pos), { s with mark := s.pos })
        else (.error e, s)
      | (.ok (), s) => scanValueLoop turns (start - (before - s.mark)) st s

/-- `scanValue`. -/
def scanValue : Scan Bytes := do
  let _ ← peekNonSpace
  fun s =>
    let s := { s with mark := s.pos }
    scanValueLoop (s.work + 1) s.pos {} s

/-! ## The stream -/

/-- The JSON decoder, for the three types it is asked for. -/
structure Sonic (α γ : Type) where
  /-- a JSON array of accounts -/
  accounts : Bytes → Except String (List α)
  /-- a context object -/
  context : Bytes → Except String γ
  /-- a JSON-RPC error object -/
  rpcError : Bytes → Except String RPCError

/-- The state of one call: the scanner, the accounts passed to the callback so far,
and the context. -/
structure Stream (α γ : Type) where
  s : Scanner
  calls : List α := []
  ctx : Option γ := none

section Stream

variable {α γ : Type}

/-- A part of the call. -/
abbrev Run (α γ : Type) := ExceptT ScanErr (StateM (Stream α γ))

/-- A scanner call. -/
def onScanner {β : Type} (f : Scan β) : Run α γ β := fun st =>
  let (result, s) := f st.s
  (result, { st with s })

/-- Wrap the error of a call. -/
def wrapping {β : Type} (context : String) (x : Run α γ β) : Run α γ β := fun st =>
  match x st with
  | (.error e, st) => (.error (.wrapped context e), st)
  | (.ok b, st) => (.ok b, st)

/-- A member of the object, its opening quote consumed: the key, the colon, and the
callback on the key. The key is read after the colon was scanned. -/
def scanMember (fn : Bytes → Run α γ Unit) : Run α γ Unit := do
  let key ← onScanner scanStringRest
  onScanner (expect colon)
  let st ← get
  fn (st.s.view key)

/-- The loop of `forEachKey`. -/
def forEachKeyLoop (fn : Bytes → Run α γ Unit) : ℕ → (first : Bool) → Run α γ Unit
  | 0, _ => throw .stuck
  | turns + 1, first => do
    let c ← onScanner nextNonSpace
    if c = closeBrace then pure ()
    else
      let c ←
        if first then pure c
        else if c ≠ comma then throw (.message "expected ',' between object keys, got %q" [c])
        else onScanner nextNonSpace
      if c ≠ quote then throw (.message "expected object key, got %q" [c])
      else
        scanMember fn
        forEachKeyLoop fn turns false

/-- `forEachKey`. -/
def forEachKey (fn : Bytes → Run α γ Unit) : Run α γ Unit := do
  let st ← get
  forEachKeyLoop fn (st.s.work + 1) true

/-- `streamBatchElems`. -/
def streamBatchElems : ℕ := 32

/-- `streamBatchBytes`. -/
def streamBatchBytes : ℕ := 262144

variable (sonic : Sonic α γ) (fn : List α → α → Option String)

/-- The callback loop of `flush`. What the callback answers may depend on its earlier
calls. -/
def deliver : List α → Run α γ Unit
  | [] => pure ()
  | account :: accounts => do
    let st ← get
    set { st with calls := st.calls ++ [account] }
    match fn st.calls account with
    | some msg => throw (.callback msg)
    | none => deliver accounts

/-- `flush`: the batch and its count afterwards. -/
def flush (batch : Bytes) (count : ℕ) : Run α γ (Bytes × ℕ) :=
  if count = 0 then pure (batch, count)
  else
    match sonic.accounts (batch ++ [closeBracket]) with
    | .error msg => throw (.wrapped "decoding accounts: " (.sonic msg))
    | .ok accounts => do
      deliver fn accounts
      return ([], 0)

/-- The flush inside the loop: when the batch is full, or when the buffer is used up, so
that the next read may block. -/
def flushIfDue (batch : Bytes) (count : ℕ) : Run α γ (Bytes × ℕ) := do
  let st ← get
  if streamBatchElems ≤ count ∨ streamBatchBytes ≤ batch.length ∨ st.s.fin ≤ st.s.pos then
    flush sonic fn batch count
  else pure (batch, count)

/-- The loop of `streamAccounts`. -/
def streamLoop : ℕ → (batch : Bytes) → (count : ℕ) → Run α γ Unit
  | 0, _, _ => throw .stuck
  | turns + 1, batch, count => do
    let raw ← wrapping "account element: " (onScanner scanValue)
    let (batch, count) ←
      flushIfDue sonic fn (batch ++ (if count = 0 then openBracket else comma) :: raw) (count + 1)
    let c ← onScanner nextNonSpace
    if c = closeBracket then
      let _ ← flush sonic fn batch count
      return
    else if c = comma then streamLoop turns batch count
    else throw (.message "expected ',' or ']' after account, got %q" [c])

/-- `streamAccounts`. -/
def streamAccounts : Run α γ Unit := do
  let c ← onScanner peekNonSpace
  if c = closeBracket then onScanner advance
  else
    let st ← get
    streamLoop sonic fn (st.s.work + 1) [] 0

/-- The keys of the result object. -/
def resultKey (key : Bytes) : Run α γ Unit :=
  if key = keyContext then do
    let raw ← onScanner scanValue
    match sonic.context raw with
    | .error msg => throw (.wrapped "context: " (.sonic msg))
    | .ok ctx => modify fun st => { st with ctx := some ctx }
  else if key = keyValue then do
    wrapping "result value: " (onScanner (expect openBracket))
    streamAccounts sonic fn
  else do
    let _ ← onScanner scanValue

/-- The keys of the envelope. -/
def envelopeKey (key : Bytes) : Run α γ Unit :=
  if key = keyError then do
    let raw ← onScanner scanValue
    match sonic.rpcError raw with
    | .error msg => throw (.wrapped "error object: " (.sonic msg))
    | .ok err => throw (.rpc err)
  else if key = keyResult then do
    let c ← onScanner peekNonSpace
    if c = openBracket then
      onScanner advance
      streamAccounts sonic fn
    else if c = openBrace then
      onScanner advance
      forEachKey (resultKey sonic fn)
    else
      let _ ← onScanner scanValue
  else do
    let _ ← onScanner scanValue

/-- The body of `StreamProgramAccounts`. -/
def envelope : Run α γ Unit := do
  wrapping "response envelope: " (onScanner (expect openBrace))
  forEachKey (envelopeKey sonic fn)

/-- `StreamProgramAccounts`: what it returns, and the accounts passed to the
callback. -/
def streamProgramAccounts (r : Reader) : Except ScanErr (Option γ) × List α :=
  match envelope sonic fn { s := { r, cap := 65536 } } with
  | (.error e, st) => (.error e, st.calls)
  | (.ok (), st) => (.ok st.ctx, st.calls)

end Stream

end SolanaGo.Rpc
