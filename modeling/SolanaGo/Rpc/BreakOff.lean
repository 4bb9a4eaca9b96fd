/-
A stream that breaks off inside the array of accounts.

The accounts are decoded in batches, and a batch is flushed when it is full or when the buffer
is used up. The second is meant to keep delivery prompt: before the scanner waits for more
bytes, what has arrived is delivered. But the decision is taken in one place only, right behind
an account. If the read that brought an account goes on behind it, the account stays in the
batch, and the scanner asks for more bytes while it scans the next one.

A request for more bytes is observed here by a reader that fails when it is asked: what was
delivered by then is what the call leaves behind. So a reader that breaks off after any part of
an array stands for every request made inside the array. `openAfter` says which accounts are
in the batch behind some elements, from the syntax of the array and the cut alone, and
`streamAccounts_delivered_iff` says that all complete accounts are delivered just if the last of
them closed its read or filled the batch.
-/
import SolanaGo.Rpc.StreamCorrect
import SolanaGo.Rpc.ScannerEnd

set_option autoImplicit false

namespace SolanaGo.Rpc

open Codec (Bytes)
open Buffer Json Scanner

/-! ## Batches -/

/-- The flush condition behind an element: the batch is full, or the buffer is used up. -/
def Due (pending : List Bytes) (c : Cursor) : Prop :=
  streamBatchElems ≤ pending.length ∨ streamBatchBytes ≤ (openBatch pending).length ∨ c.fin ≤ c.pos

instance (pending : List Bytes) (c : Cursor) : Decidable (Due pending c) :=
  inferInstanceAs (Decidable (_ ∨ _))

/-- Where the scanner stands right behind an element. -/
def Cursor.behind (feed : Feed) (e : Element Value) (c : Cursor) : Cursor :=
  c.value feed e.before.1.length e.value e.after

/-- The batch behind an element. -/
def batchBehind (feed : Feed) (e : Element Value) (c : Cursor) (pending : List Bytes) :
    List Bytes :=
  if Due (pending ++ [e.value.render]) (c.behind feed e) then [] else pending ++ [e.value.render]

/-- Where the scanner stands behind some elements and their commas, and the accounts in the
batch there. -/
def openAfter (feed : Feed) : List (Element Value) → Cursor → List Bytes → Cursor × List Bytes
  | [], c, pending => (c, pending)
  | e :: elems, c, pending =>
    openAfter feed elems (c.element feed e) (batchBehind feed e c pending)

/-- Some elements, each with its comma, and what follows. -/
def arrayText : List (Element Value) → Bytes → Bytes
  | [], t => t
  | e :: elems, t =>
    e.before.1 ++ (e.value.render ++ (e.after.1 ++ comma :: arrayText elems t))

/-- No value is complete: there is nothing but white space, or a value without an end. -/
def NoValue (t : Bytes) : Prop :=
  t.all isJSONSpace = true ∨ ∃ ws c cs, t = ws ++ c :: cs ∧ ws.all isJSONSpace = true
    ∧ isJSONSpace c = false ∧ spanValue {} (c :: cs) = none

/-- What has arrived behind the last complete element: white space, or also a comma and a
part of the next one. -/
def BreaksOff (after : Space) (t : Bytes) : Prop :=
  t = after.1 ∨ ∃ tail, t = after.1 ++ comma :: tail ∧ NoValue tail

section Accounts

variable {α γ : Type} {sonic : Sonic α γ} {fn : List α → α → Option String}
  {isAccount isContext : Bytes → Prop} {decode : Bytes → α} {decodeContext : Bytes → γ}

/-- The scanner behind an element has used up its buffer just if its cursor says so. -/
theorem due_iff {s : Scanner} (h : s.Inv) (pending : List Bytes) :
    (streamBatchElems ≤ pending.length ∨ streamBatchBytes ≤ (openBatch pending).length
        ∨ s.fin ≤ s.pos) ↔ Due pending s.cursor := by
  have hoffset := h.fin_le_offset
  have hused : s.fin ≤ s.pos ↔ s.cursor.fin ≤ s.cursor.pos := by
    show s.fin ≤ s.pos ↔ s.r.offset ≤ s.r.offset - s.fin + s.pos
    omega
  unfold Due
  rw [hused]

variable (fn) in
/-- With or without a flush, delivered and pending together stay the same. -/
theorem flushIfDue_cases (hsonic : DecodesBody sonic isAccount isContext decode decodeContext)
    {pending : List Bytes} (hpending : ∀ raw ∈ pending, isAccount raw) {st : Stream α γ}
    (h : st.s.Inv) :
    EndedByCallback (flushIfDue sonic fn (openBatch pending) pending.length st).1
      ∨ ∃ pending' calls', flushIfDue sonic fn (openBatch pending) pending.length st
          = (.ok (openBatch pending', pending'.length), { st with calls := calls' })
        ∧ pending' = (if Due pending st.s.cursor then [] else pending)
        ∧ calls' ++ pending'.map decode = st.calls ++ pending.map decode := by
  unfold flushIfDue
  rw [run_bind (run_get st)]
  by_cases hdue : Due pending st.s.cursor
  · rw [if_pos ((due_iff h pending).mpr hdue), if_pos hdue]
    rcases flush_cases fn hsonic hpending st with ⟨hend, -⟩ | hok
    · exact Or.inl hend
    · exact Or.inr ⟨[], _, hok, rfl, by rw [List.map_nil, List.append_nil]⟩
  · rw [if_neg (mt (due_iff h pending).mp hdue), if_neg hdue]
    exact Or.inr ⟨pending, st.calls, rfl, rfl, rfl⟩

/-- An object ends at its closing brace, whether or not more has arrived. -/
theorem scanValue_object {s : Scanner} {ws : Space} {v : Value} {t : Bytes} (hobject : IsObject v)
    (after : Space) (h : s.Inv) (hunread : s.unread = ws.1 ++ (v.render ++ t)) :
    ∃ s', scanValue s = (.ok v.render, s')
      ∧ s.Reaches t (s.cursor.value s.feed ws.1.length v after) s' := by
  cases v with
  | object pad members =>
    have hspan := spanValue_group (Or.inl rfl) (Or.inl rfl) (renderMembers_passes pad members 0) t
    rw [← Value.render] at hspan
    obtain ⟨c, cs, hhead, hc⟩ := Value.render_head (.object pad members)
    rw [hhead, List.cons_append] at hspan hunread
    obtain ⟨s', hs', hreach⟩ := scanValue_ok h ws.2 hc hunread hspan
    rw [← hhead] at hs' hreach
    refine ⟨s', hs', ?_⟩
    unfold Cursor.value
    rw [taken_of_isObject hobject]
    exact hreach
  | scalar text => exact hobject.elim
  | string text => exact hobject.elim
  | array pad elems => exact hobject.elim

/-- What is done behind an element of the array. -/
def behindElement (sonic : Sonic α γ) (fn : List α → α → Option String) (turns : ℕ)
    (pending : List Bytes) : Run α γ Unit := do
  let c ← onScanner nextNonSpace
  if c = closeBracket then
    let _ ← flush sonic fn (openBatch pending) pending.length
    return
  else if c = comma then streamLoop sonic fn turns (openBatch pending) pending.length
  else throw (.message "expected ',' or ']' after account, got %q" [c])

variable (fn) in
/-- **One account of the loop**, up to what is done behind it. -/
theorem streamLoop_account (hsonic : DecodesBody sonic isAccount isContext decode decodeContext)
    {e : Element Value} (hobject : IsObject e.value) (haccount : isAccount e.value.render)
    {pending : List Bytes} (hpending : ∀ raw ∈ pending, isAccount raw) (turns : ℕ)
    {st : Stream α γ} (h : st.s.Inv) {t : Bytes}
    (hunread : st.s.unread = e.before.1 ++ (e.value.render ++ t)) :
    EndedByCallback (streamLoop sonic fn (turns + 1) (openBatch pending) pending.length st).1
      ∨ ∃ s' calls',
        streamLoop sonic fn (turns + 1) (openBatch pending) pending.length st
          = behindElement sonic fn turns (batchBehind st.s.feed e st.s.cursor pending)
            { st with s := s', calls := calls' }
        ∧ st.s.Reaches t (st.s.cursor.behind st.s.feed e) s'
        ∧ s'.r.failure = st.s.r.failure
        ∧ calls' ++ (batchBehind st.s.feed e st.s.cursor pending).map decode
          = st.calls ++ (pending ++ [e.value.render]).map decode := by
  obtain ⟨s1, hs1, hreach⟩ := scanValue_object hobject e.after h hunread
  have hpending1 : ∀ raw ∈ pending ++ [e.value.render], isAccount raw := by
    intro raw hmem
    rcases List.mem_append.mp hmem with hmem | hmem
    · exact hpending raw hmem
    · rw [List.mem_singleton.mp hmem]
      exact haccount
  have hcount : pending.length + 1 = (pending ++ [e.value.render]).length := by
    rw [List.length_append, List.length_singleton]
  rw [streamLoop, run_bind (wrapping_ok (onScanner_ok hs1) _), openBatch_concat, hcount]
  have hinv : ({ st with s := s1 } : Stream α γ).s.Inv := hreach.inv
  rcases flushIfDue_cases fn hsonic hpending1 hinv with
    ⟨msg, hend⟩ | ⟨pending', calls', hflush, hpending', hcalls⟩
  · refine Or.inl ⟨msg, ?_⟩
    rw [run_bind_error (Prod.ext hend rfl)]
  · have hbatch : pending' = batchBehind st.s.feed e st.s.cursor pending := by
      rw [hpending']
      dsimp only
      rw [hreach.cursor]
      rfl
    rw [hbatch] at hflush hcalls
    refine Or.inr ⟨s1, calls', ?_, hreach, scanValue_failure hs1, hcalls⟩
    rw [run_bind hflush]
    rfl

variable (sonic fn) in
/-- The stream breaks off before another value is complete. -/
theorem streamLoop_noValue {msg : String} {t : Bytes} (ht : NoValue t) (turns : ℕ) (batch : Bytes)
    (count : ℕ) {st : Stream α γ} (h : st.s.Inv) (hfailure : st.s.r.failure = some msg)
    (hunread : st.s.unread = t) :
    (streamLoop sonic fn (turns + 1) batch count st).2.calls = st.calls := by
  have hscan : ∃ s', scanValue st.s = (.error (.reader msg), s') := by
    rcases ht with hws | ⟨ws, c, cs, rfl, hws, hc, hspan⟩
    · obtain ⟨s', hpeek, -⟩ := peekNonSpace_end h (by rw [hunread]; exact hws)
      rw [hfailure] at hpeek
      refine ⟨s', ?_⟩
      unfold scanValue
      rw [run_bind_error hpeek]
      rfl
    · obtain ⟨-, hend | ⟨hnone, -⟩⟩ := scanValue_end h hws hc hunread hspan
      · rw [hfailure] at hend
        exact ⟨_, Prod.ext hend rfl⟩
      · rw [hfailure] at hnone
        cases hnone
  obtain ⟨s', hs'⟩ := hscan
  have hwrapped : wrapping (α := α) (γ := γ) "account element: " (onScanner scanValue) st
      = (.error (.wrapped "account element: " (.reader msg)), { st with s := s' }) := by
    unfold wrapping onScanner
    rw [hs']
  rw [streamLoop, run_bind_error hwrapped]

variable (sonic fn) in
/-- A separator behind an element. -/
theorem behindElement_comma {after : Space} {t : Bytes} (turns : ℕ) (pending : List Bytes)
    (st : Stream α γ) (h : st.s.Inv) (hunread : st.s.unread = after.1 ++ comma :: t) :
    ∃ s', behindElement sonic fn turns pending st
        = streamLoop sonic fn turns (openBatch pending) pending.length { st with s := s' }
      ∧ st.s.Reaches t (st.s.cursor.skip st.s.feed after.1.length).step s'
      ∧ s'.r.failure = st.s.r.failure := by
  obtain ⟨s1, hpeek, hreach, hlt⟩ := peekNonSpace_ok h after.2 (by decide) hunread
  have hnext : nextNonSpace st.s = (.ok comma, { s1 with pos := s1.pos + 1 }) := by
    unfold nextNonSpace
    rw [run_bind hpeek, run_bind (advance_eq s1)]
    rfl
  have hfailure : s1.r.failure = st.s.r.failure := peekNonSpace_failure hpeek
  refine ⟨{ s1 with pos := s1.pos + 1 }, ?_, hreach.advance hlt, hfailure⟩
  unfold behindElement
  rw [run_bind (onScanner_ok hnext), if_neg (by decide), if_pos rfl]

variable (sonic fn) in
/-- Nothing more is delivered when the stream breaks off behind an element. -/
theorem behindElement_break {after : Space} {rest : Bytes} (hrest : BreaksOff after rest)
    {turns : ℕ} (hturns : 0 < turns) (pending : List Bytes) {msg : String} (st : Stream α γ)
    (h : st.s.Inv) (hfailure : st.s.r.failure = some msg) (hunread : st.s.unread = rest) :
    (behindElement sonic fn turns pending st).2.calls = st.calls := by
  rcases hrest with rfl | ⟨tail, rfl, htail⟩
  · obtain ⟨s', hnext, -⟩ := nextNonSpace_end h (by rw [hunread]; exact after.2)
    have hfails : onScanner (α := α) (γ := γ) nextNonSpace st
        = (.error (endError st.s.r.failure), { st with s := s' }) := by
      unfold onScanner
      rw [hnext]
    unfold behindElement
    rw [run_bind_error hfails]
  · obtain ⟨s', hbehind, hreach, hfailure'⟩ :=
      behindElement_comma sonic fn turns pending st h hunread
    obtain ⟨turns, rfl⟩ := Nat.exists_eq_succ_of_ne_zero (Nat.ne_of_gt hturns)
    rw [hbehind]
    exact streamLoop_noValue sonic fn htail turns _ _ hreach.inv (hfailure'.trans hfailure)
      hreach.unread

theorem blanksAfter_of_isObject {v : Value} (h : IsObject v) (after : Space) :
    blanksAfter v after = after.1 := by
  cases v with
  | object pad members => rfl
  | scalar text => exact h.elim
  | string text => exact h.elim
  | array pad elems => exact h.elim

/-- The batch stays one of accounts. -/
theorem batchBehind_accounts (feed : Feed) (c : Cursor) {e : Element Value}
    (haccount : isAccount e.value.render) {pending : List Bytes}
    (hpending : ∀ raw ∈ pending, isAccount raw) :
    ∀ raw ∈ batchBehind feed e c pending, isAccount raw := by
  intro raw hmem
  unfold batchBehind at hmem
  split at hmem
  · cases hmem
  · rcases List.mem_append.mp hmem with hmem | hmem
    · exact hpending raw hmem
    · rw [List.mem_singleton.mp hmem]
      exact haccount

/-- **The loop, broken off.** What is delivered are all complete accounts but those in the
batch behind the last of them. -/
theorem streamLoop_break (hsonic : DecodesBody sonic isAccount isContext decode decodeContext)
    {elems : List (Element Value)} {last : Element Value} {rest : Bytes}
    (hall : ∀ e ∈ elems ++ [last], IsObject e.value ∧ isAccount e.value.render)
    (hrest : BreaksOff last.after rest) {pending : List Bytes}
    (hpending : ∀ raw ∈ pending, isAccount raw) {turns : ℕ} (hturns : elems.length + 1 < turns)
    {msg : String} {st : Stream α γ} (h : st.s.Inv) (hfailure : st.s.r.failure = some msg)
    (hunread : st.s.unread
      = arrayText elems (last.before.1 ++ (last.value.render ++ rest))) :
    EndedByCallback (streamLoop sonic fn turns (openBatch pending) pending.length st).1
      ∨ (streamLoop sonic fn turns (openBatch pending) pending.length st).2.calls
          ++ (batchBehind st.s.feed last (openAfter st.s.feed elems st.s.cursor pending).1
            (openAfter st.s.feed elems st.s.cursor pending).2).map decode
        = st.calls ++ (pending ++ (elems ++ [last]).map fun e => e.value.render).map decode := by
  -- over the elements in front of the last; `pending` is the batch that is open
  induction elems generalizing turns st pending with
  | nil =>
    obtain ⟨turns, rfl⟩ := Nat.exists_eq_succ_of_ne_zero (Nat.ne_of_gt (Nat.lt_trans
      Nat.zero_lt_one hturns))
    obtain ⟨hobject, haccount⟩ := hall last (by simp)
    rcases streamLoop_account fn hsonic hobject haccount hpending turns h hunread with
      hend | ⟨s', calls', hloop, hreach, hfailure', hcalls⟩
    · exact Or.inl hend
    · refine Or.inr ?_
      have hbreak := behindElement_break sonic fn hrest (Nat.lt_of_succ_lt_succ hturns)
        (batchBehind st.s.feed last st.s.cursor pending) { st with s := s', calls := calls' }
        hreach.inv (hfailure'.trans hfailure) hreach.unread
      rw [hloop, hbreak]
      exact hcalls
  | cons e elems ih =>
    obtain ⟨turns, rfl⟩ := Nat.exists_eq_succ_of_ne_zero (Nat.ne_of_gt (Nat.lt_of_le_of_lt
      (Nat.zero_le _) hturns))
    obtain ⟨hobject, haccount⟩ := hall e (by simp)
    rcases streamLoop_account fn hsonic hobject haccount hpending turns h hunread with
      hend | ⟨s1, calls1, hloop, hreach1, hfailure1, hcalls1⟩
    · exact Or.inl hend
    · obtain ⟨s2, hbehind, hreach2, hfailure2⟩ := behindElement_comma sonic fn turns
        (batchBehind st.s.feed e st.s.cursor pending) { st with s := s1, calls := calls1 }
        hreach1.inv hreach1.unread
      dsimp only at hreach2 hfailure2
      rw [hreach1.cursor, hreach1.feed] at hreach2
      have hcursor2 : s2.cursor = st.s.cursor.element st.s.feed e := by
        rw [hreach2.cursor]
        unfold Cursor.element
        rw [blanksAfter_of_isObject hobject]
        rfl
      have hpending2 := batchBehind_accounts st.s.feed st.s.cursor haccount hpending
      have hall2 : ∀ e' ∈ elems ++ [last], IsObject e'.value ∧ isAccount e'.value.render :=
        fun e' he' => hall e' (List.mem_cons_of_mem _ he')
      have hinv2 : ({ st with s := s2, calls := calls1 } : Stream α γ).s.Inv := hreach2.inv
      have hstep := ih hall2 hpending2 (Nat.lt_of_succ_lt_succ hturns) hinv2
        ((hfailure2.trans hfailure1).trans hfailure) hreach2.unread
      rw [hloop, hbehind]
      dsimp only at hstep
      rw [hcursor2, (hreach1.trans hreach2).feed] at hstep
      rcases hstep with hend | hdelivered
      · exact Or.inl hend
      · refine Or.inr ?_
        show _ ++ List.map decode (batchBehind st.s.feed last (openAfter st.s.feed elems
          (st.s.cursor.element st.s.feed e) (batchBehind st.s.feed e st.s.cursor pending)).1
          (openAfter st.s.feed elems (st.s.cursor.element st.s.feed e)
            (batchBehind st.s.feed e st.s.cursor pending)).2) = _
        rw [hdelivered, List.map_append, ← List.append_assoc, hcalls1, List.append_assoc,
          ← List.map_append, List.append_assoc]
        rfl

/-- A scanner that stands at a byte stays there when it looks for it. -/
theorem peekNonSpace_here {s : Scanner} {c : UInt8} {t : Bytes} (h : s.Inv) (hlt : s.pos < s.fin)
    (hunread : s.unread = c :: t) (hc : isJSONSpace c = false) :
    peekNonSpace s = (.ok c, s) := by
  have hcons := unread_eq_cons h hlt s.mark
  rw [hunread, List.cons.injEq] at hcons
  unfold peekNonSpace peekLoop
  rw [if_pos hlt, ← hcons.1, if_neg (by rw [hc]; simp)]

/-- Calls that agree go on alike. -/
theorem run_bind_congr {σ β δ : Type} {x : ExceptT ScanErr (StateM σ) β}
    {f : β → ExceptT ScanErr (StateM σ) δ} {s s' : σ} (h : x s = x s') :
    (x >>= f) s = (x >>= f) s' := by
  cases hx : x s' with
  | mk result s'' =>
    cases result with
    | ok b => rw [run_bind hx, run_bind (h.trans hx)]
    | error e => rw [run_bind_error hx, run_bind_error (h.trans hx)]

/-- The first account, from its white space on or from its first byte on. -/
theorem streamLoop_peeked {st : Stream α γ} {c : UInt8} {s1 : Scanner}
    (hfirst : peekNonSpace st.s = (.ok c, s1)) (hagain : peekNonSpace s1 = (.ok c, s1))
    (turns : ℕ) (batch : Bytes) (count : ℕ) :
    streamLoop sonic fn (turns + 1) batch count { st with s := s1 }
      = streamLoop sonic fn (turns + 1) batch count st := by
  have hscan : scanValue s1 = scanValue st.s := by
    unfold scanValue
    rw [run_bind hfirst, run_bind hagain]
  have hwrapped : wrapping (α := α) (γ := γ) "account element: " (onScanner scanValue)
      { st with s := s1 } = wrapping "account element: " (onScanner scanValue) st := by
    unfold wrapping onScanner
    dsimp only
    rw [hscan]
  unfold streamLoop
  exact run_bind_congr hwrapped

/-- Elements take at least a byte each. -/
theorem length_le_arrayText (elems : List (Element Value)) (t : Bytes) :
    elems.length + t.length ≤ (arrayText elems t).length := by
  induction elems with
  | nil => exact Nat.le_of_eq (Nat.zero_add _)
  | cons e elems ih =>
    simp only [arrayText, List.length_append, List.length_cons]
    omega

variable (fn) in
/-- **`streamAccounts`, broken off.** -/
theorem streamAccounts_break (hsonic : DecodesBody sonic isAccount isContext decode decodeContext)
    {elems : List (Element Value)} {last : Element Value} {rest : Bytes}
    (hall : ∀ e ∈ elems ++ [last], IsObject e.value ∧ isAccount e.value.render)
    (hrest : BreaksOff last.after rest) {msg : String} {st : Stream α γ} (h : st.s.Inv)
    (hfailure : st.s.r.failure = some msg)
    (hunread : st.s.unread
      = arrayText elems (last.before.1 ++ (last.value.render ++ rest))) :
    EndedByCallback (streamAccounts sonic fn st).1
      ∨ (streamAccounts sonic fn st).2.calls
          ++ (batchBehind st.s.feed last (openAfter st.s.feed elems st.s.cursor []).1
            (openAfter st.s.feed elems st.s.cursor []).2).map decode
        = st.calls ++ ((elems ++ [last]).map fun e => e.value.render).map decode := by
  obtain ⟨ws, cs, hhead, hlen⟩ : ∃ (ws : Space) (cs : Bytes),
      st.s.unread = ws.1 ++ openBrace :: cs ∧ elems.length ≤ cs.length := by
    cases elems with
    | nil =>
      obtain ⟨cs, hcs⟩ := render_of_isObject (hall last (by simp)).1
      refine ⟨last.before, cs ++ rest, ?_, Nat.zero_le _⟩
      rw [hunread, arrayText, hcs, List.cons_append]
    | cons e elems =>
      obtain ⟨cs, hcs⟩ := render_of_isObject (hall e (by simp)).1
      refine ⟨e.before, cs ++ (e.after.1 ++ comma :: arrayText elems
        (last.before.1 ++ (last.value.render ++ rest))), ?_, ?_⟩
      · rw [hunread, arrayText, hcs, List.cons_append]
      · have hle := length_le_arrayText elems (last.before.1 ++ (last.value.render ++ rest))
        simp only [List.length_append, List.length_cons] at hle ⊢
        omega
  obtain ⟨s1, hs1, hreach, hlt⟩ := peekNonSpace_ok h ws.2 (by decide) hhead
  have hagain := peekNonSpace_here hreach.inv hlt hreach.unread (by decide)
  have hloop : streamAccounts sonic fn st
      = streamLoop sonic fn (s1.work + 1) [] 0 st := by
    unfold streamAccounts
    rw [run_bind (onScanner_ok hs1), if_neg (by decide), run_bind (run_get _)]
    exact streamLoop_peeked hs1 hagain _ _ _
  have hturns : elems.length + 1 < s1.work + 1 := by
    have hwork := length_unread hreach.inv
    rw [hreach.unread, List.length_cons] at hwork
    unfold work
    omega
  have hnone : ∀ raw ∈ ([] : List Bytes), isAccount raw := by simp
  rw [hloop]
  exact streamLoop_break hsonic hall hrest hnone hturns h hfailure hunread

/-- **When all complete accounts are delivered.** The stream breaks off inside the array, and the
callback has not ended the call. Every account that is there has been delivered just if the last
of them closed its read, or filled the batch. -/
theorem streamAccounts_delivered_iff
    (hsonic : DecodesBody sonic isAccount isContext decode decodeContext)
    {elems : List (Element Value)} {last : Element Value} {rest : Bytes}
    (hall : ∀ e ∈ elems ++ [last], IsObject e.value ∧ isAccount e.value.render)
    (hrest : BreaksOff last.after rest) {msg : String} {st : Stream α γ} (h : st.s.Inv)
    (hfailure : st.s.r.failure = some msg)
    (hunread : st.s.unread
      = arrayText elems (last.before.1 ++ (last.value.render ++ rest))) :
    EndedByCallback (streamAccounts sonic fn st).1
      ∨ ((streamAccounts sonic fn st).2.calls
          = st.calls ++ ((elems ++ [last]).map fun e => e.value.render).map decode
        ↔ Due ((openAfter st.s.feed elems st.s.cursor []).2 ++ [last.value.render])
          ((openAfter st.s.feed elems st.s.cursor []).1.behind st.s.feed last)) := by
  rcases streamAccounts_break fn hsonic hall hrest h hfailure hunread with hend | hbreak
  · exact Or.inl hend
  · refine Or.inr ?_
    unfold batchBehind at hbreak
    by_cases hdue : Due ((openAfter st.s.feed elems st.s.cursor []).2 ++ [last.value.render])
        ((openAfter st.s.feed elems st.s.cursor []).1.behind st.s.feed last)
    · rw [if_pos hdue, List.map_nil, List.append_nil] at hbreak
      exact iff_of_true hbreak hdue
    · rw [if_neg hdue] at hbreak
      refine iff_of_false (fun hall => ?_) hdue
      -- The batch holds at least the last account.
      rw [← hall] at hbreak
      have hnil := List.append_right_eq_self.mp hbreak
      simp at hnil

end Accounts

/-! ## An account that has arrived and is not delivered -/

/-- The stream from behind the opening bracket of `[{},{`, in reads of the given lengths. -/
def sampleBreak (cut : ℕ → ℕ) : Stream Unit Unit where
  s := { r := { rest := emptyObject ++ [comma, openBrace], cut, failure := some "reset" },
         cap := 65536 }

theorem sampleBreak_inv {cut : ℕ → ℕ} (hcut : ∀ e, 0 < cut e) : (sampleBreak cut).s.Inv :=
  ⟨Nat.le_refl _, Nat.le_refl _, Nat.le_refl _, Nat.zero_le _, Nat.succ_pos _, Nat.zero_le _, hcut⟩

/-- If the read ends with the first account, the account is delivered before the rest is asked
for. -/
theorem streamAccounts_delivered_sample :
    let last : Element Value := ⟨blank, .object blank [], blank⟩
    Due [emptyObject]
        ((sampleBreak fun _ => 2).s.cursor.behind (sampleBreak fun _ => 2).s.feed last)
      ∧ (streamAccounts sampleSonic (fun _ _ => none) (sampleBreak fun _ => 2)).2.calls = [()] := by
  have hall : ∀ e ∈ ([] : List (Element Value)) ++ [⟨blank, .object blank [], blank⟩],
      IsObject e.value ∧ e.value.render = emptyObject := by
    intro e he
    obtain rfl := List.mem_singleton.mp he
    exact ⟨trivial, by decide⟩
  have hrest : BreaksOff blank [comma, openBrace] :=
    Or.inr ⟨[openBrace], rfl, Or.inr ⟨[], openBrace, [], rfl, rfl, by decide, by decide⟩⟩
  have hdue : Due [emptyObject] ((sampleBreak fun _ => 2).s.cursor.behind
      (sampleBreak fun _ => 2).s.feed ⟨blank, .object blank [], blank⟩) := by decide +kernel
  have hunread : (sampleBreak fun _ => 2).s.unread
      = arrayText [] (blank.1 ++ (emptyObject ++ [comma, openBrace])) := by decide +kernel
  have hiff : EndedByCallback
        (streamAccounts sampleSonic (fun _ _ => none) (sampleBreak fun _ => 2)).1
      ∨ ((streamAccounts sampleSonic (fun _ _ => none) (sampleBreak fun _ => 2)).2.calls = [()]
        ↔ Due [emptyObject] ((sampleBreak fun _ => 2).s.cursor.behind
          (sampleBreak fun _ => 2).s.feed ⟨blank, .object blank [], blank⟩)) :=
    streamAccounts_delivered_iff sampleSonic_decodes hall hrest
      (sampleBreak_inv fun _ => Nat.succ_pos 1) rfl hunread
  have hresult : (streamAccounts sampleSonic (fun _ _ => none) (sampleBreak fun _ => 2)).1
      = .error (.wrapped "account element: " (.reader "reset")) := by decide +kernel
  have hgoesOn : ¬ EndedByCallback
      (streamAccounts sampleSonic (fun _ _ => none) (sampleBreak fun _ => 2)).1 := by
    rintro ⟨msg, hend⟩
    rw [hresult] at hend
    cases hend
  exact ⟨hdue, (hiff.resolve_left hgoesOn).mpr hdue⟩

/-- The body `{"result":[{},{` arrives in one read, and then the connection breaks off. The
first account is complete, and it is not delivered. -/
theorem streamProgramAccounts_withheld :
    let body := openBrace :: quote :: keyResult ++ quote :: colon :: openBracket
      :: (emptyObject ++ [comma, openBrace])
    sampleSonic.accounts (openBracket :: emptyObject ++ [closeBracket]) = .ok [()]
      ∧ streamProgramAccounts sampleSonic (fun _ _ => none)
          { rest := body, cut := fun _ => body.length, failure := some "reset" }
        = (.error (.wrapped "account element: " (.reader "reset")), []) := by
  decide +kernel

end SolanaGo.Rpc
