/-
`StreamProgramAccounts` on a success body.

A body is a JSON object; what the call should deliver is read off its syntax
(`outcome`). The scanner functions do the right thing wherever the reads fall, so
the call delivers just that as long as every key it looks at is the key in the body.
That can go wrong in one place: the key is a view of the buffer and is read after
its colon was scanned, and a read made in between writes to the front of the same
array. Where the key lies in the array follows from the syntax in front of it and the
cut (`Cursor`), so whether a read reaches it can be said of the body and the cut
alone (`keysKept`). The call is right whenever no read reaches a key
(`streamProgramAccounts_ok`), and one that does is enough to make it lose the whole
result (`streamProgramAccounts_overwritten`).
-/
import SolanaGo.Rpc.Split

set_option autoImplicit false

namespace SolanaGo.Rpc

open Codec (Bytes)
open Buffer Json Scanner

/-! ## Bodies -/

/-- The key is written without escapes. -/
def PlainKey (m : Member Value) : Prop := backslash ∉ m.key.1

section Bodies

variable (isAccount isContext : Bytes → Prop)

/-- An array of account objects. -/
def AccountArray : Value → Prop
  | .array _ elems => ∀ e ∈ elems, IsObject e.value ∧ isAccount e.value.render
  | _ => False

/-- The members of a result with context. -/
def ResultObject (members : List (Member Value)) : Prop :=
  ∀ m ∈ members, PlainKey m
    ∧ (m.key.1 = keyContext → IsObject m.value ∧ isContext m.value.render)
    ∧ (m.key.1 = keyValue → AccountArray isAccount m.value)

/-- A result: the array of accounts, or an object with context and array. -/
def ResultValue : Value → Prop
  | .object _ members => ResultObject isAccount isContext members
  | v => AccountArray isAccount v

/-- The members of a success envelope. -/
def SuccessEnvelope (members : List (Member Value)) : Prop :=
  ∀ m ∈ members, PlainKey m ∧ m.key.1 ≠ keyError
    ∧ (m.key.1 = keyResult → ResultValue isAccount isContext m.value)

end Bodies

/-- What a body holds: the texts of the accounts, in order, and that of the context. -/
structure Outcome where
  accounts : List Bytes := []
  context : Option Bytes := none

/-- The texts of the elements of an array. -/
def elementTexts : Value → List Bytes
  | .array _ elems => elems.map fun e => e.value.render
  | _ => []

/-- What a member of a result object adds. -/
def Outcome.addResult (out : Outcome) (m : Member Value) : Outcome :=
  if m.key.1 = keyContext then { out with context := some m.value.render }
  else if m.key.1 = keyValue then { out with accounts := out.accounts ++ elementTexts m.value }
  else out

/-- What a result adds. -/
def Outcome.addValue (out : Outcome) : Value → Outcome
  | .object _ members => members.foldl Outcome.addResult out
  | v => { out with accounts := out.accounts ++ elementTexts v }

/-- What a member of the envelope adds. -/
def Outcome.addMember (out : Outcome) (m : Member Value) : Outcome :=
  if m.key.1 = keyResult then out.addValue m.value else out

/-- What the envelope holds. -/
def outcome (members : List (Member Value)) : Outcome := members.foldl Outcome.addMember {}

/-! ## Where the keys are

The scanner's offsets at each key, from the syntax of the body. -/

namespace Cursor

variable (feed : Feed)

/-- Up to the closing quote of the key of a member. -/
def key (m : Member Value) (c : Cursor) : Cursor :=
  string feed m.key.1.length (skip feed m.before.1.length c).step

/-- Up to the colon of a member. -/
def colon (m : Member Value) (c : Cursor) : Cursor :=
  (skip feed m.mid.1.length (key feed m c)).step

/-- The key of a member is empty, or no read made between it and its colon is longer than the
part of the array in front of the key. -/
def keyKept (m : Member Value) (c : Cursor) : Bool :=
  let start := (skip feed m.before.1.length c).step.pos
  let k := key feed m c
  m.key.1.isEmpty || readsWithin feed (start - k.base) m.mid.1.length k

/-- Over an element of the array and the comma or bracket behind it. -/
def element (c : Cursor) (e : Element Value) : Cursor :=
  (skip feed (blanksAfter e.value e.after).length
    (value feed e.before.1.length e.value e.after c)).step

/-- Over the array, from behind its opening bracket. The white space in front of the
first element is dropped before the loop over the elements starts. -/
def array (pad : Space) (elems : List (Element Value)) (c : Cursor) : Cursor :=
  match elems with
  | [] => (skip feed pad.1.length c).step
  | e :: elems =>
    ({ e with before := blank } :: elems).foldl (element feed) (skip feed e.before.1.length c)

section Object

variable (across : Member Value → Cursor → Cursor)

/-- Over a member and the comma or brace behind it, where `across` goes over its value. -/
def past (c : Cursor) (m : Member Value) : Cursor :=
  (skip feed (blanksAfter m.value m.after).length (across m (colon feed m c))).step

/-- Over an object, from behind its opening brace. -/
def object (pad : Space) (members : List (Member Value)) (c : Cursor) : Cursor :=
  match members with
  | [] => (skip feed pad.1.length c).step
  | m :: members => members.foldl (past feed across) (past feed across c m)

/-- A property of the members and the places in front of them. -/
def each (p : Member Value → Cursor → Bool) : List (Member Value) → Cursor → Bool
  | [], _ => true
  | m :: members, c => p m c && each p members (past feed across c m)

end Object

/-- Over a value that is skipped or decoded as a whole. -/
def whole (m : Member Value) (c : Cursor) : Cursor :=
  value feed m.beforeValue.1.length m.value m.after c

/-- Up to the opening bracket or brace of the value of a member. -/
def enter (m : Member Value) (c : Cursor) : Cursor := (skip feed m.beforeValue.1.length c).step

/-- Over the value of a member of the result object. -/
def resultMember (m : Member Value) (c : Cursor) : Cursor :=
  if m.key.1 = keyValue then
    match m.value with
    | .array pad elems => array feed pad elems (enter feed m c)
    | _ => whole feed m c
  else whole feed m c

/-- Over the value of a member of the envelope. -/
def envelopeMember (m : Member Value) (c : Cursor) : Cursor :=
  if m.key.1 = keyResult then
    match m.value with
    | .array pad elems => array feed pad elems (enter feed m c)
    | .object pad members => object feed (resultMember feed) pad members (enter feed m c)
    | _ => whole feed m c
  else whole feed m c

/-- The key of a member of the envelope is kept, and if it is the result then those of
the result object. -/
def memberKept (m : Member Value) (c : Cursor) : Bool :=
  keyKept feed m c &&
    match m.value with
    | .object _ members =>
      !decide (m.key.1 = keyResult)
        || each feed (resultMember feed) (keyKept feed) members (enter feed m (colon feed m c))
    | _ => true

end Cursor

/-- The scanner before the first read. -/
def startCursor : Cursor := ⟨0, 0, 0, 0, 65536⟩

/-- **When every key is read as it was scanned.** For every key of the envelope, and of
the result object, that is not empty, no read made between the key and its colon is longer
than the part of the array in front of the key. -/
def keysKept (feed : Feed) (lead : Space) (members : List (Member Value)) : Bool :=
  Cursor.each feed (Cursor.envelopeMember feed) (Cursor.memberKept feed) members
    (Cursor.skip feed lead.1.length startCursor).step

/-! ## Members -/

section Run

variable {α γ : Type}

theorem onScanner_ok {β : Type} {f : Scan β} {st : Stream α γ} {b : β} {s' : Scanner}
    (h : f st.s = (.ok b, s')) : onScanner f st = (.ok b, { st with s := s' }) := by
  unfold onScanner
  rw [h]

theorem wrapping_ok {β : Type} {x : Run α γ β} {st st' : Stream α γ} {b : β}
    (h : x st = (.ok b, st')) (context : String) : wrapping context x st = (.ok b, st') := by
  unfold wrapping
  rw [h]

theorem run_get {σ : Type} (s : σ) :
    (get : ExceptT ScanErr (StateM σ) σ) s = (.ok s, s) := rfl

theorem run_pure {σ β : Type} (b : β) (s : σ) :
    (pure b : ExceptT ScanErr (StateM σ) β) s = (.ok b, s) := rfl

/-- The contents of a string without backslash have no quote either. -/
theorem plain_of_isStringText {text : Bytes} (h : isStringText text = true)
    (hplain : backslash ∉ text) : ∀ c ∈ text, c ≠ quote ∧ c ≠ backslash := by
  fun_induction isStringText text with
  | case1 => simp
  | case2 c =>
    simp only [Bool.and_eq_true, bne_iff_ne] at h
    simpa using h
  | case3 c c' cs hesc ih =>
    rw [beq_iff_eq] at hesc
    exact absurd (hesc ▸ List.mem_cons_self) hplain
  | case4 c c' cs hesc ih =>
    rw [Bool.and_eq_true, bne_iff_ne] at h
    rw [beq_iff_eq] at hesc
    intro b hb
    rcases List.mem_cons.mp hb with rfl | hb
    · exact ⟨h.1, hesc⟩
    · exact ih h.2 (fun hmem => hplain (List.mem_cons_of_mem _ hmem)) b hb

variable {decode : Bytes → α} {decodeContext : Bytes → γ}

/-- The stream has delivered what the outcome says. -/
def Holds (decode : Bytes → α) (decodeContext : Bytes → γ) (st : Stream α γ) (out : Outcome) :
    Prop :=
  st.calls = out.accounts.map decode ∧ st.ctx = out.context.map decodeContext

/-- What a callback of `forEachKey` does with the value of a member: it consumes the
value, and adds to the outcome. -/
def Handles (decode : Bytes → α) (decodeContext : Bytes → γ) (feed : Feed)
    (fn : Bytes → Run α γ Unit) (add : Outcome → Member Value → Outcome)
    (across : Member Value → Cursor → Cursor) (m : Member Value) (k : Cursor) : Prop :=
  ∀ (st : Stream α γ) (out : Outcome) (c : UInt8) (t : Bytes), IsTerminator c → st.s.Inv →
    st.s.feed = feed → st.s.cursor = k → Holds decode decodeContext st out →
    st.s.unread = m.beforeValue.1 ++ (m.value.render ++ (m.after.1 ++ c :: t)) →
    ∃ st', fn m.key.1 st = (.ok (), st')
      ∧ st.s.Reaches (blanksAfter m.value m.after ++ c :: t) (across m k) st'.s
      ∧ Holds decode decodeContext st' (add out m)

/-- What the walk over an object needs of a member: a plain key that is kept, and a
callback that handles it. -/
structure Walkable (decode : Bytes → α) (decodeContext : Bytes → γ) (feed : Feed)
    (fn : Bytes → Run α γ Unit) (add : Outcome → Member Value → Outcome)
    (across : Member Value → Cursor → Cursor) (m : Member Value) (k : Cursor) : Prop where
  plain : PlainKey m
  kept : Cursor.keyKept feed m k = true
  handles : Handles decode decodeContext feed fn add across m (k.colon feed m)

/-- Every member met on the walk is walkable. -/
def WalkableAll (decode : Bytes → α) (decodeContext : Bytes → γ) (feed : Feed)
    (fn : Bytes → Run α γ Unit) (add : Outcome → Member Value → Outcome)
    (across : Member Value → Cursor → Cursor) : List (Member Value) → Cursor → Prop
  | [], _ => True
  | m :: members, k => Walkable decode decodeContext feed fn add across m k
    ∧ WalkableAll decode decodeContext feed fn add across members (k.past feed across m)

section Walk

variable {feed : Feed} {fn : Bytes → Run α γ Unit} {add : Outcome → Member Value → Outcome}
  {across : Member Value → Cursor → Cursor}

/-- **One member.** If its key is kept, the callback gets the key of the body. -/
theorem scanMember_ok {m : Member Value} {k : Cursor}
    (hm : Walkable decode decodeContext feed fn add across m k) (st : Stream α γ) {out : Outcome}
    {c : UInt8} {t : Bytes} (hc : IsTerminator c) (h : st.s.Inv) (hpos : 0 < st.s.pos)
    (hfeed : st.s.feed = feed) (hk : st.s.cursor = (k.skip feed m.before.1.length).step)
    (hout : Holds decode decodeContext st out)
    (hunread : st.s.unread = m.key.1 ++ quote :: (m.mid.1 ++ colon
      :: (m.beforeValue.1 ++ (m.value.render ++ (m.after.1 ++ c :: t))))) :
    ∃ st', scanMember fn st = (.ok (), st')
      ∧ st.s.Reaches (blanksAfter m.value m.after ++ c :: t) (across m (k.colon feed m)) st'.s
      ∧ Holds decode decodeContext st' (add out m) := by
  have hspan := spanString_plain (plain_of_isStringText m.key.2 hm.plain)
    (m.mid.1 ++ colon :: (m.beforeValue.1 ++ (m.value.render ++ (m.after.1 ++ c :: t))))
  rw [← hunread] at hspan
  obtain ⟨s1, lo, hi, hs1, hreach1, hmark, hlo, hhi, hview⟩ := scanStringRest_ok h hpos hspan
  have hfeed1 : s1.feed = feed := hreach1.feed.trans hfeed
  have hcursor1 : s1.cursor = k.key feed m := by
    rw [hreach1.cursor, hfeed, hk]
    rfl
  -- The key starts `lo` bytes into the array.
  have hreads : hi ≤ lo ∨ s1.cursor.readsWithin s1.feed lo m.mid.1.length = true := by
    have hkept := hm.kept
    unfold Cursor.keyKept at hkept
    dsimp only at hkept
    rw [← hk, ← hlo, hcursor1, Nat.add_sub_cancel_left, Bool.or_eq_true] at hkept
    rw [hcursor1, hfeed1]
    refine hkept.imp_left fun hnil => ?_
    have hlen : (Buffer.slice s1.buf lo hi).length = hi - lo :=
      Buffer.length_slice (hhi.trans (hreach1.inv.pos_le.trans hreach1.inv.fin_le))
    rw [hview, List.isEmpty_iff.mp hnil, List.length_nil] at hlen
    omega
  obtain ⟨s2, hs2, hreach2, hkey2⟩ := expect_view hreach1.inv hmark m.mid.2 hreach1.unread hreads
  have hcursor2 : s2.cursor = k.colon feed m := by
    rw [hreach2.cursor, hcursor1, hfeed1]
    rfl
  have hreach := hreach1.trans hreach2
  obtain ⟨st', hst', hr, hout'⟩ := hm.handles { st with s := s2 } out c t hc hreach.inv
    (hreach.feed.trans hfeed) hcursor2 hout hreach.unread
  refine ⟨st', ?_, hreach.trans hr, hout'⟩
  unfold scanMember
  rw [run_bind (onScanner_ok hs1), run_bind (onScanner_ok hs2), run_bind (run_get _)]
  show fn (s2.view _) _ = _
  rw [hkey2, hview]
  exact hst'

/-- What follows a member is its terminator. -/
theorem moreMembers_terminator (members : List (Member Value)) (t : Bytes) :
    ∃ c t', moreMembers members ++ closeBrace :: t = c :: t' ∧ IsTerminator c := by
  cases members with
  | nil => exact ⟨closeBrace, t, by rw [moreMembers, List.nil_append], Or.inr (Or.inl rfl)⟩
  | cons m members => exact ⟨comma, _, by rw [moreMembers_cons, List.cons_append], Or.inl rfl⟩

/-- A member from its white space on, with what follows it. -/
theorem walkMember_ok {m : Member Value} (members : List (Member Value))
    (st : Stream α γ) (hm : Walkable decode decodeContext feed fn add across m st.s.cursor)
    {out : Outcome} {t : Bytes} (h : st.s.Inv) (hfeed : st.s.feed = feed)
    (hout : Holds decode decodeContext st out)
    (hunread : st.s.unread
      = m.text m.value.render ++ (moreMembers members ++ closeBrace :: t)) :
    ∃ s1 st', nextNonSpace st.s = (.ok quote, s1)
      ∧ scanMember fn { st with s := s1 } = (.ok (), st')
      ∧ st.s.Reaches (blanksAfter m.value m.after ++ (moreMembers members ++ closeBrace :: t))
        (across m (st.s.cursor.colon feed m)) st'.s
      ∧ Holds decode decodeContext st' (add out m) := by
  obtain ⟨c, t', hterm, hc⟩ := moreMembers_terminator members t
  rw [hterm] at hunread
  unfold Member.text at hunread
  simp only [List.append_assoc, List.cons_append] at hunread
  obtain ⟨s1, hs1, hreach, hpos⟩ := nextNonSpace_ok h m.before.2 (by decide) hunread
  have hcursor : s1.cursor = (st.s.cursor.skip feed m.before.1.length).step := by
    rw [hreach.cursor, hfeed]
  obtain ⟨st', hst', hr, hout'⟩ := scanMember_ok hm { st with s := s1 } hc hreach.inv hpos
    (hreach.feed.trans hfeed) hcursor hout hreach.unread
  rw [hterm]
  exact ⟨s1, st', hs1, hst', hreach.trans hr, hout'⟩

/-- The walk from behind a member: its comma or brace is the next byte that is not white
space, and `k` is the place behind that. -/
theorem forEachKeyLoop_more {members : List (Member Value)} {k : Cursor}
    (hall : WalkableAll decode decodeContext feed fn add across members k) {turns : ℕ}
    (hturns : members.length < turns) {st : Stream α γ} {out : Outcome} {ws t : Bytes}
    (h : st.s.Inv) (hfeed : st.s.feed = feed) (hk : (st.s.cursor.skip feed ws.length).step = k)
    (hout : Holds decode decodeContext st out) (hws : ws.all isJSONSpace = true)
    (hunread : st.s.unread = ws ++ (moreMembers members ++ closeBrace :: t)) :
    ∃ st', forEachKeyLoop fn turns false st = (.ok (), st')
      ∧ st.s.Reaches t (members.foldl (Cursor.past feed across) k) st'.s
      ∧ Holds decode decodeContext st' (members.foldl add out) := by
  -- One turn of the loop takes one member, and the last turn the closing brace.
  induction members generalizing turns st out ws k with
  | nil =>
    obtain ⟨turns, rfl⟩ := Nat.exists_eq_succ_of_ne_zero (Nat.ne_of_gt hturns)
    rw [moreMembers, List.nil_append] at hunread
    obtain ⟨s1, hs1, hreach, _⟩ := nextNonSpace_ok h hws (by decide) hunread
    rw [hfeed, hk] at hreach
    refine ⟨{ st with s := s1 }, ?_, hreach, hout⟩
    unfold forEachKeyLoop
    rw [run_bind (onScanner_ok hs1), if_pos rfl]
    rfl
  | cons m members ih =>
    obtain ⟨turns, rfl⟩ := Nat.exists_eq_succ_of_ne_zero (Nat.ne_of_gt (Nat.lt_of_le_of_lt
      (Nat.zero_le _) hturns))
    rw [moreMembers_cons, List.cons_append, List.append_assoc] at hunread
    obtain ⟨s1, hs1, hreach1, _⟩ := nextNonSpace_ok h hws (by decide) hunread
    rw [hfeed, hk] at hreach1
    have hm : Walkable decode decodeContext feed fn add across m s1.cursor := by
      rw [hreach1.cursor]
      exact hall.1
    obtain ⟨s2, st3, hs2, hst3, hreach3, hout3⟩ := walkMember_ok members { st with s := s1 } hm
      hreach1.inv (hreach1.feed.trans hfeed) hout hreach1.unread
    have hreach := hreach1.trans hreach3
    have hk3 : (st3.s.cursor.skip feed (blanksAfter m.value m.after).length).step
        = k.past feed across m := by
      rw [hreach3.cursor]
      dsimp only
      rw [hreach1.cursor]
      rfl
    obtain ⟨st', hst', hreach', hout'⟩ := ih hall.2 (Nat.lt_of_succ_lt_succ hturns) hreach.inv
      (hreach.feed.trans hfeed) hk3 hout3 (blanksAfter_isSpace _ _) hreach.unread
    refine ⟨st', ?_, hreach.trans hreach', hout'⟩
    unfold forEachKeyLoop
    rw [run_bind (onScanner_ok hs1), if_neg (by decide), if_neg (by decide),
      if_neg (not_not.mpr rfl), run_bind (onScanner_ok hs2)]
    dsimp only
    rw [if_neg (not_not.mpr rfl), run_bind hst3]
    exact hst'

/-- **`forEachKey`.** -/
theorem forEachKey_ok {pad : Space} {members : List (Member Value)} (st : Stream α γ)
    (hall : WalkableAll decode decodeContext feed fn add across members st.s.cursor)
    {out : Outcome} {t : Bytes} (h : st.s.Inv) (hfeed : st.s.feed = feed)
    (hout : Holds decode decodeContext st out)
    (hunread : st.s.unread = renderMembers pad members ++ closeBrace :: t) :
    ∃ st', forEachKey fn st = (.ok (), st')
      ∧ st.s.Reaches t (st.s.cursor.object feed across pad members) st'.s
      ∧ Holds decode decodeContext st' (members.foldl add out) := by
  have hwork : st.s.unread.length ≤ st.s.work := by
    rw [length_unread h]
    unfold work
    omega
  unfold forEachKey
  rw [run_bind (run_get _)]
  unfold forEachKeyLoop
  cases members with
  | nil =>
    rw [renderMembers] at hunread
    obtain ⟨s1, hs1, hreach, _⟩ := nextNonSpace_ok h pad.2 (by decide) hunread
    rw [hfeed] at hreach
    refine ⟨{ st with s := s1 }, ?_, hreach, hout⟩
    rw [run_bind (onScanner_ok hs1), if_pos rfl]
    rfl
  | cons m members =>
    rw [renderMembers_cons, List.append_assoc] at hunread
    obtain ⟨s1, st2, hs1, hst2, hreach2, hout2⟩ :=
      walkMember_ok members st hall.1 h hfeed hout hunread
    have hturns : members.length < st.s.work := by
      have hle := length_le_moreMembers members
      rw [hunread, List.length_append, List.length_append, List.length_cons] at hwork
      omega
    have hk2 : (st2.s.cursor.skip feed (blanksAfter m.value m.after).length).step
        = st.s.cursor.past feed across m := by
      rw [hreach2.cursor]
      rfl
    obtain ⟨st', hst', hreach', hout'⟩ := forEachKeyLoop_more hall.2 hturns hreach2.inv
      (hreach2.feed.trans hfeed) hk2 hout2 (blanksAfter_isSpace _ _) hreach2.unread
    refine ⟨st', ?_, hreach2.trans hreach', hout'⟩
    rw [run_bind (onScanner_ok hs1), if_neg (by decide), if_pos rfl, run_bind (run_pure _ _)]
    dsimp only
    rw [if_neg (not_not.mpr rfl), run_bind hst2]
    exact hst'

end Walk

/-! ## Accounts -/

/-- A batch without its closing bracket. -/
def openBatch : List Bytes → Bytes
  | [] => []
  | raw :: raws => openBracket :: (raw ++ raws.flatMap fun r => comma :: r)

/-- One more element in the batch. -/
theorem openBatch_concat (pending : List Bytes) (raw : Bytes) :
    openBatch pending ++ (if pending.length = 0 then openBracket else comma) :: raw
      = openBatch (pending ++ [raw]) := by
  cases pending with
  | nil => simp [openBatch]
  | cons first rest => simp [openBatch, List.flatMap_append]

/-- The JSON decoder decodes every batch of accounts, and every context. -/
structure DecodesBody (sonic : Sonic α γ) (isAccount isContext : Bytes → Prop)
    (decode : Bytes → α) (decodeContext : Bytes → γ) : Prop where
  accounts : ∀ raws : List Bytes, raws ≠ [] → (∀ raw ∈ raws, isAccount raw) →
    sonic.accounts (openBatch raws ++ [closeBracket]) = .ok (raws.map decode)
  context : ∀ raw, isContext raw → sonic.context raw = .ok (decodeContext raw)

section Accounts

variable {sonic : Sonic α γ} {fn : List α → α → Option String}
  {isAccount isContext : Bytes → Prop}

/-- The callback has ended the call. -/
def EndedByCallback {β : Type} (result : Except ScanErr β) : Prop :=
  ∃ msg, result = .error (.callback msg)

variable (fn) in
theorem deliver_cases (accounts : List α) (st : Stream α γ) :
    EndedByCallback (deliver fn accounts st).1 ∧ (∃ calls account, fn calls account ≠ none)
      ∨ deliver fn accounts st = (.ok (), { st with calls := st.calls ++ accounts }) := by
  induction accounts generalizing st with
  | nil =>
    refine Or.inr ?_
    rw [List.append_nil]
    rfl
  | cons account accounts ih =>
    have hset : (set { st with calls := st.calls ++ [account] } : Run α γ PUnit) st
        = (.ok ⟨⟩, { st with calls := st.calls ++ [account] }) := rfl
    unfold deliver
    rw [run_bind (run_get st), run_bind hset]
    cases hfn : fn st.calls account with
    | some msg => exact Or.inl ⟨⟨msg, rfl⟩, st.calls, account, by simp [hfn]⟩
    | none =>
      dsimp only
      rcases ih { st with calls := st.calls ++ [account] } with hend | hok
      · exact Or.inl hend
      · refine Or.inr ?_
        rw [hok, List.append_assoc, List.singleton_append]

variable (fn) in
/-- A flush delivers what is pending, unless the callback ends the call. -/
theorem flush_cases (hsonic : DecodesBody sonic isAccount isContext decode decodeContext)
    {pending : List Bytes} (hpending : ∀ raw ∈ pending, isAccount raw) (st : Stream α γ) :
    EndedByCallback (flush sonic fn (openBatch pending) pending.length st).1
        ∧ (∃ calls account, fn calls account ≠ none)
      ∨ flush sonic fn (openBatch pending) pending.length st
        = (.ok ([], 0), { st with calls := st.calls ++ pending.map decode }) := by
  unfold flush
  cases pending with
  | nil =>
    refine Or.inr ?_
    rw [if_pos List.length_nil, List.map_nil, List.append_nil]
    rfl
  | cons first rest =>
    rw [if_neg (by simp), hsonic.accounts _ (by simp) hpending]
    dsimp only
    rcases deliver_cases fn ((first :: rest).map decode) st with ⟨⟨msg, hend⟩, hfn⟩ | hok
    · refine Or.inl ⟨⟨msg, ?_⟩, hfn⟩
      rw [run_bind_error (Prod.ext hend rfl)]
    · refine Or.inr ?_
      rw [run_bind hok]
      rfl

theorem render_of_isObject {v : Value} (h : IsObject v) : ∃ cs, v.render = openBrace :: cs := by
  cases v with
  | object pad members => exact ⟨_, by rw [Value.render]⟩
  | scalar text => exact h.elim
  | string text => exact h.elim
  | array pad elems => exact h.elim

/-- A member that is skipped. -/
theorem skip_ok {st : Stream α γ} {m : Member Value} {c : UInt8} {t : Bytes} (hc : IsTerminator c)
    (h : st.s.Inv)
    (hunread : st.s.unread = m.beforeValue.1 ++ (m.value.render ++ (m.after.1 ++ c :: t))) :
    ∃ s', (do let _ ← onScanner scanValue : Run α γ Unit) st = (.ok (), { st with s := s' })
      ∧ st.s.Reaches (blanksAfter m.value m.after ++ c :: t) (st.s.cursor.whole st.s.feed m) s' := by
  obtain ⟨s', hs', hreach⟩ := scanValue_value h hc hunread
  refine ⟨s', ?_, hreach⟩
  rw [run_bind (onScanner_ok hs')]
  rfl

/-- The elements of an array delivered. -/
theorem holds_elements {st : Stream α γ} {out : Outcome} (hout : Holds decode decodeContext st out)
    (pad : Space) (elems : List (Element Value)) {s' : Scanner} :
    Holds decode decodeContext
      { st with s := s', calls := st.calls ++ (elems.map fun e => e.value.render).map decode }
      { out with accounts := out.accounts ++ elementTexts (.array pad elems) } := by
  refine ⟨?_, hout.2⟩
  show st.calls ++ _ = (out.accounts ++ _).map decode
  rw [hout.1, List.map_append]
  rfl

/-- From the check on the cursors to the walk. -/
theorem walkableAll_of_each {feed : Feed} {fn : Bytes → Run α γ Unit}
    {add : Outcome → Member Value → Outcome} {across : Member Value → Cursor → Cursor}
    {p : Member Value → Cursor → Bool} {members : List (Member Value)} {k : Cursor}
    (h : Cursor.each feed across p members k = true)
    (hall : ∀ m ∈ members, ∀ k, p m k = true →
      Walkable decode decodeContext feed fn add across m k) :
    WalkableAll decode decodeContext feed fn add across members k := by
  induction members generalizing k with
  | nil => trivial
  | cons m members ih =>
    unfold Cursor.each at h
    rw [Bool.and_eq_true] at h
    exact ⟨hall m List.mem_cons_self k h.1,
      ih h.2 fun m' hm' => hall m' (List.mem_cons_of_mem _ hm')⟩

section Delivering

variable (hfn : ∀ calls account, fn calls account = none)
  (hsonic : DecodesBody sonic isAccount isContext decode decodeContext)

include hfn hsonic

/-- A flush delivers what is pending. -/
theorem flush_ok {pending : List Bytes} (hpending : ∀ raw ∈ pending, isAccount raw)
    (st : Stream α γ) :
    flush sonic fn (openBatch pending) pending.length st
      = (.ok ([], 0), { st with calls := st.calls ++ pending.map decode }) := by
  rcases flush_cases fn hsonic hpending st with ⟨-, calls, account, hsome⟩ | hok
  · exact absurd (hfn calls account) hsome
  · exact hok

/-- With or without a flush, delivered and pending together stay the same. -/
theorem flushIfDue_ok {pending : List Bytes} (hpending : ∀ raw ∈ pending, isAccount raw)
    (st : Stream α γ) :
    ∃ pending' calls', flushIfDue sonic fn (openBatch pending) pending.length st
        = (.ok (openBatch pending', pending'.length), { st with calls := calls' })
      ∧ calls' ++ pending'.map decode = st.calls ++ pending.map decode
      ∧ ∀ raw ∈ pending', isAccount raw := by
  unfold flushIfDue
  rw [run_bind (run_get st)]
  split
  · rw [flush_ok hfn hsonic hpending]
    exact ⟨[], _, rfl, by rw [List.map_nil, List.append_nil], by simp⟩
  · exact ⟨pending, st.calls, rfl, rfl, hpending⟩

/-- One turn of the loop of `streamAccounts`, up to the byte behind the element. -/
theorem streamLoop_turn {e : Element Value} {pending : List Bytes} (hobject : IsObject e.value)
    (haccount : isAccount e.value.render) (hpending : ∀ raw ∈ pending, isAccount raw) (turns : ℕ)
    {st : Stream α γ} {c : UInt8} {t : Bytes} (hc : IsTerminator c) (h : st.s.Inv)
    (hunread : st.s.unread = e.before.1 ++ (e.value.render ++ (e.after.1 ++ c :: t))) :
    ∃ pending' s' calls',
      streamLoop sonic fn (turns + 1) (openBatch pending) pending.length st
        = (if c = closeBracket then do
            let _ ← flush sonic fn (openBatch pending') pending'.length
            return
          else if c = comma then streamLoop sonic fn turns (openBatch pending') pending'.length
          else throw (.message "expected ',' or ']' after account, got %q" [c]) : Run α γ Unit)
          { st with s := s', calls := calls' }
      ∧ st.s.Reaches t (st.s.cursor.element st.s.feed e) s'
      ∧ calls' ++ pending'.map decode = st.calls ++ (pending ++ [e.value.render]).map decode
      ∧ ∀ raw ∈ pending', isAccount raw := by
  obtain ⟨s1, hs1, hreach1⟩ := scanValue_value h hc hunread
  rw [taken_of_isObject hobject] at hs1
  have hpending1 : ∀ raw ∈ pending ++ [e.value.render], isAccount raw := by
    intro raw hmem
    rcases List.mem_append.mp hmem with hmem | hmem
    · exact hpending raw hmem
    · rw [List.mem_singleton.mp hmem]
      exact haccount
  obtain ⟨pending', calls', hflush, hcalls, hpending'⟩ :=
    flushIfDue_ok hfn hsonic hpending1 { st with s := s1 }
  have hspace : isJSONSpace c = false := by rcases hc with rfl | rfl | rfl <;> rfl
  obtain ⟨s2, hs2, hreach2, _⟩ :=
    nextNonSpace_ok hreach1.inv (blanksAfter_isSpace _ _) hspace hreach1.unread
  rw [hreach1.cursor, hreach1.feed] at hreach2
  refine ⟨pending', s2, calls', ?_, hreach1.trans hreach2, hcalls, hpending'⟩
  have hcount : pending.length + 1 = (pending ++ [e.value.render]).length := by
    rw [List.length_append, List.length_singleton]
  have hnext : onScanner nextNonSpace { st with s := s1, calls := calls' }
      = (.ok c, { st with s := s2, calls := calls' }) := onScanner_ok hs2
  rw [streamLoop, run_bind (wrapping_ok (onScanner_ok hs1) _), openBatch_concat, hcount,
    run_bind hflush]
  dsimp only
  rw [run_bind hnext]

/-- **The loop of `streamAccounts`.** Whether it flushes or not, what is delivered and
what is pending are together the elements scanned so far. -/
theorem streamLoop_ok {e : Element Value} {elems : List (Element Value)} {pending : List Bytes}
    (helems : ∀ e' ∈ e :: elems, IsObject e'.value ∧ isAccount e'.value.render)
    (hpending : ∀ raw ∈ pending, isAccount raw) {turns : ℕ} (hturns : elems.length < turns)
    (st : Stream α γ) {t : Bytes} (h : st.s.Inv)
    (hunread : st.s.unread = e.before.1 ++ (e.value.render ++ (e.after.1 ++ (moreElements elems ++ closeBracket :: t))))
    :
    ∃ s', streamLoop sonic fn turns (openBatch pending) pending.length st
        = (.ok (), { st with
            s := s'
            calls := st.calls
              ++ (pending ++ (e :: elems).map fun e' => e'.value.render).map decode })
      ∧ st.s.Reaches t ((e :: elems).foldl (Cursor.element st.s.feed) st.s.cursor) s' := by
  induction elems generalizing turns st pending e with
  | nil =>
    obtain ⟨turns, rfl⟩ := Nat.exists_eq_succ_of_ne_zero (Nat.ne_of_gt hturns)
    obtain ⟨hobject, haccount⟩ := helems e List.mem_cons_self
    rw [moreElements, List.nil_append] at hunread
    obtain ⟨pending', s', calls', hturn, hreach, hcalls, hpending'⟩ := streamLoop_turn hfn hsonic
      hobject haccount hpending turns (Or.inr (Or.inr rfl)) h hunread
    refine ⟨s', ?_, hreach⟩
    rw [hturn, if_pos rfl, run_bind (flush_ok hfn hsonic hpending' _)]
    dsimp only
    rw [hcalls]
    rfl
  | cons e' elems ih =>
    obtain ⟨turns, rfl⟩ := Nat.exists_eq_succ_of_ne_zero (Nat.ne_of_gt (Nat.lt_of_le_of_lt
      (Nat.zero_le _) hturns))
    obtain ⟨hobject, haccount⟩ := helems e List.mem_cons_self
    rw [moreElements_cons, List.cons_append] at hunread
    simp only [List.append_assoc] at hunread
    obtain ⟨pending', s1, calls', hturn, hreach, hcalls, hpending'⟩ := streamLoop_turn hfn hsonic
      hobject haccount hpending turns (Or.inl rfl) h hunread
    obtain ⟨s', hs', hreach'⟩ := ih (fun e'' he'' => helems e'' (List.mem_cons_of_mem _ he''))
      hpending' (Nat.lt_of_succ_lt_succ hturns) { st with s := s1, calls := calls' } hreach.inv
      hreach.unread
    dsimp only at hreach'
    rw [hreach.cursor, hreach.feed] at hreach'
    refine ⟨s', ?_, hreach.trans hreach'⟩
    rw [hturn, if_neg (by decide), if_pos rfl, hs']
    dsimp only
    rw [List.map_append, ← List.append_assoc, hcalls]
    simp

/-- **`streamAccounts`.** -/
theorem streamAccounts_ok {pad : Space} {elems : List (Element Value)}
    (helems : ∀ e ∈ elems, IsObject e.value ∧ isAccount e.value.render) (st : Stream α γ)
    {t : Bytes} (h : st.s.Inv)
    (hunread : st.s.unread = renderElements pad elems ++ closeBracket :: t) :
    ∃ s', streamAccounts sonic fn st
        = (.ok (), { st with
            s := s', calls := st.calls ++ (elems.map fun e => e.value.render).map decode })
      ∧ st.s.Reaches t (st.s.cursor.array st.s.feed pad elems) s' := by
  unfold streamAccounts
  cases elems with
  | nil =>
    rw [renderElements] at hunread
    obtain ⟨s1, hs1, hreach, hlt⟩ := peekNonSpace_ok h pad.2 (by decide) hunread
    refine ⟨{ s1 with pos := s1.pos + 1 }, ?_, hreach.advance hlt⟩
    rw [run_bind (onScanner_ok hs1), if_pos rfl, List.map_nil, List.map_nil, List.append_nil]
    rfl
  | cons e elems =>
    -- The white space in front of the first element goes with the peek.
    obtain ⟨cs, hhead⟩ := render_of_isObject (helems e List.mem_cons_self).1
    rw [renderElements_cons] at hunread
    simp only [List.append_assoc] at hunread
    have hpeek : st.s.unread = e.before.1 ++ openBrace :: (cs ++ (e.after.1
        ++ (moreElements elems ++ closeBracket :: t))) := by
      rw [hunread, hhead, List.cons_append]
    obtain ⟨s1, hs1, hreach, _⟩ := peekNonSpace_ok h e.before.2 (by decide) hpeek
    have hfirst : ∀ e' ∈ { e with before := blank } :: elems,
        IsObject e'.value ∧ isAccount e'.value.render := by
      intro e' he'
      rcases List.mem_cons.mp he' with rfl | he'
      · exact helems e List.mem_cons_self
      · exact helems e' (List.mem_cons_of_mem _ he')
    have hun1 : s1.unread = [] ++ (e.value.render ++ (e.after.1
        ++ (moreElements elems ++ closeBracket :: t))) := by
      rw [hreach.unread, hhead, List.nil_append, List.cons_append]
    have hturns : elems.length < s1.work + 1 := by
      have hle := length_le_moreElements elems
      have hlen := length_unread hreach.inv
      rw [hun1, List.nil_append] at hlen
      simp only [List.length_append] at hlen
      unfold work
      omega
    have hnone : ∀ raw ∈ ([] : List Bytes), isAccount raw := by simp
    obtain ⟨s', hs', hreach'⟩ := streamLoop_ok hfn hsonic hfirst hnone hturns
      { st with s := s1 } hreach.inv hun1
    dsimp only at hreach'
    rw [hreach.cursor, hreach.feed] at hreach'
    refine ⟨s', ?_, hreach.trans hreach'⟩
    rw [run_bind (onScanner_ok hs1), if_neg (by decide), run_bind (run_get _)]
    exact hs'

/-! ## Keys -/

/-- **The keys of the result object.** -/
theorem resultKey_handles (feed : Feed) (k : Cursor) {m : Member Value}
    (hcontext : m.key.1 = keyContext → IsObject m.value ∧ isContext m.value.render)
    (hvalue : m.key.1 = keyValue → AccountArray isAccount m.value) :
    Handles decode decodeContext feed (resultKey sonic fn) Outcome.addResult
      (Cursor.resultMember feed) m k := by
  intro st out c t hc h hfeed hk hout hunread
  subst hfeed hk
  unfold resultKey Outcome.addResult Cursor.resultMember
  by_cases hkey1 : m.key.1 = keyContext
  · rw [if_pos hkey1, if_pos hkey1]
    obtain ⟨hobject, hctx⟩ := hcontext hkey1
    obtain ⟨s1, hs1, hreach⟩ := scanValue_value h hc hunread
    rw [taken_of_isObject hobject] at hs1
    have hkey2 : m.key.1 ≠ keyValue := by rw [hkey1]; decide
    rw [if_neg hkey2]
    refine ⟨{ st with s := s1, ctx := some (decodeContext m.value.render) }, ?_, hreach, hout.1, rfl⟩
    rw [run_bind (onScanner_ok hs1), hsonic.context _ hctx]
    rfl
  · rw [if_neg hkey1, if_neg hkey1]
    by_cases hkey2 : m.key.1 = keyValue
    · rw [if_pos hkey2, if_pos hkey2, if_pos hkey2]
      have harray := hvalue hkey2
      cases hv : m.value with
      | array pad elems =>
        rw [hv] at harray hunread
        rw [Value.render, List.cons_append, List.append_assoc, List.singleton_append] at hunread
        obtain ⟨s1, hs1, hreach1⟩ := expect_ok h m.beforeValue.2 (by decide) hunread
        obtain ⟨s2, hs2, hreach2⟩ := streamAccounts_ok hfn hsonic harray { st with s := s1 }
          hreach1.inv hreach1.unread
        dsimp only at hreach2
        rw [hreach1.cursor, hreach1.feed] at hreach2
        refine ⟨{ st with s := s2, calls := st.calls
          ++ (elems.map fun e => e.value.render).map decode }, ?_, hreach1.trans hreach2,
          holds_elements hout pad elems⟩
        rw [run_bind (wrapping_ok (onScanner_ok hs1) _)]
        exact hs2
      | object pad members => rw [hv] at harray; exact harray.elim
      | scalar text => rw [hv] at harray; exact harray.elim
      | string text => rw [hv] at harray; exact harray.elim
    · rw [if_neg hkey2, if_neg hkey2, if_neg hkey2]
      obtain ⟨s', hs', hreach⟩ := skip_ok hc h hunread
      exact ⟨_, hs', hreach, hout⟩

/-- **The keys of the envelope.** -/
theorem envelopeKey_handles {feed : Feed} {k : Cursor} {m : Member Value}
    (herror : m.key.1 ≠ keyError)
    (hresult : m.key.1 = keyResult → ResultValue isAccount isContext m.value)
    (hkept : Cursor.memberKept feed m k = true) :
    Handles decode decodeContext feed (envelopeKey sonic fn) Outcome.addMember
      (Cursor.envelopeMember feed) m (k.colon feed m) := by
  intro st out c t hc h hfeed hk hout hunread
  subst hfeed
  unfold envelopeKey Outcome.addMember Cursor.envelopeMember
  unfold Cursor.memberKept at hkept
  -- the result is the array itself, or an object that has it in a member; other keys are skipped
  rw [if_neg herror]
  rw [← hk] at hkept ⊢
  by_cases hkey : m.key.1 = keyResult
  · rw [if_pos hkey, if_pos hkey, if_pos hkey]
    have hvalue := hresult hkey
    cases hv : m.value with
    | array pad elems =>
      rw [hv] at hvalue hunread
      rw [Value.render, List.cons_append, List.append_assoc, List.singleton_append] at hunread
      obtain ⟨s1, hs1, hreach1, hlt⟩ := peekNonSpace_ok h m.beforeValue.2 (by decide) hunread
      have hadvance := hreach1.advance hlt
      obtain ⟨s2, hs2, hreach2⟩ := streamAccounts_ok hfn hsonic hvalue
        { st with s := { s1 with pos := s1.pos + 1 } } hadvance.inv hadvance.unread
      dsimp only at hreach2
      rw [hadvance.cursor, hadvance.feed] at hreach2
      refine ⟨{ st with s := s2, calls := st.calls
        ++ (elems.map fun e => e.value.render).map decode }, ?_, hadvance.trans hreach2,
        holds_elements hout pad elems⟩
      rw [run_bind (onScanner_ok hs1), if_pos rfl, run_bind (onScanner_ok (advance_eq s1))]
      exact hs2
    | object pad members =>
      rw [hv] at hvalue hunread hkept
      rw [Value.render, List.cons_append, List.append_assoc, List.singleton_append] at hunread
      obtain ⟨s1, hs1, hreach1, hlt⟩ := peekNonSpace_ok h m.beforeValue.2 (by decide) hunread
      have hadvance := hreach1.advance hlt
      have heach : Cursor.each st.s.feed (Cursor.resultMember st.s.feed)
          (Cursor.keyKept st.s.feed) members { s1 with pos := s1.pos + 1 }.cursor = true := by
        rw [Bool.and_eq_true] at hkept
        rw [hadvance.cursor]
        simpa [hkey, Cursor.enter] using hkept.2
      have hwalk : WalkableAll decode decodeContext st.s.feed (resultKey sonic fn)
          Outcome.addResult (Cursor.resultMember st.s.feed) members
          { s1 with pos := s1.pos + 1 }.cursor := by
        refine walkableAll_of_each heach fun m' hm' k' hkept' => ?_
        obtain ⟨hplain, hcontext, harray⟩ := hvalue m' hm'
        exact ⟨hplain, hkept', resultKey_handles hfn hsonic _ _ hcontext harray⟩
      obtain ⟨st', hst', hreach', hout'⟩ := forEachKey_ok
        { st with s := { s1 with pos := s1.pos + 1 } } hwalk hadvance.inv hadvance.feed hout
        hadvance.unread
      dsimp only at hreach'
      rw [hadvance.cursor] at hreach'
      refine ⟨st', ?_, hadvance.trans hreach', hout'⟩
      rw [run_bind (onScanner_ok hs1), if_neg (by decide), if_pos rfl,
        run_bind (onScanner_ok (advance_eq s1))]
      exact hst'
    | scalar text => rw [hv] at hvalue; exact hvalue.elim
    | string text => rw [hv] at hvalue; exact hvalue.elim
  · rw [if_neg hkey, if_neg hkey, if_neg hkey]
    obtain ⟨s', hs', hreach⟩ := skip_ok hc h hunread
    exact ⟨_, hs', hreach, hout⟩

end Delivering

/-! ## The call -/

/-- **`StreamProgramAccounts`.** On a success body cut into non-empty reads that keep its
keys, the callback is called once for every account, in order, and the context is
returned. -/
theorem streamProgramAccounts_ok (hfn : ∀ calls account, fn calls account = none)
    (hsonic : DecodesBody sonic isAccount isContext decode decodeContext) (lead pad : Space)
    {members : List (Member Value)} (hbody : SuccessEnvelope isAccount isContext members)
    (trail : Bytes) {r : Reader} (hoffset : r.offset = 0)
    (hrest : r.rest = lead.1 ++ ((Value.object pad members).render ++ trail))
    (hcut : ∀ e, 0 < r.cut e)
    (hkept : keysKept ⟨r.cut, r.rest.length⟩ lead members = true) :
    streamProgramAccounts sonic fn r
      = (.ok ((outcome members).context.map decodeContext),
        (outcome members).accounts.map decode) := by
  have hinv : ({ r, cap := 65536 } : Scanner).Inv :=
    ⟨Nat.le_refl _, Nat.le_refl _, Nat.le_refl _, Nat.zero_le _, Nat.succ_pos _, Nat.zero_le _,
      hcut⟩
  have hunread : ({ r, cap := 65536 } : Scanner).unread
      = lead.1 ++ openBrace :: (renderMembers pad members ++ closeBrace :: trail) := by
    rw [unread_of_empty rfl]
    dsimp only
    rw [hrest, Value.render, List.cons_append, List.append_assoc, List.singleton_append]
  have hfeed : ({ r, cap := 65536 } : Scanner).feed = ⟨r.cut, r.rest.length⟩ := by
    show Feed.mk r.cut (r.offset + r.rest.length) = _
    rw [hoffset, Nat.zero_add]
  have hcursor : ({ r, cap := 65536 } : Scanner).cursor = startCursor := by
    show Cursor.mk (r.offset - 0) (r.offset - 0 + 0) (r.offset - 0 + 0) r.offset 65536 = _
    rw [hoffset]
    rfl
  obtain ⟨s1, hs1, hreach⟩ := expect_ok hinv lead.2 (by decide) hunread
  rw [hfeed, hcursor] at hreach
  have hwalk : WalkableAll decode decodeContext ⟨r.cut, r.rest.length⟩ (envelopeKey sonic fn)
      Outcome.addMember (Cursor.envelopeMember ⟨r.cut, r.rest.length⟩) members s1.cursor := by
    rw [hreach.cursor]
    refine walkableAll_of_each hkept fun m hm k hkept' => ?_
    obtain ⟨hplain, herror, hresult⟩ := hbody m hm
    refine ⟨hplain, ?_, envelopeKey_handles hfn hsonic herror hresult hkept'⟩
    unfold Cursor.memberKept at hkept'
    rw [Bool.and_eq_true] at hkept'
    exact hkept'.1
  have hstart : Holds decode decodeContext { s := s1 } {} := ⟨rfl, rfl⟩
  obtain ⟨st', hst', _, hout⟩ := forEachKey_ok { s := s1 } hwalk hreach.inv
    (hreach.feed.trans hfeed) hstart hreach.unread
  have henvelope : envelope sonic fn { s := { r, cap := 65536 } } = (.ok (), st') := by
    unfold envelope
    rw [run_bind (wrapping_ok (onScanner_ok hs1) _)]
    exact hst'
  unfold streamProgramAccounts
  rw [henvelope]
  dsimp only
  rw [hout.1, hout.2]
  rfl

end Accounts

end Run

/-! ## A read between a key and its colon -/

/-- The envelope `{"result":[{}]}`: a result with one empty account object. -/
def sampleEnvelope : List (Member Value) :=
  [{ before := blank, key := ⟨keyResult, rfl⟩, mid := blank, beforeValue := blank,
     value := .array blank [⟨blank, .object blank [], blank⟩], after := blank }]

/-- The text of an empty object. -/
def emptyObject : Bytes := [openBrace, closeBrace]

/-- A decoder for arrays of empty objects. -/
def sampleSonic : Sonic Unit Unit where
  accounts batch := .ok (List.replicate ((batch.length - 1) / 3) ())
  context _ := .ok ()
  rpcError _ := .error "no error object"

theorem sampleSonic_decodes :
    DecodesBody sampleSonic (· = emptyObject) (fun _ => False) (fun _ => ()) fun _ => () := by
  refine ⟨fun raws hne hall => ?_, fun raw hraw => hraw.elim⟩
  have hlen : (openBatch raws ++ [closeBracket]).length = 3 * raws.length + 1 := by
    cases raws with
    | nil => exact absurd rfl hne
    | cons raw raws =>
      have hrest : ∀ l : List Bytes, (∀ r ∈ l, r = emptyObject) →
          (l.flatMap fun r => comma :: r).length = 3 * l.length := by
        intro l hl
        induction l with
        | nil => rfl
        | cons r l ih =>
          rw [List.flatMap_cons, List.length_append, ih fun r hr => hl r
            (List.mem_cons_of_mem _ hr), hl r List.mem_cons_self, List.length_cons]
          simp only [emptyObject, List.length_cons, List.length_nil]
          omega
      rw [openBatch, hall raw List.mem_cons_self]
      simp only [List.length_append, List.length_cons, List.length_nil,
        hrest raws fun r hr => hall r (List.mem_cons_of_mem _ hr), emptyObject]
      omega
  show Except.ok (List.replicate ((_ - 1) / 3) ()) = _
  rw [hlen, Nat.add_sub_cancel, Nat.mul_div_cancel_left _ (by decide)]
  congr 1
  exact (List.eq_replicate_iff.mpr ⟨List.length_map _, fun _ _ => rfl⟩).symm

theorem sampleEnvelope_success :
    SuccessEnvelope (· = emptyObject) (fun _ => False) sampleEnvelope := by
  intro m hm
  obtain rfl := List.mem_singleton.mp hm
  refine ⟨show backslash ∉ keyResult by decide, show keyResult ≠ keyError by decide,
    fun _ e he => ?_⟩
  obtain rfl := List.mem_singleton.mp he
  exact ⟨trivial, by decide⟩

/-- The first read ends with the key, the second brings the rest: the key is overwritten
before it is looked at, the result is taken for an unknown member, and the account is
never delivered. -/
theorem streamProgramAccounts_overwritten :
    let cut := fun e => if e = 0 then 9 else 6
    let body := (Value.object blank sampleEnvelope).render
    SuccessEnvelope (· = emptyObject) (fun _ => False) sampleEnvelope
      ∧ DecodesBody sampleSonic (· = emptyObject) (fun _ => False) (fun _ => ()) (fun _ => ())
      ∧ (∀ e, 0 < cut e)
      ∧ (outcome sampleEnvelope).accounts = [emptyObject]
      ∧ streamProgramAccounts sampleSonic (fun _ _ => none) { rest := body, cut }
        = (.ok none, []) := by
  refine ⟨sampleEnvelope_success, sampleSonic_decodes, fun e => ?_, by decide +kernel,
    by decide +kernel⟩
  dsimp only
  split <;> decide

/-- The same body in reads of four bytes, where the second read ends behind the
colon. -/
theorem streamProgramAccounts_kept :
    let body := (Value.object blank sampleEnvelope).render
    keysKept ⟨fun _ => 4, body.length⟩ blank sampleEnvelope = true
      ∧ streamProgramAccounts sampleSonic (fun _ _ => none) { rest := body, cut := fun _ => 4 }
        = (.ok none, [()]) :=
  ⟨by decide +kernel, streamProgramAccounts_ok (fun _ _ => rfl) sampleSonic_decodes blank blank
    sampleEnvelope_success [] rfl (by decide +kernel) (fun _ => Nat.succ_pos 3) (by decide +kernel)⟩

end SolanaGo.Rpc
