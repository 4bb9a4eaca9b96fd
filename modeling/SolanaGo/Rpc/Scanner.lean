/-
The scanner over a cut stream is a scanner over the bytes.

At every moment the bytes the scanner has yet to consume are the unread part of its
buffer followed by what the reader has left: `Scanner.unread`. `fill` does not
change that list, nor the bytes kept since `mark` (`fill_ok`): it only moves them.
So each scanner function does to the list what a scanner over the whole body would
do, wherever the reads fall:

* `peekNonSpace_ok` drops white space,
* `scanStringRest_ok` takes a string up to its closing quote,
* `scanValue_ok` takes what `spanValue` takes.

The one thing that does depend on the reads is what is behind a view later on.
`expect_view` says when a key is still intact after its colon was scanned: if no
read that starts between the two is longer than the part of the buffer in front of
the key.
-/
import SolanaGo.Lib.StreamWindow
import SolanaGo.Rpc.Cursor

set_option autoImplicit false

namespace SolanaGo.Rpc

open Codec (Bytes)
open Buffer Json StreamWindow

/-! ## What the scanner still has to consume -/

namespace Scanner

/-- The unread bytes: those in the buffer, then those of the reader. -/
def unread (s : Scanner) : Bytes := slice s.buf s.pos s.fin ++ s.r.rest

/-- The consumed bytes that survive a refill. -/
def kept (s : Scanner) : Bytes := slice s.buf s.mark s.pos

/-- The offsets are in order, and the reader's reads are not empty. -/
structure Inv (s : Scanner) : Prop where
  mark_le : s.mark ≤ s.pos
  pos_le : s.pos ≤ s.fin
  fin_le : s.fin ≤ s.buf.length
  len_le : s.buf.length ≤ s.cap
  cap_pos : 0 < s.cap
  fin_le_offset : s.fin ≤ s.r.offset
  cut_pos : ∀ e, 0 < s.r.cut e

/-- The body, as it arrives. -/
def feed (s : Scanner) : Feed := ⟨s.r.cut, s.r.offset + s.r.rest.length⟩

/-- Where the scanner stands in the body. -/
def cursor (s : Scanner) : Cursor where
  base := s.r.offset - s.fin
  mark := s.r.offset - s.fin + s.mark
  pos := s.r.offset - s.fin + s.pos
  fin := s.r.offset
  cap := s.cap

/-- The scanner `s'` has the bytes `u` of the same body left to consume, and stands at
`c`. -/
structure Reaches (s : Scanner) (u : Bytes) (c : Cursor) (s' : Scanner) : Prop where
  inv : s'.Inv
  feed : s'.feed = s.feed
  unread : s'.unread = u
  cursor : s'.cursor = c

theorem Reaches.trans {s1 s2 s3 : Scanner} {u v : Bytes} {c d : Cursor} (h1 : Reaches s1 u c s2)
    (h2 : Reaches s2 v d s3) : Reaches s1 v d s3 :=
  ⟨h2.inv, h2.feed.trans h1.feed, h2.unread, h2.cursor⟩

variable {s : Scanner}

theorem Inv.moveTo (h : s.Inv) {mark pos : ℕ} (hmark : mark ≤ pos) (hpos : pos ≤ s.fin) :
    { s with pos, mark }.Inv :=
  ⟨hmark, hpos, h.fin_le, h.len_le, h.cap_pos, h.fin_le_offset, h.cut_pos⟩

theorem cursor_lt (h : s.Inv) (hpos : s.pos < s.fin) : s.cursor.pos < s.cursor.fin := by
  have hoffset := h.fin_le_offset
  show s.r.offset - s.fin + s.pos < s.r.offset
  omega

theorem length_unread (h : s.Inv) : s.unread.length = (s.fin - s.pos) + s.r.rest.length := by
  unfold unread
  rw [List.length_append, length_slice h.fin_le]

/-- One unread byte in the buffer. -/
theorem unread_eq_cons (h : s.Inv) (hpos : s.pos < s.fin) (mark : ℕ) :
    s.unread = s.byte :: { s with pos := s.pos + 1, mark }.unread := by
  have hlen : s.pos < s.buf.length := Nat.lt_of_lt_of_le hpos h.fin_le
  unfold unread byte
  rw [slice_eq_cons hpos hlen, List.getElem?_eq_getElem hlen]
  rfl

/-- An empty buffer leaves what the reader has. -/
theorem unread_of_empty (hpos : s.pos = s.fin) : s.unread = s.r.rest := by
  unfold unread
  rw [hpos, slice_self, List.nil_append]

/-! ## Refills -/

/-- The window of the stream that the scanner holds, after `input` was read. -/
def window (s : Scanner) (input : Bytes) : Window UInt8 Reader :=
  { r := s.r, buf := s.buf, cap := s.cap, pos := s.pos, fin := s.fin, mark := s.mark, input }

theorem compact_window (s : Scanner) (input : Bytes) :
    (s.window input).compact = s.compact.window input := by
  have hmark : 0 < (s.window input).mark ↔ 0 < s.mark := Int.natCast_pos
  unfold Window.compact compact
  by_cases h : 0 < s.mark
  · rw [if_pos h, if_pos (hmark.mpr h)]
    rfl
  · rw [if_neg h, if_neg (mt hmark.mp h)]

theorem grow_window (s : Scanner) (input : Bytes) :
    (s.window input).grow = s.grow.window input := by
  have hfull : (s.window input).fin = (s.window input).cap ↔ s.fin = s.cap := Iff.rfl
  unfold Window.grow grow
  by_cases h : s.fin = s.cap
  · rw [if_pos h, if_pos (hfull.mpr h)]
    rfl
  · rw [if_neg h, if_neg (mt hfull.mp h)]

theorem Inv.sound (h : s.Inv) : (s.window (slice s.buf 0 s.fin)).Sound 0 :=
  ⟨Int.natCast_nonneg _, Int.ofNat_le.mpr h.mark_le, h.pos_le, h.fin_le, h.len_le, h.cap_pos,
    List.suffix_rfl⟩

/-- The parts of `fill` that do not read keep everything but the geometry. -/
structure Moved (s s' : Scanner) : Prop where
  inv : s'.Inv
  reader : s'.r = s.r
  mark : s'.mark = 0
  pos : s'.pos = s.pos - s.mark
  fin : s'.fin = s.fin - s.mark
  kept : s'.kept = s.kept
  unread : s'.unread = s.unread

/-- What is moved in the window is moved in the scanner. -/
theorem moved_of_window {s' : Scanner} {input : Bytes} (h : s.Inv)
    (hsound : (s'.window input).Sound 0) (hmoved : Window.Moved (s.window input) (s'.window input)) :
    Moved s s' := by
  obtain ⟨hreader, -, hmark, hpos, hfin, hkept, hahead⟩ := hmoved
  have hreader : s'.r = s.r := hreader
  have hmark : (s'.mark : ℤ) = min (s.mark : ℤ) 0 := hmark
  have hfin : s'.fin = s.fin - s.mark := hfin
  have hoffset : s'.fin ≤ s'.r.offset := by
    have hle := h.fin_le_offset
    rw [hreader]
    omega
  refine ⟨⟨Int.ofNat_le.mp hsound.mark_le, hsound.pos_le, hsound.fin_le, hsound.len_le,
    hsound.cap_pos, hoffset, ?_⟩, hreader, by omega, hpos, hfin, hkept, ?_⟩
  · rw [hreader]
    exact h.cut_pos
  · unfold unread
    rw [hreader]
    exact congrArg (· ++ s.r.rest) hahead

theorem compact_moved (h : s.Inv) : Moved s s.compact := by
  have hmoved := Window.compact_moved h.sound (le_refl 0)
  rw [compact_window] at hmoved
  exact moved_of_window h hmoved.1 hmoved.2

theorem grow_moved (h : s.Inv) (hmark : s.mark = 0) : Moved s s.grow ∧ s.grow.fin < s.grow.cap := by
  have hmoved := Window.grow_moved h.sound (Int.ofNat_le.mpr (Nat.le_of_eq hmark))
  rw [grow_window] at hmoved
  exact ⟨moved_of_window h hmoved.1 hmoved.2.1, hmoved.2.2⟩

theorem grow_compact_cap (h : s.Inv) :
    s.compact.grow.cap = if s.fin - s.mark = s.cap then s.cap * 2 else s.cap := by
  have hcap : s.compact.cap = s.cap := by
    unfold compact
    split <;> rfl
  unfold grow
  rw [(compact_moved h).fin, hcap]
  split
  · rfl
  · exact hcap

/-- What a read does: it takes a non-empty front of what is left. -/
structure Delivered (r : Reader) (room : ℕ) (got : Bytes) (r' : Reader) : Prop where
  rest : r.rest = got ++ r'.rest
  pos : 0 < got.length
  le_room : got.length ≤ room
  cut : r'.cut = r.cut
  offset : r'.offset = r.offset + got.length

theorem length_read (r : Reader) (room : ℕ) :
    (r.read room).1.length = min (min (r.cut r.offset) room) r.rest.length := List.length_take

theorem read_delivered {r : Reader} {room : ℕ} (hroom : 0 < room) (hcut : 0 < r.cut r.offset)
    (hrest : r.rest ≠ []) : Delivered r room (r.read room).1 (r.read room).2 := by
  have hlen : 0 < r.rest.length := List.length_pos_iff.mpr hrest
  have hgot := length_read r room
  refine ⟨?_, by omega, by omega, rfl, rfl⟩
  show r.rest = r.rest.take (min (r.cut r.offset) room)
    ++ r.rest.drop (r.rest.take (min (r.cut r.offset) room)).length
  generalize min (r.cut r.offset) room = n
  rw [List.length_take]
  by_cases hall : n ≤ r.rest.length
  · rw [Nat.min_eq_left hall, List.take_append_drop]
  · rw [Nat.min_eq_right (by omega), List.take_of_length_le (by omega), List.drop_length,
      List.append_nil]

/-- What `fill` does: the same bytes, moved to the front, with more of them in the
buffer. -/
structure Filled (s s' : Scanner) : Prop where
  inv : s'.Inv
  feed : s'.feed = s.feed
  mark : s'.mark = 0
  pos : s'.pos = s.pos - s.mark
  more : s'.pos < s'.fin
  kept : s'.kept = s.kept
  unread : s'.unread = s.unread
  work : s'.work < s.work

/-- The read of `fill`, into a buffer with room. -/
theorem refill_filled (h : s.Inv) (hmark : s.mark = 0) (hempty : s.pos = s.fin)
    (hroom : s.fin < s.cap) (hrest : s.r.rest ≠ []) : Filled s s.refill := by
  obtain ⟨hmark', hpos, hfin, hlen, hcap, hoffset, hcut⟩ := h
  obtain ⟨hsplit, hgot, hle, hcut', hoff⟩ :=
    read_delivered (Nat.sub_pos_of_lt hroom) (hcut _) hrest
  unfold refill
  generalize s.r.read (s.cap - s.fin) = p at *
  obtain ⟨got, r'⟩ := p
  dsimp only at *
  have hlen' : (overwrite s.buf s.fin got).length = max s.buf.length (s.fin + got.length) :=
    length_overwrite hfin
  have htotal : s.r.rest.length = got.length + r'.rest.length := by
    rw [hsplit, List.length_append]
  refine ⟨⟨hmark', ?_, ?_, ?_, hcap, ?_, ?_⟩, ?_, hmark, ?_, ?_, ?_, ?_, ?_⟩
  · show s.pos ≤ s.fin + got.length
    omega
  · show s.fin + got.length ≤ (overwrite s.buf s.fin got).length
    omega
  · show (overwrite s.buf s.fin got).length ≤ s.cap
    omega
  · show s.fin + got.length ≤ r'.offset
    omega
  · show ∀ e, 0 < r'.cut e
    rw [hcut']
    exact hcut
  · show Feed.mk r'.cut (r'.offset + r'.rest.length) = Feed.mk s.r.cut (s.r.offset + s.r.rest.length)
    rw [hcut', hoff, htotal, Nat.add_assoc]
  · show s.pos = s.pos - s.mark
    omega
  · show s.pos < s.fin + got.length
    omega
  · exact slice_overwrite_of_disjoint hfin (Or.inl hpos)
  · show slice (overwrite s.buf s.fin got) s.pos (s.fin + got.length) ++ r'.rest = s.unread
    rw [unread_of_empty hempty, hempty, slice_overwrite_self hfin, hsplit]
  · show 2 * r'.rest.length + (s.fin + got.length - s.pos)
        < 2 * s.r.rest.length + (s.fin - s.pos)
    omega

/-- The read moves the end of the buffer, and nothing else. -/
theorem refill_cursor (s : Scanner) :
    s.refill.cursor = { s.cursor with
      fin := s.r.offset + min (min (s.r.cut s.r.offset) (s.cap - s.fin)) s.r.rest.length } := by
  have hlen := length_read s.r (s.cap - s.fin)
  have hbase : s.r.offset + (s.r.read (s.cap - s.fin)).1.length
      - (s.fin + (s.r.read (s.cap - s.fin)).1.length) = s.r.offset - s.fin :=
    Nat.add_sub_add_right _ _ _
  unfold cursor refill Reader.read at *
  dsimp only at *
  rw [hbase, hlen]

/-- Moving the bytes to the front makes the array start at the mark. -/
theorem grow_compact_cursor (h : s.Inv) : s.compact.grow.cursor = { s.cursor with
    base := s.cursor.mark
    cap := if s.fin - s.mark = s.cap then s.cap * 2 else s.cap } := by
  have hc := compact_moved h
  have hg := (grow_moved hc.inv hc.mark).1
  obtain ⟨hmark, hpos, -, -, -, hoffset, -⟩ := id h
  have hbase : s.r.offset - (s.fin - s.mark) = s.r.offset - s.fin + s.mark := by omega
  have hpos' : s.r.offset - s.fin + s.mark + (s.pos - s.mark) = s.r.offset - s.fin + s.pos := by
    omega
  unfold cursor
  rw [grow_compact_cap h, hg.reader, hg.mark, hg.pos, hg.fin, hc.reader, hc.mark, hc.pos, hc.fin,
    Nat.sub_zero, Nat.sub_zero, hbase, Nat.add_zero, hpos']

/-- **`fill`.** With the buffer used up and bytes left in the reader, it succeeds. -/
theorem fill_ok (h : s.Inv) (hempty : s.pos = s.fin) (hrest : s.r.rest ≠ []) :
    ∃ s', fill s = (.ok (), s') ∧ Filled s s' ∧ s'.cursor = s.cursor.fetch s.feed := by
  have hc := compact_moved h
  obtain ⟨hg, hroom⟩ := grow_moved hc.inv hc.mark
  have hreader : s.compact.grow.r = s.r := hg.reader.trans hc.reader
  have hfin : s.compact.grow.fin = s.fin - s.mark := by rw [hg.fin, hc.mark, hc.fin, Nat.sub_zero]
  have hempty' : s.compact.grow.pos = s.compact.grow.fin := by
    rw [hg.pos, hg.fin, hc.pos, hc.fin, hempty]
  have hf := refill_filled hg.inv hg.mark hempty' hroom (by rw [hreader]; exact hrest)
  have hmore : s.compact.grow.fin < s.compact.grow.refill.fin := by
    have hpos := hf.pos
    have hlt := hf.more
    rw [hg.mark] at hpos
    omega
  refine ⟨s.compact.grow.refill, ?_, ⟨hf.inv, ?_, hf.mark, ?_, hf.more, ?_, ?_, ?_⟩, ?_⟩
  · unfold fill
    rw [if_pos hmore]
  · rw [hf.feed]
    unfold feed
    rw [hreader]
  · rw [hf.pos, hg.mark, hg.pos, hc.mark, hc.pos, Nat.sub_zero, Nat.sub_zero]
  · rw [hf.kept, hg.kept, hc.kept]
  · rw [hf.unread, hg.unread, hc.unread]
  · have hwork := hf.work
    unfold work at *
    rw [hreader, hg.pos, hg.fin, hc.pos, hc.fin] at hwork
    omega
  · have hoffset := h.fin_le_offset
    have hmark := h.mark_le
    have hstop : ¬s.cursor.pos < s.cursor.fin := by
      show ¬s.r.offset - s.fin + s.pos < s.r.offset
      omega
    have hwin : s.cursor.fin - s.cursor.mark = s.fin - s.mark := by
      show s.r.offset - (s.r.offset - s.fin + s.mark) = s.fin - s.mark
      omega
    have hleft : s.feed.total - s.cursor.fin = s.r.rest.length := Nat.add_sub_cancel_left _ _
    rw [refill_cursor, grow_compact_cursor h, hreader, hfin, grow_compact_cap h]
    unfold Cursor.fetch Cursor.fill
    rw [if_neg hstop, hwin, hleft]
    rfl

/-- After a refill the next byte is there, as if it had been asked for. -/
theorem Filled.fetch_eq {s' : Scanner} (hf : Filled s s')
    (hcursor : s'.cursor = s.cursor.fetch s.feed) :
    s'.cursor.fetch s.feed = s.cursor.fetch s.feed := by
  rw [Cursor.fetch_of_lt (cursor_lt hf.inv hf.more), hcursor]

end Scanner

/-! ## White space -/

open Scanner

variable {s : Scanner} {c : UInt8} {t : Bytes} {ws : Bytes}

/-- Consuming a byte of the buffer makes the work smaller. -/
theorem work_advance {turns : ℕ} (mark : ℕ) (hpos : s.pos < s.fin) (hwork : s.work < turns + 1) :
    { s with pos := s.pos + 1, mark }.work < turns := by
  unfold work at *
  dsimp only
  omega

/-- The loop of `peekNonSpace` drops white space. -/
theorem peekLoop_ok {turns : ℕ} (h : s.Inv) (hwork : s.work < turns)
    (hws : ws.all isJSONSpace = true) (hc : isJSONSpace c = false)
    (hunread : s.unread = ws ++ c :: t) :
    ∃ s', peekLoop turns s = (.ok c, s')
      ∧ Reaches s (c :: t) (s.cursor.skip s.feed ws.length) s' ∧ s'.pos < s'.fin := by
  -- A turn makes the work smaller, whether it consumes a blank or refills.
  induction turns generalizing s ws with
  | zero => omega
  | succ turns ih =>
    unfold peekLoop
    by_cases hpos : s.pos < s.fin
    · have hfetch : s.cursor.fetch s.feed = s.cursor := Cursor.fetch_of_lt (cursor_lt h hpos)
      rw [if_pos hpos]
      cases ws with
      | nil =>
        have hcons := unread_eq_cons h hpos s.mark
        rw [hunread, List.nil_append, List.cons.injEq] at hcons
        rw [← hcons.1, if_neg (by rw [hc]; simp)]
        exact ⟨s, rfl, ⟨h, rfl, hunread, hfetch.symm⟩, hpos⟩
      | cons b ws =>
        have hcons := unread_eq_cons h hpos (s.pos + 1)
        rw [hunread, List.cons_append, List.cons.injEq] at hcons
        rw [List.all_cons, Bool.and_eq_true] at hws
        rw [← hcons.1, if_pos hws.1]
        obtain ⟨s', hs', hreach, hlt⟩ :=
          ih (h.moveTo (Nat.le_refl _) hpos) (work_advance _ hpos hwork) hws.2 hcons.2.symm
        refine ⟨s', hs', ⟨hreach.inv, hreach.feed, hreach.unread, ?_⟩, hlt⟩
        rw [List.length_cons, Cursor.skip, hfetch]
        exact hreach.cursor
    · have hempty : s.pos = s.fin := Nat.le_antisymm h.pos_le (Nat.not_lt.mp hpos)
      have hrest : s.r.rest ≠ [] := by
        rw [← unread_of_empty hempty, hunread]
        simp
      obtain ⟨s1, hfill, hf, hcursor⟩ := fill_ok h hempty hrest
      have hless : s1.work < turns := Nat.lt_of_lt_of_le hf.work (Nat.le_of_lt_succ hwork)
      rw [if_neg hpos, hfill]
      obtain ⟨s', hs', hreach, hlt⟩ := ih hf.inv hless hws (hf.unread.trans hunread)
      refine ⟨s', hs', ⟨hreach.inv, hreach.feed.trans hf.feed, hreach.unread, ?_⟩, hlt⟩
      rw [hreach.cursor, hf.feed]
      exact Cursor.skip_congr (hf.fetch_eq hcursor) _

/-- **`peekNonSpace`.** It drops white space and leaves the byte after it. -/
theorem peekNonSpace_ok (h : s.Inv) (hws : ws.all isJSONSpace = true) (hc : isJSONSpace c = false)
    (hunread : s.unread = ws ++ c :: t) :
    ∃ s', peekNonSpace s = (.ok c, s')
      ∧ Reaches s (c :: t) (s.cursor.skip s.feed ws.length) s' ∧ s'.pos < s'.fin :=
  peekLoop_ok h (Nat.lt_succ_self _) hws hc hunread

/-- A byte of the buffer consumed. -/
theorem reaches_advance (h : s.Inv) (hpos : s.pos < s.fin) (hunread : s.unread = c :: t) :
    Reaches s t s.cursor.step { s with pos := s.pos + 1 } := by
  have hcons := unread_eq_cons h hpos s.mark
  rw [hunread, List.cons.injEq] at hcons
  exact ⟨h.moveTo (Nat.le_succ_of_le h.mark_le) hpos, rfl, hcons.2.symm, rfl⟩

/-- A byte found and consumed. -/
theorem Scanner.Reaches.advance {s s1 : Scanner} {k : Cursor} (hreach : Reaches s (c :: t) k s1)
    (hpos : s1.pos < s1.fin) : Reaches s t k.step { s1 with pos := s1.pos + 1 } := by
  rw [← hreach.cursor]
  exact hreach.trans (reaches_advance hreach.inv hpos hreach.unread)

/-! ## Sequencing -/

/-- A call that succeeds, then the rest. -/
theorem run_bind {σ α β : Type} {x : ExceptT ScanErr (StateM σ) α}
    {f : α → ExceptT ScanErr (StateM σ) β} {s s' : σ} {a : α} (h : x s = (.ok a, s')) :
    (x >>= f) s = f a s' := by
  show (match x s with | (result, s') => ExceptT.bindCont f result s') = _
  rw [h]
  rfl

/-- A call that fails fails with what follows it. -/
theorem run_bind_error {σ α β : Type} {x : ExceptT ScanErr (StateM σ) α}
    {f : α → ExceptT ScanErr (StateM σ) β} {s s' : σ} {e : ScanErr} (h : x s = (.error e, s')) :
    (x >>= f) s = (.error e, s') := by
  show (match x s with | (result, s') => ExceptT.bindCont f result s') = _
  rw [h]
  rfl

theorem advance_eq (s : Scanner) : advance s = (.ok (), { s with pos := s.pos + 1 }) := rfl

theorem nextNonSpace_ok (h : s.Inv) (hws : ws.all isJSONSpace = true) (hc : isJSONSpace c = false)
    (hunread : s.unread = ws ++ c :: t) :
    ∃ s', nextNonSpace s = (.ok c, s')
      ∧ Reaches s t (s.cursor.skip s.feed ws.length).step s' ∧ 0 < s'.pos := by
  obtain ⟨s1, hpeek, hreach, hlt⟩ := peekNonSpace_ok h hws hc hunread
  refine ⟨{ s1 with pos := s1.pos + 1 }, ?_, hreach.advance hlt, Nat.succ_pos _⟩
  unfold nextNonSpace
  rw [run_bind hpeek, run_bind (advance_eq s1)]
  rfl

theorem expect_ok (h : s.Inv) (hws : ws.all isJSONSpace = true) (hc : isJSONSpace c = false)
    (hunread : s.unread = ws ++ c :: t) :
    ∃ s', expect c s = (.ok (), s') ∧ Reaches s t (s.cursor.skip s.feed ws.length).step s' := by
  obtain ⟨s', hnext, hreach, _⟩ := nextNonSpace_ok h hws hc hunread
  refine ⟨s', ?_, hreach⟩
  unfold expect
  rw [run_bind hnext, if_neg (not_not.mpr rfl)]
  rfl

/-! ## Keys

A key is looked at through a view of the buffer, after the colon behind it was
scanned. -/

/-- When nothing is kept, `fill` only writes to the front of the array. -/
theorem fill_frame {s s' : Scanner} (h : s.Inv) (hmark : s.mark = s.pos) (hempty : s.pos = s.fin)
    (hfill : fill s = (.ok (), s')) {lo : ℕ} (hlo : s'.r.offset - s.r.offset ≤ lo) (hi : ℕ) :
    s'.old = s.old ∧ slice s'.buf lo hi = slice s.buf lo hi := by
  have hcompact : s.compact = { s with pos := 0, fin := 0, mark := 0 } := by
    unfold compact
    by_cases h0 : 0 < s.mark
    · rw [if_pos h0, hmark, hempty, slice_self, overwrite_nil, Nat.sub_self]
    · have hm : s.mark = 0 := by omega
      have hp : s.pos = 0 := by omega
      have hf : s.fin = 0 := by omega
      rw [if_neg h0]
      cases s
      dsimp only at hm hp hf
      rw [hm, hp, hf]
  have hgrow : s.compact.grow = s.compact := by
    unfold grow
    rw [hcompact, if_neg (Nat.ne_of_lt h.cap_pos)]
  have hs' : s' = s.compact.refill := by
    unfold fill at hfill
    rw [hgrow] at hfill
    dsimp only at hfill
    split at hfill
    · exact (congrArg Prod.snd hfill).symm
    · split at hfill
      · exact absurd (congrArg Prod.fst hfill) (by simp)
      · exact absurd (congrArg Prod.fst hfill) (by simp)
  rw [hs', hcompact] at hlo ⊢
  have hlen : s.r.offset + (s.r.read (s.cap - 0)).1.length - s.r.offset ≤ lo := hlo
  refine ⟨rfl, ?_⟩
  show slice (overwrite s.buf 0 (s.r.read (s.cap - 0)).1) lo hi = slice s.buf lo hi
  exact slice_overwrite_of_disjoint (Nat.zero_le _) (Or.inr (by omega))

/-- Scanning over white space with nothing kept leaves the array alone from `lo` on, if
no read up to the byte found is longer than `lo`. -/
theorem peekLoop_frame {turns : ℕ} {s s' : Scanner} (h : s.Inv) (hmark : s.mark = s.pos)
    (hws : ws.all isJSONSpace = true) (hc : isJSONSpace c = false)
    (hunread : s.unread = ws ++ c :: t) {lo : ℕ}
    (hreads : s.cursor.readsWithin s.feed lo ws.length = true)
    (hpeek : peekLoop turns s = (.ok c, s')) (hi : ℕ) :
    s'.old = s.old ∧ slice s'.buf lo hi = slice s.buf lo hi := by
  induction turns generalizing s ws with
  | zero =>
    have hstuck : peekLoop 0 s = (.error .stuck, s) := rfl
    rw [hstuck] at hpeek
    exact absurd (congrArg Prod.fst hpeek) (by simp)
  | succ turns ih =>
    unfold peekLoop at hpeek
    by_cases hpos : s.pos < s.fin
    · rw [if_pos hpos] at hpeek
      cases ws with
      | nil =>
        have hcons := unread_eq_cons h hpos s.mark
        rw [hunread, List.nil_append, List.cons.injEq] at hcons
        rw [← hcons.1, if_neg (by rw [hc]; simp)] at hpeek
        obtain rfl : s = s' := congrArg Prod.snd hpeek
        exact ⟨rfl, rfl⟩
      | cons b ws =>
        have hcons := unread_eq_cons h hpos (s.pos + 1)
        rw [hunread, List.cons_append, List.cons.injEq] at hcons
        rw [List.all_cons, Bool.and_eq_true] at hws
        rw [← hcons.1, if_pos hws.1] at hpeek
        rw [List.length_cons, Cursor.readsWithin, Bool.and_eq_true,
          Cursor.fetch_of_lt (cursor_lt h hpos)] at hreads
        have hinv : { s with pos := s.pos + 1, mark := s.pos + 1 }.Inv :=
          h.moveTo (Nat.le_refl _) hpos
        have hthen := ih hinv rfl hws.2 hcons.2.symm hreads.2 hpeek
        exact hthen
    · have hempty : s.pos = s.fin := Nat.le_antisymm h.pos_le (Nat.not_lt.mp hpos)
      have hrest : s.r.rest ≠ [] := by
        rw [← unread_of_empty hempty, hunread]
        simp
      obtain ⟨s1, hfill, hf, hcursor⟩ := fill_ok h hempty hrest
      rw [if_neg hpos, hfill] at hpeek
      have hshort : s1.r.offset - s.r.offset ≤ lo := by
        have hfirst := Cursor.readsWithin_first hreads
        rw [← hcursor] at hfirst
        exact hfirst
      have hfirst := fill_frame h hmark hempty hfill hshort hi
      have hmark1 : s1.mark = s1.pos := by rw [hf.mark, hf.pos, hmark, Nat.sub_self]
      have hreads1 : s1.cursor.readsWithin s1.feed lo ws.length = true := by
        rw [hf.feed]
        exact Cursor.readsWithin_fetched (cursor_lt hf.inv hf.more) (hf.fetch_eq hcursor) hreads
      have hthen := ih hf.inv hmark1 hws (hf.unread.trans hunread) hreads1 hpeek
      exact ⟨hthen.1.trans hfirst.1, hthen.2.trans hfirst.2⟩

/-- **The colon after a key.** A view of the array whose bytes lie behind the first `lo`
is intact after the colon was scanned, if it is empty or no read made in between is longer
than `lo`. -/
theorem expect_view {ws t : Bytes} (h : s.Inv) (hmark : s.mark = s.pos)
    (hws : ws.all isJSONSpace = true) (hunread : s.unread = ws ++ colon :: t) {lo : ℕ} {hi : ℕ}
    (hreads : hi ≤ lo ∨ s.cursor.readsWithin s.feed lo ws.length = true) :
    ∃ s', expect colon s = (.ok (), s') ∧ Reaches s t (s.cursor.skip s.feed ws.length).step s'
      ∧ s'.view ⟨s.old.length, lo, hi⟩ = slice s.buf lo hi := by
  have hcolon : isJSONSpace colon = false := by decide
  obtain ⟨s1, hpeek, hreach, hlt⟩ := peekNonSpace_ok h hws hcolon hunread
  have hnext : nextNonSpace s = (.ok colon, { s1 with pos := s1.pos + 1 }) := by
    unfold nextNonSpace
    rw [run_bind hpeek, run_bind (advance_eq s1)]
    rfl
  refine ⟨{ s1 with pos := s1.pos + 1 }, ?_, hreach.advance hlt, ?_⟩
  · unfold expect
    rw [run_bind hnext, if_neg (not_not.mpr rfl)]
    rfl
  · unfold view
    dsimp only
    rcases hreads with hle | hreads
    · unfold slice
      rw [Nat.sub_eq_zero_of_le hle, List.take_zero, List.take_zero]
    · obtain ⟨hold, hbuf⟩ := peekLoop_frame h hmark hws hcolon hunread hreads hpeek hi
      rw [hold, List.getElem?_append_right (Nat.le_refl _), Nat.sub_self]
      exact hbuf

/-! ## Strings and values -/

/-- The bytes of a string up to its closing quote, and what follows the quote. -/
def spanString : (escaped : Bool) → Bytes → Option (Bytes × Bytes)
  | _, [] => none
  | true, c :: cs => (spanString false cs).map fun p => (c :: p.1, p.2)
  | false, c :: cs =>
    if c = quote then some ([], cs)
    else (spanString (c == backslash) cs).map fun p => (c :: p.1, p.2)

/-- A value taken off a text: its bytes, what follows, and whether the splitter has
looked at the byte that follows. -/
structure Span where
  raw : Bytes
  rest : Bytes
  ahead : Bool
  deriving DecidableEq

/-- The value at the front of a text. -/
def spanValue : ValueState → Bytes → Option Span
  | _, [] => none
  | st, c :: cs =>
    match valueByte st c with
    | .next st => (spanValue st cs).map fun p => { p with raw := c :: p.raw }
    | .endBefore => some ⟨[], c :: cs, true⟩
    | .endAfter => some ⟨[c], cs, false⟩

/-- A consumed byte is kept. -/
theorem kept_advance (h : s.Inv) (hpos : s.pos < s.fin) :
    { s with pos := s.pos + 1 }.kept = s.kept ++ [s.byte] := by
  have hlen : s.pos < s.buf.length := Nat.lt_of_lt_of_le hpos h.fin_le
  unfold kept byte
  rw [slice_concat h.mark_le hlen, List.getElem?_eq_getElem hlen]
  rfl

/-- A value is not empty, or its terminator was looked at. -/
theorem spanValue_nonempty {st : ValueState} {bs : Bytes} {p : Span}
    (h : spanValue st bs = some p) : p.raw.length ≠ 0 ∨ p.ahead = true := by
  cases bs with
  | nil => exact absurd h (by simp [spanValue])
  | cons c cs =>
    rw [spanValue] at h
    split at h
    · obtain ⟨q, -, rfl⟩ := Option.map_eq_some_iff.mp h
      exact Or.inl (Nat.succ_ne_zero _)
    · obtain rfl := Option.some.inj h
      exact Or.inr rfl
    · obtain rfl := Option.some.inj h
      exact Or.inl (Nat.succ_ne_zero _)

/-- The loop of `scanValue` takes what `spanValue` takes. -/
theorem scanValueLoop_ok {turns : ℕ} {st : ValueState} {p : Span} (h : s.Inv)
    (hwork : s.work < turns) (hspan : spanValue st s.unread = some p) :
    ∃ s', scanValueLoop turns s.mark st s = (.ok (s.kept ++ p.raw), s')
      ∧ Reaches s p.rest (s.cursor.span s.feed p.raw.length p.ahead) s' := by
  -- `work` drops with every byte and every refill, so `turns` does not run out
  induction turns generalizing s st p with
  | zero => omega
  | succ turns ih =>
    unfold scanValueLoop
    by_cases hpos : s.pos < s.fin
    · have hcons := unread_eq_cons h hpos s.mark
      have hreach := reaches_advance h hpos hcons
      have hkept := kept_advance h hpos
      have hfetch : s.cursor.fetch s.feed = s.cursor := Cursor.fetch_of_lt (cursor_lt h hpos)
      rw [hcons, spanValue] at hspan
      rw [if_pos hpos]
      cases hstep : valueByte st s.byte with
      | next st' =>
        rw [hstep] at hspan
        obtain ⟨q, hspan', rfl⟩ := Option.map_eq_some_iff.mp hspan
        obtain ⟨s', hs', hr⟩ := ih hreach.inv (work_advance _ hpos hwork) hspan'
        rw [hkept, List.append_assoc] at hs'
        refine ⟨s', hs', hr.inv, hr.feed, hr.unread, ?_⟩
        rw [List.length_cons, Cursor.span_succ hfetch]
        exact hr.cursor
      | endBefore =>
        rw [hstep] at hspan
        obtain rfl := Option.some.inj hspan
        rw [List.append_nil]
        refine ⟨{ s with mark := s.pos }, rfl, h.moveTo (Nat.le_refl _) h.pos_le, rfl, hcons, ?_⟩
        rw [Cursor.span, if_pos rfl, List.length_nil, Cursor.take, hfetch]
        rfl
      | endAfter =>
        rw [hstep] at hspan
        obtain rfl := Option.some.inj hspan
        rw [← hkept]
        refine ⟨{ s with pos := s.pos + 1, mark := s.pos + 1 }, rfl,
          h.moveTo (Nat.le_refl _) hpos, rfl, rfl, ?_⟩
        rw [List.length_singleton, Cursor.span_succ hfetch]
        rfl
    · have hempty : s.pos = s.fin := Nat.le_antisymm h.pos_le (Nat.not_lt.mp hpos)
      have hrest : s.r.rest ≠ [] := by
        rw [← unread_of_empty hempty]
        intro hnil
        rw [hnil, spanValue] at hspan
        simp at hspan
      obtain ⟨s1, hfill, hf, hcursor⟩ := fill_ok h hempty hrest
      have hless : s1.work < turns := Nat.lt_of_lt_of_le hf.work (Nat.le_of_lt_succ hwork)
      rw [if_neg hpos, hfill]
      dsimp only
      obtain ⟨s', hs', hr⟩ := ih hf.inv hless (by rw [hf.unread]; exact hspan)
      rw [hf.kept, hf.mark] at hs'
      rw [hf.mark, Nat.sub_zero, Nat.sub_self]
      refine ⟨s', hs', hr.inv, hr.feed.trans hf.feed, hr.unread, ?_⟩
      rw [hr.cursor, hf.feed]
      exact Cursor.span_congr (hf.fetch_eq hcursor) (spanValue_nonempty hspan)

/-- **`scanValue`.** -/
theorem scanValue_ok {cs : Bytes} {p : Span} (h : s.Inv) (hws : ws.all isJSONSpace = true)
    (hc : isJSONSpace c = false) (hunread : s.unread = ws ++ c :: cs)
    (hspan : spanValue {} (c :: cs) = some p) :
    ∃ s', scanValue s = (.ok p.raw, s') ∧ Reaches s p.rest
      ((s.cursor.skip s.feed ws.length).setMark.span s.feed p.raw.length p.ahead) s' := by
  obtain ⟨s1, hpeek, hreach, _⟩ := peekNonSpace_ok h hws hc hunread
  have hinv : { s1 with mark := s1.pos }.Inv :=
    hreach.inv.moveTo (Nat.le_refl _) hreach.inv.pos_le
  have hmarked : { s1 with mark := s1.pos }.unread = c :: cs := hreach.unread
  obtain ⟨s', hs', hr⟩ := scanValueLoop_ok hinv (Nat.lt_succ_self _)
    (by rw [hmarked]; exact hspan)
  have hnil : { s1 with mark := s1.pos }.kept = [] := slice_self _ _
  rw [hnil, List.nil_append] at hs'
  refine ⟨s', ?_, hr.inv, hr.feed.trans hreach.feed, hr.unread, ?_⟩
  · unfold scanValue
    rw [run_bind hpeek]
    exact hs'
  · rw [hr.cursor, ← hreach.cursor, ← hreach.feed]
    rfl

/-- The loop of `scanStringRest` takes what `spanString` takes, into a view that starts
behind the opening quote. -/
theorem scanStringLoop_ok {turns : ℕ} {escaped : Bool} {raw t : Bytes} (h : s.Inv)
    (hwork : s.work < turns) (hquote : s.mark < s.pos)
    (hspan : spanString escaped s.unread = some (raw, t)) :
    ∃ s' lo hi, scanStringLoop turns (s.mark + 1) escaped s = (.ok ⟨s'.old.length, lo, hi⟩, s')
      ∧ Reaches s t (s.cursor.take s.feed (raw.length + 1)).setMark s' ∧ s'.mark = s'.pos
      ∧ s'.cursor.base + lo = s.cursor.mark + 1 ∧ hi ≤ s'.pos
      ∧ slice s'.buf lo hi = s.kept.drop 1 ++ raw := by
  induction turns generalizing s escaped raw with
  | zero => omega
  | succ turns ih =>
    unfold scanStringLoop
    by_cases hpos : s.pos < s.fin
    · have hcons := unread_eq_cons h hpos s.mark
      have hreach := reaches_advance h hpos hcons
      have hfetch : s.cursor.fetch s.feed = s.cursor := Cursor.fetch_of_lt (cursor_lt h hpos)
      have hkept : { s with pos := s.pos + 1 }.kept.drop 1 = s.kept.drop 1 ++ [s.byte] := by
        have hlen : 1 ≤ s.kept.length := by
          unfold kept
          rw [length_slice (Nat.le_trans h.pos_le h.fin_le)]
          omega
        rw [kept_advance h hpos, List.drop_append_of_le_length hlen]
      have hless := work_advance s.mark hpos hwork
      -- Every byte but the closing quote is one more turn.
      have hmore : ∀ (escaped' : Bool) (raw' : Bytes), raw = s.byte :: raw' →
          spanString escaped' { s with pos := s.pos + 1 }.unread = some (raw', t) →
          ∃ s' lo hi, scanStringLoop turns (s.mark + 1) escaped' { s with pos := s.pos + 1 }
              = (.ok ⟨s'.old.length, lo, hi⟩, s')
            ∧ Reaches s t (s.cursor.take s.feed (raw.length + 1)).setMark s'
            ∧ s'.mark = s'.pos ∧ s'.cursor.base + lo = s.cursor.mark + 1 ∧ hi ≤ s'.pos
            ∧ slice s'.buf lo hi = s.kept.drop 1 ++ raw := by
        intro escaped' raw' hraw hspan'
        obtain ⟨s', lo, hi, hs', hr, hmark, hlo, hhi, hview⟩ :=
          ih hreach.inv hless (Nat.lt_succ_of_lt hquote) hspan'
        rw [hkept, List.append_assoc, List.singleton_append, ← hraw] at hview
        refine ⟨s', lo, hi, hs', ⟨hr.inv, hr.feed, hr.unread, ?_⟩, hmark, hlo, hhi, hview⟩
        rw [hr.cursor, hraw, List.length_cons, Cursor.take.eq_def s.feed (raw'.length + 1 + 1)]
        dsimp only
        rw [hfetch]
        rfl
      rw [if_pos hpos]
      rw [hcons] at hspan
      cases escaped with
      | true =>
        obtain ⟨⟨raw', t'⟩, hspan', heq⟩ := Option.map_eq_some_iff.mp hspan
        obtain ⟨rfl, rfl⟩ := Prod.mk.inj heq
        exact hmore false raw' rfl hspan'
      | false =>
        unfold spanString at hspan
        dsimp only
        rw [if_neg (by simp)]
        by_cases hend : s.byte = quote
        · rw [if_pos hend] at hspan
          obtain ⟨rfl, rfl⟩ := Prod.mk.inj (Option.some.inj hspan)
          rw [hend, if_neg (by decide), if_pos rfl, List.append_nil]
          refine ⟨{ s with pos := s.pos + 1, mark := s.pos + 1 }, s.mark + 1, s.pos + 1 - 1, rfl,
            ⟨h.moveTo (Nat.le_refl _) hpos, rfl, rfl, ?_⟩, rfl, rfl, Nat.le_succ _,
            slice_succ _ _ _⟩
          rw [List.length_nil, Cursor.take, Cursor.take, hfetch]
          rfl
        · rw [if_neg hend] at hspan
          obtain ⟨⟨raw', t'⟩, hspan', heq⟩ := Option.map_eq_some_iff.mp hspan
          obtain ⟨rfl, rfl⟩ := Prod.mk.inj heq
          by_cases hesc : s.byte = backslash
          · rw [if_pos hesc]
            rw [hesc, beq_self_eq_true] at hspan'
            exact hmore true raw' rfl hspan'
          · rw [if_neg hesc, if_neg hend]
            rw [beq_false_of_ne hesc] at hspan'
            exact hmore false raw' rfl hspan'
    · have hempty : s.pos = s.fin := Nat.le_antisymm h.pos_le (Nat.not_lt.mp hpos)
      have hrest : s.r.rest ≠ [] := by
        rw [← unread_of_empty hempty]
        intro hnil
        rw [hnil, spanString] at hspan
        simp at hspan
      obtain ⟨s1, hfill, hf, hcursor⟩ := fill_ok h hempty hrest
      have hless : s1.work < turns := Nat.lt_of_lt_of_le hf.work (Nat.le_of_lt_succ hwork)
      have hquote1 : s1.mark < s1.pos := by rw [hf.mark, hf.pos]; omega
      have hmark1 : s1.cursor.mark = s.cursor.mark := by rw [hcursor, Cursor.fetch_mark]
      rw [if_neg hpos, hfill]
      dsimp only
      obtain ⟨s', lo, hi, hs', hr, hmark, hlo, hhi, hview⟩ :=
        ih hf.inv hless hquote1 (by rw [hf.unread]; exact hspan)
      rw [hf.kept] at hview
      rw [hmark1] at hlo
      rw [hf.mark] at hs' ⊢
      rw [Nat.sub_zero, Nat.add_sub_cancel_left]
      refine ⟨s', lo, hi, hs', ⟨hr.inv, hr.feed.trans hf.feed, hr.unread, ?_⟩, hmark, hlo, hhi, hview⟩
      rw [hr.cursor, hf.feed, Cursor.take_congr (hf.fetch_eq hcursor)]

/-- **`scanStringRest`.** -/
theorem scanStringRest_ok {raw t : Bytes} (h : s.Inv) (hpos : 0 < s.pos)
    (hspan : spanString false s.unread = some (raw, t)) :
    ∃ s' lo hi, scanStringRest s = (.ok ⟨s'.old.length, lo, hi⟩, s')
      ∧ Reaches s t (s.cursor.string s.feed raw.length) s' ∧ s'.mark = s'.pos
      ∧ s'.cursor.base + lo = s.cursor.pos ∧ hi ≤ s'.pos ∧ slice s'.buf lo hi = raw := by
  have hinv : { s with mark := s.pos - 1 }.Inv := h.moveTo (Nat.sub_le _ _) h.pos_le
  have hstart : { s with mark := s.pos - 1 }.cursor
      = { s.cursor with mark := s.cursor.pos - 1 } := by
    have hmark : s.cursor.pos - 1 = s.r.offset - s.fin + (s.pos - 1) := Nat.add_sub_assoc hpos _
    rw [hmark]
    rfl
  obtain ⟨s', lo, hi, hs', hr, hmark, hlo, hhi, hview⟩ :=
    scanStringLoop_ok hinv (Nat.lt_succ_self _) (Nat.sub_lt hpos Nat.one_pos) hspan
  have hkept : { s with mark := s.pos - 1 }.kept.drop 1 = [] := by
    rw [List.drop_eq_nil_iff]
    unfold kept
    rw [length_slice (Nat.le_trans h.pos_le h.fin_le)]
    dsimp only
    omega
  have hlo' : s'.cursor.base + lo = s.cursor.pos := by
    rw [hlo, hstart]
    show s.r.offset - s.fin + s.pos - 1 + 1 = s.r.offset - s.fin + s.pos
    omega
  rw [hkept, List.nil_append] at hview
  refine ⟨s', lo, hi, ?_, ⟨hr.inv, hr.feed, hr.unread, ?_⟩, hmark, hlo', hhi, hview⟩
  · unfold scanStringRest
    dsimp only at hs' ⊢
    rw [Nat.sub_add_cancel hpos] at hs'
    exact hs'
  · rw [hr.cursor, hstart]
    rfl

end SolanaGo.Rpc
