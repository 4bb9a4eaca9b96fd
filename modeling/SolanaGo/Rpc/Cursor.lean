/-
The geometry of the scanner's buffer, without the bytes.

All offsets are counted from the start of the body: `base` is that of the first byte
of the array, `fin` that of the first byte not yet read. How they move depends on
the reads and on which bytes the scanner asks for, but not on what the bytes are, so
where a key lies in the array can be computed from the syntax of the body and the
way the body is cut.
-/
import SolanaGo.Rpc.Stream

set_option autoImplicit false

namespace SolanaGo.Rpc

open Codec (Bytes)
open Json

/-- How a body arrives: the length of the read that starts at an offset, and the
length of the body. -/
structure Feed where
  cut : ℕ → ℕ
  total : ℕ

/-- The scanner's offsets, from the start of the body. -/
structure Cursor where
  base : ℕ
  mark : ℕ
  pos : ℕ
  fin : ℕ
  cap : ℕ
  deriving DecidableEq

/-- Is the value ended only by its terminator? -/
def isScalar : Value → Bool
  | .scalar _ => true
  | _ => false

/-- What the splitter takes for a value: a scalar comes with the white space behind
it. -/
def taken (v : Value) (after : Space) : Bytes :=
  v.render ++ if isScalar v then after.1 else []

/-- The white space the splitter leaves behind a value. -/
def blanksAfter (v : Value) (after : Space) : Bytes := if isScalar v then [] else after.1

namespace Cursor

variable (feed : Feed)

/-- `fill`: the array now starts at the mark, doubled if that leaves no room, and the
read is cut short by the room and by the end of the body. -/
def fill (c : Cursor) : Cursor :=
  let cap := if c.fin - c.mark = c.cap then c.cap * 2 else c.cap
  { c with
    base := c.mark
    fin := c.fin + min (min (feed.cut c.fin) (cap - (c.fin - c.mark))) (feed.total - c.fin)
    cap }

/-- The byte at `pos` is asked for. -/
def fetch (c : Cursor) : Cursor := if c.pos < c.fin then c else c.fill feed

/-- A byte is consumed. -/
def step (c : Cursor) : Cursor := { c with pos := c.pos + 1 }

/-- A byte is consumed and need not survive a refill. -/
def drop (c : Cursor) : Cursor := { c with pos := c.pos + 1, mark := c.pos + 1 }

/-- White space is dropped, and the byte behind it asked for. -/
def skip : (blanks : ℕ) → Cursor → Cursor
  | 0, c => c.fetch feed
  | blanks + 1, c => skip blanks (c.fetch feed).drop

/-- Bytes are consumed and kept. -/
def take : ℕ → Cursor → Cursor
  | 0, c => c
  | n + 1, c => take n (c.fetch feed).step

/-- What is behind `pos` must survive, what is before need not. -/
def setMark (c : Cursor) : Cursor := { c with mark := c.pos }

/-- A string of `n` bytes and its closing quote; its opening quote is kept. -/
def string (n : ℕ) (c : Cursor) : Cursor :=
  (take feed (n + 1) { c with mark := c.pos - 1 }).setMark

/-- A value of `n` bytes, and a look at the byte behind it. -/
def span (n : ℕ) (ahead : Bool) (c : Cursor) : Cursor :=
  (if ahead then (take feed n c).fetch feed else take feed n c).setMark

/-- White space and a value. A scalar goes on to its terminator. -/
def value (blanks : ℕ) (v : Value) (after : Space) (c : Cursor) : Cursor :=
  (skip feed blanks c).setMark.span feed (taken v after).length (isScalar v)

/-- While white space is dropped and the byte behind it asked for, no read is longer
than `room`. -/
def readsWithin (room : ℕ) : (blanks : ℕ) → Cursor → Bool
  | 0, c => decide ((c.fetch feed).fin - c.fin ≤ room)
  | blanks + 1, c =>
    decide ((c.fetch feed).fin - c.fin ≤ room) && readsWithin room blanks (c.fetch feed).drop

section Lemmas

variable {feed} {c c' : Cursor}

theorem fetch_of_lt (h : c.pos < c.fin) : c.fetch feed = c := if_pos h

/-- Only what is fetched matters for the bytes dropped. -/
theorem skip_congr (h : c'.fetch feed = c.fetch feed) (blanks : ℕ) :
    skip feed blanks c' = skip feed blanks c := by
  cases blanks with
  | zero => exact h
  | succ blanks =>
    unfold skip
    rw [h]

theorem take_congr (h : c'.fetch feed = c.fetch feed) (n : ℕ) :
    take feed (n + 1) c' = take feed (n + 1) c := by
  unfold take
  rw [h]

theorem span_succ {n : ℕ} {ahead : Bool} (h : c.fetch feed = c) :
    c.span feed (n + 1) ahead = c.step.span feed n ahead := by
  unfold span
  rw [take, h]

theorem span_congr {n : ℕ} {ahead : Bool} (h : c'.fetch feed = c.fetch feed)
    (hn : n ≠ 0 ∨ ahead = true) : c'.span feed n ahead = c.span feed n ahead := by
  unfold span
  cases n with
  | zero =>
    have hahead : ahead = true := hn.resolve_left (not_not.mpr rfl)
    rw [if_pos hahead, if_pos hahead, take, take, h]
  | succ n => rw [take_congr h]

theorem fetch_mark (c : Cursor) : (c.fetch feed).mark = c.mark := by
  unfold fetch fill
  split <;> rfl

theorem readsWithin_first {room blanks : ℕ} (h : readsWithin feed room blanks c = true) :
    (c.fetch feed).fin - c.fin ≤ room := by
  cases blanks with
  | zero => exact of_decide_eq_true h
  | succ blanks =>
    unfold readsWithin at h
    rw [Bool.and_eq_true] at h
    exact of_decide_eq_true h.1

/-- Once the byte is there, asking for it again does not read. -/
theorem readsWithin_fetched {room blanks : ℕ} (hlt : c'.pos < c'.fin)
    (hc : c'.fetch feed = c.fetch feed) (h : readsWithin feed room blanks c = true) :
    readsWithin feed room blanks c' = true := by
  have hnone : (c'.fetch feed).fin - c'.fin ≤ room := by
    rw [fetch_of_lt hlt]
    omega
  cases blanks with
  | zero => exact decide_eq_true hnone
  | succ blanks =>
    unfold readsWithin at *
    rw [Bool.and_eq_true] at *
    rw [← hc] at h
    exact ⟨decide_eq_true hnone, h.2⟩

end Lemmas

end Cursor

end SolanaGo.Rpc
