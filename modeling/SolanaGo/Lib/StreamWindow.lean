/-
A window of a stream, in an array that grows.

A reader of a stream keeps in an array what it still needs: the elements from a mark on, up to
the last one it has read. When it needs more it moves them to the front of the array, doubles
the array if they fill it, and reads behind them (`fetch`).

The source is arbitrary. It may give any number of elements that fits, none at all, an error
beside them, and something else when it is asked again. Whatever it does, the front of the
array up to `fin` is the last part of what was read so far (`Sound.window`), and a fetch moves
the elements from the mark on without changing them (`fetch_spec`).

The mark is an integer: a program that sets it in front of the position may set it to -1.
-/
import Mathlib.Data.List.Infix
import SolanaGo.Lib.Buffer

set_option autoImplicit false

namespace StreamWindow

open Buffer

variable {α ρ ε : Type}

/-! ## Sources and windows -/

/-- A source of elements: what a read gives, what it answers beside, and the source after it.
A read does not give more than it has room for. -/
structure Source (α ρ ε : Type) where
  read : ρ → (room : ℕ) → List α × Option ε × ρ
  length_le : ∀ r room, (read r room).1.length ≤ room

/-- The array with its offsets, and the source behind it. -/
structure Window (α ρ : Type) where
  r : ρ
  /-- the array, up to the last element ever written to it -/
  buf : List α := []
  cap : ℕ
  pos : ℕ := 0
  fin : ℕ := 0
  mark : ℤ := 0
  /-- all that was read so far, which the program does not keep -/
  input : List α := []

namespace Window

variable (w : Window α ρ)

/-- The elements from the mark on go to the front. -/
def compact : Window α ρ :=
  if 0 < w.mark then
    { w with
      buf := overwrite w.buf 0 (slice w.buf w.mark.toNat w.fin)
      pos := w.pos - w.mark.toNat
      fin := w.fin - w.mark.toNat
      mark := 0 }
  else w

/-- A full array is doubled. -/
def grow : Window α ρ :=
  if w.fin = w.cap then { w with buf := w.buf.take w.fin, cap := w.cap * 2 } else w

/-- One read, into the room behind the elements. -/
def refill (src : Source α ρ ε) (w : Window α ρ) : Option ε × Window α ρ :=
  let (got, err, r) := src.read w.r (w.cap - w.fin)
  (err, { w with
    r
    buf := overwrite w.buf w.fin got
    fin := w.fin + got.length
    input := w.input ++ got })

/-- Room is made, and more is read. -/
def fetch (src : Source α ρ ε) (w : Window α ρ) : Option ε × Window α ρ := w.compact.grow.refill src

/-- The element at `pos` is consumed. -/
def advance : Window α ρ := { w with pos := w.pos + 1 }

/-- The element at `pos` is consumed, and nothing up to it is needed. -/
def drop : Window α ρ := { w with pos := w.pos + 1, mark := w.pos + 1 }

/-- Nothing in front of `pos` is needed. -/
def setMark : Window α ρ := { w with mark := w.pos }

/-- The last element consumed is needed. -/
def markBack : Window α ρ := { w with mark := w.pos - 1 }

/-- The elements consumed that are still needed. -/
def kept : List α := slice w.buf w.mark.toNat w.pos

/-- The elements not yet consumed. -/
def ahead : List α := slice w.buf w.pos w.fin

/-- The offsets are in order, and the array holds the last part of what was read. The mark is
not below `low`. -/
structure Sound (low : ℤ) (w : Window α ρ) : Prop where
  low_le : low ≤ w.mark
  mark_le : w.mark ≤ w.pos
  pos_le : w.pos ≤ w.fin
  fin_le : w.fin ≤ w.buf.length
  len_le : w.buf.length ≤ w.cap
  cap_pos : 0 < w.cap
  window : slice w.buf 0 w.fin <:+ w.input

/-! ## Moves inside the window -/

variable {low : ℤ} {w : Window α ρ}

theorem Sound.moveTo (h : w.Sound low) {mark : ℤ} {pos : ℕ} (hlow : low ≤ mark)
    (hmark : mark ≤ pos) (hpos : pos ≤ w.fin) : { w with pos, mark }.Sound low :=
  ⟨hlow, hmark, hpos, h.fin_le, h.len_le, h.cap_pos, h.window⟩

theorem Sound.advance (h : w.Sound low) (hpos : w.pos < w.fin) : w.advance.Sound low := by
  have hmark := h.mark_le
  exact h.moveTo h.low_le (by omega) hpos

theorem Sound.drop (h : w.Sound low) (hlow : low ≤ 0) (hpos : w.pos < w.fin) :
    w.drop.Sound low := h.moveTo (by omega) (by omega) hpos

theorem Sound.setMark (h : w.Sound low) (hlow : low ≤ 0) : w.setMark.Sound low :=
  h.moveTo (by omega) (by omega) h.pos_le

theorem Sound.markBack (h : w.Sound low) (hlow : low ≤ (w.pos : ℤ) - 1) :
    w.markBack.Sound low := h.moveTo hlow (by omega) h.pos_le

/-- **The elements between the mark and the end are a window of what was read.** -/
theorem Sound.suffix (h : w.Sound low) (lo : ℕ) : slice w.buf lo w.fin <:+ w.input := by
  rw [slice_eq_drop]
  exact (List.drop_suffix _ _).trans h.window

/-- The next element is there. -/
theorem Sound.ahead_eq_cons (h : w.Sound low) (hpos : w.pos < w.fin) :
    ∃ a, w.buf[w.pos]? = some a ∧ w.ahead = a :: w.advance.ahead := by
  have hlen : w.pos < w.buf.length := Nat.lt_of_lt_of_le hpos h.fin_le
  exact ⟨w.buf[w.pos], List.getElem?_eq_getElem hlen, slice_eq_cons hpos hlen⟩

/-- A consumed element is kept. -/
theorem Sound.kept_advance (h : w.Sound low) {a : α} (ha : w.buf[w.pos]? = some a) :
    w.advance.kept = w.kept ++ [a] := by
  obtain ⟨hlen, rfl⟩ := List.getElem?_eq_some_iff.mp ha
  have hmark := h.mark_le
  have hle : w.mark.toNat ≤ w.pos := by omega
  exact slice_concat hle hlen

theorem ahead_of_empty (h : w.pos = w.fin) : w.ahead = [] := by
  unfold ahead
  rw [h, slice_self]

theorem Sound.length_ahead (h : w.Sound low) : w.ahead.length = w.fin - w.pos :=
  length_slice h.fin_le

theorem Sound.length_kept (h : w.Sound low) : w.kept.length = w.pos - w.mark.toNat :=
  length_slice (Nat.le_trans h.pos_le h.fin_le)

theorem kept_setMark (w : Window α ρ) : w.setMark.kept = [] := by
  unfold kept setMark
  rw [Int.toNat_natCast, slice_self]

/-! ## Fetching -/

/-- What making room does: the elements move, and nothing else happens. -/
structure Moved (w w' : Window α ρ) : Prop where
  reader : w'.r = w.r
  input : w'.input = w.input
  mark : w'.mark = min w.mark 0
  pos : w'.pos = w.pos - w.mark.toNat
  fin : w'.fin = w.fin - w.mark.toNat
  kept : w'.kept = w.kept
  ahead : w'.ahead = w.ahead

theorem compact_moved (h : w.Sound low) (hlow : low ≤ 0) :
    w.compact.Sound low ∧ Moved w w.compact := by
  have hmark := h.mark_le
  have hpos := h.pos_le
  have hfin := h.fin_le
  have hlen := h.len_le
  unfold compact
  by_cases h0 : 0 < w.mark
  · rw [if_pos h0]
    obtain ⟨m, hm⟩ : ∃ m : ℕ, w.mark = m := ⟨w.mark.toNat, by omega⟩
    rw [hm, Int.toNat_natCast]
    have hlength : (overwrite w.buf 0 (slice w.buf m w.fin)).length
        = max w.buf.length (0 + (w.fin - m)) := by
      rw [length_overwrite (Nat.zero_le _), length_slice hfin]
    refine ⟨⟨hlow, ?_, ?_, ?_, ?_, h.cap_pos, ?_⟩, ⟨rfl, rfl, ?_, ?_, ?_, ?_, ?_⟩⟩
    · show (0 : ℤ) ≤ (w.pos - m : ℕ)
      omega
    · show w.pos - m ≤ w.fin - m
      omega
    · show w.fin - m ≤ (overwrite w.buf 0 (slice w.buf m w.fin)).length
      omega
    · show (overwrite w.buf 0 (slice w.buf m w.fin)).length ≤ w.cap
      omega
    · show slice (overwrite w.buf 0 (slice w.buf m w.fin)) 0 (w.fin - m) <:+ w.input
      rw [slice_overwrite_front (Nat.le_refl _) hfin, Nat.add_zero,
        Nat.add_sub_cancel' (by omega)]
      exact h.suffix m
    · show (0 : ℤ) = min w.mark 0
      omega
    · show w.pos - m = w.pos - w.mark.toNat
      omega
    · show w.fin - m = w.fin - w.mark.toNat
      omega
    · show slice (overwrite w.buf 0 (slice w.buf m w.fin)) 0 (w.pos - m) = w.kept
      unfold kept
      rw [slice_overwrite_front (by omega) hfin, Nat.add_zero, Nat.add_sub_cancel' (by omega), hm,
        Int.toNat_natCast]
    · show slice (overwrite w.buf 0 (slice w.buf m w.fin)) (w.pos - m) (w.fin - m) = w.ahead
      unfold ahead
      rw [slice_overwrite_front (Nat.le_refl _) hfin, Nat.add_sub_cancel' (by omega),
        Nat.add_sub_cancel' (by omega)]
  · rw [if_neg h0]
    exact ⟨h, rfl, rfl, by omega, by omega, by omega, rfl, rfl⟩

theorem grow_moved (h : w.Sound low) (hmark : w.mark ≤ 0) :
    w.grow.Sound low ∧ Moved w w.grow ∧ w.grow.fin < w.grow.cap := by
  have hpos := h.pos_le
  have hfin := h.fin_le
  have hlen := h.len_le
  have hcap := h.cap_pos
  unfold grow
  by_cases hfull : w.fin = w.cap
  · rw [if_pos hfull]
    have hlength : (w.buf.take w.fin).length = w.fin := by
      rw [List.length_take]
      omega
    refine ⟨⟨h.low_le, h.mark_le, hpos, ?_, ?_, ?_, ?_⟩, ⟨rfl, rfl, ?_, ?_, ?_, ?_, ?_⟩, ?_⟩
    · exact Nat.le_of_eq hlength.symm
    · show (w.buf.take w.fin).length ≤ w.cap * 2
      omega
    · show 0 < w.cap * 2
      omega
    · show slice (w.buf.take w.fin) 0 w.fin <:+ w.input
      rw [slice_take (Nat.le_refl _)]
      exact h.window
    · show w.mark = min w.mark 0
      omega
    · show w.pos = w.pos - w.mark.toNat
      omega
    · show w.fin = w.fin - w.mark.toNat
      omega
    · exact slice_take hpos
    · exact slice_take (Nat.le_refl _)
    · show w.fin < w.cap * 2
      omega
  · rw [if_neg hfull]
    exact ⟨h, ⟨rfl, rfl, by omega, by omega, by omega, rfl, rfl⟩, by omega⟩

/-- What a fetch does: the elements from the mark on move to the front, and what the source
gives comes behind them. -/
structure Fetched (src : Source α ρ ε) (w : Window α ρ) (got : List α) (err : Option ε)
    (w' : Window α ρ) : Prop where
  read : ∃ room, 0 < room ∧ src.read w.r room = (got, err, w'.r)
  input : w'.input = w.input ++ got
  mark : w'.mark = min w.mark 0
  pos : w'.pos = w.pos - w.mark.toNat
  fin : w'.fin = w.fin - w.mark.toNat + got.length
  kept : w'.kept = w.kept
  ahead : w'.ahead = w.ahead ++ got

/-- **One fetch.** -/
theorem fetch_spec (src : Source α ρ ε) (h : w.Sound low) (hlow : low ≤ 0) :
    (w.fetch src).2.Sound low ∧ ∃ got, Fetched src w got (w.fetch src).1 (w.fetch src).2 := by
  obtain ⟨hc, hcm⟩ := compact_moved h hlow
  have hcmark : w.compact.mark ≤ 0 := by
    rw [hcm.mark]
    omega
  obtain ⟨hg, hgm, hroom⟩ := grow_moved hc hcmark
  have hlength := src.length_le w.compact.grow.r (w.compact.grow.cap - w.compact.grow.fin)
  have hread : src.read w.r (w.compact.grow.cap - w.compact.grow.fin)
      = src.read w.compact.grow.r (w.compact.grow.cap - w.compact.grow.fin) := by
    rw [hgm.reader, hcm.reader]
  have hmark : w.compact.grow.mark = min w.mark 0 := by
    rw [hgm.mark, hcm.mark]
    omega
  have hpos : w.compact.grow.pos = w.pos - w.mark.toNat := by
    rw [hgm.pos, hcm.pos, hcm.mark]
    omega
  have hfin : w.compact.grow.fin = w.fin - w.mark.toNat := by
    rw [hgm.fin, hcm.fin, hcm.mark]
    omega
  have hkept : w.compact.grow.kept = w.kept := hgm.kept.trans hcm.kept
  have hahead : w.compact.grow.ahead = w.ahead := hgm.ahead.trans hcm.ahead
  have hinput : w.compact.grow.input = w.input := hgm.input.trans hcm.input
  -- from here on only what the two moves did to the window counts
  unfold fetch refill
  generalize w.compact.grow = g at *
  generalize src.read g.r (g.cap - g.fin) = answer at *
  obtain ⟨got, err, r⟩ := answer
  dsimp only at *
  have hbuf : (overwrite g.buf g.fin got).length = max g.buf.length (g.fin + got.length) :=
    length_overwrite hg.fin_le
  have hlen := hg.len_le
  have hgpos := hg.pos_le
  refine ⟨⟨hg.low_le, hg.mark_le, ?_, ?_, ?_, hg.cap_pos, ?_⟩, got,
    ⟨⟨_, Nat.sub_pos_of_lt hroom, hread⟩, ?_, hmark, hpos, ?_, ?_, ?_⟩⟩
  · show g.pos ≤ g.fin + got.length
    omega
  · show g.fin + got.length ≤ (overwrite g.buf g.fin got).length
    omega
  · show (overwrite g.buf g.fin got).length ≤ g.cap
    omega
  · show slice (overwrite g.buf g.fin got) 0 (g.fin + got.length) <:+ g.input ++ got
    rw [← slice_append_slice (Nat.zero_le g.fin) (Nat.le_add_right _ _),
      slice_overwrite_self hg.fin_le,
      slice_overwrite_of_disjoint hg.fin_le (Or.inl (Nat.le_refl _))]
    obtain ⟨before, hbefore⟩ := hg.window
    exact ⟨before, by rw [← List.append_assoc, hbefore]⟩
  · show g.input ++ got = w.input ++ got
    rw [hinput]
  · show g.fin + got.length = w.fin - w.mark.toNat + got.length
    rw [hfin]
  · show slice (overwrite g.buf g.fin got) g.mark.toNat g.pos = w.kept
    rw [slice_overwrite_of_disjoint hg.fin_le (Or.inl hgpos)]
    exact hkept
  · show slice (overwrite g.buf g.fin got) g.pos (g.fin + got.length) = w.ahead ++ got
    rw [← slice_append_slice hgpos (Nat.le_add_right _ _), slice_overwrite_self hg.fin_le,
      slice_overwrite_of_disjoint hg.fin_le (Or.inl (Nat.le_refl _))]
    exact congrArg (· ++ got) hahead

end Window

/-! ## Finite sources -/

/-- The source gives no more than `left` says. -/
def Source.Bounded (src : Source α ρ ε) (left : ρ → ℕ) : Prop :=
  ∀ r room, (src.read r room).1.length + left (src.read r room).2.2 ≤ left r

/-- The source gives the elements of `rest`, one part after the other, and nothing only when
there is nothing left. -/
structure Source.Delivers (src : Source α ρ ε) (rest : ρ → List α) : Prop where
  split : ∀ r room, rest r = (src.read r room).1 ++ rest (src.read r room).2.2
  progress : ∀ r room, 0 < room → (src.read r room).1 = [] → rest r = []

theorem Source.Delivers.bounded {src : Source α ρ ε} {rest : ρ → List α}
    (h : src.Delivers rest) : src.Bounded fun r => (rest r).length := by
  intro r room
  have hsplit := congrArg List.length (h.split r room)
  rw [List.length_append] at hsplit
  exact Nat.le_of_eq hsplit.symm

end StreamWindow
