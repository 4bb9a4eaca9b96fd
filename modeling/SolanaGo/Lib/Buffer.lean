/-
Slices of a buffer that is overwritten in place.

`slice xs lo hi` is `xs[lo:hi]`, `overwrite xs off ys` is the buffer after `ys` was
copied to offset `off`. A slice taken before an overwrite and read after it is
unchanged when it lies on one side of the bytes written, and everything else about
overlapping windows follows from reading both operations by index.
-/
import Mathlib.Data.List.Basic

set_option autoImplicit false

namespace Buffer

variable {α : Type} {xs ys : List α} {lo mid hi off i : ℕ}

/-- `xs[lo:hi]`. -/
def slice (xs : List α) (lo hi : ℕ) : List α := (xs.drop lo).take (hi - lo)

/-- The buffer with `ys` copied to offset `off`. -/
def overwrite (xs : List α) (off : ℕ) (ys : List α) : List α :=
  xs.take off ++ (ys ++ xs.drop (off + ys.length))

theorem getElem?_slice : (slice xs lo hi)[i]? = if lo + i < hi then xs[lo + i]? else none := by
  unfold slice
  rw [List.getElem?_take]
  by_cases h : lo + i < hi
  · rw [if_pos h, if_pos (by omega), List.getElem?_drop]
  · rw [if_neg h, if_neg (by omega)]

theorem getElem?_overwrite (h : off ≤ xs.length) :
    (overwrite xs off ys)[i]?
      = if off ≤ i ∧ i < off + ys.length then ys[i - off]? else xs[i]? := by
  unfold overwrite
  have hlen : (xs.take off).length = off := by rw [List.length_take]; omega
  by_cases hbefore : i < off
  · rw [if_neg (by omega), List.getElem?_append_left (by omega), List.getElem?_take,
      if_pos hbefore]
  · rw [List.getElem?_append_right (by omega), hlen]
    by_cases hin : i < off + ys.length
    · rw [if_pos ⟨by omega, hin⟩, List.getElem?_append_left (by omega)]
    · rw [if_neg (by omega), List.getElem?_append_right (by omega), List.getElem?_drop]
      congr 1
      omega

theorem length_slice (h : hi ≤ xs.length) : (slice xs lo hi).length = hi - lo := by
  unfold slice
  rw [List.length_take, List.length_drop]
  omega

theorem length_overwrite (h : off ≤ xs.length) :
    (overwrite xs off ys).length = max xs.length (off + ys.length) := by
  unfold overwrite
  rw [List.length_append, List.length_append, List.length_take, List.length_drop]
  omega

@[simp] theorem slice_self (xs : List α) (lo : ℕ) : slice xs lo lo = [] := by
  unfold slice
  rw [Nat.sub_self, List.take_zero]

@[simp] theorem overwrite_nil (xs : List α) (off : ℕ) : overwrite xs off [] = xs := by
  unfold overwrite
  rw [List.nil_append, List.length_nil, Nat.add_zero, List.take_append_drop]

/-- Adjacent slices. -/
theorem slice_append_slice (h1 : lo ≤ mid) (h2 : mid ≤ hi) :
    slice xs lo mid ++ slice xs mid hi = slice xs lo hi := by
  unfold slice
  have hdrop : xs.drop mid = (xs.drop lo).drop (mid - lo) := by
    rw [List.drop_drop]; congr 1; omega
  have hsum : hi - lo = (mid - lo) + (hi - mid) := by omega
  rw [hdrop, hsum, List.take_add]

/-- The first element of a slice. -/
theorem slice_eq_cons (h : lo < hi) (hx : lo < xs.length) :
    slice xs lo hi = xs[lo] :: slice xs (lo + 1) hi := by
  unfold slice
  have hsum : hi - lo = (hi - (lo + 1)) + 1 := by omega
  rw [List.drop_eq_getElem_cons hx, hsum, List.take_succ_cons]

/-- The last element of a slice. -/
theorem slice_concat (h : lo ≤ hi) (hx : hi < xs.length) :
    slice xs lo (hi + 1) = slice xs lo hi ++ [xs[hi]] := by
  rw [← slice_append_slice h (Nat.le_succ hi), slice_eq_cons (Nat.lt_succ_self hi) hx, slice_self]

/-- A slice without its first element. -/
theorem slice_succ (xs : List α) (lo hi : ℕ) : slice xs (lo + 1) hi = (slice xs lo hi).drop 1 := by
  unfold slice
  rw [List.drop_take, List.drop_drop, Nat.sub_add_eq]

/-- A slice of a slice from the front. -/
theorem slice_eq_drop (xs : List α) (lo hi : ℕ) : slice xs lo hi = (slice xs 0 hi).drop lo := by
  unfold slice
  rw [List.drop_take, List.drop_drop, Nat.zero_add, Nat.sub_zero]

/-- A slice of a truncated buffer. -/
theorem slice_take {n : ℕ} (h : hi ≤ n) : slice (xs.take n) lo hi = slice xs lo hi := by
  apply List.ext_getElem?
  intro i
  rw [getElem?_slice, getElem?_slice]
  by_cases hi' : lo + i < hi
  · rw [if_pos hi', if_pos hi', List.getElem?_take, if_pos (by omega)]
  · rw [if_neg hi', if_neg hi']

/-- A slice away from the bytes written is unchanged. -/
theorem slice_overwrite_of_disjoint (hoff : off ≤ xs.length)
    (h : hi ≤ off ∨ off + ys.length ≤ lo) : slice (overwrite xs off ys) lo hi = slice xs lo hi := by
  apply List.ext_getElem?
  intro i
  rw [getElem?_slice, getElem?_slice]
  by_cases hi' : lo + i < hi
  · rw [if_pos hi', if_pos hi', getElem?_overwrite hoff, if_neg (by omega)]
  · rw [if_neg hi', if_neg hi']

/-- The bytes written, read back. -/
theorem slice_overwrite_self (hoff : off ≤ xs.length) :
    slice (overwrite xs off ys) off (off + ys.length) = ys := by
  apply List.ext_getElem?
  intro i
  rw [getElem?_slice]
  by_cases hi' : off + i < off + ys.length
  · rw [if_pos hi', getElem?_overwrite hoff, if_pos ⟨by omega, hi'⟩]
    congr 1
    omega
  · rw [if_neg hi', List.getElem?_eq_none (by omega)]

/-- After the window from `off` was moved to the front, its slices are there. -/
theorem slice_overwrite_front {fin : ℕ} (h : hi ≤ fin - off) (hfin : fin ≤ xs.length) :
    slice (overwrite xs 0 (slice xs off fin)) lo hi = slice xs (off + lo) (off + hi) := by
  apply List.ext_getElem?
  intro i
  rw [getElem?_slice, getElem?_slice]
  by_cases hi' : lo + i < hi
  · rw [if_pos hi', if_pos (by omega), getElem?_overwrite (Nat.zero_le _),
      if_pos ⟨Nat.zero_le _, by rw [length_slice hfin]; omega⟩, getElem?_slice, if_pos (by omega)]
    congr 1
    omega
  · rw [if_neg hi', if_neg (by omega)]

/-! ## Tilings -/

/-- The pieces, each with its offset, are the data from `lo` on: in order, none of them empty,
each starting where the one before ended. -/
def Tiles (data : List α) : ℕ → List (ℕ × List α) → Prop
  | lo, [] => lo = data.length
  | lo, (off, piece) :: rest =>
    off = lo ∧ piece ≠ [] ∧ lo + piece.length ≤ data.length
      ∧ piece = slice data lo (lo + piece.length) ∧ Tiles data (lo + piece.length) rest

section Tiles

variable {data : List α} {pieces : List (ℕ × List α)}

/-- A slice in front of a tiling. -/
theorem Tiles.cons_slice (h : Tiles data hi pieces) (hlo : lo < hi) (hhi : hi ≤ data.length) :
    Tiles data lo ((lo, slice data lo hi) :: pieces) := by
  have hlen : (slice data lo hi).length = hi - lo := length_slice hhi
  have hback : lo + (slice data lo hi).length = hi := by omega
  refine ⟨rfl, ?_, ?_, ?_, ?_⟩
  · apply List.ne_nil_of_length_pos
    omega
  · rwa [hback]
  · rw [hback]
  · rwa [hback]

theorem Tiles.offset_ge (h : Tiles data lo pieces) : ∀ p ∈ pieces, lo ≤ p.1 := by
  induction pieces generalizing lo with
  | nil =>
    intro p hp
    simp at hp
  | cons first rest ih =>
    obtain ⟨off, piece⟩ := first
    obtain ⟨rfl, -, -, -, hrest⟩ := h
    intro p hp
    rcases List.mem_cons.mp hp with rfl | hp
    · exact Nat.le_refl _
    · exact Nat.le_trans (Nat.le_add_right _ _) (ih hrest p hp)

/-- The pieces of a tiling are in order and disjoint. -/
theorem Tiles.pairwise (h : Tiles data lo pieces) :
    pieces.Pairwise fun p q => p.1 + p.2.length ≤ q.1 := by
  induction pieces generalizing lo with
  | nil => exact List.Pairwise.nil
  | cons first rest ih =>
    obtain ⟨off, piece⟩ := first
    obtain ⟨rfl, -, -, -, hrest⟩ := h
    exact List.Pairwise.cons hrest.offset_ge (ih hrest)

/-- The pieces of a tiling are not empty and lie within the data. -/
theorem Tiles.within (h : Tiles data lo pieces) :
    ∀ p ∈ pieces, p.2 ≠ [] ∧ p.1 + p.2.length ≤ data.length := by
  induction pieces generalizing lo with
  | nil =>
    intro p hp
    simp at hp
  | cons first rest ih =>
    obtain ⟨off, piece⟩ := first
    obtain ⟨rfl, hne, hle, -, hrest⟩ := h
    intro p hp
    rcases List.mem_cons.mp hp with rfl | hp
    · exact ⟨hne, hle⟩
    · exact ih hrest p hp

/-- The buffer from a known offset on, overwritten there. -/
theorem overwrite_append (front back piece : List α) :
    overwrite (front ++ back) front.length piece = (front ++ piece) ++ back.drop piece.length := by
  unfold overwrite
  rw [List.take_left, ← List.drop_drop, List.drop_left, List.append_assoc]

end Tiles

end Buffer
