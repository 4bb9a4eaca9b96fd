/-
A store of mutable cells.

A reference is the position of its cell. A cell stays allocated for good, so a
reference taken once can be read in every later store, and what it reads is the
last value written there: not the value at the time the reference was taken.
-/
import Mathlib.Data.Nat.Notation

set_option autoImplicit false

/-- The cells allocated so far, oldest first. -/
structure Store (α : Type) where
  cells : List α
  deriving DecidableEq

namespace Store

variable {α : Type}

/-- The name of a cell. -/
abbrev Ref := ℕ

/-- A new cell that holds `a`. -/
def alloc (s : Store α) (a : α) : Ref × Store α := (s.cells.length, ⟨s.cells ++ [a]⟩)

/-- What the cell holds. -/
def load (s : Store α) (r : Ref) : Option α := s.cells[r]?

/-- Overwrite the cell. -/
def write (s : Store α) (r : Ref) (a : α) : Store α := ⟨s.cells.set r a⟩

/-- Overwriting the newest cell. -/
theorem write_alloc (s : Store α) (a b : α) :
    (s.alloc a).2.write (s.alloc a).1 b = (s.alloc b).2 := by
  unfold write alloc
  simp

/-- The newest cell holds what it was allocated with. -/
@[simp] theorem load_alloc (s : Store α) (a : α) : (s.alloc a).2.load (s.alloc a).1 = some a := by
  unfold load alloc
  simp

end Store
