/-
A map kept in shards.

A key lives in the map with its index. Whatever the index function is, the shards
together answer like one map (`get`): changing one key changes the answer for that key
and for no other (`get_alter`), and dropping values in every shard drops them
everywhere (`get_filterAll`).
-/
import SolanaGo.Lib.Keyed

set_option autoImplicit false

namespace Sharded

open Keyed (Map)

variable {κ ν : Type} {n : ℕ}

/-- The shards. -/
abbrev Table (κ ν : Type) (n : ℕ) := Vector (Map κ ν) n

/-- The answer for a key. -/
def get (index : κ → Fin n) (table : Table κ ν n) (key : κ) : Option ν := table[index key] key

/-- All shards empty. -/
def empty (κ ν : Type) (n : ℕ) : Table κ ν n := Vector.replicate n Map.empty

/-- Drop the values that do not satisfy `p`, shard by shard. -/
def filterAll (table : Table κ ν n) (p : ν → Bool) : Table κ ν n :=
  table.map fun shard key => (shard key).filter p

@[simp] theorem get_empty (index : κ → Fin n) (key : κ) :
    get index (empty κ ν n) key = none := by
  unfold get empty
  rw [Fin.getElem_fin, Vector.getElem_replicate]
  rfl

@[simp] theorem get_filterAll (index : κ → Fin n) (table : Table κ ν n) (p : ν → Bool) (key : κ) :
    get index (filterAll table p) key = (get index table key).filter p := by
  unfold get filterAll
  rw [Fin.getElem_fin, Vector.getElem_map]
  rfl

variable [DecidableEq κ]

/-- Change the value of a key, or remove it. -/
def alter (index : κ → Fin n) (table : Table κ ν n) (key : κ) (f : Option ν → Option ν) :
    Table κ ν n :=
  let shard := table[index key]
  table.set (index key) fun key' => if key' = key then f (shard key) else shard key'

/-- **Changing one key.** -/
theorem get_alter (index : κ → Fin n) (table : Table κ ν n) (key : κ) (f : Option ν → Option ν)
    (key' : κ) :
    get index (alter index table key f) key'
      = if key' = key then f (get index table key) else get index table key' := by
  unfold get alter
  dsimp only
  rw [Fin.getElem_fin, Vector.getElem_set]
  by_cases hshard : (index key).val = (index key').val
  · rw [if_pos hshard]
    by_cases hkey : key' = key
    · rw [if_pos hkey, if_pos hkey]
    · rw [if_neg hkey, if_neg hkey]
      exact congrArg (fun i : Fin n => table[i] key') (Fin.ext hshard)
  · rw [if_neg hshard]
    have hkey : key' ≠ key := by
      rintro rfl
      exact hshard rfl
    rw [if_neg hkey]
    rfl

end Sharded
