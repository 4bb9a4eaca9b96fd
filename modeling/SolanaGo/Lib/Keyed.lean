/-
Keyed lists: hash maps as functions, the first occurrence of each key, and
boolean blocks read back from a count.

Three small theories that a compiler from a multiset of keyed records to a
numbered table rests on, each over arbitrary types.

* `Map` is a finite map as its lookup function, so two maps built in different
  orders are equal when they answer alike. `Locates` says that a map of positions
  is the inverse of a list.
* `firsts` is the scan `if seen(key) then skip else append`. Its facts say that it
  is a sublist with one record for each key, and that on a list sorted by a
  reflexive relation the record kept is below every record of its key
  (`firsts_rel`).
* A flag on the elements of a list is often transmitted as its count, the reader
  taking the first so many positions as flagged. `countBlock_iff` says exactly
  when that loses nothing: no unflagged element before a flagged one.
-/
import Mathlib.Data.List.Basic
import Mathlib.Data.List.Count
import Mathlib.Data.List.Induction
import Mathlib.Data.List.Nodup

set_option autoImplicit false

namespace Keyed

/-! ## Maps -/

section Map

variable {κ ν : Type}

/-- A map, as its lookup. -/
abbrev Map (κ ν : Type) := κ → Option ν

/-- The map with no entries. -/
def Map.empty : Map κ ν := fun _ => none

@[simp] theorem Map.empty_apply (k : κ) : (Map.empty : Map κ ν) k = none := rfl

variable [DecidableEq κ]

/-- Add or overwrite an entry. -/
def Map.set (m : Map κ ν) (k : κ) (v : ν) : Map κ ν := fun k' => if k' = k then some v else m k'

@[simp] theorem Map.set_self (m : Map κ ν) (k : κ) (v : ν) : m.set k v k = some v := if_pos rfl

theorem Map.set_of_ne (m : Map κ ν) {k k' : κ} (v : ν) (h : k' ≠ k) : m.set k v k' = m k' :=
  if_neg h

/-- The map answers each key of a list with its position, and nothing else. -/
def Locates (m : Map κ ℕ) (ks : List κ) : Prop := ∀ key k, m key = some k ↔ ks[k]? = some key

omit [DecidableEq κ] in
theorem Locates.eq_none_iff {m : Map κ ℕ} {ks : List κ} (h : Locates m ks) {key : κ} :
    m key = none ↔ key ∉ ks := by
  rw [Option.eq_none_iff_forall_ne_some]
  constructor
  · intro hnone hmem
    obtain ⟨k, hk⟩ := List.getElem?_of_mem hmem
    exact hnone k ((h key k).mpr hk)
  · intro hmem k hk
    exact hmem (List.mem_of_getElem? ((h key k).mp hk))

/-- Appending a new key and recording its position. -/
theorem Locates.concat {m : Map κ ℕ} {ks : List κ} (h : Locates m ks) {key : κ}
    (hnew : key ∉ ks) : Locates (m.set key ks.length) (ks ++ [key]) := by
  intro key' k
  rw [List.getElem?_append]
  by_cases hkey : key' = key
  · subst hkey
    rw [Map.set_self, Option.some.injEq]
    by_cases hlt : k < ks.length
    · rw [if_pos hlt]
      refine ⟨fun heq => by omega, fun hk => absurd (List.mem_of_getElem? hk) hnew⟩
    · rw [if_neg hlt, List.getElem?_singleton]
      by_cases hz : k - ks.length = 0
      · rw [if_pos hz]
        exact ⟨fun _ => rfl, fun _ => by omega⟩
      · rw [if_neg hz]
        exact ⟨fun heq => by omega, fun hk => by simp at hk⟩
  · rw [Map.set_of_ne _ _ hkey, h]
    by_cases hlt : k < ks.length
    · rw [if_pos hlt]
    · rw [if_neg hlt, List.getElem?_eq_none (by omega)]
      refine ⟨fun hk => by simp at hk, fun hk => ?_⟩
      exact absurd (List.mem_singleton.mp (List.mem_of_getElem? hk)) hkey

end Map

/-! ## First occurrences -/

section Firsts

variable {α κ : Type} [DecidableEq κ]

/-- One step of the scan: keep a record whose key was not seen. -/
def keepNew (key : α → κ) (acc : List α) (a : α) : List α :=
  if key a ∈ acc.map key then acc else acc ++ [a]

/-- The records that are the first of their key, in order. -/
def firsts (key : α → κ) (l : List α) : List α := l.foldl (keepNew key) []

variable {key : α → κ}

@[simp] theorem firsts_nil : firsts key [] = [] := rfl

theorem firsts_concat (l : List α) (a : α) :
    firsts key (l ++ [a]) = keepNew key (firsts key l) a := by
  rw [firsts, List.foldl_append]
  rfl

/-- Every key has a first record. -/
theorem mem_keys_firsts (l : List α) (k : κ) : k ∈ (firsts key l).map key ↔ k ∈ l.map key := by
  induction l using List.reverseRecOn generalizing k with
  | nil => rfl
  | append_singleton l a ih =>
    rw [firsts_concat, keepNew, List.map_append, List.mem_append, List.map_singleton,
      List.mem_singleton]
    by_cases h : key a ∈ (firsts key l).map key
    · rw [if_pos h, ih]
      refine ⟨Or.inl, ?_⟩
      rintro (hk | rfl)
      · exact hk
      · exact (ih _).mp h
    · rw [if_neg h, List.map_append, List.mem_append, ih, List.map_singleton, List.mem_singleton]

/-- No key has two. -/
theorem nodup_keys_firsts (l : List α) : ((firsts key l).map key).Nodup := by
  induction l using List.reverseRecOn with
  | nil => exact List.nodup_nil
  | append_singleton l a ih =>
    rw [firsts_concat, keepNew]
    by_cases h : key a ∈ (firsts key l).map key
    · rw [if_pos h]; exact ih
    · rw [if_neg h, List.map_append, List.map_singleton, ← List.concat_eq_append]
      exact ih.concat h

theorem firsts_sublist (l : List α) : (firsts key l).Sublist l := by
  induction l using List.reverseRecOn with
  | nil => exact List.Sublist.refl _
  | append_singleton l a ih =>
    rw [firsts_concat, keepNew]
    by_cases h : key a ∈ (firsts key l).map key
    · rw [if_pos h]; exact ih.trans (List.sublist_append_left l [a])
    · rw [if_neg h]; exact ih.append_right [a]

/-- On a sorted list the record kept for a key is below every record of that
key. -/
theorem firsts_rel {R : α → α → Prop} (hrefl : ∀ a, R a a) {l : List α} (hl : l.Pairwise R) :
    ∀ f ∈ firsts key l, ∀ a ∈ l, key a = key f → R f a := by
  induction l using List.reverseRecOn with
  | nil => simp
  | append_singleton l b ih =>
    obtain ⟨hl', -, hlast⟩ := List.pairwise_append.mp hl
    intro f hf a ha hkey
    rw [firsts_concat, keepNew] at hf
    -- A record kept from `l` is below `b` because it stands before it.
    have hold : f ∈ firsts key l → R f a := by
      intro hfl
      rcases List.mem_append.mp ha with ha | ha
      · exact ih hl' f hfl a ha hkey
      · exact hlast f ((firsts_sublist l).subset hfl) a ha
    by_cases h : key b ∈ (firsts key l).map key
    · rw [if_pos h] at hf; exact hold hf
    · rw [if_neg h] at hf
      rcases List.mem_append.mp hf with hf | hf
      · exact hold hf
      · obtain rfl := List.mem_singleton.mp hf
        rcases List.mem_append.mp ha with ha | ha
        · exact absurd ((mem_keys_firsts l _).mpr (List.mem_map.mpr ⟨a, ha, hkey⟩)) h
        · rw [List.mem_singleton.mp ha]; exact hrefl f

end Firsts

/-! ## Flags read back from their count -/

section Block

variable {α : Type} (p : α → Bool)

/-- Reading the first `countP p` positions as the `p`-elements is right exactly
when no other element stands before one of them. -/
theorem countBlock_iff (l : List α) :
    (∀ (i : ℕ) (h : i < l.length), decide (i < l.countP p) = p l[i])
      ↔ l.Pairwise fun a b => p b = true → p a = true := by
  constructor
  · intro h
    rw [List.pairwise_iff_getElem]
    intro i j hi hj hij hb
    rw [← h j hj, decide_eq_true_iff] at hb
    rw [← h i hi, decide_eq_true_iff]
    omega
  · intro h
    induction l with
    | nil => intro i hi; simp at hi
    | cons a l ih =>
      obtain ⟨ha, hl⟩ := List.pairwise_cons.mp h
      intro i hi
      cases hp : p a with
      | true =>
        rw [List.countP_cons_of_pos hp]
        cases i with
        | zero => simpa using hp.symm
        | succ i => simpa using ih hl i (by simpa using hi)
      | false =>
        have hnone : ∀ b ∈ l, ¬ p b = true := by
          intro b hb hpb
          rw [ha b hb hpb] at hp
          exact Bool.false_ne_true hp.symm
        rw [List.countP_cons_of_neg (by simp [hp]), List.countP_eq_zero.mpr hnone]
        cases i with
        | zero => simpa using hp.symm
        | succ i =>
          have hi' : i < l.length := by simpa using hi
          simpa using (Bool.eq_false_iff.mpr (hnone _ (List.getElem_mem hi'))).symm

/-- A list whose `p`-elements all stand in front is its two filters in a row. -/
theorem eq_filter_append {l : List α}
    (h : l.Pairwise fun a b => p b = true → p a = true) :
    l = l.filter p ++ l.filter fun a => !p a := by
  induction l with
  | nil => rfl
  | cons a l ih =>
    obtain ⟨ha, hl⟩ := List.pairwise_cons.mp h
    cases hp : p a with
    | true =>
      rw [List.filter_cons_of_pos hp, List.filter_cons_of_neg (by simp [hp]), List.cons_append,
        ← ih hl]
    | false =>
      have hnone : l.filter p = [] := by
        rw [List.filter_eq_nil_iff]
        intro b hb hpb
        rw [ha b hb hpb] at hp
        exact Bool.false_ne_true hp.symm
      have hall : l.filter (fun a => !p a) = l := by
        have := ih hl
        rw [hnone, List.nil_append] at this
        exact this.symm
      rw [List.filter_cons_of_neg (by simp [hp]), List.filter_cons_of_pos (by simp [hp]),
        hnone, hall, List.nil_append]

end Block

end Keyed
