/-
A register in which the latest version wins.

Values arrive with a version, in any order. The register keeps a value unless the one
that arrives has a version at least as high. The version of the register then never
falls (`version_le_put`), what it holds is something that arrived as a whole
(`put_eq`), and values of different versions can arrive in any order
(`foldl_putOption_perm`).

What a register holds after a list of arrivals is `latest` of the list: the last one among
those of the highest version (`latest_eq_some_iff`).
-/
import Mathlib.Data.List.Basic
import Mathlib.Data.List.Induction
import Mathlib.Data.List.Pairwise
import Mathlib.Order.Lattice

set_option autoImplicit false

namespace LatestWins

/-- A value with its version. -/
@[ext] structure Versioned (V α : Type) where
  version : V
  value : α
  deriving DecidableEq

variable {V α β : Type} [LinearOrder V]

/-- A value arrives. -/
def put (held next : Versioned V α) : Versioned V α :=
  if held.version ≤ next.version then next else held

/-- A value arrives at a register that may be empty. -/
def putOption (held : Option (Versioned V α)) (next : Versioned V α) : Option (Versioned V α) :=
  match held with
  | none => some next
  | some held => some (put held next)

theorem put_of_le {held next : Versioned V α} (h : held.version ≤ next.version) :
    put held next = next := if_pos h

theorem put_of_lt {held next : Versioned V α} (h : next.version < held.version) :
    put held next = held := if_neg (not_le_of_gt h)

/-- What is held is what was held or what arrived. -/
theorem put_eq (held next : Versioned V α) : put held next = next ∨ put held next = held := by
  unfold put
  split
  · exact Or.inl rfl
  · exact Or.inr rfl

/-- **The version never falls.** -/
theorem version_le_put (held next : Versioned V α) : held.version ≤ (put held next).version := by
  unfold put
  split
  · next h => exact h
  · exact le_refl _

/-- **Values of different versions commute.** -/
theorem put_comm (held : Versioned V α) {a b : Versioned V α} (h : a.version ≠ b.version) :
    put (put held a) b = put (put held b) a := by
  -- the higher of the two versions decides, unless both are below what is held
  wlog hlt : a.version < b.version generalizing a b
  · exact (this (Ne.symm h) (lt_of_le_of_ne (not_lt.mp hlt) (Ne.symm h))).symm
  by_cases hb : held.version ≤ b.version
  · have hput : (put held a).version ≤ b.version := by
      rcases put_eq held a with heq | heq
      · rw [heq]
        exact le_of_lt hlt
      · rw [heq]
        exact hb
    rw [put_of_le hput, put_of_le hb, put_of_lt hlt]
  · have hb := not_le.mp hb
    rw [put_of_lt (lt_trans hlt hb), put_of_lt hb, put_of_lt (lt_trans hlt hb)]

theorem putOption_comm (held : Option (Versioned V α)) {a b : Versioned V α}
    (h : a.version ≠ b.version) :
    putOption (putOption held a) b = putOption (putOption held b) a := by
  cases held with
  | none =>
    show some (put a b) = some (put b a)
    congr 1
    rcases lt_or_gt_of_ne h with hlt | hgt
    · rw [put_of_le (le_of_lt hlt), put_of_lt hlt]
    · rw [put_of_lt hgt, put_of_le (le_of_lt hgt)]
  | some held =>
    show some (put (put held a) b) = some (put (put held b) a)
    rw [put_comm held h]

/-- **The order of arrival does not matter** for values of different versions. Of the
arrivals only those count that are for this register. -/
theorem foldl_putOption_perm (arrival : β → Option (Versioned V α)) {l l' : List β}
    (hperm : l.Perm l')
    (hdistinct : l.Pairwise fun a b => ∀ x ∈ arrival a, ∀ y ∈ arrival b, x.version ≠ y.version)
    (held : Option (Versioned V α)) :
    l.foldl (fun held b => (arrival b).elim held (putOption held)) held
      = l'.foldl (fun held b => (arrival b).elim held (putOption held)) held := by
  have hany : ∀ a ∈ l, ∀ b ∈ l, a ≠ b →
      ∀ x ∈ arrival a, ∀ y ∈ arrival b, x.version ≠ y.version := by
    have hsymm : Std.Symm fun a b => ∀ x ∈ arrival a, ∀ y ∈ arrival b, x.version ≠ y.version :=
      ⟨fun a b h y hy x hx => (h x hx y hy).symm⟩
    intro a ha b hb hne
    exact hdistinct.forall ha hb hne
  refine hperm.foldl_eq' (fun a ha b hb held => ?_) held
  by_cases heq : a = b
  · rw [heq]
  · cases hx : arrival a with
    | none => rfl
    | some x =>
      cases hy : arrival b with
      | none => rfl
      | some y => exact putOption_comm held (hany a ha b hb heq x hx y hy)

/-! ## The latest of a list -/

section Latest

variable {version : β → V}

/-- What is held when `b` arrives. -/
def keepLatest (version : β → V) (held : Option β) (b : β) : Option β :=
  match held with
  | none => some b
  | some a => if version a ≤ version b then some b else some a

/-- What is held after a list of arrivals. -/
def latest (version : β → V) (l : List β) : Option β := l.foldl (keepLatest version) none

/-- The last one among those of the highest version: nothing in front of it is higher, and
everything behind it is lower. -/
def IsLatest (version : β → V) (l : List β) (b : β) : Prop :=
  ∃ front back, l = front ++ b :: back ∧ (∀ a ∈ front, version a ≤ version b)
    ∧ ∀ a ∈ back, version a < version b

@[simp] theorem latest_nil : latest version [] = none := rfl

theorem latest_concat (l : List β) (b : β) :
    latest version (l ++ [b]) = keepLatest version (latest version l) b := by
  rw [latest, List.foldl_append]
  rfl

theorem latest_eq_none_iff {l : List β} : latest version l = none ↔ l = [] := by
  constructor
  · intro hnone
    rcases List.eq_nil_or_concat l with rfl | ⟨front, last, rfl⟩
    · rfl
    · rw [List.concat_eq_append, latest_concat] at hnone
      unfold keepLatest at hnone
      split at hnone
      · cases hnone
      · split at hnone
        · cases hnone
        · cases hnone
  · rintro rfl
    rfl

theorem IsLatest.mem {l : List β} {b : β} (h : IsLatest version l b) : b ∈ l := by
  obtain ⟨front, back, rfl, -⟩ := h
  exact List.mem_append_right front List.mem_cons_self

theorem IsLatest.version_le {l : List β} {a b : β} (h : IsLatest version l b) (ha : a ∈ l) :
    version a ≤ version b := by
  obtain ⟨front, back, rfl, hfront, hback⟩ := h
  rcases List.mem_append.mp ha with ha | ha
  · exact hfront a ha
  · rcases List.mem_cons.mp ha with rfl | ha
    · exact le_refl _
    · exact le_of_lt (hback a ha)

/-- One more arrival. -/
theorem isLatest_concat {l : List β} {a b : β} :
    IsLatest version (l ++ [a]) b
      ↔ (b = a ∧ ∀ x ∈ l, version x ≤ version a)
        ∨ (IsLatest version l b ∧ version a < version b) := by
  constructor
  · rintro ⟨front, back, hl, hfront, hback⟩
    rcases List.eq_nil_or_concat back with rfl | ⟨back, a', rfl⟩
    · obtain ⟨rfl, hlast⟩ := List.append_inj' hl rfl
      obtain rfl := List.singleton_inj.mp hlast
      exact Or.inl ⟨rfl, hfront⟩
    · rw [List.concat_eq_append, ← List.cons_append, ← List.append_assoc] at hl
      obtain ⟨rfl, hlast⟩ := List.append_inj' hl rfl
      obtain rfl := List.singleton_inj.mp hlast
      rw [List.concat_eq_append] at hback
      refine Or.inr ⟨⟨front, back, rfl, hfront, ?_⟩, ?_⟩
      · intro x hx
        exact hback x (List.mem_append_left _ hx)
      · exact hback a (List.mem_append_right _ (List.mem_singleton_self a))
  · rintro (⟨rfl, hall⟩ | ⟨⟨front, back, rfl, hfront, hback⟩, hlt⟩)
    · exact ⟨l, [], rfl, hall, by simp⟩
    · refine ⟨front, back ++ [a], by simp, hfront, ?_⟩
      intro x hx
      rcases List.mem_append.mp hx with hx | hx
      · exact hback x hx
      · rw [List.mem_singleton.mp hx]
        exact hlt

/-- **What is held is the latest.** -/
theorem latest_eq_some_iff {l : List β} {b : β} :
    latest version l = some b ↔ IsLatest version l b := by
  induction l using List.reverseRecOn generalizing b with
  | nil =>
    refine iff_of_false (by simp) ?_
    intro h
    exact absurd h.mem List.not_mem_nil
  | append_singleton l a ih =>
    rw [latest_concat, isLatest_concat]
    cases hheld : latest version l with
    | none =>
      have hnone := latest_eq_none_iff.mp hheld
      subst hnone
      have hnot : ¬IsLatest version [] b := fun h => absurd h.mem List.not_mem_nil
      simp [keepLatest, hnot, eq_comm]
    | some held =>
      have hlatest := ih.mp hheld
      unfold keepLatest
      dsimp only
      by_cases hle : version held ≤ version a
      · rw [if_pos hle]
        constructor
        · rintro ⟨⟩
          exact Or.inl ⟨rfl, fun x hx => le_trans (hlatest.version_le hx) hle⟩
        · rintro (⟨rfl, -⟩ | ⟨hb, hlt⟩)
          · rfl
          · have hsame := ih.mpr hb
            rw [hheld] at hsame
            obtain rfl := Option.some.inj hsame
            exact absurd hle (not_le_of_gt hlt)
      · rw [if_neg hle]
        constructor
        · rintro ⟨⟩
          exact Or.inr ⟨hlatest, not_le.mp hle⟩
        · rintro (⟨rfl, hall⟩ | ⟨hb, -⟩)
          · exact absurd (hall held hlatest.mem) hle
          · rw [← hheld]
            exact ih.mpr hb

/-- Where the version tells the values apart, the latest is the largest. -/
theorem latest_eq_some_iff_largest (hversion : Function.Injective version) {l : List β} {b : β} :
    latest version l = some b ↔ b ∈ l ∧ ∀ a ∈ l, version a ≤ version b := by
  constructor
  · intro hlatest
    have hb := latest_eq_some_iff.mp hlatest
    exact ⟨hb.mem, fun a ha => hb.version_le ha⟩
  · rintro ⟨hb, hall⟩
    cases hheld : latest version l with
    | none =>
      rw [latest_eq_none_iff.mp hheld] at hb
      exact absurd hb List.not_mem_nil
    | some held =>
      have hlatest := latest_eq_some_iff.mp hheld
      have hsame := le_antisymm (hall held hlatest.mem) (hlatest.version_le hb)
      rw [hversion hsame]

/-- The latest of values that are computed from others. -/
theorem latest_map {γ : Type} {version : γ → V} (f : β → γ) (l : List β) :
    latest version (l.map f) = (latest (fun b => version (f b)) l).map f := by
  induction l using List.reverseRecOn with
  | nil => rfl
  | append_singleton l a ih =>
    rw [List.map_append, List.map_singleton, latest_concat, latest_concat, ih]
    cases latest (fun b => version (f b)) l with
    | none => rfl
    | some held =>
      unfold keepLatest
      dsimp only [Option.map_some]
      split
      · rfl
      · rfl

end Latest

end LatestWins
