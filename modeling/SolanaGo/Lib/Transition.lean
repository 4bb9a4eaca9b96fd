/-
Runs of a guarded step function.

`step s e` is the state after the event `e`, or nothing where the event cannot
happen. A run is a list of events each of which can happen. Two kinds of statements
are made about runs: that a property holds in their last state, and that their steps
satisfy a condition. The rule `run_invariant` connects the two: what every step that
satisfies the condition preserves holds at the end of every run of such steps. With a
measure that falls, runs are bounded (`length_le_of_run`) and can be completed
(`exists_run_to`).
-/
import Mathlib.Data.List.Basic

set_option autoImplicit false

namespace Transition

variable {S E : Type} (step : S → E → Option S)

/-- The state after a list of events, if all of them can happen one after the other. -/
def run : S → List E → Option S
  | s, [] => some s
  | s, e :: es => (step s e).bind fun s' => run s' es

/-- Every step of the run satisfies `P`, a condition on the state before and the
event. -/
def Along (P : S → E → Prop) : S → List E → Prop
  | _, [] => True
  | s, e :: es => P s e ∧ ∀ s', step s e = some s' → Along P s' es

/-- The property holds in every state of the run, the first included. -/
def Always (I : S → Prop) : S → List E → Prop
  | s, [] => I s
  | s, e :: es => I s ∧ ∀ s', step s e = some s' → Always I s' es

variable {step} {P : S → E → Prop} {I : S → Prop} {s s' : S} {e : E} {es : List E}

@[simp] theorem run_nil : run step s [] = some s := rfl

/-- A run of one event more. -/
theorem run_cons_eq_some : run step s (e :: es) = some s'
    ↔ ∃ s1, step s e = some s1 ∧ run step s1 es = some s' := Option.bind_eq_some_iff

/-- **The invariant rule.** What the steps of the run preserve holds at its end. -/
theorem run_invariant (hstep : ∀ {s e s'}, I s → P s e → step s e = some s' → I s')
    (hinit : I s) (halong : Along step P s es) (hrun : run step s es = some s') : I s' := by
  induction es generalizing s with
  | nil =>
    obtain rfl := Option.some.inj hrun
    exact hinit
  | cons e es ih =>
    obtain ⟨s1, hs1, hrun⟩ := run_cons_eq_some.mp hrun
    exact ih (hstep hinit halong.1 hs1) (halong.2 s1 hs1) hrun

/-- The rule for steps without a condition. -/
theorem run_preserves (hstep : ∀ {s e s'}, I s → step s e = some s' → I s') (hinit : I s)
    (hrun : run step s es = some s') : I s' := by
  induction es generalizing s with
  | nil =>
    obtain rfl := Option.some.inj hrun
    exact hinit
  | cons e es ih =>
    obtain ⟨s1, hs1, hrun⟩ := run_cons_eq_some.mp hrun
    exact ih (hstep hinit hs1) hrun

/-- If a measure falls with every step, it bounds the length of a run. -/
theorem length_le_of_run {measure : S → ℕ}
    (hstep : ∀ {s e s'}, step s e = some s' → measure s' < measure s)
    (hrun : run step s es = some s') : es.length + measure s' ≤ measure s := by
  induction es generalizing s with
  | nil =>
    obtain rfl := Option.some.inj hrun
    exact Nat.le_of_eq (Nat.zero_add _)
  | cons e es ih =>
    obtain ⟨s1, hs1, hrun⟩ := run_cons_eq_some.mp hrun
    have hlt := hstep hs1
    have hle := ih hrun
    rw [List.length_cons]
    omega

/-- **The rule for termination.** If a measure falls with every step, and a step is possible
wherever the property does not hold, then some run leads to the property. -/
theorem exists_run_to {measure : S → ℕ} {Q : S → Prop}
    (hstep : ∀ {s e s'}, step s e = some s' → measure s' < measure s)
    (hprogress : ∀ s, Q s ∨ ∃ e s', step s e = some s') (s : S) :
    ∃ es s', run step s es = some s' ∧ Q s' := by
  induction hm : measure s using Nat.strongRecOn generalizing s with
  | ind m ih =>
    rcases hprogress s with hQ | ⟨e, s1, hs1⟩
    · exact ⟨[], s, rfl, hQ⟩
    · obtain ⟨es, s', hrun, hQ⟩ := ih (measure s1) (hm ▸ hstep hs1) s1 rfl
      exact ⟨e :: es, s', run_cons_eq_some.mpr ⟨s1, hs1, hrun⟩, hQ⟩

/-- The condition is decidable along a run if it is at each step. -/
instance decidableAlong [∀ s e, Decidable (P s e)] : ∀ s es, Decidable (Along step P s es)
  | _, [] => .isTrue trivial
  | s, e :: es =>
    match h : step s e with
    | none => decidable_of_iff (P s e) (by simp [Along, h])
    | some s' =>
      have := decidableAlong s' es
      decidable_of_iff (P s e ∧ Along step P s' es) (by simp [Along, h])

/-- The rule for all states of the run. -/
theorem always_of_along (hstep : ∀ {s e s'}, I s → P s e → step s e = some s' → I s')
    (hinit : I s) (halong : Along step P s es) : Always step I s es := by
  induction es generalizing s with
  | nil => exact hinit
  | cons e es ih =>
    exact ⟨hinit, fun s1 hs1 => ih (hstep hinit halong.1 hs1) (halong.2 s1 hs1)⟩

theorem Always.imp {J : S → Prop} (h : ∀ s, I s → J s) (halways : Always step I s es) :
    Always step J s es := by
  induction es generalizing s with
  | nil => exact h s halways
  | cons e es ih => exact ⟨h s halways.1, fun s1 hs1 => ih (halways.2 s1 hs1)⟩

/-- The rule for finding the condition back. If a step that breaks the condition leads to
a property that no later step removes, then the steps of a run that ends without the
property satisfy the condition. -/
theorem along_of_end {J : S → Prop} (hinv : ∀ {s e s'}, I s → step s e = some s' → I s')
    (hbreak : ∀ {s e s'}, I s → ¬P s e → step s e = some s' → J s')
    (hkeep : ∀ {s e s'}, I s ∧ J s → step s e = some s' → I s' ∧ J s')
    (hinit : I s) (hrun : run step s es = some s') (hend : ¬J s') : Along step P s es := by
  induction es generalizing s with
  | nil => trivial
  | cons e es ih =>
    obtain ⟨s1, hs1, hrun⟩ := run_cons_eq_some.mp hrun
    refine ⟨?_, fun s2 hs2 => ?_⟩
    · by_contra hP
      exact hend (run_preserves hkeep ⟨hinv hinit hs1, hbreak hinit hP hs1⟩ hrun).2
    · obtain rfl : s1 = s2 := Option.some.inj (hs1.symm.trans hs2)
      exact ih (hinv hinit hs1) hrun

/-- If a step that breaks the condition leads out of the property, then the steps of a run
through states with the property satisfy the condition. -/
theorem along_of_always {Q : S → Prop} (hinv : ∀ {s e s'}, I s → step s e = some s' → I s')
    (hbreak : ∀ {s e s'}, I s → ¬P s e → step s e = some s' → ¬Q s')
    (hinit : I s) (hrun : run step s es = some s') (halways : Always step Q s es) :
    Along step P s es := by
  induction es generalizing s with
  | nil => trivial
  | cons e es ih =>
    obtain ⟨s1, hs1, hrun⟩ := run_cons_eq_some.mp hrun
    have hrest := halways.2 s1 hs1
    have hQ : Q s1 := by
      cases es with
      | nil => exact hrest
      | cons e' es => exact hrest.1
    refine ⟨?_, fun s2 hs2 => ?_⟩
    · by_contra hP
      exact hbreak hinit hP hs1 hQ
    · obtain rfl : s1 = s2 := Option.some.inj (hs1.symm.trans hs2)
      exact ih (hinv hinit hs1) hrun hrest

end Transition
