/-
The scanner at the end of the body.

`Scanner.lean` says what the scanner functions do when what they look for is there. Here it
is not: the unread bytes are all white space, or a string or a value has no end in them. A
scanner function then consumes all that is left and hands on what the reader answers at the
end, an error of its own or `io.ErrUnexpectedEOF`.

There is one exception. A value outside any bracket and string is ended by the end of the body
(`scanValue_end`). The scanner has nothing left after that either, so whatever is scanned next
fails.
-/
import SolanaGo.Rpc.Scanner

set_option autoImplicit false

namespace SolanaGo.Rpc

open Codec (Bytes)
open Buffer Json

/-! ## The last read -/

/-- What `fill` makes of the reader's answer at the end. -/
def endError : (failure : Option String) → ScanErr
  | none => .unexpectedEOF
  | some msg => .reader msg

theorem Reader.read_nil {r : Reader} (h : r.rest = []) (room : ℕ) : r.read room = ([], r) := by
  obtain ⟨rest, offset, cut, failure⟩ := r
  obtain rfl : rest = [] := h
  simp [Reader.read]

namespace Scanner

variable {s : Scanner}

/-- Nothing is left to consume. -/
structure Spent (s : Scanner) : Prop where
  inv : s.Inv
  unread : s.unread = []

theorem refill_nil (h : s.r.rest = []) : s.refill = s := by
  unfold refill
  rw [Reader.read_nil h]
  dsimp only
  rw [overwrite_nil]
  rfl

/-- A read does not change what the reader answers at the end. -/
theorem fill_failure (s : Scanner) : (fill s).2.r.failure = s.r.failure := by
  have hcompact : s.compact.r = s.r := by
    unfold compact
    split <;> rfl
  have hgrow : s.compact.grow.r = s.r := by
    unfold grow
    split
    · exact hcompact
    · exact hcompact
  have hfill : (fill s).2 = s.compact.grow.refill := by
    unfold fill
    dsimp only
    split
    · rfl
    · split <;> rfl
  rw [hfill]
  show s.compact.grow.r.failure = _
  rw [hgrow]

/-- **`fill` at the end.** -/
theorem fill_end (h : s.Inv) (hempty : s.pos = s.fin) (hrest : s.r.rest = []) :
    ∃ s', fill s = (.error (endError s.r.failure), s') ∧ s'.Spent ∧ s'.pos = s'.fin := by
  have hc := compact_moved h
  obtain ⟨hg, -⟩ := grow_moved hc.inv hc.mark
  have hreader : s.compact.grow.r = s.r := hg.reader.trans hc.reader
  have hrefill : s.compact.grow.refill = s.compact.grow := refill_nil (by rw [hreader]; exact hrest)
  refine ⟨s.compact.grow, ?_, ⟨hg.inv, ?_⟩, ?_⟩
  · unfold fill
    dsimp only
    rw [hrefill, if_neg (Nat.lt_irrefl _), hreader]
    cases s.r.failure with
    | none => rfl
    | some msg => rfl
  · rw [hg.unread, hc.unread, unread_of_empty hempty, hrest]
  · rw [hg.pos, hg.fin, hc.pos, hc.fin, hempty]

/-- A scanner that has used up its buffer reads on, or is at the end. -/
theorem fill_cases (h : s.Inv) (hempty : s.pos = s.fin) :
    (s.r.rest ≠ [] ∧ ∃ s', fill s = (.ok (), s') ∧ Filled s s' ∧ s'.r.failure = s.r.failure)
      ∨ s.r.rest = [] := by
  by_cases hrest : s.r.rest = []
  · exact Or.inr hrest
  · obtain ⟨s', hfill, hf, -⟩ := fill_ok h hempty hrest
    have hend := fill_failure s
    rw [hfill] at hend
    exact Or.inl ⟨hrest, s', hfill, hf, hend⟩

end Scanner

open Scanner

/-! ## White space, strings and values without an end -/

/-- The loop of `peekNonSpace` over white space only. -/
theorem peekLoop_end {turns : ℕ} {s : Scanner} (h : s.Inv) (hwork : s.work < turns)
    (hws : s.unread.all isJSONSpace = true) :
    ∃ s', peekLoop turns s = (.error (endError s.r.failure), s') ∧ s'.Spent := by
  induction turns generalizing s with
  | zero => omega
  | succ turns ih =>
    unfold peekLoop
    by_cases hpos : s.pos < s.fin
    · have hcons := unread_eq_cons h hpos (s.pos + 1)
      rw [hcons, List.all_cons, Bool.and_eq_true] at hws
      rw [if_pos hpos, if_pos hws.1]
      exact ih (h.moveTo (Nat.le_refl _) hpos) (work_advance _ hpos hwork) hws.2
    · have hempty : s.pos = s.fin := Nat.le_antisymm h.pos_le (Nat.not_lt.mp hpos)
      rw [if_neg hpos]
      rcases fill_cases h hempty with ⟨-, s1, hfill, hf, hend⟩ | hrest
      · rw [hfill, ← hend]
        exact ih hf.inv (Nat.lt_of_lt_of_le hf.work (Nat.le_of_lt_succ hwork))
          (by rw [hf.unread]; exact hws)
      · obtain ⟨s1, hfill, hspent, -⟩ := fill_end h hempty hrest
        rw [hfill]
        exact ⟨s1, rfl, hspent⟩

/-- **`peekNonSpace` over white space only.** -/
theorem peekNonSpace_end {s : Scanner} (h : s.Inv) (hws : s.unread.all isJSONSpace = true) :
    ∃ s', peekNonSpace s = (.error (endError s.r.failure), s') ∧ s'.Spent :=
  peekLoop_end h (Nat.lt_succ_self _) hws

/-- White space is dropped without changing what the reader answers at the end. -/
theorem peekLoop_failure {turns : ℕ} (s : Scanner) :
    (peekLoop turns s).2.r.failure = s.r.failure := by
  induction turns generalizing s with
  | zero => rfl
  | succ turns ih =>
    unfold peekLoop
    by_cases hpos : s.pos < s.fin
    · rw [if_pos hpos]
      by_cases hspace : isJSONSpace s.byte = true
      · rw [if_pos hspace]
        exact ih _
      · rw [if_neg hspace]
    · rw [if_neg hpos]
      have hfill := fill_failure s
      cases hresult : fill s with
      | mk result s1 =>
        rw [hresult] at hfill
        cases result with
        | error e => exact hfill
        | ok u => exact (ih s1).trans hfill

theorem peekNonSpace_failure {s s' : Scanner} {result : Except ScanErr UInt8}
    (h : peekNonSpace s = (result, s')) : s'.r.failure = s.r.failure := by
  have hfailure : (peekNonSpace s).2.r.failure = s.r.failure := peekLoop_failure s
  rw [h] at hfailure
  exact hfailure

theorem nextNonSpace_end {s : Scanner} (h : s.Inv) (hws : s.unread.all isJSONSpace = true) :
    ∃ s', nextNonSpace s = (.error (endError s.r.failure), s') ∧ s'.Spent := by
  obtain ⟨s', hpeek, hspent⟩ := peekNonSpace_end h hws
  refine ⟨s', ?_, hspent⟩
  unfold nextNonSpace
  rw [run_bind_error hpeek]

/-- How the scan of a value without an end ends: with what the reader answers, or, if that is
`io.EOF`, with the bytes there are. -/
def ValueEnd (failure : Option String) (result : Except ScanErr Bytes × Scanner) : Prop :=
  result.2.Spent ∧ (result.1 = .error (endError failure)
    ∨ failure = none ∧ ∃ raw, result.1 = .ok raw)

/-- The loop of `scanValue` over a value without an end. -/
theorem scanValueLoop_end {turns start : ℕ} {s : Scanner} {st : ValueState} (h : s.Inv)
    (hwork : s.work < turns) (hspan : spanValue st s.unread = none) :
    ValueEnd s.r.failure (scanValueLoop turns start st s) := by
  induction turns generalizing s start st with
  | zero => omega
  | succ turns ih =>
    unfold scanValueLoop
    by_cases hpos : s.pos < s.fin
    · have hcons := unread_eq_cons h hpos s.mark
      have hreach := reaches_advance h hpos hcons
      rw [hcons, spanValue] at hspan
      rw [if_pos hpos]
      cases hstep : valueByte st s.byte with
      | next st' =>
        rw [hstep] at hspan
        exact ih hreach.inv (work_advance _ hpos hwork) (Option.map_eq_none_iff.mp hspan)
      | endBefore =>
        rw [hstep] at hspan
        cases hspan
      | endAfter =>
        rw [hstep] at hspan
        cases hspan
    · have hempty : s.pos = s.fin := Nat.le_antisymm h.pos_le (Nat.not_lt.mp hpos)
      rw [if_neg hpos]
      dsimp only
      rcases fill_cases h hempty with ⟨-, s1, hfill, hf, hend⟩ | hrest
      · rw [hfill, ← hend]
        exact ih hf.inv (Nat.lt_of_lt_of_le hf.work (Nat.le_of_lt_succ hwork))
          (by rw [hf.unread]; exact hspan)
      · obtain ⟨s1, hfill, hspent, -⟩ := fill_end h hempty hrest
        rw [hfill]
        dsimp only
        by_cases hprimitive : endError s.r.failure = .unexpectedEOF ∧ st.depth = 0 ∧ st.inString = false
            ∧ start < s1.pos
        · rw [if_pos hprimitive]
          refine ⟨⟨hspent.inv.moveTo (Nat.le_refl _) hspent.inv.pos_le, hspent.unread⟩,
            Or.inr ⟨?_, _, rfl⟩⟩
          have heof := hprimitive.1
          cases hfailure : s.r.failure with
          | none => rfl
          | some msg =>
            rw [hfailure] at heof
            cases heof
        · rw [if_neg hprimitive]
          exact ⟨hspent, Or.inl rfl⟩

/-- A value is scanned without changing what the reader answers at the end. -/
theorem scanValueLoop_failure {turns start : ℕ} {st : ValueState} (s : Scanner) :
    (scanValueLoop turns start st s).2.r.failure = s.r.failure := by
  induction turns generalizing s start st with
  | zero => rfl
  | succ turns ih =>
    unfold scanValueLoop
    by_cases hpos : s.pos < s.fin
    · rw [if_pos hpos]
      cases valueByte st s.byte with
      | next st' => exact ih _
      | endBefore => rfl
      | endAfter => rfl
    · rw [if_neg hpos]
      have hfill := fill_failure s
      dsimp only
      cases hresult : fill s with
      | mk result s1 =>
        rw [hresult] at hfill
        cases result with
        | error e =>
          dsimp only
          split
          · exact hfill
          · exact hfill
        | ok u => exact (ih s1).trans hfill

theorem scanValue_failure {s s' : Scanner} {raw : Bytes} (h : scanValue s = (.ok raw, s')) :
    s'.r.failure = s.r.failure := by
  unfold scanValue at h
  cases hpeek : peekNonSpace s with
  | mk result s1 =>
    have hfailure := peekNonSpace_failure hpeek
    cases result with
    | error e =>
      rw [run_bind_error hpeek] at h
      cases congrArg Prod.fst h
    | ok c =>
      rw [run_bind hpeek] at h
      obtain rfl : (scanValueLoop _ _ _ _).2 = s' := congrArg Prod.snd h
      rw [← hfailure]
      exact scanValueLoop_failure _

/-- **`scanValue` without an end of the value.** -/
theorem scanValue_end {s : Scanner} {ws : Bytes} {c : UInt8} {cs : Bytes} (h : s.Inv)
    (hws : ws.all isJSONSpace = true) (hc : isJSONSpace c = false)
    (hunread : s.unread = ws ++ c :: cs) (hspan : spanValue {} (c :: cs) = none) :
    ValueEnd s.r.failure (scanValue s) := by
  obtain ⟨s1, hpeek, hreach, _⟩ := peekNonSpace_ok h hws hc hunread
  have hinv : { s1 with mark := s1.pos }.Inv :=
    hreach.inv.moveTo (Nat.le_refl _) hreach.inv.pos_le
  have hmarked : { s1 with mark := s1.pos }.unread = c :: cs := hreach.unread
  unfold scanValue
  rw [run_bind hpeek, ← peekNonSpace_failure hpeek]
  exact scanValueLoop_end hinv (Nat.lt_succ_self _) (by rw [hmarked]; exact hspan)

end SolanaGo.Rpc
