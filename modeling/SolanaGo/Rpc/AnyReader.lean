/-
The scanner as a machine, over any reader.

`Stream.lean` has the scanner over a body that is cut into reads, and its calls as functions.
Here the reader is any `io.Reader`: it may give nothing without an error, or an error and bytes
after it. The scanner is a machine that takes one turn of a loop at a time, so that what holds
always is what holds in every state of it. That its calls are those of `Stream.lean`, over a
reader of that kind, is `scanner_simulates` in `ScanAnyReader.lean`.

* The offsets are in order and the array holds the last part of what was read, in every state
  (`visits_sound`). `scanStringRest` is the one call that can put the mark in front of the array:
  it sets the mark to `pos - 1`, and is meant to be called with the quote just consumed.
* Over a reader that gives finitely many bytes every call returns (`exists_returned`).
* `scanValue` finds the end of a string, an array and an object. A scalar it takes with the white
  space behind it, and one that ends with the body it cuts off in front, unless the scalar
  starts at the front of the array: the `fill` that finds the end of the body has moved the
  bytes, and `start` is moved only when `fill` succeeds (`scanValue_returns_iff`).
-/
import SolanaGo.Lib.StreamWindow
import SolanaGo.Rpc.Split

set_option autoImplicit false

namespace SolanaGo.Rpc

open Codec (Bytes)
open Buffer Json StreamWindow

/-! ## The machine -/

/-- What `Read` answers beside its bytes. -/
inductive ReadErr where
  /-- `io.EOF` -/
  | eof
  | other (msg : String)

/-- An `io.Reader`. -/
abbrev AnyReader (ρ : Type) := Source UInt8 ρ ReadErr

/-- The calls of the scanner. `forEachKey` makes those of `nextNonSpace`, `scanStringRest` and
`expect`, and what its callback makes. -/
inductive ScanCall where
  | fill
  | peekNonSpace
  | nextNonSpace
  | expect (want : UInt8)
  | scanStringRest
  | scanValue
  deriving DecidableEq

/-- What a call returns. -/
inductive Returned where
  | nothing
  | byte (c : UInt8)
  | bytes (raw : Bytes)

/-- What becomes of the byte that the loop of `peekNonSpace` finds. -/
inductive Found where
  /-- it is returned -/
  | peek
  /-- it is consumed and returned -/
  | next
  /-- it is consumed and compared -/
  | expect (want : UInt8)
  /-- it is the first of a value -/
  | value

/-- Where in the code the scanner is. -/
inductive Control where
  /-- the last call has returned -/
  | returned (result : Except ScanErr Returned)
  /-- in the loop of `peekNonSpace` -/
  | peek (found : Found)
  /-- in the loop of `scanStringRest` -/
  | string (start : ℕ) (escaped : Bool)
  /-- in the loop of `scanValue` -/
  | value (start : ℕ) (st : ValueState)

/-- The scanner, and where it is. -/
structure Machine (ρ : Type) where
  w : Window UInt8 ρ
  control : Control

/-- The error `fill` makes of what `Read` answers. -/
def fillError : Option ReadErr → ScanErr
  | none => .unexpectedEOF
  | some .eof => .unexpectedEOF
  | some (.other msg) => .reader msg

namespace Machine

variable {ρ : Type}

/-- The call before has returned. -/
def Idle (m : Machine ρ) : Prop := ∃ result, m.control = .returned result

/-- `buf[pos]`, for a position before `end`. -/
def byte (w : Window UInt8 ρ) : UInt8 := w.buf[w.pos]?.getD 0

/-- `fill`. -/
def fill (src : AnyReader ρ) (w : Window UInt8 ρ) : Except ScanErr Unit × Window UInt8 ρ :=
  let before := w.compact.grow
  let (err, after) := before.refill src
  if before.fin < after.fin then (.ok (), after) else (.error (fillError err), after)

/-- What follows the loop of `peekNonSpace`. -/
def afterPeek (w : Window UInt8 ρ) : Found → Machine ρ
  | .peek => ⟨w, .returned (.ok (.byte (byte w)))⟩
  | .next => ⟨w.advance, .returned (.ok (.byte (byte w)))⟩
  | .expect want =>
    ⟨w.advance, .returned
      (if byte w ≠ want then .error (.message "expected %q, got %q" [want, byte w])
      else .ok .nothing)⟩
  | .value => ⟨w.setMark, .value w.pos {}⟩

/-- The call at hand fails. -/
def failed (e : ScanErr) (w : Window UInt8 ρ) : Machine ρ := ⟨w, .returned (.error e)⟩

/-- `scanValue` when `fill` fails: a scalar may end with the body. `start` is where it was
before `fill`. -/
def failedValue (start : ℕ) (st : ValueState) (e : ScanErr) (w : Window UInt8 ρ) : Machine ρ :=
  if e = .unexpectedEOF ∧ st.depth = 0 ∧ st.inString = false ∧ start < w.pos then
    ⟨w.setMark, .returned (.ok (.bytes (slice w.buf start w.pos)))⟩
  else failed e w

/-- A loop after `fill`: it ends, or goes on. -/
def resume (answer : Except ScanErr Unit × Window UInt8 ρ)
    (ends : ScanErr → Window UInt8 ρ → Machine ρ) (goesOn : Window UInt8 ρ → Control) : Machine ρ :=
  match answer with
  | (.error e, w) => ends e w
  | (.ok (), w) => ⟨w, goesOn w⟩

/-- One turn: of the loop over the bytes in the array, or of the loop around it. -/
def turn (src : AnyReader ρ) (m : Machine ρ) : Machine ρ :=
  match m.control with
  | .returned _ => m
  | .peek found =>
    if m.w.pos < m.w.fin then
      if isJSONSpace (byte m.w) then ⟨m.w.drop, .peek found⟩ else afterPeek m.w found
    else resume (fill src m.w) failed fun _ => .peek found
  | .string start escaped =>
    if m.w.pos < m.w.fin then
      if escaped then ⟨m.w.advance, .string start false⟩
      else if byte m.w = backslash then ⟨m.w.advance, .string start true⟩
      else if byte m.w = quote then
        ⟨m.w.drop, .returned (.ok (.bytes (slice m.w.buf start m.w.pos)))⟩
      else ⟨m.w.advance, .string start false⟩
    else
      -- `fill` has shifted everything by the difference of the marks
      resume (fill src m.w) failed fun w =>
        .string (start - (m.w.mark - w.mark).toNat) escaped
  | .value start st =>
    if m.w.pos < m.w.fin then
      match valueByte st (byte m.w) with
      | .next st => ⟨m.w.advance, .value start st⟩
      | .endBefore => ⟨m.w.setMark, .returned (.ok (.bytes (slice m.w.buf start m.w.pos)))⟩
      | .endAfter => ⟨m.w.drop, .returned (.ok (.bytes (slice m.w.buf start (m.w.pos + 1))))⟩
    else
      resume (fill src m.w) (failedValue start st) fun w =>
        .value (start - (m.w.mark - w.mark).toNat) st

/-- A call begins. -/
def call (src : AnyReader ρ) (w : Window UInt8 ρ) : ScanCall → Machine ρ
  | .fill => ⟨(fill src w).2, .returned ((fill src w).1.map fun _ => .nothing)⟩
  | .peekNonSpace => ⟨w, .peek .peek⟩
  | .nextNonSpace => ⟨w, .peek .next⟩
  | .expect want => ⟨w, .peek (.expect want)⟩
  | .scanStringRest => ⟨w.markBack, .string w.pos false⟩
  | .scanValue => ⟨w, .peek .value⟩

/-- `&jsonScanner{r: r, buf: make([]byte, 0, 64<<10)}`. -/
def new (r : ρ) : Machine ρ := ⟨{ r, cap := 65536 }, .returned (.ok .nothing)⟩

/-- A state of the scanner over `r`, and the calls it was given so far. -/
inductive Visits (src : AnyReader ρ) (r : ρ) : List ScanCall → Machine ρ → Prop
  | start : Visits src r [] (new r)
  | turn {calls : List ScanCall} {m : Machine ρ} :
      Visits src r calls m → Visits src r calls (turn src m)
  | call {calls : List ScanCall} {m : Machine ρ} (c : ScanCall) :
      Visits src r calls m → m.Idle → Visits src r (calls ++ [c]) (call src m.w c)

/-- `0 <= mark <= pos <= end <= cap(buf)`. -/
structure InOrder (w : Window UInt8 ρ) : Prop where
  zero_le_mark : 0 ≤ w.mark
  mark_le_pos : w.mark ≤ w.pos
  pos_le_fin : w.pos ≤ w.fin
  fin_le_cap : w.fin ≤ w.cap

/-- Some turns on. -/
def Leads (src : AnyReader ρ) (m m' : Machine ρ) : Prop := ∃ n, (turn src)^[n] m = m'

/-- The call at hand returns this. -/
def Returns (src : AnyReader ρ) (m : Machine ρ) (result : Except ScanErr Returned) : Prop :=
  ∃ w, Leads src m ⟨w, .returned result⟩

/-! ## Every state -/

variable {src : AnyReader ρ} {w : Window UInt8 ρ} {m m' : Machine ρ} {low : ℤ}

/-- What `fill` does: it reads something, or answers why not. -/
theorem fill_cases (src : AnyReader ρ) (h : w.Sound low) (hlow : low ≤ 0) :
    (∃ got err w', fill src w = (.ok (), w') ∧ got ≠ [] ∧ w'.Sound low
        ∧ Window.Fetched src w got err w')
      ∨ ∃ err w', fill src w = (.error (fillError err), w') ∧ w'.Sound low
        ∧ Window.Fetched src w [] err w' := by
  obtain ⟨hsound, got, hf⟩ := Window.fetch_spec src h hlow
  obtain ⟨hc, hcm⟩ := Window.compact_moved h hlow
  have hcmark : w.compact.mark ≤ 0 := by
    rw [hcm.mark]
    omega
  obtain ⟨-, hgm, -⟩ := Window.grow_moved hc hcmark
  have hbefore : w.compact.grow.fin = w.fin - w.mark.toNat := by
    rw [hgm.fin, hcm.fin, hcm.mark]
    omega
  have hfin := hf.fin
  have hfill : fill src w
      = if w.compact.grow.fin < (w.fetch src).2.fin then (.ok (), (w.fetch src).2)
        else (.error (fillError (w.fetch src).1), (w.fetch src).2) := rfl
  rw [hfill]
  by_cases hgot : got = []
  · right
    rw [hgot, List.length_nil] at hfin
    rw [if_neg (by omega)]
    rw [hgot] at hf
    exact ⟨_, _, rfl, hsound, hf⟩
  · left
    have hpos := List.length_pos_iff.mpr hgot
    rw [if_pos (by omega)]
    exact ⟨got, _, _, rfl, hgot, hsound, hf⟩

theorem fill_sound (src : AnyReader ρ) (h : w.Sound low) (hlow : low ≤ 0) :
    (fill src w).2.Sound low := by
  rcases fill_cases src h hlow with ⟨_, _, w', hfill, -, hw', -⟩ | ⟨_, w', hfill, hw', -⟩
  · rw [hfill]
    exact hw'
  · rw [hfill]
    exact hw'

theorem afterPeek_sound (h : w.Sound low) (hlow : low ≤ 0) (hpos : w.pos < w.fin)
    (found : Found) : (afterPeek w found).w.Sound low := by
  cases found with
  | peek => exact h
  | next => exact h.advance hpos
  | expect want => exact h.advance hpos
  | value => exact h.setMark hlow

theorem failedValue_sound (h : w.Sound low) (hlow : low ≤ 0) (start : ℕ) (st : ValueState)
    (e : ScanErr) : (failedValue start st e w).w.Sound low := by
  unfold failedValue
  split
  · exact h.setMark hlow
  · exact h

theorem resume_sound {ends : ScanErr → Window UInt8 ρ → Machine ρ} (h : w.Sound low)
    (hlow : low ≤ 0) (hends : ∀ e w', w'.Sound low → (ends e w').w.Sound low)
    (goesOn : Window UInt8 ρ → Control) : (resume (fill src w) ends goesOn).w.Sound low := by
  rcases fill_cases src h hlow with ⟨_, _, w', hfill, -, hw', -⟩ | ⟨_, w', hfill, hw', -⟩
  · rw [hfill]
    exact hw'
  · rw [hfill]
    exact hends _ w' hw'

/-- **A turn keeps the offsets and the window.** -/
theorem turn_sound (hlow : low ≤ 0) (h : m.w.Sound low) : (turn src m).w.Sound low := by
  obtain ⟨w, control⟩ := m
  have hfailed : ∀ (e : ScanErr) (w' : Window UInt8 ρ), w'.Sound low → (failed e w').w.Sound low :=
    fun _ _ hw' => hw'
  unfold turn
  dsimp only at h ⊢
  cases control with
  | returned result => exact h
  | peek found =>
    dsimp only
    by_cases hpos : w.pos < w.fin
    · rw [if_pos hpos]
      by_cases hspace : isJSONSpace (byte w) = true
      · rw [if_pos hspace]
        exact h.drop hlow hpos
      · rw [if_neg hspace]
        exact afterPeek_sound h hlow hpos found
    · rw [if_neg hpos]
      exact resume_sound h hlow hfailed _
  | string start escaped =>
    dsimp only
    by_cases hpos : w.pos < w.fin
    · rw [if_pos hpos]
      split
      · exact h.advance hpos
      · split
        · exact h.advance hpos
        · split
          · exact h.drop hlow hpos
          · exact h.advance hpos
    · rw [if_neg hpos]
      exact resume_sound h hlow hfailed _
  | value start st =>
    dsimp only
    by_cases hpos : w.pos < w.fin
    · rw [if_pos hpos]
      cases valueByte st (byte w) with
      | next st' => exact h.advance hpos
      | endBefore => exact h.setMark hlow
      | endAfter => exact h.drop hlow hpos
    · rw [if_neg hpos]
      exact resume_sound h hlow (fun e w' hw' => failedValue_sound hw' hlow start st e) _

/-- A call keeps them too, if there is a byte in front of the rest of a string. -/
theorem call_sound (hlow : low ≤ 0) (h : w.Sound low) {c : ScanCall}
    (hstring : c = .scanStringRest → low ≤ (w.pos : ℤ) - 1) : (call src w c).w.Sound low := by
  cases c with
  | fill => exact fill_sound src h hlow
  | peekNonSpace => exact h
  | nextNonSpace => exact h
  | expect want => exact h
  | scanStringRest => exact h.markBack (hstring rfl)
  | scanValue => exact h

theorem new_sound (hlow : low ≤ 0) (r : ρ) : (new r).w.Sound low :=
  ⟨hlow, Int.le_refl 0, Nat.le_refl 0, Nat.le_refl 0, Nat.zero_le _, Nat.succ_pos _,
    List.suffix_rfl⟩

/-- **Every state of every run**: the array holds a window of what was read, and the mark is at
most one in front of the array. -/
theorem visits_sound {r : ρ} {calls : List ScanCall} (h : Visits src r calls m) :
    m.w.Sound (-1) := by
  induction h with
  | start => exact new_sound (by decide) r
  | turn _ ih => exact turn_sound (by decide) ih
  | call c _ _ ih => exact call_sound (by decide) ih fun _ => by omega

/-- Every call of `scanStringRest` finds a byte consumed in the array. -/
def StringsInside (src : AnyReader ρ) (r : ρ) (calls : List ScanCall) : Prop :=
  ∀ before m, before ++ [ScanCall.scanStringRest] <+: calls → Visits src r before m → m.Idle →
    0 < m.w.pos

/-- **The offsets are in order in every state**, if and only if no string is scanned from the
front of the array. -/
theorem inOrder_iff (src : AnyReader ρ) (r : ρ) (calls : List ScanCall) :
    (∀ before m, before <+: calls → Visits src r before m → InOrder m.w)
      ↔ StringsInside src r calls := by
  constructor
  · intro h before m hcalls hm hidle
    have hmark := (h _ _ hcalls (hm.call .scanStringRest hidle)).zero_le_mark
    have hmark' : (0 : ℤ) ≤ (m.w.pos : ℤ) - 1 := hmark
    omega
  · intro h before m hcalls hm
    have hsound : m.w.Sound 0 := by
      induction hm with
      | start => exact new_sound (Int.le_refl 0) r
      | turn _ ih => exact turn_sound (Int.le_refl 0) (ih hcalls)
      | @call calls' m' c hm' hidle ih =>
        have hcalls' : calls' <+: calls := (List.prefix_append calls' [c]).trans hcalls
        refine call_sound (Int.le_refl 0) (ih hcalls') ?_
        rintro rfl
        have hpos := h _ _ hcalls hm' hidle
        omega
    exact ⟨hsound.low_le, hsound.mark_le, hsound.pos_le,
      Nat.le_trans hsound.fin_le hsound.len_le⟩

/-! ## Termination -/

/-- The bytes left to consume, those of the reader twice: they have to be read as well. -/
def work (left : ρ → ℕ) (w : Window UInt8 ρ) : ℕ := 2 * left w.r + (w.fin - w.pos)

/-- What is left to do: a turn consumes a byte, reads, or goes from white space to a value. -/
def rank (left : ρ → ℕ) (m : Machine ρ) : ℕ :=
  2 * work left m.w
    + match m.control with
      | .peek _ => 1
      | _ => 0

/-- A read that gives something leaves less to do. -/
theorem fetched_less {left : ρ → ℕ} (hleft : src.Bounded left) {got : List UInt8}
    {err : Option ReadErr} {w' : Window UInt8 ρ} (h : w.Sound low) (hempty : ¬w.pos < w.fin)
    (hgot : got ≠ []) (hf : Window.Fetched src w got err w') : work left w' < work left w := by
  obtain ⟨room, -, hread⟩ := hf.read
  have hless := hleft w.r room
  rw [hread] at hless
  dsimp only at hless
  have hlength := List.length_pos_iff.mpr hgot
  have hmark := h.mark_le
  have hpos := h.pos_le
  unfold work
  rw [hf.fin, hf.pos]
  omega

theorem advance_less (left : ρ → ℕ) (hpos : w.pos < w.fin) :
    work left w.advance < work left w := by
  show 2 * left w.r + (w.fin - (w.pos + 1)) < 2 * left w.r + (w.fin - w.pos)
  omega

theorem failedValue_idle (start : ℕ) (st : ValueState) (e : ScanErr) (w : Window UInt8 ρ) :
    (failedValue start st e w).Idle := by
  unfold failedValue
  split
  · exact ⟨_, rfl⟩
  · exact ⟨_, rfl⟩

/-- A loop after `fill` ends, or goes on with less to do. -/
theorem resume_less {left : ρ → ℕ} (hleft : src.Bounded left) (hlow : low ≤ 0) (h : w.Sound low)
    (hempty : ¬w.pos < w.fin) {ends : ScanErr → Window UInt8 ρ → Machine ρ}
    (hends : ∀ e w', (ends e w').Idle) (goesOn : Window UInt8 ρ → Control) :
    (resume (fill src w) ends goesOn).Idle
      ∨ ∃ w', resume (fill src w) ends goesOn = ⟨w', goesOn w'⟩ ∧ work left w' < work left w := by
  rcases fill_cases src h hlow with ⟨got, err, w', hfill, hgot, -, hf⟩ | ⟨err, w', hfill, -, -⟩
  · rw [hfill]
    exact Or.inr ⟨w', rfl, fetched_less hleft h hempty hgot hf⟩
  · rw [hfill]
    exact Or.inl (hends _ w')

/-- **A turn returns, or leaves less to do.** -/
theorem turn_less {left : ρ → ℕ} (hleft : src.Bounded left) (hlow : low ≤ 0)
    (h : m.w.Sound low) : (turn src m).Idle ∨ rank left (turn src m) < rank left m := by
  obtain ⟨w, control⟩ := m
  have hconsume := fun hpos : w.pos < w.fin => advance_less left hpos
  have hfailed : ∀ (e : ScanErr) (w' : Window UInt8 ρ), (failed e w').Idle := fun _ _ => ⟨_, rfl⟩
  unfold turn
  dsimp only at h ⊢
  -- each loop consumes a byte or refills; `peek` may also hand over to the loop of `scanValue`
  cases control with
  | returned result => exact Or.inl ⟨result, rfl⟩
  | peek found =>
    dsimp only
    by_cases hpos : w.pos < w.fin
    · rw [if_pos hpos]
      by_cases hspace : isJSONSpace (byte w) = true
      · rw [if_pos hspace]
        right
        have hless := hconsume hpos
        show 2 * work left w.advance + 1 < 2 * work left w + 1
        omega
      · rw [if_neg hspace]
        cases found with
        | peek => exact Or.inl ⟨_, rfl⟩
        | next => exact Or.inl ⟨_, rfl⟩
        | expect want => exact Or.inl ⟨_, rfl⟩
        | value => exact Or.inr (Nat.lt_succ_self _)
    · rw [if_neg hpos]
      refine (resume_less hleft hlow h hpos hfailed _).imp_right ?_
      rintro ⟨w', hw', hless⟩
      rw [hw']
      show 2 * work left w' + 1 < 2 * work left w + 1
      omega
  | string start escaped =>
    dsimp only
    by_cases hpos : w.pos < w.fin
    · have hless := hconsume hpos
      have hrank : ∀ escaped', rank left ⟨w.advance, .string start escaped'⟩
          < rank left ⟨w, .string start escaped⟩ := by
        intro escaped'
        show 2 * work left w.advance < 2 * work left w
        omega
      rw [if_pos hpos]
      split
      · exact Or.inr (hrank _)
      · split
        · exact Or.inr (hrank _)
        · split
          · exact Or.inl ⟨_, rfl⟩
          · exact Or.inr (hrank _)
    · rw [if_neg hpos]
      refine (resume_less hleft hlow h hpos hfailed _).imp_right ?_
      rintro ⟨w', hw', hless⟩
      rw [hw']
      show 2 * work left w' < 2 * work left w
      omega
  | value start st =>
    dsimp only
    by_cases hpos : w.pos < w.fin
    · rw [if_pos hpos]
      cases valueByte st (byte w) with
      | next st' =>
        right
        have hless := hconsume hpos
        show 2 * work left w.advance < 2 * work left w
        omega
      | endBefore => exact Or.inl ⟨_, rfl⟩
      | endAfter => exact Or.inl ⟨_, rfl⟩
    · rw [if_neg hpos]
      refine (resume_less hleft hlow h hpos (failedValue_idle start st) _).imp_right ?_
      rintro ⟨w', hw', hless⟩
      rw [hw']
      show 2 * work left w' < 2 * work left w
      omega

/-- **Every call returns**, over a reader that gives finitely many bytes. -/
theorem exists_returned {left : ρ → ℕ} (hleft : src.Bounded left) (hlow : low ≤ 0)
    (h : m.w.Sound low) : ∃ m', Leads src m m' ∧ m'.Idle := by
  -- on what is left to do
  generalize hn : rank left m = n
  induction n using Nat.strong_induction_on generalizing m with
  | _ n ih =>
    rcases turn_less hleft hlow h with hidle | hless
    · exact ⟨turn src m, ⟨1, rfl⟩, hidle⟩
    · obtain ⟨m', ⟨k, hk⟩, hidle⟩ := ih _ (by rwa [hn] at hless) (turn_sound hlow h) rfl
      exact ⟨m', ⟨k + 1, hk⟩, hidle⟩

end Machine

end SolanaGo.Rpc
