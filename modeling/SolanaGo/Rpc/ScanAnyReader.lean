/-
`scanValue` over any reader of a body.

First, the functions of `Stream.lean` are the calls of the machine of `AnyReader.lean`, over a
reader that answers only when it has nothing to give (`scanner_simulates`). What holds of the
machine over any reader is so said of the code that the stream is modelled with.

The reader gives the bytes of the body in parts of its choice, and answers `io.EOF` (or nothing)
behind the last. In the state the scanner is in, the bytes left to consume are those in the array
and those of the reader (`unread`); they are white space, a value, white space, and then the end
of the body or what ends a value inside a container.
-/
import SolanaGo.Rpc.AnyReader

set_option autoImplicit false

namespace SolanaGo.Rpc

open Codec (Bytes)
open Buffer Json StreamWindow

namespace Machine

variable {ρ : Type} {src : AnyReader ρ} {w : Window UInt8 ρ} {m m' : Machine ρ} {low : ℤ}

/-! ## Turns -/

theorem Leads.trans {m1 m2 m3 : Machine ρ} (h : Leads src m1 m2) (h' : Leads src m2 m3) :
    Leads src m1 m3 := by
  obtain ⟨n, rfl⟩ := h
  obtain ⟨n', rfl⟩ := h'
  exact ⟨n' + n, Function.iterate_add_apply _ _ _ _⟩

/-- A turn, and then some. -/
theorem Leads.head {m1 m2 : Machine ρ} (hturn : turn src m = m1) (h : Leads src m1 m2) :
    Leads src m m2 := Leads.trans ⟨1, hturn⟩ h

theorem Leads.single (hturn : turn src m = m') : Leads src m m' := ⟨1, hturn⟩

/-- A call returns once. -/
theorem Returns.unique {a b : Except ScanErr Returned} (ha : Returns src m a)
    (hb : Returns src m b) : a = b := by
  have hfix : ∀ (w : Window UInt8 ρ) (result : Except ScanErr Returned) (n : ℕ),
      (turn src)^[n] ⟨w, .returned result⟩ = ⟨w, .returned result⟩ :=
    fun w result n => Function.iterate_fixed rfl n
  obtain ⟨w, n, hn⟩ := ha
  obtain ⟨w', n', hn'⟩ := hb
  rcases Nat.le_total n n' with hle | hle
  · obtain ⟨k, rfl⟩ := Nat.exists_eq_add_of_le' hle
    rw [Function.iterate_add_apply, hn, hfix] at hn'
    exact Control.returned.inj (congrArg Machine.control hn')
  · obtain ⟨k, rfl⟩ := Nat.exists_eq_add_of_le' hle
    rw [Function.iterate_add_apply, hn', hfix] at hn
    exact (Control.returned.inj (congrArg Machine.control hn)).symm

/-! ## The scanner of the stream

The functions of `Stream.lean` run a whole loop at once, over a reader that answers only when
it has nothing to give. They are the calls of this machine over that reader. -/

section Stream

/-- The reader of `Stream.lean`. -/
def readerSource : AnyReader Reader where
  read r room :=
    let (got, r') := r.read room
    (got, if got = [] then some (r.failure.elim .eof .other) else none, r')
  length_le r room := by
    rw [Reader.read, List.length_take]
    omega

variable {s s' : Scanner} {input : Bytes}

/-- `fill`. -/
theorem fill_window (s : Scanner) (input : Bytes) : ∃ input',
    fill readerSource (s.window input) = ((Rpc.fill s).1, (Rpc.fill s).2.window input') := by
  generalize hbefore : s.compact.grow = before
  obtain ⟨got, hgot⟩ : ∃ got, (before.r.read (before.cap - before.fin)).1 = got := ⟨_, rfl⟩
  have hrefill : (before.window input).refill readerSource
      = (if got = [] then some (before.r.failure.elim .eof .other) else none,
        before.refill.window (input ++ got)) := by
    rw [← hgot]
    rfl
  have hfin : before.refill.fin = before.fin + got.length := by
    rw [← hgot]
    rfl
  have hmore : (before.window input).fin < (before.refill.window (input ++ got)).fin
      ↔ before.fin < before.refill.fin := Iff.rfl
  refine ⟨input ++ got, ?_⟩
  unfold fill Rpc.fill
  rw [Scanner.compact_window, Scanner.grow_window, hbefore]
  dsimp only
  rw [hrefill]
  dsimp only
  by_cases h : before.fin < before.refill.fin
  · rw [if_pos h, if_pos (hmore.mpr h)]
  · have hnil : got = [] := List.eq_nil_of_length_eq_zero (by omega)
    have hfailure : before.refill.r.failure = before.r.failure := rfl
    rw [if_neg h, if_neg (mt hmore.mp h), if_pos hnil, hfailure]
    cases before.r.failure with
    | none => rfl
    | some msg => rfl

/-- A call has returned. -/
def returned {β : Type} (shown : β → Window UInt8 Reader → Returned) (result : Except ScanErr β)
    (w : Window UInt8 Reader) : Machine Reader :=
  ⟨w, .returned (result.map fun b => shown b w)⟩

/-- From `m` the machine comes to what a function has returned and left. -/
def Does {β : Type} (goal : Except ScanErr β → Window UInt8 Reader → Machine Reader)
    (m : Machine Reader) (outcome : Except ScanErr β × Scanner) : Prop :=
  outcome.1 ≠ .error .stuck →
    ∃ input, Leads readerSource m (goal outcome.1 (outcome.2.window input))

variable {β : Type} {goal : Except ScanErr β → Window UInt8 Reader → Machine Reader}

theorem Does.turn {m m' : Machine Reader} {outcome : Except ScanErr β × Scanner}
    (hturn : turn readerSource m = m') (h : Does goal m' outcome) : Does goal m outcome := by
  intro hstuck
  obtain ⟨input, hleads⟩ := h hstuck
  exact ⟨input, hleads.head hturn⟩

theorem Does.ended {m : Machine Reader} {result : Except ScanErr β}
    (hturn : Machine.turn readerSource m = goal result (s.window input)) :
    Does goal m (result, s) := fun _ => ⟨input, Leads.single hturn⟩

/-- The turn of a loop that calls `fill`. -/
theorem Does.fill {control : Control} {ends : ScanErr → Window UInt8 Reader → Machine Reader}
    {goesOn : Window UInt8 Reader → Control}
    {fails : ScanErr → Scanner → Except ScanErr β × Scanner}
    {next : Scanner → Except ScanErr β × Scanner}
    (hturn : Machine.turn readerSource ⟨s.window input, control⟩
      = resume (Machine.fill readerSource (s.window input)) ends goesOn)
    (hfails : ∀ e s' input', ∃ input'', ends e (s'.window input')
      = goal (fails e s').1 ((fails e s').2.window input''))
    (hnext : ∀ s' input', Does goal ⟨s'.window input', goesOn (s'.window input')⟩ (next s')) :
    Does goal ⟨s.window input, control⟩ (match Rpc.fill s with
      | (.error e, s') => fails e s'
      | (.ok (), s') => next s') := by
  obtain ⟨input', hfill⟩ := fill_window s input
  rw [hfill] at hturn
  cases h : Rpc.fill s with
  | mk result s' =>
    rw [h] at hturn
    cases result with
    | error e =>
      obtain ⟨w, hw⟩ := hfails e s' input'
      exact fun _ => ⟨w, Leads.single (hturn.trans hw)⟩
    | ok _ => exact (hnext s' input').turn hturn

/-- The loop of `peekNonSpace`, and what follows it. -/
theorem does_peekLoop (found : Found) (turns : ℕ) (s : Scanner) (input : Bytes) :
    Does (fun result w => match result with
      | .error e => failed e w
      | .ok _ => afterPeek w found) ⟨s.window input, .peek found⟩ (peekLoop turns s) := by
  induction turns generalizing s input with
  | zero => exact fun h => absurd rfl h
  | succ turns ih =>
    unfold peekLoop
    by_cases hpos : s.pos < s.fin
    · rw [if_pos hpos]
      by_cases hspace : isJSONSpace s.byte = true
      · rw [if_pos hspace]
        exact (ih _ input).turn ((if_pos hpos).trans (if_pos hspace))
      · rw [if_neg hspace]
        exact Does.ended ((if_pos hpos).trans (if_neg hspace))
    · rw [if_neg hpos]
      exact Does.fill (if_neg hpos) (fun _ _ input' => ⟨input', rfl⟩) ih

theorem peekLoop_byte {turns : ℕ} {c : UInt8} (h : peekLoop turns s = (.ok c, s')) :
    c = s'.byte := by
  induction turns generalizing s with
  | zero => exact nomatch h
  | succ turns ih =>
    unfold peekLoop at h
    split at h
    · split at h
      · exact ih h
      · obtain ⟨hc, rfl⟩ := Prod.mk.inj h
        exact (Except.ok.inj hc).symm
    · split at h
      · exact nomatch h
      · exact ih h

/-- A call that starts with `peekNonSpace`. -/
theorem Does.afterPeek {found : Found} {f : UInt8 → Scan β}
    (hfails : ∀ e w, goal (.error e) w = failed e w)
    (h : ∀ s' input', Does goal (Machine.afterPeek (s'.window input') found) (f s'.byte s')) :
    Does goal ⟨s.window input, .peek found⟩ ((peekNonSpace >>= f) s) := by
  have hloop : Does _ _ (peekNonSpace s) := does_peekLoop found _ s input
  cases hpeek : peekNonSpace s with
  | mk result s1 =>
    rw [hpeek] at hloop
    intro hstuck
    cases result with
    | error e =>
      rw [run_bind_error hpeek] at hstuck ⊢
      obtain ⟨input1, hleads⟩ :=
        hloop fun h => hstuck (congrArg Except.error (Except.error.inj h))
      refine ⟨input1, ?_⟩
      dsimp only
      rw [hfails]
      exact hleads
    | ok c =>
      rw [run_bind hpeek, peekLoop_byte hpeek] at hstuck ⊢
      obtain ⟨input1, hleads⟩ := hloop (by simp)
      obtain ⟨input2, hleads'⟩ := h s1 input1 hstuck
      exact ⟨input2, hleads.trans hleads'⟩

/-- The loop of `scanStringRest`. -/
theorem does_scanStringLoop (turns start : ℕ) (escaped : Bool) (s : Scanner) (input : Bytes) :
    Does (returned fun view w => .bytes (slice w.buf view.lo view.hi))
      ⟨s.window input, .string start escaped⟩ (scanStringLoop turns start escaped s) := by
  induction turns generalizing start escaped s input with
  | zero => exact fun h => absurd rfl h
  | succ turns ih =>
    unfold scanStringLoop
    by_cases hpos : s.pos < s.fin
    · rw [if_pos hpos]
      dsimp only
      cases escaped with
      | true => exact (ih _ _ _ input).turn (if_pos hpos)
      | false =>
        by_cases hback : s.byte = backslash
        · rw [if_neg (by simp), if_pos hback]
          exact (ih _ _ _ input).turn ((if_pos hpos).trans (if_pos hback))
        · by_cases hquote : s.byte = quote
          · rw [if_neg (by simp), if_neg hback, if_pos hquote]
            exact Does.ended ((if_pos hpos).trans ((if_neg hback).trans (if_pos hquote)))
          · rw [if_neg (by simp), if_neg hback, if_neg hquote]
            exact (ih _ _ _ input).turn
              ((if_pos hpos).trans ((if_neg hback).trans (if_neg hquote)))
    · rw [if_neg hpos]
      refine Does.fill (if_neg hpos) (fun _ _ input' => ⟨input', rfl⟩) fun s' input' => ?_
      -- the machine moves `start` by integers
      rw [← Int.toNat_sub s.mark s'.mark]
      exact ih _ _ _ _

/-- The loop of `scanValue`. -/
theorem does_scanValueLoop (turns start : ℕ) (st : ValueState) (s : Scanner) (input : Bytes) :
    Does (returned fun raw _ => .bytes raw) ⟨s.window input, .value start st⟩
      (scanValueLoop turns start st s) := by
  induction turns generalizing start st s input with
  | zero => exact fun h => absurd rfl h
  | succ turns ih =>
    unfold scanValueLoop
    by_cases hpos : s.pos < s.fin
    · rw [if_pos hpos]
      have hturn : turn readerSource ⟨s.window input, .value start st⟩ = _ := if_pos hpos
      have hbyte : byte (s.window input) = s.byte := rfl
      rw [hbyte] at hturn
      cases hstep : valueByte st s.byte with
      | next st' =>
        rw [hstep] at hturn
        exact (ih _ _ _ input).turn hturn
      | endBefore =>
        rw [hstep] at hturn
        exact Does.ended hturn
      | endAfter =>
        rw [hstep] at hturn
        exact Does.ended hturn
    · rw [if_neg hpos]
      refine Does.fill (if_neg hpos) (fun e s' input' => ⟨input', ?_⟩) fun s' input' => ?_
      · unfold failedValue
        by_cases hend : e = .unexpectedEOF ∧ st.depth = 0 ∧ st.inString = false ∧ start < s'.pos
        · rw [if_pos hend]
          exact if_pos hend
        · rw [if_neg hend]
          exact if_neg hend
      · rw [← Int.toNat_sub s.mark s'.mark]
        exact ih _ _ _ _

/-- The call of the machine returns and leaves what the function returns and leaves. -/
def Simulates (s : Scanner) (c : ScanCall) (f : Scan β)
    (shown : β → Window UInt8 Reader → Returned) : Prop :=
  ∀ input, Does (returned shown) (call readerSource (s.window input) c) (f s)

/-- **The scanner of `Stream.lean` is the machine.** Each of its functions is a call of the
machine; `scanStringRest` is, where a quote was consumed. -/
theorem scanner_simulates (s : Scanner) :
    Simulates s .fill Rpc.fill (fun _ _ => .nothing)
    ∧ Simulates s .peekNonSpace Rpc.peekNonSpace (fun c _ => .byte c)
    ∧ Simulates s .nextNonSpace Rpc.nextNonSpace (fun c _ => .byte c)
    ∧ (∀ want, Simulates s (.expect want) (Rpc.expect want) fun _ _ => .nothing)
    ∧ (0 < s.pos → Simulates s .scanStringRest Rpc.scanStringRest
      fun view w => .bytes (slice w.buf view.lo view.hi))
    ∧ Simulates s .scanValue Rpc.scanValue (fun raw _ => .bytes raw) := by
  refine ⟨fun input => ?_, fun input => ?_, fun input => ?_, fun want input => ?_,
    fun hpos input => ?_, fun input => ?_⟩
  · obtain ⟨input', hfill⟩ := fill_window s input
    refine fun _ => ⟨input', 0, ?_⟩
    unfold call
    rw [hfill]
    rfl
  · rw [← bind_pure peekNonSpace]
    exact Does.afterPeek (fun _ _ => rfl) fun s' input' _ => ⟨input', 0, rfl⟩
  · exact Does.afterPeek (fun _ _ => rfl) fun s' input' _ => ⟨input', 0, rfl⟩
  · unfold expect nextNonSpace
    simp only [bind_assoc, pure_bind]
    refine Does.afterPeek (fun _ _ => rfl) fun s' input' _ => ⟨input', 0, ?_⟩
    have hbyte : byte (s'.window input') = s'.byte := rfl
    rw [run_bind (show advance s' = (.ok (), { s' with pos := s'.pos + 1 }) from rfl)]
    unfold Machine.afterPeek
    rw [Function.iterate_zero, id, hbyte]
    dsimp only
    by_cases hwant : s'.byte ≠ want
    · rw [if_pos hwant, if_pos hwant]
      rfl
    · rw [if_neg hwant, if_neg hwant]
      rfl
  · have hmark : (s.window input).markBack = { s with mark := s.pos - 1 }.window input := by
      unfold Window.markBack Scanner.window
      simp only [Nat.cast_pred hpos]
    unfold call
    rw [hmark]
    exact does_scanStringLoop _ _ _ _ _
  · exact Does.afterPeek (fun _ _ => rfl) fun s' input' => does_scanValueLoop _ _ _ _ _

end Stream

/-! ## A body -/

/-- The reader is one of a body, of which `rest` is left: at its end it answers `io.EOF`, or
nothing. -/
structure Body (src : AnyReader ρ) (rest : ρ → Bytes) : Prop extends src.Delivers rest where
  eof : ∀ r room, rest r = [] → fillError (src.read r room).2.1 = .unexpectedEOF

variable {rest : ρ → Bytes}

/-- The bytes left to consume. -/
def unread (rest : ρ → Bytes) (w : Window UInt8 ρ) : Bytes := w.ahead ++ rest w.r

/-- The byte at the position. -/
theorem byte_spec (h : w.Sound low) (hpos : w.pos < w.fin) :
    w.buf[w.pos]? = some (byte w) ∧ w.ahead = byte w :: w.advance.ahead := by
  obtain ⟨a, ha, hahead⟩ := h.ahead_eq_cons hpos
  have hbyte : byte w = a := by
    unfold byte
    rw [ha]
    rfl
  rw [hbyte]
  exact ⟨ha, hahead⟩

theorem unread_eq_cons (rest : ρ → Bytes) (h : w.Sound low) (hpos : w.pos < w.fin) :
    unread rest w = byte w :: unread rest w.advance := by
  unfold unread
  rw [(byte_spec h hpos).2]
  rfl

/-- What `fill` does when the array is used up: it goes on in the body, or is at its end. -/
theorem fill_body (hbody : Body src rest) (h : w.Sound low) (hlow : low ≤ 0)
    (hempty : ¬w.pos < w.fin) :
    (∃ w', fill src w = (.ok (), w') ∧ rest w.r ≠ [] ∧ w'.Sound low ∧ w'.mark = min w.mark 0
        ∧ w'.kept = w.kept ∧ unread rest w' = unread rest w
        ∧ work (fun r => (rest r).length) w' < work (fun r => (rest r).length) w)
      ∨ ∃ w', fill src w = (.error .unexpectedEOF, w') ∧ rest w.r = [] ∧ w'.mark = min w.mark 0
        ∧ w'.pos = w.pos - w.mark.toNat ∧ w'.kept = w.kept ∧ unread rest w = [] := by
  rcases fill_cases src h hlow with ⟨got, err, w', hfill, hgot, hw', hf⟩ | ⟨err, w', hfill, -, hf⟩
  · left
    obtain ⟨room, -, hread⟩ := hf.read
    have hsplit := hbody.split w.r room
    rw [hread] at hsplit
    refine ⟨w', hfill, ?_, hw', hf.mark, hf.kept, ?_,
      fetched_less hbody.toDelivers.bounded h hempty hgot hf⟩
    · rw [hsplit]
      exact List.append_ne_nil_of_left_ne_nil hgot _
    · unfold unread
      rw [hf.ahead, hsplit, List.append_assoc]
  · right
    obtain ⟨room, hroom, hread⟩ := hf.read
    have hrest : rest w.r = [] := hbody.progress w.r room hroom (by rw [hread])
    have heof := hbody.eof w.r room hrest
    rw [hread] at heof
    rw [heof] at hfill
    refine ⟨w', hfill, hrest, hf.mark, hf.pos, hf.kept, ?_⟩
    unfold unread
    rw [Window.ahead_of_empty (Nat.le_antisymm h.pos_le (Nat.not_lt.mp hempty)), hrest]
    rfl

/-! ## White space -/

/-- **The loop of `peekNonSpace`.** It comes to the first byte that is not white space, whatever
is then done with it. -/
theorem peek_leads (hbody : Body src rest) (hlow : low ≤ 0) {ws : Bytes} {c : UInt8} {t : Bytes}
    (h : w.Sound low) (hws : ws.all isJSONSpace = true) (hc : isJSONSpace c = false)
    (hunread : unread rest w = ws ++ c :: t) :
    ∃ w1, w1.Sound low ∧ byte w1 = c ∧ unread rest w1 = c :: t
      ∧ ∀ found, Leads src ⟨w, .peek found⟩ (afterPeek w1 found) := by
  generalize hn : work (fun r => (rest r).length) w = n
  induction n using Nat.strong_induction_on generalizing w ws with
  | _ n ih =>
    by_cases hpos : w.pos < w.fin
    · have hcons := unread_eq_cons rest h hpos
      cases ws with
      | nil =>
        rw [hunread, List.nil_append, List.cons.injEq] at hcons
        refine ⟨w, h, hcons.1.symm, hunread, fun found => Leads.single ?_⟩
        unfold turn
        dsimp only
        rw [if_pos hpos, ← hcons.1, if_neg (by rw [hc]; decide)]
      | cons b ws =>
        rw [hunread, List.cons_append, List.cons.injEq] at hcons
        rw [List.all_cons, Bool.and_eq_true] at hws
        have hless : work (fun r => (rest r).length) w.drop < n := by
          rw [← hn]
          exact advance_less (fun r => (rest r).length) hpos
        obtain ⟨w1, hw1, hbyte, hunread1, hleads⟩ :=
          ih _ hless (h.drop hlow hpos) hws.2 hcons.2.symm rfl
        refine ⟨w1, hw1, hbyte, hunread1, fun found => Leads.head ?_ (hleads found)⟩
        unfold turn
        dsimp only
        rw [if_pos hpos, ← hcons.1, if_pos hws.1]
    · rcases fill_body hbody h hlow hpos with
        ⟨w', hfill, -, hw', -, -, hunread', hless⟩ | ⟨w', -, -, -, -, -, hnone⟩
      · rw [hn] at hless
        obtain ⟨w1, hw1, hbyte, hunread1, hleads⟩ :=
          ih _ hless hw' hws (hunread'.trans hunread) rfl
        refine ⟨w1, hw1, hbyte, hunread1, fun found => Leads.head ?_ (hleads found)⟩
        unfold turn
        dsimp only
        rw [if_neg hpos, hfill]
        rfl
      · rw [hunread] at hnone
        simp at hnone

/-! ## Values -/

/-- One byte that belongs to the value. -/
theorem turn_value_next (start : ℕ) {st st' : ValueState} (hpos : w.pos < w.fin)
    (hstep : valueByte st (byte w) = .next st') :
    turn src ⟨w, .value start st⟩ = ⟨w.advance, .value start st'⟩ := by
  unfold turn
  dsimp only
  rw [if_pos hpos, hstep]

/-- A refill inside a value: `start` is moved with the mark. -/
theorem turn_value_fill {w' : Window UInt8 ρ} (st : ValueState) (hmark : 0 ≤ w.mark)
    (hmark' : w'.mark = min w.mark 0) (hpos : ¬w.pos < w.fin) (hfill : fill src w = (.ok (), w')) :
    turn src ⟨w, .value w.mark.toNat st⟩ = ⟨w', .value w'.mark.toNat st⟩ := by
  have hstart : w.mark.toNat - (w.mark - w'.mark).toNat = w'.mark.toNat := by omega
  unfold turn
  dsimp only
  rw [if_neg hpos, hfill, resume, hstart]

/-- **The loop of `scanValue`** returns what `spanValue` takes. -/
theorem value_leads (hbody : Body src rest) (hlow : low ≤ 0) {st : ValueState} {p : Span}
    (h : w.Sound low) (hmark : 0 ≤ w.mark) (hspan : spanValue st (unread rest w) = some p) :
    Returns src ⟨w, .value w.mark.toNat st⟩ (.ok (.bytes (w.kept ++ p.raw))) := by
  generalize hn : work (fun r => (rest r).length) w = n
  induction n using Nat.strong_induction_on generalizing w st p with
  | _ n ih =>
    by_cases hpos : w.pos < w.fin
    · have hkept := h.kept_advance (byte_spec h hpos).1
      rw [unread_eq_cons rest h hpos, spanValue] at hspan
      cases hstep : valueByte st (byte w) with
      | next st' =>
        rw [hstep] at hspan
        obtain ⟨q, hspan', rfl⟩ := Option.map_eq_some_iff.mp hspan
        have hless : work (fun r => (rest r).length) w.advance < n := by
          rw [← hn]
          exact advance_less _ hpos
        obtain ⟨w', hleads⟩ := ih _ hless (h.advance hpos) hmark hspan' rfl
        rw [hkept, List.append_assoc, List.singleton_append] at hleads
        exact ⟨w', Leads.head (turn_value_next _ hpos hstep) hleads⟩
      | endBefore =>
        rw [hstep] at hspan
        obtain rfl := Option.some.inj hspan
        refine ⟨w.setMark, Leads.single ?_⟩
        unfold turn
        dsimp only
        rw [if_pos hpos, hstep, List.append_nil]
        rfl
      | endAfter =>
        rw [hstep] at hspan
        obtain rfl := Option.some.inj hspan
        refine ⟨w.drop, Leads.single ?_⟩
        unfold turn
        dsimp only
        rw [if_pos hpos, hstep, ← hkept]
        rfl
    · rcases fill_body hbody h hlow hpos with
        ⟨w', hfill, -, hw', hmark', hkept, hunread, hless⟩ | ⟨w', -, -, -, -, -, hnone⟩
      · rw [hn] at hless
        rw [← hunread] at hspan
        obtain ⟨w1, hleads⟩ := ih _ hless hw' (by omega) hspan rfl
        rw [hkept] at hleads
        exact ⟨w1, Leads.head (turn_value_fill st hmark hmark' hpos hfill) hleads⟩
      · rw [hnone, spanValue] at hspan
        cases hspan

/-- What is returned of a scalar that ends with the body, if the mark was at `mark` then. -/
def endResult (mark : ℕ) (text : Bytes) : Except ScanErr Returned :=
  if mark < text.length then .ok (.bytes (text.drop mark)) else .error .unexpectedEOF

/-- **The loop of `scanValue` at the end of the body.** The bytes in front are lost that the
mark was away from the front of the array. -/
theorem value_end (hbody : Body src rest) (hlow : low ≤ 0) (h : w.Sound low) (hmark : 0 ≤ w.mark)
    (hinert : ∀ b ∈ unread rest w, valueByte {} b = .next {}) :
    Returns src ⟨w, .value w.mark.toNat {}⟩
      (endResult (if rest w.r = [] then w.mark.toNat else 0) (w.kept ++ unread rest w)) := by
  generalize hn : work (fun r => (rest r).length) w = n
  induction n using Nat.strong_induction_on generalizing w with
  | _ n ih =>
    by_cases hpos : w.pos < w.fin
    · have hkept := h.kept_advance (byte_spec h hpos).1
      have hcons := unread_eq_cons rest h hpos
      rw [hcons] at hinert ⊢
      have hless : work (fun r => (rest r).length) w.advance < n := by
        rw [← hn]
        exact advance_less _ hpos
      obtain ⟨w', hleads⟩ := ih _ hless (h.advance hpos) hmark
        (fun b hb => hinert b (List.mem_cons_of_mem _ hb)) rfl
      rw [hkept, List.append_assoc, List.singleton_append] at hleads
      exact ⟨w', Leads.head (turn_value_next _ hpos (hinert _ List.mem_cons_self)) hleads⟩
    · rcases fill_body hbody h hlow hpos with
        ⟨w', hfill, hrest, hw', hmark', hkept, hunread, hless⟩
          | ⟨w', hfill, hrest, hmark', hpos', hkept, hnone⟩
      · rw [hn] at hless
        obtain ⟨w1, hleads⟩ := ih _ hless hw' (by omega) (by rwa [hunread]) rfl
        have hzero : w'.mark.toNat = 0 := by omega
        rw [hkept, hunread, hzero, ite_self] at hleads
        rw [if_neg hrest]
        have hturn := turn_value_fill {} hmark hmark' hpos hfill
        rw [hzero] at hturn
        exact ⟨w1, Leads.head hturn hleads⟩
      · -- `fill` has moved the bytes to the front and failed
        have hzero : w'.mark.toNat = 0 := by omega
        have hfront : slice w'.buf 0 w'.pos = w.kept := by
          rw [← hkept]
          unfold Window.kept
          rw [hzero]
        have hlength : w.kept.length = w'.pos := h.length_kept.trans hpos'.symm
        rw [hnone, List.append_nil, if_pos hrest]
        unfold endResult
        rw [hlength]
        by_cases hstart : w.mark.toNat < w'.pos
        · refine ⟨w'.setMark, Leads.single ?_⟩
          unfold turn
          dsimp only
          rw [if_neg hpos, hfill, resume, failedValue, if_pos ⟨rfl, rfl, rfl, hstart⟩,
            if_pos hstart, slice_eq_drop, hfront]
        · refine ⟨w', Leads.single ?_⟩
          unfold turn
          dsimp only
          rw [if_neg hpos, hfill, resume, failedValue, if_neg (fun h => hstart h.2.2.2),
            if_neg hstart]
          rfl

/-! ## The calls -/

/-- What may follow a value in a text: its end, or what ends a value inside a container. -/
def Follows (next : Bytes) : Prop := next = [] ∨ ∃ c t, next = c :: t ∧ IsTerminator c

/-- The value is returned as it is: it is not a scalar; or there is no white space behind it, and
if it ends with the body, it starts at the front of the array or is not all in it when its
first byte is found. -/
def Exact (v : Value) (after : Space) (next : Bytes) (w1 : Window UInt8 ρ) : Prop :=
  isScalar v = true →
    after.1 = [] ∧ (next = [] → w1.pos = 0 ∨ w1.fin - w1.pos < v.render.length)

/-- What is left of a scalar and white space is the scalar, if nothing is lost. -/
theorem drop_eq_scalar_iff {text : Scalar} {after : Space} {k : ℕ} :
    (text.1 ++ after.1).drop k = text.1 ↔ k = 0 ∧ after.1 = [] := by
  constructor
  · intro h
    have hlength := congrArg List.length h
    rw [List.length_drop, List.length_append] at hlength
    have hpos := List.length_pos_iff.mpr text.2.1
    by_cases hafter : after.1 = []
    · rw [hafter, List.length_nil] at hlength
      exact ⟨by omega, hafter⟩
    · -- the last byte would be white space
      exfalso
      have hlast : text.1.getLast? = after.1.getLast? := by
        rw [← h, List.getLast?_drop, List.getLast?_append_of_ne_nil _ hafter,
          if_neg (by rw [List.length_append]; omega)]
      have hmem : text.1.getLast text.2.1 ∈ after.1 := by
        rw [List.getLast?_eq_some_getLast text.2.1, List.getLast?_eq_some_getLast hafter] at hlast
        rw [Option.some.inj hlast]
        exact List.getLast_mem hafter
      have hspace := List.all_eq_true.mp after.2 _ hmem
      have hscalar := List.all_eq_true.mp text.2.2 _ (List.getLast_mem text.2.1)
      unfold isScalarByte at hscalar
      rw [hspace] at hscalar
      simp at hscalar
  · rintro ⟨rfl, hafter⟩
    rw [List.drop_zero, hafter, List.append_nil]

theorem endResult_eq_ok_iff {text : Scalar} {after : Space} {k : ℕ} :
    endResult k (text.1 ++ after.1) = .ok (.bytes text.1) ↔ k = 0 ∧ after.1 = [] := by
  have hpos := List.length_pos_iff.mpr text.2.1
  unfold endResult
  by_cases hk : k < (text.1 ++ after.1).length
  · rw [if_pos hk, ← drop_eq_scalar_iff]
    constructor
    · intro h
      exact Returned.bytes.inj (Except.ok.inj h)
    · intro h
      rw [h]
  · rw [if_neg hk]
    rw [List.length_append] at hk
    exact iff_of_false nofun (by omega)

/-- `scanValue` finds the first byte where `peekNonSpace` finds it, and returns what its loop
returns from there. -/
theorem scanValue_enters (hbody : Body src rest) (hlow : low ≤ 0) (h : w.Sound low)
    {ws : Space} {v : Value} {t : Bytes} (hunread : unread rest w = ws.1 ++ (v.render ++ t)) :
    ∃ w1, w1.Sound low ∧ unread rest w1 = v.render ++ t
      ∧ Leads src (call src w .peekNonSpace) ⟨w1, .returned (.ok (.byte (byte w1)))⟩
      ∧ ∀ result, Returns src ⟨w1.setMark, .value w1.setMark.mark.toNat {}⟩ result →
        Returns src (call src w .scanValue) result := by
  obtain ⟨c, cs, hhead, hc⟩ := Value.render_head v
  rw [hhead, List.cons_append] at hunread ⊢
  obtain ⟨w1, hw1, -, hunread1, hleads⟩ := peek_leads hbody hlow h ws.2 hc hunread
  refine ⟨w1, hw1, hunread1, hleads .peek, ?_⟩
  rintro result ⟨w', hw'⟩
  exact ⟨w', (hleads .value).trans hw'⟩

/-- What the loop returns from the first byte of a value that `spanValue` takes. -/
theorem value_returns (hbody : Body src rest) (hlow : low ≤ 0) (h : w.Sound low) {p : Span}
    (hspan : spanValue {} (unread rest w) = some p) :
    Returns src ⟨w.setMark, .value w.setMark.mark.toNat {}⟩ (.ok (.bytes p.raw)) := by
  have hmark : 0 ≤ w.setMark.mark := Int.natCast_nonneg _
  have hvalue := value_leads hbody hlow (h.setMark hlow) hmark hspan
  rwa [Window.kept_setMark, List.nil_append] at hvalue

/-- What the loop returns from the first byte of a scalar that ends with the body. -/
theorem value_returns_end (hbody : Body src rest) (hlow : low ≤ 0) (h : w.Sound low)
    {text : Scalar} {after : Space} (hunread : unread rest w = text.1 ++ after.1) :
    Returns src ⟨w.setMark, .value w.setMark.mark.toNat {}⟩
      (endResult (if rest w.r = [] then w.pos else 0) (text.1 ++ after.1)) := by
  have hmark : 0 ≤ w.setMark.mark := Int.natCast_nonneg _
  have hinert : ∀ b ∈ unread rest w.setMark, valueByte {} b = .next {} := by
    intro b hb
    have hmem : b ∈ unread rest w := hb
    rw [hunread] at hmem
    exact valueByte_inert (scalar_inert text after b hmem)
  have hvalue := value_end hbody hlow (h.setMark hlow) hmark hinert
  have hunread' : unread rest w.setMark = text.1 ++ after.1 := hunread
  rw [Window.kept_setMark, List.nil_append, hunread'] at hvalue
  exact hvalue

/-- Nothing is lost of a scalar at the front of the array, or whose end is yet to be read. -/
theorem lost_eq_zero_iff (h : w.Sound low) {text : Bytes} (hunread : unread rest w = text) :
    (if rest w.r = [] then w.pos else 0) = 0 ↔ w.pos = 0 ∨ w.fin - w.pos < text.length := by
  have hlength := congrArg List.length hunread
  unfold unread at hlength
  rw [List.length_append, h.length_ahead] at hlength
  by_cases hrest : rest w.r = []
  · rw [hrest, List.length_nil] at hlength
    rw [if_pos hrest]
    omega
  · have hpos := List.length_pos_iff.mpr hrest
    rw [if_neg hrest]
    omega

/-- **`scanValue` returns the bytes of the next value**, if and only if `Exact` holds where
`peekNonSpace` finds its first byte. -/
theorem scanValue_returns_iff (hbody : Body src rest) (hlow : low ≤ 0) (h : w.Sound low)
    {ws : Space} {v : Value} {after : Space} {next : Bytes}
    (hunread : unread rest w = ws.1 ++ (v.render ++ (after.1 ++ next))) (hnext : Follows next) :
    ∃ w1, Leads src (call src w .peekNonSpace) ⟨w1, .returned (.ok (.byte (byte w1)))⟩
      ∧ (Returns src (call src w .scanValue) (.ok (.bytes v.render)) ↔ Exact v after next w1) := by
  obtain ⟨w1, hw1, hunread1, hpeek, hcall⟩ := scanValue_enters hbody hlow h hunread
  refine ⟨w1, hpeek, ?_⟩
  -- a call returns once, so it is enough to know what
  have hreturns : ∀ {result : Except ScanErr Returned},
      Returns src ⟨w1.setMark, .value w1.setMark.mark.toNat {}⟩ result →
      (Returns src (call src w .scanValue) (.ok (.bytes v.render))
        ↔ result = .ok (.bytes v.render)) := by
    intro result hresult
    constructor
    · exact fun h => (hcall _ hresult).unique h
    · rintro rfl
      exact hcall _ hresult
  by_cases hscalar : isScalar v = true
  · obtain ⟨text, rfl⟩ : ∃ text, v = .scalar text := by
      cases v with
      | scalar text => exact ⟨text, rfl⟩
      | string text => cases hscalar
      | array pad elems => cases hscalar
      | object pad members => cases hscalar
    have hrender : (Value.scalar text).render = text.1 := by rw [Value.render]
    unfold Exact
    rw [forall_prop_of_true hscalar]
    rcases hnext with rfl | ⟨c, t, rfl, hterm⟩
    · rw [hrender, List.append_nil] at hunread1
      rw [hreturns (value_returns_end hbody hlow hw1 hunread1), hrender, endResult_eq_ok_iff,
        lost_eq_zero_iff hw1 hunread1, forall_prop_of_true rfl]
      constructor
      · rintro ⟨hlost, hafter⟩
        rw [hafter, List.append_nil] at hlost
        exact ⟨hafter, hlost⟩
      · rintro ⟨hafter, hlost⟩
        rw [hafter, List.append_nil]
        exact ⟨hlost, rfl⟩
    · have hspan := spanValue_value (.scalar text) after hterm t
      rw [← hunread1] at hspan
      rw [hreturns (value_returns hbody hlow hw1 hspan)]
      unfold taken
      rw [if_pos hscalar, Except.ok.injEq, Returned.bytes.injEq, List.append_right_eq_self]
      exact ⟨fun hafter => ⟨hafter, nofun⟩, fun h => h.1⟩
  · have hspan := spanValue_closed (Bool.eq_false_iff.mpr hscalar) (after.1 ++ next)
    rw [← hunread1] at hspan
    exact iff_of_true ((hreturns (value_returns hbody hlow hw1 hspan)).mpr rfl)
      fun h => absurd h hscalar

/-! ## The whole -/

/-- **The scanner, over any reader and for any calls.** The offsets are in order in every state,
if and only if no string is scanned from the front of the array. In every state the array holds
a window of what was read, from the mark on; over a reader of finitely many bytes the call at
hand returns; and `scanValue` returns the bytes of the next value of a body if and only if
`Exact` holds where its first byte is found. -/
theorem scanner_iff {ρ : Type} (src : AnyReader ρ) (r : ρ) (calls : List ScanCall) :
    ((∀ before m, before <+: calls → Visits src r before m → InOrder m.w)
        ↔ StringsInside src r calls)
    ∧ ∀ m, Visits src r calls m →
      slice m.w.buf m.w.mark.toNat m.w.fin <:+ m.w.input
      ∧ (∀ left, src.Bounded left → ∃ m', Leads src m m' ∧ m'.Idle)
      ∧ ∀ rest, Body src rest → ∀ (ws : Space) (v : Value) (after : Space) (next : Bytes),
        unread rest m.w = ws.1 ++ (v.render ++ (after.1 ++ next)) → Follows next →
        ∃ w1, Leads src (call src m.w .peekNonSpace) ⟨w1, .returned (.ok (.byte (byte w1)))⟩
          ∧ (Returns src (call src m.w .scanValue) (.ok (.bytes v.render))
            ↔ Exact v after next w1) := by
  refine ⟨inOrder_iff src r calls, fun m hm => ?_⟩
  have hsound := visits_sound hm
  exact ⟨hsound.suffix _, fun left hleft => exists_returned hleft (by decide) hsound,
    fun rest hbody ws v after next hunread hnext =>
      scanValue_returns_iff hbody (by decide) hsound hunread hnext⟩

end Machine

/-- A reader that gives all there is room for. -/
def wholeBody : AnyReader Bytes where
  read rest room := (rest.take room, if rest = [] then some .eof else none, rest.drop room)
  length_le _ _ := List.length_take_le _ _

theorem wholeBody_body : Machine.Body wholeBody id where
  split rest room := (List.take_append_drop room rest).symm
  progress rest room hroom h := by
    rcases List.take_eq_nil_iff.mp h with h | h
    · omega
    · exact h
  eof rest room h := by
    have hrest : rest = [] := h
    show fillError (if rest = [] then some .eof else none) = _
    rw [if_pos hrest]
    rfl

/-- Of the body ` 12` the value `2` is scanned. And a string scanned before anything was
consumed puts the mark in front of the array. -/
theorem scanValue_loses_digit :
    Machine.Body wholeBody id
      ∧ Machine.unread id (Machine.new [32, 49, 50]).w = [32, 49, 50]
      ∧ Machine.Returns wholeBody
        (Machine.call wholeBody (Machine.new [32, 49, 50]).w .scanValue) (.ok (.bytes [50]))
      ∧ ¬Machine.Returns wholeBody
        (Machine.call wholeBody (Machine.new [32, 49, 50]).w .scanValue) (.ok (.bytes [49, 50]))
      ∧ (Machine.call wholeBody (Machine.new [32, 49, 50]).w .scanStringRest).w.mark = -1 := by
  have hreturns : Machine.Returns wholeBody
      (Machine.call wholeBody (Machine.new [32, 49, 50]).w .scanValue) (.ok (.bytes [50])) :=
    ⟨_, 6, rfl⟩
  refine ⟨wholeBody_body, rfl, hreturns, fun h => ?_, rfl⟩
  have heq := Returned.bytes.inj (Except.ok.inj (hreturns.unique h))
  exact absurd heq (by decide)

end SolanaGo.Rpc
