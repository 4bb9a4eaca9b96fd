/-
What the splitter takes off a JSON text.

`scanValue` does not parse: it counts brackets and tracks strings. Inside a
container it therefore runs over any value and comes out in the state it went in
with (`Value.passes`, by recursion over the syntax), and so it ends a container at
its own closing bracket. A scalar has no end of its own: it is ended by the
terminator of what encloses it, and takes the white space before that with it
(`spanValue_value`).
-/
import SolanaGo.Rpc.Scanner

set_option autoImplicit false

namespace SolanaGo.Rpc

open Codec (Bytes)
open Json

/-- Put bytes in front of what was taken. -/
def prepend (bs : Bytes) (p : Span) : Span := { p with raw := bs ++ p.raw }

/-- Inside `d + 1` brackets, the bytes are taken and leave no trace. -/
def Passes (d : ℕ) (bs : Bytes) : Prop :=
  ∀ t, spanValue { depth := d + 1 } (bs ++ t)
    = (spanValue { depth := d + 1 } t).map (prepend bs)

section Passes

variable {d : ℕ} {bs bs' : Bytes}

theorem Passes.nil : Passes d [] := by
  intro t
  have hid : prepend [] = id := rfl
  rw [List.nil_append, hid, Option.map_id, id]

theorem Passes.append (h : Passes d bs) (h' : Passes d bs') : Passes d (bs ++ bs') := by
  intro t
  rw [List.append_assoc, h, h', Option.map_map]
  congr 1
  funext p
  unfold prepend
  rw [Function.comp, List.append_assoc]

/-- A byte that neither opens nor closes anything. -/
def isInert (c : UInt8) : Bool :=
  !(c == quote || c == openBrace || c == closeBrace || c == openBracket || c == closeBracket)

theorem Passes.cons {c : UInt8} (hc : isInert c = true) (h : Passes d bs) :
    Passes d (c :: bs) := by
  intro t
  have hstep : valueByte { depth := d + 1 } c = .next { depth := d + 1 } := by
    unfold isInert at hc
    unfold valueByte
    simp only [Bool.not_eq_true', Bool.or_eq_false_iff, beq_eq_false_iff_ne] at hc
    obtain ⟨⟨⟨⟨h1, h2⟩, h3⟩, h4⟩, h5⟩ := hc
    simp [h1, h2, h3, h4, h5]
  rw [List.cons_append, spanValue, hstep]
  dsimp only
  rw [h, Option.map_map]
  rfl

theorem Passes.of_all {p : UInt8 → Bool} (hp : ∀ c, p c = true → isInert c = true)
    (h : bs.all p = true) : Passes d bs := by
  induction bs with
  | nil => exact Passes.nil
  | cons c cs ih =>
    rw [List.all_cons, Bool.and_eq_true] at h
    exact Passes.cons (hp c h.1) (ih h.2)

theorem isInert_of_isSpace {c : UInt8} (h : isSpace c = true) : isInert c = true := by
  unfold isSpace at h
  simp only [Bool.or_eq_true, beq_iff_eq] at h
  obtain ((rfl | rfl) | rfl) | rfl := h <;> rfl

theorem isInert_of_isScalarByte {c : UInt8} (h : isScalarByte c = true) : isInert c = true := by
  unfold isScalarByte at h
  unfold isInert
  simp only [Bool.not_eq_true', Bool.or_eq_false_iff] at h ⊢
  obtain ⟨⟨⟨⟨⟨⟨⟨_, h1⟩, h2⟩, h3⟩, h4⟩, h5⟩, _⟩, _⟩ := h
  exact ⟨⟨⟨⟨h1, h2⟩, h3⟩, h4⟩, h5⟩

theorem Passes.space (ws : Space) : Passes d ws.1 :=
  Passes.of_all (fun _ => isInert_of_isSpace) ws.2

/-- Inside a string, its contents are taken and leave no trace. -/
theorem spanValue_text {n : ℕ} {text : Bytes} (h : isStringText text = true) (t : Bytes) :
    spanValue { depth := n, inString := true } (text ++ t)
      = (spanValue { depth := n, inString := true } t).map (prepend text) := by
  have hplain : ∀ c, c ≠ quote → c ≠ backslash →
      valueByte { depth := n, inString := true } c = .next { depth := n, inString := true } := by
    intro c hq hb
    unfold valueByte
    simp [hq, hb]
  fun_induction isStringText text with
  | case1 => exact Option.map_id'.symm
  | case2 c =>
    simp only [Bool.and_eq_true, bne_iff_ne] at h
    rw [List.singleton_append, spanValue, hplain c h.1 h.2]
    rfl
  | case3 c c' cs hesc ih =>
    -- The escaped byte goes with its backslash.
    rw [beq_iff_eq] at hesc
    have hc : valueByte { depth := n, inString := true } c
        = .next { depth := n, inString := true, escaped := true } := by
      rw [hesc]; rfl
    have hc' : valueByte { depth := n, inString := true, escaped := true } c'
        = .next { depth := n, inString := true } := rfl
    rw [List.cons_append, List.cons_append, spanValue, hc]
    dsimp only
    rw [spanValue, hc']
    dsimp only
    rw [ih h, Option.map_map, Option.map_map]
    rfl
  | case4 c c' cs hesc ih =>
    rw [beq_iff_eq] at hesc
    rw [Bool.and_eq_true, bne_iff_ne] at h
    rw [List.cons_append, spanValue, hplain c h.1 hesc]
    dsimp only
    rw [ih h.2, Option.map_map]
    rfl

/-- A string inside a container. -/
theorem Passes.string (text : Text) : Passes d (quote :: (text.1 ++ [quote])) := by
  intro t
  have hopen : valueByte { depth := d + 1 } quote
      = .next { depth := d + 1, inString := true } := rfl
  have hclose : valueByte { depth := d + 1, inString := true } quote
      = .next { depth := d + 1 } := rfl
  rw [List.cons_append, List.append_assoc, spanValue, hopen]
  dsimp only
  rw [spanValue_text text.2, List.singleton_append, spanValue, hclose]
  dsimp only
  rw [Option.map_map, Option.map_map]
  congr 1
  funext p
  simp [prepend, Function.comp]

/-- A container inside a container. -/
theorem Passes.group {o c : UInt8} (ho : o = openBrace ∨ o = openBracket)
    (hc : c = closeBrace ∨ c = closeBracket) (h : Passes (d + 1) bs) :
    Passes d (o :: (bs ++ [c])) := by
  intro t
  have hopen : valueByte { depth := d + 1 } o = .next { depth := d + 2 } := by
    rcases ho with rfl | rfl <;> rfl
  have hclose : valueByte { depth := d + 2 } c = .next { depth := d + 1 } := by
    rcases hc with rfl | rfl <;> rfl
  rw [List.cons_append, List.append_assoc, spanValue, hopen]
  dsimp only
  rw [h, List.singleton_append, spanValue, hclose]
  dsimp only
  rw [Option.map_map, Option.map_map]
  congr 1
  funext p
  simp [prepend, Function.comp]

/-- The text of a member, over that of its value. -/
theorem Passes.member (m : Member Value) (h : Passes d bs) : Passes d (m.text bs) := by
  have hvalue := (Passes.space m.beforeValue).append (h.append (Passes.space m.after))
  have hcolon := (Passes.space m.mid).append (Passes.cons (c := colon) rfl hvalue)
  have hkey := (Passes.string m.key).append hcolon
  have hall := (Passes.space (d := d) m.before).append hkey
  unfold Member.text
  rw [List.cons_append, List.append_assoc, List.singleton_append] at hall
  exact hall

end Passes

/-! ## Values -/

mutual

/-- **Every value passes.** -/
theorem Value.passes : (v : Value) → (d : ℕ) → Passes d v.render
  | .scalar text, _ => by
    rw [Value.render]
    exact Passes.of_all (fun _ => isInert_of_isScalarByte) text.2.2
  | .string text, _ => by
    rw [Value.render]
    exact Passes.string text
  | .array pad elems, d => by
    rw [Value.render]
    exact Passes.group (Or.inr rfl) (Or.inr rfl) (renderElements_passes pad elems (d + 1))
  | .object pad members, d => by
    rw [Value.render]
    exact Passes.group (Or.inl rfl) (Or.inl rfl) (renderMembers_passes pad members (d + 1))

theorem renderElements_passes (pad : Space) :
    (elems : List (Element Value)) → (d : ℕ) → Passes d (renderElements pad elems)
  | [], _ => by
    rw [renderElements]
    exact Passes.space pad
  | ⟨before, value, after⟩ :: elems, d => by
    rw [renderElements]
    exact (Passes.space before).append ((Value.passes value d).append
      ((Passes.space after).append (moreElements_passes elems d)))

theorem moreElements_passes :
    (elems : List (Element Value)) → (d : ℕ) → Passes d (moreElements elems)
  | [], _ => by
    rw [moreElements]
    exact Passes.nil
  | ⟨before, value, after⟩ :: elems, d => by
    rw [moreElements]
    exact Passes.cons rfl ((Passes.space before).append ((Value.passes value d).append
      ((Passes.space after).append (moreElements_passes elems d))))

theorem renderMembers_passes (pad : Space) :
    (members : List (Member Value)) → (d : ℕ) → Passes d (renderMembers pad members)
  | [], _ => by
    rw [renderMembers]
    exact Passes.space pad
  | ⟨before, key, mid, beforeValue, value, after⟩ :: members, d => by
    rw [renderMembers]
    exact (Passes.member _ (Value.passes value d)).append (moreMembers_passes members d)

theorem moreMembers_passes :
    (members : List (Member Value)) → (d : ℕ) → Passes d (moreMembers members)
  | [], _ => by
    rw [moreMembers]
    exact Passes.nil
  | ⟨before, key, mid, beforeValue, value, after⟩ :: members, d => by
    rw [moreMembers]
    exact Passes.cons rfl
      ((Passes.member _ (Value.passes value d)).append (moreMembers_passes members d))

end

/-- A container ends at its own bracket. -/
theorem spanValue_group {o c : UInt8} {bs : Bytes} (ho : o = openBrace ∨ o = openBracket)
    (hc : c = closeBrace ∨ c = closeBracket) (h : Passes 0 bs) (t : Bytes) :
    spanValue {} (o :: (bs ++ [c]) ++ t) = some ⟨o :: (bs ++ [c]), t, false⟩ := by
  have hopen : valueByte {} o = .next { depth := 1 } := by rcases ho with rfl | rfl <;> rfl
  have hclose : valueByte { depth := 1 } c = .endAfter := by rcases hc with rfl | rfl <;> rfl
  rw [List.cons_append, List.append_assoc, spanValue, hopen]
  dsimp only
  rw [h, List.singleton_append, spanValue, hclose]
  rfl

/-- Being an object. -/
def IsObject : Value → Prop
  | .object _ _ => True
  | _ => False

/-- The bytes that end what is not a container. -/
def IsTerminator (c : UInt8) : Prop := c = comma ∨ c = closeBrace ∨ c = closeBracket

/-- Outside of all containers, a byte that means nothing is taken. -/
theorem valueByte_inert {b : UInt8} (h : isInert b = true ∧ b ≠ comma) :
    valueByte {} b = .next {} := by
  obtain ⟨hinert, hcomma⟩ := h
  unfold isInert at hinert
  simp only [Bool.not_eq_true', Bool.or_eq_false_iff, beq_eq_false_iff_ne] at hinert
  obtain ⟨⟨⟨⟨h1, h2⟩, h3⟩, h4⟩, h5⟩ := hinert
  unfold valueByte
  simp [h1, h2, h3, h4, h5, hcomma]

/-- Outside of all containers, bytes that mean nothing are taken up to a terminator. -/
theorem spanValue_inert {bs : Bytes} (h : ∀ b ∈ bs, isInert b = true ∧ b ≠ comma) {c : UInt8}
    (hc : IsTerminator c) (t : Bytes) :
    spanValue {} (bs ++ c :: t) = some ⟨bs, c :: t, true⟩ := by
  induction bs with
  | nil =>
    have hend : valueByte {} c = .endBefore := by rcases hc with rfl | rfl | rfl <;> rfl
    rw [List.nil_append, spanValue, hend]
  | cons b bs ih =>
    rw [List.cons_append, spanValue, valueByte_inert (h b List.mem_cons_self)]
    dsimp only
    rw [ih fun b hb => h b (List.mem_cons_of_mem _ hb)]
    rfl

theorem isSpace_ne_comma {c : UInt8} (h : isSpace c = true) : c ≠ comma := by
  rintro rfl
  exact absurd h (by decide)

theorem isScalarByte_ne_comma {c : UInt8} (h : isScalarByte c = true) : c ≠ comma := by
  rintro rfl
  exact absurd h (by decide)

/-- A value that is not a scalar has an end of its own. -/
theorem spanValue_closed {v : Value} (h : isScalar v = false) (t : Bytes) :
    spanValue {} (v.render ++ t) = some ⟨v.render, t, false⟩ := by
  cases v with
  | scalar text => cases h
  | string text =>
    have hopen : valueByte {} quote = .next { inString := true } := rfl
    have hclose : valueByte { inString := true } quote = .endAfter := rfl
    rw [Value.render, List.cons_append, List.append_assoc, spanValue, hopen]
    dsimp only
    rw [spanValue_text text.2, List.singleton_append, spanValue, hclose]
    rfl
  | array pad elems =>
    rw [Value.render]
    exact spanValue_group (Or.inr rfl) (Or.inr rfl) (renderElements_passes pad elems 0) t
  | object pad members =>
    rw [Value.render]
    exact spanValue_group (Or.inl rfl) (Or.inl rfl) (renderMembers_passes pad members 0) t

/-- The bytes of a scalar and of white space open and close nothing. -/
theorem scalar_inert (text : Scalar) (after : Space) :
    ∀ b ∈ text.1 ++ after.1, isInert b = true ∧ b ≠ comma := by
  intro b hb
  rcases List.mem_append.mp hb with hb | hb
  · have hscalar := List.all_eq_true.mp text.2.2 b hb
    exact ⟨isInert_of_isScalarByte hscalar, isScalarByte_ne_comma hscalar⟩
  · have hspace := List.all_eq_true.mp after.2 b hb
    exact ⟨isInert_of_isSpace hspace, isSpace_ne_comma hspace⟩

/-- **One value off a text.** The splitter takes the value, and the white space behind
it if it is a scalar. -/
theorem spanValue_value (v : Value) (after : Space) {c : UInt8} (hc : IsTerminator c) (t : Bytes) :
    spanValue {} (v.render ++ (after.1 ++ c :: t))
      = some ⟨taken v after, blanksAfter v after ++ c :: t, isScalar v⟩ := by
  unfold taken blanksAfter
  cases hscalar : isScalar v with
  | true =>
    cases v with
    | scalar text =>
      rw [Value.render, ← List.append_assoc]
      exact spanValue_inert (scalar_inert text after) hc t
    | string text => cases hscalar
    | array pad elems => cases hscalar
    | object pad members => cases hscalar
  | false =>
    rw [spanValue_closed hscalar]
    simp

theorem blanksAfter_isSpace (v : Value) (after : Space) :
    (blanksAfter v after).all isJSONSpace = true := by
  unfold blanksAfter
  split
  · rfl
  · exact after.2

theorem taken_of_isObject {v : Value} (h : IsObject v) (after : Space) :
    taken v after = v.render := by
  cases v with
  | object pad members => exact List.append_nil _
  | scalar text => exact h.elim
  | string text => exact h.elim
  | array pad elems => exact h.elim

/-- A value starts with a byte that is not white space. -/
theorem Value.render_head (v : Value) : ∃ c cs, v.render = c :: cs ∧ isSpace c = false := by
  cases v with
  | scalar text =>
    rw [Value.render]
    cases htext : text.1 with
    | nil => exact absurd htext text.2.1
    | cons c cs =>
      have hall := text.2.2
      rw [htext, List.all_cons, Bool.and_eq_true] at hall
      refine ⟨c, cs, rfl, ?_⟩
      have hc := hall.1
      unfold isScalarByte at hc
      simp only [Bool.not_eq_true', Bool.or_eq_false_iff] at hc
      exact hc.1.1.1.1.1.1.1
  | string text => exact ⟨_, _, by rw [Value.render], rfl⟩
  | array pad elems => exact ⟨_, _, by rw [Value.render], rfl⟩
  | object pad members => exact ⟨_, _, by rw [Value.render], rfl⟩

/-- **`scanValue` on a value.** It takes the value and stops in front of the terminator,
or the white space before it. -/
theorem scanValue_value {s : Scanner} {ws : Space} {v : Value} {after : Space} {c : UInt8}
    {t : Bytes} (h : s.Inv) (hc : IsTerminator c)
    (hunread : s.unread = ws.1 ++ (v.render ++ (after.1 ++ c :: t))) :
    ∃ s', scanValue s = (.ok (taken v after), s')
      ∧ s.Reaches (blanksAfter v after ++ c :: t)
        (s.cursor.value s.feed ws.1.length v after) s' := by
  have hspan := spanValue_value v after hc t
  obtain ⟨c0, cs, hhead, hc0⟩ := Value.render_head v
  rw [hhead, List.cons_append] at hunread hspan
  exact scanValue_ok h ws.2 hc0 hunread hspan

/-- A key without escapes is taken up to its closing quote. -/
theorem spanString_plain {key : Bytes} (h : ∀ c ∈ key, c ≠ quote ∧ c ≠ backslash) (t : Bytes) :
    spanString false (key ++ quote :: t) = some (key, t) := by
  induction key with
  | nil => rfl
  | cons c cs ih =>
    obtain ⟨hquote, hback⟩ := h c List.mem_cons_self
    rw [List.cons_append, spanString, if_neg hquote, beq_false_of_ne hback,
      ih fun c hc => h c (List.mem_cons_of_mem _ hc)]
    rfl

end SolanaGo.Rpc
