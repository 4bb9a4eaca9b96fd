/-
Strings of JSON, decoded.

`unescape` is what the contents of a string stand for: the escapes are replaced, two escaped
surrogates by one character, and a surrogate alone is refused. `StringText` and `PairText`
are the texts of RFC 8259 for a string and for an array of two strings, with what they stand
for; a text stands for one string or pair only (`StringText.unique`, `PairText.unique`).

Contents without a backslash, a quote and control characters are `Clean`. They are contents
of a string if they are UTF-8, and stand for themselves.
-/
import SolanaGo.Lib.JsonReader

set_option autoImplicit false

namespace Utf8

open Codec (Bytes)

theorem isTail_of_lt {c : UInt8} (hc : c < 0x80) : isTail c = false := by
  unfold isTail
  have hnot : ¬0x80 ≤ c := UInt8.not_le.mpr hc
  simp [hnot]

theorem isSecond_of_lt {c : UInt8} (hc : c < 0x80) (a : UInt8) : isSecond a c = false := by
  have h80 : ¬0x80 ≤ c := UInt8.not_le.mpr hc
  have hA0 : ¬0xA0 ≤ c := fun h => h80 (UInt8.le_trans (by decide) h)
  have h90 : ¬0x90 ≤ c := fun h => h80 (UInt8.le_trans (by decide) h)
  unfold isSecond isTail
  simp [h80, hA0, h90]

/-- **ASCII does not stand inside a character**, so UTF-8 can be cut there. -/
theorem isUtf8_append {a b : Bytes} {c : UInt8} (hc : c < 0x80)
    (h : isUtf8 (a ++ c :: b) = true) : isUtf8 a = true ∧ isUtf8 b = true := by
  have htail := isTail_of_lt hc
  have hsecond := isSecond_of_lt hc
  -- one case for each way a character can start in `a`, whole or cut off by `c`
  induction a using isUtf8.induct with
  | case1 =>
    rw [List.nil_append, isUtf8.eq_def] at h
    simp only [hc, if_true] at h
    exact ⟨rfl, h⟩
  | case2 x rest hx ih =>
    rw [List.cons_append, isUtf8.eq_def] at h
    rw [isUtf8.eq_def]
    simp only [hx, if_true] at h ⊢
    exact ih h
  | case3 x hx =>
    exfalso
    rw [List.cons_append, isUtf8.eq_def] at h
    simp only [hx, if_false, List.nil_append, htail, hsecond] at h
    cases b with
    | nil => simp at h
    | cons b1 b =>
      cases b with
      | nil => simp at h
      | cons b2 b => simp at h
  | case4 x hx y rest hrange ih =>
    rw [List.cons_append, List.cons_append, isUtf8.eq_def] at h
    rw [isUtf8.eq_def]
    simp only [hx, if_false, hrange, if_true, Bool.and_eq_true] at h ⊢
    exact ⟨⟨h.1, (ih h.2).1⟩, (ih h.2).2⟩
  | case5 x hx y hrange =>
    exfalso
    rw [List.cons_append, List.cons_append, isUtf8.eq_def] at h
    simp only [hx, if_false, hrange, List.nil_append, htail] at h
    cases b with
    | nil => simp at h
    | cons b1 b => simp at h
  | case6 x hx y hrange z rest hrange' ih =>
    rw [List.cons_append, List.cons_append, List.cons_append, isUtf8.eq_def] at h
    rw [isUtf8.eq_def]
    simp only [hx, if_false, hrange, hrange', Bool.false_eq_true, if_true,
      Bool.and_eq_true] at h ⊢
    exact ⟨⟨h.1, (ih h.2).1⟩, (ih h.2).2⟩
  | case7 x hx y hrange z hrange' =>
    exfalso
    rw [List.cons_append, List.cons_append, List.cons_append, isUtf8.eq_def] at h
    simp [hx, hrange, hrange', htail] at h
  | case8 x hx y hrange z hrange' w rest ih =>
    rw [List.cons_append, List.cons_append, List.cons_append, List.cons_append,
      isUtf8.eq_def] at h
    rw [isUtf8.eq_def]
    simp only [hx, if_false, hrange, hrange', Bool.false_eq_true, Bool.and_eq_true] at h ⊢
    exact ⟨⟨h.1, (ih h.2).1⟩, (ih h.2).2⟩

end Utf8

namespace Json

open Codec (Bytes)
open Utf8

/-! ## Escapes -/

/-- The value of a hexadecimal digit. -/
def hexValue (c : UInt8) : ℕ :=
  if isDigit c then c.toNat - 48 else if c < 97 then c.toNat - 55 else c.toNat - 87

/-- The value of four hexadecimal digits. -/
def hexCode (h1 h2 h3 h4 : UInt8) : ℕ :=
  ((hexValue h1 * 16 + hexValue h2) * 16 + hexValue h3) * 16 + hexValue h4

/-- A code point in UTF-8. -/
def utf8Encode (code : ℕ) : Bytes :=
  if code < 0x80 then [UInt8.ofNat code]
  else if code < 0x800 then [UInt8.ofNat (0xC0 + code / 64), UInt8.ofNat (0x80 + code % 64)]
  else if code < 0x10000 then
    [UInt8.ofNat (0xE0 + code / 4096), UInt8.ofNat (0x80 + code / 64 % 64),
      UInt8.ofNat (0x80 + code % 64)]
  else
    [UInt8.ofNat (0xF0 + code / 262144), UInt8.ofNat (0x80 + code / 4096 % 64),
      UInt8.ofNat (0x80 + code / 64 % 64), UInt8.ofNat (0x80 + code % 64)]

/-- What a one-byte escape stands for. -/
def escaped (e : UInt8) : Option UInt8 :=
  if e = quote ∨ e = backslash ∨ e = 47 then some e
  else if e = 98 then some 8
  else if e = 102 then some 12
  else if e = 110 then some 10
  else if e = 114 then some 13
  else if e = 116 then some 9
  else none

/-- **What the contents of a string stand for.** -/
def unescape : Bytes → Option Bytes
  | [] => some []
  | c :: cs =>
    if c = backslash then
      match cs with
      | [] => none
      | e :: cs =>
        if e = 117 then
          match cs with
          | h1 :: h2 :: h3 :: h4 :: cs =>
            let code := hexCode h1 h2 h3 h4
            if 0xD800 ≤ code ∧ code < 0xDC00 then
              -- the other surrogate has to follow
              match cs with
              | b :: u :: l1 :: l2 :: l3 :: l4 :: cs =>
                let low := hexCode l1 l2 l3 l4
                if b = backslash ∧ u = 117 ∧ 0xDC00 ≤ low ∧ low < 0xE000 then
                  (unescape cs).map
                    (utf8Encode (0x10000 + (code - 0xD800) * 1024 + (low - 0xDC00)) ++ ·)
                else none
              | _ => none
            else if 0xDC00 ≤ code ∧ code < 0xE000 then none
            else (unescape cs).map (utf8Encode code ++ ·)
          | _ => none
        else (escaped e).bind fun d => (unescape cs).map (d :: ·)
    else (unescape cs).map (c :: ·)

/-! ## Texts -/

/-- A text of RFC 8259 for a string, and what it stands for. -/
def StringText (data s : Bytes) : Prop :=
  ∃ (lead trail : Space) (text : Text),
    data = lead.1 ++ ((Value.string text).render ++ trail.1)
      ∧ (Value.string text).valid = true ∧ unescape text.1 = some s

/-- A text of RFC 8259 for an array of two strings, and what they stand for. -/
def PairText (data first second : Bytes) : Prop :=
  ∃ (lead trail pad before after before' after' : Space) (text text' : Text),
    data = lead.1 ++ ((Value.array pad
        [⟨before, .string text, after⟩, ⟨before', .string text', after'⟩]).render ++ trail.1)
      ∧ (Value.array pad
        [⟨before, .string text, after⟩, ⟨before', .string text', after'⟩]).valid = true
      ∧ unescape text.1 = some first ∧ unescape text'.1 = some second

theorem render_string (text : Text) :
    (Value.string text).render = quote :: (text.1 ++ [quote]) := by
  rw [Value.render]

theorem render_string_inj {text text' : Text}
    (h : (Value.string text).render = (Value.string text').render) : text.1 = text'.1 := by
  rw [render_string, render_string] at h
  exact List.append_cancel_right (List.cons.inj h).2

/-- **A text stands for one string.** -/
theorem StringText.unique {data s s' : Bytes} (h : StringText data s) (h' : StringText data s') :
    s = s' := by
  obtain ⟨lead, trail, text, rfl, -, hs⟩ := h
  obtain ⟨lead', trail', text', hdata, -, hs'⟩ := h'
  rw [render_string, render_string] at hdata
  simp only [List.cons_append, List.append_assoc] at hdata
  have hskip := congrArg skipSpace hdata
  rw [skipSpace_append lead (by decide), skipSpace_append lead' (by decide)] at hskip
  have hinside := (List.cons.inj hskip).2
  have hbehind := congrArg skipString hinside
  rw [List.nil_append, List.nil_append, skipString_text text.2, skipString_text text'.2] at hbehind
  have htrail : trail.1 = trail'.1 := Option.some.inj hbehind
  rw [htrail] at hinside
  have htext : text.1 = text'.1 := List.append_cancel_right hinside
  rw [htext, hs'] at hs
  exact (Option.some.inj hs).symm

/-- **A text stands for one pair of strings.** -/
theorem PairText.unique {data first second first' second' : Bytes}
    (h : PairText data first second) (h' : PairText data first' second') :
    first = first' ∧ second = second' := by
  obtain ⟨lead, trail, pad, before1, after1, before2, after2, text1, text2, rfl, -, hs1, hs2⟩ := h
  obtain ⟨lead', trail', pad', before1', after1', before2', after2', text1', text2', hdata, -,
    hs1', hs2'⟩ := h'
  have htexts := congrArg arrayTexts hdata
  rw [arrayTexts_render, arrayTexts_render] at htexts
  obtain ⟨hfirst, hrest⟩ := List.cons.inj (Option.some.inj htexts)
  obtain ⟨hsecond, -⟩ := List.cons.inj hrest
  rw [render_string_inj hfirst, hs1'] at hs1
  rw [render_string_inj hsecond, hs2'] at hs2
  exact ⟨(Option.some.inj hs1).symm, (Option.some.inj hs2).symm⟩

/-! ## Clean contents -/

/-- A byte that needs no escape. -/
def isClean (c : UInt8) : Bool := !(c == backslash || c == quote || c < 0x20)

/-- Contents without escapes. -/
def Clean (text : Bytes) : Prop := ∀ c ∈ text, isClean c = true

instance (text : Bytes) : Decidable (Clean text) :=
  inferInstanceAs (Decidable (∀ c ∈ text, isClean c = true))

theorem isClean_iff {c : UInt8} :
    isClean c = true ↔ c ≠ backslash ∧ c ≠ quote ∧ ¬c < 0x20 := by
  unfold isClean
  simp only [Bool.not_eq_true', Bool.or_eq_false_iff, beq_eq_false_iff_ne, decide_eq_false_iff_not]
  tauto

theorem Clean.tail {c : UInt8} {text : Bytes} (h : Clean (c :: text)) : Clean text :=
  fun d hd => h d (List.mem_cons_of_mem _ hd)

theorem Clean.isStringText {text : Bytes} (h : Clean text) : isStringText text = true := by
  induction text with
  | nil => rfl
  | cons c text ih =>
    obtain ⟨hback, hquote, -⟩ := isClean_iff.mp (h c List.mem_cons_self)
    cases text with
    | nil => simp [Json.isStringText, hback, hquote]
    | cons d text =>
      rw [Json.isStringText, if_neg (by simpa using hback), ih h.tail]
      simp [hquote]

theorem Clean.isChars {text : Bytes} (h : Clean text) : isChars text = true := by
  induction text with
  | nil => rfl
  | cons c text ih =>
    obtain ⟨hback, hquote, hcontrol⟩ := isClean_iff.mp (h c List.mem_cons_self)
    have hlow : 0x20 ≤ c := UInt8.not_lt.mp hcontrol
    rw [Json.isChars.eq_def]
    simp [hback, hquote, hlow, ih h.tail]

/-- **Clean contents stand for themselves.** -/
theorem Clean.unescape {text : Bytes} (h : Clean text) : unescape text = some text := by
  induction text with
  | nil => rfl
  | cons c text ih =>
    obtain ⟨hback, -, -⟩ := isClean_iff.mp (h c List.mem_cons_self)
    rw [Json.unescape.eq_def]
    simp [hback, ih h.tail]

theorem Clean.isString {text : Bytes} (h : Clean text) (hutf8 : isUtf8 text = true) :
    isString text = true := by
  unfold Json.isString
  rw [h.isChars, hutf8]
  rfl

/-- Clean contents, as those of a string. -/
def Clean.text {text : Bytes} (h : Clean text) : Text := ⟨text, h.isStringText⟩

theorem Clean.render {text : Bytes} (h : Clean text) :
    (Value.string h.text).render = quote :: (text ++ [quote]) := render_string h.text

theorem Clean.valid {text : Bytes} (h : Clean text) (hutf8 : isUtf8 text = true) :
    (Value.string h.text).valid = true := (valid_string h.text).trans (h.isString hutf8)

end Json
