/-
The JSON grammar of RFC 8259, over the syntax trees of `Json.lean`.

The trees there are looser than the standard: a scalar is any run of plain bytes and a
backslash may be followed by anything. `Value.valid` asks for what the standard asks for:
a scalar is a number or one of the three literal names, a string is UTF-8 without control
characters and with the escapes that exist.

Programs that write JSON by hand write it without white space, as lists of texts joined by
commas. `commaSeparated`, `compactArray` and `compactObject` are such texts, and what is put
together from valid texts is valid (`ValidText.array`, `ValidText.object`).
-/
import Mathlib.Data.List.TakeWhile
import Mathlib.Data.Nat.Digits.Lemmas
import SolanaGo.Lib.Json
import SolanaGo.Lib.Utf8

set_option autoImplicit false

namespace Json

open Codec (Bytes)
open Utf8

/-! ## Numbers and literal names -/

/-- `DIGIT`. -/
def isDigit (c : UInt8) : Bool := 48 ≤ c && c ≤ 57

/-- `1*DIGIT`. -/
def isDigits (cs : Bytes) : Bool := !cs.isEmpty && cs.all isDigit

/-- `[ exp ]`. -/
def isExponent : Bytes → Bool
  | [] => true
  | c :: cs => (c == 101 || c == 69) &&
    match cs with
    | [] => false
    | sign :: ds => if sign == 43 || sign == 45 then isDigits ds else isDigits (sign :: ds)

/-- `[ frac ] [ exp ]`. -/
def isFraction : Bytes → Bool
  | [] => true
  | c :: cs =>
    if c == 46 then isDigits (cs.takeWhile isDigit) && isExponent (cs.dropWhile isDigit)
    else isExponent (c :: cs)

/-- `int [ frac ] [ exp ]`: a zero stands alone. -/
def isUnsigned : Bytes → Bool
  | [] => false
  | c :: cs =>
    if c == 48 then isFraction cs else isDigit c && isFraction (cs.dropWhile isDigit)

/-- `number`. -/
def isNumber : Bytes → Bool
  | [] => false
  | c :: cs => if c == 45 then isUnsigned cs else isUnsigned (c :: cs)

/-- The text `null`. -/
def nullText : Bytes := [110, 117, 108, 108]

/-- `false / null / true`. -/
def isLiteral (cs : Bytes) : Bool :=
  cs == [102, 97, 108, 115, 101] || cs == nullText || cs == [116, 114, 117, 101]

/-! ## Strings -/

/-- `HEXDIG`, in either case. -/
def isHex (c : UInt8) : Bool := isDigit c || (65 ≤ c && c ≤ 70) || (97 ≤ c && c ≤ 102)

/-- The one-byte escapes. -/
def isEscape (c : UInt8) : Bool :=
  c == quote || c == backslash || c == 47 || c == 98 || c == 102 || c == 110 || c == 114 || c == 116

/-- `*char`: control characters and quotes are escaped, with the escapes that exist. -/
def isChars : Bytes → Bool
  | [] => true
  | c :: cs =>
    if c == backslash then
      match cs with
      | [] => false
      | e :: cs =>
        if e == 117 then
          match cs with
          | h1 :: h2 :: h3 :: h4 :: cs => isHex h1 && isHex h2 && isHex h3 && isHex h4 && isChars cs
          | _ => false
        else isEscape e && isChars cs
    else 0x20 ≤ c && c != quote && isChars cs

/-- The contents of a `string`. -/
def isString (cs : Bytes) : Bool := isChars cs && isUtf8 cs

/-! ## Values -/

mutual

/-- `value`. -/
def Value.valid : Value → Bool
  | .scalar text => isNumber text.1 || isLiteral text.1
  | .string text => isString text.1
  | .array _ elems => validElements elems
  | .object _ members => validMembers members

/-- The values of an array. -/
def validElements : List (Element Value) → Bool
  | [] => true
  | ⟨_, value, _⟩ :: elems => value.valid && validElements elems

/-- The members of an object. -/
def validMembers : List (Member Value) → Bool
  | [] => true
  | ⟨_, key, _, _, value, _⟩ :: members => isString key.1 && (value.valid && validMembers members)

end

theorem valid_scalar (text : Scalar) :
    (Value.scalar text).valid = (isNumber text.1 || isLiteral text.1) := by
  rw [Value.valid]

theorem valid_string (text : Text) : (Value.string text).valid = isString text.1 := by
  rw [Value.valid]

theorem validElements_iff (elems : List (Element Value)) :
    validElements elems = true ↔ ∀ e ∈ elems, e.value.valid = true := by
  induction elems with
  | nil => simp [validElements]
  | cons e elems ih =>
    cases e
    simp [validElements, ih]

theorem validMembers_iff (members : List (Member Value)) :
    validMembers members = true
      ↔ ∀ m ∈ members, isString m.key.1 = true ∧ m.value.valid = true := by
  induction members with
  | nil => simp [validMembers]
  | cons m members ih =>
    cases m
    simp [validMembers, ih, and_assoc]

/-- **Valid JSON**, without white space around it. -/
def ValidText (text : Bytes) : Prop := ∃ v : Value, v.valid = true ∧ v.render = text

/-! ## Strings without escapes -/

/-- An ASCII character that needs no escape. -/
def isPlain (c : UInt8) : Bool := 0x20 ≤ c && c < 0x80 && c != quote && c != backslash

/-- Text that needs no escape. -/
def Plain (text : Bytes) : Prop := ∀ c ∈ text, isPlain c = true

instance (text : Bytes) : Decidable (Plain text) :=
  List.decidableBAll (fun c => isPlain c = true) text

theorem isPlain_iff {c : UInt8} :
    isPlain c = true ↔ ((0x20 ≤ c ∧ c < 0x80) ∧ c ≠ quote) ∧ c ≠ backslash := by
  simp [isPlain]

theorem Plain.isString {text : Bytes} (h : Plain text) : isString text = true := by
  induction text with
  | nil => rfl
  | cons c cs ih =>
    obtain ⟨⟨⟨hlow, hhigh⟩, hquote⟩, hback⟩ := isPlain_iff.mp (h c List.mem_cons_self)
    have hrest := ih fun c' hc' => h c' (List.mem_cons_of_mem _ hc')
    unfold Json.isString at hrest ⊢
    rw [Bool.and_eq_true] at hrest ⊢
    refine ⟨?_, ?_⟩
    · rw [isChars.eq_def]
      simp [hback, hlow, hquote, hrest.1]
    · rw [isUtf8.eq_def]
      simp [hhigh, hrest.2]

theorem Plain.isStringText {text : Bytes} (h : Plain text) : isStringText text = true := by
  fun_induction Json.isStringText text with
  | case1 => rfl
  | case2 c =>
    have hc := isPlain_iff.mp (h c List.mem_cons_self)
    simp [hc.1.2, hc.2]
  | case3 c c' cs hback ih =>
    have hc := isPlain_iff.mp (h c List.mem_cons_self)
    exact absurd (beq_iff_eq.mp hback) hc.2
  | case4 c c' cs hback ih =>
    have hc := isPlain_iff.mp (h c List.mem_cons_self)
    simp [hc.1.2, ih fun c' hc' => h c' (List.mem_cons_of_mem _ hc')]

/-- Text in quotes. -/
def quoted (text : Bytes) : Bytes := quote :: (text ++ [quote])

theorem ValidText.string {text : Bytes} (h : Plain text) : ValidText (quoted text) := by
  have hrender (t : Text) : (Value.string t).render = quoted t.1 := by
    rw [Value.render]
    rfl
  exact ⟨.string ⟨text, h.isStringText⟩, (valid_string _).trans h.isString, hrender _⟩

/-! ## Whole numbers -/

/-- A number in decimal. -/
def decimal (n : ℕ) : Bytes :=
  if n = 0 then [48] else (Nat.digits 10 n).reverse.map fun d => UInt8.ofNat (48 + d)

theorem isDigit_ofNat {d : ℕ} (hd : d < 10) : isDigit (UInt8.ofNat (48 + d)) = true := by
  have hall : ∀ d < 10, isDigit (UInt8.ofNat (48 + d)) = true := by decide
  exact hall d hd

theorem decimal_digits (n : ℕ) : ∀ c ∈ decimal n, isDigit c = true := by
  intro c hc
  unfold decimal at hc
  split at hc
  · rw [List.mem_singleton.mp hc]
    decide
  · obtain ⟨d, hd, rfl⟩ := List.mem_map.mp hc
    exact isDigit_ofNat (Nat.digits_lt_base (by decide) (List.mem_reverse.mp hd))

/-- A number has no zero in front. -/
theorem decimal_head {n : ℕ} (hn : n ≠ 0) : ∃ c cs, decimal n = c :: cs ∧ c ≠ 48 := by
  have hne : Nat.digits 10 n ≠ [] := Nat.digits_ne_nil_iff_ne_zero.mpr hn
  obtain ⟨d, ds, hds⟩ := List.exists_cons_of_ne_nil (mt List.reverse_eq_nil_iff.mp hne)
  refine ⟨UInt8.ofNat (48 + d), ds.map fun d => UInt8.ofNat (48 + d), ?_, ?_⟩
  · unfold decimal
    rw [if_neg hn, hds, List.map_cons]
  · have hlast : (Nat.digits 10 n).getLast hne = d := by
      have hhead := congrArg List.head? hds
      rw [List.head?_reverse, List.getLast?_eq_getLast_of_ne_nil hne] at hhead
      exact Option.some.inj hhead
    have hd0 : d ≠ 0 := by
      rw [← hlast]
      exact Nat.getLast_digit_ne_zero 10 hn
    have hd : d < 10 := by
      refine Nat.digits_lt_base (by decide) (m := n) ?_
      rw [← hlast]
      exact List.getLast_mem hne
    have hall : ∀ d < 10, d ≠ 0 → UInt8.ofNat (48 + d) ≠ 48 := by decide
    exact hall d hd hd0

theorem isUnsigned_decimal (n : ℕ) : isUnsigned (decimal n) = true := by
  by_cases hn : n = 0
  · rw [hn]
    rfl
  · obtain ⟨c, cs, hcs, hc⟩ := decimal_head hn
    have hdigits := decimal_digits n
    rw [hcs] at hdigits ⊢
    have hrest : cs.dropWhile isDigit = [] :=
      List.dropWhile_eq_nil_iff.mpr fun c' hc' => hdigits c' (List.mem_cons_of_mem _ hc')
    rw [isUnsigned, if_neg (by simpa using hc), hrest, hdigits c List.mem_cons_self]
    rfl

/-- What starts with a digit has no sign. -/
theorem isNumber_decimal (n : ℕ) : isNumber (decimal n) = true := by
  have hunsigned := isUnsigned_decimal n
  have hdigits := decimal_digits n
  cases htext : decimal n with
  | nil =>
    rw [htext] at hunsigned
    cases hunsigned
  | cons c cs =>
    rw [htext] at hunsigned hdigits
    have hc : c ≠ 45 := by
      rintro rfl
      exact absurd (hdigits 45 List.mem_cons_self) (by decide)
    rw [isNumber, if_neg (by simpa using hc)]
    exact hunsigned

theorem isScalarByte_of_isDigit {c : UInt8} (h : isDigit c = true) : isScalarByte c = true := by
  unfold isDigit at h
  rw [Bool.and_eq_true, decide_eq_true_iff, decide_eq_true_iff] at h
  unfold isScalarByte isSpace
  simp only [Bool.not_eq_true', Bool.or_eq_false_iff, beq_eq_false_iff_ne]
  refine ⟨⟨⟨⟨⟨⟨⟨⟨⟨⟨?_, ?_⟩, ?_⟩, ?_⟩, ?_⟩, ?_⟩, ?_⟩, ?_⟩, ?_⟩, ?_⟩, ?_⟩ <;>
    (rintro rfl; exact absurd h (by decide))

theorem ValidText.number (n : ℕ) : ValidText (decimal n) := by
  have hscalar : decimal n ≠ [] ∧ (decimal n).all isScalarByte = true := by
    refine ⟨fun hnil => ?_, ?_⟩
    · have hunsigned := isUnsigned_decimal n
      rw [hnil] at hunsigned
      cases hunsigned
    · rw [List.all_eq_true]
      exact fun c hc => isScalarByte_of_isDigit (decimal_digits n c hc)
  have hrender (t : Scalar) : (Value.scalar t).render = t.1 := by rw [Value.render]
  refine ⟨.scalar ⟨decimal n, hscalar⟩, (valid_scalar _).trans ?_, hrender _⟩
  show (isNumber (decimal n) || isLiteral (decimal n)) = true
  rw [isNumber_decimal]
  rfl

/-! ## Texts without white space -/

/-- Texts joined by commas. -/
def commaSeparated : List Bytes → Bytes
  | [] => []
  | text :: texts => text ++ texts.flatMap fun text => comma :: text

/-- An array of the given texts. -/
def compactArray (texts : List Bytes) : Bytes :=
  openBracket :: (commaSeparated texts ++ [closeBracket])

/-- An object with the given keys and texts. -/
def compactObject (members : List (Bytes × Bytes)) : Bytes :=
  openBrace :: (commaSeparated (members.map fun m => quoted m.1 ++ colon :: m.2) ++ [closeBrace])

/-- A value as an element without white space. -/
def compactElement (v : Value) : Element Value := ⟨blank, v, blank⟩

/-- A key and a value as a member without white space. -/
def compactMember (m : Text × Value) : Member Value := ⟨blank, m.1, blank, blank, m.2, blank⟩

theorem moreElements_compact (vs : List Value) :
    moreElements (vs.map compactElement) = (vs.map Value.render).flatMap fun text => comma :: text := by
  induction vs with
  | nil =>
    rw [List.map_nil, moreElements]
    rfl
  | cons v vs ih =>
    rw [List.map_cons, moreElements_cons, ih, List.map_cons, List.flatMap_cons]
    rfl

theorem render_compactArray (vs : List Value) :
    (Value.array blank (vs.map compactElement)).render = compactArray (vs.map Value.render) := by
  rw [Value.render]
  cases vs with
  | nil =>
    rw [List.map_nil, renderElements]
    rfl
  | cons v vs =>
    rw [List.map_cons, renderElements_cons, moreElements_compact]
    rfl

theorem text_compactMember (m : Text × Value) :
    (compactMember m).text m.2.render = quoted m.1.1 ++ colon :: m.2.render := by
  simp [compactMember, Member.text, quoted, blank]

theorem moreMembers_compact (ms : List (Text × Value)) :
    moreMembers (ms.map compactMember)
      = (ms.map fun m => quoted m.1.1 ++ colon :: m.2.render).flatMap fun text => comma :: text := by
  induction ms with
  | nil =>
    rw [List.map_nil, moreMembers]
    rfl
  | cons m ms ih =>
    have htext : (compactMember m).text (compactMember m).value.render = _ := text_compactMember m
    rw [List.map_cons, moreMembers_cons, ih, htext, List.map_cons, List.flatMap_cons,
      List.cons_append]

theorem render_compactObject (ms : List (Text × Value)) :
    (Value.object blank (ms.map compactMember)).render
      = compactObject (ms.map fun m => (m.1.1, m.2.render)) := by
  rw [Value.render]
  unfold compactObject
  rw [List.map_map]
  cases ms with
  | nil =>
    rw [List.map_nil, renderMembers]
    rfl
  | cons m ms =>
    have htext : (compactMember m).text (compactMember m).value.render = _ := text_compactMember m
    rw [List.map_cons, renderMembers_cons, moreMembers_compact, htext]
    rfl

/-- The trees of valid texts. -/
theorem exists_values {texts : List Bytes} (h : ∀ text ∈ texts, ValidText text) :
    ∃ vs : List Value, (∀ v ∈ vs, v.valid = true) ∧ vs.map Value.render = texts := by
  induction texts with
  | nil => exact ⟨[], by simp, rfl⟩
  | cons text texts ih =>
    obtain ⟨v, hv, hrender⟩ := h text List.mem_cons_self
    obtain ⟨vs, hvs, htexts⟩ := ih fun text' h' => h text' (List.mem_cons_of_mem _ h')
    exact ⟨v :: vs, List.forall_mem_cons.mpr ⟨hv, hvs⟩, by rw [List.map_cons, hrender, htexts]⟩

/-- The trees of valid members. -/
theorem exists_members {members : List (Bytes × Bytes)}
    (h : ∀ m ∈ members, Plain m.1 ∧ ValidText m.2) :
    ∃ ms : List (Text × Value), (∀ m ∈ ms, isString m.1.1 = true ∧ m.2.valid = true)
      ∧ (ms.map fun m => (m.1.1, m.2.render)) = members := by
  induction members with
  | nil => exact ⟨[], by simp, rfl⟩
  | cons m members ih =>
    obtain ⟨hkey, v, hv, hrender⟩ := h m List.mem_cons_self
    obtain ⟨ms, hms, hmembers⟩ := ih fun m' h' => h m' (List.mem_cons_of_mem _ h')
    refine ⟨(⟨m.1, hkey.isStringText⟩, v) :: ms, List.forall_mem_cons.mpr ⟨⟨hkey.isString, hv⟩, hms⟩,
      ?_⟩
    rw [List.map_cons, hmembers, hrender]

theorem valid_compactArray {vs : List Value} (h : ∀ v ∈ vs, v.valid = true) :
    (Value.array blank (vs.map compactElement)).valid = true := by
  rw [Value.valid, validElements_iff]
  intro e he
  obtain ⟨v, hv, rfl⟩ := List.mem_map.mp he
  exact h v hv

theorem valid_compactObject {ms : List (Text × Value)}
    (h : ∀ m ∈ ms, isString m.1.1 = true ∧ m.2.valid = true) :
    (Value.object blank (ms.map compactMember)).valid = true := by
  rw [Value.valid, validMembers_iff]
  intro m hm
  obtain ⟨m', hm', rfl⟩ := List.mem_map.mp hm
  exact h m' hm'

/-- **An array of valid texts is valid.** -/
theorem ValidText.array {texts : List Bytes} (h : ∀ text ∈ texts, ValidText text) :
    ValidText (compactArray texts) := by
  obtain ⟨vs, hvs, rfl⟩ := exists_values h
  exact ⟨_, valid_compactArray hvs, render_compactArray vs⟩

/-- **An object of plain keys and valid texts is valid.** -/
theorem ValidText.object {members : List (Bytes × Bytes)}
    (h : ∀ m ∈ members, Plain m.1 ∧ ValidText m.2) : ValidText (compactObject members) := by
  obtain ⟨ms, hms, rfl⟩ := exists_members h
  exact ⟨_, valid_compactObject hms, render_compactObject ms⟩

end Json
