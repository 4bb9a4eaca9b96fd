/-
JSON texts as concrete syntax: trees that keep the white space, so that a tree
stands for one byte string.

Two things are looser than in the standard, which makes the texts here more, not
fewer: a scalar is any non-empty run of bytes that are not blank, quoting or
structural, which covers the numbers and the three literal names, and a backslash in
a string may be followed by any byte.
-/
import SolanaGo.Lib.Codec

set_option autoImplicit false

namespace Json

open Codec (Bytes)

/-! ## Bytes -/

/-- A double quote. -/
abbrev quote : UInt8 := 34
/-- A backslash. -/
abbrev backslash : UInt8 := 92
/-- An opening brace. -/
abbrev openBrace : UInt8 := 123
/-- A closing brace. -/
abbrev closeBrace : UInt8 := 125
/-- An opening bracket. -/
abbrev openBracket : UInt8 := 91
/-- A closing bracket. -/
abbrev closeBracket : UInt8 := 93
/-- A comma. -/
abbrev comma : UInt8 := 44
/-- A colon. -/
abbrev colon : UInt8 := 58

/-- White space: blank, tab, newline, carriage return. -/
def isSpace (c : UInt8) : Bool := c == 32 || c == 9 || c == 10 || c == 13

/-- The bytes a scalar may have. -/
def isScalarByte (c : UInt8) : Bool :=
  !(isSpace c || c == quote || c == openBrace || c == closeBrace || c == openBracket
    || c == closeBracket || c == comma || c == colon)

/-- The contents of a string: no bare quote, and no backslash at the end. -/
def isStringText : Bytes → Bool
  | [] => true
  | [c] => c != quote && c != backslash
  | c :: c' :: cs =>
    if c == backslash then isStringText cs else c != quote && isStringText (c' :: cs)

/-! ## Syntax -/

/-- A run of white space. -/
def Space : Type := { l : Bytes // l.all isSpace = true }

/-- No white space. -/
def blank : Space := ⟨[], rfl⟩

/-- The text of a scalar. -/
def Scalar : Type := { l : Bytes // l ≠ [] ∧ l.all isScalarByte = true }

/-- The contents of a string. -/
def Text : Type := { l : Bytes // isStringText l = true }

/-- An array element with the white space around it. -/
structure Element (V : Type) where
  before : Space
  value : V
  after : Space

/-- An object member with its white space. -/
structure Member (V : Type) where
  before : Space
  key : Text
  /-- between the key and the colon -/
  mid : Space
  beforeValue : Space
  value : V
  after : Space

/-- A JSON value. The white space of an empty container is its first argument. -/
inductive Value where
  | scalar (text : Scalar)
  | string (text : Text)
  | array (pad : Space) (elems : List (Element Value))
  | object (pad : Space) (members : List (Member Value))

/-! ## Text -/

/-- The text of an object member, given that of its value. -/
def Member.text {V : Type} (m : Member V) (value : Bytes) : Bytes :=
  m.before.1 ++ quote :: (m.key.1 ++ quote :: (m.mid.1 ++ colon
    :: (m.beforeValue.1 ++ (value ++ m.after.1))))

mutual

/-- The bytes of a value. -/
def Value.render : Value → Bytes
  | .scalar text => text.1
  | .string text => quote :: (text.1 ++ [quote])
  | .array pad elems => openBracket :: (renderElements pad elems ++ [closeBracket])
  | .object pad members => openBrace :: (renderMembers pad members ++ [closeBrace])

/-- The inside of an array. -/
def renderElements (pad : Space) : List (Element Value) → Bytes
  | [] => pad.1
  | ⟨before, value, after⟩ :: elems =>
    before.1 ++ (value.render ++ (after.1 ++ moreElements elems))

/-- The elements after the first. -/
def moreElements : List (Element Value) → Bytes
  | [] => []
  | ⟨before, value, after⟩ :: elems =>
    comma :: (before.1 ++ (value.render ++ (after.1 ++ moreElements elems)))

/-- The inside of an object. -/
def renderMembers (pad : Space) : List (Member Value) → Bytes
  | [] => pad.1
  | ⟨before, key, mid, beforeValue, value, after⟩ :: members =>
    Member.text ⟨before, key, mid, beforeValue, value, after⟩ value.render ++ moreMembers members

/-- The members after the first. -/
def moreMembers : List (Member Value) → Bytes
  | [] => []
  | ⟨before, key, mid, beforeValue, value, after⟩ :: members =>
    comma :: (Member.text ⟨before, key, mid, beforeValue, value, after⟩ value.render
      ++ moreMembers members)

end

theorem renderMembers_cons (pad : Space) (m : Member Value) (members : List (Member Value)) :
    renderMembers pad (m :: members) = m.text m.value.render ++ moreMembers members := by
  cases m
  rw [renderMembers]

theorem moreMembers_cons (m : Member Value) (members : List (Member Value)) :
    moreMembers (m :: members) = comma :: (m.text m.value.render ++ moreMembers members) := by
  cases m
  rw [moreMembers]

theorem renderElements_cons (pad : Space) (e : Element Value) (elems : List (Element Value)) :
    renderElements pad (e :: elems)
      = e.before.1 ++ (e.value.render ++ (e.after.1 ++ moreElements elems)) := by
  cases e
  rw [renderElements]

theorem moreElements_cons (e : Element Value) (elems : List (Element Value)) :
    moreElements (e :: elems)
      = comma :: (e.before.1 ++ (e.value.render ++ (e.after.1 ++ moreElements elems))) := by
  cases e
  rw [moreElements]

/-- Every member after the first takes a byte. -/
theorem length_le_moreMembers (members : List (Member Value)) :
    members.length ≤ (moreMembers members).length := by
  induction members with
  | nil => exact Nat.zero_le _
  | cons m members ih =>
    rw [moreMembers_cons, List.length_cons, List.length_cons, List.length_append]
    omega

/-- Every element after the first takes a byte. -/
theorem length_le_moreElements (elems : List (Element Value)) :
    elems.length ≤ (moreElements elems).length := by
  induction elems with
  | nil => exact Nat.zero_le _
  | cons e elems ih =>
    rw [moreElements_cons, List.length_cons, List.length_cons, List.length_append,
      List.length_append, List.length_append]
    omega

end Json
