/-
Parts of the Go packages `strings` and `strconv`, on strings as their bytes.

White space is what `unicode.IsSpace` takes for it, in UTF-8. The scans go byte by byte:
the encoding of a space does not begin with a continuation byte, so it is never found inside
another character, and in a string that is not UTF-8 a broken character is passed over byte
by byte as `utf8.DecodeRune` does.
-/
import SolanaGo.Lib.Codec
import Mathlib.Data.List.DropRight

set_option autoImplicit false

namespace GoStrings

open Codec (Bytes)

/-! ## White space -/

/-- The characters of `unicode.IsSpace`. -/
def spaces : List Bytes :=
  [[9], [10], [11], [12], [13], [32], [0xC2, 0x85], [0xC2, 0xA0], [0xE1, 0x9A, 0x80],
    [0xE2, 0x80, 0x80], [0xE2, 0x80, 0x81], [0xE2, 0x80, 0x82], [0xE2, 0x80, 0x83],
    [0xE2, 0x80, 0x84], [0xE2, 0x80, 0x85], [0xE2, 0x80, 0x86], [0xE2, 0x80, 0x87],
    [0xE2, 0x80, 0x88], [0xE2, 0x80, 0x89], [0xE2, 0x80, 0x8A], [0xE2, 0x80, 0xA8],
    [0xE2, 0x80, 0xA9], [0xE2, 0x80, 0xAF], [0xE2, 0x81, 0x9F], [0xE3, 0x80, 0x80]]

/-- The width of the space at the front; zero if there is none. -/
def spaceWidth (s : Bytes) : ℕ := ((spaces.find? (·.isPrefixOf s)).map List.length).getD 0

/-- The scan of `strings.Fields`, in the middle of a word, with bytes of a space to skip. -/
def fieldsFrom (word : Bytes) (skip : ℕ) : Bytes → List Bytes
  | [] => if word = [] then [] else [word]
  | c :: s =>
    if 0 < skip then fieldsFrom word (skip - 1) s
    else
      match spaceWidth (c :: s) with
      | 0 => fieldsFrom (word ++ [c]) 0 s
      | width + 1 => (if word = [] then [] else [word]) ++ fieldsFrom [] width s

/-- `strings.Fields`: the words between the white space. -/
def fields (s : Bytes) : List Bytes := fieldsFrom [] 0 s

/-- The string without the spaces at its front. -/
def trimSpaceLeft (skip : ℕ) : Bytes → Bytes
  | [] => []
  | c :: s =>
    if 0 < skip then trimSpaceLeft (skip - 1) s
    else
      match spaceWidth (c :: s) with
      | 0 => c :: s
      | width + 1 => trimSpaceLeft width s

/-- The width of the space at the end of a string, given in reverse. -/
def lastSpaceWidth (s : Bytes) : ℕ :=
  ((spaces.find? fun space => space.reverse.isPrefixOf s).map List.length).getD 0

/-- The string, in reverse, without the spaces at its end. -/
def trimSpaceRight (skip : ℕ) : Bytes → Bytes
  | [] => []
  | c :: s =>
    if 0 < skip then trimSpaceRight (skip - 1) s
    else
      match lastSpaceWidth (c :: s) with
      | 0 => c :: s
      | width + 1 => trimSpaceRight width s

/-- `strings.TrimSpace`. -/
def trimSpace (s : Bytes) : Bytes := (trimSpaceRight 0 (trimSpaceLeft 0 s).reverse).reverse

/-! ## Lines -/

/-- The scan of `strings.Lines`, in the middle of a line. -/
def linesFrom (line : Bytes) : Bytes → List Bytes
  | [] => if line = [] then [] else [line]
  | c :: s => if c = 10 then (line ++ [c]) :: linesFrom [] s else linesFrom (line ++ [c]) s

/-- `strings.Lines`: the lines, with the newlines that end them. -/
def lines (s : Bytes) : List Bytes := linesFrom [] s

/-- `strings.TrimRight(s, "\r\n")`. -/
def trimNewline (s : Bytes) : Bytes := s.rdropWhile fun c => c = 13 || c = 10

theorem linesFrom_append {word : Bytes} (h : 10 ∉ word) (line rest : Bytes) :
    linesFrom line (word ++ 10 :: rest) = (line ++ word ++ [10]) :: linesFrom [] rest := by
  induction word generalizing line with
  | nil => simp [linesFrom]
  | cons c word ih =>
    have hc : c ≠ 10 := fun hc => h (hc ▸ List.mem_cons_self)
    have hword : 10 ∉ word := fun hmem => h (List.mem_cons_of_mem _ hmem)
    simp only [List.cons_append, linesFrom, if_neg hc]
    rw [ih hword]
    simp

theorem trimNewline_line {word : Bytes} (h10 : 10 ∉ word) (h13 : 13 ∉ word) :
    trimNewline (word ++ [10]) = word := by
  unfold trimNewline
  rw [List.rdropWhile_concat_pos _ _ _ (by decide)]
  refine List.rdropWhile_eq_self_iff.mpr fun hne => ?_
  have hlast := List.getLast_mem hne
  have hne10 : word.getLast hne ≠ 10 := fun h => h10 (h ▸ hlast)
  have hne13 : word.getLast hne ≠ 13 := fun h => h13 (h ▸ hlast)
  simp [hne10, hne13]

/-- A file with a word on each line. -/
theorem lines_words {words : List Bytes} (h : ∀ word ∈ words, 10 ∉ word ∧ 13 ∉ word) :
    (lines (words.flatMap (· ++ [10]))).map trimNewline = words := by
  unfold lines
  induction words with
  | nil => rfl
  | cons word words ih =>
    obtain ⟨h10, h13⟩ := h word List.mem_cons_self
    have hline : (word :: words).flatMap (· ++ [10])
        = word ++ 10 :: words.flatMap (· ++ [10]) := by simp
    rw [hline, linesFrom_append h10, List.map_cons, List.nil_append, trimNewline_line h10 h13,
      ih fun word' hword' => h word' (List.mem_cons_of_mem _ hword')]

/-! ## Numbers -/

/-- `strings.TrimPrefix` of one byte. -/
def trimByte (c : UInt8) : Bytes → Bytes
  | [] => []
  | d :: s => if d = c then s else d :: s

/-- Why `strconv.ParseUint` fails. -/
inductive NumError where
  | invalidSyntax
  | valueOutOfRange
  deriving DecidableEq

/-- The loop of `strconv.ParseUint` in base 10 for 32 bits. The number is below `2 ^ 32` at
each turn, so that the check against overflow of 64 bits never fires. -/
def parseDigits (n : ℕ) : Bytes → Except NumError ℕ
  | [] => .ok n
  | c :: s =>
    if c < 48 ∨ 57 < c then .error .invalidSyntax
    else
      let n1 := n * 10 + (c.toNat - 48)
      if 2 ^ 32 ≤ n1 then .error .valueOutOfRange else parseDigits n1 s

/-- `strconv.ParseUint(s, 10, 32)`. -/
def parseUint32 (s : Bytes) : Except NumError ℕ :=
  if s = [] then .error .invalidSyntax else parseDigits 0 s

end GoStrings
