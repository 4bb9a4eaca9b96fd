/-
`PrivateKeyFromSolanaKeygenFileBytes`: the key pair in a file of `solana-keygen`.

The file is a JSON array of 64 byte values. The reader is written by hand and takes any run
of digits for a number, so it is not quite the grammar of RFC 8259: a number may have
needless zeros in front, and `-0`, which is a number there, is refused.

`keygenFileBytes_eq_ok` says what is accepted, in terms of the syntax trees of
`Json.lean`, and `keygenFileBytes_rfc_iff` on which inputs that is what RFC 8259 says.

SHA-512 and the curve are behind `NewKeyFromSeed` and the decompression of a point, which
are parameters.
-/
import SolanaGo.Lib.JsonInteger
import SolanaGo.Pda

set_option autoImplicit false

namespace SolanaGo

open Codec Json

/-! ## The model -/

section Model

variable (prims : AddressPrimitives) (newKeyFromSeed : Bytes → ByteArr 64)

/-- `Validate`. -/
def validatePrivateKey (k : Bytes) : Except Err Unit :=
  if k.length ≠ 64 then
    .error { msg := "invalid private key size, expected 64, got " ++ toString k.length }
  else if (newKeyFromSeed (k.take 32)).toList ≠ k then
    if !isOnCurve prims (k.drop 32) then
      .error { msg := "invalid private key: seed/public key mismatch "
        ++ "(public key half is not on the ed25519 curve)" }
    else .error { msg := "invalid private key: seed/public key mismatch" }
  else .ok ()

/-- The loop over the digits of a number that starts at an offset. -/
def readByteValue (start : ℕ) : Bytes → ℕ → Except Err (ℕ × Bytes)
  | [], value => .ok (value, [])
  | c :: rest, value =>
    if isDigit c then
      let value := 10 * value + (c.toNat - 48)
      if 255 < value then .error { msg := "byte value out of range at offset " ++ toString start }
      else readByteValue start rest value
    else .ok (value, c :: rest)

/-- The loop over the numbers, in a file of a length. The offset of a position is the length
without that of what is left. A turn takes a byte at least, so with more turns than bytes the
bound is never met. -/
def readByteValues (total : ℕ) : ℕ → Bytes → Bytes → Except Err (Bytes × Bytes)
  | 0, _, _ => .error { msg := "unexpected end of input" }
  | turns + 1, key, rest => do
    let rest := skipSpace rest
    let start := total - rest.length
    let (value, behind) ← readByteValue start rest 0
    if behind.length = rest.length then
      .error { msg := "expected a byte value at offset " ++ toString start }
    else
      let key := key ++ [UInt8.ofNat value]
      match skipSpace behind with
      | [] => .error { msg := "unexpected end of input" }
      | c :: next =>
        if c = comma then readByteValues total turns key next
        else if c = closeBracket then .ok (key, next)
        else
          .error { msg := "unexpected character %q at offset "
            ++ toString (total - (next.length + 1)) }

/-- The array: its values, and what is behind it. -/
def readByteArray (content : Bytes) : Except Err (Bytes × Bytes) :=
  match skipSpace content with
  | [] => .error { msg := "expected a JSON array of byte values" }
  | c :: rest =>
    if c ≠ openBracket then .error { msg := "expected a JSON array of byte values" }
    else
      match skipSpace rest with
      | [] => readByteValues content.length (content.length + 1) [] []
      | c :: rest =>
        if c = closeBracket then .ok ([], rest)
        else readByteValues content.length (content.length + 1) [] (c :: rest)

/-- `PrivateKeyFromSolanaKeygenFileBytes`. -/
def privateKeyFromSolanaKeygenFileBytes (content : Bytes) : Except Err Bytes := do
  let (key, rest) ← readByteArray content
  let rest := skipSpace rest
  if rest ≠ [] then
    .error { msg := "trailing data at offset " ++ toString (content.length - rest.length) }
  else if key.length ≠ 64 then
    .error { msg := "invalid private key length " ++ toString key.length ++ ", expected 64" }
  else do
    validatePrivateKey prims newKeyFromSeed key
    .ok key

end Model

/-! ## Numbers -/

theorem isSpace_of_isDigit {c : UInt8} (h : isDigit c = true) : isSpace c = false := by
  have hscalar := isScalarByte_of_isDigit h
  unfold isScalarByte at hscalar
  simp only [Bool.not_eq_true', Bool.or_eq_false_iff] at hscalar
  exact hscalar.1.1.1.1.1.1.1

/-- **What the loop over the digits takes**: all the digits, up to a value of 255. -/
theorem readByteValue_eq_ok {start value v : ℕ} {rest behind : Bytes} (hvalue : value ≤ 255) :
    readByteValue start rest value = .ok (v, behind)
      ↔ ∃ ds, rest = ds ++ behind ∧ (∀ c ∈ ds, isDigit c = true)
        ∧ (∀ c ∈ behind.head?, isDigit c = false) ∧ v = digitsFrom ds value ∧ v ≤ 255 := by
  induction rest generalizing value with
  | nil =>
    rw [readByteValue]
    constructor
    · rintro ⟨⟩
      exact ⟨[], rfl, by simp, by simp, rfl, hvalue⟩
    · rintro ⟨ds, hrest, -, -, rfl, -⟩
      obtain ⟨rfl, rfl⟩ := List.nil_eq_append_iff.mp hrest
      rfl
  | cons c rest ih =>
    rw [readByteValue]
    dsimp only
    by_cases hc : isDigit c = true
    · rw [if_pos hc]
      by_cases hlarge : 255 < 10 * value + (c.toNat - 48)
      · -- too large already, and more digits only make it larger
        rw [if_pos hlarge]
        refine iff_of_false (by simp) ?_
        rintro ⟨ds, hrest, -, hhead, rfl, hle⟩
        cases ds with
        | nil =>
          rw [List.nil_append] at hrest
          rw [← hrest] at hhead
          rw [hhead c rfl] at hc
          cases hc
        | cons d ds =>
          obtain ⟨rfl, -⟩ := List.cons.inj hrest
          have hfrom := le_digitsFrom ds (10 * value + (c.toNat - 48))
          rw [digitsFrom] at hle
          omega
      · rw [if_neg hlarge, ih (by omega)]
        constructor
        · rintro ⟨ds, rfl, hds, hhead, rfl, hle⟩
          refine ⟨c :: ds, rfl, ?_, hhead, rfl, hle⟩
          intro d hd
          rcases List.mem_cons.mp hd with rfl | hd
          · exact hc
          · exact hds d hd
        · rintro ⟨ds, hrest, hds, hhead, rfl, hle⟩
          cases ds with
          | nil =>
            rw [List.nil_append] at hrest
            rw [← hrest] at hhead
            rw [hhead c rfl] at hc
            cases hc
          | cons d ds =>
            obtain ⟨rfl, rfl⟩ := List.cons.inj hrest
            exact ⟨ds, rfl, fun d hd => hds d (List.mem_cons_of_mem _ hd), hhead, rfl, hle⟩
    · rw [if_neg hc]
      constructor
      · rintro ⟨⟩
        refine ⟨[], rfl, by simp, ?_, rfl, hvalue⟩
        rintro d ⟨⟩
        exact Bool.eq_false_of_not_eq_true hc
      · rintro ⟨ds, hrest, hds, -, rfl, -⟩
        cases ds with
        | nil =>
          rw [List.nil_append] at hrest
          rw [← hrest]
          rfl
        | cons d ds =>
          obtain ⟨rfl, -⟩ := List.cons.inj hrest
          exact absurd (hds c List.mem_cons_self) hc

/-! ## The array -/

/-- An element of digits, and the byte they spell. -/
structure DigitsElement (e : Element Value) (k : UInt8) : Prop where
  digits : isDigits e.value.render = true
  value : digitsValue e.value.render = k.toNat

/-- A run of digits as an element. -/
def digitsElement (before : Space) (ds : Bytes) (h : ds ≠ [] ∧ ds.all isScalarByte = true)
    (after : Space) : Element Value := ⟨before, .scalar ⟨ds, h⟩, after⟩

theorem render_digitsElement (before : Space) {ds : Bytes}
    (h : ds ≠ [] ∧ ds.all isScalarByte = true) (after : Space) :
    (digitsElement before ds h after).value.render = ds := by
  have hrender (t : Scalar) : (Value.scalar t).render = t.1 := by rw [Value.render]
  exact hrender ⟨ds, h⟩

theorem isDigits_iff {ds : Bytes} : isDigits ds = true ↔ ds ≠ [] ∧ ∀ c ∈ ds, isDigit c = true := by
  unfold isDigits
  rw [Bool.and_eq_true, List.all_eq_true]
  simp

/-- Behind a number there is white space, a comma or the bracket. -/
theorem head_after (after : Space) (elems : List (Element Value)) (rest : Bytes) :
    ∃ c t, moreElements elems ++ closeBracket :: rest = c :: t
      ∧ (c = comma ∨ c = closeBracket)
      ∧ ∀ d ∈ (after.1 ++ (moreElements elems ++ closeBracket :: rest)).head?,
        isDigit d = false := by
  have hhead : ∃ c t, moreElements elems ++ closeBracket :: rest = c :: t
      ∧ (c = comma ∨ c = closeBracket) := by
    cases elems with
    | nil =>
      rw [moreElements]
      exact ⟨closeBracket, rest, rfl, Or.inr rfl⟩
    | cons e elems =>
      rw [moreElements_cons]
      exact ⟨comma, _, rfl, Or.inl rfl⟩
  obtain ⟨c, t, ht, hc⟩ := hhead
  refine ⟨c, t, ht, hc, fun d hd => ?_⟩
  rw [ht] at hd
  obtain ⟨ws, hws⟩ := after
  cases ws with
  | nil =>
    obtain rfl : c = d := Option.some.inj hd
    rcases hc with rfl | rfl
    · decide
    · decide
  | cons w ws =>
    obtain rfl : w = d := Option.some.inj hd
    have hspace := List.all_eq_true.mp hws w List.mem_cons_self
    by_contra hdigit
    rw [isSpace_of_isDigit (Bool.eq_true_of_not_eq_false hdigit)] at hspace
    cases hspace

/-- One number and what is behind it. -/
theorem readByteValue_element (before after : Space) {ds : Bytes} {k : UInt8}
    (hds : isDigits ds = true) (hk : digitsValue ds = k.toNat) (elems : List (Element Value))
    (rest : Bytes) :
    ∃ c t, moreElements elems ++ closeBracket :: rest = c :: t ∧ (c = comma ∨ c = closeBracket)
      ∧ skipSpace (before.1 ++ (ds ++ (after.1 ++ c :: t))) = ds ++ (after.1 ++ c :: t)
      ∧ (∀ start, readByteValue start (ds ++ (after.1 ++ c :: t)) 0
        = .ok (k.toNat, after.1 ++ c :: t))
      ∧ skipSpace (after.1 ++ c :: t) = c :: t := by
  obtain ⟨hne, hall⟩ := isDigits_iff.mp hds
  obtain ⟨c, t, ht, hc, hbehind⟩ := head_after after elems rest
  rw [ht] at hbehind
  refine ⟨c, t, ht, hc, ?_, ?_, ?_⟩
  · obtain ⟨d, ds, rfl⟩ := List.exists_cons_of_ne_nil hne
    exact skipSpace_append before (isSpace_of_isDigit (hall d List.mem_cons_self)) _
  · intro start
    exact (readByteValue_eq_ok (Nat.zero_le _)).mpr
      ⟨ds, rfl, hall, hbehind, hk.symm, Nat.le_of_lt_succ k.toNat_lt⟩
  · rcases hc with rfl | rfl
    · exact skipSpace_append after (by decide) t
    · exact skipSpace_append after (by decide) t

/-- The values of elements are read. -/
theorem readByteValues_render {total turns : ℕ} {key new : Bytes} {elems : List (Element Value)}
    {rest : Bytes} (hne : elems ≠ []) (hnew : List.Forall₂ DigitsElement elems new)
    (hturns : elems.length ≤ turns) :
    readByteValues total turns key (renderElements blank elems ++ closeBracket :: rest)
      = .ok (key ++ new, rest) := by
  induction elems generalizing turns key new with
  | nil => exact absurd rfl hne
  | cons e elems ih =>
    cases hnew with
    | cons hfirst hnew =>
      next k new =>
      cases turns with
      | zero => cases hturns
      | succ turns =>
        have hlen : ∀ t : Bytes, t.length ≠ (e.value.render ++ t).length := by
          intro t
          have hpos := List.length_pos_of_ne_nil (isDigits_iff.mp hfirst.digits).1
          rw [List.length_append]
          omega
        rw [readByteValues, renderElements_cons]
        simp only [List.append_assoc]
        obtain ⟨c, t, ht, hc, hskip, hread, hskip'⟩ :=
          readByteValue_element e.before e.after hfirst.digits hfirst.value elems rest
        rw [ht, hskip, hread, ok_bind]
        dsimp only
        rw [if_neg (hlen _), hskip', UInt8.ofNat_toNat]
        dsimp only
        cases elems with
        | nil =>
          cases hnew
          rw [moreElements, List.nil_append] at ht
          obtain ⟨rfl, rfl⟩ := List.cons.inj ht
          rw [if_neg (by decide), if_pos rfl]
        | cons e' elems =>
          rw [moreElements_eq blank, List.cons_append] at ht
          obtain ⟨rfl, rfl⟩ := List.cons.inj ht
          rw [if_pos rfl, ih (by simp) hnew (by simpa using hturns), List.append_assoc]
          rfl

/-- What the loop over the numbers has read are elements. -/
theorem render_of_readByteValues {total turns : ℕ} {key rest result next : Bytes}
    (h : readByteValues total turns key rest = .ok (result, next)) :
    ∃ elems new, elems ≠ [] ∧ rest = renderElements blank elems ++ closeBracket :: next
      ∧ List.Forall₂ DigitsElement elems new ∧ result = key ++ new := by
  induction turns generalizing key rest with
  | zero => cases h
  | succ turns ih =>
    rw [readByteValues] at h
    obtain ⟨before, hbefore, -⟩ := exists_space rest
    obtain ⟨⟨value, behind⟩, hread, h⟩ := bind_eq_ok.mp h
    obtain ⟨ds, hds, hall, -, rfl, hle⟩ := (readByteValue_eq_ok (Nat.zero_le _)).mp hread
    obtain ⟨hlen, h⟩ := guard_eq_ok.mp h
    obtain ⟨after, hafter, -⟩ := exists_space behind
    have hne : ds ≠ [] := by
      rintro rfl
      rw [hds] at hlen
      exact hlen rfl
    have hscalar : ds ≠ [] ∧ ds.all isScalarByte = true :=
      ⟨hne, List.all_eq_true.mpr fun c hc => isScalarByte_of_isDigit (hall c hc)⟩
    have hrender := render_digitsElement before hscalar after
    have hfirst : DigitsElement (digitsElement before ds hscalar after)
        (UInt8.ofNat (digitsFrom ds 0)) := by
      constructor
      · rw [hrender]
        exact isDigits_iff.mpr ⟨hne, hall⟩
      · rw [hrender]
        exact (UInt8.toNat_ofNat_of_lt (Nat.lt_succ_of_le hle)).symm
    cases hnext : skipSpace behind with
    | nil =>
      rw [hnext] at h
      cases h
    | cons c t =>
      rw [hnext] at h hafter
      dsimp only at h
      have hrest : rest = before.1 ++ (ds ++ (after.1 ++ c :: t)) := by
        rw [← hafter, ← hds]
        exact hbefore
      by_cases hcomma : c = comma
      · rw [if_pos hcomma] at h
        obtain ⟨elems, new, hne', ht, hnew, hresult⟩ := ih h
        refine ⟨digitsElement before ds hscalar after :: elems,
          UInt8.ofNat (digitsFrom ds 0) :: new, by simp, ?_, List.Forall₂.cons hfirst hnew, ?_⟩
        · obtain ⟨e', elems, rfl⟩ := List.exists_cons_of_ne_nil hne'
          rw [renderElements_cons, moreElements_eq blank, hrender, hrest, ht, hcomma]
          simp [digitsElement]
        · rw [hresult, List.append_assoc]
          rfl
      · rw [if_neg hcomma] at h
        by_cases hclose : c = closeBracket
        · rw [if_pos hclose] at h
          cases h
          refine ⟨[digitsElement before ds hscalar after], [UInt8.ofNat (digitsFrom ds 0)],
            by simp, ?_, List.Forall₂.cons hfirst List.Forall₂.nil, rfl⟩
          rw [renderElements_cons, hrender, hrest, hclose, moreElements]
          simp [digitsElement]
        · rw [if_neg hclose] at h
          cases h

/-- An array of digits, and the bytes they spell. -/
def DigitsFile (content key : Bytes) : Prop :=
  ∃ (lead trail pad : Space) (elems : List (Element Value)),
    content = lead.1 ++ ((Value.array pad elems).render ++ trail.1)
      ∧ List.Forall₂ DigitsElement elems key

theorem readByteValues_skipSpace (total turns : ℕ) (key rest : Bytes) :
    readByteValues total turns key (skipSpace rest) = readByteValues total turns key rest := by
  cases turns with
  | zero => rfl
  | succ turns =>
    rw [readByteValues, readByteValues, skipSpace_skipSpace]

/-- **What is read of a file**: an array of digits, with white space in front. -/
theorem readByteArray_eq_ok {content key rest : Bytes} :
    readByteArray content = .ok (key, rest)
      ↔ ∃ (lead pad : Space) (elems : List (Element Value)),
        content = lead.1 ++ ((Value.array pad elems).render ++ rest)
          ∧ List.Forall₂ DigitsElement elems key := by
  constructor
  · intro h
    unfold readByteArray at h
    obtain ⟨lead, hlead, -⟩ := exists_space content
    cases hopen : skipSpace content with
    | nil =>
      rw [hopen] at h
      cases h
    | cons c inside =>
      rw [hopen] at h hlead
      dsimp only at h
      by_cases hc : c ≠ openBracket
      · rw [if_pos hc] at h
        cases h
      · rw [if_neg hc] at h
        obtain rfl : c = openBracket := not_not.mp hc
        have helems : ∀ {result : Bytes},
            readByteValues content.length (content.length + 1) [] inside = .ok (result, rest) →
            ∃ (lead pad : Space) (elems : List (Element Value)),
              content = lead.1 ++ ((Value.array pad elems).render ++ rest)
                ∧ List.Forall₂ DigitsElement elems result := by
          intro result hread
          obtain ⟨elems, new, -, hinside, hnew, rfl⟩ := render_of_readByteValues hread
          refine ⟨lead, blank, elems, ?_, hnew⟩
          rw [hlead, hinside, Value.render]
          simp
        cases hfirst : skipSpace inside with
        | nil =>
          rw [hfirst] at h
          have hread : readByteValues content.length (content.length + 1) []
              (skipSpace inside) = .ok (key, rest) := by
            rw [hfirst]
            exact h
          rw [readByteValues_skipSpace] at hread
          exact helems hread
        | cons c' t =>
          rw [hfirst] at h
          dsimp only at h
          by_cases hclose : c' = closeBracket
          · rw [if_pos hclose] at h
            cases h
            obtain ⟨pad, hpad, -⟩ := exists_space inside
            refine ⟨lead, pad, [], ?_, List.Forall₂.nil⟩
            rw [hlead, hpad, hfirst, hclose, Value.render, renderElements]
            simp
          · rw [if_neg hclose, ← hfirst, readByteValues_skipSpace] at h
            exact helems h
  · rintro ⟨lead, pad, elems, rfl, helems⟩
    have hrender : (Value.array pad elems).render ++ rest
        = openBracket :: (renderElements pad elems ++ closeBracket :: rest) := by
      rw [Value.render]
      simp
    unfold readByteArray
    rw [hrender, skipSpace_append lead (by decide)]
    dsimp only
    rw [if_neg (by simp)]
    cases helems with
    | nil =>
      rw [renderElements, skipSpace_append pad (by decide)]
      rfl
    | cons hfirst hrest =>
      next e k elems key =>
      have hread : ∀ total turns, elems.length + 1 ≤ turns →
          readByteValues total turns []
            (renderElements pad (e :: elems) ++ closeBracket :: rest) = .ok (k :: key, rest) := by
        intro total turns hturns
        have hpad : renderElements pad (e :: elems) = renderElements blank (e :: elems) := by
          rw [renderElements_cons, renderElements_cons]
        rw [hpad]
        exact readByteValues_render (by simp) (List.Forall₂.cons hfirst hrest) hturns
      have hcount : elems.length + 1
          ≤ (lead.1 ++ openBracket :: (renderElements pad (e :: elems)
            ++ closeBracket :: rest)).length + 1 := by
        have hmore := length_le_moreElements elems
        rw [renderElements_cons]
        simp only [List.length_append, List.length_cons]
        omega
      -- the first byte is a digit, so the loop is entered
      obtain ⟨hne, hall⟩ := isDigits_iff.mp hfirst.digits
      obtain ⟨d, ds, hds⟩ := List.exists_cons_of_ne_nil hne
      have hd : isDigit d = true := hall d (hds ▸ List.mem_cons_self)
      have hclose : d ≠ closeBracket := by
        rintro rfl
        exact absurd hd (by decide)
      have hskip : skipSpace (renderElements pad (e :: elems) ++ closeBracket :: rest)
          = d :: (ds ++ (e.after.1 ++ moreElements elems) ++ closeBracket :: rest) := by
        rw [renderElements_cons, hds, List.append_assoc, List.cons_append, List.cons_append]
        exact skipSpace_append e.before (isSpace_of_isDigit hd) _
      rw [hskip]
      dsimp only
      rw [if_neg hclose, ← hskip, readByteValues_skipSpace]
      exact hread _ _ hcount

/-- **What is accepted**: an array of 64 runs of digits that spell a valid key pair. -/
theorem keygenFileBytes_eq_ok {prims : AddressPrimitives} {newKeyFromSeed : Bytes → ByteArr 64}
    {content key : Bytes} :
    privateKeyFromSolanaKeygenFileBytes prims newKeyFromSeed content = .ok key
      ↔ DigitsFile content key ∧ key.length = 64
        ∧ validatePrivateKey prims newKeyFromSeed key = .ok () := by
  unfold privateKeyFromSolanaKeygenFileBytes
  constructor
  · intro h
    obtain ⟨⟨read, rest⟩, hread, h⟩ := bind_eq_ok.mp h
    obtain ⟨hblank, h⟩ := guard_eq_ok.mp h
    obtain ⟨hlen, h⟩ := guard_eq_ok.mp h
    obtain ⟨⟨⟩, hvalid, h⟩ := bind_eq_ok.mp h
    cases h
    obtain ⟨lead, pad, elems, rfl, helems⟩ := readByteArray_eq_ok.mp hread
    obtain ⟨trail, htrail, -⟩ := exists_space rest
    rw [not_not.mp hblank, List.append_nil] at htrail
    refine ⟨⟨lead, trail, pad, elems, ?_, helems⟩, not_not.mp hlen, hvalid⟩
    rw [htrail]
  · rintro ⟨⟨lead, trail, pad, elems, hcontent, helems⟩, hlen, hvalid⟩
    rw [readByteArray_eq_ok.mpr ⟨lead, pad, elems, hcontent, helems⟩, ok_bind]
    dsimp only
    rw [skipSpace_space, if_neg (by simp), if_neg (by simpa using hlen), hvalid, ok_bind]

/-! ## RFC 8259 -/

/-- An array of whole numbers of RFC 8259, and the bytes they are. -/
def RfcFile (content key : Bytes) : Prop :=
  ∃ (lead trail pad : Space) (elems : List (Element Value)),
    content = lead.1 ++ ((Value.array pad elems).render ++ trail.1)
      ∧ (Value.array pad elems).valid = true
      ∧ List.Forall₂ (fun e k => IntegerText e.value.render (k.toNat : ℤ)) elems key

/-- The texts of the elements of an array are determined by the file. -/
def fileTexts (content : Bytes) : List Bytes := (arrayTexts content).getD []

theorem fileTexts_render (lead trail pad : Space) (elems : List (Element Value)) :
    fileTexts (lead.1 ++ ((Value.array pad elems).render ++ trail.1))
      = elems.map fun e => e.value.render := by
  unfold fileTexts
  rw [arrayTexts_render]
  rfl

/-- A value with the text of a number is one. -/
theorem valid_of_isNumber {v : Value} (h : isNumber v.render = true) : v.valid = true := by
  have hnot : ∀ c cs, c = quote ∨ c = openBracket ∨ c = openBrace →
      isNumber (c :: cs) = false := by
    rintro c cs (rfl | rfl | rfl)
    · rfl
    · rfl
    · rfl
  cases v with
  | scalar text =>
    rw [Value.render] at h
    rw [valid_scalar, h]
    rfl
  | string text =>
    rw [Value.render, hnot _ _ (Or.inl rfl)] at h
    cases h
  | array pad elems =>
    rw [Value.render, hnot _ _ (Or.inr (Or.inl rfl))] at h
    cases h
  | object pad members =>
    rw [Value.render, hnot _ _ (Or.inr (Or.inr rfl))] at h
    cases h

/-- In a file of digits without needless zeros the numbers are those of RFC 8259. -/
theorem rfcFile_of_digitsFile {content key : Bytes} (h : DigitsFile content key)
    (hzero : ∀ text ∈ fileTexts content, ¬LeadingZero text) : RfcFile content key := by
  obtain ⟨lead, trail, pad, elems, rfl, helems⟩ := h
  rw [fileTexts_render] at hzero
  have hints : List.Forall₂ (fun e k => IntegerText e.value.render (k.toNat : ℤ)) elems key := by
    clear pad
    induction helems with
    | nil => exact List.Forall₂.nil
    | cons hfirst _ ih =>
      have hint := integerText_of_digits hfirst.digits (hzero _ (by simp))
      rw [hfirst.value] at hint
      exact List.Forall₂.cons hint
        (ih fun text htext => hzero text (List.mem_cons_of_mem _ htext))
  refine ⟨lead, trail, pad, elems, rfl, ?_, hints⟩
  rw [Value.valid, validElements_iff]
  exact ((List.forall₂_and_left _ _).mp (hints.imp fun e k hint =>
    ⟨valid_of_isNumber hint.number, hint⟩)).1

/-- A file of RFC 8259 without negative zeros is one of digits. -/
theorem digitsFile_of_rfcFile {content key : Bytes} (h : RfcFile content key)
    (hzero : ∀ text ∈ fileTexts content, text ≠ negativeZero) : DigitsFile content key := by
  obtain ⟨lead, trail, pad, elems, rfl, -, hints⟩ := h
  rw [fileTexts_render] at hzero
  refine ⟨lead, trail, pad, elems, rfl, ?_⟩
  clear pad
  induction hints with
  | nil => exact List.Forall₂.nil
  | cons hfirst _ ih =>
    refine List.Forall₂.cons ?_ (ih fun text htext => hzero text (List.mem_cons_of_mem _ htext))
    rcases hfirst.digits with ⟨hdigits, hvalue⟩ | hnegative
    · exact ⟨hdigits, hvalue⟩
    · exact absurd hnegative (hzero _ (by simp))

/-- The texts of a file of digits are digits. -/
theorem isDigits_of_digitsFile {content key : Bytes} (h : DigitsFile content key) :
    ∀ text ∈ fileTexts content, isDigits text = true := by
  obtain ⟨lead, trail, pad, elems, rfl, helems⟩ := h
  rw [fileTexts_render]
  intro text htext
  obtain ⟨e, he, rfl⟩ := List.mem_map.mp htext
  exact ((List.forall₂_and_left _ _).mp (helems.imp fun e k hdigits =>
    ⟨hdigits.digits, hdigits⟩)).1 e he

/-- The texts of a file of RFC 8259 have no needless zeros. -/
theorem not_leadingZero_of_rfcFile {content key : Bytes} (h : RfcFile content key) :
    ∀ text ∈ fileTexts content, ¬LeadingZero text := by
  obtain ⟨lead, trail, pad, elems, rfl, -, hints⟩ := h
  rw [fileTexts_render]
  intro text htext
  obtain ⟨e, he, rfl⟩ := List.mem_map.mp htext
  exact ((List.forall₂_and_left _ _).mp (hints.imp fun e k hint =>
    ⟨hint.not_leadingZero, hint⟩)).1 e he

/-! ## Main result -/

/-- **The files on which the reader follows RFC 8259.** It accepts exactly the arrays of 64
whole numbers that are the bytes of a valid key pair, and returns these bytes, unless the file
is such an array but for needless zeros in front of numbers, or one with a negative zero. -/
theorem keygenFileBytes_rfc_iff (prims : AddressPrimitives) (newKeyFromSeed : Bytes → ByteArr 64)
    (content : Bytes) :
    (∀ key, privateKeyFromSolanaKeygenFileBytes prims newKeyFromSeed content = .ok key
        ↔ RfcFile content key ∧ key.length = 64
          ∧ validatePrivateKey prims newKeyFromSeed key = .ok ())
      ↔ ∀ key : Bytes, key.length = 64 → validatePrivateKey prims newKeyFromSeed key = .ok () →
        (DigitsFile content key → ∀ text ∈ fileTexts content, ¬LeadingZero text)
          ∧ (RfcFile content key → ∀ text ∈ fileTexts content, text ≠ negativeZero) := by
  simp only [keygenFileBytes_eq_ok]
  constructor
  · intro hfollows key hlen hvalid
    refine ⟨fun hdigits => ?_, fun hrfc text htext hnegative => ?_⟩
    · exact not_leadingZero_of_rfcFile ((hfollows key).mp ⟨hdigits, hlen, hvalid⟩).1
    · have hdigits := isDigits_of_digitsFile ((hfollows key).mpr ⟨hrfc, hlen, hvalid⟩).1 text htext
      rw [hnegative] at hdigits
      exact absurd hdigits (by decide)
  · intro hclean key
    constructor
    · rintro ⟨hdigits, hlen, hvalid⟩
      exact ⟨rfcFile_of_digitsFile hdigits ((hclean key hlen hvalid).1 hdigits), hlen, hvalid⟩
    · rintro ⟨hrfc, hlen, hvalid⟩
      exact ⟨digitsFile_of_rfcFile hrfc ((hclean key hlen hvalid).2 hrfc), hlen, hvalid⟩

/-- The ed25519 public key of the seed of 32 zeros. -/
def zeroSeedPublicKey : Bytes :=
  [59, 106, 39, 188, 206, 182, 164, 45, 98, 163, 168, 208, 42, 111, 13, 115, 101, 50, 21, 119, 29,
    226, 67, 166, 58, 192, 72, 161, 139, 89, 218, 41]

/-- The key pair of that seed, as `NewKeyFromSeed` returns it. -/
def zeroSeedKey : Bytes := List.replicate 32 0 ++ zeroSeedPublicKey

/-- A file of that key pair with a needless zero in its first number. -/
def paddedKeyFile : Bytes :=
  let numbers := zeroSeedKey.map fun b => (Nat.toDigits 10 b.toNat).map fun c => UInt8.ofNat c.toNat
  openBracket :: 48 :: (List.intercalate [comma] numbers ++ [closeBracket])

/-- **The needless zero is accepted.** -/
theorem paddedKeyFile_accepted :
    privateKeyFromSolanaKeygenFileBytes ⟨fun _ => ByteArr.zero 32, fun _ => true⟩
          (fun seed => ByteArr.copyFrom 64 (seed ++ zeroSeedPublicKey)) paddedKeyFile
        = .ok zeroSeedKey
      ∧ ∀ key, ¬RfcFile paddedKeyFile key := by
  refine ⟨by decide +kernel, fun key hrfc => ?_⟩
  have htexts : [48, 48] ∈ fileTexts paddedKeyFile := by decide +kernel
  exact not_leadingZero_of_rfcFile hrfc _ htexts ⟨48, [], rfl⟩

end SolanaGo
