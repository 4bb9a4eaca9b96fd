/-
`data.go` and `json.go`: strings of JSON without a general decoder.

Most strings of RPC answers are base58 or base64 and have nothing to unescape. `jsonUnquote`
and `parseStringPair` take such a string, or an array of two of them, out of the text as it
stands, and leave every other text to `sonic`. `fastPaths_decode` says that what they take is
what RFC 8259 makes of the text: the text is one of a string, or of two, and stands for these
and no others. It needs the text to be UTF-8, which neither of them looks at.

`Data` is bytes with the name of an encoding. What `MarshalJSON` writes is read back by the
fast path, without `sonic`.

Base58, base64 and zstd are parameters. As in Go a string is its bytes; a nil and an empty
slice are one.
-/
import SolanaGo.Lib.Base64
import SolanaGo.Lib.JsonString
import SolanaGo.MessageJson.RoundTrip

set_option autoImplicit false

namespace SolanaGo

open Codec Json Utf8

/-! ## The model -/

/-- `base64.StdEncoding`. -/
structure Base64Package where
  encode : Bytes → Bytes
  decode : Bytes → Except Err Bytes

/-- The codecs of `zstd`. -/
structure ZstdPackage where
  /-- `EncodeAll` -/
  encodeAll : Bytes → Bytes
  /-- `DecodeAll` -/
  decodeAll : Bytes → Except Err Bytes

/-- The encodings a switch of the source knows, the empty string last. -/
def encodingNames : List Bytes := [ascii "base58", ascii "base64", ascii "base64+zstd", []]

/-- `type EncodingType string`. -/
inductive EncodingType where
  | base58
  | base64
  | base64Zstd
  /-- the empty string -/
  | unset
  | other (name : Bytes) (h : name ∉ encodingNames)
  deriving DecidableEq

/-- The string of an encoding. -/
def EncodingType.name : EncodingType → Bytes
  | .base58 => ascii "base58"
  | .base64 => ascii "base64"
  | .base64Zstd => ascii "base64+zstd"
  | .unset => []
  | .other name _ => name

/-- The encoding of a string. -/
def EncodingType.ofName (name : Bytes) : EncodingType :=
  if h1 : name = ascii "base58" then .base58
  else if h2 : name = ascii "base64" then .base64
  else if h3 : name = ascii "base64+zstd" then .base64Zstd
  else if h4 : name = [] then .unset
  else .other name (by simp [encodingNames, h1, h2, h3, h4])

/-- `type Data struct`. -/
structure Data where
  content : Bytes
  encoding : EncodingType
  deriving DecidableEq

/-- The text of two strings that need no escape. -/
def pairJSON (first second : Bytes) : Bytes :=
  openBracket :: quote :: (first ++ (quote :: comma :: quote :: (second ++ [quote, closeBracket])))

/-- The loop of `parseSimpleJSONString`: the string, and what is behind its quote. -/
def scanSimple : Bytes → Option (Bytes × Bytes)
  | [] => none
  | c :: rest =>
    if c = quote then some ([], rest)
    else if c = backslash ∨ c < 0x20 then none
    else (scanSimple rest).map fun scanned => (c :: scanned.1, scanned.2)

/-- `parseSimpleJSONString`. -/
def parseSimpleJSONString : Bytes → Option (Bytes × Bytes)
  | [] => none
  | c :: rest => if c = quote then scanSimple rest else none

/-- The text behind a byte that has to come next, white space apart. -/
def expectByte (c : UInt8) (data : Bytes) : Option Bytes :=
  match skipSpace data with
  | [] => none
  | d :: rest => if d = c then some rest else none

/-- `parseStringPair`. -/
def parseStringPair (data : Bytes) : Option (Bytes × Bytes) := do
  let rest ← expectByte openBracket data
  let (first, rest) ← parseSimpleJSONString (skipSpace rest)
  let rest ← expectByte comma rest
  let (second, rest) ← parseSimpleJSONString (skipSpace rest)
  let rest ← expectByte closeBracket rest
  if skipSpace rest = [] then some (first, second) else none

/-- The fast path of `jsonUnquote`. -/
def unquoteInPlace (data : Bytes) : Option Bytes :=
  let raw := data.tail.dropLast
  if 2 ≤ data.length ∧ data.head? = some quote ∧ data.getLast? = some quote
      ∧ raw.all (fun c => !(c == backslash || c == quote || c < 0x20)) = true then some raw
  else none

section Model

variable (b58 : Base58Package) (b64 : Base64Package) (zstd : ZstdPackage)
  -- the text `%q` makes of a string
  (fmtQ : Bytes → String)

/-- `Data.MarshalJSON`. -/
def Data.marshalJSON (t : Data) : Except Err Bytes :=
  match t.encoding with
  | .base58 => .ok (pairJSON (b58.encode t.content) t.encoding.name)
  | .base64 => .ok (pairJSON (b64.encode t.content) t.encoding.name)
  | .base64Zstd =>
    if t.content.length = 0 then .ok (pairJSON [] t.encoding.name)
    else .ok (pairJSON (b64.encode (zstd.encodeAll t.content)) t.encoding.name)
  | .unset =>
    -- the zero value is representable only with no content
    if 0 < t.content.length then
      .error { msg := "cannot marshal Data with unsupported encoding " ++ fmtQ t.encoding.name }
    else .ok (pairJSON [] [])
  | .other _ _ =>
    .error { msg := "cannot marshal Data with unsupported encoding " ++ fmtQ t.encoding.name }

/-- The first switch of `UnmarshalJSON`: only an encoding that can be written is stored. -/
def checkEncoding (content encoding : Bytes) : Except Err EncodingType :=
  match EncodingType.ofName encoding with
  | .base58 => .ok .base58
  | .base64 => .ok .base64
  | .base64Zstd => .ok .base64Zstd
  | .unset =>
    if content ≠ [] then .error { msg := "unsupported encoding " ++ fmtQ encoding }
    else .ok .unset
  | .other _ _ => .error { msg := "unsupported encoding " ++ fmtQ encoding }

/-- The second switch of `UnmarshalJSON`. -/
def decodeContent (encoding : EncodingType) (content : Bytes) : Except Err Bytes :=
  match encoding with
  | .base58 => b58.decode content
  | .base64 => b64.decode content
  | _ => do
    let compressed ← b64.decode content
    zstd.decodeAll compressed

/-- What `UnmarshalJSON` makes of the two strings. -/
def dataOfPair (content encoding : Bytes) : Except Err Data := do
  let encoding ← checkEncoding fmtQ content encoding
  if content = [] then .ok ⟨[], encoding⟩
  else do
    let content ← decodeContent b58 b64 zstd encoding content
    .ok ⟨content, encoding⟩

/-- `Data.UnmarshalJSON`. -/
def Data.unmarshalJSON (sonic : SonicUnmarshal) (data : Bytes) : Except Err Data :=
  match parseStringPair data with
  | some (content, encoding) => dataOfPair b58 b64 zstd fmtQ content encoding
  | none => do
    let strings ← sonic.intoSlice [] (fun old text => do
      let s ← sonic.string text
      .ok (s.getD old)) [] data
    match strings with
    | [content, encoding] => dataOfPair b58 b64 zstd fmtQ content encoding
    | _ =>
      .error { msg := "invalid length for Data, expected 2, found " ++ toString strings.length }

end Model

/-! ## The fast paths -/

/-- `jsonUnquote` takes its fast path, or asks `sonic`. -/
theorem jsonUnquote_eq (sonic : SonicUnmarshal) (data : Bytes) :
    jsonUnquote sonic data
      = match unquoteInPlace data with
        | some raw => .ok raw
        | none => (sonic.string data).bind fun s => .ok (s.getD []) := by
  unfold jsonUnquote unquoteInPlace
  dsimp only
  split
  · rfl
  · rfl

theorem unquoteInPlace_eq_some {data s : Bytes} (h : unquoteInPlace data = some s) :
    data = quote :: (s ++ [quote]) ∧ Clean s := by
  unfold unquoteInPlace at h
  dsimp only at h
  by_cases hfast : 2 ≤ data.length ∧ data.head? = some quote ∧ data.getLast? = some quote
      ∧ data.tail.dropLast.all (fun c => !(c == backslash || c == quote || c < 0x20)) = true
  · rw [if_pos hfast] at h
    obtain rfl := Option.some.inj h
    obtain ⟨hlen, hhead, hlast, hclean⟩ := hfast
    refine ⟨?_, List.all_eq_true.mp hclean⟩
    cases data with
    | nil => cases hhead
    | cons c data =>
      obtain rfl : c = quote := Option.some.inj hhead
      rw [List.tail_cons]
      rcases List.eq_nil_or_concat data with rfl | ⟨raw, d, rfl⟩
      · simp at hlen
      · rw [List.concat_eq_append, ← List.cons_append, List.getLast?_concat] at hlast
        obtain rfl : d = quote := Option.some.inj hlast
        rw [List.concat_eq_append, List.dropLast_concat]
  · rw [if_neg hfast] at h
    cases h

/-- **What is scanned of a string**: its contents up to the quote, if they are clean. -/
theorem scanSimple_eq_some {rest s next : Bytes} :
    scanSimple rest = some (s, next) ↔ rest = s ++ quote :: next ∧ Clean s := by
  induction rest generalizing s with
  | nil =>
    rw [scanSimple]
    refine iff_of_false (by simp) ?_
    rintro ⟨h, -⟩
    simp at h
  | cons c rest ih =>
    rw [scanSimple]
    by_cases hquote : c = quote
    · rw [if_pos hquote, hquote]
      constructor
      · rintro ⟨⟩
        refine ⟨rfl, ?_⟩
        intro c hc
        exact absurd hc List.not_mem_nil
      · rintro ⟨hrest, hclean⟩
        cases s with
        | nil =>
          obtain ⟨-, rfl⟩ := List.cons.inj hrest
          rfl
        | cons d s =>
          obtain ⟨rfl, -⟩ := List.cons.inj hrest
          exact absurd (hclean _ List.mem_cons_self) (by decide)
    · rw [if_neg hquote]
      by_cases hstop : c = backslash ∨ c < 0x20
      · -- neither an escape nor a control byte is clean
        rw [if_pos hstop]
        refine iff_of_false (by simp) ?_
        rintro ⟨hrest, hclean⟩
        cases s with
        | nil =>
          obtain ⟨rfl, -⟩ := List.cons.inj hrest
          exact hquote rfl
        | cons d s =>
          obtain ⟨rfl, -⟩ := List.cons.inj hrest
          obtain ⟨hback, -, hcontrol⟩ := isClean_iff.mp (hclean _ List.mem_cons_self)
          rcases hstop with h | h
          · exact hback h
          · exact hcontrol h
      · rw [if_neg hstop, Option.map_eq_some_iff]
        obtain ⟨hback, hcontrol⟩ := not_or.mp hstop
        constructor
        · rintro ⟨⟨s', next'⟩, hscan, heq⟩
          cases heq
          obtain ⟨rfl, hclean⟩ := ih.mp hscan
          refine ⟨rfl, fun d hd => ?_⟩
          rcases List.mem_cons.mp hd with rfl | hd
          · exact isClean_iff.mpr ⟨hback, hquote, hcontrol⟩
          · exact hclean d hd
        · rintro ⟨hrest, hclean⟩
          cases s with
          | nil =>
            obtain ⟨rfl, -⟩ := List.cons.inj hrest
            exact absurd rfl hquote
          | cons d s =>
            obtain ⟨rfl, htail⟩ := List.cons.inj hrest
            exact ⟨(s, next), ih.mpr ⟨htail, hclean.tail⟩, rfl⟩

theorem parseSimpleJSONString_eq_some {data s next : Bytes} :
    parseSimpleJSONString data = some (s, next)
      ↔ data = quote :: (s ++ quote :: next) ∧ Clean s := by
  cases data with
  | nil => simp [parseSimpleJSONString]
  | cons c rest =>
    rw [parseSimpleJSONString, List.cons.injEq]
    by_cases hquote : c = quote
    · rw [if_pos hquote, scanSimple_eq_some]
      simp only [hquote, true_and]
    · rw [if_neg hquote]
      simp [hquote]

theorem expectByte_eq_some {c : UInt8} {data rest : Bytes} (h : expectByte c data = some rest) :
    ∃ ws : Space, data = ws.1 ++ c :: rest := by
  obtain ⟨ws, hdata, -⟩ := exists_space data
  unfold expectByte at h
  cases hskip : skipSpace data with
  | nil =>
    rw [hskip] at h
    cases h
  | cons d next =>
    rw [hskip] at h hdata
    dsimp only at h
    by_cases hd : d = c
    · rw [if_pos hd] at h
      obtain rfl := Option.some.inj h
      exact ⟨ws, by rw [← hd, ← hdata]⟩
    · rw [if_neg hd] at h
      cases h

theorem expectByte_cons {c : UInt8} (hc : isSpace c = false) (rest : Bytes) :
    expectByte c (c :: rest) = some rest := by
  have hskip : skipSpace (c :: rest) = c :: rest := skipSpace_append blank hc rest
  unfold expectByte
  rw [hskip]
  exact if_pos rfl

/-- A text of two clean strings, with the white space it has. -/
structure CleanPair (data first second : Bytes) : Prop where
  shape : ∃ lead before after before' after' trail : Space,
    data = (lead.1 ++ openBracket :: before.1) ++ quote :: (first ++ quote ::
      ((after.1 ++ comma :: before'.1) ++ quote :: (second ++ quote ::
        (after'.1 ++ closeBracket :: trail.1))))
  first : Clean first
  second : Clean second

/-- **What `parseStringPair` accepts.** -/
theorem parseStringPair_eq_some {data first second : Bytes}
    (h : parseStringPair data = some (first, second)) : CleanPair data first second := by
  unfold parseStringPair at h
  simp only [Option.bind_eq_bind, Option.bind_eq_some_iff, Prod.exists] at h
  obtain ⟨rest1, hopen, s, rest2, hfirst, rest3, hcomma, s', rest4, hsecond, rest5, hclose,
    hend⟩ := h
  by_cases htrail : skipSpace rest5 = []
  · rw [if_pos htrail] at hend
    obtain ⟨rfl, rfl⟩ := Prod.mk.inj (Option.some.inj hend)
    obtain ⟨lead, hlead⟩ := expectByte_eq_some hopen
    obtain ⟨before, hbefore, -⟩ := exists_space rest1
    obtain ⟨hrest1, hclean⟩ := parseSimpleJSONString_eq_some.mp hfirst
    obtain ⟨after, hafter⟩ := expectByte_eq_some hcomma
    obtain ⟨before', hbefore', -⟩ := exists_space rest3
    obtain ⟨hrest3, hclean'⟩ := parseSimpleJSONString_eq_some.mp hsecond
    obtain ⟨after', hafter'⟩ := expectByte_eq_some hclose
    obtain ⟨trail, hend, -⟩ := exists_space rest5
    refine ⟨⟨lead, before, after, before', after', trail, ?_⟩, hclean, hclean'⟩
    rw [htrail, List.append_nil] at hend
    rw [hrest1] at hbefore
    rw [hrest3] at hbefore'
    rw [hlead, hbefore, hafter, hbefore', hafter', hend]
    simp only [List.append_assoc, List.cons_append]
  · rw [if_neg htrail] at hend
    cases hend

/-- **What `parseStringPair` makes of the text of two clean strings.** -/
theorem parseStringPair_pairJSON {first second : Bytes} (hfirst : Clean first)
    (hsecond : Clean second) :
    parseStringPair (pairJSON first second) = some (first, second) := by
  have hskip : ∀ rest, skipSpace (quote :: rest) = quote :: rest :=
    fun rest => skipSpace_append blank (by decide) rest
  have hstring : ∀ {s : Bytes} (rest : Bytes), Clean s →
      parseSimpleJSONString (quote :: (s ++ quote :: rest)) = some (s, rest) :=
    fun rest hs => parseSimpleJSONString_eq_some.mpr ⟨rfl, hs⟩
  unfold parseStringPair pairJSON
  simp only [Option.bind_eq_bind]
  rw [expectByte_cons (by decide), Option.bind_some, hskip, hstring _ hfirst, Option.bind_some]
  dsimp only
  rw [expectByte_cons (by decide), Option.bind_some, hskip, hstring _ hsecond, Option.bind_some]
  dsimp only
  rw [expectByte_cons (by decide), Option.bind_some]
  exact if_pos rfl

/-- **The fast path of a string is a decode of RFC 8259.** -/
theorem stringText_of_unquoteInPlace {data s : Bytes} (hutf8 : isUtf8 data = true)
    (h : unquoteInPlace data = some s) : StringText data s := by
  obtain ⟨rfl, hclean⟩ := unquoteInPlace_eq_some h
  obtain ⟨-, hinside⟩ := isUtf8_append (a := []) (by decide) hutf8
  obtain ⟨hs, -⟩ := isUtf8_append (by decide) hinside
  refine ⟨blank, blank, hclean.text, ?_, hclean.valid hs, hclean.unescape⟩
  rw [hclean.render]
  show quote :: (s ++ [quote]) = [] ++ (quote :: (s ++ [quote]) ++ [])
  rw [List.nil_append, List.append_nil]

/-- **The fast path of a pair is a decode of RFC 8259.** -/
theorem pairText_of_parseStringPair {data first second : Bytes} (hutf8 : isUtf8 data = true)
    (h : parseStringPair data = some (first, second)) : PairText data first second := by
  obtain ⟨⟨lead, before, after, before', after', trail, rfl⟩, hfirst, hsecond⟩ :=
    parseStringPair_eq_some h
  -- a quote is a character of its own, so the text may be cut at each
  obtain ⟨-, h1⟩ := isUtf8_append (by decide) hutf8
  obtain ⟨hutf81, h2⟩ := isUtf8_append (by decide) h1
  obtain ⟨-, h3⟩ := isUtf8_append (by decide) h2
  obtain ⟨hutf82, -⟩ := isUtf8_append (by decide) h3
  refine ⟨lead, trail, blank, before, after, before', after', hfirst.text, hsecond.text, ?_, ?_,
    hfirst.unescape, hsecond.unescape⟩
  · rw [Value.render, renderElements, moreElements, moreElements, hfirst.render, hsecond.render]
    simp only [List.append_assoc, List.cons_append, List.nil_append]
  · rw [Value.valid, validElements_iff]
    intro e he
    rcases List.mem_pair.mp he with rfl | rfl
    · exact hfirst.valid hutf81
    · exact hsecond.valid hutf82

/-! ## `Data` there and back -/

/-- **Base64 is invertible**: `StdEncoding` decodes what it encodes, in its alphabet. -/
structure Base64Package.Invertible (b64 : Base64Package) : Prop where
  decode_encode : ∀ bs, b64.decode (b64.encode bs) = .ok bs
  encode_nil : b64.encode [] = []
  /-- letters, digits, `+`, `/` and `=` -/
  clean : ∀ bs, Clean (b64.encode bs)

/-- **Zstd is invertible**: `DecodeAll` gives what `EncodeAll` was given, and of no input
nothing. -/
structure ZstdPackage.Invertible (zstd : ZstdPackage) : Prop where
  decode_encode : ∀ bs, zstd.decodeAll (zstd.encodeAll bs) = .ok bs
  decode_nil : zstd.decodeAll [] = .ok []

theorem clean_of_alphabet {text : Bytes} (h : ∀ c ∈ text, c ∈ Base58.alphabet) : Clean text := by
  have halphabet : ∀ c ∈ Base58.alphabet, isClean c = true := by decide +kernel
  exact fun c hc => halphabet c (h c hc)

theorem clean_nil : Clean [] := fun _ hc => absurd hc List.not_mem_nil

section RoundTrip

variable {b58 : Base58Package} {b64 : Base64Package} {zstd : ZstdPackage} {fmtQ : Bytes → String}

/-- A `Data` comes back if its text stands for its content, and no text for none. -/
theorem dataOfPair_eq {text content : Bytes} {e : EncodingType}
    (hcheck : checkEncoding fmtQ text e.name = .ok e) (hempty : text = [] → content = [])
    (hdecode : text ≠ [] → decodeContent b58 b64 zstd e text = .ok content) :
    dataOfPair b58 b64 zstd fmtQ text e.name = .ok ⟨content, e⟩ := by
  unfold dataOfPair
  rw [hcheck]
  show (if text = [] then _ else _) = _
  by_cases htext : text = []
  · rw [if_pos htext, hempty htext]
  · rw [if_neg htext, hdecode htext]
    rfl

/-- What is written comes back without `sonic`. -/
theorem unmarshalJSON_pairJSON {content encoding : Bytes} (hcontent : Clean content)
    (hencoding : Clean encoding) (sonic : SonicUnmarshal) :
    Data.unmarshalJSON b58 b64 zstd fmtQ sonic (pairJSON content encoding)
      = dataOfPair b58 b64 zstd fmtQ content encoding := by
  unfold Data.unmarshalJSON
  rw [parseStringPair_pairJSON hcontent hencoding]

/-- An invertible encoding writes nothing only of nothing. -/
theorem eq_nil_of_encode_eq_nil {encode : Bytes → Bytes} {decode : Bytes → Except Err Bytes}
    (hinv : ∀ bs, decode (encode bs) = .ok bs) (hnil : encode [] = []) {bs : Bytes}
    (h : encode bs = []) : bs = [] := by
  have hbs := hinv bs
  rw [h, ← hnil, hinv []] at hbs
  exact (Except.ok.inj hbs).symm

/-- A frame of zstd is not empty unless what it holds is. -/
theorem ZstdPackage.Invertible.eq_nil (hzstd : zstd.Invertible) {bs : Bytes}
    (h : zstd.encodeAll bs = []) : bs = [] := by
  have hbs := hzstd.decode_encode bs
  rw [h, hzstd.decode_nil] at hbs
  exact (Except.ok.inj hbs).symm

/-- **What `MarshalJSON` accepts, `UnmarshalJSON` gives back.** -/
theorem Data.unmarshalJSON_marshalJSON (hb58 : b58.Invertible) (hb64 : b64.Invertible)
    (hzstd : zstd.Invertible) (sonic : SonicUnmarshal) {t : Data} {data : Bytes}
    (h : t.marshalJSON b58 b64 zstd fmtQ = .ok data) :
    Data.unmarshalJSON b58 b64 zstd fmtQ sonic data = .ok t := by
  obtain ⟨content, encoding⟩ := t
  unfold Data.marshalJSON at h
  dsimp only at h
  cases encoding with
  | base58 =>
    obtain rfl := Except.ok.inj h
    rw [unmarshalJSON_pairJSON (clean_of_alphabet (hb58.alphabet content)) (by decide +kernel)]
    refine dataOfPair_eq rfl ?_ fun _ => hb58.decode_encode content
    exact eq_nil_of_encode_eq_nil hb58.decode_encode hb58.encode_nil
  | base64 =>
    obtain rfl := Except.ok.inj h
    rw [unmarshalJSON_pairJSON (hb64.clean content) (by decide +kernel)]
    refine dataOfPair_eq rfl ?_ fun _ => hb64.decode_encode content
    exact eq_nil_of_encode_eq_nil hb64.decode_encode hb64.encode_nil
  | base64Zstd =>
    by_cases hcontent : content.length = 0
    · rw [if_pos hcontent] at h
      obtain rfl := Except.ok.inj h
      obtain rfl := List.length_eq_zero_iff.mp hcontent
      rw [unmarshalJSON_pairJSON clean_nil (by decide +kernel)]
      exact dataOfPair_eq rfl (fun _ => rfl) fun hne => absurd rfl hne
    · rw [if_neg hcontent] at h
      obtain rfl := Except.ok.inj h
      rw [unmarshalJSON_pairJSON (hb64.clean _) (by decide +kernel)]
      refine dataOfPair_eq rfl ?_ fun _ => ?_
      · intro hempty
        exact hzstd.eq_nil
          (eq_nil_of_encode_eq_nil hb64.decode_encode hb64.encode_nil hempty)
      · show (do
          let compressed ← b64.decode (b64.encode (zstd.encodeAll content))
          zstd.decodeAll compressed) = _
        rw [hb64.decode_encode]
        exact hzstd.decode_encode content
  | unset =>
    by_cases hcontent : 0 < content.length
    · rw [if_pos hcontent] at h
      cases h
    · rw [if_neg hcontent] at h
      obtain rfl := Except.ok.inj h
      obtain rfl : content = [] := List.length_eq_zero_iff.mp (Nat.eq_zero_of_not_pos hcontent)
      rw [unmarshalJSON_pairJSON clean_nil clean_nil]
      exact dataOfPair_eq (e := .unset) rfl (fun _ => rfl) fun hne => absurd rfl hne
  | other name hname => cases h

/-- **The fast paths decode JSON.** Of a text in UTF-8, what the fast path of `jsonUnquote` or
`parseStringPair` takes is what RFC 8259 makes of it; and a `Data` that `MarshalJSON` accepts
is the one that `UnmarshalJSON` gives. -/
theorem fastPaths_decode (hb58 : b58.Invertible) (hb64 : b64.Invertible)
    (hzstd : zstd.Invertible) (fmtQ : Bytes → String) (sonic : SonicUnmarshal) :
    (∀ data s, isUtf8 data = true → unquoteInPlace data = some s →
      jsonUnquote sonic data = .ok s ∧ ∀ s', StringText data s' ↔ s' = s)
    ∧ (∀ data first second, isUtf8 data = true → parseStringPair data = some (first, second) →
      ∀ first' second', PairText data first' second' ↔ first' = first ∧ second' = second)
    ∧ ∀ (t : Data) (data : Bytes), t.marshalJSON b58 b64 zstd fmtQ = .ok data →
      Data.unmarshalJSON b58 b64 zstd fmtQ sonic data = .ok t := by
  refine ⟨fun data s hutf8 hfast => ⟨?_, fun s' => ?_⟩, fun data first second hutf8 hfast => ?_,
    fun t data h => Data.unmarshalJSON_marshalJSON hb58 hb64 hzstd sonic h⟩
  · rw [jsonUnquote_eq, hfast]
  · have htext := stringText_of_unquoteInPlace hutf8 hfast
    constructor
    · exact fun h => h.unique htext
    · rintro rfl
      exact htext
  · have htext := pairText_of_parseStringPair hutf8 hfast
    intro first' second'
    constructor
    · exact fun h => h.unique htext
    · rintro ⟨rfl, rfl⟩
      exact htext

end RoundTrip

/-! ## The packages -/

/-- Base64 as `Lib/Base64` has it. -/
def base64 : Base64Package where
  encode := Base64.encode
  decode text :=
    match Base64.decode text with
    | none => .error { msg := "base64" }
    | some bs => .ok bs

theorem base64_invertible : base64.Invertible where
  decode_encode bs := by
    show (match Base64.decode (Base64.encode bs) with
      | none => _
      | some bs => _) = _
    rw [Base64.decode_encode]
  encode_nil := Base64.encode_nil
  clean bs c hc := by
    have halphabet : ∀ c ∈ Base64.alphabet, isClean c = true := by decide +kernel
    rcases Base64.encode_mem bs c hc with h | rfl
    · exact halphabet c h
    · decide

/-- A compression that leaves its input as it is. -/
def stored : ZstdPackage where
  encodeAll bs := bs
  decodeAll bs := .ok bs

theorem stored_invertible : stored.Invertible where
  decode_encode _ := rfl
  decode_nil := rfl

/-- Two bytes in base64, which are one group and its padding. -/
theorem fastPaths_decode_base64 :
    (∃ data, (⟨[1, 2], .base64⟩ : Data).marshalJSON base58 base64 stored (fun _ => "") = .ok data
      ∧ Data.unmarshalJSON base58 base64 stored (fun _ => "") jsonDecoder data
        = .ok ⟨[1, 2], .base64⟩)
    ∧ (isUtf8 (ascii "\"AQI=\"") = true
      ∧ ∀ s, StringText (ascii "\"AQI=\"") s ↔ s = ascii "AQI=") :=
  ⟨⟨_, rfl, (fastPaths_decode base58_invertible base64_invertible stored_invertible _ _).2.2 _ _
      rfl⟩,
    by decide +kernel,
    ((fastPaths_decode base58_invertible base64_invertible stored_invertible (fun _ => "")
      jsonDecoder).1 _ _ (by decide +kernel) (by decide +kernel)).2⟩

end SolanaGo
