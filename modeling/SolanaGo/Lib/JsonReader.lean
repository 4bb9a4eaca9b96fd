/-
A reader of JSON texts that hands out the texts of their parts.

A decoder into typed records does not need a tree: of an array it wants the texts of the
elements, of an object the keys and the texts of the values, and it goes on with those. The
reader finds where a value ends by recursive descent (`skipValue`), with twice the length of
the text as the bound on its depth. On the text of any syntax tree it takes the whole value
and nothing behind it (`skipValue_render`), so the parts it hands out are the parts of the
tree (`arrayTexts_render`, `objectTexts_render`).
-/
import SolanaGo.Lib.JsonGrammar

set_option autoImplicit false

namespace Json

open Codec (Bytes)

/-! ## The reader -/

/-- The text behind white space. -/
def skipSpace (bs : Bytes) : Bytes := bs.dropWhile isSpace

/-- The text behind the closing quote. -/
def skipString : Bytes → Option Bytes
  | [] => none
  | c :: cs =>
    if c == quote then some cs
    else if c == backslash then
      match cs with
      | [] => none
      | _ :: cs => skipString cs
    else skipString cs

/-- What was read, given what is left. -/
def readSoFar (bs rest : Bytes) : Bytes := bs.take (bs.length - rest.length)

mutual

/-- The text behind a value. -/
def skipValue : ℕ → Bytes → Option Bytes
  | 0, _ => none
  | _ + 1, [] => none
  | n + 1, c :: cs =>
    if c == quote then skipString cs
    else if c == openBracket then (readArray n cs).map Prod.snd
    else if c == openBrace then (readObject n cs).map Prod.snd
    else if isScalarByte c then some (cs.dropWhile isScalarByte)
    else none

/-- The elements of an array, from behind its bracket, and the text behind it. -/
def readArray : ℕ → Bytes → Option (List Bytes × Bytes)
  | 0, _ => none
  | n + 1, bs =>
    match skipSpace bs with
    | [] => none
    | c :: cs => if c == closeBracket then some ([], cs) else readElements n bs

/-- One element or more, and the closing bracket. -/
def readElements : ℕ → Bytes → Option (List Bytes × Bytes)
  | 0, _ => none
  | n + 1, bs => do
    let bs := skipSpace bs
    let rest ← skipValue n bs
    match skipSpace rest with
    | [] => none
    | c :: cs =>
      if c == closeBracket then some ([readSoFar bs rest], cs)
      else if c == comma then do
        let (texts, rest') ← readElements n cs
        some (readSoFar bs rest :: texts, rest')
      else none

/-- The members of an object, from behind its brace, and the text behind it. -/
def readObject : ℕ → Bytes → Option (List (Bytes × Bytes) × Bytes)
  | 0, _ => none
  | n + 1, bs =>
    match skipSpace bs with
    | [] => none
    | c :: cs => if c == closeBrace then some ([], cs) else readMembers n bs

/-- One member or more, and the closing brace. -/
def readMembers : ℕ → Bytes → Option (List (Bytes × Bytes) × Bytes)
  | 0, _ => none
  | n + 1, bs =>
    match skipSpace bs with
    | [] => none
    | c :: key =>
      if c == quote then do
        let behind ← skipString key
        match skipSpace behind with
        | [] => none
        | c :: cs =>
          if c == colon then do
            let bs := skipSpace cs
            let rest ← skipValue n bs
            let member := ((readSoFar key behind).dropLast, readSoFar bs rest)
            match skipSpace rest with
            | [] => none
            | c :: cs =>
              if c == closeBrace then some ([member], cs)
              else if c == comma then do
                let (members, rest') ← readMembers n cs
                some (member :: members, rest')
              else none
          else none
      else none

end

/-- Only white space. -/
def isBlank (bs : Bytes) : Bool := bs.all isSpace

/-- The texts of the elements of an array that is the whole text. -/
def arrayTexts (text : Bytes) : Option (List Bytes) :=
  match skipSpace text with
  | [] => none
  | c :: cs =>
    if c == openBracket then do
      let (texts, rest) ← readArray (2 * text.length) cs
      if isBlank rest then some texts else none
    else none

/-- The keys and value texts of an object that is the whole text. -/
def objectTexts (text : Bytes) : Option (List (Bytes × Bytes)) :=
  match skipSpace text with
  | [] => none
  | c :: cs =>
    if c == openBrace then do
      let (members, rest) ← readObject (2 * text.length) cs
      if isBlank rest then some members else none
    else none

/-! ## Pieces of text -/

theorem skipSpace_append (ws : Space) {c : UInt8} (hc : isSpace c = false) (t : Bytes) :
    skipSpace (ws.1 ++ c :: t) = c :: t := by
  unfold skipSpace
  rw [List.dropWhile_append_of_pos (List.all_eq_true.mp ws.2),
    List.dropWhile_cons_of_neg (by simp [hc])]

/-- White space is split off. -/
theorem exists_space (bs : Bytes) :
    ∃ ws : Space, bs = ws.1 ++ skipSpace bs ∧ ∀ c ∈ (skipSpace bs).head?, isSpace c = false := by
  have hall : (bs.takeWhile isSpace).all isSpace = true := by
    rw [List.all_eq_true]
    exact fun c hc => List.mem_takeWhile_imp hc
  refine ⟨⟨bs.takeWhile isSpace, hall⟩, List.takeWhile_append_dropWhile.symm, fun c hc => ?_⟩
  have hhead := List.head?_dropWhile_not isSpace bs
  unfold skipSpace at hc
  rw [Option.mem_def.mp hc] at hhead
  exact hhead

theorem skipSpace_space (ws : Space) : skipSpace ws.1 = [] :=
  List.dropWhile_eq_nil_iff.mpr (List.all_eq_true.mp ws.2)

theorem skipSpace_skipSpace (bs : Bytes) : skipSpace (skipSpace bs) = skipSpace bs := by
  obtain ⟨-, -, hhead⟩ := exists_space bs
  cases hbs : skipSpace bs with
  | nil => rfl
  | cons c t =>
    rw [hbs] at hhead
    exact List.dropWhile_cons_of_neg (by simp [hhead c rfl])

theorem readSoFar_append (bs t : Bytes) : readSoFar (bs ++ t) t = bs := by
  unfold readSoFar
  rw [List.length_append, Nat.add_sub_cancel, List.take_left]

theorem skipString_quote (t : Bytes) : skipString (quote :: t) = some t := by
  rw [skipString.eq_def]
  rfl

theorem skipString_cons {c : UInt8} (hquote : c ≠ quote) (hback : c ≠ backslash) (t : Bytes) :
    skipString (c :: t) = skipString t := by
  rw [skipString.eq_def]
  dsimp only
  rw [if_neg (by simpa using hquote), if_neg (by simpa using hback)]

theorem skipString_text {text : Bytes} (h : isStringText text = true) (t : Bytes) :
    skipString (text ++ quote :: t) = some t := by
  fun_induction isStringText text with
  | case1 => exact skipString_quote t
  | case2 c =>
    simp only [Bool.and_eq_true, bne_iff_ne] at h
    rw [List.singleton_append, skipString_cons h.1 h.2]
    exact skipString_quote t
  | case3 c c' cs hback ih =>
    rw [beq_iff_eq] at hback
    subst hback
    rw [List.cons_append, List.cons_append, skipString]
    exact ih h
  | case4 c c' cs hback ih =>
    rw [beq_iff_eq] at hback
    rw [Bool.and_eq_true, bne_iff_ne] at h
    rw [List.cons_append, skipString_cons h.1 hback]
    exact ih h.2

/-- What may follow a scalar. -/
def Ends (t : Bytes) : Prop := ∀ c ∈ t.head?, isScalarByte c = false

theorem ends_cons {c : UInt8} (hc : isScalarByte c = false) (t : Bytes) : Ends (c :: t) := by
  intro c' hc'
  obtain rfl : c = c' := Option.some.inj hc'
  exact hc

/-- White space, and then what may follow a scalar. -/
theorem ends_space (ws : Space) {t : Bytes} (ht : Ends t) : Ends (ws.1 ++ t) := by
  obtain ⟨ws, hws⟩ := ws
  cases ws with
  | nil => exact ht
  | cons c ws =>
    rw [List.all_cons, Bool.and_eq_true] at hws
    refine ends_cons ?_ _
    unfold isScalarByte
    rw [hws.1]
    rfl

theorem skipValue_scalar (text : Scalar) {t : Bytes} (ht : Ends t) (n : ℕ) :
    skipValue (n + 1) (text.1 ++ t) = some t := by
  obtain ⟨text, hne, hall⟩ := text
  cases text with
  | nil => exact absurd rfl hne
  | cons c cs =>
    have hcs := List.all_eq_true.mp hall
    have hc := hcs c List.mem_cons_self
    have hkinds : c ≠ quote ∧ c ≠ openBracket ∧ c ≠ openBrace := by
      refine ⟨?_, ?_, ?_⟩ <;> (rintro rfl; exact absurd hc (by decide))
    have hrest : t.dropWhile isScalarByte = t := by
      cases t with
      | nil => rfl
      | cons c' t => exact List.dropWhile_cons_of_neg (by simp [ht c' rfl])
    show skipValue (n + 1) (c :: (cs ++ t)) = some t
    rw [skipValue, if_neg (by simpa using hkinds.1), if_neg (by simpa using hkinds.2.1),
      if_neg (by simpa using hkinds.2.2), if_pos hc,
      List.dropWhile_append_of_pos fun c' hc' => hcs c' (List.mem_cons_of_mem _ hc'), hrest]

/-! ## The reader on the text of a tree -/

/-- The first byte of a value is not white space and not a closing bracket. -/
theorem render_cons (v : Value) :
    ∃ c cs, v.render = c :: cs ∧ isSpace c = false ∧ c ≠ closeBracket := by
  cases v with
  | scalar text =>
    rw [Value.render]
    obtain ⟨text, hne, hall⟩ := text
    obtain ⟨c, cs, rfl⟩ := List.exists_cons_of_ne_nil hne
    rw [List.all_cons, Bool.and_eq_true] at hall
    have hc := hall.1
    unfold isScalarByte at hc
    simp only [Bool.not_eq_true', Bool.or_eq_false_iff] at hc
    exact ⟨c, cs, rfl, hc.1.1.1.1.1.1.1, beq_eq_false_iff_ne.mp hc.1.1.2⟩
  | string text => exact ⟨quote, _, by rw [Value.render], by decide, by decide⟩
  | array pad elems => exact ⟨openBracket, _, by rw [Value.render], by decide, by decide⟩
  | object pad members => exact ⟨openBrace, _, by rw [Value.render], by decide, by decide⟩

theorem skipSpace_value (ws : Space) (v : Value) (t : Bytes) :
    skipSpace (ws.1 ++ (v.render ++ t)) = v.render ++ t := by
  obtain ⟨c, cs, hcs, hc, -⟩ := render_cons v
  rw [hcs, List.cons_append, skipSpace_append ws hc]

/-- One turn over the elements: the byte behind a value says whether there is another. -/
theorem readElements_step {n : ℕ} {before after : Space} {v : Value} {c : UInt8} {t : Bytes}
    (hskip : skipValue n (v.render ++ (after.1 ++ c :: t)) = some (after.1 ++ c :: t))
    (hc : c = comma ∨ c = closeBracket) :
    readElements (n + 1) (before.1 ++ (v.render ++ (after.1 ++ c :: t)))
      = if c = closeBracket then some ([v.render], t)
        else (readElements n t).map fun p => (v.render :: p.1, p.2) := by
  have hspace : isSpace c = false := by rcases hc with rfl | rfl <;> decide
  rw [readElements, skipSpace_value, hskip]
  dsimp only [bind, Option.bind]
  rw [skipSpace_append after hspace, readSoFar_append]
  rcases hc with rfl | rfl
  · dsimp only
    rw [if_neg (by decide), if_pos (by decide), if_neg (by decide)]
    cases readElements n t <;> rfl
  · dsimp only
    rw [if_pos (by decide), if_pos rfl]

/-- One turn over the members. -/
theorem readMembers_step {n : ℕ} {m : Member Value} {c : UInt8} {t : Bytes}
    (hskip : skipValue n (m.value.render ++ (m.after.1 ++ c :: t)) = some (m.after.1 ++ c :: t))
    (hc : c = comma ∨ c = closeBrace) :
    readMembers (n + 1) (m.text m.value.render ++ c :: t)
      = if c = closeBrace then some ([(m.key.1, m.value.render)], t)
        else (readMembers n t).map fun p => ((m.key.1, m.value.render) :: p.1, p.2) := by
  have hspace : isSpace c = false := by rcases hc with rfl | rfl <;> decide
  have hkey (t' : Bytes) : (readSoFar (m.key.1 ++ quote :: t') t').dropLast = m.key.1 := by
    rw [← List.singleton_append, ← List.append_assoc, readSoFar_append, List.dropLast_concat]
  unfold Member.text
  simp only [List.append_assoc, List.cons_append]
  rw [readMembers, skipSpace_append m.before (by decide)]
  dsimp only
  rw [if_pos (by decide), skipString_text m.key.2]
  dsimp only [bind, Option.bind]
  rw [skipSpace_append m.mid (by decide)]
  dsimp only
  rw [if_pos (by decide), skipSpace_value, hskip]
  dsimp only
  rw [skipSpace_append m.after hspace, readSoFar_append, hkey]
  rcases hc with rfl | rfl
  · dsimp only
    rw [if_neg (by decide), if_pos (by decide), if_neg (by decide)]
    cases readMembers n t <;> rfl
  · dsimp only
    rw [if_pos (by decide), if_pos rfl]

/-- An array that is empty, or whose elements are read. -/
theorem readArray_render {pad : Space} {elems : List (Element Value)} {n : ℕ} {t : Bytes}
    (hread : elems ≠ [] → readElements n (renderElements pad elems ++ closeBracket :: t)
      = some (elems.map fun e => e.value.render, t)) :
    readArray (n + 1) (renderElements pad elems ++ closeBracket :: t)
      = some (elems.map fun e => e.value.render, t) := by
  rw [readArray]
  cases elems with
  | nil =>
    rw [renderElements, skipSpace_append pad (by decide)]
    rfl
  | cons e elems =>
    obtain ⟨c, cs, hcs, hspace, hc⟩ := render_cons e.value
    rw [hread (by simp), renderElements_cons, hcs]
    simp only [List.append_assoc, List.cons_append]
    rw [skipSpace_append e.before hspace]
    dsimp only
    rw [if_neg (by simpa using hc)]

/-- An object that is empty, or whose members are read. -/
theorem readObject_render {pad : Space} {members : List (Member Value)} {n : ℕ} {t : Bytes}
    (hread : members ≠ [] → readMembers n (renderMembers pad members ++ closeBrace :: t)
      = some (members.map fun m => (m.key.1, m.value.render), t)) :
    readObject (n + 1) (renderMembers pad members ++ closeBrace :: t)
      = some (members.map fun m => (m.key.1, m.value.render), t) := by
  rw [readObject]
  cases members with
  | nil =>
    rw [renderMembers, skipSpace_append pad (by decide)]
    rfl
  | cons m members =>
    rw [hread (by simp), renderMembers_cons]
    unfold Member.text
    simp only [List.append_assoc, List.cons_append]
    rw [skipSpace_append m.before (by decide)]
    rfl

/-- The elements behind a comma. -/
theorem moreElements_eq (pad : Space) (e : Element Value) (elems : List (Element Value)) :
    moreElements (e :: elems) = comma :: renderElements pad (e :: elems) := by
  rw [moreElements_cons, renderElements_cons]

/-- The members behind a comma. -/
theorem moreMembers_eq (pad : Space) (m : Member Value) (members : List (Member Value)) :
    moreMembers (m :: members) = comma :: renderMembers pad (m :: members) := by
  rw [moreMembers_cons, renderMembers_cons]

mutual

/-- **A value is read to its end and no further.** -/
theorem skipValue_render : (v : Value) → {n : ℕ} → {t : Bytes} → 2 * v.render.length ≤ n → Ends t →
    skipValue n (v.render ++ t) = some t
  | .scalar text, n, t, hn, ht => by
    rw [Value.render] at hn ⊢
    have hpos : 0 < text.1.length := List.length_pos_iff.mpr text.2.1
    obtain ⟨n, rfl⟩ := Nat.exists_eq_succ_of_ne_zero (show n ≠ 0 by omega)
    exact skipValue_scalar text ht n
  | .string text, n, t, hn, _ => by
    rw [Value.render] at hn ⊢
    obtain ⟨n, rfl⟩ := Nat.exists_eq_succ_of_ne_zero (show n ≠ 0 by simp at hn; omega)
    rw [List.cons_append, List.append_assoc, skipValue, if_pos (by decide)]
    exact skipString_text text.2 t
  | .array pad elems, n, t, hn, _ => by
    rw [Value.render] at hn ⊢
    rw [List.length_cons, List.length_append, List.length_singleton] at hn
    obtain ⟨n, rfl⟩ := Nat.exists_eq_add_of_le (show 2 ≤ n by omega)
    have hread : readArray (n + 1) (renderElements pad elems ++ closeBracket :: t) = _ :=
      readArray_render fun hne => readElements_render pad elems hne (by omega)
    rw [Nat.add_comm 2 n, List.cons_append, List.append_assoc, List.singleton_append, skipValue,
      if_neg (by decide), if_pos (by decide), hread]
    rfl
  | .object pad members, n, t, hn, _ => by
    rw [Value.render] at hn ⊢
    rw [List.length_cons, List.length_append, List.length_singleton] at hn
    obtain ⟨n, rfl⟩ := Nat.exists_eq_add_of_le (show 2 ≤ n by omega)
    have hread : readObject (n + 1) (renderMembers pad members ++ closeBrace :: t) = _ :=
      readObject_render fun hne => readMembers_render pad members hne (by omega)
    rw [Nat.add_comm 2 n, List.cons_append, List.append_assoc, List.singleton_append, skipValue,
      if_neg (by decide), if_neg (by decide), if_pos (by decide), hread]
    rfl

theorem readElements_render (pad : Space) : (elems : List (Element Value)) → {n : ℕ} →
    {t : Bytes} → elems ≠ [] → 2 * (renderElements pad elems).length + 1 ≤ n →
    readElements n (renderElements pad elems ++ closeBracket :: t)
      = some (elems.map fun e => e.value.render, t)
  | [], _, _, hne, _ => absurd rfl hne
  | ⟨before, value, after⟩ :: elems, n, t, _, hn => by
    have hrest (m : ℕ) := readElements_render pad elems (n := m) (t := t)
    have hvalue (m : ℕ) (t : Bytes) := skipValue_render value (n := m) (t := t)
    rw [renderElements] at hn ⊢
    simp only [List.length_append] at hn
    obtain ⟨n, rfl⟩ := Nat.exists_eq_succ_of_ne_zero (show n ≠ 0 by omega)
    simp only [List.append_assoc]
    cases elems with
    | nil =>
      rw [moreElements, List.nil_append]
      have hends : Ends (after.1 ++ closeBracket :: t) :=
        ends_space after (ends_cons (by decide) t)
      rw [readElements_step (hvalue n _ (by omega) hends) (Or.inr rfl), if_pos rfl]
      rfl
    | cons e elems =>
      rw [moreElements_eq pad, List.length_cons] at hn
      rw [moreElements_eq pad, List.cons_append]
      have hends : Ends (after.1 ++ comma :: (renderElements pad (e :: elems)
          ++ closeBracket :: t)) := ends_space after (ends_cons (by decide) _)
      rw [readElements_step (hvalue n _ (by omega) hends) (Or.inl rfl), if_neg (by decide),
        hrest n (by simp) (by omega)]
      rfl

theorem readMembers_render (pad : Space) : (members : List (Member Value)) → {n : ℕ} →
    {t : Bytes} → members ≠ [] → 2 * (renderMembers pad members).length + 1 ≤ n →
    readMembers n (renderMembers pad members ++ closeBrace :: t)
      = some (members.map fun m => (m.key.1, m.value.render), t)
  | [], _, _, hne, _ => absurd rfl hne
  | ⟨before, key, mid, beforeValue, value, after⟩ :: members, n, t, _, hn => by
    have hrest (k : ℕ) := readMembers_render pad members (n := k) (t := t)
    have hvalue (k : ℕ) (t : Bytes) := skipValue_render value (n := k) (t := t)
    have hlen : value.render.length
        < (Member.text ⟨before, key, mid, beforeValue, value, after⟩ value.render).length := by
      unfold Member.text
      simp only [List.length_append, List.length_cons]
      omega
    rw [renderMembers] at hn ⊢
    rw [List.length_append] at hn
    obtain ⟨n, rfl⟩ := Nat.exists_eq_succ_of_ne_zero (show n ≠ 0 by omega)
    rw [List.append_assoc]
    cases members with
    | nil =>
      rw [moreMembers, List.nil_append]
      have hends : Ends (after.1 ++ closeBrace :: t) := ends_space after (ends_cons (by decide) t)
      rw [readMembers_step (hvalue n _ (by omega) hends) (Or.inr rfl), if_pos rfl]
      rfl
    | cons m members =>
      rw [moreMembers_eq pad, List.length_cons] at hn
      rw [moreMembers_eq pad, List.cons_append]
      have hends : Ends (after.1 ++ comma :: (renderMembers pad (m :: members)
          ++ closeBrace :: t)) := ends_space after (ends_cons (by decide) _)
      rw [readMembers_step (hvalue n _ (by omega) hends) (Or.inl rfl), if_neg (by decide),
        hrest n (by simp) (by omega)]
      rfl

end

/-! ## The parts of a text -/

theorem isBlank_space (ws : Space) : isBlank ws.1 = true := ws.2

/-- **The parts of an array.** -/
theorem arrayTexts_render (lead trail pad : Space) (elems : List (Element Value)) :
    arrayTexts (lead.1 ++ ((Value.array pad elems).render ++ trail.1))
      = some (elems.map fun e => e.value.render) := by
  unfold arrayTexts
  rw [skipSpace_value, Value.render]
  simp only [List.cons_append, List.append_assoc, List.nil_append]
  have hlen : 2 * (renderElements pad elems).length + 2
      ≤ 2 * (lead.1
        ++ openBracket :: (renderElements pad elems ++ closeBracket :: trail.1)).length := by
    simp only [List.length_append, List.length_cons]
    omega
  obtain ⟨n, hn⟩ := Nat.exists_eq_add_of_le hlen
  have hread : readArray (2 * (renderElements pad elems).length + 2 + n)
      (renderElements pad elems ++ closeBracket :: trail.1)
      = some (elems.map fun e => e.value.render, trail.1) := by
    rw [Nat.add_right_comm]
    exact readArray_render fun hne => readElements_render pad elems hne (by omega)
  rw [if_pos (by decide), hn, hread]
  dsimp only [bind, Option.bind]
  rw [if_pos (isBlank_space trail)]

/-- **The parts of an object.** -/
theorem objectTexts_render (lead trail pad : Space) (members : List (Member Value)) :
    objectTexts (lead.1 ++ ((Value.object pad members).render ++ trail.1))
      = some (members.map fun m => (m.key.1, m.value.render)) := by
  unfold objectTexts
  rw [skipSpace_value, Value.render]
  simp only [List.cons_append, List.append_assoc, List.nil_append]
  have hlen : 2 * (renderMembers pad members).length + 2
      ≤ 2 * (lead.1
        ++ openBrace :: (renderMembers pad members ++ closeBrace :: trail.1)).length := by
    simp only [List.length_append, List.length_cons]
    omega
  obtain ⟨n, hn⟩ := Nat.exists_eq_add_of_le hlen
  have hread : readObject (2 * (renderMembers pad members).length + 2 + n)
      (renderMembers pad members ++ closeBrace :: trail.1)
      = some (members.map fun m => (m.key.1, m.value.render), trail.1) := by
    rw [Nat.add_right_comm]
    exact readObject_render fun hne => readMembers_render pad members hne (by omega)
  rw [if_pos (by decide), hn, hread]
  dsimp only [bind, Option.bind]
  rw [if_pos (isBlank_space trail)]

end Json
