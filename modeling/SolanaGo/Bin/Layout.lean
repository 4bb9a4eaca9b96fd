/-
Layouts: readers of records, put together field by field.

A record is read by one read for each of its fields, in the order of the layout, and the
value is built at the end. `Parses P enc out read` says of such a reader what `Reads` says
of one read, with two differences. It may return an error of its own. And what it returns
is `out` of the value that was encoded, for a value that arrives inside a larger one.

A chain of reads is proved from its end to its front. At the end every field is known
(`Parses.pure`); in front of a chain, what is assumed of it may name the value of the field
that is read there (`Parses.field`).
-/
import SolanaGo.Bin.Fields

set_option autoImplicit false

namespace SolanaGo.Bin

open Codec hiding Decoder
open Utf8

/-! ## Optional fields and counted lists -/

/-- The bytes of an optional field. -/
def optionalBytes {α : Type} (enc : α → Bytes) : Option α → Bytes
  | none => [0]
  | some a => 1 :: enc a

/-- `enc.WriteOption(v != nil)`, and the value if there is one. -/
def Encoder.writeOptional {α : Type} (write : α → Encoder → Encoder) (v : Option α) (e : Encoder) :
    Encoder :=
  let e := e.writeOption v.isSome
  match v with
  | some a => write a e
  | none => e

/-- `if dec.ReadOption()`, and the value. -/
def Decoder.readOptional {α : Type} (read : Decoder → α × Decoder) (d : Decoder) :
    Option α × Decoder :=
  let (present, d) := d.readOption
  if present then
    let (a, d) := read d
    (some a, d)
  else (none, d)

/-- `for i := range values`, with one read for each. -/
def Decoder.readMany {α : Type} (read : Decoder → α × Decoder) : (count : ℕ) → Decoder →
    List α × Decoder
  | 0, d => ([], d)
  | count + 1, d =>
    let (a, d) := read d
    let (as, d) := readMany read count d
    (a :: as, d)

theorem Decoder.length_readMany {α : Type} (read : Decoder → α × Decoder) (count : ℕ)
    (d : Decoder) : (readMany read count d).1.length = count := by
  induction count generalizing d with
  | zero => rfl
  | succ count ih => exact congrArg (· + 1) (ih (read d).2)

namespace Encoder

section Writes

variable {α : Type} {enc : α → Bytes} {write : α → Encoder → Encoder}

theorem writeOptional_eq (h : ∀ a e, write a e = e.append (enc a)) (v : Option α) (e : Encoder) :
    e.writeOptional write v = e.append (optionalBytes enc v) := by
  cases v with
  | none => rfl
  | some a =>
    show write a (e.append [1]) = _
    rw [h, append_append]
    rfl

theorem writeOptional_publicKey (v : Option PublicKey) (e : Encoder) :
    e.writeOptional writePublicKey v = e.append (optionalBytes (fun v => v.toList) v) :=
  writeOptional_eq (fun _ _ => rfl) v e

/-- A loop of writes appends the bytes of all of its values. -/
theorem foldl_write (h : ∀ a e, write a e = e.append (enc a)) (as : List α) (e : Encoder) :
    as.foldl (fun e a => write a e) e = e.append (as.flatMap enc) := by
  induction as generalizing e with
  | nil =>
    unfold append
    simp
  | cons a as ih => rw [List.foldl_cons, ih, h, append_append, List.flatMap_cons]

end Writes

/-- `Err` answers nil exactly when no failure is recorded. -/
theorem errOf_eq_none {e e' : Encoder} : e.errOf = (none, e') ↔ e.err = none ∧ e' = e := by
  cases herr : e.err with
  | none =>
    rw [errOf_of_none herr, Prod.mk.injEq]
    simp [eq_comm]
  | some failure => cases failure <;> simp [errOf, herr]

theorem result_eq_ok {e : Encoder} {d : Bytes} :
    e.result = .ok d ↔ ∃ e', e.errOf = (none, e') ∧ e'.data = d := by
  unfold result
  obtain ⟨asked, e'⟩ := e.errOf
  cases asked with
  | none => simp
  | some err => simp

/-- `write` appends the bytes under the condition, and otherwise leaves a failure. -/
structure Writes (P : Prop) (bytes : Bytes) (write : Encoder → Encoder) : Prop where
  appends : P → ∀ e, write e = e.append bytes
  fits : ∀ {e}, (write e).err = none → e.err = none ∧ P

namespace Writes

variable {P Q : Prop} {bs cs : Bytes} {write next : Encoder → Encoder}

theorem of_append (h : ∀ e, write e = e.append bs) : Writes True bs write where
  appends _ := h
  fits {e} herr := by
    rw [h, append_err] at herr
    exact ⟨herr, trivial⟩

theorem borshString (v : Bytes) :
    Writes (v.length ≤ maxUint32) (leBytes 4 v.length ++ v) fun e => e.writeBorshString v where
  appends h e := writeBorshString_of_le h e
  fits {e} h := by
    unfold writeBorshString at h
    split at h
    · next hsome =>
        rw [h] at hsome
        simp at hsome
    · next hnone =>
        split at h
        · have hfail := fail_err_isSome e .overflow v.length
          rw [h] at hfail
          simp at hfail
        · next hfit => exact ⟨Option.not_isSome_iff_eq_none.mp hnone, Nat.not_lt.mp hfit⟩

/-- One write behind another. -/
theorem andThen (h : Writes P bs write) (hnext : Writes Q cs next) :
    Writes (P ∧ Q) (bs ++ cs) fun e => next (write e) where
  appends hPQ e := by rw [h.appends hPQ.1, hnext.appends hPQ.2, append_append]
  fits herr := by
    obtain ⟨hmid, hQ⟩ := hnext.fits herr
    obtain ⟨hnone, hP⟩ := h.fits hmid
    exact ⟨hnone, hP, hQ⟩

theorem optional {α : Type} {R : α → Prop} {enc : α → Bytes} {writeSome : α → Encoder → Encoder}
    (h : ∀ a, Writes (R a) (enc a) (writeSome a)) (v : Option α) :
    Writes (∀ a, v = some a → R a) (optionalBytes enc v) fun e => e.writeOptional writeSome v := by
  cases v with
  | none =>
    have hnone : Writes True [0] fun e => e.append [0] := of_append fun _ => rfl
    exact ⟨fun _ => hnone.appends trivial, fun herr => ⟨(hnone.fits herr).1, by simp⟩⟩
  | some a =>
    have htag : Writes True [1] fun e => e.append [1] := of_append fun _ => rfl
    have hsome := htag.andThen (h a)
    refine ⟨fun hR => hsome.appends ⟨trivial, hR a rfl⟩, fun herr => ?_⟩
    obtain ⟨hnone, -, hR⟩ := hsome.fits herr
    exact ⟨hnone, fun b hb => Option.some.inj hb ▸ hR⟩

/-- What is assumed may be put otherwise. -/
theorem congr (h : Writes P bs write) (hP : Q ↔ P) : Writes Q bs write := by
  obtain rfl : Q = P := propext hP
  exact h

/-- **The data of an instruction** whose layout was written to a new encoder. -/
theorem result_eq_ok (h : Writes P bs write) {d : Bytes} :
    (write (newEncoder [])).result = .ok d ↔ P ∧ d = bs := by
  rw [Encoder.result_eq_ok]
  constructor
  · rintro ⟨e, herr, rfl⟩
    obtain ⟨hnone, rfl⟩ := errOf_eq_none.mp herr
    have hP := (h.fits hnone).2
    rw [h.appends hP]
    exact ⟨hP, rfl⟩
  · rintro ⟨hP, rfl⟩
    rw [h.appends hP]
    exact ⟨_, errOf_of_none rfl, rfl⟩

end Writes

end Encoder

namespace Decoder

theorem errOf_of_none {d : Decoder} (h : d.err = none) : d.errOf = (none, d) := by
  unfold errOf
  rw [h]

section Reads

variable {α : Type} {P : α → Prop} {enc : α → Bytes} {read : Decoder → α × Decoder}

theorem Reads.optional (h : Reads P enc read) :
    Reads (fun v => ∀ a, v = some a → P a) (optionalBytes enc) (readOptional read) := by
  refine ⟨fun {d v t} hv herr hrest => ?_, fun {d v d'} hread herr => ?_⟩
  · unfold readOptional
    cases v with
    | none =>
      rw [readOption_reads.inverts (a := false) trivial herr hrest]
      rfl
    | some a =>
      obtain ⟨d1, htag, herr1, hrest1, hd1⟩ :=
        readOption_reads.next (a := true) trivial herr hrest
      rw [htag]
      dsimp only
      rw [if_pos rfl, h.inverts (hv a rfl) herr1 hrest1, hd1, past_past, optionalBytes,
        List.length_cons, Nat.add_comm]
      rfl
  · unfold readOptional at hread
    cases htag : d.readOption with
    | mk present d1 =>
      rw [htag] at hread
      cases present with
      | false =>
        obtain ⟨rfl, rfl⟩ := Prod.mk.inj hread
        obtain ⟨hnone, -, hd, hrest⟩ := readOption_reads.accepts htag herr
        exact ⟨hnone, by simp, hd, hrest⟩
      | true =>
        obtain ⟨rfl, rfl⟩ := Prod.mk.inj hread
        obtain ⟨hnone1, hP, hd1, hrest1⟩ := h.accepts rfl herr
        obtain ⟨hnone, -, hd, hrest⟩ := readOption_reads.accepts htag hnone1
        refine ⟨hnone, fun a ha => Option.some.inj ha ▸ hP, ?_, ?_⟩
        · rw [hd1, hd, past_past, optionalBytes, List.length_cons, Nat.add_comm]
          rfl
        · rw [hrest, hrest1]
          rfl

/-- An optional field of which every value can be read. -/
theorem Reads.anyOptional (h : Reads (fun _ => True) enc read) :
    Reads (fun _ => True) (optionalBytes enc) (readOptional read) := by
  have hoptional := h.optional
  simp only [implies_true] at hoptional
  exact hoptional

theorem Reads.many (h : Reads P enc read) (count : ℕ) :
    Reads (fun as => as.length = count ∧ ∀ a ∈ as, P a) (fun as => as.flatMap enc)
      (readMany read count) := by
  induction count with
  | zero =>
    refine ⟨fun {d as t} has _ _ => ?_, fun {d as d'} hread herr => ?_⟩
    · obtain rfl := List.length_eq_zero_iff.mp has.1
      rfl
    · obtain ⟨rfl, rfl⟩ := Prod.mk.inj hread
      exact ⟨herr, ⟨rfl, by simp⟩, rfl, rfl⟩
  | succ count ih =>
    refine ⟨fun {d as t} has herr hrest => ?_, fun {d as d'} hread herr => ?_⟩
    · obtain ⟨a, as, rfl⟩ := List.exists_cons_of_length_eq_add_one has.1
      have hlen : as.length = count := Nat.succ.inj has.1
      have htail : ∀ a ∈ as, P a := fun b hb => has.2 b (List.mem_cons_of_mem a hb)
      rw [List.flatMap_cons, List.append_assoc] at hrest
      obtain ⟨d1, hread1, herr1, hrest1, hd1⟩ := h.next (has.2 a List.mem_cons_self) herr hrest
      unfold readMany
      rw [hread1]
      dsimp only
      rw [ih.inverts ⟨hlen, htail⟩ herr1 hrest1, hd1, past_past, List.flatMap_cons,
        List.length_append]
    · unfold readMany at hread
      obtain ⟨rfl, rfl⟩ := Prod.mk.inj hread
      obtain ⟨herr1, ⟨hlen, htail⟩, hd2, hrest2⟩ := ih.accepts rfl herr
      obtain ⟨hnone, hP, hd1, hrest1⟩ := h.accepts rfl herr1
      refine ⟨hnone, ⟨by rw [List.length_cons, hlen], ?_⟩, ?_, ?_⟩
      · intro b hb
        obtain rfl | hb := List.mem_cons.mp hb
        · exact hP
        · exact htail b hb
      · rw [List.flatMap_cons, List.length_append, ← past_past, ← hd1]
        exact hd2
      · rw [hrest1, hrest2, List.flatMap_cons, List.append_assoc]

end Reads

/-! ## Reads of a known length -/

section Moves

variable {α : Type} {m n : ℕ}

/-- A read moves over `n` bytes if they are there. -/
structure Moves (n : ℕ) (read : Decoder → Decoder) : Prop where
  eq : ∀ d : Decoder, d.err = none → d.pos + n ≤ d.data.length →
    read d = { d with pos := d.pos + n }

theorem Moves.andThen {read next : Decoder → Decoder} (h : Moves m read) (hnext : Moves n next) :
    Moves (m + n) fun d => next (read d) := by
  refine ⟨fun d herr hlen => ?_⟩
  have hread := h.eq d herr (show d.pos + m ≤ d.data.length by omega)
  have hrest := hnext.eq { d with pos := d.pos + m } herr
    (show d.pos + m + n ≤ d.data.length by omega)
  rw [hread, hrest, Nat.add_assoc]

theorem readFixed_moves (n : ℕ) {zero : α} {parse : Bytes → α} :
    Moves n fun d => (readFixed n zero parse d).2 := by
  refine ⟨fun d herr hlen => ?_⟩
  rw [readFixed_ok herr hlen]

end Moves

/-! ## Records -/

/-- `read` reads what `enc` writes, returns it as `out`, and accepts nothing else. -/
structure Parses {ι α : Type} (P : ι → Prop) (enc : ι → Bytes) (out : ι → α)
    (read : Decoder → Except Err α × Decoder) : Prop where
  inverts : ∀ {d : Decoder} {i : ι} {t : Bytes}, P i → d.err = none → d.rest = enc i ++ t →
    read d = (.ok (out i), d.past (enc i).length)
  accepts : ∀ {d d' : Decoder} {a : α}, read d = (.ok a, d') → d'.err = none →
    ∃ i, a = out i ∧ d.err = none ∧ P i ∧ d' = d.past (enc i).length ∧ d.rest = enc i ++ d'.rest

section Parses

variable {ι κ α β : Type} {P Q : ι → Prop} {enc : ι → Bytes} {out : ι → α}
  {read : Decoder → Except Err α × Decoder}

/-- A read, as a reader that returns no error. -/
def lift (read : Decoder → α × Decoder) (d : Decoder) : Except Err α × Decoder :=
  let (a, d) := read d
  (.ok a, d)

theorem Reads.parses {P : α → Prop} {enc : α → Bytes} {read : Decoder → α × Decoder}
    (h : Reads P enc read) : Parses P enc (fun a => a) (lift read) := by
  refine ⟨fun {d a t} ha herr hrest => ?_, fun {d d' a} hread herr => ?_⟩
  · unfold lift
    rw [h.inverts ha herr hrest]
  · obtain ⟨ha, hd⟩ := Prod.mk.inj hread
    obtain rfl := Except.ok.inj ha
    exact ⟨_, rfl, h.accepts (Prod.ext rfl hd) herr⟩

theorem Parses.reads {P : α → Prop} {enc : α → Bytes} {read : Decoder → α × Decoder}
    (h : Parses P enc (fun a => a) (lift read)) : Reads P enc read := by
  refine ⟨fun {d a t} ha herr hrest => ?_, fun {d a d'} hread herr => ?_⟩
  · obtain ⟨hvalue, hd⟩ := Prod.mk.inj (h.inverts ha herr hrest)
    exact Prod.ext (Except.ok.inj hvalue) hd
  · have hlift : lift read d = (.ok a, d') := by
      unfold lift
      rw [hread]
    obtain ⟨b, rfl, hb⟩ := h.accepts hlift herr
    exact hb

/-- The end of a layout, where the value is known. -/
theorem Parses.pure (value : ι) (h : ∀ i, P i ↔ i = value) :
    Parses P (fun _ => []) out fun d => (.ok (out value), d) := by
  refine ⟨fun {d i t} hi _ _ => ?_, fun {d d' a} hread herr => ?_⟩
  · rw [(h i).mp hi]
    rfl
  · obtain ⟨ha, rfl⟩ := Prod.mk.inj hread
    exact ⟨value, (Except.ok.inj ha).symm, herr, (h value).mpr rfl, rfl, rfl⟩

/-- A field, in front of the others. -/
theorem Parses.field {R : β → Prop} {encField : β → Bytes} {readField : Decoder → β × Decoder}
    (front : ι → β) {next : β → Decoder → Except Err α × Decoder} (h : Reads R encField readField)
    (hQ : ∀ i, Q i ↔ R (front i) ∧ P i)
    (hnext : ∀ b, Parses (fun i => P i ∧ front i = b) enc out (next b)) :
    Parses Q (fun i => encField (front i) ++ enc i) out
      fun d => next (readField d).1 (readField d).2 := by
  refine ⟨fun {d i t} hi herr hrest => ?_, fun {d d' a} hread herr => ?_⟩
  · obtain ⟨hR, hP⟩ := (hQ i).mp hi
    rw [List.append_assoc] at hrest
    obtain ⟨d1, hread1, herr1, hrest1, hd1⟩ := h.next hR herr hrest
    rw [hread1]
    dsimp only
    rw [(hnext (front i)).inverts ⟨hP, rfl⟩ herr1 hrest1, hd1, past_past, List.length_append]
  · obtain ⟨i, ha, herr1, ⟨hP, hfront⟩, hd', hrest'⟩ := (hnext _).accepts hread herr
    obtain ⟨hnone, hR, hd1, hrest1⟩ := h.accepts rfl herr1
    rw [← hfront] at hR hd1 hrest1
    refine ⟨i, ha, hnone, (hQ i).mpr ⟨hR, hP⟩, ?_, ?_⟩
    · rw [List.length_append, ← past_past, ← hd1]
      exact hd'
    · rw [hrest1, hrest', List.append_assoc]

/-- The same for a field of which every value can be read. -/
theorem Parses.anyField {encField : β → Bytes} {readField : Decoder → β × Decoder}
    (front : ι → β) {next : β → Decoder → Except Err α × Decoder}
    (h : Reads (fun _ => True) encField readField)
    (hnext : ∀ b, Parses (fun i => P i ∧ front i = b) enc out (next b)) :
    Parses P (fun i => encField (front i) ++ enc i) out
      fun d => next (readField d).1 (readField d).2 :=
  .field front h (fun i => by rw [true_and]) hnext

/-- What is assumed of the values may be put otherwise. -/
theorem Parses.congr (h : Parses P enc out read) (hP : ∀ i, Q i ↔ P i) : Parses Q enc out read := by
  obtain rfl : Q = P := funext fun i => propext (hP i)
  exact h

/-- What is written may be put otherwise. -/
theorem Parses.congrBytes {enc' : ι → Bytes} (h : Parses P enc out read)
    (henc : ∀ i, P i → enc' i = enc i) : Parses P enc' out read := by
  refine ⟨fun {d i t} hi herr hrest => ?_, fun {d d' a} hread herr => ?_⟩
  · rw [henc i hi] at hrest ⊢
    exact h.inverts hi herr hrest
  · obtain ⟨i, ha, hnone, hi, hd', hrest⟩ := h.accepts hread herr
    rw [← henc i hi] at hd' hrest
    exact ⟨i, ha, hnone, hi, hd', hrest⟩

/-- A layout is one of several. -/
theorem Parses.embed {P' : κ → Prop} {enc' : κ → Bytes} {out' : κ → α} (inject : ι → κ)
    (h : Parses P (fun i => enc' (inject i)) (fun i => out' (inject i)) read)
    (honto : ∀ k, P' k → ∃ i, k = inject i) (hP : ∀ i, P' (inject i) ↔ P i) :
    Parses P' enc' out' read := by
  refine ⟨fun {d k t} hk herr hrest => ?_, fun {d d' a} hread herr => ?_⟩
  · obtain ⟨i, rfl⟩ := honto k hk
    exact h.inverts ((hP i).mp hk) herr hrest
  · obtain ⟨i, ha, hnone, hi, hd', hrest⟩ := h.accepts hread herr
    exact ⟨inject i, ha, hnone, (hP i).mpr hi, hd', hrest⟩

end Parses

end Decoder

end SolanaGo.Bin
