/-
Decoding into a receiver that was used before.

The three `UnmarshalBinary` methods write the fields of their receiver one after the
other, and a legacy message and a versioned one write different fields. What was decoded
determines the receiver all the same. For messages and transactions this is a consequence
of the codec: an accepted input is the encoding of its result, and that encoding decodes
to the result in every receiver. The v1 method is followed field by field
(`unmarshalBinaryInto`): by the time it returns nil, every field has been assigned, the
optional ones of the configuration included, so it is the function of the input that the
codec is about (`unmarshalBinaryInto_eq`).
-/
import SolanaGo.TransactionV1Codec

set_option autoImplicit false

namespace SolanaGo

open Codec

/-! ## Messages and transactions -/

/-- `Message.UnmarshalBinary`: the receiver afterwards. -/
def Message.unmarshalBinary (mx : Message) (data : Bytes) : Except Err Message := do
  let (mx, _) ← mx.unmarshalBinaryConsumed data
  .ok mx

/-- `Transaction.UnmarshalBinary`: the receiver afterwards. -/
def Transaction.unmarshalBinary (tx : Transaction) (data : Bytes) : Except Err Transaction := do
  let (tx, _) ← tx.unmarshalBinaryConsumed data
  .ok tx

/-- What one receiver decodes, every other one decodes. -/
theorem Message.unmarshalBinary_of_ok {mx m : Message} {data : Bytes}
    (h : mx.unmarshalBinary data = .ok m) (mx' : Message) : mx'.unmarshalBinary data = .ok m := by
  obtain ⟨⟨m', n⟩, hdec, hm⟩ := bind_eq_ok.mp h
  obtain rfl := Except.ok.inj hm
  obtain ⟨-, buf, r, -, rfl, rfl⟩ := Message.unmarshalBinaryConsumed_canonical hdec
  have hread := Message.unmarshalBinaryConsumed_extend hdec mx' r
  rw [List.take_left' rfl] at hread
  unfold Message.unmarshalBinary
  rw [hread, ok_bind]

theorem Transaction.unmarshalBinary_of_ok {tx t : Transaction} {data : Bytes}
    (h : tx.unmarshalBinary data = .ok t) (tx' : Transaction) :
    tx'.unmarshalBinary data = .ok t := by
  obtain ⟨⟨t', n⟩, hdec, ht⟩ := bind_eq_ok.mp h
  obtain rfl := Except.ok.inj ht
  obtain ⟨hwire, hcount, content, r, hcontent, rfl, rfl⟩ :=
    Transaction.unmarshalBinaryConsumed_canonical hdec
  obtain ⟨content', hcontent', hmsg⟩ :=
    Message.unmarshalBinaryConsumed_marshal tx'.message t'.message hwire
  obtain rfl : content = content' := Except.ok.inj (hcontent.symm.trans hcontent')
  have hread := tx'.unmarshalBinaryConsumed_append t'.signatures (content ++ r) _ _ hcount (hmsg r)
  unfold Transaction.unmarshalBinary
  rw [List.append_assoc, List.append_assoc, hread, ok_bind]

/-! ## v1 transactions -/

/-- The receiver is not part of the result. -/
theorem TransactionV1.unmarshalBinaryInto_eq (tx : TransactionV1) (data : Bytes) :
    tx.unmarshalBinaryInto data = TransactionV1.unmarshalBinary data := by
  unfold TransactionV1.unmarshalBinary TransactionV1.unmarshalBinaryInto
    TransactionV1.unmarshalBody
  simp only [TransactionV1.assignConfig_eq]

/-! ## All three -/

/-- Two decodes that both succeed with one result or both fail. -/
def SameOutcome {α : Type} (x y : Except Err α) : Prop :=
  (∃ a, x = .ok a ∧ y = .ok a) ∨ (∃ e, x = .error e) ∧ ∃ e, y = .error e

/-- If what one accepts the other accepts with the same result, and conversely, the outcomes
are the same. -/
theorem sameOutcome_of_ok {α : Type} {x y : Except Err α} (hx : ∀ a, x = .ok a → y = .ok a)
    (hy : ∀ a, y = .ok a → x = .ok a) : SameOutcome x y := by
  cases x with
  | ok a => exact Or.inl ⟨a, rfl, hx a rfl⟩
  | error e =>
    cases y with
    | ok a => exact absurd (hy a rfl) (by simp)
    | error e' => exact Or.inr ⟨⟨e, rfl⟩, ⟨e', rfl⟩⟩

/-- **Reused receivers.** Whether the bytes are accepted, and what the receiver holds after
they were, does not depend on what it held before. -/
theorem unmarshalBinary_receiver (data : Bytes) :
    (∀ mx mx' : Message, SameOutcome (mx.unmarshalBinary data) (mx'.unmarshalBinary data))
      ∧ (∀ tx tx' : Transaction,
          SameOutcome (tx.unmarshalBinary data) (tx'.unmarshalBinary data))
      ∧ ∀ tx tx' : TransactionV1,
          SameOutcome (tx.unmarshalBinaryInto data) (tx'.unmarshalBinaryInto data) := by
  refine ⟨fun mx mx' => ?_, fun tx tx' => ?_, fun tx tx' => ?_⟩
  · exact sameOutcome_of_ok (fun m h => Message.unmarshalBinary_of_ok h mx')
      fun m h => Message.unmarshalBinary_of_ok h mx
  · exact sameOutcome_of_ok (fun t h => Transaction.unmarshalBinary_of_ok h tx')
      fun t h => Transaction.unmarshalBinary_of_ok h tx
  · rw [tx.unmarshalBinaryInto_eq, tx'.unmarshalBinaryInto_eq]
    exact sameOutcome_of_ok (fun _ h => h) fun _ h => h

end SolanaGo
