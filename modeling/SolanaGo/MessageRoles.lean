/-
The roles of the accounts of a message, asked for by key and as a list.

The queries by key look for the first place of a key and read the role of that place. The list
has the role of every place.
-/
import SolanaGo.Instructions

set_option autoImplicit false

namespace SolanaGo

/-- `NumLookups`. -/
def numLookups (lookups : List MessageAddressTableLookup) : ℕ :=
  (lookups.map fun l => l.writableIndexes.length + l.readonlyIndexes.length).sum

namespace Message

/-- A place among the first keys. -/
def indexIsSigner (mx : Message) (index : ℕ) : Bool :=
  decide (index < mx.header.numRequiredSignatures.toNat)

/-- The meta of a place. -/
def metaAt (mx : Message) (key : PublicKey) (index : ℕ) : AccountMeta :=
  { publicKey := key, isSigner := mx.indexIsSigner index
    isWritable := mx.staticIndexIsWritable index }

/-- `AccountMetaList`. -/
def accountMetaList (mx : Message) : Except Err AccountMetaSlice :=
  if mx.version ≠ .legacy ∧ 0 < numLookups mx.addressTableLookups then
    .error { msg := "address tables not set: "
      ++ "cannot list account metas for a versioned message with lookups" }
  else .ok (mx.accountKeys.zipIdx.map fun (key, i) => mx.metaAt key i)

/-- The loop of the two queries: the role of the first place of the key. -/
def firstRole (mx : Message) (role : ℕ → Bool) (account : PublicKey) : Bool :=
  match mx.accountKeys.findIdx? (· == account) with
  | some i => role i
  | none => false

/-- `IsWritableStatic`. -/
def isWritableStatic (mx : Message) (account : PublicKey) : Bool :=
  mx.firstRole mx.staticIndexIsWritable account

/-- `IsSigner`. -/
def isSigner (mx : Message) (account : PublicKey) : Bool := mx.firstRole mx.indexIsSigner account

variable {mx : Message} {key : PublicKey} {role : ℕ → Bool}

theorem firstRole_eq_true : mx.firstRole role key = true ↔ ∃ i, mx.accountKeys[i]? = some key
    ∧ role i = true ∧ ∀ j < i, mx.accountKeys[j]? ≠ some key := by
  have hfind : ∀ i, mx.accountKeys.findIdx? (· == key) = some i ↔ mx.accountKeys[i]? = some key
      ∧ ∀ j < i, mx.accountKeys[j]? ≠ some key := by
    intro i
    rw [List.findIdx?_eq_some_iff_getElem]
    constructor
    · rintro ⟨hi, hkey, hfirst⟩
      refine ⟨List.getElem?_eq_some_iff.mpr ⟨hi, eq_of_beq hkey⟩, fun j hj hsame => ?_⟩
      obtain ⟨hj', rfl⟩ := List.getElem?_eq_some_iff.mp hsame
      exact hfirst j hj (beq_self_eq_true _)
    · rintro ⟨hkey, hfirst⟩
      obtain ⟨hi, rfl⟩ := List.getElem?_eq_some_iff.mp hkey
      refine ⟨hi, beq_self_eq_true _, fun j hj hsame => hfirst j hj ?_⟩
      exact List.getElem?_eq_some_iff.mpr ⟨hj.trans hi, eq_of_beq hsame⟩
  unfold firstRole
  cases hindex : mx.accountKeys.findIdx? (· == key) with
  | some i =>
    obtain ⟨hkey, hfirst⟩ := (hfind i).mp hindex
    refine ⟨fun hrole => ⟨i, hkey, hrole, hfirst⟩, ?_⟩
    rintro ⟨j, hj, hrole, hbefore⟩
    rw [← Option.some.inj (((hfind j).mpr ⟨hj, hbefore⟩).symm.trans hindex)]
    exact hrole
  | none =>
    refine iff_of_false nofun ?_
    rintro ⟨i, hkey, -, hfirst⟩
    exact nomatch hindex.symm.trans ((hfind i).mpr ⟨hkey, hfirst⟩)

/-- The first signers are the first places, so a key that signs at all signs at its first. -/
theorem isSigner_eq_true : mx.isSigner key = true ↔
    ∃ i, mx.accountKeys[i]? = some key ∧ mx.indexIsSigner i = true := by
  rw [isSigner, firstRole_eq_true]
  constructor
  · rintro ⟨i, hkey, hrole, -⟩
    exact ⟨i, hkey, hrole⟩
  · intro hsome
    classical
    refine ⟨Nat.find hsome, (Nat.find_spec hsome).1, (Nat.find_spec hsome).2, fun j hj hkey => ?_⟩
    have hlast := of_decide_eq_true (Nat.find_spec hsome).2
    exact Nat.find_min hsome hj ⟨hkey, decide_eq_true (hj.trans hlast)⟩

end Message

/-- **The queries and the list agree.** A key is a signer for `IsSigner` exactly if it is one of
`Signers`, and exactly if some meta of the list says so. For `IsWritableStatic` that holds of a
message that does not name a key twice. -/
theorem message_roles_agree (mx : Message) (metas : AccountMetaSlice)
    (h : mx.accountMetaList = .ok metas) (key : PublicKey) :
    (mx.isSigner key = true ↔ key ∈ mx.signers)
    ∧ (mx.isSigner key = true ↔ ∃ m ∈ metas, m.publicKey = key ∧ m.isSigner = true)
    ∧ (mx.accountKeys.Nodup → (mx.isWritableStatic key = true
      ↔ ∃ m ∈ metas, m.publicKey = key ∧ m.isWritable = true)) := by
  unfold Message.accountMetaList at h
  split at h
  · exact nomatch h
  obtain rfl := Except.ok.inj h
  have hmetas : ∀ role : AccountMeta → Bool, (∃ m ∈ mx.accountKeys.zipIdx.map
      fun (key, i) => mx.metaAt key i, m.publicKey = key ∧ role m = true) ↔
      ∃ i, mx.accountKeys[i]? = some key ∧ role (mx.metaAt key i) = true := by
    intro role
    simp only [List.mem_map, Prod.exists, List.mem_zipIdx_iff_getElem?]
    aesop
  refine ⟨?_, ?_, fun hnodup => ?_⟩
  · rw [Message.isSigner_eq_true, Message.signers, List.mem_take_iff_getElem]
    constructor
    · rintro ⟨i, hkey, hrole⟩
      obtain ⟨hi, rfl⟩ := List.getElem?_eq_some_iff.mp hkey
      have hlt := of_decide_eq_true hrole
      exact ⟨i, by split <;> omega, rfl⟩
    · rintro ⟨i, hi, rfl⟩
      refine ⟨i, List.getElem?_eq_getElem _, decide_eq_true ?_⟩
      split at hi <;> omega
  · rw [Message.isSigner_eq_true]
    exact (hmetas AccountMeta.isSigner).symm
  · rw [Message.isWritableStatic, Message.firstRole_eq_true]
    refine Iff.trans ?_ (hmetas AccountMeta.isWritable).symm
    refine exists_congr fun i => ⟨fun h => ⟨h.1, h.2.1⟩, fun h => ⟨h.1, h.2, fun j hj hkey => ?_⟩⟩
    have hi := (List.getElem?_eq_some_iff.mp h.1).1
    exact List.nodup_iff_getElem?_ne_getElem?.mp hnodup j i hj hi (hkey.trans h.1.symm)

/-- A key with the given first byte. -/
def roleKey (b : UInt8) : PublicKey := Codec.ByteArr.copyFrom 32 [b]

/-- Two signers, the second of them read-only, and the last key read-only. -/
def roleMessage (keys : List UInt8) : Message where
  accountKeys := keys.map roleKey
  header := { numRequiredSignatures := 2, numReadonlySignedAccounts := 1,
              numReadonlyUnsignedAccounts := 1 }

/-- A key that is named twice is a signer in both ways of asking, and a read-only signer is
writable in neither. -/
theorem message_roles_agree_signer :
    (∃ metas, (roleMessage [1, 2, 1]).accountMetaList = .ok metas
      ∧ roleKey 1 ∈ (roleMessage [1, 2, 1]).signers
      ∧ ∃ m ∈ metas, m.publicKey = roleKey 1 ∧ m.isSigner = true)
    ∧ ∃ metas, (roleMessage [1, 2, 3]).accountMetaList = .ok metas
      ∧ ¬∃ m ∈ metas, m.publicKey = roleKey 2 ∧ m.isWritable = true := by
  obtain ⟨hkeys, hmetas, -⟩ := message_roles_agree (roleMessage [1, 2, 1]) _ rfl (roleKey 1)
  obtain ⟨-, -, hwritable⟩ := message_roles_agree (roleMessage [1, 2, 3]) _ rfl (roleKey 2)
  have hsigner : (roleMessage [1, 2, 1]).isSigner (roleKey 1) = true := by decide +kernel
  refine ⟨⟨_, rfl, hkeys.mp hsigner, hmetas.mp hsigner⟩, _, rfl, ?_⟩
  rw [← hwritable (by decide +kernel)]
  decide +kernel

end SolanaGo
