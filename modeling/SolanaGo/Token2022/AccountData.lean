/-
Which bytes the Token-2022 account decoders accept.

`decodeExtensions` reads entries of a type, a length and that many bytes, until less than
two bytes are left or the type is zero. `decodeExtensions_eq_ok_iff` is that grammar in both
directions, so the list is exactly the entries laid out and every other input is refused.

`DecodeMint` and `DecodeAccount` look at one base record and at the extensions behind byte
165. Byte 165 is the account type, which tells a mint from an account; neither decoder looks
at it. So they are told apart by their base records only, and these overlap: an extended
mint without a freeze authority is accepted as a token account.
-/
import SolanaGo.Bin.Layout
import SolanaGo.Token2022.Accounts

set_option autoImplicit false

namespace SolanaGo.Token2022

open Codec hiding Decoder
open Bin Buffer Token

/-! ## The grammar of the extensions -/

/-- The bytes of an extension. -/
def Extension.bytes (extension : Extension) : Bytes :=
  leBytes 2 extension.type.toNat ++ (leBytes 2 extension.data.length ++ extension.data)

/-- An extension that has bytes: of a type that does not end the list, and with a length of
two bytes. -/
structure Extension.Encodable (extension : Extension) : Prop where
  type_ne : extension.type ≠ extensionUninitialized
  length_lt : extension.data.length < 2 ^ 16

/-- What ends the extensions: nothing, a single byte, or a zero type with anything behind. -/
def EndsExtensions (tail : Bytes) : Prop :=
  tail = [] ∨ tail.length = 1 ∨ ∃ rest, tail = leBytes 2 extensionUninitialized.toNat ++ rest

/-- One turn of the loop over an extension that is laid out. -/
theorem decodeExtensionsLoop_extension {dec : Decoder} (acc : List Extension) {e : Extension}
    {t : Bytes} (he : e.Encodable) (herr : dec.err = none) (hrest : dec.rest = e.bytes ++ t) :
    ∃ dec', decodeExtensionsLoop dec acc = decodeExtensionsLoop dec' (acc ++ [e])
      ∧ dec'.err = none ∧ dec'.rest = t := by
  unfold Extension.bytes at hrest
  rw [List.append_assoc, List.append_assoc] at hrest
  have hlong : ¬dec.remaining < 2 := by
    rw [← Decoder.length_rest, hrest, List.length_append, length_leBytes]
    omega
  have hword : (UInt16.ofNat e.data.length).toNat = e.data.length :=
    UInt16.toNat_ofNat_of_lt' he.length_lt
  obtain ⟨dec1, hread1, herr1, hrest1, -⟩ := Decoder.readUint16_reads.next trivial herr hrest
  rw [← hword] at hrest1
  obtain ⟨dec2, hread2, herr2, hrest2, hdec2⟩ := Decoder.readUint16_reads.next trivial herr1 hrest1
  have hpos : dec2.pos ≤ dec2.data.length := by
    rw [hdec2]
    exact Decoder.past_pos_le
      (Decoder.pos_le_of_rest (by rw [length_leBytes]; decide) hrest1) hrest1
  have hread3 : dec2.readBytes (UInt16.ofNat e.data.length).toNat
      = (e.data, dec2.past e.data.length) := by
    rw [hword]
    exact Decoder.readBytes_ok hpos herr2 hrest2
  refine ⟨dec2.past e.data.length, ?_, herr2, Decoder.rest_past_of_eq hrest2⟩
  rw [decodeExtensionsLoop, if_neg hlong]
  simp only [hread1, Decoder.errOf_of_none herr1, if_neg he.type_ne, hread2, hread3]
  split
  · next err hsome =>
      simp only [hread1, hread2, hread3, Decoder.errOf_of_none (d := dec2.past _) herr2] at hsome
      cases hsome
  · rfl

/-- The loop stops at what ends the extensions. -/
theorem decodeExtensionsLoop_end {dec : Decoder} {acc : List Extension} (herr : dec.err = none)
    (hend : EndsExtensions dec.rest) : decodeExtensionsLoop dec acc = .ok acc := by
  rw [decodeExtensionsLoop]
  by_cases hshort : dec.remaining < 2
  · rw [if_pos hshort]
  · rw [if_neg hshort]
    rw [← Decoder.length_rest] at hshort
    rcases hend with hnil | hone | ⟨rest, hzero⟩
    · rw [hnil] at hshort
      exact absurd (by decide) hshort
    · rw [hone] at hshort
      exact absurd (by decide) hshort
    · obtain ⟨dec1, hread1, herr1, -, -⟩ := Decoder.readUint16_reads.next trivial herr hzero
      simp only [hread1, Decoder.errOf_of_none herr1, if_true]

/-- The loop over extensions that are laid out. -/
theorem decodeExtensionsLoop_extensions {dec : Decoder} {acc extensions : List Extension}
    {tail : Bytes} (hall : ∀ e ∈ extensions, e.Encodable) (hend : EndsExtensions tail)
    (herr : dec.err = none) (hrest : dec.rest = extensions.flatMap Extension.bytes ++ tail) :
    decodeExtensionsLoop dec acc = .ok (acc ++ extensions) := by
  induction extensions generalizing dec acc with
  | nil =>
    rw [List.append_nil]
    refine decodeExtensionsLoop_end herr ?_
    rw [hrest]
    exact hend
  | cons e extensions ih =>
    rw [List.flatMap_cons, List.append_assoc] at hrest
    obtain ⟨dec', hstep, herr', hrest'⟩ :=
      decodeExtensionsLoop_extension acc (hall e List.mem_cons_self) herr hrest
    rw [hstep, ih (fun e' he' => hall e' (List.mem_cons_of_mem e he')) herr' hrest',
      List.append_assoc, List.singleton_append]

/-- **What the loop accepts** is laid out as the extensions it adds. -/
theorem decodeExtensionsLoop_accepts {dec : Decoder} {acc out : List Extension}
    (herr : dec.err = none) (h : decodeExtensionsLoop dec acc = .ok out) :
    ∃ extensions tail, out = acc ++ extensions ∧ (∀ e ∈ extensions, e.Encodable)
      ∧ EndsExtensions tail ∧ dec.rest = extensions.flatMap Extension.bytes ++ tail := by
  fun_induction decodeExtensionsLoop dec acc with
  | case1 dec acc hshort =>
    obtain rfl := Except.ok.inj h
    refine ⟨[], dec.rest, (List.append_nil _).symm, by simp, ?_, rfl⟩
    rw [← Decoder.length_rest] at hshort
    by_cases hnil : dec.rest.length = 0
    · exact Or.inl (List.length_eq_zero_iff.mp hnil)
    · exact Or.inr (Or.inl (by omega))
  | case2 => cases h
  | case3 dec acc hlong dec1 hnone hread1 =>
    obtain rfl := Except.ok.inj h
    obtain ⟨-, -, -, hrest1⟩ :=
      Decoder.readUint16_reads.accepts hread1 (Decoder.errOf_eq_none.mp hnone)
    exact ⟨[], dec.rest, (List.append_nil _).symm, by simp, Or.inr (Or.inr ⟨_, hrest1⟩), rfl⟩
  | case4 => cases h
  | case5 dec acc _ typ dec1 hread1 _ htyp size dec2 hread2 payload dec3 hread3 hnone3 ih =>
    have herr3 := Decoder.errOf_eq_none.mp hnone3
    obtain ⟨extensions, tail, rfl, hall, hend, hrest⟩ := ih herr3 h
    -- The three reads of the entry have not failed, so the entry is laid out in front.
    obtain ⟨herr2, hlen, -, hrest3⟩ := Decoder.readBytes_accepts hread3 herr3
    obtain ⟨herr1, -, -, hrest2⟩ := Decoder.readUint16_reads.accepts hread2 herr2
    obtain ⟨-, -, -, hrest1⟩ := Decoder.readUint16_reads.accepts hread1 herr1
    have hsize : size.toNat = payload.length := by omega
    have hlt := size.toNat_lt
    refine ⟨⟨typ, payload⟩ :: extensions, tail, ?_, ?_, hend, ?_⟩
    · rw [List.append_assoc, List.singleton_append]
    · intro e he
      obtain rfl | he := List.mem_cons.mp he
      · refine ⟨htyp, ?_⟩
        show payload.length < 2 ^ 16
        omega
      · exact hall e he
    · rw [hrest1, hrest2, hrest3, hrest, hsize, List.flatMap_cons]
      unfold Extension.bytes
      simp only [List.append_assoc]

/-- **The grammar of the extensions.** `decodeExtensions` returns a list exactly when the
input is the entries of that list, each with a type other than zero and a length of two
bytes, and behind them nothing, a single byte, or a zero type and anything. -/
theorem decodeExtensions_eq_ok_iff (data : Bytes) (extensions : List Extension) :
    decodeExtensions data = .ok extensions
      ↔ (∀ e ∈ extensions, e.Encodable)
        ∧ ∃ tail, EndsExtensions tail ∧ data = extensions.flatMap Extension.bytes ++ tail := by
  constructor
  · intro h
    change decodeExtensionsLoop (newDecoder data) [] = .ok extensions at h
    obtain ⟨entries, tail, rfl, hall, hend, hrest⟩ := decodeExtensionsLoop_accepts rfl h
    exact ⟨hall, tail, hend, hrest⟩
  · rintro ⟨hall, tail, hend, hrest⟩
    show decodeExtensionsLoop (newDecoder data) [] = .ok ([] ++ extensions)
    exact decodeExtensionsLoop_extensions hall hend rfl hrest

/-- A type without a length, and a length without its bytes. -/
example : (decodeExtensions [1, 0]).isOk = false
    ∧ (decodeExtensions [1, 0, 2, 0, 9]).isOk = false := by
  decide +kernel

/-! ## Accounts -/

/-- `type Account struct`: the base account is embedded. -/
structure Account where
  base : Token.Account := {}
  extensions : List Extension := []
  deriving DecidableEq

/-- `DecodeAccount`. When the extensions do not decode, the base is returned with the
error. -/
def decodeAccount (data : Bytes) : Account × Option Err :=
  if data.length ≠ accountSize ∧ data.length < accountSize + 1 then
    ({}, some { msg := errInvalidAccountSize ++ ": account: " ++ toString data.length })
  else
    match Token.decodeAccount (data.take accountSize) with
    | .error err => ({}, some err)
    | .ok base =>
      if data.length = accountSize then ({ base }, none)
      else
        match decodeExtensions (data.drop (accountSize + 1)) with
        | .error err => ({ base }, some err)
        | .ok extensions => ({ base, extensions }, none)

/-- The bytes behind the account type are a list of extensions. -/
def ExtensionsImage (data : Bytes) : Prop :=
  ∃ (extensions : List Extension) (tail : Bytes), (∀ e ∈ extensions, e.Encodable)
    ∧ EndsExtensions tail ∧ data.drop (accountSize + 1) = extensions.flatMap Extension.bytes ++ tail

theorem extensionsImage_iff {data : Bytes} :
    ExtensionsImage data ↔ ∃ extensions, decodeExtensions (data.drop (accountSize + 1))
      = .ok extensions := by
  constructor
  · rintro ⟨extensions, tail, hall, hend, hdata⟩
    exact ⟨extensions, (decodeExtensions_eq_ok_iff _ _).mpr ⟨hall, tail, hend, hdata⟩⟩
  · rintro ⟨extensions, h⟩
    obtain ⟨hall, tail, hend, hdata⟩ := (decodeExtensions_eq_ok_iff _ _).mp h
    exact ⟨extensions, tail, hall, hend, hdata⟩

/-- **What `DecodeMint` accepts.** -/
theorem decodeMint_accepts_iff {data : Bytes} {store : Store PublicKey} :
    (decodeMint data store).1.2 = none
      ↔ Token.MintImage (data.take mintSize)
        ∧ (data.length = mintSize ∨ accountSize + 1 ≤ data.length ∧ ExtensionsImage data) := by
  constructor
  · intro h
    have hbase : ∃ mint store', Token.decodeMint (data.take mintSize) store
        = (.ok mint, store') := by
      unfold decodeMint at h
      split at h
      · cases h
      · split at h
        · cases h
        · next base store' hmint => exact ⟨base, store', hmint⟩
    have himage := decodeMint_isOk_iff.mp hbase
    have hlength : data.length = mintSize ∨ accountSize + 1 ≤ data.length := by
      by_contra hnot
      have hshort : data.length ≠ mintSize ∧ data.length < accountSize + 1 := by
        rw [not_or] at hnot
        exact ⟨hnot.1, Nat.lt_of_not_le hnot.2⟩
      unfold decodeMint at h
      rw [if_pos hshort] at h
      cases h
    obtain ⟨extensions, err, heq, herr⟩ := decodeMint_eq ⟨himage, hlength⟩ store
    rw [heq] at h
    refine ⟨himage, ?_⟩
    rcases herr.mp h with hmint | hext
    · exact Or.inl hmint
    · rcases hlength with hmint | hlong
      · exact Or.inl hmint
      · exact Or.inr ⟨hlong, extensionsImage_iff.mpr hext⟩
  · rintro ⟨himage, hrest⟩
    have hlength : data.length = mintSize ∨ accountSize + 1 ≤ data.length := by
      rcases hrest with hmint | ⟨hlong, -⟩
      · exact Or.inl hmint
      · exact Or.inr hlong
    obtain ⟨extensions, err, heq, herr⟩ := decodeMint_eq ⟨himage, hlength⟩ store
    rw [heq]
    refine herr.mpr ?_
    rcases hrest with hmint | ⟨-, hext⟩
    · exact Or.inl hmint
    · exact Or.inr (extensionsImage_iff.mp hext)

/-- **What `DecodeAccount` accepts.** -/
theorem decodeAccount_accepts_iff {data : Bytes} :
    (decodeAccount data).2 = none
      ↔ Token.AccountImage (data.take accountSize)
        ∧ (data.length = accountSize ∨ accountSize + 1 ≤ data.length ∧ ExtensionsImage data) := by
  unfold decodeAccount
  by_cases hshort : data.length ≠ accountSize ∧ data.length < accountSize + 1
  · rw [if_pos hshort]
    simp only [reduceCtorEq, false_iff, not_and, not_or]
    intro _
    exact ⟨hshort.1, fun h => absurd h (Nat.not_le.mpr hshort.2)⟩
  · rw [if_neg hshort]
    cases hbase : Token.decodeAccount (data.take accountSize) with
    | error err =>
      have hnot : ¬Token.AccountImage (data.take accountSize) := by
        rw [← decodeAccount_isOk_iff, hbase]
        rintro ⟨account, h⟩
        cases h
      simp [hnot]
    | ok base =>
      have himage := decodeAccount_isOk_iff.mp ⟨base, hbase⟩
      by_cases hlen : data.length = accountSize
      · simp [himage, hlen]
      · have hlong : accountSize + 1 ≤ data.length := by
          rw [not_and, Nat.not_lt] at hshort
          exact hshort hlen
        rw [extensionsImage_iff]
        cases hext : decodeExtensions (data.drop (accountSize + 1)) with
        | error err => simp [hlen]
        | ok extensions => simp [himage, hlen, hlong]

/-! ## Both at once -/

/-- A byte string that is laid out as a mint and as an account, each with extensions. -/
structure BothImages (data : Bytes) : Prop where
  long : accountSize + 1 ≤ data.length
  mint : Token.MintImage (data.take mintSize)
  account : Token.AccountImage (data.take accountSize)
  extensions : ExtensionsImage data

/-- **Accepted as a mint and as an account.** A byte string is refused by `DecodeMint` or by
`DecodeAccount` exactly if it is not laid out as both. -/
theorem decodeMint_or_decodeAccount_refuses_iff (data : Bytes) (store : Store PublicKey) :
    ¬((decodeMint data store).1.2 = none ∧ (decodeAccount data).2 = none) ↔ ¬BothImages data := by
  refine not_congr ?_
  rw [decodeMint_accepts_iff, decodeAccount_accepts_iff]
  constructor
  · rintro ⟨⟨hmint, hmintLen⟩, haccount, haccountLen⟩
    -- A length of 82 or of 165 is that of one of them only.
    have hlen1 : data.length = 82 ∨ 166 ≤ data.length := hmintLen.imp_right And.left
    have hlen2 : data.length = 165 ∨ 166 ≤ data.length := haccountLen.imp_right And.left
    have hlong : 166 ≤ data.length := by omega
    rcases hmintLen with hshort | ⟨-, hext⟩
    · have hshort' : data.length = 82 := hshort
      omega
    · exact ⟨hlong, hmint, haccount, hext⟩
  · rintro ⟨hlong, hmint, haccount, hext⟩
    exact ⟨⟨hmint, Or.inr ⟨hlong, hext⟩⟩, haccount, Or.inr ⟨hlong, hext⟩⟩

/-- A mint with a mint authority of sevens, a supply of 3 and 6 decimals, without a freeze
authority, padded to the account type of a mint, with a close authority as extension. -/
def extendedMint : Bytes :=
  sampleMint 1 0 7 0 ++ (List.replicate 83 0 ++ (1 :: Extension.bytes ⟨3, List.replicate 32 9⟩))

/-- It is read as a mint, and as a token account. -/
theorem extendedMint_decodes_as_account :
    (decodeMint extendedMint ⟨[]⟩).1.2 = none ∧ (decodeAccount extendedMint).2 = none
      ∧ (decodeAccount extendedMint).1.base.owner = ByteArr.copyFrom 32 (List.replicate 4 7
        ++ [3, 0, 0, 0, 0, 0, 0, 0, 6, 1]) := by
  decide +kernel

end SolanaGo.Token2022
