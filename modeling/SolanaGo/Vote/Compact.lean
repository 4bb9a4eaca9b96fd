/-
The compact form and its bytes.

What the bytes of the lockouts mean depends on where their differences start, so the
reader of the lockouts is a layout with that start as a parameter (`decodeLockouts_parses`):
it returns exactly the ordered lists, from exactly their bytes. The compact reader is put
together from it and the reads of the other fields (`decodeCompact_parses`).

The bytes do not say whether the all-ones slot they start with is a root or stands for
none. That is the only thing they do not determine (`writeCompact_injective`).
-/
import SolanaGo.Bin.Layout
import SolanaGo.Vote.Types

set_option autoImplicit false

namespace SolanaGo.Vote

open Codec hiding Decoder
open Bin

/-! ## The bytes -/

/-- Where the differences start. -/
def VoteStateUpdate.start (update : VoteStateUpdate) : UInt64 := update.root.getD 0

/-- The bytes of the lockouts, with differences from `previous` on. -/
def lockoutBytes : (previous : UInt64) → List Lockout → Bytes
  | _, [] => []
  | previous, lockout :: lockouts =>
    appendShortvecLen (lockout.slot - previous).toNat
      ++ ([lockout.confirmationCount.toUInt8] ++ lockoutBytes lockout.slot lockouts)

/-- The lockouts that the compact form can represent: no slot below its predecessor, and
counts of one byte. -/
def Representable : (previous : UInt64) → List Lockout → Prop
  | _, [] => True
  | previous, lockout :: lockouts =>
    previous ≤ lockout.slot ∧ lockout.confirmationCount ≤ 255
      ∧ Representable lockout.slot lockouts

/-- The bytes of the timestamp. -/
def timestampBytes : Option Int64 → Bytes
  | some timestamp => 1 :: leBytes 8 timestamp.toUInt64.toNat
  | none => [0]

/-- The bytes of a vote state update. -/
def VoteStateUpdate.compactBytes (update : VoteStateUpdate) : Bytes :=
  leBytes 8 (update.root.getD maxUint64).toNat
    ++ (appendShortvecLen update.lockouts.length
      ++ (lockoutBytes update.start update.lockouts
        ++ (update.hash.toList ++ timestampBytes update.timestamp)))

/-- What the compact writer accepts. -/
structure VoteStateUpdate.Writable (update : VoteStateUpdate) : Prop where
  count : update.lockouts.length ≤ maxLockoutHistory
  lockouts : Representable update.start update.lockouts

/-! ## Writing, as bytes -/

theorem thenWrite_eq_none {written : Option Err × Encoder} {next : Encoder → Option Err × Encoder}
    {enc' : Encoder} :
    thenWrite written next = (none, enc')
      ↔ ∃ enc, written = (none, enc) ∧ next enc = (none, enc') := by
  obtain ⟨result, enc⟩ := written
  cases result with
  | none => simp [thenWrite]
  | some err => simp [thenWrite]

section Write

variable {enc enc' : Encoder}

/-- The loop accepts a list exactly if it is representable, and appends its bytes. -/
theorem writeLockouts_eq_none (herr : enc.err = none) {lockouts : List Lockout}
    {previous : UInt64} :
    writeLockouts lockouts previous enc = (none, enc')
      ↔ Representable previous lockouts ∧ enc' = enc.append (lockoutBytes previous lockouts) := by
  induction lockouts generalizing previous enc with
  | nil =>
    have hsame : enc.append [] = enc := by
      rw [Encoder.append_of_none herr, List.append_nil]
    simp only [writeLockouts, Representable, lockoutBytes, hsame, Prod.mk.injEq, true_and]
    exact eq_comm
  | cons lockout lockouts ih =>
    unfold writeLockouts Representable
    by_cases horder : lockout.slot < previous
    · have hnot : ¬previous ≤ lockout.slot := UInt64.not_le.mpr horder
      simp [horder, hnot]
    · by_cases hcount : 255 < lockout.confirmationCount
      · have hnot : ¬lockout.confirmationCount ≤ 255 := UInt32.not_le.mpr hcount
        simp [horder, hcount, hnot]
      · rw [if_neg horder]
        dsimp only
        rw [if_neg hcount, Encoder.writeVarUint64, Encoder.writeUint8, Encoder.append_append,
          Encoder.varUint64Bytes_eq, ih (by rw [Encoder.append_err, herr]), Encoder.append_append,
          lockoutBytes, List.append_assoc]
        simp only [UInt64.not_lt.mp horder, UInt32.not_lt.mp hcount, true_and]

theorem writeTail_eq (herr : enc.err = none) (update : VoteStateUpdate) :
    update.writeTail enc
      = (none, enc.append (update.hash.toList ++ timestampBytes update.timestamp)) := by
  have herrs : ∀ bs, (enc.append bs).err = none := fun bs => by rw [Encoder.append_err, herr]
  unfold VoteStateUpdate.writeTail
  cases update.timestamp with
  | none =>
    show ((enc.append _).append [0]).errOf = _
    rw [Encoder.append_append, Encoder.errOf_of_none (herrs _)]
    rfl
  | some timestamp =>
    show (((enc.append _).append [1]).append _).errOf = _
    rw [Encoder.append_append, Encoder.append_append, Encoder.errOf_of_none (herrs _)]
    rfl

theorem validate_eq_none {update : VoteStateUpdate} :
    update.validate = none ↔ update.lockouts.length ≤ maxLockoutHistory := by
  unfold VoteStateUpdate.validate
  split
  · next h => simp [Nat.not_le.mpr h]
  · next h => simp [Nat.not_lt.mp h]

/-- **The compact writer.** It accepts an update exactly if it is writable, and appends
its bytes. -/
theorem writeCompact_eq_none (herr : enc.err = none) {update : VoteStateUpdate} :
    update.writeCompact enc = (none, enc')
      ↔ update.Writable ∧ enc' = enc.append update.compactBytes := by
  have herr1 : ((enc.writeUint64 (update.root.getD maxUint64)).append
      (appendShortvecLen update.lockouts.length)).err = none := by
    rw [Encoder.append_err, Encoder.writeUint64, Encoder.append_err, herr]
  have hbytes : ∀ e : Encoder,
      (((e.append (leBytes 8 (update.root.getD maxUint64).toNat)).append
        (appendShortvecLen update.lockouts.length)).append
        (lockoutBytes update.start update.lockouts)).append
        (update.hash.toList ++ timestampBytes update.timestamp)
      = e.append update.compactBytes := by
    intro e
    rw [Encoder.append_append, Encoder.append_append, Encoder.append_append]
    rfl
  unfold VoteStateUpdate.writeCompact
  rw [thenWrite_eq_none]
  constructor
  · rintro ⟨enc1, hvalid, h⟩
    obtain ⟨hcount, rfl⟩ := Prod.mk.inj hvalid
    rw [validate_eq_none] at hcount
    have hle : update.lockouts.length ≤ 0xFFFF := Nat.le_trans hcount (by decide)
    dsimp only at h
    rw [Encoder.writeCompactU16_of_le hle, thenWrite_eq_none] at h
    obtain ⟨enc2, hlockouts, htail⟩ := h
    obtain ⟨hrep, rfl⟩ := (writeLockouts_eq_none herr1).mp hlockouts
    rw [writeTail_eq (by rw [Encoder.append_err, herr1])] at htail
    exact ⟨⟨hcount, hrep⟩, (Prod.mk.inj htail).2.symm.trans (hbytes enc)⟩
  · rintro ⟨⟨hcount, hrep⟩, rfl⟩
    have hle : update.lockouts.length ≤ 0xFFFF := Nat.le_trans hcount (by decide)
    refine ⟨enc, by rw [validate_eq_none.mpr hcount], ?_⟩
    dsimp only
    rw [Encoder.writeCompactU16_of_le hle, thenWrite_eq_none]
    refine ⟨_, (writeLockouts_eq_none herr1).mpr ⟨hrep, rfl⟩, ?_⟩
    rw [writeTail_eq (by rw [Encoder.append_err, herr1]), ← hbytes enc]
    rfl

/-- The writer of tower syncs appends the block id behind the update. -/
theorem write_eq_none (herr : enc.err = none) {sync : TowerSyncUpdate} :
    sync.write enc = (none, enc')
      ↔ sync.update.Writable
        ∧ enc' = enc.append (sync.update.compactBytes ++ sync.blockID.toList) := by
  have htail : ∀ bs, (Encoder.writeHash sync.blockID (enc.append bs)).errOf
      = (none, enc.append (bs ++ sync.blockID.toList)) := by
    intro bs
    rw [Encoder.writeHash, Encoder.append_append,
      Encoder.errOf_of_none (by rw [Encoder.append_err, herr])]
  unfold TowerSyncUpdate.write
  rw [thenWrite_eq_none]
  constructor
  · rintro ⟨enc1, hupdate, h⟩
    obtain ⟨hw, rfl⟩ := (writeCompact_eq_none herr).mp hupdate
    rw [htail] at h
    exact ⟨hw, (Prod.mk.inj h).2.symm⟩
  · rintro ⟨hw, rfl⟩
    exact ⟨_, (writeCompact_eq_none herr).mpr ⟨hw, rfl⟩, htail _⟩

end Write

/-! ## Reading, as bytes -/

section Read

variable {dec dec' : Decoder}

theorem thenRead_eq_ok {α β : Type} {read : Except Err α × Decoder}
    {next : α → Decoder → Except Err β × Decoder} {b : β} :
    thenRead read next = (.ok b, dec')
      ↔ ∃ a dec, read = (.ok a, dec) ∧ next a dec = (.ok b, dec') := by
  obtain ⟨result, dec⟩ := read
  cases result with
  | error err => simp [thenRead]
  | ok a => simp [thenRead]

theorem checkErr_of_none {β : Type} {next : Decoder → Except Err β × Decoder} (h : dec.err = none) :
    checkErr dec next = next dec := by
  unfold checkErr Decoder.errOf
  rw [h]

theorem checkErr_eq_ok {β : Type} {next : Decoder → Except Err β × Decoder} {b : β} :
    checkErr dec next = (.ok b, dec') ↔ dec.err = none ∧ next dec = (.ok b, dec') := by
  cases h : dec.err with
  | none => simp [checkErr_of_none h]
  | some failure => simp [checkErr, Decoder.errOf, h]

/-- A difference, written and added again. -/
theorem delta_add {previous slot : UInt64} (h : previous ≤ slot) :
    previous + (slot - previous) = slot ∧ ¬maxUint64 - previous < slot - previous := by
  have hle := UInt64.le_iff_toNat_le.mp h
  have hsub := UInt64.toNat_sub_of_le slot previous h
  have hslot := slot.toNat_lt
  have hmax : maxUint64.toNat = 2 ^ 64 - 1 := rfl
  have hroom : previous ≤ maxUint64 := by
    rw [UInt64.le_iff_toNat_le]
    omega
  have hrem := UInt64.toNat_sub_of_le maxUint64 previous hroom
  constructor
  · rw [← UInt64.toNat_inj, UInt64.toNat_add]
    omega
  · rw [UInt64.lt_iff_toNat_lt]
    omega

/-- A difference, added and subtracted again. -/
theorem add_delta {previous delta : UInt64} (h : ¬maxUint64 - previous < delta) :
    previous ≤ previous + delta ∧ previous + delta - previous = delta := by
  have hmax : maxUint64.toNat = 2 ^ 64 - 1 := rfl
  have hprevious := previous.toNat_lt
  have hroom : previous ≤ maxUint64 := by
    rw [UInt64.le_iff_toNat_le]
    omega
  have hrem := UInt64.toNat_sub_of_le maxUint64 previous hroom
  rw [UInt64.lt_iff_toNat_lt] at h
  have hsum : (previous + delta).toNat = previous.toNat + delta.toNat := by
    rw [UInt64.toNat_add]
    omega
  have hle : previous ≤ previous + delta := by
    rw [UInt64.le_iff_toNat_le]
    omega
  refine ⟨hle, ?_⟩
  rw [← UInt64.toNat_inj, UInt64.toNat_sub_of_le _ _ hle]
  omega

/-- A count of one byte survives the byte. -/
theorem toUInt8_toUInt32 {count : UInt32} (h : count ≤ 255) : count.toUInt8.toUInt32 = count := by
  have hle := UInt32.le_iff_toNat_le.mp h
  have hbound : count.toNat ≤ 255 := hle
  rw [← UInt32.toNat_inj, UInt8.toNat_toUInt32, UInt32.toNat_toUInt8]
  omega

theorem toUInt32_le (count : UInt8) : count.toUInt32 ≤ 255 := by
  have hlt := count.toNat_lt
  rw [UInt32.le_iff_toNat_le, UInt8.toNat_toUInt32]
  show count.toNat ≤ 255
  omega

/-! ### Layouts with checks

The reader of a record looks at the decoder's error between its fields and refuses values of
its own accord. Both keep the laws of a layout, as far as what is refused is never written. -/

section Layouts

variable {ι α β : Type} {P Q : ι → Prop} {enc : ι → Bytes} {out : ι → α}
  {next : Decoder → Except Err α × Decoder}

theorem parses_checkErr (h : Decoder.Parses P enc out next) :
    Decoder.Parses P enc out fun d => checkErr d next where
  inverts hi herr hrest := by
    rw [checkErr_of_none herr]
    exact h.inverts hi herr hrest
  accepts hread herr := h.accepts (checkErr_eq_ok.mp hread).2 herr

/-- A check of what was read so far. -/
theorem parses_refuse (bad : Prop) [Decidable bad] (err : Err)
    (h : ¬bad → Decoder.Parses P enc out next) (hP : ∀ i, P i → ¬bad) :
    Decoder.Parses P enc out fun d => if bad then (.error err, d) else next d := by
  by_cases hbad : bad
  · refine ⟨fun hi _ _ => absurd hbad (hP _ hi), fun hread _ => ?_⟩
    rw [if_pos hbad] at hread
    exact absurd (Prod.mk.inj hread).1 (by simp)
  · simp only [if_neg hbad]
    exact h hbad

/-- A check of what is left. -/
theorem parses_refuseShort (n : ℕ) (err : Err) (h : Decoder.Parses P enc out next)
    (hlen : ∀ i, P i → n ≤ (enc i).length) :
    Decoder.Parses P enc out fun d => if d.remaining < n then (.error err, d) else next d := by
  refine ⟨fun {d i t} hi herr hrest => ?_, fun {d d' a} hread herr => ?_⟩
  · have hlong : ¬d.remaining < n := by
      have hn := hlen i hi
      rw [← Decoder.length_rest, hrest, List.length_append]
      omega
    rw [if_neg hlong]
    exact h.inverts hi herr hrest
  · by_cases hshort : d.remaining < n
    · rw [if_pos hshort] at hread
      exact absurd (Prod.mk.inj hread).1 (by simp)
    · rw [if_neg hshort] at hread
      exact h.accepts hread herr

/-- A part with a reader of its own, in front of the others. -/
theorem parses_thenRead {R : β → Prop} {encPart : β → Bytes}
    {read : Decoder → Except Err β × Decoder} (part : ι → β)
    {next : β → Decoder → Except Err α × Decoder}
    (h : Decoder.Parses R encPart (fun b => b) read) (hQ : ∀ i, Q i ↔ R (part i) ∧ P i)
    (hnext : ∀ b, Decoder.Parses (fun i => P i ∧ part i = b) enc out (next b)) :
    Decoder.Parses Q (fun i => encPart (part i) ++ enc i) out
      fun d => thenRead (read d) next := by
  refine ⟨fun {d i t} hi herr hrest => ?_, fun {d d' a} hread herr => ?_⟩
  · obtain ⟨hR, hP⟩ := (hQ i).mp hi
    rw [List.append_assoc] at hrest
    have herr1 : (d.past (encPart (part i)).length).err = none := herr
    rw [h.inverts hR herr hrest]
    unfold thenRead
    dsimp only
    rw [(hnext _).inverts ⟨hP, rfl⟩ herr1 (Decoder.rest_past_of_eq hrest), Decoder.past_past,
      List.length_append]
  · obtain ⟨b, d1, hpart, hothers⟩ := thenRead_eq_ok.mp hread
    obtain ⟨i, ha, herr1, ⟨hP, hfront⟩, hd', hrest'⟩ := (hnext b).accepts hothers herr
    obtain ⟨_, rfl, hnone, hR, hd1, hrest1⟩ := h.accepts hpart herr1
    subst hfront
    refine ⟨i, ha, hnone, (hQ i).mpr ⟨hR, hP⟩, ?_, ?_⟩
    · rw [hd', hd1, Decoder.past_past, List.length_append]
    · rw [hrest1, hrest', List.append_assoc]

end Layouts

/-! ### The update -/

/-- One turn of the loop over the lockouts, in front of the others. -/
theorem decodeLockouts_cons {count : ℕ} {previous : UInt64}
    (h : ∀ start, Decoder.Parses (fun lockouts => lockouts.length = count
      ∧ Representable start lockouts) (lockoutBytes start) (fun lockouts => lockouts)
      (decodeLockouts count start)) :
    Decoder.Parses (fun p : Lockout × List Lockout => p.2.length = count
        ∧ Representable previous (p.1 :: p.2))
      (fun p => lockoutBytes previous (p.1 :: p.2)) (fun p => p.1 :: p.2)
      (decodeLockouts (count + 1) previous) := by
  refine .anyField (fun p : Lockout × List Lockout => p.1.slot - previous)
      Decoder.readVarUint64_reads fun delta =>
    .anyField (fun p : Lockout × List Lockout => p.1.confirmationCount.toUInt8)
      Decoder.readUint8_reads fun confirmation =>
    parses_checkErr (parses_refuse (maxUint64 - previous < delta) errSlotOverflow
      (fun hfits => .congrBytes (parses_thenRead
      (P := fun p => p.1 = Lockout.mk (previous + delta) confirmation.toUInt32) Prod.snd
      (h (previous + delta)) (fun p => ?_) fun lockouts =>
      .pure (Lockout.mk (previous + delta) confirmation.toUInt32, lockouts)
        fun p => ?_) fun p hp => ?_) fun p hp => ?_)
  · constructor
    · rintro ⟨⟨⟨hlen, horder, hcount, hrep⟩, rfl⟩, rfl⟩
      rw [(delta_add horder).1, toUInt8_toUInt32 hcount]
      exact ⟨⟨hlen, hrep⟩, rfl⟩
    · obtain ⟨lockout, others⟩ := p
      rintro ⟨⟨hlen, hrep⟩, rfl⟩
      obtain ⟨hle, hsub⟩ := add_delta hfits
      exact ⟨⟨⟨hlen, hle, toUInt32_le confirmation, hrep⟩, hsub⟩, UInt8.toUInt8_toUInt32 _⟩
  · rw [Prod.ext_iff]
  · rw [List.append_nil, ← hp.1.2, (delta_add hp.1.1.2.1).1]
  · rw [← hp.1.2]
    exact (delta_add hp.1.1.2.1).2

/-- **The lockouts**, from a start on: the reader returns the representable lists of the given
length. -/
theorem decodeLockouts_parses (count : ℕ) (previous : UInt64) :
    Decoder.Parses (fun lockouts => lockouts.length = count ∧ Representable previous lockouts)
      (lockoutBytes previous) (fun lockouts => lockouts) (decodeLockouts count previous) := by
  induction count generalizing previous with
  | zero =>
    refine .congrBytes (.pure [] fun lockouts => ?_) fun lockouts h => ?_
    · rw [List.length_eq_zero_iff]
      exact ⟨fun h => h.1, fun h => ⟨h, h ▸ trivial⟩⟩
    · rw [List.length_eq_zero_iff.mp h.1]
      rfl
  | succ count ih =>
    refine .embed (fun p : Lockout × List Lockout => p.1 :: p.2)
      (decodeLockouts_cons ih) (fun lockouts h => ?_) fun p => ?_
    · obtain ⟨lockout, others, rfl⟩ := List.exists_cons_of_length_eq_add_one h.1
      exact ⟨(lockout, others), rfl⟩
    · rw [List.length_cons, Nat.add_right_cancel_iff]

theorem decodeTimestamp_reads :
    Decoder.Reads (fun _ => True) timestampBytes (decodeTimestamp none) := by
  have hbytes : timestampBytes = optionalBytes fun v : Int64 => leBytes 8 v.toUInt64.toNat := by
    funext timestamp
    cases timestamp <;> rfl
  rw [hbytes]
  exact Decoder.readInt64_reads.anyOptional

/-- Every lockout takes at least two bytes. -/
theorem length_lockoutBytes (previous : UInt64) (lockouts : List Lockout) :
    lockouts.length * 2 ≤ (lockoutBytes previous lockouts).length := by
  induction lockouts generalizing previous with
  | nil => exact Nat.le_refl _
  | cons lockout lockouts ih =>
    have hpos : 1 ≤ shortvecLen (lockout.slot - previous).toNat := by
      rw [shortvecLen]
      split <;> omega
    have hlen := ih lockout.slot
    rw [lockoutBytes, List.length_append, List.length_append, appendShortvecLen_length,
      List.length_singleton, List.length_cons]
    omega

theorem length_timestampBytes (timestamp : Option Int64) :
    1 ≤ (timestampBytes timestamp).length := by
  cases timestamp with
  | none => exact Nat.le_refl _
  | some timestamp => exact Nat.succ_pos _

/-- The root that is read for a word. -/
theorem root_iff {r : Option UInt64} {root : UInt64} :
    r ≠ some maxUint64 ∧ r.getD maxUint64 = root
      ↔ r = if root ≠ maxUint64 then some root else none := by
  cases r with
  | none =>
    by_cases h : root = maxUint64
    · simp [h]
    · simp [h, Ne.symm h]
  | some slot =>
    by_cases h : root = maxUint64
    · simp [h]
    · simp only [ne_eq, Option.some.injEq, Option.getD_some, h, not_false_eq_true, if_true]
      exact ⟨fun hs => hs.2, fun hs => ⟨hs ▸ h, hs⟩⟩

/-- Where the differences start, for a root as it is read. -/
theorem start_of_root {update : VoteStateUpdate} {root : UInt64}
    (h : update.root = if root ≠ maxUint64 then some root else none) :
    (if (if root ≠ maxUint64 then some root else none).isSome then root else 0) = update.start := by
  unfold VoteStateUpdate.start
  rw [h]
  split <;> rfl

/-- **The compact reader** returns the writable updates, and reads their compact forms. -/
theorem decodeCompact_parses :
    Decoder.Parses (fun update : VoteStateUpdate => update.Writable ∧ update.root ≠ some maxUint64)
      VoteStateUpdate.compactBytes (fun update => update) (VoteStateUpdate.decodeCompact {}) := by
  refine .anyField (fun update : VoteStateUpdate => update.root.getD maxUint64)
      Decoder.readUint64_reads fun root =>
    .field (P := fun update : VoteStateUpdate => (update.Writable ∧ update.root ≠ some maxUint64)
        ∧ update.root.getD maxUint64 = root)
      (fun update => update.lockouts.length) Decoder.readCompactU16_reads (fun update => ?_)
      fun count =>
    parses_checkErr (parses_refuse (maxLockoutHistory < count) (errTooManyLockouts count)
      (fun hcount => parses_refuseShort (count * 2 + 33) errTruncatedCompact (.congrBytes
        (parses_thenRead (P := fun update : VoteStateUpdate =>
            update.root = if root ≠ maxUint64 then some root else none) VoteStateUpdate.lockouts
          (decodeLockouts_parses count
            (if (if root ≠ maxUint64 then some root else none).isSome then root else 0))
          (fun update => ?_) fun lockouts =>
        .anyField VoteStateUpdate.hash Decoder.readHash_reads fun hash =>
        .anyField VoteStateUpdate.timestamp decodeTimestamp_reads fun timestamp =>
        parses_checkErr (.pure (VoteStateUpdate.mk lockouts
          (if root ≠ maxUint64 then some root else none) hash timestamp) fun update => ?_))
        fun update hupdate => ?_) fun update hupdate => ?_)
      fun update hupdate => ?_)
  · rw [iff_and_self]
    exact fun h => Nat.le_trans h.1.1.count (by decide)
  · constructor
    · rintro ⟨⟨⟨hw, hne⟩, hword⟩, rfl⟩
      have hroot := root_iff.mp ⟨hne, hword⟩
      rw [start_of_root hroot]
      exact ⟨⟨rfl, hw.lockouts⟩, hroot⟩
    · rintro ⟨⟨rfl, hrep⟩, hroot⟩
      rw [start_of_root hroot] at hrep
      obtain ⟨hne, hword⟩ := root_iff.mpr hroot
      exact ⟨⟨⟨⟨Nat.not_lt.mp hcount, hrep⟩, hne⟩, hword⟩, rfl⟩
  · rw [VoteStateUpdate.ext_iff]
    tauto
  · rw [start_of_root (root_iff.mp ⟨hupdate.1.1.2, hupdate.1.2⟩), List.append_nil]
  · have hlockouts := length_lockoutBytes update.start update.lockouts
    have htime := length_timestampBytes update.timestamp
    have hhash := update.hash.length_toList
    rw [← hupdate.2]
    simp only [List.length_append]
    omega
  · rw [← hupdate.2]
    exact Nat.not_lt.mpr hupdate.1.1.1.count

/-- The same for tower syncs. -/
theorem decode_parses :
    Decoder.Parses (fun sync => sync.update.Writable ∧ sync.root ≠ some maxUint64)
      (fun sync => sync.update.compactBytes ++ sync.blockID.toList) (fun sync => sync)
      TowerSyncUpdate.decode := by
  refine .congrBytes (parses_thenRead (P := fun _ => True) TowerSyncUpdate.update
    decodeCompact_parses (fun sync => ?_) fun update =>
    .anyField TowerSyncUpdate.blockID Decoder.readHash_reads fun blockID =>
    parses_checkErr (.pure (TowerSyncUpdate.mk update.lockouts update.root update.hash
      update.timestamp blockID) fun sync => ?_)) fun sync _ => ?_
  · exact (and_iff_left trivial).symm
  · rw [TowerSyncUpdate.ext_iff, VoteStateUpdate.ext_iff]
    simp only [TowerSyncUpdate.update, true_and]
    tauto
  · rw [List.append_nil]

/-- Both readers look at the error at their end. -/
theorem err_of_decodeCompact {update : VoteStateUpdate}
    (h : VoteStateUpdate.decodeCompact {} dec = (.ok update, dec')) : dec'.err = none := by
  unfold VoteStateUpdate.decodeCompact at h
  obtain ⟨-, h⟩ := checkErr_eq_ok.mp h
  split at h
  · exact absurd (Prod.mk.inj h).1 (by simp)
  · split at h
    · exact absurd (Prod.mk.inj h).1 (by simp)
    · obtain ⟨_, _, -, h⟩ := thenRead_eq_ok.mp h
      obtain ⟨herr, h⟩ := checkErr_eq_ok.mp h
      rw [← (Prod.mk.inj h).2]
      exact herr

theorem err_of_decode {sync : TowerSyncUpdate}
    (h : TowerSyncUpdate.decode dec = (.ok sync, dec')) : dec'.err = none := by
  obtain ⟨_, _, -, h⟩ := thenRead_eq_ok.mp h
  obtain ⟨herr, h⟩ := checkErr_eq_ok.mp h
  rw [← (Prod.mk.inj h).2]
  exact herr

end Read

/-! ## Both directions -/

/-- A writer and a reader of the same bytes. Behind what was written for a value of `P`
anything may follow, and what the reader accepts anywhere in its input is what the
writer appends to any buffer. -/
structure Agree {α : Type} (P : α → Prop) (write : α → Encoder → Option Err × Encoder)
    (read : Decoder → Except Err α × Decoder) : Prop where
  reads : ∀ (a : α) (enc enc' : Encoder) (dec : Decoder) (tail : Bytes), P a → enc.err = none →
    write a enc = (none, enc') → dec.err = none →
    dec.rest = enc'.data.drop enc.data.length ++ tail →
    ∃ dec', read dec = (.ok a, dec') ∧ dec'.err = none ∧ dec'.rest = tail
  writes : ∀ (a : α) (dec dec' : Decoder), read dec = (.ok a, dec') →
    ∃ bytes, dec.rest = bytes ++ dec'.rest ∧ dec' = dec.past bytes.length
      ∧ ∀ enc : Encoder, enc.err = none →
        write a enc = (none, { enc with data := enc.data ++ bytes })

/-- The bytes that a write appended. -/
theorem drop_append {enc : Encoder} (herr : enc.err = none) (bytes : Bytes) :
    (enc.append bytes).data.drop enc.data.length = bytes := by
  rw [Encoder.append_of_none herr]
  exact List.drop_left

/-- **The compact form of vote state updates and of tower syncs.** What the writer accepts
is read back, if the root is not the slot that stands for no root, and what the reader
accepts is what the writer writes. -/
theorem compact_agrees :
    Agree (fun update => update.root ≠ some maxUint64) VoteStateUpdate.writeCompact
        (VoteStateUpdate.decodeCompact {})
      ∧ Agree (fun sync => sync.root ≠ some maxUint64) TowerSyncUpdate.write
        TowerSyncUpdate.decode := by
  refine ⟨⟨?_, ?_⟩, ⟨?_, ?_⟩⟩
  · intro update enc enc' dec tail hroot herr hwrite hdec hrest
    obtain ⟨hw, rfl⟩ := (writeCompact_eq_none herr).mp hwrite
    rw [drop_append herr] at hrest
    exact ⟨_, decodeCompact_parses.inverts ⟨hw, hroot⟩ hdec hrest, hdec,
      Decoder.rest_past_of_eq hrest⟩
  · intro update dec dec' h
    obtain ⟨_, rfl, -, ⟨hw, -⟩, hd, hrest⟩ :=
      decodeCompact_parses.accepts h (err_of_decodeCompact h)
    refine ⟨_, hrest, hd, fun enc herr => ?_⟩
    rw [← Encoder.append_of_none herr]
    exact (writeCompact_eq_none herr).mpr ⟨hw, rfl⟩
  · intro sync enc enc' dec tail hroot herr hwrite hdec hrest
    obtain ⟨hw, rfl⟩ := (write_eq_none herr).mp hwrite
    rw [drop_append herr] at hrest
    exact ⟨_, decode_parses.inverts ⟨hw, hroot⟩ hdec hrest, hdec, Decoder.rest_past_of_eq hrest⟩
  · intro sync dec dec' h
    obtain ⟨_, rfl, -, ⟨hw, -⟩, hd, hrest⟩ := decode_parses.accepts h (err_of_decode h)
    refine ⟨_, hrest, hd, fun enc herr => ?_⟩
    rw [← Encoder.append_of_none herr]
    exact (write_eq_none herr).mpr ⟨hw, rfl⟩

/-- An update with a root, a repeated slot, a two-byte difference and a timestamp. -/
def sampleUpdate : VoteStateUpdate where
  lockouts := [⟨7, 3⟩, ⟨7, 1⟩, ⟨300, 255⟩]
  root := some 5
  timestamp := some (-1)

theorem sampleUpdate_written : sampleUpdate.writeCompact (newEncoder [])
    = (none, (newEncoder []).append sampleUpdate.compactBytes) :=
  (writeCompact_eq_none rfl).mpr ⟨⟨by decide, by decide, by decide, by decide, by decide,
    by decide, by decide, trivial⟩, rfl⟩

/-- The bytes of the sample, read back in front of one more byte. -/
theorem compact_agrees_sample :
    ∃ enc', sampleUpdate.writeCompact (newEncoder []) = (none, enc')
      ∧ ∃ dec', VoteStateUpdate.decodeCompact {} (newDecoder (enc'.data ++ [9]))
          = (.ok sampleUpdate, dec') ∧ dec'.err = none ∧ dec'.rest = [9] := by
  exact ⟨_, sampleUpdate_written, compact_agrees.1.reads sampleUpdate (newEncoder []) _ _ _
    (by decide) rfl sampleUpdate_written rfl rfl⟩

/-! ## Different updates, different bytes -/

section Injective

/-- A layout determines the value, whatever follows. -/
theorem append_inj_of_parses {ι : Type} {P : ι → Prop} {enc : ι → Bytes}
    {read : Decoder → Except Err ι × Decoder} (h : Decoder.Parses P enc (fun i => i) read) {i j : ι}
    {s t : Bytes} (hi : P i) (hj : P j) (heq : enc i ++ s = enc j ++ t) : i = j ∧ s = t := by
  have hread : read (newDecoder (enc i ++ s)) = _ := h.inverts hi rfl rfl
  have hread' : read (newDecoder (enc i ++ s)) = _ := h.inverts hj rfl heq
  obtain rfl := Except.ok.inj (Prod.mk.inj (hread.symm.trans hread')).1
  exact ⟨rfl, List.append_cancel_left heq⟩

/-- **The compact form determines the update**, but for one thing: no root and the
all-ones root are written alike. -/
theorem writeCompact_injective (u v : VoteStateUpdate) (enc encU encV : Encoder)
    (herr : enc.err = none) (hu : u.writeCompact enc = (none, encU))
    (hv : v.writeCompact enc = (none, encV)) (heq : encU.data = encV.data) :
    u = v ∨ (u.root = none ∧ v.root = some maxUint64)
      ∨ (u.root = some maxUint64 ∧ v.root = none) := by
  obtain ⟨hwu, rfl⟩ := (writeCompact_eq_none herr).mp hu
  obtain ⟨hwv, rfl⟩ := (writeCompact_eq_none herr).mp hv
  have hbytes : u.compactBytes = v.compactBytes := by
    rw [← drop_append herr u.compactBytes, heq, drop_append herr]
  unfold VoteStateUpdate.compactBytes at hbytes
  obtain ⟨hword, hbytes⟩ := List.append_inj hbytes (by rw [length_leBytes, length_leBytes])
  have hroots : u.root.getD maxUint64 = v.root.getD maxUint64 := by
    have hvalue := congrArg leValue hword
    have hlt : ∀ w : UInt64, w.toNat < 256 ^ 8 := fun w => w.toNat_lt
    rw [leValue_leBytes, leValue_leBytes, Nat.mod_eq_of_lt (hlt _), Nat.mod_eq_of_lt (hlt _)] at hvalue
    exact UInt64.toNat_inj.mp hvalue
  -- With equal roots the differences start alike, and the rest is read off the bytes.
  have hsame : u.root = v.root → u = v := by
    intro hroot
    have hstart : u.start = v.start := by
      unfold VoteStateUpdate.start
      rw [hroot]
    have hrange : ∀ {w : VoteStateUpdate}, w.Writable → w.lockouts.length ≤ 0xFFFF :=
      fun hw => Nat.le_trans hw.count (by decide)
    obtain ⟨hcount, hbytes⟩ := append_inj_of_parses Decoder.readCompactU16_reads.parses (hrange hwu)
      (hrange hwv) hbytes
    rw [hstart] at hbytes
    have hrep := hwu.lockouts
    rw [hstart] at hrep
    obtain ⟨hlockouts, hbytes⟩ := append_inj_of_parses (decodeLockouts_parses _ _) ⟨hcount, hrep⟩
      ⟨rfl, hwv.lockouts⟩ hbytes
    obtain ⟨hhash, htime⟩ := List.append_inj hbytes (by
      rw [ByteArr.length_toList, ByteArr.length_toList])
    exact VoteStateUpdate.ext hlockouts hroot (ByteArr.ext hhash)
      (append_inj_of_parses decodeTimestamp_reads.parses trivial trivial
        (congrArg (· ++ []) htime)).1
  cases hru : u.root with
  | none =>
    cases hrv : v.root with
    | none => exact Or.inl (hsame (hru.trans hrv.symm))
    | some root =>
      rw [hru, hrv] at hroots
      have hmax : maxUint64 = root := hroots
      exact Or.inr (Or.inl ⟨rfl, by rw [hmax]⟩)
  | some root =>
    cases hrv : v.root with
    | none =>
      rw [hru, hrv] at hroots
      have hmax : root = maxUint64 := hroots
      exact Or.inr (Or.inr ⟨by rw [hmax], rfl⟩)
    | some root' =>
      rw [hru, hrv] at hroots
      have hroot : root = root' := hroots
      exact Or.inl (hsame (by rw [hru, hrv, hroot]))

theorem allOnes_written : ∃ enc', ({ root := some maxUint64 } : VoteStateUpdate).writeCompact
      (newEncoder []) = (none, enc')
    ∧ ({} : VoteStateUpdate).writeCompact (newEncoder []) = (none, enc') :=
  ⟨_, (writeCompact_eq_none rfl).mpr ⟨⟨by decide, trivial⟩, rfl⟩,
    (writeCompact_eq_none rfl).mpr ⟨⟨by decide, trivial⟩, rfl⟩⟩

/-- Two updates with the same bytes: one has no root, the other the all-ones root. -/
theorem writeCompact_injective_sample :
    ∃ u v : VoteStateUpdate, u ≠ v
      ∧ (∃ enc', u.writeCompact (newEncoder []) = (none, enc')
        ∧ v.writeCompact (newEncoder []) = (none, enc'))
      ∧ ((u.root = none ∧ v.root = some maxUint64) ∨ (u.root = some maxUint64 ∧ v.root = none)) := by
  have hne : ({ root := some maxUint64 } : VoteStateUpdate) ≠ {} := by decide
  obtain ⟨enc', hu, hv⟩ := allOnes_written
  exact ⟨_, _, hne, ⟨enc', hu, hv⟩,
    (writeCompact_injective _ _ _ _ _ rfl hu hv rfl).resolve_left hne⟩

/-- **No root and the all-ones root.** Two updates that the writer accepts and writes
alike. -/
theorem writeCompact_collision :
    ∃ u v : VoteStateUpdate, u ≠ v ∧ u.root = some maxUint64 ∧ v.root = none
      ∧ ∃ enc', u.writeCompact (newEncoder []) = (none, enc')
        ∧ v.writeCompact (newEncoder []) = (none, enc') :=
  ⟨{ root := some maxUint64 }, {}, by decide, rfl, rfl, allOnes_written⟩

end Injective

end SolanaGo.Vote
