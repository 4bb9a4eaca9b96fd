/-
What a subscription delivers.

A `Log` is kept beside the client for one call. From the acknowledgement of the call to
its release or the failure of the client it records every notification for the id of
the subscription, with a mark if the buffer of the channel was full when it came; and it
records what `Recv` took out. Nothing in the client depends on it.

The notifications that came at moments when there was room are then those that were
received followed by those that are buffered, in the order of their arrival, and the
counter has counted the others (`run_delivered`). The one assumption is that while the
subscription is live its id is not acknowledged to another call. The invariant behind
it (`Tracks`) is that the log holds the subscription to be live exactly as long as its
entry is in the registry.
-/
import SolanaGo.Ws.Registry

set_option autoImplicit false

namespace SolanaGo.Ws

open Codec (Bytes)
open State
open Transition (run run_invariant Along)

/-! ## The log of a subscription -/

/-- What happened to the subscription of a call. -/
structure Log where
  /-- the id, from the acknowledgement to the removal -/
  live : Option UInt64 := none
  /-- the notifications for the id, marked if the buffer was full -/
  routed : List (Bytes × Bool) := []
  /-- what `Recv` returned -/
  received : List Bytes := []
  deriving DecidableEq

namespace Log

/-- The notifications that found room. -/
def admitted (log : Log) : List Bytes := (log.routed.filter fun note => !note.2).map Prod.fst

/-- The notifications that found the buffer full. -/
def leftOut (log : Log) : List Bytes := (log.routed.filter fun note => note.2).map Prod.fst

/-- A notification is recorded. -/
def route (log : Log) (data : Bytes) (full : Bool) : Log :=
  { log with routed := log.routed ++ [(data, full)] }

theorem admitted_route (log : Log) (data : Bytes) (full : Bool) :
    (log.route data full).admitted = log.admitted ++ if full then [] else [data] := by
  unfold admitted route
  cases full <;> simp

theorem leftOut_route (log : Log) (data : Bytes) (full : Bool) :
    (log.route data full).leftOut = log.leftOut ++ if full then [data] else [] := by
  unfold leftOut route
  cases full <;> simp

/-- The log of the call `k` after an effect on the board. -/
def observe (buffer k : ℕ) (b : Board) (log : Log) : Effect → Log
  | .quiet => log
  | .ack j id => if j = k then { log with live := some id } else log
  | .note id data =>
    if log.live = some id then log.route data (decide (buffer ≤ (b.entries k).buf.length)) else log
  | .release j _ => if j = k then { log with live := none } else log
  | .fail => { log with live := none }
  | .take j data => if j = k then { log with received := log.received ++ [data] } else log

end Log

/-- The client with the log of the call `k`. -/
def loggedStep (sonic : Sonic) (buffer k : ℕ) (state : State × Log) (event : Event) :
    Option (State × Log) :=
  (step sonic buffer state.1 event).map fun s' =>
    (s', state.2.observe buffer k state.1.board (effectOf sonic state.1 event))

/-- While the subscription is live, its id is not acknowledged to another call. -/
def NotReassigned (sonic : Sonic) (k : ℕ) (state : State × Log) (event : Event) : Prop :=
  ∀ j id, effectOf sonic state.1 event = .ack j id → j ≠ k → state.2.live ≠ some id

instance (sonic : Sonic) (k : ℕ) (state : State × Log) (event : Event) :
    Decidable (NotReassigned sonic k state event) :=
  decidableOnAck (fun j id => j ≠ k → state.2.live ≠ some id) (effectOf sonic state.1 event)

/-! ## The invariant -/

/-- What the log says is what the board holds. -/
structure Tracks (k : ℕ) (b : Board) (log : Log) : Prop where
  live : ∀ id, log.live = some id ↔ b.subs.lookup id = some k
  admitted : log.admitted = log.received ++ (b.entries k).buf
  dropped : (b.entries k).dropped = UInt64.ofNat log.leftOut.length

section Tracks

variable {sonic : Sonic} {buffer k : ℕ} {b : Board} {log : Log}

/-- An effect on another entry. -/
theorem Tracks.set_ne (h : Tracks k b log) {j : ℕ} (hj : k ≠ j) (entry : Entry) :
    Tracks k (b.set j entry) log := by
  refine ⟨h.live, ?_, ?_⟩
  · rw [Board.set_ne hj]
    exact h.admitted
  · rw [Board.set_ne hj]
    exact h.dropped

/-- The acknowledgement of the subscription. -/
theorem Tracks.ack (h : Tracks k b log) (hplaced : b.Placed) (hnew : b.entries k = {}) (id : UInt64) :
    Tracks k (b.apply buffer (.ack k id)) { log with live := some id } := by
  have hadmitted := h.admitted
  have hdropped := h.dropped
  rw [hnew] at hadmitted hdropped
  simp only [Board.apply]
  refine ⟨fun id' => ?_, ?_, ?_⟩
  · constructor
    · rintro heq
      obtain rfl := Option.some.inj heq
      exact AList.lookup_insert _
    · intro hid'
      rcases lookup_of_insert hid' with ⟨rfl, -⟩ | ⟨-, hid'⟩
      · rfl
      · have hacked := (hplaced id' k hid').1
        rw [hnew] at hacked
        exact absurd hacked (by simp)
  · rw [Board.set_self]
    exact hadmitted
  · rw [Board.set_self]
    exact hdropped

/-- The acknowledgement of another subscription. -/
theorem Tracks.ack_ne (h : Tracks k b log) {j : ℕ} (hj : k ≠ j) {id : UInt64}
    (hfree : log.live ≠ some id) : Tracks k (b.apply buffer (.ack j id)) log := by
  simp only [Board.apply]
  have hbase : Tracks k { b with subs := b.subs.insert id j } log := by
    refine ⟨fun id' => ?_, h.admitted, h.dropped⟩
    rw [h.live]
    by_cases heq : id' = id
    · subst heq
      rw [AList.lookup_insert]
      constructor
      · intro hid'
        exact absurd ((h.live id').mpr hid') hfree
      · intro hjk
        exact absurd (Option.some.inj hjk).symm hj
    · rw [AList.lookup_insert_ne heq]
  exact hbase.set_ne hj _

/-- A notification for the subscription: it is buffered if there is room, and counted if
not. -/
theorem Tracks.note (h : Tracks k b log) {id : UInt64} (hlive : log.live = some id) (data : Bytes) :
    Tracks k (b.apply buffer (.note id data))
      (log.route data (decide (buffer ≤ (b.entries k).buf.length))) := by
  simp only [Board.apply]
  rw [(h.live id).mp hlive]
  dsimp only
  refine ⟨h.live, ?_, ?_⟩
  · rw [Log.admitted_route, h.admitted, Board.set_self]
    unfold Entry.push
    by_cases hroom : (b.entries k).buf.length < buffer
    · rw [if_pos hroom, decide_eq_false (by omega), List.append_assoc]
      rfl
    · rw [if_neg hroom, decide_eq_true (by omega)]
      exact List.append_nil _
  · rw [Log.leftOut_route, Board.set_self]
    unfold Entry.push
    by_cases hroom : (b.entries k).buf.length < buffer
    · rw [if_pos hroom, decide_eq_false (by omega)]
      simpa using h.dropped
    · rw [if_neg hroom, decide_eq_true (by omega), List.length_append, UInt64.ofNat_add, ← h.dropped]
      rfl

/-- A notification for another id. -/
theorem Tracks.note_ne (h : Tracks k b log) {id : UInt64} (hlive : log.live ≠ some id) (data : Bytes) :
    Tracks k (b.apply buffer (.note id data)) log := by
  simp only [Board.apply]
  cases hj : b.subs.lookup id with
  | none => exact h
  | some j =>
    refine h.set_ne ?_ _
    rintro rfl
    exact hlive ((h.live id).mpr hj)

/-- The release of the subscription. -/
theorem Tracks.release (h : Tracks k b log) (hplaced : b.Placed) {id : UInt64}
    (hacked : (b.entries k).acked = some id) :
    Tracks k (b.apply buffer (.release k id)) { log with live := none } := by
  have hplace : ∀ id', b.subs.lookup id' = some k → id' = id := by
    intro id' hid'
    exact Option.some.inj ((hplaced id' k hid').1.symm.trans hacked)
  simp only [Board.apply]
  by_cases hk : b.subs.lookup id = some k
  · rw [if_pos hk]
    refine ⟨fun id' => ⟨fun hlive => absurd hlive (by simp), fun hid' => ?_⟩, ?_, ?_⟩
    · obtain ⟨hne, hid'⟩ := lookup_of_erase hid'
      exact absurd (hplace id' hid') hne
    · rw [Board.set_self]
      exact h.admitted
    · rw [Board.set_self]
      exact h.dropped
  · rw [if_neg hk]
    refine ⟨fun id' => ⟨fun hlive => absurd hlive (by simp), fun hid' => ?_⟩, h.admitted, h.dropped⟩
    rw [hplace id' hid'] at hid'
    exact absurd hid' hk

/-- The release of another subscription, which may have had the same id. -/
theorem Tracks.release_ne (h : Tracks k b log) {j : ℕ} (hj : k ≠ j) (id : UInt64) :
    Tracks k (b.apply buffer (.release j id)) log := by
  simp only [Board.apply]
  by_cases hk : b.subs.lookup id = some j
  · rw [if_pos hk]
    have hbase : Tracks k { b with subs := b.subs.erase id } log := by
      refine ⟨fun id' => ?_, h.admitted, h.dropped⟩
      rw [h.live]
      by_cases heq : id' = id
      · subst heq
        rw [AList.lookup_erase, hk]
        constructor
        · intro hjk
          exact absurd (Option.some.inj hjk).symm hj
        · intro hnone
          cases hnone
      · rw [AList.lookup_erase_ne heq]
    exact hbase.set_ne hj _
  · rw [if_neg hk]
    exact h

/-- `Recv` takes the oldest buffered notification. -/
theorem Tracks.take (h : Tracks k b log) {data : Bytes} {buf : List Bytes}
    (hbuf : (b.entries k).buf = data :: buf) :
    Tracks k (b.apply buffer (.take k data)) { log with received := log.received ++ [data] } := by
  simp only [Board.apply]
  refine ⟨h.live, ?_, ?_⟩
  · have hadmitted := h.admitted
    rw [hbuf] at hadmitted
    rw [Board.set_self, hbuf]
    show log.admitted = log.received ++ [data] ++ buf
    rw [hadmitted, List.append_assoc]
    rfl
  · rw [Board.set_self]
    exact h.dropped

end Tracks

/-! ## Runs -/

section Run

variable {sonic : Sonic} {buffer k : ℕ} {s s' : State} {log : Log}

/-- **One event.** -/
theorem tracks_step {event : Event} (hinv : Inv sonic s) (h : Tracks k s.board log)
    (hfree : NotReassigned sonic k (s, log) event) (hstep : step sonic buffer s event = some s') :
    Tracks k s'.board (log.observe buffer k s.board (effectOf sonic s event)) := by
  have hfits := effectOf_fits sonic s event
  rw [board_step hinv hstep]
  cases heffect : effectOf sonic s event with
  | quiet => exact h
  | ack j id =>
    simp only [Log.observe]
    by_cases hj : j = k
    · subst hj
      rw [if_pos rfl]
      exact h.ack hinv.placed (hinv.of_ack heffect) id
    · rw [if_neg hj]
      exact h.ack_ne (Ne.symm hj) (hfree j id heffect hj)
  | note id data =>
    simp only [Log.observe]
    by_cases hlive : log.live = some id
    · rw [if_pos hlive]
      exact h.note hlive data
    · rw [if_neg hlive]
      exact h.note_ne hlive data
  | release j id =>
    simp only [Log.observe]
    by_cases hj : j = k
    · subst hj
      rw [if_pos rfl]
      rw [heffect] at hfits
      exact h.release hinv.placed hfits
    · rw [if_neg hj]
      exact h.release_ne (Ne.symm hj) id
  | fail =>
    refine ⟨fun id => ⟨nofun, fun hid => ?_⟩, h.admitted, h.dropped⟩
    exact absurd hid (by simp [Board.apply])
  | take j data =>
    simp only [Log.observe]
    by_cases hj : j = k
    · subst hj
      rw [if_pos rfl]
      rw [heffect] at hfits
      obtain ⟨buf, hbuf⟩ := hfits
      exact h.take hbuf
    · rw [if_neg hj]
      exact h.set_ne (Ne.symm hj) _

/-- **What a subscription delivers.** If its id is not reassigned while it is live, the
notifications for its id between its acknowledgement and its removal that did not find the
buffer full are, in the order of arrival, those received followed by those buffered, and
the others were counted. -/
theorem run_delivered {events : List Event}
    (hrun : run (loggedStep sonic buffer k) (init, {}) events = some (s, log))
    (hfree : Along (loggedStep sonic buffer k) (NotReassigned sonic k) (init, {}) events) :
    log.admitted = log.received ++ (s.calls k).buf
      ∧ (s.calls k).dropped = UInt64.ofNat log.leftOut.length := by
  have hall : Inv sonic (s, log).1 ∧ Tracks k (s, log).1.board (s, log).2 := by
    refine run_invariant (I := fun t => Inv sonic t.1 ∧ Tracks k t.1.board t.2)
      (P := NotReassigned sonic k) ?_ ⟨inv_init sonic, ?_⟩ hfree hrun
    · rintro ⟨t, tlog⟩ event t' ⟨hinv, htracks⟩ hfree hstep
      obtain ⟨s1, hs1, rfl⟩ := Option.map_eq_some_iff.mp hstep
      exact ⟨step_inv hinv hs1, tracks_step hinv htracks hfree hs1⟩
    · exact ⟨fun id => ⟨nofun, fun hid => absurd hid (by simp [init, State.board])⟩, rfl, rfl⟩
  exact ⟨hall.2.admitted, hall.2.dropped⟩

end Run

/-- Two notifications come behind the acknowledgement, before the call has returned, into
a buffer of one. -/
theorem run_delivered_session : ∃ s log,
    run (loggedStep sessionSonic 1 0) (init, {})
      [.request 0 "logsSubscribe" true, .register 0, .wrote 0, .frame firstAck, .send,
        .frame firstNote, .frame secondNote, .receive 0, .recv 0] = some (s, log)
    ∧ Along (loggedStep sessionSonic 1 0) (NotReassigned sessionSonic 0) (init, {})
      [.request 0 "logsSubscribe" true, .register 0, .wrote 0, .frame firstAck, .send,
        .frame firstNote, .frame secondNote, .receive 0, .recv 0]
    ∧ log.routed = [([53], false), ([54], true)] ∧ log.received = [[53]]
    ∧ log.admitted = log.received ++ (s.calls 0).buf
    ∧ (s.calls 0).dropped = UInt64.ofNat log.leftOut.length := by
  have hsession : (run (loggedStep sessionSonic 1 0) (init, {})
      [.request 0 "logsSubscribe" true, .register 0, .wrote 0, .frame firstAck, .send,
        .frame firstNote, .frame secondNote, .receive 0, .recv 0]).map
        (fun state => (state.2.routed, state.2.received))
      = some ([([53], false), ([54], true)], [[53]]) := by decide +kernel
  obtain ⟨⟨s, log⟩, hrun, hs⟩ := Option.map_eq_some_iff.mp hsession
  obtain ⟨hrouted, hreceived⟩ := Prod.mk.inj hs
  have hfree : Along (loggedStep sessionSonic 1 0) (NotReassigned sessionSonic 0) (init, {})
      [.request 0 "logsSubscribe" true, .register 0, .wrote 0, .frame firstAck, .send,
        .frame firstNote, .frame secondNote, .receive 0, .recv 0] := by decide +kernel
  exact ⟨s, log, hrun, hfree, hrouted, hreceived, run_delivered hrun hfree⟩

end SolanaGo.Ws
