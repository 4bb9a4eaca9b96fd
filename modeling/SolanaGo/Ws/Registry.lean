/-
The subscription registry over whole runs.

For the registry and the notification channels a run of the client is a run of a much
smaller machine. Its state is a `Board`: which entry stands under which id, and what
each entry holds. What an event means for it is its `Effect`, read off the event and
the state before it; `board_step` says that the client follows the machine.

Two questions are settled here. An entry that is acknowledged under an id which is
still taken pushes the other entry out of the registry without closing its channel;
since `fail` and `Release` only close channels they find in the registry, that channel
stays open for good. So the channels are all closed after a failure exactly if no
acknowledgement found its id taken (`run_channels_closed_iff`). And a call that leaves
`request` through its context or a failed write only deletes its pending request. If
the acknowledgement was routed before, the entry stays in the registry though the
caller got an error; this is the only way an entry without an owner comes about
(`run_owned_iff`).
-/
import SolanaGo.Ws.Ownership

set_option autoImplicit false

namespace SolanaGo.Ws

open Codec (Bytes)
open State
open Transition (run run_invariant Along Always always_of_along along_of_end along_of_always)

/-! ## The board -/

/-- The registry and the entries. -/
@[ext] structure Board where
  subs : Registry
  entries : ℕ → Entry

/-- What happens to the board. -/
inductive Effect where
  | quiet
  /-- the entry of the call is registered -/
  | ack (k : ℕ) (id : UInt64)
  /-- a notification arrives -/
  | note (id : UInt64) (data : Bytes)
  /-- the subscription of the call is released -/
  | release (k : ℕ) (id : UInt64)
  | fail
  /-- a notification is received -/
  | take (k : ℕ) (data : Bytes)

namespace Entry

/-- The non-blocking send. -/
def push (buffer : ℕ) (entry : Entry) (data : Bytes) : Entry :=
  if entry.buf.length < buffer then { entry with buf := entry.buf ++ [data] }
  else { entry with dropped := entry.dropped + 1 }

@[simp] theorem push_acked (buffer : ℕ) (entry : Entry) (data : Bytes) :
    (entry.push buffer data).acked = entry.acked := by
  unfold push
  split
  · rfl
  · rfl

@[simp] theorem push_closed (buffer : ℕ) (entry : Entry) (data : Bytes) :
    (entry.push buffer data).closed = entry.closed := by
  unfold push
  split
  · rfl
  · rfl

end Entry

namespace Board

/-- A change to one entry. -/
def set (b : Board) (k : ℕ) (entry : Entry) : Board :=
  { b with entries := Function.update b.entries k entry }

@[simp] theorem set_self (b : Board) (k : ℕ) (entry : Entry) : (b.set k entry).entries k = entry :=
  Function.update_self ..

theorem set_ne {b : Board} {j k : ℕ} (h : j ≠ k) (entry : Entry) :
    (b.set k entry).entries j = b.entries j := Function.update_of_ne h ..

/-- Writing back what is there. -/
theorem set_eq_self {b : Board} {k : ℕ} {entry : Entry} (h : entry = b.entries k) :
    b.set k entry = b := by
  subst h
  exact Board.ext rfl (Function.update_eq_self _ _)

/-- **The board machine.** -/
def apply (buffer : ℕ) (b : Board) : Effect → Board
  | .quiet => b
  | .ack k id => { b with subs := b.subs.insert id k }.set k { acked := some id }
  | .note id data =>
    match b.subs.lookup id with
    | none => b
    | some k => b.set k ((b.entries k).push buffer data)
  | .release k id =>
    if b.subs.lookup id = some k then
      { b with subs := b.subs.erase id }.set k { b.entries k with closed := true }
    else b
  | .fail => ⟨∅, fun k => { b.entries k with
      closed := (b.entries k).closed || decide (k ∈ callsOf b.subs) }⟩
  | .take k _ => b.set k { b.entries k with buf := (b.entries k).buf.tail }

end Board

/-- The board of a client. -/
def State.board (s : State) : Board := ⟨s.subs, fun k => (s.calls k).entry⟩

/-- The effect of a message. -/
def effectOfMessage (sonic : Sonic) (s : State) (env : Envelope) : Effect :=
  if env.method ≠ "" then .note env.subscription env.notification
  else
    match s.pending.lookup env.id with
    | none => .quiet
    | some k =>
      match ackedID sonic (s.calls k) env with
      | none => .quiet
      | some id => .ack k id

/-- **The effect of an event.** -/
def effectOf (sonic : Sonic) (s : State) : Event → Effect
  | .frame data =>
    match sonic.envelope data with
    | none => .quiet
    | some env => effectOfMessage sonic s env
  | .readError _ => .fail
  | .close => .fail
  | .release k =>
    match (s.calls k).acked with
    | some id => .release k id
    | none => .quiet
  | .recv k =>
    match (s.calls k).buf with
    | data :: _ => .take k data
    | [] => .quiet
  | _ => .quiet

/-- Where the data of an effect come from. -/
def Effect.Fits (s : State) : Effect → Prop
  | .ack k _ => ∃ id, s.pending.lookup id = some k
  | .release k id => (s.board.entries k).acked = some id
  | .take k data => ∃ buf, (s.board.entries k).buf = data :: buf
  | _ => True

theorem effectOf_fits (sonic : Sonic) (s : State) (event : Event) :
    (effectOf sonic s event).Fits s := by
  cases event with
  | frame data =>
    simp only [effectOf]
    split
    · trivial
    · next env henv =>
        unfold effectOfMessage
        split
        · trivial
        · split
          · trivial
          · next k hk =>
              split
              · trivial
              · exact ⟨env.id, hk⟩
  | release k =>
    simp only [effectOf]
    split
    · next id hid => exact hid
    · trivial
  | recv k =>
    simp only [effectOf]
    split
    · next data buf hbuf => exact ⟨buf, hbuf⟩
    · trivial
  | _ => trivial

section Board

variable {sonic : Sonic} {buffer : ℕ} {s s' : State}

theorem board_setCall (s : State) (k : ℕ) (call : Call) :
    (s.setCall k call).board = s.board.set k call.entry := by
  refine Board.ext rfl (funext fun j => ?_)
  by_cases heq : j = k
  · subst heq
    rw [Board.set_self]
    show ((s.setCall j call).calls j).entry = call.entry
    rw [setCall_self]
  · rw [Board.set_ne heq]
    show ((s.setCall k call).calls j).entry = (s.calls j).entry
    rw [setCall_ne heq]

/-- A call goes on without touching its entry. -/
theorem board_setCall_eq {k : ℕ} {call : Call} (h : call.entry = (s.calls k).entry) :
    (s.setCall k call).board = s.board := by
  rw [board_setCall]
  exact Board.set_eq_self h

theorem board_notify (h : Inv sonic s) (env : Envelope) :
    (notify buffer s env).board
      = s.board.apply buffer (.note env.subscription env.notification) := by
  unfold Ws.notify Board.apply
  show _ = match s.subs.lookup env.subscription with
    | none => s.board
    | some k => s.board.set k ((s.calls k).entry.push buffer env.notification)
  cases hk : s.subs.lookup env.subscription with
  | none => rfl
  | some k =>
    obtain ⟨-, hopen⟩ := (h.calls k).subs _ hk
    dsimp only
    rw [if_neg (by rw [hopen]; simp)]
    by_cases hroom : (s.calls k).buf.length < buffer
    · rw [if_pos hroom, board_setCall]
      congr 1
      exact (if_pos hroom).symm
    · rw [if_neg hroom, board_setCall]
      congr 1
      exact (if_neg hroom).symm

theorem board_reply (h : Inv sonic s) {env : Envelope} (hmethod : ¬env.method ≠ "") :
    (reply sonic s env).board = s.board.apply buffer (effectOfMessage sonic s env) := by
  unfold Ws.reply effectOfMessage
  rw [if_neg hmethod]
  cases hk : s.pending.lookup env.id with
  | none => rfl
  | some k =>
    obtain ⟨-, -, -, hreg⟩ := (h.calls k).pending env.id hk
    dsimp only
    cases hack : ackedID sonic (s.calls k) env with
    | none => rfl
    | some id =>
      have hentry : ({ s.calls k with acked := some id } : Call).entry = { acked := some id } := by
        show ({ (s.calls k).entry with acked := some id } : Entry) = _
        rw [hreg]
      refine (board_setCall { s with
        pending := s.pending.erase env.id, subs := s.subs.insert id k } k
        { s.calls k with acked := some id }).trans ?_
      rw [hentry]
      rfl

theorem board_fail (h : Inv sonic s) (err : WsErr) :
    (s.fail err).board = s.board.apply buffer .fail := by
  cases herr : s.err with
  | none =>
    rw [h.fail_eq herr]
    rfl
  | some err' =>
    rw [fail_err herr]
    have hempty := (h.failed (by rw [herr]; simp)).2
    refine Board.ext hempty (funext fun k => ?_)
    show (s.calls k).entry = { (s.calls k).entry with
      closed := (s.calls k).closed || decide (k ∈ callsOf s.subs) }
    rw [hempty]
    have hnone : decide (k ∈ callsOf (∅ : Registry)) = false := rfl
    rw [hnone, Bool.or_false]
    rfl

theorem board_releaseEntry (h : Inv sonic s) (k : ℕ) (id : UInt64) :
    (releaseEntry s k id).board = s.board.apply buffer (.release k id) := by
  unfold releaseEntry Board.apply
  show _ = if s.subs.lookup id = some k then _ else s.board
  by_cases hk : s.subs.lookup id = some k
  · obtain ⟨-, hopen⟩ := (h.calls k).subs _ hk
    rw [if_pos hk, if_pos hk, closeEntry_of_open _ _ (by exact hopen), board_setCall]
    rfl
  · rw [if_neg hk, if_neg hk]

/-- **The client follows the board machine.** -/
theorem board_step {event : Event} (h : Inv sonic s)
    (hstep : step sonic buffer s event = some s') :
    s'.board = s.board.apply buffer (effectOf sonic s event) := by
  -- what a call does on its own touches neither an entry nor a registry of entries
  cases steps_of_step hstep with
  | @request k method subscribe hpc =>
    have hreg := ((h.calls k).fresh (by rw [hpc]; rfl)).2
    exact board_setCall_eq hreg.symm
  | marshalError hpc => exact board_setCall_eq rfl
  | refused hpc herr => exact board_setCall_eq rfl
  | register hpc herr => exact board_setCall_eq rfl
  | wrote hpc => exact board_setCall_eq rfl
  | writeError hpc => exact board_setCall_eq rfl
  | receive hpc hresp => exact board_setCall_eq rfl
  | receiveClosed hpc hclosed => exact board_setCall_eq rfl
  | cancel hpc => exact board_setCall_eq rfl
  | observeClosed hpc hclosed => exact board_setCall_eq rfl
  | abandonWrite hpc => exact board_setCall_eq rfl
  | abandonCancel hpc => exact board_setCall_eq rfl
  | @frame data hloop =>
    simp only [route, effectOf]
    cases sonic.envelope data with
    | none => rfl
    | some env =>
      dsimp only
      by_cases hmethod : env.method ≠ ""
      · rw [if_pos hmethod, board_notify h]
        simp only [effectOfMessage, if_pos hmethod]
      · rw [if_neg hmethod, board_reply h hmethod]
  | sendClosed hloop hclosed => rfl
  | send hloop => exact board_setCall_eq rfl
  | readError hloop => exact board_fail h _
  | close => exact board_fail h _
  | @release k id hpc =>
    simp only [effectOf, (h.calls k).subscribed id hpc]
    rw [← board_releaseEntry h]
    exact board_setCall_eq rfl
  | @recv k id data buf hpc hbuf =>
    simp only [effectOf, hbuf, Board.apply]
    rw [board_setCall]
    congr 1
    show ({ (s.calls k).entry with buf } : Entry)
      = { (s.calls k).entry with buf := (s.calls k).buf.tail }
    rw [hbuf]
    rfl
  | @recvClosed k id hpc hbuf hclosed =>
    simp only [effectOf, hbuf]
    rfl

end Board

/-! ## Channels after a failure -/

section Channels

variable {sonic : Sonic} {buffer : ℕ} {s s' : State} {b : Board}

/-- Entries stand in the registry under the id of their acknowledgement, with their
channel open. -/
def Board.Placed (b : Board) : Prop := ∀ id k, b.subs.lookup id = some k →
  (b.entries k).acked = some id ∧ (b.entries k).closed = false

/-- Every registered entry is in the registry, or its channel is closed. -/
def Board.Kept (b : Board) : Prop := ∀ k, (b.entries k).acked ≠ none →
  (b.entries k).closed = true ∨ ∃ id, b.subs.lookup id = some k

/-- A registered entry is not in the registry, and its channel is open. -/
def Board.Lost (b : Board) (k : ℕ) : Prop :=
  (b.entries k).acked ≠ none ∧ (b.entries k).closed = false ∧ ∀ id, b.subs.lookup id ≠ some k

/-- An acknowledgement does not find its id taken. -/
def IdFree (sonic : Sonic) (s : State) (event : Event) : Prop :=
  ∀ k id, effectOf sonic s event = .ack k id → s.subs.lookup id = none

/-- A condition on the acknowledgement of an event, if it is one. -/
instance decidableOnAck (p : ℕ → UInt64 → Prop) [∀ k id, Decidable (p k id)] :
    ∀ effect : Effect, Decidable (∀ k id, effect = .ack k id → p k id)
  | .ack k id => decidable_of_iff (p k id)
      ⟨fun h k' id' heq => by obtain ⟨rfl, rfl⟩ := Effect.ack.inj heq; exact h, fun h => h k id rfl⟩
  | .quiet => .isTrue nofun
  | .note _ _ => .isTrue nofun
  | .release _ _ => .isTrue nofun
  | .fail => .isTrue nofun
  | .take _ _ => .isTrue nofun

instance (sonic : Sonic) (s : State) (event : Event) : Decidable (IdFree sonic s event) :=
  decidableOnAck (fun _ id => s.subs.lookup id = none) (effectOf sonic s event)

theorem Inv.placed (h : Inv sonic s) : s.board.Placed := fun id k hk => (h.calls k).subs id hk

/-- Only the entry of a pending request is acknowledged. -/
theorem Inv.of_ack (h : Inv sonic s) {event : Event} {k : ℕ} {id : UInt64}
    (hack : effectOf sonic s event = .ack k id) : s.board.entries k = {} := by
  have hfits := effectOf_fits sonic s event
  rw [hack] at hfits
  obtain ⟨id', hk⟩ := hfits
  exact ((h.calls k).pending id' hk).2.2.2

/-- A change to one entry that is not registered anew. -/
theorem Board.Kept.set (h : b.Kept) {k : ℕ} {entry : Entry}
    (hacked : entry.acked = (b.entries k).acked) (hclosed : entry.closed = (b.entries k).closed) :
    (b.set k entry).Kept := by
  intro j hj
  by_cases heq : j = k
  · subst heq
    rw [Board.set_self] at hj ⊢
    rw [hacked] at hj
    rw [hclosed]
    exact h j hj
  · rw [Board.set_ne heq] at hj ⊢
    exact h j hj

/-- **While ids are not taken, no channel is lost.** -/
theorem Board.Kept.apply (h : b.Kept) {effect : Effect}
    (hfree : ∀ k id, effect = .ack k id → b.subs.lookup id = none) :
    (b.apply buffer effect).Kept := by
  cases effect with
  | quiet => exact h
  | ack k id =>
    intro j hj
    by_cases heq : j = k
    · subst heq
      exact Or.inr ⟨id, AList.lookup_insert _⟩
    · simp only [Board.apply] at hj ⊢
      rw [Board.set_ne heq] at hj ⊢
      rcases h j hj with hclosed | ⟨id', hid'⟩
      · exact Or.inl hclosed
      · have hne : id' ≠ id := by
          rintro rfl
          exact absurd (hid'.symm.trans (hfree k id' rfl)) (by simp)
        exact Or.inr ⟨id', (AList.lookup_insert_ne hne).trans hid'⟩
  | note id data =>
    simp only [Board.apply]
    split
    · exact h
    · exact h.set (by simp) (by simp)
  | release k id =>
    simp only [Board.apply]
    split
    · next hk =>
        intro j hj
        by_cases heq : j = k
        · subst heq
          exact Or.inl (by rw [Board.set_self])
        · rw [Board.set_ne heq] at hj ⊢
          rcases h j hj with hclosed | ⟨id', hid'⟩
          · exact Or.inl hclosed
          · have hne : id' ≠ id := by
              rintro rfl
              exact heq (Option.some.inj (hid'.symm.trans hk))
            exact Or.inr ⟨id', (AList.lookup_erase_ne hne).trans hid'⟩
    · exact h
  | fail =>
    intro k hk
    left
    show ((b.entries k).closed || decide (k ∈ callsOf b.subs)) = true
    rcases h k hk with hclosed | hin
    · rw [hclosed, Bool.true_or]
    · rw [decide_eq_true (mem_callsOf.mpr hin), Bool.or_true]
  | take k data => exact h.set rfl rfl

/-- A change to another entry, or to the buffer of this one. -/
theorem Board.Lost.set {j : ℕ} (h : b.Lost j) {k : ℕ} {entry : Entry}
    (hacked : entry.acked = (b.entries k).acked) (hclosed : entry.closed = (b.entries k).closed) :
    (b.set k entry).Lost j := by
  obtain ⟨hreg, hopen, hout⟩ := h
  by_cases heq : j = k
  · subst heq
    refine ⟨?_, ?_, hout⟩
    · rw [Board.set_self, hacked]
      exact hreg
    · rw [Board.set_self, hclosed]
      exact hopen
  · refine ⟨?_, ?_, hout⟩
    · rw [Board.set_ne heq]
      exact hreg
    · rw [Board.set_ne heq]
      exact hopen

/-- **A lost channel stays lost.** -/
theorem Board.Lost.apply {j : ℕ} (h : b.Lost j) {effect : Effect}
    (hnew : ∀ k id, effect = .ack k id → b.entries k = {}) :
    (b.apply buffer effect).Lost j := by
  obtain ⟨hreg, hopen, hout⟩ := h
  cases effect with
  | quiet => exact ⟨hreg, hopen, hout⟩
  | ack k id =>
    have hne : j ≠ k := by
      rintro rfl
      rw [hnew j id rfl] at hreg
      exact hreg rfl
    simp only [Board.apply]
    refine ⟨?_, ?_, fun id' hid' => ?_⟩
    · rw [Board.set_ne hne]
      exact hreg
    · rw [Board.set_ne hne]
      exact hopen
    · rcases lookup_of_insert hid' with ⟨-, heq⟩ | ⟨-, hid'⟩
      · exact hne heq
      · exact hout id' hid'
  | note id data =>
    simp only [Board.apply]
    split
    · exact ⟨hreg, hopen, hout⟩
    · exact Board.Lost.set ⟨hreg, hopen, hout⟩ (by simp) (by simp)
  | release k id =>
    simp only [Board.apply]
    split
    · next hk =>
        have hne : j ≠ k := by
          rintro rfl
          exact hout id hk
        refine ⟨?_, ?_, fun id' hid' => hout id' (lookup_of_erase hid').2⟩
        · rw [Board.set_ne hne]
          exact hreg
        · rw [Board.set_ne hne]
          exact hopen
    · exact ⟨hreg, hopen, hout⟩
  | fail =>
    refine ⟨hreg, ?_, fun id hid => by simp [Board.apply] at hid⟩
    have hnot : j ∉ callsOf b.subs := by
      intro hmem
      obtain ⟨id, hid⟩ := mem_callsOf.mp hmem
      exact hout id hid
    show ((b.entries j).closed || decide (j ∈ callsOf b.subs)) = false
    rw [hopen, decide_eq_false hnot, Bool.or_false]
  | take k data => exact Board.Lost.set ⟨hreg, hopen, hout⟩ rfl rfl

/-- **An acknowledgement under an id that is taken loses a channel.** -/
theorem Board.Placed.lost (h : b.Placed) {j k : ℕ} {id : UInt64} (hj : b.subs.lookup id = some j)
    (hnew : b.entries k = {}) : (b.apply buffer (.ack k id)).Lost j := by
  obtain ⟨hacked, hopen⟩ := h id j hj
  have hne : j ≠ k := by
    rintro rfl
    rw [hnew] at hacked
    exact absurd hacked (by simp)
  simp only [Board.apply]
  refine ⟨?_, ?_, fun id' hid' => ?_⟩
  · rw [Board.set_ne hne, hacked]
    simp
  · rw [Board.set_ne hne]
    exact hopen
  · rcases lookup_of_insert hid' with ⟨-, heq⟩ | ⟨hid, hid'⟩
    · exact hne heq
    · -- the other entry stands in the registry once
      have hsame := (h id' j hid').1
      rw [hacked] at hsame
      exact hid (Option.some.inj hsame).symm

/-- A closed channel does not block `Recv`. -/
theorem recv_of_closed {k : ℕ} {id : UInt64} (hpc : (s.calls k).pc = .returned (.subscribed id))
    (hclosed : (s.calls k).closed = true) : (step sonic buffer s (.recv k)).isSome = true := by
  simp only [step]
  rw [hpc]
  dsimp only
  split
  · rfl
  · rw [if_pos hclosed]
    rfl

/-- **Channels after a failure.** Once the client has failed, every channel that was ever
registered is closed, and no `Recv` blocks, exactly if no acknowledgement came under an id
that was still taken. -/
theorem run_channels_closed_iff {events : List Event}
    (hrun : run (step sonic buffer) init events = some s) (herr : s.err ≠ none) :
    (∀ k, (s.calls k).acked ≠ none → (s.calls k).closed = true
        ∧ ∀ id, (s.calls k).pc = .returned (.subscribed id) →
          (step sonic buffer s (.recv k)).isSome = true)
      ↔ Along (step sonic buffer) (IdFree sonic) init events := by
  have hempty := ((run_inv hrun).failed herr).2
  constructor
  · intro hclosed
    refine along_of_end (I := Inv sonic) (J := fun t => ∃ j, t.board.Lost j) step_inv ?_ ?_
      (inv_init sonic) hrun ?_
    · intro t event t' hinv htaken hstep
      unfold IdFree at htaken
      push Not at htaken
      obtain ⟨k, id, hack, hsome⟩ := htaken
      obtain ⟨j, hj⟩ := Option.ne_none_iff_exists'.mp hsome
      refine ⟨j, ?_⟩
      rw [board_step hinv hstep, hack]
      exact hinv.placed.lost hj (hinv.of_ack hack)
    · rintro t event t' ⟨hinv, j, hlost⟩ hstep
      refine ⟨step_inv hinv hstep, j, ?_⟩
      rw [board_step hinv hstep]
      exact hlost.apply fun k id hack => hinv.of_ack hack
    · rintro ⟨j, hacked, hopen, -⟩
      exact absurd (hopen.symm.trans (hclosed j hacked).1) (by simp)
  · intro halong k hacked
    have hkept : Inv sonic s ∧ s.board.Kept := by
      refine run_invariant (I := fun t => Inv sonic t ∧ t.board.Kept) (P := IdFree sonic) ?_
        ⟨inv_init sonic, fun j hj => absurd rfl hj⟩ halong hrun
      rintro t event t' ⟨hinv, hkept⟩ hfree hstep
      refine ⟨step_inv hinv hstep, ?_⟩
      rw [board_step hinv hstep]
      exact hkept.apply hfree
    have hclosed : (s.calls k).closed = true := by
      rcases hkept.2 k hacked with hclosed | ⟨id, hid⟩
      · exact hclosed
      · have hnone : s.subs.lookup id = none := by
          rw [hempty]
          rfl
        exact absurd (hid.symm.trans hnone) (by simp)
    exact ⟨hclosed, fun id hpc => recv_of_closed hpc hclosed⟩

end Channels

/-- One subscription, and the connection is closed. -/
theorem run_channels_closed_session : ∃ s,
    run (step sessionSonic 1) init
      [.request 0 "logsSubscribe" true, .register 0, .wrote 0, .frame firstAck, .close] = some s
    ∧ s.err ≠ none
    ∧ Along (step sessionSonic 1) (IdFree sessionSonic) init
      [.request 0 "logsSubscribe" true, .register 0, .wrote 0, .frame firstAck, .close]
    ∧ ∀ k, (s.calls k).acked ≠ none → (s.calls k).closed = true
      ∧ ∀ id, (s.calls k).pc = .returned (.subscribed id) →
        (step sessionSonic 1 s (.recv k)).isSome = true := by
  have hsession : (run (step sessionSonic 1) init
      [.request 0 "logsSubscribe" true, .register 0, .wrote 0, .frame firstAck, .close]).map
        (fun s => s.err) = some (some .subscriptionClosed) := by decide +kernel
  obtain ⟨s, hrun, herr⟩ := Option.map_eq_some_iff.mp hsession
  have herr : s.err ≠ none := by
    rw [herr]
    simp
  have hfree : Along (step sessionSonic 1) (IdFree sessionSonic) init
      [.request 0 "logsSubscribe" true, .register 0, .wrote 0, .frame firstAck, .close] := by
    decide +kernel
  exact ⟨s, hrun, herr, hfree, (run_channels_closed_iff hrun herr).mpr hfree⟩

/-- Two subscriptions are acknowledged under one id, and the connection is closed. The
channel of the first stays open, and `Recv` on it blocks. -/
theorem run_channels_open : ∃ s,
    run (step sessionSonic 1) init
      [.request 0 "logsSubscribe" true, .register 0, .wrote 0, .frame firstAck, .send, .receive 0,
        .request 1 "logsSubscribe" true, .register 1, .wrote 1, .frame secondAck, .send, .receive 1,
        .close] = some s
    ∧ s.err = some .subscriptionClosed
    ∧ (s.calls 0).acked = some 7 ∧ (s.calls 0).closed = false
    ∧ (s.calls 0).pc = .returned (.subscribed 7)
    ∧ (step sessionSonic 1 s (.recv 0)).isSome = false := by
  have hsession : (run (step sessionSonic 1) init
      [.request 0 "logsSubscribe" true, .register 0, .wrote 0, .frame firstAck, .send, .receive 0,
        .request 1 "logsSubscribe" true, .register 1, .wrote 1, .frame secondAck, .send, .receive 1,
        .close]).map (fun s => (s.err, (s.calls 0).acked, (s.calls 0).closed, (s.calls 0).pc,
          (step sessionSonic 1 s (.recv 0)).isSome))
      = some (some .subscriptionClosed, some 7, false, .returned (.subscribed 7), false) := by
    decide +kernel
  obtain ⟨s, hrun, hs⟩ := Option.map_eq_some_iff.mp hsession
  simp only [Prod.mk.injEq] at hs
  exact ⟨s, hrun, hs⟩

/-! ## Entries without an owner -/

/-- The call has not returned, or it returned a subscription that was not released. -/
def Call.Owner (call : Call) : Prop :=
  (∀ outcome, call.pc ≠ .returned outcome)
    ∨ ((∃ id, call.pc = .returned (.subscribed id)) ∧ call.released = false)

/-- Every entry in the registry has an owner. -/
def Owned (s : State) : Prop := ∀ id k, s.subs.lookup id = some k → (s.calls k).Owner

/-- A call that gives up has no entry in the registry. -/
def GivesUpUnregistered (s : State) (event : Event) : Prop :=
  ∀ k, event = .abandon k → ∀ id, s.subs.lookup id ≠ some k

instance (s : State) (event : Event) : Decidable (GivesUpUnregistered s event) :=
  match event with
  | .abandon k => decidable_of_iff (k ∉ callsOf s.subs) (by
      rw [mem_callsOf]
      push Not
      exact ⟨fun h k' heq => by obtain rfl := Event.abandon.inj heq; exact h, fun h => h k rfl⟩)
  | .request _ _ _ => .isTrue nofun
  | .marshalError _ _ => .isTrue nofun
  | .register _ => .isTrue nofun
  | .wrote _ => .isTrue nofun
  | .writeError _ _ => .isTrue nofun
  | .receive _ => .isTrue nofun
  | .cancel _ _ => .isTrue nofun
  | .observeClosed _ => .isTrue nofun
  | .frame _ => .isTrue nofun
  | .send => .isTrue nofun
  | .readError _ => .isTrue nofun
  | .close => .isTrue nofun
  | .release _ => .isTrue nofun
  | .recv _ => .isTrue nofun

/-- What holds of a call and its place in the registry: only a subscription that a caller
has is released, and an entry in the registry has an owner. -/
structure Held (s : State) (k : ℕ) (call : Call) : Prop where
  released : call.released = true → ∃ id, call.pc = .returned (.subscribed id)
  owner : ∀ id, s.subs.lookup id = some k → call.Owner

section Owned

variable {sonic : Sonic} {buffer : ℕ} {s s' : State} {k : ℕ} {call : Call}

/-- A change to one call. -/
theorem held_setCall {t : State} (h : ∀ j, Held s j (s.calls j)) (hsubs : t.subs = s.subs)
    (hcalls : t.calls = s.calls) (hk : Held s k call) (j : ℕ) :
    Held (t.setCall k call) j ((t.setCall k call).calls j) := by
  by_cases heq : j = k
  · subst heq
    rw [setCall_self]
    refine ⟨hk.released, fun id hid => hk.owner id ?_⟩
    rw [← hsubs]
    exact hid
  · rw [setCall_ne heq, hcalls]
    refine ⟨(h j).released, fun id hid => (h j).owner id ?_⟩
    rw [← hsubs]
    exact hid

theorem Held.not_released (h : Held s k call) (hpc : ∀ id, call.pc ≠ .returned (.subscribed id)) :
    call.released = false := by
  by_contra hrel
  obtain ⟨id, hid⟩ := h.released (by simpa using hrel)
  exact hpc id hid

/-- The call goes on. -/
theorem Held.goesOn (h : Held s k call) (hpc : ∀ outcome, call.pc ≠ .returned outcome) {call' : Call}
    (hpc' : ∀ outcome, call'.pc ≠ .returned outcome) (hrel : call'.released = call.released) :
    Held s k call' := by
  refine ⟨fun hr => ?_, fun _ _ => Or.inl hpc'⟩
  rw [hrel, h.not_released fun id => hpc _] at hr
  exact absurd hr (by simp)

/-- The call returns something else than a subscription, and has no entry in the
registry. -/
theorem Held.returns (h : Held s k call) (hpc : ∀ outcome, call.pc ≠ .returned outcome)
    (hout : ∀ id, s.subs.lookup id ≠ some k) {call' : Call} (hrel : call'.released = call.released) :
    Held s k call' := by
  refine ⟨fun hr => ?_, fun id hid => absurd hid (hout id)⟩
  rw [hrel, h.not_released fun id => hpc _] at hr
  exact absurd hr (by simp)

/-- A change to the channels of the call. -/
theorem Held.congr (h : Held s k call) {call' : Call} (hpc : call'.pc = call.pc)
    (hrel : call'.released = call.released) : Held s k call' := by
  refine ⟨fun hr => ?_, fun id hid => ?_⟩
  · rw [hpc]
    exact h.released (hrel.symm.trans hr)
  · unfold Call.Owner
    rw [hpc, hrel]
    exact h.owner id hid

/-- A call that has not been through its first critical section has no entry in the
registry. -/
theorem Inv.not_registered (h : Inv sonic s) (hpc : (s.calls k).pc.isStarted = false)
    (id : UInt64) : s.subs.lookup id ≠ some k := by
  intro hid
  have hnone := ((h.calls k).fresh hpc).2.acked
  exact absurd (hnone.symm.trans ((h.calls k).subs id hid).1) (by simp)

/-- Behind a failure the registry is empty. -/
theorem Inv.not_registered_of_err (h : Inv sonic s) (herr : s.err ≠ none) (id : UInt64) :
    s.subs.lookup id ≠ some k := by
  rw [(h.failed herr).2]
  simp

/-- The response to a call whose entry was registered makes a subscription of it. -/
theorem settle_of_acked {resp : SubResponse} {id : UInt64} (hans : Answers sonic call resp)
    (hacked : call.acked = some id) :
    settle sonic call (respResult call resp) = .subscribed id := by
  unfold Answers at hans
  rw [hacked] at hans
  by_cases hcond : call.subscribe = true ∧ resp.err = none
  · rw [if_pos hcond] at hans
    unfold respResult
    rw [hcond.2]
    unfold settle
    dsimp only
    rw [if_pos hcond.1, ← hans]
  · rw [if_neg hcond] at hans
    exact absurd hans (by simp)

theorem held_notify (h : ∀ j, Held s j (s.calls j)) (env : Envelope) (j : ℕ) :
    Held (notify buffer s env) j ((notify buffer s env).calls j) := by
  unfold Ws.notify
  cases s.subs.lookup env.subscription with
  | none => exact h j
  | some k =>
    dsimp only
    split
    · exact ⟨(h j).released, (h j).owner⟩
    · split
      · refine held_setCall h rfl rfl ?_ j
        exact (h k).congr rfl rfl
      · refine held_setCall h rfl rfl ?_ j
        exact (h k).congr rfl rfl

/-- The entry of a pending request belongs to a call that has not returned. -/
theorem held_reply (hinv : Inv sonic s) (h : ∀ j, Held s j (s.calls j)) (env : Envelope) (j : ℕ) :
    Held (reply sonic s env) j ((reply sonic s env).calls j) := by
  unfold Ws.reply
  cases hk : s.pending.lookup env.id with
  | none => exact ⟨(h j).released, (h j).owner⟩
  | some k =>
    obtain ⟨-, hopen, -, -⟩ := (hinv.calls k).pending env.id hk
    have hpc : ∀ outcome, (s.calls k).pc ≠ .returned outcome := by
      intro outcome heq
      rw [heq] at hopen
      exact absurd hopen (by simp [Pc.isOpen])
    dsimp only
    cases ackedID sonic (s.calls k) env with
    | none => exact ⟨(h j).released, (h j).owner⟩
    | some id =>
      have hrest : ∀ j, Held { s with subs := s.subs.insert id k } j (s.calls j) := by
        intro j
        refine ⟨(h j).released, fun id' hid' => ?_⟩
        rcases lookup_of_insert hid' with ⟨-, rfl⟩ | ⟨-, hid'⟩
        · exact Or.inl hpc
        · exact (h j).owner id' hid'
      have hset := held_setCall hrest rfl rfl
        (show Held _ k { s.calls k with acked := some id } from (hrest k).congr rfl rfl) j
      exact ⟨hset.released, hset.owner⟩

theorem held_fail (hinv : Inv sonic s) (h : ∀ j, Held s j (s.calls j)) (err : WsErr) (j : ℕ) :
    Held (s.fail err) j ((s.fail err).calls j) := by
  cases herr : s.err with
  | some err' =>
    rw [fail_err herr]
    exact h j
  | none =>
    rw [hinv.fail_eq herr]
    exact ⟨(h j).released, fun id hid => absurd hid (by simp)⟩

/-- `Release` takes the entry out of the registry. -/
theorem held_release (hinv : Inv sonic s) (h : ∀ j, Held s j (s.calls j)) {id : UInt64}
    (hpc : (s.calls k).pc = .returned (.subscribed id)) (j : ℕ) :
    let s' := (releaseEntry s k id).setCall k { (releaseEntry s k id).calls k with released := true }
    Held s' j (s'.calls j) := by
  have hacked := (hinv.calls k).subscribed id hpc
  unfold releaseEntry
  by_cases hk : s.subs.lookup id = some k
  · rw [if_pos hk, closeEntry_of_open _ _ (by exact ((hinv.calls k).subs id hk).2)]
    have hrest : ∀ j, Held { s with subs := s.subs.erase id } j (s.calls j) := fun j =>
      ⟨(h j).released, fun id' hid' => (h j).owner id' (lookup_of_erase hid').2⟩
    have hclosed := held_setCall hrest rfl rfl
      (show Held _ k { s.calls k with closed := true } from (hrest k).congr rfl rfl)
    refine held_setCall hclosed rfl rfl ⟨fun _ => ⟨id, ?_⟩, fun id' hid' => ?_⟩ j
    · rw [setCall_self]
      exact hpc
    · obtain ⟨hne, hid'⟩ := lookup_of_erase hid'
      have hsame := ((hinv.calls k).subs id' hid').1
      rw [hacked] at hsame
      exact absurd (Option.some.inj hsame).symm hne
  · rw [if_neg hk]
    have hset : Held s k { s.calls k with released := true } := by
      refine ⟨fun _ => ⟨id, hpc⟩, fun id' hid' => ?_⟩
      have hsame := ((hinv.calls k).subs id' hid').1
      rw [hacked] at hsame
      rw [Option.some.inj hsame] at hk
      exact absurd hid' hk
    exact held_setCall h rfl rfl hset j

/-- **Entries have owners**, as long as no call gives up with its entry registered. -/
theorem held_step {event : Event} (hinv : Inv sonic s) (h : ∀ j, Held s j (s.calls j))
    (hgive : GivesUpUnregistered s event) (hstep : step sonic buffer s event = some s') (j : ℕ) :
    Held s' j (s'.calls j) := by
  cases steps_of_step hstep with
  | request hpc =>
    refine held_setCall h (by rfl) (by rfl) ?_ j
    exact ⟨by simp, fun _ _ => Or.inl (by simp)⟩
  | @marshalError k cause hpc =>
    have hout := hinv.not_registered (k := k) (by rw [hpc]; rfl)
    refine held_setCall h (by rfl) (by rfl) ?_ j
    exact (h k).returns (by simp [hpc]) hout rfl
  | @refused k err hpc herr =>
    have hout := hinv.not_registered (k := k) (by rw [hpc]; rfl)
    refine held_setCall h (by rfl) (by rfl) ?_ j
    exact (h k).returns (by simp [hpc]) hout rfl
  | @register k hpc herr =>
    refine held_setCall h (by rfl) (by rfl) ?_ j
    exact (h k).goesOn (by simp [hpc]) (by simp) rfl
  | @wrote k hpc =>
    refine held_setCall h (by rfl) (by rfl) ?_ j
    exact (h k).goesOn (by simp [hpc]) (by simp) rfl
  | @writeError k cause hpc =>
    refine held_setCall h (by rfl) (by rfl) ?_ j
    exact (h k).goesOn (by simp [hpc]) (by simp) rfl
  | @receive k resp hpc hresp =>
    have hnot := (h k).not_released (by simp [hpc])
    refine held_setCall h (by rfl) (by rfl) ?_ j
    refine ⟨fun hr => absurd (hnot.symm.trans hr) (by simp), fun id hid => ?_⟩
    have hans := ((hinv.calls k).buffered resp hresp).2
    exact Or.inr ⟨⟨id, congrArg _ (settle_of_acked hans ((hinv.calls k).subs id hid).1)⟩, hnot⟩
  | @receiveClosed k hpc hclosed =>
    have hout := hinv.not_registered_of_err (k := k) ((hinv.calls k).respClosed hclosed)
    refine held_setCall h (by rfl) (by rfl) ?_ j
    exact (h k).returns (by simp [hpc]) hout rfl
  | @cancel k cause hpc =>
    refine held_setCall h (by rfl) (by rfl) ?_ j
    exact (h k).goesOn (by simp [hpc]) (by simp) rfl
  | @observeClosed k hpc hclosed =>
    have hout := hinv.not_registered_of_err (k := k) (hinv.closed.mp hclosed)
    refine held_setCall h (by rfl) (by rfl) ?_ j
    exact (h k).returns (by simp [hpc]) hout rfl
  | @abandonWrite k cause hpc =>
    refine held_setCall h (by rfl) (by rfl) ?_ j
    exact (h k).returns (by simp [hpc]) (hgive k rfl) rfl
  | @abandonCancel k cause hpc =>
    refine held_setCall h (by rfl) (by rfl) ?_ j
    exact (h k).returns (by simp [hpc]) (hgive k rfl) rfl
  | @frame data hloop =>
    unfold route
    cases sonic.envelope data with
    | none => exact h j
    | some env =>
      dsimp only
      split
      · exact held_notify h env j
      · exact held_reply hinv h env j
  | sendClosed hloop hclosed => exact ⟨(h j).released, (h j).owner⟩
  | @send k resp hloop =>
    refine held_setCall h (by rfl) (by rfl) ?_ j
    exact (h k).congr rfl rfl
  | @readError cause hloop =>
    have hfail := held_fail hinv h (.connection cause) j
    exact ⟨hfail.released, hfail.owner⟩
  | close => exact held_fail hinv h _ j
  | release hpc => exact held_release hinv h hpc j
  | @recv k id data buf hpc hbuf =>
    refine held_setCall h (by rfl) (by rfl) ?_ j
    exact (h k).congr rfl rfl
  | recvClosed hpc hbuf hclosed => exact h j

/-- A call that gives up with its entry registered leaves an entry without an owner. -/
theorem not_owned_of_abandon {event : Event} (hgive : ¬GivesUpUnregistered s event)
    (hstep : step sonic buffer s event = some s') : ¬Owned s' := by
  unfold GivesUpUnregistered at hgive
  push Not at hgive
  obtain ⟨k, rfl, id, hid⟩ := hgive
  intro howned
  cases steps_of_step hstep with
  | abandonWrite hpc =>
    have howner := howned id k hid
    rw [setCall_self] at howner
    rcases howner with hnot | ⟨⟨id', hid'⟩, -⟩
    · exact hnot _ rfl
    · exact absurd hid' (by simp)
  | abandonCancel hpc =>
    have howner := howned id k hid
    rw [setCall_self] at howner
    rcases howner with hnot | ⟨⟨id', hid'⟩, -⟩
    · exact hnot _ rfl
    · exact absurd hid' (by simp)

/-- **The owners of entries.** In every state of a run each entry of the registry belongs
to a call that has not returned or to a subscription that was handed out and not released,
exactly if no call gives up, its context done or its write failed, after its entry was
registered. -/
theorem run_owned_iff {events : List Event} (hrun : run (step sonic buffer) init events = some s) :
    Always (step sonic buffer) Owned init events
      ↔ Along (step sonic buffer) GivesUpUnregistered init events := by
  constructor
  · intro halways
    exact along_of_always (I := Inv sonic) step_inv
      (fun _ hgive hstep => not_owned_of_abandon hgive hstep) (inv_init sonic) hrun halways
  · intro halong
    have hheld := always_of_along (I := fun t => Inv sonic t ∧ ∀ j, Held t j (t.calls j))
      (fun h hgive hstep => ⟨step_inv h.1 hstep, held_step h.1 h.2 hgive hstep⟩)
      ⟨inv_init sonic, fun j => ⟨by simp [init], by simp [init]⟩⟩ halong
    exact hheld.imp fun t ht id k hk => (ht.2 k).owner id hk

end Owned

/-- A subscription is acknowledged, received and released. -/
theorem run_owned_session : ∃ s,
    run (step sessionSonic 1) init
      [.request 0 "logsSubscribe" true, .register 0, .wrote 0, .frame firstAck, .send, .receive 0,
        .release 0] = some s
    ∧ Along (step sessionSonic 1) GivesUpUnregistered init
      [.request 0 "logsSubscribe" true, .register 0, .wrote 0, .frame firstAck, .send, .receive 0,
        .release 0]
    ∧ Always (step sessionSonic 1) Owned init
      [.request 0 "logsSubscribe" true, .register 0, .wrote 0, .frame firstAck, .send, .receive 0,
        .release 0] := by
  have hsession : (run (step sessionSonic 1) init
      [.request 0 "logsSubscribe" true, .register 0, .wrote 0, .frame firstAck, .send, .receive 0,
        .release 0]).isSome = true := by decide +kernel
  obtain ⟨s, hrun⟩ := Option.isSome_iff_exists.mp hsession
  have hgive : Along (step sessionSonic 1) GivesUpUnregistered init
      [.request 0 "logsSubscribe" true, .register 0, .wrote 0, .frame firstAck, .send, .receive 0,
        .release 0] := by decide +kernel
  exact ⟨s, hrun, hgive, (run_owned_iff hrun).mpr hgive⟩

/-- The acknowledgement is routed, and the `select` takes the context: `subscribe` returns
an error, and its entry stays in the registry. -/
theorem run_ownerless : ∃ s,
    run (step sessionSonic 1) init
      [.request 0 "logsSubscribe" true, .register 0, .wrote 0, .frame firstAck,
        .cancel 0 "context canceled", .abandon 0] = some s
    ∧ s.subs.lookup 7 = some 0
    ∧ (s.calls 0).pc = .returned (.failed (.context "context canceled")) := by
  have hsession : (run (step sessionSonic 1) init
      [.request 0 "logsSubscribe" true, .register 0, .wrote 0, .frame firstAck,
        .cancel 0 "context canceled", .abandon 0]).map (fun s => (s.subs.lookup 7, (s.calls 0).pc))
      = some (some 0, .returned (.failed (.context "context canceled"))) := by decide +kernel
  obtain ⟨s, hrun, hs⟩ := Option.map_eq_some_iff.mp hsession
  simp only [Prod.mk.injEq] at hs
  exact ⟨s, hrun, hs⟩

end SolanaGo.Ws
