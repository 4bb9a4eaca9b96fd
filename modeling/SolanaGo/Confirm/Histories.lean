/-
What a call of the confirmation client leaves behind.

The purpose of the package is said over the log alone, as the histories a finished call can
leave (`History`): the subscription stands before the transaction is sent, the wait ends at
the first answer that decides it, and what was acquired is given back once. Every run of the
machine leaves such a history (`inv_step`), so what all histories have in common holds of all
runs. What depends on the time is said beside it (`Timed`).
-/
import SolanaGo.Confirm.Machine

set_option autoImplicit false

namespace SolanaGo.Confirm

open Codec (ByteArr)
open Transition

variable {E J : Type}

/-! ## The histories of a call -/

section Histories

variable (call : Call)

/-- An answer in the log: a poll is asked for, a notification comes by itself. -/
def piece : Answer E J → List (Action E J)
  | .notified value => [.answer (.notified value)]
  | .statuses reply => [.poll, .answer (.statuses reply)]

def Answer.isNotification : Answer E J → Bool
  | .notified _ => true
  | .statuses _ => false

/-- The subscription, if there is one, is in place before anything else. -/
def armed : List (Action E J) := if call.ws then [call.subscription, .subscribed] else []

/-- All that comes before the wait. -/
def opening : List (Action E J) :=
  armed call ++ if call.sends then [.send call.opts.sent, .sent] else []

/-- The errors that end a wait without an answer that decides it. A poll that fails is the
last one. -/
def Ends (seen : List (Answer E J)) : Err E J → Prop
  | .timeout => True
  | .ctx _ => call.ws = false
  | .client err => call.ws = true ∨ seen.getLast? = some (.statuses (.error err))
  | _ => False

/-- The answers that have left the wait undecided, as the log has them. -/
structure Undecided (log : List (Action E J)) (seen : List (Answer E J)) : Prop where
  ready : call.refusal (E := E) (J := J) = none
  undecided : ∀ a ∈ seen, verdict call a = none ∧ a.isNotification = call.ws
  log_eq : log = opening call ++ seen.flatMap piece

/-- What a finished call leaves behind, with the signature and the error it returns. -/
inductive History : List (Action E J) → Signature → Option (Err E J) → Prop
  | refused {err : Err E J} (h : call.refusal = some err) : History [] (ByteArr.zero 64) (some err)
  | notSubscribed (hws : call.ws = true) (err : E) :
    History [call.subscription] call.signature (some (.subscribe err))
  | notSent (hsends : call.sends = true) (err : E) :
    History (armed call ++ [.send call.opts.sent] ++ if call.ws then [.unsubscribe] else [])
      call.signature (some (.client err))
  | decided {log : List (Action E J)} {seen : List (Answer E J)} {a : Answer E J}
    {err : Option (Err E J)} (h : Undecided call log seen) (hkind : a.isNotification = call.ws)
    (ha : verdict call a = some err) :
    History (log ++ piece a ++ if call.ws then [.release] else []) call.signature err
  | ended {log : List (Action E J)} {seen : List (Answer E J)} {err : Err E J}
    (h : Undecided call log seen) (herr : Ends call seen err) :
    History (log ++ if call.ws then [.unsubscribe] else []) call.signature (some err)

/-- What the log holds where the call is. -/
def Inv (s : State E J) : Prop :=
  match s.pc with
  | .entered => s.log = []
  | .subscribing => call.ws = true ∧ call.refusal (E := E) (J := J) = none
      ∧ s.log = [call.subscription]
  | .sending => call.sends = true ∧ call.refusal (E := E) (J := J) = none
      ∧ s.log = armed call ++ [.send call.opts.sent]
  | .aborting _ => call.sends = true ∧ call.ws = true
      ∧ s.log = armed call ++ [.send call.opts.sent]
  | .receiving | .failed _ => call.ws = true ∧ ∃ seen, Undecided call s.log seen
  | .polling => call.ws = false ∧ ∃ log seen, Undecided call log seen ∧ s.log = log ++ [.poll]
  | .polled reply => call.ws = false ∧ ∃ log seen, Undecided call log seen
      ∧ s.log = log ++ piece (.statuses reply)
  | .selecting => call.ws = false ∧ ∃ seen, Undecided call s.log seen
  | .cleaning err => call.ws = true
      ∧ History call (s.log ++ [cleanupSubscription err]) call.signature err
  | .returned sig err => History call s.log sig err

variable {call} {s s' : State E J} {log : List (Action E J)} {seen : List (Answer E J)}

variable {err : Option (Err E J)} {a : Answer E J}

/-- One more answer that does not decide the wait. -/
theorem Undecided.append (h : Undecided call log seen) (ha : verdict call a = none)
    (hkind : a.isNotification = call.ws) : Undecided call (log ++ piece a) (seen ++ [a]) := by
  refine ⟨h.ready, fun b hb => ?_, ?_⟩
  · rcases List.mem_append.mp hb with hb | hb
    · exact h.undecided b hb
    · obtain rfl := List.mem_singleton.mp hb
      exact ⟨ha, hkind⟩
  · rw [h.log_eq, List.flatMap_append, List.flatMap_singleton, List.append_assoc]

theorem inv_beginWait (hready : call.refusal (E := E) (J := J) = none)
    (hlog : s.log = opening call) : Inv call (s.beginWait call) := by
  have hwait : Undecided call s.log [] :=
    ⟨hready, fun a ha => absurd ha List.not_mem_nil, hlog.trans (List.append_nil _).symm⟩
  unfold State.beginWait
  split
  next hws => exact ⟨hws, [], by simpa [State.goto] using hwait⟩
  next hws => exact ⟨Bool.eq_false_iff.mpr hws, s.log, [], hwait, rfl⟩

theorem inv_sendOrWait (hready : call.refusal (E := E) (J := J) = none)
    (hlog : s.log = armed call) : Inv call (s.sendOrWait call) := by
  unfold State.sendOrWait
  split
  next hsends => exact ⟨hsends, hready, congrArg (· ++ _) hlog⟩
  next hsends =>
    apply inv_beginWait hready
    rw [hlog, opening, if_neg hsends, List.append_nil]

/-- The cleanup after a wait that ended without a verdict is a request to the server. -/
theorem cleanupSubscription_of_ends {err : Err E J} (h : Ends call seen err) :
    cleanupSubscription (some err) = .unsubscribe := by
  cases err with
  | execution payload => exact h.elim
  | _ => rfl

theorem cleanupSubscription_of_verdict (h : verdict call a = some err) :
    cleanupSubscription err = .release := by
  -- a verdict is the status itself, whether the transaction has failed or not
  have hstatus : ∀ payload : Option J, cleanupSubscription (E := E)
      (payload.map .execution) = .release := fun payload => by cases payload <;> rfl
  unfold verdict at h
  split at h
  · obtain ⟨-, heq⟩ := Option.ite_none_left_eq_some.mp h
    exact Option.some.inj heq ▸ hstatus _
  · obtain ⟨-, heq⟩ := Option.ite_none_right_eq_some.mp h
    exact Option.some.inj heq ▸ hstatus _
  · exact nomatch h

theorem inv_ret {asked : List (Action E J)} (h : History call (s.log ++ asked) call.signature err) :
    Inv call (s.ret call err asked) := h

/-- A wait that ends without a verdict, with the cleanup that belongs to it. -/
theorem Undecided.ended (h : Undecided call log seen) {err : Err E J} (herr : Ends call seen err) :
    History call (log ++ if call.ws then [cleanupSubscription (some err)] else [])
      call.signature (some err) := by
  rw [cleanupSubscription_of_ends herr]
  exact .ended h herr

theorem Undecided.decided (h : Undecided call log seen) (ha : verdict call a = some err)
    (hkind : a.isNotification = call.ws) :
    History call (log ++ piece a ++ if call.ws then [cleanupSubscription err] else [])
      call.signature err := by
  rw [cleanupSubscription_of_verdict ha]
  exact .decided h hkind ha

/-- **Every step keeps to the histories.** -/
theorem inv_step {event : Event E J} (h : Inv call s) (hstep : step call s event = some s') :
    Inv call s' := by
  unfold step at hstep
  split at hstep
  next e =>
    obtain ⟨c, -, rfl⟩ := Option.map_eq_some_iff.mp hstep
    exact h
  all_goals rename_i hpc; simp only [Inv, hpc] at h
  -- the arguments and the subscription
  · split at hstep
    next err hrefusal =>
      obtain rfl := Option.some.inj hstep
      show History call (s.log ++ []) _ _
      rw [h]
      exact .refused hrefusal
    next hready =>
      split at hstep
      next hws =>
        obtain rfl := Option.some.inj hstep
        exact ⟨hws, hready, congrArg (· ++ _) h⟩
      next hws =>
        obtain rfl := Option.some.inj hstep
        exact inv_sendOrWait hready (h.trans (if_neg hws).symm)
  · obtain ⟨hws, -, hlog⟩ := h
    obtain rfl := Option.some.inj hstep
    apply inv_ret
    rw [hlog]
    exact .notSubscribed hws _
  · obtain ⟨hws, hready, hlog⟩ := h
    obtain rfl := Option.some.inj hstep
    refine inv_sendOrWait hready ?_
    show s.log ++ _ = _
    rw [hlog, armed, if_pos hws]
    rfl
  -- the transaction
  · obtain ⟨hsends, hready, hlog⟩ := h
    split at hstep
    next hws =>
      obtain rfl := Option.some.inj hstep
      exact ⟨hsends, hws, (List.append_nil _).trans hlog⟩
    next hws =>
      obtain rfl := Option.some.inj hstep
      have hhist := History.notSent (J := J) hsends ‹E›
      rw [if_neg hws, ← hlog] at hhist
      exact inv_ret hhist
  · obtain ⟨hsends, hws, hlog⟩ := h
    obtain rfl := Option.some.inj hstep
    have hhist := History.notSent (J := J) hsends ‹E›
    rw [if_pos hws, ← hlog] at hhist
    exact inv_ret hhist
  · obtain ⟨hsends, hready, hlog⟩ := h
    obtain rfl := Option.some.inj hstep
    apply inv_beginWait hready
    show s.log ++ _ = _
    rw [hlog, opening, if_pos hsends, List.append_assoc]
    rfl
  -- the wait on the subscription
  · obtain ⟨hws, seen, h⟩ := h
    split at hstep
    next err hverdict =>
      obtain rfl := Option.some.inj hstep
      have hhist := h.decided hverdict hws.symm
      rw [if_pos hws] at hhist
      exact ⟨hws, hhist⟩
    next hverdict =>
      obtain rfl := Option.some.inj hstep
      exact ⟨hws, _, h.append hverdict hws.symm⟩
  · obtain ⟨hws, seen, h⟩ := h
    obtain rfl := Option.some.inj hstep
    exact ⟨hws, seen, by simpa [State.goto] using h⟩
  · obtain ⟨hws, seen, h⟩ := h
    -- whatever the contexts say, the wait is over without a verdict
    have hclean : ∀ err, Ends call seen err → Inv call (s.goto (.cleaning (some err)) []) := by
      intro err herr
      have hhist := h.ended herr
      rw [if_pos hws, ← List.append_nil s.log] at hhist
      exact ⟨hws, hhist⟩
    split at hstep
    · obtain rfl := Option.some.inj hstep
      exact hclean _ trivial
    · obtain rfl := Option.some.inj hstep
      exact hclean _ (.inl hws)
  · obtain rfl := Option.some.inj hstep
    exact inv_ret h.2
  -- the polls
  · obtain ⟨hws, log, seen, h, hlog⟩ := h
    obtain rfl := Option.some.inj hstep
    refine ⟨hws, log, seen, h, ?_⟩
    show s.log ++ _ = _
    rw [hlog, List.append_assoc]
    rfl
  · obtain ⟨hws, log, seen, h, hlog⟩ := h
    have hnext := h.append (a := .statuses (.error ‹E›)) rfl hws.symm
    rw [← hlog] at hnext
    split at hstep
    · obtain rfl := Option.some.inj hstep
      have herr : Ends call (seen ++ [.statuses (.error ‹E›)]) (.client ‹E› : Err E J) :=
        .inr List.getLast?_concat
      have hhist := hnext.ended herr
      rw [if_neg (Bool.eq_false_iff.mp hws)] at hhist
      exact inv_ret hhist
    · obtain rfl := Option.some.inj hstep
      exact ⟨hws, _, by simpa [State.goto] using hnext⟩
  · obtain ⟨hws, log, seen, h, hlog⟩ := h
    split at hstep
    next err hverdict =>
      obtain rfl := Option.some.inj hstep
      have hhist := h.decided hverdict hws.symm
      rw [if_neg (Bool.eq_false_iff.mp hws), ← hlog] at hhist
      exact inv_ret hhist
    next hverdict =>
      obtain rfl := Option.some.inj hstep
      have hnext := h.append hverdict hws.symm
      rw [← hlog] at hnext
      exact ⟨hws, _, by simpa [State.goto] using hnext⟩
  · obtain ⟨hws, seen, h⟩ := h
    obtain ⟨-, heq⟩ := Option.ite_none_right_eq_some.mp hstep
    obtain rfl := Option.some.inj heq
    have herr : Ends call seen (expiry s.clock) := by
      unfold expiry
      split
      · trivial
      · exact hws
    have hhist := h.ended herr
    rw [if_neg (Bool.eq_false_iff.mp hws)] at hhist
    exact inv_ret hhist
  · obtain ⟨hws, seen, h⟩ := h
    obtain ⟨-, heq⟩ := Option.ite_none_right_eq_some.mp hstep
    obtain rfl := Option.some.inj heq
    exact ⟨hws, s.log, seen, h, rfl⟩
  · exact nomatch hstep

theorem inv_init : Inv call ({} : State E J) := rfl

theorem run_inv {events : List (Event E J)} (hrun : run (step call) {} events = some s) :
    Inv call s := run_preserves inv_step inv_init hrun

/-- **Every finished call leaves one of the histories**, in whatever order time passes, the
contexts end and the clients answer: the log and what is returned belong together. -/
theorem run_history {events : List (Event E J)} {sig : Signature} {err : Option (Err E J)}
    (hrun : run (step call) {} events = some s) (hpc : s.pc = .returned sig err) :
    History call s.log sig err := by
  simpa only [Inv, hpc] using run_inv hrun

/-- A call with a WebSocket client. -/
def subscribingCall : Call where
  rpc := true
  ws := true
  workflow := .sendAndConfirmWithOpts (some [ByteArr.zero 64])
  opts := {}

/-- A receipt, and then the notification that the transaction has failed. -/
def notifiedRun : List (Event Unit ℕ) :=
  [.enter, .subscribed, .sent, .notified ⟨none, true⟩, .notified ⟨some 7, false⟩, .cleanup]

theorem notifiedRun_returns : ∃ s, run (step subscribingCall) {} notifiedRun = some s
    ∧ s.pc = .returned (ByteArr.zero 64) (some (.execution 7)) := ⟨_, rfl, rfl⟩

theorem run_history_notified : ∃ s, run (step subscribingCall) {} notifiedRun = some s
    ∧ History subscribingCall s.log (ByteArr.zero 64) (some (.execution 7)) := by
  obtain ⟨s, hrun, hpc⟩ := notifiedRun_returns
  exact ⟨s, hrun, run_history hrun hpc⟩

/-! ## One sending, one release -/

def Action.isSend : Action E J → Bool
  | .send _ => true
  | _ => false

/-- The actions that give the subscription back. -/
def Action.isCleanup : Action E J → Bool
  | .release | .unsubscribe => true
  | _ => false

/-- A wait neither sends nor acquires nor gives back. -/
theorem of_mem_piece {x : Action E J} (h : x ∈ piece a) :
    x.isSend = false ∧ x.isCleanup = false ∧ x ≠ .subscribed := by
  cases a with
  | notified value =>
    obtain rfl := List.mem_singleton.mp h
    simp [Action.isSend, Action.isCleanup]
  | statuses reply =>
    rcases List.mem_pair.mp h with rfl | rfl <;> simp [Action.isSend, Action.isCleanup]

theorem of_mem_pieces {x : Action E J} (h : x ∈ seen.flatMap piece) :
    x.isSend = false ∧ x.isCleanup = false ∧ x ≠ .subscribed := by
  obtain ⟨a, -, hx⟩ := List.mem_flatMap.mp h
  exact of_mem_piece hx

/-- A log without a sending, or with one that only the subscription precedes. -/
structure SentOnce (call : Call) (log : List (Action E J)) : Prop where
  sent : (∀ x ∈ log, x.isSend = false) ∨ ∃ rest, log = armed call ++ .send call.opts.sent :: rest
    ∧ ∀ x ∈ rest, x.isSend = false

theorem SentOnce.append (h : SentOnce call log) {more : List (Action E J)}
    (hmore : ∀ x ∈ more, x.isSend = false) : SentOnce call (log ++ more) := by
  rcases h with ⟨hlog | ⟨rest, rfl, hrest⟩⟩
  · exact ⟨.inl (List.forall_mem_append.mpr ⟨hlog, hmore⟩)⟩
  · exact ⟨.inr ⟨rest ++ more, List.append_assoc _ _ _, List.forall_mem_append.mpr ⟨hrest, hmore⟩⟩⟩

/-- Without its last action, if that does not send. -/
theorem SentOnce.of_concat {x : Action E J} (h : SentOnce call (log ++ [x]))
    (hx : x.isSend = false) : SentOnce call log := by
  rcases h with ⟨hlog | ⟨rest, hrest, hsend⟩⟩
  · exact ⟨.inl (List.forall_mem_append.mp hlog).1⟩
  · rcases List.eq_nil_or_concat rest with rfl | ⟨rest, y, rfl⟩
    · obtain ⟨-, rfl⟩ := List.append_inj' hrest rfl |>.imp_right List.singleton_inj.mp
      exact nomatch hx
    · rw [List.concat_eq_append] at hrest hsend
      rw [← List.cons_append, ← List.append_assoc] at hrest
      exact ⟨.inr ⟨rest, (List.append_inj' hrest rfl).1, (List.forall_mem_append.mp hsend).1⟩⟩

theorem Undecided.sentOnce (h : Undecided call log seen) : SentOnce call log := by
  rw [h.log_eq]
  refine SentOnce.append ?_ fun x hx => (of_mem_pieces hx).1
  unfold opening
  split
  · exact ⟨.inr ⟨[.sent], rfl, by simp [Action.isSend]⟩⟩
  · refine ⟨.inl ?_⟩
    unfold armed Call.subscription
    split <;> simp [Action.isSend]

theorem sentOnce_send : SentOnce call (armed call ++ [.send call.opts.sent] : List (Action E J)) :=
  ⟨.inr ⟨[], rfl, List.forall_mem_nil _⟩⟩

theorem History.sentOnce {sig : Signature} (h : History call log sig err) : SentOnce call log := by
  cases h with
  | refused h => exact ⟨.inl (List.forall_mem_nil _)⟩
  | notSubscribed hws err => exact ⟨.inl (List.forall_mem_singleton.mpr rfl)⟩
  | notSent hsends err =>
    apply sentOnce_send.append
    split <;> simp [Action.isSend]
  | @decided log seen a err h hkind ha =>
    refine (h.sentOnce.append fun x hx => ?_).append ?_
    · exact (of_mem_piece hx).1
    · split <;> simp [Action.isSend]
  | ended h herr =>
    apply h.sentOnce.append
    split <;> simp [Action.isSend]

theorem Inv.sentOnce (h : Inv call s) : SentOnce call s.log := by
  unfold Inv at h
  split at h
  · exact h ▸ ⟨.inl (List.forall_mem_nil _)⟩
  · exact h.2.2 ▸ ⟨.inl (List.forall_mem_singleton.mpr rfl)⟩
  · exact h.2.2 ▸ sentOnce_send
  · exact h.2.2 ▸ sentOnce_send
  · exact h.2.choose_spec.sentOnce
  · exact h.2.choose_spec.sentOnce
  · obtain ⟨-, log, seen, h, hlog⟩ := h
    exact hlog ▸ h.sentOnce.append (by simp [Action.isSend])
  · obtain ⟨-, log, seen, h, hlog⟩ := h
    exact hlog ▸ h.sentOnce.append (by simp [piece, Action.isSend])
  · exact h.2.choose_spec.sentOnce
  · exact h.2.sentOnce.of_concat (by unfold cleanupSubscription; split <;> rfl)
  · exact h.sentOnce

/-- **The transaction is sent at most once, and the subscription is armed before it.** At every
moment of every run, the log holds no sending, or one, with the options of the call, and all
that precedes it is the acknowledged subscription. -/
theorem run_sent_once {events : List (Event E J)} (hrun : run (step call) {} events = some s) :
    (∀ x ∈ s.log, x.isSend = false) ∨ ∃ rest, s.log = armed call ++ .send call.opts.sent :: rest
      ∧ ∀ x ∈ rest, x.isSend = false :=
  (run_inv hrun).sentOnce.sent

theorem run_sent_once_notified : ∃ s, run (step subscribingCall) {} notifiedRun = some s
    ∧ ((∀ x ∈ s.log, x.isSend = false) ∨ ∃ rest,
      s.log = armed subscribingCall ++ .send subscribingCall.opts.sent :: rest
      ∧ ∀ x ∈ rest, x.isSend = false) := by
  obtain ⟨s, hrun, -⟩ := notifiedRun_returns
  exact ⟨s, hrun, run_sent_once hrun⟩

/-- A log that gives back what it acquired, as its last action and only there. -/
def GivenBack (log : List (Action E J)) (err : Option (Err E J)) : Prop :=
  (.subscribed ∉ log ∧ ∀ x ∈ log, x.isCleanup = false) ∨
    (.subscribed ∈ log ∧ ∃ front, log = front ++ [cleanupSubscription err]
      ∧ ∀ x ∈ front, x.isCleanup = false)

/-- The log so far has nothing given back, and holds a subscription if there is a
WebSocket client. -/
structure Holding (call : Call) (log : List (Action E J)) : Prop where
  clean : ∀ x ∈ log, x.isCleanup = false
  subscribed : .subscribed ∈ log ↔ call.ws = true

theorem Holding.append (h : Holding call log) {more : List (Action E J)}
    (hmore : ∀ x ∈ more, x.isCleanup = false ∧ x ≠ .subscribed) : Holding call (log ++ more) where
  clean := List.forall_mem_append.mpr ⟨h.clean, fun x hx => (hmore x hx).1⟩
  subscribed := by
    rw [List.mem_append, h.subscribed]
    exact or_iff_left fun hx => (hmore _ hx).2 rfl

theorem holding_armed : Holding call (armed call : List (Action E J)) := by
  unfold armed Call.subscription
  split
  next hws => exact ⟨by simp [Action.isCleanup], by simp [hws]⟩
  next hws => exact ⟨by simp, by simp [hws]⟩

theorem Undecided.holding (h : Undecided call log seen) : Holding call log := by
  rw [h.log_eq]
  refine (holding_armed.append fun _ hx => ?_).append fun _ hx => (of_mem_pieces hx).2
  split at hx
  · rcases List.mem_pair.mp hx with rfl | rfl <;> exact ⟨rfl, nofun⟩
  · exact nomatch hx

theorem Undecided.append_holding (h : Undecided call log seen) (a : Answer E J) :
    Holding call (log ++ piece a) :=
  h.holding.append fun _ hx => (of_mem_piece hx).2

/-- The cleanup at the end of what holds a subscription. -/
theorem Holding.givenBack (h : Holding call log) {action : Action E J}
    (haction : cleanupSubscription err = action) :
    GivenBack (log ++ if call.ws then [action] else []) err := by
  subst haction
  split
  next hws =>
    exact .inr ⟨List.mem_append_left _ (h.subscribed.mpr hws), log, rfl, h.clean⟩
  next hws =>
    rw [List.append_nil]
    exact .inl ⟨fun hmem => hws (h.subscribed.mp hmem), h.clean⟩

theorem holding_sent : Holding call (armed call ++ [.send call.opts.sent] : List (Action E J)) :=
  holding_armed.append (by simp [Action.isCleanup])

theorem History.givenBack {sig : Signature} (h : History call log sig err) : GivenBack log err := by
  cases h with
  | refused h => exact .inl ⟨List.not_mem_nil, List.forall_mem_nil _⟩
  | notSubscribed hws err =>
    unfold Call.subscription
    exact .inl ⟨by simp, List.forall_mem_singleton.mpr rfl⟩
  | notSent hsends err => exact holding_sent.givenBack rfl
  | decided h hkind ha => exact (h.append_holding _).givenBack (cleanupSubscription_of_verdict ha)
  | ended h herr => exact h.holding.givenBack (cleanupSubscription_of_ends herr)

/-- A local release follows the notification that has told the result. -/
theorem History.release {sig : Signature} (h : History call log sig err)
    (hrelease : .release ∈ log) : ∃ value, .answer (.notified value) ∈ log
      ∧ value.received = false ∧ err = value.err.map .execution := by
  have hnot : ∀ {front : List (Action E J)}, Holding call front →
      .release ∉ front ++ if call.ws then [.unsubscribe] else [] := by
    intro front hfront hmem
    rcases List.mem_append.mp hmem with hmem | hmem
    · exact nomatch hfront.clean _ hmem
    · split at hmem <;> simp at hmem
  cases h with
  | refused h => exact nomatch hrelease
  | notSubscribed hws err => exact nomatch List.mem_singleton.mp hrelease
  | notSent hsends err => exact absurd hrelease (hnot holding_sent)
  | ended h herr => exact absurd hrelease (hnot h.holding)
  | @decided log seen a err h hkind ha =>
    cases a with
    | notified value =>
      obtain ⟨hreceived, heq⟩ := Option.ite_none_left_eq_some.mp ha
      refine ⟨value, by simp [piece], Bool.eq_false_iff.mpr hreceived, ?_⟩
      exact (Option.some.inj heq).symm
    | statuses reply =>
      -- a poll is the answer of a call without a subscription
      rw [if_neg (Bool.eq_false_iff.mp hkind.symm), List.append_nil] at hrelease
      exact nomatch (h.append_holding (.statuses reply)).clean _ hrelease

/-- **What is acquired is given back once.** However a call ends, its subscription is released
or cancelled as the last thing it does, and by a local release only if a notification of this
subscription has told the result; a call that never had a subscription gives none back. -/
theorem run_given_back {events : List (Event E J)} {sig : Signature} {err : Option (Err E J)}
    (hrun : run (step call) {} events = some s) (hpc : s.pc = .returned sig err) :
    GivenBack s.log err ∧ (.release ∈ s.log → ∃ value, .answer (.notified value) ∈ s.log
      ∧ value.received = false ∧ err = value.err.map .execution) := by
  have hhist : History call s.log sig err := by simpa only [Inv, hpc] using run_inv hrun
  exact ⟨hhist.givenBack, hhist.release⟩

theorem run_given_back_notified : ∃ s, run (step subscribingCall) {} notifiedRun = some s
    ∧ GivenBack s.log (some (.execution 7))
    ∧ (.release ∈ s.log → ∃ value, .answer (.notified value) ∈ s.log
      ∧ value.received = false ∧ (some (.execution 7) : Option (Err Unit ℕ))
        = value.err.map .execution) := by
  obtain ⟨s, hrun, hpc⟩ := notifiedRun_returns
  exact ⟨s, hrun, run_given_back hrun hpc⟩

/-! ## What the clock says of a call -/

def Action.isPoll : Action E J → Bool
  | .poll => true
  | _ => false

/-- The call has decided for `ErrTimeout`. -/
def Pc.TimedOut : Pc E J → Prop
  | .cleaning err | .returned _ err => err = some .timeout
  | _ => False

/-- The timeout of the wait has passed. -/
def Clock.Over (opts : Opts) (c : Clock) : Prop :=
  ∃ start, c.started = some start ∧ start + opts.waitTimeout ≤ c.now

/-- The polls are counted by the ticks, and `ErrTimeout` does not come early. -/
structure Timed (call : Call) (s : State E J) : Prop where
  clock : s.clock.Inv call.opts
  polls : s.log.countP Action.isPoll + s.clock.pending.toNat ≤ s.clock.fired + 1
  timeout : s.pc.TimedOut → s.clock.Over call.opts

theorem Timed.clockStep (h : Timed call s) {e : ClockEvent} {c : Clock}
    (hstep : s.clock.step call.opts e = some c) : Timed call { s with clock := c } := by
  obtain ⟨hclock, hmoves⟩ := h.clock.step hstep
  refine ⟨hclock, ?_, fun htimeout => ?_⟩
  · have hpolls := h.polls
    have hticks := hmoves.ticks
    show s.log.countP _ + c.pending.toNat ≤ c.fired + 1
    omega
  · obtain ⟨start, hstart, hle⟩ := h.timeout htimeout
    exact ⟨start, hmoves.started.trans hstart, hle.trans hmoves.now⟩

theorem Timed.goto (h : Timed call s) {pc : Pc E J} {asked : List (Action E J)}
    (hasked : asked.countP Action.isPoll = 0)
    (hpc : pc.TimedOut → s.clock.Over call.opts) : Timed call (s.goto pc asked) := by
  refine ⟨h.clock, ?_, hpc⟩
  show (s.log ++ asked).countP _ + _ ≤ _
  rw [List.countP_append, hasked]
  exact h.polls

theorem timed_beginWait (hlog : s.log.countP Action.isPoll = 0) :
    Timed call (s.beginWait call) := by
  have hclock := Clock.inv_begin call.opts s.clock
  unfold State.beginWait
  split
  · refine ⟨hclock, ?_, nofun⟩
    show (s.log ++ []).countP _ + 0 ≤ 1
    rw [List.append_nil, hlog]
    exact Nat.zero_le _
  · refine ⟨hclock, ?_, nofun⟩
    show (s.log ++ [Action.poll]).countP _ + 0 ≤ 1
    rw [List.countP_append, hlog]
    exact le_rfl

theorem Timed.sendOrWait (h : Timed call s) (hlog : s.log.countP Action.isPoll = 0) :
    Timed call (s.sendOrWait call) := by
  unfold State.sendOrWait
  split
  · exact h.goto rfl nofun
  · exact timed_beginWait hlog

theorem countP_isPoll_armed : (armed call : List (Action E J)).countP Action.isPoll = 0 := by
  unfold armed
  split <;> rfl

/-- An answer never decides for a timeout. -/
theorem verdict_ne_timeout (h : verdict call a = some err) : err ≠ some .timeout := by
  rintro rfl
  exact nomatch cleanupSubscription_of_verdict h

theorem timed_step {event : Event E J} (hinv : Inv call s) (h : Timed call s)
    (hstep : step call s event = some s') : Timed call s' := by
  have hret : ∀ {err asked}, asked.countP Action.isPoll = 0 →
      (err = some .timeout → s.clock.Over call.opts) → Timed call (s.ret call err asked) := by
    intro err asked hasked herr
    exact h.goto hasked herr
  unfold step at hstep
  split at hstep
  next e =>
    obtain ⟨c, hc, rfl⟩ := Option.map_eq_some_iff.mp hstep
    exact h.clockStep hc
  all_goals rename_i hpc; simp only [Inv, hpc] at hinv
  · split at hstep
    next err hrefusal =>
      obtain rfl := Option.some.inj hstep
      refine h.goto rfl fun hpc => ?_
      rw [show some err = some .timeout from hpc] at hrefusal
      unfold Call.refusal at hrefusal
      split at hrefusal
      · exact nomatch hrefusal
      · split at hrefusal <;> exact nomatch hrefusal
    · split at hstep
      · exact Option.some.inj hstep ▸ h.goto rfl nofun
      · exact Option.some.inj hstep ▸ h.sendOrWait (by rw [hinv]; rfl)
  · exact Option.some.inj hstep ▸ hret rfl nofun
  · obtain rfl := Option.some.inj hstep
    have hacked : Timed call (s.goto .subscribing [.subscribed]) := h.goto rfl nofun
    apply hacked.sendOrWait
    show (s.log ++ _).countP _ = 0
    rw [hinv.2.2]
    rfl
  · split at hstep
    · exact Option.some.inj hstep ▸ h.goto rfl nofun
    · exact Option.some.inj hstep ▸ hret rfl nofun
  · exact Option.some.inj hstep ▸ hret rfl nofun
  · obtain rfl := Option.some.inj hstep
    apply timed_beginWait
    show (s.log ++ _).countP _ = 0
    rw [hinv.2.2, List.countP_append, List.countP_append, countP_isPoll_armed]
    rfl
  · split at hstep
    next err hverdict =>
      exact Option.some.inj hstep ▸ h.goto rfl fun hpc => absurd hpc (verdict_ne_timeout hverdict)
    · exact Option.some.inj hstep ▸ h.goto rfl nofun
  · exact Option.some.inj hstep ▸ h.goto rfl nofun
  · split at hstep
    next hdone =>
      have hover := h.clock.wait hdone.2 (hdone.1 ▸ nofun)
      exact Option.some.inj hstep ▸ h.goto rfl fun _ => hover.2
    · exact Option.some.inj hstep ▸ h.goto rfl nofun
  · obtain rfl := Option.some.inj hstep
    refine hret ?_ fun herr => h.timeout (by rw [hpc, herr]; rfl)
    unfold cleanupSubscription
    split <;> rfl
  · exact Option.some.inj hstep ▸ h.goto rfl nofun
  · split at hstep
    · exact Option.some.inj hstep ▸ hret rfl nofun
    · exact Option.some.inj hstep ▸ h.goto rfl nofun
  · split at hstep
    next err hverdict =>
      exact Option.some.inj hstep ▸ hret rfl fun herr => absurd herr (verdict_ne_timeout hverdict)
    · exact Option.some.inj hstep ▸ h.goto rfl nofun
  · obtain ⟨hdone, heq⟩ := Option.ite_none_right_eq_some.mp hstep
    refine Option.some.inj heq ▸ hret rfl fun herr => ?_
    -- without an error of the caller's, it was the timer of the wait
    have hcaller : s.clock.caller = none := by
      unfold expiry at herr
      split at herr
      · assumption
      · exact nomatch herr
    exact (h.clock.wait hcaller (Option.isSome_iff_ne_none.mp hdone)).2
  · obtain ⟨hpending, heq⟩ := Option.ite_none_right_eq_some.mp hstep
    obtain rfl := Option.some.inj heq
    refine ⟨⟨h.clock.started, h.clock.wait⟩, ?_, nofun⟩
    have hpolls := h.polls
    rw [hpending] at hpolls
    show (s.log ++ [Action.poll]).countP _ + 0 ≤ s.clock.fired + 1
    rw [List.countP_append]
    exact hpolls
  · exact nomatch hstep

/-- **A wait keeps to its times.** At every moment of every run, the cluster has been asked for
the status at most once, and once more for each poll interval since the wait began; and a call
that returns `ErrTimeout` has waited for the whole timeout. -/
theorem run_timed {events : List (Event E J)} (hrun : run (step call) {} events = some s) :
    (∀ start, s.clock.started = some start →
      s.log.countP Action.isPoll ≤ 1 + (s.clock.now - start) / call.opts.interval)
    ∧ ∀ sig, s.pc = .returned sig (some .timeout) → ∃ start, s.clock.started = some start
      ∧ start + call.opts.waitTimeout ≤ s.clock.now := by
  have htimed : Inv call s ∧ Timed call s := by
    refine run_preserves (I := fun s => Inv call s ∧ Timed call s)
      (fun h hstep => ⟨inv_step h.1 hstep, timed_step h.1 h.2 hstep⟩) ⟨?_, ?_⟩ hrun
    · exact inv_init
    · exact ⟨⟨nofun, fun _ hwait => absurd rfl hwait⟩, Nat.zero_le _, nofun⟩
  refine ⟨fun start hstart => ?_, fun sig hpc => htimed.2.timeout (by rw [hpc]; rfl)⟩
  have hpolls := htimed.2.polls
  have hfired : s.clock.fired ≤ (s.clock.now - start) / call.opts.interval := by
    rw [Nat.le_div_iff_mul_le call.opts.interval_pos]
    exact Nat.le_sub_of_add_le (Nat.add_comm _ _ ▸ htimed.2.clock.started start hstart)
  omega

end Histories

/-- The same call over RPC alone. -/
def pollingCall : Call := { subscribingCall with ws := false }

/-- Two polls before the time is over. -/
def timedOutRun : List (Event Unit ℕ) :=
  [.enter, .sent, .statuses (.ok [none]), .examine, .clock (.elapse 120000000000), .clock .fire,
    .tick, .statuses (.error ()), .clock .deadline, .examine, .done]

theorem run_timed_out : ∃ s, run (step pollingCall) {} timedOutRun = some s
    ∧ s.pc = .returned (ByteArr.zero 64) (some .timeout)
    ∧ (∀ start, s.clock.started = some start →
      s.log.countP Action.isPoll ≤ 1 + (s.clock.now - start) / pollingCall.opts.interval)
    ∧ ∀ sig, s.pc = .returned sig (some .timeout) → ∃ start, s.clock.started = some start
      ∧ start + pollingCall.opts.waitTimeout ≤ s.clock.now := by
  obtain ⟨s, hrun, hpc⟩ : ∃ s, run (step pollingCall) {} timedOutRun = some s
      ∧ s.pc = .returned (ByteArr.zero 64) (some .timeout) := ⟨_, rfl, rfl⟩
  exact ⟨s, hrun, hpc, run_timed hrun⟩

end SolanaGo.Confirm
