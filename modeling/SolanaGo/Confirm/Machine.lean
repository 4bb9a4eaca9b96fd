/-
Sending a transaction and waiting for its confirmation.

A call of the confirmation client is a machine that asks its two clients and is answered by
them. Time passes, the caller's context ends, the timer of the wait and the ticker fire
between any two of its steps, and every answer of the clients is possible; a run is any order
of these events. The log of a run holds what was asked and what was answered.

The clock with the contexts and the ticker is a machine of its own, which the call reads; what
it can say of the time (`Clock.Inv`, `Clock.Moves`) does not depend on the call.
-/
import SolanaGo.Lib.Transition
import SolanaGo.Rpc.ChainHead

set_option autoImplicit false

namespace SolanaGo.Confirm

open Codec (ByteArr)
open Rpc Transition

/-- `type ConfirmationStatusType string`. -/
inductive ConfirmationStatusType where
  | processed
  | confirmed
  | finalized
  /-- any other string, the empty one included -/
  | other (name : String)
  deriving DecidableEq

/-- `context.Canceled` and `context.DeadlineExceeded`. -/
inductive CtxErr where
  | canceled
  | deadlineExceeded
  deriving DecidableEq

/-- The errors of a call; `E` are those of the two clients, `J` the payloads of the cluster. -/
inductive Err (E J : Type) where
  /-- `transaction is not signed` -/
  | notSigned
  /-- `RPC client is required` -/
  | rpcRequired
  /-- `signature subscribe: %w` -/
  | subscribe (err : E)
  /-- an error of a client, passed on -/
  | client (err : E)
  /-- `ctx.Err()` of the caller's context -/
  | ctx (err : CtxErr)
  /-- `ErrTimeout`: `timeout waiting for transaction confirmation` -/
  | timeout
  /-- `ExecutionError`: `transaction confirmed with execution error: %v` -/
  | execution (payload : J)
  deriving DecidableEq

/-- `type SignatureResultValue struct`. -/
structure SignatureResultValue (J : Type) where
  err : Option J := none
  received : Bool := false

/-- `type SignatureStatusesResult struct`: the fields a wait reads. -/
structure SignatureStatusesResult (J : Type) where
  confirmations : Option UInt64
  err : Option J
  confirmationStatus : ConfirmationStatusType

/-- `type TransactionOpts struct`: the field that has a default here. -/
structure TransactionOpts where
  preflightCommitment : CommitmentType := .unset
  deriving DecidableEq

/-- `type Opts struct`, with durations in nanoseconds. -/
structure Opts where
  commitment : CommitmentType := .unset
  sendOpts : TransactionOpts := {}
  timeout : ℤ := 0
  pollInterval : ℤ := 0

namespace Opts

/-- `if commitment == ""`: finalized. -/
def target (opts : Opts) : CommitmentType :=
  if opts.commitment = .unset then .finalized else opts.commitment

/-- `if sendOpts.PreflightCommitment == ""`: the commitment of the wait. -/
def sent (opts : Opts) : TransactionOpts :=
  if opts.sendOpts.preflightCommitment = .unset then
    { opts.sendOpts with preflightCommitment := opts.target }
  else opts.sendOpts

/-- `if timeout <= 0`: two minutes. -/
def waitTimeout (opts : Opts) : ℕ :=
  if opts.timeout ≤ 0 then 120000000000 else opts.timeout.toNat

/-- `if interval <= 0`: half a second. -/
def interval (opts : Opts) : ℕ :=
  if opts.pollInterval ≤ 0 then 500000000 else opts.pollInterval.toNat

theorem interval_pos (opts : Opts) : 0 < opts.interval := by
  unfold interval
  split
  · decide
  · omega

end Opts

/-- `rank`, with nothing for -1. -/
def ConfirmationStatusType.rank : ConfirmationStatusType → Option ℕ
  | .processed => some 0
  | .confirmed => some 1
  | .finalized => some 2
  | .other _ => none

/-- `want`: what is not one of the two lower levels is finalized. -/
def want : CommitmentType → ℕ
  | .processed => 0
  | .confirmed => 1
  | _ => 2

variable {E J : Type}

/-- `reached`. -/
def reached (target : CommitmentType) (status : SignatureStatusesResult J) : Bool :=
  match status.confirmationStatus.rank with
  | some got => decide (want target ≤ got)
  | none => status.confirmations.isNone

/-- The reply to `GetSignatureStatuses`; a status can be null. -/
abbrev Reply (E J : Type) := Except E (List (Option (SignatureStatusesResult J)))

/-- What a wait is told: a notification of the subscription, or the reply to a poll. -/
inductive Answer (E J : Type) where
  | notified (value : SignatureResultValue J)
  | statuses (reply : Reply E J)

/-- What a call asks of its clients, and what they tell the wait. -/
inductive Action (E J : Type) where
  | subscribe (sig : Signature) (commitment : CommitmentType)
  | subscribed
  | send (opts : TransactionOpts)
  | sent
  | poll
  | answer (a : Answer E J)
  | release
  | unsubscribe

/-- The two functions of the client; `none` is a nil transaction. -/
inductive Workflow where
  | sendAndConfirmWithOpts (signatures : Option (List Signature))
  | waitForConfirmation (sig : Signature)

/-- A call: the client it is made on (`rpc` is false for a nil client too) and its
arguments. -/
structure Call where
  rpc : Bool
  ws : Bool
  workflow : Workflow
  opts : Opts

namespace Call

/-- The signature that is waited for, if there is one. -/
def sig (call : Call) : Option Signature :=
  match call.workflow with
  | .sendAndConfirmWithOpts signatures => signatures.bind List.head?
  | .waitForConfirmation sig => some sig

/-- `tx.Signatures[0]`. -/
def signature (call : Call) : Signature := call.sig.getD (ByteArr.zero 64)

def sends (call : Call) : Bool :=
  match call.workflow with
  | .sendAndConfirmWithOpts _ => true
  | .waitForConfirmation _ => false

/-- The checks of the arguments. -/
def refusal (call : Call) : Option (Err E J) :=
  if call.sig.isNone then some .notSigned
  else if !call.rpc then some .rpcRequired
  else none

/-- The request for the subscription. -/
def subscription (call : Call) : Action E J := .subscribe call.signature call.opts.target

end Call

/-! ## The clock, the contexts and the ticker -/

/-- The time, the caller's context and that of the wait, and the ticker of the polls. -/
structure Clock where
  now : ℕ := 0
  caller : Option CtxErr := none
  /-- when `context.WithTimeout` was called -/
  started : Option ℕ := none
  wait : Option CtxErr := none
  /-- how often the ticker has fired -/
  fired : ℕ := 0
  /-- a tick is in the ticker's channel -/
  pending : Bool := false

inductive ClockEvent where
  | elapse (time : ℕ)
  /-- the caller's context ends, and takes the context of the wait with it -/
  | cancel (err : CtxErr)
  /-- the timer of the wait fires -/
  | deadline
  /-- the ticker fires; its channel holds one tick -/
  | fire

namespace Clock

def step (opts : Opts) (c : Clock) : ClockEvent → Option Clock
  | .elapse time => some { c with now := c.now + time }
  | .cancel err =>
    if c.caller.isNone then some { c with caller := some err, wait := c.wait.or (some err) }
    else none
  | .deadline => c.started.bind fun start =>
    if c.wait.isNone ∧ start + opts.waitTimeout ≤ c.now then
      some { c with wait := some .deadlineExceeded }
    else none
  | .fire => c.started.bind fun start =>
    if start + (c.fired + 1) * opts.interval ≤ c.now then
      some { c with fired := c.fired + 1, pending := true }
    else none

/-- `context.WithTimeout` and `time.NewTicker`: the context of the wait is done at once if
the caller's is. -/
def begin (c : Clock) : Clock :=
  { c with started := some c.now, wait := c.caller, fired := 0, pending := false }

/-- What the contexts and the ticker can say of the time. -/
structure Inv (opts : Opts) (c : Clock) : Prop where
  started : ∀ start, c.started = some start → start + c.fired * opts.interval ≤ c.now
  wait : c.caller = none → c.wait ≠ none →
    c.wait = some .deadlineExceeded ∧ ∃ start, c.started = some start ∧
      start + opts.waitTimeout ≤ c.now

variable {opts : Opts} {c c' : Clock}

theorem inv_begin (opts : Opts) (c : Clock) : c.begin.Inv opts where
  started start hstart := by
    obtain rfl := Option.some.inj hstart
    simp [begin]
  wait hcaller hwait := absurd hcaller hwait

/-- Time does not run back, a wait keeps its beginning, and a tick in the channel has been
fired. -/
structure Moves (c c' : Clock) : Prop where
  started : c'.started = c.started
  now : c.now ≤ c'.now
  ticks : c'.pending.toNat + c.fired ≤ c'.fired + c.pending.toNat

theorem Inv.step (h : c.Inv opts) {e : ClockEvent} (hstep : c.step opts e = some c') :
    c'.Inv opts ∧ Moves c c' := by
  have hticks : c.pending.toNat + c.fired ≤ c.fired + c.pending.toNat := (Nat.add_comm _ _).le
  cases e with
  | elapse time =>
    obtain rfl := Option.some.inj hstep
    have hnow := Nat.le_add_right c.now time
    refine ⟨⟨fun start hstart => (h.started start hstart).trans hnow, ?_⟩, rfl, hnow, hticks⟩
    intro hcaller hwait
    obtain ⟨hdeadline, start, hstart, hle⟩ := h.wait hcaller hwait
    exact ⟨hdeadline, start, hstart, hle.trans hnow⟩
  | cancel err =>
    obtain ⟨-, heq⟩ := Option.ite_none_right_eq_some.mp hstep
    obtain rfl := Option.some.inj heq
    exact ⟨⟨h.started, fun hcaller => nomatch hcaller⟩, rfl, le_rfl, hticks⟩
  | deadline =>
    obtain ⟨start, hstart, hstep⟩ := Option.bind_eq_some_iff.mp hstep
    obtain ⟨⟨-, hle⟩, heq⟩ := Option.ite_none_right_eq_some.mp hstep
    obtain rfl := Option.some.inj heq
    exact ⟨⟨h.started, fun _ _ => ⟨rfl, start, hstart, hle⟩⟩, rfl, le_rfl, hticks⟩
  | fire =>
    obtain ⟨start, hstart, hstep⟩ := Option.bind_eq_some_iff.mp hstep
    obtain ⟨hle, heq⟩ := Option.ite_none_right_eq_some.mp hstep
    obtain rfl := Option.some.inj heq
    refine ⟨⟨fun start' hstart' => ?_, h.wait⟩, rfl, le_rfl, by simp; omega⟩
    obtain rfl := Option.some.inj (hstart.symm.trans hstart')
    exact hle

end Clock

/-! ## The machine of a call -/

/-- Where a call is. -/
inductive Pc (E J : Type) where
  | entered
  | subscribing
  | sending
  /-- the transaction was not sent; the subscription is to be cancelled -/
  | aborting (err : E)
  | receiving
  /-- `Recv` failed; the contexts are to be examined -/
  | failed (err : E)
  | polling
  | polled (reply : Reply E J)
  | selecting
  /-- the wait on the subscription is over -/
  | cleaning (err : Option (Err E J))
  | returned (sig : Signature) (err : Option (Err E J))

structure State (E J : Type) where
  clock : Clock := {}
  pc : Pc E J := .entered
  log : List (Action E J) := []

inductive Event (E J : Type) where
  | clock (e : ClockEvent)
  | enter
  | subscribed
  | subscribeFailed (err : E)
  | sent
  | sendFailed (err : E)
  | notified (value : SignatureResultValue J)
  | recvFailed (err : E)
  | examine
  | statuses (reply : Reply E J)
  | tick
  | done
  | cleanup

section Machine

variable (call : Call)

/-- The result of a wait that this answer ends: a notification that is not a receipt, or a
status that has reached the target. -/
def verdict : Answer E J → Option (Option (Err E J))
  | .notified value => if value.received then none else some (value.err.map .execution)
  | .statuses (.ok (some status :: _)) =>
    if reached call.opts.target status then some (status.err.map .execution) else none
  | .statuses _ => none

namespace State

/-- The next thing to do, with what is asked for it. -/
def goto (s : State E J) (pc : Pc E J) (asked : List (Action E J)) : State E J :=
  { s with pc := pc, log := s.log ++ asked }

def ret (s : State E J) (err : Option (Err E J)) (asked : List (Action E J)) : State E J :=
  s.goto (.returned call.signature err) asked

/-- The entry of the two waits. -/
def beginWait (s : State E J) : State E J :=
  let s := { s with clock := s.clock.begin }
  if call.ws then s.goto .receiving [] else s.goto .polling [.poll]

/-- `SendTransactionWithOpts`, or straight to the wait. -/
def sendOrWait (s : State E J) : State E J :=
  if call.sends then s.goto .sending [.send call.opts.sent] else s.beginWait call

end State

/-- `cleanupSubscription`: after a terminal notification the server has dropped the
subscription already. -/
def cleanupSubscription : Option (Err E J) → Action E J
  | none | some (.execution _) => .release
  | some _ => .unsubscribe

/-- The case of the select for a wait that is done. -/
def expiry (c : Clock) : Err E J :=
  match c.caller with
  | none => .timeout
  | some err => .ctx err

def step (s : State E J) (event : Event E J) : Option (State E J) :=
  match event, s.pc with
  | .clock e, _ => (s.clock.step call.opts e).map fun c => { s with clock := c }
  | .enter, .entered =>
    match call.refusal with
    | some err => some (s.goto (.returned (ByteArr.zero 64) (some err)) [])
    | none =>
      if call.ws then some (s.goto .subscribing [call.subscription])
      else some (s.sendOrWait call)
  | .subscribeFailed err, .subscribing => some (s.ret call (some (.subscribe err)) [])
  | .subscribed, .subscribing => some ((s.goto .subscribing [.subscribed]).sendOrWait call)
  | .sendFailed err, .sending =>
    if call.ws then some (s.goto (.aborting err) []) else some (s.ret call (some (.client err)) [])
  | .cleanup, .aborting err => some (s.ret call (some (.client err)) [.unsubscribe])
  | .sent, .sending => some ((s.goto .sending [.sent]).beginWait call)
  -- the loop of `waitOnSubscription`
  | .notified value, .receiving =>
    match verdict call (.notified value : Answer E J) with
    | some err => some (s.goto (.cleaning err) [.answer (.notified value)])
    | none => some (s.goto .receiving [.answer (.notified value)])
  | .recvFailed err, .receiving => some (s.goto (.failed err) [])
  | .examine, .failed err =>
    if s.clock.wait = some .deadlineExceeded ∧ s.clock.caller = none then
      some (s.goto (.cleaning (some .timeout)) [])
    else some (s.goto (.cleaning (some (.client err))) [])
  | .cleanup, .cleaning err => some (s.ret call err [cleanupSubscription err])
  -- the loop of `waitViaPolling`
  | .statuses reply, .polling => some (s.goto (.polled reply) [.answer (.statuses reply)])
  | .examine, .polled (.error err) =>
    if s.clock.wait.isNone then some (s.ret call (some (.client err)) [])
    else some (s.goto .selecting [])
  | .examine, .polled (.ok value) =>
    match verdict call (.statuses (.ok value) : Answer E J) with
    | some err => some (s.ret call err [])
    | none => some (s.goto .selecting [])
  | .done, .selecting =>
    if s.clock.wait.isSome then some (s.ret call (some (expiry s.clock)) []) else none
  | .tick, .selecting =>
    if s.clock.pending then
      some ({ s with clock := { s.clock with pending := false } }.goto .polling [.poll])
    else none
  | _, _ => none

end Machine

end SolanaGo.Confirm
