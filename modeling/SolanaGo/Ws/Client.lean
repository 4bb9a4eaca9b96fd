/-
The WebSocket subscription client as a transition system.

Several goroutines work on one `Client`: any number of callers inside `request`, the
read loop inside `route`, and callers of `Release`, `Recv` and `Close`. What they share
is guarded by `mu`, except for one thing: the read loop sends a response on the
channel of the request after it has given `mu` back. An event below is one critical
section, one channel operation or one step of a caller between two of them, and a run
is any interleaving of events.

The objects a caller allocates (its response channel, and for a subscription the
`subEntry` with its notification channel) are named by the number of the call, so that
the pointers in the two registries are call numbers. What the Go runtime answers with
a panic, closing a channel twice and sending on a closed one, sets `fault`; an
operation that would block cannot happen.

Three fields of a call are not in the source. They record what happened to it:
`acked`, `replies` and `released`.
-/
import SolanaGo.Lib.Transition
import SolanaGo.Rpc.Stream
import Mathlib.Data.List.AList

set_option autoImplicit false

namespace SolanaGo.Ws

open Codec (Bytes)
open Rpc (RPCError)

/-! ## Frames -/

/-- What `route` decodes of a message. A missing raw message is empty. -/
structure Envelope where
  id : UInt64 := 0
  result : Bytes := []
  error : Option RPCError := none
  method : String := ""
  /-- `params.subscription` -/
  subscription : UInt64 := 0
  /-- `params.result` -/
  notification : Bytes := []

/-- The JSON decoder, for the two things it is asked for. -/
structure Sonic where
  envelope : Bytes → Option Envelope
  /-- a result as a subscription id -/
  subID : Bytes → Option UInt64

/-! ## State -/

/-- The errors of this file. -/
inductive WsErr where
  /-- `ErrSubscriptionClosed` -/
  | subscriptionClosed
  /-- `ErrSubscriptionClosed`, with the connection error -/
  | connection (cause : String)
  /-- the request cannot be marshalled -/
  | marshal (cause : String)
  /-- the request cannot be written -/
  | write (method cause : String)
  /-- the server answers with an error -/
  | rpc (method : String) (err : RPCError)
  /-- the context is done -/
  | context (cause : String)
  /-- the server acknowledges with something that is not an id -/
  | unexpectedID (method : String) (result : Bytes)
  deriving DecidableEq

/-- `type subResponse struct`. -/
structure SubResponse where
  result : Bytes
  err : Option RPCError
  deriving DecidableEq

/-- What a call returns. -/
inductive Outcome where
  | failed (err : WsErr)
  | replied (result : Bytes)
  | subscribed (id : UInt64)
  deriving DecidableEq

/-- Where a call is. -/
inductive Pc where
  /-- not made yet -/
  | absent
  /-- in `request`, before its first critical section -/
  | called
  /-- registered, the request not written yet -/
  | writing
  /-- the write failed -/
  | writeFailed (cause : String)
  /-- in the `select` -/
  | waiting
  /-- the `select` took `ctx.Done()` -/
  | cancelled (cause : String)
  | returned (outcome : Outcome)
  deriving DecidableEq

/-- A call of `request`, with what it allocates. -/
structure Call where
  pc : Pc := .absent
  method : String := ""
  /-- made by `subscribe`: there is an entry to register -/
  subscribe : Bool := false
  id : UInt64 := 0
  /-- the response channel: its one place -/
  resp : Option SubResponse := none
  respClosed : Bool := false
  /-- the notification channel: its buffer -/
  buf : List Bytes := []
  closed : Bool := false
  dropped : UInt64 := 0
  /-- the id under which the entry was registered -/
  acked : Option UInt64 := none
  /-- how many responses were sent -/
  replies : ℕ := 0
  /-- `Release` was called on the subscription -/
  released : Bool := false
  deriving DecidableEq

/-- Where the read loop is. -/
inductive Loop where
  /-- before the next frame -/
  | idle
  /-- in `route`, behind its critical section -/
  | sending (k : ℕ) (resp : SubResponse)
  | stopped
  deriving DecidableEq

/-- A Go map from ids to calls. -/
abbrev Registry := AList fun _ : UInt64 => ℕ

/-- `type Client struct`, and the goroutines. -/
structure State where
  reqID : UInt64 := 0
  pending : Registry := ∅
  subs : Registry := ∅
  err : Option WsErr := none
  /-- the channel `closed` is closed -/
  closed : Bool := false
  calls : ℕ → Call := fun _ => {}
  loop : Loop := .idle
  /-- a panic -/
  fault : Bool := false

namespace State

/-- A change to one call. -/
def setCall (s : State) (k : ℕ) (call : Call) : State :=
  { s with calls := Function.update s.calls k call }

/-- `close(entry.ch)`. -/
def closeEntry (s : State) (k : ℕ) : State :=
  if (s.calls k).closed then { s with fault := true }
  else s.setCall k { s.calls k with closed := true }

/-- `close(p.ch)`. -/
def closeResp (s : State) (k : ℕ) : State :=
  if (s.calls k).respClosed then { s with fault := true }
  else s.setCall k { s.calls k with respClosed := true }

/-- The calls in a registry. -/
def callsOf (m : Registry) : List ℕ := m.entries.map fun entry => entry.2

/-- `fail`. -/
def fail (s : State) (err : WsErr) : State :=
  match s.err with
  | some _ => s
  | none =>
    let s := { s with err := some err, closed := true, fault := s.fault || s.closed }
    let s := { (callsOf s.subs).foldl closeEntry s with subs := ∅ }
    { (callsOf s.pending).foldl closeResp s with pending := ∅ }

end State

/-! ## Events -/

/-- What can happen. Events of a caller carry the number of the call. -/
inductive Event where
  /-- `request` is entered, by `subscribe` or by `Unsubscribe` -/
  | request (k : ℕ) (method : String) (subscribe : Bool)
  | marshalError (k : ℕ) (cause : String)
  /-- the critical section that registers the request -/
  | register (k : ℕ)
  | wrote (k : ℕ)
  | writeError (k : ℕ) (cause : String)
  /-- the `select` takes the response channel -/
  | receive (k : ℕ)
  /-- the `select` takes `ctx.Done()` -/
  | cancel (k : ℕ) (cause : String)
  /-- the `select` takes `c.closed` -/
  | observeClosed (k : ℕ)
  /-- the critical section behind a failed write or a cancellation -/
  | abandon (k : ℕ)
  /-- the read loop routes a message -/
  | frame (data : Bytes)
  /-- the read loop sends the response -/
  | send
  /-- the read loop fails -/
  | readError (cause : String)
  /-- `Close` -/
  | close
  /-- `Release` on the subscription of the call -/
  | release (k : ℕ)
  /-- `Recv` on the subscription of the call takes the channel -/
  | recv (k : ℕ)

section Step

variable (sonic : Sonic) (buffer : ℕ)

/-- What `subscribe` makes of the result of `request`; other callers return it. -/
def settle (call : Call) : Except WsErr Bytes → Outcome
  | .error err => .failed err
  | .ok result =>
    if call.subscribe then
      match sonic.subID result with
      | some id => .subscribed id
      | none => .failed (.unexpectedID call.method result)
    else .replied result

/-- `return nil, c.Err()`. -/
def errResult (s : State) : Except WsErr Bytes :=
  match s.err with
  | some err => .error err
  | none => .ok []

/-- The two branches of the `select` on a response. -/
def respResult (call : Call) (resp : SubResponse) : Except WsErr Bytes :=
  match resp.err with
  | some err => .error (.rpc call.method err)
  | none => .ok resp.result

/-- `route` on a notification. -/
def notify (s : State) (env : Envelope) : State :=
  match s.subs.lookup env.subscription with
  | none => s
  | some k =>
    let call := s.calls k
    if call.closed then { s with fault := true }
    else if call.buf.length < buffer then
      s.setCall k { call with buf := call.buf ++ [env.notification] }
    else s.setCall k { call with dropped := call.dropped + 1 }

/-- The id under which `route` registers the entry of a call, if it does. -/
def ackedID (call : Call) (env : Envelope) : Option UInt64 :=
  if call.subscribe ∧ env.error = none then sonic.subID env.result else none

/-- `c.subs[subID] = p.entry`, if there is an id. -/
def registerEntry (s : State) (k : ℕ) : Option UInt64 → State
  | none => s
  | some id =>
    { s with subs := s.subs.insert id k }.setCall k { s.calls k with acked := some id }

/-- `route` on a reply, up to the send. -/
def reply (s : State) (env : Envelope) : State :=
  let s1 := { s with pending := s.pending.erase env.id }
  match s.pending.lookup env.id with
  | none => s1
  | some k =>
    { registerEntry s1 k (ackedID sonic (s.calls k) env) with
      loop := .sending k ⟨env.result, env.error⟩ }

/-- `route`. -/
def route (s : State) (data : Bytes) : State :=
  match sonic.envelope data with
  | none => s
  | some env => if env.method ≠ "" then notify buffer s env else reply sonic s env

/-- `Release`, on the subscription with the given id. -/
def releaseEntry (s : State) (k : ℕ) (id : UInt64) : State :=
  if s.subs.lookup id = some k then { s with subs := s.subs.erase id }.closeEntry k else s

/-- **One event.** -/
def step (s : State) : Event → Option State
  | .request k method subscribe =>
    if (s.calls k).pc = .absent then
      let id := s.reqID + 1
      some ({ s with reqID := id }.setCall k { pc := .called, method, subscribe, id })
    else none
  | .marshalError k cause =>
    if (s.calls k).pc = .called then
      some (s.setCall k { s.calls k with pc := .returned (.failed (.marshal cause)) })
    else none
  | .register k =>
    if (s.calls k).pc = .called then
      match s.err with
      | some err => some (s.setCall k { s.calls k with pc := .returned (.failed err) })
      | none =>
        some ({ s with pending := s.pending.insert (s.calls k).id k }.setCall k
          { s.calls k with pc := .writing })
    else none
  | .wrote k =>
    if (s.calls k).pc = .writing then some (s.setCall k { s.calls k with pc := .waiting })
    else none
  | .writeError k cause =>
    if (s.calls k).pc = .writing then
      some (s.setCall k { s.calls k with pc := .writeFailed cause })
    else none
  | .receive k =>
    if (s.calls k).pc = .waiting then
      match (s.calls k).resp with
      | some resp =>
        let outcome := settle sonic (s.calls k) (respResult (s.calls k) resp)
        some (s.setCall k { s.calls k with resp := none, pc := .returned outcome })
      | none =>
        if (s.calls k).respClosed then
          let outcome := settle sonic (s.calls k) (errResult s)
          some (s.setCall k { s.calls k with pc := .returned outcome })
        else none
    else none
  | .cancel k cause =>
    if (s.calls k).pc = .waiting then
      some (s.setCall k { s.calls k with pc := .cancelled cause })
    else none
  | .observeClosed k =>
    if (s.calls k).pc = .waiting ∧ s.closed then
      let outcome := settle sonic (s.calls k) (errResult s)
      some (s.setCall k { s.calls k with pc := .returned outcome })
    else none
  | .abandon k =>
    let call := s.calls k
    let s1 := { s with pending := s.pending.erase call.id }
    match call.pc with
    | .writeFailed cause =>
      some (s1.setCall k { call with pc := .returned (.failed (.write call.method cause)) })
    | .cancelled cause =>
      some (s1.setCall k { call with pc := .returned (.failed (.context cause)) })
    | _ => none
  | .frame data => if s.loop = .idle then some (route sonic buffer s data) else none
  | .send =>
    match s.loop with
    | .sending k resp =>
      let call := s.calls k
      if call.respClosed then some { s with fault := true }
      else if call.resp.isSome then none
      else
        some ({ s with loop := .idle }.setCall k
          { call with resp := some resp, replies := call.replies + 1 })
    | _ => none
  | .readError cause =>
    if s.loop = .idle then some { s.fail (.connection cause) with loop := .stopped } else none
  | .close => some (s.fail .subscriptionClosed)
  | .release k =>
    match (s.calls k).pc with
    | .returned (.subscribed id) =>
      let s := releaseEntry s k id
      some (s.setCall k { s.calls k with released := true })
    | _ => none
  | .recv k =>
    match (s.calls k).pc with
    | .returned (.subscribed _) =>
      match (s.calls k).buf with
      | _ :: buf => some (s.setCall k { s.calls k with buf })
      | [] => if (s.calls k).closed then some s else none
    | _ => none

/-! ## What an event does

The events as a relation, with the guard of every branch. -/

/-- The state of the call and of the client in which an event happens, and what it
leaves. -/
inductive Steps (s : State) : Event → State → Prop
  | request {k method subscribe} (hpc : (s.calls k).pc = .absent) :
    Steps s (.request k method subscribe) ({ s with reqID := s.reqID + 1 }.setCall k
      { pc := .called, method, subscribe, id := s.reqID + 1 })
  | marshalError {k cause} (hpc : (s.calls k).pc = .called) :
    Steps s (.marshalError k cause)
      (s.setCall k { s.calls k with pc := .returned (.failed (.marshal cause)) })
  | refused {k err} (hpc : (s.calls k).pc = .called) (herr : s.err = some err) :
    Steps s (.register k) (s.setCall k { s.calls k with pc := .returned (.failed err) })
  | register {k} (hpc : (s.calls k).pc = .called) (herr : s.err = none) :
    Steps s (.register k) ({ s with pending := s.pending.insert (s.calls k).id k }.setCall k
      { s.calls k with pc := .writing })
  | wrote {k} (hpc : (s.calls k).pc = .writing) :
    Steps s (.wrote k) (s.setCall k { s.calls k with pc := .waiting })
  | writeError {k cause} (hpc : (s.calls k).pc = .writing) :
    Steps s (.writeError k cause) (s.setCall k { s.calls k with pc := .writeFailed cause })
  | receive {k resp} (hpc : (s.calls k).pc = .waiting) (hresp : (s.calls k).resp = some resp) :
    Steps s (.receive k) (s.setCall k { s.calls k with
      resp := none
      pc := .returned (settle sonic (s.calls k) (respResult (s.calls k) resp)) })
  | receiveClosed {k} (hpc : (s.calls k).pc = .waiting) (hclosed : (s.calls k).respClosed = true) :
    Steps s (.receive k) (s.setCall k { s.calls k with
      pc := .returned (settle sonic (s.calls k) (errResult s)) })
  | cancel {k cause} (hpc : (s.calls k).pc = .waiting) :
    Steps s (.cancel k cause) (s.setCall k { s.calls k with pc := .cancelled cause })
  | observeClosed {k} (hpc : (s.calls k).pc = .waiting) (hclosed : s.closed = true) :
    Steps s (.observeClosed k) (s.setCall k { s.calls k with
      pc := .returned (settle sonic (s.calls k) (errResult s)) })
  | abandonWrite {k cause} (hpc : (s.calls k).pc = .writeFailed cause) :
    Steps s (.abandon k) ({ s with pending := s.pending.erase (s.calls k).id }.setCall k
      { s.calls k with pc := .returned (.failed (.write (s.calls k).method cause)) })
  | abandonCancel {k cause} (hpc : (s.calls k).pc = .cancelled cause) :
    Steps s (.abandon k) ({ s with pending := s.pending.erase (s.calls k).id }.setCall k
      { s.calls k with pc := .returned (.failed (.context cause)) })
  | frame {data} (hloop : s.loop = .idle) : Steps s (.frame data) (route sonic buffer s data)
  | sendClosed {k resp} (hloop : s.loop = .sending k resp)
      (hclosed : (s.calls k).respClosed = true) : Steps s .send { s with fault := true }
  | send {k resp} (hloop : s.loop = .sending k resp) :
    Steps s .send ({ s with loop := .idle }.setCall k
      { s.calls k with resp := some resp, replies := (s.calls k).replies + 1 })
  | readError {cause} (hloop : s.loop = .idle) :
    Steps s (.readError cause) { s.fail (.connection cause) with loop := .stopped }
  | close : Steps s .close (s.fail .subscriptionClosed)
  | release {k id} (hpc : (s.calls k).pc = .returned (.subscribed id)) :
    Steps s (.release k) ((releaseEntry s k id).setCall k
      { (releaseEntry s k id).calls k with released := true })
  | recv {k id data buf} (hpc : (s.calls k).pc = .returned (.subscribed id))
      (hbuf : (s.calls k).buf = data :: buf) :
    Steps s (.recv k) (s.setCall k { s.calls k with buf })
  | recvClosed {k id} (hpc : (s.calls k).pc = .returned (.subscribed id))
      (hbuf : (s.calls k).buf = []) (hclosed : (s.calls k).closed = true) : Steps s (.recv k) s

variable {sonic buffer}

/-- A branch under a guard. -/
theorem eq_of_guard {c : Prop} [Decidable c] {s' : State} {t : Option State}
    (h : (if c then t else none) = some s') : c ∧ t = some s' := by
  by_cases hc : c
  · rw [if_pos hc] at h
    exact ⟨hc, h⟩
  · rw [if_neg hc] at h
    exact absurd h (by simp)

theorem steps_of_step {s s' : State} {event : Event} (h : step sonic buffer s event = some s') :
    Steps sonic buffer s event s' := by
  -- the constructors are the ways through the code of an event
  cases event with
  | request k method subscribe =>
    obtain ⟨hpc, h⟩ := eq_of_guard h
    obtain rfl := Option.some.inj h
    exact .request hpc
  | marshalError k cause =>
    obtain ⟨hpc, h⟩ := eq_of_guard h
    obtain rfl := Option.some.inj h
    exact .marshalError hpc
  | register k =>
    obtain ⟨hpc, h⟩ := eq_of_guard h
    split at h
    · next err herr =>
        obtain rfl := Option.some.inj h
        exact .refused hpc herr
    · next herr =>
        obtain rfl := Option.some.inj h
        exact .register hpc herr
  | wrote k =>
    obtain ⟨hpc, h⟩ := eq_of_guard h
    obtain rfl := Option.some.inj h
    exact .wrote hpc
  | writeError k cause =>
    obtain ⟨hpc, h⟩ := eq_of_guard h
    obtain rfl := Option.some.inj h
    exact .writeError hpc
  | receive k =>
    obtain ⟨hpc, h⟩ := eq_of_guard h
    cases hresp : (s.calls k).resp with
    | some resp =>
      rw [hresp] at h
      obtain rfl := Option.some.inj h
      exact .receive hpc hresp
    | none =>
      rw [hresp] at h
      obtain ⟨hclosed, h⟩ := eq_of_guard h
      obtain rfl := Option.some.inj h
      exact .receiveClosed hpc hclosed
  | cancel k cause =>
    obtain ⟨hpc, h⟩ := eq_of_guard h
    obtain rfl := Option.some.inj h
    exact .cancel hpc
  | observeClosed k =>
    obtain ⟨⟨hpc, hclosed⟩, h⟩ := eq_of_guard h
    obtain rfl := Option.some.inj h
    exact .observeClosed hpc hclosed
  | abandon k =>
    simp only [step] at h
    split at h
    · next cause hpc =>
        obtain rfl := Option.some.inj h
        exact .abandonWrite hpc
    · next cause hpc =>
        obtain rfl := Option.some.inj h
        exact .abandonCancel hpc
    · exact absurd h (by simp)
  | frame data =>
    obtain ⟨hloop, h⟩ := eq_of_guard h
    obtain rfl := Option.some.inj h
    exact .frame hloop
  | send =>
    simp only [step] at h
    split at h
    · next k resp hloop =>
        split at h
        · next hclosed =>
            obtain rfl := Option.some.inj h
            exact .sendClosed hloop hclosed
        · split at h
          · exact absurd h (by simp)
          · obtain rfl := Option.some.inj h
            exact .send hloop
    · exact absurd h (by simp)
  | readError cause =>
    obtain ⟨hloop, h⟩ := eq_of_guard h
    obtain rfl := Option.some.inj h
    exact .readError hloop
  | close =>
    obtain rfl := Option.some.inj h
    exact .close
  | release k =>
    simp only [step] at h
    split at h
    · next id hpc =>
        obtain rfl := Option.some.inj h
        exact .release hpc
    · exact absurd h (by simp)
  | recv k =>
    simp only [step] at h
    split at h
    · next id hpc =>
        split at h
        · next data buf hbuf =>
            obtain rfl := Option.some.inj h
            exact .recv hpc hbuf
        · next hbuf =>
            obtain ⟨hclosed, h⟩ := eq_of_guard h
            obtain rfl := Option.some.inj h
            exact .recvClosed hpc hbuf hclosed
    · exact absurd h (by simp)

end Step

/-- The client after `Connect`. -/
def init : State := {}

end SolanaGo.Ws
