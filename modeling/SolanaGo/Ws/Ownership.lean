/-
Who owns which channel.

The safety of the client rests on one invariant (`Inv`). A request in the `pending`
registry has an open and empty response channel; taking it out of the registry gives
that channel to the read loop, which alone may send on it, or to `fail`, which alone
may close it. An entry in the `subs` registry has an open notification channel, and it
is there under the id of its own acknowledgement, so at most once; taking it out is
what closes the channel. After a failure both registries are empty for good.

The invariant is a condition on each call and its places in the registries and the
read loop. Every event but a failure concerns one call, and leaves the places of all
others as they are or takes them away; `Inv.update` reduces such an event to the
condition on its own call. `step_inv` puts the events together.
-/
import SolanaGo.Ws.Client

set_option autoImplicit false

namespace SolanaGo.Ws

open Codec (Bytes)
open State
open Transition (run run_preserves)

/-! ## The invariant -/

/-- The call is between its registration and its return. -/
def Pc.isOpen : Pc → Bool
  | .writing => true
  | .writeFailed _ => true
  | .waiting => true
  | .cancelled _ => true
  | _ => false

/-- The call has been through its first critical section. -/
def Pc.isStarted : Pc → Bool
  | .absent => false
  | .called => false
  | _ => true

/-- No response was sent to the call, and its channel is open. -/
structure Unanswered (call : Call) : Prop where
  resp : call.resp = none
  respClosed : call.respClosed = false
  replies : call.replies = 0

/-- `type subEntry struct`: the notification channel and the counter, and the id under
which it was registered. -/
structure Entry where
  acked : Option UInt64 := none
  buf : List Bytes := []
  closed : Bool := false
  dropped : UInt64 := 0

def Call.entry (call : Call) : Entry := ⟨call.acked, call.buf, call.closed, call.dropped⟩

/-- The entry of the call is as it was made. -/
def Unregistered (call : Call) : Prop := call.entry = {}

theorem Unregistered.acked {call : Call} (h : Unregistered call) : call.acked = none :=
  congrArg Entry.acked h

theorem Unregistered.closed {call : Call} (h : Unregistered call) : call.closed = false :=
  congrArg Entry.closed h

/-- The response that belongs to the registration of the call's entry. -/
def Answers (sonic : Sonic) (call : Call) (resp : SubResponse) : Prop :=
  call.acked = if call.subscribe ∧ resp.err = none then sonic.subID resp.result else none

/-- What holds of a call and its places in the client. -/
structure CallInv (sonic : Sonic) (s : State) (k : ℕ) (call : Call) : Prop where
  subs : ∀ id, s.subs.lookup id = some k → call.acked = some id ∧ call.closed = false
  pending : ∀ id, s.pending.lookup id = some k →
    call.id = id ∧ call.pc.isOpen = true ∧ Unanswered call ∧ Unregistered call
  sending : ∀ resp, s.loop = .sending k resp → Unanswered call ∧ Answers sonic call resp
    ∧ call.pc.isStarted = true ∧ ∀ id, s.pending.lookup id ≠ some k
  buffered : ∀ resp, call.resp = some resp → call.replies = 1 ∧ Answers sonic call resp
  fresh : call.pc.isStarted = false → Unanswered call ∧ Unregistered call
  replies : call.replies ≤ 1
  respClosed : call.respClosed = true → s.err ≠ none
  subscribed : ∀ id, call.pc = .returned (.subscribed id) → call.acked = some id

/-- **The ownership invariant.** -/
structure Inv (sonic : Sonic) (s : State) : Prop where
  calls : ∀ k, CallInv sonic s k (s.calls k)
  failed : s.err ≠ none → s.pending = ∅ ∧ s.subs = ∅
  closed : s.closed = true ↔ s.err ≠ none
  fault : s.fault = false

theorem isStarted_of_isOpen {pc : Pc} (h : pc.isOpen = true) : pc.isStarted = true := by
  cases pc <;> simp_all [Pc.isOpen, Pc.isStarted]

theorem inv_init (sonic : Sonic) : Inv sonic init := by
  refine ⟨fun k => ?_, fun h => absurd rfl h, by simp [init], rfl⟩
  constructor <;> simp [init, Unanswered.mk, Unregistered, Call.entry]

/-! ## Events of one call -/

/-- The other calls are as they were, and have no places they did not have. -/
structure Frames (k : ℕ) (s s' : State) : Prop where
  calls : ∀ j, j ≠ k → s'.calls j = s.calls j
  subs : ∀ j id, j ≠ k → s'.subs.lookup id = some j → s.subs.lookup id = some j
  pending : ∀ j id, j ≠ k → s'.pending.lookup id = some j → s.pending.lookup id = some j
  loop : ∀ j resp, j ≠ k → s'.loop = .sending j resp → s.loop = .sending j resp
  err : s'.err = s.err
  closed : s'.closed = s.closed
  fault : s'.fault = s.fault

section Update

variable {sonic : Sonic} {s s' : State} {k : ℕ}

/-- **An event of one call.** -/
theorem Inv.update (h : Inv sonic s) (hf : Frames k s s') (hk : CallInv sonic s' k (s'.calls k))
    (hfailed : s.err ≠ none → s'.pending = ∅ ∧ s'.subs = ∅) : Inv sonic s' := by
  refine ⟨fun j => ?_, ?_, ?_, hf.fault.trans h.fault⟩
  · by_cases heq : j = k
    · subst heq
      exact hk
    · obtain ⟨hsubs, hpending, hsending, hbuffered, hfresh, hreplies, hclosed, hsubscribed⟩ :=
        h.calls j
      rw [hf.calls j heq]
      refine ⟨fun id hid => hsubs id (hf.subs j id heq hid),
        fun id hid => hpending id (hf.pending j id heq hid), fun resp hresp => ?_, hbuffered, hfresh,
        hreplies, fun hc => by rw [hf.err]; exact hclosed hc, hsubscribed⟩
      obtain ⟨hun, hans, hstart, hnot⟩ := hsending resp (hf.loop j resp heq hresp)
      exact ⟨hun, hans, hstart, fun id hid => hnot id (hf.pending j id heq hid)⟩
  · rw [hf.err]
    exact hfailed
  · rw [hf.closed, hf.err]
    exact h.closed

@[simp] theorem setCall_self (s : State) (k : ℕ) (call : Call) : (s.setCall k call).calls k = call :=
  Function.update_self ..

theorem setCall_ne {s : State} {j k : ℕ} (h : j ≠ k) (call : Call) :
    (s.setCall k call).calls j = s.calls j := Function.update_of_ne h ..

/-- What is left of a registry after a deletion was in it before. -/
theorem lookup_of_erase {m : Registry} {a id : UInt64} {k : ℕ} (h : (m.erase a).lookup id = some k) :
    id ≠ a ∧ m.lookup id = some k := by
  by_cases heq : id = a
  · subst heq
    rw [AList.lookup_erase] at h
    exact absurd h (by simp)
  · rw [AList.lookup_erase_ne heq] at h
    exact ⟨heq, h⟩

/-- What is in a registry after an insertion was inserted, or in it before. -/
theorem lookup_of_insert {m : Registry} {a id : UInt64} {j k : ℕ}
    (h : (m.insert a j).lookup id = some k) :
    (id = a ∧ k = j) ∨ (id ≠ a ∧ m.lookup id = some k) := by
  by_cases heq : id = a
  · subst heq
    rw [AList.lookup_insert] at h
    exact Or.inl ⟨rfl, (Option.some.inj h).symm⟩
  · rw [AList.lookup_insert_ne heq] at h
    exact Or.inr ⟨heq, h⟩

theorem erase_empty (a : UInt64) : (∅ : Registry).erase a = ∅ := rfl

/-- A change to a call that does not touch its channels, other than by taking the
response, nor its places. -/
structure Local (s : State) (k : ℕ) (call : Call) : Prop where
  id : call.id = (s.calls k).id
  subscribe : call.subscribe = (s.calls k).subscribe
  acked : call.acked = (s.calls k).acked
  closed : call.closed = (s.calls k).closed
  respClosed : call.respClosed = (s.calls k).respClosed
  replies : call.replies = (s.calls k).replies
  resp : call.resp = (s.calls k).resp ∨ call.resp = none
  started : call.pc.isStarted = true
  stays : call.pc.isOpen = true ∨ ∀ id, s.pending.lookup id ≠ some k
  subscribed : ∀ id, call.pc = .returned (.subscribed id) → call.acked = some id
  unregistered : Unregistered (s.calls k) → Unregistered call

theorem Local.unanswered {call : Call} (hl : Local s k call) (h : Unanswered (s.calls k)) :
    Unanswered call := by
  refine ⟨?_, hl.respClosed.trans h.respClosed, hl.replies.trans h.replies⟩
  rcases hl.resp with hr | hr
  · rw [hr, h.resp]
  · exact hr

theorem Local.answers {call : Call} (hl : Local s k call) {resp : SubResponse}
    (h : Answers sonic (s.calls k) resp) : Answers sonic call resp := by
  unfold Answers at *
  rw [hl.acked, hl.subscribe]
  exact h

/-- A call goes on by itself. -/
theorem Inv.setCall (h : Inv sonic s) {call : Call} (hl : Local s k call) :
    Inv sonic (s.setCall k call) := by
  obtain ⟨hsubs, hpending, hsending, hbuffered, -, hreplies, hclosed, -⟩ := h.calls k
  refine h.update ⟨fun j hj => setCall_ne hj _, fun _ _ _ => id, fun _ _ _ => id, fun _ _ _ => id,
    rfl, rfl, rfl⟩ ?_ h.failed
  rw [setCall_self]
  refine ⟨fun id hid => ?_, fun id hid => ?_, fun resp hresp => ?_, fun resp hresp => ?_,
    fun hfresh => ?_, ?_, fun hc => ?_, hl.subscribed⟩
  · rw [hl.acked, hl.closed]
    exact hsubs id hid
  · obtain ⟨hid', -, hun, hreg⟩ := hpending id hid
    exact ⟨hl.id.trans hid', hl.stays.resolve_right fun hnot => hnot id hid, hl.unanswered hun,
      hl.unregistered hreg⟩
  · obtain ⟨hun, hans, -, hnot⟩ := hsending resp hresp
    exact ⟨hl.unanswered hun, hl.answers hans, hl.started, hnot⟩
  · rcases hl.resp with hr | hr
    · rw [hr] at hresp
      exact ⟨hl.replies.trans (hbuffered resp hresp).1, hl.answers (hbuffered resp hresp).2⟩
    · rw [hr] at hresp
      exact absurd hresp (by simp)
  · rw [hl.started] at hfresh
    exact absurd hfresh (by simp)
  · rw [hl.replies]
    exact hreplies
  · rw [hl.respClosed] at hc
    exact hclosed hc

/-- A call is made. -/
theorem Inv.request (h : Inv sonic s) (hpc : (s.calls k).pc = .absent) (reqID : UInt64)
    (method : String) (subscribe : Bool) (id : UInt64) :
    Inv sonic ({ s with reqID }.setCall k { pc := .called, method, subscribe, id }) := by
  obtain ⟨hsubs, hpending, hsending, -, hfresh, -, -, -⟩ := h.calls k
  obtain ⟨-, hreg⟩ := hfresh (by rw [hpc]; rfl)
  refine h.update ⟨fun j hj => setCall_ne hj _, fun _ _ _ h => h, fun _ _ _ h => h,
    fun _ _ _ h => h, rfl, rfl, rfl⟩ ?_ h.failed
  rw [setCall_self]
  refine ⟨fun id' hid => ?_, fun id' hid => ?_, fun resp hresp => ?_, fun resp hresp => ?_,
    fun _ => ⟨⟨rfl, rfl, rfl⟩, rfl⟩, Nat.zero_le _, fun hc => ?_, fun id' hid => ?_⟩
  · have hacked := (hsubs id' hid).1
    rw [hreg.acked] at hacked
    exact absurd hacked (by simp)
  · have hopen := (hpending id' hid).2.1
    rw [hpc] at hopen
    exact absurd hopen (by simp [Pc.isOpen])
  · have hstart := (hsending resp hresp).2.2.1
    rw [hpc] at hstart
    exact absurd hstart (by simp [Pc.isStarted])
  · exact absurd hresp (by simp)
  · exact absurd hc (by simp)
  · exact absurd hid (by simp)

/-- A request enters the registry. -/
theorem Inv.register (h : Inv sonic s) (hpc : (s.calls k).pc = .called) (herr : s.err = none) :
    Inv sonic ({ s with pending := s.pending.insert (s.calls k).id k }.setCall k
      { s.calls k with pc := .writing }) := by
  obtain ⟨hsubs, -, hsending, hbuffered, hfresh, hreplies, hclosed, -⟩ := h.calls k
  obtain ⟨hun, hreg⟩ := hfresh (by rw [hpc]; rfl)
  refine h.update ⟨fun j hj => setCall_ne hj _, fun _ _ _ => id, fun j id hj hid => ?_,
    fun _ _ _ => id, rfl, rfl, rfl⟩ ?_ fun hne => absurd herr hne
  · rcases lookup_of_insert hid with ⟨-, heq⟩ | ⟨-, hid⟩
    · exact absurd heq hj
    · exact hid
  · rw [setCall_self]
    refine ⟨hsubs, fun id hid => ?_, fun resp hresp => ?_, hbuffered, fun hs => ?_, hreplies, hclosed,
      fun id hid => ?_⟩
    · rcases lookup_of_insert hid with ⟨rfl, -⟩ | ⟨-, hid⟩
      · exact ⟨rfl, rfl, ⟨hun.resp, hun.respClosed, hun.replies⟩, hreg⟩
      · have hopen := ((h.calls k).pending id hid).2.1
        rw [hpc] at hopen
        exact absurd hopen (by simp [Pc.isOpen])
    · have hstart := (hsending resp hresp).2.2.1
      rw [hpc] at hstart
      exact absurd hstart (by simp [Pc.isStarted])
    · exact absurd hs (by simp [Pc.isStarted])
    · exact absurd hid (by simp)

/-- A request leaves the registry. -/
theorem Inv.erasePending (h : Inv sonic s) (a : UInt64) :
    Inv sonic { s with pending := s.pending.erase a } := by
  refine ⟨fun j => ?_, fun herr => ⟨by rw [(h.failed herr).1, erase_empty], (h.failed herr).2⟩,
    h.closed, h.fault⟩
  obtain ⟨hsubs, hpending, hsending, hbuffered, hfresh, hreplies, hclosed, hsubscribed⟩ := h.calls j
  refine ⟨hsubs, fun id hid => hpending id (lookup_of_erase hid).2, fun resp hresp => ?_, hbuffered,
    hfresh, hreplies, hclosed, hsubscribed⟩
  obtain ⟨hun, hans, hstart, hnot⟩ := hsending resp hresp
  exact ⟨hun, hans, hstart, fun id hid => hnot id (lookup_of_erase hid).2⟩

/-- The request of a call is in the registry under its own id only. -/
theorem Inv.erased (h : Inv sonic s) {a : UInt64} (ha : (s.calls k).id = a) (id : UInt64) :
    (s.pending.erase a).lookup id ≠ some k := by
  intro hid
  obtain ⟨hne, hlook⟩ := lookup_of_erase hid
  exact hne (((h.calls k).pending id hlook).1.symm.trans ha)

/-- A request is acknowledged or refused: it leaves the registry, its response is with the
read loop, and its entry may enter the other registry. -/
theorem Inv.reply (h : Inv sonic s) (env : Envelope) :
    Inv sonic (reply sonic s env) := by
  unfold Ws.reply
  have hbase := h.erasePending env.id
  cases hk : s.pending.lookup env.id with
  | none => exact hbase
  | some k =>
    obtain ⟨hid, hopen, hun, hreg⟩ := (h.calls k).pending env.id hk
    have hgone := h.erased hid
    have hstart := isStarted_of_isOpen hopen
    have herr : s.err = none := by
      by_contra hne
      rw [(h.failed hne).1] at hk
      exact absurd hk (by simp)
    have hpc : ∀ outcome, (s.calls k).pc ≠ .returned outcome := by
      intro outcome heq
      rw [heq] at hopen
      exact absurd hopen (by simp [Pc.isOpen])
    dsimp only
    -- the response is with the read loop either way; with an id the entry is registered too
    cases hack : ackedID sonic (s.calls k) env with
    | none =>
      refine h.update (k := k) ⟨fun _ _ => rfl, fun _ _ _ => id, fun _ _ _ hj => (lookup_of_erase hj).2,
        fun j resp hj hresp => ?_, rfl, rfl, rfl⟩ ?_ fun hne => absurd herr hne
      · exact absurd (Loop.sending.inj hresp).1.symm hj
      · refine ⟨(h.calls k).subs, fun id hj => absurd hj (hgone id), fun resp hresp => ?_,
          (h.calls k).buffered, (h.calls k).fresh, (h.calls k).replies, (h.calls k).respClosed,
          (h.calls k).subscribed⟩
        obtain ⟨-, rfl⟩ := Loop.sending.inj hresp
        refine ⟨hun, ?_, hstart, hgone⟩
        unfold Answers
        show (s.calls k).acked = _
        rw [hreg.acked]
        exact hack.symm
    | some id =>
      refine h.update (k := k) ⟨fun j hj => setCall_ne hj _, fun j id' hj hid' => ?_,
        fun _ _ _ hj => (lookup_of_erase hj).2, fun j resp hj hresp => ?_, rfl, rfl, rfl⟩ ?_
        fun hne => absurd herr hne
      · rcases lookup_of_insert hid' with ⟨-, heq⟩ | ⟨-, hid'⟩
        · exact absurd heq hj
        · exact hid'
      · exact absurd (Loop.sending.inj hresp).1.symm hj
      · unfold registerEntry
        show CallInv sonic _ k ((State.setCall _ k _).calls k)
        rw [setCall_self]
        refine ⟨fun id' hid' => ?_, fun id hj => absurd hj (hgone id), fun resp hresp => ?_,
          fun resp hresp => ?_, fun hs => ?_, (h.calls k).replies, (h.calls k).respClosed,
          fun id hid => absurd hid (hpc _)⟩
        · rcases lookup_of_insert hid' with ⟨rfl, -⟩ | ⟨-, hid'⟩
          · exact ⟨rfl, hreg.closed⟩
          · have hacked := ((h.calls k).subs id' hid').1
            rw [hreg.acked] at hacked
            exact absurd hacked (by simp)
        · obtain ⟨-, rfl⟩ := Loop.sending.inj hresp
          exact ⟨⟨hun.resp, hun.respClosed, hun.replies⟩, hack.symm, hstart, hgone⟩
        · have hnone := hun.resp
          rw [hnone] at hresp
          exact absurd hresp (by simp)
        · rw [hstart] at hs
          exact absurd hs (by simp)

/-- The read loop sends. -/
theorem Inv.send (h : Inv sonic s) {resp : SubResponse} (hloop : s.loop = .sending k resp) :
    Inv sonic ({ s with loop := .idle }.setCall k
      { s.calls k with resp := some resp, replies := (s.calls k).replies + 1 }) := by
  obtain ⟨hun, hans, hstart, hgone⟩ := (h.calls k).sending resp hloop
  refine h.update ⟨fun j hj => setCall_ne hj _, fun _ _ _ => id, fun _ _ _ => id,
    fun j resp' _ hresp => by simp [State.setCall] at hresp, rfl, rfl, rfl⟩ ?_ h.failed
  rw [setCall_self]
  refine ⟨(h.calls k).subs, fun id hj => absurd hj (hgone id), fun resp' hresp => ?_,
    fun resp' hresp => ?_, fun hs => ?_, ?_, (h.calls k).respClosed, (h.calls k).subscribed⟩
  · simp [State.setCall] at hresp
  · obtain rfl := Option.some.inj hresp
    exact ⟨by rw [hun.replies], hans⟩
  · rw [hstart] at hs
    exact absurd hs (by simp)
  · rw [hun.replies]

/-- A subscription is released: its entry leaves the registry, and its channel is
closed. -/
theorem Inv.release (h : Inv sonic s) {id : UInt64} (hpc : (s.calls k).pc = .returned (.subscribed id)) :
    Inv sonic ((releaseEntry s k id).setCall k
      { (releaseEntry s k id).calls k with released := true }) := by
  have hnot : ∀ id', s.pending.lookup id' ≠ some k := by
    intro id' hid'
    have hopen := ((h.calls k).pending id' hid').2.1
    rw [hpc] at hopen
    exact absurd hopen (by simp [Pc.isOpen])
  unfold releaseEntry
  by_cases hlook : s.subs.lookup id = some k
  · obtain ⟨hacked, hopen⟩ := (h.calls k).subs id hlook
    rw [if_pos hlook]
    unfold closeEntry
    rw [if_neg (by rw [hopen]; simp)]
    refine h.update (k := k) ⟨fun j hj => ?_, fun j id' _ hid' => (lookup_of_erase hid').2,
      fun _ _ _ h => h, fun _ _ _ h => h, rfl, rfl, rfl⟩ ?_ fun hne => ?_
    · rw [setCall_ne hj, setCall_ne hj]
    · rw [setCall_self, setCall_self]
      refine ⟨fun id' hid' => ?_, fun id' hid' => absurd hid' (hnot id'), fun resp hresp => ?_,
        (h.calls k).buffered, fun hs => ?_, (h.calls k).replies, (h.calls k).respClosed,
        (h.calls k).subscribed⟩
      · obtain ⟨hne, hid'⟩ := lookup_of_erase hid'
        have hsame := ((h.calls k).subs id' hid').1
        rw [hacked] at hsame
        exact absurd (Option.some.inj hsame).symm hne
      · obtain ⟨hun, hans, hstart, hgone⟩ := (h.calls k).sending resp hresp
        exact ⟨⟨hun.resp, hun.respClosed, hun.replies⟩, hans, hstart, hgone⟩
      · rw [hpc] at hs
        exact absurd hs (by simp [Pc.isStarted])
    · exact ⟨(h.failed hne).1, by
        show s.subs.erase id = ∅
        rw [(h.failed hne).2, erase_empty]⟩
  · rw [if_neg hlook]
    exact h.setCall ⟨rfl, rfl, rfl, rfl, rfl, rfl, Or.inl rfl, by rw [hpc]; rfl, Or.inr hnot,
      (h.calls k).subscribed, fun hreg => hreg⟩

end Update

/-! ## Failure -/

section Fail

variable {sonic : Sonic} {s : State}

/-- Being in a registry. -/
theorem mem_callsOf {m : Registry} {k : ℕ} : k ∈ callsOf m ↔ ∃ id, m.lookup id = some k := by
  unfold callsOf
  rw [List.mem_map]
  constructor
  · rintro ⟨⟨id, k'⟩, hmem, rfl⟩
    exact ⟨id, AList.mem_lookup_iff.mpr hmem⟩
  · rintro ⟨id, hid⟩
    exact ⟨⟨id, k⟩, AList.mem_lookup_iff.mp hid, rfl⟩

/-- If the calls of a registry determine their ids, none is in it twice. -/
theorem nodup_callsOf {m : Registry} {f : ℕ → Option UInt64}
    (h : ∀ id k, m.lookup id = some k → f k = some id) : (callsOf m).Nodup := by
  unfold callsOf
  refine List.Nodup.map_on ?_ m.nodupKeys.nodup
  rintro ⟨id, k⟩ hmem ⟨id', k'⟩ hmem' (rfl : k = k')
  have hid := h id k (AList.mem_lookup_iff.mpr hmem)
  have hid' := h id' k (AList.mem_lookup_iff.mpr hmem')
  rw [hid] at hid'
  rw [Option.some.inj hid']

/-- A loop over different calls that changes each of them by `f`, as long as `p` holds of
it before. -/
theorem foldl_setCall {p : Call → Prop} {f : Call → Call} {change : State → ℕ → State}
    (hchange : ∀ s k, p (s.calls k) → change s k = s.setCall k (f (s.calls k))) {ks : List ℕ}
    (hnodup : ks.Nodup) (hp : ∀ k ∈ ks, p (s.calls k)) :
    ks.foldl change s
      = { s with calls := fun k => if k ∈ ks then f (s.calls k) else s.calls k } := by
  induction ks generalizing s with
  | nil => simp
  | cons k ks ih =>
    obtain ⟨hk, hnodup⟩ := List.nodup_cons.mp hnodup
    have hrest : ∀ j ∈ ks, p ((s.setCall k (f (s.calls k))).calls j) := by
      intro j hj
      have hjk : j ≠ k := fun heq => hk (heq ▸ hj)
      rw [setCall_ne hjk]
      exact hp j (List.mem_cons_of_mem _ hj)
    rw [List.foldl_cons, hchange s k (hp k List.mem_cons_self), ih hnodup hrest]
    unfold State.setCall
    dsimp only
    congr 1
    funext j
    by_cases heq : j = k
    · subst heq
      simp [hk]
    · simp [heq]

theorem closeEntry_of_open (s : State) (k : ℕ) (h : (s.calls k).closed = false) :
    s.closeEntry k = s.setCall k { s.calls k with closed := true } := by
  unfold closeEntry
  rw [if_neg (by rw [h]; simp)]

theorem closeResp_of_open (s : State) (k : ℕ) (h : (s.calls k).respClosed = false) :
    s.closeResp k = s.setCall k { s.calls k with respClosed := true } := by
  unfold closeResp
  rw [if_neg (by rw [h]; simp)]

/-- What a failure makes of a call. -/
def failedCall (s : State) (k : ℕ) : Call :=
  let call := s.calls k
  { call with
    closed := call.closed || decide (k ∈ callsOf s.subs)
    respClosed := call.respClosed || decide (k ∈ callsOf s.pending) }

theorem failedCall_entry (s : State) (k : ℕ) : (failedCall s k).entry = { (s.calls k).entry with
    closed := (s.calls k).entry.closed || decide (k ∈ callsOf s.subs) } := rfl

/-- **What a failure does**: it closes the channels in the registries and empties them. -/
theorem Inv.fail_eq (h : Inv sonic s) (herr : s.err = none) (err : WsErr) :
    s.fail err = { s with
      err := some err, closed := true, subs := ∅, pending := ∅, calls := failedCall s } := by
  have hclosed : s.closed = false := by
    by_contra hc
    exact h.closed.mp (by simpa using hc) herr
  have hsubs : (callsOf s.subs).Nodup :=
    nodup_callsOf (f := fun k => (s.calls k).acked) fun id k hk => ((h.calls k).subs id hk).1
  have hpending : (callsOf s.pending).Nodup :=
    nodup_callsOf (f := fun k => some (s.calls k).id) fun id k hk => by
      rw [((h.calls k).pending id hk).1]
  have hopen : ∀ k ∈ callsOf s.subs, (s.calls k).closed = false := by
    intro k hk
    obtain ⟨id, hid⟩ := mem_callsOf.mp hk
    exact ((h.calls k).subs id hid).2
  have hresp : ∀ k ∈ callsOf s.pending, (s.calls k).respClosed = false := by
    intro k hk
    obtain ⟨id, hid⟩ := mem_callsOf.mp hk
    exact ((h.calls k).pending id hid).2.2.1.respClosed
  unfold State.fail
  rw [herr]
  dsimp only
  rw [foldl_setCall (p := fun c => c.closed = false) (f := fun c => { c with closed := true })
      closeEntry_of_open hsubs,
    foldl_setCall (p := fun c => c.respClosed = false) (f := fun c => { c with respClosed := true })
      closeResp_of_open hpending]
  · dsimp only
    rw [h.fault, hclosed]
    congr 1
    funext k
    unfold failedCall
    by_cases hs : k ∈ callsOf s.subs
    · by_cases hp : k ∈ callsOf s.pending
      · simp [hs, hp]
      · simp [hs, hp]
    · by_cases hp : k ∈ callsOf s.pending
      · simp [hs, hp]
      · simp [hs, hp]
  · intro k hk
    dsimp only
    split
    · exact hresp k hk
    · exact hresp k hk
  · exact hopen

/-- **Failure.** -/
theorem Inv.fail (h : Inv sonic s) (err : WsErr) : Inv sonic (s.fail err) := by
  cases herr : s.err with
  | some err' =>
    unfold State.fail
    rw [herr]
    exact h
  | none =>
    rw [h.fail_eq herr]
    refine ⟨fun k => ?_, fun _ => ⟨rfl, rfl⟩, by simp, h.fault⟩
    obtain ⟨hsubs, hpending, hsending, hbuffered, hfresh, hreplies, -, hsubscribed⟩ := h.calls k
    refine ⟨fun id hid => by simp at hid, fun id hid => by simp at hid, fun resp hresp => ?_,
      hbuffered, fun hs => ?_, hreplies, fun _ => by simp, hsubscribed⟩
    · obtain ⟨hun, hans, hstart, hnot⟩ := hsending resp hresp
      have hout : k ∉ callsOf s.pending := fun hmem => by
        obtain ⟨id, hid⟩ := mem_callsOf.mp hmem
        exact hnot id hid
      refine ⟨⟨hun.resp, ?_, hun.replies⟩, hans, hstart, fun id hid => by simp at hid⟩
      show ((s.calls k).respClosed || decide (k ∈ callsOf s.pending)) = false
      simp [hun.respClosed, hout]
    · obtain ⟨hun, hreg⟩ := hfresh hs
      have hpout : k ∉ callsOf s.pending := fun hmem => by
        obtain ⟨id, hid⟩ := mem_callsOf.mp hmem
        have hstart := isStarted_of_isOpen (hpending id hid).2.1
        exact absurd (hs.symm.trans hstart) (by simp)
      have hsout : k ∉ callsOf s.subs := fun hmem => by
        obtain ⟨id, hid⟩ := mem_callsOf.mp hmem
        exact absurd (hreg.acked.symm.trans (hsubs id hid).1) (by simp)
      refine ⟨⟨hun.resp, ?_, hun.replies⟩, ?_⟩
      · show ((s.calls k).respClosed || decide (k ∈ callsOf s.pending)) = false
        simp [hun.respClosed, hpout]
      · unfold Unregistered
        rw [failedCall_entry, hreg]
        simp [hsout]

end Fail

/-! ## Every event -/

section Step

variable {sonic : Sonic} {buffer : ℕ} {s s' : State}

variable {k : ℕ}

/-- A call whose entry was registered has started, and its request is not pending. -/
theorem Inv.of_acked (h : Inv sonic s) {id : UInt64} (hacked : (s.calls k).acked = some id) :
    (s.calls k).pc.isStarted = true ∧ ∀ id', s.pending.lookup id' ≠ some k := by
  constructor
  · by_contra hs
    have hnone := ((h.calls k).fresh (by simpa using hs)).2.acked
    exact absurd (hnone.symm.trans hacked) (by simp)
  · intro id' hid'
    have hnone := ((h.calls k).pending id' hid').2.2.2.acked
    exact absurd (hnone.symm.trans hacked) (by simp)

/-- Only the buffer and the counter of a registered entry change. -/
theorem Inv.setBuffer (h : Inv sonic s) {id : UInt64} (hacked : (s.calls k).acked = some id)
    (buf : List Bytes) (dropped : UInt64) :
    Inv sonic (s.setCall k { s.calls k with buf, dropped }) := by
  obtain ⟨hstart, hnot⟩ := h.of_acked hacked
  refine h.setCall ⟨rfl, rfl, rfl, rfl, rfl, rfl, Or.inl rfl, hstart, Or.inr hnot,
    (h.calls k).subscribed, fun hreg => ?_⟩
  exact absurd (hreg.acked.symm.trans hacked) (by simp)

/-- A notification goes to an open channel. -/
theorem Inv.notify (h : Inv sonic s) (env : Envelope) : Inv sonic (notify buffer s env) := by
  unfold Ws.notify
  cases hk : s.subs.lookup env.subscription with
  | none => exact h
  | some k =>
    obtain ⟨hacked, hopen⟩ := (h.calls k).subs _ hk
    dsimp only
    rw [if_neg (by rw [hopen]; simp)]
    split
    · exact h.setBuffer hacked _ _
    · exact h.setBuffer hacked _ _

theorem Inv.route (h : Inv sonic s) (data : Bytes) : Inv sonic (route sonic buffer s data) := by
  unfold Ws.route
  cases sonic.envelope data with
  | none => exact h
  | some env =>
    dsimp only
    split
    · exact h.notify env
    · exact h.reply env

/-- A call returns, or goes on, without touching anything else. -/
theorem Inv.setPc (h : Inv sonic s) {pc : Pc} (hstart : pc.isStarted = true)
    (hstays : pc.isOpen = true ∨ ∀ id, s.pending.lookup id ≠ some k)
    (hsubscribed : ∀ id, pc = .returned (.subscribed id) → (s.calls k).acked = some id) :
    Inv sonic (s.setCall k { s.calls k with pc }) :=
  h.setCall ⟨rfl, rfl, rfl, rfl, rfl, rfl, Or.inl rfl, hstart, hstays, hsubscribed, fun hreg => hreg⟩

/-- The request of a call that has not been through its first critical section is not
pending. -/
theorem Inv.not_pending (h : Inv sonic s) (hpc : (s.calls k).pc.isOpen = false) (id : UInt64) :
    s.pending.lookup id ≠ some k := by
  intro hid
  have hopen := ((h.calls k).pending id hid).2.1
  exact absurd (hpc.symm.trans hopen) (by simp)

/-- Behind a failure a call returns with the error of the client. -/
theorem settle_errResult {call : Call} {err : WsErr} (herr : s.err = some err) :
    settle sonic call (errResult s) = .failed err := by
  unfold errResult
  rw [herr]
  rfl

/-- Behind a failure a call returns. -/
theorem Inv.returnErr (h : Inv sonic s) (herr : s.err ≠ none) :
    Inv sonic (s.setCall k { s.calls k with
      pc := .returned (settle sonic (s.calls k) (errResult s)) }) := by
  obtain ⟨err, hsome⟩ := Option.ne_none_iff_exists'.mp herr
  refine h.setPc rfl (Or.inr fun id => ?_) fun id hid => ?_
  · rw [(h.failed herr).1]
    simp
  · rw [settle_errResult hsome] at hid
    exact absurd hid (by simp)

/-- The read loop ends. -/
theorem Inv.stop (h : Inv sonic s) : Inv sonic { s with loop := .stopped } := by
  refine ⟨fun k => ?_, h.failed, h.closed, h.fault⟩
  obtain ⟨hsubs, hpending, -, hbuffered, hfresh, hreplies, hclosed, hsubscribed⟩ := h.calls k
  exact ⟨hsubs, hpending, fun resp hresp => absurd hresp (by simp), hbuffered, hfresh, hreplies,
    hclosed, hsubscribed⟩

/-- A response that registered no entry makes no subscription, and one that did makes the
subscription of that entry. -/
theorem settle_respResult {call : Call} {resp : SubResponse} {id : UInt64}
    (hans : Answers sonic call resp)
    (h : settle sonic call (respResult call resp) = .subscribed id) : call.acked = some id := by
  unfold Answers at hans
  unfold respResult at h
  cases herr : resp.err with
  | some err =>
    rw [herr] at h
    exact absurd h (by simp [settle])
  | none =>
    rw [herr] at h hans
    unfold settle at h
    dsimp only at h
    by_cases hsub : call.subscribe = true
    · rw [if_pos ⟨hsub, rfl⟩] at hans
      rw [if_pos hsub] at h
      cases hid : sonic.subID resp.result with
      | none =>
        rw [hid] at h
        exact absurd h (by simp)
      | some id' =>
        rw [hid] at h hans
        rw [hans, Outcome.subscribed.inj h]
    · rw [if_neg hsub] at h
      exact absurd h (by simp)

/-- A call takes its response. -/
theorem Inv.receive (h : Inv sonic s) {resp : SubResponse} (hresp : (s.calls k).resp = some resp) :
    Inv sonic (s.setCall k { s.calls k with
      resp := none
      pc := .returned (settle sonic (s.calls k) (respResult (s.calls k) resp)) }) := by
  refine h.setCall ⟨rfl, rfl, rfl, rfl, rfl, rfl, Or.inr rfl, rfl, Or.inr fun id hid => ?_,
    fun id hid => ?_, fun hreg => hreg⟩
  · have hnone := ((h.calls k).pending id hid).2.2.1.resp
    exact absurd (hnone.symm.trans hresp) (by simp)
  · exact settle_respResult ((h.calls k).buffered resp hresp).2 (Pc.returned.inj hid)

/-- **Every event preserves the invariant.** -/
theorem step_inv {event : Event} (h : Inv sonic s) (hstep : step sonic buffer s event = some s') :
    Inv sonic s' := by
  cases steps_of_step hstep with
  | request hpc => exact h.request hpc _ _ _ _
  | marshalError hpc => exact h.setPc rfl (Or.inr (h.not_pending (by rw [hpc]; rfl))) (by simp)
  | refused hpc herr => exact h.setPc rfl (Or.inr (h.not_pending (by rw [hpc]; rfl))) (by simp)
  | register hpc herr => exact h.register hpc herr
  | wrote hpc => exact h.setPc rfl (Or.inl rfl) (by simp)
  | writeError hpc => exact h.setPc rfl (Or.inl rfl) (by simp)
  | receive hpc hresp => exact h.receive hresp
  | @receiveClosed k hpc hclosed => exact h.returnErr ((h.calls k).respClosed hclosed)
  | cancel hpc => exact h.setPc rfl (Or.inl rfl) (by simp)
  | observeClosed hpc hclosed => exact h.returnErr (h.closed.mp hclosed)
  | abandonWrite hpc => exact (h.erasePending _).setPc rfl (Or.inr (h.erased rfl)) (by simp)
  | abandonCancel hpc => exact (h.erasePending _).setPc rfl (Or.inr (h.erased rfl)) (by simp)
  | frame hloop => exact h.route _
  | @sendClosed k resp hloop hclosed =>
    -- the channel is with the read loop, so `fail` did not close it
    have hopen := ((h.calls k).sending resp hloop).1.respClosed
    exact absurd (hopen.symm.trans hclosed) (by simp)
  | send hloop => exact h.send hloop
  | readError hloop => exact (h.fail _).stop
  | close => exact h.fail _
  | release hpc => exact h.release hpc
  | @recv k id data buf hpc hbuf => exact h.setBuffer ((h.calls k).subscribed id hpc) _ _
  | recvClosed hpc hbuf hclosed => exact h

/-- **The invariant holds in every run.** -/
theorem run_inv {events : List Event} (hrun : run (step sonic buffer) init events = some s) :
    Inv sonic s := run_preserves step_inv (inv_init sonic) hrun

/-! ## Failure is final -/

theorem route_err (data : Bytes) : (route sonic buffer s data).err = s.err := by
  unfold Ws.route
  cases sonic.envelope data with
  | none => rfl
  | some env =>
    dsimp only
    split
    · unfold Ws.notify
      cases s.subs.lookup env.subscription with
      | none => rfl
      | some k =>
        dsimp only
        split
        · rfl
        · split
          · rfl
          · rfl
    · unfold Ws.reply
      cases s.pending.lookup env.id with
      | none => rfl
      | some k =>
        dsimp only
        unfold registerEntry
        cases ackedID sonic (s.calls k) env with
        | none => rfl
        | some id => rfl

theorem fail_err {err : WsErr} (herr : s.err = some err) (err' : WsErr) : s.fail err' = s := by
  unfold State.fail
  rw [herr]

theorem releaseEntry_err (k : ℕ) (id : UInt64) : (releaseEntry s k id).err = s.err := by
  unfold releaseEntry
  split
  · unfold closeEntry
    split
    · rfl
    · rfl
  · rfl

/-- The client keeps its first error. -/
theorem step_err {event : Event} {err : WsErr} (herr : s.err = some err)
    (hstep : step sonic buffer s event = some s') : s'.err = some err := by
  cases steps_of_step hstep with
  | frame hloop => exact (route_err _).trans herr
  | readError hloop =>
    rw [fail_err herr]
    exact herr
  | close =>
    rw [fail_err herr]
    exact herr
  | @release k id hpc => exact (releaseEntry_err k id).trans herr
  | _ => exact herr

/-! ## Channel safety -/

/-- The send of the read loop can go on: the one place of the channel is free. -/
theorem Inv.send_enabled (h : Inv sonic s) {resp : SubResponse} (hloop : s.loop = .sending k resp) :
    ∃ s', step sonic buffer s .send = some s' ∧ s'.loop = .idle := by
  obtain ⟨hun, -, -, -⟩ := (h.calls k).sending resp hloop
  refine ⟨{ s with loop := .idle }.setCall k
    { s.calls k with resp := some resp, replies := (s.calls k).replies + 1 }, ?_, rfl⟩
  simp only [step]
  rw [hloop]
  dsimp only
  rw [if_neg (by rw [hun.respClosed]; simp), if_neg (by rw [hun.resp]; simp)]

/-- **Channel safety.** Whatever the order of events, no channel is closed twice and
nothing is sent on a closed one; the send of the read loop can always go on; no request
gets two responses; and after a failure the registries are empty for good. -/
theorem run_safe {events : List Event} (hrun : run (step sonic buffer) init events = some s) :
    s.fault = false
      ∧ (∀ k resp, s.loop = .sending k resp →
        ∃ s', step sonic buffer s .send = some s' ∧ s'.loop = .idle ∧ s'.fault = false)
      ∧ (∀ k, (s.calls k).replies ≤ 1)
      ∧ (s.err ≠ none → ∀ later s', run (step sonic buffer) s later = some s' →
        s'.pending = ∅ ∧ s'.subs = ∅) := by
  have h := run_inv hrun
  refine ⟨h.fault, fun k resp hloop => ?_, fun k => (h.calls k).replies,
    fun herr later s' hlater => ?_⟩
  · have hsend : ∃ s', step sonic buffer s .send = some s' ∧ s'.loop = .idle :=
      h.send_enabled hloop
    obtain ⟨s', hstep, hidle⟩ := hsend
    exact ⟨s', hstep, hidle, (step_inv h hstep).fault⟩
  · obtain ⟨err, hsome⟩ := Option.ne_none_iff_exists'.mp herr
    have hinv : Inv sonic s' ∧ s'.err = some err :=
      run_preserves (I := fun t => Inv sonic t ∧ t.err = some err)
        (fun hi hs => ⟨step_inv hi.1 hs, step_err hi.2 hs⟩) ⟨h, hsome⟩ hlater
    exact hinv.1.failed (by rw [hinv.2]; simp)

end Step

/-! ## A short session -/

/-- The text `{"id":1,"result":7}`. -/
def firstAck : Bytes :=
  [123, 34, 105, 100, 34, 58, 49, 44, 34, 114, 101, 115, 117, 108, 116, 34, 58, 55, 125]

/-- The text `{"id":2,"result":7}`. -/
def secondAck : Bytes :=
  [123, 34, 105, 100, 34, 58, 50, 44, 34, 114, 101, 115, 117, 108, 116, 34, 58, 55, 125]

/-- The text `{"method":"m","params":{"subscription":7,"result":5}}`. -/
def firstNote : Bytes :=
  [123, 34, 109, 101, 116, 104, 111, 100, 34, 58, 34, 109, 34, 44, 34, 112, 97, 114, 97, 109,
   115, 34, 58, 123, 34, 115, 117, 98, 115, 99, 114, 105, 112, 116, 105, 111, 110, 34, 58, 55,
   44, 34, 114, 101, 115, 117, 108, 116, 34, 58, 53, 125, 125]

/-- The text `{"method":"m","params":{"subscription":7,"result":6}}`. -/
def secondNote : Bytes :=
  [123, 34, 109, 101, 116, 104, 111, 100, 34, 58, 34, 109, 34, 44, 34, 112, 97, 114, 97, 109,
   115, 34, 58, 123, 34, 115, 117, 98, 115, 99, 114, 105, 112, 116, 105, 111, 110, 34, 58, 55,
   44, 34, 114, 101, 115, 117, 108, 116, 34, 58, 54, 125, 125]

/-- The decoder on these four messages, and on the result they carry. -/
def sessionSonic : Sonic where
  envelope data :=
    [(firstAck, { id := 1, result := [55] }), (secondAck, { id := 2, result := [55] }),
      (firstNote, { method := "m", subscription := 7, notification := [53] }),
      (secondNote, { method := "m", subscription := 7, notification := [54] })].lookup data
  subID result := if result = [55] then some 7 else none

/-- A client is closed while the read loop is about to send the response of a
subscription. -/
theorem run_safe_session : ∃ s,
    run (step sessionSonic 1) init
      [.request 0 "logsSubscribe" true, .register 0, .wrote 0, .frame firstAck, .close] = some s
    ∧ s.err ≠ none ∧ s.loop = .sending 0 ⟨[55], none⟩ ∧ s.fault = false
    ∧ (∃ s', step sessionSonic 1 s .send = some s' ∧ s'.loop = .idle ∧ s'.fault = false)
    ∧ (∀ k, (s.calls k).replies ≤ 1)
    ∧ ∀ later s', run (step sessionSonic 1) s later = some s' → s'.pending = ∅ ∧ s'.subs = ∅ := by
  have hsession : (run (step sessionSonic 1) init
      [.request 0 "logsSubscribe" true, .register 0, .wrote 0, .frame firstAck, .close]).map
        (fun s => (s.err, s.loop))
      = some (some .subscriptionClosed, .sending 0 ⟨[55], none⟩) := by decide +kernel
  obtain ⟨s, hrun, hs⟩ := Option.map_eq_some_iff.mp hsession
  obtain ⟨herr, hloop⟩ := Prod.mk.inj hs
  have herr : s.err ≠ none := by
    rw [herr]
    simp
  obtain ⟨hfault, hsend, hreplies, hempty⟩ := run_safe hrun
  exact ⟨s, hrun, herr, hloop, hfault, hsend _ _ hloop, hreplies, hempty herr⟩

end SolanaGo.Ws
