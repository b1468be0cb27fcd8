/-
  Dshare.Session.Refusal
  ──────────────────────
  **A PEER THAT SENDS ANYTHING.**

  `handle_peer` in one role.  The peer is whatever puts bytes on the wire: it may
  accept, refuse, do both or neither, before, between or after its input.  A log
  keeps the order of what the task sends in the handshake, of what `next` returns,
  and of what becomes of input.

    • `LogOk` — the handshake stands in front of everything the loops do;
    • `PeerInv` — what is forwarded is what the capture side hands over, and what
      is handled is what was read behind the `Hello`.
-/
import Mathlib.Tactic.Common
import Dshare.Session.Agreement
import Dshare.Session.EndToEnd

namespace Dshare.Session

open Transition Dshare.Protocol Dshare.Input

/-! ## §1. The task and its log. -/

inductive PeerEvent where
  /-- Sent in the handshake. -/
  | sent (msg : Message)
  /-- Returned by `next`. -/
  | received (msg : Message)
  /-- Handed to `sink.send` by the server's loop. -/
  | forwarded (msg : Message)
  /-- Passed to `inj.handle` by the client's loop. -/
  | handled (msg : Message)
  deriving DecidableEq

structure PeerTask (δ : Type) where
  phase : Phase
  framed : Framed
  /-- Used by the server. -/
  capture : Capture
  /-- Used by the client. -/
  device : δ
  log : List PeerEvent

inductive PeerAction where
  /-- The socket delivers what the peer sent. -/
  | deliver (bytes : List UInt8)
  | eof
  /-- The five seconds are over. -/
  | timeout
  /-- The next message of the handshake. -/
  | send (fault : Option Fault)
  /-- `framed.next()`, and `source.next()` after the split. -/
  | next
  | hook (call : HookCall)
  | captureRecv
  | forward (fault : Option Fault)
  /-- `cap_rx.recv()` yields `None`. -/
  | captureClosed

variable {δ : Type} (role : Role) (own : Hello) (backend : InputInject δ)

/-- What a result of `next` leaves in the log. -/
def Polled.seen : Polled → List PeerEvent
  | .item msg => [.received msg]
  | _ => []

/-- `next`, and in the client's loop the backend. -/
def PeerTask.receive (p : PeerTask δ) : Option (PeerTask δ) :=
  match role with
  | .server =>
      -- `select!` takes no other branch until the one it took is done
      if p.capture.inHand.isSome then none
      else
        (serverReceive own p.phase p.framed).map fun r =>
          { p with phase := r.1, framed := r.2, log := p.log ++ p.framed.next.1.seen }
  | .client =>
      (Client.receive own backend ⟨p.phase, p.framed, p.device, []⟩).map fun c =>
        { p with
          phase := c.phase
          framed := c.framed
          device := c.device
          log := p.log ++ p.framed.next.1.seen ++ c.handled.map PeerEvent.handled }

/-- A step of the capture side, while the server's loop is running. -/
def PeerTask.captureStep (p : PeerTask δ) (a : CaptureAction) : Option (PeerTask δ) :=
  match role, p.phase with
  | .server, .session _ => (p.capture.step a).map fun c => { p with capture := c }
  | _, _ => none

/-- The flag has been read for a message: send it, or forget it. -/
def PeerTask.forward (p : PeerTask δ) (msg : Message) (fault : Option Fault) : PeerTask δ :=
  if p.capture.hook.grabbed then
    match (sendFrame msg fault).1 with
    | .ok () => { p with log := p.log ++ [.forwarded msg] }
    | .error _ => { p with phase := .ended, log := p.log ++ [.forwarded msg] }
  else p

def PeerTask.step (p : PeerTask δ) : PeerAction → Option (PeerTask δ)
  | .deliver bytes =>
      if p.framed.eof then none else some { p with framed := p.framed.arrive bytes }
  | .eof => some { p with framed := { p.framed with eof := true } }
  | .timeout =>
      match p.phase with
      | .awaitHello => some { p with phase := .failed .timeout }
      | _ => none
  | .send fault =>
      (p.phase.outgoing own).map fun msg =>
        match (sendFrame msg fault).1 with
        | .ok () => { p with phase := p.phase.sent own, log := p.log ++ [.sent msg] }
        | .error e => { p with phase := p.phase.sendFailed own e }
  | .next => p.receive role own backend
  | .hook call => p.captureStep role (.hook call)
  | .captureRecv => p.captureStep role .recv
  | .forward fault =>
      match p.capture.inHand with
      | some msg => (p.captureStep role .forward).map fun p => p.forward msg fault
      | none => none
  | .captureClosed =>
      match role, p.phase, p.capture.inHand, p.capture.hook.sender.items with
      | .server, .session _, none, [] => some { p with phase := .ended }
      | _, _, _, _ => none

def PeerTask.new (device : δ) : PeerTask δ := ⟨.hello, ⟨[], false⟩, .new, device, []⟩

def peerSystem (device : δ) : System (PeerTask δ) PeerAction :=
  ⟨.new device, PeerTask.step role own backend⟩

/-! ## §2. What the log says. -/

def PeerEvent.received? : PeerEvent → Option Message
  | .received msg => some msg
  | _ => none

def PeerEvent.forwarded? : PeerEvent → Option Message
  | .forwarded msg => some msg
  | _ => none

def PeerEvent.handled? : PeerEvent → Option Message
  | .handled msg => some msg
  | _ => none

/-- Done by one of the two loops. -/
def PeerEvent.acts : PeerEvent → Bool
  | .forwarded _ => true
  | .handled _ => true
  | _ => false

/-- The peer's messages, in the order in which they were read. -/
def receivedOf (log : List PeerEvent) : List Message := log.filterMap PeerEvent.received?

def forwardedOf (log : List PeerEvent) : List Message := log.filterMap PeerEvent.forwarded?

def handledOf (log : List PeerEvent) : List Message := log.filterMap PeerEvent.handled?

theorem receivedOf_append (log more : List PeerEvent) :
    receivedOf (log ++ more) = receivedOf log ++ receivedOf more := List.filterMap_append

theorem forwardedOf_append (log more : List PeerEvent) :
    forwardedOf (log ++ more) = forwardedOf log ++ forwardedOf more := List.filterMap_append

theorem handledOf_append (log more : List PeerEvent) :
    handledOf (log ++ more) = handledOf log ++ handledOf more := List.filterMap_append

/-- The part of an action the capture side takes. -/
def PeerAction.onCapture : PeerAction → Option CaptureAction
  | .hook call => some (.hook call)
  | .captureRecv => some .recv
  | .forward _ => some .forward
  | _ => none

/-! ## §3. What a step can do. -/

variable {role own backend}

variable (role backend) in
/-- The loop of the role, on a message that `source.next()` returned. -/
def PeerTask.took (p : PeerTask δ) (msg : Message) (f : Framed) : PeerTask δ :=
  match role with
  | .server => { p with framed := f, log := p.log ++ [.received msg] }
  | .client =>
      { p with
        framed := f
        device := (backend.handle p.device msg).2
        log := p.log ++ [.received msg, .handled msg] }

/-- The answers to the first result of `next`. -/
theorem onFirst_cases {polled : Polled} {phase : Phase}
    (h : Phase.onFirst own polled = some phase) :
    (∃ msg, polled = .item msg ∧ phase = onPeerMsg own msg)
      ∨ (polled.seen = [] ∧ ∃ e, phase = .failed e) := by
  cases polled with
  | pending => cases h
  | ended => exact .inr ⟨rfl, _, (Option.some.inj h).symm⟩
  | error e => exact .inr ⟨rfl, _, (Option.some.inj h).symm⟩
  | item msg => exact .inl ⟨msg, rfl, (Option.some.inj h).symm⟩

/-- Both roles look at the first frame in the same way. -/
theorem PeerTask.receive_first {p p' : PeerTask δ} (hp : p.phase = .awaitHello)
    (h : p.receive role own backend = some p') :
    ∃ phase, Phase.onFirst own p.framed.next.1 = some phase
      ∧ p' = { p with
          phase := phase
          framed := p.framed.next.2
          log := p.log ++ p.framed.next.1.seen } := by
  unfold PeerTask.receive at h
  obtain ⟨polled, f, hnext⟩ : ∃ polled f, p.framed.next = (polled, f) := ⟨_, _, rfl⟩
  rw [hnext] at h ⊢
  cases role with
  | server =>
      simp only [serverReceive, hp, hnext] at h
      split at h
      next => cases h
      next =>
        obtain ⟨r, hr, rfl⟩ := Option.map_eq_some_iff.mp h
        obtain ⟨phase, hphase, rfl⟩ := Option.map_eq_some_iff.mp hr
        exact ⟨phase, hphase, rfl⟩
  | client =>
      obtain ⟨c, hc, rfl⟩ := Option.map_eq_some_iff.mp h
      rw [Client.receive_awaiting (by exact hp) hnext] at hc
      obtain ⟨phase, hphase, rfl⟩ := Option.map_eq_some_iff.mp hc
      exact ⟨phase, hphase, by rw [List.map_nil, List.append_nil]⟩

/-- The loop takes a message, or it ends. -/
theorem PeerTask.receive_session {p p' : PeerTask δ} {peer : Hello} (hp : p.phase = .session peer)
    (h : p.receive role own backend = some p') :
    (∃ msg, p' = p.took role backend msg p.framed.next.2)
      ∨ p' = { p with phase := .ended, framed := p.framed.next.2 } := by
  unfold PeerTask.receive at h
  obtain ⟨polled, f, hnext⟩ : ∃ polled f, p.framed.next = (polled, f) := ⟨_, _, rfl⟩
  rw [hnext] at h ⊢
  cases role with
  | server =>
      simp only [serverReceive, hp, hnext] at h
      split at h
      next => cases h
      next =>
        cases polled with
        | pending => cases h
        | item msg => cases h; exact .inl ⟨msg, by rw [← hp]; rfl⟩
        | ended => cases h; exact .inr (by simp [Polled.seen])
        | error e => cases h; exact .inr (by simp [Polled.seen])
  | client =>
      obtain ⟨c, hc, rfl⟩ := Option.map_eq_some_iff.mp h
      cases polled with
      | pending =>
          rw [Client.receive_pending (by exact hp) hnext] at hc
          cases hc
      | item msg =>
          rw [Client.receive_item (by exact hp) hnext] at hc
          cases hc
          exact .inl ⟨msg, by simp [PeerTask.took, Polled.seen]⟩
      | ended =>
          rw [Client.receive_end (by exact hp) hnext (.inl rfl)] at hc
          cases hc
          exact .inr (by simp [Polled.seen])
      | error e =>
          rw [Client.receive_end (by exact hp) hnext (.inr ⟨e, rfl⟩)] at hc
          cases hc
          exact .inr (by simp [Polled.seen])

/-- The capture side moves while the server's loop is running. -/
theorem PeerTask.captureStep_cases {p p' : PeerTask δ} {a : CaptureAction}
    (h : p.captureStep role a = some p') :
    ∃ peer c, role = .server ∧ p.phase = .session peer ∧ p.capture.step a = some c
      ∧ p' = { p with capture := c } := by
  unfold PeerTask.captureStep at h
  split at h
  next peer hp =>
    obtain ⟨c, hc, rfl⟩ := Option.map_eq_some_iff.mp h
    exact ⟨peer, c, rfl, hp, hc, rfl⟩
  next => cases h

/-- With the flag on, the message is handed to `sink.send`, and the loop may end. -/
theorem PeerTask.forward_cases (p : PeerTask δ) (msg : Message) (fault : Option Fault) :
    (p.capture.hook.grabbed = false ∧ p.forward msg fault = p)
      ∨ (p.capture.hook.grabbed = true ∧ ∃ phase, (phase = p.phase ∨ phase = .ended)
        ∧ p.forward msg fault = { p with phase := phase, log := p.log ++ [.forwarded msg] }) := by
  unfold PeerTask.forward
  cases p.capture.hook.grabbed with
  | false => exact .inl ⟨rfl, rfl⟩
  | true =>
      refine .inr ⟨rfl, ?_⟩
      rw [if_pos rfl]
      cases (sendFrame msg fault).1 with
      | ok _ => exact ⟨p.phase, .inl rfl, rfl⟩
      | error _ => exact ⟨.ended, .inr rfl, rfl⟩

/-- **What a step of the task does**, action by action, with what it asks for. -/
theorem PeerTask.step_cases {p p' : PeerTask δ} {a : PeerAction}
    (h : p.step role own backend a = some p') :
    match a with
    | .deliver bytes => p.framed.eof = false ∧ p' = { p with framed := p.framed.arrive bytes }
    | .eof => p' = { p with framed := { p.framed with eof := true } }
    | .timeout => p.phase = .awaitHello ∧ p' = { p with phase := .failed .timeout }
    | .send _ => ∃ msg, p.phase.outgoing own = some msg
        ∧ (p' = { p with phase := p.phase.sent own, log := p.log ++ [.sent msg] }
          ∨ ∃ e, p' = { p with phase := p.phase.sendFailed own e })
    | .next => p.receive role own backend = some p'
    | .hook call => p.captureStep role (.hook call) = some p'
    | .captureRecv => p.captureStep role .recv = some p'
    | .forward fault => ∃ peer msg c, role = .server ∧ p.phase = .session peer
        ∧ p.capture.inHand = some msg ∧ p.capture.step .forward = some c
        ∧ p' = PeerTask.forward { p with capture := c } msg fault
    | .captureClosed => ∃ peer, role = .server ∧ p.phase = .session peer
        ∧ p.capture.inHand = none ∧ p.capture.hook.sender.items = []
        ∧ p' = { p with phase := .ended } := by
  cases a with
  | deliver bytes =>
      obtain ⟨hopen, hs⟩ := Option.ite_none_left_eq_some.mp h
      exact ⟨by simpa using hopen, (Option.some.inj hs).symm⟩
  | eof => exact (Option.some.inj h).symm
  | timeout =>
      simp only [PeerTask.step] at h
      split at h
      next hp => exact ⟨hp, (Option.some.inj h).symm⟩
      next => cases h
  | send fault =>
      obtain ⟨msg, hout, rfl⟩ := Option.map_eq_some_iff.mp h
      refine ⟨msg, hout, ?_⟩
      cases (sendFrame msg fault).1 with
      | ok _ => exact .inl rfl
      | error e => exact .inr ⟨e, rfl⟩
  | next | hook call | captureRecv => exact h
  | forward fault =>
      simp only [PeerTask.step] at h
      split at h
      next msg hhand =>
        obtain ⟨q, hq, rfl⟩ := Option.map_eq_some_iff.mp h
        obtain ⟨peer, c, hrole, hp, hc, rfl⟩ := PeerTask.captureStep_cases hq
        exact ⟨peer, msg, c, hrole, hp, hhand, hc, rfl⟩
      next => cases h
  | captureClosed =>
      simp only [PeerTask.step] at h
      split at h
      next peer hp hhand hitems _ =>
        exact ⟨peer, rfl, hp, hhand, hitems, (Option.some.inj h).symm⟩
      next => cases h

/-! ## §4. The handshake stands in front. -/

/-- Our `Hello`, the peer's, and our acceptance. -/
def opening (own peer : Hello) : List PeerEvent :=
  [.sent (.hello own), .received (.hello peer), .sent (.helloAck true none)]

variable (own) in
/-- The log begins with a handshake between equal versions, accepted by us. -/
def Opened (log : List PeerEvent) : Prop :=
  ∃ peer, peer.protocolVersion = own.protocolVersion ∧ opening own peer <+: log

variable (own) in
/-- The log, phase by phase. -/
def LogOk (log : List PeerEvent) : Phase → Prop
  | .hello => log = []
  | .awaitHello => log = [.sent (.hello own)]
  | .refuse peer => log = [.sent (.hello own), .received (.hello peer)]
  | .accept peer => peer.protocolVersion = own.protocolVersion
      ∧ log = [.sent (.hello own), .received (.hello peer)]
  | .session _ => Opened own log
  | .failed _ => ∀ e ∈ log, e.acts = false
  | .ended => Opened own log

theorem Opened.append {log : List PeerEvent} (h : Opened own log) (more : List PeerEvent) :
    Opened own (log ++ more) := by
  obtain ⟨peer, hv, hpre⟩ := h
  exact ⟨peer, hv, hpre.trans (List.prefix_append log more)⟩

theorem Opened.received {log : List PeerEvent} (h : Opened own log) : receivedOf log ≠ [] := by
  obtain ⟨peer, _, more, rfl⟩ := h
  exact List.cons_ne_nil _ _

/-- Before the loops, nothing has been done with input. -/
theorem LogOk.quiet {log : List PeerEvent} {phase : Phase} (h : LogOk own log phase)
    (hearly : ∀ peer, phase ≠ .session peer) (hended : phase ≠ .ended) :
    ∀ e ∈ log, e.acts = false := by
  cases phase with
  | hello => rw [show log = [] from h]; simp
  | awaitHello => rw [show log = _ from h]; simp [PeerEvent.acts]
  | refuse peer => rw [show log = _ from h]; simp [PeerEvent.acts]
  | accept peer => rw [show log = _ from h.2]; simp [PeerEvent.acts]
  | session peer => exact absurd rfl (hearly peer)
  | failed e => exact h
  | ended => exact absurd rfl hended

theorem LogOk.quiet_or_opened {log : List PeerEvent} {phase : Phase} (h : LogOk own log phase) :
    (∀ e ∈ log, e.acts = false) ∨ Opened own log := by
  cases phase with
  | session peer => exact .inr h
  | ended => exact .inr h
  | _ => exact .inl (h.quiet nofun nofun)

/-- A phase with something to send is in front of the loops. -/
theorem LogOk.quiet_of_outgoing {log : List PeerEvent} {phase : Phase} {msg : Message}
    (h : LogOk own log phase) (hout : phase.outgoing own = some msg) :
    ∀ e ∈ log, e.acts = false := by
  apply h.quiet
  · intro peer hp
    rw [hp] at hout
    cases hout
  · intro hp
    rw [hp] at hout
    cases hout

/-- A message of the handshake has been sent. -/
theorem LogOk.sent {log : List PeerEvent} {phase : Phase} {msg : Message}
    (h : LogOk own log phase) (hout : phase.outgoing own = some msg) :
    LogOk own (log ++ [.sent msg]) (phase.sent own) := by
  have hquiet := h.quiet_of_outgoing hout
  cases phase with
  | hello =>
      cases hout
      rw [show log = [] from h]
      exact rfl
  | refuse peer =>
      intro e he
      rcases List.mem_append.mp he with hold | hnew
      · exact hquiet e hold
      · rw [List.mem_singleton.mp hnew]
        rfl
  | accept peer =>
      cases hout
      -- our acceptance completes the handshake
      obtain ⟨hv, rfl⟩ := h
      exact ⟨peer, hv, List.prefix_rfl⟩
  | _ => cases hout

/-- The first frame has been read. -/
theorem LogOk.first {log : List PeerEvent} (h : LogOk own log .awaitHello) (msg : Message) :
    LogOk own (log ++ [.received msg]) (onPeerMsg own msg) := by
  rw [show log = [.sent (.hello own)] from h]
  rcases onPeerMsg_cases own msg with ⟨peer, rfl, _, he⟩ | ⟨peer, rfl, hv, he⟩ | ⟨_, he⟩
  · rw [he]
    exact rfl
  · rw [he]
    exact ⟨hv, rfl⟩
  · rw [he]
    show ∀ e ∈ [PeerEvent.sent (.hello own), .received msg], e.acts = false
    simp [PeerEvent.acts]

/-! ## §5. What is done with input. -/

/-- The messages a role handles, of all it has read. -/
def Role.handles : Role → List Message → List Message
  | .server, _ => []
  | .client, msgs => msgs.tail

variable (role own backend) in
structure PeerInv (device : δ) (as : List PeerAction) (p : PeerTask δ) : Prop where
  log : LogOk own p.log p.phase
  /-- The capture side is driven by its own actions. -/
  capture : captureSystem.run .new (as.filterMap PeerAction.onCapture) = some p.capture
  /-- A client captures nothing. -/
  client : role = .client → p.capture = .new
  forwarded : forwardedOf p.log = p.capture.handed
  handled : handledOf p.log = role.handles (receivedOf p.log)
  device : p.device = (handledOf p.log).foldl (fun d msg => (backend.handle d msg).2) device

theorem PeerInv.new (device : δ) : PeerInv role own backend device [] (.new device) where
  log := rfl
  capture := rfl
  client := fun _ => rfl
  forwarded := rfl
  handled := by cases role <;> rfl
  device := rfl

/-- An action that the capture side takes no part in. -/
theorem run_onCapture_none {as : List PeerAction} {a : PeerAction} (ha : a.onCapture = none) :
    (as ++ [a]).filterMap PeerAction.onCapture = as.filterMap PeerAction.onCapture := by
  rw [List.filterMap_append, List.filterMap_cons_none ha, List.filterMap_nil, List.append_nil]

/-- A step that does nothing with input. -/
theorem PeerInv.idle {device : δ} {as : List PeerAction} {a : PeerAction} {p : PeerTask δ}
    (h : PeerInv role own backend device as p) (ha : a.onCapture = none) {phase : Phase}
    {framed : Framed} {log : List PeerEvent} (hlog : LogOk own log phase)
    (hf : forwardedOf log = forwardedOf p.log) (hh : handledOf log = handledOf p.log)
    (hr : role.handles (receivedOf log) = role.handles (receivedOf p.log)) :
    PeerInv role own backend device (as ++ [a])
      { p with phase := phase, framed := framed, log := log } where
  log := hlog
  capture := by
    rw [run_onCapture_none ha]
    exact h.capture
  client := h.client
  forwarded := hf.trans h.forwarded
  handled := by
    show handledOf log = role.handles (receivedOf log)
    rw [hh, hr]
    exact h.handled
  device := by
    show p.device = (handledOf log).foldl _ device
    rw [hh]
    exact h.device

/-- A message read in the loop. -/
theorem PeerInv.took {device : δ} {as : List PeerAction} {p : PeerTask δ}
    (h : PeerInv role own backend device as p) (hopened : Opened own p.log) (msg : Message)
    (f : Framed) (hphase : ∀ log, Opened own log → LogOk own log p.phase) :
    PeerInv role own backend device (as ++ [.next]) (p.took role backend msg f) := by
  cases role with
  | server =>
      refine h.idle rfl (hphase _ (hopened.append _)) ?_ ?_ rfl
      · exact (forwardedOf_append _ _).trans (List.append_nil _)
      · exact (handledOf_append _ _).trans (List.append_nil _)
  | client =>
      have hhandled : handledOf (p.log ++ [.received msg, .handled msg])
          = handledOf p.log ++ [msg] := handledOf_append _ _
      have hreceived : receivedOf (p.log ++ [.received msg, .handled msg])
          = receivedOf p.log ++ [msg] := receivedOf_append _ _
      refine ⟨hphase _ (hopened.append _), ?_, h.client, ?_, ?_, ?_⟩
      · rw [run_onCapture_none rfl]
        exact h.capture
      · show forwardedOf (p.log ++ [.received msg, .handled msg]) = p.capture.handed
        rw [forwardedOf_append, h.forwarded]
        exact List.append_nil _
      · show handledOf (p.log ++ [.received msg, .handled msg])
          = (receivedOf (p.log ++ [.received msg, .handled msg])).tail
        -- the first message read is the `Hello`, so the new one joins the tail
        rw [hhandled, hreceived, List.tail_append_of_ne_nil hopened.received, h.handled]
        rfl
      · show (backend.handle p.device msg).2
          = (handledOf (p.log ++ [.received msg, .handled msg])).foldl _ device
        rw [hhandled, List.foldl_append, ← h.device]
        rfl

/-- The first frame, or none. -/
theorem PeerInv.first {device : δ} {as : List PeerAction} {p : PeerTask δ}
    (h : PeerInv role own backend device as p) (hp : p.phase = .awaitHello) {phase : Phase}
    (hphase : Phase.onFirst own p.framed.next.1 = some phase) (f : Framed) :
    PeerInv role own backend device (as ++ [.next])
      { p with phase := phase, framed := f, log := p.log ++ p.framed.next.1.seen } := by
  have hlog := h.log
  rw [hp] at hlog
  rcases onFirst_cases hphase with ⟨msg, hpolled, rfl⟩ | ⟨hseen, e, rfl⟩
  · rw [hpolled]
    refine h.idle rfl (hlog.first msg) ?_ ?_ ?_
    · exact (forwardedOf_append _ _).trans (List.append_nil _)
    · exact (handledOf_append _ _).trans (List.append_nil _)
    · rw [show p.log = [.sent (.hello own)] from hlog]
      cases role <;> rfl
  · rw [hseen, List.append_nil]
    exact h.idle rfl (hlog.quiet nofun nofun) rfl rfl rfl

theorem PeerInv.receive {device : δ} {as : List PeerAction} {p p' : PeerTask δ}
    (h : PeerInv role own backend device as p)
    (hstep : p.step role own backend .next = some p') :
    PeerInv role own backend device (as ++ [.next]) p' := by
  have hlog := h.log
  cases hp : p.phase with
  | awaitHello =>
      obtain ⟨phase, hphase, rfl⟩ := PeerTask.receive_first hp hstep
      exact h.first hp hphase _
  | session peer =>
      rw [hp] at hlog
      rcases PeerTask.receive_session hp hstep with ⟨msg, rfl⟩ | rfl
      · exact h.took hlog msg _ fun log hopened => by rw [hp]; exact hopened
      · exact h.idle rfl hlog rfl rfl rfl
  | _ =>
      -- nothing is read in these phases
      change p.receive role own backend = some p' at hstep
      cases role <;> simp [PeerTask.receive, serverReceive, Client.receive, hp] at hstep

/-- A message of the handshake is sent, or not. -/
theorem PeerInv.send {device : δ} {as : List PeerAction} {p p' : PeerTask δ} {fault : Option Fault}
    (h : PeerInv role own backend device as p)
    (hstep : p.step role own backend (.send fault) = some p') :
    PeerInv role own backend device (as ++ [.send fault]) p' := by
  obtain ⟨msg, hout, rfl | ⟨e, rfl⟩⟩ := PeerTask.step_cases hstep
  · refine h.idle rfl (h.log.sent hout) ?_ ?_ ?_
    · exact (forwardedOf_append _ _).trans (List.append_nil _)
    · exact (handledOf_append _ _).trans (List.append_nil _)
    · rw [receivedOf_append]
      exact congrArg _ (List.append_nil _)
  · -- whatever the phase, the task has failed
    have hfailed : ∃ e', p.phase.sendFailed own e = .failed e' := by
      rcases outgoing_cases hout with ⟨hp, _⟩ | ⟨peer, hp, _⟩ | ⟨peer, hp, _⟩
      · rw [hp]; exact ⟨_, rfl⟩
      · rw [hp]; exact ⟨_, rfl⟩
      · rw [hp]; exact ⟨_, rfl⟩
    obtain ⟨e', he'⟩ := hfailed
    refine h.idle rfl ?_ rfl rfl rfl
    rw [he']
    exact h.log.quiet_of_outgoing hout

/-- The capture side moves on, and hands nothing over. -/
theorem PeerInv.captureStep {device : δ} {as : List PeerAction} {a : PeerAction}
    {ca : CaptureAction} {p : PeerTask δ} {c : Capture} {log : List PeerEvent} {phase : Phase}
    (h : PeerInv role own backend device as p) (hrole : role = .server)
    (ha : a.onCapture = some ca) (hc : p.capture.step ca = some c) (hlog : LogOk own log phase)
    (hf : forwardedOf log = c.handed) (hh : handledOf log = handledOf p.log)
    (hr : receivedOf log = receivedOf p.log) :
    PeerInv role own backend device (as ++ [a])
      { p with phase := phase, capture := c, log := log } where
  log := hlog
  capture := by
    rw [List.filterMap_append, List.filterMap_cons_some ha, List.filterMap_nil]
    exact System.run_snoc.mpr ⟨p.capture, h.capture, hc⟩
  client := fun hclient => by rw [hrole] at hclient; cases hclient
  forwarded := hf
  handled := by
    show handledOf log = role.handles (receivedOf log)
    rw [hh, hr]
    exact h.handled
  device := by
    show p.device = (handledOf log).foldl _ device
    rw [hh]
    exact h.device

/-- Nothing is handed over before the flag is read. -/
theorem Capture.handed_of_step {s s' : Capture} {a : CaptureAction} (h : s.step a = some s')
    (ha : a ≠ .forward) : s'.handed = s.handed := by
  rcases Capture.step_cases h with ⟨call, _, rfl⟩ | ⟨msg, queue, _, _, _, rfl⟩ | ⟨msg, rfl, _⟩
  · rfl
  · rfl
  · exact absurd rfl ha

theorem PeerInv.capturing {device : δ} {as : List PeerAction} {a : PeerAction}
    {ca : CaptureAction} {p p' : PeerTask δ} (h : PeerInv role own backend device as p)
    (ha : a.onCapture = some ca) (hne : ca ≠ .forward)
    (hstep : p.captureStep role ca = some p') :
    PeerInv role own backend device (as ++ [a]) p' := by
  obtain ⟨peer, c, hrole, _, hc, rfl⟩ := PeerTask.captureStep_cases hstep
  refine h.captureStep hrole ha hc h.log ?_ rfl rfl
  rw [Capture.handed_of_step hc hne]
  exact h.forwarded

/-- The flag is read for the message in hand. -/
theorem PeerInv.forward {device : δ} {as : List PeerAction} {p p' : PeerTask δ}
    {fault : Option Fault} (h : PeerInv role own backend device as p)
    (hstep : p.step role own backend (.forward fault) = some p') :
    PeerInv role own backend device (as ++ [.forward fault]) p' := by
  obtain ⟨peer, msg, c, hrole, hp, hhand, hc, rfl⟩ := PeerTask.step_cases hstep
  have hopened := h.log
  rw [hp] at hopened
  have hhanded : c.handed = if c.hook.grabbed then p.capture.handed ++ [msg]
      else p.capture.handed := by
    simp only [Capture.step, hhand] at hc
    cases hc
    exact handed_forward p.capture msg
  rcases PeerTask.forward_cases { p with capture := c } msg fault with
    ⟨hflag, he⟩ | ⟨hflag, phase, hphase, he⟩
  · -- the flag is off: the message is forgotten
    rw [he]
    rw [show c.hook.grabbed = false from hflag] at hhanded
    refine h.captureStep hrole rfl hc h.log ?_ rfl rfl
    rw [hhanded]
    exact h.forwarded
  · -- the flag is on: the message is handed over, whether or not the send goes through
    rw [he]
    rw [show c.hook.grabbed = true from hflag, if_pos rfl] at hhanded
    refine h.captureStep hrole rfl hc ?_ ?_ ?_ ?_
    · rcases hphase with rfl | rfl
      · show LogOk own (p.log ++ [.forwarded msg]) p.phase
        rw [hp]
        exact hopened.append _
      · exact hopened.append _
    · show forwardedOf (p.log ++ [.forwarded msg]) = c.handed
      rw [forwardedOf_append, h.forwarded, hhanded]
      rfl
    · exact (handledOf_append _ _).trans (List.append_nil _)
    · exact (receivedOf_append _ _).trans (List.append_nil _)

theorem PeerInv.step {device : δ} {as : List PeerAction} {a : PeerAction} {p p' : PeerTask δ}
    (h : PeerInv role own backend device as p) (hstep : p.step role own backend a = some p') :
    PeerInv role own backend device (as ++ [a]) p' := by
  have hcases := PeerTask.step_cases hstep
  cases a with
  | deliver bytes =>
      obtain ⟨_, rfl⟩ := hcases
      exact h.idle rfl h.log rfl rfl rfl
  | eof =>
      rw [show p' = _ from hcases]
      exact h.idle rfl h.log rfl rfl rfl
  | timeout =>
      obtain ⟨hp, rfl⟩ := hcases
      exact h.idle rfl (h.log.quiet (by rw [hp]; nofun) (by rw [hp]; nofun)) rfl rfl rfl
  | send fault => exact h.send hstep
  | next => exact h.receive hstep
  | hook call => exact h.capturing rfl nofun hstep
  | captureRecv => exact h.capturing rfl nofun hstep
  | forward fault => exact h.forward hstep
  | captureClosed =>
      obtain ⟨peer, _, hp, _, _, rfl⟩ := hcases
      have hopened := h.log
      rw [hp] at hopened
      exact h.idle rfl hopened rfl rfl rfl

theorem peerInv_of_run {device : δ} {as : List PeerAction} {p : PeerTask δ}
    (hrun : (peerSystem role own backend device).run (.new device) as = some p) :
    PeerInv role own backend device as p :=
  System.run_history (PeerInv.new device) (fun _ _ _ _ h hstep => h.step hstep) hrun

/-! ## §6. Whose answer counts. -/

/-- Up to an entry that is not among them, listed entries stand in front. -/
theorem prefix_of_not_mem {α : Type} {l pre post : List α} {e : α} (h : l <+: pre ++ e :: post)
    (he : e ∉ l) : l <+: pre := by
  induction l generalizing pre with
  | nil => exact List.nil_prefix
  | cons x l ih =>
      cases pre with
      | nil =>
          rw [List.nil_append, List.cons_prefix_cons] at h
          exact absurd (h.1 ▸ List.mem_cons_self) he
      | cons y pre =>
          rw [List.cons_append, List.cons_prefix_cons] at h
          exact List.cons_prefix_cons.mpr ⟨h.1, ih h.2 fun hmem => he (List.mem_cons_of_mem x hmem)⟩

/-- The loops act behind a handshake that we have accepted. -/
theorem PeerInv.acts_opened {device : δ} {as : List PeerAction} {p : PeerTask δ}
    (h : PeerInv role own backend device as p) {pre post : List PeerEvent} {e : PeerEvent}
    (hsplit : p.log = pre ++ e :: post) (he : e.acts = true) : Opened own pre := by
  rcases h.log.quiet_or_opened with hquiet | ⟨peer, hv, hpre⟩
  · -- before the loops there is no such entry
    rw [hquiet e (by rw [hsplit]; simp)] at he
    cases he
  · rw [hsplit] at hpre
    refine ⟨peer, hv, prefix_of_not_mem hpre ?_⟩
    intro hmem
    have hnone : ∀ e ∈ opening own peer, e.acts = false := by simp [opening, PeerEvent.acts]
    rw [hnone e hmem] at he
    cases he

def isHelloAck : Message → Bool
  | .helloAck _ _ => true
  | _ => false

/-- A backend that does nothing with a `HelloAck`. -/
def IgnoresAck (backend : InputInject δ) : Prop :=
  ∀ d acc reason, (backend.handle d (.helloAck acc reason)).2 = d

theorem linuxInject_ignoresAck (emit : δ → List InputEvent → Except String Unit × δ) :
    IgnoresAck (linuxInject emit) := fun _ _ _ => rfl

/-- To such a backend the acks might as well not have been there. -/
theorem foldl_without_acks (h : IgnoresAck backend) (msgs : List Message) (d : δ) :
    (msgs.filter fun msg => !isHelloAck msg).foldl (fun d msg => (backend.handle d msg).2) d
      = msgs.foldl (fun d msg => (backend.handle d msg).2) d := by
  rw [List.foldl_filter]
  congr
  funext d msg
  cases msg with
  | helloAck acc reason => exact (h d acc reason).symm
  | _ => rfl

/-- **ONLY OUR OWN ANSWER COUNTS**, in either role and whatever the peer sends.  A loop
acts behind a `Hello` of our version that we have accepted.  A `HelloAck` of the peer is
read and passed over, be it an acceptance or a refusal: the server forwards what its
capture side hands over, as its hooks, its channel and its flag have it; the client
handles what it has read behind the `Hello`, and to a backend that does nothing with a
`HelloAck` it might as well not have been there. -/
theorem own_answer_counts (role : Role) (own : Hello) (backend : InputInject δ) (device : δ)
    (as : List PeerAction) (p : PeerTask δ)
    (hrun : (peerSystem role own backend device).run (.new device) as = some p) :
    (∀ pre e post, p.log = pre ++ e :: post → e.acts = true →
        ∃ peer, peer.protocolVersion = own.protocolVersion
          ∧ [.sent (.hello own), .received (.hello peer), .sent (.helloAck true none)] <+: pre)
      ∧ (role = .server →
          captureSystem.run .new (as.filterMap PeerAction.onCapture) = some p.capture
            ∧ forwardedOf p.log = p.capture.handed ∧ handledOf p.log = [])
      ∧ (role = .client →
          forwardedOf p.log = [] ∧ handledOf p.log = (receivedOf p.log).tail
            ∧ (IgnoresAck backend →
              p.device = ((receivedOf p.log).tail.filter fun msg => !isHelloAck msg).foldl
                (fun d msg => (backend.handle d msg).2) device)) := by
  have hinv := peerInv_of_run hrun
  refine ⟨fun pre e post hsplit he => hinv.acts_opened hsplit he, ?_, ?_⟩
  · intro hrole
    subst hrole
    exact ⟨hinv.capture, hinv.forwarded, hinv.handled⟩
  · intro hrole
    subst hrole
    have hhandled : handledOf p.log = (receivedOf p.log).tail := hinv.handled
    refine ⟨?_, hhandled, ?_⟩
    · rw [hinv.forwarded, hinv.client rfl]
      rfl
    · intro hignores
      rw [foldl_without_acks hignores, ← hhandled]
      exact hinv.device

/-! ## §7. A refusal that changes nothing. -/

/-- What a message asks the input backends to do. -/
def isInput : Message → Bool
  | .mouseMove _ _ => true
  | .mouseWarp _ _ => true
  | .mouseButton _ _ => true
  | .mouseWheel _ _ => true
  | .keyEvent _ _ _ => true
  | _ => false

/-- Input is forwarded or injected. -/
def PeerEvent.input : PeerEvent → Bool
  | .forwarded _ => true
  | .handled msg => isInput msg
  | _ => false

/-- Input behind an acceptance of the peer, and not behind a refusal. -/
def RefusalRespected (log : List PeerEvent) : Prop :=
  ∀ pre e post, log = pre ++ e :: post → e.input = true →
    (∃ reason, .received (.helloAck true reason) ∈ pre)
      ∧ ∀ reason, .received (.helloAck false reason) ∉ pre

/-- A peer of the same build. -/
def samePeer : Hello := ourHello Uuid.nil "peer" ⟨1920, 1080⟩

def refusal : Message := .helloAck false (some "not now")

/-- The handshake of a peer that refuses and goes on with `rest`. -/
def refusedThen (rest : List Message) (as : List PeerAction) : List PeerAction :=
  [.send none, .deliver (messageFraming.stream (.hello samePeer :: refusal :: rest)), .next,
    .send none, .next] ++ as

/-- The hotkey, and a key. -/
def keyForwarded : List PeerAction :=
  [.hook (.kbd (fun _ => 0x8000) HC_ACTION WM_SYSKEYDOWN ⟨HOTKEY_VK⟩),
    .hook (.kbd (fun _ => 0) HC_ACTION WM_KEYDOWN ⟨0x50⟩), .captureRecv, .forward none]

/-- A virtual device that keeps what it is told to emit. -/
def keepEvents : InputInject (List InputEvent) :=
  linuxInject fun d events => (.ok (), d ++ events)

theorem own_answer_counts_refused :
    ∃ p, (peerSystem .client samePeer keepEvents []).run (.new [])
        (refusedThen [.mouseMove 5 0] [.next]) = some p
      ∧ receivedOf p.log = [.hello samePeer, refusal, .mouseMove 5 0]
      ∧ p.device = [⟨.relative, REL_X, 5⟩] := by
  obtain ⟨p, hp⟩ : ∃ p, (peerSystem .client samePeer keepEvents []).run (.new [])
      (refusedThen [.mouseMove 5 0] [.next]) = some p := ⟨_, rfl⟩
  obtain ⟨_, _, hclient⟩ := own_answer_counts .client samePeer keepEvents [] _ p hp
  have hdevice := (hclient rfl).2.2 (linuxInject_ignoresAck _)
  refine ⟨p, hp, ?_⟩
  cases hp
  exact ⟨rfl, hdevice⟩

/-- A server goes on forwarding to a peer that has refused it, and a client goes on
injecting what such a peer sends. -/
theorem refusal_not_respected :
    (¬ ∀ as p, (peerSystem .server samePeer keepEvents []).run (.new []) as = some p →
        RefusalRespected p.log)
      ∧ ¬ ∀ as p, (peerSystem .client samePeer keepEvents []).run (.new []) as = some p →
        RefusalRespected p.log := by
  constructor
  · intro h
    obtain ⟨p, hp⟩ : ∃ p, (peerSystem .server samePeer keepEvents []).run (.new [])
        (refusedThen [] keyForwarded) = some p := ⟨_, rfl⟩
    have hresp := h _ p hp
    cases hp
    obtain ⟨_, hno⟩ := hresp (opening samePeer samePeer ++ [.received refusal])
      (.forwarded (.keyEvent 25 true ⟨false, false, false, false⟩)) [] rfl rfl
    exact hno _ (List.mem_append_right _ List.mem_cons_self)
  · intro h
    obtain ⟨p, hp⟩ : ∃ p, (peerSystem .client samePeer keepEvents []).run (.new [])
        (refusedThen [.mouseMove 5 0] [.next]) = some p := ⟨_, rfl⟩
    have hresp := h _ p hp
    cases hp
    obtain ⟨_, hno⟩ := hresp (opening samePeer samePeer ++ [.received refusal, .handled refusal,
      .received (.mouseMove 5 0)]) (.handled (.mouseMove 5 0)) [] rfl rfl
    exact hno _ (List.mem_append_right _ List.mem_cons_self)

end Dshare.Session
