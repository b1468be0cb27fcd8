/-
  Dshare.Session.EndToEnd
  ───────────────────────
  **ONE SERVER SESSION WITH ONE CLIENT, FROM THE HOOKS TO THE INJECT BACKEND.**

  The capture side, the two framed streams and the client's task, taking turns in
  any order.  The channel may drop, the flag may turn, a chunk may end anywhere, a
  send may fail after any number of bytes, and either socket may report its end at
  any moment with bytes still under way.

  The invariant follows one sequence of messages through all of it:

    • `WrittenOk` — what the server has begun to write: its `Hello`, a `HelloAck`,
      and the input handed to `sink.send`;
    • `Conveys` — what has come out of the pipe, and where the read buffer stands;
    • `ReadOk` — what the client has read: a `Hello`, and what it has handled.
-/
import Dshare.Protocol.Transport
import Dshare.Session.Capture
import Dshare.Session.Client

namespace Dshare.Session

open Transition StreamDecoder Dshare.Protocol Dshare.Input

/-! ## §1. The two programs and the wire. -/

structure Link (δ : Type) where
  server : Phase
  serverFramed : Framed
  capture : Capture
  client : Client δ
  /-- Bytes on their way. -/
  toClient : List UInt8
  toServer : List UInt8
  /-- All bytes the client's socket has delivered. -/
  arrived : List UInt8
  /-- All messages the server has begun to write. -/
  written : List Message

/-- A send that fails after some bytes of the frame. -/
structure Fault where
  bytes : Nat
  error : ProtocolError

/-- `framed.send` or `sink.send`: its result, and the bytes on the wire. -/
def sendFrame (msg : Message) (fault : Option Fault) : Except ProtocolError Unit × List UInt8 :=
  match encode msg [], fault with
  | (.ok (), bytes), none => (.ok (), bytes)
  | (.ok (), bytes), some fault => (.error fault.error, bytes.take fault.bytes)
  | (.error e, _), _ => (.error e, [])

/-- The input the drain loop has handed to `sink.send`. -/
def Capture.handed (s : Capture) : List Message := (s.popped.filter Popped.sent).map Popped.msg

/-- The messages the hook callbacks have built. -/
def Capture.built (s : Capture) : List Message := s.captured.map Captured.msg

/-- Bytes of a message go towards the client; a message that does not fit has none. -/
def Link.put {δ : Type} (l : Link δ) (msg : Message) (bytes : List UInt8) : Link δ :=
  { l with toClient := l.toClient ++ bytes, written := l.written ++ accepted [msg] }

/-- The server's `next`: in its loop it ignores what it reads. -/
def serverReceive (own : Hello) (phase : Phase) (f : Framed) : Option (Phase × Framed) :=
  match phase with
  | .awaitHello => (Phase.onFirst own f.next.1).map fun phase => (phase, f.next.2)
  | .session peer =>
      match f.next with
      | (.pending, _) => none
      | (.item _, f) => some (.session peer, f)
      | (_, f) => some (.ended, f)
  | _ => none

inductive LinkAction where
  | hook (call : HookCall)
  | captureRecv
  | forward (fault : Option Fault)
  /-- `cap_rx.recv()` yields `None`. -/
  | captureClosed
  | serverSend (fault : Option Fault)
  | serverNext
  | serverTimeout
  | clientSend (fault : Option Fault)
  | clientNext
  | clientTimeout
  | deliverToClient (n : Nat)
  | deliverToServer (n : Nat)
  | clientEof
  | serverEof

variable {δ : Type} (serverOwn clientOwn : Hello) (backend : InputInject δ)

/-- The drain loop reads the flag for the message in hand, and sends it if it is on. -/
def Link.forward (l : Link δ) (msg : Message) (capture : Capture) (fault : Option Fault) :
    Link δ :=
  let l := { l with capture := capture }
  if capture.hook.grabbed then
    match sendFrame msg fault with
    | (.ok (), bytes) => l.put msg bytes
    | (.error _, bytes) => { l.put msg bytes with server := .ended }
  else l

def Link.step (l : Link δ) : LinkAction → Option (Link δ)
  | .hook call =>
      match l.server with
      | .session _ => (l.capture.step (.hook call)).map fun c => { l with capture := c }
      | _ => none
  | .captureRecv =>
      match l.server with
      | .session _ => (l.capture.step .recv).map fun c => { l with capture := c }
      | _ => none
  | .forward fault =>
      match l.server, l.capture.inHand with
      | .session _, some msg => (l.capture.step .forward).map fun c => l.forward msg c fault
      | _, _ => none
  | .captureClosed =>
      match l.server, l.capture.inHand, l.capture.hook.sender.items with
      | .session _, none, [] => some { l with server := .ended }
      | _, _, _ => none
  | .serverSend fault =>
      (l.server.outgoing serverOwn).map fun msg =>
        match sendFrame msg fault with
        | (.ok (), bytes) => { l.put msg bytes with server := l.server.sent serverOwn }
        | (.error e, bytes) => { l.put msg bytes with server := l.server.sendFailed serverOwn e }
  | .serverNext =>
      -- `select!` takes no other branch until the one it took is done
      if l.capture.inHand.isSome then none
      else
        (serverReceive serverOwn l.server l.serverFramed).map fun p =>
          { l with server := p.1, serverFramed := p.2 }
  | .serverTimeout =>
      match l.server with
      | .awaitHello => some { l with server := .failed .timeout }
      | _ => none
  | .clientSend fault =>
      (l.client.phase.outgoing clientOwn).map fun msg =>
        match sendFrame msg fault with
        | (.ok (), bytes) =>
            { l with
              toServer := l.toServer ++ bytes
              client := { l.client with phase := l.client.phase.sent clientOwn } }
        | (.error e, bytes) =>
            { l with
              toServer := l.toServer ++ bytes
              client := { l.client with phase := l.client.phase.sendFailed clientOwn e } }
  | .clientNext => (l.client.receive clientOwn backend).map fun c => { l with client := c }
  | .clientTimeout =>
      match l.client.phase with
      | .awaitHello =>
          some { l with client := { l.client with phase := .failed .timeout } }
      | _ => none
  | .deliverToClient n =>
      if l.client.framed.eof then none
      else
        some { l with
          client := { l.client with framed := l.client.framed.arrive (l.toClient.take n) }
          toClient := l.toClient.drop n
          arrived := l.arrived ++ l.toClient.take n }
  | .deliverToServer n =>
      if l.serverFramed.eof then none
      else
        some { l with
          serverFramed := l.serverFramed.arrive (l.toServer.take n)
          toServer := l.toServer.drop n }
  | .clientEof =>
      some { l with client := { l.client with framed := { l.client.framed with eof := true } } }
  | .serverEof => some { l with serverFramed := { l.serverFramed with eof := true } }

def Link.new (device : δ) : Link δ :=
  ⟨.hello, ⟨[], false⟩, .new, .new device, [], [], [], []⟩

def linkSystem (device : δ) : System (Link δ) LinkAction :=
  ⟨.new device, Link.step serverOwn clientOwn backend⟩

variable {serverOwn clientOwn backend} in
/-- **What a step of the session does**, action by action, with what it asks for. -/
theorem Link.step_cases {l l' : Link δ} {a : LinkAction}
    (h : l.step serverOwn clientOwn backend a = some l') :
    match a with
    | .hook call => ∃ peer c, l.server = .session peer ∧ l.capture.step (.hook call) = some c
        ∧ l' = { l with capture := c }
    | .captureRecv => ∃ peer c, l.server = .session peer ∧ l.capture.step .recv = some c
        ∧ l' = { l with capture := c }
    | .forward fault => ∃ peer msg c, l.server = .session peer ∧ l.capture.inHand = some msg
        ∧ l.capture.step .forward = some c ∧ l' = l.forward msg c fault
    | .captureClosed => ∃ peer, l.server = .session peer ∧ l.capture.inHand = none
        ∧ l.capture.hook.sender.items = [] ∧ l' = { l with server := .ended }
    | .serverSend fault => ∃ msg, l.server.outgoing serverOwn = some msg
        ∧ ((∃ bytes, sendFrame msg fault = (.ok (), bytes)
            ∧ l' = { l.put msg bytes with server := l.server.sent serverOwn })
          ∨ ∃ e bytes, sendFrame msg fault = (.error e, bytes)
            ∧ l' = { l.put msg bytes with server := l.server.sendFailed serverOwn e })
    | .serverNext => ∃ phase f, l.capture.inHand = none
        ∧ serverReceive serverOwn l.server l.serverFramed = some (phase, f)
        ∧ l' = { l with server := phase, serverFramed := f }
    | .serverTimeout => l.server = .awaitHello ∧ l' = { l with server := .failed .timeout }
    | .clientSend fault => ∃ msg, l.client.phase.outgoing clientOwn = some msg
        ∧ ((∃ bytes, sendFrame msg fault = (.ok (), bytes)
            ∧ l' = { l with
                toServer := l.toServer ++ bytes
                client := { l.client with phase := l.client.phase.sent clientOwn } })
          ∨ ∃ e bytes, sendFrame msg fault = (.error e, bytes)
            ∧ l' = { l with
                toServer := l.toServer ++ bytes
                client := { l.client with phase := l.client.phase.sendFailed clientOwn e } })
    | .clientNext => ∃ c, l.client.receive clientOwn backend = some c
        ∧ l' = { l with client := c }
    | .clientTimeout => l.client.phase = .awaitHello
        ∧ l' = { l with client := { l.client with phase := .failed .timeout } }
    | .deliverToClient n => l.client.framed.eof = false
        ∧ l' = { l with
            client := { l.client with framed := l.client.framed.arrive (l.toClient.take n) }
            toClient := l.toClient.drop n
            arrived := l.arrived ++ l.toClient.take n }
    | .deliverToServer n => l.serverFramed.eof = false
        ∧ l' = { l with
            serverFramed := l.serverFramed.arrive (l.toServer.take n)
            toServer := l.toServer.drop n }
    | .clientEof =>
        l' = { l with client := { l.client with framed := { l.client.framed with eof := true } } }
    | .serverEof => l' = { l with serverFramed := { l.serverFramed with eof := true } } := by
  cases a with
  | hook call | captureRecv =>
      simp only [Link.step] at h
      split at h
      next peer hpeer =>
        obtain ⟨c, hc, rfl⟩ := Option.map_eq_some_iff.mp h
        exact ⟨peer, c, hpeer, hc, rfl⟩
      next => cases h
  | forward fault =>
      simp only [Link.step] at h
      split at h
      next peer msg hpeer hhand =>
        obtain ⟨c, hc, rfl⟩ := Option.map_eq_some_iff.mp h
        exact ⟨peer, msg, c, hpeer, hhand, hc, rfl⟩
      next => cases h
  | captureClosed =>
      simp only [Link.step] at h
      split at h
      next peer hpeer hhand hitems => exact ⟨peer, hpeer, hhand, hitems, (Option.some.inj h).symm⟩
      next => cases h
  | serverSend fault | clientSend fault =>
      obtain ⟨msg, hout, rfl⟩ := Option.map_eq_some_iff.mp h
      refine ⟨msg, hout, ?_⟩
      split
      next bytes hsend => exact .inl ⟨bytes, hsend, rfl⟩
      next e bytes hsend => exact .inr ⟨e, bytes, hsend, rfl⟩
  | serverNext =>
      simp only [Link.step] at h
      obtain ⟨hhand, hnext⟩ := Option.ite_none_left_eq_some.mp h
      obtain ⟨⟨phase, f⟩, hreceive, rfl⟩ := Option.map_eq_some_iff.mp hnext
      exact ⟨phase, f, by simpa using hhand, hreceive, rfl⟩
  | clientNext =>
      obtain ⟨c, hc, rfl⟩ := Option.map_eq_some_iff.mp h
      exact ⟨c, hc, rfl⟩
  | serverTimeout | clientTimeout =>
      simp only [Link.step] at h
      split at h
      next hphase => exact ⟨hphase, (Option.some.inj h).symm⟩
      next => cases h
  | deliverToClient n | deliverToServer n =>
      obtain ⟨hopen, hs⟩ := Option.ite_none_left_eq_some.mp h
      exact ⟨by simpa using hopen, (Option.some.inj hs).symm⟩
  | clientEof | serverEof => exact (Option.some.inj h).symm

/-! ## §2. Sending. -/

/-- What a send puts on the wire: the frame, a part of it, or nothing. -/
theorem sendFrame_cases (msg : Message) (fault : Option Fault) :
    (sendFrame msg fault = (.ok (), frame msg) ∧ Fits msg)
      ∨ ∃ e bytes, sendFrame msg fault = (.error e, bytes)
        ∧ (Fits msg ∧ bytes <+: frame msg ∨ ¬ Fits msg ∧ bytes = []) := by
  unfold sendFrame
  by_cases hfit : Fits msg
  · rw [encode_of_fits hfit]
    cases fault with
    | none => exact .inl ⟨rfl, hfit⟩
    | some fault => exact .inr ⟨_, _, rfl, .inl ⟨hfit, List.take_prefix _ _⟩⟩
  · rw [encode_of_not_fits hfit]
    exact .inr ⟨_, _, rfl, .inr ⟨hfit, rfl⟩⟩

theorem accepted_of_fits {msg : Message} (h : Fits msg) : accepted [msg] = [msg] := by
  simp [accepted, h]

theorem accepted_of_not_fits {msg : Message} (h : ¬ Fits msg) : accepted [msg] = [] := by
  simp [accepted, h]

/-! ## §3. The invariant. -/

/-- What the server has begun to write when it may have stopped anywhere. -/
def WrittenUpTo (written handed : List Message) : Prop :=
  written <+: [.hello serverOwn]
    ∨ ∃ acc reason inputs,
        written = .hello serverOwn :: .helloAck acc reason :: inputs ∧ inputs <+: handed

/-- What the server has begun to write, phase by phase. -/
def WrittenOk (written handed : List Message) : Phase → Prop
  | .hello => written = [] ∧ handed = []
  | .awaitHello => written = [.hello serverOwn] ∧ handed = []
  | .refuse _ => written = [.hello serverOwn] ∧ handed = []
  | .accept _ => written = [.hello serverOwn] ∧ handed = []
  | .session _ => written = .hello serverOwn :: .helloAck true none :: handed
  | .failed _ => WrittenUpTo serverOwn written handed
  | .ended => WrittenUpTo serverOwn written handed

/-- What the client has read and what it has handled, phase by phase. -/
def ReadOk (read handled : List Message) : Phase → Prop
  | .hello => read = [] ∧ handled = []
  | .awaitHello => read = [] ∧ handled = []
  | .refuse peer => read = [.hello peer] ∧ handled = []
  | .accept peer => read = [.hello peer] ∧ handled = []
  | .session peer => read = .hello peer :: handled
  | .failed _ => handled = [] ∨ ∃ peer, read = .hello peer :: handled
  | .ended => handled = [] ∨ ∃ peer, read = .hello peer :: handled

structure LinkInv (l : Link δ) : Prop where
  capture : CaptureInv l.capture
  wrote : WrittenOk serverOwn l.written l.capture.handed l.server
  /-- Until the server returns, every frame it began is complete. -/
  whole : l.server.done = false → l.arrived ++ l.toClient = messageFraming.stream l.written
  conveys : ∃ read,
    Conveys messageFraming l.written read l.arrived l.client.framed.buffer l.toClient
    ∧ ReadOk read l.client.handled l.client.phase

variable {serverOwn clientOwn backend}

theorem WrittenOk.upTo {written handed : List Message} {phase : Phase}
    (h : WrittenOk serverOwn written handed phase) : WrittenUpTo serverOwn written handed := by
  cases phase with
  | hello => exact .inl (h.1 ▸ List.nil_prefix)
  | awaitHello => exact .inl (h.1 ▸ List.prefix_rfl)
  | refuse peer => exact .inl (h.1 ▸ List.prefix_rfl)
  | accept peer => exact .inl (h.1 ▸ List.prefix_rfl)
  | session peer => exact .inr ⟨true, none, handed, h, List.prefix_rfl⟩
  | failed e => exact h
  | ended => exact h

theorem ReadOk.upTo {read handled : List Message} {phase : Phase}
    (h : ReadOk read handled phase) : handled = [] ∨ ∃ peer, read = .hello peer :: handled := by
  cases phase with
  | hello => exact .inl h.2
  | awaitHello => exact .inl h.2
  | refuse peer => exact .inl h.2
  | accept peer => exact .inl h.2
  | session peer => exact .inr ⟨peer, h⟩
  | failed e => exact h
  | ended => exact h

theorem LinkInv.new (device : δ) : LinkInv serverOwn (Link.new device) where
  capture := .new
  wrote := ⟨rfl, rfl⟩
  whole := fun _ => rfl
  conveys := ⟨[], .start, rfl, rfl⟩

/-! ## §4. The server's sends. -/

/-- Whole or in part, a frame goes behind what the client has yet to read. -/
theorem LinkInv.conveys_put {l : Link δ} (h : LinkInv serverOwn l) (hlive : l.server.done = false)
    {msg : Message} {bytes : List UInt8}
    (hbytes : Fits msg ∧ bytes <+: frame msg ∨ ¬ Fits msg ∧ bytes = []) :
    ∃ read,
      Conveys messageFraming (l.written ++ accepted [msg]) read l.arrived
        l.client.framed.buffer (l.toClient ++ bytes)
      ∧ ReadOk read l.client.handled l.client.phase := by
  obtain ⟨read, hconveys, hread⟩ := h.conveys
  refine ⟨read, ?_, hread⟩
  rcases hbytes with ⟨hfit, hbytes⟩ | ⟨hfit, rfl⟩
  · rw [accepted_of_fits hfit]
    exact hconveys.write (h.whole hlive) hfit hbytes
  · rw [accepted_of_not_fits hfit, List.append_nil, List.append_nil]
    exact hconveys

/-- **A send of the server** that goes through keeps the streams whole. -/
theorem LinkInv.put {l : Link δ} (h : LinkInv serverOwn l) (hlive : l.server.done = false)
    {msg : Message} (hfit : Fits msg) {phase : Phase} {capture : Capture}
    (hcapture : CaptureInv capture)
    (hwrote : WrittenOk serverOwn (l.written ++ [msg]) capture.handed phase) :
    LinkInv serverOwn
      { l.put msg (frame msg) with server := phase, capture := capture } where
  capture := hcapture
  wrote := by
    show WrittenOk serverOwn (l.written ++ accepted [msg]) capture.handed phase
    rw [accepted_of_fits hfit]
    exact hwrote
  whole := by
    intro _
    show l.arrived ++ (l.toClient ++ frame msg)
      = messageFraming.stream (l.written ++ accepted [msg])
    rw [accepted_of_fits hfit, messageFraming.stream_append, ← List.append_assoc, h.whole hlive]
    show _ = _ ++ (frame msg ++ [])
    rw [List.append_nil]
  conveys := h.conveys_put hlive (.inl ⟨hfit, List.prefix_rfl⟩)

/-- A send of the server that fails: part of the frame may be on the wire, and the
server returns. -/
theorem LinkInv.cut {l : Link δ} (h : LinkInv serverOwn l) (hlive : l.server.done = false)
    {msg : Message} {bytes : List UInt8}
    (hbytes : Fits msg ∧ bytes <+: frame msg ∨ ¬ Fits msg ∧ bytes = [])
    {phase : Phase} {capture : Capture} (hcapture : CaptureInv capture)
    (hdone : phase.done = true)
    (hwrote : WrittenOk serverOwn (l.written ++ accepted [msg]) capture.handed phase) :
    LinkInv serverOwn { l.put msg bytes with server := phase, capture := capture } where
  capture := hcapture
  wrote := hwrote
  whole := by
    intro hno
    rw [show phase.done = false from hno] at hdone
    cases hdone
  conveys := h.conveys_put hlive hbytes

/-- The handshake messages, one after the other. -/
theorem LinkInv.serverSend {l l' : Link δ} (h : LinkInv serverOwn l) (fault : Option Fault)
    (hstep : l.step serverOwn clientOwn backend (.serverSend fault) = some l') :
    LinkInv serverOwn l' := by
  obtain ⟨msg, hout, rfl⟩ := Option.map_eq_some_iff.mp hstep
  have hwrote := h.wrote
  -- what has been written, and handed over, once `msg` has been written in full or not at all
  have hnext : WrittenOk serverOwn (l.written ++ [msg]) l.capture.handed (l.server.sent serverOwn)
      ∧ (∀ e, (l.server.sendFailed serverOwn e).done = true
        ∧ WrittenOk serverOwn (l.written ++ [msg]) l.capture.handed
          (l.server.sendFailed serverOwn e)
        ∧ WrittenOk serverOwn l.written l.capture.handed (l.server.sendFailed serverOwn e))
      ∧ l.server.done = false := by
    cases hp : l.server with
    | hello =>
        rw [hp] at hwrote hout
        cases hout
        obtain ⟨hw, hh⟩ := hwrote
        rw [hw, hh]
        exact ⟨⟨rfl, rfl⟩, fun e => ⟨rfl, .inl List.prefix_rfl, .inl List.nil_prefix⟩, rfl⟩
    | refuse peer =>
        rw [hp] at hwrote hout
        cases hout
        obtain ⟨hw, hh⟩ := hwrote
        rw [hw, hh]
        exact ⟨.inr ⟨_, _, [], rfl, List.prefix_rfl⟩,
          fun e => ⟨rfl, .inr ⟨_, _, [], rfl, List.prefix_rfl⟩, .inl List.prefix_rfl⟩, rfl⟩
    | accept peer =>
        rw [hp] at hwrote hout
        cases hout
        obtain ⟨hw, hh⟩ := hwrote
        rw [hw, hh]
        exact ⟨rfl,
          fun e => ⟨rfl, .inr ⟨_, _, [], rfl, List.prefix_rfl⟩, .inl List.prefix_rfl⟩, rfl⟩
    | _ => rw [hp] at hout; cases hout
  obtain ⟨hsent, hfailed, hlive⟩ := hnext
  rcases sendFrame_cases msg fault with ⟨hsend, hfit⟩ | ⟨e, bytes, hsend, hbytes⟩
  · rw [hsend]
    exact h.put hlive hfit h.capture hsent
  · rw [hsend]
    obtain ⟨hdone, hall, hnone⟩ := hfailed e
    refine h.cut hlive hbytes h.capture hdone ?_
    rcases hbytes with ⟨hfit, _⟩ | ⟨hfit, _⟩
    · rw [accepted_of_fits hfit]
      exact hall
    · rw [accepted_of_not_fits hfit, List.append_nil]
      exact hnone

/-! ## §5. The capture side. -/

/-- A capture step that settles no message. -/
theorem LinkInv.captured {l : Link δ} (h : LinkInv serverOwn l) {c : Capture}
    (hcapture : CaptureInv c) (hpopped : c.popped = l.capture.popped) :
    LinkInv serverOwn { l with capture := c } where
  capture := hcapture
  wrote := by
    have hhanded : c.handed = l.capture.handed := by
      unfold Capture.handed
      rw [hpopped]
    show WrittenOk serverOwn l.written c.handed l.server
    rw [hhanded]
    exact h.wrote
  whole := h.whole
  conveys := h.conveys

/-- What is handed over when the flag is read. -/
theorem handed_forward (s : Capture) (msg : Message) :
    Capture.handed { s with
        inHand := none, popped := s.popped ++ [⟨msg, s.hook.grabbed, s.flips⟩] }
      = if s.hook.grabbed then s.handed ++ [msg] else s.handed := by
  unfold Capture.handed
  cases s.hook.grabbed <;> simp

theorem LinkInv.forward {l l' : Link δ} (h : LinkInv serverOwn l) (fault : Option Fault)
    (hstep : l.step serverOwn clientOwn backend (.forward fault) = some l') :
    LinkInv serverOwn l' := by
  obtain ⟨peer, msg, c, hserver, hhand, hc, rfl⟩ := Link.step_cases hstep
  have hcapture : CaptureInv c := h.capture.step hc
  simp only [Capture.step, hhand, Option.some.injEq] at hc
  have hhanded : c.handed = if l.capture.hook.grabbed then l.capture.handed ++ [msg]
      else l.capture.handed := by
    rw [← hc]
    exact handed_forward l.capture msg
  have hgrab : c.hook.grabbed = l.capture.hook.grabbed := by rw [← hc]
  have hwrote := h.wrote
  rw [hserver] at hwrote
  have hlive : l.server.done = false := by
    rw [hserver]
    rfl
  unfold Link.forward
  rw [hgrab]
  cases hflag : l.capture.hook.grabbed with
  | false =>
      -- the message is dropped
      rw [hflag] at hhanded
      refine ⟨hcapture, ?_, h.whole, h.conveys⟩
      show WrittenOk serverOwn l.written c.handed l.server
      rw [hhanded, hserver]
      exact hwrote
  | true =>
      rw [hflag, if_pos rfl] at hhanded
      rw [if_pos rfl]
      rcases sendFrame_cases msg fault with ⟨hsend, hfit⟩ | ⟨e, bytes, hsend, hbytes⟩
      · rw [hsend]
        refine h.put hlive hfit hcapture ?_
        rw [hserver, hhanded]
        show l.written ++ [msg] = _ :: _ :: (l.capture.handed ++ [msg])
        rw [show l.written = _ from hwrote]
        rfl
      · rw [hsend]
        refine h.cut hlive hbytes hcapture rfl ?_
        show WrittenUpTo serverOwn (l.written ++ accepted [msg]) c.handed
        rw [hhanded]
        refine .inr ⟨true, none, l.capture.handed ++ accepted [msg], ?_, ?_⟩
        · rw [show l.written = _ from hwrote]
          rfl
        · -- a message that does not fit is handed over but never begun
          exact (List.prefix_append_right_inj _).mpr (by
            by_cases hfit : Fits msg
            · rw [accepted_of_fits hfit]
            · rw [accepted_of_not_fits hfit]
              exact List.nil_prefix)

/-! ## §6. The server's reads. -/

/-- The server goes on without writing. -/
theorem LinkInv.serverPhase {l : Link δ} (h : LinkInv serverOwn l) {phase : Phase} {f : Framed}
    (hwrote : WrittenOk serverOwn l.written l.capture.handed phase)
    (hlive : l.server.done = false) :
    LinkInv serverOwn { l with server := phase, serverFramed := f } where
  capture := h.capture
  wrote := hwrote
  whole := fun _ => h.whole hlive
  conveys := h.conveys

/-- After the first frame, whatever it was. -/
theorem WrittenOk.onFirst {written handed : List Message}
    (h : WrittenOk serverOwn written handed .awaitHello) {polled : Polled} {phase : Phase}
    (hphase : Phase.onFirst serverOwn polled = some phase) :
    WrittenOk serverOwn written handed phase := by
  cases polled with
  | pending => cases hphase
  | ended => cases hphase; exact h.upTo
  | error e => cases hphase; exact h.upTo
  | item msg =>
      cases hphase
      rcases onPeerMsg_cases serverOwn msg with ⟨peer, _, _, he⟩ | ⟨peer, _, _, he⟩ | ⟨_, he⟩
      · rw [he]; exact h
      · rw [he]; exact h
      · rw [he]; exact h.upTo

theorem LinkInv.serverNext {l l' : Link δ} (h : LinkInv serverOwn l)
    (hstep : l.step serverOwn clientOwn backend .serverNext = some l') :
    LinkInv serverOwn l' := by
  obtain ⟨phase, f, _, hreceive, rfl⟩ := Link.step_cases hstep
  have hwrote := h.wrote
  unfold serverReceive at hreceive
  cases hp : l.server with
  | awaitHello =>
      rw [hp] at hwrote hreceive
      obtain ⟨phase', hfirst, heq⟩ := Option.map_eq_some_iff.mp hreceive
      cases heq
      exact h.serverPhase (hwrote.onFirst hfirst) (by rw [hp]; rfl)
  | session peer =>
      rw [hp] at hwrote hreceive
      simp only at hreceive
      split at hreceive
      next => cases hreceive
      next => cases hreceive; exact h.serverPhase hwrote (by rw [hp]; rfl)
      next => cases hreceive; exact h.serverPhase hwrote.upTo (by rw [hp]; rfl)
  | _ => rw [hp] at hreceive; cases hreceive

/-! ## §7. The client. -/

/-- The client goes on. -/
theorem LinkInv.clientStep {l : Link δ} (h : LinkInv serverOwn l) {c : Client δ}
    {toServer : List UInt8}
    (hconveys : ∃ read, Conveys messageFraming l.written read l.arrived c.framed.buffer l.toClient
      ∧ ReadOk read c.handled c.phase) :
    LinkInv serverOwn { l with client := c, toServer := toServer } where
  capture := h.capture
  wrote := h.wrote
  whole := h.whole
  conveys := hconveys

/-- **What one `next` of the client makes of the pipe**: nothing, or one more message
is read, and it is handled if it comes behind the `Hello`. -/
theorem Client.receive_conveys {written read : List Message} {arrived inFlight : List UInt8}
    {c c' : Client δ}
    (hconveys : Conveys messageFraming written read arrived c.framed.buffer inFlight)
    (hread : ReadOk read c.handled c.phase) (hstep : c.receive clientOwn backend = some c') :
    ∃ read', Conveys messageFraming written read' arrived c'.framed.buffer inFlight
      ∧ ReadOk read' c'.handled c'.phase := by
  cases hp : c.phase with
  | awaitHello =>
      rw [hp] at hread
      obtain ⟨rfl, hnone⟩ := hread
      rcases hconveys.next with hmore | ⟨msg, rest, hitem, hconveys'⟩
      · -- no frame: the wait goes on or fails
        rcases Framed.next_of_more hmore with ⟨_, hnext⟩ | ⟨_, polled, hnext, hbad⟩
        · rw [Client.receive_awaiting hp hnext] at hstep
          cases hstep
        · obtain ⟨e, hfailed⟩ := onFirst_failed clientOwn hbad
          rw [Client.receive_awaiting hp hnext, hfailed] at hstep
          cases hstep
          exact ⟨[], hconveys, .inl hnone⟩
      · rw [Client.receive_awaiting hp (Framed.next_of_message hitem)] at hstep
        cases hstep
        refine ⟨[msg], hconveys', ?_⟩
        show ReadOk [msg] c.handled (onPeerMsg clientOwn msg)
        rw [hnone]
        rcases onPeerMsg_cases clientOwn msg with
          ⟨peer, rfl, _, he⟩ | ⟨peer, rfl, _, he⟩ | ⟨_, he⟩
        · rw [he]; exact ⟨rfl, rfl⟩
        · rw [he]; exact ⟨rfl, rfl⟩
        · rw [he]; exact .inl rfl
  | session peer =>
      rw [hp] at hread
      change read = .hello peer :: c.handled at hread
      rcases hconveys.next with hmore | ⟨msg, rest, hitem, hconveys'⟩
      · -- no frame: the loop waits or ends
        rcases Framed.next_of_more hmore with ⟨_, hnext⟩ | ⟨_, polled, hnext, hbad⟩
        · rw [Client.receive_pending hp hnext] at hstep
          cases hstep
        · rw [Client.receive_end hp hnext hbad] at hstep
          cases hstep
          exact ⟨read, hconveys, .inr ⟨peer, hread⟩⟩
      · rw [Client.receive_item hp (Framed.next_of_message hitem)] at hstep
        cases hstep
        refine ⟨read ++ [msg], hconveys', ?_⟩
        show ReadOk (read ++ [msg]) (c.handled ++ [msg]) c.phase
        rw [hp, hread]
        rfl
  | _ =>
      unfold Client.receive at hstep
      simp only [hp] at hstep
      cases hstep

theorem LinkInv.clientSend {l l' : Link δ} (h : LinkInv serverOwn l) (fault : Option Fault)
    (hstep : l.step serverOwn clientOwn backend (.clientSend fault) = some l') :
    LinkInv serverOwn l' := by
  obtain ⟨msg, hout, rfl⟩ := Option.map_eq_some_iff.mp hstep
  obtain ⟨read, hconveys, hread⟩ := h.conveys
  -- the handshake goes on, or fails; what has been read stays as it is
  have hnext : ReadOk read l.client.handled (l.client.phase.sent clientOwn)
      ∧ ∀ e, ReadOk read l.client.handled (l.client.phase.sendFailed clientOwn e) := by
    cases hp : l.client.phase with
    | hello => rw [hp] at hread; exact ⟨hread, fun e => .inl hread.2⟩
    | refuse peer => rw [hp] at hread; exact ⟨.inl hread.2, fun e => .inl hread.2⟩
    | accept peer =>
        rw [hp] at hread
        obtain ⟨hr, hh⟩ := hread
        refine ⟨?_, fun e => .inl hh⟩
        show read = .hello peer :: l.client.handled
        rw [hr, hh]
    | _ => rw [hp] at hout; cases hout
  rcases sendFrame_cases msg fault with ⟨hsend, _⟩ | ⟨e, bytes, hsend, _⟩
  · rw [hsend]
    exact h.clientStep ⟨read, hconveys, hnext.1⟩
  · rw [hsend]
    exact h.clientStep ⟨read, hconveys, hnext.2 e⟩

/-- A chunk of any size reaches the client. -/
theorem LinkInv.deliver {l : Link δ} (h : LinkInv serverOwn l) (n : Nat) :
    LinkInv serverOwn { l with
      client := { l.client with framed := l.client.framed.arrive (l.toClient.take n) }
      toClient := l.toClient.drop n
      arrived := l.arrived ++ l.toClient.take n } where
  capture := h.capture
  wrote := h.wrote
  whole := by
    intro hlive
    show l.arrived ++ l.toClient.take n ++ l.toClient.drop n = _
    rw [List.append_assoc, List.take_append_drop]
    exact h.whole hlive
  conveys := by
    obtain ⟨read, hconveys, hread⟩ := h.conveys
    rw [← List.take_append_drop n l.toClient] at hconveys
    exact ⟨read, hconveys.deliver, hread⟩

theorem LinkInv.step {l l' : Link δ} {a : LinkAction} (h : LinkInv serverOwn l)
    (hstep : l.step serverOwn clientOwn backend a = some l') : LinkInv serverOwn l' := by
  have hcases := Link.step_cases hstep
  cases a with
  | hook call =>
      obtain ⟨_, c, _, hc, rfl⟩ := hcases
      have hcapture := h.capture.step hc
      cases hc
      exact h.captured hcapture rfl
  | captureRecv =>
      obtain ⟨_, c, _, hc, rfl⟩ := hcases
      have hcapture := h.capture.step hc
      rcases Capture.step_cases hc with ⟨_, ha, _⟩ | ⟨_, _, _, _, _, rfl⟩ | ⟨_, ha, _⟩
      · cases ha
      · exact h.captured hcapture rfl
      · cases ha
  | forward fault => exact h.forward fault hstep
  | captureClosed =>
      obtain ⟨_, hp, _, _, rfl⟩ := hcases
      exact h.serverPhase h.wrote.upTo (by rw [hp]; rfl)
  | serverSend fault => exact h.serverSend fault hstep
  | serverNext => exact h.serverNext hstep
  | serverTimeout =>
      obtain ⟨hp, rfl⟩ := hcases
      exact h.serverPhase h.wrote.upTo (by rw [hp]; rfl)
  | clientSend fault => exact h.clientSend fault hstep
  | clientNext =>
      obtain ⟨c, hc, rfl⟩ := hcases
      obtain ⟨read, hconveys, hread⟩ := h.conveys
      exact h.clientStep (Client.receive_conveys hconveys hread hc)
  | clientTimeout =>
      obtain ⟨_, rfl⟩ := hcases
      obtain ⟨read, hconveys, hread⟩ := h.conveys
      exact h.clientStep ⟨read, hconveys, hread.upTo⟩
  | deliverToClient n =>
      obtain ⟨_, rfl⟩ := hcases
      exact h.deliver n
  | deliverToServer n =>
      obtain ⟨_, rfl⟩ := hcases
      exact ⟨h.capture, h.wrote, h.whole, h.conveys⟩
  | clientEof | serverEof =>
      rw [show l' = _ from hcases]
      exact ⟨h.capture, h.wrote, h.whole, h.conveys⟩

theorem linkInv_of_reachable {device : δ} {l : Link δ}
    (h : (linkSystem serverOwn clientOwn backend device).Reachable l) : LinkInv serverOwn l :=
  h.invariant (.new device) fun _ _ _ hs hstep => hs.step hstep

/-! ## §8. Order and authenticity. -/

/-- What is handed over has been built, in the same order. -/
theorem CaptureInv.handed_sublist {s : Capture} (h : CaptureInv s) :
    s.handed.Sublist s.built := by
  have hpopped : s.handed.Sublist (s.popped.map Popped.msg) :=
    List.filter_sublist.map _
  have henqueued : (s.popped.map Popped.msg).Sublist (s.enqueued.map Captured.msg) := by
    rw [h.queue, List.append_assoc]
    exact List.sublist_append_left _ _
  have hcaptured : (s.enqueued.map Captured.msg).Sublist s.built :=
    List.filter_sublist.map _
  exact (hpopped.trans henqueued).trans hcaptured

/-- **END-TO-END ORDER AND AUTHENTICITY**, in every reachable state of a session.
What the client has passed to its backend is nothing, or a `HelloAck` and then inputs
that are a prefix of what the server handed to `sink.send`, and so a subsequence of
what the hooks built.  In its loop the client has handled, of the bytes that
arrived, every complete frame behind the `Hello` it has come to, once. -/
theorem end_to_end (serverOwn clientOwn : Hello) (backend : InputInject δ) (device : δ)
    (l : Link δ) (h : (linkSystem serverOwn clientOwn backend device).Reachable l) :
    (l.client.handled = []
        ∨ ∃ acc reason inputs, l.client.handled = .helloAck acc reason :: inputs
          ∧ inputs <+: l.capture.handed ∧ inputs.Sublist l.capture.built)
      ∧ ∀ peer, l.client.phase = .session peer →
          l.arrived = messageFraming.stream (.hello peer :: l.client.handled)
            ++ l.client.framed.buffer := by
  have hinv := linkInv_of_reachable h
  obtain ⟨read, hconveys, hread⟩ := hinv.conveys
  constructor
  · rcases hread.upTo with hnone | ⟨peer, hpeer⟩
    · exact .inl hnone
    have hreads := hconveys.reads
    rw [hpeer] at hreads
    rcases hinv.wrote.upTo with hhello | ⟨acc, reason, inputs, hw, hhanded⟩
    · -- nothing behind the `Hello` was written
      have hshort := (hreads.trans hhello).length_le
      simp only [List.length_cons, List.length_nil] at hshort
      exact .inl (List.eq_nil_of_length_eq_zero (by omega))
    · rw [hw] at hreads
      have hrest : l.client.handled <+: .helloAck acc reason :: inputs :=
        (List.cons_prefix_cons.mp hreads).2
      cases hh : l.client.handled with
      | nil => exact .inl rfl
      | cons first rest =>
          rw [hh] at hrest
          obtain ⟨rfl, hprefix⟩ := List.cons_prefix_cons.mp hrest
          have hin := hprefix.trans hhanded
          exact .inr ⟨acc, reason, rest, rfl, hin, hin.sublist.trans hinv.capture.handed_sublist⟩
  · intro peer hp
    rw [hp] at hread
    rw [hconveys.decoded, show read = _ from hread]

/-- Both handshakes, and the frame of a key in the same chunk as the `HelloAck`. -/
def keyBehindHandshake : List LinkAction :=
  [.serverSend none, .clientSend none, .deliverToClient 100, .deliverToServer 100, .clientNext,
    .serverNext, .clientSend none, .serverSend none,
    .hook (.kbd (fun _ => 0x8000) HC_ACTION WM_SYSKEYDOWN ⟨HOTKEY_VK⟩),
    .hook (.kbd (fun _ => 0) HC_ACTION WM_KEYDOWN ⟨0x50⟩),
    .captureRecv, .forward none, .deliverToClient 100, .clientNext, .clientNext]

theorem end_to_end_key_behind_handshake :
    ∃ l, (linkSystem (ourHello Uuid.nil "server" ⟨1920, 1080⟩)
          (ourHello Uuid.nil "client" ⟨1920, 1080⟩) ⟨fun _ _ => (.ok (), ())⟩ ()).Reachable l
      ∧ l.client.handled = [.helloAck true none, .keyEvent 25 true ⟨false, false, false, false⟩]
      ∧ l.arrived = messageFraming.stream
          [.hello (ourHello Uuid.nil "server" ⟨1920, 1080⟩), .helloAck true none,
            .keyEvent 25 true ⟨false, false, false, false⟩] := by
  obtain ⟨l, hl⟩ : ∃ l, (linkSystem (ourHello Uuid.nil "server" ⟨1920, 1080⟩)
      (ourHello Uuid.nil "client" ⟨1920, 1080⟩) ⟨fun _ _ => (.ok (), ())⟩ ()).run
        (.new ()) keyBehindHandshake = some l := ⟨_, rfl⟩
  obtain ⟨_, hbytes⟩ := end_to_end _ _ _ _ l ⟨_, hl⟩
  refine ⟨l, ⟨_, hl⟩, ?_⟩
  cases hl
  exact ⟨rfl, (hbytes _ rfl).trans (List.append_nil _)⟩

end Dshare.Session
