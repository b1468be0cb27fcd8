/-
  Dshare.Session.Handshake
  ────────────────────────
  `handle_peer` up to its role-specific loop, as a machine.

  Both roles run the same code: send `Hello`, wait up to five seconds for the
  first frame, answer it with a `HelloAck`, go on or give up.  A `Phase` is a
  point of that code where it waits for the network.  The backends of the loops
  (`default_capture`, `default_inject`) are taken to open.

  `Framed` is the reading half of the framed stream, before and after `split`:
  the same buffer is used throughout.  A read of the socket that fails counts as
  its end: whoever waits in `next` stops at either, and only the error differs
  that the handshake returns or a loop logs.
-/
import Dshare.Protocol.Codec

namespace Dshare.Session

open Dshare.Protocol

/-! ## §1. The framed stream. -/

/-- The read buffer of `Framed`, and whether the socket has reported its end, or an error. -/
structure Framed where
  buffer : List UInt8
  eof : Bool

/-- What `framed.next()` finds without waiting. -/
inductive Polled where
  /-- Nothing complete: wait for the socket. -/
  | pending
  /-- `None`. -/
  | ended
  /-- `Some(Ok(msg))`. -/
  | item (msg : Message)
  /-- `Some(Err(e))`: of `decode` or of `decode_eof`. -/
  | error (e : ProtocolError)

/-- `framed.next()` on what has arrived.  At the end of the stream `decode_eof` is
called: no frame and bytes left over is an error. -/
def Framed.next (f : Framed) : Polled × Framed :=
  match decode Bincode.deserialize f.buffer with
  | (.ok (some msg), rest) => (.item msg, { f with buffer := rest })
  | (.error e, rest) => (.error e, { f with buffer := rest })
  | (.ok none, _) =>
      if f.eof then
        if f.buffer.isEmpty then (.ended, f) else (.error (.io "bytes remaining on stream"), f)
      else (.pending, f)

/-- The socket delivers a chunk. -/
def Framed.arrive (f : Framed) (chunk : List UInt8) : Framed :=
  { f with buffer := f.buffer ++ chunk }

/-- `next` follows the decoder. -/
theorem Framed.next_spec (f : Framed) :
    match messageDecoder.step f.buffer with
    | .more => f.next =
        if f.eof then
          if f.buffer.isEmpty then (.ended, f) else (.error (.io "bytes remaining on stream"), f)
        else (.pending, f)
    | .item (.message msg) rest => f.next = (.item msg, { f with buffer := rest })
    | .item (.malformed e) rest => f.next = (.error (.encode e), { f with buffer := rest })
    | .stop e => f.next = (.error e, f) := by
  show match answer Bincode.deserialize f.buffer with
    | .more => _
    | .item (.message msg) rest => _
    | .item (.malformed e) rest => _
    | .stop e => _
  unfold answer Framed.next
  rcases decode_cases Bincode.deserialize f.buffer with ⟨h, _⟩ | ⟨h, _⟩ | ⟨m, h, _⟩ | ⟨e, h, _⟩ <;>
    simp only [h]

/-- Without a complete frame, `next` waits; at the end of the stream it returns
something that is not a message. -/
theorem Framed.next_of_more {f : Framed} (h : messageDecoder.step f.buffer = .more) :
    (f.eof = false ∧ f.next = (.pending, f))
      ∨ (f.eof = true ∧ ∃ polled, f.next = (polled, f)
        ∧ (polled = .ended ∨ ∃ e, polled = .error e)) := by
  have hspec := f.next_spec
  simp only [h] at hspec
  cases heof : f.eof with
  | false =>
      rw [heof] at hspec
      exact .inl ⟨rfl, hspec⟩
  | true =>
      rw [heof, if_pos rfl] at hspec
      refine .inr ⟨rfl, ?_⟩
      by_cases hempty : f.buffer.isEmpty
      · rw [if_pos hempty] at hspec
        exact ⟨_, hspec, .inl rfl⟩
      · rw [if_neg hempty] at hspec
        exact ⟨_, hspec, .inr ⟨_, rfl⟩⟩

/-- A complete frame that decodes is the next item. -/
theorem Framed.next_of_message {f : Framed} {msg : Message} {rest : List UInt8}
    (h : messageDecoder.step f.buffer = .item (.message msg) rest) :
    f.next = (.item msg, { f with buffer := rest }) := by
  have hspec := f.next_spec
  simp only [h] at hspec
  exact hspec

/-- A complete frame that does not decode is an error, and it is gone. -/
theorem Framed.next_of_malformed {f : Framed} {e : ErrorKind} {rest : List UInt8}
    (h : messageDecoder.step f.buffer = .item (.malformed e) rest) :
    f.next = (.error (.encode e), { f with buffer := rest }) := by
  have hspec := f.next_spec
  simp only [h] at hspec
  exact hspec

/-- A frame that is too large is an error, and it stays. -/
theorem Framed.next_of_stop {f : Framed} {e : ProtocolError}
    (h : messageDecoder.step f.buffer = .stop e) : f.next = (.error e, f) := by
  have hspec := f.next_spec
  simp only [h] at hspec
  exact hspec

/-! ## §2. The phases of `handle_peer`. -/

/-- Why `handle_peer` returns an error. -/
inductive PeerError where
  | send (e : ProtocolError)
  /-- "timeout waiting for peer Hello". -/
  | timeout
  /-- "peer disconnected before Hello", or the error of the read that failed. -/
  | disconnected
  | protocol (e : ProtocolError)
  /-- "expected Hello, got {other:?}". -/
  | expectedHello (other : Message)
  /-- "protocol version mismatch (peer={} ours={})". -/
  | versionMismatch (peer ours : UInt16)

inductive Phase where
  /-- About to send our `Hello`. -/
  | hello
  /-- In the five-second wait for the first frame. -/
  | awaitHello
  /-- About to send the refusing `HelloAck`. -/
  | refuse (peer : Hello)
  /-- About to send the accepting `HelloAck`. -/
  | accept (peer : Hello)
  /-- In the role-specific loop. -/
  | session (peer : Hello)
  | failed (e : PeerError)
  /-- "peer session ended". -/
  | ended

/-- The reason in a refusing `HelloAck`. -/
def mismatchReason (peer ours : UInt16) : String :=
  "version mismatch: peer=" ++ toString peer.toNat ++ " ours=" ++ toString ours.toNat

/-- What the handshake sends next. -/
def Phase.outgoing (own : Hello) : Phase → Option Message
  | .hello => some (.hello own)
  | .refuse peer =>
      some (.helloAck false (some (mismatchReason peer.protocolVersion own.protocolVersion)))
  | .accept _ => some (.helloAck true none)
  | _ => none

/-- After `framed.send` succeeded. -/
def Phase.sent (own : Hello) : Phase → Phase
  | .hello => .awaitHello
  | .refuse peer => .failed (.versionMismatch peer.protocolVersion own.protocolVersion)
  | .accept peer => .session peer
  | phase => phase

/-- After `framed.send` failed; the result of the refusing send is ignored. -/
def Phase.sendFailed (own : Hello) (e : ProtocolError) : Phase → Phase
  | .hello => .failed (.send e)
  | .refuse peer => .failed (.versionMismatch peer.protocolVersion own.protocolVersion)
  | .accept _ => .failed (.send e)
  | phase => phase

/-- The first frame: it has to be a `Hello` of our version. -/
def onPeerMsg (own : Hello) : Message → Phase
  | .hello peer =>
      if peer.protocolVersion ≠ own.protocolVersion then .refuse peer else .accept peer
  | other => .failed (.expectedHello other)

/-- The end of the wait for the first frame. -/
def Phase.onFirst (own : Hello) : Polled → Option Phase
  | .pending => none
  | .ended => some (.failed .disconnected)
  | .error e => some (.failed (.protocol e))
  | .item msg => some (onPeerMsg own msg)

/-- The phases in which `handle_peer` has returned. -/
def Phase.done : Phase → Bool
  | .failed _ => true
  | .ended => true
  | _ => false

/-- The phases before the first frame has been looked at. -/
def Phase.opening : Phase → Bool
  | .hello => true
  | .awaitHello => true
  | _ => false

/-- **The three answers to the first frame.** -/
theorem onPeerMsg_cases (own : Hello) (msg : Message) :
    (∃ peer, msg = .hello peer ∧ peer.protocolVersion ≠ own.protocolVersion
        ∧ onPeerMsg own msg = .refuse peer)
      ∨ (∃ peer, msg = .hello peer ∧ peer.protocolVersion = own.protocolVersion
        ∧ onPeerMsg own msg = .accept peer)
      ∨ ((∀ peer, msg ≠ .hello peer) ∧ onPeerMsg own msg = .failed (.expectedHello msg)) := by
  cases msg with
  | hello peer =>
      by_cases hv : peer.protocolVersion = own.protocolVersion
      · refine .inr (.inl ⟨peer, rfl, hv, ?_⟩)
        show (if peer.protocolVersion ≠ own.protocolVersion then _ else _) = _
        rw [if_neg (not_not_intro hv)]
      · refine .inl ⟨peer, rfl, hv, ?_⟩
        show (if peer.protocolVersion ≠ own.protocolVersion then _ else _) = _
        rw [if_pos hv]
  | _ => exact .inr (.inr ⟨nofun, rfl⟩)

/-- Whatever the first frame is, it has been looked at afterwards. -/
theorem opening_onPeerMsg (own : Hello) (msg : Message) :
    (onPeerMsg own msg).opening = false := by
  rcases onPeerMsg_cases own msg with ⟨_, _, _, h⟩ | ⟨_, _, _, h⟩ | ⟨_, h⟩ <;> rw [h] <;> rfl

/-- No first frame at all. -/
theorem onFirst_failed (own : Hello) {polled : Polled}
    (hbad : polled = .ended ∨ ∃ e, polled = .error e) :
    ∃ e, Phase.onFirst own polled = some (.failed e) := by
  rcases hbad with rfl | ⟨e, rfl⟩
  · exact ⟨.disconnected, rfl⟩
  · exact ⟨.protocol e, rfl⟩

theorem Phase.opening_of_done {p : Phase} (h : p.done = true) : p.opening = false := by
  cases p <;> first | rfl | cases h

end Dshare.Session
