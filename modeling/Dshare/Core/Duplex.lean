/-
  Dshare.Core.Duplex
  ──────────────────
  **TWO PEER SESSIONS ON ONE CONNECTION.**

  Each end runs a write task and a read task.  What one end writes arrives at the
  other in order, in chunks of any size; the connection may break at any moment, and
  an end whose two loops have ended has dropped both halves of its stream and so closed
  its socket.

  To the two programs this is a pair of mailboxes: what is placed on `outbound` at one
  end comes out of `inbound` at the other, up to the first message that does not fit
  into a frame.

    • `Carries` — one direction, from the messages placed to the messages taken;
    • `duplex_refines_post` — every run is a run of two mailboxes;
    • `duplex_closes_only_after_drop` — what it takes for a session to end;
    • `duplex_delivers` — a connection that stays up delivers all it should, whoever
      moves when, after a number of steps that is bounded from the start.
-/
import Dshare.Lib.Mailbox
import Dshare.Lib.Replicas
import Dshare.Lib.Simulation
import Dshare.Core.ReadTask

namespace Dshare.Core

open BoundedFifo Mailboxes Replicas StreamDecoder Transition Dshare.Protocol Dshare.Session

/-! ## §1. Two ends. -/

/-- One end: the two tasks of `PeerSession::spawn`, and a log. -/
structure PeerSession (cap : Nat) where
  write : WriteTask
  /-- `sink.send(msg)` failed on the socket, and the write loop has ended. -/
  writeError : Bool
  read : ReadTask cap
  /-- The messages placed on `outbound`, in order. -/
  placed : List Message

variable {cap : Nat}

def PeerSession.spawned : PeerSession cap := ⟨.spawned, false, .spawned, []⟩

/-- The read loop has ended. -/
def ReadPhase.isEnded : ReadPhase → Bool
  | .ended _ => true
  | _ => false

/-- Both loops have ended: the two halves of the framed stream are dropped, and with them
the socket. -/
def PeerSession.closed (p : PeerSession cap) : Bool :=
  (p.writeError || decide (p.write.phase = .ended)) && p.read.phase.isEnded

/-- The two ends, and whether the connection has broken. -/
structure Duplex (cap : Nat) where
  ends : Bool → PeerSession cap
  broken : Bool

def Duplex.set (s : Duplex cap) (b : Bool) (p : PeerSession cap) : Duplex cap :=
  { s with ends := Function.update s.ends b p }

/-- The bytes on their way to `b`. -/
def Duplex.inFlight (s : Duplex cap) (b : Bool) : List UInt8 :=
  (s.ends !b).write.wire.drop (s.ends b).read.arrived.length

/-- What the tasks and their callers do; the rest is the network's. -/
def ReadAction.own : ReadAction → Bool
  | .deliver _ => false
  | .eof => false
  | _ => true

inductive DuplexAction where
  /-- A step of `b`'s write task, or of whoever holds `outbound`. -/
  | write (b : Bool) (a : WriteAction)
  /-- The socket reports an error to `b`'s `sink.send`. -/
  | writeFails (b : Bool)
  /-- A step of `b`'s read task, or of whoever holds the receiver of `inbound`. -/
  | read (b : Bool) (a : ReadAction)
  /-- The next `n` bytes reach `b`. -/
  | deliver (b : Bool) (n : Nat)
  /-- The socket reports the end of the stream to `b`. -/
  | eof (b : Bool)
  | cut

def Duplex.step (s : Duplex cap) : DuplexAction → Option (Duplex cap)
  | .write b a =>
      if (s.ends b).writeError then none
      else ((s.ends b).write.step a).map fun w => s.set b { s.ends b with
        write := w
        placed := (s.ends b).placed ++ placed [a] }
  | .writeFails b =>
      if (s.ends b).write.phase = .sending ∧ (s.broken || (s.ends !b).closed) = true then
        some (s.set b { s.ends b with writeError := true })
      else none
  | .read b a =>
      if a.own then ((s.ends b).read.step a).map fun r => s.set b { s.ends b with read := r }
      else none
  | .deliver b n =>
      if 0 < n ∧ n ≤ (s.inFlight b).length then
        ((s.ends b).read.step (.deliver ((s.inFlight b).take n))).map fun r =>
          s.set b { s.ends b with read := r }
      else none
  | .eof b =>
      if s.broken || (s.ends !b).closed then
        ((s.ends b).read.step .eof).map fun r => s.set b { s.ends b with read := r }
      else none
  | .cut => some { s with broken := true }

def duplex (cap : Nat) : System (Duplex cap) DuplexAction :=
  ⟨⟨fun _ => .spawned, false⟩, Duplex.step⟩

@[simp] theorem Duplex.set_self (s : Duplex cap) (b : Bool) (p : PeerSession cap) :
    (s.set b p).ends b = p := by simp [set]

@[simp] theorem Duplex.set_other (s : Duplex cap) (b : Bool) (p : PeerSession cap) :
    (s.set b p).ends (!b) = s.ends !b := by simp [set]

@[simp] theorem Duplex.set_broken (s : Duplex cap) (b : Bool) (p : PeerSession cap) :
    (s.set b p).broken = s.broken := rfl

/-- **What a step changes**: one end, and there one task; or the connection breaks. -/
theorem Duplex.step_cases {s s' : Duplex cap} {a : DuplexAction} (h : s.step a = some s') :
    match a with
    | .write b a => (s.ends b).writeError = false
        ∧ ∃ w, (s.ends b).write.step a = some w
          ∧ s' = s.set b { s.ends b with write := w, placed := (s.ends b).placed ++ placed [a] }
    | .writeFails b => (s.ends b).write.phase = .sending
        ∧ (s.broken || (s.ends !b).closed) = true
        ∧ s' = s.set b { s.ends b with writeError := true }
    | .read b a => a.own = true ∧ ∃ r, (s.ends b).read.step a = some r
        ∧ s' = s.set b { s.ends b with read := r }
    | .deliver b n => (0 < n ∧ n ≤ (s.inFlight b).length)
        ∧ ∃ r, (s.ends b).read.step (.deliver ((s.inFlight b).take n)) = some r
          ∧ s' = s.set b { s.ends b with read := r }
    | .eof b => (s.broken || (s.ends !b).closed) = true
        ∧ ∃ r, (s.ends b).read.step .eof = some r ∧ s' = s.set b { s.ends b with read := r }
    | .cut => s' = { s with broken := true } := by
  cases a with
  | write b a =>
      obtain ⟨hlive, hs⟩ := Option.ite_none_left_eq_some.mp h
      obtain ⟨w, hw, hs'⟩ := Option.map_eq_some_iff.mp hs
      exact ⟨by simpa using hlive, w, hw, hs'.symm⟩
  | writeFails b =>
      obtain ⟨hguard, hs⟩ := Option.ite_none_right_eq_some.mp h
      exact ⟨hguard.1, hguard.2, (Option.some.inj hs).symm⟩
  | read b a =>
      obtain ⟨hown, hs⟩ := Option.ite_none_right_eq_some.mp h
      obtain ⟨r, hr, hs'⟩ := Option.map_eq_some_iff.mp hs
      exact ⟨hown, r, hr, hs'.symm⟩
  | deliver b n =>
      obtain ⟨hguard, hs⟩ := Option.ite_none_right_eq_some.mp h
      obtain ⟨r, hr, hs'⟩ := Option.map_eq_some_iff.mp hs
      exact ⟨hguard, r, hr, hs'.symm⟩
  | eof b =>
      obtain ⟨hguard, hs⟩ := Option.ite_none_right_eq_some.mp h
      obtain ⟨r, hr, hs'⟩ := Option.map_eq_some_iff.mp hs
      exact ⟨hguard, r, hr, hs'.symm⟩
  | cut => exact (Option.some.inj h).symm

/-! ## §2. One direction. -/

/-- The bytes an action of the read task hands to it. -/
def ReadAction.bytes : ReadAction → List UInt8
  | .deliver bytes => bytes
  | _ => []

theorem ReadTask.step_arrived {t t' : ReadTask cap} {a : ReadAction} (h : t.step a = some t') :
    t'.arrived = t.arrived ++ a.bytes := by
  have hcases := step_cases h
  cases a with
  | deliver bytes =>
      obtain ⟨_, rfl⟩ := hcases
      rfl
  | eof =>
      cases hcases
      exact (List.append_nil _).symm
  | next =>
      obtain ⟨_, ⟨_, _, _, rfl⟩ | ⟨_, _, _, _, rfl⟩ | ⟨_, _, _, _, rfl⟩⟩ := hcases <;>
        exact (List.append_nil _).symm
  | send =>
      obtain ⟨_, _, ⟨_, _, _, rfl⟩ | ⟨_, rfl⟩⟩ := hcases <;> exact (List.append_nil _).symm
  | take =>
      obtain ⟨_, _, _, _, rfl⟩ := hcases
      exact (List.append_nil _).symm
  | drop =>
      obtain ⟨_, rfl⟩ := hcases
      exact (List.append_nil _).symm

theorem ReadAction.bytes_of_own {a : ReadAction} (h : a.own = true) : a.bytes = [] := by
  cases a with
  | deliver bytes => cases h
  | _ => rfl

/-- What is on the wire stays there. -/
theorem WriteTask.step_wire {t t' : WriteTask} {a : WriteAction} (h : t.step a = some t') :
    t.wire <+: t'.wire := by
  have hcases := step_cases h
  cases a with
  | place msg =>
      obtain ⟨_, _, _, rfl⟩ := hcases
      exact List.prefix_rfl
  | refuse msg =>
      obtain ⟨_, rfl⟩ := hcases
      exact List.prefix_rfl
  | close =>
      cases hcases
      exact List.prefix_rfl
  | recv =>
      obtain ⟨_, ⟨_, _, rfl⟩ | ⟨_, _, _, ⟨_, rfl⟩ | ⟨_, rfl⟩⟩⟩ := hcases <;> exact List.prefix_rfl
  | write n =>
      obtain ⟨_, rfl⟩ := hcases
      exact List.prefix_append _ _

/-- The messages that get through. -/
def fitsB (msg : Message) : Bool := decide (Fits msg)

/-- **One direction**: what the writer has placed, what the reader has got of it, and the
bytes between them. -/
structure Carries (writer reader : PeerSession cap) : Prop where
  ledger : ∃ taken left, WriteTask.Ledger writer.placed writer.write taken left
  arrived : reader.read.arrived <+: writer.write.wire
  reads : reader.read.Reads

/-- What has arrived was written for the messages taken off `outbound`, and reads as some of
them. -/
theorem Carries.readable_eq {writer reader : PeerSession cap} (h : Carries writer reader)
    {taken left : List Message}
    (hledger : WriteTask.Ledger writer.placed writer.write taken left) :
    messageDecoder.drain reader.read.arrived
        = ⟨(messageFraming.within reader.read.arrived.length taken).map .message,
          reader.read.arrived.drop
            (messageFraming.stream
              (messageFraming.within reader.read.arrived.length taken)).length, none⟩
      ∧ reader.read.readable = messageFraming.within reader.read.arrived.length taken := by
  have hwire : reader.read.arrived <+: messageFraming.stream taken := by
    rw [← hledger.written]
    exact h.arrived.trans (List.prefix_append _ _)
  have hdrain := messageFraming.drain_prefix taken hledger.fits _ hwire
  refine ⟨hdrain, ?_⟩
  have hmap := messagesUpTo_map (messageFraming.within reader.read.arrived.length taken) []
  rw [List.append_nil] at hmap
  unfold ReadTask.readable
  rw [hdrain]
  exact hmap.trans (List.append_nil _)

/-- No frame that has arrived is bad. -/
theorem Carries.clean {writer reader : PeerSession cap} (h : Carries writer reader) :
    Clean (messageDecoder.drain reader.read.arrived) := by
  obtain ⟨taken, left, hledger⟩ := h.ledger
  rw [(h.readable_eq hledger).1]
  refine ⟨rfl, ?_⟩
  intro o ho
  obtain ⟨msg, _, rfl⟩ := List.mem_map.mp ho
  exact ⟨msg, rfl⟩

/-- **The reader has got the front of what the writer placed**, and nothing else. -/
theorem Carries.decoded_prefix {writer reader : PeerSession cap} (h : Carries writer reader) :
    reader.read.decoded <+: sendable fitsB writer.placed := by
  obtain ⟨taken, left, hledger⟩ := h.ledger
  have htaken : taken <+: sendable fitsB writer.placed := by
    refine prefix_sendable ?_ ?_
    · rw [hledger.placed]
      exact List.prefix_append _ _
    · rw [List.all_eq_true]
      exact fun msg hmsg => decide_eq_true (hledger.fits msg hmsg)
  refine h.reads.decoded_prefix.trans (List.IsPrefix.trans ?_ htaken)
  rw [(h.readable_eq hledger).2]
  exact messageFraming.within_prefix _ _

/-- Both directions. -/
def Duplex.Inv (s : Duplex cap) : Prop := ∀ b, Carries (s.ends b) (s.ends !b)

theorem Duplex.Inv.set {s : Duplex cap} (b : Bool) {p : PeerSession cap}
    (hout : Carries p (s.ends !b)) (hin : Carries (s.ends !b) p) : (s.set b p).Inv := by
  intro c
  rcases eq_or_eq_not c b with rfl | rfl
  · rw [Duplex.set_self, Duplex.set_other]
    exact hout
  · rw [Duplex.set_other, Bool.not_not, Duplex.set_self]
    exact hin

theorem Duplex.Inv.incoming {s : Duplex cap} (h : s.Inv) (b : Bool) :
    Carries (s.ends !b) (s.ends b) := by
  have hin := h !b
  rwa [Bool.not_not] at hin

/-- The read task of `b` takes a step, with bytes that are the next in flight. -/
theorem Duplex.Inv.read {s : Duplex cap} (h : s.Inv) {b : Bool} {a : ReadAction}
    {r : ReadTask cap} (hstep : (s.ends b).read.step a = some r)
    (hbytes : a.bytes <+: s.inFlight b) :
    (s.set b { s.ends b with read := r }).Inv := by
  have hout := h b
  have hin := h.incoming b
  refine Inv.set b ⟨hout.ledger, hout.arrived, hout.reads⟩
    ⟨hin.ledger, ?_, hin.reads.step hstep⟩
  obtain ⟨onWire, hwire⟩ := hin.arrived
  have hflight : s.inFlight b = onWire := by
    unfold inFlight
    rw [← hwire, List.drop_left]
  show r.arrived <+: (s.ends !b).write.wire
  rw [ReadTask.step_arrived hstep, ← hwire, List.prefix_append_right_inj, ← hflight]
  exact hbytes

/-- **Every step keeps both directions.** -/
theorem Duplex.Inv.step {s s' : Duplex cap} {a : DuplexAction} (h : s.Inv)
    (hstep : s.step a = some s') : s'.Inv := by
  have hcases := step_cases hstep
  cases a with
  | write b a =>
      obtain ⟨_, w, hw, rfl⟩ := hcases
      have hout := h b
      have hin := h.incoming b
      obtain ⟨taken, left, hledger⟩ := hout.ledger
      exact Inv.set b
        ⟨hledger.step hw, hout.arrived.trans (WriteTask.step_wire hw), hout.reads⟩
        ⟨hin.ledger, hin.arrived, hin.reads⟩
  | writeFails b =>
      obtain ⟨_, _, rfl⟩ := hcases
      have hout := h b
      have hin := h.incoming b
      exact Inv.set b ⟨hout.ledger, hout.arrived, hout.reads⟩ ⟨hin.ledger, hin.arrived, hin.reads⟩
  | read b a =>
      obtain ⟨hown, r, hr, rfl⟩ := hcases
      refine h.read hr ?_
      rw [ReadAction.bytes_of_own hown]
      exact List.nil_prefix
  | deliver b n =>
      obtain ⟨_, r, hr, rfl⟩ := hcases
      exact h.read hr (List.take_prefix _ _)
  | eof b =>
      obtain ⟨_, r, hr, rfl⟩ := hcases
      exact h.read hr List.nil_prefix
  | cut =>
      cases hcases
      exact h

theorem Duplex.Inv.init : (duplex cap).init.Inv := by
  intro b
  exact ⟨⟨[], [], .spawned⟩, List.prefix_rfl, .spawned⟩

theorem Duplex.inv_of_reachable {s : Duplex cap} (h : (duplex cap).Reachable s) : s.Inv :=
  h.invariant Inv.init fun _ _ _ hs hstep => hs.step hstep

/-! ## §3. Two mailboxes. -/

/-- What the callers do: `b` places a message, or takes one. -/
def duplexEvent (s : Duplex cap) : DuplexAction → Option (PostEvent Message)
  | .write b (.place msg) => some (.put b msg)
  | .read b .take => (s.ends b).read.inbound.recv.map fun p => .got b p.1
  | _ => none

/-- The letters of `b`: what it has placed, less what the other end has taken. -/
def Duplex.mail (s : Duplex cap) (b : Bool) : Mailbox Message :=
  .holding fitsB (s.ends b).placed (s.ends !b).read.taken.length

theorem Carries.taken_front {writer reader : PeerSession cap} (h : Carries writer reader) :
    reader.read.taken <+: sendable fitsB writer.placed := by
  refine List.IsPrefix.trans ?_ h.decoded_prefix
  unfold ReadTask.decoded
  rw [List.append_assoc]
  exact List.prefix_append _ _

/-- An end that has placed and taken what it had. -/
theorem Duplex.mail_set {s : Duplex cap} {b : Bool} {p : PeerSession cap}
    (hplaced : p.placed = (s.ends b).placed) (htaken : p.read.taken = (s.ends b).read.taken) :
    (s.set b p).mail = s.mail := by
  funext c
  unfold mail
  rcases eq_or_eq_not c b with rfl | rfl
  · rw [set_self, set_other, hplaced]
  · rw [set_other, Bool.not_not, set_self, htaken]

/-- One more message has been placed. -/
theorem Duplex.mail_place {s : Duplex cap} (h : s.Inv) (b : Bool) (msg : Message) (w : WriteTask) :
    (s.set b { s.ends b with write := w, placed := (s.ends b).placed ++ [msg] }).mail
      = Function.update s.mail b ((s.mail b).put fitsB msg) := by
  have hput := Mailbox.holding_put (h b).taken_front.length_le msg
  funext c
  rcases eq_or_eq_not c b with rfl | rfl
  · rw [Function.update_self]
    unfold mail
    rw [hput, set_self, set_other]
  · rw [Function.update_of_ne (by simp)]
    unfold mail
    rw [set_other, Bool.not_not, set_self]

/-- The oldest letter for `b` has been taken. -/
theorem Duplex.mail_take {s : Duplex cap} (h : s.Inv) {b : Bool} {msg : Message}
    {inbound : Fifo Message cap} (hitems : (s.ends b).read.inbound.items = msg :: inbound.items) :
    (s.mail !b).get = some (msg, (s.set b { s.ends b with
        read := { (s.ends b).read with
          inbound := inbound, taken := (s.ends b).read.taken ++ [msg] } }).mail !b) := by
  have hin := h.incoming b
  have hfront : (s.ends b).read.taken ++ [msg] <+: sendable fitsB (s.ends !b).placed := by
    refine List.IsPrefix.trans ?_ hin.decoded_prefix
    unfold ReadTask.decoded
    rw [hitems, List.append_assoc, List.cons_append]
    exact (List.prefix_append_right_inj _).mpr ⟨_, rfl⟩
  have hget := Mailbox.holding_get hfront
  unfold mail
  rw [set_other, Bool.not_not, set_self, hget, List.length_append]
  rfl

/-- A step of which the callers see nothing. -/
theorem Duplex.mail_silent {s s' : Duplex cap} {a : DuplexAction} (hmail : s'.mail = s.mail)
    (hevent : duplexEvent s a = none) :
    ∃ bs, (post fitsB).run s.mail bs = some s'.mail
      ∧ (post fitsB).trace postEvent s.mail bs = (duplexEvent s a).toList := by
  refine ⟨[], congrArg some hmail.symm, ?_⟩
  rw [hevent]
  rfl

/-- A step of a read task. -/
theorem Duplex.mail_read {s : Duplex cap} (h : s.Inv) {b : Bool} {a : ReadAction}
    {r : ReadTask cap} (hown : a.own = true) (hr : (s.ends b).read.step a = some r) :
    ∃ bs, (post fitsB).run s.mail bs = some (s.set b { s.ends b with read := r }).mail
      ∧ (post fitsB).trace postEvent s.mail bs = (duplexEvent s (.read b a)).toList := by
  have hread := ReadTask.step_cases hr
  cases a with
  | deliver bytes => cases hown
  | eof => cases hown
  | next =>
      refine mail_silent (mail_set rfl ?_) rfl
      obtain ⟨_, ⟨_, _, _, rfl⟩ | ⟨_, _, _, _, rfl⟩ | ⟨_, _, _, _, rfl⟩⟩ := hread <;> rfl
  | send =>
      refine mail_silent (mail_set rfl ?_) rfl
      obtain ⟨_, _, ⟨_, _, _, rfl⟩ | ⟨_, rfl⟩⟩ := hread <;> rfl
  | drop =>
      refine mail_silent (mail_set rfl ?_) rfl
      obtain ⟨_, rfl⟩ := hread
      rfl
  | take =>
      obtain ⟨_, msg, inbound, hitems, rfl⟩ := hread
      have hget := mail_take h hitems
      have hevent : duplexEvent s (.read b .take) = some (.got b msg) := by
        show (s.ends b).read.inbound.recv.map _ = _
        rw [Fifo.recv_eq_some.mpr hitems]
        rfl
      have hstep : (post fitsB).step s.mail (.get b) = some (s.set b { s.ends b with
          read := { (s.ends b).read with
            inbound := inbound, taken := (s.ends b).read.taken ++ [msg] } }).mail := by
        show (s.mail !b).get.map _ = _
        rw [hget]
        refine congrArg some ?_
        funext c
        rcases eq_or_eq_not c b with rfl | rfl
        · show Function.update s.mail (!c) _ c = _
          rw [Function.update_of_ne (by simp)]
          unfold mail
          rw [set_self, set_other]
        · exact Function.update_self _ _ _
      refine ⟨[.get b], System.run_cons.mpr ⟨_, hstep, rfl⟩, ?_⟩
      rw [System.trace_cons hstep, hevent]
      show ((s.mail !b).get.map _).toList ++ [] = _
      rw [hget]
      rfl

/-- **Every step is one of two mailboxes, or none.** -/
theorem Duplex.mail_step {s s' : Duplex cap} {a : DuplexAction} (h : s.Inv)
    (hstep : s.step a = some s') :
    ∃ bs, (post fitsB).run s.mail bs = some s'.mail
      ∧ (post fitsB).trace postEvent s.mail bs = (duplexEvent s a).toList := by
  have hcases := step_cases hstep
  cases a with
  | write b a =>
      obtain ⟨_, w, _, rfl⟩ := hcases
      have hquiet : placed [a] = [] →
          (s.set b { s.ends b with write := w, placed := (s.ends b).placed ++ placed [a] }).mail
            = s.mail := by
        intro hnone
        refine mail_set ?_ rfl
        rw [hnone]
        exact List.append_nil _
      cases a with
      | place msg => exact ⟨[.put b msg], congrArg some (mail_place h b msg w).symm, rfl⟩
      | refuse msg => exact mail_silent (hquiet rfl) rfl
      | close => exact mail_silent (hquiet rfl) rfl
      | recv => exact mail_silent (hquiet rfl) rfl
      | write n => exact mail_silent (hquiet rfl) rfl
  | writeFails b =>
      obtain ⟨_, _, rfl⟩ := hcases
      refine mail_silent (mail_set ?_ ?_) rfl <;> rfl
  | read b a =>
      obtain ⟨hown, r, hr, rfl⟩ := hcases
      exact mail_read h hown hr
  | deliver b n =>
      obtain ⟨_, r, hr, rfl⟩ := hcases
      obtain ⟨_, rfl⟩ := ReadTask.step_cases hr
      refine mail_silent (mail_set ?_ ?_) rfl <;> rfl
  | eof b =>
      obtain ⟨_, r, hr, rfl⟩ := hcases
      cases ReadTask.step_cases hr
      refine mail_silent (mail_set ?_ ?_) rfl <;> rfl
  | cut =>
      cases hcases
      exact mail_silent rfl rfl

theorem duplex_simulates (cap : Nat) :
    Simulates (duplex cap) (post fitsB) duplexEvent postEvent
      fun s box => s.Inv ∧ box = s.mail where
  init := ⟨Duplex.Inv.init, rfl⟩
  step := by
    intro s box a s' hR hstep
    obtain ⟨hinv, rfl⟩ := hR
    obtain ⟨bs, hrun, htrace⟩ := Duplex.mail_step hinv hstep
    exact ⟨bs, s'.mail, hrun, htrace, hinv.step hstep, rfl⟩

/-- **TO ITS CALLERS A CONNECTION IS TWO MAILBOXES**, whatever the network does to it and
whoever stops: what both sides see of a run, in the order they see it, is what they could
see of two mailboxes. -/
theorem duplex_refines_post (cap : Nat) (as : List DuplexAction) (s : Duplex cap)
    (h : (duplex cap).run (duplex cap).init as = some s) :
    ∃ bs box, (post fitsB).run (post fitsB).init bs = some box
      ∧ (post fitsB).trace postEvent (post fitsB).init bs
          = (duplex cap).trace duplexEvent (duplex cap).init as
      ∧ ∀ b, (s.ends !b).read.taken <+: sendable fitsB (s.ends b).placed := by
  obtain ⟨bs, box, hrun, htrace, hinv, _⟩ :=
    (duplex_simulates cap).run (duplex_simulates cap).init h
  exact ⟨bs, box, hrun, htrace, fun b => (hinv b).taken_front⟩

/-- A `Ping` all the way from one caller to the other. -/
def pingAcross : List DuplexAction :=
  [.write false (.place (.ping 7)), .write false .recv, .write false (.write 16),
    .deliver true 16, .read true .next, .read true .send, .read true .take]

theorem duplex_refines_post_ping :
    ∃ bs box, (post fitsB).run (post fitsB).init bs = some box
      ∧ (post fitsB).trace postEvent (post fitsB).init bs
          = [.put false (.ping 7), .got true (.ping 7)] := by
  obtain ⟨s, hs⟩ : ∃ s, (duplex 1).run (duplex 1).init pingAcross = some s := ⟨_, rfl⟩
  obtain ⟨bs, box, hrun, htrace, _⟩ := duplex_refines_post 1 pingAcross s hs
  exact ⟨bs, box, hrun, htrace.trans rfl⟩

/-! ## §4. What ends a session. -/

/-- The connection is up, and neither caller has dropped the receiver of its `inbound`. -/
structure Duplex.Up (s : Duplex cap) : Prop where
  connected : s.broken = false
  held : ∀ b, (s.ends b).read.receiver = true

/-- No socket call has failed at this end, and it still reads. -/
structure PeerSession.Running (p : PeerSession cap) : Prop where
  writes : p.writeError = false
  reads : p.read.phase.isEnded = false
  stream : p.read.framed.eof = false

theorem PeerSession.Running.not_closed {p : PeerSession cap} (h : p.Running) :
    p.closed = false := by
  unfold closed
  rw [h.reads, Bool.and_false]

/-- **Only its own caller drops a receiver**, and none comes back. -/
theorem ReadTask.receiver_step {t t' : ReadTask cap} {a : ReadAction} (h : t.step a = some t') :
    t'.receiver = true ↔ t.receiver = true ∧ a ≠ .drop := by
  have hcases := step_cases h
  cases a with
  | deliver bytes =>
      obtain ⟨_, rfl⟩ := hcases
      simp
  | eof =>
      cases hcases
      simp
  | next =>
      obtain ⟨_, ⟨_, _, _, rfl⟩ | ⟨_, _, _, _, rfl⟩ | ⟨_, _, _, _, rfl⟩⟩ := hcases <;> simp
  | send => obtain ⟨_, _, ⟨_, _, _, rfl⟩ | ⟨_, rfl⟩⟩ := hcases <;> simp
  | take =>
      obtain ⟨_, _, _, _, rfl⟩ := hcases
      simp
  | drop =>
      obtain ⟨_, rfl⟩ := hcases
      simp

/-- A read task that is handed only good frames reads on while its receiver is there. -/
theorem ReadTask.step_running {t t' : ReadTask cap} {a : ReadAction} (h : t.step a = some t')
    (hown : a.own = true) (hreads : t.Reads) (hclean : Clean (messageDecoder.drain t.arrived))
    (hrun : t.phase.isEnded = false) (heof : t.framed.eof = false) (hheld : t'.receiver = true) :
    t'.phase.isEnded = false ∧ t'.framed.eof = false := by
  have hcases := step_cases h
  have hreceiver := ((receiver_step h).mp hheld).1
  cases a with
  | deliver bytes => cases hown
  | eof => cases hown
  | next =>
      obtain ⟨hp, ⟨_, _, _, rfl⟩ | ⟨hend, _, _, _, _⟩ | ⟨hbad, _, _, _, _⟩⟩ := hcases
      · exact ⟨rfl, heof⟩
      · rw [heof] at hend
        cases hend
      · -- what is left of a clean stream is clean
        have htook := hreads.took fun why hwhy => by rw [hp] at hwhy; cases hwhy
        refine absurd ⟨htook.stopped_eq.symm.trans hclean.1, ?_⟩ hbad
        intro o ho
        refine hclean.2 o ?_
        rw [htook.outs_eq]
        exact List.mem_append_right _ ho
  | send =>
      obtain ⟨_, _, ⟨_, _, _, rfl⟩ | ⟨hr, _⟩⟩ := hcases
      · exact ⟨rfl, heof⟩
      · rw [hreceiver] at hr
        cases hr
  | take =>
      obtain ⟨_, _, _, _, rfl⟩ := hcases
      exact ⟨hrun, heof⟩
  | drop =>
      obtain ⟨_, rfl⟩ := hcases
      exact ⟨hrun, heof⟩

theorem Duplex.ends_of_set {s : Duplex cap} {P : PeerSession cap → Prop} {b : Bool}
    {p : PeerSession cap} (h : ∀ c, P (s.ends c)) (hp : P p) : ∀ c, P ((s.set b p).ends c) := by
  intro c
  rcases eq_or_eq_not c b with rfl | rfl
  · rw [set_self]
    exact hp
  · rw [set_other]
    exact h _

/-- What is up was up. -/
theorem Duplex.Up.before {s s' : Duplex cap} {a : DuplexAction} (h : s'.Up)
    (hstep : s.step a = some s') : s.Up := by
  have hcases := step_cases hstep
  -- the end that moved had its receiver if it has it now
  have hset : ∀ {b : Bool} {p : PeerSession cap}, s' = s.set b p →
      (p.read.receiver = true → (s.ends b).read.receiver = true) → s.Up := by
    rintro b p rfl hp
    refine ⟨h.connected, fun c => ?_⟩
    have hc := h.held c
    rcases eq_or_eq_not c b with rfl | rfl
    · rw [set_self] at hc
      exact hp hc
    · rw [set_other] at hc
      exact hc
  cases a with
  | write b a =>
      obtain ⟨_, w, _, hs'⟩ := hcases
      exact hset hs' fun hr => hr
  | writeFails b =>
      obtain ⟨_, _, hs'⟩ := hcases
      exact hset hs' fun hr => hr
  | read b a =>
      obtain ⟨_, r, hr, hs'⟩ := hcases
      exact hset hs' fun hheld => ((ReadTask.receiver_step hr).mp hheld).1
  | deliver b n =>
      obtain ⟨_, r, hr, hs'⟩ := hcases
      exact hset hs' fun hheld => ((ReadTask.receiver_step hr).mp hheld).1
  | eof b =>
      obtain ⟨_, r, hr, hs'⟩ := hcases
      exact hset hs' fun hheld => ((ReadTask.receiver_step hr).mp hheld).1
  | cut =>
      cases hcases
      cases h.connected

/-- **While the connection is up, every step leaves both ends running.** -/
theorem Duplex.step_running {s s' : Duplex cap} {a : DuplexAction} (hinv : s.Inv)
    (hrun : ∀ b, (s.ends b).Running) (hstep : s.step a = some s') (hup : s'.Up) :
    ∀ b, (s'.ends b).Running := by
  have hcases := step_cases hstep
  have hwas := hup.before hstep
  -- so the socket has no reason to fail
  have hno : ∀ b, ¬ (s.broken || (s.ends !b).closed) = true := by
    intro b
    rw [hwas.connected, (hrun !b).not_closed]
    exact Bool.false_ne_true
  cases a with
  | write b a =>
      obtain ⟨_, w, _, rfl⟩ := hcases
      exact ends_of_set hrun ⟨(hrun b).writes, (hrun b).reads, (hrun b).stream⟩
  | writeFails b => exact absurd hcases.2.1 (hno b)
  | read b a =>
      obtain ⟨hown, r, hr, rfl⟩ := hcases
      have hheld := hup.held b
      rw [set_self] at hheld
      obtain ⟨hreads, hstream⟩ := ReadTask.step_running hr hown (hinv.incoming b).reads
        (hinv.incoming b).clean (hrun b).reads (hrun b).stream hheld
      exact ends_of_set hrun ⟨(hrun b).writes, hreads, hstream⟩
  | deliver b n =>
      obtain ⟨_, r, hr, rfl⟩ := hcases
      obtain ⟨_, rfl⟩ := ReadTask.step_cases hr
      exact ends_of_set hrun ⟨(hrun b).writes, (hrun b).reads, (hrun b).stream⟩
  | eof b => exact absurd hcases.1 (hno b)
  | cut =>
      cases hcases
      cases hup.connected

theorem Duplex.running_of_reachable {s : Duplex cap} (h : (duplex cap).Reachable s) :
    s.Up → ∀ b, (s.ends b).Running := by
  refine (h.invariant (P := fun s => s.Inv ∧ (s.Up → ∀ b, (s.ends b).Running)) ?_ ?_).2
  · exact ⟨Inv.init, fun _ _ => ⟨rfl, rfl, rfl⟩⟩
  · intro s a s' hs hstep
    exact ⟨hs.1.step hstep, fun hup => step_running hs.1 (hs.2 (hup.before hstep)) hstep hup⟩

/-- **NOTHING BUT A DROPPED RECEIVER OR THE NETWORK ENDS A SESSION**: not a message that is
too large, not the last `outbound` dropped, not a slow caller.  If a read loop has ended, an
end of the stream was seen, or a write failed on the socket, then the connection broke or a
caller dropped its receiver. -/
theorem duplex_closes_only_after_drop (cap : Nat) (s : Duplex cap)
    (h : (duplex cap).Reachable s)
    (hdown : ∃ b, (s.ends b).writeError = true ∨ (s.ends b).read.phase.isEnded = true
      ∨ (s.ends b).read.framed.eof = true) :
    s.broken = true ∨ ∃ b, (s.ends b).read.receiver = false := by
  by_contra hboth
  obtain ⟨hconnected, hheld⟩ := not_or.mp hboth
  have hup : s.Up := by
    refine ⟨by simpa using hconnected, fun b => ?_⟩
    simpa using not_exists.mp hheld b
  obtain ⟨b, hb⟩ := hdown
  have hrun := Duplex.running_of_reachable h hup b
  rw [hrun.writes, hrun.reads, hrun.stream] at hb
  simp at hb

/-- The receiver is dropped, and the loop ends at the next message. -/
theorem duplex_closes_only_after_drop_ping :
    ∃ s, (duplex 1).Reachable s ∧ ∃ b, (s.ends b).read.receiver = false := by
  obtain ⟨s, hs⟩ : ∃ s, (duplex 1).run (duplex 1).init (pingAcross.take 5
    ++ [.read true .drop, .read true .send]) = some s := ⟨_, rfl⟩
  have hreach : (duplex 1).Reachable s := ⟨_, hs⟩
  have hends : (s.ends true).read.phase.isEnded = true ∧ s.broken = false := by
    cases hs
    exact ⟨rfl, rfl⟩
  have hwhy := duplex_closes_only_after_drop 1 s hreach ⟨true, .inr (.inl hends.1)⟩
  rw [hends.2] at hwhy
  exact ⟨s, hreach, hwhy.resolve_left Bool.false_ne_true⟩

/-! ## §5. What is delivered. -/

/-- No caller places a message or drops a receiver, and the network stays up. -/
def DuplexAction.quiet : DuplexAction → Bool
  | .write _ (.place _) => false
  | .read _ .drop => false
  | .cut => false
  | _ => true

/-- The work of the tasks, of the network, and of a caller that takes a message. -/
def DuplexAction.busy : DuplexAction → Bool
  | .write _ .recv => true
  | .write _ (.write _) => true
  | .read _ .next => true
  | .read _ .send => true
  | .read _ .take => true
  | .deliver _ _ => true
  | _ => false

/-- No work is left that could be done now. -/
def Duplex.Resting (s : Duplex cap) : Prop := ∀ a, a.busy = true → s.step a = none

/-- What a message still waiting on `outbound` costs.  A byte is cheaper the further it has
come: 6 before the sink's buffer is flushed, 5 on its way, 4 in the read buffer. -/
def queueWork : List Message → Nat
  | [] => 0
  | msg :: msgs => 6 * (frame msg).length + 1 + queueWork msgs

def WriteTask.toDo (w : WriteTask) : Nat :=
  queueWork w.channel.items + 6 * w.buffer.length + if w.phase = .ended then 0 else 1

def ReadPhase.toDo : ReadPhase → Nat
  | .reading => 1
  | .forwarding _ => 4
  | .ended _ => 0

def ReadTask.toDo (r : ReadTask cap) : Nat :=
  4 * r.framed.buffer.length + r.phase.toDo + 2 * r.inbound.items.length

/-- What is left to do in one direction. -/
def linkWork (w : WriteTask) (r : ReadTask cap) : Nat :=
  w.toDo + 5 * (w.wire.length - r.arrived.length) + r.toDo

def Duplex.work (s : Duplex cap) : Nat :=
  linkWork (s.ends false).write (s.ends true).read
    + linkWork (s.ends true).write (s.ends false).read

/-- The work, seen from either end. -/
theorem Duplex.work_eq (s : Duplex cap) (b : Bool) :
    s.work = linkWork (s.ends b).write (s.ends !b).read
      + linkWork (s.ends !b).write (s.ends b).read := by
  cases b with
  | false => rfl
  | true => exact Nat.add_comm _ _

theorem queueWork_cons (msg : Message) (msgs : List Message) :
    queueWork (msg :: msgs) = 6 * (frame msg).length + 1 + queueWork msgs := rfl

/-- The write task takes a message. -/
theorem WriteTask.toDo_recv {w w' : WriteTask} (h : w.step .recv = some w') :
    w'.toDo < w.toDo ∧ w'.wire = w.wire := by
  obtain ⟨hp, ⟨_, _, rfl⟩ | ⟨msg, channel, hchannel, ⟨_, rfl⟩ | ⟨_, rfl⟩⟩⟩ := step_cases h
  · refine ⟨?_, rfl⟩
    unfold toDo
    simp only [hp, reduceCtorEq, if_true, if_false]
    omega
  · refine ⟨?_, rfl⟩
    unfold toDo
    rw [hchannel, queueWork_cons]
    simp only [hp, reduceCtorEq, if_false, List.length_append]
    omega
  · refine ⟨?_, rfl⟩
    unfold toDo
    rw [hchannel, queueWork_cons]
    simp only [hp, reduceCtorEq, if_true, if_false]
    omega

/-- The socket takes some bytes of the write task. -/
theorem WriteTask.toDo_write {w w' : WriteTask} {n : Nat} (h : w.step (.write n) = some w') :
    w'.toDo + 5 * w'.wire.length < w.toDo + 5 * w.wire.length := by
  have hguard := (Option.ite_none_right_eq_some.mp h).1
  obtain ⟨_, rfl⟩ := step_cases h
  have hphase : (if n = w.buffer.length then WritePhase.receiving else .sending) ≠ .ended := by
    split <;> simp
  unfold toDo
  simp only [hguard.1, hphase, reduceCtorEq, if_false, List.length_append, List.length_take,
    List.length_drop]
  omega

/-- The work of the write task lowers what is left of its direction. -/
theorem linkWork_write {w w' : WriteTask} {a : WriteAction} {r : ReadTask cap}
    (harrived : r.arrived.length ≤ w.wire.length) (h : w.step a = some w')
    (hbusy : (DuplexAction.write b a).busy = true) : linkWork w' r < linkWork w r := by
  unfold linkWork
  cases a with
  | recv =>
      obtain ⟨hless, hwire⟩ := WriteTask.toDo_recv h
      rw [hwire]
      omega
  | write n =>
      have hless := WriteTask.toDo_write h
      have hwire := (WriteTask.step_wire h).length_le
      omega
  | _ => cases hbusy

/-- What the read task polls does not grow. -/
theorem ReadTask.step_next_length {r r' : ReadTask cap} (h : r.step .next = some r') :
    r'.framed.buffer.length ≤ r.framed.buffer.length := by
  have hlength := r.framed.next_length.1
  have hframed : r'.framed = r.framed.next.2 := by
    obtain ⟨hp, _⟩ := step_cases h
    simp only [step, hp] at h
    split at h
    next => cases h
    next hnext => cases h; rw [hnext]
    next hnext => cases h; rw [hnext]
    next hnext => cases h; rw [hnext]
  rw [hframed]
  exact hlength

/-- The read task's own work, and that of its caller. -/
theorem ReadTask.toDo_own {r r' : ReadTask cap} {a : ReadAction} {b : Bool}
    (h : r.step a = some r') (hbusy : (DuplexAction.read b a).busy = true) :
    r'.toDo < r.toDo := by
  have hcases := step_cases h
  cases a with
  | next =>
      have hle := step_next_length h
      obtain ⟨hp, ⟨msg, rest, hitem, rfl⟩ | ⟨_, _, _, _, rfl⟩ | ⟨_, _, e, rest, rfl⟩⟩ := hcases
      · have hless := messageDecoder.item_shorter hitem
        simp only [toDo, hp, ReadPhase.toDo]
        omega
      · simp only [toDo, hp, ReadPhase.toDo]
        omega
      · simp only [toDo, hp, ReadPhase.toDo] at hle ⊢
        omega
  | send =>
      obtain ⟨msg, hp, ⟨inbound, hitems, _, rfl⟩ | ⟨_, rfl⟩⟩ := hcases
      · simp only [toDo, hp, hitems, ReadPhase.toDo, List.length_append, List.length_singleton]
        omega
      · simp only [toDo, hp, ReadPhase.toDo]
        omega
  | take =>
      obtain ⟨_, msg, inbound, hitems, rfl⟩ := hcases
      simp only [toDo, hitems, List.length_cons]
      omega
  | deliver bytes => cases hbusy
  | eof => cases hbusy
  | drop => cases hbusy

/-- The work of the read task lowers what is left of its direction. -/
theorem linkWork_read {w : WriteTask} {r r' : ReadTask cap} {a : ReadAction} {b : Bool}
    (h : r.step a = some r') (hbusy : (DuplexAction.read b a).busy = true) :
    linkWork w r' < linkWork w r := by
  have hless := ReadTask.toDo_own h hbusy
  have harrived : r'.arrived = r.arrived := by
    rw [ReadTask.step_arrived h]
    cases a with
    | deliver bytes => cases hbusy
    | _ => exact List.append_nil _
  unfold linkWork
  rw [harrived]
  omega

/-- So does a delivery. -/
theorem linkWork_deliver {w : WriteTask} {r r' : ReadTask cap} {bytes : List UInt8}
    (h : r.step (.deliver bytes) = some r') (hpos : 0 < bytes.length)
    (hbytes : r.arrived.length + bytes.length ≤ w.wire.length) :
    linkWork w r' < linkWork w r := by
  obtain ⟨_, rfl⟩ := ReadTask.step_cases h
  simp only [linkWork, ReadTask.toDo, Framed.arrive, List.length_append]
  omega

/-- An end takes a step in the direction it writes. -/
theorem Duplex.work_write {s : Duplex cap} {b : Bool} {w : WriteTask} {msgs : List Message}
    (h : linkWork w (s.ends !b).read < linkWork (s.ends b).write (s.ends !b).read) :
    (s.set b { s.ends b with write := w, placed := msgs }).work < s.work := by
  rw [work_eq _ b, work_eq s b, set_self, set_other]
  show linkWork w (s.ends !b).read + linkWork (s.ends !b).write (s.ends b).read < _
  omega

/-- An end takes a step in the direction it reads. -/
theorem Duplex.work_read {s : Duplex cap} {b : Bool} {r : ReadTask cap}
    (h : linkWork (s.ends !b).write r < linkWork (s.ends !b).write (s.ends b).read) :
    (s.set b { s.ends b with read := r }).work < s.work := by
  rw [work_eq _ b, work_eq s b, set_self, set_other]
  show linkWork (s.ends b).write (s.ends !b).read + linkWork (s.ends !b).write r < _
  omega

/-- **Work is work**: each piece of it leaves less to do. -/
theorem Duplex.work_lowers {s s' : Duplex cap} {a : DuplexAction} (h : s.Inv)
    (hstep : s.step a = some s') (hbusy : a.busy = true) : s'.work < s.work := by
  have hcases := step_cases hstep
  cases a with
  | write b a =>
      obtain ⟨_, w, hw, rfl⟩ := hcases
      exact work_write (linkWork_write (h b).arrived.length_le hw hbusy)
  | read b a =>
      obtain ⟨_, r, hr, rfl⟩ := hcases
      exact work_read (linkWork_read hr hbusy)
  | deliver b n =>
      obtain ⟨⟨hpos, hn⟩, r, hr, rfl⟩ := hcases
      have hflight : (s.inFlight b).length
          = (s.ends !b).write.wire.length - (s.ends b).read.arrived.length := List.length_drop
      have harrived := (h.incoming b).arrived.length_le
      refine work_read (linkWork_deliver hr ?_ ?_)
      · rw [List.length_take]
        omega
      · rw [List.length_take]
        omega
  | writeFails b => cases hbusy
  | eof b => cases hbusy
  | cut => cases hbusy

/-- What is not work and not a caller's doing leaves as much to do. -/
theorem Duplex.work_atMost {s s' : Duplex cap} {a : DuplexAction}
    (hrun : ∀ b, (s.ends b).Running) (hup : s.Up) (hstep : s.step a = some s')
    (hquiet : a.quiet = true) (hbusy : a.busy = false) : s'.work ≤ s.work := by
  have hcases := step_cases hstep
  have hno : ∀ b, ¬ (s.broken || (s.ends !b).closed) = true := by
    intro b
    rw [hup.connected, (hrun !b).not_closed]
    exact Bool.false_ne_true
  cases a with
  | write b a =>
      obtain ⟨_, w, hw, rfl⟩ := hcases
      have hwork : linkWork w (s.ends !b).read = linkWork (s.ends b).write (s.ends !b).read := by
        have hwrite := WriteTask.step_cases hw
        cases a with
        | refuse msg =>
            obtain ⟨_, rfl⟩ := hwrite
            rfl
        | close => cases hwrite; rfl
        | place msg => cases hquiet
        | recv => cases hbusy
        | write n => cases hbusy
      rw [work_eq _ b, work_eq s b, set_self, set_other]
      show linkWork w (s.ends !b).read + linkWork (s.ends !b).write (s.ends b).read ≤ _
      omega
  | writeFails b => exact absurd hcases.2.1 (hno b)
  | read b a =>
      have hown := hcases.1
      cases a with
      | deliver bytes => cases hown
      | eof => cases hown
      | next => cases hbusy
      | send => cases hbusy
      | take => cases hbusy
      | drop => cases hquiet
  | deliver b n => cases hbusy
  | eof b => exact absurd hcases.1 (hno b)
  | cut => cases hquiet

/-- What is up stays up while its callers and the network do nothing to it. -/
theorem Duplex.Up.step {s s' : Duplex cap} {a : DuplexAction} (h : s.Up)
    (hstep : s.step a = some s') (hquiet : a.quiet = true) : s'.Up := by
  have hcases := step_cases hstep
  have hset : ∀ {b : Bool} {p : PeerSession cap}, p.read.receiver = true → (s.set b p).Up :=
    fun hp => ⟨h.connected, ends_of_set (P := fun p => p.read.receiver = true) h.held hp⟩
  cases a with
  | write b a =>
      obtain ⟨_, w, _, rfl⟩ := hcases
      exact hset (h.held b)
  | writeFails b =>
      obtain ⟨_, _, rfl⟩ := hcases
      exact hset (h.held b)
  | read b a =>
      obtain ⟨_, r, hr, rfl⟩ := hcases
      refine hset ((ReadTask.receiver_step hr).mpr ⟨h.held b, ?_⟩)
      rintro rfl
      cases hquiet
  | deliver b n =>
      obtain ⟨_, r, hr, rfl⟩ := hcases
      exact hset ((ReadTask.receiver_step hr).mpr ⟨h.held b, ReadAction.noConfusion⟩)
  | eof b =>
      obtain ⟨_, r, hr, rfl⟩ := hcases
      exact hset ((ReadTask.receiver_step hr).mpr ⟨h.held b, ReadAction.noConfusion⟩)
  | cut => cases hquiet

/-- A session in which no call has failed and none is about to. -/
structure Duplex.Healthy (s : Duplex cap) : Prop where
  inv : s.Inv
  up : s.Up
  running : ∀ b, (s.ends b).Running

theorem Duplex.works (cap : Nat) :
    Works (duplex cap) Duplex.Healthy (fun a => a.quiet = true) DuplexAction.busy Duplex.work where
  keeps := by
    intro s a s' h hquiet hstep
    have hup := h.up.step hstep hquiet
    exact ⟨h.inv.step hstep, hup, step_running h.inv h.running hstep hup⟩
  lowers := fun h _ hstep hbusy => work_lowers h.inv hstep hbusy
  atMost := fun h hquiet hstep hbusy => work_atMost h.running h.up hstep hquiet hbusy

/-- A write task that can do nothing has written all that fits. -/
theorem Duplex.Healthy.written {s : Duplex cap} (h : s.Healthy) (hrest : s.Resting) (b : Bool) :
    ∃ taken left, WriteTask.Ledger (s.ends b).placed (s.ends b).write taken left
      ∧ (s.ends b).write.wire = messageFraming.stream taken
      ∧ sendable fitsB (s.ends b).placed = taken := by
  obtain ⟨taken, left, hledger⟩ := (h.inv b).ledger
  have hidle : ∀ a, (DuplexAction.write b a).busy = true → (s.ends b).write.step a = none := by
    intro a ha
    have hnone := hrest (.write b a) ha
    simp only [step, (h.running b).writes, Bool.false_eq_true, if_false] at hnone
    exact Option.map_eq_none_iff.mp hnone
  have hsettled : (s.ends b).write.Settled := by
    by_contra hbusy
    obtain ⟨a, w, hw, hplaced, hless⟩ := WriteTask.exists_work hledger hbusy
    have hcases := WriteTask.step_cases hw
    cases a with
    | recv => rw [hidle .recv rfl] at hw; cases hw
    | write n => rw [hidle (.write n) rfl] at hw; cases hw
    | place msg => cases hplaced
    | refuse msg =>
        obtain ⟨_, rfl⟩ := hcases
        exact Nat.lt_irrefl _ hless
    | close =>
        cases hcases
        exact Nat.lt_irrefl _ hless
  have hbuffer : (s.ends b).write.buffer = [] := by
    refine hledger.flushed.mpr ?_
    obtain ⟨hphase, -⟩ | hphase := hsettled <;> simp [hphase]
  refine ⟨taken, left, hledger, ?_, ?_⟩
  · rw [← hledger.written, hbuffer, List.append_nil]
  · rw [hledger.placed]
    refine sendable_eq ?_ ?_
    · rw [List.all_eq_true]
      exact fun msg hmsg => decide_eq_true (hledger.fits msg hmsg)
    · intro msg hmsg
      refine decide_eq_false ?_
      obtain ⟨hphase, hempty⟩ | hphase := hsettled
      · rw [hledger.waiting (by simp [hphase]), hempty] at hmsg
        cases hmsg
      · exact hledger.ended hphase msg hmsg

/-- All that was written has arrived. -/
theorem Duplex.Healthy.arrived_eq {s : Duplex cap} (h : s.Healthy) (hrest : s.Resting) (b : Bool) :
    (s.ends b).read.arrived = (s.ends !b).write.wire := by
  obtain ⟨onWire, hwire⟩ := (h.inv.incoming b).arrived
  have hflight : s.inFlight b = onWire := by
    unfold inFlight
    rw [← hwire, List.drop_left]
  -- a byte in flight could be delivered
  have hnone : onWire.length = 0 := by
    by_contra hpos
    have hstep := hrest (.deliver b (s.inFlight b).length) rfl
    simp only [step, ReadTask.step, (h.running b).stream, hflight, Nat.le_refl, and_true,
      Nat.pos_of_ne_zero hpos, if_true, Bool.false_eq_true, if_false, Option.map_some] at hstep
    cases hstep
  rw [← hwire, List.eq_nil_of_length_eq_zero hnone, List.append_nil]

/-- The read task and its caller have nothing left to do. -/
theorem Duplex.Healthy.read_settled {s : Duplex cap} (hcap : 0 < cap) (h : s.Healthy)
    (hrest : s.Resting) (b : Bool) : (s.ends b).read.Settled := by
  have hidle : ∀ a, (DuplexAction.read b a).busy = true → a.own = true →
      (s.ends b).read.step a = none := by
    intro a ha hown
    have hnone := hrest (.read b a) ha
    simp only [step, hown, if_true] at hnone
    exact Option.map_eq_none_iff.mp hnone
  have hempty : (s.ends b).read.inbound.items = [] := by
    have htake := hidle .take rfl rfl
    simp only [ReadTask.step, h.up.held b, if_true] at htake
    exact Fifo.recv_eq_none.mp (Option.map_eq_none_iff.mp htake)
  refine ⟨hempty, ?_⟩
  cases hp : (s.ends b).read.phase with
  | forwarding msg =>
      have hsend := hidle .send rfl rfl
      have hroom : (s.ends b).read.inbound.items.length < cap := by
        rw [hempty]
        exact hcap
      simp only [ReadTask.step, hp, h.up.held b, if_true, Fifo.trySend, dif_pos hroom,
        Option.map_some] at hsend
      cases hsend
  | reading =>
      have hnext := hidle .next rfl rfl
      simp only [ReadTask.step, hp] at hnext
      show messageDecoder.step (s.ends b).read.framed.buffer = .more
      cases hs : messageDecoder.step (s.ends b).read.framed.buffer with
      | more => rfl
      | stop e =>
          rw [Framed.next_of_stop hs] at hnext
          cases hnext
      | item o rest =>
          cases o with
          | message msg =>
              rw [Framed.next_of_message hs] at hnext
              cases hnext
          | malformed e =>
              rw [Framed.next_of_malformed hs] at hnext
              cases hnext
  | ended why =>
      have hreads := (h.running b).reads
      rw [hp] at hreads
      cases hreads

/-- **At rest, each caller has got all that the other could send it.** -/
theorem Duplex.Healthy.delivered {s : Duplex cap} (hcap : 0 < cap) (h : s.Healthy)
    (hrest : s.Resting) (b : Bool) :
    (s.ends !b).read.taken = sendable fitsB (s.ends b).placed := by
  obtain ⟨taken, left, hledger, hwire, hsendable⟩ := h.written hrest b
  have harrived := h.arrived_eq hrest !b
  rw [Bool.not_not, hwire] at harrived
  have hread := (h.inv b).reads.taken_eq (h.read_settled hcap hrest !b)
  rw [hread, ((h.inv b).readable_eq hledger).2, harrived, messageFraming.within_stream, hsendable]

/-- **A CONNECTION THAT STAYS UP DELIVERS.**  From any state that two peer sessions can
reach with the connection up and both receivers held, and as long as no more is placed:
whoever moves when, the work is bounded by what there is to do; when it is done, each side
has taken all messages in front of the first that does not fit; and it can be done. -/
theorem duplex_delivers (cap : Nat) (hcap : 0 < cap) (s : Duplex cap)
    (h : (duplex cap).Reachable s) (hup : s.Up) :
    (∀ as s', (∀ a ∈ as, a.quiet = true) → (duplex cap).run s as = some s' →
        as.countP DuplexAction.busy + s'.work ≤ s.work
          ∧ (s'.Resting → ∀ b, (s'.ends !b).read.taken = sendable fitsB (s'.ends b).placed))
      ∧ ∃ as s', (∀ a ∈ as, a.quiet = true ∧ a.busy = true) ∧ (duplex cap).run s as = some s'
          ∧ s'.Resting := by
  have hhealthy : s.Healthy :=
    ⟨Duplex.inv_of_reachable h, hup, Duplex.running_of_reachable h hup⟩
  constructor
  · intro as s' hquiet hrun
    obtain ⟨hhealthy', hcount⟩ := (Duplex.works cap).run hhealthy hquiet hrun
    exact ⟨hcount, fun hrest => hhealthy'.delivered hcap hrest⟩
  · refine (Duplex.works cap).settles ?_ hhealthy
    intro s _ hbusy
    obtain ⟨a, ha⟩ := not_forall.mp hbusy
    obtain ⟨hbusy, hstep⟩ := Classical.not_imp.mp ha
    obtain ⟨s', hs'⟩ := Option.ne_none_iff_exists'.mp hstep
    refine ⟨a, s', ?_, hbusy, hs'⟩
    -- work is never a caller's or the network's doing
    cases a with
    | write b a => cases a <;> first | rfl | cases hbusy
    | read b a => cases a <;> first | rfl | cases hbusy
    | deliver b n => rfl
    | writeFails b => cases hbusy
    | eof b => cases hbusy
    | cut => cases hbusy

/-- A `Ping` on `outbound` takes 101 pieces of work at most. -/
theorem duplex_delivers_ping :
    ∃ s, (duplex 1).run (duplex 1).init [.write false (.place (.ping 7))] = some s
      ∧ ∀ as s', (∀ a ∈ as, a.quiet = true) → (duplex 1).run s as = some s' →
          as.countP DuplexAction.busy ≤ 101 := by
  obtain ⟨s, hs⟩ : ∃ s, (duplex 1).run (duplex 1).init [.write false (.place (.ping 7))] = some s :=
    ⟨_, rfl⟩
  have hup : s.Up ∧ s.work = 101 := by
    cases hs
    exact ⟨⟨rfl, fun b => by cases b <;> rfl⟩, rfl⟩
  refine ⟨s, hs, ?_⟩
  intro as s' hquiet hrun
  have hcount := ((duplex_delivers 1 Nat.one_pos s ⟨_, hs⟩ hup.1).1 as s' hquiet hrun).1
  omega

end Dshare.Core
