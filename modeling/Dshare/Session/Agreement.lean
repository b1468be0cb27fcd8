/-
  Dshare.Session.Agreement
  ────────────────────────
  **TWO INSTANCES SHAKE HANDS.**

  A server and a client, each with its own `Hello` and so its own protocol version,
  over two first-in first-out channels of messages.  The two parties take turns in
  any order; a wait may time out and the connection may go down at any point.

  The invariant reads off, from what each party is doing, what the other has sent:

    • `MailOk` — a party that has not looked at its first frame finds the other's
      `Hello` in front of its inbox as soon as the other has sent it;
    • `PhaseOk` — what a party's phase says about the two versions.
-/
import Mathlib.Tactic.Common
import Dshare.Lib.Transition
import Dshare.Session.Handshake

namespace Dshare.Session

open Transition Dshare.Protocol

/-! ## §1. Two parties and their inboxes. -/

inductive Role where
  | server
  | client
  deriving DecidableEq

def Role.other : Role → Role
  | .server => .client
  | .client => .server

@[simp] theorem Role.other_other (r : Role) : r.other.other = r := by
  cases r <;> rfl

@[simp] theorem Role.other_ne (r : Role) : r.other ≠ r := by
  cases r <;> decide

theorem Role.eq_or_eq_other (q r : Role) : q = r ∨ q = r.other := by
  cases q <;> cases r <;> decide

structure Party where
  phase : Phase
  /-- Sent by the other and not read yet. -/
  inbox : List Message

structure Net where
  party : Role → Party
  up : Bool
  /-- A wait has timed out, or the connection has gone down. -/
  faulted : Bool
  /-- Input the server's loop has sent. -/
  forwarded : List Message
  /-- Input the client's loop has passed to its backend. -/
  injected : List Message

def Net.set (s : Net) (r : Role) (p : Party) : Net :=
  { s with party := fun q => if q = r then p else s.party q }

@[simp] theorem Net.set_self (s : Net) (r : Role) (p : Party) : (s.set r p).party r = p := by
  simp [Net.set]

@[simp] theorem Net.set_other (s : Net) (r : Role) (p : Party) :
    (s.set r p).party r.other = s.party r.other := by
  simp [Net.set]

/-- Give up, or leave the loop. -/
def Net.finish (s : Net) (r : Role) (phase : Phase) : Net :=
  s.set r { s.party r with phase := phase }

/-- Put a message into the inbox of the other party. -/
def Net.deliver (s : Net) (r : Role) (msg : Message) : Net :=
  s.set r.other { s.party r.other with inbox := (s.party r.other).inbox ++ [msg] }

@[simp] theorem Net.deliver_self (s : Net) (r : Role) (msg : Message) :
    (s.deliver r msg).party r = s.party r := by
  simp [Net.deliver, Net.set, (Role.other_ne r).symm]

@[simp] theorem Net.deliver_other (s : Net) (r : Role) (msg : Message) :
    (s.deliver r msg).party r.other
      = { s.party r.other with inbox := (s.party r.other).inbox ++ [msg] } := by
  simp [Net.deliver]

/-- A party's own step and a delivery to the other do not interfere. -/
theorem Net.deliver_set (s : Net) (r : Role) (p : Party) (msg : Message) :
    (s.set r p).deliver r msg = (s.deliver r msg).set r p := by
  unfold Net.deliver Net.set
  congr 1
  funext q
  rcases q.eq_or_eq_other r with rfl | rfl
  · simp [(Role.other_ne q).symm]
  · simp

inductive NetAction where
  /-- The next message of the handshake is sent. -/
  | send (r : Role)
  /-- The next message is read. -/
  | recv (r : Role)
  /-- A send fails. -/
  | sendFails (r : Role) (e : ProtocolError)
  /-- The end of the stream is read. -/
  | eof (r : Role)
  /-- The five seconds are over. -/
  | timeout (r : Role)
  | disconnect
  /-- The server's loop sends a captured message. -/
  | forward (msg : Message)
  /-- The server's loop fails to send one. -/
  | forwardFails

/-- The other end is gone: the connection is down, or the other party has returned. -/
def Net.gone (s : Net) (r : Role) : Bool := !s.up || (s.party r.other).phase.done

variable (own : Role → Hello)

def Net.step (s : Net) : NetAction → Option Net
  | .send r =>
      match (s.party r).phase.outgoing (own r) with
      | some msg =>
          if s.up then
            some
              ((s.set r { s.party r with phase := (s.party r).phase.sent (own r) }).deliver r msg)
          else none
      | none => none
  | .recv r =>
      match (s.party r).phase, (s.party r).inbox with
      | .awaitHello, msg :: rest => some (s.set r ⟨onPeerMsg (own r) msg, rest⟩)
      | .session peer, msg :: rest =>
          -- the server's loop ignores what it reads
          some { s.set r ⟨.session peer, rest⟩ with
            injected := if r = .client then s.injected ++ [msg] else s.injected }
      | _, _ => none
  | .sendFails r e =>
      if ((s.party r).phase.outgoing (own r)).isSome && s.gone r then
        some (s.finish r ((s.party r).phase.sendFailed (own r) e))
      else none
  | .eof r =>
      if !s.up || (s.party r.other).phase.done && (s.party r).inbox.isEmpty then
        match (s.party r).phase with
        | .awaitHello => some (s.finish r (.failed .disconnected))
        | .session _ => some (s.finish r .ended)
        | _ => none
      else none
  | .timeout r =>
      match (s.party r).phase with
      | .awaitHello => some { s.finish r (.failed .timeout) with faulted := true }
      | _ => none
  | .disconnect => some { s with up := false, faulted := true }
  | .forward msg =>
      match (s.party .server).phase with
      | .session _ =>
          if s.up then some { s.deliver .server msg with forwarded := s.forwarded ++ [msg] }
          else none
      | _ => none
  | .forwardFails =>
      match (s.party .server).phase with
      | .session _ => if s.gone .server then some (s.finish .server .ended) else none
      | _ => none

/-- Both about to send their `Hello`. -/
def Net.new : Net := ⟨fun _ => ⟨.hello, []⟩, true, false, [], []⟩

def netSystem : System Net NetAction := ⟨.new, Net.step own⟩

/-! ## §2. The invariant. -/

/-- The two builds have the same version. -/
def Agree : Prop := (own .server).protocolVersion = (own .client).protocolVersion

theorem agree_iff (r : Role) :
    (own r.other).protocolVersion = (own r).protocolVersion ↔ Agree own := by
  cases r with
  | server => exact eq_comm
  | client => exact Iff.rfl

/-- What the phase of a party says about the two versions. -/
def PhaseOk (faulted : Bool) (r : Role) : Phase → Prop
  | .hello => True
  | .awaitHello => True
  | .refuse peer => peer = own r.other ∧ ¬ Agree own
  | .accept peer => peer = own r.other ∧ Agree own
  | .session peer => peer = own r.other ∧ Agree own
  | .failed _ => faulted = true ∨ ¬ Agree own
  | .ended => faulted = true

/-- A party that has not looked at its first frame: either the other has not sent its
`Hello`, and never will if it has failed, or that `Hello` is in front of the inbox. -/
def MailOk (faulted : Bool) (r : Role) (me : Party) (other : Phase) : Prop :=
  me.phase.opening = true →
    (me.inbox = [] ∧ (other = .hello ∨ (faulted = true ∧ ∃ e, other = .failed e)))
      ∨ (other ≠ .hello ∧ ∃ rest, me.inbox = .hello (own r.other) :: rest)

structure NetInv (s : Net) : Prop where
  up : s.up = false → s.faulted = true
  phase : ∀ r, PhaseOk own s.faulted r (s.party r).phase
  mail : ∀ r, MailOk own s.faulted r (s.party r) (s.party r.other).phase
  /-- Input travels between equal versions only. -/
  input : s.forwarded ≠ [] ∨ s.injected ≠ [] → Agree own

variable {own}

theorem PhaseOk.mono {faulted faulted' : Bool} {r : Role} {p : Phase}
    (h : PhaseOk own faulted r p) (hle : faulted = true → faulted' = true) :
    PhaseOk own faulted' r p := by
  cases p with
  | failed e => exact h.imp_left hle
  | ended => exact hle h
  | _ => exact h

theorem NetInv.new : NetInv own Net.new where
  up := fun h => by cases h
  phase := fun r => trivial
  mail := fun r _ => .inl ⟨rfl, .inl rfl⟩
  input := fun h => by
    rcases h with h | h <;> exact absurd rfl h

/-- The first frame is judged by its version. -/
theorem phaseOk_onPeerMsg (faulted : Bool) (r : Role) :
    PhaseOk own faulted r (onPeerMsg (own r) (.hello (own r.other))) := by
  rcases onPeerMsg_cases (own r) (.hello (own r.other)) with
    ⟨peer, hmsg, hv, h⟩ | ⟨peer, hmsg, hv, h⟩ | ⟨hno, _⟩
  · rw [h]
    cases hmsg
    exact ⟨rfl, fun hagree => hv ((agree_iff own r).mpr hagree)⟩
  · rw [h]
    cases hmsg
    exact ⟨rfl, (agree_iff own r).mp hv⟩
  · exact absurd rfl (hno _)

/-- The phases that have something to send, and what follows a send. -/
theorem outgoing_cases {own' : Hello} {p : Phase} {msg : Message}
    (h : p.outgoing own' = some msg) :
    (p = .hello ∧ msg = .hello own' ∧ p.sent own' = .awaitHello)
      ∨ (∃ peer, p = .refuse peer
        ∧ p.sent own' = .failed (.versionMismatch peer.protocolVersion own'.protocolVersion))
      ∨ (∃ peer, p = .accept peer ∧ p.sent own' = .session peer) := by
  cases p with
  | hello => exact .inl ⟨rfl, (Option.some.inj h).symm, rfl⟩
  | refuse peer => exact .inr (.inl ⟨peer, rfl, rfl⟩)
  | accept peer => exact .inr (.inr ⟨peer, rfl, rfl⟩)
  | _ => cases h

/-- A party goes on to a phase in which it has looked at its first frame, and keeps
or shortens its inbox.  What the other finds in its own inbox is not touched. -/
theorem NetInv.advance {s : Net} (h : NetInv own s) (r : Role) {p : Party} {faulted : Bool}
    (hfault : s.faulted = true → faulted = true)
    (hopening : p.phase.opening = false)
    (hphase : PhaseOk own faulted r p.phase)
    (hlive : (s.party r).phase.done = false)
    (hearly : (s.party r).phase = .hello → (s.party r.other).phase.opening = true →
      faulted = true ∧ ∃ e, p.phase = .failed e) :
    NetInv own { s.set r p with faulted := faulted } where
  up := fun hup => hfault (h.up hup)
  phase := by
    intro q
    rcases q.eq_or_eq_other r with rfl | rfl
    · show PhaseOk own faulted q ((s.set q p).party q).phase
      rw [Net.set_self]
      exact hphase
    · show PhaseOk own faulted r.other ((s.set r p).party r.other).phase
      rw [Net.set_other]
      exact (h.phase r.other).mono hfault
  mail := by
    intro q
    rcases q.eq_or_eq_other r with rfl | rfl
    · intro hopen
      change ((s.set q p).party q).phase.opening = true at hopen
      rw [Net.set_self, hopening] at hopen
      cases hopen
    · show MailOk own faulted r.other ((s.set r p).party r.other)
        ((s.set r p).party r.other.other).phase
      rw [Net.set_other, Role.other_other, Net.set_self]
      intro hopen
      have hmail := h.mail r.other hopen
      rw [Role.other_other] at hmail
      rcases hmail with ⟨hin, hhello | ⟨_, e, he⟩⟩ | ⟨_, hin⟩
      · exact .inl ⟨hin, .inr (hearly hhello hopen)⟩
      · -- a failed party takes no more steps
        rw [he] at hlive
        cases hlive
      · refine .inr ⟨?_, by rwa [Role.other_other]⟩
        intro he
        rw [he] at hopening
        cases hopening
  input := h.input

/-- A message behind the `Hello` that has been sent. -/
theorem NetInv.deliver {s : Net} (h : NetInv own s) (r : Role) (msg : Message)
    (hsent : (s.party r).phase ≠ .hello) (hlive : (s.party r).phase.done = false) :
    NetInv own (s.deliver r msg) where
  up := h.up
  phase := by
    intro q
    rcases q.eq_or_eq_other r with rfl | rfl
    · rw [Net.deliver_self]
      exact h.phase q
    · rw [Net.deliver_other]
      exact h.phase r.other
  mail := by
    intro q
    rcases q.eq_or_eq_other r with rfl | rfl
    · rw [Net.deliver_self, Net.deliver_other]
      exact h.mail q
    · rw [Net.deliver_other, Role.other_other, Net.deliver_self]
      intro hopen
      have hmail := h.mail r.other hopen
      rw [Role.other_other] at hmail
      rcases hmail with ⟨_, hhello | ⟨_, e, he⟩⟩ | ⟨hne, rest, hin⟩
      · exact absurd hhello hsent
      · rw [he] at hlive
        cases hlive
      · refine .inr ⟨hne, rest ++ [msg], ?_⟩
        rw [Role.other_other, hin]
        rfl
  input := h.input

/-- Our `Hello` is the first message the other gets. -/
theorem NetInv.sendHello {s : Net} (h : NetInv own s) (r : Role)
    (hhello : (s.party r).phase = .hello) :
    NetInv own ((s.set r { s.party r with phase := .awaitHello }).deliver r (.hello (own r))) where
  up := h.up
  phase := by
    intro q
    rcases q.eq_or_eq_other r with rfl | rfl
    · rw [Net.deliver_self, Net.set_self]
      trivial
    · rw [Net.deliver_other, Net.set_other]
      exact h.phase r.other
  mail := by
    intro q
    rcases q.eq_or_eq_other r with rfl | rfl
    · rw [Net.deliver_self, Net.set_self, Net.deliver_other, Net.set_other]
      intro _
      exact h.mail q (by rw [hhello]; rfl)
    · rw [Net.deliver_other, Net.set_other, Role.other_other, Net.deliver_self, Net.set_self]
      intro hopen
      have hmail := h.mail r.other hopen
      rw [Role.other_other, hhello] at hmail
      rcases hmail with ⟨hin, _⟩ | ⟨hne, _⟩
      · refine .inr ⟨nofun, [], ?_⟩
        rw [Role.other_other, hin]
        rfl
      · exact absurd rfl hne
  input := h.input

/-! ## §3. The steps. -/

theorem NetInv.send {s s' : Net} (h : NetInv own s) (r : Role)
    (hstep : s.step own (.send r) = some s') : NetInv own s' := by
  simp only [Net.step] at hstep
  split at hstep
  next msg hout =>
    split at hstep
    next =>
      cases hstep
      rcases outgoing_cases hout with ⟨hp, rfl, hsent⟩ | ⟨peer, hp, hsent⟩ | ⟨peer, hp, hsent⟩
      · rw [hsent]
        exact h.sendHello r hp
      · rw [hsent, Net.deliver_set]
        have hok := h.phase r
        rw [hp] at hok
        have hdel := h.deliver r msg (by rw [hp]; nofun) (by rw [hp]; rfl)
        exact hdel.advance r id rfl (.inr hok.2) (by rw [Net.deliver_self, hp]; rfl)
          (by rw [Net.deliver_self, hp]; nofun)
      · rw [hsent, Net.deliver_set]
        have hok := h.phase r
        rw [hp] at hok
        have hdel := h.deliver r msg (by rw [hp]; nofun) (by rw [hp]; rfl)
        exact hdel.advance r id rfl hok (by rw [Net.deliver_self, hp]; rfl)
          (by rw [Net.deliver_self, hp]; nofun)
    next => cases hstep
  next => cases hstep

/-- The frame a party waits for is the other's `Hello`. -/
theorem NetInv.first {s : Net} (h : NetInv own s) {r : Role} {msg : Message} {rest : List Message}
    (hopen : (s.party r).phase.opening = true) (hin : (s.party r).inbox = msg :: rest) :
    msg = .hello (own r.other) := by
  rcases h.mail r hopen with ⟨hnil, _⟩ | ⟨_, rest', hcons⟩
  · rw [hin] at hnil
    cases hnil
  · rw [hin] at hcons
    exact (List.cons.inj hcons).1

/-- Input that travels between equal versions. -/
theorem NetInv.log {s : Net} (h : NetInv own s) (hagree : Agree own)
    (forwarded injected : List Message) :
    NetInv own { s with forwarded := forwarded, injected := injected } :=
  ⟨h.up, h.phase, h.mail, fun _ => hagree⟩

theorem NetInv.recv {s s' : Net} (h : NetInv own s) (r : Role)
    (hstep : s.step own (.recv r) = some s') : NetInv own s' := by
  simp only [Net.step] at hstep
  split at hstep
  next msg rest hphase hin =>
    cases hstep
    have hmsg := h.first (by rw [hphase]; rfl) hin
    subst hmsg
    have hopening := opening_onPeerMsg (own r) (.hello (own r.other))
    exact h.advance r id hopening (phaseOk_onPeerMsg _ r) (by rw [hphase]; rfl)
      (by rw [hphase]; nofun)
  next peer msg rest hphase hin =>
    cases hstep
    have hok := h.phase r
    rw [hphase] at hok
    have hadv : NetInv own (s.set r ⟨.session peer, rest⟩) :=
      h.advance r id rfl hok (by rw [hphase]; rfl) (by rw [hphase]; nofun)
    exact hadv.log hok.2 _ _
  next => cases hstep

/-- A party whose other end is gone: something went wrong, or the versions differ. -/
theorem NetInv.of_gone {s : Net} (h : NetInv own s) {r : Role} (hgone : s.gone r = true) :
    s.faulted = true ∨ ¬ Agree own := by
  unfold Net.gone at hgone
  cases hup : s.up with
  | false => exact .inl (h.up hup)
  | true =>
      have hok := h.phase r.other
      rw [hup, Bool.not_true, Bool.false_or] at hgone
      cases hp : (s.party r.other).phase with
      | failed e => rw [hp] at hok; exact hok
      | ended => rw [hp] at hok; exact .inl hok
      | _ => rw [hp] at hgone; cases hgone

theorem NetInv.sendFails {s s' : Net} (h : NetInv own s) (r : Role) (e : ProtocolError)
    (hstep : s.step own (.sendFails r e) = some s') : NetInv own s' := by
  simp only [Net.step] at hstep
  split at hstep
  next hcond =>
    cases hstep
    rw [Bool.and_eq_true] at hcond
    obtain ⟨hout, hgone⟩ := hcond
    obtain ⟨msg, hmsg⟩ := Option.isSome_iff_exists.mp hout
    rcases outgoing_cases hmsg with ⟨hp, _⟩ | ⟨peer, hp, _⟩ | ⟨peer, hp, _⟩
    · -- our `Hello` could not be sent: the other has returned, or the connection is down
      refine h.advance r id (by rw [hp]; rfl) (by rw [hp]; exact h.of_gone hgone)
        (by rw [hp]; rfl) ?_
      intro _ hopen
      refine ⟨?_, _, by rw [hp]; rfl⟩
      apply h.up
      unfold Net.gone at hgone
      cases hup : s.up with
      | false => rfl
      | true =>
          rw [hup, Bool.not_true, Bool.false_or] at hgone
          rw [Phase.opening_of_done hgone] at hopen
          cases hopen
    · have hok := h.phase r
      rw [hp] at hok
      exact h.advance r id (by rw [hp]; rfl) (by rw [hp]; exact .inr hok.2) (by rw [hp]; rfl)
        (by rw [hp]; nofun)
    · exact h.advance r id (by rw [hp]; rfl) (by rw [hp]; exact h.of_gone hgone) (by rw [hp]; rfl)
        (by rw [hp]; nofun)
  next => cases hstep

theorem NetInv.eof {s s' : Net} (h : NetInv own s) (r : Role)
    (hstep : s.step own (.eof r) = some s') : NetInv own s' := by
  simp only [Net.step] at hstep
  split at hstep
  next hcond =>
    have hgone : s.faulted = true ∨ ¬ Agree own := by
      apply h.of_gone (r := r)
      unfold Net.gone
      cases hup : s.up <;> simp_all
    split at hstep
    next hphase =>
      cases hstep
      exact h.advance r id rfl hgone (by rw [hphase]; rfl) (by rw [hphase]; nofun)
    next peer hphase =>
      cases hstep
      have hok := h.phase r
      rw [hphase] at hok
      -- in a session the versions are equal
      have hfault : s.faulted = true := hgone.resolve_right (not_not_intro hok.2)
      exact h.advance r id rfl hfault (by rw [hphase]; rfl) (by rw [hphase]; nofun)
    next => cases hstep
  next => cases hstep

theorem NetInv.timeout {s s' : Net} (h : NetInv own s) (r : Role)
    (hstep : s.step own (.timeout r) = some s') : NetInv own s' := by
  simp only [Net.step] at hstep
  split at hstep
  next hphase =>
    cases hstep
    exact h.advance r (fun _ => rfl) rfl (.inl rfl) (by rw [hphase]; rfl) (by rw [hphase]; nofun)
  next => cases hstep

theorem NetInv.disconnect {s : Net} (h : NetInv own s) :
    NetInv own { s with up := false, faulted := true } where
  up := fun _ => rfl
  phase := fun r => (h.phase r).mono fun _ => rfl
  mail := by
    intro r hopen
    rcases h.mail r hopen with ⟨hin, hhello | ⟨_, he⟩⟩ | hin
    · exact .inl ⟨hin, .inl hhello⟩
    · exact .inl ⟨hin, .inr ⟨rfl, he⟩⟩
    · exact .inr hin
  input := h.input

theorem NetInv.forward {s s' : Net} (h : NetInv own s) (msg : Message)
    (hstep : s.step own (.forward msg) = some s') : NetInv own s' := by
  simp only [Net.step] at hstep
  split at hstep
  next peer hphase =>
    split at hstep
    next =>
      cases hstep
      have hok := h.phase .server
      rw [hphase] at hok
      have hdel := h.deliver .server msg (by rw [hphase]; nofun) (by rw [hphase]; rfl)
      exact hdel.log hok.2 _ _
    next => cases hstep
  next => cases hstep

theorem NetInv.forwardFails {s s' : Net} (h : NetInv own s)
    (hstep : s.step own .forwardFails = some s') : NetInv own s' := by
  simp only [Net.step] at hstep
  split at hstep
  next peer hphase =>
    split at hstep
    next hgone =>
      cases hstep
      have hok := h.phase .server
      rw [hphase] at hok
      have hfault : s.faulted = true := (h.of_gone hgone).resolve_right (not_not_intro hok.2)
      exact h.advance .server id rfl hfault (by rw [hphase]; rfl) (by rw [hphase]; nofun)
    next => cases hstep
  next => cases hstep

theorem NetInv.step {s s' : Net} {a : NetAction} (h : NetInv own s)
    (hstep : s.step own a = some s') : NetInv own s' := by
  cases a with
  | send r => exact h.send r hstep
  | recv r => exact h.recv r hstep
  | sendFails r e => exact h.sendFails r e hstep
  | eof r => exact h.eof r hstep
  | timeout r => exact h.timeout r hstep
  | disconnect => cases hstep; exact h.disconnect
  | forward msg => exact h.forward msg hstep
  | forwardFails => exact h.forwardFails hstep

theorem netInv_of_reachable {s : Net} (h : (netSystem own).Reachable s) : NetInv own s :=
  h.invariant NetInv.new fun _ _ _ hs hstep => hs.step hstep

/-! ## §4. Agreement and progress. -/

/-- Neither in its session loop nor returned. -/
def Phase.undecided : Phase → Bool
  | .hello => true
  | .awaitHello => true
  | .refuse _ => true
  | .accept _ => true
  | _ => false

/-- The steps of the two programs themselves: a send or a read that succeeds. -/
def NetAction.exchange : NetAction → Bool
  | .send _ => true
  | .recv _ => true
  | _ => false

/-- A party with something to send can send it. -/
theorem send_enabled {s : Net} (hup : s.up = true) {r : Role}
    (hout : ((s.party r).phase.outgoing (own r)).isSome = true) :
    ∃ a, a.exchange = true ∧ (s.step own a).isSome = true := by
  obtain ⟨msg, hmsg⟩ := Option.isSome_iff_exists.mp hout
  refine ⟨.send r, rfl, ?_⟩
  simp only [Net.step, hmsg, hup, if_true, Option.isSome_some]

/-- **NO DEADLOCK**: without a fault, an undecided party has a step to wait for. -/
theorem NetInv.exchange_enabled {s : Net} (h : NetInv own s) (hfault : s.faulted = false)
    {r : Role} (hund : (s.party r).phase.undecided = true) :
    ∃ a, a.exchange = true ∧ (s.step own a).isSome = true := by
  have hup : s.up = true := by
    cases hup : s.up with
    | true => rfl
    | false =>
        rw [h.up hup] at hfault
        cases hfault
  cases hphase : (s.party r).phase with
  | hello => exact send_enabled hup (r := r) (by rw [hphase]; rfl)
  | refuse peer => exact send_enabled hup (r := r) (by rw [hphase]; rfl)
  | accept peer => exact send_enabled hup (r := r) (by rw [hphase]; rfl)
  | awaitHello =>
      -- the other party's `Hello` is there, or the other party can still send it
      rcases h.mail r (by rw [hphase]; rfl) with ⟨_, hhello | ⟨hf, _⟩⟩ | ⟨_, rest, hin⟩
      · exact send_enabled hup (r := r.other) (by rw [hhello]; rfl)
      · rw [hf] at hfault
        cases hfault
      · exact ⟨.recv r, rfl, by simp only [Net.step, hphase, hin, Option.isSome_some]⟩
  | session peer => rw [hphase] at hund; cases hund
  | failed e => rw [hphase] at hund; cases hund
  | ended => rw [hphase] at hund; cases hund

/-- Without a fault and with equal versions nobody returns. -/
theorem NetInv.not_done {s : Net} (h : NetInv own s) (hfault : s.faulted = false)
    (hagree : Agree own) (r : Role) : (s.party r).phase.done = false := by
  have hok := h.phase r
  cases hphase : (s.party r).phase with
  | failed e =>
      rw [hphase] at hok
      rcases hok with hf | hne
      · rw [hf] at hfault
        cases hfault
      · exact absurd hagree hne
  | ended =>
      rw [hphase, hfault] at hok
      cases hok
  | _ => rfl

/-- **HANDSHAKE AGREEMENT**, in every reachable state of two instances with any
`Hello`s.  A party in its session loop has the other's `Hello`, of its own version.
With different versions there is no session loop and no input.  Without a fault, an
undecided party leaves some step to take; and with equal versions, when no step is
left, both are in their session loops. -/
theorem handshake_agreement (own : Role → Hello) (s : Net) (h : (netSystem own).Reachable s) :
    (∀ r peer, (s.party r).phase = .session peer →
        (own .server).protocolVersion = (own .client).protocolVersion ∧ peer = own r.other)
      ∧ ((own .server).protocolVersion ≠ (own .client).protocolVersion →
          (∀ r peer, (s.party r).phase ≠ .session peer) ∧ s.forwarded = [] ∧ s.injected = [])
      ∧ (s.faulted = false → (∃ r, (s.party r).phase.undecided = true) →
          ∃ a, a.exchange = true ∧ (s.step own a).isSome = true)
      ∧ (s.faulted = false → (own .server).protocolVersion = (own .client).protocolVersion →
          (∀ a, a.exchange = true → s.step own a = none) →
          ∀ r, ∃ peer, (s.party r).phase = .session peer) := by
  have hinv := netInv_of_reachable h
  have hsession : ∀ r peer, (s.party r).phase = .session peer →
      (own .server).protocolVersion = (own .client).protocolVersion ∧ peer = own r.other := by
    intro r peer hphase
    have hok := hinv.phase r
    rw [hphase] at hok
    exact ⟨hok.2, hok.1⟩
  refine ⟨hsession, ?_, ?_, ?_⟩
  · intro hne
    refine ⟨fun r peer hphase => hne (hsession r peer hphase).1, ?_, ?_⟩
    · by_contra hf
      exact hne (hinv.input (.inl hf))
    · by_contra hi
      exact hne (hinv.input (.inr hi))
  · intro hfault hund
    obtain ⟨r, hr⟩ := hund
    exact hinv.exchange_enabled hfault hr
  · intro hfault hagree hstuck r
    have hdone := hinv.not_done hfault hagree r
    cases hphase : (s.party r).phase with
    | session peer => exact ⟨peer, rfl⟩
    | failed e => rw [hphase] at hdone; cases hdone
    | ended => rw [hphase] at hdone; cases hdone
    | _ =>
        -- an undecided party is not stuck
        obtain ⟨a, hex, hsome⟩ := hinv.exchange_enabled hfault (r := r) (by rw [hphase]; rfl)
        rw [hstuck a hex] at hsome
        cases hsome

/-- Both instances of one build. -/
def sameBuild : Role → Hello := fun _ => ⟨PROTOCOL_VERSION, Uuid.nil, "unknown", ⟨1920, 1080⟩⟩

/-- Each sends its `Hello`, reads the other's, accepts it and reads the acceptance. -/
theorem handshake_agreement_same_build :
    ∃ s, (netSystem sameBuild).run .new
        [.send .server, .send .client, .recv .client, .recv .server, .send .client,
          .send .server, .recv .server, .recv .client] = some s
      ∧ ∀ r, ∃ peer, (s.party r).phase = .session peer := by
  obtain ⟨s, hs⟩ : ∃ s, (netSystem sameBuild).run .new
      [.send .server, .send .client, .recv .client, .recv .server, .send .client,
        .send .server, .recv .server, .recv .client] = some s := ⟨_, rfl⟩
  have hagree := (handshake_agreement sameBuild s ⟨_, hs⟩).2.2.2
  refine ⟨s, hs, ?_⟩
  cases hs
  refine hagree rfl rfl ?_
  intro a hex
  cases a with
  | send r => cases r <;> rfl
  | recv r => cases r <;> rfl
  | _ => cases hex

end Dshare.Session
