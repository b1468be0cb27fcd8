/-
  Dshare.Session.Delivery
  ───────────────────────
  **NOTHING IS LOST ON THE WAY.**

  `Dshare.Session.EndToEnd` says that a client handles nothing but what the server sends,
  in that order.  Here is the other half: it handles all of it.

    • `nothing_lost` — when a session is at rest, the client has handled everything that
      was handed to `sink.send`, and everything the hooks have built if none of it was
      dropped at the channel or at the flag;
    • `Flowing.step` — as long as the flag does not turn, the drain loop, the network and
      the client pass messages on, and lose none if it is on;
    • `session_delivers` — they have a bounded number of steps to take, and can always
      bring the session to rest.
-/
import Mathlib.Tactic.Common
import Dshare.Lib.Simulation
import Dshare.Session.Backpressure
import Dshare.Session.Vocabulary

namespace Dshare.Session

open Transition StreamDecoder Dshare.Protocol Dshare.Input

variable {δ : Type} {serverOwn clientOwn : Hello} {backend : InputInject δ}

/-! ## §1. At rest. -/

/-- Nothing in the channel, in the drain loop's hand, on the wire or in the client's buffer
that the client could handle. -/
structure Link.AtRest (l : Link δ) : Prop where
  hand : l.capture.inHand = none
  channel : l.capture.hook.sender.items = []
  wire : l.toClient = []
  read : l.client.framed.next.1 = .pending

/-- `next` has nothing to return while no frame is complete. -/
theorem Framed.more_of_pending {f : Framed} (h : f.next.1 = .pending) :
    messageDecoder.step f.buffer = .more := by
  cases hs : messageDecoder.step f.buffer with
  | more => rfl
  | stop e =>
      rw [Framed.next_of_stop hs] at h
      cases h
  | item o rest =>
      cases o with
      | message msg => rw [Framed.next_of_message hs] at h; cases h
      | malformed e => rw [Framed.next_of_malformed hs] at h; cases h

/-- At rest the client has handled everything that was handed to `sink.send`. -/
theorem LinkInv.all_handled {l : Link δ} (h : LinkInv serverOwn l) {peer peer' : Hello}
    (hserver : l.server = .session peer) (hclient : l.client.phase = .session peer')
    (hrest : l.AtRest) : l.client.handled = .helloAck true none :: l.capture.handed := by
  obtain ⟨read, hconveys, hread⟩ := h.conveys
  have hwhole := h.whole (by rw [hserver]; rfl)
  have hwrote := h.wrote
  rw [hrest.wire] at hconveys hwhole
  rw [List.append_nil] at hwhole
  rw [hclient] at hread
  rw [hserver] at hwrote
  have hall := hconveys.read_all hwhole (Framed.more_of_pending hrest.read)
  rw [show read = _ from hread, show l.written = _ from hwrote] at hall
  exact (List.cons.inj hall).2

/-- **NOTHING IS LOST**, in any reachable state in which both sides are in their loops and
the session is at rest: behind the acceptance the client has handled exactly what was handed
to `sink.send`; and if no message was dropped at the channel, and the flag was on for each
one that was dealt with, that is all the hooks have ever built. -/
theorem nothing_lost (serverOwn clientOwn : Hello) (backend : InputInject δ) (device : δ)
    (l : Link δ) (h : (linkSystem serverOwn clientOwn backend device).Reachable l)
    (peer peer' : Hello) (hserver : l.server = .session peer)
    (hclient : l.client.phase = .session peer') (hrest : l.AtRest) :
    l.client.handled = .helloAck true none :: l.capture.handed
      ∧ (l.capture.Lossless → (∀ p ∈ l.capture.popped, p.sent = true) →
        l.client.handled = .helloAck true none :: l.capture.built) := by
  have hinv := linkInv_of_reachable h
  have hhandled := hinv.all_handled hserver hclient hrest
  refine ⟨hhandled, ?_⟩
  intro hlossless hsent
  have hqueue := hinv.capture.queue
  rw [hlossless.enqueued, hrest.hand, hrest.channel] at hqueue
  rw [hhandled]
  unfold Capture.built Capture.handed
  rw [hqueue, List.filter_eq_self.mpr hsent]
  simp

/-- The key behind the handshake is all that was built, and it has been handled. -/
theorem nothing_lost_key :
    ∃ l, (linkSystem (ourHello Uuid.nil "server" ⟨1920, 1080⟩)
          (ourHello Uuid.nil "client" ⟨1920, 1080⟩) ⟨fun _ _ => (.ok (), ())⟩ ()).Reachable l
      ∧ l.capture.built = [.keyEvent 25 true ⟨false, false, false, false⟩]
      ∧ l.client.handled = .helloAck true none :: l.capture.built := by
  obtain ⟨l, hl⟩ : ∃ l, (linkSystem (ourHello Uuid.nil "server" ⟨1920, 1080⟩)
      (ourHello Uuid.nil "client" ⟨1920, 1080⟩) ⟨fun _ _ => (.ok (), ())⟩ ()).run
        (.new ()) keyBehindHandshake = some l := ⟨_, rfl⟩
  have hall := nothing_lost _ _ _ _ l ⟨_, hl⟩
  refine ⟨l, ⟨_, hl⟩, ?_⟩
  cases hl
  exact ⟨rfl, (hall _ _ rfl rfl ⟨rfl, rfl, rfl, rfl⟩).2 (by decide) (by decide)⟩

/-! ## §2. Messages on their way. -/

/-- What the hooks build fits into a frame. -/
theorem Capturable.fits {msg : Message} (h : Capturable msg) : Fits msg := by
  have hshort : (Bincode.serialize msg).length ≤ 13 := by
    cases msg with
    | mouseMove dx dy => exact Nat.le_of_ble_eq_true rfl
    | mouseButton button pressed => exact Nat.le_of_ble_eq_true rfl
    | mouseWheel dx dy => exact Nat.le_of_ble_eq_true rfl
    | keyEvent keycode pressed m => exact Nat.le_of_ble_eq_true rfl
    | _ => exact h.elim
  exact Nat.le_trans hshort (by decide)

/-- Both sides are in their loops, and the client's socket is open. -/
structure Flowing (serverOwn : Hello) (l : Link δ) : Prop where
  inv : LinkInv serverOwn l
  plain : l.capture.Plain
  server : ∃ peer, l.server = .session peer
  client : ∃ peer, l.client.phase = .session peer
  live : l.client.framed.eof = false

/-- The drain loop, the network and the client's loop pass messages on. -/
def LinkAction.flows : LinkAction → Bool
  | .captureRecv => true
  | .forward none => true
  | .deliverToClient _ => true
  | .clientNext => true
  | _ => false

/-- A message is passed on. -/
def LinkAction.passes : LinkAction → Bool
  | .captureRecv => true
  | .forward _ => true
  | .clientNext => true
  | _ => false

/-- What was handed to `sink.send`, and what will be if the flag stays as it is. -/
def Link.upstream (l : Link δ) : List Message :=
  l.capture.handed
    ++ if l.capture.hook.grabbed then l.capture.inHand.toList ++ l.capture.hook.sender.items else []

/-- The passes that are left. -/
def Link.passesLeft (l : Link δ) : Nat :=
  3 * l.capture.hook.sender.items.length + 2 * l.capture.inHand.toList.length
    + (l.written.length - (l.client.handled.length + 1))

/-- A client in its loop has read one message more than it has handled. -/
theorem Flowing.handled_lt {l : Link δ} (h : Flowing serverOwn l) :
    l.client.handled.length + 1 ≤ l.written.length := by
  obtain ⟨read, hconveys, hread⟩ := h.inv.conveys
  obtain ⟨peer, hpeer⟩ := h.client
  rw [hpeer] at hread
  have hlen := hconveys.reads.length_le
  rwa [show read = _ from hread] at hlen

/-- What a step of the flow leaves alone. -/
structure Flows (serverOwn : Hello) (l l' : Link δ) : Prop where
  flowing : Flowing serverOwn l'
  captured : l'.capture.captured = l.capture.captured
  grabbed : l'.capture.hook.grabbed = l.capture.hook.grabbed
  upstream : l'.upstream = l.upstream

theorem Flowing.recv {l l' : Link δ} (h : Flowing serverOwn l)
    (hstep : l.step serverOwn clientOwn backend .captureRecv = some l') :
    Flows serverOwn l l' ∧ l'.passesLeft < l.passesLeft := by
  have hinv := h.inv.step hstep
  obtain ⟨_, c, _, hc, rfl⟩ := Link.step_cases hstep
  rcases Capture.step_cases hc with
    ⟨_, ha, _⟩ | ⟨msg, queue, _, hhand, hitems, rfl⟩ | ⟨_, ha, _⟩
  · cases ha
  · refine ⟨⟨⟨hinv, h.plain, h.server, h.client, h.live⟩, rfl, rfl, ?_⟩, ?_⟩
    · show l.capture.handed ++ (if l.capture.hook.grabbed then [msg] ++ queue.items else [])
        = l.capture.handed ++ if l.capture.hook.grabbed then _ else []
      rw [hhand, hitems]
      rfl
    · show 3 * queue.items.length + 2 * 1 + (l.written.length - (l.client.handled.length + 1))
        < 3 * l.capture.hook.sender.items.length + 2 * l.capture.inHand.toList.length
          + (l.written.length - (l.client.handled.length + 1))
      rw [hitems, List.length_cons]
      omega
  · cases ha

/-- With the flag on, the message in hand goes out. -/
theorem Link.forward_on {l l' : Link δ} {msg : Message} (hhand : l.capture.inHand = some msg)
    (hflag : l.capture.hook.grabbed = true) (hfit : Fits msg)
    (hstep : l.step serverOwn clientOwn backend (.forward none) = some l') :
    l' = { l.put msg (frame msg) with
      capture := { l.capture with
        inHand := none
        popped := l.capture.popped ++ [⟨msg, l.capture.hook.grabbed, l.capture.flips⟩] } } := by
  have hsend : sendFrame msg none = (.ok (), frame msg) := by
    rcases sendFrame_cases msg none with ⟨hsend, _⟩ | ⟨e, bytes, hsend, _⟩
    · exact hsend
    · unfold sendFrame at hsend
      rw [encode_of_fits hfit] at hsend
      cases hsend
  obtain ⟨_, msg', c, _, hmsg', hc, rfl⟩ := Link.step_cases hstep
  rw [hhand] at hmsg'
  cases hmsg'
  simp only [Capture.step, hhand, Option.some.injEq] at hc
  subst hc
  unfold Link.forward
  rw [if_pos hflag, hsend]
  rfl

/-- With the flag off, it is forgotten. -/
theorem Link.forward_off {l l' : Link δ} {msg : Message} {fault : Option Fault}
    (hhand : l.capture.inHand = some msg) (hflag : l.capture.hook.grabbed = false)
    (hstep : l.step serverOwn clientOwn backend (.forward fault) = some l') :
    l' = { l with
      capture := { l.capture with
        inHand := none
        popped := l.capture.popped ++ [⟨msg, l.capture.hook.grabbed, l.capture.flips⟩] } } := by
  obtain ⟨_, msg', c, _, _, hc, rfl⟩ := Link.step_cases hstep
  simp only [Capture.step, hhand, Option.some.injEq] at hc
  subst hc
  unfold Link.forward
  rw [if_neg (by rw [hflag]; exact Bool.false_ne_true)]

theorem Flowing.inHand_built {l : Link δ} (h : Flowing serverOwn l) {msg : Message}
    (hhand : l.capture.inHand = some msg) : msg ∈ l.capture.built := by
  have hmem : msg ∈ l.capture.enqueued.map Captured.msg := by
    rw [h.inv.capture.queue, hhand]
    simp
  obtain ⟨c, hc, rfl⟩ := List.mem_map.mp hmem
  exact List.mem_map_of_mem (List.mem_of_mem_filter hc)

theorem Flowing.forward {l l' : Link δ} (h : Flowing serverOwn l)
    (hstep : l.step serverOwn clientOwn backend (.forward none) = some l') :
    Flows serverOwn l l' ∧ l'.passesLeft < l.passesLeft := by
  have hinv := h.inv.step hstep
  cases hhand : l.capture.inHand with
  | none =>
      obtain ⟨_, msg, _, _, hmsg, _⟩ := Link.step_cases hstep
      rw [hhand] at hmsg
      cases hmsg
  | some msg =>
      have hforward := handed_forward l.capture msg
      cases hflag : l.capture.hook.grabbed with
      | true =>
          have hfit := (h.plain msg (h.inHand_built hhand)).fits
          have hl' := Link.forward_on hhand hflag hfit hstep
          subst hl'
          rw [hflag, if_pos rfl] at hforward
          have hlt := h.handled_lt
          refine ⟨⟨⟨hinv, h.plain, h.server, h.client, h.live⟩, rfl, rfl, ?_⟩, ?_⟩
          · show Capture.handed _ ++ (if l.capture.hook.grabbed then
                [] ++ l.capture.hook.sender.items else [])
              = l.capture.handed ++ if l.capture.hook.grabbed then
                l.capture.inHand.toList ++ l.capture.hook.sender.items else []
            rw [hflag, hforward, hhand, if_pos rfl, if_pos rfl, List.append_assoc]
            rfl
          · show 3 * l.capture.hook.sender.items.length + 2 * 0
                + ((l.written ++ accepted [msg]).length - (l.client.handled.length + 1))
              < 3 * l.capture.hook.sender.items.length + 2 * l.capture.inHand.toList.length
                + (l.written.length - (l.client.handled.length + 1))
            rw [accepted_of_fits hfit, List.length_append, hhand, Option.toList_some]
            simp only [List.length_singleton]
            omega
      | false =>
          have hl' := Link.forward_off hhand hflag hstep
          subst hl'
          rw [hflag] at hforward
          refine ⟨⟨⟨hinv, h.plain, h.server, h.client, h.live⟩, rfl, rfl, ?_⟩, ?_⟩
          · show Capture.handed _ ++ (if l.capture.hook.grabbed then _ else [])
              = l.capture.handed ++ if l.capture.hook.grabbed then _ else []
            rw [hflag, hforward]
            rfl
          · show 3 * l.capture.hook.sender.items.length + 2 * 0
                + (l.written.length - (l.client.handled.length + 1))
              < 3 * l.capture.hook.sender.items.length + 2 * l.capture.inHand.toList.length
                + (l.written.length - (l.client.handled.length + 1))
            rw [hhand, Option.toList_some, List.length_singleton]
            omega

theorem Flowing.deliver {l l' : Link δ} (h : Flowing serverOwn l) {n : Nat}
    (hstep : l.step serverOwn clientOwn backend (.deliverToClient n) = some l') :
    Flows serverOwn l l' ∧ l'.passesLeft = l.passesLeft := by
  have hinv := h.inv.step hstep
  obtain ⟨_, rfl⟩ := Link.step_cases hstep
  exact ⟨⟨⟨hinv, h.plain, h.server, h.client, h.live⟩, rfl, rfl, rfl⟩, rfl⟩

/-- The client's loop takes the next message: with its socket open and what the server has
written there is nothing else it can do. -/
theorem Flowing.read {l l' : Link δ} (h : Flowing serverOwn l)
    (hstep : l.step serverOwn clientOwn backend .clientNext = some l') :
    Flows serverOwn l l' ∧ l'.passesLeft < l.passesLeft ∧ l'.toClient = l.toClient
      ∧ l'.capture = l.capture := by
  have hinv := h.inv.step hstep
  obtain ⟨peer, hpeer⟩ := h.client
  obtain ⟨c, hc, rfl⟩ := Link.step_cases hstep
  obtain ⟨read, hconveys, _⟩ := h.inv.conveys
  rcases hconveys.next with hmore | ⟨msg, rest, hitem, _⟩
  · rcases Framed.next_of_more hmore with ⟨_, hnext⟩ | ⟨heof, _⟩
    · rw [Client.receive_pending hpeer hnext] at hc
      cases hc
    · rw [h.live] at heof
      cases heof
  · rw [Client.receive_item hpeer (Framed.next_of_message hitem)] at hc
    cases hc
    have hflowing : Flowing serverOwn { l with client := { l.client with
        framed := { l.client.framed with buffer := rest }
        device := (backend.handle l.client.device msg).2
        handled := l.client.handled ++ [msg] } } :=
      ⟨hinv, h.plain, h.server, ⟨peer, hpeer⟩, h.live⟩
    have hlt := hflowing.handled_lt
    refine ⟨⟨hflowing, rfl, rfl, rfl⟩, ?_, rfl, rfl⟩
    show 3 * l.capture.hook.sender.items.length + 2 * l.capture.inHand.toList.length
        + (l.written.length - ((l.client.handled ++ [msg]).length + 1))
      < 3 * l.capture.hook.sender.items.length + 2 * l.capture.inHand.toList.length
        + (l.written.length - (l.client.handled.length + 1))
    change (l.client.handled ++ [msg]).length + 1 ≤ l.written.length at hlt
    rw [List.length_append, List.length_singleton] at hlt ⊢
    omega

/-! ## §3. The flow comes to rest. -/

theorem Flowing.step {l l' : Link δ} {a : LinkAction} (h : Flowing serverOwn l)
    (ha : a.flows = true) (hstep : l.step serverOwn clientOwn backend a = some l') :
    Flows serverOwn l l' ∧ l'.passesLeft ≤ l.passesLeft
      ∧ (a.passes = true → l'.passesLeft < l.passesLeft) := by
  cases a with
  | captureRecv =>
      obtain ⟨hflows, hless⟩ := h.recv hstep
      exact ⟨hflows, Nat.le_of_lt hless, fun _ => hless⟩
  | forward fault =>
      cases fault with
      | some fault => cases ha
      | none =>
          obtain ⟨hflows, hless⟩ := h.forward hstep
          exact ⟨hflows, Nat.le_of_lt hless, fun _ => hless⟩
  | deliverToClient n =>
      obtain ⟨hflows, hsame⟩ := h.deliver hstep
      exact ⟨hflows, Nat.le_of_eq hsame, fun h => by cases h⟩
  | clientNext =>
      obtain ⟨hflows, hless, _⟩ := h.read hstep
      exact ⟨hflows, Nat.le_of_lt hless, fun _ => hless⟩
  | _ => cases ha

theorem Flows.trans {l l' l'' : Link δ} (h : Flows serverOwn l l')
    (h' : Flows serverOwn l' l'') : Flows serverOwn l l'' :=
  ⟨h'.flowing, h'.captured.trans h.captured, h'.grabbed.trans h.grabbed,
    h'.upstream.trans h.upstream⟩

/-- **The passes of a flow are bounded.** -/
theorem flow_works (device : δ) (l : Link δ) :
    Works (linkSystem serverOwn clientOwn backend device) (Flows serverOwn l)
      (fun a => a.flows = true) LinkAction.passes Link.passesLeft where
  keeps := fun h ha hstep => h.trans (h.flowing.step ha hstep).1
  lowers := fun h ha hstep => (h.flowing.step ha hstep).2.2
  atMost := fun h ha hstep _ => (h.flowing.step ha hstep).2.1

/-- The client goes on unless it has to wait. -/
theorem Flowing.exists_next {l : Link δ} (h : Flowing serverOwn l)
    (hready : ¬ l.client.framed.next.1 = .pending) :
    ∃ l', l.step serverOwn clientOwn backend .clientNext = some l' := by
  obtain ⟨peer, hpeer⟩ := h.client
  obtain ⟨polled, f, hnext⟩ : ∃ polled f, l.client.framed.next = (polled, f) := ⟨_, _, rfl⟩
  rw [hnext] at hready
  simp only [Link.step, Client.receive, hpeer, hnext]
  cases polled with
  | pending => exact absurd rfl hready
  | item msg => exact ⟨_, rfl⟩
  | ended => exact ⟨_, rfl⟩
  | error e => exact ⟨_, rfl⟩

/-- A message in hand can be dealt with. -/
theorem Link.exists_forward {l : Link δ} {peer : Hello} {msg : Message}
    (hpeer : l.server = .session peer) (hhand : l.capture.inHand = some msg) :
    ∃ l', l.step serverOwn clientOwn backend (.forward none) = some l' := by
  simp only [Link.step, hpeer, hhand, Capture.step, Option.map_some]
  exact ⟨_, rfl⟩

/-- A flow in which a message can be passed on passes one. -/
theorem Flowing.exists_pass {l : Link δ} (h : Flowing serverOwn l)
    (hleft : ¬ (l.capture.inHand = none ∧ l.capture.hook.sender.items = []
      ∧ l.client.framed.next.1 = .pending)) :
    ∃ a l', a.flows = true ∧ a.passes = true
      ∧ l.step serverOwn clientOwn backend a = some l' := by
  obtain ⟨peer, hpeer⟩ := h.server
  cases hhand : l.capture.inHand with
  | some msg =>
      obtain ⟨l', hl'⟩ := Link.exists_forward hpeer hhand
      exact ⟨.forward none, l', rfl, rfl, hl'⟩
  | none =>
      cases hitems : l.capture.hook.sender.items with
      | cons msg rest =>
          obtain ⟨queue, hqueue, _⟩ := BoundedFifo.Fifo.exists_recv hitems
          have hgo : ∃ l', l.step serverOwn clientOwn backend .captureRecv = some l' := by
            simp only [Link.step, hpeer, Capture.step, hhand, hqueue, Option.map_some]
            exact ⟨_, rfl⟩
          obtain ⟨l', hl'⟩ := hgo
          exact ⟨.captureRecv, l', rfl, rfl, hl'⟩
      | nil =>
          obtain ⟨l', hl'⟩ := h.exists_next fun hp => hleft ⟨hhand, hitems, hp⟩
          exact ⟨.clientNext, l', rfl, rfl, hl'⟩

/-- Behind the drain loop and the network, only the client is left to work. -/
structure Emptied (serverOwn : Hello) (l₀ l : Link δ) : Prop where
  flows : Flows serverOwn l₀ l
  hand : l.capture.inHand = none
  channel : l.capture.hook.sender.items = []
  wire : l.toClient = []

theorem client_works (device : δ) (l : Link δ) :
    Works (linkSystem serverOwn clientOwn backend device) (Emptied serverOwn l)
      (fun a => a = .clientNext) (fun _ => true) Link.passesLeft where
  keeps := by
    intro l₁ a l₂ h ha hstep
    subst ha
    obtain ⟨hflows, _, hwire, hcapture⟩ := h.flows.flowing.read hstep
    exact ⟨h.flows.trans hflows, by rw [hcapture]; exact h.hand, by rw [hcapture]; exact h.channel,
      hwire.trans h.wire⟩
  lowers := by
    intro l₁ a l₂ h ha hstep _
    subst ha
    exact (h.flows.flowing.read hstep).2.1
  atMost := by
    intro l₁ a l₂ _ _ _ hbusy
    cases hbusy

/-- **A flow can be brought to rest**: first the drain loop, then the whole of the wire, then
the client. -/
theorem Flowing.exists_rest (device : δ) {l : Link δ} (h : Flowing serverOwn l) :
    ∃ as l', (∀ a ∈ as, a.flows = true) ∧ as.length ≤ l.passesLeft + 1
      ∧ (linkSystem serverOwn clientOwn backend device).run l as = some l' ∧ l'.AtRest := by
  have hflows : Flows serverOwn l l := ⟨h, rfl, rfl, rfl⟩
  have hworks : Works (linkSystem serverOwn clientOwn backend device) _ _ _ _ :=
    flow_works device l
  have hworks' : Works (linkSystem serverOwn clientOwn backend device) _ _ _ _ :=
    client_works device l
  obtain ⟨as, l₁, has, hl₁, hhand, hchannel, _⟩ := hworks.settles
    (fun hI hleft => hI.flowing.exists_pass hleft) hflows
  obtain ⟨hflows₁, hcount₁⟩ := hworks.run hflows (fun a ha => (has a ha).1) hl₁
  obtain ⟨l₂, hl₂⟩ : ∃ l₂, l₁.step serverOwn clientOwn backend
      (.deliverToClient l₁.toClient.length) = some l₂ := by
    simp only [Link.step, hflows₁.flowing.live, Bool.false_eq_true, if_false]
    exact ⟨_, rfl⟩
  obtain ⟨hflows₂, hsame⟩ := hflows₁.flowing.deliver hl₂
  have hemptied : Emptied serverOwn l l₂ := by
    obtain ⟨_, rfl⟩ := Link.step_cases hl₂
    exact ⟨hflows₁.trans hflows₂, hhand, hchannel, List.drop_length⟩
  have hwork : ∀ {q : Link δ}, Emptied serverOwn l q → ¬ q.client.framed.next.1 = .pending →
      ∃ a q', a = LinkAction.clientNext ∧ true = true
        ∧ (linkSystem serverOwn clientOwn backend device).step q a = some q' := by
    intro q hq hready
    obtain ⟨q', hq'⟩ := hq.flows.flowing.exists_next hready
    exact ⟨.clientNext, q', rfl, rfl, hq'⟩
  obtain ⟨bs, l₃, hbs, hl₃, hread⟩ := hworks'.settles hwork hemptied
  obtain ⟨hemptied₃, hcount₃⟩ := hworks'.run hemptied (fun b hb => (hbs b hb).1) hl₃
  refine ⟨as ++ .deliverToClient l₁.toClient.length :: bs, l₃, ?_, ?_, ?_, ?_⟩
  · intro a ha
    rcases List.mem_append.mp ha with ha | ha
    · exact (has a ha).1
    · rcases List.mem_cons.mp ha with rfl | ha
      · rfl
      · rw [(hbs a ha).1]
        rfl
  · have hlen₁ := List.countP_eq_length.mpr fun a ha => (has a ha).2
    rw [List.countP_true] at hcount₃
    rw [List.length_append, List.length_cons]
    omega
  · rw [System.run_append, hl₁]
    exact System.run_cons.mpr ⟨l₂, hl₂, hl₃⟩
  · exact ⟨hemptied₃.hand, hemptied₃.channel, hemptied₃.wire, hread⟩

/-- **A SESSION DELIVERS.**  From any reachable state with both sides in their loops and the
client's socket open, and as long as no more input is captured and no send fails: whoever of
the drain loop, the network and the client moves when, at most `passesLeft` messages are
passed on; when nothing is left to pass on, the client has handled, behind the acceptance,
what had been handed to `sink.send` before, and if the flag is on the message in hand and
the channel, in that order; and a bounded number of steps leads there. -/
theorem session_delivers (serverOwn clientOwn : Hello) (backend : InputInject δ) (device : δ)
    (l : Link δ) (h : (linkSystem serverOwn clientOwn backend device).Reachable l)
    (peer peer' : Hello) (hserver : l.server = .session peer)
    (hclient : l.client.phase = .session peer') (hlive : l.client.framed.eof = false) :
    (∀ as l', (∀ a ∈ as, a.flows = true) →
        (linkSystem serverOwn clientOwn backend device).run l as = some l' →
        as.countP LinkAction.passes + l'.passesLeft ≤ l.passesLeft
          ∧ l'.capture.captured = l.capture.captured
          ∧ (l'.AtRest → l'.client.handled = .helloAck true none :: (l.capture.handed
            ++ if l.capture.hook.grabbed then
              l.capture.inHand.toList ++ l.capture.hook.sender.items else [])))
      ∧ ∃ as l', (∀ a ∈ as, a.flows = true) ∧ as.length ≤ l.passesLeft + 1
          ∧ (linkSystem serverOwn clientOwn backend device).run l as = some l' ∧ l'.AtRest := by
  have hflowing : Flowing serverOwn l :=
    ⟨linkInv_of_reachable h, plain_of_link h, ⟨peer, hserver⟩, ⟨peer', hclient⟩, hlive⟩
  refine ⟨?_, hflowing.exists_rest device⟩
  intro as l' hall hrun
  have hworks : Works (linkSystem serverOwn clientOwn backend device) _ _ _ _ :=
    flow_works device l
  obtain ⟨hflows', hcount⟩ := hworks.run ⟨hflowing, rfl, rfl, rfl⟩ hall hrun
  refine ⟨hcount, hflows'.captured, ?_⟩
  intro hrest
  obtain ⟨p, hp⟩ := hflows'.flowing.server
  obtain ⟨p', hp'⟩ := hflows'.flowing.client
  have hupstream := hflows'.upstream
  unfold Link.upstream at hupstream
  rw [hrest.hand, hrest.channel, Option.toList_none, List.append_nil, ite_self,
    List.append_nil] at hupstream
  rw [hflows'.flowing.inv.all_handled hp hp' hrest, hupstream]

/-- A key in the channel, and nothing handled yet. -/
theorem session_delivers_key :
    ∃ l as l', (linkSystem (ourHello Uuid.nil "server" ⟨1920, 1080⟩)
          (ourHello Uuid.nil "client" ⟨1920, 1080⟩) ⟨fun _ _ => (.ok (), ())⟩ ()).Reachable l
      ∧ l.client.handled = []
      ∧ (linkSystem (ourHello Uuid.nil "server" ⟨1920, 1080⟩)
          (ourHello Uuid.nil "client" ⟨1920, 1080⟩) ⟨fun _ _ => (.ok (), ())⟩ ()).run l as = some l'
      ∧ l'.client.handled
        = [.helloAck true none, .keyEvent 25 true ⟨false, false, false, false⟩] := by
  obtain ⟨l, hl⟩ : ∃ l, (linkSystem (ourHello Uuid.nil "server" ⟨1920, 1080⟩)
      (ourHello Uuid.nil "client" ⟨1920, 1080⟩) ⟨fun _ _ => (.ok (), ())⟩ ()).run
        (.new ()) (keyBehindHandshake.take 10) = some l := ⟨_, rfl⟩
  have hphases : (∃ peer, l.server = .session peer) ∧ (∃ peer, l.client.phase = .session peer)
      ∧ l.client.framed.eof = false ∧ l.client.handled = []
      ∧ (l.capture.handed ++ if l.capture.hook.grabbed then
          l.capture.inHand.toList ++ l.capture.hook.sender.items else [])
        = [.keyEvent 25 true ⟨false, false, false, false⟩] := by
    cases hl
    exact ⟨⟨_, rfl⟩, ⟨_, rfl⟩, rfl, rfl, rfl⟩
  obtain ⟨⟨peer, hserver⟩, ⟨peer', hclient⟩, hlive, hnone, hkey⟩ := hphases
  obtain ⟨hall, as, l', has, _, hrun, hrest⟩ :=
    session_delivers _ _ _ _ l ⟨_, hl⟩ peer peer' hserver hclient hlive
  refine ⟨l, as, l', ⟨_, hl⟩, hnone, hrun, ?_⟩
  rw [(hall as l' has hrun).2.2 hrest, hkey]

end Dshare.Session
