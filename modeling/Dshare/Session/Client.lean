/-
  Dshare.Session.Client
  ─────────────────────
  **WHAT A CLIENT INJECTS.**

  `handle_peer` with `is_server = false`, fed by the network: chunks of bytes, the
  end of the stream, the end of the five seconds, in any order.  After each of
  them the task runs until it has to wait again (`settle`).  Its own sends
  succeed; the backend is any `InputInject`, and a failing `handle` is only
  logged.

    • `settle_session` — inside the loop, one round handles the messages of the
      buffer up to the first error;
    • `run_session`, `run_awaiting` — the same over all the network still brings;
    • `injects_after_handshake` — the whole run.
-/
import Dshare.Input.Linux
import Dshare.Session.Handshake

namespace Dshare.Session

open StreamDecoder Dshare.Protocol Dshare.Input

/-! ## §1. The client's task. -/

structure Client (δ : Type) where
  phase : Phase
  framed : Framed
  device : δ
  /-- Every message `inj.handle` was called on. -/
  handled : List Message

variable {δ : Type} (own : Hello) (backend : InputInject δ)

/-- `framed.next()` before the split and `source.next()` in the loop, if there is
something to return. -/
def Client.receive (c : Client δ) : Option (Client δ) :=
  match c.phase with
  | .awaitHello =>
      (Phase.onFirst own c.framed.next.1).map fun phase =>
        { c with phase := phase, framed := c.framed.next.2 }
  | .session _ =>
      match c.framed.next with
      | (.pending, _) => none
      | (.item msg, f) =>
          -- "inject failed" is a warning
          some { c with
            framed := f
            device := (backend.handle c.device msg).2
            handled := c.handled ++ [msg] }
      | (_, f) => some { c with phase := .ended, framed := f }
  | _ => none

/-- One turn of the task: a send, or a receive. -/
def Client.turn (c : Client δ) : Option (Client δ) :=
  match c.phase.outgoing own with
  | some _ => some { c with phase := c.phase.sent own }
  | none => c.receive own backend

/-- How far a phase is from the end. -/
def Phase.rank : Phase → Nat
  | .hello => 4
  | .awaitHello => 3
  | .refuse _ => 2
  | .accept _ => 2
  | .session _ => 1
  | .failed _ => 0
  | .ended => 0

theorem rank_onPeerMsg (msg : Message) : (onPeerMsg own msg).rank ≤ 2 := by
  rcases onPeerMsg_cases own msg with ⟨_, _, _, h⟩ | ⟨_, _, _, h⟩ | ⟨_, h⟩ <;> rw [h]
  · exact Nat.le_refl 2
  · exact Nat.le_refl 2
  · exact Nat.zero_le 2

/-- A send brings the task nearer to its end. -/
theorem rank_sent {phase : Phase} {msg : Message} (h : phase.outgoing own = some msg) :
    (phase.sent own).rank < phase.rank := by
  cases phase with
  | hello => exact Nat.lt_succ_self 3
  | refuse peer => exact Nat.zero_lt_succ 1
  | accept peer => exact Nat.lt_succ_self 1
  | awaitHello | session | failed | ended => cases h

/-- So does the first frame. -/
theorem rank_onFirst {polled : Polled} {phase : Phase}
    (h : Phase.onFirst own polled = some phase) : phase.rank < Phase.awaitHello.rank := by
  cases polled with
  | pending => cases h
  | ended => cases h; exact Nat.zero_lt_succ 2
  | error e => cases h; exact Nat.zero_lt_succ 2
  | item msg => cases h; exact Nat.lt_succ_of_le (rank_onPeerMsg own msg)

/-- `next` never lengthens the buffer, and a frame shortens it. -/
theorem Framed.next_length (f : Framed) :
    f.next.2.buffer.length ≤ f.buffer.length
      ∧ ∀ msg, f.next.1 = .item msg → f.next.2.buffer.length < f.buffer.length := by
  cases hs : messageDecoder.step f.buffer with
  | more =>
      rcases Framed.next_of_more hs with ⟨_, hnext⟩ | ⟨_, polled, hnext, hbad⟩
      · rw [hnext]
        exact ⟨Nat.le_refl _, fun _ h => by cases h⟩
      · rw [hnext]
        refine ⟨Nat.le_refl _, ?_⟩
        intro msg hmsg
        rcases hbad with rfl | ⟨e, rfl⟩ <;> cases hmsg
  | stop e =>
      rw [Framed.next_of_stop hs]
      exact ⟨Nat.le_refl _, fun _ h => by cases h⟩
  | item o rest =>
      have hlt := messageDecoder.item_shorter hs
      cases o with
      | message msg =>
          rw [Framed.next_of_message hs]
          exact ⟨Nat.le_of_lt hlt, fun _ _ => hlt⟩
      | malformed e =>
          rw [Framed.next_of_malformed hs]
          exact ⟨Nat.le_of_lt hlt, fun _ h => by cases h⟩

/-- A receive brings the task nearer to its end, or it takes a frame off the buffer. -/
theorem Client.receive_cases {c c' : Client δ} (h : c.receive own backend = some c') :
    c'.framed = c.framed.next.2
      ∧ (c'.phase.rank < c.phase.rank
        ∨ c'.phase = c.phase ∧ ∃ msg, c.framed.next.1 = .item msg) := by
  unfold Client.receive at h
  cases hp : c.phase with
  | awaitHello =>
      simp only [hp] at h
      obtain ⟨phase, hphase, rfl⟩ := Option.map_eq_some_iff.mp h
      exact ⟨rfl, .inl (rank_onFirst own hphase)⟩
  | session peer =>
      simp only [hp] at h
      obtain ⟨polled, f, hnext⟩ : ∃ polled f, c.framed.next = (polled, f) := ⟨_, _, rfl⟩
      rw [hnext] at h ⊢
      cases polled with
      | pending => cases h
      | item msg => cases h; exact ⟨rfl, .inr ⟨rfl, msg, rfl⟩⟩
      | ended => cases h; exact ⟨rfl, .inl Nat.zero_lt_one⟩
      | error e => cases h; exact ⟨rfl, .inl Nat.zero_lt_one⟩
  | hello | refuse | accept | failed | ended =>
      simp only [hp] at h
      cases h

theorem Client.turn_decreases {c c' : Client δ} (h : c.turn own backend = some c') :
    c'.phase.rank + c'.framed.buffer.length < c.phase.rank + c.framed.buffer.length := by
  unfold Client.turn at h
  cases hout : c.phase.outgoing own with
  | some msg =>
      rw [hout] at h
      cases h
      exact Nat.add_lt_add_right (rank_sent own hout) _
  | none =>
      rw [hout] at h
      obtain ⟨hle, hlt⟩ := c.framed.next_length
      obtain ⟨hframed, hrank | ⟨hphase, msg, hmsg⟩⟩ := Client.receive_cases own backend h
      · rw [hframed]
        exact Nat.add_lt_add_of_lt_of_le hrank hle
      · rw [hframed, hphase]
        exact Nat.add_lt_add_left (hlt msg hmsg) _

/-- Run the task until it waits for the network or returns. -/
def Client.settle (c : Client δ) : Client δ :=
  match _h : c.turn own backend with
  | none => c
  | some c' => c'.settle
  termination_by c.phase.rank + c.framed.buffer.length
  decreasing_by exact Client.turn_decreases own backend _h

/-- What the network does next. -/
inductive NetEvent where
  | chunk (bytes : List UInt8)
  | eof
  /-- Five seconds have passed since the wait began. -/
  | timeout

def Client.event (c : Client δ) : NetEvent → Client δ
  | .chunk bytes =>
      if c.framed.eof then c else settle own backend { c with framed := c.framed.arrive bytes }
  | .eof => settle own backend { c with framed := { c.framed with eof := true } }
  | .timeout =>
      match c.phase with
      | .awaitHello => { c with phase := .failed .timeout }
      | _ => c

def Client.new (device : δ) : Client δ := ⟨.hello, ⟨[], false⟩, device, []⟩

/-- A client session, from its first send. -/
def Client.run (device : δ) (events : List NetEvent) : Client δ :=
  events.foldl (Client.event own backend) ((Client.new device).settle own backend)

/-! ## §2. What has arrived. -/

/-- All bytes up to the end of the stream. -/
def received : List NetEvent → List UInt8
  | [] => []
  | .chunk bytes :: events => bytes ++ received events
  | .eof :: _ => []
  | .timeout :: events => received events

/-- The bytes that came before the five seconds were over. -/
def receivedInTime : List NetEvent → List UInt8
  | [] => []
  | .chunk bytes :: events => bytes ++ receivedInTime events
  | .eof :: _ => []
  | .timeout :: _ => []

/-- The messages in front of the first malformed frame. -/
def messagesUpTo : List Outcome → List Message
  | .message msg :: outs => msg :: messagesUpTo outs
  | _ => []

/-- Nothing but messages so far. -/
def Clean (r : Drained UInt8 Outcome ProtocolError) : Prop :=
  r.stopped = none ∧ ∀ o ∈ r.outs, ∃ msg, o = .message msg

theorem messagesUpTo_append_clean {outs : List Outcome} (h : ∀ o ∈ outs, ∃ msg, o = .message msg)
    (more : List Outcome) :
    messagesUpTo (outs ++ more) = messagesUpTo outs ++ messagesUpTo more := by
  induction outs with
  | nil => rfl
  | cons o outs ih =>
      obtain ⟨msg, rfl⟩ := h o List.mem_cons_self
      have hrest := ih fun o ho => h o (List.mem_cons_of_mem _ ho)
      simp only [List.cons_append, messagesUpTo, hrest]

theorem messagesUpTo_append_dirty {outs : List Outcome}
    (h : ¬ ∀ o ∈ outs, ∃ msg, o = .message msg) (more : List Outcome) :
    messagesUpTo (outs ++ more) = messagesUpTo outs := by
  induction outs with
  | nil => exact absurd (fun o ho => by cases ho) h
  | cons o outs ih =>
      cases o with
      | malformed e => rfl
      | message msg =>
          have hrest : ¬ ∀ o ∈ outs, ∃ msg, o = .message msg := by
            intro hall
            apply h
            intro o ho
            rcases List.mem_cons.mp ho with rfl | ho
            · exact ⟨msg, rfl⟩
            · exact hall o ho
          simp only [List.cons_append, messagesUpTo, ih hrest]

/-- A clean buffer is continued by what arrives behind it. -/
theorem messagesUpTo_drain_clean {b : List UInt8} (h : Clean (messageDecoder.drain b))
    (c : List UInt8) :
    messagesUpTo (messageDecoder.drain (b ++ c)).outs
      = messagesUpTo (messageDecoder.drain b).outs
        ++ messagesUpTo (messageDecoder.drain ((messageDecoder.drain b).rest ++ c)).outs := by
  rw [messageDecoder.drain_append b c h.1]
  exact messagesUpTo_append_clean h.2 _

/-- Behind an error, nothing that arrives counts. -/
theorem messagesUpTo_drain_dirty {b : List UInt8} (h : ¬ Clean (messageDecoder.drain b))
    (c : List UInt8) :
    messagesUpTo (messageDecoder.drain (b ++ c)).outs
      = messagesUpTo (messageDecoder.drain b).outs := by
  cases hs : (messageDecoder.drain b).stopped with
  | some e => rw [messageDecoder.drain_append_stopped b c e hs]
  | none =>
      rw [messageDecoder.drain_append b c hs]
      exact messagesUpTo_append_dirty (fun hall => h ⟨hs, hall⟩) _

/-! ## §3. Rounds of the task. -/

variable {own backend}

theorem Client.settle_of_none {c : Client δ} (h : c.turn own backend = none) :
    c.settle own backend = c := by
  rw [Client.settle]
  split <;> simp_all

theorem Client.settle_of_some {c c' : Client δ} (h : c.turn own backend = some c') :
    c.settle own backend = c'.settle own backend := by
  rw [Client.settle]
  split <;> simp_all

/-- What a read in the wait for the first frame makes of `next`. -/
theorem Client.receive_awaiting {c : Client δ} {polled : Polled} {f : Framed}
    (hp : c.phase = .awaitHello) (hnext : c.framed.next = (polled, f)) :
    c.receive own backend
      = (Phase.onFirst own polled).map fun phase => { c with phase := phase, framed := f } := by
  unfold Client.receive
  rw [hp]
  simp only [hnext]

/-- A read in the loop with nothing to return. -/
theorem Client.receive_pending {c : Client δ} {peer : Hello} {f : Framed}
    (hp : c.phase = .session peer) (hnext : c.framed.next = (.pending, f)) :
    c.receive own backend = none := by
  unfold Client.receive
  rw [hp]
  simp only [hnext]

/-- A read in the loop that returns a message. -/
theorem Client.receive_item {c : Client δ} {peer : Hello} {msg : Message} {f : Framed}
    (hp : c.phase = .session peer) (hnext : c.framed.next = (.item msg, f)) :
    c.receive own backend = some { c with
      framed := f
      device := (backend.handle c.device msg).2
      handled := c.handled ++ [msg] } := by
  unfold Client.receive
  rw [hp]
  simp only [hnext]

/-- A read in the loop that ends it. -/
theorem Client.receive_end {c : Client δ} {peer : Hello} {polled : Polled} {f : Framed}
    (hp : c.phase = .session peer) (hnext : c.framed.next = (polled, f))
    (hbad : polled = .ended ∨ ∃ e, polled = .error e) :
    c.receive own backend = some { c with phase := .ended, framed := f } := by
  unfold Client.receive
  rw [hp]
  rcases hbad with rfl | ⟨e, rfl⟩
  · simp only [hnext]
  · simp only [hnext]

/-- A task with nothing to send reads. -/
theorem Client.turn_of_quiet {c : Client δ} (h : c.phase.outgoing own = none) :
    c.turn own backend = c.receive own backend := by
  unfold Client.turn
  rw [h]

/-- The round goes on after a read. -/
theorem Client.settle_of_receive {c c' : Client δ} (hquiet : c.phase.outgoing own = none)
    (h : c.receive own backend = some c') : c.settle own backend = c'.settle own backend :=
  Client.settle_of_some ((Client.turn_of_quiet hquiet).trans h)

/-- A client that has returned does nothing more. -/
theorem Client.settle_done {c : Client δ} (h : c.phase.done = true) :
    c.settle own backend = c := by
  apply Client.settle_of_none
  unfold Client.turn Client.receive
  cases hp : c.phase <;> first | rfl | (rw [hp] at h; cases h)

variable (own backend) in
theorem Client.event_done {c : Client δ} (h : c.phase.done = true) (e : NetEvent) :
    (c.event own backend e).phase.done = true
      ∧ (c.event own backend e).handled = c.handled := by
  cases e with
  | chunk bytes =>
      simp only [Client.event]
      split
      next => exact ⟨h, rfl⟩
      next =>
        rw [Client.settle_done (by exact h)]
        exact ⟨h, rfl⟩
  | eof =>
      simp only [Client.event]
      rw [Client.settle_done (by exact h)]
      exact ⟨h, rfl⟩
  | timeout =>
      simp only [Client.event]
      split
      next hp =>
        rw [hp] at h
        cases h
      next => exact ⟨h, rfl⟩

theorem Client.run_done (events : List NetEvent) :
    ∀ {c : Client δ}, c.phase.done = true →
      (events.foldl (Client.event own backend) c).handled = c.handled := by
  induction events with
  | nil => intro c _; rfl
  | cons e events ih =>
      intro c h
      obtain ⟨hdone, hsame⟩ := Client.event_done own backend h e
      rw [List.foldl_cons, ih hdone, hsame]

/-- The wait is over: the round goes on in the phase the first frame leads to. -/
theorem Client.settle_first {c : Client δ} {polled : Polled} {f : Framed} {phase : Phase}
    (hp : c.phase = .awaitHello) (hnext : c.framed.next = (polled, f))
    (hfirst : Phase.onFirst own polled = some phase) :
    c.settle own backend = Client.settle own backend { c with phase := phase, framed := f } := by
  apply Client.settle_of_receive (by rw [hp]; rfl)
  rw [Client.receive_awaiting hp hnext, hfirst]
  rfl

variable (own backend) in
/-- The loop is over. -/
theorem Client.settle_end {c : Client δ} {peer : Hello} {polled : Polled} {f : Framed}
    (hp : c.phase = .session peer) (hnext : c.framed.next = (polled, f))
    (hbad : polled = .ended ∨ ∃ e, polled = .error e) :
    c.settle own backend = { c with phase := .ended, framed := f } := by
  rw [Client.settle_of_receive (by rw [hp]; rfl) (Client.receive_end hp hnext hbad)]
  exact Client.settle_done rfl

/-- A waiting client whose first frame is not complete keeps waiting. -/
theorem Client.settle_awaiting {c : Client δ} (hp : c.phase = .awaitHello)
    (heof : c.framed.eof = false) (hs : messageDecoder.step c.framed.buffer = .more) :
    c.settle own backend = c := by
  apply Client.settle_of_none
  rw [Client.turn_of_quiet (by rw [hp]; rfl)]
  rcases Framed.next_of_more hs with ⟨_, hnext⟩ | ⟨heof', _⟩
  · exact Client.receive_awaiting hp hnext
  · rw [heof] at heof'
    cases heof'

variable (own backend) in
/-- One round in the loop: the messages of the buffer up to the first error. -/
theorem Client.settle_session (b : List UInt8) :
    ∀ c : Client δ, (∃ peer, c.phase = .session peer) → c.framed = ⟨b, false⟩ →
      (c.settle own backend).handled
          = c.handled ++ messagesUpTo (messageDecoder.drain b).outs
        ∧ (Clean (messageDecoder.drain b) →
            (∃ peer, (c.settle own backend).phase = .session peer)
              ∧ (c.settle own backend).framed = ⟨(messageDecoder.drain b).rest, false⟩)
        ∧ (¬ Clean (messageDecoder.drain b) → (c.settle own backend).phase = .ended) := by
  induction b using messageDecoder.drain_induction with
  | hmore b hs =>
      intro c hp hf
      obtain ⟨peer, hp⟩ := hp
      have hnext : c.framed.next = (.pending, ⟨b, false⟩) := by
        rcases Framed.next_of_more (f := ⟨b, false⟩) hs with ⟨_, hnext⟩ | ⟨heof, _⟩
        · rw [hf]
          exact hnext
        · cases heof
      have hnone : c.turn own backend = none := by
        rw [Client.turn_of_quiet (by rw [hp]; rfl)]
        exact Client.receive_pending hp hnext
      rw [Client.settle_of_none hnone, messageDecoder.drain_more hs]
      refine ⟨by simp [messagesUpTo], fun _ => ⟨⟨peer, hp⟩, hf⟩, ?_⟩
      intro hdirty
      exact absurd ⟨rfl, fun o ho => by cases ho⟩ hdirty
  | hstop b e hs =>
      intro c hp hf
      obtain ⟨peer, hp⟩ := hp
      have hnext : c.framed.next = (.error e, ⟨b, false⟩) := by
        rw [hf]
        exact Framed.next_of_stop hs
      rw [Client.settle_end own backend hp hnext (.inr ⟨e, rfl⟩), messageDecoder.drain_stop hs]
      refine ⟨by simp [messagesUpTo], ?_, fun _ => rfl⟩
      intro hclean
      cases hclean.1
  | hitem b o rest hs ih =>
      intro c hp hf
      obtain ⟨peer, hp⟩ := hp
      rw [messageDecoder.drain_item hs]
      cases o with
      | malformed e =>
          have hnext : c.framed.next = (.error (.encode e), ⟨rest, false⟩) := by
            rw [hf]
            exact Framed.next_of_malformed hs
          rw [Client.settle_end own backend hp hnext (.inr ⟨_, rfl⟩)]
          refine ⟨by simp [messagesUpTo], ?_, fun _ => rfl⟩
          intro hclean
          obtain ⟨msg, hmsg⟩ := hclean.2 _ List.mem_cons_self
          cases hmsg
      | message msg =>
          have hnext : c.framed.next = (.item msg, ⟨rest, false⟩) := by
            rw [hf]
            exact Framed.next_of_message hs
          obtain ⟨hhandled, hclean, hdirty⟩ := ih { c with
            framed := ⟨rest, false⟩
            device := (backend.handle c.device msg).2
            handled := c.handled ++ [msg] } ⟨peer, hp⟩ rfl
          rw [Client.settle_of_receive (by rw [hp]; rfl) (Client.receive_item hp hnext)]
          -- one message more in front does not change whether the rest is clean
          have hiff : Clean ⟨.message msg :: (messageDecoder.drain rest).outs,
              (messageDecoder.drain rest).rest, (messageDecoder.drain rest).stopped⟩
              ↔ Clean (messageDecoder.drain rest) := by
            simp [Clean]
          rw [hiff]
          exact ⟨by rw [hhandled]; simp [messagesUpTo], hclean, hdirty⟩

/-! ## §4. The whole session. -/

variable (own backend) in
/-- Inside the loop: everything that still arrives, up to the first error. -/
theorem Client.run_session (events : List NetEvent) :
    ∀ (c : Client δ) (b : List UInt8), (∃ peer, c.phase = .session peer) →
      c.framed = ⟨b, false⟩ →
      (events.foldl (Client.event own backend) (c.settle own backend)).handled
        = c.handled ++ messagesUpTo (messageDecoder.drain (b ++ received events)).outs := by
  induction events with
  | nil =>
      intro c b hp hf
      rw [received, List.append_nil]
      exact (Client.settle_session own backend b c hp hf).1
  | cons e events ih =>
      intro c b hp hf
      obtain ⟨hhandled, hcleanly, hdirtily⟩ :=
        Client.settle_session own backend b c hp hf
      by_cases hclean : Clean (messageDecoder.drain b)
      · obtain ⟨hsession, hframed⟩ := hcleanly hclean
        have hmore := messageDecoder.step_rest b hclean.1
        rw [List.foldl_cons]
        cases e with
        | chunk bytes =>
            have hevent : (c.settle own backend).event own backend (.chunk bytes)
                = Client.settle own backend { c.settle own backend with
                    framed := ⟨(messageDecoder.drain b).rest ++ bytes, false⟩ } := by
              simp only [Client.event, hframed, Framed.arrive]
              rfl
            have hrest := ih { c.settle own backend with
              framed := ⟨(messageDecoder.drain b).rest ++ bytes, false⟩ } _ hsession rfl
            rw [hevent]
            refine hrest.trans ?_
            show (c.settle own backend).handled ++ _ = _
            rw [hhandled, received, messagesUpTo_drain_clean hclean, List.append_assoc,
              List.append_assoc]
        | eof =>
            -- the loop ends: what is left over is not a frame
            have hreturn : ((c.settle own backend).event own backend .eof).phase.done = true
                ∧ ((c.settle own backend).event own backend .eof).handled
                  = (c.settle own backend).handled := by
              obtain ⟨peer, hphase⟩ := hsession
              simp only [Client.event, hframed]
              rcases Framed.next_of_more (f := ⟨(messageDecoder.drain b).rest, true⟩) hmore with
                ⟨heof, _⟩ | ⟨_, polled, hnext, hbad⟩
              · cases heof
              rw [Client.settle_end own backend (c := { c.settle own backend with
                framed := ⟨(messageDecoder.drain b).rest, true⟩ }) hphase hnext hbad]
              exact ⟨rfl, rfl⟩
            rw [Client.run_done events hreturn.1, hreturn.2, hhandled, received, List.append_nil]
        | timeout =>
            -- nobody waits for the first frame any more
            have hevent : (c.settle own backend).event own backend .timeout
                = c.settle own backend := by
              obtain ⟨peer, hphase⟩ := hsession
              simp only [Client.event, hphase]
            rw [hevent, received]
            exact ih c b hp hf
      · -- the loop has met an error
        have hdone : (c.settle own backend).phase.done = true := by
          rw [hdirtily hclean]
          rfl
        rw [Client.run_done (e :: events) hdone, hhandled, messagesUpTo_drain_dirty hclean]

/-- The first frame was complete before the five seconds were over, and it is a
`Hello` of our version. -/
def HelloInTime (own : Hello) (b : List UInt8) (events : List NetEvent) : Prop :=
  ∃ peer rest,
    messageDecoder.step (b ++ receivedInTime events) = .item (.message (.hello peer)) rest
      ∧ peer.protocolVersion = own.protocolVersion

variable (own backend) in
/-- A first frame that is not acceptable: the session fails before its loop. -/
theorem Client.settle_rejected {c : Client δ} {f : Framed} {msg : Message}
    (hp : c.phase = .awaitHello) (hnext : c.framed.next = (.item msg, f))
    (hno : ∀ peer, msg = .hello peer → peer.protocolVersion ≠ own.protocolVersion) :
    (c.settle own backend).phase.done = true
      ∧ (c.settle own backend).handled = c.handled := by
  rw [Client.settle_first hp hnext rfl]
  rcases onPeerMsg_cases own msg with ⟨peer, _, _, h⟩ | ⟨peer, hmsg, hv, _⟩ | ⟨_, h⟩
  · -- the refusal is sent, and then the task returns
    have hsend : Client.turn own backend { c with phase := .refuse peer, framed := f }
        = some { c with
            phase := .failed (.versionMismatch peer.protocolVersion own.protocolVersion)
            framed := f } := rfl
    rw [h, Client.settle_of_some hsend, Client.settle_done rfl]
    exact ⟨rfl, rfl⟩
  · exact absurd hv (hno peer hmsg)
  · rw [h, Client.settle_done rfl]
    exact ⟨rfl, rfl⟩

/-- An acceptable first frame: the acceptance is sent, and the loop begins. -/
theorem Client.settle_accepted {c : Client δ} {f : Framed} {peer : Hello}
    (hp : c.phase = .awaitHello) (hnext : c.framed.next = (.item (.hello peer), f))
    (hv : peer.protocolVersion = own.protocolVersion) :
    c.settle own backend
      = Client.settle own backend { c with phase := .session peer, framed := f } := by
  have hok : onPeerMsg own (.hello peer) = .accept peer := by
    rcases onPeerMsg_cases own (.hello peer) with ⟨_, hm, hne, _⟩ | ⟨_, hm, _, h⟩ | ⟨hno, _⟩
    · cases hm
      exact absurd hv hne
    · cases hm
      exact h
    · exact absurd rfl (hno peer)
  have hfirst : Phase.onFirst own (.item (.hello peer)) = some (.accept peer) :=
    congrArg some hok
  have hsend : Client.turn own backend { c with phase := .accept peer, framed := f }
      = some { c with phase := .session peer, framed := f } := rfl
  rw [Client.settle_first hp hnext hfirst, Client.settle_of_some hsend]

variable (own backend) in
/-- The stream breaks off, or its first frame is an error. -/
theorem Client.settle_failed {c : Client δ} {f : Framed} {polled : Polled}
    (hp : c.phase = .awaitHello) (hnext : c.framed.next = (polled, f))
    (hbad : polled = .ended ∨ ∃ e, polled = .error e) :
    (c.settle own backend).phase.done = true
      ∧ (c.settle own backend).handled = c.handled := by
  obtain ⟨e, he⟩ := onFirst_failed own hbad
  rw [Client.settle_first hp hnext he, Client.settle_done rfl]
  exact ⟨rfl, rfl⟩

/-- A client that returned before its loop has handled nothing. -/
theorem Client.run_returned {c : Client δ} (hdone : c.phase.done = true) (hh : c.handled = [])
    {intime : Prop} (hno : ¬ intime) (events : List NetEvent) (msgs : List Message) :
    (¬ intime → (events.foldl (Client.event own backend) c).handled = [])
      ∧ (intime → (events.foldl (Client.event own backend) c).handled = msgs) :=
  ⟨fun _ => by rw [Client.run_done events hdone, hh], fun h => absurd h hno⟩

/-- Without another byte in time, an incomplete first frame stays incomplete. -/
theorem not_helloInTime {b : List UInt8} {events : List NetEvent}
    (hs : messageDecoder.step b = .more) (hnil : receivedInTime events = []) :
    ¬ HelloInTime own b events := by
  intro htime
  obtain ⟨peer, rest, hstep, _⟩ := htime
  rw [hnil, List.append_nil, hs] at hstep
  cases hstep

/-- The first frame is complete; what follows it does not matter. -/
theorem helloInTime_iff {b rest : List UInt8} {o : Outcome} (events : List NetEvent)
    (hs : messageDecoder.step b = .item o rest) :
    HelloInTime own b events
      ↔ ∃ peer, o = .message (.hello peer) ∧ peer.protocolVersion = own.protocolVersion := by
  have hlong := messageDecoder.item_append (receivedInTime events) hs
  constructor
  · intro htime
    obtain ⟨peer, rest', hstep, hv⟩ := htime
    rw [hlong] at hstep
    cases hstep
    exact ⟨peer, rfl, hv⟩
  · intro hpeer
    obtain ⟨peer, rfl, hv⟩ := hpeer
    exact ⟨peer, _, hlong, hv⟩

/-- Waiting for the first frame, with `b` in the buffer. -/
theorem Client.run_awaiting (events : List NetEvent) :
    ∀ (c : Client δ) (b : List UInt8), c.phase = .awaitHello → c.framed = ⟨b, false⟩ →
      messageDecoder.step b = .more → c.handled = [] →
      (¬ HelloInTime own b events →
          (events.foldl (Client.event own backend) c).handled = [])
        ∧ (HelloInTime own b events →
          (events.foldl (Client.event own backend) c).handled
            = messagesUpTo (messageDecoder.drain (b ++ received events)).outs.tail) := by
  induction events with
  | nil =>
      intro c b hp hf hs hh
      exact ⟨fun _ => hh, fun htime => absurd htime (not_helloInTime hs rfl)⟩
  | cons e events ih =>
      intro c b hp hf hs hh
      rw [List.foldl_cons]
      cases e with
      | timeout =>
          have hevent : c.event own backend .timeout = { c with phase := .failed .timeout } := by
            simp only [Client.event, hp]
          have hdone : (c.event own backend .timeout).phase.done = true := by
            rw [hevent]
            rfl
          have hsame : (c.event own backend .timeout).handled = [] := by
            rw [hevent]
            exact hh
          exact Client.run_returned hdone hsame (not_helloInTime hs rfl) events _
      | eof =>
          rcases Framed.next_of_more (f := ⟨b, true⟩) hs with
            ⟨heof, _⟩ | ⟨_, polled, hnext, hbad⟩
          · cases heof
          obtain ⟨hdone, hsame⟩ := Client.settle_failed own backend
            (c := { c with framed := ⟨b, true⟩ }) hp hnext hbad
          have hevent : c.event own backend .eof
              = Client.settle own backend { c with framed := ⟨b, true⟩ } := by
            simp only [Client.event, hf]
          rw [hevent]
          exact Client.run_returned hdone (hsame.trans hh) (not_helloInTime hs rfl) events _
      | chunk bytes =>
          have hevent : c.event own backend (.chunk bytes)
              = Client.settle own backend { c with framed := ⟨b ++ bytes, false⟩ } := by
            simp only [Client.event, hf, Framed.arrive]
            rfl
          -- the chunk joins the buffer
          have htime : HelloInTime own b (.chunk bytes :: events)
              ↔ HelloInTime own (b ++ bytes) events := by
            unfold HelloInTime
            rw [receivedInTime, ← List.append_assoc]
          rw [hevent, htime, received, ← List.append_assoc]
          cases hstep : messageDecoder.step (b ++ bytes) with
          | more =>
              rw [Client.settle_awaiting (by exact hp) rfl hstep]
              exact ih _ (b ++ bytes) hp rfl hstep hh
          | stop e =>
              have hno : ¬ HelloInTime own (b ++ bytes) events := by
                intro h
                obtain ⟨peer, rest, hitem, _⟩ := h
                rw [messageDecoder.stop_append _ hstep] at hitem
                cases hitem
              obtain ⟨hdone, hsame⟩ := Client.settle_failed own backend
                (c := { c with framed := ⟨b ++ bytes, false⟩ }) hp (Framed.next_of_stop hstep)
                (.inr ⟨_, rfl⟩)
              exact Client.run_returned hdone (hsame.trans hh) hno events _
          | item o rest =>
              rw [helloInTime_iff events hstep]
              cases o with
              | malformed e =>
                  obtain ⟨hdone, hsame⟩ := Client.settle_failed own backend
                    (c := { c with framed := ⟨b ++ bytes, false⟩ }) hp
                    (Framed.next_of_malformed hstep) (.inr ⟨_, rfl⟩)
                  exact Client.run_returned hdone (hsame.trans hh) (by simp) events _
              | message msg =>
                  by_cases hok : ∃ peer, msg = .hello peer
                      ∧ peer.protocolVersion = own.protocolVersion
                  · obtain ⟨peer, rfl, hv⟩ := hok
                    have hrest := Client.run_session own backend events
                      { c with phase := .session peer, framed := ⟨rest, false⟩ } rest
                      ⟨peer, rfl⟩ rfl
                    rw [Client.settle_accepted (by exact hp) (Framed.next_of_message hstep) hv]
                    refine ⟨fun hno => absurd ⟨peer, rfl, hv⟩ hno, fun _ => ?_⟩
                    -- the frames behind the `Hello`
                    have hlong := messageDecoder.item_append (received events) hstep
                    rw [messageDecoder.drain_item hlong, List.tail_cons]
                    refine hrest.trans ?_
                    show c.handled ++ _ = _
                    rw [hh, List.nil_append]
                  · obtain ⟨hdone, hsame⟩ := Client.settle_rejected own backend
                      (c := { c with framed := ⟨b ++ bytes, false⟩ }) hp
                      (Framed.next_of_message hstep) (fun peer hmsg hv => hok ⟨peer, hmsg, hv⟩)
                    have hno : ¬ ∃ peer, Outcome.message msg = .message (.hello peer)
                        ∧ peer.protocolVersion = own.protocolVersion := by
                      intro h
                      obtain ⟨peer, hmsg, hv⟩ := h
                      exact hok ⟨peer, Outcome.message.inj hmsg, hv⟩
                    exact Client.run_returned hdone (hsame.trans hh) hno events _

/-- The `Hello` of this build. -/
def ourHello (peerId : Uuid) (hostname : String) (screen : ScreenInfo) : Hello :=
  ⟨PROTOCOL_VERSION, peerId, hostname, screen⟩

/-- **THE CLIENT INJECTS AFTER A VALID HANDSHAKE, AND EXACTLY WHAT FOLLOWS IT.**
Whatever the network does: if the first frame is not a `Hello` of our version that
arrived in time, nothing is handled; if it is, then the messages of the frames
behind it are handled, in order, up to the first error or the end of the stream. -/
theorem injects_after_handshake (peerId : Uuid) (hostname : String) (screen : ScreenInfo)
    (backend : InputInject δ) (device : δ) (events : List NetEvent) :
    (¬ HelloInTime (ourHello peerId hostname screen) [] events →
        (Client.run (ourHello peerId hostname screen) backend device events).handled = [])
      ∧ (HelloInTime (ourHello peerId hostname screen) [] events →
        (Client.run (ourHello peerId hostname screen) backend device events).handled
          = messagesUpTo (messageDecoder.drain (received events)).outs.tail) := by
  have hstart : (Client.new device).settle (ourHello peerId hostname screen) backend
      = ⟨.awaitHello, ⟨[], false⟩, device, []⟩ := by
    have hsend : (Client.new device).turn (ourHello peerId hostname screen) backend
        = some ⟨.awaitHello, ⟨[], false⟩, device, []⟩ := rfl
    rw [Client.settle_of_some hsend]
    exact Client.settle_awaiting rfl rfl messageDecoder.step_nil
  unfold Client.run
  rw [hstart]
  exact Client.run_awaiting events _ [] rfl rfl messageDecoder.step_nil rfl

end Dshare.Session
