/-
  Dshare.Core.ReadTask
  ────────────────────
  **WHAT A PEER SESSION READS.**

  The other task of `PeerSession::spawn` takes one frame after the other off the framed
  stream and sends its message to `inbound`, a bounded channel of the caller.  It waits
  there while the channel is full, and ends at the first frame it cannot decode, at the
  end of the stream, or when it has a message and the receiver is gone.

  The peer may send any bytes, in any chunks, and the receiver may take its time.

    • `ReadTask.Reads` — what has been handed on, and what is left to decode;
    • `read_task_exact` — the receiver gets the messages in front of the first bad frame,
      each once and in order, and at rest it has got all of them.
-/
import Dshare.Core.PeerSession
import Dshare.Session.Client

namespace Dshare.Core

open BoundedFifo StreamDecoder Transition Dshare.Protocol Dshare.Session

/-! ## §1. The read task. -/

/-- Why the loop ended. -/
inductive ReadEnd where
  /-- `source.next()` returned `None`, or the error of a read that failed. -/
  | eof
  /-- It returned an error: of the decoder, or for the bytes left at the end. -/
  | error (e : ProtocolError)
  /-- `inbound.send(msg)` failed. -/
  | receiverDropped

inductive ReadPhase where
  /-- In `source.next().await`. -/
  | reading
  /-- In `inbound.send(msg).await`. -/
  | forwarding (msg : Message)
  | ended (why : ReadEnd)

/-- The task, the `inbound` channel with `cap` slots, and two logs. -/
structure ReadTask (cap : Nat) where
  framed : Framed
  phase : ReadPhase
  inbound : Fifo Message cap
  /-- The receiver of `inbound` has not been dropped. -/
  receiver : Bool
  /-- What the receiver has taken. -/
  taken : List Message
  /-- All bytes the socket has delivered. -/
  arrived : List UInt8

variable {cap : Nat}

def ReadTask.spawned : ReadTask cap := ⟨⟨[], false⟩, .reading, Fifo.empty, true, [], []⟩

inductive ReadAction where
  | deliver (bytes : List UInt8)
  /-- The socket reports its end, or an error. -/
  | eof
  /-- `source.next()` returns. -/
  | next
  /-- `inbound.send(msg)` returns. -/
  | send
  /-- The receiver takes a message. -/
  | take
  /-- The receiver is dropped. -/
  | drop

def ReadTask.step (t : ReadTask cap) : ReadAction → Option (ReadTask cap)
  | .deliver bytes =>
      if t.framed.eof then none
      else some { t with framed := t.framed.arrive bytes, arrived := t.arrived ++ bytes }
  | .eof => some { t with framed := { t.framed with eof := true } }
  | .next =>
      match t.phase with
      | .reading =>
          match t.framed.next with
          | (.pending, _) => none
          | (.item msg, f) => some { t with framed := f, phase := .forwarding msg }
          | (.ended, f) => some { t with framed := f, phase := .ended .eof }
          | (.error e, f) => some { t with framed := f, phase := .ended (.error e) }
      | _ => none
  | .send =>
      match t.phase with
      | .forwarding msg =>
          if t.receiver then
            (t.inbound.trySend msg).map fun inbound =>
              { t with inbound := inbound, phase := .reading }
          else some { t with phase := .ended .receiverDropped }
      | _ => none
  | .take =>
      if t.receiver then
        t.inbound.recv.map fun (msg, inbound) =>
          { t with inbound := inbound, taken := t.taken ++ [msg] }
      else none
  | .drop => if t.receiver then some { t with receiver := false } else none

def readTask (cap : Nat) : System (ReadTask cap) ReadAction := ⟨.spawned, ReadTask.step⟩

/-- The message the task is about to hand on. -/
def ReadPhase.inHand : ReadPhase → List Message
  | .forwarding msg => [msg]
  | _ => []

/-- What the task has decoded and not lost: taken by the receiver, in the channel, or in
hand. -/
def ReadTask.decoded (t : ReadTask cap) : List Message :=
  t.taken ++ t.inbound.items ++ t.phase.inHand

/-! ## §2. What a step does. -/

theorem ReadTask.step_cases {t t' : ReadTask cap} {a : ReadAction} (h : t.step a = some t') :
    match a with
    | .deliver bytes => t.framed.eof = false ∧ t' = { t with
        framed := t.framed.arrive bytes, arrived := t.arrived ++ bytes }
    | .eof => t' = { t with framed := { t.framed with eof := true } }
    | .next => t.phase = .reading ∧
        ((∃ msg rest, messageDecoder.step t.framed.buffer = .item (.message msg) rest
            ∧ t' = { t with framed := { t.framed with buffer := rest }, phase := .forwarding msg })
          ∨ (t.framed.eof = true ∧ messageDecoder.step t.framed.buffer = .more
            ∧ ∃ why, why ≠ .receiverDropped ∧ t' = { t with phase := .ended why })
          ∨ (¬ Clean (messageDecoder.drain t.framed.buffer)
            ∧ messagesUpTo (messageDecoder.drain t.framed.buffer).outs = []
            ∧ ∃ e rest, t' = { t with
                framed := { t.framed with buffer := rest }, phase := .ended (.error e) }))
    | .send => ∃ msg, t.phase = .forwarding msg ∧
        ((∃ inbound : Fifo Message cap, inbound.items = t.inbound.items ++ [msg]
            ∧ t.receiver = true ∧ t' = { t with inbound := inbound, phase := .reading })
          ∨ (t.receiver = false ∧ t' = { t with phase := .ended .receiverDropped }))
    | .take => t.receiver = true ∧ ∃ msg inbound, t.inbound.items = msg :: Fifo.items inbound
        ∧ t' = { t with inbound := inbound, taken := t.taken ++ [msg] }
    | .drop => t.receiver = true ∧ t' = { t with receiver := false } := by
  cases a with
  | deliver bytes =>
      simp only [step] at h
      split at h
      next => cases h
      next heof => exact ⟨by simpa using heof, (Option.some.inj h).symm⟩
  | eof => exact (Option.some.inj h).symm
  | next =>
      simp only [step] at h
      cases hp : t.phase with
      | forwarding msg => rw [hp] at h; cases h
      | ended why => rw [hp] at h; cases h
      | reading =>
          rw [hp] at h
          refine ⟨rfl, ?_⟩
          cases hs : messageDecoder.step t.framed.buffer with
          | more =>
              rcases Framed.next_of_more hs with ⟨_, hnext⟩ | ⟨heof, polled, hnext, hbad⟩
              · rw [hnext] at h
                cases h
              · rw [hnext] at h
                refine .inr (.inl ⟨heof, rfl, ?_⟩)
                rcases hbad with rfl | ⟨e, rfl⟩
                · exact ⟨.eof, by simp, (Option.some.inj h).symm⟩
                · exact ⟨.error e, by simp, (Option.some.inj h).symm⟩
          | stop e =>
              rw [Framed.next_of_stop hs] at h
              have hdrain := Decoder.drain_stop hs
              refine .inr (.inr ⟨?_, ?_, e, t.framed.buffer, (Option.some.inj h).symm⟩)
              · intro hclean
                rw [hdrain] at hclean
                cases hclean.1
              · rw [hdrain]
                rfl
          | item o rest =>
              have hdrain := Decoder.drain_item hs
              cases o with
              | message msg =>
                  rw [Framed.next_of_message hs] at h
                  exact .inl ⟨msg, rest, rfl, (Option.some.inj h).symm⟩
              | malformed e =>
                  rw [Framed.next_of_malformed hs] at h
                  refine .inr (.inr ⟨?_, ?_, .encode e, rest, (Option.some.inj h).symm⟩)
                  · intro hclean
                    rw [hdrain] at hclean
                    obtain ⟨msg, hmsg⟩ := hclean.2 _ List.mem_cons_self
                    cases hmsg
                  · rw [hdrain]
                    rfl
  | send =>
      simp only [step] at h
      cases hp : t.phase with
      | reading => rw [hp] at h; cases h
      | ended why => rw [hp] at h; cases h
      | forwarding msg =>
          rw [hp] at h
          refine ⟨msg, rfl, ?_⟩
          cases hr : t.receiver with
          | true =>
              simp only [hr, if_true] at h
              obtain ⟨inbound, hsend, ht⟩ := Option.map_eq_some_iff.mp h
              exact .inl ⟨inbound, Fifo.items_of_trySend hsend, rfl, ht.symm⟩
          | false =>
              simp only [hr, Bool.false_eq_true, if_false] at h
              exact .inr ⟨rfl, (Option.some.inj h).symm⟩
  | take =>
      obtain ⟨hr, hs⟩ := Option.ite_none_right_eq_some.mp h
      obtain ⟨⟨msg, inbound⟩, hrecv, ht⟩ := Option.map_eq_some_iff.mp hs
      exact ⟨hr, msg, inbound, Fifo.recv_eq_some.mp hrecv, ht.symm⟩
  | drop =>
      obtain ⟨hr, hs⟩ := Option.ite_none_right_eq_some.mp h
      exact ⟨hr, (Option.some.inj hs).symm⟩

/-! ## §3. What has been decoded. -/

theorem messagesUpTo_map (msgs : List Message) (more : List Outcome) :
    messagesUpTo (msgs.map Outcome.message ++ more) = msgs ++ messagesUpTo more := by
  induction msgs with
  | nil => rfl
  | cons msg msgs ih =>
      show msg :: messagesUpTo (msgs.map Outcome.message ++ more) = _
      rw [ih]
      rfl

theorem messagesUpTo_drain_prefix (b c : List UInt8) :
    messagesUpTo (messageDecoder.drain b).outs
      <+: messagesUpTo (messageDecoder.drain (b ++ c)).outs := by
  by_cases h : Clean (messageDecoder.drain b)
  · rw [messagesUpTo_drain_clean h c]
    exact List.prefix_append _ _
  · rw [messagesUpTo_drain_dirty h c]

/-- A bad frame stays one. -/
theorem not_clean_append {b : List UInt8} (h : ¬ Clean (messageDecoder.drain b)) (c : List UInt8) :
    ¬ Clean (messageDecoder.drain (b ++ c)) := by
  intro hclean
  cases hs : (messageDecoder.drain b).stopped with
  | some e =>
      rw [messageDecoder.drain_append_stopped b c e hs] at hclean
      cases hclean.1
  | none =>
      rw [messageDecoder.drain_append b c hs] at hclean
      exact h ⟨hs, fun o ho => hclean.2 o (List.mem_append_left _ ho)⟩

/-- The messages in front of the first bad frame of what has arrived. -/
def ReadTask.readable (t : ReadTask cap) : List Message :=
  messagesUpTo (messageDecoder.drain t.arrived).outs

/-- What the task has made of what has arrived, phase by phase. -/
def ReadTask.Reads (t : ReadTask cap) : Prop :=
  match t.phase with
  | .ended .receiverDropped => t.receiver = false ∧ t.decoded <+: t.readable
  | .ended _ =>
      t.decoded = t.readable
        ∧ (t.framed.eof = true ∨ ¬ Clean (messageDecoder.drain t.arrived))
  | _ => messageDecoder.Took t.arrived (t.decoded.map .message) t.framed.buffer

/-- The task still runs, and is in step with the stream. -/
theorem ReadTask.reads_of_took {t : ReadTask cap} (hphase : ∀ why, t.phase ≠ .ended why)
    (h : messageDecoder.Took t.arrived (t.decoded.map .message) t.framed.buffer) : t.Reads := by
  unfold Reads
  cases hp : t.phase with
  | reading => exact h
  | forwarding msg => exact h
  | ended why => exact absurd hp (hphase why)

theorem ReadTask.Reads.took {t : ReadTask cap} (h : t.Reads)
    (hphase : ∀ why, t.phase ≠ .ended why) :
    messageDecoder.Took t.arrived (t.decoded.map .message) t.framed.buffer := by
  unfold Reads at h
  cases hp : t.phase with
  | reading => rw [hp] at h; exact h
  | forwarding msg => rw [hp] at h; exact h
  | ended why => exact absurd hp (hphase why)

/-- While the task is in step, what it has yet to read is what its buffer holds. -/
theorem ReadTask.readable_of_took {t : ReadTask cap}
    (h : messageDecoder.Took t.arrived (t.decoded.map .message) t.framed.buffer) :
    t.readable = t.decoded ++ messagesUpTo (messageDecoder.drain t.framed.buffer).outs := by
  unfold readable
  rw [h.outs_eq, messagesUpTo_map]

/-- **Nothing is made up, lost in the middle, or read twice.** -/
theorem ReadTask.Reads.decoded_prefix {t : ReadTask cap} (h : t.Reads) :
    t.decoded <+: t.readable := by
  by_cases hrun : ∀ why, t.phase ≠ .ended why
  · rw [readable_of_took (h.took hrun)]
    exact List.prefix_append _ _
  · obtain ⟨why, hp⟩ := not_forall_not.mp hrun
    unfold Reads at h
    rw [hp] at h
    cases why with
    | receiverDropped => exact h.2
    | eof => rw [h.1]
    | error e => rw [h.1]

theorem ReadTask.Reads.spawned : (ReadTask.spawned : ReadTask cap).Reads :=
  Decoder.Took.start messageDecoder

/-- A chunk arrives, behind all that is known of the stream. -/
theorem ReadTask.Reads.deliver {t : ReadTask cap} (h : t.Reads) (heof : t.framed.eof = false)
    (bytes : List UInt8) :
    ReadTask.Reads { t with
      framed := t.framed.arrive bytes, arrived := t.arrived ++ bytes } := by
  obtain ⟨framed, phase, inbound, receiver, taken, arrived⟩ := t
  have hmore := messagesUpTo_drain_prefix arrived bytes
  -- behind a bad frame nothing counts, and behind the end of the stream nothing arrives
  have hdirty : framed.eof = true ∨ ¬ Clean (messageDecoder.drain arrived) →
      messagesUpTo (messageDecoder.drain arrived).outs
          = messagesUpTo (messageDecoder.drain (arrived ++ bytes)).outs
        ∧ ¬ Clean (messageDecoder.drain (arrived ++ bytes)) := by
    intro hor
    rcases hor with hend | hbad
    · exact absurd (heof.symm.trans hend) Bool.false_ne_true
    · exact ⟨(messagesUpTo_drain_dirty hbad bytes).symm, not_clean_append hbad bytes⟩
  cases phase with
  | reading => exact Decoder.Took.deliver h bytes
  | forwarding msg => exact Decoder.Took.deliver h bytes
  | ended why =>
      cases why with
      | receiverDropped => exact ⟨h.1, h.2.trans hmore⟩
      | eof => exact ⟨h.1.trans (hdirty h.2).1, .inr (hdirty h.2).2⟩
      | error e => exact ⟨h.1.trans (hdirty h.2).1, .inr (hdirty h.2).2⟩

/-- What the task's `next` makes of the buffer. -/
theorem ReadTask.Reads.next {t t' : ReadTask cap} (h : t.Reads) (hstep : t.step .next = some t') :
    t'.Reads := by
  obtain ⟨hp, hcases⟩ := step_cases hstep
  have htook := h.took fun why hwhy => by rw [hp] at hwhy; cases hwhy
  rcases hcases with ⟨msg, rest, hitem, rfl⟩ | ⟨heof, hmore, why, hwhy, rfl⟩
    | ⟨hbad, hnone, e, rest, rfl⟩
  · -- the message goes into the hand
    refine reads_of_took (fun why => by simp) ?_
    have hdecoded : t.decoded = t.taken ++ t.inbound.items := by
      unfold decoded
      rw [hp]
      exact List.append_nil _
    have hitem' := htook.item hitem
    rw [hdecoded] at hitem'
    show messageDecoder.Took t.arrived ((t.taken ++ t.inbound.items ++ [msg]).map .message) rest
    rw [List.map_append]
    exact hitem'
  · -- the end of the stream, with nothing but a cut frame left
    have hall : t.readable = t.decoded := by
      rw [readable_of_took htook, Decoder.drain_more hmore]
      exact List.append_nil _
    have hdecoded : ReadTask.decoded { t with phase := .ended why } = t.decoded := by
      unfold decoded
      rw [hp]
      rfl
    unfold Reads
    cases why with
    | receiverDropped => exact absurd rfl hwhy
    | eof => exact ⟨hdecoded.trans hall.symm, .inl heof⟩
    | error e => exact ⟨hdecoded.trans hall.symm, .inl heof⟩
  · -- a bad frame
    have hall : t.readable = t.decoded := by
      rw [readable_of_took htook, hnone]
      exact List.append_nil _
    have hdirty : ¬ Clean (messageDecoder.drain t.arrived) := by
      intro hclean
      refine hbad ⟨htook.stopped_eq.symm.trans hclean.1, ?_⟩
      intro o ho
      refine hclean.2 o ?_
      rw [htook.outs_eq]
      exact List.mem_append_right _ ho
    have hdecoded : ReadTask.decoded { t with
        framed := { t.framed with buffer := rest }, phase := .ended (.error e) } = t.decoded := by
      unfold decoded
      rw [hp]
      rfl
    exact ⟨hdecoded.trans hall.symm, .inr hdirty⟩

/-- What the receiver takes leaves the channel for its hands. -/
theorem ReadTask.decoded_take {t : ReadTask cap} {msg : Message} {inbound : Fifo Message cap}
    (hitems : t.inbound.items = msg :: inbound.items) :
    ReadTask.decoded { t with inbound := inbound, taken := t.taken ++ [msg] } = t.decoded := by
  unfold decoded
  rw [hitems]
  simp

/-- A change that nothing decoded depends on. -/
theorem ReadTask.Reads.congr {t t' : ReadTask cap} (h : t.Reads) (hphase : t'.phase = t.phase)
    (hdecoded : t'.decoded = t.decoded) (harrived : t'.arrived = t.arrived)
    (hbuffer : t'.framed.buffer = t.framed.buffer)
    (heof : t.framed.eof = true → t'.framed.eof = true)
    (hreceiver : t.receiver = false → t'.receiver = false) : t'.Reads := by
  unfold Reads readable at h ⊢
  rw [hphase, hdecoded, harrived, hbuffer]
  cases hp : t.phase with
  | reading => rw [hp] at h; exact h
  | forwarding msg => rw [hp] at h; exact h
  | ended why =>
      rw [hp] at h
      cases why with
      | receiverDropped => exact ⟨hreceiver h.1, h.2⟩
      | eof => exact ⟨h.1, h.2.imp_left heof⟩
      | error e => exact ⟨h.1, h.2.imp_left heof⟩

/-- **Every step keeps the task in step with the stream.** -/
theorem ReadTask.Reads.step {t t' : ReadTask cap} {a : ReadAction} (h : t.Reads)
    (hstep : t.step a = some t') : t'.Reads := by
  have hcases := step_cases hstep
  cases a with
  | deliver bytes =>
      obtain ⟨heof, rfl⟩ := hcases
      exact h.deliver heof bytes
  | eof =>
      cases hcases
      exact h.congr rfl rfl rfl rfl (fun _ => rfl) fun hr => hr
  | next => exact h.next hstep
  | send =>
      obtain ⟨msg, hp, ⟨inbound, hitems, _, rfl⟩ | ⟨hr, rfl⟩⟩ := hcases
      · have htook := h.took fun why hwhy => by rw [hp] at hwhy; cases hwhy
        have hdecoded : ReadTask.decoded { t with inbound := inbound, phase := .reading }
            = t.decoded := by
          unfold decoded
          rw [hp, hitems]
          simp [ReadPhase.inHand]
        refine reads_of_took (fun why => by simp) ?_
        rw [hdecoded]
        exact htook
      · -- the message in hand is lost, and it was the last
        have htook := h.took fun why hwhy => by rw [hp] at hwhy; cases hwhy
        refine ⟨hr, List.IsPrefix.trans ?_ h.decoded_prefix⟩
        unfold decoded
        rw [hp]
        show t.taken ++ t.inbound.items ++ [] <+: t.taken ++ t.inbound.items ++ [msg]
        rw [List.append_nil]
        exact List.prefix_append _ _
  | take =>
      obtain ⟨_, msg, inbound, hitems, rfl⟩ := hcases
      exact h.congr rfl (decoded_take hitems) rfl rfl (fun he => he) fun hr => hr
  | drop =>
      obtain ⟨_, rfl⟩ := hcases
      exact h.congr rfl rfl rfl rfl (fun he => he) fun _ => rfl

theorem ReadTask.reads_of_reachable {t : ReadTask cap} (h : (readTask cap).Reachable t) : t.Reads :=
  h.invariant .spawned fun _ _ _ hs hstep => hs.step hstep

/-! ## §4. The receiver of a task at rest. -/

/-- The task waits for bytes, or it has ended while its receiver was there, and the receiver
has emptied the channel. -/
def ReadTask.Settled (t : ReadTask cap) : Prop :=
  t.inbound.items = [] ∧
    match t.phase with
    | .reading => messageDecoder.step t.framed.buffer = .more
    | .forwarding _ => False
    | .ended why => why ≠ .receiverDropped

/-- **A task at rest has handed on all it can read.** -/
theorem ReadTask.Reads.taken_eq {t : ReadTask cap} (h : t.Reads) (hrest : t.Settled) :
    t.taken = t.readable := by
  obtain ⟨hempty, hphase⟩ := hrest
  have hdecoded : t.phase.inHand = [] → t.decoded = t.taken := by
    intro hhand
    unfold decoded
    rw [hempty, hhand, List.append_nil, List.append_nil]
  cases hp : t.phase with
  | forwarding msg => rw [hp] at hphase; exact hphase.elim
  | reading =>
      rw [hp] at hphase hdecoded
      have htook := h.took fun why hwhy => by rw [hp] at hwhy; cases hwhy
      rw [readable_of_took htook, Decoder.drain_more hphase, hdecoded rfl]
      exact (List.append_nil _).symm
  | ended why =>
      rw [hp] at hphase hdecoded
      unfold Reads at h
      rw [hp] at h
      cases why with
      | receiverDropped => exact absurd rfl hphase
      | eof => rw [← h.1, hdecoded rfl]
      | error e => rw [← h.1, hdecoded rfl]

/-- **WHAT A PEER SESSION READS**, whatever bytes the peer sends, in whatever chunks, and
however slowly the receiver takes them: at any time the receiver has got some of the
messages in front of the first bad frame, in order and each once; and when the task has come
to rest, all of them. -/
theorem read_task_exact (cap : Nat) (t : ReadTask cap) (h : (readTask cap).Reachable t) :
    t.taken <+: messagesUpTo (messageDecoder.drain t.arrived).outs
      ∧ (t.Settled → t.taken = messagesUpTo (messageDecoder.drain t.arrived).outs)
      ∧ (∀ e, t.phase = .ended (.error e) →
          t.framed.eof = true ∨ ¬ Clean (messageDecoder.drain t.arrived)) := by
  have hreads := ReadTask.reads_of_reachable h
  refine ⟨List.IsPrefix.trans ?_ hreads.decoded_prefix, hreads.taken_eq, ?_⟩
  · unfold ReadTask.decoded
    rw [List.append_assoc]
    exact List.prefix_append _ _
  · intro e hp
    unfold ReadTask.Reads at hreads
    rw [hp] at hreads
    exact hreads.2

/-- A `Ping` through a channel with one slot, and behind it a frame that does not decode. -/
def pingThenGarbage : List ReadAction :=
  [.deliver (frame (.ping 7) ++ [0, 0, 0]), .next, .deliver [1, 9], .send, .next, .take]

theorem read_task_exact_ping_then_garbage :
    ∃ t, (readTask 1).run .spawned pingThenGarbage = some t
      ∧ messagesUpTo (messageDecoder.drain t.arrived).outs = [.ping 7] := by
  obtain ⟨t, ht⟩ : ∃ t, (readTask 1).run .spawned pingThenGarbage = some t := ⟨_, rfl⟩
  have hall := (read_task_exact 1 t ⟨_, ht⟩).2.1
  refine ⟨t, ht, ?_⟩
  cases ht
  exact (hall ⟨rfl, by simp⟩).symm

end Dshare.Core
