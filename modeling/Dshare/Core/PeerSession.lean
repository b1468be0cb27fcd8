/-
  Dshare.Core.PeerSession
  ───────────────────────
  **WHAT A PEER SESSION WRITES.**

  `PeerSession::spawn` starts a task that takes the messages placed on `outbound`
  and sends them through the framed sink: each is encoded behind what the sink
  still holds, and the sink is flushed before the next is taken.  The socket stays
  open and takes any number of bytes at a time.  An encoding error ends the loop,
  and with it the channel.

    • `WriteTask.Ledger.step` — what has been placed, what is written and what
      waits, after every step;
    • `WriteTask.exists_settled` — the task always comes to rest;
    • `written_iff` — the wire then carries all that fits exactly when no message
      that fits was placed behind one that does not;
    • `attempted_iff` — the same of what its callers have tried to send.
-/
import Mathlib.Data.List.TakeWhile
import Dshare.Lib.BoundedFifo
import Dshare.Lib.Transition
import Dshare.Protocol.Transport

namespace Dshare.Core

open BoundedFifo StreamDecoder Transition Dshare.Protocol

/-! ## §1. The write task. -/

/-- Slots of `outbound`. -/
def OUTBOUND_SLOTS : Nat := 256

inductive WritePhase where
  /-- In `rx.recv().await`. -/
  | receiving
  /-- In `sink.send(msg).await`, with bytes to flush. -/
  | sending
  /-- The loop has ended, and the receiver is dropped. -/
  | ended
  deriving DecidableEq

structure WriteTask where
  channel : Fifo Message OUTBOUND_SLOTS
  /-- Every `outbound` sender has been dropped. -/
  closed : Bool
  /-- The write buffer of the framed sink. -/
  buffer : List UInt8
  wire : List UInt8
  phase : WritePhase

def WriteTask.spawned : WriteTask := ⟨Fifo.empty, false, [], [], .receiving⟩

inductive WriteAction where
  /-- `outbound.send(msg)` succeeds. -/
  | place (msg : Message)
  /-- `outbound.send(msg)` fails, since the receiver is gone. -/
  | refuse (msg : Message)
  /-- The last sender is dropped. -/
  | close
  /-- `rx.recv()` returns, and `sink.send` encodes what it returned. -/
  | recv
  /-- The socket takes `n` bytes of the buffer. -/
  | write (n : Nat)

def WriteTask.step (t : WriteTask) : WriteAction → Option WriteTask
  | .place msg =>
      if t.closed = false ∧ t.phase ≠ .ended then
        (t.channel.trySend msg).map fun channel => { t with channel := channel }
      else none
  | .refuse _ => if t.closed = false ∧ t.phase = .ended then some t else none
  | .close => some { t with closed := true }
  | .recv =>
      if t.phase = .receiving then
        match t.channel.recv with
        | none => if t.closed then some { t with phase := .ended } else none
        | some (msg, channel) =>
            match encode msg t.buffer with
            | (.error _, buffer) =>
                some { t with channel := channel, buffer := buffer, phase := .ended }
            | (.ok (), buffer) =>
                some { t with channel := channel, buffer := buffer, phase := .sending }
      else none
  | .write n =>
      if t.phase = .sending ∧ 0 < n ∧ n ≤ t.buffer.length then
        some { t with
          wire := t.wire ++ t.buffer.take n
          buffer := t.buffer.drop n
          phase := if n = t.buffer.length then .receiving else .sending }
      else none

def writeTask : System WriteTask WriteAction := ⟨.spawned, WriteTask.step⟩

/-- The messages placed on `outbound`, in order. -/
def placed (as : List WriteAction) : List Message :=
  as.filterMap fun a => match a with
    | .place msg => some msg
    | _ => none

/-- The messages placed on `outbound` and those it has refused, in order. -/
def attempted (as : List WriteAction) : List Message :=
  as.filterMap fun a => match a with
    | .place msg => some msg
    | .refuse msg => some msg
    | _ => none

/-- The task has taken every message it ever will: it waits on an empty channel, or its
loop has ended. -/
def WriteTask.Settled (t : WriteTask) : Prop :=
  (t.phase = .receiving ∧ t.channel.items = []) ∨ t.phase = .ended

/-! ## §2. What a step does. -/

theorem WriteTask.step_cases {t t' : WriteTask} {a : WriteAction} (h : t.step a = some t') :
    match a with
    | .place msg => t.phase ≠ .ended
        ∧ ∃ channel : Fifo Message OUTBOUND_SLOTS, channel.items = t.channel.items ++ [msg]
          ∧ t' = { t with channel := channel }
    | .refuse _ => (t.closed = false ∧ t.phase = .ended) ∧ t' = t
    | .close => t' = { t with closed := true }
    | .recv => t.phase = .receiving ∧
        ((t.channel.items = [] ∧ t.closed = true ∧ t' = { t with phase := .ended })
          ∨ ∃ msg channel, t.channel.items = msg :: Fifo.items channel
            ∧ ((Fits msg ∧ t' = { t with
                  channel := channel, buffer := t.buffer ++ frame msg, phase := .sending })
              ∨ (¬ Fits msg ∧ t' = { t with channel := channel, phase := .ended })))
    | .write n => (t.phase = .sending ∧ n ≤ t.buffer.length) ∧ t' = { t with
          wire := t.wire ++ t.buffer.take n
          buffer := t.buffer.drop n
          phase := if n = t.buffer.length then .receiving else .sending } := by
  cases a with
  | place msg =>
      obtain ⟨hguard, hs⟩ := Option.ite_none_right_eq_some.mp h
      obtain ⟨channel, hsend, ht⟩ := Option.map_eq_some_iff.mp hs
      exact ⟨hguard.2, channel, Fifo.items_of_trySend hsend, ht.symm⟩
  | refuse msg =>
      obtain ⟨hguard, hs⟩ := Option.ite_none_right_eq_some.mp h
      exact ⟨hguard, (Option.some.inj hs).symm⟩
  | close => exact (Option.some.inj h).symm
  | recv =>
      obtain ⟨hguard, hs⟩ := Option.ite_none_right_eq_some.mp h
      refine ⟨hguard, ?_⟩
      cases hrecv : t.channel.recv with
      | none =>
          rw [hrecv] at hs
          obtain ⟨hclosed, hs⟩ := Option.ite_none_right_eq_some.mp hs
          exact .inl ⟨Fifo.recv_eq_none.mp hrecv, hclosed, (Option.some.inj hs).symm⟩
      | some p =>
          obtain ⟨msg, channel⟩ := p
          rw [hrecv] at hs
          refine .inr ⟨msg, channel, Fifo.recv_eq_some.mp hrecv, ?_⟩
          by_cases hfits : Fits msg
          · simp only [encode_of_fits hfits] at hs
            exact .inl ⟨hfits, (Option.some.inj hs).symm⟩
          · simp only [encode_of_not_fits hfits] at hs
            exact .inr ⟨hfits, (Option.some.inj hs).symm⟩
  | write n =>
      obtain ⟨hguard, hs⟩ := Option.ite_none_right_eq_some.mp h
      exact ⟨⟨hguard.1, hguard.2.2⟩, (Option.some.inj hs).symm⟩

theorem frame_ne_nil (m : Message) : frame m ≠ [] := by
  intro h
  have hlen := frame_length m
  rw [h, List.length_nil] at hlen
  omega

theorem placed_snoc (as : List WriteAction) (a : WriteAction) :
    placed (as ++ [a]) = placed as ++ placed [a] := List.filterMap_append

theorem attempted_snoc (as : List WriteAction) (a : WriteAction) :
    attempted (as ++ [a]) = attempted as ++ attempted [a] := List.filterMap_append

/-! ## §3. The ledger. -/

/-- Of the messages placed or attempted, `taken` are on the wire or in the buffer, and `left`
are not. -/
structure WriteTask.Ledger (ms : List Message) (t : WriteTask) (taken left : List Message) :
    Prop where
  placed : ms = taken ++ left
  fits : ∀ m ∈ taken, Fits m
  written : t.wire ++ t.buffer = messageFraming.stream taken
  /-- The buffer is flushed before the next message is taken. -/
  flushed : t.buffer = [] ↔ t.phase ≠ .sending
  waiting : t.phase ≠ .ended → left = t.channel.items
  /-- What ended the loop, if it left anything behind, did not fit. -/
  ended : t.phase = .ended → ∀ m ∈ left.head?, ¬ Fits m
  /-- While there is a sender, a loop that has ended has left something behind. -/
  cut : t.phase = .ended → t.closed = false → left ≠ []

/-- The first of the waiting messages fits: it goes behind what has been taken. -/
theorem WriteTask.Ledger.took {ms : List Message} {t : WriteTask} {taken : List Message}
    {msg : Message} {channel : Fifo Message OUTBOUND_SLOTS}
    (h : Ledger ms t taken (msg :: channel.items)) (hphase : t.phase = .receiving)
    (hfits : Fits msg) :
    Ledger ms { t with channel := channel, buffer := t.buffer ++ frame msg, phase := .sending }
      (taken ++ [msg]) channel.items where
  placed := by
    rw [List.append_assoc]
    exact h.placed
  fits := by
    intro m hm
    rcases List.mem_append.mp hm with hm | hm
    · exact h.fits m hm
    · rw [List.mem_singleton.mp hm]
      exact hfits
  written := by
    show t.wire ++ (t.buffer ++ frame msg) = _
    rw [← List.append_assoc, h.written, Framing.stream_append, Framing.stream_cons,
      Framing.stream_nil, List.append_nil]
    rfl
  flushed := by
    -- the buffer was empty, and a frame has a header at least
    have hbuffer : t.buffer = [] := h.flushed.mpr (by simp [hphase])
    simp [hbuffer, frame_ne_nil]
  waiting := fun _ => rfl
  ended := nofun
  cut := nofun

/-- The loop ends between two messages, with nothing left or in front of one that does not
fit. -/
theorem WriteTask.Ledger.stopped {ms : List Message} {t : WriteTask} {taken left : List Message}
    (h : Ledger ms t taken left) (hphase : t.phase = .receiving)
    (hhead : ∀ m ∈ left.head?, ¬ Fits m) (hcut : t.closed = false → left ≠ [])
    (channel : Fifo Message OUTBOUND_SLOTS) :
    Ledger ms { t with channel := channel, phase := .ended } taken left where
  placed := h.placed
  fits := h.fits
  written := h.written
  flushed := by simpa [hphase] using h.flushed
  waiting := fun hne => absurd rfl hne
  ended := fun _ => hhead
  cut := fun _ => hcut

/-- The socket takes some of the buffer. -/
theorem WriteTask.Ledger.wrote {ms : List Message} {t : WriteTask} {taken left : List Message}
    (h : Ledger ms t taken left) (hphase : t.phase = .sending) {n : Nat}
    (hn : n ≤ t.buffer.length) :
    Ledger ms { t with
      wire := t.wire ++ t.buffer.take n
      buffer := t.buffer.drop n
      phase := if n = t.buffer.length then .receiving else .sending } taken left where
  placed := h.placed
  fits := h.fits
  written := by
    show t.wire ++ t.buffer.take n ++ t.buffer.drop n = _
    rw [List.append_assoc, List.take_append_drop]
    exact h.written
  flushed := by
    show t.buffer.drop n = [] ↔ _
    rw [List.drop_eq_nil_iff]
    by_cases hall : n = t.buffer.length
    · simp [hall]
    · simp only [hall, if_false, ne_eq, not_true_eq_false, iff_false]
      omega
  waiting := fun _ => h.waiting (by simp [hphase])
  ended := fun hended => absurd hended (by split <;> simp)
  cut := fun hended => absurd hended (by split <;> simp)

/-- **Every step keeps the ledger.** -/
theorem WriteTask.Ledger.step {ms : List Message} {t t' : WriteTask} {taken left : List Message}
    {a : WriteAction} (h : Ledger ms t taken left) (hstep : t.step a = some t') :
    ∃ taken' left', Ledger (ms ++ Core.placed [a]) t' taken' left' := by
  have hcases := step_cases hstep
  cases a with
  | place msg =>
      obtain ⟨hphase, channel, hchannel, rfl⟩ := hcases
      refine ⟨taken, left ++ [msg], ?_, h.fits, h.written, h.flushed, fun _ => ?_,
        fun hended => absurd hended hphase, fun hended => absurd hended hphase⟩
      · rw [h.placed, List.append_assoc]
        rfl
      · rw [h.waiting hphase, ← hchannel]
  | refuse msg =>
      obtain ⟨_, rfl⟩ := hcases
      rw [show Core.placed [.refuse msg] = [] from rfl, List.append_nil]
      exact ⟨taken, left, h⟩
  | close =>
      cases hcases
      rw [show Core.placed [.close] = [] from rfl, List.append_nil]
      exact ⟨taken, left, h.placed, h.fits, h.written, h.flushed, h.waiting, h.ended, nofun⟩
  | recv =>
      rw [show Core.placed [.recv] = [] from rfl, List.append_nil]
      obtain ⟨hphase, ⟨hempty, hclosed, rfl⟩ | ⟨msg, channel, hchannel, hsent⟩⟩ := hcases
      · -- every sender is gone, and the channel is empty
        have hleft : left = [] := (h.waiting (by simp [hphase])).trans hempty
        refine ⟨taken, left, h.stopped hphase ?_ ?_ t.channel⟩
        · rw [hleft]
          exact nofun
        · intro hopen
          rw [hclosed] at hopen
          cases hopen
      · have hleft : left = msg :: channel.items := (h.waiting (by simp [hphase])).trans hchannel
        subst hleft
        obtain ⟨hfits, rfl⟩ | ⟨hfits, rfl⟩ := hsent
        · exact ⟨taken ++ [msg], channel.items, h.took hphase hfits⟩
        · refine ⟨taken, msg :: channel.items,
            h.stopped hphase ?_ (fun _ => List.cons_ne_nil _ _) channel⟩
          intro m hm
          rw [← Option.some.inj hm]
          exact hfits
  | write n =>
      obtain ⟨⟨hphase, hn⟩, rfl⟩ := hcases
      rw [show Core.placed [.write n] = [] from rfl, List.append_nil]
      exact ⟨taken, left, h.wrote hphase hn⟩

/-- **A message that is refused** counts as left behind: something has been before it. -/
theorem WriteTask.Ledger.step_attempted {ms : List Message} {t t' : WriteTask}
    {taken left : List Message} {a : WriteAction} (h : Ledger ms t taken left)
    (hstep : t.step a = some t') :
    ∃ taken' left', Ledger (ms ++ attempted [a]) t' taken' left' := by
  cases a with
  | refuse msg =>
      obtain ⟨⟨hopen, hended⟩, rfl⟩ := step_cases hstep
      have hleft : left ≠ [] := h.cut hended hopen
      refine ⟨taken, left ++ [msg], ?_, h.fits, h.written, h.flushed,
        fun hne => absurd hended hne, fun _ m hm => ?_, fun _ _ => by simp⟩
      · rw [h.placed, List.append_assoc]
        rfl
      · rw [List.head?_append_of_ne_nil left hleft] at hm
        exact h.ended hended m hm
  | place | close | recv | write => exact h.step hstep

theorem WriteTask.Ledger.spawned : Ledger [] .spawned [] [] :=
  ⟨rfl, nofun, rfl, ⟨fun _ => nofun, fun _ => rfl⟩, fun _ => rfl, nofun, nofun⟩

theorem WriteTask.ledger_of_run {as : List WriteAction} {t : WriteTask}
    (hrun : writeTask.run writeTask.init as = some t) :
    ∃ taken left, Ledger (Core.placed as) t taken left := by
  refine System.run_history (S := writeTask)
    (I := fun as t => ∃ taken left, Ledger (Core.placed as) t taken left) ⟨[], [], .spawned⟩ ?_ hrun
  rintro as t a t' ⟨taken, left, h⟩ hstep
  rw [placed_snoc]
  exact h.step hstep

theorem WriteTask.attempted_of_run {as : List WriteAction} {t : WriteTask}
    (hrun : writeTask.run writeTask.init as = some t) :
    ∃ taken left, Ledger (attempted as) t taken left := by
  refine System.run_history (S := writeTask)
    (I := fun as t => ∃ taken left, Ledger (attempted as) t taken left) ⟨[], [], .spawned⟩ ?_ hrun
  rintro as t a t' ⟨taken, left, h⟩ hstep
  rw [attempted_snoc]
  exact h.step_attempted hstep

/-! ## §4. What is written in the end. -/

/-- What the task has still to do. -/
def WriteTask.work (t : WriteTask) : Nat :=
  2 * t.channel.items.length + if t.phase = .sending then 1 else 0

/-- A task that has not come to rest can work. -/
theorem WriteTask.exists_work {ms : List Message} {t : WriteTask} {taken left : List Message}
    (h : Ledger ms t taken left) (hbusy : ¬ t.Settled) :
    ∃ a t', t.step a = some t' ∧ Core.placed [a] = [] ∧ t'.work < t.work := by
  unfold Settled at hbusy
  cases hphase : t.phase with
  | ended => exact absurd (.inr hphase) hbusy
  | sending =>
      -- the socket takes the whole buffer
      have hbuffer : t.buffer ≠ [] := fun hnil => h.flushed.mp hnil hphase
      have hpos := List.length_pos_of_ne_nil hbuffer
      refine ⟨.write t.buffer.length, _, if_pos ⟨hphase, hpos, Nat.le_refl _⟩, rfl, ?_⟩
      simp [work, hphase]
  | receiving =>
      cases hitems : t.channel.items with
      | nil => exact absurd (.inl ⟨hphase, hitems⟩) hbusy
      | cons msg items =>
          obtain ⟨channel, hr, hchannel⟩ := Fifo.exists_recv hitems
          by_cases hfits : Fits msg
          · refine ⟨.recv, { t with
              channel := channel, buffer := t.buffer ++ frame msg, phase := .sending }, ?_, rfl, ?_⟩
            · simp [step, hphase, hr, encode_of_fits hfits]
            · simp only [work, hphase, hitems, hchannel, List.length_cons, reduceCtorEq, if_true,
                if_false]
              omega
          · refine ⟨.recv, { t with channel := channel, phase := .ended }, ?_, rfl, ?_⟩
            · simp [step, hphase, hr, encode_of_not_fits hfits]
            · simp only [work, hphase, hitems, hchannel, List.length_cons, reduceCtorEq, if_false]
              omega

/-- **The task always comes to rest**, with nothing placed meanwhile. -/
theorem WriteTask.exists_settled {ms : List Message} {t : WriteTask} {taken left : List Message}
    (h : Ledger ms t taken left) :
    ∃ bs t', writeTask.run t bs = some t' ∧ t'.Settled ∧ Core.placed bs = [] := by
  induction hn : t.work using Nat.strong_induction_on generalizing t taken left with
  | _ n ih =>
      -- on what the task has still to do
      by_cases hbusy : t.Settled
      · exact ⟨[], t, rfl, hbusy, rfl⟩
      · obtain ⟨a, t', hstep, hplaced, hless⟩ := exists_work h hbusy
        obtain ⟨taken', left', h'⟩ := h.step hstep
        rw [hplaced, List.append_nil] at h'
        obtain ⟨bs, u, hrun, hsettled, hbs⟩ := ih t'.work (hn ▸ hless) h' rfl
        refine ⟨a :: bs, u, ?_, hsettled, ?_⟩
        · show (t.step a).bind (fun t => writeTask.run t bs) = some u
          rw [hstep]
          exact hrun
        · have hcons : Core.placed (a :: bs) = Core.placed [a] ++ Core.placed bs :=
            List.filterMap_append (l := [a])
          rw [hcons, hplaced, hbs]
          rfl

/-- Behind a message that does not fit, none does. -/
def OversizedLast (ms : List Message) : Prop :=
  ∀ before m after, ms = before ++ m :: after → ¬ Fits m → ∀ m' ∈ after, ¬ Fits m'

theorem accepted_eq_nil {ms : List Message} : accepted ms = [] ↔ ∀ m ∈ ms, ¬ Fits m := by
  simp [accepted]

/-- What is left behind does not fit exactly when nothing that fits is behind what does not. -/
theorem WriteTask.Ledger.oversizedLast_iff {ms : List Message} {t : WriteTask}
    {taken left : List Message} (h : Ledger ms t taken left) (hhead : ∀ m ∈ left.head?, ¬ Fits m) :
    OversizedLast ms ↔ ∀ m ∈ left, ¬ Fits m := by
  constructor
  · intro hlast
    cases left with
    | nil => exact fun _ hm => nomatch hm
    | cons m rest =>
        have hm := hhead m rfl
        intro m' hmem
        rcases List.mem_cons.mp hmem with rfl | hmem
        · exact hm
        · exact hlast taken m rest h.placed hm m' hmem
  · intro hleft before m after hsplit hm m' hmem
    rw [h.placed] at hsplit
    -- a message that does not fit has not been taken
    rcases List.append_eq_append_iff.mp hsplit with ⟨mid, -, hafter⟩ | ⟨mid, htaken, hafter⟩
    · refine hleft m' ?_
      rw [hafter]
      exact List.mem_append_right mid (List.mem_cons_of_mem m hmem)
    · cases mid with
      | nil =>
          refine hleft m' ?_
          rw [List.nil_append] at hafter
          rw [← hafter]
          exact List.mem_cons_of_mem m hmem
      | cons x mid =>
          obtain ⟨rfl, -⟩ := List.cons.inj hafter
          exact absurd (h.fits m (htaken ▸ by simp)) hm

/-- **A task at rest has written all that fits** exactly when nothing that fits is behind what
does not. -/
theorem WriteTask.Ledger.wire_iff {ms : List Message} {t : WriteTask} {taken left : List Message}
    (h : Ledger ms t taken left) (hsettled : t.Settled) :
    t.wire = (accepted ms).flatMap frame ↔ OversizedLast ms := by
  have hbuffer : t.buffer = [] := by
    refine h.flushed.mpr ?_
    obtain ⟨hphase, -⟩ | hphase := hsettled <;> simp [hphase]
  have hhead : ∀ m ∈ left.head?, ¬ Fits m := by
    obtain ⟨hphase, hempty⟩ | hphase := hsettled
    · rw [h.waiting (by simp [hphase]), hempty]
      exact nofun
    · exact h.ended hphase
  -- the wire holds what was taken, so the question is what was left
  have hwire : t.wire = taken.flatMap frame := by
    have hwritten := h.written
    rw [hbuffer, List.append_nil] at hwritten
    exact hwritten
  have hall : accepted taken = taken := by
    unfold accepted
    rw [List.filter_eq_self]
    exact fun m hm => decide_eq_true (h.fits m hm)
  have haccepted : accepted ms = taken ++ accepted left := by
    rw [h.placed]
    show List.filter _ _ = _
    rw [List.filter_append]
    exact congrArg (· ++ accepted left) hall
  rw [h.oversizedLast_iff hhead, ← accepted_eq_nil, hwire, haccepted, List.flatMap_append,
    List.self_eq_append_right, List.flatMap_eq_nil_iff, List.eq_nil_iff_forall_not_mem]
  exact ⟨fun hno m hm => frame_ne_nil m (hno m hm), fun hno m hm => absurd hm (hno m)⟩

/-- **When everything that fits is written**: exactly when no message that fits was placed
behind one that does not. -/
theorem written_iff {as : List WriteAction} {t : WriteTask}
    (hrun : writeTask.run writeTask.init as = some t) (hsettled : t.Settled) :
    t.wire = (accepted (placed as)).flatMap frame ↔ OversizedLast (placed as) := by
  obtain ⟨taken, left, h⟩ := WriteTask.ledger_of_run hrun
  exact h.wire_iff hsettled

/-- One message, written whole. -/
theorem written_iff_ping :
    OversizedLast [.ping 7]
      ∧ ∃ t, writeTask.run writeTask.init [.place (.ping 7), .recv, .write 16] = some t
        ∧ t.wire = frame (.ping 7) := by
  have hrun : writeTask.run writeTask.init [.place (.ping 7), .recv, .write 16]
      = some ⟨Fifo.empty, false, [], frame (.ping 7), .receiving⟩ := by rfl
  have hwire : frame (.ping 7)
      = (accepted (placed [.place (.ping 7), .recv, .write 16])).flatMap frame := by rfl
  exact ⟨(written_iff hrun (.inl ⟨rfl, rfl⟩)).mp hwire, _, hrun, rfl⟩

/-- **The same of every message that a caller has tried to send**: one that fits and was refused
came behind one that does not. -/
theorem attempted_iff {as : List WriteAction} {t : WriteTask}
    (hrun : writeTask.run writeTask.init as = some t) (hsettled : t.Settled) :
    t.wire = (accepted (attempted as)).flatMap frame ↔ OversizedLast (attempted as) := by
  obtain ⟨taken, left, h⟩ := WriteTask.attempted_of_run hrun
  exact h.wire_iff hsettled

/-- Whatever message does not fit ends the session: what is placed behind it is never taken. -/
theorem oversized_ends {big : Message} (h : ¬ Fits big) (msg : Message) :
    writeTask.run writeTask.init [.place big, .place msg, .recv]
      = some ⟨⟨[msg], show 1 ≤ OUTBOUND_SLOTS by decide⟩, false, [], [], .ended⟩ := by
  simp [System.run, writeTask, WriteTask.step, WriteTask.spawned, Fifo.trySend, Fifo.empty,
    Fifo.recv, OUTBOUND_SLOTS, encode_of_not_fits h]

/-- A clipboard that is one byte too long, and a `Ping` behind it that is never written. -/
theorem oversized_costs_ping :
    let big := Message.clipboardUpdate "text/plain" (List.replicate (MAX_FRAME_BYTES + 1) 0)
    let as : List WriteAction := [.place big, .place (.ping 7), .recv]
    ∃ t, writeTask.run writeTask.init as = some t ∧ t.Settled ∧ t.wire = []
      ∧ t.wire ≠ (accepted (placed as)).flatMap frame := by
  -- the clipboard is too large to compute with, so it is any message that does not fit
  have hany : ∀ big, ¬ Fits big →
      ∃ t, writeTask.run writeTask.init [.place big, .place (.ping 7), .recv] = some t
        ∧ t.Settled ∧ t.wire = []
        ∧ t.wire ≠ (accepted (placed [.place big, .place (.ping 7), .recv])).flatMap frame := by
    intro big hbig
    have hping : Fits (.ping 7) := by decide
    refine ⟨_, oversized_ends hbig (.ping 7), .inr rfl, rfl, ?_⟩
    simp [placed, accepted, hbig, hping, frame_ne_nil]
  refine hany _ (not_fits_of_large _ ?_)
  rw [List.length_replicate]
  exact Nat.lt_succ_self _

end Dshare.Core
