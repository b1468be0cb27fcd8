/-
  Dshare.Session.Capture
  ──────────────────────
  **FROM THE HOOKS TO `sink.send`.**

  The hook thread puts a message into the channel and then, by the grab flag,
  swallows the event or lets it go on.  The session's drain loop takes a message
  out, reads the flag again, and sends the message or forgets it.  Callbacks come
  one at a time; between them, and between taking a message and reading the flag,
  anything may happen.

  Logs of what was captured and what became of it stand beside the state.

    • `CaptureInv` — the channel is what was captured less what was drained;
    • `exclusive_delivery_iff` — an event goes to exactly one machine if and only
      if the flag turned an even number of times while the event was under way.
-/
import Mathlib.Algebra.Group.Nat.Even
import Mathlib.Tactic.Common
import Dshare.Lib.Transition
import Dshare.Input.Windows

namespace Dshare.Session

open BoundedFifo Transition Dshare.Protocol Dshare.Input

/-! ## §1. State and steps. -/

/-- An event for which a callback built a message. -/
structure Captured where
  msg : Message
  /-- The callback answered `LRESULT(1)`. -/
  swallowed : Bool
  /-- The channel had a free slot. -/
  queued : Bool
  /-- How often the hotkey had turned the flag. -/
  flips : Nat

/-- A message the drain loop has dealt with. -/
structure Popped where
  msg : Message
  /-- It was handed to `sink.send`. -/
  sent : Bool
  /-- How often the hotkey had turned the flag. -/
  flips : Nat

/-- The hook thread, the drain loop, and their logs. -/
structure Capture where
  hook : HookThread
  /-- Taken from the channel; the flag has not been read yet. -/
  inHand : Option Message
  flips : Nat
  captured : List Captured
  popped : List Popped

inductive CaptureAction where
  /-- A hook callback runs. -/
  | hook (call : HookCall)
  /-- `cap_rx.recv()` yields a message. -/
  | recv
  /-- `grabbed.load`, and `sink.send` if it is on. -/
  | forward

/-- The log entry of a callback. -/
def Capture.logOf (s : Capture) (call : HookCall) : List Captured :=
  match s.hook.builds call with
  | some msg =>
      [{ msg := msg
         swallowed := (s.hook.call call).1 == .one
         queued := decide (s.hook.sender.items.length < CHANNEL_SLOTS)
         flips := s.flips }]
  | none => []

def Capture.step (s : Capture) : CaptureAction → Option Capture
  | .hook call =>
      some { s with
        hook := (s.hook.call call).2
        flips := s.flips + call.hotkey.toNat
        captured := s.captured ++ s.logOf call }
  | .recv =>
      match s.inHand, s.hook.sender.recv with
      | none, some (msg, queue) =>
          some { s with hook := { s.hook with sender := queue }, inHand := some msg }
      | _, _ => none
  | .forward =>
      match s.inHand with
      | some msg =>
          some { s with
            inHand := none
            popped := s.popped ++ [⟨msg, s.hook.grabbed, s.flips⟩] }
      | none => none

/-- `default_capture`, before the first event. -/
def Capture.new : Capture := ⟨HookThread.new, none, 0, [], []⟩

def captureSystem : System Capture CaptureAction := ⟨.new, Capture.step⟩

/-- The captured events that entered the channel, in order.  While the channel is
never full, these are all of them. -/
def Capture.enqueued (s : Capture) : List Captured := s.captured.filter Captured.queued

/-- Everything a step can do. -/
theorem Capture.step_cases {s s' : Capture} {a : CaptureAction} (h : s.step a = some s') :
    (∃ call, a = .hook call ∧ s' = { s with
        hook := (s.hook.call call).2
        flips := s.flips + call.hotkey.toNat
        captured := s.captured ++ s.logOf call })
      ∨ (∃ msg queue, a = .recv ∧ s.inHand = none ∧ s.hook.sender.items = msg :: queue.items
        ∧ s' = { s with hook := { s.hook with sender := queue }, inHand := some msg })
      ∨ (∃ msg, a = .forward ∧ s.inHand = some msg
        ∧ s' = { s with
            inHand := none
            popped := s.popped ++ [⟨msg, s.hook.grabbed, s.flips⟩] }) := by
  cases a with
  | hook call => exact .inl ⟨call, rfl, (Option.some.inj h).symm⟩
  | recv =>
      simp only [Capture.step] at h
      split at h
      next msg queue hhand hrecv =>
        exact .inr (.inl ⟨msg, queue, rfl, hhand, Fifo.recv_eq_some.mp hrecv,
          (Option.some.inj h).symm⟩)
      next => cases h
  | forward =>
      simp only [Capture.step] at h
      split at h
      next msg hhand => exact .inr (.inr ⟨msg, rfl, hhand, (Option.some.inj h).symm⟩)
      next => cases h

/-! ## §2. The invariant. -/

/-- The flag after so many turns. -/
def onAfter (flips : Nat) : Bool := flips % 2 == 1

theorem onAfter_add_toNat (flips : Nat) (b : Bool) :
    onAfter (flips + b.toNat) = (onAfter flips ^^ b) := by
  unfold onAfter
  cases b with
  | false => simp
  | true =>
      rcases Nat.mod_two_eq_zero_or_one flips with h | h
      · have h' : (flips + 1) % 2 = 1 := by omega
        simp [h, h']
      · have h' : (flips + 1) % 2 = 0 := by omega
        simp [h, h']

/-- What holds between the state and its logs. -/
structure CaptureInv (s : Capture) : Prop where
  /-- The flag has the parity of its turns. -/
  flag : s.hook.grabbed = onAfter s.flips
  /-- What entered the channel has been dealt with, is in hand, or is still there. -/
  queue : s.enqueued.map Captured.msg
    = s.popped.map Popped.msg ++ s.inHand.toList ++ s.hook.sender.items
  /-- An event was swallowed if the flag was on. -/
  captured : ∀ c ∈ s.captured, c.swallowed = onAfter c.flips ∧ c.flips ≤ s.flips
  /-- A message was sent if the flag was on. -/
  popped : ∀ p ∈ s.popped, p.sent = onAfter p.flips
  /-- A message is dealt with after it was captured. -/
  later : ∀ (i : Nat) (c : Captured) (p : Popped),
    s.enqueued[i]? = some c → s.popped[i]? = some p → c.flips ≤ p.flips

theorem CaptureInv.popped_length_le {s : Capture} (h : CaptureInv s) :
    s.popped.length ≤ s.enqueued.length := by
  have hlen := congrArg List.length h.queue
  simp only [List.length_map, List.length_append] at hlen
  omega

theorem CaptureInv.new : CaptureInv Capture.new where
  flag := rfl
  queue := rfl
  captured := fun c hc => by cases hc
  popped := fun p hp => by cases hp
  later := fun i c p hc => by cases hc

/-- The message of a callback enters the channel if there is room, and the log says so. -/
theorem Capture.logOf_queued (s : Capture) (call : HookCall) :
    s.hook.sender.items ++ ((s.logOf call).filter Captured.queued).map Captured.msg
      = (s.hook.call call).2.sender.items := by
  rw [HookThread.call_sender]
  unfold Capture.logOf
  cases s.hook.builds call with
  | none => simp [HookThread.trySend]
  | some msg =>
      show _ = (s.hook.sender.offer msg).items
      rw [Fifo.items_offer]
      by_cases hroom : s.hook.sender.items.length < CHANNEL_SLOTS <;> simp [hroom]

/-- A callback, by the flag before it. -/
theorem CaptureInv.hook {s : Capture} (h : CaptureInv s) (call : HookCall) :
    CaptureInv { s with
      hook := (s.hook.call call).2
      flips := s.flips + call.hotkey.toNat
      captured := s.captured ++ s.logOf call } where
  flag := by
    show (s.hook.call call).2.grabbed = onAfter (s.flips + call.hotkey.toNat)
    rw [HookThread.call_grabbed, onAfter_add_toNat, h.flag]
  queue := by
    show ((s.captured ++ s.logOf call).filter Captured.queued).map Captured.msg = _
    rw [List.filter_append, List.map_append]
    show s.enqueued.map Captured.msg ++ _ = _ ++ (s.hook.call call).2.sender.items
    rw [h.queue, ← s.logOf_queued call, List.append_assoc]
  captured := by
    intro c hc
    show c.swallowed = onAfter c.flips ∧ c.flips ≤ s.flips + call.hotkey.toNat
    rcases List.mem_append.mp hc with hold | hnew
    · obtain ⟨hsw, hle⟩ := h.captured c hold
      exact ⟨hsw, Nat.le_add_right_of_le hle⟩
    · unfold Capture.logOf at hnew
      cases hb : s.hook.builds call with
      | none => rw [hb] at hnew; cases hnew
      | some msg =>
          rw [hb, List.mem_singleton] at hnew
          subst hnew
          refine ⟨?_, Nat.le_add_right _ _⟩
          -- the callback answered by the flag it found
          show ((s.hook.call call).1 == .one) = onAfter s.flips
          rw [HookThread.call_verdict_of_builds hb, HookThread.verdict, ← h.flag]
          cases s.hook.grabbed <;> rfl
  popped := h.popped
  later := by
    intro i c p hc hp
    have hi : i < s.enqueued.length := by
      obtain ⟨hlt, _⟩ := List.getElem?_eq_some_iff.mp hp
      exact Nat.lt_of_lt_of_le hlt h.popped_length_le
    -- the new event stands behind all that has been dealt with
    have hc' : s.enqueued[i]? = some c := by
      rw [← hc]
      show _ = ((s.captured ++ s.logOf call).filter Captured.queued)[i]?
      rw [List.filter_append]
      exact (List.getElem?_append_left hi).symm
    exact h.later i c p hc' hp

/-- Taking a message moves it from the channel into the hand. -/
theorem CaptureInv.recv {s : Capture} (h : CaptureInv s) {msg : Message}
    {queue : Fifo Message CHANNEL_SLOTS} (hhand : s.inHand = none)
    (hitems : s.hook.sender.items = msg :: queue.items) :
    CaptureInv { s with hook := { s.hook with sender := queue }, inHand := some msg } where
  flag := h.flag
  queue := by
    have hq := h.queue
    rw [hhand, hitems] at hq
    show s.enqueued.map Captured.msg = s.popped.map Popped.msg ++ [msg] ++ queue.items
    simpa using hq
  captured := h.captured
  popped := h.popped
  later := h.later

/-- Reading the flag settles what becomes of the message in hand. -/
theorem CaptureInv.forward {s : Capture} (h : CaptureInv s) {msg : Message}
    (hhand : s.inHand = some msg) :
    CaptureInv { s with
      inHand := none
      popped := s.popped ++ [⟨msg, s.hook.grabbed, s.flips⟩] } where
  flag := h.flag
  queue := by
    have hq := h.queue
    rw [hhand] at hq
    show s.enqueued.map Captured.msg
      = (s.popped ++ [(⟨msg, s.hook.grabbed, s.flips⟩ : Popped)]).map Popped.msg ++ []
        ++ s.hook.sender.items
    simpa using hq
  captured := h.captured
  popped := by
    intro p hp
    rcases List.mem_append.mp hp with hold | hnew
    · exact h.popped p hold
    · rw [List.mem_singleton] at hnew
      subst hnew
      exact h.flag
  later := by
    intro i c p hc hp
    rcases Nat.lt_or_ge i s.popped.length with hlt | hge
    · exact h.later i c p hc ((List.getElem?_append_left hlt).symm.trans hp)
    · -- the message just dealt with was captured before now
      have hp' : ([⟨msg, s.hook.grabbed, s.flips⟩] : List Popped)[i - s.popped.length]? = some p :=
        (List.getElem?_append_right hge).symm.trans hp
      have hmem := List.mem_of_getElem? hp'
      rw [List.mem_singleton] at hmem
      subst hmem
      exact (h.captured c (List.mem_of_mem_filter (List.mem_of_getElem? hc))).2

theorem CaptureInv.step {s s' : Capture} {a : CaptureAction} (h : CaptureInv s)
    (hstep : s.step a = some s') : CaptureInv s' := by
  rcases Capture.step_cases hstep with
    ⟨call, _, rfl⟩ | ⟨msg, queue, _, hhand, hitems, rfl⟩ | ⟨msg, _, hhand, rfl⟩
  · exact h.hook call
  · exact h.recv hhand hitems
  · exact h.forward hhand

theorem captureInv_of_reachable {s : Capture} (h : captureSystem.Reachable s) : CaptureInv s :=
  h.invariant CaptureInv.new fun _ _ _ hs hstep => hs.step hstep

/-- The `i`-th message dealt with is the `i`-th that entered the channel. -/
theorem CaptureInv.msg_eq {s : Capture} (h : CaptureInv s) {i : Nat} {c : Captured} {p : Popped}
    (hc : s.enqueued[i]? = some c) (hp : s.popped[i]? = some p) : p.msg = c.msg := by
  obtain ⟨hlt, _⟩ := List.getElem?_eq_some_iff.mp hp
  have hleft : (s.enqueued.map Captured.msg)[i]? = some c.msg := by
    rw [List.getElem?_map, hc]
    rfl
  rw [h.queue, List.append_assoc, List.getElem?_append_left (by simpa using hlt),
    List.getElem?_map, hp] at hleft
  exact Option.some.inj hleft

/-! ## §3. Exclusive delivery. -/

/-- Two readings of the flag agree if and only if it turned an even number of times
in between. -/
theorem onAfter_eq_iff {m n : Nat} (h : m ≤ n) : onAfter n = onAfter m ↔ Even (n - m) := by
  unfold onAfter
  rw [Nat.even_iff, Bool.eq_iff_iff, beq_iff_eq, beq_iff_eq]
  omega

/-- Every event that went through the channel and was dealt with: it was sent to the
peer if and only if it was swallowed locally. -/
def ExclusiveDelivery (s : Capture) : Prop :=
  s.popped.length ≤ s.enqueued.length
    ∧ ∀ (i : Nat) (c : Captured) (p : Popped), s.enqueued[i]? = some c → s.popped[i]? = some p →
        p.msg = c.msg ∧ (p.sent = true ↔ c.swallowed = true)

/-- **EXCLUSIVE DELIVERY HOLDS EXACTLY WHEN THE FLAG TURNED AN EVEN NUMBER OF TIMES**
between the capture of each event and the moment the drain loop read the flag for it. -/
theorem exclusive_delivery_iff (s : Capture) (h : captureSystem.Reachable s) :
    ExclusiveDelivery s ↔ ∀ (i : Nat) (c : Captured) (p : Popped),
      s.enqueued[i]? = some c → s.popped[i]? = some p →
      Even (p.flips - c.flips) := by
  have hinv := captureInv_of_reachable h
  have hone : ∀ (i : Nat) (c : Captured) (p : Popped),
      s.enqueued[i]? = some c → s.popped[i]? = some p →
      ((p.sent = true ↔ c.swallowed = true) ↔ Even (p.flips - c.flips)) := by
    intro i c p hc hp
    have hsent := hinv.popped p (List.mem_of_getElem? hp)
    have hsw := (hinv.captured c (List.mem_of_mem_filter (List.mem_of_getElem? hc))).1
    rw [hsent, hsw, ← Bool.eq_iff_iff]
    exact onAfter_eq_iff (hinv.later i c p hc hp)
  constructor
  · intro hex i c p hc hp
    exact (hone i c p hc hp).mp (hex.2 i c p hc hp).2
  · intro heven
    refine ⟨hinv.popped_length_le, ?_⟩
    intro i c p hc hp
    exact ⟨hinv.msg_eq hc hp, (hone i c p hc hp).mpr (heven i c p hc hp)⟩

/-- A key of a password, typed with the flag off; then the hotkey; then the drain loop
comes to the key. -/
def typedThenGrabbed : List CaptureAction :=
  [.hook (.kbd (fun _ => 0) HC_ACTION WM_KEYDOWN ⟨0x50⟩),
    .hook (.kbd (fun _ => 0x8000) HC_ACTION WM_SYSKEYDOWN ⟨HOTKEY_VK⟩),
    .recv, .forward]

theorem exclusive_delivery_iff_two_turns :
    ∃ s, captureSystem.Reachable s ∧ s.popped.length = 1 ∧ ExclusiveDelivery s := by
  -- the same key, but the hotkey twice before the drain loop comes to it
  obtain ⟨s, hs⟩ : ∃ s, captureSystem.run .new (typedThenGrabbed.take 2
      ++ [.hook (.kbd (fun _ => 0x8000) HC_ACTION WM_SYSKEYDOWN ⟨HOTKEY_VK⟩), .recv, .forward])
      = some s := ⟨_, rfl⟩
  refine ⟨s, ⟨_, hs⟩, ?_, ?_⟩
  · cases hs
    rfl
  · refine (exclusive_delivery_iff s ⟨_, hs⟩).mpr ?_
    cases hs
    intro i c p hc hp
    cases i with
    | zero =>
        cases hc
        cases hp
        decide
    | succ i => cases hp

/-- A locally delivered key that is also sent to the peer. -/
theorem typed_key_also_sent :
    ¬ ∀ s, captureSystem.Reachable s → (∀ c ∈ s.captured, c.queued = true) →
      ExclusiveDelivery s := by
  intro h
  obtain ⟨s, hs⟩ : ∃ s, captureSystem.run .new typedThenGrabbed = some s := ⟨_, rfl⟩
  have hqueued : ∀ c ∈ s.captured, c.queued = true := by
    cases hs
    decide
  have hex := h s ⟨_, hs⟩ hqueued
  cases hs
  have hbad := (hex.2 0 _ _ rfl rfl).2
  revert hbad
  decide

end Dshare.Session
