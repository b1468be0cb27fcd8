/-
  Dshare.Session.Backpressure
  ───────────────────────────
  **WHEN THE DRAIN LOOP IS TOO SLOW.**

  A hook callback must not wait, so it offers its message with `try_send` and looks
  away; a message that finds all 256 slots taken is gone.  Whether that ever happens
  is a matter of two counts: what the callbacks have built so far, and what the
  drain loop has taken out.

    • `Counted` — the messages taken out are those dealt with and the one in hand;
    • `lossless_iff` — nothing is dropped in a run exactly if no callback builds a
      message while the drain loop is 256 messages behind.
-/
import Mathlib.Tactic.Common
import Dshare.Session.EndToEnd

namespace Dshare.Session

open BoundedFifo Transition Dshare.Protocol Dshare.Input

/-! ## §1. Two counts. -/

/-- `cap_rx.recv()`. -/
def CaptureAction.isRecv : CaptureAction → Bool
  | .recv => true
  | _ => false

/-- Every message built so far entered the channel. -/
def Capture.Lossless (s : Capture) : Prop := ∀ c ∈ s.captured, c.queued = true

instance (s : Capture) : Decidable s.Lossless :=
  inferInstanceAs (Decidable (∀ c ∈ s.captured, c.queued = true))

theorem Capture.Lossless.enqueued {s : Capture} (h : s.Lossless) : s.enqueued = s.captured :=
  List.filter_eq_self.mpr h

/-- What has been taken out has been dealt with, or is in hand. -/
structure Counted (as : List CaptureAction) (s : Capture) : Prop where
  inv : CaptureInv s
  taken : s.popped.length + s.inHand.toList.length = as.countP CaptureAction.isRecv

theorem Counted.step {as : List CaptureAction} {s s' : Capture} {a : CaptureAction}
    (h : Counted as s) (hstep : s.step a = some s') : Counted (as ++ [a]) s' where
  inv := h.inv.step hstep
  taken := by
    rw [List.countP_append, ← h.taken]
    rcases Capture.step_cases hstep with
      ⟨call, rfl, rfl⟩ | ⟨msg, queue, rfl, hhand, _, rfl⟩ | ⟨msg, rfl, hhand, rfl⟩
    · show s.popped.length + s.inHand.toList.length = _ + 0
      omega
    · show s.popped.length + 1 = s.popped.length + s.inHand.toList.length + 1
      rw [hhand]
      rfl
    · show (s.popped ++ [_]).length + 0 = s.popped.length + s.inHand.toList.length + 0
      rw [hhand, List.length_append]
      rfl

theorem counted_of_run {as : List CaptureAction} {s : Capture}
    (h : captureSystem.run .new as = some s) : Counted as s :=
  System.run_history ⟨.new, rfl⟩ (fun _ _ _ _ hs hstep => hs.step hstep) h

/-- As long as nothing was dropped, the channel holds the difference of the two counts. -/
theorem Counted.behind {as : List CaptureAction} {s : Capture} (h : Counted as s)
    (hl : s.Lossless) :
    s.captured.length = as.countP CaptureAction.isRecv + s.hook.sender.items.length := by
  have hqueue := congrArg List.length h.inv.queue
  rw [hl.enqueued] at hqueue
  simp only [List.length_map, List.length_append] at hqueue
  have htaken := h.taken
  omega

/-! ## §2. One callback. -/

/-- A callback drops its message, if it builds one, when all slots are taken. -/
theorem Capture.lossless_hook {s : Capture} (h : s.Lossless) (call : HookCall) :
    Capture.Lossless { s with
        hook := (s.hook.call call).2
        flips := s.flips + call.hotkey.toNat
        captured := s.captured ++ s.logOf call }
      ↔ ((s.hook.builds call).isSome = true → s.hook.sender.items.length < CHANNEL_SLOTS) := by
  unfold Capture.Lossless Capture.logOf
  cases s.hook.builds call with
  | none =>
      simp only [List.append_nil]
      exact iff_of_true h fun hnone => by cases hnone
  | some msg =>
      simp only [List.mem_append, List.mem_singleton, Option.isSome_some, forall_const]
      constructor
      · intro hall
        exact of_decide_eq_true (hall _ (.inr rfl))
      · intro hroom c hc
        rcases hc with hold | rfl
        · exact h c hold
        · exact decide_eq_true hroom

/-- The other steps build nothing. -/
theorem Capture.captured_of_step {s s' : Capture} {a : CaptureAction} (h : s.step a = some s')
    (ha : ∀ call, a ≠ .hook call) : s'.captured = s.captured := by
  rcases Capture.step_cases h with ⟨call, rfl, _⟩ | ⟨_, _, _, _, _, rfl⟩ | ⟨_, _, _, rfl⟩
  · exact absurd rfl (ha call)
  · rfl
  · rfl

/-- What is dropped stays dropped. -/
theorem Capture.captured_front {s s' : Capture} {as : List CaptureAction}
    (h : captureSystem.run s as = some s') : s.captured <+: s'.captured := by
  have hkeep : ∀ t a t', s.captured <+: t.captured → captureSystem.step t a = some t' →
      s.captured <+: t'.captured := by
    intro t a t' ht hstep
    rcases Capture.step_cases hstep with ⟨_, _, rfl⟩ | ⟨_, _, _, _, _, rfl⟩ | ⟨_, _, _, rfl⟩
    · exact ht.trans (List.prefix_append _ _)
    · exact ht
    · exact ht
  exact captureSystem.run_invariant hkeep as List.prefix_rfl h

/-! ## §3. Runs. -/

/-- The drain loop is not 256 messages behind when a callback builds one. -/
def KeepsUp (before : List CaptureAction) (s : Capture) (a : CaptureAction) : Prop :=
  ∀ call, a = .hook call → (s.hook.builds call).isSome = true →
    s.captured.length < before.countP CaptureAction.isRecv + CHANNEL_SLOTS

theorem keepsUp_iff {as : List CaptureAction} {s s' : Capture} {a : CaptureAction}
    (h : Counted as s) (hl : s.Lossless) (hstep : s.step a = some s') :
    s'.Lossless ↔ KeepsUp as s a := by
  have hbehind := h.behind hl
  by_cases ha : ∃ call, a = .hook call
  · obtain ⟨call, rfl⟩ := ha
    cases hstep
    rw [Capture.lossless_hook hl]
    constructor
    · intro hroom call' hcall hbuilds
      cases hcall
      have := hroom hbuilds
      omega
    · intro hkeeps hbuilds
      have := hkeeps call rfl hbuilds
      omega
  · have hcaptured := Capture.captured_of_step hstep fun call hcall => ha ⟨call, hcall⟩
    have hl' : s'.Lossless := by
      unfold Capture.Lossless
      rw [hcaptured]
      exact hl
    exact iff_of_true hl' fun call hcall => absurd ⟨call, hcall⟩ ha

/-- **NOTHING IS DROPPED EXACTLY WHILE THE DRAIN LOOP KEEPS UP**: whenever a callback builds
a message, fewer than 256 of those built before it have not been taken out.  If so, and the
flag was on for every message dealt with, then everything the hooks have built has been
handed to `sink.send`, is in hand or is in the channel, in the order in which it was built. -/
theorem lossless_iff (as : List CaptureAction) (s : Capture)
    (hrun : captureSystem.run .new as = some s) :
    (s.Lossless ↔ ∀ pre call post t, as = pre ++ .hook call :: post →
        captureSystem.run .new pre = some t → (t.hook.builds call).isSome = true →
        t.captured.length < pre.countP CaptureAction.isRecv + CHANNEL_SLOTS)
      ∧ (s.Lossless → (∀ p ∈ s.popped, p.sent = true) →
        s.built = s.handed ++ s.inHand.toList ++ s.hook.sender.items) := by
  have hcounted := counted_of_run hrun
  constructor
  · have halways : captureSystem.Always Capture.Lossless .new as
        ↔ captureSystem.Each KeepsUp .new as :=
      System.always_iff_each ⟨.new, rfl⟩ (fun c hc => absurd hc List.not_mem_nil)
        (fun _ _ _ _ _ h _ hstep _ => h.step hstep)
        (fun _ _ _ _ _ h hl hstep => keepsUp_iff h hl hstep) hrun
    constructor
    · intro hl pre call post t has ht hbuilds
      have heach := halways.mp ?_
      · exact heach pre (.hook call) post t has ht call rfl hbuilds
      · -- what was dropped earlier would still be missing
        intro before after u hsplit hu c hc
        rw [hsplit] at hrun
        obtain ⟨v, hv, hrest⟩ := Option.bind_eq_some_iff.mp
          ((System.run_append captureSystem .new before after).symm.trans hrun)
        rw [hu] at hv
        cases hv
        exact hl c ((Capture.captured_front hrest).subset hc)
    · intro hkeeps
      refine halways.mpr ?_ as [] s (List.append_nil as).symm hrun
      intro pre a post t has ht call ha hbuilds
      subst ha
      exact hkeeps pre call post t has ht hbuilds
  · intro hl hsent
    have hqueue := hcounted.inv.queue
    rw [hl.enqueued] at hqueue
    unfold Capture.built Capture.handed
    rw [hqueue, List.filter_eq_self.mpr hsent]

/-- A key is pressed and sent. -/
theorem lossless_iff_one_key :
    ∃ s, captureSystem.run .new
        [.hook (.kbd (fun _ => 0x8000) HC_ACTION WM_SYSKEYDOWN ⟨HOTKEY_VK⟩),
          .hook (.kbd (fun _ => 0) HC_ACTION WM_KEYDOWN ⟨0x50⟩), .recv, .forward] = some s
      ∧ s.built = [.keyEvent 25 true ⟨false, false, false, false⟩] ∧ s.handed = s.built := by
  obtain ⟨s, hs⟩ : ∃ s, captureSystem.run .new
      [.hook (.kbd (fun _ => 0x8000) HC_ACTION WM_SYSKEYDOWN ⟨HOTKEY_VK⟩),
        .hook (.kbd (fun _ => 0) HC_ACTION WM_KEYDOWN ⟨0x50⟩), .recv, .forward] = some s := ⟨_, rfl⟩
  have hall := (lossless_iff _ s hs).2
  refine ⟨s, hs, ?_⟩
  cases hs
  have hbuilt := hall (by decide) (by decide)
  exact ⟨rfl, by rw [hbuilt]; rfl⟩

end Dshare.Session
