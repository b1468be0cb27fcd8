/-
  Dshare.Session.RemoteKeys
  ─────────────────────────
  **THE PEER'S KEYBOARD.**

  While the grab flag is on, the hook swallows every key, so `GetAsyncKeyState` reports
  for all of them what it did when the hotkey was pressed: Ctrl, Alt and Shift down.
  Two things follow for the desk of `Dshare.Session.Desk`, on which each change is handled
  to completion (hook, drain loop, send, inject) before the next one is made.

    • `modifiers_frozen` — the `modifiers` of every key message are those of the moment
      the flag turned on;
    • `typeable_iff` — every press of G turns the flag off, so the peer never gets one;
      every other control that has a code can be pressed there.

  The second rests on that condition.  The drain loop reads the flag anew, so a G that was
  typed with the flag off, and waits in the channel while the hotkey turns it on, is sent:
  that is a press the local OS has seen as well (§3 of `Dshare.Session.Capture`).
-/
import Dshare.Session.Desk

namespace Dshare.Session

open GatedView Dshare.Protocol Dshare.Input

/-! ## §1. What is frozen. -/

/-- `GetAsyncKeyState` depends on the changes that were passed on, and on nothing else. -/
theorem getAsyncKeyState_congr {d d' : Desktop} (h : d.passed = d'.passed) :
    d.getAsyncKeyState = d'.getAsyncKeyState := by
  unfold Desktop.getAsyncKeyState
  rw [h]

theorem deskAfter_snoc (cs : List Change) (c : Change) :
    deskAfter (cs ++ [c]) = (deskAfter cs).step c := osView.after_snoc cs c

/-- **While the flag is on, the keyboard reads as at the press that turned it on.** -/
theorem passed_frozen {cs : List Change} (h : (deskAfter cs).desktop.hook.grabbed = true) :
    ∃ pre press post, cs = pre ++ press :: post
      ∧ (deskAfter pre).desktop.hook.grabbed = false
      ∧ (deskAfter pre).desktop.toggles press = true
      ∧ (∀ mid, mid <+: post →
          (deskAfter (pre ++ press :: mid)).desktop.hook.grabbed = true)
      ∧ (deskAfter cs).desktop.passed = (deskAfter pre).desktop.passed := by
  have hgate : ∀ as, osView.gate (osView.after as) = !(deskAfter as).desktop.hook.grabbed :=
    fun _ => rfl
  have hclosed : osView.gate (osView.after cs) = false := by
    rw [hgate, h]
    rfl
  obtain ⟨pre, press, post, hcs, hopen, hmids, hheld⟩ := osView.held_frozen rfl hclosed
  have hoff : (deskAfter pre).desktop.hook.grabbed = false := by simpa [hgate] using hopen
  have hon : ∀ mid, mid <+: post →
      (deskAfter (pre ++ press :: mid)).desktop.hook.grabbed = true := by
    intro mid hmid
    simpa [hgate] using hmids mid hmid
  refine ⟨pre, press, post, hcs, hoff, ?_, hon, hheld⟩
  have hturned := hon [] List.nil_prefix
  rw [deskAfter_snoc, Desk.step_grabbed, Desktop.step_grabbed, hoff, Bool.false_xor] at hturned
  exact hturned

/-- The chord is reported down all the time the flag is on. -/
theorem chordDown_of_desk {cs : List Change} (h : (deskAfter cs).desktop.hook.grabbed = true) :
    chordDown (deskAfter cs).desktop.passed = true := by
  obtain ⟨pre, press, post, _, _, htog, _, hpassed⟩ := passed_frozen h
  rw [hpassed]
  unfold Desktop.toggles at htog
  simp only [Bool.and_eq_true] at htog
  exact htog.2

/-- So a change turns the flag off exactly if it is a press of G. -/
theorem toggles_of_grabbed {cs : List Change} (h : (deskAfter cs).desktop.hook.grabbed = true)
    (c : Change) :
    (deskAfter cs).desktop.toggles c = (c.control == .key HOTKEY_VK && c.pressed) := by
  unfold Desktop.toggles
  rw [chordDown_of_desk h, Bool.and_true]

/-! ## §2. The modifiers of a key message. -/

/-- What a key message says of the modifiers is what the hook reads. -/
theorem modifiers_of_messageOf {d : Desktop} {c : Change} {keycode : UInt32} {pressed : Bool}
    {m : KeyModifiers} (h : messageOf d c = some (.keyEvent keycode pressed m)) :
    m = readCurrentModifiers d.getAsyncKeyState := by
  unfold messageOf at h
  obtain ⟨control, down, sys, info⟩ := c
  cases control with
  | key vk =>
      simp only [Change.hookCall, HookThread.builds, kbdMsg] at h
      split_ifs at h
      obtain ⟨code, _, hcode⟩ := Option.map_eq_some_iff.mp h
      cases hcode
      rfl
  | leftButton => cases down <;> cases h
  | rightButton => cases down <;> cases h
  | middleButton => cases down <;> cases h

/-- The chord, as the hook reads it. -/
theorem readCurrentModifiers_chord {d : Desktop} (h : chordDown d.passed = true) :
    (readCurrentModifiers d.getAsyncKeyState).ctrl = true
      ∧ (readCurrentModifiers d.getAsyncKeyState).alt = true
      ∧ (readCurrentModifiers d.getAsyncKeyState).shift = true := by
  unfold chordDown at h
  simp only [Bool.and_eq_true] at h
  obtain ⟨⟨hctrl, halt⟩, hshift⟩ := h
  exact ⟨(topBit _).trans hctrl, (topBit _).trans halt, (topBit _).trans hshift⟩

/-- **THE MODIFIERS OF A KEY MESSAGE ARE FROZEN.**  While the flag is on, the last press of
the hotkey stands between a part of the history with the flag off and one with the flag on
throughout; and whatever key the next change is of, and whatever is held by then, its
message says of the modifiers what the hook read at that press: Ctrl, Alt and Shift down,
and Meta as it was. -/
theorem modifiers_frozen (cs : List Change)
    (h : (deskAfter cs).desktop.hook.grabbed = true) :
    ∃ pre press post, cs = pre ++ press :: post
      ∧ (deskAfter pre).desktop.hook.grabbed = false
      ∧ (∀ mid, mid <+: post →
          (deskAfter (pre ++ press :: mid)).desktop.hook.grabbed = true)
      ∧ ∀ c keycode pressed m,
          messageOf (deskAfter cs).desktop c = some (.keyEvent keycode pressed m) →
            m = readCurrentModifiers (deskAfter pre).desktop.getAsyncKeyState
              ∧ m.ctrl = true ∧ m.alt = true ∧ m.shift = true := by
  obtain ⟨pre, press, post, hcs, hoff, _, hon, hpassed⟩ := passed_frozen h
  refine ⟨pre, press, post, hcs, hoff, hon, ?_⟩
  intro c keycode pressed m hmsg
  have hm := modifiers_of_messageOf hmsg
  refine ⟨?_, ?_⟩
  · rw [hm, getAsyncKeyState_congr hpassed]
  · rw [hm]
    exact readCurrentModifiers_chord (chordDown_of_desk h)

/-- Long after the chord was let go, A is sent as Ctrl+Alt+Shift+A. -/
theorem modifiers_frozen_chordOnce :
    ∃ m, messageOf (deskAfter chordOnce).desktop (keyChange 0x41 true)
        = some (.keyEvent 30 true m)
      ∧ m.ctrl = true ∧ m.alt = true ∧ m.shift = true := by
  obtain ⟨_, _, _, _, _, _, hall⟩ := modifiers_frozen chordOnce (by decide +kernel)
  obtain ⟨m, hm⟩ : ∃ m, messageOf (deskAfter chordOnce).desktop (keyChange 0x41 true)
      = some (.keyEvent 30 true m) := ⟨⟨true, true, true, false⟩, by decide +kernel⟩
  exact ⟨m, hm, (hall _ _ _ _ hm).2⟩

/-! ## §3. What can be typed. -/

/-- One more change can be made by a hand. -/
theorem physical_snoc {cs : List Change} {c : Change} (h : Physical cs)
    (hc : heldAfter cs c.control = !c.pressed) : Physical (cs ++ [c]) := by
  intro i hi
  rcases Nat.lt_or_ge i cs.length with hlt | hge
  · rw [List.take_append_of_le_length (Nat.le_of_lt hlt)]
    rw [List.getElem_append_left hlt]
    exact h i hlt
  · have hlen : i = cs.length := by
      rw [List.length_append, List.length_singleton] at hi
      omega
    subst hlen
    rw [List.take_left, List.getElem_concat_length rfl]
    exact hc

/-- **THE PEER NEVER GETS A G**, each change being handled to completion. -/
theorem client_of_hotkey {code : UInt16} (hcode : controlCode (.key HOTKEY_VK) = some code)
    (cs : List Change) : (deskAfter cs).client code = false := by
  induction cs using List.reverseRecOn with
  | nil => rfl
  | append_singleton cs c ih =>
      rw [deskAfter_snoc, Desk.client_step]
      split_ifs with hseen
      · obtain ⟨hcontrol, hgates⟩ := hseen
        simp only [Bool.and_eq_true] at hgates
        obtain ⟨hbefore, hafter⟩ := hgates
        rw [Desk.step_grabbed, Desktop.step_grabbed, hbefore, toggles_of_grabbed hbefore,
          controlCode_injective hcontrol hcode, beq_self_eq_true, Bool.true_and,
          Bool.true_xor] at hafter
        simpa using hafter
      · exact ih

theorem released_chordOnce (k : Control) : heldAfter chordOnce k = false := by
  simp only [heldAfter, lastDown, chordOnce, keyChange, List.foldl_cons, List.foldl_nil]
  split_ifs <;> rfl

/-- Any other control, pressed after the chord, goes down at the peer. -/
theorem client_of_press {k : Control} {code : UInt16} (hk : k ≠ .key HOTKEY_VK)
    (hcode : controlCode k = some code) :
    (deskAfter (chordOnce ++ [⟨k, true, false, ⟨(0, 0), 0⟩⟩])).client code = true := by
  have hbefore : (deskAfter chordOnce).desktop.hook.grabbed = true := by decide +kernel
  rw [deskAfter_snoc, Desk.client_step, if_pos]
  refine ⟨hcode, ?_⟩
  rw [Desk.step_grabbed, Desktop.step_grabbed, hbefore, toggles_of_grabbed hbefore]
  simp [hk]

/-- **WHAT CAN BE TYPED ON THE PEER.**  Let each change be handled to completion before the
next, nothing dropped and the connection up, as on every `Desk`.  A code of the client's
device can be pressed, by some sequence of presses and releases that hands can make, exactly
if it is the code of a control other than G: typed at that pace, the hotkey leaves no way to
type its own letter. -/
theorem typeable_iff (code : UInt16) :
    (∃ cs, Physical cs ∧ (deskAfter cs).client code = true)
      ↔ ∃ k, k ≠ .key HOTKEY_VK ∧ controlCode k = some code := by
  constructor
  · intro h
    obtain ⟨cs, _, hdown⟩ := h
    obtain ⟨k, hk⟩ := controlCode_of_client cs code hdown
    refine ⟨k, ?_, hk⟩
    intro hg
    rw [hg] at hk
    rw [client_of_hotkey hk cs] at hdown
    cases hdown
  · intro h
    obtain ⟨k, hne, hk⟩ := h
    refine ⟨_, ?_, client_of_press hne hk⟩
    exact physical_snoc (by decide) (released_chordOnce k)

end Dshare.Session
