/-
  Dshare.Session.Desk
  ───────────────────
  **WHICH KEYS CAN STAY DOWN.**

  A whole desk: the Windows desktop with its hooks, the drain loop of the session
  and the client's virtual device.  Each change of a key or button is handled to
  completion: hook callback, drain, send, inject.

  The local OS sees the changes made while the grab flag is off, the client those
  made while it is on; each is a `GatedView`.  So a control that nobody holds any
  more stays down in a view exactly if that view lost sight of it while it was held
  (`stuck_iff_severed`).
-/
import Dshare.Input.Linux
import Dshare.Input.Hotkey

namespace Dshare.Session

open BoundedFifo GatedView Dshare.Protocol Dshare.Input

/-! ## §1. The client's device. -/

/-- The position of every `EV_KEY` code of the virtual device. -/
abbrev KeyState := UInt16 → Bool

def KeyState.apply (s : KeyState) (e : InputEvent) : KeyState :=
  if e.eventType = .key then fun code => if e.code = code then e.value != 0 else s code else s

/-- The client's `LinuxInject`, on a device that accepts every event. -/
def clientInject : InputInject KeyState :=
  linuxInject fun s events => (.ok (), events.foldl KeyState.apply s)

/-- The `EV_KEY` code of a control; an unmapped key has none. -/
def controlCode : Control → Option UInt16
  | .key vk => vkToEvdev vk
  | .leftButton => some (btnCode .left)
  | .rightButton => some (btnCode .right)
  | .middleButton => some (btnCode .middle)

/-- **No two controls share a code**: neither two keys, nor a key and a button. -/
theorem controlCode_injective {k k' : Control} {code : UInt16}
    (h : controlCode k = some code) (h' : controlCode k' = some code) : k = k' := by
  have hkey : ∀ {vk : UInt32} {b : MouseButton}, vkToEvdev vk = some code →
      some (btnCode b) = some code → False := by
    intro vk b hvk hb
    have hlt := vkToEvdev_lt hvk
    rw [← Option.some.inj hb] at hlt
    exact absurd (btnCode_ge b) (by simpa using hlt)
  cases k <;> cases k' <;> simp only [controlCode] at h h'
  case key.key vk vk' => rw [vkToEvdev_injective h h']
  case key.leftButton vk => exact (hkey h h').elim
  case key.rightButton vk => exact (hkey h h').elim
  case key.middleButton vk => exact (hkey h h').elim
  case leftButton.key vk => exact (hkey h' h).elim
  case rightButton.key vk => exact (hkey h' h).elim
  case middleButton.key vk => exact (hkey h' h).elim
  -- two buttons: equal, or with different codes
  all_goals first | rfl | cases btnCode_injective (Option.some.inj (h.trans h'.symm))

/-! ## §2. One change, handled to completion. -/

/-- The message the hook builds for a change. -/
def messageOf (d : Desktop) (c : Change) : Option Message :=
  d.hook.builds (c.hookCall d.getAsyncKeyState)

/-- A change offered to an empty channel is what the channel then holds. -/
theorem step_items {d : Desktop} (h : d.hook.sender.items = []) (c : Change) :
    (d.step c).hook.sender.items = (messageOf d c).toList := by
  show (d.hook.call (c.hookCall d.getAsyncKeyState)).2.sender.items = _
  rw [HookThread.call_sender]
  show (d.hook.trySend (messageOf d c)).sender.items = _
  cases messageOf d c with
  | none => exact h
  | some msg =>
      show (d.hook.sender.offer msg).items = [msg]
      rw [Fifo.items_offer, h]
      rfl

/-- The desktop, whose channel has been drained, and the client's device. -/
structure Desk where
  desktop : Desktop
  client : KeyState
  drained : desktop.hook.sender.items = []

def Desk.new : Desk := ⟨.new, fun _ => false, rfl⟩

/-- One change: the hook, then the drain loop, then the client.  The drain loop
sends what it takes from the channel if the grab flag is on. -/
def Desk.step (d : Desk) (c : Change) : Desk :=
  match h : (d.desktop.step c).hook.sender.recv with
  | none => ⟨d.desktop.step c, d.client, Fifo.recv_eq_none.mp h⟩
  | some (msg, queue) =>
      { desktop :=
          { d.desktop.step c with hook := { (d.desktop.step c).hook with sender := queue } }
        client :=
          if (d.desktop.step c).hook.grabbed then (clientInject.handle d.client msg).2
          else d.client
        drained := by
          have hitems := step_items d.drained c
          rw [Fifo.recv_eq_some.mp h] at hitems
          cases hm : messageOf d.desktop c with
          | none => rw [hm] at hitems; cases hitems
          | some m => rw [hm] at hitems; exact (List.cons.inj hitems).2 }

@[simp] theorem Desk.step_grabbed (d : Desk) (c : Change) :
    (d.step c).desktop.hook.grabbed = (d.desktop.step c).hook.grabbed := by
  unfold Desk.step
  split <;> rfl

@[simp] theorem Desk.step_passed (d : Desk) (c : Change) :
    (d.step c).desktop.passed = (d.desktop.step c).passed := by
  unfold Desk.step
  split <;> rfl

/-- The client handles the message of the change exactly if the flag is on afterwards. -/
theorem Desk.step_client (d : Desk) (c : Change) :
    (d.step c).client =
      match messageOf d.desktop c with
      | some msg =>
          if (d.desktop.step c).hook.grabbed then (clientInject.handle d.client msg).2
          else d.client
      | none => d.client := by
  have hitems := step_items d.drained c
  unfold Desk.step
  split
  next h =>
    rw [Fifo.recv_eq_none.mp h] at hitems
    cases hm : messageOf d.desktop c with
    | none => rfl
    | some m => rw [hm] at hitems; cases hitems
  next msg queue h =>
    rw [Fifo.recv_eq_some.mp h] at hitems
    cases hm : messageOf d.desktop c with
    | none => rw [hm] at hitems; cases hitems
    | some m =>
        rw [hm] at hitems
        have hmsg : msg = m := (List.cons.inj hitems).1
        show (if (d.desktop.step c).hook.grabbed then (clientInject.handle d.client msg).2
          else d.client) = _
        rw [hmsg]

/-! ## §3. What the client's device learns. -/

theorem handle_keyEvents {s : KeyState} {msg : Message} {code : UInt16} {pressed : Bool}
    (h : linuxEvents msg = keyEvents code pressed) :
    (clientInject.handle s msg).2 = fun x => if code = x then pressed else s x := by
  show (if (linuxEvents msg).isEmpty then (Except.ok (), s)
    else (.ok (), (linuxEvents msg).foldl KeyState.apply s)).2 = _
  rw [h]
  funext x
  cases pressed <;> rfl

/-- A change that does not turn the flag is injected under the code of its control. -/
theorem handle_messageOf {d : Desktop} {c : Change} (h : d.toggles c = false) (s : KeyState) :
    (match messageOf d c with
      | some msg => (clientInject.handle s msg).2
      | none => s) = fun x => if controlCode c.control = some x then c.pressed else s x := by
  rw [← hotkey_hookCall] at h
  obtain ⟨control, pressed, sys, info⟩ := c
  cases control with
  | key vk =>
      have hk : isHotkey d.getAsyncKeyState (keyWparam pressed sys) ⟨vk⟩ = false := h
      have hmsg : messageOf d ⟨.key vk, pressed, sys, info⟩
          = (vkToEvdev vk).map fun evdev =>
              .keyEvent evdev.toUInt32 pressed (readCurrentModifiers d.getAsyncKeyState) := by
        show (if (HC_ACTION = HC_ACTION && !isHotkey _ _ _) = true then kbdMsg _ _ _ else none) = _
        rw [hk]
        simp [kbdMsg, isPress_keyWparam, isRelease_keyWparam]
      rw [hmsg]
      show _ = fun x => if vkToEvdev vk = some x then pressed else s x
      cases vkToEvdev vk with
      | none => simp
      | some evdev =>
          simp only [Option.map_some, Option.some.injEq]
          exact handle_keyEvents (linuxEvents_key evdev pressed _)
  | leftButton =>
      cases pressed <;> exact (handle_keyEvents rfl).trans (by simp [controlCode])
  | rightButton =>
      cases pressed <;> exact (handle_keyEvents rfl).trans (by simp [controlCode])
  | middleButton =>
      cases pressed <;> exact (handle_keyEvents rfl).trans (by simp [controlCode])

theorem messageOf_of_toggles {d : Desktop} {c : Change} (h : d.toggles c = true) :
    messageOf d c = none :=
  (HookThread.builds_of_hotkey ((hotkey_hookCall d c).trans h)).1

/-- **The client learns of a change while the flag is on and stays on.** -/
theorem Desk.client_step (d : Desk) (c : Change) (code : UInt16) :
    (d.step c).client code =
      if controlCode c.control = some code
          ∧ (d.desktop.hook.grabbed && (d.step c).desktop.hook.grabbed) = true
      then c.pressed else d.client code := by
  rw [Desk.step_client, Desk.step_grabbed, Desktop.step_grabbed]
  cases htog : d.desktop.toggles c with
  | true =>
      rw [messageOf_of_toggles htog]
      cases d.desktop.hook.grabbed <;> simp
  | false =>
      have hhandle := congrFun (handle_messageOf htog d.client) code
      cases d.desktop.hook.grabbed with
      | true =>
          simp only [Bool.xor_false, if_true, Bool.and_self, and_true]
          exact hhandle
      | false =>
          cases messageOf d.desktop c <;> simp

/-! ## §4. The two views. -/

/-- The local OS of the desk: its gate is open while the flag is off. -/
def osView : View Desk Change Control where
  init := .new
  step := .step
  key := Change.control
  down := Change.pressed
  gate d := !d.desktop.hook.grabbed
  visible _ := true
  held d := d.desktop.passed
  held_init _ := rfl
  held_step := by
    intro d c k
    rw [Desk.step_passed, Desk.step_grabbed]
    exact localView.held_step d.desktop c k

/-- The client of the desk: its gate is open while the flag is on. -/
def clientView : View Desk Change Control where
  init := .new
  step := .step
  key := Change.control
  down := Change.pressed
  gate d := d.desktop.hook.grabbed
  visible k := (controlCode k).isSome
  held d k := ((controlCode k).map d.client).getD false
  held_init k := by cases controlCode k <;> rfl
  held_step := by
    intro d c k
    cases hk : controlCode k with
    | none => simp
    | some code =>
        -- the code stands for this control alone
        have hsame : controlCode c.control = some code ↔ c.control = k := by
          constructor
          · intro h
            exact controlCode_injective h hk
          · intro h
            rw [h, hk]
        simp only [Option.map_some, Option.getD_some, Option.isSome_some, Bool.and_true]
        rw [Desk.client_step]
        simp only [hsame]

/-- The desk after a list of changes. -/
def deskAfter (cs : List Change) : Desk := cs.foldl Desk.step Desk.new

/-- The client never has a code down that belongs to no control. -/
theorem controlCode_of_client (cs : List Change) (code : UInt16)
    (h : (deskAfter cs).client code = true) : ∃ k, controlCode k = some code := by
  induction cs using List.reverseRecOn with
  | nil => cases h
  | append_singleton cs c ih =>
      rw [deskAfter, List.foldl_append] at h
      change ((deskAfter cs).step c).client code = true at h
      rw [Desk.client_step] at h
      by_cases hc : controlCode c.control = some code
          ∧ ((deskAfter cs).desktop.hook.grabbed
            && ((deskAfter cs).step c).desktop.hook.grabbed) = true
      · exact ⟨c.control, hc.1⟩
      · rw [if_neg hc] at h
        exact ih h

/-! ## §5. Stuck keys. -/

/-- **A CONTROL NOBODY HOLDS STAYS DOWN EXACTLY IF A VIEW LOST SIGHT OF IT.**  In the
local OS: it was held, in fact and there, when the flag turned on, and no change of it
was passed on since.  At the client: it was held, in fact and there, when the flag
turned off, and no change of it was injected since. -/
theorem stuck_iff_severed (cs : List Change) (hreleased : ∀ k, heldAfter cs k = false) :
    (∀ k, (deskAfter cs).desktop.passed k = true ↔ osView.Severed cs k)
      ∧ ∀ code, (deskAfter cs).client code = true
          ↔ ∃ k, controlCode k = some code ∧ clientView.Severed cs k := by
  constructor
  · intro k
    exact osView.held_iff_severed (hreleased k)
  · intro code
    have hview : ∀ k, controlCode k = some code →
        ((deskAfter cs).client code = true ↔ clientView.Severed cs k) := by
      intro k hk
      have hheld : clientView.held (clientView.after cs) k = (deskAfter cs).client code := by
        show ((controlCode k).map (deskAfter cs).client).getD false = _
        rw [hk]
        rfl
      rw [← hheld]
      exact clientView.held_iff_severed (hreleased k)
    constructor
    · intro hcode
      obtain ⟨k, hk⟩ := controlCode_of_client cs code hcode
      exact ⟨k, hk, (hview k hk).mp hcode⟩
    · intro hsev
      obtain ⟨k, hk, hsev⟩ := hsev
      exact (hview k hk).mpr hsev

/-- The hotkey on and off again, everything released. -/
def chordTwice : List Change := chordOnce ++ chordOnce

theorem released_chordTwice (k : Control) : heldAfter chordTwice k = false := by
  simp only [heldAfter, lastDown, chordTwice, chordOnce, keyChange, List.cons_append,
    List.nil_append, List.foldl_cons, List.foldl_nil]
  split_ifs <;> rfl

theorem stuck_iff_severed_ctrl :
    ∃ k, controlCode k = some 29 ∧ clientView.Severed chordTwice k :=
  ((stuck_iff_severed chordTwice released_chordTwice).2 29).mp (by decide +kernel)

/-- After the hotkey on and off, the client still holds Ctrl, Alt and Shift. -/
theorem modifiers_stuck_at_client :
    ¬ ∀ cs, Physical cs → (∀ c ∈ cs, (controlCode c.control).isSome) →
      (∀ k, heldAfter cs k = false) → (deskAfter cs).desktop.hook.grabbed = false →
      (∀ k, (deskAfter cs).desktop.passed k = false)
        ∧ ∀ code, (deskAfter cs).client code = false := by
  intro h
  have hfree := h chordTwice (by decide) (by decide +kernel) released_chordTwice
    (by decide +kernel)
  have hctrl : (deskAfter chordTwice).client 29 = true := by decide +kernel
  rw [hfree.2 29] at hctrl
  cases hctrl

end Dshare.Session
