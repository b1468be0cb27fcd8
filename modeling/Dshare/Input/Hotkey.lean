/-
  Dshare.Input.Hotkey
  ───────────────────
  **THE HOTKEY AND THE KEYS IT READS.**

  Windows, its keyboard and mouse, and the two hooks in front of them.  A change
  of a key that the hook passes on updates what `GetAsyncKeyState` reports; a
  swallowed one does not.  So the hook's own answers feed back into what
  `read_current_modifiers` sees at the next event.

    • `localView` — the local OS as a view whose gate is open while the grab flag
      is off;
    • `chordDown_of_grabbed` — while the flag is on, the three modifiers are
      reported down, whatever the hands do;
    • `Hands` — what the flag and the local OS ought to be, from the hands alone;
    • `Follows.step` — the desktop follows the hands as long as the hook turns the
      flag at the chord presses;
    • `followsChord_iff` — when it does so throughout, in terms of the hands.
-/
import Dshare.Lib.GatedView
import Dshare.Input.Windows

namespace Dshare.Input

open Dshare.Protocol GatedView

/-! ## §1. Keys, buttons and their changes. -/

/-- What a finger can hold down: a key, by its virtual-key code, or a button. -/
inductive Control where
  | key (vk : UInt32)
  | leftButton
  | rightButton
  | middleButton
  deriving DecidableEq

/-- One physical press or release. -/
structure Change where
  control : Control
  pressed : Bool
  /-- Reported as `WM_SYSKEYDOWN` or `WM_SYSKEYUP`. -/
  sys : Bool
  /-- What comes with it, for a button. -/
  info : MSLLHOOKSTRUCT

/-- A press or a release that a hand can make: no press of what is down already,
no release of what is up. -/
def Physical (cs : List Change) : Prop :=
  ∀ i (h : i < cs.length),
    lastDown Change.control Change.pressed (cs.take i) cs[i].control = !cs[i].pressed

instance (cs : List Change) : Decidable (Physical cs) :=
  Nat.decidableBallLT cs.length _

def VK_LSHIFT : UInt32 := 0xA0
def VK_RSHIFT : UInt32 := 0xA1
def VK_LCONTROL : UInt32 := 0xA2
def VK_RCONTROL : UInt32 := 0xA3
def VK_LMENU : UInt32 := 0xA4
def VK_RMENU : UInt32 := 0xA5

/-- Shift is down when either of its keys is; the unspecific code counts too. -/
def shiftDown (down : Control → Bool) : Bool :=
  down (.key VK_SHIFT) || down (.key VK_LSHIFT) || down (.key VK_RSHIFT)

def ctrlDown (down : Control → Bool) : Bool :=
  down (.key VK_CONTROL) || down (.key VK_LCONTROL) || down (.key VK_RCONTROL)

def altDown (down : Control → Bool) : Bool :=
  down (.key VK_MENU) || down (.key VK_LMENU) || down (.key VK_RMENU)

/-- Ctrl, Alt and Shift are all down. -/
def chordDown (down : Control → Bool) : Bool := ctrlDown down && altDown down && shiftDown down

/-! ## §2. The desktop. -/

/-- The hook thread, and the last change of each control it passed on. -/
structure Desktop where
  hook : HookThread
  passed : Control → Bool

def Desktop.new : Desktop := ⟨HookThread.new, fun _ => false⟩

/-- `GetAsyncKeyState`, from the changes that were passed on. -/
def Desktop.getAsyncKeyState (d : Desktop) : GetAsyncKeyState := fun vk =>
  let down :=
    if vk = VK_SHIFT then shiftDown d.passed
    else if vk = VK_CONTROL then ctrlDown d.passed
    else if vk = VK_MENU then altDown d.passed
    else d.passed (.key vk)
  if down then 0x8000 else 0

def keyWparam (pressed sys : Bool) : UInt32 :=
  if pressed then if sys then WM_SYSKEYDOWN else WM_KEYDOWN
  else if sys then WM_SYSKEYUP else WM_KEYUP

/-- The hook call Windows makes for a change. -/
def Change.hookCall (getAsyncKeyState : GetAsyncKeyState) (c : Change) : HookCall :=
  match c.control with
  | .key vk => .kbd getAsyncKeyState HC_ACTION (keyWparam c.pressed c.sys) ⟨vk⟩
  | .leftButton => .mouse HC_ACTION (if c.pressed then WM_LBUTTONDOWN else WM_LBUTTONUP) c.info
  | .rightButton => .mouse HC_ACTION (if c.pressed then WM_RBUTTONDOWN else WM_RBUTTONUP) c.info
  | .middleButton => .mouse HC_ACTION (if c.pressed then WM_MBUTTONDOWN else WM_MBUTTONUP) c.info

/-- One change, as the hook and then Windows see it. -/
def Desktop.step (d : Desktop) (c : Change) : Desktop :=
  let (answer, hook) := d.hook.call (c.hookCall d.getAsyncKeyState)
  { hook := hook
    passed := fun k =>
      if c.control = k ∧ answer = .callNextHookEx then c.pressed else d.passed k }

/-! ## §3. What a change does. -/

/-- The change takes the hotkey branch. -/
def Desktop.toggles (d : Desktop) (c : Change) : Bool :=
  c.control == .key HOTKEY_VK && c.pressed && chordDown d.passed

theorem isPress_keyWparam (pressed sys : Bool) : isPress (keyWparam pressed sys) = pressed := by
  cases pressed <;> cases sys <;> rfl

theorem isRelease_keyWparam (pressed sys : Bool) :
    isRelease (keyWparam pressed sys) = !pressed := by
  cases pressed <;> cases sys <;> rfl

/-- The top bit of what `GetAsyncKeyState` returns says what it found. -/
theorem topBit (b : Bool) : ((if b then 0x8000 else 0 : UInt16) &&& 0x8000 != 0) = b := by
  cases b <;> decide

theorem isHotkey_getAsyncKeyState (d : Desktop) (pressed sys : Bool) (vk : UInt32) :
    isHotkey d.getAsyncKeyState (keyWparam pressed sys) ⟨vk⟩
      = (pressed && vk == HOTKEY_VK && chordDown d.passed) := by
  have hshift : (readCurrentModifiers d.getAsyncKeyState).shift = shiftDown d.passed :=
    topBit (shiftDown d.passed)
  have hctrl : (readCurrentModifiers d.getAsyncKeyState).ctrl = ctrlDown d.passed :=
    topBit (ctrlDown d.passed)
  have halt : (readCurrentModifiers d.getAsyncKeyState).alt = altDown d.passed :=
    topBit (altDown d.passed)
  simp only [isHotkey, isPress_keyWparam, hshift, hctrl, halt, chordDown]

theorem hotkey_hookCall (d : Desktop) (c : Change) :
    (c.hookCall d.getAsyncKeyState).hotkey = d.toggles c := by
  obtain ⟨control, pressed, sys, info⟩ := c
  cases control with
  | key vk =>
      show (HC_ACTION == HC_ACTION && isHotkey d.getAsyncKeyState (keyWparam pressed sys) ⟨vk⟩)
        = (Control.key vk == .key HOTKEY_VK && pressed && chordDown d.passed)
      have hvk : (Control.key vk == .key HOTKEY_VK) = (vk == HOTKEY_VK) := by
        by_cases h : vk = HOTKEY_VK
        · rw [h, beq_self_eq_true, beq_self_eq_true]
        · have hne : Control.key vk ≠ .key HOTKEY_VK := fun he => h (Control.key.inj he)
          rw [beq_false_of_ne h, beq_false_of_ne hne]
      rw [isHotkey_getAsyncKeyState, hvk, beq_self_eq_true, Bool.true_and, Bool.and_comm pressed]
  | leftButton => rfl
  | rightButton => rfl
  | middleButton => rfl

/-- **The flag turns on a press of G with the chord reported down.** -/
theorem Desktop.step_grabbed (d : Desktop) (c : Change) :
    (d.step c).hook.grabbed = (d.hook.grabbed ^^ d.toggles c) := by
  show (d.hook.call (c.hookCall d.getAsyncKeyState)).2.grabbed = _
  rw [HookThread.call_grabbed, hotkey_hookCall]

/-- A change is passed on while the flag is off, unless it turns the flag. -/
theorem Desktop.call_answer (d : Desktop) (c : Change) :
    (d.hook.call (c.hookCall d.getAsyncKeyState)).1 = .callNextHookEx
      ↔ d.hook.grabbed = false ∧ d.toggles c = false := by
  have hverdict : d.hook.verdict = .callNextHookEx ↔ d.hook.grabbed = false := by
    unfold HookThread.verdict
    cases d.hook.grabbed <;> simp
  cases htog : d.toggles c with
  | true =>
      have hone := (HookThread.builds_of_hotkey (s := d.hook) ((hotkey_hookCall d c).trans htog)).2
      simp [hone]
  | false =>
      have hanswer : (d.hook.call (c.hookCall d.getAsyncKeyState)).1 = d.hook.verdict := by
        rw [← hotkey_hookCall] at htog
        obtain ⟨control, pressed, sys, info⟩ := c
        cases control with
        | key vk =>
            have hk : isHotkey d.getAsyncKeyState (keyWparam pressed sys) ⟨vk⟩ = false := htog
            exact kbdHookProc_verdict d.hook hk
        | leftButton => exact mouseHookProc_verdict _ info d.hook
        | rightButton => exact mouseHookProc_verdict _ info d.hook
        | middleButton => exact mouseHookProc_verdict _ info d.hook
      rw [hanswer, hverdict]
      simp

/-- **The local OS as a view** whose gate is open while the grab flag is off. -/
def localView : View Desktop Change Control where
  init := .new
  step := .step
  key := Change.control
  down := Change.pressed
  gate d := !d.hook.grabbed
  visible _ := true
  held := Desktop.passed
  held_init _ := rfl
  held_step := by
    intro d c k
    have hgates : (!d.hook.grabbed && !(d.step c).hook.grabbed && true) = true
        ↔ (d.hook.call (c.hookCall d.getAsyncKeyState)).1 = .callNextHookEx := by
      rw [Desktop.call_answer, Desktop.step_grabbed]
      cases d.hook.grabbed <;> cases d.toggles c <;> simp
    show (if c.control = k ∧ (d.hook.call (c.hookCall d.getAsyncKeyState)).1 = .callNextHookEx
      then c.pressed else d.passed k) = _
    simp only [hgates]

/-! ## §4. A list of changes. -/

/-- The desktop after a list of changes. -/
def desktopAfter (cs : List Change) : Desktop := localView.after cs

/-- What is physically held after a list of changes. -/
def heldAfter (cs : List Change) : Control → Bool := lastDown Change.control Change.pressed cs

theorem desktopAfter_snoc (cs : List Change) (c : Change) :
    desktopAfter (cs ++ [c]) = (desktopAfter cs).step c := localView.after_snoc cs c

/-- **While the flag is on, the hook reads the chord as held**: it was reported down
when the flag turned on, and since then nothing is passed on. -/
theorem chordDown_of_grabbed (cs : List Change) :
    (desktopAfter cs).hook.grabbed = true → chordDown (desktopAfter cs).passed = true := by
  induction cs using List.reverseRecOn with
  | nil => intro h; cases h
  | append_singleton cs c ih =>
      rw [desktopAfter_snoc]
      intro hgrab
      have hpassed : ((desktopAfter cs).step c).passed = (desktopAfter cs).passed := by
        funext k
        have hstep := localView.held_step (desktopAfter cs) c k
        rw [if_neg] at hstep
        · exact hstep
        · -- the gate is closed after the change
          show ¬ (c.control = k ∧ (_ && !((desktopAfter cs).step c).hook.grabbed && true) = true)
          simp [hgrab]
      rw [hpassed]
      rw [Desktop.step_grabbed] at hgrab
      cases hold : (desktopAfter cs).hook.grabbed with
      | true => exact ih hold
      | false =>
          rw [hold, Bool.false_xor] at hgrab
          unfold Desktop.toggles at hgrab
          simp only [Bool.and_eq_true] at hgrab
          exact hgrab.2

/-! ## §5. What the hands ask for. -/

/-- A press of G with Ctrl, Alt and Shift held. -/
def chordPress (down : Control → Bool) (c : Change) : Bool :=
  c.control == .key HOTKEY_VK && c.pressed && chordDown down

/-- What can be said of a list of changes without the hook: what the hands hold, how
often they pressed the chord, and what the local OS is to know if the input belongs
to the peer after every odd number of chord presses. -/
structure Hands where
  held : Control → Bool
  presses : Nat
  /-- The last change of each control made while the input was local. -/
  shown : Control → Bool

def Hands.remote (s : Hands) : Bool := s.presses % 2 == 1

def Hands.step (s : Hands) (c : Change) : Hands :=
  let chord := chordPress s.held c
  { held := fun k => if c.control = k then c.pressed else s.held k
    presses := s.presses + chord.toNat
    shown := fun k =>
      if c.control = k ∧ (s.remote || chord) = false then c.pressed else s.shown k }

def handsAfter (cs : List Change) : Hands :=
  cs.foldl Hands.step ⟨fun _ => false, 0, fun _ => false⟩

/-- The number of physical chord presses in a list of changes. -/
def chordPresses (cs : List Change) : Nat := (handsAfter cs).presses

theorem handsAfter_snoc (cs : List Change) (c : Change) :
    handsAfter (cs ++ [c]) = (handsAfter cs).step c := by
  simp [handsAfter]

theorem handsAfter_held (cs : List Change) : (handsAfter cs).held = heldAfter cs := by
  induction cs using List.reverseRecOn with
  | nil => rfl
  | append_singleton cs c ih =>
      funext k
      rw [handsAfter_snoc, heldAfter, lastDown_snoc]
      show (if c.control = k then c.pressed else (handsAfter cs).held k) = _
      rw [ih]
      rfl

theorem Hands.step_remote (s : Hands) (c : Change) :
    (s.step c).remote = (s.remote ^^ chordPress s.held c) := by
  show ((s.presses + (chordPress s.held c).toNat) % 2 == 1) = (s.presses % 2 == 1 ^^ _)
  cases chordPress s.held c with
  | false => simp
  | true =>
      rw [Bool.xor_true, Bool.eq_iff_iff, Bool.not_eq_true', beq_iff_eq, beq_eq_false_iff_ne]
      show (s.presses + 1) % 2 = 1 ↔ s.presses % 2 ≠ 1
      omega

/-! ## §6. When the flag does as the hands ask. -/

/-- The flag turns at the physical chord presses and nowhere else, and so it is on
after an odd number of them. -/
def FollowsChord (cs : List Change) : Prop :=
  (∀ pre c post, cs = pre ++ c :: post →
      ((desktopAfter (pre ++ [c])).hook.grabbed ≠ (desktopAfter pre).hook.grabbed
        ↔ chordPress (heldAfter pre) c = true))
    ∧ ∀ pre, pre <+: cs → ((desktopAfter pre).hook.grabbed = true ↔ chordPresses pre % 2 = 1)

/-- What has to hold when G is pressed.  While the input is the peer's: the chord is
physically held.  While it is local: the last changes made locally show the chord
exactly if it is physically held. -/
def HotkeyHeld (s : Hands) : Prop :=
  if s.remote then chordDown s.held = true else chordDown s.shown = chordDown s.held

/-- The desktop is as the hands want it. -/
def Follows (d : Desktop) (s : Hands) : Prop := d.hook.grabbed = s.remote ∧ d.passed = s.shown

/-- As long as the flag turns at the chord presses, the desktop is as the hands want it. -/
theorem Follows.step {d : Desktop} {s : Hands} (h : Follows d s) {c : Change}
    (hturn : d.toggles c = chordPress s.held c) : Follows (d.step c) (s.step c) := by
  obtain ⟨hflag, hpassed⟩ := h
  constructor
  · rw [Desktop.step_grabbed, Hands.step_remote, hflag, hturn]
  · funext k
    have hanswer : (d.hook.call (c.hookCall d.getAsyncKeyState)).1 = .callNextHookEx
        ↔ (s.remote || chordPress s.held c) = false := by
      rw [Desktop.call_answer, hflag, hturn, Bool.or_eq_false_iff]
    show (if c.control = k ∧ (d.hook.call (c.hookCall d.getAsyncKeyState)).1 = .callNextHookEx
      then c.pressed else d.passed k) = if _ then _ else s.shown k
    rw [hpassed]
    simp only [hanswer]

/-- One change: the flag turns exactly on a physical chord press if and only if, at a
press of G, the chord is held as it should be. -/
theorem toggles_iff_hotkeyHeld (pre : List Change) (c : Change)
    (h : Follows (desktopAfter pre) (handsAfter pre)) :
    (desktopAfter pre).toggles c = chordPress (handsAfter pre).held c
      ↔ (c.control = .key HOTKEY_VK → c.pressed = true → HotkeyHeld (handsAfter pre)) := by
  have hchord := chordDown_of_grabbed pre
  rw [h.1, h.2] at hchord
  unfold Desktop.toggles chordPress HotkeyHeld
  rw [h.2]
  by_cases hg : c.control = .key HOTKEY_VK
  · cases hp : c.pressed with
    | false => simp
    | true =>
        cases hremote : (handsAfter pre).remote with
        | true =>
            -- the flag is on, so the chord is reported down
            have hshown : chordDown (handsAfter pre).shown = true := hchord hremote
            simp [hg, hshown]
        | false => simp [hg]
  · have hne : (c.control == .key HOTKEY_VK) = false := beq_false_of_ne hg
    simp [hne, hg]

theorem turns_iff_toggles (pre : List Change) (c : Change) :
    ((desktopAfter (pre ++ [c])).hook.grabbed ≠ (desktopAfter pre).hook.grabbed
        ↔ chordPress (heldAfter pre) c = true)
      ↔ (desktopAfter pre).toggles c = chordPress (handsAfter pre).held c := by
  rw [desktopAfter_snoc, Desktop.step_grabbed, handsAfter_held, Bool.eq_iff_iff]
  cases (desktopAfter pre).hook.grabbed <;> cases (desktopAfter pre).toggles c <;> simp

/-- If the flag has turned at the chord presses of a list, the desktop follows the hands. -/
theorem follows_of_toggles (cs : List Change)
    (h : ∀ pre c post, cs = pre ++ c :: post →
      Follows (desktopAfter pre) (handsAfter pre) →
        (desktopAfter pre).toggles c = chordPress (handsAfter pre).held c) :
    Follows (desktopAfter cs) (handsAfter cs) := by
  induction cs using List.reverseRecOn with
  | nil => exact ⟨rfl, rfl⟩
  | append_singleton cs c ih =>
      have hfollows : Follows (desktopAfter cs) (handsAfter cs) := by
        apply ih
        intro pre b post hcs
        exact h pre b (post ++ [c]) (by simp [hcs])
      rw [desktopAfter_snoc, handsAfter_snoc]
      exact hfollows.step (h cs c [] rfl hfollows)

/-- **WHEN THE FLAG FOLLOWS THE PHYSICAL CHORD**, for every sequence of changes. -/
theorem followsChord_iff (cs : List Change) :
    FollowsChord cs ↔ ∀ pre c post, cs = pre ++ c :: post →
      c.control = .key HOTKEY_VK → c.pressed = true → HotkeyHeld (handsAfter pre) := by
  constructor
  · intro h pre c post hcs
    have hfollows : Follows (desktopAfter pre) (handsAfter pre) := by
      apply follows_of_toggles
      intro pre' b post' hpre _
      exact (turns_iff_toggles pre' b).mp (h.1 pre' b (post' ++ c :: post) (by simp [hcs, hpre]))
    exact (toggles_iff_hotkeyHeld pre c hfollows).mp
      ((turns_iff_toggles pre c).mp (h.1 pre c post hcs))
  · intro h
    -- every prefix of the list leaves the desktop as the hands want it
    have hfollows : ∀ pre post, cs = pre ++ post → Follows (desktopAfter pre) (handsAfter pre) := by
      intro pre post hcs
      apply follows_of_toggles
      intro pre' b post' hpre hbefore
      refine (toggles_iff_hotkeyHeld pre' b hbefore).mpr (h pre' b (post' ++ post) ?_)
      rw [hcs, hpre, List.append_assoc]
      rfl
    constructor
    · intro pre c post hcs
      apply (turns_iff_toggles pre c).mpr
      exact (toggles_iff_hotkeyHeld pre c (hfollows pre _ hcs)).mpr (h pre c post hcs)
    · intro pre hpre
      obtain ⟨post, hpost⟩ := hpre
      rw [(hfollows pre post hpost.symm).1]
      exact beq_iff_eq

/-- A key event, pressed or released. -/
def keyChange (vk : UInt32) (pressed : Bool) : Change := ⟨.key vk, pressed, false, ⟨(0, 0), 0⟩⟩

/-- Ctrl, Alt and Shift down, G down and up, and the three up again. -/
def chordOnce : List Change :=
  [keyChange VK_LCONTROL true, keyChange VK_LMENU true, keyChange VK_LSHIFT true,
    keyChange HOTKEY_VK true, keyChange HOTKEY_VK false,
    keyChange VK_LSHIFT false, keyChange VK_LMENU false, keyChange VK_LCONTROL false]

/-- After one use of the hotkey, G alone turns the flag off. -/
theorem lone_g_turns_the_flag : ¬ ∀ cs, Physical cs → FollowsChord cs := by
  intro h
  have hphys : Physical (chordOnce ++ [keyChange HOTKEY_VK true]) := by decide
  have hturn := (h _ hphys).1 chordOnce (keyChange HOTKEY_VK true) [] rfl
  have hflag : (desktopAfter (chordOnce ++ [keyChange HOTKEY_VK true])).hook.grabbed
      ≠ (desktopAfter chordOnce).hook.grabbed := by decide
  have hchord : chordPress (heldAfter chordOnce) (keyChange HOTKEY_VK true) = false := by decide
  rw [hturn.mp hflag] at hchord
  cases hchord

end Dshare.Input
