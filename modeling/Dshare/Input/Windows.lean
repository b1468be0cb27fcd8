/-
  Dshare.Input.Windows
  ────────────────────
  **THE LOW-LEVEL HOOKS** of the Windows capture backend.

  Both callbacks run on the hook thread, one at a time.  What they share is the
  `HookThread`: the channel to the session, the grab flag and the last mouse
  position.  A callback answers `LRESULT(1)`, which swallows the event, or what
  `CallNextHookEx` answers, which passes it on.

  §4 says once what a callback does to each part of that state; nothing later
  unfolds a callback.  §5 runs callbacks one after the other.

  `hook_thread_main` fills `SENDER` and `GRABBED` before it installs the hooks, so
  the callbacks never see them empty.
-/
import Dshare.Lib.BoundedFifo
import Dshare.Protocol.Message
import Dshare.Protocol.Keycode

namespace Dshare.Input

open BoundedFifo Dshare.Protocol

/-! ## §1. What Windows hands to a hook. -/

def HC_ACTION : Int32 := 0

def WM_KEYDOWN : UInt32 := 0x0100
def WM_KEYUP : UInt32 := 0x0101
def WM_SYSKEYDOWN : UInt32 := 0x0104
def WM_SYSKEYUP : UInt32 := 0x0105
def WM_MOUSEMOVE : UInt32 := 0x0200
def WM_LBUTTONDOWN : UInt32 := 0x0201
def WM_LBUTTONUP : UInt32 := 0x0202
def WM_RBUTTONDOWN : UInt32 := 0x0204
def WM_RBUTTONUP : UInt32 := 0x0205
def WM_MBUTTONDOWN : UInt32 := 0x0207
def WM_MBUTTONUP : UInt32 := 0x0208
def WM_MOUSEWHEEL : UInt32 := 0x020A

def VK_SHIFT : UInt32 := 0x10
def VK_CONTROL : UInt32 := 0x11
def VK_MENU : UInt32 := 0x12
def VK_LWIN : UInt32 := 0x5B
def VK_RWIN : UInt32 := 0x5C

structure MSLLHOOKSTRUCT where
  pt : Int32 × Int32
  mouseData : UInt32

structure KBDLLHOOKSTRUCT where
  vkCode : UInt32

/-- The answer of a hook callback. -/
inductive LRESULT where
  /-- `LRESULT(1)`: swallow the event. -/
  | one
  | callNextHookEx
  deriving DecidableEq

/-- `GetAsyncKeyState`, as the sixteen bits of its result. -/
abbrev GetAsyncKeyState := UInt32 → UInt16

/-! ## §2. The hook thread. -/

/-- Slots of the channel between the hooks and the session. -/
def CHANNEL_SLOTS : Nat := 256

/-- The thread-local cells `SENDER`, `GRABBED` and `LAST_MOUSE_POS`. -/
structure HookThread where
  sender : Fifo Message CHANNEL_SLOTS
  grabbed : Bool
  lastMousePos : Option (Int32 × Int32)

/-- After `WinCapture::new` and the start of `hook_thread_main`. -/
def HookThread.new : HookThread := ⟨Fifo.empty, false, none⟩

/-- `try_send` of a message, if there is one, ignoring a full channel. -/
def HookThread.trySend (s : HookThread) : Option Message → HookThread
  | some msg => { s with sender := s.sender.offer msg }
  | none => s

/-- Swallow while the grab flag is on, pass on otherwise. -/
def HookThread.verdict (s : HookThread) : LRESULT :=
  if s.grabbed then .one else .callNextHookEx

/-! ## §3. The callbacks. -/

/-- The message of a mouse event, and the new `LAST_MOUSE_POS`. -/
def mouseMsg (wparam : UInt32) (info : MSLLHOOKSTRUCT) (last : Option (Int32 × Int32)) :
    Option Message × Option (Int32 × Int32) :=
  if wparam = WM_MOUSEMOVE then
    (last.map fun l => .mouseMove (info.pt.1 - l.1) (info.pt.2 - l.2), some info.pt)
  else if wparam = WM_LBUTTONDOWN then (some (.mouseButton .left true), last)
  else if wparam = WM_LBUTTONUP then (some (.mouseButton .left false), last)
  else if wparam = WM_RBUTTONDOWN then (some (.mouseButton .right true), last)
  else if wparam = WM_RBUTTONUP then (some (.mouseButton .right false), last)
  else if wparam = WM_MBUTTONDOWN then (some (.mouseButton .middle true), last)
  else if wparam = WM_MBUTTONUP then (some (.mouseButton .middle false), last)
  else if wparam = WM_MOUSEWHEEL then
    -- the high word, as a signed number of 1/120 notches; `/` truncates
    let delta := (info.mouseData >>> 16).toUInt16.toInt16
    (some (.mouseWheel 0 (delta / 120).toInt32), last)
  else (none, last)

/-- `mouse_hook_proc`. -/
def mouseHookProc (code : Int32) (wparam : UInt32) (info : MSLLHOOKSTRUCT) (s : HookThread) :
    LRESULT × HookThread :=
  if code ≠ HC_ACTION then (.callNextHookEx, s)
  else
    let (msg, last) := mouseMsg wparam info s.lastMousePos
    let s := { s with lastMousePos := last }.trySend msg
    (s.verdict, s)

/-- VK_G, used by the toggle hotkey Ctrl+Alt+Shift+G. -/
def HOTKEY_VK : UInt32 := 0x47

/-- `read_current_modifiers`: the top bit of each reading. -/
def readCurrentModifiers (getAsyncKeyState : GetAsyncKeyState) : KeyModifiers :=
  let down vk := getAsyncKeyState vk &&& 0x8000 != 0
  { shift := down VK_SHIFT
    ctrl := down VK_CONTROL
    alt := down VK_MENU
    metaKey := down VK_LWIN || down VK_RWIN }

def isPress (wparam : UInt32) : Bool := wparam == WM_KEYDOWN || wparam == WM_SYSKEYDOWN

def isRelease (wparam : UInt32) : Bool := wparam == WM_KEYUP || wparam == WM_SYSKEYUP

/-- The test in front of the toggle: a press of G with the three modifiers reported down. -/
def isHotkey (getAsyncKeyState : GetAsyncKeyState) (wparam : UInt32) (info : KBDLLHOOKSTRUCT) :
    Bool :=
  let m := readCurrentModifiers getAsyncKeyState
  isPress wparam && info.vkCode == HOTKEY_VK && (m.ctrl && m.alt && m.shift)

/-- The message of a keyboard event; an unmapped key has none. -/
def kbdMsg (getAsyncKeyState : GetAsyncKeyState) (wparam : UInt32) (info : KBDLLHOOKSTRUCT) :
    Option Message :=
  if isPress wparam || isRelease wparam then
    (vkToEvdev info.vkCode).map fun evdev =>
      .keyEvent evdev.toUInt32 (isPress wparam) (readCurrentModifiers getAsyncKeyState)
  else none

/-- `kbd_hook_proc`. -/
def kbdHookProc (getAsyncKeyState : GetAsyncKeyState) (code : Int32) (wparam : UInt32)
    (info : KBDLLHOOKSTRUCT) (s : HookThread) : LRESULT × HookThread :=
  if code ≠ HC_ACTION then (.callNextHookEx, s)
  else if isHotkey getAsyncKeyState wparam info then
    (.one, { s with grabbed := !s.grabbed })
  else
    let s := s.trySend (kbdMsg getAsyncKeyState wparam info)
    (s.verdict, s)

/-! ## §4. What a callback does. -/

/-- One invocation of one of the two hooks, with everything Windows supplies. -/
inductive HookCall where
  | mouse (code : Int32) (wparam : UInt32) (info : MSLLHOOKSTRUCT)
  | kbd (getAsyncKeyState : GetAsyncKeyState) (code : Int32) (wparam : UInt32)
      (info : KBDLLHOOKSTRUCT)

/-- Run a callback. -/
def HookThread.call (s : HookThread) : HookCall → LRESULT × HookThread
  | .mouse code wparam info => mouseHookProc code wparam info s
  | .kbd getAsyncKeyState code wparam info => kbdHookProc getAsyncKeyState code wparam info s

/-- The call takes the hotkey branch. -/
def HookCall.hotkey : HookCall → Bool
  | .mouse _ _ _ => false
  | .kbd getAsyncKeyState code wparam info =>
      code == HC_ACTION && isHotkey getAsyncKeyState wparam info

/-- The message the call builds. -/
def HookThread.builds (s : HookThread) : HookCall → Option Message
  | .mouse code wparam info =>
      if code = HC_ACTION then (mouseMsg wparam info s.lastMousePos).1 else none
  | .kbd getAsyncKeyState code wparam info =>
      if code = HC_ACTION && !isHotkey getAsyncKeyState wparam info then
        kbdMsg getAsyncKeyState wparam info
      else none

@[simp] theorem HookThread.trySend_grabbed (s : HookThread) (msg : Option Message) :
    (s.trySend msg).grabbed = s.grabbed := by
  cases msg <;> rfl

@[simp] theorem HookThread.trySend_lastMousePos (s : HookThread) (msg : Option Message) :
    (s.trySend msg).lastMousePos = s.lastMousePos := by
  cases msg <;> rfl

/-- **The grab flag changes in the hotkey branch and nowhere else.** -/
theorem HookThread.call_grabbed (s : HookThread) (c : HookCall) :
    (s.call c).2.grabbed = (s.grabbed ^^ c.hotkey) := by
  cases c with
  | mouse code wparam info =>
      show (mouseHookProc code wparam info s).2.grabbed = (s.grabbed ^^ false)
      unfold mouseHookProc
      by_cases hc : code = HC_ACTION <;> simp [hc]
  | kbd get code wparam info =>
      show (kbdHookProc get code wparam info s).2.grabbed = _
      unfold kbdHookProc HookCall.hotkey
      by_cases hc : code = HC_ACTION
      · cases hk : isHotkey get wparam info <;> simp [hc, hk]
      · have hcb : (code == HC_ACTION) = false := beq_false_of_ne hc
        simp [hc, hcb]

/-- The channel is offered the message the callback built, if it built one. -/
theorem HookThread.call_sender (s : HookThread) (c : HookCall) :
    (s.call c).2.sender = (s.trySend (s.builds c)).sender := by
  cases c with
  | mouse code wparam info =>
      show (mouseHookProc code wparam info s).2.sender = _
      unfold mouseHookProc HookThread.builds
      by_cases hc : code = HC_ACTION
      · simp only [hc, ne_eq, not_true_eq_false, if_false, if_true]
        cases (mouseMsg wparam info s.lastMousePos).1 <;> rfl
      · simp [hc, HookThread.trySend]
  | kbd get code wparam info =>
      show (kbdHookProc get code wparam info s).2.sender = _
      unfold kbdHookProc HookThread.builds
      by_cases hc : code = HC_ACTION
      · cases hk : isHotkey get wparam info <;> simp [hc, hk, HookThread.trySend]
      · simp [hc, HookThread.trySend]

/-- **A captured event is swallowed exactly while the flag is on.** -/
theorem HookThread.call_verdict_of_builds {s : HookThread} {c : HookCall} {msg : Message}
    (h : s.builds c = some msg) : (s.call c).1 = s.verdict := by
  cases c with
  | mouse code wparam info =>
      unfold HookThread.builds at h
      by_cases hc : code = HC_ACTION
      · show (mouseHookProc code wparam info s).1 = _
        simp [mouseHookProc, hc, HookThread.verdict]
      · simp [hc] at h
  | kbd get code wparam info =>
      unfold HookThread.builds at h
      by_cases hc : code = HC_ACTION
      · cases hk : isHotkey get wparam info
        · show (kbdHookProc get code wparam info s).1 = _
          simp [kbdHookProc, hc, hk, HookThread.verdict]
        · simp [hk] at h
      · simp [hc] at h

theorem HookThread.builds_of_hotkey {s : HookThread} {c : HookCall} (h : c.hotkey = true) :
    s.builds c = none ∧ (s.call c).1 = .one := by
  cases c with
  | mouse code wparam info => cases h
  | kbd get code wparam info =>
      simp only [HookCall.hotkey, Bool.and_eq_true, beq_iff_eq] at h
      obtain ⟨hc, hk⟩ := h
      constructor
      · simp [HookThread.builds, hk]
      · show (kbdHookProc get code wparam info s).1 = _
        simp [kbdHookProc, hc, hk]

/-- Outside the hotkey branch, the flag decides about every `HC_ACTION` event,
whether a message was built for it or not. -/
theorem kbdHookProc_verdict {get : GetAsyncKeyState} {wparam : UInt32} {info : KBDLLHOOKSTRUCT}
    (s : HookThread) (h : isHotkey get wparam info = false) :
    (kbdHookProc get HC_ACTION wparam info s).1 = s.verdict := by
  simp [kbdHookProc, h, HookThread.verdict]

theorem mouseHookProc_verdict (wparam : UInt32) (info : MSLLHOOKSTRUCT) (s : HookThread) :
    (mouseHookProc HC_ACTION wparam info s).1 = s.verdict := by
  simp [mouseHookProc, HookThread.verdict]

/-! ## §5. Calls one after the other. -/

/-- The hook thread after a list of calls. -/
def HookThread.after (s : HookThread) (cs : List HookCall) : HookThread :=
  cs.foldl (fun s c => (s.call c).2) s

/-- The messages built over a list of calls. -/
def HookThread.emitted (s : HookThread) : List HookCall → List Message
  | [] => []
  | c :: cs => (s.builds c).toList ++ (s.call c).2.emitted cs

theorem HookThread.after_snoc (s : HookThread) (cs : List HookCall) (c : HookCall) :
    s.after (cs ++ [c]) = ((s.after cs).call c).2 := by
  simp [after]

/-- Calls whose messages do not depend on the thread emit them one by one. -/
theorem HookThread.emitted_map {ι : Type} {call : ι → HookCall} {msg : ι → Option Message}
    (xs : List ι) :
    ∀ s : HookThread, (∀ x ∈ xs, ∀ s : HookThread, s.builds (call x) = msg x) →
      s.emitted (xs.map call) = xs.filterMap msg := by
  induction xs with
  | nil => intro s _; rfl
  | cons x xs ih =>
      intro s h
      rw [List.map_cons, emitted, h x List.mem_cons_self,
        ih _ fun y hy => h y (List.mem_cons_of_mem x hy), List.filterMap_cons]
      cases msg x <;> rfl

end Dshare.Input
