/-
  Dshare.Input.WinInject
  ──────────────────────
  **THE WINDOWS INJECTION BACKEND**, and what both backends make of a message's numbers.

  `WinInject::handle` hands a message to `SendInput`.  A key goes by way of a virtual
  key (`evdev_to_vk`, a table again) and its scan code, which `MapVirtualKeyW` supplies.
  The wheel is the one place with arithmetic: `*dy * 120` on `i32`, which panics where
  overflow checks are on and wraps where they are off.

    • `WinInject.handle_exact_iff` — when Windows is given the message's numbers;
    • `linuxEvents_exact` — Linux always is;
    • `injection_exact_iff` — for everything a peer can make the decoder yield.
-/
import Dshare.Lib.CheckedInt
import Dshare.Protocol.Transport
import Dshare.Input.Linux
import Dshare.Input.Pointer

namespace Dshare.Input

open CheckedInt Dshare.Protocol

/-! ## §1. What `SendInput` takes. -/

def MOUSEEVENTF_MOVE : UInt32 := 0x0001
def MOUSEEVENTF_LEFTDOWN : UInt32 := 0x0002
def MOUSEEVENTF_LEFTUP : UInt32 := 0x0004
def MOUSEEVENTF_RIGHTDOWN : UInt32 := 0x0008
def MOUSEEVENTF_RIGHTUP : UInt32 := 0x0010
def MOUSEEVENTF_MIDDLEDOWN : UInt32 := 0x0020
def MOUSEEVENTF_MIDDLEUP : UInt32 := 0x0040
def MOUSEEVENTF_WHEEL : UInt32 := 0x0800

def KEYEVENTF_EXTENDEDKEY : UInt32 := 0x0001
def KEYEVENTF_KEYUP : UInt32 := 0x0002
def KEYEVENTF_SCANCODE : UInt32 := 0x0008

structure MOUSEINPUT where
  dx : Int32
  dy : Int32
  mouseData : UInt32
  dwFlags : UInt32
  time : UInt32
  dwExtraInfo : Nat
  deriving DecidableEq

structure KEYBDINPUT where
  wVk : UInt16
  wScan : UInt16
  dwFlags : UInt32
  time : UInt32
  dwExtraInfo : Nat
  deriving DecidableEq

/-- One call of `SendInput`; for a key, with the evdev code, the virtual key and the
direction it was made for. -/
inductive Injected where
  | mouse (mi : MOUSEINPUT)
  | key (evdevCode vk : UInt16) (pressed : Bool) (ki : KEYBDINPUT)
  deriving DecidableEq

/-- `MapVirtualKeyW(_, MAPVK_VK_TO_VSC)`. -/
abbrev MapVirtualKeyW := UInt32 → UInt32

/-- "attempt to multiply with overflow". -/
inductive InjectPanic where
  | multiplyOverflow
  deriving DecidableEq

/-! ## §2. The tables. -/

/-- The arms of `evdev_to_vk`: evdev code, virtual-key code. -/
def evdevVkArms : List (UInt16 × UInt16) := [
  -- letters
  (30, 0x41), (48, 0x42), (46, 0x43), (32, 0x44), (18, 0x45),
  (33, 0x46), (34, 0x47), (35, 0x48), (23, 0x49), (36, 0x4A),
  (37, 0x4B), (38, 0x4C), (50, 0x4D), (49, 0x4E), (24, 0x4F),
  (25, 0x50), (16, 0x51), (19, 0x52), (31, 0x53), (20, 0x54),
  (22, 0x55), (47, 0x56), (17, 0x57), (45, 0x58), (21, 0x59), (44, 0x5A),
  -- digits
  (11, 0x30), (2, 0x31), (3, 0x32), (4, 0x33), (5, 0x34),
  (6, 0x35), (7, 0x36), (8, 0x37), (9, 0x38), (10, 0x39),
  -- whitespace and control
  (28, 0x0D), (1, 0x1B), (14, 0x08), (15, 0x09), (57, 0x20),
  -- arrows
  (105, 0x25), (103, 0x26), (106, 0x27), (108, 0x28),
  -- modifiers
  (42, 0xA0), (54, 0xA1), (29, 0xA2), (97, 0xA3), (56, 0xA4), (100, 0xA5),
  (125, 0x5B), (126, 0x5C),
  -- function keys
  (59, 0x70), (60, 0x71), (61, 0x72), (62, 0x73), (63, 0x74),
  (64, 0x75), (65, 0x76), (66, 0x77), (67, 0x78), (68, 0x79),
  (87, 0x7A), (88, 0x7B),
  -- editing
  (110, 0x2D), (111, 0x2E), (102, 0x24), (107, 0x23), (104, 0x21), (109, 0x22),
  -- locks
  (58, 0x14), (69, 0x90), (70, 0x91)]

/-- `evdev_to_vk`. -/
def evdevToVk (code : UInt16) : Option UInt16 := evdevVkArms.lookup code

/-- `is_extended_vk`. -/
def isExtendedVk (vk : UInt16) : Bool :=
  [0x21, 0x22, 0x23, 0x24, 0x25, 0x26, 0x27, 0x28, 0x2D, 0x2E,
    0x6F, 0x0D, 0xA3, 0xA5, 0x5B, 0x5C].contains vk

/-! ## §3. `WinInject::handle`. -/

/-- `*dy * 120`, with the overflow checks of a debug build or without. -/
def mulI32 (overflowChecks : Bool) (a b : Int32) : Except InjectPanic Int32 :=
  if overflowChecks then mul .multiplyOverflow a b else .ok (a * b)

/-- `send_mouse`. -/
def WinInject.sendMouse (flags : UInt32) (dx dy data : Int32) : Injected :=
  .mouse { dx := dx, dy := dy, mouseData := data.toUInt32, dwFlags := flags,
           time := 0, dwExtraInfo := 0 }

/-- `send_key`; a code without a virtual key is dropped with a warning. -/
def WinInject.sendKey (mapVirtualKeyW : MapVirtualKeyW) (evdevCode : UInt16) (pressed : Bool) :
    Option Injected :=
  match evdevToVk evdevCode with
  | none => none
  | some vk =>
      let scan := (mapVirtualKeyW vk.toUInt32).toUInt16
      let flags := KEYEVENTF_SCANCODE
      let flags := if !pressed then flags ||| KEYEVENTF_KEYUP else flags
      let flags := if isExtendedVk vk then flags ||| KEYEVENTF_EXTENDEDKEY else flags
      some (.key evdevCode vk pressed
        { wVk := 0, wScan := scan, dwFlags := flags, time := 0, dwExtraInfo := 0 })

/-- The flag of a button event; the side buttons have none. -/
def WinInject.buttonFlags : MouseButton → Bool → Option UInt32
  | .left, true => some MOUSEEVENTF_LEFTDOWN
  | .left, false => some MOUSEEVENTF_LEFTUP
  | .right, true => some MOUSEEVENTF_RIGHTDOWN
  | .right, false => some MOUSEEVENTF_RIGHTUP
  | .middle, true => some MOUSEEVENTF_MIDDLEDOWN
  | .middle, false => some MOUSEEVENTF_MIDDLEUP
  | _, _ => none

/-- `WinInject::handle`: what is sent, if anything. -/
def WinInject.handle (overflowChecks : Bool) (mapVirtualKeyW : MapVirtualKeyW) :
    Message → Except InjectPanic (Option Injected)
  | .mouseMove dx dy => .ok (some (sendMouse MOUSEEVENTF_MOVE dx dy 0))
  | .mouseButton button pressed =>
      match buttonFlags button pressed with
      | some flags => .ok (some (sendMouse flags 0 0 0))
      | none => .ok none
  | .mouseWheel _ dy => do
      let data ← mulI32 overflowChecks dy 120
      .ok (some (sendMouse MOUSEEVENTF_WHEEL 0 0 data))
  | .keyEvent keycode pressed _ =>
      if keycode ≤ 0xFFFF then .ok (sendKey mapVirtualKeyW keycode.toUInt16 pressed) else .ok none
  | _ => .ok none

/-! ## §4. The numbers of a message. -/

/-- The notches a message asks for, to the right and up. -/
def notches : Message → Int × Int
  | .mouseWheel dx dy => (dx.toInt, dy.toInt)
  | _ => 0

variable (mapVirtualKeyW : MapVirtualKeyW)

/-- Windows is given the movement of the message and 120 times its vertical notches, and
its key or none; a movement or a turn of the wheel does not get lost. -/
structure WinExact (msg : Message) (sent : Option Injected) : Prop where
  amounts : ∀ mi, sent = some (.mouse mi) →
    (mi.dx.toInt, mi.dy.toInt) = motion msg ∧ mi.mouseData.toInt32.toInt = 120 * (notches msg).2
  moved : motion msg ≠ 0 ∨ (notches msg).2 ≠ 0 → ∃ mi, sent = some (.mouse mi)
  keys : ∀ code vk pressed ki, sent = some (.key code vk pressed ki) →
    (∃ keycode m, msg = .keyEvent keycode pressed m ∧ code.toNat = keycode.toNat)
      ∧ ki.wScan.toNat = (mapVirtualKeyW vk.toUInt32).toNat

/-- What a message asks for on each axis. -/
def axes (msg : Message) : List (UInt16 × Int) :=
  [(REL_X, (motion msg).1), (REL_Y, (motion msg).2),
    (REL_WHEEL, (notches msg).2), (REL_HWHEEL, (notches msg).1)]

/-- Linux is given what the message asks for on each axis, unless that is nothing, and the
key of the message or none. -/
structure LinuxExact (msg : Message) (events : List InputEvent) : Prop where
  amounts : ∀ e ∈ events, e.eventType = .relative → (e.code, e.value.toInt) ∈ axes msg
  moved : ∀ axis ∈ axes msg, axis.2 ≠ 0 →
    ∃ e ∈ events, e.eventType = .relative ∧ (e.code, e.value.toInt) = axis
  keys : ∀ keycode pressed m, msg = .keyEvent keycode pressed m →
    events = [] ∨ ∃ code, events = keyEvents code pressed ∧ code.toNat = keycode.toNat

/-! ## §5. Windows. -/

/-- **The product is that of the integers exactly when it fits**, with overflow checks
(which panic otherwise) and without (which wrap). -/
theorem mulI32_exact_iff (overflowChecks : Bool) (a b : Int32) :
    (∃ d, mulI32 overflowChecks a b = .ok d ∧ d.toInt = a.toInt * b.toInt)
      ↔ CheckedInt.Fits (a.toInt * b.toInt) := by
  unfold mulI32
  cases overflowChecks with
  | false =>
      constructor
      · intro h
        obtain ⟨d, hd, hprod⟩ := h
        cases hd
        exact toInt_mul_iff.mp hprod
      · intro h
        exact ⟨a * b, rfl, toInt_mul_iff.mpr h⟩
  | true =>
      constructor
      · intro h
        obtain ⟨d, _, hprod⟩ := h
        rw [← hprod]
        exact fits_toInt d
      · intro h
        exact ⟨a * b, if_pos h, toInt_mul_iff.mpr h⟩

/-- The wheel is turned by no more than 120 times what fits. -/
def WheelInRange (msg : Message) : Prop :=
  ∀ dx dy, msg = .mouseWheel dx dy → -17895697 ≤ dy.toInt ∧ dy.toInt ≤ 17895697

theorem fits_wheel_iff (dy : Int32) :
    CheckedInt.Fits (dy.toInt * (120 : Int32).toInt)
      ↔ -17895697 ≤ dy.toInt ∧ dy.toInt ≤ 17895697 := by
  show -2 ^ 31 ≤ dy.toInt * 120 ∧ dy.toInt * 120 < 2 ^ 31 ↔ _
  omega

/-- What `send_key` sends is a key, with the code it was called with and its scan code. -/
theorem sendKey_eq_some {code : UInt16} {pressed : Bool} {i : Injected}
    (h : WinInject.sendKey mapVirtualKeyW code pressed = some i) :
    ∃ vk ki, i = .key code vk pressed ki ∧ evdevToVk code = some vk
      ∧ ki.wScan = (mapVirtualKeyW vk.toUInt32).toUInt16 := by
  unfold WinInject.sendKey at h
  cases hvk : evdevToVk code with
  | none =>
      rw [hvk] at h
      cases h
  | some vk =>
      rw [hvk] at h
      cases h
      exact ⟨vk, _, rfl, rfl, rfl⟩

/-- A code with a virtual key is sent as that key's scan code, with the flag of its direction. -/
theorem sendKey_of_vk {code vk : UInt16} (h : evdevToVk code = some vk) (pressed : Bool) :
    ∃ ki, WinInject.sendKey mapVirtualKeyW code pressed = some (.key code vk pressed ki)
      ∧ ki.wScan = (mapVirtualKeyW vk.toUInt32).toUInt16
      ∧ ki.dwFlags &&& KEYEVENTF_KEYUP = if pressed then 0 else KEYEVENTF_KEYUP := by
  unfold WinInject.sendKey
  rw [h]
  refine ⟨_, rfl, rfl, ?_⟩
  dsimp only
  cases pressed <;> cases isExtendedVk vk <;> decide

/-- A code that came from a `u16` is handed on as that `u16`. -/
theorem WinInject.handle_key (overflowChecks : Bool) (code : UInt16) (pressed : Bool)
    (m : KeyModifiers) :
    WinInject.handle overflowChecks mapVirtualKeyW (.keyEvent code.toUInt32 pressed m)
      = .ok (WinInject.sendKey mapVirtualKeyW code pressed) := by
  have hle : code.toUInt32 ≤ 0xFFFF := by
    have hlt : code.toNat < 65536 := code.toNat_lt
    rw [UInt32.le_iff_toNat_le, UInt16.toNat_toUInt32]
    show code.toNat ≤ 65535
    omega
  show (if code.toUInt32 ≤ 0xFFFF then Except.ok _ else _) = _
  rw [if_pos hle, UInt16.toUInt16_toUInt32]

/-- A mouse input with the amounts of the message. -/
theorem WinExact.mouse {msg : Message} {dx dy data : Int32} {flags : UInt32}
    (hmotion : (dx.toInt, dy.toInt) = motion msg) (hdata : data.toInt = 120 * (notches msg).2) :
    WinExact mapVirtualKeyW msg (some (WinInject.sendMouse flags dx dy data)) where
  amounts := by
    intro mi h
    cases h
    refine ⟨hmotion, ?_⟩
    rw [← hdata, Int32.toInt32_toUInt32]
  moved := fun _ => ⟨_, rfl⟩
  keys := fun _ _ _ _ h => by cases h

/-- Nothing is sent for a message that asks for no amount. -/
theorem WinExact.none {msg : Message} (hmotion : motion msg = 0) (hnotches : notches msg = 0) :
    WinExact mapVirtualKeyW msg none where
  amounts := fun _ h => by cases h
  moved := by
    intro h
    rw [hmotion, hnotches] at h
    rcases h with h | h <;> exact absurd rfl h
  keys := fun _ _ _ _ h => by cases h

/-- A turn of the wheel is exact if its data is. -/
theorem winExact_wheel_iff (dx dy data : Int32) :
    WinExact mapVirtualKeyW (.mouseWheel dx dy)
        (some (WinInject.sendMouse MOUSEEVENTF_WHEEL 0 0 data))
      ↔ data.toInt = dy.toInt * (120 : Int32).toInt := by
  have hcomm : dy.toInt * (120 : Int32).toInt = 120 * dy.toInt := Int.mul_comm _ _
  rw [hcomm]
  constructor
  · intro h
    have hdata := (h.amounts _ rfl).2
    rwa [show (data.toUInt32).toInt32 = data from Int32.toInt32_toUInt32 data] at hdata
  · intro h
    exact WinExact.mouse mapVirtualKeyW rfl h

/-- A key within 16 bits is handed on, or has no virtual key. -/
theorem WinExact.key (hscan : ∀ vk, (mapVirtualKeyW vk).toNat < 2 ^ 16) {keycode : UInt32}
    (hle : keycode ≤ 0xFFFF) (pressed : Bool) (m : KeyModifiers) :
    WinExact mapVirtualKeyW (.keyEvent keycode pressed m)
      (WinInject.sendKey mapVirtualKeyW keycode.toUInt16 pressed) where
  amounts := by
    intro mi h
    obtain ⟨vk, ki, hkey, _⟩ := sendKey_eq_some mapVirtualKeyW h
    cases hkey
  moved := by
    intro h
    rcases h with h | h <;> exact absurd rfl h
  keys := by
    intro code vk pressed' ki h
    obtain ⟨vk', ki', hkey, _, hwScan⟩ := sendKey_eq_some mapVirtualKeyW h
    cases hkey
    have hcode : keycode.toNat ≤ 65535 := UInt32.le_iff_toNat_le.mp hle
    refine ⟨⟨keycode, m, rfl, ?_⟩, ?_⟩
    · rw [UInt32.toNat_toUInt16]
      omega
    · rw [hwScan, UInt32.toNat_toUInt16, Nat.mod_eq_of_lt (hscan _)]

/-- **Windows is given a message's numbers** unless it is a turn of the wheel out of range. -/
theorem WinInject.handle_exact_iff (hscan : ∀ vk, (mapVirtualKeyW vk).toNat < 2 ^ 16)
    (overflowChecks : Bool) (msg : Message) :
    (∃ sent, WinInject.handle overflowChecks mapVirtualKeyW msg = .ok sent
        ∧ WinExact mapVirtualKeyW msg sent)
      ↔ WheelInRange msg := by
  cases msg with
  | mouseWheel dx dy =>
      -- the one amount that is computed
      have hrange : WheelInRange (.mouseWheel dx dy)
          ↔ -17895697 ≤ dy.toInt ∧ dy.toInt ≤ 17895697 := by
        constructor
        · intro h
          exact h dx dy rfl
        · intro h dx' dy' heq
          cases heq
          exact h
      rw [hrange, ← fits_wheel_iff, ← mulI32_exact_iff overflowChecks]
      constructor
      · intro h
        obtain ⟨sent, hhandle, hexact⟩ := h
        obtain ⟨data, hdata, hsent⟩ := bind_eq_ok_iff.mp hhandle
        cases hsent
        exact ⟨data, hdata, (winExact_wheel_iff mapVirtualKeyW dx dy data).mp hexact⟩
      · intro h
        obtain ⟨data, hdata, hprod⟩ := h
        refine ⟨_, bind_eq_ok_iff.mpr ⟨data, hdata, rfl⟩, ?_⟩
        exact (winExact_wheel_iff mapVirtualKeyW dx dy data).mpr hprod
  | mouseMove dx dy =>
      exact iff_of_true ⟨_, rfl, WinExact.mouse mapVirtualKeyW rfl rfl⟩ fun _ _ h => by cases h
  | mouseButton button pressed =>
      refine iff_of_true ?_ fun _ _ h => by cases h
      cases hflags : buttonFlags button pressed with
      | none => exact ⟨none, by simp only [handle, hflags], WinExact.none mapVirtualKeyW rfl rfl⟩
      | some flags =>
          exact ⟨some (sendMouse flags 0 0 0), by simp only [handle, hflags],
            WinExact.mouse mapVirtualKeyW rfl rfl⟩
  | keyEvent keycode pressed m =>
      refine iff_of_true ?_ fun _ _ h => by cases h
      unfold handle
      by_cases hle : keycode ≤ 0xFFFF
      · exact ⟨_, if_pos hle, WinExact.key mapVirtualKeyW hscan hle pressed m⟩
      · exact ⟨_, if_neg hle, WinExact.none mapVirtualKeyW rfl rfl⟩
  | _ =>
      exact iff_of_true ⟨_, rfl, WinExact.none mapVirtualKeyW rfl rfl⟩ fun _ _ h => by cases h

/-! ## §6. Linux. -/

theorem mem_relative {axis : UInt16} {amount : Int32} {e : InputEvent} :
    e ∈ relative axis amount ↔ amount ≠ 0 ∧ e = ⟨.relative, axis, amount⟩ := by
  unfold relative
  by_cases h : amount = 0
  · simp [h]
  · simp [h]

/-- Two motions are reported, each on its axis and none if it is nothing. -/
theorem mem_two_axes {x y : UInt16} {dx dy : Int32} {e : InputEvent}
    (h : e ∈ relative x dx ++ relative y dy) :
    e.eventType = .relative
      ∧ ((e.code, e.value.toInt) = (x, dx.toInt) ∨ (e.code, e.value.toInt) = (y, dy.toInt)) := by
  rcases List.mem_append.mp h with h | h
  · obtain ⟨_, rfl⟩ := mem_relative.mp h
    exact ⟨rfl, .inl rfl⟩
  · obtain ⟨_, rfl⟩ := mem_relative.mp h
    exact ⟨rfl, .inr rfl⟩

/-- What is something on its axis is reported. -/
theorem reported {axis : UInt16} {amount : Int32} (h : amount.toInt ≠ 0) :
    (⟨.relative, axis, amount⟩ : InputEvent) ∈ relative axis amount := by
  apply mem_relative.mpr
  refine ⟨?_, rfl⟩
  intro hzero
  rw [hzero] at h
  exact h rfl

/-- A message that asks for something on two axes at most, each of them reported. -/
theorem LinuxExact.motions {msg : Message} {x y : UInt16} {dx dy : Int32}
    (hx : (x, dx.toInt) ∈ axes msg) (hy : (y, dy.toInt) ∈ axes msg)
    (hrest : ∀ axis ∈ axes msg, axis.2 ≠ 0 → axis = (x, dx.toInt) ∨ axis = (y, dy.toInt))
    (hkey : ∀ keycode pressed m, msg ≠ .keyEvent keycode pressed m) :
    LinuxExact msg (relative x dx ++ relative y dy) where
  amounts := by
    intro e he _
    rcases (mem_two_axes he).2 with h | h <;> rw [h]
    · exact hx
    · exact hy
  moved := by
    intro axis haxis hne
    rcases hrest axis haxis hne with rfl | rfl
    · exact ⟨_, List.mem_append_left _ (reported hne), rfl, rfl⟩
    · exact ⟨_, List.mem_append_right _ (reported hne), rfl, rfl⟩
  keys := fun keycode pressed m h => absurd h (hkey keycode pressed m)

/-- A message that asks for no amount is not reported on an axis. -/
theorem LinuxExact.still {msg : Message} {events : List InputEvent} (hmotion : motion msg = 0)
    (hnotches : notches msg = 0) (hevents : ∀ e ∈ events, e.eventType = .key)
    (hkeys : ∀ keycode pressed m, msg = .keyEvent keycode pressed m →
      events = [] ∨ ∃ code, events = keyEvents code pressed ∧ code.toNat = keycode.toNat) :
    LinuxExact msg events where
  amounts := by
    intro e he hrelative
    rw [hevents e he] at hrelative
    cases hrelative
  moved := by
    intro axis haxis hne
    rw [axes, hmotion, hnotches] at haxis
    simp only [List.mem_cons, List.not_mem_nil, or_false] at haxis
    rcases haxis with rfl | rfl | rfl | rfl <;> exact absurd rfl hne
  keys := hkeys

theorem eventType_keyEvents {code : UInt16} {pressed : Bool} :
    ∀ e ∈ keyEvents code pressed, e.eventType = .key := by
  intro e he
  rw [List.mem_singleton.mp he]

/-- **Linux is always given a message's numbers.** -/
theorem linuxEvents_exact (msg : Message) : LinuxExact msg (linuxEvents msg) := by
  cases msg with
  | mouseMove dx dy =>
      exact LinuxExact.motions (by simp [axes, motion]) (by simp [axes, motion])
        (by simp [axes, motion, notches]) fun _ _ _ h => by cases h
  | mouseWheel dx dy =>
      exact LinuxExact.motions (by simp [axes, notches]) (by simp [axes, notches])
        (by simp [axes, motion, notches]) fun _ _ _ h => by cases h
  | mouseButton button pressed =>
      exact LinuxExact.still rfl rfl eventType_keyEvents fun _ _ _ h => by cases h
  | keyEvent keycode pressed m =>
      show LinuxExact _ (if keycode > 0xFFFF then [] else keyEvents keycode.toUInt16 pressed)
      by_cases hbig : keycode > 0xFFFF
      · rw [if_pos hbig]
        exact LinuxExact.still rfl rfl (fun _ he => absurd he List.not_mem_nil)
          fun _ _ _ _ => .inl rfl
      · have hcode : keycode.toNat ≤ 65535 := UInt32.le_iff_toNat_le.mp (UInt32.not_lt.mp hbig)
        rw [if_neg hbig]
        refine LinuxExact.still rfl rfl eventType_keyEvents ?_
        intro keycode' pressed' m' heq
        cases heq
        refine .inr ⟨keycode.toUInt16, rfl, ?_⟩
        rw [UInt32.toNat_toUInt16]
        omega
  | _ =>
      exact LinuxExact.still rfl rfl (fun _ he => absurd he List.not_mem_nil)
        fun _ _ _ h => by cases h

/-! ## §7. Whatever a peer sends. -/

/-- **WHAT THE WIRE CAN DO TO THE INJECTION.**  Of every message that the decoder yields
from any stream, both backends inject exactly its numbers, without a panic, unless it turns
the wheel by more than `i32` holds 120 times of. -/
theorem injection_exact_iff (hscan : ∀ vk, (mapVirtualKeyW vk).toNat < 2 ^ 16)
    (overflowChecks : Bool) (chunks : List (List UInt8)) :
    ∀ msg, .message msg ∈ (messageDecoder.readChunks chunks).outs →
      ((∃ sent, WinInject.handle overflowChecks mapVirtualKeyW msg = .ok sent
            ∧ WinExact mapVirtualKeyW msg sent)
          ∧ LinuxExact msg (linuxEvents msg)
        ↔ WheelInRange msg) := by
  intro msg _
  rw [WinInject.handle_exact_iff mapVirtualKeyW hscan overflowChecks msg]
  exact and_iff_left (linuxEvents_exact msg)

/-- The scan codes of A and B, and none for other keys. -/
def scanAB : MapVirtualKeyW := fun vk => if vk = 0x41 then 0x1E else if vk = 0x42 then 0x30 else 0

theorem scanAB_lt (vk : UInt32) : (scanAB vk).toNat < 2 ^ 16 := by
  unfold scanAB
  by_cases ha : vk = 0x41
  · simp [ha]
  · by_cases hb : vk = 0x42
    · simp [hb]
    · simp [ha, hb]

theorem injection_exact_three_notches :
    ∃ sent, WinInject.handle true scanAB (.mouseWheel 0 (-3)) = .ok sent
      ∧ WinExact scanAB (.mouseWheel 0 (-3)) sent := by
  have hread := mem_readChunks_frame (m := .mouseWheel 0 (-3)) (by decide)
  have hrange : WheelInRange (.mouseWheel 0 (-3)) := by
    intro dx dy h
    cases h
    decide
  exact ((injection_exact_iff scanAB scanAB_lt true _ _ hread).mpr hrange).1

/-- A frame of 16 bytes that turns the wheel too far: a debug build panics, a release build
scrolls the other way. -/
theorem wheel_overflows :
    (WinInject.handle true scanAB (.mouseWheel 0 17895698) = .error .multiplyOverflow
        ∧ WinInject.handle false scanAB (.mouseWheel 0 17895698)
          = .ok (some (WinInject.sendMouse MOUSEEVENTF_WHEEL 0 0 (-2147483536))))
      ∧ ¬ ∀ (mapVirtualKeyW : MapVirtualKeyW) (overflowChecks : Bool) (chunks : List (List UInt8)),
          (∀ vk, (mapVirtualKeyW vk).toNat < 2 ^ 16) →
          ∀ msg, .message msg ∈ (messageDecoder.readChunks chunks).outs →
            (∃ sent, WinInject.handle overflowChecks mapVirtualKeyW msg = .ok sent
                ∧ WinExact mapVirtualKeyW msg sent)
              ∧ LinuxExact msg (linuxEvents msg) := by
  refine ⟨⟨by decide, by decide⟩, ?_⟩
  intro h
  have hread := mem_readChunks_frame (m := .mouseWheel 0 17895698) (by decide)
  have hexact := (h scanAB true _ scanAB_lt _ hread).1
  rw [WinInject.handle_exact_iff scanAB scanAB_lt] at hexact
  exact absurd (hexact 0 17895698 rfl) (by decide)

end Dshare.Input
