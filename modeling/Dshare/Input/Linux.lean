/-
  Dshare.Input.Linux
  ──────────────────
  `InputInject` and its Linux backend.

  A backend is a function on its own device state that may fail.  `LinuxInject`
  turns a message into the `uinput` events of one `emit`; keys and buttons share
  one space of codes there (`EV_KEY`), which §2 keeps apart from the motions.
-/
import Dshare.Protocol.Message

namespace Dshare.Input

open Dshare.Protocol

/-- The trait `InputInject` on a device with state `δ`: `handle` of one message. -/
structure InputInject (δ : Type) where
  handle : δ → Message → Except String Unit × δ

/-! ## §1. `uinput` events. -/

inductive EventType where
  | key
  | relative
  deriving DecidableEq

structure InputEvent where
  eventType : EventType
  code : UInt16
  value : Int32
  deriving DecidableEq

def REL_X : UInt16 := 0x00
def REL_Y : UInt16 := 0x01
def REL_HWHEEL : UInt16 := 0x06
def REL_WHEEL : UInt16 := 0x08

/-- `BTN_LEFT`, `BTN_RIGHT`, `BTN_MIDDLE`, `BTN_SIDE`, `BTN_EXTRA`. -/
def btnCode : MouseButton → UInt16
  | .left => 0x110
  | .right => 0x111
  | .middle => 0x112
  | .back => 0x113
  | .forward => 0x114

/-! ## §2. `LinuxInject::handle`. -/

/-- A motion along an axis; a zero is not reported. -/
def relative (axis : UInt16) (amount : Int32) : List InputEvent :=
  if amount ≠ 0 then [⟨.relative, axis, amount⟩] else []

/-- A key or a button: 1 for down, 0 for up. -/
def keyEvents (code : UInt16) (pressed : Bool) : List InputEvent :=
  [⟨.key, code, if pressed then 1 else 0⟩]

/-- The events `handle` collects for a message. -/
def linuxEvents : Message → List InputEvent
  | .mouseMove dx dy => relative REL_X dx ++ relative REL_Y dy
  | .mouseButton button pressed => keyEvents (btnCode button) pressed
  | .mouseWheel dx dy => relative REL_WHEEL dy ++ relative REL_HWHEEL dx
  | .keyEvent keycode pressed _ =>
      -- a code that is not a `u16` is dropped with a warning
      if keycode > 0xFFFF then [] else keyEvents keycode.toUInt16 pressed
  | _ => []

/-- `LinuxInject` over a virtual device, given by its `emit`. -/
def linuxInject {δ : Type} (emit : δ → List InputEvent → Except String Unit × δ) :
    InputInject δ where
  handle device msg :=
    let events := linuxEvents msg
    if events.isEmpty then (.ok (), device) else emit device events

/-! ## §3. Codes. -/

theorem btnCode_ge (b : MouseButton) : (0x100 : UInt16) ≤ btnCode b := by
  cases b <;> decide

theorem btnCode_injective {b b' : MouseButton} (h : btnCode b = btnCode b') : b = b' := by
  cases b <;> cases b' <;> first | rfl | exact absurd h (by decide)

/-- A code that came from a `u16` is injected as that `u16`. -/
theorem linuxEvents_key (code : UInt16) (pressed : Bool) (m : KeyModifiers) :
    linuxEvents (.keyEvent code.toUInt32 pressed m) = keyEvents code pressed := by
  have hle : ¬ code.toUInt32 > 0xFFFF := by
    have hlt : code.toNat < 65536 := code.toNat_lt
    show ¬ (0xFFFF : UInt32) < code.toUInt32
    rw [UInt32.lt_iff_toNat_lt, UInt16.toNat_toUInt32]
    show ¬ 65535 < code.toNat
    omega
  simp only [linuxEvents, if_neg hle, UInt16.toUInt16_toUInt32]

/-! ## §4. The virtual device. -/

/-- The keys and buttons `LinuxInject::new` gives the device: `KEY_ESC` to `KEY_MICMUTE`,
`BTN_MISC` to `BTN_GEAR_UP`. -/
def deviceKey (code : UInt16) : Bool :=
  (1 ≤ code && code ≤ 248) || (0x100 ≤ code && code ≤ 0x150)

/-- Its axes. -/
def deviceRels : List UInt16 := [REL_X, REL_Y, REL_WHEEL, REL_HWHEEL]

/-- The device has the key or the axis; an event about another one is dropped. -/
def InputEvent.declared (e : InputEvent) : Bool :=
  match e.eventType with
  | .key => deviceKey e.code
  | .relative => deviceRels.contains e.code

theorem declared_relative {axis : UInt16} (h : deviceRels.contains axis = true) (amount : Int32) :
    ∀ e ∈ relative axis amount, e.declared = true := by
  intro e he
  unfold relative at he
  by_cases hzero : amount = 0
  · simp [hzero] at he
  · rw [if_pos hzero, List.mem_singleton] at he
    rw [he]
    exact h

theorem declared_keyEvents {code : UInt16} {pressed : Bool} :
    (∀ e ∈ keyEvents code pressed, e.declared = true) ↔ deviceKey code = true := by
  unfold keyEvents
  simp only [List.mem_singleton, forall_eq]
  rfl

/-- **What the device drops**: a key outside its two ranges, and nothing else. -/
theorem linuxEvents_declared_iff (msg : Message) :
    (∀ e ∈ linuxEvents msg, e.declared = true)
      ↔ ∀ keycode pressed m, msg = .keyEvent keycode pressed m →
          keycode > 0xFFFF ∨ deviceKey keycode.toUInt16 = true := by
  have hmotions : ∀ {x y : UInt16} (dx dy : Int32), deviceRels.contains x = true →
      deviceRels.contains y = true → ∀ e ∈ relative x dx ++ relative y dy, e.declared = true := by
    intro x y dx dy hx hy e he
    rcases List.mem_append.mp he with he | he
    · exact declared_relative hx dx e he
    · exact declared_relative hy dy e he
  cases msg with
  | mouseMove dx dy =>
      exact iff_of_true (hmotions dx dy (by decide) (by decide)) fun _ _ _ h => by cases h
  | mouseWheel dx dy =>
      exact iff_of_true (hmotions dy dx (by decide) (by decide)) fun _ _ _ h => by cases h
  | mouseButton button pressed =>
      refine iff_of_true (declared_keyEvents.mpr ?_) fun _ _ _ h => by cases h
      cases button <;> decide
  | keyEvent keycode pressed m =>
      show (∀ e ∈ if keycode > 0xFFFF then [] else keyEvents keycode.toUInt16 pressed, _) ↔ _
      by_cases hbig : keycode > 0xFFFF
      · rw [if_pos hbig]
        refine iff_of_true (fun e he => absurd he List.not_mem_nil) fun _ _ _ h => ?_
        cases h
        exact .inl hbig
      · rw [if_neg hbig, declared_keyEvents]
        constructor
        · intro hkey keycode' pressed' m' h
          cases h
          exact .inr hkey
        · intro h
          exact (h keycode pressed m rfl).resolve_left hbig
  | _ => exact iff_of_true (fun e he => absurd he List.not_mem_nil) fun _ _ _ h => by cases h

end Dshare.Input
