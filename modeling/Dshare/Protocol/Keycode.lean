/-
  Dshare.Protocol.Keycode
  ───────────────────────
  Win32 virtual-key codes on one side, Linux evdev key codes on the wire.

  `vk_to_evdev` is one `match` of a literal for each key; here it is the table of
  its arms, looked up in order.  Two facts about the table as a whole matter
  later: no evdev code stands in two arms (`vkToEvdev_injective`), and all of
  them are keyboard codes, below the mouse buttons (`vkToEvdev_lt`).
-/
import Mathlib.Data.List.Nodup

namespace Dshare.Protocol

/-- The arms of `vk_to_evdev`: virtual-key code, evdev code. -/
def vkEvdevArms : List (UInt32 × UInt16) := [
  -- letters, A to Z
  (0x41, 30), (0x42, 48), (0x43, 46), (0x44, 32), (0x45, 18), (0x46, 33), (0x47, 34),
  (0x48, 35), (0x49, 23), (0x4A, 36), (0x4B, 37), (0x4C, 38), (0x4D, 50), (0x4E, 49),
  (0x4F, 24), (0x50, 25), (0x51, 16), (0x52, 19), (0x53, 31), (0x54, 20), (0x55, 22),
  (0x56, 47), (0x57, 17), (0x58, 45), (0x59, 21), (0x5A, 44),
  -- top-row digits, 0 to 9
  (0x30, 11), (0x31, 2), (0x32, 3), (0x33, 4), (0x34, 5), (0x35, 6), (0x36, 7),
  (0x37, 8), (0x38, 9), (0x39, 10),
  -- return, escape, backspace, tab, space
  (0x0D, 28), (0x1B, 1), (0x08, 14), (0x09, 15), (0x20, 57),
  -- arrows: left, up, right, down
  (0x25, 105), (0x26, 103), (0x27, 106), (0x28, 108),
  -- modifiers, left and right: shift, control, alt, meta
  (0xA0, 42), (0xA1, 54), (0xA2, 29), (0xA3, 97), (0xA4, 56), (0xA5, 100),
  (0x5B, 125), (0x5C, 126),
  -- function keys, F1 to F12
  (0x70, 59), (0x71, 60), (0x72, 61), (0x73, 62), (0x74, 63), (0x75, 64), (0x76, 65),
  (0x77, 66), (0x78, 67), (0x79, 68), (0x7A, 87), (0x7B, 88),
  -- insert, delete, home, end, page up, page down
  (0x2D, 110), (0x2E, 111), (0x24, 102), (0x23, 107), (0x21, 104), (0x22, 109),
  -- punctuation of the US layout
  (0xBA, 39), (0xBB, 13), (0xBC, 51), (0xBD, 12), (0xBE, 52), (0xBF, 53), (0xC0, 41),
  (0xDB, 26), (0xDC, 43), (0xDD, 27), (0xDE, 40),
  -- caps, num and scroll lock
  (0x14, 58), (0x90, 69), (0x91, 70)]

/-- `keycode::vk_to_evdev`; `none` for an unmapped key. -/
def vkToEvdev (vk : UInt32) : Option UInt16 := vkEvdevArms.lookup vk

theorem mem_vkEvdevArms {vk : UInt32} {code : UInt16} (h : vkToEvdev vk = some code) :
    (vk, code) ∈ vkEvdevArms := by
  obtain ⟨before, after, harms, _⟩ := List.lookup_eq_some_iff.mp h
  rw [harms]
  simp

/-- **Two keys never share an evdev code.** -/
theorem vkToEvdev_injective {vk vk' : UInt32} {code : UInt16}
    (h : vkToEvdev vk = some code) (h' : vkToEvdev vk' = some code) : vk = vk' := by
  have hnodup : (vkEvdevArms.map Prod.snd).Nodup := by decide +kernel
  have heq : (vk, code) = (vk', code) :=
    List.inj_on_of_nodup_map hnodup (mem_vkEvdevArms h) (mem_vkEvdevArms h') rfl
  exact congrArg Prod.fst heq

/-- Every key is translated into the keyboard range. -/
theorem vkToEvdev_lt {vk : UInt32} {code : UInt16} (h : vkToEvdev vk = some code) :
    code < 0x100 := by
  have hall : vkEvdevArms.all (fun arm => arm.2 < 0x100) = true := by decide +kernel
  exact of_decide_eq_true (List.all_eq_true.mp hall _ (mem_vkEvdevArms h))

example : vkToEvdev 0x48 = some 35 ∧ vkToEvdev 0x49 = some 23 ∧ vkToEvdev 0xFFFF = none := by
  decide +kernel

end Dshare.Protocol
