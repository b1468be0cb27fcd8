/-
  Dshare.Session.KeyIdentity
  ──────────────────────────
  **A KEY FROM ONE WINDOWS MACHINE TO ANOTHER.**

  A stroke is translated by `vk_to_evdev`, goes over the wire, and is translated back by
  `evdev_to_vk`, which the source calls a partial inverse: it has no arm for the
  punctuation keys, and `send_key` drops those with a warning.

    • `evdevToVk_eq_some_iff` — the two tables are inverse to each other elsewhere;
    • `injectAll_strokes` — what a list of strokes comes to at the other end;
    • `key_identity` — with the hook, the codec and any chunking in between.
-/
import Dshare.Input.Hotkey
import Dshare.Input.WinInject

namespace Dshare.Session

open Dshare.Protocol Dshare.Input

/-! ## §1. The two tables. -/

/-- The virtual keys of the US punctuation, from `VK_OEM_1` to `VK_OEM_3` and from
`VK_OEM_4` to `VK_OEM_7`. -/
def punctuation : List UInt32 :=
  [0xBA, 0xBB, 0xBC, 0xBD, 0xBE, 0xBF, 0xC0, 0xDB, 0xDC, 0xDD, 0xDE]

/-- A mapped key comes back as itself, or not at all if it is punctuation. -/
theorem evdevToVk_of_vkToEvdev {vk : UInt32} {code : UInt16} (h : vkToEvdev vk = some code) :
    evdevToVk code = (if vk ∈ punctuation then none else some vk.toUInt16)
      ∧ vk.toUInt16.toUInt32 = vk := by
  have harms : vkEvdevArms.all (fun arm =>
      evdevToVk arm.2 == (if arm.1 ∈ punctuation then none else some arm.1.toUInt16)
        && arm.1.toUInt16.toUInt32 == arm.1) = true := by decide +kernel
  have harm := List.all_eq_true.mp harms _ (mem_vkEvdevArms h)
  rw [Bool.and_eq_true, beq_iff_eq, beq_iff_eq] at harm
  exact harm

/-- **`evdev_to_vk` is the inverse of `vk_to_evdev`** on every key but the punctuation. -/
theorem evdevToVk_eq_some_iff {code vk : UInt16} :
    evdevToVk code = some vk
      ↔ vkToEvdev vk.toUInt32 = some code ∧ vk.toUInt32 ∉ punctuation := by
  constructor
  · intro h
    have harms : evdevVkArms.all (fun arm => vkToEvdev arm.2.toUInt32 == some arm.1
        && decide (arm.2.toUInt32 ∉ punctuation)) = true := by decide +kernel
    obtain ⟨before, after, hsplit, _⟩ := List.lookup_eq_some_iff.mp h
    have hmem : (code, vk) ∈ evdevVkArms := by
      rw [hsplit]
      simp
    have harm := List.all_eq_true.mp harms _ hmem
    rw [Bool.and_eq_true, beq_iff_eq, decide_eq_true_eq] at harm
    exact harm
  · intro h
    obtain ⟨hcode, hkept⟩ := h
    rw [(evdevToVk_of_vkToEvdev hcode).1, if_neg hkept, UInt16.toUInt16_toUInt32]

/-! ## §2. Strokes. -/

/-- A press or a release as the hook sees it, with the readings of the modifiers. -/
structure Stroke where
  getAsyncKeyState : GetAsyncKeyState
  vk : UInt32
  pressed : Bool
  /-- Reported as `WM_SYSKEYDOWN` or `WM_SYSKEYUP`. -/
  sys : Bool

def Stroke.hookCall (k : Stroke) : HookCall :=
  .kbd k.getAsyncKeyState HC_ACTION (keyWparam k.pressed k.sys) ⟨k.vk⟩

/-- What is forwarded for a stroke, if its key is mapped. -/
def Stroke.message (k : Stroke) : Option Message :=
  (vkToEvdev k.vk).map fun evdev =>
    .keyEvent evdev.toUInt32 k.pressed (readCurrentModifiers k.getAsyncKeyState)

/-- The stroke is of a mapped key that `evdev_to_vk` knows. -/
def Stroke.Kept (k : Stroke) : Prop := (vkToEvdev k.vk).isSome = true ∧ k.vk ∉ punctuation

instance (k : Stroke) : Decidable k.Kept := inferInstanceAs (Decidable (_ ∧ _))

/-- A stroke that is not the hotkey is forwarded, if its key is mapped. -/
theorem builds_stroke {k : Stroke} (h : k.hookCall.hotkey = false) (s : HookThread) :
    s.builds k.hookCall = k.message := by
  have hkey : isHotkey k.getAsyncKeyState (keyWparam k.pressed k.sys) ⟨k.vk⟩ = false := h
  show (if (HC_ACTION = HC_ACTION && !isHotkey _ _ _) = true then kbdMsg _ _ _ else none) = _
  rw [hkey]
  simp [kbdMsg, Stroke.message, isPress_keyWparam, isRelease_keyWparam]

/-- Strokes that are not the hotkey leave the flag alone. -/
theorem after_strokes_grabbed (s : HookThread) {strokes : List Stroke}
    (h : ∀ k ∈ strokes, k.hookCall.hotkey = false) :
    (s.after (strokes.map Stroke.hookCall)).grabbed = s.grabbed := by
  induction strokes generalizing s with
  | nil => rfl
  | cons k strokes ih =>
      have hrest := ih (s.call k.hookCall).2 fun k' hk' => h k' (List.mem_cons_of_mem k hk')
      rw [HookThread.call_grabbed, h k List.mem_cons_self, Bool.xor_false] at hrest
      exact hrest

/-- A key event is a short message. -/
theorem fits_message {k : Stroke} {msg : Message} (h : k.message = some msg) : Fits msg := by
  obtain ⟨evdev, _, rfl⟩ := Option.map_eq_some_iff.mp h
  have hlen : (Bincode.serialize (.keyEvent evdev.toUInt32 k.pressed
      (readCurrentModifiers k.getAsyncKeyState))).length = 13 := rfl
  show (Bincode.serialize _).length ≤ MAX_FRAME_BYTES
  rw [hlen]
  decide

/-- Everything that is forwarded is written. -/
theorem accepted_messages (strokes : List Stroke) :
    accepted (strokes.filterMap Stroke.message) = strokes.filterMap Stroke.message := by
  refine List.filter_eq_self.mpr ?_
  intro msg hmsg
  obtain ⟨k, _, hk⟩ := List.mem_filterMap.mp hmsg
  exact decide_eq_true (fits_message hk)

/-! ## §3. The other end. -/

variable (overflowChecks : Bool) (mapVirtualKeyW : MapVirtualKeyW)

/-- `WinInject::handle` on each message a reader gets, in order. -/
def injectAll : List Outcome → Except InjectPanic (List Injected)
  | [] => .ok []
  | .malformed _ :: outs => injectAll outs
  | .message msg :: outs => do
      let sent ← WinInject.handle overflowChecks mapVirtualKeyW msg
      let rest ← injectAll outs
      .ok (sent.toList ++ rest)

/-- The virtual key and the direction an input was synthesised for. -/
def strokeOf : Injected → Option (UInt32 × Bool)
  | .mouse _ => none
  | .key _ vk pressed _ => some (vk.toUInt32, pressed)

/-- **One stroke at the other end**: its own key, in its own direction, unless it is
punctuation. -/
theorem handle_stroke {k : Stroke} {msg : Message} (h : k.message = some msg) :
    ∃ sent, WinInject.handle overflowChecks mapVirtualKeyW msg = .ok sent
      ∧ sent.toList.filterMap strokeOf = if k.Kept then [(k.vk, k.pressed)] else [] := by
  obtain ⟨evdev, hevdev, rfl⟩ := Option.map_eq_some_iff.mp h
  obtain ⟨hback, hround⟩ := evdevToVk_of_vkToEvdev hevdev
  refine ⟨_, WinInject.handle_key mapVirtualKeyW overflowChecks evdev k.pressed _, ?_⟩
  unfold WinInject.sendKey
  rw [hback]
  by_cases hpunct : k.vk ∈ punctuation
  · have hnot : ¬ k.Kept := fun hkept => hkept.2 hpunct
    rw [if_pos hpunct, if_neg hnot]
    rfl
  · have hkept : k.Kept := ⟨by rw [hevdev]; rfl, hpunct⟩
    rw [if_neg hpunct, if_pos hkept]
    show [(k.vk.toUInt16.toUInt32, k.pressed)] = _
    rw [hround]

/-- **A list of strokes at the other end.** -/
theorem injectAll_strokes (strokes : List Stroke) :
    ∃ sent, injectAll overflowChecks mapVirtualKeyW
          ((strokes.filterMap Stroke.message).map .message) = .ok sent
      ∧ sent.filterMap strokeOf
          = (strokes.filter fun k => decide k.Kept).map fun k => (k.vk, k.pressed) := by
  induction strokes with
  | nil => exact ⟨[], rfl, rfl⟩
  | cons k strokes ih =>
      obtain ⟨rest, hrest, hstrokes⟩ := ih
      cases hmsg : k.message with
      | none =>
          have hnot : ¬ k.Kept := by
            intro hkept
            rw [Stroke.message, Option.map_eq_none_iff] at hmsg
            rw [Stroke.Kept, hmsg] at hkept
            cases hkept.1
          refine ⟨rest, ?_, ?_⟩
          · rw [List.filterMap_cons, hmsg]
            exact hrest
          · rw [List.filter_cons_of_neg (by simpa using hnot)]
            exact hstrokes
      | some msg =>
          obtain ⟨sent, hsent, hstroke⟩ := handle_stroke overflowChecks mapVirtualKeyW hmsg
          refine ⟨sent.toList ++ rest, ?_, ?_⟩
          · rw [List.filterMap_cons, hmsg]
            show (WinInject.handle overflowChecks mapVirtualKeyW msg >>= fun _ => _) = _
            rw [hsent]
            show (injectAll overflowChecks mapVirtualKeyW _ >>= fun _ => _) = _
            rw [hrest]
            rfl
          · rw [List.filterMap_append, hstroke, hstrokes]
            by_cases hkept : k.Kept
            · rw [if_pos hkept, List.filter_cons_of_pos (by simpa using hkept)]
              rfl
            · rw [if_neg hkept, List.filter_cons_of_neg (by simpa using hkept)]
              rfl

/-! ## §4. From the hook to `SendInput`. -/

/-- What a reader of the stream gets for strokes that are not the hotkey. -/
theorem read_strokes {s : HookThread} {strokes : List Stroke} {chunks : List (List UInt8)}
    (hkeys : ∀ k ∈ strokes, k.hookCall.hotkey = false)
    (hstream : chunks.flatten = encodeAll (s.emitted (strokes.map Stroke.hookCall))) :
    (messageDecoder.readChunks chunks).outs
      = (strokes.filterMap Stroke.message).map .message := by
  have hemitted : s.emitted (strokes.map Stroke.hookCall) = strokes.filterMap Stroke.message :=
    HookThread.emitted_map strokes s fun k hk s => builds_stroke (hkeys k hk) s
  rw [readChunks_encodeAll _ chunks hstream, hemitted, accepted_messages]

/-- **KEY IDENTITY.**  Strokes on one machine, none of them the hotkey and the flag on, are
forwarded, encoded, delivered in any chunks, decoded and injected on another: the flag stays
on, nothing panics, and the inputs synthesised are for the strokes of mapped keys other than
the punctuation, in order, each for its own virtual key and direction. -/
theorem key_identity (s : HookThread) (strokes : List Stroke) (hgrab : s.grabbed = true)
    (hkeys : ∀ k ∈ strokes, k.hookCall.hotkey = false) (chunks : List (List UInt8))
    (hstream : chunks.flatten = encodeAll (s.emitted (strokes.map Stroke.hookCall))) :
    (s.after (strokes.map Stroke.hookCall)).grabbed = true
      ∧ ∃ sent, injectAll overflowChecks mapVirtualKeyW
            (messageDecoder.readChunks chunks).outs = .ok sent
          ∧ sent.filterMap strokeOf
              = (strokes.filter fun k => decide k.Kept).map fun k => (k.vk, k.pressed) := by
  rw [after_strokes_grabbed s hkeys, read_strokes hkeys hstream]
  exact ⟨hgrab, injectAll_strokes overflowChecks mapVirtualKeyW strokes⟩

/-- A stroke with no modifier held. -/
def plainStroke (vk : UInt32) (pressed : Bool) : Stroke := ⟨fun _ => 0, vk, pressed, false⟩

/-- The hook thread with the flag on. -/
def grabbedThread : HookThread := { HookThread.new with grabbed := true }

/-- What is written for strokes with the flag on. -/
def strokeStream (strokes : List Stroke) : List UInt8 :=
  encodeAll (grabbedThread.emitted (strokes.map Stroke.hookCall))

theorem strokeStream_split (strokes : List Stroke) (n : Nat) :
    [(strokeStream strokes).take n, (strokeStream strokes).drop n].flatten
      = encodeAll (grabbedThread.emitted (strokes.map Stroke.hookCall)) := by
  show (strokeStream strokes).take n ++ ((strokeStream strokes).drop n ++ []) = strokeStream strokes
  rw [List.append_nil, List.take_append_drop]

/-- H down, a semicolon, H up. -/
def hAroundSemicolon : List Stroke :=
  [plainStroke 0x48 true, plainStroke 0xBA true, plainStroke 0x48 false]

theorem key_identity_h_semicolon :
    ∃ sent, injectAll true scanAB (messageDecoder.readChunks
        [(strokeStream hAroundSemicolon).take 5, (strokeStream hAroundSemicolon).drop 5]).outs
          = .ok sent
      ∧ sent.filterMap strokeOf = [(0x48, true), (0x48, false)] := by
  obtain ⟨_, sent, hsent, hstrokes⟩ := key_identity true scanAB grabbedThread hAroundSemicolon rfl
    (by decide) _ (strokeStream_split hAroundSemicolon 5)
  refine ⟨sent, hsent, hstrokes.trans ?_⟩
  decide +kernel

/-- A semicolon is captured and forwarded, and nothing is synthesised for it. -/
theorem semicolon_dropped :
    ¬ ∀ (overflowChecks : Bool) (mapVirtualKeyW : MapVirtualKeyW) (s : HookThread)
        (strokes : List Stroke), s.grabbed = true →
      (∀ k ∈ strokes, k.hookCall.hotkey = false) → ∀ chunks : List (List UInt8),
        chunks.flatten = encodeAll (s.emitted (strokes.map Stroke.hookCall)) →
        ∃ sent, injectAll overflowChecks mapVirtualKeyW
            (messageDecoder.readChunks chunks).outs = .ok sent
          ∧ sent.filterMap strokeOf
              = (strokes.filter fun k => (vkToEvdev k.vk).isSome).map fun k =>
                  (k.vk, k.pressed) := by
  intro h
  have hkeys : ∀ k ∈ [plainStroke 0xBA true], k.hookCall.hotkey = false := by decide
  have hstream := strokeStream_split [plainStroke 0xBA true] 0
  obtain ⟨sent, hsent, hclaim⟩ := h true scanAB grabbedThread _ rfl hkeys _ hstream
  rw [read_strokes hkeys hstream] at hsent
  obtain ⟨sent', hsent', hstrokes⟩ := injectAll_strokes true scanAB [plainStroke 0xBA true]
  rw [hsent'] at hsent
  cases hsent
  rw [hstrokes] at hclaim
  revert hclaim
  decide +kernel

end Dshare.Session
