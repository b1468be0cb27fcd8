/-
  Dshare.Input.AutoRepeat
  ───────────────────────
  **ONE PRESS OF THE HOTKEY, MANY KEY-DOWNS.**

  Windows repeats `WM_KEYDOWN` while a key is held, and the hook takes each one with the
  chord down for a press of its own.  Every such call turns the flag, so what a held chord
  comes to is the parity of the repeats (`after_grabbed`).

  Here the readings of the modifiers are whatever they are at each call; where they come
  from is the matter of `Dshare.Input.Hotkey`.
-/
import Mathlib.Data.List.Induction
import Dshare.Input.Windows

namespace Dshare.Input

/-! ## §1. Calls and flips. -/

/-- A `WM_KEYUP` or `WM_SYSKEYUP` of G. -/
def HookCall.releasesG : HookCall → Bool
  | .mouse _ _ _ => false
  | .kbd _ _ wparam info => isRelease wparam && info.vkCode == HOTKEY_VK

/-- The call turns the grab flag. -/
def HookThread.Flips (s : HookThread) (c : HookCall) : Prop := (s.call c).2.grabbed ≠ s.grabbed

/-- Between any two flips, G is released. -/
def FlipsOnce (s : HookThread) (cs : List HookCall) : Prop :=
  ∀ pre c mid c' post, cs = pre ++ c :: (mid ++ c' :: post) →
    (s.after pre).Flips c → (s.after (pre ++ c :: mid)).Flips c' →
      ∃ r ∈ mid, r.releasesG = true

/-- G went down with the chord, and has not been released since. -/
def chordHeld (cs : List HookCall) : Bool :=
  cs.foldl (fun held c => (held || c.hotkey) && !c.releasesG) false

theorem HookThread.flips_iff (s : HookThread) (c : HookCall) : s.Flips c ↔ c.hotkey = true := by
  unfold Flips
  rw [HookThread.call_grabbed]
  cases s.grabbed <;> cases c.hotkey <;> simp

/-- A press is not a release. -/
theorem releasesG_of_hotkey {c : HookCall} (h : c.hotkey = true) : c.releasesG = false := by
  cases c with
  | mouse code wparam info => rfl
  | kbd get code wparam info =>
      have hpress : isPress wparam = true := by
        unfold HookCall.hotkey isHotkey at h
        simp only [Bool.and_eq_true] at h
        exact h.2.1.1
      have hrelease : isRelease wparam = false := by
        unfold isPress at hpress
        simp only [Bool.or_eq_true, beq_iff_eq] at hpress
        rcases hpress with rfl | rfl <;> rfl
      show (isRelease wparam && info.vkCode == HOTKEY_VK) = false
      rw [hrelease, Bool.false_and]

theorem chordHeld_snoc (cs : List HookCall) (c : HookCall) :
    chordHeld (cs ++ [c]) = ((chordHeld cs || c.hotkey) && !c.releasesG) := by
  simp [chordHeld]

/-- **The chord is held** from a hotkey call on, until G is released. -/
theorem chordHeld_iff (cs : List HookCall) :
    chordHeld cs = true ↔ ∃ pre c mid, cs = pre ++ c :: mid ∧ c.hotkey = true
      ∧ ∀ r ∈ mid, r.releasesG = false := by
  induction cs using List.reverseRecOn with
  | nil => simp [chordHeld]
  | append_singleton cs b ih =>
      rw [chordHeld_snoc, Bool.and_eq_true, Bool.or_eq_true, Bool.not_eq_true', ih]
      constructor
      · intro h
        obtain ⟨hheld | hkey, hdown⟩ := h
        · obtain ⟨pre, c, mid, rfl, hc, hmid⟩ := hheld
          refine ⟨pre, c, mid ++ [b], by simp, hc, ?_⟩
          intro r hr
          rcases List.mem_append.mp hr with hr | hr
          · exact hmid r hr
          · rw [List.mem_singleton.mp hr]
            exact hdown
        · exact ⟨cs, b, [], rfl, hkey, fun r hr => absurd hr List.not_mem_nil⟩
      · intro h
        obtain ⟨pre, c, mid, hcs, hc, hmid⟩ := h
        rcases List.eq_nil_or_concat mid with rfl | ⟨mid', b', rfl⟩
        · -- the last call is the hotkey call itself
          obtain ⟨_, hb⟩ := List.append_inj' hcs rfl
          cases hb
          exact ⟨.inr hc, releasesG_of_hotkey hc⟩
        · rw [List.concat_eq_append] at hcs hmid
          rw [← List.cons_append, ← List.append_assoc] at hcs
          obtain ⟨hpre, hb⟩ := List.append_inj' hcs rfl
          cases hb
          refine ⟨.inl ⟨pre, c, mid', hpre, hc, fun r hr => hmid r ?_⟩, hmid b ?_⟩
          · exact List.mem_append_left _ hr
          · exact List.mem_append_right _ (List.mem_singleton.mpr rfl)

/-! ## §2. The parity of the repeats. -/

/-- **The flag has turned once for each hotkey call.** -/
theorem HookThread.after_grabbed (s : HookThread) (cs : List HookCall) :
    (s.after cs).grabbed = (s.grabbed ^^ cs.countP HookCall.hotkey % 2 == 1) := by
  induction cs using List.reverseRecOn with
  | nil => simp [HookThread.after]
  | append_singleton cs c ih =>
      rw [after_snoc, HookThread.call_grabbed, ih, List.countP_append, Bool.xor_assoc]
      congr 1
      cases hc : c.hotkey with
      | false => simp [hc]
      | true =>
          rw [Bool.eq_iff_iff]
          simp only [Bool.xor_true, Bool.not_eq_true', beq_iff_eq, beq_eq_false_iff_ne,
            List.countP_singleton, hc, if_true]
          omega

/-- What follows a call leaves the flag where the call put it exactly if an even number of
hotkey calls follows. -/
theorem HookThread.after_cons_grabbed (s : HookThread) (c : HookCall) (repeats : List HookCall) :
    (s.after (c :: repeats)).grabbed = (s.after [c]).grabbed
      ↔ repeats.countP HookCall.hotkey % 2 = 0 := by
  have hrest := (s.after [c]).after_grabbed repeats
  rw [show s.after (c :: repeats) = (s.after [c]).after repeats from rfl, hrest]
  cases (s.after [c]).grabbed <;> simp

/-! ## §3. When one press flips the flag once. -/

/-- **THE FLAG FLIPS ONCE FOR EACH PRESS** exactly if no hotkey call arrives while the
chord is held from an earlier one; and after a hotkey call, the flag does not depend on the
repeats exactly if their number is even. -/
theorem flipsOnce_iff (s : HookThread) (cs : List HookCall) :
    (FlipsOnce s cs ↔ ∀ pre c post, cs = pre ++ c :: post → c.hotkey = true →
        chordHeld pre = false)
      ∧ ∀ (c : HookCall) (repeats : List HookCall),
          (s.after (c :: repeats)).grabbed = (s.after [c]).grabbed
            ↔ repeats.countP HookCall.hotkey % 2 = 0 := by
  refine ⟨?_, s.after_cons_grabbed⟩
  constructor
  · intro honce pre c' post hcs hkey
    by_contra hheld
    rw [Bool.not_eq_false, chordHeld_iff] at hheld
    obtain ⟨pre', c, mid, hpre, hc, hmid⟩ := hheld
    obtain ⟨r, hr, hreleased⟩ := honce pre' c mid c' post (by rw [hcs, hpre]; simp)
      ((HookThread.flips_iff _ c).mpr hc) ((HookThread.flips_iff _ c').mpr hkey)
    rw [hmid r hr] at hreleased
    cases hreleased
  · intro hnone pre c mid c' post hcs hc hc'
    have hkey := (HookThread.flips_iff _ c).mp hc
    have hkey' := (HookThread.flips_iff _ c').mp hc'
    by_contra hno
    -- without a release, the second call finds the chord held
    have hheld : chordHeld (pre ++ c :: mid) = true := by
      refine (chordHeld_iff _).mpr ⟨pre, c, mid, rfl, hkey, ?_⟩
      intro r hr
      by_contra hreleased
      exact hno ⟨r, hr, Bool.not_eq_false _ ▸ hreleased⟩
    rw [hnone (pre ++ c :: mid) c' post (by rw [hcs]; simp) hkey'] at hheld
    cases hheld

/-- G with every modifier reported down. -/
def chordKeyDown : HookCall := .kbd (fun _ => 0x8000) HC_ACTION WM_KEYDOWN ⟨HOTKEY_VK⟩

/-- The first repeat turns the flag back. -/
theorem auto_repeat_flips_back :
    (HookThread.new.after [chordKeyDown]).grabbed = true
      ∧ (HookThread.new.after [chordKeyDown, chordKeyDown]).grabbed = false
      ∧ ¬ ∀ (s : HookThread) (cs : List HookCall), FlipsOnce s cs := by
  refine ⟨by decide, by decide, ?_⟩
  intro h
  have hflips : ∀ s : HookThread, s.Flips chordKeyDown := fun s =>
    (s.flips_iff chordKeyDown).mpr (by decide)
  obtain ⟨r, hr, _⟩ := h HookThread.new [chordKeyDown, chordKeyDown] [] chordKeyDown [] chordKeyDown
    [] rfl (hflips _) (hflips _)
  exact absurd hr List.not_mem_nil

end Dshare.Input
