/-
  Dshare.Input.Wheel
  ──────────────────
  **SCROLLING.**

  Windows reports a turn of the wheel as a signed number of 1/120 notches.  The hook
  divides each report by 120 and forgets the remainder, so what is emitted for a list of
  reports differs from what was turned by the sum of the remainders (`drift_eq`).  Both
  backends then turn the wheel by what was emitted.
-/
import Dshare.Input.WinInject

namespace Dshare.Input

open Dshare.Protocol

/-! ## §1. Reports of the wheel. -/

/-- One report: the turn in 1/120 notches, the position, and the low word of `mouseData`,
which means nothing. -/
structure Scroll where
  delta : Int16
  pt : Int32 × Int32
  lowWord : UInt16

/-- The turn is the high word of `mouseData`. -/
def Scroll.info (e : Scroll) : MSLLHOOKSTRUCT :=
  ⟨e.pt, e.delta.toUInt16.toUInt32 <<< 16 ||| e.lowWord.toUInt32⟩

def Scroll.hookCall (e : Scroll) : HookCall := .mouse HC_ACTION WM_MOUSEWHEEL e.info

/-- The messages the hook emits for a list of reports. -/
def HookThread.scrolled (s : HookThread) (es : List Scroll) : List Message :=
  s.emitted (es.map Scroll.hookCall)

/-- What was turned, in 1/120 notches. -/
def turned (es : List Scroll) : Int := (es.map fun e => e.delta.toInt).sum

/-- What messages ask for, in notches. -/
def notchesUp (msgs : List Message) : Int := (msgs.map fun m => (notches m).2).sum

/-- What is left over when every report is divided by 120. -/
def leftOver (es : List Scroll) : Int := (es.map fun e => e.delta.toInt.tmod 120).sum

/-! ## §2. What the hook makes of a report. -/

theorem highWord (high low : UInt16) :
    ((high.toUInt32 <<< 16 ||| low.toUInt32) >>> 16).toUInt16 = high := by
  have hhigh : high.toNat < 2 ^ 16 := high.toNat_lt
  have hlow : low.toNat < 2 ^ 16 := low.toNat_lt
  have hfits : high.toNat <<< 16 < 2 ^ 32 := by
    rw [Nat.shiftLeft_eq]
    omega
  apply UInt16.toNat_inj.mp
  simp only [UInt32.toNat_toUInt16, UInt32.toNat_shiftRight, UInt32.toNat_or,
    UInt32.toNat_shiftLeft, UInt16.toNat_toUInt32]
  show (high.toNat <<< 16 % 2 ^ 32 ||| low.toNat) >>> 16 % 2 ^ 16 = high.toNat
  rw [Nat.mod_eq_of_lt hfits, Nat.shiftRight_or_distrib, Nat.shiftLeft_shiftRight,
    Nat.shiftRight_eq_zero _ _ hlow, Nat.or_zero, Nat.mod_eq_of_lt hhigh]

/-- A report becomes the message of its whole notches. -/
theorem builds_scroll (s : HookThread) (e : Scroll) :
    s.builds e.hookCall = some (.mouseWheel 0 (e.delta / 120).toInt32) := by
  have hdelta : (e.info.mouseData >>> 16).toUInt16.toInt16 = e.delta := by
    show ((e.delta.toUInt16.toUInt32 <<< 16 ||| e.lowWord.toUInt32) >>> 16).toUInt16.toInt16 = _
    rw [highWord, Int16.toInt16_toUInt16]
  show (mouseMsg WM_MOUSEWHEEL e.info s.lastMousePos).1 = _
  rw [← hdelta]
  rfl

/-- The division truncates. -/
theorem toInt_notches (delta : Int16) : (delta / 120).toInt32.toInt = delta.toInt.tdiv 120 := by
  rw [Int16.toInt_toInt32, Int16.toInt_div_of_ne_right delta 120 (by decide)]
  rfl

/-! ## §3. A list of reports. -/

/-- One message for each report, whatever the hook thread remembers. -/
theorem scrolled_eq (s : HookThread) (es : List Scroll) :
    s.scrolled es = es.map fun e => .mouseWheel 0 (e.delta / 120).toInt32 := by
  unfold HookThread.scrolled
  rw [HookThread.emitted_map es s fun e _ s => builds_scroll s e, List.filterMap_eq_map']

/-- **What is emitted for a list of reports** is the sum of their whole notches. -/
theorem notchesUp_scrolled (s : HookThread) (es : List Scroll) :
    notchesUp (s.scrolled es) = (es.map fun e => e.delta.toInt.tdiv 120).sum := by
  unfold notchesUp
  rw [scrolled_eq, List.map_map]
  congr 1
  refine List.map_congr_left ?_
  intro e _
  exact toInt_notches e.delta

/-- **The drift is what is left over.** -/
theorem drift_eq (s : HookThread) (es : List Scroll) :
    turned es - 120 * notchesUp (s.scrolled es) = leftOver es := by
  rw [notchesUp_scrolled]
  unfold turned leftOver
  induction es with
  | nil => rfl
  | cons e es ih =>
      have hsplit := Int.mul_tdiv_add_tmod e.delta.toInt 120
      simp only [List.map_cons, List.sum_cons]
      omega

/-- Reports of whole notches are emitted exactly. -/
theorem scrolled_whole_notches (s : HookThread) {es : List Scroll}
    (h : ∀ e ∈ es, (120 : Int) ∣ e.delta.toInt) :
    turned es = 120 * notchesUp (s.scrolled es) := by
  have hnone : leftOver es = 0 := by
    unfold leftOver
    refine List.sum_eq_zero ?_
    intro r hr
    obtain ⟨e, he, rfl⟩ := List.mem_map.mp hr
    exact Int.tmod_eq_zero_of_dvd (h e he)
  have hdrift := drift_eq s es
  omega

/-- Slow scrolling, by less than a notch at a time, is lost altogether. -/
theorem scrolled_slowly (s : HookThread) {es : List Scroll}
    (h : ∀ e ∈ es, e.delta.toInt.natAbs < 120) : notchesUp (s.scrolled es) = 0 := by
  rw [notchesUp_scrolled]
  refine List.sum_eq_zero ?_
  intro q hq
  obtain ⟨e, he, rfl⟩ := List.mem_map.mp hq
  rw [← Int.natAbs_eq_zero, Int.natAbs_tdiv]
  exact Nat.div_eq_of_lt (h e he)

/-! ## §4. What the backends turn. -/

/-- The turn Windows is asked for, in 1/120 notches. -/
def winTurned (overflowChecks : Bool) (mapVirtualKeyW : MapVirtualKeyW) (msg : Message) : Int :=
  match WinInject.handle overflowChecks mapVirtualKeyW msg with
  | .ok (some (.mouse mi)) => mi.mouseData.toInt32.toInt
  | _ => 0

/-- The turn Linux is asked for, in notches. -/
def linuxTurned (msg : Message) : Int :=
  ((linuxEvents msg).map fun e =>
    if e.eventType = .relative ∧ e.code = REL_WHEEL then e.value.toInt else 0).sum

/-- An emitted turn is far from overflowing. -/
theorem mem_scrolled {s : HookThread} {es : List Scroll} {msg : Message}
    (h : msg ∈ s.scrolled es) : ∃ dy, msg = .mouseWheel 0 dy ∧ dy.toInt.natAbs ≤ 273 := by
  rw [scrolled_eq] at h
  obtain ⟨e, _, rfl⟩ := List.mem_map.mp h
  have hlo : -2 ^ 15 ≤ e.delta.toInt := Int16.le_toInt e.delta
  have hhi : e.delta.toInt < 2 ^ 15 := Int16.toInt_lt e.delta
  have hle : e.delta.toInt.natAbs ≤ 32768 := by omega
  refine ⟨(e.delta / 120).toInt32, rfl, ?_⟩
  rw [toInt_notches, Int.natAbs_tdiv]
  exact Nat.div_le_div_right (c := 120) hle

/-- **Both backends turn the wheel by what was emitted.** -/
theorem turned_of_scrolled {s : HookThread} {es : List Scroll} {msg : Message}
    (h : msg ∈ s.scrolled es) (overflowChecks : Bool) (mapVirtualKeyW : MapVirtualKeyW) :
    winTurned overflowChecks mapVirtualKeyW msg = 120 * (notches msg).2
      ∧ linuxTurned msg = (notches msg).2 := by
  obtain ⟨dy, rfl, hdy⟩ := mem_scrolled h
  constructor
  · obtain ⟨data, hdata, hprod⟩ := (mulI32_exact_iff overflowChecks dy 120).mpr
      ((fits_wheel_iff dy).mpr (by omega))
    have hsent : WinInject.handle overflowChecks mapVirtualKeyW (.mouseWheel 0 dy)
        = .ok (some (WinInject.sendMouse MOUSEEVENTF_WHEEL 0 0 data)) :=
      CheckedInt.bind_eq_ok_iff.mpr ⟨data, hdata, rfl⟩
    unfold winTurned
    rw [hsent]
    show data.toUInt32.toInt32.toInt = 120 * dy.toInt
    rw [Int32.toInt32_toUInt32, hprod, Int.mul_comm]
    rfl
  · unfold linuxTurned
    by_cases hzero : dy = 0
    · rw [hzero]
      rfl
    · simp [linuxEvents, relative, hzero, notches]

/-! ## §5. When scrolling is conserved. -/

/-- After every prefix, what was emitted is less than a notch from what was turned. -/
def ScrollConserved (s : HookThread) (es : List Scroll) : Prop :=
  ∀ pre, pre <+: es → |turned pre - 120 * notchesUp (s.scrolled pre)| < 120

/-- **SCROLLING IS CONSERVED EXACTLY WHILE THE REMAINDERS STAY BELOW A NOTCH.**  Both
backends turn the wheel by what is emitted; and that is within a notch of what was turned,
throughout, exactly if the remainders of the reports add up to less than a notch,
throughout. -/
theorem scroll_conserved_iff (s : HookThread) (es : List Scroll) :
    (∀ msg ∈ s.scrolled es, ∀ overflowChecks mapVirtualKeyW,
        winTurned overflowChecks mapVirtualKeyW msg = 120 * (notches msg).2
          ∧ linuxTurned msg = (notches msg).2)
      ∧ (ScrollConserved s es ↔ ∀ pre, pre <+: es → |leftOver pre| < 120) := by
  refine ⟨fun msg hmsg => turned_of_scrolled hmsg, ?_⟩
  unfold ScrollConserved
  simp only [drift_eq]

/-- Two half notches of a high-resolution wheel are a notch for the user and nothing for
the peer. -/
theorem half_notches_lost : ¬ ∀ (s : HookThread) (es : List Scroll), ScrollConserved s es := by
  intro h
  have hboth := h HookThread.new [⟨60, (0, 0), 0⟩, ⟨60, (0, 0), 0⟩] _ List.prefix_rfl
  rw [drift_eq] at hboth
  revert hboth
  decide

end Dshare.Input
