/-
  Dshare.Input.Pointer
  ────────────────────
  **POINTER MOTION WHILE GRABBED.**

  Windows and the mouse hook, fed with physical displacements.  The hook remembers
  where the last event pointed; while the flag is on the events are swallowed, so
  the cursor itself stays where it was.  The remembered position and the cursor
  part after the first move, and the emitted deltas telescope to the last
  displacement alone (`motion_eq`).
-/
import Mathlib.Algebra.BigOperators.Group.List.Basic
import Mathlib.Algebra.Group.Prod
import Mathlib.Algebra.Ring.Int.Defs
import Dshare.Lib.CheckedInt
import Dshare.Input.Windows

namespace Dshare.Input

open Dshare.Protocol

/-! ## §1. The cursor and the hook. -/

/-- A physical move of the mouse; `mouseData` carries nothing then. -/
structure Move where
  displacement : Int × Int
  mouseData : UInt32

/-- The hook thread and the position of the cursor. -/
structure Pointer where
  hook : HookThread
  cursor : Int32 × Int32

/-- What Windows reports for a move: the cursor plus the displacement. -/
def Pointer.info (p : Pointer) (m : Move) : MSLLHOOKSTRUCT where
  pt := (Int32.ofInt (p.cursor.1.toInt + m.displacement.1),
    Int32.ofInt (p.cursor.2.toInt + m.displacement.2))
  mouseData := m.mouseData

/-- The hook call of a move. -/
def Pointer.hookCall (p : Pointer) (m : Move) : HookCall :=
  .mouse HC_ACTION WM_MOUSEMOVE (p.info m)

/-- One move: a swallowed event leaves the cursor where it was. -/
def Pointer.move (p : Pointer) (m : Move) : Pointer where
  hook := (p.hook.call (p.hookCall m)).2
  cursor := if (p.hook.call (p.hookCall m)).1 = .one then p.cursor else (p.info m).pt

/-- The messages emitted over a list of moves. -/
def Pointer.emitted (p : Pointer) : List Move → List Message
  | [] => []
  | m :: ms => (p.hook.builds (p.hookCall m)).toList ++ (p.move m).emitted ms

/-- The motion a message asks for. -/
def motion : Message → Int × Int
  | .mouseMove dx dy => (dx.toInt, dy.toInt)
  | _ => 0

def FitsI32 (n : Int) : Prop := -2 ^ 31 ≤ n ∧ n < 2 ^ 31

instance (n : Int) : Decidable (FitsI32 n) := inferInstanceAs (Decidable (_ ∧ _))

/-- No coordinate and no difference of two of them overflows along the moves. -/
def Pointer.NoOverflow (p : Pointer) : List Move → Prop
  | [] => True
  | m :: ms =>
      FitsI32 (p.cursor.1.toInt + m.displacement.1)
        ∧ FitsI32 (p.cursor.2.toInt + m.displacement.2)
        ∧ (∀ last, p.hook.lastMousePos = some last →
            FitsI32 (p.cursor.1.toInt + m.displacement.1 - last.1.toInt)
              ∧ FitsI32 (p.cursor.2.toInt + m.displacement.2 - last.2.toInt))
        ∧ (p.move m).NoOverflow ms

/-! ## §2. One move with the flag on. -/

theorem toInt_ofInt_of_fits {n : Int} (h : FitsI32 n) : (Int32.ofInt n).toInt = n := by
  obtain ⟨hlo, hhi⟩ := h
  exact Int32.toInt_ofInt_of_le hlo hhi

/-- A difference that does not overflow is the difference. -/
theorem toInt_sub_of_fits {a b : Int32} (h : FitsI32 (a.toInt - b.toInt)) :
    (a - b).toInt = a.toInt - b.toInt := CheckedInt.toInt_sub_iff.mpr h

/-- The hook takes the event and remembers where it pointed; the cursor stays. -/
theorem Pointer.move_grabbed {p : Pointer} (hgrab : p.hook.grabbed = true) (m : Move) :
    (p.move m).hook.grabbed = true ∧ (p.move m).cursor = p.cursor
      ∧ (p.move m).hook.lastMousePos = some (p.info m).pt := by
  have hone : (p.hook.call (p.hookCall m)).1 = .one := by
    show (mouseHookProc HC_ACTION WM_MOUSEMOVE (p.info m) p.hook).1 = .one
    rw [mouseHookProc_verdict, HookThread.verdict, hgrab, if_pos rfl]
  refine ⟨?_, ?_, ?_⟩
  · show (p.hook.call (p.hookCall m)).2.grabbed = true
    rw [HookThread.call_grabbed, hgrab]
    rfl
  · show (if (p.hook.call (p.hookCall m)).1 = .one then p.cursor else _) = p.cursor
    rw [if_pos hone]
  · show (mouseHookProc HC_ACTION WM_MOUSEMOVE (p.info m) p.hook).2.lastMousePos = _
    simp [mouseHookProc, mouseMsg]

/-- The delta of one move, from the remembered position. -/
theorem Pointer.motion_move {p : Pointer} {last : Int32 × Int32} {m : Move} {ms : List Move}
    (hlast : p.hook.lastMousePos = some last) (hno : p.NoOverflow (m :: ms)) :
    ((p.hook.builds (p.hookCall m)).toList.map motion).sum
      = (p.cursor.1.toInt + m.displacement.1 - last.1.toInt,
          p.cursor.2.toInt + m.displacement.2 - last.2.toInt) := by
  obtain ⟨hx, hy, hdiff, _⟩ := hno
  obtain ⟨hdx, hdy⟩ := hdiff last hlast
  have hbuilt : p.hook.builds (p.hookCall m)
      = some (.mouseMove ((p.info m).pt.1 - last.1) ((p.info m).pt.2 - last.2)) := by
    show (if HC_ACTION = HC_ACTION then (mouseMsg WM_MOUSEMOVE _ p.hook.lastMousePos).1 else none)
      = _
    rw [if_pos rfl, hlast]
    rfl
  have hptx : (p.info m).pt.1.toInt = p.cursor.1.toInt + m.displacement.1 := toInt_ofInt_of_fits hx
  have hpty : (p.info m).pt.2.toInt = p.cursor.2.toInt + m.displacement.2 := toInt_ofInt_of_fits hy
  rw [← hptx] at hdx ⊢
  rw [← hpty] at hdy ⊢
  rw [hbuilt]
  simp [motion, toInt_sub_of_fits hdx, toInt_sub_of_fits hdy]

/-! ## §3. A run of moves. -/

/-- **The deltas telescope**: they add up to where the last event pointed, seen
from the position remembered at the start. -/
theorem Pointer.motion_eq (ms : List Move) :
    ∀ (p : Pointer) (last : Int32 × Int32) (m : Move), p.hook.grabbed = true →
      p.hook.lastMousePos = some last → p.NoOverflow (m :: ms) →
      ((p.emitted (m :: ms)).map motion).sum
        = (p.cursor.1.toInt + ((m :: ms).getLast (by simp)).displacement.1 - last.1.toInt,
            p.cursor.2.toInt + ((m :: ms).getLast (by simp)).displacement.2 - last.2.toInt) := by
  induction ms with
  | nil =>
      intro p last m _ hlast hno
      simpa [emitted] using Pointer.motion_move hlast hno
  | cons m' ms ih =>
      intro p last m hgrab hlast hno
      obtain ⟨hgrab', hcur', hlast'⟩ := Pointer.move_grabbed hgrab m
      have hrest := ih (p.move m) (p.info m).pt m' hgrab' hlast' hno.2.2.2
      have hptx : (p.info m).pt.1.toInt = p.cursor.1.toInt + m.displacement.1 :=
        toInt_ofInt_of_fits hno.1
      have hpty : (p.info m).pt.2.toInt = p.cursor.2.toInt + m.displacement.2 :=
        toInt_ofInt_of_fits hno.2.1
      -- the first delta ends where the others start
      rw [emitted, List.map_append, List.sum_append, Pointer.motion_move hlast hno, hrest, hcur',
        hptx, hpty, List.getLast_cons (List.cons_ne_nil m' ms)]
      ext
      · show _ + _ = _
        omega
      · show _ + _ = _
        omega

/-- **MOTION IS CONSERVED EXACTLY WHEN ALL MOVES BUT THE LAST CANCEL OUT.** -/
theorem motion_conserved_iff (p : Pointer) (ms : List Move) (hgrab : p.hook.grabbed = true)
    (hlast : p.hook.lastMousePos = some p.cursor) (hno : p.NoOverflow ms) :
    ((p.emitted ms).map motion).sum = (ms.map Move.displacement).sum
      ↔ (ms.dropLast.map Move.displacement).sum = 0 := by
  cases ms with
  | nil => simp [Pointer.emitted]
  | cons m ms =>
      have hsplit : ((m :: ms).map Move.displacement).sum
          = ((m :: ms).dropLast.map Move.displacement).sum
            + ((m :: ms).getLast (by simp)).displacement := by
        conv_lhs => rw [← List.dropLast_append_getLast (l := m :: ms) (by simp)]
        simp
      rw [Pointer.motion_eq ms p p.cursor m hgrab hlast hno, hsplit]
      have hdelta : (p.cursor.1.toInt + ((m :: ms).getLast (by simp)).displacement.1
            - p.cursor.1.toInt,
          p.cursor.2.toInt + ((m :: ms).getLast (by simp)).displacement.2 - p.cursor.2.toInt)
          = ((m :: ms).getLast (by simp)).displacement := by
        ext <;> simp
      rw [hdelta]
      exact right_eq_add

/-- A pointer at the origin, grabbed, with the origin remembered. -/
def Pointer.atOrigin : Pointer := ⟨⟨BoundedFifo.Fifo.empty, true, some (0, 0)⟩, (0, 0)⟩

theorem motion_conserved_back_and_forth :
    ((Pointer.atOrigin.emitted [⟨(3, 1), 0⟩, ⟨(-3, -1), 0⟩, ⟨(2, 0), 0⟩]).map motion).sum
      = (2, 0) :=
  (motion_conserved_iff Pointer.atOrigin [⟨(3, 1), 0⟩, ⟨(-3, -1), 0⟩, ⟨(2, 0), 0⟩] rfl rfl
    ⟨by decide, by decide, fun _ h => by cases h; decide,
      by decide, by decide, fun _ h => by cases h; decide,
      by decide, by decide, fun _ h => by cases h; decide, trivial⟩).mpr (by decide)

/-- Two moves of one pixel to the right are emitted as one pixel. -/
theorem motion_lost :
    ¬ ∀ (p : Pointer) (ms : List Move), p.hook.grabbed = true →
      p.hook.lastMousePos = some p.cursor → p.NoOverflow ms →
      ((p.emitted ms).map motion).sum = (ms.map Move.displacement).sum := by
  intro h
  have hsum := h Pointer.atOrigin [⟨(1, 0), 0⟩, ⟨(1, 0), 0⟩] rfl rfl
    ⟨by decide, by decide, fun _ hl => by cases hl; decide,
      by decide, by decide, fun _ hl => by cases hl; decide, trivial⟩
  revert hsum
  decide

end Dshare.Input
