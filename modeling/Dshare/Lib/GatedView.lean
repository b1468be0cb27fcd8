/-
  Dshare.Lib.GatedView
  ────────────────────
  **A VIEW OF TWO-POSITION KEYS THAT IS CUT OFF FROM TIME TO TIME.**

  Keys go down and up.  A view learns of a change while its gate is open, and not
  when the gate is closed or moves.  What the view takes to be down can then be up
  in fact; `held_iff_severed` says when: exactly if the key was down, in fact and in
  the view, at a moment the gate closed, and no change of it has come through since.

  Nothing is assumed about the order of the changes.
-/
import Mathlib.Data.List.Induction
import Dshare.Lib.Transition

namespace GatedView

open Transition

variable {σ α κ : Type} [DecidableEq κ]

/-- What is down after a list of changes, each of a key to a position. -/
def lastDown (key : α → κ) (down : α → Bool) (as : List α) (k : κ) : Bool :=
  as.foldl (fun d a => if key a = k then down a else d) false

@[simp] theorem lastDown_snoc (key : α → κ) (down : α → Bool) (as : List α) (a : α) (k : κ) :
    lastDown key down (as ++ [a]) k = if key a = k then down a else lastDown key down as k := by
  simp [lastDown]

/-- A machine driven by changes of keys, and one view of the keys in its state. -/
structure View (σ α κ : Type) [DecidableEq κ] where
  init : σ
  step : σ → α → σ
  key : α → κ
  down : α → Bool
  /-- The gate of the view. -/
  gate : σ → Bool
  /-- The keys the view can learn about at all. -/
  visible : κ → Bool
  /-- What the view takes to be down. -/
  held : σ → κ → Bool
  held_init : ∀ k, held init k = false
  /-- A change comes through while the gate is open and stays open. -/
  held_step : ∀ s a k, held (step s a) k =
    if key a = k ∧ (gate s && gate (step s a) && visible k) = true then down a else held s k

variable (V : View σ α κ)

/-- The state after a list of changes. -/
def View.after (as : List α) : σ := as.foldl V.step V.init

@[simp] theorem View.after_snoc (as : List α) (a : α) :
    V.after (as ++ [a]) = V.step (V.after as) a := by
  simp [after]

/-- The change `a` comes through in the state `s`. -/
def View.seen (s : σ) (a : α) : Bool :=
  V.gate s && V.gate (V.step s a) && V.visible (V.key a)

/-- The key was down, in fact and in the view, when the gate closed, and no change of
it was seen since. -/
def View.Severed (as : List α) (k : κ) : Prop :=
  ∃ pre a post, as = pre ++ a :: post
    ∧ lastDown V.key V.down pre k = true ∧ V.held (V.after pre) k = true
    ∧ V.gate (V.after pre) = true ∧ V.gate (V.after (pre ++ [a])) = false
    ∧ ∀ mid b rest, post = mid ++ b :: rest → V.key b = k →
        V.seen (V.after (pre ++ a :: mid)) b = false

variable {V}

/-- A severed key stays severed until a change of it is seen. -/
theorem View.Severed.snoc {as : List α} {k : κ} (h : V.Severed as k) (b : α)
    (hb : V.key b = k → V.seen (V.after as) b = false) : V.Severed (as ++ [b]) k := by
  obtain ⟨pre, a, post, has, hdown, hheld, hopen, hclosed, hpost⟩ := h
  refine ⟨pre, a, post ++ [b], by simp [has], hdown, hheld, hopen, hclosed, ?_⟩
  intro mid c rest hsplit hkey
  cases rest using List.reverseRecOn with
  | nil =>
      -- the change just appended
      obtain ⟨rfl, hc⟩ := List.append_inj' hsplit rfl
      obtain ⟨rfl, _⟩ := List.cons.inj hc
      rw [← has]
      exact hb hkey
  | append_singleton rest e =>
      -- a change of the old history
      have hold : post ++ [b] = (mid ++ c :: rest) ++ [e] := by simpa using hsplit
      obtain ⟨hpost', _⟩ := List.append_inj' hold rfl
      exact hpost mid c rest hpost' hkey

variable (V) in
/-- What the view takes to be down is accounted for by the history. -/
def View.Accounted (as : List α) (s : σ) : Prop :=
  s = V.after as ∧ ∀ k, V.held s k = true →
    V.visible k = true
      ∧ ((lastDown V.key V.down as k = true ∧ V.gate s = true) ∨ V.Severed as k)

/-- One more change is accounted for. -/
theorem View.Accounted.step (as : List α) (s : σ) (a : α) (h : V.Accounted as s) :
    V.Accounted (as ++ [a]) (V.step s a) := by
  obtain ⟨rfl, ih⟩ := h
  refine ⟨by simp, ?_⟩
  intro k hk
  rw [V.held_step] at hk
  by_cases hseen : V.key a = k ∧ (V.gate (V.after as) && V.gate (V.step (V.after as) a)
      && V.visible k) = true
  · -- the change comes through, so the view knows the position
    rw [if_pos hseen] at hk
    obtain ⟨hkey, hgates⟩ := hseen
    simp only [Bool.and_eq_true] at hgates
    exact ⟨hgates.2, .inl ⟨by simp [hkey, hk], hgates.1.2⟩⟩
  · rw [if_neg hseen] at hk
    obtain ⟨hvis, hcase⟩ := ih k hk
    refine ⟨hvis, ?_⟩
    have hunseen : V.key a = k → V.seen (V.after as) a = false := by
      intro hkey
      rw [View.seen, hkey]
      exact Bool.eq_false_iff.mpr fun h => hseen ⟨hkey, h⟩
    rcases hcase with ⟨hdown, hgate⟩ | hsev
    · cases hgate' : V.gate (V.step (V.after as) a) with
      | false =>
          -- the gate closes on a key that is down
          exact .inr ⟨as, a, [], rfl, hdown, hk, hgate, by simpa using hgate',
            fun mid b rest h => by simp at h⟩
      | true =>
          -- the gate stays open, so the change is of another key
          have hkey : V.key a ≠ k := by
            intro hkey
            apply hseen
            simp [hkey, hgate, hgate', hvis]
          exact .inl ⟨by simp [hkey, hdown], rfl⟩
    · exact .inr (hsev.snoc a hunseen)

/-- A change that is not seen leaves the view as it is. -/
theorem View.held_step_of_unseen {s : σ} {a : α} {k : κ} (h : V.key a = k → V.seen s a = false) :
    V.held (V.step s a) k = V.held s k := by
  rw [V.held_step]
  apply if_neg
  intro hseen
  obtain ⟨hkey, hgates⟩ := hseen
  have hno := h hkey
  rw [View.seen, hkey, hgates] at hno
  cases hno

/-- The view takes a severed key to be down. -/
theorem View.Severed.held {as : List α} {k : κ} (h : V.Severed as k) :
    V.held (V.after as) k = true := by
  obtain ⟨pre, a, post, rfl, _, hheld, _, hclosed, hpost⟩ := h
  induction post using List.reverseRecOn with
  | nil =>
      -- the gate closes before the change can come through
      rw [View.after_snoc] at hclosed ⊢
      rw [View.held_step_of_unseen, hheld]
      intro _
      simp [View.seen, hclosed]
  | append_singleton post b ih =>
      have hbefore : V.held (V.after (pre ++ a :: post)) k = true := by
        apply ih
        intro mid c rest hsplit
        exact hpost mid c (rest ++ [b]) (by simp [hsplit])
      rw [← List.cons_append, ← List.append_assoc, View.after_snoc,
        View.held_step_of_unseen (hpost post b [] rfl), hbefore]

/-- **WHAT A VIEW TAKES TO BE DOWN** is down while the gate is open, or severed. -/
theorem View.held_cause (as : List α) (k : κ) (hheld : V.held (V.after as) k = true) :
    V.visible k = true
      ∧ ((lastDown V.key V.down as k = true ∧ V.gate (V.after as) = true) ∨ V.Severed as k) := by
  have hstart : V.Accounted [] V.init := by
    refine ⟨rfl, ?_⟩
    intro k hk
    rw [V.held_init] at hk
    cases hk
  have hall : V.Accounted as (as.foldl V.step V.init) :=
    foldl_history hstart View.Accounted.step as
  exact hall.2 k hheld

/-- **A KEY THAT IS UP IN FACT** is down in the view exactly if it is severed. -/
theorem View.held_iff_severed {as : List α} {k : κ} (hup : lastDown V.key V.down as k = false) :
    V.held (V.after as) k = true ↔ V.Severed as k := by
  constructor
  · intro hheld
    obtain ⟨_, ⟨hdown, _⟩ | hsev⟩ := V.held_cause as k hheld
    · rw [hup] at hdown
      cases hdown
    · exact hsev
  · intro hsev
    exact hsev.held

/-- **A CLOSED VIEW SHOWS WHAT IT SHOWED WHEN ITS GATE CLOSED.** -/
theorem View.held_frozen (hinit : V.gate V.init = true) {as : List α}
    (hclosed : V.gate (V.after as) = false) :
    ∃ pre a post, as = pre ++ a :: post
      ∧ V.gate (V.after pre) = true
      ∧ (∀ mid, mid <+: post → V.gate (V.after (pre ++ a :: mid)) = false)
      ∧ V.held (V.after as) = V.held (V.after pre) := by
  induction as using List.reverseRecOn with
  | nil =>
      rw [show V.after [] = V.init from rfl, hinit] at hclosed
      cases hclosed
  | append_singleton as a ih =>
      have hkept : V.held (V.after (as ++ [a])) = V.held (V.after as) := by
        funext k
        rw [View.after_snoc] at hclosed ⊢
        apply View.held_step_of_unseen
        intro _
        simp [View.seen, hclosed]
      cases hbefore : V.gate (V.after as) with
      | true =>
          -- the gate closes now
          refine ⟨as, a, [], rfl, hbefore, ?_, hkept⟩
          intro mid hmid
          rw [List.prefix_nil.mp hmid]
          exact hclosed
      | false =>
          obtain ⟨pre, b, post, rfl, hopen, hmids, hheld⟩ := ih hbefore
          refine ⟨pre, b, post ++ [a], by simp, hopen, ?_, hkept.trans hheld⟩
          intro mid hmid
          rcases List.prefix_concat_iff.mp hmid with rfl | hold
          · rw [← List.cons_append, ← List.append_assoc]
            exact hclosed
          · exact hmids mid hold

end GatedView
