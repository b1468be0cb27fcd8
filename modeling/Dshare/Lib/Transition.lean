/-
  Dshare.Lib.Transition
  ─────────────────────
  **TRANSITION SYSTEMS, THEIR RUNS AND THEIR INVARIANTS.**

  A system has one initial state and a partial step for every action; an action
  that has no step in a state is not enabled there.  A run is a list of actions
  taken one after the other.  Three induction rules are packaged here: an invariant
  of the steps is an invariant of the reachable states; a relation between the
  actions taken so far and the state they lead to is proved by what one more
  action does to it; and a run keeps a property throughout exactly while each of
  its steps meets the condition under which one step keeps it.
-/
import Mathlib.Data.List.Induction

namespace Transition

/-- A labelled transition system. -/
structure System (σ α : Type) where
  init : σ
  step : σ → α → Option σ

variable {σ α : Type}

/-- The state after the listed actions, if each of them is enabled in turn. -/
def System.run (S : System σ α) (s : σ) : List α → Option σ
  | [] => some s
  | a :: as => (S.step s a).bind fun s' => S.run s' as

/-- A state some run from the initial state leads to. -/
def System.Reachable (S : System σ α) (s : σ) : Prop := ∃ as, S.run S.init as = some s

/-- What holds of a state and is preserved by each step holds after a run. -/
theorem System.run_invariant (S : System σ α) {P : σ → Prop}
    (hstep : ∀ s a s', P s → S.step s a = some s' → P s') :
    ∀ (as : List α) {s s' : σ}, P s → S.run s as = some s' → P s' := by
  intro as
  induction as with
  | nil => intro s s' hs h; cases h; exact hs
  | cons a as ih =>
      intro s s' hs h
      simp only [run] at h
      cases ha : S.step s a with
      | none => rw [ha] at h; cases h
      | some t => rw [ha] at h; exact ih (hstep s a t hs ha) h

/-- **Invariant rule for reachable states.** -/
theorem System.Reachable.invariant {S : System σ α} {P : σ → Prop} (hinit : P S.init)
    (hstep : ∀ s a s', P s → S.step s a = some s' → P s') {s : σ} (h : S.Reachable s) :
    P s := by
  obtain ⟨as, has⟩ := h
  exact S.run_invariant hstep as hinit has

/-- Running on. -/
theorem System.run_append (S : System σ α) (s : σ) (as bs : List α) :
    S.run s (as ++ bs) = (S.run s as).bind fun t => S.run t bs := by
  induction as generalizing s with
  | nil => rfl
  | cons a as ih =>
      show (S.step s a).bind (fun t => S.run t (as ++ bs)) = _
      rw [show S.run s (a :: as) = (S.step s a).bind fun t => S.run t as from rfl,
        Option.bind_assoc]
      exact congrArg (Option.bind _) (funext fun t => ih t)

/-- A run ends with its last step. -/
theorem System.run_snoc {S : System σ α} {s u : σ} {as : List α} {a : α} :
    S.run s (as ++ [a]) = some u ↔ ∃ t, S.run s as = some t ∧ S.step t a = some u := by
  have hone : ∀ t, S.run t [a] = S.step t a := fun t => Option.bind_fun_some (S.step t a)
  rw [run_append, Option.bind_eq_some_iff]
  simp only [hone]

theorem System.Reachable.step {S : System σ α} {s s' : σ} {a : α} (h : S.Reachable s)
    (hstep : S.step s a = some s') : S.Reachable s' := by
  obtain ⟨as, has⟩ := h
  exact ⟨as ++ [a], System.run_snoc.mpr ⟨s, has, hstep⟩⟩

/-- **Invariant rule for a run and its history**: what relates no actions to the initial
state and survives one more relates the actions taken to the state they lead to. -/
theorem System.run_history {S : System σ α} {I : List α → σ → Prop} (hinit : I [] S.init)
    (hstep : ∀ as s a s', I as s → S.step s a = some s' → I (as ++ [a]) s') {as : List α} {s : σ}
    (hrun : S.run S.init as = some s) : I as s := by
  induction as using List.reverseRecOn generalizing s with
  | nil =>
      cases hrun
      exact hinit
  | append_singleton as a ih =>
      obtain ⟨t, ht, hs⟩ := System.run_snoc.mp hrun
      exact hstep as t a s (ih ht) hs

/-- `P` holds in every state of the run of `as`. -/
def System.Always (S : System σ α) (P : σ → Prop) (s : σ) (as : List α) : Prop :=
  ∀ pre post t, as = pre ++ post → S.run s pre = some t → P t

/-- Every step of the run of `as` meets `C`: the actions before it, the state before it,
and its own action. -/
def System.Each (S : System σ α) (C : List α → σ → α → Prop) (s : σ) (as : List α) : Prop :=
  ∀ pre a post t, as = pre ++ a :: post → S.run s pre = some t → C pre t a

/-- **Invariant rule for a run whose steps meet a condition.** -/
theorem System.run_each {S : System σ α} {P : σ → Prop} {C : σ → α → Prop}
    (hstep : ∀ s a s', P s → C s a → S.step s a = some s' → P s') {as : List α} :
    ∀ {s s' : σ}, P s → S.Each (fun _ => C) s as → S.run s as = some s' → P s' := by
  induction as with
  | nil => intro s s' hs _ h; cases h; exact hs
  | cons a as ih =>
      intro s s' hs hall h
      obtain ⟨t, ht, hrest⟩ := Option.bind_eq_some_iff.mp h
      refine ih (hstep s a t hs (hall [] a as s rfl rfl) ht) ?_ hrest
      intro pre b post u hsplit hrun
      refine hall (a :: pre) b post u (by rw [hsplit]; rfl) ?_
      show (S.step s a).bind _ = _
      rw [ht]
      exact hrun

theorem System.always_nil {S : System σ α} {P : σ → Prop} {s : σ} :
    S.Always P s [] ↔ P s := by
  constructor
  · intro h
    exact h [] [] s rfl rfl
  · intro h pre post t hsplit hrun
    obtain ⟨rfl, -⟩ := List.nil_eq_append_iff.mp hsplit
    cases hrun
    exact h

theorem System.always_snoc {S : System σ α} {P : σ → Prop} {s : σ} {as : List α} {a : α} :
    S.Always P s (as ++ [a])
      ↔ S.Always P s as ∧ ∀ u, S.run s (as ++ [a]) = some u → P u := by
  constructor
  · intro h
    refine ⟨fun pre post t hsplit => h pre (post ++ [a]) t ?_,
      fun u => h (as ++ [a]) [] u (List.append_nil _).symm⟩
    rw [hsplit, List.append_assoc]
  · intro h pre post t hsplit hrun
    rcases List.eq_nil_or_concat post with rfl | ⟨mid, b, rfl⟩
    · rw [List.append_nil] at hsplit
      exact h.2 t (hsplit ▸ hrun)
    · rw [List.concat_eq_append, ← List.append_assoc] at hsplit
      exact h.1 pre mid t (List.append_inj_left' hsplit rfl) hrun

theorem System.each_nil {S : System σ α} {C : List α → σ → α → Prop} {s : σ} : S.Each C s [] := by
  intro pre a post t hsplit _
  simp at hsplit

theorem System.each_snoc {S : System σ α} {C : List α → σ → α → Prop} {s : σ} {as : List α}
    {a : α} :
    S.Each C s (as ++ [a]) ↔ S.Each C s as ∧ ∀ t, S.run s as = some t → C as t a := by
  constructor
  · intro h
    refine ⟨fun pre b post t hsplit => h pre b (post ++ [a]) t ?_, fun t => h as a [] t rfl⟩
    rw [hsplit, List.append_assoc, List.cons_append]
  · intro h pre b post t hsplit hrun
    rcases List.eq_nil_or_concat post with rfl | ⟨mid, c, rfl⟩
    · obtain ⟨rfl, hb⟩ := List.append_inj' hsplit rfl
      cases hb
      exact h.2 t hrun
    · rw [List.concat_eq_append, ← List.cons_append, ← List.append_assoc] at hsplit
      exact h.1 pre b mid t (List.append_inj_left' hsplit rfl) hrun

/-- **A run keeps a property throughout exactly while its steps do.**  `I` is what is known
of a state as long as `P` has held, and `C` is when a step from such a state keeps `P`; both
may use that the step is one of this run. -/
theorem System.always_iff_each {S : System σ α} {I : List α → σ → Prop} {P : σ → Prop}
    {C : List α → σ → α → Prop} (hinit : I [] S.init) (hP : P S.init) {as : List α}
    (hinv : ∀ pre s a s', pre ++ [a] <+: as → I pre s → P s → S.step s a = some s' → P s' →
      I (pre ++ [a]) s')
    (hstep : ∀ pre s a s', pre ++ [a] <+: as → I pre s → P s → S.step s a = some s' →
      (P s' ↔ C pre s a))
    {s : σ} (hrun : S.run S.init as = some s) :
    S.Always P S.init as ↔ S.Each C S.init as := by
  -- for every prefix at once, with the invariant as long as `P` has held
  have key : ∀ (pre : List α) (s : σ), pre <+: as → S.run S.init pre = some s →
      (S.Always P S.init pre ↔ S.Each C S.init pre)
        ∧ (S.Always P S.init pre → I pre s ∧ P s) := by
    intro pre
    induction pre using List.reverseRecOn with
    | nil =>
        intro s _ hrun
        cases hrun
        exact ⟨⟨fun _ => System.each_nil, fun _ => System.always_nil.mpr hP⟩,
          fun _ => ⟨hinit, hP⟩⟩
    | append_singleton pre a ih =>
        intro s' hpre hrun
        obtain ⟨s, hs, hs'⟩ := System.run_snoc.mp hrun
        obtain ⟨hiff, hknown⟩ := ih s ((List.prefix_append pre [a]).trans hpre) hs
        have hlast : ∀ u, S.run S.init (pre ++ [a]) = some u ↔ u = s' := by
          intro u
          rw [hrun, Option.some.injEq]
          exact eq_comm
        have hbefore : ∀ t, S.run S.init pre = some t ↔ t = s := by
          intro t
          rw [hs, Option.some.injEq]
          exact eq_comm
        simp only [System.always_snoc, System.each_snoc, hlast, hbefore, forall_eq]
        constructor
        · constructor
          · intro h
            obtain ⟨hIs, hPs⟩ := hknown h.1
            exact ⟨hiff.mp h.1, (hstep pre s a s' hpre hIs hPs hs').mp h.2⟩
          · intro h
            have halways := hiff.mpr h.1
            obtain ⟨hIs, hPs⟩ := hknown halways
            exact ⟨halways, (hstep pre s a s' hpre hIs hPs hs').mpr h.2⟩
        · intro h
          obtain ⟨hIs, hPs⟩ := hknown h.1
          exact ⟨hinv pre s a s' hpre hIs hPs hs' h.2, h.2⟩
  exact (key as s (List.prefix_refl as) hrun).1

/-- **Invariant rule for a deterministic machine and the history it has seen**:
what relates the empty history to the initial state and survives one more action
relates every history to the state it leads to. -/
theorem foldl_history {step : σ → α → σ} {s₀ : σ} {P : List α → σ → Prop} (hinit : P [] s₀)
    (hstep : ∀ as s a, P as s → P (as ++ [a]) (step s a)) (as : List α) :
    P as (as.foldl step s₀) := by
  have key : ∀ (bs pre : List α) (s : σ), P pre s → P (pre ++ bs) (bs.foldl step s) := by
    intro bs
    induction bs with
    | nil => intro pre s h; simpa using h
    | cons b bs ih =>
        intro pre s h
        have := ih (pre ++ [b]) (step s b) (hstep pre s b h)
        rwa [List.append_assoc, List.singleton_append] at this
  exact key as [] s₀ hinit

end Transition
