/-
  Dshare.Lib.Simulation
  ─────────────────────
  **REFINEMENT AND COMING TO REST.**

  Two rules about the systems of `Dshare.Lib.Transition` that look at more than one
  state.

  A step may show an event, and what a run shows is its trace.  A system refines
  another if a relation between their states survives each of its steps: the other
  answers with any number of steps of its own that show the same.  Then every trace
  of the first is a trace of the second.

  Some of the actions of a system may be its own work, with a measure that each of
  them lowers.  Then no run works longer than the measure says; and if a state that is
  not at rest can always work, then one that cannot is at rest.  Where other actions
  raise the measure, a run works no longer than they allow.
-/
import Dshare.Lib.Transition

namespace Transition

variable {σ α τ β ε : Type}

/-! ## §1. Traces. -/

/-- What the run of the listed actions shows, as far as they are enabled. -/
def System.trace (S : System σ α) (event : σ → α → Option ε) (s : σ) : List α → List ε
  | [] => []
  | a :: as =>
      (event s a).toList ++ ((S.step s a).map fun s' => S.trace event s' as).getD []

theorem System.run_cons {S : System σ α} {s u : σ} {a : α} {as : List α} :
    S.run s (a :: as) = some u ↔ ∃ t, S.step s a = some t ∧ S.run t as = some u :=
  Option.bind_eq_some_iff

theorem System.trace_cons {S : System σ α} {event : σ → α → Option ε} {s t : σ} {a : α}
    (h : S.step s a = some t) (as : List α) :
    S.trace event s (a :: as) = (event s a).toList ++ S.trace event t as := by
  show (event s a).toList ++ ((S.step s a).map fun s' => S.trace event s' as).getD [] = _
  rw [h]
  rfl

/-- A run shows what its first part shows and then what its second part shows. -/
theorem System.trace_append {S : System σ α} {event : σ → α → Option ε} {as : List α} :
    ∀ {s t : σ}, S.run s as = some t → ∀ bs : List α,
      S.trace event s (as ++ bs) = S.trace event s as ++ S.trace event t bs := by
  induction as with
  | nil =>
      intro s t h bs
      cases h
      rfl
  | cons a as ih =>
      intro s t h bs
      obtain ⟨u, hu, hrun⟩ := System.run_cons.mp h
      rw [List.cons_append, System.trace_cons hu, System.trace_cons hu, ih hrun, List.append_assoc]

/-! ## §2. Refinement. -/

/-- `R` relates the states of `C` to those of `A` that answer its steps. -/
structure Simulates (C : System σ α) (A : System τ β) (eventC : σ → α → Option ε)
    (eventA : τ → β → Option ε) (R : σ → τ → Prop) : Prop where
  init : R C.init A.init
  step : ∀ {s : σ} {t : τ} {a : α} {s' : σ}, R s t → C.step s a = some s' →
    ∃ bs t', A.run t bs = some t' ∧ A.trace eventA t bs = (eventC s a).toList ∧ R s' t'

/-- **REFINEMENT RULE**: whatever a run of `C` shows, some run of `A` shows, and it leads to
a related state. -/
theorem Simulates.run {C : System σ α} {A : System τ β} {eventC : σ → α → Option ε}
    {eventA : τ → β → Option ε} {R : σ → τ → Prop} (h : Simulates C A eventC eventA R)
    {as : List α} :
    ∀ {s : σ} {t : τ} {s' : σ}, R s t → C.run s as = some s' →
      ∃ bs t', A.run t bs = some t' ∧ A.trace eventA t bs = C.trace eventC s as ∧ R s' t' := by
  induction as with
  | nil =>
      intro s t s' hR hrun
      cases hrun
      exact ⟨[], t, rfl, rfl, hR⟩
  | cons a as ih =>
      intro s t s' hR hrun
      obtain ⟨u, hu, hrest⟩ := System.run_cons.mp hrun
      obtain ⟨bs, v, hbs, htrace, hRu⟩ := h.step hR hu
      obtain ⟨cs, t', hcs, htrace', hRs⟩ := ih hRu hrest
      refine ⟨bs ++ cs, t', ?_, ?_, hRs⟩
      · rw [System.run_append, hbs]
        exact hcs
      · rw [System.trace_append hbs, System.trace_cons hu, htrace, htrace']

/-! ## §3. Work. -/

/-- Among the `allowed` actions, the `busy` ones lower `work` and the others do not raise it. -/
structure Works (S : System σ α) (I : σ → Prop) (allowed : α → Prop) (busy : α → Bool)
    (work : σ → Nat) : Prop where
  keeps : ∀ {s : σ} {a : α} {s' : σ}, I s → allowed a → S.step s a = some s' → I s'
  lowers : ∀ {s : σ} {a : α} {s' : σ}, I s → allowed a → S.step s a = some s' → busy a = true →
    work s' < work s
  atMost : ∀ {s : σ} {a : α} {s' : σ}, I s → allowed a → S.step s a = some s' → busy a = false →
    work s' ≤ work s

variable {S : System σ α} {I : σ → Prop} {allowed : α → Prop} {busy : α → Bool} {work : σ → Nat}

/-- **No run works longer than the measure says.** -/
theorem Works.run (h : Works S I allowed busy work) {as : List α} :
    ∀ {s s' : σ}, I s → (∀ a ∈ as, allowed a) → S.run s as = some s' →
      I s' ∧ as.countP busy + work s' ≤ work s := by
  induction as with
  | nil =>
      intro s s' hI _ hrun
      cases hrun
      refine ⟨hI, ?_⟩
      show 0 + work s ≤ work s
      omega
  | cons a as ih =>
      intro s s' hI hall hrun
      obtain ⟨u, hu, hrest⟩ := System.run_cons.mp hrun
      have ha : allowed a := hall a List.mem_cons_self
      obtain ⟨hI', hcount⟩ :=
        ih (h.keeps hI ha hu) (fun b hb => hall b (List.mem_cons_of_mem a hb)) hrest
      refine ⟨hI', ?_⟩
      rw [List.countP_cons]
      cases hbusy : busy a with
      | true =>
          have hless := h.lowers hI ha hu hbusy
          simp only [if_true]
          omega
      | false =>
          have hle := h.atMost hI ha hu hbusy
          simp only [Bool.false_eq_true, if_false]
          omega

/-- **A system that can work as long as it is not at rest comes to rest** by its own work. -/
theorem Works.settles (h : Works S I allowed busy work) {rest : σ → Prop}
    (hwork : ∀ {s : σ}, I s → ¬ rest s →
      ∃ a s', allowed a ∧ busy a = true ∧ S.step s a = some s')
    {s : σ} (hI : I s) :
    ∃ as s', (∀ a ∈ as, allowed a ∧ busy a = true) ∧ S.run s as = some s' ∧ rest s' := by
  generalize hn : work s = n
  induction n using Nat.strongRecOn generalizing s with
  | ind n ih =>
      -- on what is left to do
      by_cases hrest : rest s
      · exact ⟨[], s, fun a ha => absurd ha List.not_mem_nil, rfl, hrest⟩
      · obtain ⟨a, t, ha, hbusy, hstep⟩ := hwork hI hrest
        have hless : work t < n := hn ▸ h.lowers hI ha hstep hbusy
        obtain ⟨as, s', hall, hrun, hs'⟩ := ih (work t) hless (h.keeps hI ha hstep) rfl
        refine ⟨a :: as, s', ?_, System.run_cons.mpr ⟨t, hstep, hrun⟩, hs'⟩
        intro b hb
        rcases List.mem_cons.mp hb with rfl | hb
        · exact ⟨ha, hbusy⟩
        · exact hall b hb

end Transition
