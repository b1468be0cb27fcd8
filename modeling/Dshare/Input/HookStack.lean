/-
  Dshare.Input.HookStack
  ──────────────────────
  **THE HOOKS OF SEVERAL CLIENTS.**

  `run_server` starts one `handle_peer` for every connection, and each brings its
  own capture: a hook thread with its own grab flag.  Windows calls the hooks most
  recently installed first, and one that swallows an event hides it from the older
  ones.  So a press of the hotkey turns the flag of the newest hook only.  The two hooks of
  a thread are taken to be installed at once: one order serves the mouse and the keyboard.

    • `reachesLocal_iff` — ordinary input reaches the local OS exactly while no
      flag is on;
    • `dispatch_grabbed` — what an event does to the flags;
    • `released_iff` — the hotkey releases control throughout a run exactly when no
      client connects while a flag is on.
-/
import Dshare.Lib.Transition
import Dshare.Input.Windows

namespace Dshare.Input

open Transition

/-! ## §1. Dispatch. -/

/-- The hook threads of the connected clients, the most recently installed first. -/
abbrev HookStack := List HookThread

/-- An event runs down the hooks until one swallows it; what `CallNextHookEx` answers past
the oldest is the local OS. -/
def HookStack.dispatch (c : HookCall) : HookStack → LRESULT × HookStack
  | [] => (.callNextHookEx, [])
  | hook :: older =>
      let (answer, hook) := hook.call c
      match answer with
      | .one => (.one, hook :: older)
      | .callNextHookEx =>
          let (answer, older) := HookStack.dispatch c older
          (answer, hook :: older)

/-- Some client's flag is on. -/
def HookStack.Grabbed (hs : HookStack) : Prop := ∃ hook ∈ hs, hook.grabbed = true

instance (hs : HookStack) : Decidable hs.Grabbed := inferInstanceAs (Decidable (∃ _ ∈ _, _))

theorem HookStack.dispatch_cons (c : HookCall) (hook : HookThread) (older : HookStack) :
    HookStack.dispatch c (hook :: older) =
      if (hook.call c).1 = .one then (.one, (hook.call c).2 :: older)
      else ((HookStack.dispatch c older).1, (hook.call c).2 :: (HookStack.dispatch c older).2) := by
  rw [dispatch]
  cases hc : hook.call c with
  | mk answer hook' => cases answer <;> rfl

theorem HookStack.dispatch_grabbed_of_hotkey {c : HookCall} (h : c.hotkey = true)
    (hook : HookThread) (older : HookStack) :
    (HookStack.dispatch c (hook :: older)).2 = (hook.call c).2 :: older := by
  rw [dispatch_cons, if_pos (HookThread.builds_of_hotkey h).2]

/-- **What an event does to the flags**: the hotkey turns that of the newest hook, and
nothing else turns any. -/
theorem HookStack.dispatch_grabbed (c : HookCall) (hs : HookStack) :
    (HookStack.dispatch c hs).2.map HookThread.grabbed =
      match hs.map HookThread.grabbed with
      | [] => []
      | g :: gs => (g ^^ c.hotkey) :: gs := by
  induction hs with
  | nil => rfl
  | cons hook older ih =>
      have hflag := hook.call_grabbed c
      by_cases hk : c.hotkey = true
      · -- the hotkey is swallowed by the newest hook
        rw [dispatch_grabbed_of_hotkey hk]
        simp [hflag]
      · -- any other event may run on to the older hooks, and turns no flag
        have hoff : c.hotkey = false := by simpa using hk
        have holder : (HookStack.dispatch c older).2.map HookThread.grabbed
            = older.map HookThread.grabbed := by
          rw [ih]
          cases older <;> simp [hoff]
        rw [dispatch_cons]
        by_cases hone : (hook.call c).1 = .one
        · rw [if_pos hone]
          simp [hflag]
        · rw [if_neg hone]
          simp [hflag, holder]

/-! ## §2. Ordinary input. -/

/-- An event that a hook must look at, and that is not the hotkey. -/
def HookCall.Ordinary : HookCall → Prop
  | .mouse code _ _ => code = HC_ACTION
  | .kbd get code wparam info => code = HC_ACTION ∧ isHotkey get wparam info = false

theorem HookCall.Ordinary.verdict {c : HookCall} (h : c.Ordinary) (s : HookThread) :
    (s.call c).1 = s.verdict := by
  cases c with
  | mouse code wparam info =>
      have hcode : code = HC_ACTION := h
      rw [hcode]
      exact mouseHookProc_verdict wparam info s
  | kbd get code wparam info =>
      obtain ⟨hcode, hkey⟩ := h
      rw [hcode]
      exact kbdHookProc_verdict s hkey

/-- **Ordinary input reaches the local OS exactly while no flag is on.** -/
theorem HookStack.reachesLocal_iff {c : HookCall} (h : c.Ordinary) (hs : HookStack) :
    (HookStack.dispatch c hs).1 = .callNextHookEx ↔ ¬ hs.Grabbed := by
  induction hs with
  | nil => simp [HookStack.dispatch, HookStack.Grabbed]
  | cons hook older ih =>
      have hcons : HookStack.Grabbed (hook :: older)
          ↔ hook.grabbed = true ∨ HookStack.Grabbed older := by
        simp [HookStack.Grabbed]
      rw [dispatch_cons, h.verdict, hcons]
      unfold HookThread.verdict
      by_cases hg : hook.grabbed = true
      · simp [hg]
      · simp [hg, ih]

/-! ## §3. The server's runs. -/

/-- What happens to the hooks: a client's capture is started or stopped, or Windows
dispatches an event. -/
inductive HookAction where
  | connect
  | disconnect (k : Nat)
  | event (c : HookCall)

def HookStack.step (hs : HookStack) : HookAction → Option HookStack
  | .connect => some (HookThread.new :: hs)
  | .disconnect k => if k < hs.length then some (hs.eraseIdx k) else none
  | .event c => some (HookStack.dispatch c hs).2

/-- The server, before any client has connected. -/
def hookStacks : System HookStack HookAction := ⟨[], HookStack.step⟩

/-- If input goes to some peer, the hotkey gives it back to the local OS. -/
def HookStack.Releases (hs : HookStack) : Prop :=
  hs.Grabbed → ∀ c : HookCall, c.hotkey = true → ¬ (HookStack.dispatch c hs).2.Grabbed

/-- All hooks but the newest have their flags off. -/
def HookStack.OnlyNewest (hs : HookStack) : Prop := true ∉ (hs.map HookThread.grabbed).tail

theorem HookStack.grabbed_iff (hs : HookStack) :
    hs.Grabbed ↔ true ∈ hs.map HookThread.grabbed := by
  simp [Grabbed]

/-- The full chord: G pressed while Ctrl, Alt and Shift are reported down. -/
def chordCall : HookCall := .kbd (fun _ => 0x8000) HC_ACTION WM_KEYDOWN ⟨HOTKEY_VK⟩

theorem hotkey_chordCall : chordCall.hotkey = true := by decide

/-- **The hotkey releases control exactly when no older flag is on.** -/
theorem HookStack.releases_iff (hs : HookStack) : hs.Releases ↔ hs.OnlyNewest := by
  unfold Releases
  simp only [grabbed_iff, dispatch_grabbed, OnlyNewest]
  cases hs.map HookThread.grabbed with
  | nil => simp
  | cons g gs =>
      constructor
      · -- an older flag that is on outlasts a chord
        intro h hmem
        have hoff := h (List.mem_cons_of_mem g hmem) chordCall hotkey_chordCall
        exact hoff (List.mem_cons_of_mem _ hmem)
      · -- the only flag that can be on is the one the hotkey turns
        intro h hon c hc hmem
        rw [hc] at hmem
        rcases List.mem_cons.mp hon with hg | hg
        · rcases List.mem_cons.mp hmem with hg' | hg'
          · rw [← hg] at hg'
            cases hg'
          · exact h hg'
        · exact h hg

/-- What each action does to the flags of the older hooks. -/
theorem HookStack.onlyNewest_step {hs hs' : HookStack} {a : HookAction} (h : hs.OnlyNewest)
    (hstep : hs.step a = some hs') :
    hs'.OnlyNewest ↔ (a = .connect → ¬ hs.Grabbed) := by
  cases a with
  | connect =>
      -- all hooks that were there are older now
      cases hstep
      rw [grabbed_iff]
      exact ⟨fun hnew _ => hnew, fun hnew => hnew rfl⟩
  | disconnect k =>
      have hkeep : hs'.OnlyNewest := by
        obtain ⟨-, herase⟩ := Option.ite_none_right_eq_some.mp hstep
        cases herase
        intro hmem
        cases hs with
        | nil => cases hmem
        | cons hook older =>
            -- the newest hook may be the one that goes
            cases k with
            | zero => exact h (List.mem_of_mem_tail hmem)
            | succ k =>
                obtain ⟨t, ht, hon⟩ := List.mem_map.mp hmem
                exact h (List.mem_map.mpr ⟨t, List.mem_of_mem_eraseIdx ht, hon⟩)
      exact ⟨fun _ hc => (nomatch hc), fun _ => hkeep⟩
  | event c =>
      have hkeep : hs'.OnlyNewest := by
        cases hstep
        unfold OnlyNewest at h ⊢
        rw [dispatch_grabbed]
        cases hs with
        | nil => exact h
        | cons hook older => exact h
      exact ⟨fun _ hc => (nomatch hc), fun _ => hkeep⟩

/-- **When the hotkey releases control**: throughout a run exactly when every client
connects while no flag is on. -/
theorem released_iff {as : List HookAction} {hs : HookStack}
    (hrun : hookStacks.run hookStacks.init as = some hs) :
    hookStacks.Always HookStack.Releases hookStacks.init as
      ↔ hookStacks.Each (fun _ hs a => a = .connect → ¬ hs.Grabbed) hookStacks.init as := by
  refine System.always_iff_each (I := fun _ _ => True) trivial ?_
    (fun _ _ _ _ _ _ _ _ _ => trivial) ?_ hrun
  · rw [HookStack.releases_iff]
    exact List.not_mem_nil
  · intro _ hs a hs' _ _ hP hstep
    rw [HookStack.releases_iff] at hP ⊢
    exact HookStack.onlyNewest_step hP hstep

/-- One client at a time: the flag goes on and off. -/
theorem released_iff_one_client :
    hookStacks.Always HookStack.Releases hookStacks.init
      [.connect, .event chordCall, .event chordCall] := by
  obtain ⟨hs, hrun⟩ : ∃ hs, hookStacks.run hookStacks.init
      [.connect, .event chordCall, .event chordCall] = some hs := ⟨_, rfl⟩
  refine (released_iff hrun).mpr ?_
  show hookStacks.Each _ _ ((([] ++ [.connect]) ++ [.event chordCall]) ++ [.event chordCall])
  simp only [System.each_snoc]
  refine ⟨⟨⟨System.each_nil, ?_⟩, fun _ _ => nofun⟩, fun _ _ => nofun⟩
  intro hs hinit _
  cases hinit
  decide

/-- A second client connects while the first has the input: from then on each press of the
hotkey turns the second flag, and the first stays on. -/
theorem second_client_keeps_first_grabbed :
    let hs : HookStack := [HookThread.new, (HookThread.new.call chordCall).2]
    hookStacks.run hookStacks.init [.connect, .event chordCall, .connect] = some hs
      ∧ hs.Grabbed ∧ chordCall.hotkey = true
      ∧ (HookStack.dispatch chordCall hs).2.Grabbed ∧ ¬ hs.Releases := by
  intro hs
  have hbefore : hs.Grabbed := by decide
  have hafter : (HookStack.dispatch chordCall hs).2.Grabbed := by decide
  exact ⟨rfl, hbefore, hotkey_chordCall, hafter,
    fun h => h hbefore chordCall hotkey_chordCall hafter⟩

end Dshare.Input
