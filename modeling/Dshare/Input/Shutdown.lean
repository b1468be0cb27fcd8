/-
  Dshare.Input.Shutdown
  ─────────────────────
  **DROPPING A CAPTURE.**

  The hook thread publishes its id in a slot, installs its hooks and enters its
  message loop; the owner, when it drops the capture, loads the slot, posts
  `WM_QUIT` to the id it found and joins the thread.  The two run side by side,
  and a zero slot is taken to mean that there is no thread to stop.

  A message posted to a published id is taken to be queued, as the drop relies on: it does
  not look at what `PostThreadMessageW` returns.  Windows documents that the call fails
  until the thread has a message queue, which its first call into USER makes; here that is
  the first `SetWindowsHookExW`, right behind the store of the id.  A post that falls
  between the two and is refused is outside the model.

    • `Shutdown.Quits.step` — a thread that is bound to stop stays so;
    • `hangs_forever` — an owner that waits for a thread in its loop waits for ever;
    • `never_hangs_iff` — dropping never hangs throughout a run exactly when the id
      was published before it was loaded, or a hook could not be installed;
    • `drop_finishes_iff` — the two threads come to rest, and it is then that the drop
      has finished.
-/
import Dshare.Lib.Simulation
import Dshare.Lib.Transition

namespace Dshare.Input

open Transition

/-! ## §1. The two threads. -/

/-- `hook_thread_main`, by what it has done so far. -/
inductive HookPhase where
  | spawned
  /-- `tid_slot.store(tid)`. -/
  | published
  | mouseHooked
  /-- Both hooks are installed: in the `GetMessageW` loop. -/
  | pumping
  /-- Out of the loop: the hooks are to be removed. -/
  | leaving
  | returned
  deriving DecidableEq

/-- A message in the queue of the hook thread. -/
inductive ThreadMessage where
  | wmQuit
  | other
  deriving DecidableEq

/-- `WinCapture::drop`, by what it has done so far. -/
inductive OwnerPhase where
  /-- `run` has spawned the hook thread; the drop has not begun. -/
  | running
  /-- `let tid = self.hook_thread_id.load(..)`. -/
  | loaded (tid : UInt32)
  /-- `PostThreadMessageW(tid, WM_QUIT, ..)`, which has queued the message. -/
  | posted
  /-- In `handle.join()`. -/
  | joining
  | dropped
  deriving DecidableEq

/-- What `GetCurrentThreadId` returns: Windows gives no thread the id `0`. -/
abbrev ThreadId := { tid : UInt32 // tid ≠ 0 }

structure Shutdown where
  /-- `hook_thread_id`. -/
  slot : UInt32
  hook : HookPhase
  queue : List ThreadMessage
  owner : OwnerPhase
  deriving DecidableEq

/-- Right after `spawn`. -/
def Shutdown.spawned : Shutdown := ⟨0, .spawned, [], .running⟩

inductive ShutdownAction where
  | publish
  /-- `SetWindowsHookExW(WH_MOUSE_LL, ..)`, which may fail. -/
  | mouseHook (ok : Bool)
  /-- `SetWindowsHookExW(WH_KEYBOARD_LL, ..)`, which may fail. -/
  | kbdHook (ok : Bool)
  /-- One turn of the `GetMessageW` loop. -/
  | getMessage
  /-- `UnhookWindowsHookEx` of both hooks, and the thread returns. -/
  | unhook
  /-- Some other message arrives for the hook thread. -/
  | arrive
  | load
  | post
  /-- The owner enters `join`. -/
  | join
  /-- `join` returns. -/
  | joined
  deriving DecidableEq

def Shutdown.step (tid : ThreadId) (s : Shutdown) : ShutdownAction → Option Shutdown
  | .publish =>
      if s.hook = .spawned then some { s with slot := tid, hook := .published } else none
  | .mouseHook ok =>
      if s.hook = .published then
        some { s with hook := if ok then .mouseHooked else .returned }
      else none
  | .kbdHook ok =>
      -- the error path removes the mouse hook again
      if s.hook = .mouseHooked then
        some { s with hook := if ok then .pumping else .returned }
      else none
  | .getMessage =>
      if s.hook = .pumping then
        match s.queue with
        | [] => none
        | .wmQuit :: queue => some { s with hook := .leaving, queue := queue }
        | .other :: queue => some { s with queue := queue }
      else none
  | .unhook => if s.hook = .leaving then some { s with hook := .returned } else none
  | .arrive => some { s with queue := s.queue ++ [.other] }
  | .load => if s.owner = .running then some { s with owner := .loaded s.slot } else none
  | .post =>
      match s.owner with
      | .loaded tid =>
          if tid ≠ 0 then some { s with owner := .posted, queue := s.queue ++ [.wmQuit] }
          else none
      | _ => none
  | .join =>
      match s.owner with
      | .loaded tid => if tid = 0 then some { s with owner := .joining } else none
      | .posted => some { s with owner := .joining }
      | _ => none
  | .joined =>
      if s.owner = .joining ∧ s.hook = .returned then some { s with owner := .dropped } else none

/-- The owner and the hook thread it has just spawned. -/
def shutdown (tid : ThreadId) : System Shutdown ShutdownAction := ⟨.spawned, Shutdown.step tid⟩

/-- The owner waits in `join` while the hook thread is in its message loop, or can still
enter it, and no `WM_QUIT` is queued for it. -/
def Shutdown.Hangs (s : Shutdown) : Prop :=
  s.owner = .joining ∧ (s.hook ≠ .leaving ∧ s.hook ≠ .returned) ∧ .wmQuit ∉ s.queue

instance (s : Shutdown) : Decidable s.Hangs := inferInstanceAs (Decidable (_ ∧ _))

/-! ## §2. What a step does. -/

/-- The hook thread has stopped, or is bound to. -/
def Shutdown.Quits (s : Shutdown) : Prop :=
  .wmQuit ∈ s.queue ∨ s.hook = .leaving ∨ s.hook = .returned

theorem Shutdown.hangs_iff (s : Shutdown) : s.Hangs ↔ s.owner = .joining ∧ ¬ s.Quits := by
  unfold Hangs Quits
  tauto

/-- **What a step does**, action by action, with what it asks for. -/
theorem Shutdown.step_cases {tid : ThreadId} {s s' : Shutdown} {a : ShutdownAction}
    (h : s.step tid a = some s') :
    match a with
    | .publish => s.hook = .spawned ∧ s' = { s with slot := tid, hook := .published }
    | .mouseHook ok =>
        s.hook = .published ∧ s' = { s with hook := if ok then .mouseHooked else .returned }
    | .kbdHook ok =>
        s.hook = .mouseHooked ∧ s' = { s with hook := if ok then .pumping else .returned }
    | .getMessage => s.hook = .pumping ∧
        ((∃ queue, s.queue = .wmQuit :: queue ∧ s' = { s with hook := .leaving, queue := queue })
          ∨ ∃ queue, s.queue = .other :: queue ∧ s' = { s with queue := queue })
    | .unhook => s.hook = .leaving ∧ s' = { s with hook := .returned }
    | .arrive => s' = { s with queue := s.queue ++ [.other] }
    | .load => s.owner = .running ∧ s' = { s with owner := .loaded s.slot }
    | .post => ∃ t, t ≠ 0 ∧ s.owner = .loaded t
        ∧ s' = { s with owner := .posted, queue := s.queue ++ [.wmQuit] }
    | .join => (s.owner = .loaded 0 ∨ s.owner = .posted) ∧ s' = { s with owner := .joining }
    | .joined => s.owner = .joining ∧ s.hook = .returned ∧ s' = { s with owner := .dropped } := by
  cases a with
  | publish | mouseHook | kbdHook | unhook | load =>
      obtain ⟨hguard, hs⟩ := Option.ite_none_right_eq_some.mp h
      exact ⟨hguard, (Option.some.inj hs).symm⟩
  | joined =>
      obtain ⟨hguard, hs⟩ := Option.ite_none_right_eq_some.mp h
      exact ⟨hguard.1, hguard.2, (Option.some.inj hs).symm⟩
  | arrive => exact (Option.some.inj h).symm
  | getMessage =>
      obtain ⟨hguard, hs⟩ := Option.ite_none_right_eq_some.mp h
      refine ⟨hguard, ?_⟩
      cases hq : s.queue with
      | nil =>
          rw [hq] at hs
          cases hs
      | cons m queue =>
          rw [hq] at hs
          cases m with
          | wmQuit => exact .inl ⟨queue, rfl, (Option.some.inj hs).symm⟩
          | other => exact .inr ⟨queue, rfl, (Option.some.inj hs).symm⟩
  | post =>
      unfold step at h
      cases ho : s.owner with
      | loaded t =>
          simp only [ho] at h
          obtain ⟨hguard, hs⟩ := Option.ite_none_right_eq_some.mp h
          exact ⟨t, hguard, rfl, (Option.some.inj hs).symm⟩
      | running | posted | joining | dropped =>
          simp only [ho] at h
          cases h
  | join =>
      unfold step at h
      cases ho : s.owner with
      | loaded t =>
          simp only [ho] at h
          obtain ⟨hguard, hs⟩ := Option.ite_none_right_eq_some.mp h
          exact ⟨.inl (by rw [hguard]), (Option.some.inj hs).symm⟩
      | posted =>
          simp only [ho] at h
          exact ⟨.inr rfl, (Option.some.inj h).symm⟩
      | running | joining | dropped =>
          simp only [ho] at h
          cases h

/-- **A thread that is bound to stop stays so.** -/
theorem Shutdown.Quits.step {tid : ThreadId} {s s' : Shutdown} {a : ShutdownAction}
    (hq : s.Quits) (h : s.step tid a = some s') : s'.Quits := by
  have hcases := step_cases h
  unfold Quits at hq ⊢
  cases a with
  | publish | mouseHook | kbdHook =>
      obtain ⟨hguard, rfl⟩ := hcases
      simp only [hguard, reduceCtorEq, or_self, or_false] at hq
      exact .inl hq
  | getMessage =>
      obtain ⟨hguard, ⟨queue, hqueue, rfl⟩ | ⟨queue, hqueue, rfl⟩⟩ := hcases
      · exact .inr (.inl rfl)
      · simp only [hguard, hqueue, List.mem_cons, reduceCtorEq, false_or, or_self, or_false] at hq
        exact .inl hq
  | unhook =>
      obtain ⟨-, rfl⟩ := hcases
      exact .inr (.inr rfl)
  | arrive =>
      cases hcases
      exact hq.imp_left (List.mem_append_left _)
  | load | join =>
      obtain ⟨-, rfl⟩ := hcases
      exact hq
  | post =>
      obtain ⟨t, -, -, rfl⟩ := hcases
      exact hq.imp_left (List.mem_append_left _)
  | joined =>
      obtain ⟨-, -, rfl⟩ := hcases
      exact hq

/-- Only `join` enters `join`. -/
theorem Shutdown.joining_of_step {tid : ThreadId} {s s' : Shutdown} {a : ShutdownAction}
    (ha : a ≠ .join) (h : s.step tid a = some s') (hjoin : s'.owner = .joining) :
    s.owner = .joining := by
  have hcases := step_cases h
  cases a with
  | publish | mouseHook | kbdHook | unhook =>
      obtain ⟨-, rfl⟩ := hcases
      exact hjoin
  | getMessage =>
      obtain ⟨-, ⟨queue, -, rfl⟩ | ⟨queue, -, rfl⟩⟩ := hcases <;> exact hjoin
  | arrive =>
      cases hcases
      exact hjoin
  | load =>
      obtain ⟨-, rfl⟩ := hcases
      cases hjoin
  | post =>
      obtain ⟨t, -, -, rfl⟩ := hcases
      cases hjoin
  | join => exact absurd rfl ha
  | joined => exact hcases.1

/-- **An owner that waits for a thread in its loop waits for ever.** -/
theorem hangs_forever {tid : ThreadId} {s s' : Shutdown} {as : List ShutdownAction}
    (h : s.Hangs) (hpump : s.hook = .pumping) (hrun : (shutdown tid).run s as = some s') :
    s'.Hangs ∧ s'.hook = .pumping := by
  refine (shutdown tid).run_invariant (P := fun s => s.Hangs ∧ s.hook = .pumping) ?_ as
    ⟨h, hpump⟩ hrun
  intro s a s' hs hstep
  obtain ⟨⟨howner, -, hqueue⟩, hhook⟩ := hs
  have hcases := Shutdown.step_cases hstep
  unfold Shutdown.Hangs
  cases a with
  | publish | mouseHook | kbdHook | unhook =>
      rw [hhook] at hcases
      cases hcases.1
  | getMessage =>
      obtain ⟨-, ⟨queue, hq, rfl⟩ | ⟨queue, hq, rfl⟩⟩ := hcases
      -- there is no `WM_QUIT` to take
      · exact absurd (hq ▸ List.mem_cons_self) hqueue
      · rw [hq] at hqueue
        exact ⟨⟨howner, by simp [hhook], fun hmem => hqueue (List.mem_cons_of_mem _ hmem)⟩, hhook⟩
  | arrive =>
      cases hcases
      exact ⟨⟨howner, by simp [hhook], by simpa using hqueue⟩, hhook⟩
  | load =>
      rw [howner] at hcases
      cases hcases.1
  | post =>
      obtain ⟨t, -, hloaded, -⟩ := hcases
      rw [howner] at hloaded
      cases hloaded
  | join =>
      rw [howner] at hcases
      simp at hcases
  | joined =>
      obtain ⟨-, hreturned, -⟩ := hcases
      rw [hhook] at hreturned
      cases hreturned

/-! ## §3. When dropping does not hang. -/

/-- The hook thread published its id before the owner loaded it. -/
def PublishedFirst (as : List ShutdownAction) : Prop :=
  ∃ before after, as = before ++ .load :: after ∧ .publish ∈ before

/-- A hook could not be installed. -/
def HookFailed (as : List ShutdownAction) : Prop :=
  .mouseHook false ∈ as ∨ .kbdHook false ∈ as

theorem publishedFirst_snoc {as : List ShutdownAction} {a : ShutdownAction} :
    PublishedFirst (as ++ [a]) ↔ PublishedFirst as ∨ (a = .load ∧ .publish ∈ as) := by
  constructor
  · intro h
    obtain ⟨before, after, hsplit, hmem⟩ := h
    rcases List.eq_nil_or_concat after with rfl | ⟨mid, b, rfl⟩
    · obtain ⟨rfl, hload⟩ := List.append_inj' hsplit rfl
      cases hload
      exact .inr ⟨rfl, hmem⟩
    · rw [List.concat_eq_append, ← List.cons_append, ← List.append_assoc] at hsplit
      exact .inl ⟨before, mid, List.append_inj_left' hsplit rfl, hmem⟩
  · intro h
    rcases h with ⟨before, after, rfl, hmem⟩ | ⟨rfl, hmem⟩
    · exact ⟨before, after ++ [a], by simp, hmem⟩
    · exact ⟨as, [], rfl, hmem⟩

theorem hookFailed_snoc {as : List ShutdownAction} {a : ShutdownAction} :
    HookFailed (as ++ [a]) ↔ HookFailed as ∨ a = .mouseHook false ∨ a = .kbdHook false := by
  unfold HookFailed
  simp only [List.mem_append, List.mem_singleton]
  constructor
  · intro h
    rcases h with (h | h) | h | h
    · exact .inl (.inl h)
    · exact .inr (.inl h.symm)
    · exact .inl (.inr h)
    · exact .inr (.inr h.symm)
  · intro h
    rcases h with (h | h) | h | h
    · exact .inl (.inl h)
    · exact .inr (.inl h)
    · exact .inl (.inr h.symm)
    · exact .inr (.inr h.symm)

/-- Before the post, only a failed installation stops the hook thread. -/
def Unposted (as : List ShutdownAction) (s : Shutdown) : Prop :=
  .wmQuit ∉ s.queue ∧ s.hook ≠ .leaving ∧ (s.hook = .returned ↔ HookFailed as)

/-- What the actions taken say about the state they lead to. -/
structure Timeline (as : List ShutdownAction) (s : Shutdown) : Prop where
  slot : s.slot ≠ 0 ↔ .publish ∈ as
  running : s.owner = .running → ¬ PublishedFirst as ∧ Unposted as s
  loaded : ∀ t, s.owner = .loaded t → (t ≠ 0 ↔ PublishedFirst as) ∧ Unposted as s
  posted : s.owner = .posted → PublishedFirst as ∧ s.Quits

theorem Timeline.init : Timeline [] Shutdown.spawned where
  slot := by simp [Shutdown.spawned]
  running _ := by
    refine ⟨fun h => ?_, by simp [Unposted, Shutdown.spawned, HookFailed]⟩
    obtain ⟨before, after, hsplit, -⟩ := h
    simp at hsplit
  loaded _ h := nomatch h
  posted h := nomatch h

/-- A step of the hook thread, and a message for it, leave the owner where it was. -/
theorem Timeline.of_owner_eq {tid : ThreadId} {as : List ShutdownAction} {s s' : Shutdown}
    {a : ShutdownAction} (h : Timeline as s) (hstep : s.step tid a = some s')
    (howner : s'.owner = s.owner) (hload : a ≠ .load)
    (hslot : s'.slot ≠ 0 ↔ .publish ∈ as ++ [a])
    (hunposted : Unposted as s → Unposted (as ++ [a]) s') : Timeline (as ++ [a]) s' := by
  have hfirst : PublishedFirst (as ++ [a]) ↔ PublishedFirst as := by
    simp [publishedFirst_snoc, hload]
  refine ⟨hslot, ?_, ?_, ?_⟩
  · intro ho
    obtain ⟨hno, hun⟩ := h.running (howner ▸ ho)
    exact ⟨hfirst.not.mpr hno, hunposted hun⟩
  · intro t ho
    obtain ⟨hiff, hun⟩ := h.loaded t (howner ▸ ho)
    exact ⟨hiff.trans hfirst.symm, hunposted hun⟩
  · intro ho
    obtain ⟨hyes, hq⟩ := h.posted (howner ▸ ho)
    exact ⟨hfirst.mpr hyes, hq.step hstep⟩

theorem Timeline.step {tid : ThreadId} {as : List ShutdownAction} {s s' : Shutdown}
    {a : ShutdownAction} (h : Timeline as s) (hstep : s.step tid a = some s') :
    Timeline (as ++ [a]) s' := by
  have hcases := Shutdown.step_cases hstep
  have hslot := h.slot
  cases a with
  | publish =>
      obtain ⟨hguard, rfl⟩ := hcases
      refine h.of_owner_eq hstep rfl nofun (by simpa using tid.2) ?_
      simp [Unposted, hguard, hookFailed_snoc]
  | mouseHook ok | kbdHook ok =>
      -- a hook that could not be installed ends the thread before anything is posted
      obtain ⟨hguard, rfl⟩ := hcases
      refine h.of_owner_eq hstep rfl nofun (by simpa using hslot) ?_
      cases ok <;> simp +contextual [Unposted, hguard, hookFailed_snoc]
  | getMessage =>
      obtain ⟨hguard, ⟨queue, hqueue, rfl⟩ | ⟨queue, hqueue, rfl⟩⟩ := hcases
      · -- before the post there is no `WM_QUIT` to take
        refine h.of_owner_eq hstep rfl nofun (by simpa using hslot) ?_
        simp [Unposted, hqueue]
      · refine h.of_owner_eq hstep rfl nofun (by simpa using hslot) ?_
        simp [Unposted, hqueue, hookFailed_snoc]
  | unhook =>
      obtain ⟨hguard, rfl⟩ := hcases
      refine h.of_owner_eq hstep rfl nofun (by simpa using hslot) ?_
      simp [Unposted, hguard]
  | arrive =>
      cases hcases
      refine h.of_owner_eq hstep rfl nofun (by simpa using hslot) ?_
      simp [Unposted, hookFailed_snoc]
  | load =>
      -- what the owner finds in the slot says whether the id was published by now
      obtain ⟨hguard, rfl⟩ := hcases
      obtain ⟨hno, hun⟩ := h.running hguard
      refine ⟨by simpa using hslot, nofun, ?_, nofun⟩
      intro t ht
      cases ht
      refine ⟨?_, by simpa [Unposted, hookFailed_snoc] using hun⟩
      simpa [publishedFirst_snoc, hno] using hslot
  | post =>
      obtain ⟨t, hne, hguard, rfl⟩ := hcases
      refine ⟨by simpa using hslot, nofun, nofun, fun _ => ⟨?_, .inl (by simp)⟩⟩
      exact publishedFirst_snoc.mpr (.inl ((h.loaded t hguard).1.mp hne))
  | join =>
      -- nothing is claimed of an owner past the post
      obtain ⟨-, rfl⟩ := hcases
      exact ⟨by simpa using hslot, nofun, nofun, nofun⟩
  | joined =>
      obtain ⟨-, -, rfl⟩ := hcases
      exact ⟨by simpa using hslot, nofun, nofun, nofun⟩

/-- Entering `join` does not hang exactly when the owner could stop the thread, or need not. -/
theorem Timeline.quits_iff {tid : ThreadId} {as : List ShutdownAction} {s s' : Shutdown}
    (h : Timeline as s) (hstep : s.step tid .join = some s') :
    s.Quits ↔ PublishedFirst as ∨ HookFailed as := by
  obtain ⟨hloaded | hposted, -⟩ := Shutdown.step_cases hstep
  · -- a zero was loaded and nothing posted: only a failed hook has stopped the thread
    obtain ⟨hiff, hqueue, hleaving, hreturned⟩ := h.loaded 0 hloaded
    have hno : ¬ PublishedFirst as := fun hyes => hiff.mpr hyes rfl
    simp [Shutdown.Quits, hqueue, hleaving, hreturned, hno]
  · obtain ⟨hyes, hq⟩ := h.posted hposted
    exact ⟨fun _ => .inl hyes, fun _ => hq⟩

/-- **When dropping a capture never hangs**: throughout a run exactly when, before the
owner enters `join`, the hook thread published its id ahead of the load or a hook could not
be installed. -/
theorem never_hangs_iff {tid : ThreadId} {as : List ShutdownAction} {s : Shutdown}
    (hrun : (shutdown tid).run (shutdown tid).init as = some s) :
    (shutdown tid).Always (fun s => ¬ s.Hangs) (shutdown tid).init as
      ↔ (shutdown tid).Each
          (fun before _ a => a = .join → PublishedFirst before ∨ HookFailed before)
          (shutdown tid).init as := by
  refine System.always_iff_each Timeline.init (fun h => nomatch h.1)
    (fun _ _ _ _ _ h _ hstep _ => h.step hstep) ?_ hrun
  intro as s a s' _ htime hfine hstep
  replace hstep : Shutdown.step tid s a = some s' := hstep
  rw [Shutdown.hangs_iff] at hfine ⊢
  by_cases ha : a = .join
  · cases ha
    obtain ⟨-, rfl⟩ := Shutdown.step_cases hstep
    have hiff := htime.quits_iff hstep
    constructor
    · intro h _
      exact hiff.mp (not_not.mp fun hq => h ⟨rfl, hq⟩)
    · intro h hhang
      exact hhang.2 (hiff.mpr (h rfl))
  · refine ⟨fun _ hjoin => absurd hjoin ha, fun _ hhang => ?_⟩
    have howner := Shutdown.joining_of_step ha hstep hhang.1
    exact hhang.2 ((not_not.mp fun hq => hfine ⟨howner, hq⟩).step hstep)

/-- The id published in time, and the thread stopped. -/
theorem never_hangs_iff_in_time :
    (shutdown ⟨7, by decide⟩).Always (fun s => ¬ s.Hangs) Shutdown.spawned
      [.publish, .load, .post, .join] := by
  obtain ⟨s, hrun⟩ : ∃ s, (shutdown ⟨7, by decide⟩).run Shutdown.spawned
      [.publish, .load, .post, .join] = some s := ⟨_, rfl⟩
  refine (never_hangs_iff hrun).mpr ?_
  show (shutdown _).Each _ _ (((([] ++ [.publish]) ++ [.load]) ++ [.post]) ++ [.join])
  simp only [System.each_snoc]
  refine ⟨⟨⟨⟨System.each_nil, fun _ _ => nofun⟩, fun _ _ => nofun⟩, fun _ _ => nofun⟩, ?_⟩
  intro _ _ _
  exact .inl ⟨[.publish], [.post], rfl, by simp⟩

/-- The owner loads the slot before the hook thread fills it: no `WM_QUIT` is ever posted. -/
theorem load_before_publish_hangs :
    let s : Shutdown := ⟨7, .pumping, [], .joining⟩
    (shutdown ⟨7, by decide⟩).run Shutdown.spawned
        [.load, .join, .publish, .mouseHook true, .kbdHook true] = some s
      ∧ s.Hangs := by
  intro s
  exact ⟨by decide, by decide⟩

/-! ## §4. Coming to rest. -/

/-- How far the hook thread is from its end. -/
def HookPhase.rank : HookPhase → Nat
  | .spawned => 5
  | .published => 4
  | .mouseHooked => 3
  | .pumping => 2
  | .leaving => 1
  | .returned => 0

/-- How far the drop is from its end; a message may be posted on the way. -/
def OwnerPhase.rank : OwnerPhase → Nat
  | .running => 5
  | .loaded _ => 4
  | .posted => 2
  | .joining => 1
  | .dropped => 0

/-- What the two threads have left to do, with no more messages arriving. -/
def Shutdown.work (s : Shutdown) : Nat := s.owner.rank + s.hook.rank + s.queue.length

/-- A step of one of the two threads. -/
def ShutdownAction.own (a : ShutdownAction) : Bool := decide (a ≠ .arrive)

/-- **Every step of the two threads brings them nearer to their end.** -/
theorem Shutdown.work_step {tid : ThreadId} {s s' : Shutdown} {a : ShutdownAction}
    (ha : a ≠ .arrive) (h : s.step tid a = some s') : s'.work < s.work := by
  have hcases := step_cases h
  unfold work
  cases a with
  | publish =>
      obtain ⟨hhook, rfl⟩ := hcases
      simp only [hhook, HookPhase.rank]
      omega
  | mouseHook ok | kbdHook ok =>
      obtain ⟨hhook, rfl⟩ := hcases
      cases ok <;> simp [hhook, HookPhase.rank]
  | getMessage =>
      obtain ⟨hhook, ⟨queue, hqueue, rfl⟩ | ⟨queue, hqueue, rfl⟩⟩ := hcases
      · simp only [hhook, hqueue, HookPhase.rank, List.length_cons]
        omega
      · simp only [hqueue, List.length_cons]
        omega
  | unhook =>
      obtain ⟨hhook, rfl⟩ := hcases
      simp only [hhook, HookPhase.rank]
      omega
  | arrive => exact absurd rfl ha
  | load =>
      obtain ⟨howner, rfl⟩ := hcases
      simp only [howner, OwnerPhase.rank]
      omega
  | post =>
      -- the message that is posted is one more to take
      obtain ⟨t, _, howner, rfl⟩ := hcases
      simp only [howner, OwnerPhase.rank, List.length_append, List.length_singleton]
      omega
  | join =>
      obtain ⟨howner | howner, rfl⟩ := hcases
      · simp only [howner, OwnerPhase.rank]
        omega
      · simp only [howner, OwnerPhase.rank]
        omega
  | joined =>
      obtain ⟨howner, _, rfl⟩ := hcases
      simp only [howner, OwnerPhase.rank]
      omega

theorem shutdown_works (tid : ThreadId) :
    Works (shutdown tid) (fun _ => True) (fun a => a ≠ .arrive) ShutdownAction.own
      Shutdown.work where
  keeps := fun _ _ _ => trivial
  lowers := fun _ ha hstep _ => Shutdown.work_step ha hstep
  atMost := fun _ ha hstep _ => Nat.le_of_lt (Shutdown.work_step ha hstep)

/-- **What stops the hook thread**: a `WM_QUIT`, or a hook that could not be installed. -/
theorem Shutdown.quits_step_iff {tid : ThreadId} {s s' : Shutdown} {a : ShutdownAction}
    (h : s.step tid a = some s') :
    s'.Quits ↔ s.Quits ∨ a = .post ∨ a = .mouseHook false ∨ a = .kbdHook false := by
  have hcases := step_cases h
  unfold Quits
  cases a with
  | publish =>
      obtain ⟨hhook, rfl⟩ := hcases
      simp [hhook]
  | mouseHook ok | kbdHook ok =>
      obtain ⟨hhook, rfl⟩ := hcases
      cases ok <;> simp [hhook]
  | getMessage =>
      obtain ⟨hhook, ⟨queue, hqueue, rfl⟩ | ⟨queue, hqueue, rfl⟩⟩ := hcases
      · simp [hqueue]
      · simp [hqueue]
  | unhook =>
      obtain ⟨hhook, rfl⟩ := hcases
      simp [hhook]
  | arrive =>
      cases hcases
      simp
  | load | join =>
      obtain ⟨_, rfl⟩ := hcases
      simp
  | post =>
      obtain ⟨t, _, _, rfl⟩ := hcases
      simp
  | joined =>
      obtain ⟨_, _, rfl⟩ := hcases
      simp

/-- What the actions taken say about how the drop will end. -/
structure Ending (as : List ShutdownAction) (s : Shutdown) : Prop where
  timeline : Timeline as s
  quits : s.Quits ↔ .post ∈ as ∨ HookFailed as
  running : s.owner = .running → .post ∉ as
  loaded : ∀ t, s.owner = .loaded t → .post ∉ as
  posted : s.owner = .posted → .post ∈ as
  joining : s.owner = .joining ∨ s.owner = .dropped → (.post ∈ as ↔ PublishedFirst as)
  dropped : s.owner = .dropped → s.hook = .returned

theorem Ending.init : Ending [] Shutdown.spawned where
  timeline := Timeline.init
  quits := by simp [Shutdown.Quits, Shutdown.spawned, HookFailed]
  running _ := List.not_mem_nil
  loaded _ _ := List.not_mem_nil
  posted h := by cases h
  joining h := by rcases h with h | h <;> cases h
  dropped h := by cases h

/-- The history of what stops the hook thread. -/
theorem Ending.quits_snoc {tid : ThreadId} {as : List ShutdownAction} {s s' : Shutdown}
    {a : ShutdownAction} (h : Ending as s) (hstep : s.step tid a = some s') :
    s'.Quits ↔ .post ∈ as ++ [a] ∨ HookFailed (as ++ [a]) := by
  rw [Shutdown.quits_step_iff hstep, h.quits, hookFailed_snoc, List.mem_append,
    List.mem_singleton, eq_comm (a := ShutdownAction.post)]
  tauto

/-- A step that is not the owner's. -/
theorem Ending.of_owner_eq {tid : ThreadId} {as : List ShutdownAction} {s s' : Shutdown}
    {a : ShutdownAction} (h : Ending as s) (hstep : s.step tid a = some s')
    (howner : s'.owner = s.owner) (hload : a ≠ .load) (hpost : a ≠ .post)
    (hhook : s.hook = .returned → s'.hook = .returned) : Ending (as ++ [a]) s' := by
  have hmem : .post ∈ as ++ [a] ↔ .post ∈ as := by simp [hpost.symm]
  have hfirst : PublishedFirst (as ++ [a]) ↔ PublishedFirst as := by
    simp [publishedFirst_snoc, hload]
  refine ⟨h.timeline.step hstep, h.quits_snoc hstep, ?_, ?_, ?_, ?_, ?_⟩
  · intro ho
    exact hmem.not.mpr (h.running (howner ▸ ho))
  · intro t ho
    exact hmem.not.mpr (h.loaded t (howner ▸ ho))
  · intro ho
    exact hmem.mpr (h.posted (howner ▸ ho))
  · intro ho
    rw [hmem, hfirst]
    exact h.joining (howner ▸ ho)
  · intro ho
    exact hhook (h.dropped (howner ▸ ho))

theorem Ending.step {tid : ThreadId} {as : List ShutdownAction} {s s' : Shutdown}
    {a : ShutdownAction} (h : Ending as s) (hstep : s.step tid a = some s') :
    Ending (as ++ [a]) s' := by
  have hcases := Shutdown.step_cases hstep
  have hquits := h.quits_snoc hstep
  have htime := h.timeline.step hstep
  cases a with
  | publish | mouseHook ok | kbdHook ok | unhook =>
      obtain ⟨hhook, rfl⟩ := hcases
      exact h.of_owner_eq hstep rfl (by simp) (by simp) (by simp [hhook])
  | getMessage =>
      obtain ⟨hhook, ⟨queue, _, rfl⟩ | ⟨queue, _, rfl⟩⟩ := hcases
      · exact h.of_owner_eq hstep rfl (by simp) (by simp) (by simp [hhook])
      · exact h.of_owner_eq hstep rfl (by simp) (by simp) (by simp [hhook])
  | arrive =>
      cases hcases
      exact h.of_owner_eq hstep rfl (by simp) (by simp) id
  | load =>
      obtain ⟨howner, rfl⟩ := hcases
      refine ⟨htime, hquits, by simp, ?_, by simp, by simp, by simp⟩
      intro t _
      simpa using h.running howner
  | post =>
      obtain ⟨t, _, _, rfl⟩ := hcases
      exact ⟨htime, hquits, by simp, by simp, by simp, by simp, by simp⟩
  | join =>
      obtain ⟨howner, rfl⟩ := hcases
      refine ⟨htime, hquits, by simp, by simp, by simp, fun _ => ?_, by simp⟩
      have hmem : .post ∈ as ++ [.join] ↔ .post ∈ as := by simp
      have hfirst : PublishedFirst (as ++ [.join]) ↔ PublishedFirst as := by
        simp [publishedFirst_snoc]
      rw [hmem, hfirst]
      rcases howner with hzero | hposted
      · -- a zero was loaded: the id had not been published, and nothing was posted
        have hno : ¬ PublishedFirst as := fun hyes =>
          (h.timeline.loaded 0 hzero).1.mpr hyes rfl
        exact ⟨fun hpost => absurd hpost (h.loaded 0 hzero), fun hyes => absurd hyes hno⟩
      · exact ⟨fun _ => (h.timeline.posted hposted).1, fun _ => h.posted hposted⟩
  | joined =>
      obtain ⟨howner, hhook, rfl⟩ := hcases
      refine ⟨htime, hquits, by simp, by simp, by simp, fun _ => ?_, fun _ => hhook⟩
      have hfirst : PublishedFirst (as ++ [.joined]) ↔ PublishedFirst as := by
        simp [publishedFirst_snoc]
      rw [hfirst, ← h.joining (.inl howner)]
      simp

/-- Nothing but the arrival of a message is possible. -/
def Shutdown.AtRest (tid : ThreadId) (s : Shutdown) : Prop :=
  ∀ a, a ≠ .arrive → s.step tid a = none

/-- **Where the two threads can come to rest**: the drop is over, or it waits for a thread
that waits for a message. -/
theorem Shutdown.AtRest.cases {tid : ThreadId} {s : Shutdown} (h : s.AtRest tid) :
    s.owner = .dropped ∨ (s.owner = .joining ∧ s.hook = .pumping ∧ s.queue = []) := by
  cases howner : s.owner with
  | running => simpa [Shutdown.step, howner] using h .load (by simp)
  | loaded t =>
      by_cases ht : t = 0
      · simpa [Shutdown.step, howner, ht] using h .join (by simp)
      · simpa [Shutdown.step, howner, ht] using h .post (by simp)
  | posted => simpa [Shutdown.step, howner] using h .join (by simp)
  | dropped => exact .inl rfl
  | joining =>
      right
      refine ⟨rfl, ?_⟩
      cases hhook : s.hook with
      | spawned => simpa [Shutdown.step, hhook] using h .publish (by simp)
      | published => simpa [Shutdown.step, hhook] using h (.mouseHook true) (by simp)
      | mouseHooked => simpa [Shutdown.step, hhook] using h (.kbdHook true) (by simp)
      | leaving => simpa [Shutdown.step, hhook] using h .unhook (by simp)
      | returned => simpa [Shutdown.step, howner, hhook] using h .joined (by simp)
      | pumping =>
          refine ⟨rfl, ?_⟩
          have hget := h .getMessage (by simp)
          cases hqueue : s.queue with
          | nil => rfl
          | cons m queue => cases m <;> simp [Shutdown.step, hhook, hqueue] at hget

/-- **WHEN DROPPING A CAPTURE FINISHES.**  After any run the two threads have a bounded
number of steps left between them, and where they come to rest the drop is over, with the
hooks removed and the thread gone, or it hangs; it is over exactly if the id was published
before the owner loaded it or a hook could not be installed. -/
theorem drop_finishes_iff {tid : ThreadId} {as : List ShutdownAction} {s : Shutdown}
    (hrun : (shutdown tid).run (shutdown tid).init as = some s) :
    (∀ bs s', (∀ b ∈ bs, b ≠ .arrive) → (shutdown tid).run s bs = some s' →
        bs.length ≤ s.work)
      ∧ (s.AtRest tid →
        (s.owner = .dropped ∧ s.hook = .returned ∨ s.Hangs)
          ∧ (s.owner = .dropped ↔ PublishedFirst as ∨ HookFailed as)) := by
  constructor
  · intro bs s' hbs hbrun
    obtain ⟨_, hcount⟩ := (shutdown_works tid).run trivial hbs hbrun
    have hall : bs.countP ShutdownAction.own = bs.length :=
      List.countP_eq_length.mpr fun b hb => decide_eq_true (hbs b hb)
    omega
  · intro hrest
    have hend : Ending as s :=
      (shutdown tid).run_history Ending.init (fun _ _ _ _ h hstep => h.step hstep) hrun
    have hquits := hend.quits
    rcases hrest.cases with hdropped | ⟨howner, hhook, hqueue⟩
    · have hreturned := hend.dropped hdropped
      rw [hend.joining (.inr hdropped)] at hquits
      exact ⟨.inl ⟨hdropped, hreturned⟩, fun _ => hquits.mp (.inr (.inr hreturned)),
        fun _ => hdropped⟩
    · -- the thread is in its loop for good
      have hno : ¬ s.Quits := by simp [Shutdown.Quits, hhook, hqueue]
      rw [hend.joining (.inl howner)] at hquits
      refine ⟨.inr ((Shutdown.hangs_iff s).mpr ⟨howner, hno⟩), ?_, ?_⟩
      · intro hdropped
        rw [howner] at hdropped
        cases hdropped
      · intro hyes
        exact absurd (hquits.mpr hyes) hno

/-- The id published in time: the drop is over. -/
theorem drop_finishes_iff_in_time :
    ∃ s, (shutdown ⟨7, by decide⟩).run Shutdown.spawned
        [.publish, .mouseHook true, .load, .post, .kbdHook true, .join, .getMessage, .unhook,
          .joined] = some s
      ∧ s.owner = .dropped := by
  obtain ⟨s, hrun⟩ : ∃ s, (shutdown ⟨7, by decide⟩).run Shutdown.spawned
      [.publish, .mouseHook true, .load, .post, .kbdHook true, .join, .getMessage, .unhook,
        .joined] = some s := ⟨_, rfl⟩
  refine ⟨s, hrun, ?_⟩
  have hrest : s.AtRest ⟨7, by decide⟩ := by
    cases hrun
    intro a ha
    cases a with
    | arrive => exact absurd rfl ha
    | _ => rfl
  refine ((drop_finishes_iff hrun).2 hrest).2.mpr (.inl ?_)
  exact ⟨[.publish, .mouseHook true], [.post, .kbdHook true, .join, .getMessage, .unhook, .joined],
    rfl, by simp⟩

/-! ## §5. Who stops the hook thread. -/

/-- Before a hook is called its thread has published its id. -/
theorem Shutdown.slot_of_pumping {tid : ThreadId} {s : Shutdown}
    (h : (shutdown tid).Reachable s) (hpump : s.hook = .pumping) : s.slot ≠ 0 := by
  have key : s.hook = .spawned ∨ s.slot ≠ 0 := by
    refine h.invariant (P := fun s => s.hook = .spawned ∨ s.slot ≠ 0) (.inl rfl) ?_
    intro s a s' hs hstep
    have hcases := Shutdown.step_cases hstep
    cases a with
    | publish =>
        obtain ⟨_, rfl⟩ := hcases
        exact .inr tid.2
    | mouseHook | kbdHook | unhook =>
        obtain ⟨hhook, rfl⟩ := hcases
        exact .inr (hs.resolve_left (by rw [hhook]; simp))
    | getMessage =>
        obtain ⟨hhook, ⟨queue, _, rfl⟩ | ⟨queue, _, rfl⟩⟩ := hcases
        · exact .inr (hs.resolve_left (by rw [hhook]; simp))
        · exact hs
    | arrive =>
        cases hcases
        exact hs
    | load | join =>
        obtain ⟨_, rfl⟩ := hcases
        exact hs
    | post =>
        obtain ⟨_, _, _, rfl⟩ := hcases
        exact hs
    | joined =>
        obtain ⟨_, _, rfl⟩ := hcases
        exact hs
  refine key.resolve_left ?_
  rw [hpump]
  simp

/-- The owner of a thread that it has joined is done with it. -/
theorem Shutdown.returned_of_dropped {tid : ThreadId} {s : Shutdown}
    (h : (shutdown tid).Reachable s) (hdropped : s.owner = .dropped) : s.hook = .returned := by
  obtain ⟨as, hrun⟩ := h
  have hend : Ending as s :=
    (shutdown tid).run_history Ending.init (fun _ _ _ _ h hstep => h.step hstep) hrun
  exact hend.dropped hdropped

/-- The hook thread has entered its message loop. -/
def Shutdown.Started (s : Shutdown) : Prop :=
  s.slot ≠ 0 ∧ (s.hook = .pumping ∨ s.hook = .leaving ∨ s.hook = .returned)

theorem Shutdown.Started.step {tid : ThreadId} {s s' : Shutdown} {a : ShutdownAction}
    (hs : s.Started) (h : s.step tid a = some s') : s'.Started := by
  obtain ⟨hslot, hhook⟩ := hs
  have hcases := step_cases h
  cases a with
  | publish | mouseHook | kbdHook =>
      rw [hcases.1] at hhook
      simp at hhook
  | getMessage =>
      obtain ⟨_, ⟨queue, _, rfl⟩ | ⟨queue, _, rfl⟩⟩ := hcases
      · exact ⟨hslot, .inr (.inl rfl)⟩
      · exact ⟨hslot, hhook⟩
  | unhook =>
      obtain ⟨_, rfl⟩ := hcases
      exact ⟨hslot, .inr (.inr rfl)⟩
  | arrive =>
      cases hcases
      exact ⟨hslot, hhook⟩
  | load | join =>
      obtain ⟨_, rfl⟩ := hcases
      exact ⟨hslot, hhook⟩
  | post =>
      obtain ⟨_, _, _, rfl⟩ := hcases
      exact ⟨hslot, hhook⟩
  | joined =>
      obtain ⟨_, _, rfl⟩ := hcases
      exact ⟨hslot, hhook⟩

/-- The hook thread has stopped or is bound to, or its owner has or will find its id. -/
def Shutdown.Stoppable (s : Shutdown) : Prop :=
  s.Quits ∨ (s.owner = .running ∧ s.slot ≠ 0) ∨ ∃ t, t ≠ 0 ∧ s.owner = .loaded t

/-- The owner has found no id, and nothing has stopped the thread. -/
def Shutdown.Orphaned (s : Shutdown) : Prop := s.owner ≠ .running ∧ ¬ s.Stoppable

/-- **A thread that can be stopped is stopped**, or still can be. -/
theorem Shutdown.Stoppable.step {tid : ThreadId} {s s' : Shutdown} {a : ShutdownAction}
    (hs : s.Stoppable) (h : s.step tid a = some s') : s'.Stoppable := by
  rcases hs with hquits | hfound
  · exact .inl (hquits.step h)
  · have hcases := step_cases h
    unfold Stoppable
    cases a with
    | publish =>
        obtain ⟨_, rfl⟩ := hcases
        exact .inr (hfound.imp_left fun hrunning => ⟨hrunning.1, tid.2⟩)
    | mouseHook | kbdHook | unhook =>
        obtain ⟨_, rfl⟩ := hcases
        exact .inr hfound
    | getMessage =>
        obtain ⟨_, ⟨queue, _, rfl⟩ | ⟨queue, _, rfl⟩⟩ := hcases <;> exact .inr hfound
    | arrive =>
        cases hcases
        exact .inr hfound
    | load =>
        -- what is in the slot is what the owner finds
        obtain ⟨howner, rfl⟩ := hcases
        rcases hfound with ⟨_, hslot⟩ | ⟨t, _, hloaded⟩
        · exact .inr (.inr ⟨s.slot, hslot, rfl⟩)
        · rw [howner] at hloaded
          cases hloaded
    | post =>
        obtain ⟨_, _, _, rfl⟩ := hcases
        exact .inl (.inl (List.mem_append_right _ List.mem_cons_self))
    | join =>
        obtain ⟨howner, -⟩ := hcases
        rcases hfound with ⟨hrunning, _⟩ | ⟨t, ht, hloaded⟩
        · rw [hrunning] at howner
          simp at howner
        · rw [hloaded] at howner
          simp [ht] at howner
    | joined =>
        obtain ⟨howner, _, _⟩ := hcases
        rw [howner] at hfound
        simp at hfound

/-- **An orphan in its message loop stays there.** -/
theorem Shutdown.Orphaned.step {tid : ThreadId} {s s' : Shutdown} {a : ShutdownAction}
    (hs : s.Orphaned) (hpump : s.hook = .pumping) (h : s.step tid a = some s') :
    s'.Orphaned ∧ s'.hook = .pumping := by
  obtain ⟨howner, hno⟩ := hs
  unfold Stoppable at hno
  obtain ⟨hquits, hfound⟩ := not_or.mp hno
  have hloaded : ∀ t, t ≠ 0 → s.owner ≠ .loaded t := fun t ht h => hfound (.inr ⟨t, ht, h⟩)
  have hcases := step_cases h
  have hquits' : ¬ s'.Quits := by
    rw [quits_step_iff h]
    rintro (h | rfl | rfl | rfl)
    · exact hquits h
    · obtain ⟨t, ht, hpost, _⟩ := hcases
      exact hloaded t ht hpost
    · rw [hpump] at hcases
      cases hcases.1
    · rw [hpump] at hcases
      cases hcases.1
  have key : s'.hook = .pumping ∧ s'.owner ≠ .running
      ∧ ∀ t, t ≠ 0 → s'.owner ≠ .loaded t := by
    cases a with
    | publish | mouseHook | kbdHook | unhook =>
        rw [hpump] at hcases
        cases hcases.1
    | getMessage =>
        obtain ⟨_, ⟨queue, hqueue, rfl⟩ | ⟨queue, _, rfl⟩⟩ := hcases
        · exact absurd (.inl (hqueue ▸ List.mem_cons_self)) hquits
        · exact ⟨hpump, howner, hloaded⟩
    | arrive =>
        cases hcases
        exact ⟨hpump, howner, hloaded⟩
    | load => exact absurd hcases.1 howner
    | post =>
        obtain ⟨t, ht, hpost, _⟩ := hcases
        exact absurd hpost (hloaded t ht)
    | join =>
        obtain ⟨_, rfl⟩ := hcases
        exact ⟨hpump, by simp, by simp⟩
    | joined =>
        obtain ⟨_, hreturned, _⟩ := hcases
        rw [hpump] at hreturned
        cases hreturned
  obtain ⟨hpump', howner', hloaded'⟩ := key
  refine ⟨⟨howner', ?_⟩, hpump'⟩
  rintro (h | ⟨h, _⟩ | ⟨t, ht, h⟩)
  · exact hquits' h
  · exact howner' h
  · exact hloaded' t ht h

/-- An orphan that has entered its message loop is still in it. -/
theorem Shutdown.Orphaned.pumping {s : Shutdown} (hs : s.Orphaned) (hstarted : s.Started) :
    s.hook = .pumping :=
  hstarted.2.resolve_right fun hleft => hs.2 (.inl (.inr hleft))

/-- **At rest a thread that can be stopped has stopped.** -/
theorem Shutdown.Stoppable.returned {tid : ThreadId} {s : Shutdown} (hs : s.Stoppable)
    (h : (shutdown tid).Reachable s) (hrest : s.AtRest tid) : s.hook = .returned := by
  rcases hrest.cases with hdropped | ⟨howner, hhook, hqueue⟩
  · exact returned_of_dropped h hdropped
  · -- nothing is on its way to it
    unfold Stoppable Quits at hs
    simp [howner, hhook, hqueue] at hs

end Dshare.Input
