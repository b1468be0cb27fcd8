/-
  Dshare.Clipboard.Echo
  ─────────────────────
  **ECHO SUPPRESSION, STEP BY STEP.**

  The watcher reads the text under one lock and compares hashes under another;
  `apply` records the hash under the second and sets the text under the first.
  Here each locked section is a step of its own, and the two tasks take theirs in
  any order.

    • `poll_steps`, `apply_steps` — undisturbed, the steps are `Clipboard.poll` and
      `Clipboard.apply`;
    • `Schedule` — which texts the updates bring and when, from the order of the
      steps alone;
    • `echo_suppressed_iff` — the watcher stays quiet throughout a run exactly when it
      always compares the text of the update whose apply began last.
-/
import Mathlib.Data.Set.Function
import Dshare.Clipboard.Broadcast

namespace Dshare

open Transition Dshare.Protocol

/-! ## §1. The two tasks. -/

inductive WatcherPhase where
  | sleeping
  /-- Between `get_text` and the comparison. -/
  | read (text : String)
  /-- In `out.send(msg).await`. -/
  | sending (msg : Message)

inductive ApplyPhase where
  | idle
  /-- Between the store of `last_hash` and `set_text`. -/
  | hashed (text : String)

structure SharedClipboard where
  clip : Clipboard
  watcher : WatcherPhase
  applying : ApplyPhase
  emitted : List Message

inductive EchoAction where
  /-- The watcher reads the text, under the lock of `inner`. -/
  | read
  /-- The watcher compares and updates `last_hash`, under the lock of `state`. -/
  | compare
  | send
  /-- `apply` stores the hash of the message's text, under the lock of `state`. -/
  | setHash (msg : Message)
  /-- `apply` sets the text, under the lock of `inner`. -/
  | setText

variable (hashStr : String → UInt64)

def SharedClipboard.step (s : SharedClipboard) : EchoAction → Option SharedClipboard
  | .read =>
      match s.watcher with
      | .sleeping =>
          match s.clip.text with
          | none => some s
          | some text => some { s with watcher := .read text }
      | _ => none
  | .compare =>
      match s.watcher with
      | .read text =>
          let h := hashStr text
          if s.clip.lastHash = h then some { s with watcher := .sleeping }
          else some { s with
            clip := { s.clip with lastHash := h }, watcher := .sending (updateOf text) }
      | _ => none
  | .send =>
      match s.watcher with
      | .sending msg => some { s with emitted := s.emitted ++ [msg], watcher := .sleeping }
      | _ => none
  | .setHash msg =>
      match s.applying with
      | .idle =>
          match updateText msg with
          | none => some s
          | some text => some { s with
              clip := { s.clip with lastHash := hashStr text }, applying := .hashed text }
      | _ => none
  | .setText =>
      match s.applying with
      | .hashed text =>
          some { s with clip := { s.clip with text := some text }, applying := .idle }
      | _ => none

/-- A clipboard whose text has been sent or applied, with both tasks at rest. -/
def sharedClipboard (text₀ : String) : System SharedClipboard EchoAction :=
  ⟨⟨⟨some text₀, hashStr text₀⟩, .sleeping, .idle, []⟩, SharedClipboard.step hashStr⟩

/-- The watcher has sent nothing, and is not about to. -/
def SharedClipboard.Quiet (s : SharedClipboard) : Prop :=
  s.emitted = [] ∧ ∀ msg, s.watcher ≠ .sending msg

variable {hashStr}

/-- **Undisturbed, the watcher's steps are a poll.** -/
theorem poll_steps {text₀ : String} {s : SharedClipboard} (h : s.watcher = .sleeping) :
    ∃ as, (sharedClipboard hashStr text₀).run s as = some { s with
      clip := (s.clip.poll hashStr).2
      emitted := s.emitted ++ (s.clip.poll hashStr).1.toList } := by
  obtain ⟨⟨text, lastHash⟩, watcher, applying, emitted⟩ := s
  cases h
  cases text with
  | none => exact ⟨[.read], by simp [System.run, sharedClipboard, SharedClipboard.step,
      Clipboard.poll]⟩
  | some text =>
      by_cases heq : lastHash = hashStr text
      · exact ⟨[.read, .compare], by simp [System.run, sharedClipboard, SharedClipboard.step,
          Clipboard.poll, heq]⟩
      · exact ⟨[.read, .compare, .send], by simp [System.run, sharedClipboard,
          SharedClipboard.step, Clipboard.poll, heq]⟩

/-- **Undisturbed, the steps of `apply` are `apply`.** -/
theorem apply_steps {text₀ : String} {s : SharedClipboard} (h : s.applying = .idle)
    (msg : Message) :
    ∃ as, (sharedClipboard hashStr text₀).run s as
      = some { s with clip := s.clip.apply hashStr msg } := by
  obtain ⟨clip, watcher, applying, emitted⟩ := s
  cases h
  cases htext : updateText msg with
  | none => exact ⟨[.setHash msg], by simp [System.run, sharedClipboard, SharedClipboard.step,
      Clipboard.apply, htext]⟩
  | some text => exact ⟨[.setHash msg, .setText], by simp [System.run, sharedClipboard,
      SharedClipboard.step, Clipboard.apply, htext]⟩

/-- What a step does, action by action, with what it asks for. -/
theorem SharedClipboard.step_cases {s s' : SharedClipboard} {a : EchoAction}
    (h : s.step hashStr a = some s') :
    match a with
    | .read => s.watcher = .sleeping ∧ ((s.clip.text = none ∧ s' = s)
        ∨ ∃ text, s.clip.text = some text ∧ s' = { s with watcher := .read text })
    | .compare => ∃ text, s.watcher = .read text
        ∧ ((s.clip.lastHash = hashStr text ∧ s' = { s with watcher := .sleeping })
          ∨ (s.clip.lastHash ≠ hashStr text ∧ s' = { s with
              clip := { s.clip with lastHash := hashStr text }
              watcher := .sending (updateOf text) }))
    | .send => ∃ msg, s.watcher = .sending msg
        ∧ s' = { s with emitted := s.emitted ++ [msg], watcher := .sleeping }
    | .setHash msg => s.applying = .idle ∧ ((updateText msg = none ∧ s' = s)
        ∨ ∃ text, updateText msg = some text ∧ s' = { s with
            clip := { s.clip with lastHash := hashStr text }, applying := .hashed text })
    | .setText => ∃ text, s.applying = .hashed text
        ∧ s' = { s with clip := { s.clip with text := some text }, applying := .idle } := by
  cases a with
  | read =>
      unfold step at h
      cases hw : s.watcher with
      | sleeping =>
          simp only [hw] at h
          refine ⟨rfl, ?_⟩
          cases htext : s.clip.text with
          | none =>
              simp only [htext] at h
              exact .inl ⟨rfl, (Option.some.inj h).symm⟩
          | some text =>
              simp only [htext] at h
              exact .inr ⟨text, rfl, (Option.some.inj h).symm⟩
      | read | sending =>
          simp only [hw] at h
          cases h
  | compare =>
      unfold step at h
      cases hw : s.watcher with
      | read text =>
          simp only [hw] at h
          refine ⟨text, rfl, ?_⟩
          by_cases heq : s.clip.lastHash = hashStr text
          · rw [if_pos heq] at h
            exact .inl ⟨heq, (Option.some.inj h).symm⟩
          · rw [if_neg heq] at h
            exact .inr ⟨heq, (Option.some.inj h).symm⟩
      | sleeping | sending =>
          simp only [hw] at h
          cases h
  | send =>
      unfold step at h
      cases hw : s.watcher with
      | sending msg =>
          simp only [hw] at h
          exact ⟨msg, rfl, (Option.some.inj h).symm⟩
      | sleeping | read =>
          simp only [hw] at h
          cases h
  | setHash msg =>
      unfold step at h
      cases ha : s.applying with
      | idle =>
          simp only [ha] at h
          refine ⟨rfl, ?_⟩
          cases htext : updateText msg with
          | none =>
              simp only [htext] at h
              exact .inl ⟨rfl, (Option.some.inj h).symm⟩
          | some text =>
              simp only [htext] at h
              exact .inr ⟨text, rfl, (Option.some.inj h).symm⟩
      | hashed =>
          simp only [ha] at h
          cases h
  | setText =>
      unfold step at h
      cases ha : s.applying with
      | hashed text =>
          simp only [ha] at h
          exact ⟨text, rfl, (Option.some.inj h).symm⟩
      | idle =>
          simp only [ha] at h
          cases h

/-! ## §2. The schedule. -/

/-- What the order of the steps says: the text of the update whose apply began last, the
text that was set last, and the text that was set last when the watcher read. -/
structure Schedule where
  begun : String
  current : String
  read : String

def Schedule.step (h : Schedule) : EchoAction → Schedule
  | .read => { h with read := h.current }
  | .setHash msg =>
      match updateText msg with
      | none => h
      | some text => { h with begun := text }
  | .setText => { h with current := h.begun }
  | .compare | .send => h

def scheduleAfter (text₀ : String) (as : List EchoAction) : Schedule :=
  as.foldl Schedule.step ⟨text₀, text₀, text₀⟩

@[simp] theorem scheduleAfter_snoc (text₀ : String) (as : List EchoAction) (a : EchoAction) :
    scheduleAfter text₀ (as ++ [a]) = (scheduleAfter text₀ as).step a := by
  simp [scheduleAfter]

variable {T : Set String}

variable (hashStr T) in
/-- A quiet clipboard follows its schedule, and all texts are in `T`. -/
structure Scheduled (h : Schedule) (s : SharedClipboard) : Prop where
  begun : h.begun ∈ T
  read : h.read ∈ T
  current : h.current ∈ T
  text : s.clip.text = some h.current
  hash : s.clip.lastHash = hashStr h.begun
  watcher : ∀ text, s.watcher = .read text → text = h.read
  applied : s.applying = .idle → h.current = h.begun
  applying : ∀ text, s.applying = .hashed text → text = h.begun

theorem Scheduled.init {text₀ : String} (h : text₀ ∈ T) :
    Scheduled hashStr T (scheduleAfter text₀ []) (sharedClipboard hashStr text₀).init :=
  ⟨h, h, h, rfl, rfl, nofun, fun _ => rfl, nofun⟩

/-- **A quiet clipboard follows its schedule**, as long as it stays quiet. -/
theorem Scheduled.step {h : Schedule} {s s' : SharedClipboard} {a : EchoAction}
    (hs : Scheduled hashStr T h s) (hquiet : s'.Quiet)
    (hmem : ∀ msg text, a = .setHash msg → updateText msg = some text → text ∈ T)
    (hstep : s.step hashStr a = some s') : Scheduled hashStr T (h.step a) s' := by
  have hcases := SharedClipboard.step_cases hstep
  cases a with
  | read =>
      obtain ⟨hw, ⟨hnone, rfl⟩ | ⟨text, htext, rfl⟩⟩ := hcases
      · rw [hs.text] at hnone
        cases hnone
      · rw [hs.text] at htext
        cases htext
        refine ⟨hs.begun, hs.current, hs.current, hs.text, hs.hash, ?_, hs.applied, hs.applying⟩
        intro text hr
        cases hr
        rfl
  | compare =>
      obtain ⟨text, hw, ⟨heq, rfl⟩ | ⟨hne, rfl⟩⟩ := hcases
      · exact ⟨hs.begun, hs.read, hs.current, hs.text, hs.hash, nofun, hs.applied, hs.applying⟩
      · exact absurd rfl (hquiet.2 (updateOf text))
  | send =>
      -- a watcher that sends is not quiet
      obtain ⟨msg, hw, rfl⟩ := hcases
      have hnil := hquiet.1
      simp at hnil
  | setHash msg =>
      obtain ⟨ha, ⟨hnone, rfl⟩ | ⟨text, htext, rfl⟩⟩ := hcases
      · have hsame : h.step (.setHash msg) = h := by simp only [Schedule.step, hnone]
        rw [hsame]
        exact hs
      · have hbegun : h.step (.setHash msg) = { h with begun := text } := by
          simp only [Schedule.step, htext]
        rw [hbegun]
        refine ⟨hmem msg text rfl htext, hs.read, hs.current, hs.text, rfl, hs.watcher, nofun, ?_⟩
        intro text' hr
        cases hr
        rfl
  | setText =>
      -- the text that is set is the one whose hash was stored last
      obtain ⟨text, ha, rfl⟩ := hcases
      have hbegun := hs.applying text ha
      refine ⟨hs.begun, hs.read, hs.begun, ?_, hs.hash, hs.watcher, fun _ => rfl, nofun⟩
      rw [hbegun]
      rfl

/-- **When a quiet watcher stays quiet**: it does not compare, or it compares the text of the
update whose apply began last. -/
theorem Scheduled.quiet_iff {h : Schedule} {s s' : SharedClipboard} {a : EchoAction}
    (hs : Scheduled hashStr T h s) (hinj : Set.InjOn hashStr T) (hquiet : s.Quiet)
    (hstep : s.step hashStr a = some s') :
    s'.Quiet ↔ (a = .compare → h.read = h.begun) := by
  have hcases := SharedClipboard.step_cases hstep
  obtain ⟨hnil, hnot⟩ := hquiet
  cases a with
  | read =>
      obtain ⟨hw, ⟨hnone, rfl⟩ | ⟨text, htext, rfl⟩⟩ := hcases
      · exact ⟨fun _ => nofun, fun _ => ⟨hnil, hnot⟩⟩
      · exact ⟨fun _ => nofun, fun _ => ⟨hnil, nofun⟩⟩
  | compare =>
      obtain ⟨text, hw, hcmp⟩ := hcases
      have hread := hs.watcher text hw
      rw [hs.hash, hread] at hcmp
      obtain ⟨heq, rfl⟩ | ⟨hne, rfl⟩ := hcmp
      · -- equal hashes are those of one text
        exact ⟨fun _ _ => (hinj hs.begun hs.read heq).symm, fun _ => ⟨hnil, nofun⟩⟩
      · constructor
        · intro hq
          exact absurd rfl (hq.2 (updateOf h.read))
        · intro hr
          rw [hr rfl] at hne
          exact absurd rfl hne
  | send =>
      obtain ⟨msg, hw, rfl⟩ := hcases
      exact absurd hw (hnot msg)
  | setHash msg =>
      obtain ⟨ha, ⟨hnone, rfl⟩ | ⟨text, htext, rfl⟩⟩ := hcases
      · exact ⟨fun _ => nofun, fun _ => ⟨hnil, hnot⟩⟩
      · exact ⟨fun _ => nofun, fun _ => ⟨hnil, hnot⟩⟩
  | setText =>
      obtain ⟨text, ha, rfl⟩ := hcases
      exact ⟨fun _ => nofun, fun _ => ⟨hnil, hnot⟩⟩

/-- **When echoes are suppressed**: the watcher stays quiet throughout a run exactly when, at
every comparison, the text that was set last before the read is that of the update whose
apply began last. -/
theorem echo_suppressed_iff (hinj : Set.InjOn hashStr T) {text₀ : String} (h₀ : text₀ ∈ T)
    {as : List EchoAction}
    (hmem : ∀ msg text, .setHash msg ∈ as → updateText msg = some text → text ∈ T)
    {s : SharedClipboard}
    (hrun : (sharedClipboard hashStr text₀).run (sharedClipboard hashStr text₀).init as = some s) :
    (sharedClipboard hashStr text₀).Always SharedClipboard.Quiet
        (sharedClipboard hashStr text₀).init as
      ↔ (sharedClipboard hashStr text₀).Each
          (fun before _ a => a = .compare →
            (scheduleAfter text₀ before).read = (scheduleAfter text₀ before).begun)
          (sharedClipboard hashStr text₀).init as := by
  refine System.always_iff_each
    (I := fun pre s => Scheduled hashStr T (scheduleAfter text₀ pre) s)
    (.init h₀) ⟨rfl, nofun⟩ ?_ ?_ hrun
  · intro pre s a s' hpre hs _ hstep hquiet
    rw [scheduleAfter_snoc]
    refine hs.step hquiet ?_ hstep
    intro msg text ha htext
    exact hmem msg text (hpre.subset (by simp [ha])) htext
  · intro pre s a s' _ hs hquiet hstep
    exact hs.quiet_iff hinj hquiet hstep

/-- An update applied between two polls. -/
theorem echo_suppressed_iff_between_polls :
    let hashStr : String → UInt64 := fun text => if text = "a" then 1 else 2
    (sharedClipboard hashStr "a").Always SharedClipboard.Quiet (sharedClipboard hashStr "a").init
      [.setHash (updateOf "b"), .setText, .read, .compare] := by
  intro hashStr
  have hinj : Set.InjOn hashStr {"a", "b"} := by simp [Set.InjOn, hashStr]
  have hmem : ∀ msg text,
      .setHash msg ∈ [EchoAction.setHash (updateOf "b"), .setText, .read, .compare] →
      updateText msg = some text → text ∈ ({"a", "b"} : Set String) := by
    intro msg text hmsg htext
    simp only [List.mem_cons, EchoAction.setHash.injEq, reduceCtorEq, List.not_mem_nil,
      or_false] at hmsg
    rw [hmsg, updateText_updateOf] at htext
    cases htext
    simp
  obtain ⟨s, hrun⟩ : ∃ s, (sharedClipboard hashStr "a").run (sharedClipboard hashStr "a").init
      [.setHash (updateOf "b"), .setText, .read, .compare] = some s := by
    simp [System.run, sharedClipboard, SharedClipboard.step, hashStr]
  refine (echo_suppressed_iff hinj (by simp) hmem hrun).mpr ?_
  show (sharedClipboard hashStr "a").Each _ _
    (((([] ++ [.setHash (updateOf "b")]) ++ [.setText]) ++ [.read]) ++ [.compare])
  simp only [System.each_snoc]
  refine ⟨⟨⟨⟨System.each_nil, ?_⟩, ?_⟩, ?_⟩, ?_⟩
  · intro t _ h
    cases h
  · intro t _ h
    cases h
  · intro t _ h
    cases h
  · intro _ _ _
    simp [scheduleAfter, Schedule.step]

/-- An update applied between the watcher's read and its comparison: the watcher sends the
text that the update replaces. -/
theorem stale_read_echoes :
    let hashStr : String → UInt64 := fun text => if text = "a" then 1 else 2
    Set.InjOn hashStr {"a", "b"}
      ∧ ∃ s, (sharedClipboard hashStr "a").run (sharedClipboard hashStr "a").init
          [.read, .setHash (updateOf "b"), .setText, .compare, .send] = some s
        ∧ s.clip.text = some "b" ∧ s.emitted = [updateOf "a"] ∧ ¬ s.Quiet := by
  intro hashStr
  refine ⟨by simp [Set.InjOn, hashStr],
    ⟨⟨some "b", 1⟩, .sleeping, .idle, [updateOf "a"]⟩, ?_, rfl, rfl, fun h => nomatch h.1⟩
  simp [System.run, sharedClipboard, SharedClipboard.step, hashStr]

end Dshare
