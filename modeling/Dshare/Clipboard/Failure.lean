/-
  Dshare.Clipboard.Failure
  ────────────────────────
  **WHEN THE SYSTEM REFUSES THE TEXT.**

  `apply` records the hash of a text before it hands the text to the system, and a
  `set_text` that fails is only warned about.  From then on `last_hash` belongs to a
  text the clipboard does not hold.

    • `applyCall_eq` — what a call changes, in each of its exits;
    • `after_text`, `after_lastHash` — any number of calls leave the last text written,
      and the hash of the last text accepted;
    • `apply_atomic_iff` — when a failed call leaves no trace, in the state and in the
      next poll.
-/
import Dshare.Clipboard.Broadcast

namespace Dshare

open Dshare.Protocol

/-! ## §1. One call. -/

/-- A call of `apply`, and whether `set_text` succeeds if it comes to that. -/
structure ApplyCall where
  msg : Message
  written : Bool

/-- What the call is for: the text the message carries, if `apply` accepts it. -/
def ApplyCall.text (a : ApplyCall) : Option String := updateText a.msg

variable (hashStr : String → UInt64)

/-- `Clipboard::apply` with a `set_text` that may fail and then leaves the system alone. -/
def Clipboard.applyCall (c : Clipboard) (a : ApplyCall) : Clipboard :=
  match updateText a.msg with
  | none => c
  | some text =>
      let c := { c with lastHash := hashStr text }
      if a.written then { c with text := some text } else c

/-- A call whose text is written is the `apply` of the other modules. -/
theorem Clipboard.applyCall_written (c : Clipboard) (msg : Message) :
    c.applyCall hashStr ⟨msg, true⟩ = c.apply hashStr msg := by
  unfold applyCall apply
  cases updateText msg <;> rfl

/-- **The exits of `apply`**: the message is not for it; the text is written; the text is
refused, and only its hash stays. -/
theorem Clipboard.applyCall_eq (c : Clipboard) (a : ApplyCall) :
    c.applyCall hashStr a = match a.text, a.written with
      | none, _ => c
      | some text, true => ⟨some text, hashStr text⟩
      | some text, false => ⟨c.text, hashStr text⟩ := by
  unfold applyCall ApplyCall.text
  cases updateText a.msg with
  | none => rfl
  | some text => cases a.written <;> rfl

/-- The call sets text and hash together, or it leaves both as they were. -/
def Clipboard.AppliedOrKept (c : Clipboard) (a : ApplyCall) : Prop :=
  (∃ text, a.text = some text ∧ a.written = true
      ∧ c.applyCall hashStr a = ⟨some text, hashStr text⟩)
    ∨ (a.text = none ∨ a.written = false) ∧ c.applyCall hashStr a = c

/-- **A refused text leaves its hash behind**, unless it was there before. -/
theorem Clipboard.appliedOrKept_iff (c : Clipboard) (a : ApplyCall) :
    c.AppliedOrKept hashStr a
      ↔ ∀ text, a.text = some text → a.written = false → c.lastHash = hashStr text := by
  unfold AppliedOrKept
  rw [applyCall_eq]
  cases htext : a.text with
  | none => simp
  | some text =>
      cases hwritten : a.written with
      | true => simp
      | false =>
          obtain ⟨held, lastHash⟩ := c
          simp [eq_comm]

/-! ## §2. Any number of calls. -/

/-- The clipboard after the listed calls, with no copy and no poll in between. -/
def Clipboard.after (c : Clipboard) (calls : List ApplyCall) : Clipboard :=
  calls.foldl (Clipboard.applyCall hashStr) c

/-- The last text that was accepted, and whether it was written. -/
def lastAccepted (calls : List ApplyCall) : Option (String × Bool) :=
  (calls.filterMap fun a => a.text.map fun text => (text, a.written)).getLast?

/-- The last text that was written. -/
def lastWritten (calls : List ApplyCall) : Option String :=
  (calls.filterMap fun a => if a.written then a.text else none).getLast?

/-- The clipboard as it would be had it only ever heard of the last text written, or of
nothing if none was. -/
def Clipboard.asWritten (c : Clipboard) (calls : List ApplyCall) : Clipboard :=
  match lastWritten calls with
  | none => c
  | some text => ⟨some text, hashStr text⟩

/-- The last of the selected values, after one more element. -/
theorem getLast?_filterMap_snoc {α β : Type} (f : α → Option β) (l : List α) (a : α) :
    ((l ++ [a]).filterMap f).getLast? = (f a).or (l.filterMap f).getLast? := by
  rw [List.filterMap_append, List.getLast?_append]
  cases h : f a with
  | none => simp [h]
  | some b => simp [h]

theorem lastAccepted_snoc (calls : List ApplyCall) (a : ApplyCall) :
    lastAccepted (calls ++ [a])
      = (a.text.map fun text => (text, a.written)).or (lastAccepted calls) :=
  getLast?_filterMap_snoc _ calls a

theorem lastWritten_snoc (calls : List ApplyCall) (a : ApplyCall) :
    lastWritten (calls ++ [a]) = (if a.written then a.text else none).or (lastWritten calls) :=
  getLast?_filterMap_snoc _ calls a

theorem Clipboard.after_snoc (c : Clipboard) (calls : List ApplyCall) (a : ApplyCall) :
    c.after hashStr (calls ++ [a]) = (c.after hashStr calls).applyCall hashStr a := by
  simp [after]

/-- The clipboard holds the last text written. -/
theorem Clipboard.after_text (c : Clipboard) (calls : List ApplyCall) :
    (c.after hashStr calls).text = (c.asWritten hashStr calls).text := by
  induction calls using List.reverseRecOn with
  | nil => rfl
  | append_singleton calls a ih =>
      rw [after_snoc, applyCall_eq]
      unfold asWritten at ih ⊢
      rw [lastWritten_snoc]
      cases htext : a.text with
      | none => simpa using ih
      | some text =>
          cases hwritten : a.written with
          | true => rfl
          | false => simpa using ih

/-- `last_hash` is that of the last text accepted. -/
theorem Clipboard.after_lastHash (c : Clipboard) (calls : List ApplyCall) :
    (c.after hashStr calls).lastHash
      = ((lastAccepted calls).map fun p => hashStr p.1).getD c.lastHash := by
  induction calls using List.reverseRecOn with
  | nil => rfl
  | append_singleton calls a ih =>
      rw [after_snoc, applyCall_eq, lastAccepted_snoc]
      cases htext : a.text with
      | none => simpa using ih
      | some text => cases a.written <;> rfl

/-- The last text accepted is the last text written, or it was refused. -/
theorem lastAccepted_cases (calls : List ApplyCall) :
    lastAccepted calls = (lastWritten calls).map (fun text => (text, true))
      ∨ ∃ text, lastAccepted calls = some (text, false) := by
  induction calls using List.reverseRecOn with
  | nil => exact .inl rfl
  | append_singleton calls a ih =>
      rw [lastAccepted_snoc, lastWritten_snoc]
      cases htext : a.text with
      | none => simpa using ih
      | some text =>
          cases hwritten : a.written with
          | true => exact .inl rfl
          | false => exact .inr ⟨text, rfl⟩

theorem Clipboard.ext {c c' : Clipboard} (htext : c.text = c'.text)
    (hhash : c.lastHash = c'.lastHash) : c = c' := by
  cases c
  cases c'
  cases htext
  cases hhash
  rfl

/-- **As long as the last text accepted was not refused, the earlier refusals are
forgotten.** -/
theorem Clipboard.after_eq_asWritten {c : Clipboard} {calls : List ApplyCall}
    (h : lastAccepted calls = (lastWritten calls).map fun text => (text, true)) :
    c.after hashStr calls = c.asWritten hashStr calls := by
  refine Clipboard.ext (c.after_text hashStr calls) ?_
  rw [c.after_lastHash hashStr calls, h]
  unfold asWritten
  cases lastWritten calls <;> rfl

/-! ## §3. The next poll. -/

/-- The next poll sends something. -/
def Clipboard.Sends (c : Clipboard) : Prop := (c.poll hashStr).1.isSome = true

theorem Clipboard.sends_iff (c : Clipboard) :
    c.Sends hashStr ↔ ∃ current, c.text = some current ∧ c.lastHash ≠ hashStr current := by
  unfold Sends poll
  cases htext : c.text with
  | none => simp
  | some current =>
      by_cases h : c.lastHash = hashStr current
      · simp [h]
      · simp [h]

/-- After a refused text, the next poll compares the hash of that text with the one
the clipboard holds. -/
theorem Clipboard.sends_after_refused {c : Clipboard} {calls : List ApplyCall} {text : String}
    (h : lastAccepted calls = some (text, false)) :
    (c.after hashStr calls).Sends hashStr
      ↔ ∃ current, (c.asWritten hashStr calls).text = some current
          ∧ hashStr text ≠ hashStr current := by
  rw [sends_iff, after_text, after_lastHash, h]
  rfl

/-- **A FAILED APPLY CHANGES NOTHING** exactly where the recorded hash does not matter.
One call keeps text and hash together unless it refuses a text whose hash is not the one
recorded.  After any number of calls, the next poll sends what it would send had it only
ever heard of the last text written, unless the last text accepted was refused and compares
otherwise with the text the clipboard holds. -/
theorem apply_atomic_iff :
    (∀ (c : Clipboard) (a : ApplyCall), c.AppliedOrKept hashStr a
        ↔ ∀ text, a.text = some text → a.written = false → c.lastHash = hashStr text)
      ∧ ∀ (c : Clipboard) (calls : List ApplyCall),
          ((c.after hashStr calls).Sends hashStr ↔ (c.asWritten hashStr calls).Sends hashStr)
            ↔ ∀ text, lastAccepted calls = some (text, false) →
                ∀ current, (c.asWritten hashStr calls).text = some current →
                  (hashStr text = hashStr current
                    ↔ (c.asWritten hashStr calls).lastHash = hashStr current) := by
  refine ⟨Clipboard.appliedOrKept_iff hashStr, ?_⟩
  intro c calls
  rcases lastAccepted_cases calls with hwritten | ⟨text, hrefused⟩
  · -- nothing was refused since the last text written
    rw [Clipboard.after_eq_asWritten hashStr hwritten, hwritten]
    simp
  · rw [Clipboard.sends_after_refused hashStr hrefused, Clipboard.sends_iff, hrefused]
    cases hcurrent : (c.asWritten hashStr calls).text with
    | none => simp
    | some current => simp [not_iff_not]

/-- The clipboard holds what was sent last, and a text from the peer is refused: the hash
of that text stays, and the watcher sends the old text again. -/
theorem refused_apply_sends_again :
    (¬ ∀ (hashStr : String → UInt64) (c : Clipboard) (a : ApplyCall), c.AppliedOrKept hashStr a)
      ∧ ¬ ∀ (hashStr : String → UInt64) (c : Clipboard) (calls : List ApplyCall),
          (c.after hashStr calls).Sends hashStr ↔ (c.asWritten hashStr calls).Sends hashStr := by
  have htext : (ApplyCall.mk (updateOf "new text") false).text = some "new text" :=
    updateText_updateOf "new text"
  constructor
  · intro h
    have hcall := h (fun text => text.length.toUInt64) ⟨some "old", 3⟩ ⟨updateOf "new text", false⟩
    rw [Clipboard.appliedOrKept_iff] at hcall
    exact absurd (hcall _ htext rfl) (by decide)
  · intro h
    have hcalls := h (fun text => text.length.toUInt64) ⟨some "old", 3⟩
      [⟨updateOf "new text", false⟩]
    have hlast : lastAccepted [⟨updateOf "new text", false⟩] = some ("new text", false) := by
      unfold lastAccepted
      rw [List.filterMap_cons, htext]
      rfl
    rw [Clipboard.sends_after_refused _ hlast, Clipboard.sends_iff] at hcalls
    obtain ⟨current, hcurrent, hne⟩ := hcalls.mp ⟨"old", rfl, by decide⟩
    cases hcurrent
    exact hne rfl

end Dshare
