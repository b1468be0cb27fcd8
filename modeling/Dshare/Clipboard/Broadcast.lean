/-
  Dshare.Clipboard.Broadcast
  ──────────────────────────
  **CLIPBOARDS THAT TELL EACH OTHER.**

  A `Clipboard` is the text the system holds and the hash of the last text that
  was sent or applied.  A poll of the watcher sends the text when its hash is
  another; applying an update records its hash first, so that the next poll sends
  nothing.  How texts are hashed is left open: `DefaultHasher` promises no
  algorithm.

    • `Clipboard.poll_pending`, `Clipboard.apply_pending`, `Clipboard.copy_pending` —
      what each step does to the one message a clipboard may owe;
    • `no_broadcast_storm` — any number of peers send at most one message for each
      local copy and one more for each peer, whatever is delivered to whom.
-/
import Mathlib.Algebra.Order.BigOperators.Group.Finset
import Dshare.Lib.Transition
import Dshare.Protocol.Message

namespace Dshare

open Transition Dshare.Protocol

/-! ## §1. One clipboard. -/

/-- The text `get_text` returns, if it returns any, and `State::last_hash`. -/
structure Clipboard where
  text : Option String
  lastHash : UInt64

/-- `Clipboard::new`, on a system that holds `text`. -/
def Clipboard.new (text : Option String) : Clipboard := ⟨text, 0⟩

/-- The message of the watcher. -/
def updateOf (text : String) : Message :=
  .clipboardUpdate "text/plain;charset=utf-8" text.toByteArray.data.toList

/-- What `apply` takes from a message: the text of a `text/*` update in UTF-8. -/
def updateText : Message → Option String
  | .clipboardUpdate mime data =>
      if mime.startsWith "text/" then String.fromUTF8? ⟨data.toArray⟩ else none
  | _ => none

/-- The watcher's own messages are text. -/
@[simp] theorem updateText_updateOf (text : String) : updateText (updateOf text) = some text := by
  have hmime : ("text/plain;charset=utf-8" : String).startsWith "text/" = true := by simp
  simp only [updateText, updateOf, hmime, if_true]
  simp [String.fromUTF8?, text.isValidUTF8, String.fromUTF8]

theorem updateOf_injective {t u : String} (h : updateOf t = updateOf u) : t = u := by
  have htext := congrArg updateText h
  rw [updateText_updateOf, updateText_updateOf] at htext
  exact Option.some.inj htext

variable (hashStr : String → UInt64)

/-- One turn of the watcher's loop: what it sends, if anything. -/
def Clipboard.poll (c : Clipboard) : Option Message × Clipboard :=
  match c.text with
  | none => (none, c)
  | some text =>
      let h := hashStr text
      if c.lastHash = h then (none, c) else (some (updateOf text), { c with lastHash := h })

/-- `Clipboard::apply`. -/
def Clipboard.apply (c : Clipboard) (msg : Message) : Clipboard :=
  match updateText msg with
  | none => c
  | some text =>
      let c := { c with lastHash := hashStr text }
      { c with text := some text }

@[simp] theorem Clipboard.apply_updateOf (c : Clipboard) (text : String) :
    c.apply hashStr (updateOf text) = ⟨some text, hashStr text⟩ := by
  simp [apply]

/-- The user copies a text. -/
def Clipboard.copy (c : Clipboard) (text : String) : Clipboard := { c with text := some text }

/-- The number of messages the watcher owes: it will send the text, or not. -/
def Clipboard.pending (c : Clipboard) : Nat :=
  match c.text with
  | none => 0
  | some text => if c.lastHash = hashStr text then 0 else 1

theorem Clipboard.pending_le_one (c : Clipboard) : c.pending hashStr ≤ 1 := by
  unfold pending
  cases c.text with
  | none => exact Nat.zero_le 1
  | some text =>
      by_cases h : c.lastHash = hashStr text
      · simp [h]
      · simp [h]

/-- **A poll sends what is owed**, and then nothing is. -/
theorem Clipboard.poll_pending (c : Clipboard) :
    (c.poll hashStr).1.toList.length = c.pending hashStr
      ∧ (c.poll hashStr).2.pending hashStr = 0 := by
  unfold poll pending
  cases htext : c.text with
  | none => simp [htext]
  | some text =>
      by_cases h : c.lastHash = hashStr text
      · simp [htext, h]
      · simp [h]

/-- Applying an update leaves nothing owed for it. -/
theorem Clipboard.apply_pending (c : Clipboard) (msg : Message) :
    (c.apply hashStr msg).pending hashStr ≤ c.pending hashStr := by
  unfold apply
  cases updateText msg with
  | none => exact Nat.le_refl _
  | some text => simp [pending]

/-- A copy owes one message at most. -/
theorem Clipboard.copy_pending (c : Clipboard) (text : String) :
    (c.copy text).pending hashStr ≤ c.pending hashStr + 1 := by
  have hle := pending_le_one hashStr (c.copy text)
  omega

/-! ## §2. Any number of peers. -/

/-- The peers' clipboards, and every message any of them has sent. -/
structure Peers (n : Nat) where
  clip : Fin n → Clipboard
  emitted : List Message

inductive PeersAction (n : Nat) where
  | copy (i : Fin n) (text : String)
  | poll (i : Fin n)
  /-- A message sent before reaches a peer, for the first time or again. -/
  | deliver (i : Fin n) (k : Nat)

variable {n : Nat}

def Peers.set (s : Peers n) (i : Fin n) (c : Clipboard) : Peers n :=
  { s with clip := Function.update s.clip i c }

def Peers.step (s : Peers n) : PeersAction n → Option (Peers n)
  | .copy i text => some (s.set i ((s.clip i).copy text))
  | .poll i =>
      let (msg, c) := (s.clip i).poll hashStr
      some { s.set i c with emitted := s.emitted ++ msg.toList }
  | .deliver i k =>
      match s.emitted[k]? with
      | none => none
      | some msg => some (s.set i ((s.clip i).apply hashStr msg))

/-- The peers, on systems that hold the given texts. -/
def peers (texts : Fin n → Option String) : System (Peers n) (PeersAction n) :=
  ⟨⟨fun i => .new (texts i), []⟩, Peers.step hashStr⟩

/-- How often a user copied a text. -/
def copies (as : List (PeersAction n)) : Nat :=
  as.countP fun a => match a with
    | .copy _ _ => true
    | _ => false

/-- What all the watchers owe. -/
def Peers.pending (s : Peers n) : Nat := ∑ i, (s.clip i).pending hashStr

/-- What one clipboard owes counts for the peers. -/
theorem Peers.pending_set (s : Peers n) (i : Fin n) (c : Clipboard) :
    (s.set i c).pending hashStr + (s.clip i).pending hashStr
      = s.pending hashStr + c.pending hashStr := by
  -- split both sums at `i`: the other peers owe what they owed
  have hold := Finset.add_sum_erase Finset.univ (fun j => (s.clip j).pending hashStr)
    (Finset.mem_univ i)
  have hnew := Finset.add_sum_erase Finset.univ
    (fun j => (Function.update s.clip i c j).pending hashStr) (Finset.mem_univ i)
  have hrest : ∑ j ∈ Finset.univ.erase i, (Function.update s.clip i c j).pending hashStr
      = ∑ j ∈ Finset.univ.erase i, (s.clip j).pending hashStr := by
    refine Finset.sum_congr rfl fun j hj => ?_
    rw [Function.update_of_ne (Finset.ne_of_mem_erase hj)]
  simp only [Function.update_self] at hnew
  show (∑ j, (Function.update s.clip i c j).pending hashStr) + _ = (∑ j, _) + _
  omega

variable {hashStr}

/-- **What is sent and what is owed grow with the copies only.** -/
theorem Peers.step_pending {s s' : Peers n} {a : PeersAction n}
    (h : s.step hashStr a = some s') :
    s'.emitted.length + s'.pending hashStr
      ≤ s.emitted.length + s.pending hashStr + copies [a] := by
  cases a with
  | copy i text =>
      cases h
      have hset := s.pending_set hashStr i ((s.clip i).copy text)
      have hcopy := (s.clip i).copy_pending hashStr text
      show s.emitted.length + (s.set i _).pending hashStr ≤ _ + 1
      omega
  | poll i =>
      cases h
      have hset := s.pending_set hashStr i ((s.clip i).poll hashStr).2
      -- what is sent was owed before
      obtain ⟨hsent, hnone⟩ := (s.clip i).poll_pending hashStr
      show (s.emitted ++ ((s.clip i).poll hashStr).1.toList).length
        + (s.set i ((s.clip i).poll hashStr).2).pending hashStr ≤ _ + 0
      rw [List.length_append]
      omega
  | deliver i k =>
      unfold step at h
      cases hk : s.emitted[k]? with
      | none =>
          simp only [hk] at h
          cases h
      | some msg =>
          simp only [hk] at h
          cases h
          have hset := s.pending_set hashStr i ((s.clip i).apply hashStr msg)
          -- the message may be one this peer has seen before, or sent itself
          have happly := (s.clip i).apply_pending hashStr msg
          show s.emitted.length + (s.set i _).pending hashStr ≤ _ + 0
          omega

/-- **No broadcast storm**: whatever is delivered to whom, and however texts are hashed,
the watchers send at most one message for each copy and one more for each peer. -/
theorem no_broadcast_storm {texts : Fin n → Option String} {as : List (PeersAction n)}
    {s : Peers n} (hrun : (peers hashStr texts).run (peers hashStr texts).init as = some s) :
    s.emitted.length ≤ copies as + n := by
  have hbudget : s.emitted.length + s.pending hashStr ≤ copies as + n := by
    refine System.run_history
      (I := fun as s => s.emitted.length + s.pending hashStr ≤ copies as + n) ?_ ?_ hrun
    · -- a text that was there before the watcher started may be sent
      have hone : ∀ i ∈ Finset.univ, (Clipboard.new (texts i)).pending hashStr ≤ 1 :=
        fun i _ => Clipboard.pending_le_one hashStr _
      have hall : ∑ i, (Clipboard.new (texts i)).pending hashStr ≤ n := by
        simpa using Finset.sum_le_card_nsmul Finset.univ _ 1 hone
      show 0 + ∑ i, (Clipboard.new (texts i)).pending hashStr ≤ 0 + n
      omega
    · intro as s a s' h hstep
      have hgrow := Peers.step_pending hstep
      have hcopies : copies (as ++ [a]) = copies as + copies [a] := List.countP_append
      omega
  omega

/-- Two peers, one message, delivered twice: the receiver sends nothing. -/
theorem no_broadcast_storm_two_peers :
    ∃ s, (peers (n := 2) (fun _ => 7) fun _ => none).run
        (peers (n := 2) (fun _ => 7) fun _ => none).init
        [.copy 0 "a", .poll 0, .deliver 1 0, .poll 1, .deliver 1 0, .poll 1] = some s
      ∧ s.emitted.length ≤ 1 + 2 := by
  obtain ⟨s, hrun⟩ : ∃ s, (peers (n := 2) (fun _ => 7) fun _ => none).run
      (peers (n := 2) (fun _ => 7) fun _ => none).init
      [.copy 0 "a", .poll 0, .deliver 1 0, .poll 1, .deliver 1 0, .poll 1] = some s := ⟨_, rfl⟩
  exact ⟨s, hrun, no_broadcast_storm hrun⟩

end Dshare
