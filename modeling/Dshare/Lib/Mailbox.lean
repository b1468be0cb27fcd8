/-
  Dshare.Lib.Mailbox
  ──────────────────
  **A MAILBOX THAT SHUTS AT THE FIRST BAD LETTER.**

  What a one-way connection of two parties is for: what is put in comes out, in order
  and once.  Some letters cannot be carried; the first of them is not delivered and
  shuts the box, and what is put in behind it is lost.

    • `sendable` — the letters in front of the first bad one;
    • `Mailbox.holding_put`, `Mailbox.holding_get` — what a box holds, from what was put
      in and how much has come out;
    • `post` — a box in each direction.
-/
import Mathlib.Data.List.TakeWhile
import Mathlib.Logic.Function.Basic
import Dshare.Lib.Transition

namespace Mailboxes

open Transition

variable {α : Type}

/-! ## §1. One box. -/

structure Mailbox (α : Type) where
  queue : List α
  /-- A bad letter was put in. -/
  shut : Bool

variable (ok : α → Bool)

def Mailbox.put (m : Mailbox α) (a : α) : Mailbox α :=
  if m.shut then m
  else if ok a then { m with queue := m.queue ++ [a] }
  else { m with shut := true }

def Mailbox.get (m : Mailbox α) : Option (α × Mailbox α) :=
  match m.queue with
  | [] => none
  | a :: rest => some (a, { m with queue := rest })

/-- The letters in front of the first bad one. -/
def sendable (as : List α) : List α := as.takeWhile ok

/-- The box into which `as` were put, and out of which `n` have come. -/
def Mailbox.holding (as : List α) (n : Nat) : Mailbox α :=
  ⟨(sendable ok as).drop n, !as.all ok⟩

variable {ok}

theorem sendable_of_all {as : List α} (h : as.all ok = true) : sendable ok as = as :=
  List.takeWhile_eq_self_iff.mpr (List.all_eq_true.mp h)

theorem sendable_append_of_all {as : List α} (h : as.all ok = true) (bs : List α) :
    sendable ok (as ++ bs) = as ++ sendable ok bs := by
  unfold sendable
  exact List.takeWhile_append_of_pos (List.all_eq_true.mp h)

/-- Behind a bad letter nothing is sendable. -/
theorem sendable_append_of_not_all {as : List α} (h : as.all ok = false) (bs : List α) :
    sendable ok (as ++ bs) = sendable ok as := by
  induction as with
  | nil => cases h
  | cons a as ih =>
      unfold sendable at ih ⊢
      rw [List.cons_append, List.takeWhile_cons, List.takeWhile_cons]
      cases ha : ok a with
      | false => rfl
      | true =>
          have has : as.all ok = false := by
            rw [List.all_cons, ha, Bool.true_and] at h
            exact h
          simp only [if_true]
          rw [ih has]

/-- Good letters in front are sendable. -/
theorem prefix_sendable {as bs : List α} (hpre : as <+: bs) (h : as.all ok = true) :
    as <+: sendable ok bs := by
  obtain ⟨rest, rfl⟩ := hpre
  rw [sendable_append_of_all h]
  exact List.prefix_append _ _

/-- All the good letters, and a bad one behind them if any is left. -/
theorem sendable_eq {as rest : List α} (h : as.all ok = true)
    (hhead : ∀ a ∈ rest.head?, ok a = false) : sendable ok (as ++ rest) = as := by
  rw [sendable_append_of_all h]
  unfold sendable
  cases rest with
  | nil => exact List.append_nil as
  | cons a rest =>
      rw [List.takeWhile_cons, hhead a rfl]
      exact List.append_nil as

/-- **Putting in**: one more letter has been put in. -/
theorem Mailbox.holding_put {as : List α} {n : Nat} (hn : n ≤ (sendable ok as).length) (a : α) :
    (Mailbox.holding ok as n).put ok a = Mailbox.holding ok (as ++ [a]) n := by
  unfold holding put
  cases hall : as.all ok with
  | false =>
      rw [sendable_append_of_not_all hall]
      simp [hall]
  | true =>
      rw [sendable_of_all hall] at hn
      rw [sendable_append_of_all hall, sendable_of_all hall]
      cases ha : ok a with
      | false => simp [hall, ha, sendable]
      | true => simp [hall, ha, sendable, List.drop_append_of_le_length hn]

/-- **Getting out**: the oldest letter comes out. -/
theorem Mailbox.holding_get {as out : List α} {a : α} (h : out ++ [a] <+: sendable ok as) :
    (Mailbox.holding ok as out.length).get
      = some (a, Mailbox.holding ok as (out.length + 1)) := by
  obtain ⟨rest, hrest⟩ := h
  have hdrop : (sendable ok as).drop out.length = a :: rest := by
    rw [← hrest, List.append_assoc, List.drop_left]
    rfl
  have hdrop' : (sendable ok as).drop (out.length + 1) = rest := by
    rw [← List.drop_drop, hdrop]
    rfl
  unfold get holding
  rw [hdrop, hdrop']

/-! ## §2. A box in each direction. -/

/-- What the parties do: party `b` puts a letter in for the other, or gets one out. -/
inductive PostEvent (α : Type) where
  | put (b : Bool) (a : α)
  | got (b : Bool) (a : α)

inductive PostAction (α : Type) where
  | put (b : Bool) (a : α)
  | get (b : Bool)

variable (ok)

/-- `box b` holds the letters of party `b`. -/
def postStep (box : Bool → Mailbox α) : PostAction α → Option (Bool → Mailbox α)
  | .put b a => some (Function.update box b ((box b).put ok a))
  | .get b => (box !b).get.map fun p => Function.update box (!b) p.2

def post : System (Bool → Mailbox α) (PostAction α) := ⟨fun _ => ⟨[], false⟩, postStep ok⟩

def postEvent (box : Bool → Mailbox α) : PostAction α → Option (PostEvent α)
  | .put b a => some (.put b a)
  | .get b => (box !b).get.map fun p => .got b p.1

end Mailboxes
