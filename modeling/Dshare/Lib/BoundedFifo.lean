/-
  Dshare.Lib.BoundedFifo
  ──────────────────────
  **A FIRST-IN FIRST-OUT QUEUE OF BOUNDED LENGTH.**

  The bound is a field, so an overfull queue cannot be built.  `trySend` refuses
  on a full queue; `offer` is the non-blocking sender that ignores the refusal.
-/

namespace BoundedFifo

/-- A queue of at most `cap` elements, the oldest first. -/
structure Fifo (α : Type) (cap : Nat) where
  items : List α
  bounded : items.length ≤ cap

variable {α : Type} {cap : Nat}

@[ext] theorem Fifo.ext {q r : Fifo α cap} (h : q.items = r.items) : q = r := by
  cases q
  cases r
  cases h
  rfl

def Fifo.empty : Fifo α cap := ⟨[], Nat.zero_le _⟩

/-- Append at the back, unless the queue is full. -/
def Fifo.trySend (q : Fifo α cap) (a : α) : Option (Fifo α cap) :=
  if h : q.items.length < cap then
    some ⟨q.items ++ [a], by rw [List.length_append]; exact h⟩
  else none

/-- Take from the front. -/
def Fifo.recv (q : Fifo α cap) : Option (α × Fifo α cap) :=
  match h : q.items with
  | [] => none
  | a :: rest => some (a, ⟨rest, by
      have hb := q.bounded
      rw [h, List.length_cons] at hb
      omega⟩)

/-- The queue after a send whose failure nobody looks at. -/
def Fifo.offer (q : Fifo α cap) (a : α) : Fifo α cap := (q.trySend a).getD q

/-- **Offering appends while there is room and changes nothing otherwise.** -/
theorem Fifo.items_offer (q : Fifo α cap) (a : α) :
    (q.offer a).items = if q.items.length < cap then q.items ++ [a] else q.items := by
  unfold offer trySend
  by_cases h : q.items.length < cap <;> simp [h]

theorem Fifo.recv_eq_none {q : Fifo α cap} : q.recv = none ↔ q.items = [] := by
  unfold recv
  split <;> simp_all

theorem Fifo.recv_eq_some {q q' : Fifo α cap} {a : α} :
    q.recv = some (a, q') ↔ q.items = a :: q'.items := by
  unfold recv
  split
  next h => simp [h]
  next b rest h =>
    simp only [h, Option.some.injEq, Prod.mk.injEq, List.cons.injEq]
    constructor
    · intro hsome
      obtain ⟨rfl, rfl⟩ := hsome
      exact ⟨rfl, rfl⟩
    · intro hitems
      obtain ⟨rfl, hq⟩ := hitems
      exact ⟨rfl, Fifo.ext hq⟩

/-- A queue with an element gives it up. -/
theorem Fifo.exists_recv {q : Fifo α cap} {a : α} {rest : List α} (h : q.items = a :: rest) :
    ∃ q' : Fifo α cap, q.recv = some (a, q') ∧ q'.items = rest := by
  have hroom : rest.length ≤ cap := by
    have hb := q.bounded
    rw [h, List.length_cons] at hb
    omega
  exact ⟨⟨rest, hroom⟩, Fifo.recv_eq_some.mpr h, rfl⟩

/-- What a send that succeeds leaves in the queue. -/
theorem Fifo.items_of_trySend {q q' : Fifo α cap} {a : α} (h : q.trySend a = some q') :
    q'.items = q.items ++ [a] := by
  unfold trySend at h
  split at h
  next => cases h; rfl
  next => cases h

end BoundedFifo
