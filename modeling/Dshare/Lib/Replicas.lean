/-
  Dshare.Lib.Replicas
  ───────────────────
  **TWO SIDES THAT SEND EACH OTHER THEIR UPDATES.**

  Each side sends updates to the other, in order and without loss, and holds the
  update it sent or received last.  Nothing tells the sides whose update is the
  newer one.  When nothing is on its way, they hold the same update, unless the
  last thing each of them did was to receive: then their last updates crossed on
  the way, and each holds the other's.
-/
import Mathlib.Logic.Function.Basic

namespace Replicas

variable {α : Type}

/-- What a side did with an update. -/
inductive Event (α : Type) where
  | sent (a : α)
  | received (a : α)

def Event.update : Event α → α
  | .sent a => a
  | .received a => a

/-- What each side did, in order, and the updates on their way to it, the oldest first. -/
structure Link (α : Type) where
  log : Bool → List (Event α)
  inbox : Bool → List α

def Link.new : Link α := ⟨fun _ => [], fun _ => []⟩

/-- Side `b` sends an update to the other. -/
def Link.send (l : Link α) (b : Bool) (a : α) : Link α where
  log := Function.update l.log b (l.log b ++ [.sent a])
  inbox := Function.update l.inbox (!b) (l.inbox (!b) ++ [a])

/-- The link after side `b` received `a`, with `rest` still on its way there. -/
def Link.afterReceive (l : Link α) (b : Bool) (a : α) (rest : List α) : Link α where
  log := Function.update l.log b (l.log b ++ [.received a])
  inbox := Function.update l.inbox b rest

/-- Side `b` receives the oldest update on its way. -/
def Link.receive (l : Link α) (b : Bool) : Option (α × Link α) :=
  match l.inbox b with
  | [] => none
  | a :: rest => some (a, l.afterReceive b a rest)

def sentOf (log : List (Event α)) : List α :=
  log.filterMap fun e => match e with
    | .sent a => some a
    | .received _ => none

def receivedOf (log : List (Event α)) : List α :=
  log.filterMap fun e => match e with
    | .sent _ => none
    | .received a => some a

/-- The update a side holds. -/
def Link.held (l : Link α) (b : Bool) : Option α := (l.log b).getLast?.map Event.update

/-- The update a side sent last. -/
def Link.lastSent (l : Link α) (b : Bool) : Option α := (sentOf (l.log b)).getLast?

/-- The last updates of the two sides crossed on the way: what each did last was to
receive the other's. -/
def Link.Crossed (l : Link α) : Prop := ∀ b, ∃ a, (l.log b).getLast? = some (.received a)

/-! ## §1. What the steps do. -/

theorem eq_or_eq_not (c b : Bool) : c = b ∨ c = !b := by
  cases c <;> cases b <;> simp

section steps

variable (l : Link α) (b : Bool) (a : α) (rest : List α)

@[simp] theorem Link.send_log : (l.send b a).log b = l.log b ++ [.sent a] := by simp [send]

@[simp] theorem Link.send_log_not : (l.send b a).log (!b) = l.log !b := by simp [send]

@[simp] theorem Link.send_inbox : (l.send b a).inbox b = l.inbox b := by simp [send]

@[simp] theorem Link.send_inbox_not : (l.send b a).inbox (!b) = l.inbox (!b) ++ [a] := by
  simp [send]

@[simp] theorem Link.afterReceive_log :
    (l.afterReceive b a rest).log b = l.log b ++ [.received a] := by simp [afterReceive]

@[simp] theorem Link.afterReceive_log_not : (l.afterReceive b a rest).log (!b) = l.log !b := by
  simp [afterReceive]

@[simp] theorem Link.afterReceive_inbox : (l.afterReceive b a rest).inbox b = rest := by
  simp [afterReceive]

@[simp] theorem Link.afterReceive_inbox_not :
    (l.afterReceive b a rest).inbox (!b) = l.inbox !b := by simp [afterReceive]

@[simp] theorem Link.held_send : (l.send b a).held b = some a := by simp [held, Event.update]

@[simp] theorem Link.held_send_not : (l.send b a).held (!b) = l.held !b := by simp [held]

@[simp] theorem Link.held_afterReceive : (l.afterReceive b a rest).held b = some a := by
  simp [held, Event.update]

@[simp] theorem Link.held_afterReceive_not :
    (l.afterReceive b a rest).held (!b) = l.held !b := by simp [held]

end steps

theorem Link.receive_eq_some {l l' : Link α} {b : Bool} {a : α} :
    l.receive b = some (a, l')
      ↔ ∃ rest, l.inbox b = a :: rest ∧ l' = l.afterReceive b a rest := by
  unfold receive
  cases hin : l.inbox b with
  | nil => exact ⟨nofun, nofun⟩
  | cons x rest =>
      constructor
      · intro h
        cases h
        exact ⟨rest, rfl, rfl⟩
      · intro h
        obtain ⟨rest', hx, rfl⟩ := h
        cases hx
        rfl

/-! ## §2. The two logs. -/

/-- What every order of steps keeps. -/
structure Link.Coherent (l : Link α) : Prop where
  /-- What a side sent is what the other received and what is on its way there. -/
  fifo : ∀ b, sentOf (l.log b) = receivedOf (l.log !b) ++ l.inbox !b
  /-- Two sides that both sent last have an update on its way. -/
  crossing : (∀ b, ∃ a, (l.log b).getLast? = some (.sent a)) → ∃ b, l.inbox b ≠ []

theorem Link.Coherent.new : (Link.new : Link α).Coherent :=
  ⟨fun _ => rfl, fun h => by obtain ⟨_, h⟩ := h true; cases h⟩

theorem Link.Coherent.send {l : Link α} (h : l.Coherent) (b : Bool) (a : α) :
    (l.send b a).Coherent := by
  refine ⟨?_, fun _ => ⟨!b, by simp⟩⟩
  intro c
  have hfifo := h.fifo c
  obtain rfl | rfl := eq_or_eq_not c b
  · -- what the sender sent and what is on its way grow by the same update
    simp only [send_log, send_log_not, send_inbox_not, sentOf, List.filterMap_append] at hfifo ⊢
    rw [hfifo, List.append_assoc]
    rfl
  · rw [Bool.not_not] at hfifo ⊢
    simp only [send_log, send_log_not, send_inbox, receivedOf, List.filterMap_append] at hfifo ⊢
    rw [hfifo]
    exact congrArg (· ++ _) (List.append_nil _).symm

theorem Link.Coherent.receive {l l' : Link α} (h : l.Coherent) {b : Bool} {a : α}
    (hrecv : l.receive b = some (a, l')) : l'.Coherent := by
  obtain ⟨rest, hin, rfl⟩ := Link.receive_eq_some.mp hrecv
  refine ⟨?_, ?_⟩
  · intro c
    have hfifo := h.fifo c
    obtain rfl | rfl := eq_or_eq_not c b
    · simp only [afterReceive_log, afterReceive_log_not, afterReceive_inbox_not, sentOf,
        List.filterMap_append] at hfifo ⊢
      rw [← hfifo]
      exact List.append_nil _
    · -- the update leaves the inbox and enters the receiver's log
      rw [Bool.not_not] at hfifo ⊢
      rw [hin] at hfifo
      simp only [afterReceive_log, afterReceive_log_not, afterReceive_inbox, receivedOf,
        List.filterMap_append] at hfifo ⊢
      rw [hfifo, List.append_assoc]
      rfl
  · intro hsent
    obtain ⟨x, hx⟩ := hsent b
    simp at hx

/-! ## §3. When nothing is on its way. -/

theorem getLast?_sentOf {log : List (Event α)} {a : α} (h : log.getLast? = some (.sent a)) :
    (sentOf log).getLast? = some a := by
  obtain ⟨init, rfl⟩ := List.getLast?_eq_some_iff.mp h
  simp [sentOf]

theorem getLast?_receivedOf {log : List (Event α)} {a : α}
    (h : log.getLast? = some (.received a)) : (receivedOf log).getLast? = some a := by
  obtain ⟨init, rfl⟩ := List.getLast?_eq_some_iff.mp h
  simp [receivedOf]

/-- What a side received last is what the other sent last. -/
theorem Link.Coherent.lastSent_not {l : Link α} (h : l.Coherent) (hquiet : ∀ b, l.inbox b = [])
    (b : Bool) : l.lastSent (!b) = (receivedOf (l.log b)).getLast? := by
  have hfifo := h.fifo !b
  rw [Bool.not_not, hquiet b, List.append_nil] at hfifo
  unfold lastSent
  rw [hfifo]

/-- What a side sent last, if that is the last thing it did, is what the other holds. -/
theorem Link.Coherent.held_not {l : Link α} (h : l.Coherent) (hquiet : ∀ b, l.inbox b = [])
    {b : Bool} {a : α} (hb : (l.log b).getLast? = some (.sent a)) : l.held (!b) = some a := by
  have hlast : (receivedOf (l.log !b)).getLast? = some a := by
    rw [← h.lastSent_not hquiet, Bool.not_not]
    exact getLast?_sentOf hb
  unfold held
  cases hother : (l.log !b).getLast? with
  | none =>
      rw [List.getLast?_eq_none_iff.mp hother] at hlast
      cases hlast
  | some e =>
      cases e with
      | received a' =>
          rw [getLast?_receivedOf hother] at hlast
          exact hlast
      | sent a' =>
          -- both sent last, and one of the two updates would still be on its way
          obtain ⟨c, hc⟩ := h.crossing fun c => by
            obtain rfl | rfl := eq_or_eq_not c b
            · exact ⟨a, hb⟩
            · exact ⟨a', hother⟩
          exact absurd (hquiet c) hc

/-- A side that did nothing has a peer that did nothing, or sent last. -/
theorem Link.Coherent.held_of_idle {l : Link α} (h : l.Coherent) (hquiet : ∀ b, l.inbox b = [])
    {b : Bool} (hb : l.log b = []) (hsent : ∀ a, (l.log !b).getLast? ≠ some (.sent a)) :
    l.held (!b) = none := by
  have hlast : (receivedOf (l.log !b)).getLast? = none := by
    rw [← h.lastSent_not hquiet, Bool.not_not]
    unfold lastSent
    rw [hb]
    rfl
  unfold held
  cases hother : (l.log !b).getLast? with
  | none => rfl
  | some e =>
      cases e with
      | sent a => exact absurd hother (hsent a)
      | received a =>
          rw [getLast?_receivedOf hother] at hlast
          cases hlast

/-- **Two sides agree or have crossed.**  When nothing is on its way, both hold the same
update, or their last updates crossed and each holds what the other sent last. -/
theorem Link.Coherent.agree {l : Link α} (h : l.Coherent) (hquiet : ∀ b, l.inbox b = []) :
    (¬ l.Crossed → l.held true = l.held false)
      ∧ (l.Crossed → ∀ b, l.held b = l.lastSent !b) := by
  constructor
  · intro hno
    -- it is enough that some side agrees with the other
    have key : ∀ b, l.held b = l.held (!b) → l.held true = l.held false := by
      intro b hb
      cases b with
      | true => exact hb
      | false => exact hb.symm
    by_cases hsent : ∃ b a, (l.log b).getLast? = some (.sent a)
    · obtain ⟨b, a, hb⟩ := hsent
      refine key b ?_
      rw [h.held_not hquiet hb]
      unfold held
      rw [hb]
      rfl
    · simp only [not_exists] at hsent
      -- nobody sent last, and a side that did not receive last did nothing at all
      obtain ⟨b, hb⟩ := not_forall.mp hno
      have hidle : l.log b = [] := by
        rw [← List.getLast?_eq_none_iff]
        cases hlast : (l.log b).getLast? with
        | none => rfl
        | some e =>
            cases e with
            | sent a => exact absurd hlast (hsent b a)
            | received a => exact absurd ⟨a, hlast⟩ hb
      refine key b ?_
      rw [h.held_of_idle hquiet hidle (hsent !b)]
      unfold held
      rw [hidle]
      rfl
  · intro hcrossed b
    obtain ⟨a, ha⟩ := hcrossed b
    rw [h.lastSent_not hquiet, getLast?_receivedOf ha]
    unfold held
    rw [ha]
    rfl

end Replicas
