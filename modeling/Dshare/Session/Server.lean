/-
  Dshare.Session.Server
  ─────────────────────
  **A SERVER AND ALL ITS CLIENTS.**

  `run_server` spawns a `handle_peer` for every connection, and each of them brings a
  capture of its own.  Windows calls the hooks of the newest one first, and goes on to
  the older ones until some hook swallows the event; every hook it called has put its
  own copy of the message into its own channel.  Each connection goes its own way.

  Mouse and keyboard events run down one order here, that in which the keyboard hooks were
  installed.  Windows keeps a chain for each: where two threads install their hooks at once
  (a mouse, b mouse, b keyboard, a keyboard) the mouse chain has the other order, and such
  a pair is outside the model.

  The events are numbered, so that the copies of one event can be told to belong
  together.

    • `dispatch_hooks` — the hooks answer as `HookStack` says;
    • `Server.step_back`, `Server.step_on` — what a step does to one seat;
    • `fates_perm` — every event is passed on, swallowed for one client, or lost;
    • `ordered_of_server` — the copies for one client are in the order of the events;
    • `exists_each` — what each connection can do by itself they can do together;
    • `one_machine` — an event reaches one machine, and no other.
-/
import Mathlib.Data.List.Flatten
import Mathlib.Data.List.Perm.Basic
import Mathlib.Tactic.Common
import Dshare.Input.HookStack
import Dshare.Session.Seat

namespace Dshare.Session

open Transition Dshare.Protocol Dshare.Input

variable {δ : Type}

/-! ## §1. The server. -/

/-- What becomes of an event at the desk. -/
inductive Fate where
  /-- No hook swallowed it: it reaches the local OS. -/
  | passedOn
  /-- Swallowed by a hook that built a message for it. -/
  | captured
  /-- Swallowed by a hook that built none: the hotkey, an unmapped key, the first move. -/
  | discarded
  /-- Swallowed by a hook whose session is over. -/
  | lost
  deriving DecidableEq

/-- What becomes of an event that its hook swallows. -/
def Seat.fate (seat : Seat δ) (call : HookCall) : Fate :=
  if seat.link.captures then
    if (seat.hook.builds call).isSome then .captured else .discarded
  else .lost

/-- The event of the given number runs down the hooks until one swallows it. -/
def dispatch (n : Nat) (call : HookCall) : List (Seat δ) → Fate × List (Seat δ)
  | [] => (.passedOn, [])
  | seat :: older =>
      match seat.answer call with
      | .one => (seat.fate call, seat.call n call :: older)
      | .callNextHookEx =>
          let (fate, older) := dispatch n call older
          (fate, seat.call n call :: older)

structure Server (δ : Type) where
  /-- All connections there have been; of those with hooks the newest hooks first. -/
  seats : List (Seat δ)
  /-- How many events there have been. -/
  events : Nat
  passedOn : List Nat
  discarded : List Nat
  lost : List Nat

inductive ServerAction (δ : Type) where
  /-- `listener.accept()`. -/
  | accept (c : Connection δ)
  /-- Windows dispatches an event. -/
  | event (call : HookCall)
  /-- A connection goes on. -/
  | seat (k : Nat) (a : SeatAction)

def Server.step (s : Server δ) : ServerAction δ → Option (Server δ)
  | .accept c => some { s with seats := .new c :: s.seats }
  | .event call =>
      let (fate, seats) := dispatch s.events call s.seats
      some { s with
        seats := seats
        events := s.events + 1
        passedOn := s.passedOn ++ if fate = .passedOn then [s.events] else []
        discarded := s.discarded ++ if fate = .discarded then [s.events] else []
        lost := s.lost ++ if fate = .lost then [s.events] else [] }
  | .seat k a =>
      s.seats[k]?.bind fun seat => (seat.step a).map fun seat =>
        -- the hooks that were installed last are called first, in either chain
        { s with
          seats := if a.installs then seat :: s.seats.eraseIdx k else s.seats.set k seat }

/-- The server, before any client has connected. -/
def serverSystem (δ : Type) : System (Server δ) (ServerAction δ) :=
  ⟨⟨[], 0, [], [], []⟩, Server.step⟩

/-- **What a step does**, action by action. -/
theorem Server.step_cases {s s' : Server δ} {a : ServerAction δ} (h : s.step a = some s') :
    match a with
    | .accept c => s' = { s with seats := .new c :: s.seats }
    | .event call => s' = { s with
        seats := (dispatch s.events call s.seats).2
        events := s.events + 1
        passedOn := s.passedOn
          ++ if (dispatch s.events call s.seats).1 = .passedOn then [s.events] else []
        discarded := s.discarded
          ++ if (dispatch s.events call s.seats).1 = .discarded then [s.events] else []
        lost := s.lost ++ if (dispatch s.events call s.seats).1 = .lost then [s.events] else [] }
    | .seat k a => ∃ (hk : k < s.seats.length) (seat : Seat δ) (seats : List (Seat δ)),
        s.seats[k].step a = some seat ∧ seats.Perm (seat :: s.seats.eraseIdx k)
          ∧ s' = { s with seats := seats } := by
  cases a with
  | accept c => exact (Option.some.inj h).symm
  | event call => exact (Option.some.inj h).symm
  | seat k a =>
      obtain ⟨seat, hseat, hmap⟩ := Option.bind_eq_some_iff.mp h
      obtain ⟨hk, rfl⟩ := List.getElem?_eq_some_iff.mp hseat
      obtain ⟨seat', hstep, rfl⟩ := Option.map_eq_some_iff.mp hmap
      refine ⟨hk, seat', _, hstep, ?_, rfl⟩
      split_ifs
      · exact List.Perm.refl _
      · exact List.set_perm_cons_eraseIdx hk seat'

/-! ## §2. One event. -/

/-- The event goes on to the older hooks. -/
def Seat.Passes (call : HookCall) (seat : Seat δ) : Prop := seat.answer call = .callNextHookEx

theorem dispatch_of_passes {call : HookCall} {seat : Seat δ} (h : seat.Passes call) (n : Nat)
    (older : List (Seat δ)) :
    dispatch n call (seat :: older)
      = ((dispatch n call older).1, seat.call n call :: (dispatch n call older).2) := by
  rw [dispatch, h]

/-- Otherwise it is swallowed. -/
theorem Seat.answer_of_not_passes {call : HookCall} {seat : Seat δ} (h : ¬ seat.Passes call) :
    seat.answer call = .one := by
  cases hv : seat.answer call with
  | one => rfl
  | callNextHookEx => exact absurd hv h

/-- Hooks that are not there swallow nothing. -/
theorem Seat.hooked_of_not_passes {call : HookCall} {seat : Seat δ} (h : ¬ seat.Passes call) :
    seat.hooked = true := by
  by_contra hhooked
  exact h (if_neg hhooked)

theorem Seat.fate_ne_passedOn (seat : Seat δ) (call : HookCall) : seat.fate call ≠ .passedOn := by
  unfold fate
  split_ifs <;> simp

theorem dispatch_of_swallows {call : HookCall} {seat : Seat δ} (h : ¬ seat.Passes call) (n : Nat)
    (older : List (Seat δ)) :
    dispatch n call (seat :: older) = (seat.fate call, seat.call n call :: older) := by
  rw [dispatch, Seat.answer_of_not_passes h]

/-- **What an event meets**: hooks that all pass it on, or the newest of those that do not,
behind newer ones that do. -/
theorem dispatch_cases (n : Nat) (call : HookCall) (seats : List (Seat δ)) :
    ((∀ seat ∈ seats, seat.Passes call)
        ∧ dispatch n call seats = (.passedOn, seats.map fun seat => seat.call n call))
      ∨ ∃ newer seat older, seats = newer ++ seat :: older
        ∧ (∀ t ∈ newer, t.Passes call) ∧ ¬ seat.Passes call
        ∧ dispatch n call seats = (seat.fate call,
            (newer.map fun t => t.call n call) ++ seat.call n call :: older) := by
  induction seats with
  | nil => exact .inl ⟨fun _ h => absurd h List.not_mem_nil, rfl⟩
  | cons seat older ih =>
      by_cases hpass : seat.Passes call
      · rw [dispatch_of_passes hpass]
        rcases ih with ⟨hall, hd⟩ | ⟨newer, t, rest, rfl, hall, hswallow, hd⟩
        · rw [hd]
          exact .inl ⟨List.forall_mem_cons.mpr ⟨hpass, hall⟩, rfl⟩
        · rw [hd]
          exact .inr ⟨seat :: newer, t, rest, rfl, List.forall_mem_cons.mpr ⟨hpass, hall⟩,
            hswallow, rfl⟩
      · rw [dispatch_of_swallows hpass]
        exact .inr ⟨[], seat, older, rfl, fun _ h => absurd h List.not_mem_nil, hpass, rfl⟩

/-- The hook threads that Windows calls. -/
def hooksOf (seats : List (Seat δ)) : HookStack := (seats.filter Seat.hooked).map Seat.hook

theorem Seat.hooked_call (seat : Seat δ) (n : Nat) (call : HookCall) :
    (seat.call n call).hooked = seat.hooked := by
  unfold hooked
  rw [Seat.call_thread]

/-- **The hooks answer as `HookStack` says.** -/
theorem dispatch_hooks (n : Nat) (call : HookCall) (seats : List (Seat δ)) :
    HookStack.dispatch call (hooksOf seats)
      = (if (dispatch n call seats).1 = .passedOn then .callNextHookEx else .one,
        hooksOf (dispatch n call seats).2) := by
  induction seats with
  | nil => rfl
  | cons seat older ih =>
      by_cases hhooked : seat.hooked = true
      · have hanswer : seat.answer call = (seat.hook.call call).1 := if_pos hhooked
        have hcons : ∀ rest, hooksOf (seat.call n call :: rest)
            = (seat.hook.call call).2 :: hooksOf rest := by
          intro rest
          unfold hooksOf
          rw [List.filter_cons_of_pos ((seat.hooked_call n call).trans hhooked), List.map_cons,
            (Seat.call_of_hooked hhooked n call).2]
        have hseats : hooksOf (seat :: older) = seat.hook :: hooksOf older := by
          unfold hooksOf
          rw [List.filter_cons_of_pos hhooked, List.map_cons]
        rw [hseats, HookStack.dispatch_cons, ih, ← hanswer]
        by_cases hpass : seat.Passes call
        · rw [dispatch_of_passes hpass, hcons, if_neg (by rw [hpass]; simp)]
        · rw [dispatch_of_swallows hpass, hcons, if_pos (Seat.answer_of_not_passes hpass),
            if_neg (seat.fate_ne_passedOn call)]
      · -- its hooks are not there
        have hpass : seat.Passes call := if_neg hhooked
        have hcons : ∀ rest, hooksOf (seat :: rest) = hooksOf rest := by
          intro rest
          unfold hooksOf
          rw [List.filter_cons_of_neg hhooked]
        rw [dispatch_of_passes hpass, Seat.call_of_unhooked hhooked, hcons, hcons, ih]

/-- **Ordinary input reaches the local OS exactly while no hook that is called has its flag
on.** -/
theorem passedOn_iff {call : HookCall} (h : call.Ordinary) (n : Nat) (seats : List (Seat δ)) :
    (dispatch n call seats).1 = .passedOn
      ↔ ∀ seat ∈ seats, seat.hooked = true → seat.hook.grabbed = false := by
  have hlocal := HookStack.reachesLocal_iff h (hooksOf seats)
  rw [dispatch_hooks n] at hlocal
  have hgrabbed : ¬ HookStack.Grabbed (hooksOf seats)
      ↔ ∀ seat ∈ seats, seat.hooked = true → seat.hook.grabbed = false := by
    simp [HookStack.Grabbed, hooksOf]
  rw [← hgrabbed, ← hlocal]
  by_cases hfate : (dispatch n call seats).1 = .passedOn
  · simp [hfate]
  · simp [hfate]

/-! ## §3. Where a seat comes from. -/

/-- What a step does to one seat. -/
def Seat.Becomes (s : Server δ) (a : ServerAction δ) (seat t : Seat δ) : Prop :=
  t = seat ∨ (∃ call, a = .event call ∧ t = seat.call s.events call)
    ∨ ∃ k b, a = .seat k b ∧ seat.step b = some t

/-- **Every seat was there before**, or is new. -/
theorem Server.step_back {s s' : Server δ} {a : ServerAction δ} (h : s.step a = some s')
    {t : Seat δ} (ht : t ∈ s'.seats) :
    (∃ c, a = .accept c ∧ t = .new c) ∨ ∃ seat ∈ s.seats, seat.Becomes s a t := by
  have hcases := Server.step_cases h
  cases a with
  | accept c =>
      cases hcases
      rcases List.mem_cons.mp ht with rfl | hold
      · exact .inl ⟨c, rfl, rfl⟩
      · exact .inr ⟨t, hold, .inl rfl⟩
  | event call =>
      cases hcases
      right
      -- a hook that was not called is as it was
      rcases dispatch_cases s.events call s.seats with
        ⟨_, hd⟩ | ⟨newer, seat, older, hseats, _, _, hd⟩
      · rw [hd] at ht
        obtain ⟨seat, hseat, rfl⟩ := List.mem_map.mp ht
        exact ⟨seat, hseat, .inr (.inl ⟨call, rfl, rfl⟩)⟩
      · rw [hd] at ht
        rw [hseats]
        rcases List.mem_append.mp ht with hnewer | hrest
        · obtain ⟨seat, hseat, rfl⟩ := List.mem_map.mp hnewer
          exact ⟨seat, List.mem_append_left _ hseat, .inr (.inl ⟨call, rfl, rfl⟩)⟩
        · rcases List.mem_cons.mp hrest with rfl | holder
          · exact ⟨seat, List.mem_append_right _ List.mem_cons_self, .inr (.inl ⟨call, rfl, rfl⟩)⟩
          · exact ⟨t, List.mem_append_right _ (List.mem_cons_of_mem _ holder), .inl rfl⟩
  | seat k b =>
      obtain ⟨hk, seat, seats, hstep, hperm, rfl⟩ := hcases
      right
      rcases List.mem_cons.mp (hperm.mem_iff.mp ht) with rfl | hold
      · exact ⟨s.seats[k], List.getElem_mem hk, .inr (.inr ⟨k, b, rfl, hstep⟩)⟩
      · exact ⟨t, List.mem_of_mem_eraseIdx hold, .inl rfl⟩

/-- **Every seat stays.** -/
theorem Server.step_on {s s' : Server δ} {a : ServerAction δ} (h : s.step a = some s')
    {seat : Seat δ} (hseat : seat ∈ s.seats) : ∃ t ∈ s'.seats, seat.Becomes s a t := by
  have hcases := Server.step_cases h
  cases a with
  | accept c =>
      cases hcases
      exact ⟨seat, List.mem_cons_of_mem _ hseat, .inl rfl⟩
  | event call =>
      cases hcases
      have hcalled : ∀ u : Seat δ, u.Becomes s (.event call) (u.call s.events call) :=
        fun u => .inr (.inl ⟨call, rfl, rfl⟩)
      rcases dispatch_cases s.events call s.seats with
        ⟨_, hd⟩ | ⟨newer, u, older, hseats, _, _, hd⟩
      · rw [hd]
        exact ⟨_, List.mem_map_of_mem hseat, hcalled seat⟩
      · rw [hd]
        rw [hseats] at hseat
        rcases List.mem_append.mp hseat with hnewer | hrest
        · exact ⟨_, List.mem_append_left _ (List.mem_map_of_mem hnewer), hcalled seat⟩
        · rcases List.mem_cons.mp hrest with rfl | holder
          · exact ⟨_, List.mem_append_right _ List.mem_cons_self, hcalled seat⟩
          · exact ⟨seat, List.mem_append_right _ (List.mem_cons_of_mem _ holder), .inl rfl⟩
  | seat k b =>
      obtain ⟨hk, t, seats, hstep, hperm, rfl⟩ := hcases
      have hsplit := (List.getElem_cons_eraseIdx_perm hk).mem_iff.mpr hseat
      rcases List.mem_cons.mp hsplit with rfl | hrest
      · exact ⟨t, hperm.mem_iff.mpr List.mem_cons_self, .inr (.inr ⟨k, b, rfl, hstep⟩)⟩
      · exact ⟨seat, hperm.mem_iff.mpr (List.mem_cons_of_mem _ hrest), .inl rfl⟩

/-! ## §4. Every event has one fate, and its place. -/

/-- **What a call adds to what was swallowed for a client.** -/
theorem Seat.swallowed_call (seat : Seat δ) (n : Nat) (call : HookCall) :
    (seat.call n call).swallowed
      = seat.swallowed
        ++ if seat.answer call = .one ∧ seat.fate call = .captured then [n] else [] := by
  unfold Seat.swallowed
  rw [Seat.call_entries, List.filter_append, List.map_append]
  congr 1
  by_cases hcalled : seat.hooked = true ∧ seat.link.captures = true
  · obtain ⟨hhooked, hcaptures⟩ := hcalled
    have hanswer : seat.answer call = (seat.link.capture.hook.call call).1 := by
      rw [← Seat.hook_of_captures hcaptures]
      exact if_pos hhooked
    have hfate : seat.fate call = if (seat.link.capture.hook.builds call).isSome
        then .captured else .discarded := by
      rw [← Seat.hook_of_captures hcaptures]
      exact if_pos hcaptures
    rw [if_pos ⟨hhooked, hcaptures⟩, hanswer, hfate, Capture.logOf]
    cases seat.link.capture.hook.builds call with
    | none => simp
    | some msg => cases (seat.link.capture.hook.call call).1 <;> simp
  · -- only a hook of a session writes the log
    rw [if_neg hcalled, if_neg ?_]
    · rfl
    · rintro ⟨hone, hfate⟩
      refine hcalled ⟨Seat.hooked_of_not_passes (by rw [Seat.Passes, hone]; simp), ?_⟩
      by_contra hover
      rw [Seat.fate, if_neg hover] at hfate
      cases hfate

theorem Seat.swallowed_call_of_passes {call : HookCall} {seat : Seat δ} (h : seat.Passes call)
    (n : Nat) : (seat.call n call).swallowed = seat.swallowed := by
  unfold Seat.Passes at h
  rw [Seat.swallowed_call, h, if_neg (by simp), List.append_nil]

/-- **An event is added to what was swallowed for one client, or for none.** -/
theorem dispatch_swallowed (n : Nat) (call : HookCall) (seats : List (Seat δ)) :
    ((dispatch n call seats).2.flatMap Seat.swallowed).Perm
      (seats.flatMap Seat.swallowed
        ++ if (dispatch n call seats).1 = .captured then [n] else []) := by
  have hpasses : ∀ ts : List (Seat δ), (∀ t ∈ ts, t.Passes call) →
      (ts.map fun t => t.call n call).flatMap Seat.swallowed = ts.flatMap Seat.swallowed := by
    intro ts hts
    rw [List.flatMap_map]
    exact List.flatMap_congr fun t ht => Seat.swallowed_call_of_passes (hts t ht) n
  rcases dispatch_cases n call seats with ⟨hall, hd⟩ | ⟨newer, seat, older, rfl, hall, hone, hd⟩
  · rw [hd, hpasses seats hall]
    simp
  · rw [hd, List.flatMap_append, hpasses newer hall, List.flatMap_cons,
      Seat.swallowed_call, Seat.answer_of_not_passes hone, List.flatMap_append,
      List.flatMap_cons, List.perm_iff_count]
    intro m
    by_cases hfate : seat.fate call = .captured
    · simp only [hfate, List.count_append, and_self, if_true]
      omega
    · simp [hfate]

/-- The local OS, the clients, and nobody. -/
def Server.fates (s : Server δ) : List Nat :=
  s.passedOn ++ s.seats.flatMap Seat.swallowed ++ (s.discarded ++ s.lost)

/-- **Every event has exactly one fate.** -/
theorem fates_perm {s : Server δ} (h : (serverSystem δ).Reachable s) :
    s.fates.Perm (List.range s.events) := by
  refine h.invariant (P := fun s => s.fates.Perm (List.range s.events)) List.Perm.nil ?_
  intro s a s' hs hstep
  have hcases := Server.step_cases hstep
  cases a with
  | accept c =>
      cases hcases
      exact hs
  | event call =>
      cases hcases
      have hswallowed := dispatch_swallowed s.events call s.seats
      rw [List.perm_iff_count] at hs hswallowed ⊢
      intro m
      have hm := hs m
      have hsm := hswallowed m
      unfold Server.fates at hm ⊢
      rw [List.range_succ]
      simp only [List.count_append] at hm hsm ⊢
      -- the number of the event is added in one of the four places
      cases hfate : (dispatch s.events call s.seats).1 <;>
        · simp only [hfate, reduceCtorEq, if_true, if_false, List.count_nil] at hsm ⊢
          omega
  | seat k a =>
      obtain ⟨hk, seat, seats, hseat, hperm, rfl⟩ := hcases
      have hsame : seat.swallowed = s.seats[k].swallowed := by
        unfold Seat.swallowed
        rw [(Seat.step_cases hseat).2.1]
      have hall : (seats.flatMap Seat.swallowed).Perm (s.seats.flatMap Seat.swallowed) := by
        refine (hperm.flatMap_right _).trans ?_
        rw [List.flatMap_cons, hsame, ← List.flatMap_cons]
        exact (List.getElem_cons_eraseIdx_perm hk).flatMap_right _
      exact ((hall.append_left _).append_right _).trans hs

/-- **The log of each client is in the order of the events.** -/
theorem ordered_of_server {s : Server δ} (h : (serverSystem δ).Reachable s) :
    ∀ seat ∈ s.seats, seat.Ordered s.events := by
  refine h.invariant (P := fun s => ∀ seat ∈ s.seats, seat.Ordered s.events)
    (fun _ h => absurd h List.not_mem_nil) ?_
  intro s a s' hs hstep t ht
  have hevents : s.events ≤ s'.events := by
    have hcases := Server.step_cases hstep
    cases a with
    | accept c => cases hcases; exact Nat.le_refl _
    | event call => cases hcases; exact Nat.le_succ _
    | seat k b => obtain ⟨_, _, _, _, _, rfl⟩ := hcases; exact Nat.le_refl _
  rcases Server.step_back hstep ht with ⟨c, rfl, rfl⟩ | ⟨seat, hseat, hbecomes⟩
  · exact ⟨fun _ h => absurd h List.not_mem_nil, List.Pairwise.nil⟩
  · rcases hbecomes with rfl | ⟨call, rfl, rfl⟩ | ⟨k, b, rfl, hb⟩
    · exact (hs t hseat).mono hevents
    · cases Server.step_cases (a := .event call) hstep
      exact (hs seat hseat).call call
    · have hsame := (Seat.step_cases hb).2.1
      have hold := (hs seat hseat).mono hevents
      exact ⟨by rw [hsame]; exact hold.below, by rw [hsame]; exact hold.sorted⟩

/-! ## §5. What the connections do by themselves. -/

/-- **What a connection does by itself, it does at the server**; only the installation of its
hooks would move it. -/
theorem run_seat {c : Connection δ} {k : Nat} (as : List SeatAction) :
    ∀ {s : Server δ} {seat seat' : Seat δ}, s.seats[k]? = some seat →
      (∀ a ∈ as, a.installs = false) → (seatSystem c).run seat as = some seat' →
      (serverSystem δ).run s (as.map (.seat k)) = some { s with seats := s.seats.set k seat' } := by
  induction as with
  | nil =>
      intro s seat seat' hseat _ hrun
      cases hrun
      obtain ⟨hk, rfl⟩ := List.getElem?_eq_some_iff.mp hseat
      rw [List.set_getElem_self]
      rfl
  | cons a as ih =>
      intro s seat seat' hseat has hrun
      obtain ⟨seat₁, hseat₁, hrest⟩ := System.run_cons.mp hrun
      obtain ⟨hk, _⟩ := List.getElem?_eq_some_iff.mp hseat
      have hserver : (serverSystem δ).step s (.seat k a)
          = some { s with seats := s.seats.set k seat₁ } := by
        show s.seats[k]?.bind _ = _
        rw [hseat, Option.bind_some, show seat.step a = some seat₁ from hseat₁,
          has a List.mem_cons_self]
        rfl
      rw [List.map_cons, System.run_cons]
      refine ⟨_, hserver, ?_⟩
      have hset : (s.seats.set k seat₁)[k]? = some seat₁ := List.getElem?_set_self hk
      rw [ih (s := { s with seats := s.seats.set k seat₁ }) hset
        (fun b hb => has b (List.mem_cons_of_mem a hb)) hrest, List.set_set]

/-- **One connection after the other**: what each can do by itself they can do together. -/
theorem exists_each {allowed : LinkAction → Prop} {Ok Done : Seat δ → Prop}
    (hone : ∀ seat, Ok seat → ∃ (as : List LinkAction) (seat' : Seat δ), (∀ a ∈ as, allowed a)
      ∧ (seatSystem seat.connection).run seat (as.map .link) = some seat' ∧ Done seat')
    {s : Server δ} (hok : ∀ seat ∈ s.seats, Ok seat) :
    ∃ as s', (∀ a ∈ as, ∃ k b, a = .seat k (.link b) ∧ allowed b)
      ∧ (serverSystem δ).run s as = some s' ∧ s'.events = s.events
      ∧ ∀ seat ∈ s'.seats, Done seat := by
  -- those in front are done, and the others are as they were
  have key : ∀ m ≤ s.seats.length, ∃ as s', (∀ a ∈ as, ∃ k b, a = .seat k (.link b) ∧ allowed b)
      ∧ (serverSystem δ).run s as = some s' ∧ s'.events = s.events
      ∧ s'.seats.length = s.seats.length
      ∧ ∀ j seat, s'.seats[j]? = some seat →
        (j < m → Done seat) ∧ (m ≤ j → s.seats[j]? = some seat) := by
    intro m
    induction m with
    | zero =>
        intro _
        exact ⟨[], s, fun _ h => absurd h List.not_mem_nil, rfl, rfl, rfl,
          fun j seat hseat => ⟨fun hj => absurd hj (Nat.not_lt_zero j), fun _ => hseat⟩⟩
    | succ m ih =>
        intro hm
        obtain ⟨as, t, has, hrun, hevents, hlen, hseats⟩ := ih (Nat.le_of_succ_le hm)
        have hk : m < t.seats.length := by
          rw [hlen]
          exact hm
        have hseat : t.seats[m]? = some t.seats[m] := List.getElem?_eq_getElem hk
        have hmem := List.mem_of_getElem? ((hseats m t.seats[m] hseat).2 (Nat.le_refl m))
        obtain ⟨bs, seat', hbs, hrun', hdone⟩ := hone t.seats[m] (hok _ hmem)
        refine ⟨as ++ (bs.map SeatAction.link).map (.seat m),
          { t with seats := t.seats.set m seat' }, ?_, ?_, hevents,
          (List.length_set ..).trans hlen, ?_⟩
        · intro a ha
          rcases List.mem_append.mp ha with ha | ha
          · exact has a ha
          · obtain ⟨_, hlink, rfl⟩ := List.mem_map.mp ha
            obtain ⟨b, hb, rfl⟩ := List.mem_map.mp hlink
            exact ⟨m, b, rfl, hbs b hb⟩
        · rw [System.run_append, hrun]
          refine run_seat _ hseat (fun a ha => ?_) hrun'
          obtain ⟨b, _, rfl⟩ := List.mem_map.mp ha
          rfl
        · intro j u hu
          change (t.seats.set m seat')[j]? = some u at hu
          by_cases hj : j = m
          · subst hj
            rw [List.getElem?_set_self hk] at hu
            cases hu
            exact ⟨fun _ => hdone, fun hle => absurd hle (Nat.not_succ_le_self j)⟩
          · rw [List.getElem?_set_ne (Ne.symm hj)] at hu
            obtain ⟨hfront, hback⟩ := hseats j u hu
            exact ⟨fun hlt => hfront (by omega), fun hle => hback (by omega)⟩
  obtain ⟨as, s', has, hrun, hevents, hlen, hseats⟩ := key s.seats.length (Nat.le_refl _)
  refine ⟨as, s', has, hrun, hevents, ?_⟩
  intro seat hseat
  obtain ⟨j, hj⟩ := List.getElem?_of_mem hseat
  refine (hseats j seat hj).1 ?_
  rw [← hlen]
  exact (List.getElem?_eq_some_iff.mp hj).1

/-! ## §6. One machine. -/

/-- The events that have reached a machine: the local OS, or a client's backend. -/
def Server.reached (s : Server δ) : List Nat :=
  s.passedOn ++ s.seats.flatMap fun seat => seat.injected.map Prod.fst

/-- **ONE MACHINE FOR EVERY EVENT**, however many clients come and go, and whatever happens
to each of them: as long as no flag turns behind the back of a message that is under way, no
event reaches two machines.  Behind the answer of the handshake each client injects what its
hook built for the events that have reached it, in their order, and without a gap if its
channel was never full; and an event that has reached no machine was discarded at a hook, or
swallowed by one whose session is over, or for a client whose session is not at rest or has
dropped a message. -/
theorem one_machine (s : Server δ) (h : (serverSystem δ).Reachable s)
    (hsteady : ∀ seat ∈ s.seats, seat.link.capture.Steady) :
    (∀ seat ∈ s.seats, (seat.link.client.handled.tail = seat.injected.map fun e => e.2.msg)
        ∧ (seat.injected.Pairwise fun e e' => e.1 < e'.1)
        ∧ (seat.link.capture.Lossless → seat.injected.map Prod.fst <+: seat.swallowed))
      ∧ s.reached.Nodup
      ∧ (∀ n ∈ s.reached, n < s.events ∧ n ∉ s.discarded ∧ n ∉ s.lost)
      ∧ ∀ n < s.events, n ∉ s.reached → n ∈ s.discarded ∨ n ∈ s.lost
          ∨ ∃ seat ∈ s.seats, n ∈ seat.swallowed ∧ ¬ seat.Settled := by
  have hfates := fates_perm h
  have hsub : (s.reached ++ (s.discarded ++ s.lost)).Sublist s.fates := by
    refine ((List.Sublist.refl s.passedOn).append ?_).append (List.Sublist.refl _)
    exact List.Sublist.flatMap_right s.seats fun seat hseat =>
      Seat.injected_swallowed (hsteady seat hseat)
  have hnodup : (s.reached ++ (s.discarded ++ s.lost)).Nodup :=
    hsub.nodup (hfates.nodup_iff.mpr List.nodup_range)
  refine ⟨?_, (List.nodup_append.mp hnodup).1, ?_, ?_⟩
  · intro seat hseat
    exact ⟨seat.injected_msgs,
      (ordered_of_server h seat hseat).sorted.sublist seat.injected_sublist,
      Seat.injected_prefix (hsteady seat hseat)⟩
  · intro n hn
    have hmem := hfates.mem_iff.mp (hsub.subset (List.mem_append_left _ hn))
    have hapart : n ∉ s.discarded ++ s.lost := fun hnobody =>
      (List.nodup_append.mp hnodup).2.2 n hn n hnobody rfl
    obtain ⟨hdiscarded, hlost⟩ := not_or.mp (List.mem_append.not.mp hapart)
    exact ⟨List.mem_range.mp hmem, hdiscarded, hlost⟩
  · intro n hn hmissing
    have hmem := hfates.mem_iff.mpr (List.mem_range.mpr hn)
    rcases List.mem_append.mp hmem with hfate | hnobody
    · rcases List.mem_append.mp hfate with hlocal | hclient
      · exact absurd (List.mem_append_left _ hlocal) hmissing
      · obtain ⟨seat, hseat, hswallowed⟩ := List.mem_flatMap.mp hclient
        refine .inr (.inr ⟨seat, hseat, hswallowed, fun hsettled => hmissing ?_⟩)
        refine List.mem_append_right _ (List.mem_flatMap.mpr ⟨seat, hseat, ?_⟩)
        rw [hsettled.injected_eq (hsteady seat hseat)]
        exact hswallowed
    · exact (List.mem_append.mp hnobody).imp_right .inl

/-- The key P, pressed with no modifier. -/
def pressP : HookCall := .kbd (fun _ => 0) HC_ACTION WM_KEYDOWN ⟨0x50⟩

/-- A client whose device takes everything. -/
def plainConnection : Connection Unit :=
  ⟨ourHello Uuid.nil "server" ⟨1920, 1080⟩, ourHello Uuid.nil "client" ⟨1920, 1080⟩,
    ⟨fun _ _ => (.ok (), ())⟩, (), ⟨7, by decide⟩⟩

/-- A client connects, and the handshake is done. -/
def greets : List (ServerAction Unit) :=
  .accept plainConnection :: (keyBehindHandshake.take 8).map fun a => .seat 0 (.link a)

/-- A client connects, and its hooks are installed. -/
def connects : List (ServerAction Unit) :=
  greets ++ [.spawn, .thread .publish, .thread (.mouseHook true), .thread (.kbdHook true)].map
    (.seat 0)

/-- The first client is given the input and a second one connects: both hooks build a message
for the key. -/
def secondConnects : List (ServerAction Unit) :=
  connects ++ .event chordCall :: connects ++ [.event pressP]

/-- Both messages are dealt with. -/
def bothDrained : List (ServerAction Unit) :=
  [(0, .captureRecv), (1, .captureRecv), (1, .forward none), (0, .forward none),
    (0, .deliverToClient 100), (1, .deliverToClient 100), (0, .clientNext), (1, .clientNext),
    (1, .clientNext)].map fun ka => .seat ka.1 (.link ka.2)

theorem one_machine_second_connects :
    ∃ s, (serverSystem Unit).Reachable s
      ∧ (s.seats.map fun seat => seat.link.client.handled) = [[.helloAck true none],
        [.helloAck true none, .keyEvent 25 true ⟨false, false, false, false⟩]]
      ∧ s.reached = [1] ∧ s.reached.Nodup := by
  obtain ⟨s, hs⟩ : ∃ s, (serverSystem Unit).run (serverSystem Unit).init
      (secondConnects ++ bothDrained) = some s := ⟨_, rfl⟩
  have hone := one_machine s ⟨_, hs⟩
  refine ⟨s, ⟨_, hs⟩, ?_⟩
  cases hs
  refine ⟨rfl, rfl, (hone ?_).2.1⟩
  unfold Capture.Steady
  decide

end Dshare.Session
