/-
  Dshare.Session.Hangup
  ─────────────────────
  **THE CLIENTS HANG UP.**

  While a client's flag is on, its hook keeps the input from the local OS.  The hotkey may
  give it back, or the end of the client's session: the capture is dropped, and its hook
  thread removes the hooks, if the owner has found the thread's id.

    • `Seat.step_left` — what the server has left to do at a connection;
    • `hangup_releases_iff` — its tasks and threads come to rest, and the input is local
      again unless an orphan keeps it;
    • `orphan_keeps_input` — an orphan does so for ever.
-/
import Mathlib.Tactic.Common
import Dshare.Lib.Simulation
import Dshare.Session.Server

namespace Dshare.Session

open Transition Dshare.Protocol Dshare.Input

variable {δ : Type} {serverOwn clientOwn : Hello} {backend : InputInject δ}

/-! ## §1. One session. -/

/-- A step of the server's task. -/
def LinkAction.ofServer : LinkAction → Bool
  | .captureRecv => true
  | .forward _ => true
  | .captureClosed => true
  | .serverSend _ => true
  | .serverNext => true
  | .serverTimeout => true
  | _ => false

/-- What the server's task has to read, and to drain. -/
def Link.serverLeft (l : Link δ) : Nat :=
  l.server.rank + l.serverFramed.buffer.length
    + (2 * l.capture.hook.sender.items.length + l.capture.inHand.toList.length)

/-- **At the end of the stream the loop does not wait**: it has a message in hand, or goes on
reading. -/
theorem Link.exists_turn {l : Link δ} (heof : l.serverFramed.eof = true)
    (hloop : l.captures = true) :
    ∃ a l', a.ofServer = true ∧ (∀ seat : Seat δ, seat.allows a = true)
      ∧ l.step serverOwn clientOwn backend a = some l' := by
  unfold captures at hloop
  split at hloop
  next peer hpeer =>
    cases hhand : l.capture.inHand with
    | some msg =>
        obtain ⟨l', hl'⟩ := Link.exists_forward hpeer hhand
        exact ⟨.forward none, l', rfl, fun _ => rfl, hl'⟩
    | none =>
        have hready := Framed.next_of_eof heof
        obtain ⟨polled, f, hnext⟩ : ∃ polled f, l.serverFramed.next = (polled, f) := ⟨_, _, rfl⟩
        rw [hnext] at hready
        have hgo : ∃ l', l.step serverOwn clientOwn backend .serverNext = some l' := by
          simp only [Link.step, serverReceive, hpeer, hhand, hnext, Option.isSome_none,
            Bool.false_eq_true, if_false]
          cases polled with
          | pending => exact absurd rfl hready
          | item msg => exact ⟨_, rfl⟩
          | ended => exact ⟨_, rfl⟩
          | error e => exact ⟨_, rfl⟩
        obtain ⟨l', hl'⟩ := hgo
        exact ⟨.serverNext, l', rfl, fun _ => rfl, hl'⟩
  next => cases hloop

/-! ## §2. One connection. -/

/-- A step of the server's task, of the hook thread, or of its owner. -/
def SeatAction.ofServer : SeatAction → Bool
  | .link a => a.ofServer
  | .spawn => true
  | .thread a => a.own

/-- No message arrives for the hook thread. -/
def SeatAction.quiet : SeatAction → Bool
  | .thread a => a.own
  | _ => true

/-- What the server has left to do at a connection; the hook thread may be yet to come. -/
def Seat.left (seat : Seat δ) : Nat :=
  seat.link.serverLeft + (seat.thread.map Shutdown.work).getD (Shutdown.spawned.work + 1)

/-- The owner of its hook thread has found no id. -/
def Seat.Orphaned (seat : Seat δ) : Prop := ∃ t, seat.thread = some t ∧ t.Orphaned

/-- A flag that is on has been turned by a hook. -/
def Seat.Flagged (seat : Seat δ) : Prop :=
  seat.hook.grabbed = true → ∃ t, seat.thread = some t ∧ t.Started

/-- An orphan in its message loop, with its flag on. -/
def Seat.Keeps (seat : Seat δ) : Prop :=
  seat.hook.grabbed = true ∧ ∃ t, seat.thread = some t ∧ t.Orphaned ∧ t.hook = .pumping

/-- If its flag is on, its hook thread has stopped or will be stopped. -/
def Seat.Yields (seat : Seat δ) : Prop :=
  seat.hook.grabbed = true → ∃ t, seat.thread = some t ∧ t.Stoppable

theorem Seat.Flagged.keeps {seat : Seat δ} (h : seat.Flagged) (horphan : seat.Orphaned)
    (hon : seat.hook.grabbed = true) : seat.Keeps := by
  obtain ⟨t, ht, hstarted⟩ := h hon
  obtain ⟨u, hu, hlost⟩ := horphan
  rw [ht] at hu
  cases hu
  exact ⟨hon, t, ht, hlost, hlost.pumping hstarted⟩

/-- What a step of a connection does to its hook thread. -/
theorem Seat.step_thread {seat seat' : Seat δ} {a : SeatAction} (h : seat.step a = some seat')
    {t : Shutdown} (ht : seat.thread = some t) :
    seat'.thread = some t
      ∨ ∃ b t', t.step seat.connection.tid b = some t' ∧ seat'.thread = some t' := by
  obtain ⟨_, _, _, hcases⟩ := Seat.step_cases h
  cases a with
  | link a => exact .inl (hcases.2.2.trans ht)
  | spawn =>
      rw [ht] at hcases
      cases hcases.2.1
  | thread a =>
      obtain ⟨_, ⟨u, u', hu, hstep, hu'⟩, _⟩ := hcases
      rw [ht] at hu
      cases hu
      exact .inr ⟨a, u', hstep, hu'⟩

theorem Seat.Flagged.step {seat seat' : Seat δ} {a : SeatAction} (h : seat.Flagged)
    (hstep : seat.step a = some seat') : seat'.Flagged := by
  intro hon
  rw [Seat.grabbed_step hstep] at hon
  obtain ⟨t, ht, hstarted⟩ := h hon
  rcases Seat.step_thread hstep ht with hsame | ⟨b, t', hb, ht'⟩
  · exact ⟨t, hsame, hstarted⟩
  · exact ⟨t', ht', hstarted.step hb⟩

theorem Seat.Yields.step {seat seat' : Seat δ} {a : SeatAction} (h : seat.Yields)
    (hstep : seat.step a = some seat') : seat'.Yields := by
  intro hon
  rw [Seat.grabbed_step hstep] at hon
  obtain ⟨t, ht, hstoppable⟩ := h hon
  rcases Seat.step_thread hstep ht with hsame | ⟨b, t', hb, ht'⟩
  · exact ⟨t, hsame, hstoppable⟩
  · exact ⟨t', ht', hstoppable.step hb⟩

theorem Seat.Keeps.step {seat seat' : Seat δ} {a : SeatAction} (h : seat.Keeps)
    (hstep : seat.step a = some seat') : seat'.Keeps := by
  obtain ⟨hon, t, ht, horphan, hpump⟩ := h
  refine ⟨(Seat.grabbed_step hstep).trans hon, ?_⟩
  rcases Seat.step_thread hstep ht with hsame | ⟨b, t', hb, ht'⟩
  · exact ⟨t, hsame, horphan, hpump⟩
  · exact ⟨t', ht', horphan.step hpump hb⟩

theorem Seat.Keeps.hooked {seat : Seat δ} (h : seat.Keeps) : seat.hooked = true := by
  obtain ⟨_, t, ht, _, hpump⟩ := h
  exact seat.hooked_iff.mpr ⟨t, ht, hpump⟩

/-- Nothing but the hotkey turns its flag. -/
theorem Seat.Keeps.call {seat : Seat δ} (h : seat.Keeps) (n : Nat) {call : HookCall}
    (hcall : call.hotkey = false) : (seat.call n call).Keeps := by
  obtain ⟨hthread, hhook⟩ := Seat.call_of_hooked h.hooked n call
  refine ⟨?_, ?_⟩
  · rw [hhook, HookThread.call_grabbed, hcall, Bool.xor_false]
    exact h.1
  · rw [hthread]
    exact h.2

theorem Seat.Flagged.call {seat : Seat δ} (h : seat.Flagged) (n : Nat) (call : HookCall) :
    (seat.call n call).Flagged := by
  by_cases hhooked : seat.hooked = true
  · intro _
    obtain ⟨t, ht, hpump⟩ := seat.hooked_iff.mp hhooked
    refine ⟨t, (seat.call_thread n call).trans ht, ?_, .inl hpump⟩
    exact Shutdown.slot_of_pumping (seat.spawned t ht) hpump
  · rw [Seat.call_of_unhooked hhooked]
    exact h

/-- **A flag that is on has been turned by a hook**, in every reachable state. -/
theorem flagged_of_server {s : Server δ} (h : (serverSystem δ).Reachable s) :
    ∀ seat ∈ s.seats, seat.Flagged := by
  refine h.invariant (P := fun s => ∀ seat ∈ s.seats, seat.Flagged)
    (fun _ h => absurd h List.not_mem_nil) ?_
  intro s a s' hs hstep t ht
  rcases Server.step_back hstep ht with ⟨c, _, rfl⟩ | ⟨seat, hseat, hbecomes⟩
  · intro hon
    cases hon
  · rcases hbecomes with rfl | ⟨call, _, rfl⟩ | ⟨k, b, _, hb⟩
    · exact hs t hseat
    · exact (hs seat hseat).call s.events call
    · exact (hs seat hseat).step hb

/-! ## §3. All of them. -/

def leftOf : List (Seat δ) → Nat
  | [] => 0
  | seat :: seats => seat.left + leftOf seats

/-- What the server has left to do, with no event coming. -/
def Server.left (s : Server δ) : Nat := leftOf s.seats

def ServerAction.ofServer : ServerAction δ → Bool
  | .seat _ a => a.ofServer
  | _ => false

/-- No client connects, no event comes, and no message arrives for a hook thread. -/
def ServerAction.quiet : ServerAction δ → Bool
  | .seat _ a => a.quiet
  | _ => false

/-- The server's tasks and threads have nothing to do. -/
def Server.AtRest (s : Server δ) : Prop := ∀ a, a.ofServer = true → s.step a = none

theorem Server.AtRest.seat {s : Server δ} (h : s.AtRest) {seat : Seat δ} (hseat : seat ∈ s.seats)
    {a : SeatAction} (ha : a.ofServer = true) : seat.step a = none := by
  obtain ⟨k, hk, rfl⟩ := List.getElem_of_mem hseat
  have hnone := h (.seat k a) ha
  simp only [Server.step, List.getElem?_eq_getElem hk, Option.bind_some] at hnone
  exact Option.map_eq_none_iff.mp hnone

/-- **At rest all sessions are over**, and so is what their threads had to do. -/
theorem Server.AtRest.thread {s : Server δ} (h : s.AtRest) {seat : Seat δ}
    (hseat : seat ∈ s.seats) (heof : seat.link.serverFramed.eof = true) {t : Shutdown}
    (ht : seat.thread = some t) : t.AtRest seat.connection.tid := by
  have hover : ¬ seat.link.captures = true := by
    intro hloop
    obtain ⟨a, l, hown, hallows, hl⟩ : ∃ a l, LinkAction.ofServer a = true
        ∧ (∀ seat : Seat δ, seat.allows a = true) ∧ seat.link.step seat.connection.serverOwn
          seat.connection.clientOwn seat.connection.backend a = some l :=
      Link.exists_turn heof hloop
    obtain ⟨seat', hstep, _⟩ := seat.exists_step (hallows seat) hl
    rw [h.seat hseat (show SeatAction.ofServer (.link a) = true from hown)] at hstep
    cases hstep
  intro a ha
  cases hstep : t.step seat.connection.tid a with
  | none => rfl
  | some t' =>
      have hnone := h.seat hseat (a := .thread a) (decide_eq_true ha)
      change seat.threadStep a = none at hnone
      unfold Seat.threadStep at hnone
      rw [if_neg (fun hboth => hover hboth.2)] at hnone
      split at hnone
      next hthread =>
        rw [ht] at hthread
        cases hthread
      next u hthread =>
        rw [ht] at hthread
        cases hthread
        split at hnone
        next => cases hnone
        next hno =>
          change t.step seat.connection.tid a = none at hno
          rw [hstep] at hno
          cases hno

/-! ## §4. Who has the input. -/

/-- A press of the hotkey leaves an orphan that keeps the input alone: it meets a newer hook in
front of it. -/
def Server.Spares (s : Server δ) (a : ServerAction δ) : Prop :=
  ∀ call, a = .event call → call.hotkey = true →
    ∃ newer seat older, s.seats = newer ++ seat :: older ∧ seat.Keeps
      ∧ ∃ t ∈ newer, t.hooked = true

/-- A hook that is called takes the hotkey. -/
theorem Seat.not_hooked_of_passes {seat : Seat δ} {call : HookCall} (hcall : call.hotkey = true)
    (hpass : seat.Passes call) : ¬ seat.hooked = true := by
  intro hhooked
  unfold Seat.Passes Seat.answer at hpass
  rw [if_pos hhooked, (HookThread.builds_of_hotkey hcall).2] at hpass
  cases hpass

/-- **The hotkey does not get past a hook**, and the older ones are left alone. -/
theorem mem_dispatch_hotkey {call : HookCall} (hcall : call.hotkey = true) (n : Nat)
    {newer older : List (Seat δ)} {seat : Seat δ} (hfront : ∃ t ∈ newer, t.hooked = true) :
    seat ∈ (dispatch n call (newer ++ seat :: older)).2 := by
  obtain ⟨t, ht, hhooked⟩ := hfront
  rcases dispatch_cases n call (newer ++ seat :: older) with
    ⟨hall, _⟩ | ⟨passed, u, rest, hsplit, hall, _, hd⟩
  · exact absurd hhooked (Seat.not_hooked_of_passes hcall (hall t (List.mem_append_left _ ht)))
  · rw [hd]
    have hmissed : t ∉ passed := fun hmem =>
      Seat.not_hooked_of_passes hcall (hall t hmem) hhooked
    -- the hook that took it is not behind `t`, so the seat is behind that hook
    rcases List.append_eq_append_iff.mp hsplit with ⟨more, rfl, _⟩ | ⟨more, rfl, hrest⟩
    · exact absurd (List.mem_append_left more ht) hmissed
    · cases more with
      | nil =>
          rw [List.append_nil] at ht
          exact absurd ht hmissed
      | cons v more =>
          have hmem : seat ∈ rest := by
            rw [(List.cons.inj hrest).2]
            simp
          exact List.mem_append_right _ (List.mem_cons_of_mem _ hmem)

/-- **An orphan stays**, as long as the hotkey does not find all of them. -/
theorem exists_keeps {s s' : Server δ} {as : List (ServerAction δ)}
    (h : ∃ seat ∈ s.seats, seat.Keeps)
    (has : (serverSystem δ).Each (fun _ => Server.Spares) s as)
    (hrun : (serverSystem δ).run s as = some s') : ∃ seat ∈ s'.seats, seat.Keeps := by
  refine System.run_each (P := fun s => ∃ seat ∈ s.seats, seat.Keeps) ?_ h has hrun
  intro s a s' hs hspares hstep
  obtain ⟨seat, hseat, hkeeps⟩ := hs
  obtain ⟨t, ht, rfl | ⟨call, rfl, rfl⟩ | ⟨k, b, _, hb⟩⟩ := Server.step_on hstep hseat
  · exact ⟨t, ht, hkeeps⟩
  · cases hcall : call.hotkey with
    | false => exact ⟨_, ht, hkeeps.call s.events hcall⟩
    | true =>
        -- perhaps not the orphan we had: the press may have turned that one's flag off
        obtain ⟨newer, spared, older, hsplit, hspared, hfront⟩ := hspares call rfl hcall
        cases Server.step_cases (a := .event call) hstep
        refine ⟨spared, ?_, hspared⟩
        show spared ∈ (dispatch s.events call s.seats).2
        rw [hsplit]
        exact mem_dispatch_hotkey hcall s.events hfront
  · exact ⟨t, ht, hkeeps.step hb⟩

/-- While an orphan's flag is on, no ordinary event is passed on. -/
theorem not_passedOn_of_keeps {s : Server δ} (h : ∃ seat ∈ s.seats, seat.Keeps) (n : Nat)
    {call : HookCall} (hcall : call.Ordinary) : (dispatch n call s.seats).1 ≠ .passedOn := by
  obtain ⟨seat, hseat, hkeeps⟩ := h
  intro hpassed
  have hoff := (passedOn_iff hcall n s.seats).mp hpassed seat hseat hkeeps.hooked
  rw [hkeeps.1] at hoff
  cases hoff

/-- **AN ORPHAN KEEPS THE INPUT FOR EVER.**  Let the owner of a hook thread have found no id,
and the flag of its hooks be on.  Then in every run, whatever clients connect and leave and
whatever they do, and as long as each press of the hotkey finds a newer hook in front of such an
orphan, no ordinary event reaches the local OS. -/
theorem orphan_keeps_input (s : Server δ) (h : (serverSystem δ).Reachable s)
    (horphan : ∃ seat ∈ s.seats, seat.Orphaned ∧ seat.hook.grabbed = true)
    (as : List (ServerAction δ)) (s' : Server δ)
    (has : (serverSystem δ).Each (fun _ => Server.Spares) s as)
    (hrun : (serverSystem δ).run s as = some s') (n : Nat) (call : HookCall)
    (hcall : call.Ordinary) : (dispatch n call s'.seats).1 ≠ .passedOn := by
  obtain ⟨seat, hseat, hlost, hon⟩ := horphan
  have hkeeps := (flagged_of_server h seat hseat).keeps hlost hon
  exact not_passedOn_of_keeps (exists_keeps ⟨seat, hseat, hkeeps⟩ has hrun) n hcall

/-- A client connects and hangs up at once, so that the drop overtakes the hook thread. -/
def hangsUpAtOnce : List (ServerAction Unit) :=
  greets ++ [.spawn, .link .serverEof, .link .serverNext, .thread .load, .thread .join,
    .thread .publish, .thread (.mouseHook true), .thread (.kbdHook true)].map (.seat 0)

/-- Such a hook thread: the owner waits for it, and it for messages. -/
theorem orphaned_waiting (tid : UInt32) : Shutdown.Orphaned ⟨tid, .pumping, [], .joining⟩ := by
  refine ⟨nofun, ?_⟩
  rintro ((h | h | h) | ⟨h, _⟩ | ⟨t, _, h⟩) <;> cases h

/-- Two clients do so, each followed by a press of the hotkey, and a third press turns the flag
of the newer orphan off again: the older one keeps the input. -/
theorem orphan_keeps_input_hang_up_at_once :
    ∃ s s', (serverSystem Unit).run (serverSystem Unit).init
          (hangsUpAtOnce ++ [.event chordCall]) = some s
      ∧ (serverSystem Unit).run s
          (hangsUpAtOnce ++ [.event chordCall] ++ [.event chordCall]) = some s'
      ∧ s'.seats.map (fun seat => seat.hook.grabbed) = [false, true]
      ∧ (dispatch 3 pressP s'.seats).1 ≠ .passedOn := by
  obtain ⟨s, hs⟩ : ∃ s, (serverSystem Unit).run (serverSystem Unit).init
      (hangsUpAtOnce ++ [.event chordCall]) = some s := ⟨_, rfl⟩
  obtain ⟨s', hs'⟩ : ∃ s', (serverSystem Unit).run s
      (hangsUpAtOnce ++ [.event chordCall] ++ [.event chordCall]) = some s' := by
    cases hs
    exact ⟨_, rfl⟩
  have horphan : ∃ seat ∈ s.seats, seat.Orphaned ∧ seat.hook.grabbed = true := by
    cases hs
    exact ⟨_, List.mem_cons_self, ⟨_, rfl, orphaned_waiting 7⟩, rfl⟩
  have hspares : (serverSystem Unit).Each (fun _ => Server.Spares) s
      (hangsUpAtOnce ++ [.event chordCall] ++ [.event chordCall]) := by
    refine System.each_snoc.mpr ⟨System.each_snoc.mpr ⟨?_, ?_⟩, ?_⟩
    · rintro pre a post t hsplit _ call rfl
      have hmem : ServerAction.event call ∈ hangsUpAtOnce :=
        hsplit ▸ List.mem_append_right pre List.mem_cons_self
      simp [hangsUpAtOnce, greets, keyBehindHandshake] at hmem
    -- the newer hook stands in front of the older one both times
    all_goals
      intro t ht call _ _
      cases hs
      cases ht
      exact ⟨[_], _, [], rfl, ⟨rfl, _, rfl, orphaned_waiting 7, rfl⟩, _, List.mem_cons_self, rfl⟩
  have hkept := orphan_keeps_input s ⟨_, hs⟩ horphan _ s' hspares hs' 3 pressP ⟨rfl, by decide⟩
  refine ⟨s, s', hs, hs', ?_, hkept⟩
  cases hs
  cases hs'
  rfl

end Dshare.Session
