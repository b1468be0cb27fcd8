/-
  Dshare.Session.Seat
  ───────────────────
  **ONE CONNECTION OF A SERVER.**

  Behind its hooks a connection is the system of `Dshare.Session.EndToEnd`.  The hooks are
  there while the hook thread is in its message loop, and that is the system of
  `Dshare.Input.Shutdown`: the session may be over and its hooks still be called, until
  the thread has taken its `WM_QUIT`.

  What the hooks are called with comes from the desk, with a number for every event; all
  else a connection does by itself.

    • `Seat.step_cases` — what a connection does by itself;
    • `Seat.call_of_hooked` — what a call of its hooks does, in the session and after it;
    • `Seat.Ordered.call` — the log is in the order of the events;
    • `Seat.injected_msgs` — what the client injects, event by event;
    • `Seat.Settled.injected_eq` — at rest, that is everything its hooks swallowed.
-/
import Mathlib.Tactic.Common
import Dshare.Input.AutoRepeat
import Dshare.Input.Shutdown
import Dshare.Session.Delivery
import Dshare.Session.Returns

namespace Dshare.Session

open Transition Dshare.Protocol Dshare.Input

/-! ## §1. One connection. -/

/-- The two programs at the ends of a connection. -/
structure Connection (δ : Type) where
  serverOwn : Hello
  clientOwn : Hello
  backend : InputInject δ
  device : δ
  /-- The id Windows gives its hook thread. -/
  tid : ThreadId

variable {δ : Type}

def Connection.system (c : Connection δ) : System (Link δ) LinkAction :=
  linkSystem c.serverOwn c.clientOwn c.backend c.device

/-- The server's side is in its loop, with a capture. -/
def Link.captures (l : Link δ) : Bool :=
  match l.server with
  | .session _ => true
  | _ => false

theorem Link.captures_iff (l : Link δ) : l.captures = true ↔ l.server.rank = 1 := by
  unfold captures
  cases l.server <;> simp [Phase.rank]

/-- A callback has run. -/
def Capture.onHook (s : Capture) (call : HookCall) : Capture :=
  { s with
    hook := (s.hook.call call).2
    flips := s.flips + call.hotkey.toNat
    captured := s.captured ++ s.logOf call }

theorem Link.step_hook {serverOwn clientOwn : Hello} {backend : InputInject δ} {l : Link δ}
    (h : l.captures = true) (call : HookCall) :
    l.step serverOwn clientOwn backend (.hook call)
      = some { l with capture := l.capture.onHook call } := by
  unfold Link.captures at h
  split at h
  next peer hpeer =>
    simp only [Link.step, hpeer]
    rfl
  next => cases h

/-- Events come to a capture by way of the desk; all else a connection does by itself. -/
def LinkAction.isHook : LinkAction → Bool
  | .hook _ => true
  | _ => false

/-- By itself a connection captures nothing. -/
theorem Link.captured_of_step {serverOwn clientOwn : Hello} {backend : InputInject δ}
    {l l' : Link δ} {a : LinkAction} (ha : a.isHook = false)
    (h : l.step serverOwn clientOwn backend a = some l') :
    l'.capture.captured = l.capture.captured := by
  rcases Link.step_capture h with hsame | ⟨ca, hc, hhook⟩
  · rw [hsame]
  · refine Capture.captured_of_step hc ?_
    rintro call rfl
    rw [hhook call rfl] at ha
    cases ha

/-- Nor does it turn its flag. -/
theorem Link.grabbed_of_step {serverOwn clientOwn : Hello} {backend : InputInject δ}
    {l l' : Link δ} {a : LinkAction} (ha : a.isHook = false)
    (h : l.step serverOwn clientOwn backend a = some l') :
    l'.capture.hook.grabbed = l.capture.hook.grabbed := by
  rcases Link.step_capture h with hsame | ⟨ca, hc, hhook⟩
  · rw [hsame]
  · rcases Capture.step_cases hc with ⟨call, rfl, _⟩ | ⟨_, _, _, _, _, hl⟩ | ⟨_, _, _, hl⟩
    · rw [hhook call rfl] at ha
      cases ha
    · rw [hl]
    · rw [hl]

/-- A send of the handshake leaves its phase, and reads nothing. -/
theorem Link.serverSend_frame {serverOwn clientOwn : Hello} {backend : InputInject δ}
    {l l' : Link δ} {fault : Option Fault}
    (h : l.step serverOwn clientOwn backend (.serverSend fault) = some l') :
    l'.serverFramed = l.serverFramed ∧ l'.server.rank < l.server.rank
      ∧ l'.capture = l.capture := by
  obtain ⟨msg, hout, ⟨_, _, rfl⟩ | ⟨e, _, _, rfl⟩⟩ := Link.step_cases h
  · exact ⟨rfl, rank_sent serverOwn hout, rfl⟩
  · exact ⟨rfl, rank_sendFailed hout e, rfl⟩

/-- **The server's side never goes back.** -/
theorem Link.rank_step {serverOwn clientOwn : Hello} {backend : InputInject δ}
    {l l' : Link δ} {a : LinkAction} (h : l.step serverOwn clientOwn backend a = some l') :
    l'.server.rank ≤ l.server.rank := by
  have hcases := Link.step_cases h
  cases a with
  | hook call | captureRecv =>
      obtain ⟨_, _, _, _, rfl⟩ := hcases
      exact Nat.le_refl _
  | forward fault =>
      obtain ⟨_, msg, c, _, _, _, rfl⟩ := hcases
      exact (l.forward_frame msg c fault).2.1
  | captureClosed =>
      obtain ⟨_, _, _, _, rfl⟩ := hcases
      exact Nat.zero_le _
  | serverSend fault => exact Nat.le_of_lt (Link.serverSend_frame h).2.1
  | serverNext =>
      obtain ⟨phase, f, _, hreceive, rfl⟩ := hcases
      rcases (serverReceive_cases hreceive).2 with hless | ⟨rfl, _⟩
      · exact Nat.le_of_lt hless
      · exact Nat.le_refl _
  | serverTimeout =>
      obtain ⟨_, rfl⟩ := hcases
      exact Nat.zero_le _
  | clientSend fault =>
      obtain ⟨_, _, ⟨_, _, rfl⟩ | ⟨_, _, _, rfl⟩⟩ := hcases
      · exact Nat.le_refl _
      · exact Nat.le_refl _
  | clientNext | clientTimeout | deliverToClient | deliverToServer =>
      obtain ⟨_, _, rfl⟩ := hcases
      exact Nat.le_refl _
  | clientEof | serverEof =>
      rw [show l' = _ from hcases]

/-! ## §2. A seat at the desk. -/

/-- A connection at the desk, with the number of each event captured for it. -/
structure Seat (δ : Type) where
  connection : Connection δ
  link : Link δ
  reachable : connection.system.Reachable link
  /-- The hook thread and its owner, once `cap.run` has been called. -/
  thread : Option Shutdown
  spawned : ∀ t ∈ thread, (shutdown connection.tid).Reachable t
  /-- No hook thread before the session. -/
  opened : thread.isSome = true → link.server.rank ≤ 1
  /-- The calls of its hooks after the session. -/
  since : List HookCall
  ended : since ≠ [] → link.server.rank = 0
  entries : List (Nat × Captured)
  logged : entries.map Prod.snd = link.capture.captured

def Seat.new (c : Connection δ) : Seat δ where
  connection := c
  link := .new c.device
  reachable := ⟨[], rfl⟩
  thread := none
  spawned := fun _ h => by cases h
  opened := fun h => by cases h
  since := []
  ended := fun h => absurd rfl h
  entries := []
  logged := rfl

/-- Its hooks are called: the hook thread is in its message loop. -/
def Seat.hooked (seat : Seat δ) : Bool := seat.thread.any fun t => decide (t.hook = .pumping)

/-- Its hook thread. -/
def Seat.hook (seat : Seat δ) : HookThread := seat.link.capture.hook.after seat.since

theorem Seat.hooked_iff (seat : Seat δ) :
    seat.hooked = true ↔ ∃ t, seat.thread = some t ∧ t.hook = .pumping := by
  unfold hooked
  cases seat.thread <;> simp

theorem Seat.rank_of_hooked {seat : Seat δ} (h : seat.hooked = true) :
    seat.link.server.rank ≤ 1 := by
  obtain ⟨t, ht, _⟩ := seat.hooked_iff.mp h
  exact seat.opened (by rw [ht]; rfl)

/-- Hooks that are called without a session have had one. -/
theorem Seat.over_of_hooked {seat : Seat δ} (h : seat.hooked = true)
    (hover : ¬ seat.link.captures = true) : seat.link.server.rank = 0 := by
  have hle := Seat.rank_of_hooked h
  have hne := seat.link.captures_iff.not.mp hover
  omega

/-- During the session there have been no calls after it. -/
theorem Seat.hook_of_captures {seat : Seat δ} (h : seat.link.captures = true) :
    seat.hook = seat.link.capture.hook := by
  have hnil : seat.since = [] := by
    by_contra hne
    have hzero := seat.ended hne
    rw [seat.link.captures_iff, hzero] at h
    exact absurd h Nat.zero_ne_one
  unfold hook
  rw [hnil]
  rfl

theorem Seat.step_hook {seat : Seat δ} (h : seat.link.captures = true) (call : HookCall) :
    seat.connection.system.step seat.link (.hook call)
      = some { seat.link with capture := seat.link.capture.onHook call } := by
  show seat.link.step seat.connection.serverOwn seat.connection.clientOwn seat.connection.backend
    (.hook call) = _
  exact Link.step_hook h call

/-- The answer of its hook, which decides whether the older ones are called. -/
def Seat.answer (seat : Seat δ) (call : HookCall) : LRESULT :=
  if seat.hooked then (seat.hook.call call).1 else .callNextHookEx

/-- The event of the given number comes to the hooks. -/
def Seat.call (seat : Seat δ) (n : Nat) (call : HookCall) : Seat δ :=
  if hhooked : seat.hooked = true then
    if hcaptures : seat.link.captures = true then
      { seat with
        link := { seat.link with capture := seat.link.capture.onHook call }
        reachable := seat.reachable.step (Seat.step_hook hcaptures call)
        entries := seat.entries ++ (seat.link.capture.logOf call).map fun c => (n, c)
        logged := by
          rw [List.map_append, seat.logged, List.map_map]
          exact congrArg (seat.link.capture.captured ++ ·) (List.map_id _) }
    else
      -- the channel is closed: what the callback builds is dropped
      { seat with
        since := seat.since ++ [call]
        ended := fun _ => Seat.over_of_hooked hhooked hcaptures }
  else seat

/-! ## §3. What a connection does by itself. -/

/-- What goes on at a connection while no event comes. -/
inductive SeatAction where
  | link (a : LinkAction)
  /-- `cap.run` spawns the hook thread. -/
  | spawn
  /-- The hook thread or its owner goes on. -/
  | thread (a : ShutdownAction)

/-- Both hooks are in place. -/
def SeatAction.installs : SeatAction → Bool
  | .thread (.kbdHook true) => true
  | _ => false

/-- Events come by way of the desk; the channel is closed once its sender is gone, with the
hook thread. -/
def Seat.allows (seat : Seat δ) : LinkAction → Bool
  | .hook _ => false
  | .captureClosed => seat.thread.any fun t => decide (t.hook = .returned)
  | _ => true

theorem Seat.isHook_of_allows {seat : Seat δ} {a : LinkAction} (h : seat.allows a = true) :
    a.isHook = false := by
  cases a with
  | hook call => cases h
  | _ => rfl

/-- The connection goes on. -/
def Seat.linkStep (seat : Seat δ) (a : LinkAction) : Option (Seat δ) :=
  if ha : seat.allows a = true then
    match h : seat.connection.system.step seat.link a with
    | some link =>
        some { seat with
          link := link
          reachable := seat.reachable.step h
          opened := fun hsome => (Link.rank_step h).trans (seat.opened hsome)
          ended := fun hne => Nat.le_zero.mp (seat.ended hne ▸ Link.rank_step h)
          logged := seat.logged.trans
            (Link.captured_of_step (Seat.isHook_of_allows ha) h).symm }
    | none => none
  else none

/-- The hook thread or its owner goes on; the drop begins when the session is over. -/
def Seat.threadStep (seat : Seat δ) (a : ShutdownAction) : Option (Seat δ) :=
  if a = .load ∧ seat.link.captures = true then none
  else
    match ht : seat.thread with
    | none => none
    | some t =>
        match h : (shutdown seat.connection.tid).step t a with
        | some t' =>
            some { seat with
              thread := some t'
              spawned := fun u hu => Option.some.inj hu ▸ (seat.spawned t ht).step h
              opened := fun _ => seat.opened (by rw [ht]; rfl) }
        | none => none

def Seat.step (seat : Seat δ) : SeatAction → Option (Seat δ)
  | .link a => seat.linkStep a
  | .spawn =>
      if h : seat.link.captures = true ∧ seat.thread.isNone = true then
        some { seat with
          thread := some .spawned
          spawned := fun _ hu => Option.some.inj hu ▸ ⟨[], rfl⟩
          opened := fun _ => Nat.le_of_eq (seat.link.captures_iff.mp h.1) }
      else none
  | .thread a => seat.threadStep a

/-- **What a step of a connection does**, action by action, with what it asks for. -/
theorem Seat.step_cases {seat seat' : Seat δ} {a : SeatAction} (h : seat.step a = some seat') :
    seat'.connection = seat.connection ∧ seat'.entries = seat.entries
      ∧ seat'.since = seat.since
      ∧ match a with
        | .link a => seat.allows a = true
            ∧ seat.connection.system.step seat.link a = some seat'.link
            ∧ seat'.thread = seat.thread
        | .spawn => seat.link.captures = true ∧ seat.thread = none
            ∧ seat'.thread = some .spawned ∧ seat'.link = seat.link
        | .thread a => (a = .load → seat.link.captures = false)
            ∧ (∃ t t', seat.thread = some t ∧ t.step seat.connection.tid a = some t'
              ∧ seat'.thread = some t')
            ∧ seat'.link = seat.link := by
  cases a with
  | link a =>
      change seat.linkStep a = some seat' at h
      unfold Seat.linkStep at h
      split at h
      next ha =>
        split at h
        next link hlink =>
          cases h
          exact ⟨rfl, rfl, rfl, ha, hlink, rfl⟩
        next => cases h
      next => cases h
  | spawn =>
      change (if h : _ then _ else _) = some seat' at h
      split at h
      next hguard =>
        cases h
        exact ⟨rfl, rfl, rfl, hguard.1, Option.isNone_iff_eq_none.mp hguard.2, rfl, rfl⟩
      next => cases h
  | thread a =>
      change seat.threadStep a = some seat' at h
      unfold Seat.threadStep at h
      split at h
      next => cases h
      next hload =>
        split at h
        next => cases h
        next t ht =>
          split at h
          next t' hstep =>
            cases h
            refine ⟨rfl, rfl, rfl, fun ha => ?_, ⟨t, t', ht, hstep, rfl⟩, rfl⟩
            exact Bool.eq_false_iff.mpr fun hcaptures => hload ⟨ha, hcaptures⟩
          next => cases h

/-- What goes on at a connection turns no flag. -/
theorem Seat.grabbed_step {seat seat' : Seat δ} {a : SeatAction}
    (h : seat.step a = some seat') : seat'.hook.grabbed = seat.hook.grabbed := by
  obtain ⟨_, _, hsince, hcases⟩ := Seat.step_cases h
  have hlink : seat'.link.capture.hook.grabbed = seat.link.capture.hook.grabbed := by
    cases a with
    | link a => exact Link.grabbed_of_step (Seat.isHook_of_allows hcases.1) hcases.2.1
    | spawn => rw [hcases.2.2.2]
    | thread a => rw [hcases.2.2]
  unfold Seat.hook
  rw [HookThread.after_grabbed, HookThread.after_grabbed, hsince, hlink]

/-- A connection at the desk while no events come. -/
def seatSystem (c : Connection δ) : System (Seat δ) SeatAction := ⟨.new c, Seat.step⟩

theorem Seat.exists_step (seat : Seat δ) {a : LinkAction} {l : Link δ}
    (ha : seat.allows a = true) (h : seat.connection.system.step seat.link a = some l) :
    ∃ seat', seat.step (.link a) = some seat' ∧ seat'.link = l := by
  cases hstep : seat.step (.link a) with
  | some seat' =>
      obtain ⟨_, _, _, _, hlink, _⟩ := Seat.step_cases hstep
      rw [h] at hlink
      exact ⟨seat', rfl, (Option.some.inj hlink).symm⟩
  | none =>
      change seat.linkStep a = none at hstep
      unfold Seat.linkStep at hstep
      rw [dif_pos ha] at hstep
      split at hstep
      next => cases hstep
      next hnone => rw [h] at hnone; cases hnone

theorem Seat.exists_run (seat : Seat δ) (as : List LinkAction) {l : Link δ}
    (has : ∀ a ∈ as, ∀ seat : Seat δ, seat.allows a = true)
    (hrun : seat.connection.system.run seat.link as = some l) :
    ∃ seat', seat'.link = l
      ∧ (seatSystem seat.connection).run seat (as.map .link) = some seat' := by
  induction as generalizing seat with
  | nil =>
      cases hrun
      exact ⟨seat, rfl, rfl⟩
  | cons a as ih =>
      obtain ⟨l₁, hl₁, hrest⟩ := System.run_cons.mp hrun
      obtain ⟨seat₁, hseat₁, rfl⟩ := seat.exists_step (has a List.mem_cons_self seat) hl₁
      have hsame := (Seat.step_cases hseat₁).1
      rw [← hsame] at hrest ⊢
      obtain ⟨seat', hl, hrun'⟩ := ih seat₁ (fun b hb => has b (List.mem_cons_of_mem a hb)) hrest
      exact ⟨seat', hl, System.run_cons.mpr ⟨seat₁, hseat₁, hrun'⟩⟩

/-! ## §4. What a call of its hooks does. -/

/-- **A call of its hooks**, during the session and after it. -/
theorem Seat.call_of_hooked {seat : Seat δ} (h : seat.hooked = true) (n : Nat) (call : HookCall) :
    (seat.call n call).thread = seat.thread
      ∧ (seat.call n call).hook = (seat.hook.call call).2 := by
  unfold Seat.call
  rw [dif_pos h]
  split_ifs with hcaptures
  · refine ⟨rfl, ?_⟩
    rw [Seat.hook_of_captures hcaptures]
    exact Seat.hook_of_captures hcaptures
  · exact ⟨rfl, HookThread.after_snoc _ _ _⟩

theorem Seat.call_of_unhooked {seat : Seat δ} (h : ¬ seat.hooked = true) (n : Nat)
    (call : HookCall) : seat.call n call = seat := dif_neg h

theorem Seat.call_thread (seat : Seat δ) (n : Nat) (call : HookCall) :
    (seat.call n call).thread = seat.thread := by
  by_cases h : seat.hooked = true
  · exact (Seat.call_of_hooked h n call).1
  · rw [Seat.call_of_unhooked h]

/-- What a call adds to the log. -/
theorem Seat.call_entries (seat : Seat δ) (n : Nat) (call : HookCall) :
    (seat.call n call).entries = seat.entries
      ++ if seat.hooked = true ∧ seat.link.captures = true
          then (seat.link.capture.logOf call).map fun c => (n, c) else [] := by
  unfold Seat.call
  split_ifs with hhooked hcaptures hboth hboth hboth
  · rfl
  · exact absurd ⟨hhooked, hcaptures⟩ hboth
  · exact absurd hboth.2 hcaptures
  · exact (List.append_nil _).symm
  · exact absurd hboth.1 hhooked
  · exact (List.append_nil _).symm

/-- The log is in the order of the events, of which there have been so many. -/
structure Seat.Ordered (events : Nat) (seat : Seat δ) : Prop where
  below : ∀ e ∈ seat.entries, e.1 < events
  sorted : seat.entries.Pairwise fun e e' => e.1 < e'.1

theorem Seat.Ordered.mono {seat : Seat δ} {n m : Nat} (h : seat.Ordered n) (hle : n ≤ m) :
    seat.Ordered m :=
  ⟨fun e he => Nat.lt_of_lt_of_le (h.below e he) hle, h.sorted⟩

theorem Seat.Ordered.call {seat : Seat δ} {n : Nat} (h : seat.Ordered n) (call : HookCall) :
    (seat.call n call).Ordered (n + 1) := by
  have hentries := seat.call_entries n call
  by_cases hcalled : seat.hooked = true ∧ seat.link.captures = true
  · rw [if_pos hcalled] at hentries
    have hnumber : ∀ e ∈ (seat.link.capture.logOf call).map fun c => (n, c), e.1 = n := by
      intro e he
      obtain ⟨c, _, rfl⟩ := List.mem_map.mp he
      rfl
    constructor
    · intro e he
      rw [hentries] at he
      rcases List.mem_append.mp he with hold | hnew
      · exact Nat.lt_succ_of_lt (h.below e hold)
      · exact Nat.lt_succ_of_le (Nat.le_of_eq (hnumber e hnew))
    · rw [hentries]
      refine List.pairwise_append.mpr ⟨h.sorted, ?_, ?_⟩
      · -- a callback adds one entry at most
        unfold Capture.logOf
        cases seat.link.capture.hook.builds call with
        | none => exact List.Pairwise.nil
        | some msg => exact List.pairwise_singleton _ _
      · intro e he e' he'
        rw [hnumber e' he']
        exact h.below e he
  · rw [if_neg hcalled, List.append_nil] at hentries
    exact ⟨by rw [hentries]; exact (h.mono (Nat.le_succ n)).below, by rw [hentries]; exact h.sorted⟩

/-! ## §5. What its client gets. -/

/-- The events its hooks swallowed during the session, of those they built a message for. -/
def Seat.swallowed (seat : Seat δ) : List Nat :=
  (seat.entries.filter fun e => e.2.swallowed).map Prod.fst

/-- The events that entered its channel. -/
def Seat.queued (seat : Seat δ) : List (Nat × Captured) := seat.entries.filter fun e => e.2.queued

/-- The events its drain loop has dealt with. -/
def Seat.dealt (seat : Seat δ) : List ((Nat × Captured) × Popped) :=
  seat.queued.zip seat.link.capture.popped

/-- The events it has handed to `sink.send`. -/
def Seat.sent (seat : Seat δ) : List (Nat × Captured) :=
  (seat.dealt.filter fun d => d.2.sent).map Prod.fst

/-- The events its client has injected, behind the answer of the handshake. -/
def Seat.injected (seat : Seat δ) : List (Nat × Captured) :=
  seat.sent.take (seat.link.client.handled.length - 1)

theorem Seat.queued_capture (seat : Seat δ) :
    seat.queued.map Prod.snd = seat.link.capture.enqueued := by
  unfold Seat.queued Capture.enqueued
  rw [← seat.logged, List.filter_map]
  rfl

theorem Seat.inv (seat : Seat δ) : LinkInv seat.connection.serverOwn seat.link :=
  linkInv_of_reachable seat.reachable

theorem Seat.popped_length_le (seat : Seat δ) :
    seat.link.capture.popped.length ≤ seat.queued.length := by
  have hlen := seat.inv.capture.popped_length_le
  rwa [← seat.queued_capture, List.length_map] at hlen

/-- The two logs of a capture, side by side. -/
theorem Seat.getElem_dealt {seat : Seat δ} {d : (Nat × Captured) × Popped}
    (hd : d ∈ seat.dealt) : ∃ i : Nat, seat.link.capture.enqueued[i]? = some d.1.2
      ∧ seat.link.capture.popped[i]? = some d.2 := by
  obtain ⟨i, hi⟩ := List.getElem?_of_mem hd
  obtain ⟨hentry, hpopped⟩ := List.getElem?_zip_eq_some.mp hi
  refine ⟨i, ?_, hpopped⟩
  rw [← seat.queued_capture, List.getElem?_map, hentry]
  rfl

/-- What is handed to `sink.send` is what was built for the events that are sent. -/
theorem Seat.sent_msgs (seat : Seat δ) :
    (seat.sent.map fun e => e.2.msg) = seat.link.capture.handed := by
  have hpopped : seat.dealt.map Prod.snd = seat.link.capture.popped :=
    List.map_snd_zip seat.popped_length_le
  unfold Seat.sent Capture.handed
  rw [← hpopped, List.filter_map, List.map_map, List.map_map]
  refine List.map_congr_left fun d hd => ?_
  obtain ⟨i, hcaptured, hpopped⟩ := Seat.getElem_dealt (List.mem_of_mem_filter hd)
  exact (seat.inv.capture.msg_eq hcaptured hpopped).symm

/-- **What a client injects, event by event.** -/
theorem Seat.injected_msgs (seat : Seat δ) :
    seat.link.client.handled.tail = seat.injected.map fun e => e.2.msg := by
  unfold Seat.injected
  rw [List.map_take, seat.sent_msgs]
  rcases seat.inv.handled_inputs with hnone | ⟨accepted, reason, inputs, hhandled, hinputs⟩
  · rw [hnone]
    rfl
  · rw [hhandled]
    exact List.prefix_iff_eq_take.mp hinputs

theorem Seat.dealt_eq (seat : Seat δ) :
    seat.dealt.map Prod.fst = seat.queued.take seat.link.capture.popped.length := by
  unfold Seat.dealt
  rw [List.zip_eq_zip_take_min, List.map_fst_zip (by simp), Nat.min_eq_right seat.popped_length_le]

/-- What has been dealt with stands in the log of what was captured. -/
theorem Seat.dealt_sublist (seat : Seat δ) : (seat.dealt.map Prod.fst).Sublist seat.entries := by
  rw [seat.dealt_eq]
  exact (List.take_sublist _ _).trans List.filter_sublist

theorem Seat.injected_sublist (seat : Seat δ) : seat.injected.Sublist seat.entries :=
  (List.take_sublist _ _).trans ((List.filter_sublist.map Prod.fst).trans seat.dealt_sublist)

/-- The flag turned an even number of times while each message was under way. -/
def Capture.Steady (s : Capture) : Prop :=
  ∀ d ∈ s.enqueued.zip s.popped, Even (d.2.flips - d.1.flips)

/-- **A steady flag sends what the hook swallowed.** -/
theorem Seat.sent_iff {seat : Seat δ} (h : seat.link.capture.Steady)
    {d : (Nat × Captured) × Popped} (hd : d ∈ seat.dealt) : d.2.sent = d.1.2.swallowed := by
  have hinv := seat.inv.capture
  obtain ⟨i, hcaptured, hpopped⟩ := Seat.getElem_dealt hd
  have hlater := hinv.later i d.1.2 d.2 hcaptured hpopped
  have heven : Even (d.2.flips - d.1.2.flips) :=
    h (d.1.2, d.2) (List.mem_of_getElem? (List.getElem?_zip_eq_some.mpr ⟨hcaptured, hpopped⟩))
  have hswallowed :=
    (hinv.captured d.1.2 (List.mem_of_mem_filter (List.mem_of_getElem? hcaptured))).1
  rw [hinv.popped d.2 (List.mem_of_getElem? hpopped), hswallowed]
  exact (onAfter_eq_iff hlater).mpr heven

theorem Seat.sent_eq {seat : Seat δ} (h : seat.link.capture.Steady) :
    seat.sent = (seat.dealt.map Prod.fst).filter fun e => e.2.swallowed := by
  unfold Seat.sent
  rw [List.filter_map, List.filter_congr fun d hd => Seat.sent_iff h hd]
  rfl

theorem Seat.injected_swallowed {seat : Seat δ} (h : seat.link.capture.Steady) :
    (seat.injected.map Prod.fst).Sublist seat.swallowed := by
  have hsent : seat.sent.Sublist (seat.entries.filter fun e => e.2.swallowed) := by
    rw [Seat.sent_eq h]
    exact seat.dealt_sublist.filter _
  exact ((List.take_sublist _ _).trans hsent).map Prod.fst

theorem Seat.queued_eq {seat : Seat δ} (h : seat.link.capture.Lossless) :
    seat.queued = seat.entries := by
  refine List.filter_eq_self.mpr fun e he => h e.2 ?_
  rw [← seat.logged]
  exact List.mem_map_of_mem he

/-- While the channel has never been full, the client is behind and misses nothing. -/
theorem Seat.injected_prefix {seat : Seat δ} (h : seat.link.capture.Steady)
    (hlossless : seat.link.capture.Lossless) :
    seat.injected.map Prod.fst <+: seat.swallowed := by
  have hsent : seat.sent <+: seat.entries.filter fun e => e.2.swallowed := by
    rw [Seat.sent_eq h, seat.dealt_eq, Seat.queued_eq hlossless]
    exact (List.take_prefix _ _).filter _
  exact ((List.take_prefix _ _).trans hsent).map Prod.fst

/-- Both sides are in their loops, everything has come through, and nothing was dropped. -/
structure Seat.Settled (seat : Seat δ) : Prop where
  server : ∃ peer, seat.link.server = .session peer
  client : ∃ peer, seat.link.client.phase = .session peer
  rest : seat.link.AtRest
  lossless : seat.link.capture.Lossless

/-- **Nothing that was swallowed for a client is missing** when its session is at rest. -/
theorem Seat.Settled.injected_eq {seat : Seat δ} (h : seat.Settled)
    (hsteady : seat.link.capture.Steady) : seat.injected.map Prod.fst = seat.swallowed := by
  have hqueued := Seat.queued_eq h.lossless
  have hpopped : seat.link.capture.popped.length = seat.entries.length := by
    have hqueue := congrArg List.length seat.inv.capture.queue
    rw [h.rest.hand, h.rest.channel, ← seat.queued_capture, hqueued] at hqueue
    simpa using hqueue.symm
  have hall : seat.sent = seat.entries.filter fun e => e.2.swallowed := by
    rw [Seat.sent_eq hsteady, seat.dealt_eq, hqueued, hpopped, List.take_length]
  obtain ⟨peer, hserver⟩ := h.server
  obtain ⟨peer', hclient⟩ := h.client
  have hhandled : seat.link.client.handled.length - 1 = seat.sent.length := by
    rw [seat.inv.all_handled hserver hclient h.rest, ← seat.sent_msgs]
    simp
  unfold Seat.injected Seat.swallowed
  rw [hhandled, List.take_length, hall]

end Dshare.Session
