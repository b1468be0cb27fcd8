/-
  Dshare.Session.Vocabulary
  ─────────────────────────
  **WHAT THE PROGRAM SAYS**, and what a client of the same program has to inject.

  `Message` has twelve variants.  A hook builds four of them, and not all their
  values; the handshake has three more to say; the rest is never written.

    • `says_grammar` — everything a task writes, in order, whatever the peer does;
    • `Capturable.injectable` — what the hooks build, Linux injects in full, and Windows
      but for the punctuation keys;
    • `handled_injectable` — so this is all that a client loses of what a server of this
      program has it handle.
-/
import Mathlib.Tactic.Common
import Dshare.Input.Wheel
import Dshare.Session.KeyIdentity
import Dshare.Session.Refusal

namespace Dshare.Session

open Transition Dshare.Protocol Dshare.Input

/-! ## §1. What the hooks build. -/

/-- A message that a hook callback can build. -/
def Capturable : Message → Prop
  | .mouseMove _ _ => True
  | .mouseButton button _ => button = .left ∨ button = .right ∨ button = .middle
  | .mouseWheel dx dy => dx = 0 ∧ dy.toInt.natAbs ≤ 273
  | .keyEvent keycode _ _ => ∃ vk code, vkToEvdev vk = some code ∧ keycode = code.toUInt32
  | _ => False

/-- Sixteen bits of wheel hold 273 notches at most. -/
theorem natAbs_notches_le (delta : Int16) : (delta / 120).toInt32.toInt.natAbs ≤ 273 := by
  have hlo : -2 ^ 15 ≤ delta.toInt := Int16.le_toInt delta
  have hhi : delta.toInt < 2 ^ 15 := Int16.toInt_lt delta
  have hle : delta.toInt.natAbs ≤ 32768 := by omega
  rw [toInt_notches, Int.natAbs_tdiv]
  exact Nat.div_le_div_right (c := 120) hle

theorem capturable_mouseMsg {wparam : UInt32} {info : MSLLHOOKSTRUCT}
    {last : Option (Int32 × Int32)} {msg : Message} (h : (mouseMsg wparam info last).1 = some msg) :
    Capturable msg := by
  unfold mouseMsg at h
  split_ifs at h
  · obtain ⟨_, _, rfl⟩ := Option.map_eq_some_iff.mp h
    trivial
  · cases h; exact .inl rfl
  · cases h; exact .inl rfl
  · cases h; exact .inr (.inl rfl)
  · cases h; exact .inr (.inl rfl)
  · cases h; exact .inr (.inr rfl)
  · cases h; exact .inr (.inr rfl)
  · cases h; exact ⟨rfl, natAbs_notches_le _⟩

theorem capturable_kbdMsg {get : GetAsyncKeyState} {wparam : UInt32} {info : KBDLLHOOKSTRUCT}
    {msg : Message} (h : kbdMsg get wparam info = some msg) : Capturable msg := by
  unfold kbdMsg at h
  split_ifs at h
  obtain ⟨code, hcode, rfl⟩ := Option.map_eq_some_iff.mp h
  exact ⟨info.vkCode, code, hcode, rfl⟩

/-- **Whatever a callback builds is capturable.** -/
theorem HookThread.capturable {s : HookThread} {call : HookCall} {msg : Message}
    (h : s.builds call = some msg) : Capturable msg := by
  unfold HookThread.builds at h
  cases call with
  | mouse code wparam info =>
      simp only at h
      split_ifs at h
      exact capturable_mouseMsg h
  | kbd get code wparam info =>
      simp only at h
      split_ifs at h
      exact capturable_kbdMsg h

/-- The capture side has built nothing else. -/
def Capture.Plain (s : Capture) : Prop := ∀ msg ∈ s.built, Capturable msg

theorem Capture.Plain.step {s s' : Capture} {a : CaptureAction} (h : s.Plain)
    (hstep : s.step a = some s') : s'.Plain := by
  rcases Capture.step_cases hstep with ⟨call, _, rfl⟩ | ⟨_, _, _, _, _, rfl⟩ | ⟨_, _, _, rfl⟩
  · intro msg hmsg
    have hsplit : Capture.built { s with
        hook := (s.hook.call call).2
        flips := s.flips + call.hotkey.toNat
        captured := s.captured ++ s.logOf call }
          = s.built ++ (s.logOf call).map Captured.msg := List.map_append
    rw [hsplit] at hmsg
    rcases List.mem_append.mp hmsg with hold | hnew
    · exact h msg hold
    · unfold Capture.logOf at hnew
      cases hb : s.hook.builds call with
      | none => rw [hb] at hnew; cases hnew
      | some built =>
          rw [hb] at hnew
          rw [List.mem_singleton.mp hnew]
          exact HookThread.capturable hb
  · exact h
  · exact h

theorem plain_of_reachable {s : Capture} (h : captureSystem.Reachable s) : s.Plain :=
  h.invariant (fun _ hmsg => absurd hmsg List.not_mem_nil) fun _ _ _ hs hstep => hs.step hstep

/-! ## §2. The handshake, word for word. -/

/-- Our answer to a peer of another version. -/
def refusalOf (own peer : Hello) : Message :=
  .helloAck false (some (mismatchReason peer.protocolVersion own.protocolVersion))

variable (own : Hello)

/-- The log, phase by phase: which `Hello` our answer is to, and that the loops send
nothing more of the handshake. -/
def Spoken (log : List PeerEvent) : Phase → Prop
  | .hello => log = []
  | .awaitHello => log = [.sent (.hello own)]
  | .refuse peer => peer.protocolVersion ≠ own.protocolVersion
      ∧ log = [.sent (.hello own), .received (.hello peer)]
  | .accept peer => peer.protocolVersion = own.protocolVersion
      ∧ log = [.sent (.hello own), .received (.hello peer)]
  | .failed _ => (∃ first, log <+: [.sent (.hello own), .received first])
      ∨ ∃ peer, peer.protocolVersion ≠ own.protocolVersion
        ∧ log = [.sent (.hello own), .received (.hello peer), .sent (refusalOf own peer)]
  | _ => ∃ peer more, peer.protocolVersion = own.protocolVersion
      ∧ log = opening own peer ++ more ∧ ∀ msg, .sent msg ∉ more

variable {own} {δ : Type} {role : Role} {backend : InputInject δ}

/-- In its loop or behind it, a task that says nothing of the handshake. -/
def Phase.looping : Phase → Bool
  | .session _ => true
  | .ended => true
  | _ => false

theorem Spoken.looping {log : List PeerEvent} {phase : Phase} (hphase : phase.looping = true) :
    Spoken own log phase ↔ ∃ peer more, peer.protocolVersion = own.protocolVersion
      ∧ log = opening own peer ++ more ∧ ∀ msg, .sent msg ∉ more := by
  cases phase with
  | session peer => exact Iff.rfl
  | ended => exact Iff.rfl
  | _ => cases hphase

/-- The loops add to the log, and end. -/
theorem Spoken.append {log : List PeerEvent} {phase phase' : Phase} (h : Spoken own log phase)
    (hphase : phase.looping = true) (hphase' : phase'.looping = true) {more : List PeerEvent}
    (hmore : ∀ msg, .sent msg ∉ more) : Spoken own (log ++ more) phase' := by
  obtain ⟨peer, before, hv, rfl, hbefore⟩ := (Spoken.looping hphase).mp h
  refine (Spoken.looping hphase').mpr ⟨peer, before ++ more, hv, List.append_assoc _ _ _, ?_⟩
  intro msg hmsg
  rcases List.mem_append.mp hmsg with hold | hnew
  · exact hbefore msg hold
  · exact hmore msg hnew

/-- Whatever goes wrong in the handshake goes wrong early. -/
theorem Spoken.fail {log : List PeerEvent} {phase : Phase} (h : Spoken own log phase)
    (hphase : phase.looping = false) (e : PeerError) : Spoken own log (.failed e) := by
  cases phase with
  | hello => exact .inl ⟨.ping 0, by rw [show log = [] from h]; exact List.nil_prefix⟩
  | awaitHello =>
      refine .inl ⟨.ping 0, ?_⟩
      rw [show log = [.sent (.hello own)] from h]
      exact List.prefix_append [PeerEvent.sent (.hello own)] [.received (.ping 0)]
  | refuse peer => exact .inl ⟨.hello peer, by rw [h.2]⟩
  | accept peer => exact .inl ⟨.hello peer, by rw [h.2]⟩
  | failed e' => exact h
  | session peer => cases hphase
  | ended => cases hphase

theorem Spoken.sent {log : List PeerEvent} {phase : Phase} {msg : Message}
    (h : Spoken own log phase) (hout : phase.outgoing own = some msg) :
    Spoken own (log ++ [.sent msg]) (phase.sent own) := by
  cases phase with
  | hello =>
      cases hout
      rw [show log = [] from h]
      exact rfl
  | refuse peer =>
      cases hout
      obtain ⟨hv, rfl⟩ := h
      exact .inr ⟨peer, hv, rfl⟩
  | accept peer =>
      cases hout
      obtain ⟨hv, rfl⟩ := h
      exact ⟨peer, [], hv, rfl, fun _ => List.not_mem_nil⟩
  | _ => cases hout

/-- After a send that failed the task has failed. -/
theorem Spoken.sendFailed {log : List PeerEvent} {phase : Phase} {msg : Message}
    (h : Spoken own log phase) (hout : phase.outgoing own = some msg) (e : ProtocolError) :
    Spoken own log (phase.sendFailed own e) := by
  cases phase with
  | hello => exact h.fail rfl _
  | refuse peer => exact h.fail rfl _
  | accept peer => exact h.fail rfl _
  | _ => cases hout

/-- The first frame, or none. -/
theorem Spoken.first {log : List PeerEvent} {polled : Polled} {phase : Phase}
    (h : Spoken own log .awaitHello) (hphase : Phase.onFirst own polled = some phase) :
    Spoken own (log ++ polled.seen) phase := by
  rcases onFirst_cases hphase with ⟨msg, rfl, rfl⟩ | ⟨hseen, e, rfl⟩
  · rw [show log = [.sent (.hello own)] from h]
    rcases onPeerMsg_cases own msg with ⟨peer, rfl, hv, he⟩ | ⟨peer, rfl, hv, he⟩ | ⟨_, he⟩
    · rw [he]
      exact ⟨hv, rfl⟩
    · rw [he]
      exact ⟨hv, rfl⟩
    · rw [he]
      exact .inl ⟨msg, List.prefix_rfl⟩
  · rw [hseen, List.append_nil]
    exact h.fail rfl e

/-- A turn of the loop. -/
theorem Spoken.receive {p p' : PeerTask δ} (h : Spoken own p.log p.phase)
    (hstep : p.receive role own backend = some p') : Spoken own p'.log p'.phase := by
  cases hp : p.phase with
  | awaitHello =>
      obtain ⟨phase, hphase, rfl⟩ := PeerTask.receive_first hp hstep
      rw [hp] at h
      exact h.first hphase
  | session peer =>
      have hloop : p.phase.looping = true := by rw [hp]; rfl
      rcases PeerTask.receive_session hp hstep with ⟨msg, rfl⟩ | rfl
      · cases role with
        | server => exact h.append hloop hloop (by simp)
        | client => exact h.append hloop hloop (by simp)
      · rw [← List.append_nil p.log]
        exact h.append hloop rfl fun _ => List.not_mem_nil
  | _ => cases role <;> simp [PeerTask.receive, serverReceive, Client.receive, hp] at hstep

/-- The message in hand is forgotten, or handed to `sink.send`, and then the loop may end. -/
theorem PeerTask.step_forward_cases {p p' : PeerTask δ} {fault : Option Fault}
    (h : p.step role own backend (.forward fault) = some p') :
    ∃ peer msg c, role = .server ∧ p.phase = .session peer ∧ p.capture.inHand = some msg
      ∧ p.capture.step .forward = some c
      ∧ (p' = { p with capture := c }
        ∨ ∃ phase, (phase = p.phase ∨ phase = .ended) ∧ p' = { p with
            capture := c
            phase := phase
            log := p.log ++ [.forwarded msg] }) := by
  obtain ⟨peer, msg, c, hrole, hp, hmsg, hc, rfl⟩ := PeerTask.step_cases h
  refine ⟨peer, msg, c, hrole, hp, hmsg, hc, ?_⟩
  rcases PeerTask.forward_cases { p with capture := c } msg fault with
    ⟨_, he⟩ | ⟨_, phase, hphase, he⟩
  · exact .inl he
  · exact .inr ⟨phase, hphase, he⟩

theorem Spoken.forward {p p' : PeerTask δ} {fault : Option Fault} (h : Spoken own p.log p.phase)
    (hstep : p.step role own backend (.forward fault) = some p') :
    Spoken own p'.log p'.phase := by
  obtain ⟨peer, msg, c, _, hp, _, _, rfl | ⟨phase, hphase, rfl⟩⟩ :=
    PeerTask.step_forward_cases hstep
  · exact h
  · have hloop : p.phase.looping = true := by rw [hp]; rfl
    have hloop' : phase.looping = true := by rcases hphase with rfl | rfl; exacts [hloop, rfl]
    exact h.append hloop hloop' (by simp)

theorem Spoken.step {p p' : PeerTask δ} {a : PeerAction} (h : Spoken own p.log p.phase)
    (hstep : p.step role own backend a = some p') : Spoken own p'.log p'.phase := by
  have hcases := PeerTask.step_cases hstep
  cases a with
  | deliver bytes =>
      obtain ⟨_, rfl⟩ := hcases
      exact h
  | eof =>
      rw [show p' = _ from hcases]
      exact h
  | timeout =>
      obtain ⟨hp, rfl⟩ := hcases
      exact h.fail (by rw [hp]; rfl) .timeout
  | send fault =>
      obtain ⟨msg, hout, rfl | ⟨e, rfl⟩⟩ := hcases
      · exact h.sent hout
      · exact h.sendFailed hout e
  | next => exact h.receive hstep
  | hook call | captureRecv =>
      obtain ⟨_, _, _, _, _, rfl⟩ := PeerTask.captureStep_cases hcases
      exact h
  | forward fault => exact h.forward hstep
  | captureClosed =>
      obtain ⟨peer, _, hp, _, _, rfl⟩ := hcases
      have hloop : p.phase.looping = true := by rw [hp]; rfl
      show Spoken own p.log .ended
      rw [← List.append_nil p.log]
      exact h.append hloop rfl fun _ => List.not_mem_nil

theorem spoken_of_reachable {device : δ} {p : PeerTask δ}
    (h : (peerSystem role own backend device).Reachable p) : Spoken own p.log p.phase :=
  @System.Reachable.invariant _ _ (peerSystem role own backend device)
    (fun p => Spoken own p.log p.phase) rfl (fun _ _ _ hs hstep => hs.step hstep) p h

/-! ## §3. Everything a task writes. -/

/-- Sent by the handshake, or handed to `sink.send` by the loop, also if that failed. -/
def PeerEvent.said? : PeerEvent → Option Message
  | .sent msg => some msg
  | .forwarded msg => some msg
  | _ => none

/-- The task's own messages, in order. -/
def saidOf (log : List PeerEvent) : List Message := log.filterMap PeerEvent.said?

/-- Without the handshake's messages, what is said is what is forwarded. -/
theorem saidOf_eq_forwardedOf {log : List PeerEvent} (h : ∀ msg, .sent msg ∉ log) :
    saidOf log = forwardedOf log := by
  refine List.filterMap_congr ?_
  intro e he
  cases e with
  | sent msg => exact absurd he (h msg)
  | _ => rfl

/-- **EVERYTHING A TASK WRITES**, in either role and whatever the peer sends: its `Hello`,
or nothing yet; then a refusal, to a `Hello` of another version and nothing else; or an
acceptance, to one of its own version, and behind it, from a server, what its hooks have
built, in that order and in part.  So it never writes an `EnterScreen`, a `LeaveScreen`, a
`MouseWarp`, a `ClipboardUpdate`, a `Ping` or a `Pong`, no side button and no horizontal
wheel, and a client writes no input at all. -/
theorem says_grammar (role : Role) (own : Hello) (backend : InputInject δ) (device : δ)
    (p : PeerTask δ) (h : (peerSystem role own backend device).Reachable p) :
    saidOf p.log <+: [.hello own]
      ∨ (∃ peer, peer.protocolVersion ≠ own.protocolVersion
        ∧ receivedOf p.log = [.hello peer]
        ∧ saidOf p.log = [.hello own, .helloAck false
          (some (mismatchReason peer.protocolVersion own.protocolVersion))])
      ∨ ∃ peer rest inputs, peer.protocolVersion = own.protocolVersion
        ∧ receivedOf p.log = .hello peer :: rest
        ∧ saidOf p.log = .hello own :: .helloAck true none :: inputs
        ∧ inputs.Sublist p.capture.built
        ∧ (∀ msg ∈ inputs, Capturable msg)
        ∧ (role = .client → inputs = []) := by
  obtain ⟨as, hrun⟩ := h
  have hinv := peerInv_of_run hrun
  have hspoken := spoken_of_reachable ⟨as, hrun⟩
  have hcapture : captureSystem.Reachable p.capture := ⟨_, hinv.capture⟩
  have hlooped : p.phase.looping = true → ∃ peer rest inputs,
      peer.protocolVersion = own.protocolVersion
        ∧ receivedOf p.log = .hello peer :: rest
        ∧ saidOf p.log = .hello own :: .helloAck true none :: inputs
        ∧ inputs.Sublist p.capture.built
        ∧ (∀ msg ∈ inputs, Capturable msg)
        ∧ (role = .client → inputs = []) := by
    intro hphase
    obtain ⟨peer, more, hv, hlog, hmore⟩ := (Spoken.looping hphase).mp hspoken
    have hsaid : saidOf p.log = .hello own :: .helloAck true none :: p.capture.handed := by
      rw [← hinv.forwarded, hlog]
      show .hello own :: .helloAck true none :: saidOf more = _
      rw [saidOf_eq_forwardedOf hmore]
      rfl
    have hsub := (captureInv_of_reachable hcapture).handed_sublist
    refine ⟨peer, receivedOf more, p.capture.handed, hv, by rw [hlog]; rfl, hsaid, hsub, ?_, ?_⟩
    · intro msg hmsg
      exact plain_of_reachable hcapture msg (hsub.subset hmsg)
    · intro hclient
      rw [hinv.client hclient]
      rfl
  cases hp : p.phase with
  | hello =>
      rw [hp] at hspoken
      rw [show p.log = [] from hspoken]
      exact .inl List.nil_prefix
  | awaitHello =>
      rw [hp] at hspoken
      rw [show p.log = [.sent (.hello own)] from hspoken]
      exact .inl List.prefix_rfl
  | refuse peer =>
      rw [hp] at hspoken
      rw [hspoken.2]
      exact .inl List.prefix_rfl
  | accept peer =>
      rw [hp] at hspoken
      rw [hspoken.2]
      exact .inl List.prefix_rfl
  | failed e =>
      rw [hp] at hspoken
      rcases hspoken with ⟨first, hfirst⟩ | ⟨peer, hv, hlog⟩
      · exact .inl (hfirst.filterMap PeerEvent.said?)
      · rw [hlog]
        exact .inr (.inl ⟨peer, hv, rfl, rfl⟩)
  | session peer => exact .inr (.inr (hlooped (by rw [hp]; rfl)))
  | ended => exact .inr (.inr (hlooped (by rw [hp]; rfl)))

/-- The hotkey and a key, to a peer of the same version: the third case. -/
theorem says_grammar_key :
    ∃ p, (peerSystem .server samePeer keepEvents []).Reachable p
      ∧ ∃ inputs, saidOf p.log = .hello samePeer :: .helloAck true none :: inputs
        ∧ inputs = [.keyEvent 25 true ⟨false, false, false, false⟩]
        ∧ ∀ msg ∈ inputs, Capturable msg := by
  obtain ⟨p, hp⟩ : ∃ p, (peerSystem .server samePeer keepEvents []).run (.new [])
      (refusedThen [] keyForwarded) = some p := ⟨_, rfl⟩
  have hgrammar := says_grammar .server samePeer keepEvents [] p ⟨_, hp⟩
  refine ⟨p, ⟨_, hp⟩, ?_⟩
  cases hp
  rcases hgrammar with hshort | ⟨_, _, _, hrefused⟩ | ⟨_, _, inputs, _, _, hsaid, _, hall, _⟩
  · exact absurd hshort.length_le (by decide)
  · cases hrefused
  · cases hsaid
    exact ⟨_, rfl, rfl, hall⟩

/-! ## §4. What a client of this program has to inject. -/

/-- The press or release of a punctuation key. -/
def Punctuates (msg : Message) : Prop :=
  ∃ vk ∈ punctuation, ∃ code pressed m,
    vkToEvdev vk = some code ∧ msg = .keyEvent code.toUInt32 pressed m

/-- `SendInput` is given all that the message asks for: a movement, the flag of the button, the
notches 120 times each, or the scan code of the key that the hook saw, with its direction. -/
def WinGiven (mapVirtualKeyW : MapVirtualKeyW) (sent : Option Injected) : Message → Prop
  | .mouseMove dx dy => sent = some (WinInject.sendMouse MOUSEEVENTF_MOVE dx dy 0)
  | .mouseButton button pressed => ∃ flags, WinInject.buttonFlags button pressed = some flags
      ∧ sent = some (WinInject.sendMouse flags 0 0 0)
  | .mouseWheel dx dy => dx = 0 ∧ ∃ data : Int32, data.toInt = dy.toInt * 120
      ∧ sent = some (WinInject.sendMouse MOUSEEVENTF_WHEEL 0 0 data)
  | .keyEvent keycode pressed _ => ∃ vk code ki, vkToEvdev vk = some code
      ∧ keycode = code.toUInt32 ∧ sent = some (.key code vk.toUInt16 pressed ki)
      ∧ ki.wScan.toNat = (mapVirtualKeyW vk).toNat
      ∧ ki.dwFlags &&& KEYEVENTF_KEYUP = if pressed then 0 else KEYEVENTF_KEYUP
  | _ => sent = none

/-- What the two backends do with a message that a client handles.  Linux does all that it asks
for, and the virtual device has what the events are about; Windows does so without a panic,
unless the key is punctuation, which it drops. -/
structure Injectable (mapVirtualKeyW : MapVirtualKeyW) (msg : Message) : Prop where
  linux : LinuxExact msg (linuxEvents msg)
  declared : ∀ e ∈ linuxEvents msg, e.declared = true
  clicked : ∀ button pressed, msg = .mouseButton button pressed →
    linuxEvents msg = keyEvents (btnCode button) pressed
  pressed : ∀ keycode pressed m, msg = .keyEvent keycode pressed m →
    ∃ code, linuxEvents msg = keyEvents code pressed ∧ code.toNat = keycode.toNat
  windows : ∀ overflowChecks, ∃ sent,
    WinInject.handle overflowChecks mapVirtualKeyW msg = .ok sent
      ∧ (¬Punctuates msg → WinGiven mapVirtualKeyW sent msg)
      ∧ (Punctuates msg → sent = none)

/-- Every key that is translated is a key of the virtual device. -/
theorem deviceKey_of_vkToEvdev {vk : UInt32} {code : UInt16} (h : vkToEvdev vk = some code) :
    deviceKey code = true := by
  have hall : vkEvdevArms.all (fun arm => deviceKey arm.2) = true := by decide +kernel
  exact List.all_eq_true.mp hall _ (mem_vkEvdevArms h)

/-- A message that is not about a key. -/
theorem Injectable.of_no_key {mapVirtualKeyW : MapVirtualKeyW} {msg : Message}
    (hkey : ∀ keycode pressed m, msg ≠ .keyEvent keycode pressed m)
    (hwindows : ∀ overflowChecks, ∃ sent,
      WinInject.handle overflowChecks mapVirtualKeyW msg = .ok sent
        ∧ WinGiven mapVirtualKeyW sent msg) :
    Injectable mapVirtualKeyW msg where
  linux := linuxEvents_exact msg
  declared := (linuxEvents_declared_iff msg).mpr
    fun keycode pressed m h => absurd h (hkey keycode pressed m)
  clicked := by
    rintro button pressed rfl
    rfl
  pressed := fun keycode pressed m h => absurd h (hkey keycode pressed m)
  windows := by
    intro overflowChecks
    obtain ⟨sent, hsent, hgiven⟩ := hwindows overflowChecks
    refine ⟨sent, hsent, fun _ => hgiven, ?_⟩
    rintro ⟨_, _, code, pressed, m, _, he⟩
    exact absurd he (hkey _ pressed m)

/-- The key of a stroke. -/
theorem Injectable.of_key {mapVirtualKeyW : MapVirtualKeyW}
    (hscan : ∀ vk, (mapVirtualKeyW vk).toNat < 2 ^ 16) {vk : UInt32} {code : UInt16}
    (hcode : vkToEvdev vk = some code) (pressed : Bool) (m : KeyModifiers) :
    Injectable mapVirtualKeyW (.keyEvent code.toUInt32 pressed m) where
  linux := linuxEvents_exact _
  declared := by
    rw [linuxEvents_key]
    exact declared_keyEvents.mpr (deviceKey_of_vkToEvdev hcode)
  clicked := by
    intro button pressed' he
    cases he
  pressed := by
    intro keycode pressed' m' he
    cases he
    exact ⟨code, linuxEvents_key code pressed m, (UInt16.toNat_toUInt32 code).symm⟩
  windows := by
    intro overflowChecks
    refine ⟨_, WinInject.handle_key mapVirtualKeyW overflowChecks code pressed m, ?_, ?_⟩
    · intro hplain
      obtain ⟨hback, hround⟩ := evdevToVk_of_vkToEvdev hcode
      have hkept : vk ∉ punctuation := fun hpunct =>
        hplain ⟨vk, hpunct, code, pressed, m, hcode, rfl⟩
      rw [if_neg hkept] at hback
      obtain ⟨ki, hsent, hscanned, hflags⟩ := sendKey_of_vk mapVirtualKeyW hback pressed
      refine ⟨vk, code, ki, hcode, rfl, hsent, ?_, hflags⟩
      rw [hscanned, hround, UInt32.toNat_toUInt16, Nat.mod_eq_of_lt (hscan vk)]
    · rintro ⟨vk', hpunct, code', pressed', m', hcode', he⟩
      have hsame : code.toUInt32 = code'.toUInt32 := (Message.keyEvent.inj he).1
      have hcodes : code = code' := by
        rw [← UInt16.toUInt16_toUInt32 code, hsame, UInt16.toUInt16_toUInt32]
      have hback := (evdevToVk_of_vkToEvdev hcode').1
      -- `evdev_to_vk` has no arm for it
      rw [if_pos hpunct] at hback
      unfold WinInject.sendKey
      rw [hcodes, hback]

/-- **What the hooks build, the backends inject**, but for the punctuation on Windows. -/
theorem Capturable.injectable {mapVirtualKeyW : MapVirtualKeyW}
    (hscan : ∀ vk, (mapVirtualKeyW vk).toNat < 2 ^ 16) {msg : Message} (h : Capturable msg) :
    Injectable mapVirtualKeyW msg := by
  cases msg with
  | mouseMove dx dy => exact .of_no_key nofun fun _ => ⟨_, rfl, rfl⟩
  | mouseButton button pressed =>
      refine .of_no_key nofun fun _ => ?_
      rcases h with rfl | rfl | rfl <;> cases pressed <;> exact ⟨_, rfl, _, rfl, rfl⟩
  | mouseWheel dx dy =>
      obtain ⟨hdx, hdy⟩ := h
      refine .of_no_key nofun fun overflowChecks => ?_
      have hfits := (fits_wheel_iff dy).mpr (by omega)
      obtain ⟨data, hdata, hprod⟩ := (mulI32_exact_iff overflowChecks dy 120).mpr hfits
      exact ⟨_, CheckedInt.bind_eq_ok_iff.mpr ⟨data, hdata, rfl⟩, hdx, data, hprod, rfl⟩
  | keyEvent keycode pressed m =>
      obtain ⟨vk, code, hcode, rfl⟩ := h
      exact .of_key hscan hcode pressed m
  | _ => exact h.elim

variable {serverOwn clientOwn : Hello}

/-- Reading the flag may end the loop, and reads nothing. -/
theorem Link.forward_frame (l : Link δ) (msg : Message) (capture : Capture)
    (fault : Option Fault) :
    (l.forward msg capture fault).serverFramed = l.serverFramed
      ∧ (l.forward msg capture fault).server.rank ≤ l.server.rank
      ∧ (l.forward msg capture fault).capture = capture := by
  unfold Link.forward
  split_ifs
  · split
    · exact ⟨rfl, Nat.le_refl _, rfl⟩
    · exact ⟨rfl, Nat.zero_le _, rfl⟩
  · exact ⟨rfl, Nat.le_refl _, rfl⟩

/-- A step of the link is a step of its capture side, or leaves that alone. -/
theorem Link.step_capture {l l' : Link δ} {a : LinkAction}
    (h : l.step serverOwn clientOwn backend a = some l') :
    l'.capture = l.capture ∨ ∃ ca, l.capture.step ca = some l'.capture
      ∧ ∀ call, ca = .hook call → a = .hook call := by
  have hcases := Link.step_cases h
  cases a with
  | hook call =>
      obtain ⟨_, c, _, hc, rfl⟩ := hcases
      exact .inr ⟨.hook call, hc, fun _ hcall => by cases hcall; rfl⟩
  | captureRecv =>
      obtain ⟨_, c, _, hc, rfl⟩ := hcases
      exact .inr ⟨.recv, hc, fun _ hcall => by cases hcall⟩
  | forward fault =>
      obtain ⟨_, msg, c, _, _, hc, rfl⟩ := hcases
      rw [(l.forward_frame msg c fault).2.2]
      exact .inr ⟨.forward, hc, fun _ hcall => by cases hcall⟩
  | serverSend fault | clientSend fault =>
      obtain ⟨_, _, ⟨_, _, rfl⟩ | ⟨_, _, _, rfl⟩⟩ := hcases
      · exact .inl rfl
      · exact .inl rfl
  | captureClosed =>
      obtain ⟨_, _, _, _, rfl⟩ := hcases
      exact .inl rfl
  | serverNext =>
      obtain ⟨_, _, _, _, rfl⟩ := hcases
      exact .inl rfl
  | clientNext | serverTimeout | clientTimeout | deliverToClient | deliverToServer =>
      obtain ⟨_, _, rfl⟩ := hcases
      exact .inl rfl
  | clientEof | serverEof =>
      left
      rw [show l' = _ from hcases]

theorem plain_of_link {device : δ} {l : Link δ}
    (h : (linkSystem serverOwn clientOwn backend device).Reachable l) : l.capture.Plain :=
  @System.Reachable.invariant _ _ (linkSystem serverOwn clientOwn backend device)
    (fun l => l.capture.Plain) (fun _ hmsg => absurd hmsg List.not_mem_nil)
    (fun l a l' hs hstep => by
      rcases Link.step_capture hstep with he | ⟨ca, hc, _⟩
      · rw [he]
        exact hs
      · exact hs.step hc) l h

/-- The client has handled nothing, or the answer of the server's handshake and then some of
what was handed to `sink.send`, in that order. -/
theorem LinkInv.handled_inputs {l : Link δ} (h : LinkInv serverOwn l) :
    l.client.handled = [] ∨ ∃ accepted reason inputs,
      l.client.handled = .helloAck accepted reason :: inputs ∧ inputs <+: l.capture.handed := by
  obtain ⟨read, hconveys, hread⟩ := h.conveys
  rcases hread.upTo with hnone | ⟨peer, hpeer⟩
  · exact .inl hnone
  have hreads := hconveys.reads
  rw [hpeer] at hreads
  rcases h.wrote.upTo with hhello | ⟨acc, reason, inputs, hw, hhanded⟩
  · -- nothing behind the `Hello` was written
    have hshort := (hreads.trans hhello).length_le
    simp only [List.length_cons, List.length_nil] at hshort
    exact .inl (List.length_eq_zero_iff.mp (by omega))
  · rw [hw] at hreads
    cases hhandled : l.client.handled with
    | nil => exact .inl rfl
    | cons first rest =>
        rw [hhandled] at hreads
        obtain ⟨rfl, hrest⟩ := List.cons_prefix_cons.mp (List.cons_prefix_cons.mp hreads).2
        exact .inr ⟨acc, reason, rest, rfl, hrest.trans hhanded⟩

/-- What the client handles is the answer of the server's handshake, or was built by a hook. -/
theorem LinkInv.handled_cases {l : Link δ} (h : LinkInv serverOwn l) {msg : Message}
    (hmsg : msg ∈ l.client.handled) :
    (∃ accepted reason, msg = .helloAck accepted reason) ∨ msg ∈ l.capture.built := by
  rcases h.handled_inputs with hnone | ⟨accepted, reason, inputs, hhandled, hhanded⟩
  · rw [hnone] at hmsg
    cases hmsg
  · rw [hhandled] at hmsg
    rcases List.mem_cons.mp hmsg with rfl | hin
    · exact .inl ⟨accepted, reason, rfl⟩
    · exact .inr (h.capture.handed_sublist.subset (hhanded.subset hin))

/-- **WHAT IS LOST IN THE INJECTION** between two parties of this program, in every reachable
state of a session: nothing on Linux, and the punctuation keys on Windows.  Each message the
client has handled is an answer of the handshake, for which there is nothing to do, or was built
by a hook of the server, and either backend injects it in full but for these keys. -/
theorem handled_injectable (mapVirtualKeyW : MapVirtualKeyW)
    (hscan : ∀ vk, (mapVirtualKeyW vk).toNat < 2 ^ 16) (serverOwn clientOwn : Hello)
    (backend : InputInject δ) (device : δ) (l : Link δ)
    (h : (linkSystem serverOwn clientOwn backend device).Reachable l) :
    ∀ msg ∈ l.client.handled,
      ((∃ accepted reason, msg = .helloAck accepted reason)
          ∨ msg ∈ l.capture.built ∧ Capturable msg)
        ∧ Injectable mapVirtualKeyW msg := by
  intro msg hmsg
  rcases (linkInv_of_reachable h).handled_cases hmsg with ⟨acc, reason, rfl⟩ | hbuilt
  · exact ⟨.inl ⟨acc, reason, rfl⟩, .of_no_key nofun fun _ => ⟨none, rfl, rfl⟩⟩
  · have hplain := plain_of_link h msg hbuilt
    exact ⟨.inr ⟨hbuilt, hplain⟩, hplain.injectable hscan⟩

/-- The key behind the handshake is pressed, on a Linux client and on a Windows client. -/
theorem handled_injectable_key :
    let msg := Message.keyEvent 25 true ⟨false, false, false, false⟩
    (∃ code, linuxEvents msg = keyEvents code true ∧ code.toNat = 25)
      ∧ ∃ sent, WinInject.handle true scanAB msg = .ok sent ∧ WinGiven scanAB sent msg := by
  intro msg
  obtain ⟨l, hl⟩ : ∃ l, (linkSystem (ourHello Uuid.nil "server" ⟨1920, 1080⟩)
      (ourHello Uuid.nil "client" ⟨1920, 1080⟩) ⟨fun _ _ => (.ok (), ())⟩ ()).run
        (.new ()) keyBehindHandshake = some l := ⟨_, rfl⟩
  have hall := handled_injectable scanAB scanAB_lt _ _ _ _ l ⟨_, hl⟩
  cases hl
  have hinjected := (hall msg (List.mem_cons_of_mem _ List.mem_cons_self)).2
  have hplain : ¬Punctuates msg := by
    rintro ⟨vk, hpunct, code, _, _, hcode, he⟩
    have hplain : punctuation.all (fun vk =>
        (vkToEvdev vk).map UInt16.toUInt32 != some 25) = true := by decide +kernel
    have hne := List.all_eq_true.mp hplain vk hpunct
    rw [hcode, Option.map_some, ← (Message.keyEvent.inj he).1] at hne
    exact absurd hne (by decide)
  obtain ⟨sent, hsent, hgiven, _⟩ := hinjected.windows true
  exact ⟨hinjected.pressed 25 true _ rfl, sent, hsent, hgiven hplain⟩

end Dshare.Session
