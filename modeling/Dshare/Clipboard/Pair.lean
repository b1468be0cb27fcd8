/-
  Dshare.Clipboard.Pair
  ─────────────────────
  **TWO CLIPBOARDS AT REST.**

  Each clipboard's watcher sends to the other's `apply`, in order.  A poll, an
  apply and a copy are single steps here.  The pair carries a `Replicas.Link`: its
  inboxes are the messages in flight, its logs only record what was done.

    • `Synced.text` — a clipboard whose watcher owes nothing holds the text it sent
      or applied last;
    • `agree_or_crossed` — at rest the two hold the same text, unless their last
      updates crossed in flight, and then each holds the other's.
-/
import Mathlib.Data.Set.Function
import Dshare.Lib.Replicas
import Dshare.Clipboard.Broadcast

namespace Dshare

open Replicas Transition Dshare.Protocol

/-! ## §1. The pair. -/

structure Pair where
  clip : Bool → Clipboard
  link : Link Message

inductive PairAction where
  | copy (b : Bool) (text : String)
  | poll (b : Bool)
  /-- The oldest message in flight to `b` is applied there. -/
  | deliver (b : Bool)

def Pair.set (s : Pair) (b : Bool) (c : Clipboard) : Pair :=
  { s with clip := Function.update s.clip b c }

variable (hashStr : String → UInt64)

def Pair.step (s : Pair) : PairAction → Option Pair
  | .copy b text => some (s.set b ((s.clip b).copy text))
  | .poll b =>
      match (s.clip b).poll hashStr with
      | (none, c) => some (s.set b c)
      | (some msg, c) => some { s.set b c with link := s.link.send b msg }
  | .deliver b =>
      match s.link.receive b with
      | none => none
      | some (msg, link) => some { s.set b ((s.clip b).apply hashStr msg) with link := link }

/-- Two clipboards, on systems that hold the given texts. -/
def pair (texts : Bool → Option String) : System Pair PairAction :=
  ⟨⟨fun b => .new (texts b), .new⟩, Pair.step hashStr⟩

/-- No message is in flight, and neither watcher owes one. -/
def Pair.Quiescent (s : Pair) : Prop :=
  ∀ b, s.link.inbox b = []
    ∧ ∀ text, (s.clip b).text = some text → hashStr text = (s.clip b).lastHash

/-! ## §2. One side. -/

variable {hashStr} {T : Set String}

variable (hashStr T) in
/-- A clipboard with texts in `T` that sent or applied `held` last. -/
structure Synced (c : Clipboard) (held : Option Message) : Prop where
  text : ∀ text, c.text = some text → text ∈ T
  hash : match held with
    | none => c.lastHash = 0
    | some msg => ∃ text ∈ T, msg = updateOf text ∧ c.lastHash = hashStr text ∧ c.text ≠ none

/-- **At rest, a clipboard holds the text it sent or applied last**, if any. -/
theorem Synced.text_eq {c : Clipboard} {held : Option Message} (h : Synced hashStr T c held)
    (hinj : Set.InjOn hashStr T) (hzero : ∀ text ∈ T, hashStr text ≠ 0)
    (hrest : ∀ text, c.text = some text → hashStr text = c.lastHash) :
    c.text.map updateOf = held := by
  have hhash := h.hash
  cases htext : c.text with
  | none =>
      cases held with
      | none => rfl
      | some msg =>
          obtain ⟨_, _, _, _, hsome⟩ := hhash
          exact absurd htext hsome
  | some text =>
      have hmem := h.text text htext
      have heq := hrest text htext
      cases held with
      -- a watcher that never sent compares with `0`
      | none => exact absurd (heq.trans hhash) (hzero text hmem)
      | some msg =>
          obtain ⟨last, hlast, rfl, hh, -⟩ := hhash
          rw [hinj hmem hlast (heq.trans hh)]
          rfl

theorem Synced.copy {c : Clipboard} {held : Option Message} (h : Synced hashStr T c held)
    {text : String} (hmem : text ∈ T) : Synced hashStr T (c.copy text) held := by
  refine ⟨fun t ht => ?_, ?_⟩
  · cases ht
    exact hmem
  · have hhash := h.hash
    cases held with
    | none => exact hhash
    | some msg =>
        obtain ⟨last, hlast, hmsg, hh, -⟩ := hhash
        exact ⟨last, hlast, hmsg, hh, nofun⟩

variable (hashStr) in
theorem synced_apply (c : Clipboard) {text : String} (hmem : text ∈ T) :
    Synced hashStr T (c.apply hashStr (updateOf text)) (some (updateOf text)) := by
  rw [Clipboard.apply_updateOf]
  refine ⟨fun t ht => ?_, text, hmem, rfl, rfl, nofun⟩
  cases ht
  exact hmem

variable (hashStr) in
/-- A poll sends the clipboard's text, or nothing and changes nothing. -/
theorem Clipboard.poll_cases (c : Clipboard) :
    c.poll hashStr = (none, c)
      ∨ ∃ text, c.text = some text
        ∧ c.poll hashStr = (some (updateOf text), { c with lastHash := hashStr text }) := by
  unfold poll
  cases htext : c.text with
  | none => exact .inl rfl
  | some text =>
      by_cases h : c.lastHash = hashStr text
      · exact .inl (if_pos h)
      · exact .inr ⟨text, rfl, if_neg h⟩

theorem Synced.poll {c : Clipboard} {held : Option Message} (h : Synced hashStr T c held)
    {text : String} (htext : c.text = some text) :
    Synced hashStr T { c with lastHash := hashStr text } (some (updateOf text)) :=
  ⟨h.text, text, h.text text htext, rfl, rfl, by simp [htext]⟩

/-! ## §3. Both sides. -/

variable (hashStr T) in
/-- What every order of copies, polls and deliveries keeps. -/
structure PairInv (s : Pair) : Prop where
  link : s.link.Coherent
  synced : ∀ b, Synced hashStr T (s.clip b) (s.link.held b)
  inFlight : ∀ b, ∀ msg ∈ s.link.inbox b, ∃ text ∈ T, msg = updateOf text

theorem PairInv.new {texts : Bool → Option String}
    (htexts : ∀ b text, texts b = some text → text ∈ T) :
    PairInv hashStr T (pair hashStr texts).init :=
  ⟨.new, fun b => ⟨htexts b, rfl⟩, fun _ _ hmem => nomatch hmem⟩

/-- The other side is where it was. -/
theorem PairInv.synced_set {s : Pair} (h : PairInv hashStr T s) {b : Bool} {c : Clipboard}
    {link : Link Message} (hc : Synced hashStr T c (link.held b))
    (hother : link.held (!b) = s.link.held !b) (d : Bool) :
    Synced hashStr T ((s.set b c).clip d) (link.held d) := by
  obtain rfl | rfl := eq_or_eq_not d b
  · simpa [Pair.set] using hc
  · rw [hother]
    simpa [Pair.set] using h.synced !b

theorem PairInv.copy {s : Pair} (h : PairInv hashStr T s) (b : Bool) {text : String}
    (hmem : text ∈ T) : PairInv hashStr T (s.set b ((s.clip b).copy text)) :=
  ⟨h.link, h.synced_set ((h.synced b).copy hmem) rfl, h.inFlight⟩

theorem PairInv.poll {s s' : Pair} (h : PairInv hashStr T s) {b : Bool}
    (hstep : s.step hashStr (.poll b) = some s') : PairInv hashStr T s' := by
  unfold Pair.step at hstep
  rcases (s.clip b).poll_cases hashStr with hpoll | ⟨text, htext, hpoll⟩
  · simp only [hpoll] at hstep
    cases hstep
    exact ⟨h.link, h.synced_set (h.synced b) rfl, h.inFlight⟩
  · -- the text is sent, and is now the one held
    simp only [hpoll] at hstep
    cases hstep
    have hsynced := (h.synced b).poll htext
    refine ⟨h.link.send b _, h.synced_set (by rwa [Link.held_send]) (Link.held_send_not ..), ?_⟩
    intro d msg hmem
    obtain rfl | rfl := eq_or_eq_not d b
    · exact h.inFlight d msg (by simpa using hmem)
    · rw [Link.send_inbox_not, List.mem_append, List.mem_singleton] at hmem
      rcases hmem with hmem | rfl
      · exact h.inFlight (!b) msg hmem
      · exact ⟨text, (h.synced b).text text htext, rfl⟩

theorem PairInv.deliver {s s' : Pair} (h : PairInv hashStr T s) {b : Bool}
    (hstep : s.step hashStr (.deliver b) = some s') : PairInv hashStr T s' := by
  unfold Pair.step at hstep
  cases hrecv : s.link.receive b with
  | none =>
      simp only [hrecv] at hstep
      cases hstep
  | some p =>
      obtain ⟨msg, link⟩ := p
      simp only [hrecv] at hstep
      cases hstep
      have hcoherent := h.link.receive hrecv
      obtain ⟨rest, hin, rfl⟩ := Link.receive_eq_some.mp hrecv
      obtain ⟨text, hmem, rfl⟩ := h.inFlight b msg (hin ▸ List.mem_cons_self)
      -- whatever the clipboard held, the update replaces it
      have hsynced := synced_apply hashStr (s.clip b) hmem
      refine ⟨hcoherent, h.synced_set (by rwa [Link.held_afterReceive])
        (Link.held_afterReceive_not ..), ?_⟩
      intro d m hm
      obtain rfl | rfl := eq_or_eq_not d b
      · rw [Link.afterReceive_inbox] at hm
        exact h.inFlight d m (hin ▸ List.mem_cons_of_mem _ hm)
      · exact h.inFlight (!b) m (by simpa using hm)

theorem PairInv.step {s s' : Pair} {a : PairAction} (h : PairInv hashStr T s)
    (hcopy : ∀ b text, a = .copy b text → text ∈ T) (hstep : s.step hashStr a = some s') :
    PairInv hashStr T s' := by
  cases a with
  | copy b text =>
      cases hstep
      exact h.copy b (hcopy b text rfl)
  | poll b => exact h.poll hstep
  | deliver b => exact h.deliver hstep

/-! ## §4. At rest. -/

/-- **Two clipboards at rest agree, or their last updates crossed**, and then each holds the
text the other sent last. -/
theorem agree_or_crossed (hinj : Set.InjOn hashStr T) (hzero : ∀ text ∈ T, hashStr text ≠ 0)
    {texts : Bool → Option String} (htexts : ∀ b text, texts b = some text → text ∈ T)
    {as : List PairAction} (hcopies : ∀ b text, .copy b text ∈ as → text ∈ T) {s : Pair}
    (hrun : (pair hashStr texts).run (pair hashStr texts).init as = some s)
    (hrest : s.Quiescent hashStr) :
    (¬ s.link.Crossed → (s.clip true).text = (s.clip false).text)
      ∧ (s.link.Crossed → ∀ b, (s.clip b).text.map updateOf = s.link.lastSent !b) := by
  have hinv : PairInv hashStr T s := by
    -- along the run, of the copies made so far
    refine System.run_history
      (I := fun as s => (∀ b text, .copy b text ∈ as → text ∈ T) → PairInv hashStr T s)
      (fun _ => .new htexts) ?_ hrun hcopies
    intro as s a s' h hstep hmem
    refine (h fun b text hb => hmem b text (List.mem_append_left _ hb)).step ?_ hstep
    intro b text ha
    exact hmem b text (by simp [ha])
  have hheld : ∀ b, (s.clip b).text.map updateOf = s.link.held b :=
    fun b => (hinv.synced b).text_eq hinj hzero (hrest b).2
  obtain ⟨hagree, hcrossed⟩ := hinv.link.agree fun b => (hrest b).1
  constructor
  · intro hno
    refine Option.map_injective (fun _ _ => updateOf_injective) ?_
    rw [hheld true, hheld false]
    exact hagree hno
  · intro hyes b
    rw [hheld b]
    exact hcrossed hyes b

/-- Two texts that were there before, polled on both sides before either is delivered: the
clipboards end up exchanged. -/
theorem first_polls_cross :
    let hashStr : String → UInt64 := fun text => if text = "a" then 1 else 2
    let texts : Bool → Option String := fun b => if b then some "a" else some "b"
    Set.InjOn hashStr {"a", "b"} ∧ (∀ text ∈ ({"a", "b"} : Set String), hashStr text ≠ 0)
      ∧ (∀ b text, texts b = some text → text ∈ ({"a", "b"} : Set String))
      ∧ ∃ s, (pair hashStr texts).run (pair hashStr texts).init
          [.poll true, .poll false, .deliver true, .deliver false] = some s
        ∧ s.Quiescent hashStr ∧ (s.clip true).text = some "b" ∧ (s.clip false).text = some "a" := by
  intro hashStr texts
  refine ⟨?_, ?_, ?_, ?_⟩
  · simp [Set.InjOn, hashStr]
  · simp [hashStr]
  · simp [texts]
  · have happly := Clipboard.apply_updateOf hashStr
    have hrest : ∀ c t text, (Clipboard.apply hashStr c (updateOf t)).text = some text →
        hashStr text = (Clipboard.apply hashStr c (updateOf t)).lastHash := by
      intro c t text htext
      rw [happly] at htext ⊢
      cases htext
      rfl
    refine ⟨_, rfl, ?_, congrArg Clipboard.text (happly _ "b"),
      congrArg Clipboard.text (happly _ "a")⟩
    intro b
    cases b with
    | true => exact ⟨rfl, hrest _ "b"⟩
    | false => exact ⟨rfl, hrest _ "a"⟩

/-- One copy, polled and delivered. -/
theorem agree_or_crossed_one_copy :
    let hashStr : String → UInt64 := fun _ => 1
    let as : List PairAction := [.copy true "a", .poll true, .deliver false]
    ∃ s, (pair hashStr fun _ => none).run (pair hashStr fun _ => none).init as = some s
      ∧ (s.clip true).text = (s.clip false).text := by
  intro hashStr as
  have hcopies : ∀ b text, .copy b text ∈ as → text ∈ ({"a"} : Set String) := by
    intro b text hmem
    simp only [as, List.mem_cons, PairAction.copy.injEq, reduceCtorEq, List.not_mem_nil,
      or_false] at hmem
    exact hmem.2
  have happly := Clipboard.apply_updateOf hashStr
  obtain ⟨s, hs⟩ : ∃ s, (pair hashStr fun _ => none).run (pair hashStr fun _ => none).init as
      = some s := ⟨_, rfl⟩
  have hzero : ∀ text ∈ ({"a"} : Set String), hashStr text ≠ 0 := by simp [hashStr]
  have htexts : ∀ (b : Bool) text, none = some text → text ∈ ({"a"} : Set String) := by simp
  have hagree := agree_or_crossed (Set.injOn_singleton _ _) hzero htexts hcopies hs
  cases hs
  refine ⟨_, rfl, (hagree ?_).1 ?_⟩
  · intro b
    cases b with
    | true => exact ⟨rfl, fun _ _ => rfl⟩
    | false => exact ⟨rfl, fun _ _ => (congrArg Clipboard.lastHash (happly _ "a")).symm⟩
  · intro hcrossed
    obtain ⟨msg, hmsg⟩ := hcrossed true
    exact nomatch (show some (Event.sent (updateOf "a")) = some (.received msg) from hmsg)

end Dshare
