/-
  Dshare.Lib.StreamDecoder
  ────────────────────────
  **INCREMENTAL DECODERS OVER A CHUNKED STREAM.**

  A decoder looks at the buffered elements and answers that it needs `more`,
  that the buffer starts with an `item` (and what is left behind it), or that it
  gives up for good (`stop`).  What makes it usable on a stream that arrives in
  pieces is PREFIX STABILITY: an item or a stop that is recognised on a buffer is
  recognised on every longer buffer.

    • `drain` — decode until `more` or `stop`;
    • `readChunks` — append a chunk, drain, and so on;
    • `readChunks_agrees` — the chunking does not matter;
    • `Framing` — a writer whose frames the decoder recognises at once and not
      earlier, and `drain_prefix`: what is read from any prefix of a written
      stream;
    • `Conveys` — writer, pipe and reader taking turns;
    • `Took` — a reader that takes one item at a time.
-/
import Mathlib.Data.List.Infix

namespace StreamDecoder

variable {β ω ε : Type}

/-! ## §1. Decoders and one round of decoding. -/

/-- The answer of one decoding step on a buffer. -/
inductive Answer (β ω ε : Type)
  | more
  | item (o : ω) (rest : List β)
  | stop (e : ε)

/-- A prefix-stable decoding step. -/
structure Decoder (β ω ε : Type) where
  step : List β → Answer β ω ε
  step_nil : step [] = .more
  item_shorter : ∀ {b o rest}, step b = .item o rest → rest.length < b.length
  item_append : ∀ {b o rest} (c : List β), step b = .item o rest →
    step (b ++ c) = .item o (rest ++ c)
  stop_append : ∀ {b e} (c : List β), step b = .stop e → step (b ++ c) = .stop e

/-- What a reader holds: the items so far, the undecoded remainder, and whether
it has stopped for good. -/
structure Drained (β ω ε : Type) where
  outs : List ω
  rest : List β
  stopped : Option ε

/-- Decode until the decoder wants more or stops. -/
def Decoder.drain (d : Decoder β ω ε) (b : List β) : Drained β ω ε :=
  match _h : d.step b with
  | .more => ⟨[], b, none⟩
  | .stop e => ⟨[], b, some e⟩
  | .item o rest =>
      let r := d.drain rest
      ⟨o :: r.outs, r.rest, r.stopped⟩
  termination_by b.length
  decreasing_by exact d.item_shorter _h

theorem Decoder.drain_more {d : Decoder β ω ε} {b : List β} (h : d.step b = .more) :
    d.drain b = ⟨[], b, none⟩ := by
  rw [Decoder.drain]
  split <;> simp_all

theorem Decoder.drain_stop {d : Decoder β ω ε} {b : List β} {e : ε}
    (h : d.step b = .stop e) : d.drain b = ⟨[], b, some e⟩ := by
  rw [Decoder.drain]
  split <;> simp_all

theorem Decoder.drain_item {d : Decoder β ω ε} {b rest : List β} {o : ω}
    (h : d.step b = .item o rest) :
    d.drain b = ⟨o :: (d.drain rest).outs, (d.drain rest).rest, (d.drain rest).stopped⟩ := by
  rw [Decoder.drain]
  split <;> simp_all

@[simp] theorem Decoder.drain_nil (d : Decoder β ω ε) : d.drain [] = ⟨[], [], none⟩ :=
  d.drain_more d.step_nil

/-- **Induction along the items of a buffer.** -/
theorem Decoder.drain_induction (d : Decoder β ω ε) {P : List β → Prop}
    (hmore : ∀ b, d.step b = .more → P b)
    (hstop : ∀ b e, d.step b = .stop e → P b)
    (hitem : ∀ b o rest, d.step b = .item o rest → P rest → P b) (b : List β) : P b := by
  generalize hn : b.length = n
  induction n using Nat.strongRecOn generalizing b with
  | ind n ih =>
      cases hs : d.step b with
      | more => exact hmore b hs
      | stop e => exact hstop b e hs
      | item o rest =>
          have hlt := d.item_shorter hs
          exact hitem b o rest hs (ih rest.length (by omega) rest rfl)

/-- A drained buffer that has not stopped wants more. -/
theorem Decoder.step_rest (d : Decoder β ω ε) (b : List β)
    (h : (d.drain b).stopped = none) : d.step (d.drain b).rest = .more := by
  induction b using d.drain_induction with
  | hmore b hs => rw [d.drain_more hs]; exact hs
  | hstop b e hs => rw [d.drain_stop hs] at h; cases h
  | hitem b o rest hs ih => rw [d.drain_item hs] at h ⊢; exact ih h

/-! ## §2. Appending to a drained buffer. -/

/-- Bytes that arrive after a round without a stop continue from the remainder. -/
theorem Decoder.drain_append (d : Decoder β ω ε) (b c : List β)
    (h : (d.drain b).stopped = none) :
    d.drain (b ++ c) =
      ⟨(d.drain b).outs ++ (d.drain ((d.drain b).rest ++ c)).outs,
        (d.drain ((d.drain b).rest ++ c)).rest,
        (d.drain ((d.drain b).rest ++ c)).stopped⟩ := by
  induction b using d.drain_induction with
  | hmore b hs => rw [d.drain_more hs]; rfl
  | hstop b e hs => rw [d.drain_stop hs] at h; cases h
  | hitem b o rest hs ih =>
      rw [d.drain_item hs] at h
      rw [d.drain_item (d.item_append c hs), ih h, d.drain_item hs]
      rfl

/-- After a stop, nothing that arrives changes the outcome. -/
theorem Decoder.drain_append_stopped (d : Decoder β ω ε) (b c : List β) (e : ε)
    (h : (d.drain b).stopped = some e) :
    d.drain (b ++ c) = ⟨(d.drain b).outs, (d.drain b).rest ++ c, some e⟩ := by
  induction b using d.drain_induction with
  | hmore b hs => rw [d.drain_more hs] at h; cases h
  | hstop b e' hs =>
      rw [d.drain_stop hs] at h ⊢
      cases h
      exact d.drain_stop (d.stop_append c hs)
  | hitem b o rest hs ih =>
      rw [d.drain_item hs] at h
      rw [d.drain_item (d.item_append c hs), ih h, d.drain_item hs]

/-! ## §3. Reading in chunks. -/

/-- One arriving chunk: append it, drain; a stopped reader ignores it. -/
def Decoder.feed (d : Decoder β ω ε) (s : Drained β ω ε) (c : List β) : Drained β ω ε :=
  match s.stopped with
  | some _ => s
  | none =>
      let r := d.drain (s.rest ++ c)
      ⟨s.outs ++ r.outs, r.rest, r.stopped⟩

/-- A whole run of a reader over the chunks of a stream. -/
def Decoder.readChunks (d : Decoder β ω ε) (cs : List (List β)) : Drained β ω ε :=
  cs.foldl d.feed ⟨[], [], none⟩

/-- A reader that has seen exactly the bytes `b`, however they were cut. -/
structure Agrees (d : Decoder β ω ε) (s : Drained β ω ε) (b : List β) : Prop where
  outs : s.outs = (d.drain b).outs
  stopped : s.stopped = (d.drain b).stopped
  rest : s.stopped = none → s.rest = (d.drain b).rest

theorem Agrees.feed {d : Decoder β ω ε} {s : Drained β ω ε} {b : List β}
    (h : Agrees d s b) (c : List β) : Agrees d (d.feed s c) (b ++ c) := by
  obtain ⟨ho, hst, hr⟩ := h
  unfold Decoder.feed
  cases hs : s.stopped with
  | some e =>
      rw [hs] at hst
      have hd := d.drain_append_stopped b c e hst.symm
      exact ⟨by rw [hd, ho], by rw [hd, hs], fun hn => by rw [hs] at hn; cases hn⟩
  | none =>
      have hd := d.drain_append b c (by rw [← hst, hs])
      simp only [hr hs]
      exact ⟨by rw [hd, ho], by rw [hd], fun _ => by rw [hd]⟩

theorem Agrees.foldl {d : Decoder β ω ε} (cs : List (List β)) :
    ∀ {s : Drained β ω ε} {b : List β}, Agrees d s b →
      Agrees d (cs.foldl d.feed s) (b ++ cs.flatten) := by
  induction cs with
  | nil => intro s b h; simpa using h
  | cons c cs ih =>
      intro s b h
      have := ih (h.feed c)
      rwa [List.append_assoc] at this

/-- **However the stream is cut into chunks, the reader sees the same items.** -/
theorem Decoder.readChunks_agrees (d : Decoder β ω ε) (cs : List (List β)) :
    Agrees d (d.readChunks cs) cs.flatten := by
  have h0 : Agrees d (⟨[], [], none⟩ : Drained β ω ε) [] :=
    ⟨by simp, by simp, fun _ => by simp⟩
  exact Agrees.foldl cs h0

/-- Two chunkings of one stream: same items, same stop, and the same remainder
unless the reader stopped. -/
theorem Decoder.readChunks_congr (d : Decoder β ω ε) (cs cs' : List (List β))
    (h : cs.flatten = cs'.flatten) :
    (d.readChunks cs).outs = (d.readChunks cs').outs
      ∧ (d.readChunks cs).stopped = (d.readChunks cs').stopped
      ∧ ((d.readChunks cs).stopped = none →
          (d.readChunks cs).rest = (d.readChunks cs').rest) := by
  have h₁ := d.readChunks_agrees cs
  have h₂ := d.readChunks_agrees cs'
  rw [h] at h₁
  have hst := h₁.stopped.trans h₂.stopped.symm
  exact ⟨h₁.outs.trans h₂.outs.symm, hst,
    fun hn => (h₁.rest hn).trans (h₂.rest (hst ▸ hn)).symm⟩

/-! ## §4. Writers. -/

/-- A writer for a decoder: a frame is recognised as soon as it is complete,
whatever follows it, and no proper prefix of it is taken for anything. -/
structure Framing (d : Decoder β ω ε) (α : Type) where
  ok : α → Prop
  frame : α → List β
  out : α → ω
  step_frame : ∀ a c, ok a → d.step (frame a ++ c) = .item (out a) c
  step_partial : ∀ a p, ok a → p <+: frame a → p ≠ frame a → d.step p = .more

variable {α : Type} {d : Decoder β ω ε}

/-- The frames of a list, one after the other. -/
def Framing.stream (F : Framing d α) (as : List α) : List β := as.flatMap F.frame

@[simp] theorem Framing.stream_nil (F : Framing d α) : F.stream [] = [] := rfl

@[simp] theorem Framing.stream_cons (F : Framing d α) (a : α) (as : List α) :
    F.stream (a :: as) = F.frame a ++ F.stream as := rfl

theorem Framing.stream_append (F : Framing d α) (as bs : List α) :
    F.stream (as ++ bs) = F.stream as ++ F.stream bs := List.flatMap_append

theorem Framing.frame_ne_nil (F : Framing d α) {a : α} (ha : F.ok a) : F.frame a ≠ [] := by
  intro h
  have := F.step_frame a [] ha
  rw [h, List.append_nil, d.step_nil] at this
  cases this

/-- **One decoding step on a prefix of a written stream**: it wants more because
the first frame is not complete, or it yields the first element written. -/
theorem Framing.step_of_prefix (F : Framing d α) {as : List α} (hok : ∀ a ∈ as, F.ok a)
    {b : List β} (hb : b <+: F.stream as) :
    (d.step b = .more ∧ ∀ a as', as = a :: as' → b.length < (F.frame a).length)
      ∨ ∃ a as' rest, as = a :: as' ∧ b = F.frame a ++ rest
          ∧ d.step b = .item (F.out a) rest ∧ rest <+: F.stream as' := by
  cases as with
  | nil =>
      left
      rw [List.prefix_nil.mp hb]
      exact ⟨d.step_nil, fun a as' h => by cases h⟩
  | cons a as =>
      rw [F.stream_cons] at hb
      have ha : F.ok a := hok a List.mem_cons_self
      by_cases hlen : (F.frame a).length ≤ b.length
      · right
        obtain ⟨rest, rfl⟩ := List.prefix_of_prefix_length_le (List.prefix_append _ _) hb hlen
        exact ⟨a, as, rest, rfl, rfl, F.step_frame a rest ha,
          (List.prefix_append_right_inj _).mp hb⟩
      · left
        have hpre : b <+: F.frame a :=
          List.prefix_of_prefix_length_le hb (List.prefix_append _ _) (by omega)
        have hne : b ≠ F.frame a := by
          intro heq
          rw [heq] at hlen
          exact hlen (Nat.le_refl _)
        refine ⟨F.step_partial a b ha hpre hne, ?_⟩
        intro a' as' h
        cases h
        omega

/-- The elements whose whole frame lies in the first `n` positions of the stream. -/
def Framing.within (F : Framing d α) : Nat → List α → List α
  | _, [] => []
  | n, a :: as =>
      if (F.frame a).length ≤ n then a :: F.within (n - (F.frame a).length) as else []

theorem Framing.within_frame (F : Framing d α) (a : α) (as : List α) (rest : List β) :
    F.within (F.frame a ++ rest).length (a :: as) = a :: F.within rest.length as := by
  have hle : (F.frame a).length ≤ (F.frame a ++ rest).length := by
    rw [List.length_append]
    omega
  have hsub : (F.frame a ++ rest).length - (F.frame a).length = rest.length := by
    rw [List.length_append]
    omega
  rw [within, if_pos hle, hsub]

/-- **Draining a prefix of a written stream** yields the elements whose whole
frame lies inside the prefix, and leaves what is behind the last of them. -/
theorem Framing.drain_prefix (F : Framing d α) (as : List α) (hok : ∀ a ∈ as, F.ok a) :
    ∀ p : List β, p <+: F.stream as →
      d.drain p = ⟨(F.within p.length as).map F.out,
        p.drop (F.stream (F.within p.length as)).length, none⟩ := by
  induction as with
  | nil =>
      intro p hp
      rw [List.prefix_nil.mp hp]
      simp [within]
  | cons a as ih =>
      intro p hp
      rcases F.step_of_prefix hok hp with ⟨hmore, hlt⟩ | ⟨a', as', rest, hcons, hp', hitem, hrest⟩
      · have hn : ¬ (F.frame a).length ≤ p.length := by
          have := hlt a as rfl
          omega
        rw [d.drain_more hmore]
        simp [within, hn]
      · cases hcons
        have hih := ih (fun x hx => hok x (List.mem_cons_of_mem _ hx)) rest hrest
        rw [d.drain_item hitem, hih, hp', F.within_frame, F.stream_cons, List.map_cons,
          List.length_append, List.drop_length_add_append]

/-- What lies in the first positions was written first. -/
theorem Framing.within_prefix (F : Framing d α) (n : Nat) (as : List α) :
    F.within n as <+: as := by
  induction as generalizing n with
  | nil => exact List.nil_prefix
  | cons a as ih =>
      unfold within
      by_cases h : (F.frame a).length ≤ n
      · rw [if_pos h]
        exact (List.prefix_cons_inj a).mpr (ih _)
      · rw [if_neg h]
        exact List.nil_prefix

/-- Every element's frame lies in the whole stream. -/
theorem Framing.within_stream (F : Framing d α) (as : List α) :
    F.within (F.stream as).length as = as := by
  induction as with
  | nil => rfl
  | cons a as ih => rw [F.stream_cons, F.within_frame, ih]

/-- The positions at which no frame is cut. -/
def Framing.Boundary (F : Framing d α) (as : List α) (n : Nat) : Prop :=
  ∃ k, k ≤ as.length ∧ n = (F.stream (as.take k)).length

/-- Nothing is left undecoded exactly at the boundaries. -/
theorem Framing.drop_within_eq_nil (F : Framing d α) (as : List α) (hok : ∀ a ∈ as, F.ok a) :
    ∀ p : List β, p <+: F.stream as →
      (p.drop (F.stream (F.within p.length as)).length = [] ↔ F.Boundary as p.length) := by
  induction as with
  | nil =>
      intro p hp
      rw [List.prefix_nil.mp hp]
      exact ⟨fun _ => ⟨0, Nat.le_refl _, rfl⟩, fun _ => rfl⟩
  | cons a as ih =>
      intro p hp
      have ha : F.frame a ≠ [] := F.frame_ne_nil (hok a List.mem_cons_self)
      have hpos : 0 < (F.frame a).length := List.length_pos_of_ne_nil ha
      rcases F.step_of_prefix hok hp with ⟨_, hlt⟩ | ⟨a', as', rest, hcons, rfl, _, hrest⟩
      · have hn : ¬ (F.frame a).length ≤ p.length := by
          have := hlt a as rfl
          omega
        simp only [within, if_neg hn, F.stream_nil, List.length_nil, List.drop_zero]
        constructor
        · intro hnil
          rw [hnil]
          exact ⟨0, Nat.zero_le _, rfl⟩
        · intro hbound
          obtain ⟨k, _, hk⟩ := hbound
          cases k with
          | zero => exact List.eq_nil_of_length_eq_zero hk
          | succ k =>
              rw [List.take_succ_cons, F.stream_cons, List.length_append] at hk
              omega
      · cases hcons
        have hih := ih (fun x hx => hok x (List.mem_cons_of_mem _ hx)) rest hrest
        rw [F.within_frame, F.stream_cons, List.length_append, List.drop_length_add_append, hih]
        unfold Boundary
        simp only [List.length_append]
        constructor
        · intro hbound
          obtain ⟨k, hk, heq⟩ := hbound
          refine ⟨k + 1, Nat.succ_le_succ hk, ?_⟩
          rw [List.take_succ_cons, F.stream_cons, List.length_append, heq]
        · intro hbound
          obtain ⟨k, hk, heq⟩ := hbound
          cases k with
          | zero =>
              simp only [List.take_zero, F.stream_nil, List.length_nil] at heq
              omega
          | succ k =>
              rw [List.take_succ_cons, F.stream_cons, List.length_append] at heq
              exact ⟨k, Nat.le_of_succ_le_succ hk, by omega⟩

/-! ## §5. A pipe between a writer and a reader. -/

/-- What a pipe has conveyed.  The elements `written` begin with those `read`; of
their stream, `arrived` has come out of the pipe and `inFlight` is still inside; the
reader has decoded what arrived but for its `buffer`. -/
structure Conveys (F : Framing d α) (written read : List α) (arrived buffer inFlight : List β) :
    Prop where
  ok : ∀ a ∈ written, F.ok a
  sent : arrived ++ inFlight <+: F.stream written
  decoded : arrived = F.stream read ++ buffer
  reads : read <+: written

variable {F : Framing d α} {written read : List α} {arrived buffer inFlight : List β}

theorem Conveys.start : Conveys F [] [] [] [] [] :=
  ⟨fun _ ha => absurd ha List.not_mem_nil, List.prefix_rfl, rfl, List.prefix_rfl⟩

/-- Writing one more element puts its frame, or part of it, into the pipe.  Nothing
may be missing of the elements before. -/
theorem Conveys.write (h : Conveys F written read arrived buffer inFlight)
    (hwhole : arrived ++ inFlight = F.stream written) {a : α} (ha : F.ok a) {bs : List β}
    (hbs : bs <+: F.frame a) :
    Conveys F (written ++ [a]) read arrived buffer (inFlight ++ bs) where
  ok := by
    intro x hx
    rcases List.mem_append.mp hx with hx | hx
    · exact h.ok x hx
    · rw [List.mem_singleton.mp hx]
      exact ha
  sent := by
    rw [← List.append_assoc, hwhole, F.stream_append, F.stream_cons, F.stream_nil,
      List.append_nil]
    exact (List.prefix_append_right_inj _).mpr hbs
  decoded := h.decoded
  reads := h.reads.trans (List.prefix_append _ _)

/-- A chunk comes out of the pipe and joins the buffer. -/
theorem Conveys.deliver {chunk : List β}
    (h : Conveys F written read arrived buffer (chunk ++ inFlight)) :
    Conveys F written read (arrived ++ chunk) (buffer ++ chunk) inFlight where
  ok := h.ok
  sent := by
    rw [List.append_assoc]
    exact h.sent
  decoded := by rw [h.decoded, List.append_assoc]
  reads := h.reads

/-- **THE READER'S NEXT STEP** waits for more, or yields the next element written. -/
theorem Conveys.next (h : Conveys F written read arrived buffer inFlight) :
    d.step buffer = .more
      ∨ ∃ a rest, d.step buffer = .item (F.out a) rest
          ∧ Conveys F written (read ++ [a]) arrived rest inFlight := by
  obtain ⟨unread, hunread⟩ := h.reads
  -- the buffer lies at the front of what has not been read
  have hbuffer : buffer <+: F.stream unread := by
    have hsent : F.stream read ++ buffer <+: F.stream read ++ F.stream unread := by
      rw [← h.decoded, ← F.stream_append, hunread]
      exact (List.prefix_append _ _).trans h.sent
    exact (List.prefix_append_right_inj _).mp hsent
  have hok : ∀ a ∈ unread, F.ok a := fun a ha =>
    h.ok a (hunread ▸ List.mem_append_right _ ha)
  rcases F.step_of_prefix hok hbuffer with ⟨hmore, _⟩ | ⟨a, as, rest, rfl, hcons, hitem, _⟩
  · exact .inl hmore
  · refine .inr ⟨a, rest, hitem, h.ok, h.sent, ?_, ?_⟩
    · rw [h.decoded, hcons, F.stream_append, F.stream_cons, F.stream_nil, List.append_nil,
        List.append_assoc]
    · rw [← hunread]
      exact ⟨as, by simp⟩

/-- **WITH AN EMPTY PIPE AND NOTHING TO YIELD**, the reader has read all that was written. -/
theorem Conveys.read_all (h : Conveys F written read arrived buffer [])
    (hwhole : arrived = F.stream written) (hmore : d.step buffer = .more) : read = written := by
  obtain ⟨unread, hunread⟩ := h.reads
  have hbuffer : buffer = F.stream unread := by
    have hsplit : F.stream read ++ buffer = F.stream read ++ F.stream unread := by
      rw [← h.decoded, ← F.stream_append, hunread, hwhole]
    exact List.append_cancel_left hsplit
  cases unread with
  | nil => rw [← hunread, List.append_nil]
  | cons a rest =>
      -- the buffer would begin with a frame
      have hok : ∀ x ∈ a :: rest, F.ok x := fun x hx =>
        h.ok x (hunread ▸ List.mem_append_right _ hx)
      have hfront : buffer <+: F.stream (a :: rest) := by rw [hbuffer]
      rcases F.step_of_prefix hok hfront with ⟨_, hshort⟩ | ⟨_, _, _, _, _, hitem, _⟩
      · have hlen := hshort a rest rfl
        rw [hbuffer, F.stream_cons, List.length_append] at hlen
        omega
      · rw [hmore] at hitem
        cases hitem

/-! ## §6. A reader that takes one item at a time. -/

/-- The reader has taken the items `outs` off the `stream` and holds the `buffer`: whatever
arrives behind the stream is read as if it arrived behind the buffer. -/
def Decoder.Took (d : Decoder β ω ε) (stream : List β) (outs : List ω) (buffer : List β) : Prop :=
  ∀ c, d.drain (stream ++ c) =
    ⟨outs ++ (d.drain (buffer ++ c)).outs, (d.drain (buffer ++ c)).rest,
      (d.drain (buffer ++ c)).stopped⟩

variable {stream : List β} {outs : List ω} {buffer : List β}

theorem Decoder.Took.start (d : Decoder β ω ε) : d.Took [] [] [] := fun _ => rfl

theorem Decoder.Took.deliver (h : d.Took stream outs buffer) (chunk : List β) :
    d.Took (stream ++ chunk) outs (buffer ++ chunk) := by
  intro c
  rw [List.append_assoc, List.append_assoc]
  exact h (chunk ++ c)

theorem Decoder.Took.item (h : d.Took stream outs buffer) {o : ω} {rest : List β}
    (hstep : d.step buffer = .item o rest) : d.Took stream (outs ++ [o]) rest := by
  intro c
  rw [h c, d.drain_item (d.item_append c hstep), List.append_assoc]
  rfl

/-- What the reader will have got when its buffer is drained. -/
theorem Decoder.Took.outs_eq (h : d.Took stream outs buffer) :
    (d.drain stream).outs = outs ++ (d.drain buffer).outs := by
  have hnil := h []
  rw [List.append_nil, List.append_nil] at hnil
  rw [hnil]

theorem Decoder.Took.stopped_eq (h : d.Took stream outs buffer) :
    (d.drain stream).stopped = (d.drain buffer).stopped := by
  have hnil := h []
  rw [List.append_nil, List.append_nil] at hnil
  rw [hnil]

end StreamDecoder
