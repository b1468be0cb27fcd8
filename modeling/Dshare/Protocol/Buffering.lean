/-
  Dshare.Protocol.Buffering
  ─────────────────────────
  **WHAT A READER HOLDS, AND WHAT IT ASKS FOR.**

  `decode` again, now with every operation of it that Rust checks (the arithmetic on
  `usize`, the slice, `advance`, `split_to`) and with the calls that cost memory: each
  `reserve` and each payload given to `bincode`.

    • `decodeCalls_eq` — the checks never fail, and what is computed is `decode`;
    • `round_spec` — a round of decoding completes, whatever the buffer holds;
    • `buffering_bounded` — what is held between two rounds, and every request on the
      way, stays within one frame of the maximal length.
-/
import Dshare.Protocol.Transport

namespace Dshare.Protocol

open WireFormat StreamDecoder

/-! ## §1. Checked operations. -/

/-- The width of `usize`. -/
inductive PointerWidth where
  | bits32
  | bits64

/-- A `usize` is below this. -/
def PointerWidth.usizeBound : PointerWidth → Nat
  | .bits32 => 2 ^ 32
  | .bits64 => 2 ^ 64

inductive BufferPanic where
  | arithmeticOverflow
  /-- `src[..4]`, `advance` or `split_to` beyond the end of the buffer. -/
  | outOfRange
  | capacityOverflow
  deriving DecidableEq

/-- `a + b` on `usize`. -/
def usizeAdd (w : PointerWidth) (a b : Nat) : Except BufferPanic Nat :=
  if a + b < w.usizeBound then .ok (a + b) else .error .arithmeticOverflow

/-- `a - b` on `usize`. -/
def usizeSub (a b : Nat) : Except BufferPanic Nat :=
  if b ≤ a then .ok (a - b) else .error .arithmeticOverflow

/-- `&src[..n]`. -/
def sliceTo (src : List UInt8) (n : Nat) : Except BufferPanic (List UInt8) :=
  if n ≤ src.length then .ok (src.take n) else .error .outOfRange

/-- `src.advance(cnt)`. -/
def advance (src : List UInt8) (cnt : Nat) : Except BufferPanic (List UInt8) :=
  if cnt ≤ src.length then .ok (src.drop cnt) else .error .outOfRange

/-- `src.split_to(at)`: the first bytes, and the buffer without them. -/
def splitTo (src : List UInt8) (n : Nat) : Except BufferPanic (List UInt8 × List UInt8) :=
  if n ≤ src.length then .ok (src.take n, src.drop n) else .error .outOfRange

/-- `src.reserve(additional)`, which only moves memory. -/
def reserve (w : PointerWidth) (src : List UInt8) (additional : Nat) : Except BufferPanic Unit :=
  if src.length + additional < w.usizeBound then .ok () else .error .capacityOverflow

theorem usizeAdd_eq {w : PointerWidth} {a b : Nat} (h : a + b < w.usizeBound) :
    usizeAdd w a b = .ok (a + b) := if_pos h

theorem usizeSub_eq {a b : Nat} (h : b ≤ a) : usizeSub a b = .ok (a - b) := if_pos h

theorem sliceTo_eq {src : List UInt8} {n : Nat} (h : n ≤ src.length) :
    sliceTo src n = .ok (src.take n) := if_pos h

theorem advance_eq {src : List UInt8} {cnt : Nat} (h : cnt ≤ src.length) :
    advance src cnt = .ok (src.drop cnt) := if_pos h

theorem splitTo_eq {src : List UInt8} {n : Nat} (h : n ≤ src.length) :
    splitTo src n = .ok (src.take n, src.drop n) := if_pos h

theorem reserve_eq {w : PointerWidth} {src : List UInt8} {additional : Nat}
    (h : src.length + additional < w.usizeBound) : reserve w src additional = .ok () := if_pos h

/-! ## §2. `decode` and the calls it makes. -/

/-- A call that asks for memory in proportion to what the peer announced. -/
inductive BufferCall where
  /-- `src.reserve(additional)`. -/
  | reserve (src : List UInt8) (additional : Nat)
  /-- `bincode::deserialize(&payload)`. -/
  | deserialize (payload : List UInt8)
  deriving DecidableEq

variable (w : PointerWidth) (de : List UInt8 → Except ErrorKind Message)

/-- `MessageCodec::decode` with its checks: the result, what is left in the buffer, and
the calls made. -/
def decodeCalls (src : List UInt8) :
    Except BufferPanic ((Except ProtocolError (Option Message) × List UInt8) × List BufferCall) :=
  if src.length < 4 then .ok ((.ok none, src), [])
  else do
    let header ← sliceTo src 4
    let len := leNat header.reverse
    if len > MAX_FRAME_BYTES then .ok ((.error (.frameTooLarge len), src), [])
    else
      let needed ← usizeAdd w 4 len
      if src.length < needed then
        let additional ← usizeSub needed src.length
        reserve w src additional
        .ok ((.ok none, src), [.reserve src additional])
      else
        let src ← advance src 4
        let (payload, src) ← splitTo src len
        match de payload with
        | .error e => .ok ((.error (.encode e), src), [.deserialize payload])
        | .ok msg => .ok ((.ok (some msg), src), [.deserialize payload])

/-- The calls of one `decode`, from the buffer alone. -/
def callsOf (src : List UInt8) : List BufferCall :=
  if src.length < 4 ∨ headerLen src > MAX_FRAME_BYTES then []
  else if src.length < 4 + headerLen src then
    [.reserve src (4 + headerLen src - src.length)]
  else [.deserialize (payloadOf src)]

/-- A frame within the limit has a length that `usize` can count. -/
theorem frame_lt_usizeBound {len : Nat} (h : len ≤ MAX_FRAME_BYTES) : 4 + len < w.usizeBound := by
  have hmax : 4 + MAX_FRAME_BYTES < 2 ^ 32 := by decide
  cases w with
  | bits32 =>
      show 4 + len < 2 ^ 32
      omega
  | bits64 =>
      show 4 + len < 2 ^ 64
      omega

/-- **NO CHECK OF `decode` FAILS**, and with the checks it computes what it computes without. -/
theorem decodeCalls_eq (src : List UInt8) :
    decodeCalls w de src = .ok (decode de src, callsOf src) := by
  unfold decodeCalls decode callsOf
  by_cases h4 : src.length < 4
  · simp only [h4, true_or, if_true]
  simp only [h4, false_or, if_false]
  rw [sliceTo_eq (Nat.le_of_not_lt h4)]
  show (if headerLen src > MAX_FRAME_BYTES then _ else _) = _
  by_cases hbig : headerLen src > MAX_FRAME_BYTES
  · simp only [if_pos hbig]
    rfl
  -- the limit was checked, so `4 + len` is far from overflowing
  have hlt := frame_lt_usizeBound w (Nat.le_of_not_gt hbig)
  simp only [if_neg hbig]
  show (usizeAdd w 4 (headerLen src) >>= fun needed => _) = _
  rw [usizeAdd_eq hlt]
  show (if src.length < 4 + headerLen src then _ else _) = _
  by_cases hlen : src.length < 4 + headerLen src
  · have hfits : src.length + (4 + headerLen src - src.length) < w.usizeBound := by omega
    simp only [if_pos hlen]
    rw [usizeSub_eq (Nat.le_of_lt hlen)]
    show (reserve w src (4 + headerLen src - src.length) >>= fun _ => _) = _
    rw [reserve_eq hfits]
    rfl
  · have hpayload : headerLen src ≤ (src.drop 4).length := by
      rw [List.length_drop]
      omega
    simp only [if_neg hlen]
    rw [advance_eq (Nat.le_of_not_lt h4)]
    show (splitTo (src.drop 4) (headerLen src) >>= fun split => _) = _
    rw [splitTo_eq hpayload]
    show (match de (payloadOf src) with
      | .error e => _
      | .ok msg => _) = _
    unfold payloadOf
    cases de ((src.drop 4).take (headerLen src)) <;> rfl

/-! ## §3. A round of decoding. -/

/-- What a request for memory may amount to: the buffer grows to the frame it starts with
and no further, and a payload is no longer than the limit. -/
def BufferCall.Bounded : BufferCall → Prop
  | .reserve src additional =>
      src.length + additional = 4 + headerLen src
        ∧ src.length + additional ≤ 4 + MAX_FRAME_BYTES
  | .deserialize payload => payload.length ≤ MAX_FRAME_BYTES

/-- Every call of `decode` stays within one maximal frame. -/
theorem callsOf_bounded (src : List UInt8) : ∀ call ∈ callsOf src, call.Bounded := by
  unfold callsOf
  by_cases hnone : src.length < 4 ∨ headerLen src > MAX_FRAME_BYTES
  · intro call hcall
    rw [if_pos hnone] at hcall
    exact absurd hcall List.not_mem_nil
  rw [if_neg hnone]
  have hmax : headerLen src ≤ MAX_FRAME_BYTES := by
    by_contra h
    exact hnone (.inr (Nat.lt_of_not_le h))
  by_cases hlen : src.length < 4 + headerLen src
  · intro call hcall
    rw [if_pos hlen, List.mem_singleton] at hcall
    subst hcall
    show src.length + (4 + headerLen src - src.length) = 4 + headerLen src
      ∧ src.length + (4 + headerLen src - src.length) ≤ 4 + MAX_FRAME_BYTES
    omega
  · intro call hcall
    rw [if_neg hlen, List.mem_singleton] at hcall
    subst hcall
    show (payloadOf src).length ≤ MAX_FRAME_BYTES
    exact Nat.le_trans (List.length_take_le _ _) hmax

/-- **What `decode` leaves when it wants more is less than one maximal frame.** -/
theorem length_lt_of_more {src : List UInt8} (h : answer de src = .more) :
    src.length < 4 + MAX_FRAME_BYTES := by
  rcases answer_cases de src with ⟨_, hshort⟩ | ⟨he, _⟩ | ⟨he, _⟩
  · rcases hshort with hshort | ⟨hmax, hlen⟩ <;> omega
  · rw [he] at h
    cases h
  · rw [he] at h
    cases h

/-- An outcome costs at least its header. -/
theorem rest_shorter {src rest : List UInt8} {r : Except ProtocolError (Option Message)}
    (h : decode de src = (r, rest))
    (hr : (∃ m, r = .ok (some m)) ∨ ∃ e, r = .error (.encode e)) : rest.length < src.length := by
  obtain ⟨hlen, hrest⟩ := decode_consumes de src (by rw [h]; exact hr)
  rw [h] at hrest
  rw [show rest = _ from hrest, List.length_drop]
  omega

/-- What a reader has got out of a buffer, and the calls it took. -/
structure Round where
  drained : Drained UInt8 Outcome ProtocolError
  calls : List BufferCall

/-- Decode until `None` or `FrameTooLarge`. -/
def round (src : List UInt8) : Except BufferPanic Round :=
  match _h : decodeCalls w de src with
  | .error p => .error p
  | .ok ((.ok (some m), rest), calls) => do
      let r ← round rest
      .ok ⟨⟨.message m :: r.drained.outs, r.drained.rest, r.drained.stopped⟩, calls ++ r.calls⟩
  | .ok ((.error (.encode e), rest), calls) => do
      let r ← round rest
      .ok ⟨⟨.malformed e :: r.drained.outs, r.drained.rest, r.drained.stopped⟩, calls ++ r.calls⟩
  | .ok ((.ok none, rest), calls) => .ok ⟨⟨[], rest, none⟩, calls⟩
  | .ok ((.error e, rest), calls) => .ok ⟨⟨[], rest, some e⟩, calls⟩
  termination_by src.length
  decreasing_by
    all_goals
      rw [decodeCalls_eq, Except.ok.injEq, Prod.mk.injEq] at _h
      exact rest_shorter de _h.1 (by simp)

/-- A round, by the answer of the decoder. -/
theorem round_eq (src : List UInt8) :
    round w de src =
      (match answer de src with
      | .more => .ok ⟨⟨[], src, none⟩, callsOf src⟩
      | .stop e => .ok ⟨⟨[], src, some e⟩, callsOf src⟩
      | .item o rest => round w de rest >>= fun r =>
          .ok ⟨⟨o :: r.drained.outs, r.drained.rest, r.drained.stopped⟩,
            callsOf src ++ r.calls⟩) := by
  have hcalls := decodeCalls_eq w de src
  unfold answer
  -- a malformed frame and a message both count as an item
  rcases decode_cases de src with ⟨he, _⟩ | ⟨he, _⟩ | ⟨m, he, _⟩ | ⟨e, he, _⟩ <;>
    rw [he] at hcalls ⊢ <;> rw [round] <;> split <;> simp_all

/-- **A ROUND COMPLETES** with what the decoder makes of the buffer, and asks for no more
than one maximal frame at a time.  By induction along the frames of the buffer. -/
theorem round_spec (src : List UInt8) :
    ∃ calls, round w de src = .ok ⟨(codecDecoder de).drain src, calls⟩
      ∧ ∀ call ∈ calls, call.Bounded := by
  induction src using (codecDecoder de).drain_induction with
  | hmore src hs =>
      refine ⟨callsOf src, ?_, callsOf_bounded src⟩
      rw [round_eq, show answer de src = .more from hs, Decoder.drain_more hs]
  | hstop src e hs =>
      refine ⟨callsOf src, ?_, callsOf_bounded src⟩
      rw [round_eq, show answer de src = .stop e from hs, Decoder.drain_stop hs]
  | hitem src o rest hs ih =>
      obtain ⟨calls, hround, hbounded⟩ := ih
      refine ⟨callsOf src ++ calls, ?_, ?_⟩
      · rw [round_eq, show answer de src = .item o rest from hs, Decoder.drain_item hs]
        show (round w de rest >>= fun r => _) = _
        rw [hround]
        rfl
      · intro call hcall
        rcases List.mem_append.mp hcall with hcall | hcall
        · exact callsOf_bounded src call hcall
        · exact hbounded call hcall

/-! ## §4. A reader and its chunks. -/

/-- What a reader holds, and the calls it has made. -/
structure Reader where
  state : Drained UInt8 Outcome ProtocolError
  calls : List BufferCall

/-- One chunk: append it and decode, unless `FrameTooLarge` was returned before. -/
def Reader.feed (s : Reader) (chunk : List UInt8) : Except BufferPanic Reader :=
  match s.state.stopped with
  | some _ => .ok s
  | none => do
      let r ← round w de (s.state.rest ++ chunk)
      .ok ⟨⟨s.state.outs ++ r.drained.outs, r.drained.rest, r.drained.stopped⟩,
        s.calls ++ r.calls⟩

/-- The reader after the chunks, one round for each of them. -/
def readAll (chunks : List (List UInt8)) : Except BufferPanic Reader :=
  chunks.foldlM (Reader.feed w de) ⟨⟨[], [], none⟩, []⟩

/-- What is known of a reader between two rounds. -/
structure Reader.Within (s : Reader) : Prop where
  calls : ∀ call ∈ s.calls, call.Bounded
  waiting : s.state.stopped = none → s.state.rest.length < 4 + MAX_FRAME_BYTES

/-- **One chunk**: the round completes and the reader stays within its bounds. -/
theorem Reader.feed_spec {s : Reader} (h : s.Within) (chunk : List UInt8) :
    ∃ s', s.feed w de chunk = .ok s' ∧ s'.state = (codecDecoder de).feed s.state chunk
      ∧ s'.Within := by
  unfold Reader.feed Decoder.feed
  cases hstop : s.state.stopped with
  | some e => exact ⟨s, rfl, rfl, h⟩
  | none =>
      obtain ⟨calls, hround, hbounded⟩ := round_spec w de (s.state.rest ++ chunk)
      refine ⟨_, by rw [hround]; rfl, rfl, ?_, ?_⟩
      · intro call hcall
        rcases List.mem_append.mp hcall with hcall | hcall
        · exact h.calls call hcall
        · exact hbounded call hcall
      · intro hnone
        exact length_lt_of_more de ((codecDecoder de).step_rest _ hnone)

/-- **BUFFERING IS BOUNDED AGAINST ANY PEER**: for every deserializer and all chunks, no
check fails; the reader sees what the decoder makes of the chunks; every `reserve` and every
payload stays within one maximal frame; and unless `FrameTooLarge` was returned, less than
one maximal frame is left undecoded. -/
theorem buffering_bounded (chunks : List (List UInt8)) :
    ∃ s, readAll w de chunks = .ok s
      ∧ s.state = (codecDecoder de).readChunks chunks
      ∧ (s.state.stopped = none → s.state.rest.length < 4 + MAX_FRAME_BYTES)
      ∧ ∀ call ∈ s.calls, call.Bounded := by
  have key : ∀ (chunks : List (List UInt8)) (s : Reader), s.Within →
      ∃ s', chunks.foldlM (Reader.feed w de) s = .ok s'
        ∧ s'.state = chunks.foldl (codecDecoder de).feed s.state ∧ s'.Within := by
    intro chunks
    induction chunks with
    | nil => intro s h; exact ⟨s, rfl, rfl, h⟩
    | cons chunk chunks ih =>
        intro s h
        obtain ⟨s₁, hfeed, hstate, hwithin⟩ := s.feed_spec w de h chunk
        obtain ⟨s', hrest, hstate', hwithin'⟩ := ih s₁ hwithin
        refine ⟨s', ?_, ?_, hwithin'⟩
        · rw [List.foldlM_cons, hfeed]
          exact hrest
        · rw [hstate', hstate]
          rfl
  obtain ⟨s, hread, hstate, hwithin⟩ := key chunks ⟨⟨[], [], none⟩, []⟩
    ⟨fun _ h => absurd h List.not_mem_nil, fun _ => by show 0 < _; omega⟩
  exact ⟨s, hread, hstate, hwithin.waiting, hwithin.calls⟩

end Dshare.Protocol
