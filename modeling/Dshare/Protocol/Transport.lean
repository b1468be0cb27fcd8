/-
  Dshare.Protocol.Transport
  ─────────────────────────
  **WHAT THE FRAMED STREAM DELIVERS.**

    • `transport_round_trip` — a written stream, cut anywhere and read in any
      chunks, yields exactly the accepted messages whose frames survive the cut;
    • `chunking_independent` — on arbitrary bytes the outcomes do not depend on
      the chunking, and each call of `decode` consumes nothing or one frame;
    • `decode_exact_iff` — `decode` inverts `encode` exactly on the buffers whose
      first frame carries no surplus byte behind its value.
-/
import Dshare.Protocol.Codec

namespace Dshare.Protocol

open WireFormat StreamDecoder

/-! ## §1. Writing a list of messages. -/

/-- `encode` on one buffer for each message in order, whatever it answers. -/
def encodeAll (msgs : List Message) : List UInt8 :=
  msgs.foldl (fun dst m => (encode m dst).2) []

/-- The messages of a list that `encode` accepts. -/
def accepted (msgs : List Message) : List Message := msgs.filter fun m => decide (Fits m)

theorem fits_of_mem_accepted {msgs : List Message} {m : Message} (h : m ∈ accepted msgs) :
    Fits m := by
  simpa using (List.mem_filter.mp h).2

/-- The buffer holds the frames of the accepted messages and nothing else. -/
theorem encodeAll_eq (msgs : List Message) :
    encodeAll msgs = messageFraming.stream (accepted msgs) := by
  have key : ∀ (ms : List Message) (dst : List UInt8),
      ms.foldl (fun dst m => (encode m dst).2) dst
        = dst ++ messageFraming.stream (accepted ms) := by
    intro ms
    induction ms with
    | nil => intro dst; simp [accepted]
    | cons m ms ih =>
        intro dst
        rw [List.foldl_cons, ih]
        by_cases hm : Fits m
        · rw [encode_of_fits hm, show accepted (m :: ms) = m :: accepted ms by
            simp [accepted, hm], Framing.stream_cons, List.append_assoc]
          rfl
        · rw [encode_of_not_fits hm, show accepted (m :: ms) = accepted ms by
            simp [accepted, hm]]
  rw [encodeAll, key, List.nil_append]

/-- `encode` appends the frame, or refuses with `FrameTooLarge` and appends nothing. -/
theorem encode_dichotomy (m : Message) (dst : List UInt8) :
    (Fits m ∧ encode m dst = (.ok (), dst ++ frame m))
      ∨ (¬ Fits m ∧ ∃ n, encode m dst = (.error (.frameTooLarge n), dst)) := by
  by_cases hm : Fits m
  · exact .inl ⟨hm, encode_of_fits hm dst⟩
  · exact .inr ⟨hm, _, encode_of_not_fits hm dst⟩

/-- A clipboard longer than a frame does not fit. -/
theorem not_fits_of_large (mime : String) {data : List UInt8}
    (h : MAX_FRAME_BYTES < data.length) : ¬ Fits (.clipboardUpdate mime data) := by
  have hlen : data.length ≤ (Bincode.serialize (.clipboardUpdate mime data)).length := by
    simp only [Bincode.serialize, Bincode.message, Bincode.encodeFields, Bincode.vecU8,
      WireFormat.Format.pair, WireFormat.bytes, List.length_append]
    omega
  unfold Fits
  omega

/-- A whole written stream is read as the accepted messages, in whatever chunks it comes. -/
theorem readChunks_encodeAll (msgs : List Message) (chunks : List (List UInt8))
    (hwhole : chunks.flatten = encodeAll msgs) :
    (messageDecoder.readChunks chunks).outs = (accepted msgs).map .message := by
  have hok : ∀ m ∈ accepted msgs, messageFraming.ok m := fun m hm => fits_of_mem_accepted hm
  have hdrain := messageFraming.drain_prefix (accepted msgs) hok _ List.prefix_rfl
  rw [(messageDecoder.readChunks_agrees chunks).outs, hwhole, encodeAll_eq, hdrain,
    messageFraming.within_stream]
  rfl

/-- A peer can make the decoder yield every message that fits. -/
theorem mem_readChunks_frame {m : Message} (hm : Fits m) :
    .message m ∈ (messageDecoder.readChunks [frame m]).outs := by
  have hwhole : [frame m].flatten = encodeAll [m] := by
    show frame m ++ [] = (encode m []).2
    rw [List.append_nil, encode_of_fits hm, List.nil_append]
  rw [readChunks_encodeAll [m] [frame m] hwhole]
  simp [accepted, hm]

/-- **TRANSPORT ROUND TRIP.**  Of the stream written for `msgs`, a prefix arrives
in chunks.  The reader obtains the accepted messages whose whole frame lies in
the prefix, no error, and an empty remainder exactly when no frame was cut. -/
theorem transport_round_trip (msgs : List Message) (chunks : List (List UInt8))
    (hcut : chunks.flatten <+: encodeAll msgs) :
    (messageDecoder.readChunks chunks).outs
        = (messageFraming.within chunks.flatten.length (accepted msgs)).map .message
      ∧ (messageDecoder.readChunks chunks).stopped = none
      ∧ ((messageDecoder.readChunks chunks).rest = []
          ↔ messageFraming.Boundary (accepted msgs) chunks.flatten.length)
      ∧ encodeAll msgs = (accepted msgs).flatMap frame
      ∧ ∀ m dst, (Fits m ∧ encode m dst = (.ok (), dst ++ frame m))
          ∨ (¬ Fits m ∧ ∃ n, encode m dst = (.error (.frameTooLarge n), dst)) := by
  have hok : ∀ m ∈ accepted msgs, messageFraming.ok m := fun m hm => fits_of_mem_accepted hm
  rw [encodeAll_eq] at hcut
  have hread := messageDecoder.readChunks_agrees chunks
  have hdrain := messageFraming.drain_prefix (accepted msgs) hok chunks.flatten hcut
  have hstop : (messageDecoder.readChunks chunks).stopped = none := by
    rw [hread.stopped, hdrain]
  refine ⟨?_, hstop, ?_, encodeAll_eq msgs, encode_dichotomy⟩
  · rw [hread.outs, hdrain]
    rfl
  · rw [hread.rest hstop, hdrain]
    exact messageFraming.drop_within_eq_nil (accepted msgs) hok chunks.flatten hcut

/-- A `Ping` that arrives whole, a clipboard that `encode` refuses, and a `Ping` of which six
bytes arrive: the reader obtains the first, and keeps the six. -/
theorem transport_round_trip_cut :
    let big := Message.clipboardUpdate "text/plain" (List.replicate (MAX_FRAME_BYTES + 1) 0)
    let chunks : List (List UInt8) :=
      [[0, 0, 0], [12, 10, 0, 0, 0, 7, 0, 0, 0, 0, 0, 0, 0, 0, 0], [0, 12, 10, 0]]
    chunks.flatten <+: encodeAll [.ping 7, big, .ping 8]
      ∧ (messageDecoder.readChunks chunks).outs = [.message (.ping 7)]
      ∧ (messageDecoder.readChunks chunks).stopped = none
      ∧ (messageDecoder.readChunks chunks).rest ≠ []
      ∧ ∃ n, encode big [] = (.error (.frameTooLarge n), []) := by
  intro big chunks
  have hbig : ¬ Fits big := by
    refine not_fits_of_large _ ?_
    rw [List.length_replicate]
    exact Nat.lt_succ_self _
  -- the clipboard is too large to compute with, and nothing below looks into it
  clear_value big
  have hsent : accepted [.ping 7, big, .ping 8] = [.ping 7, .ping 8] := by
    simp [accepted, hbig, show Fits (.ping 7) by decide, show Fits (.ping 8) by decide]
  have hcut : chunks.flatten <+: encodeAll [.ping 7, big, .ping 8] := by
    rw [encodeAll_eq, hsent]
    decide
  obtain ⟨houts, hstop, hrest, -, hencode⟩ :=
    transport_round_trip [.ping 7, big, .ping 8] chunks hcut
  rw [hsent] at houts hrest
  refine ⟨hcut, houts, hstop, ?_, ?_⟩
  · intro hnil
    obtain ⟨k, hk, hlen⟩ := hrest.mp hnil
    have hk' : k ≤ 2 := hk
    obtain rfl | rfl | rfl : k = 0 ∨ k = 1 ∨ k = 2 := by omega
    all_goals exact absurd hlen (by decide)
  · obtain ⟨hfits, -⟩ | ⟨-, n, hn⟩ := hencode big []
    · exact absurd hfits hbig
    · exact ⟨n, hn⟩

/-! ## §2. Arbitrary bytes. -/

/-- A reader stops at an oversized frame and nowhere else. -/
theorem stopped_tooLarge (de : List UInt8 → Except ErrorKind Message) (b : List UInt8)
    {e : ProtocolError} (h : ((codecDecoder de).drain b).stopped = some e) :
    ∃ n, e = .frameTooLarge n := by
  induction b using (codecDecoder de).drain_induction with
  | hmore b hs => rw [Decoder.drain_more hs] at h; cases h
  | hstop b e' hs =>
      rw [Decoder.drain_stop hs] at h
      cases h
      rcases answer_cases de b with ⟨he, _⟩ | ⟨he, _⟩ | ⟨he, _⟩ <;>
        rw [show answer de b = .stop e from hs] at he <;> cases he
      exact ⟨_, rfl⟩
  | hitem b o rest hs ih => rw [Decoder.drain_item hs] at h; exact ih h

/-- `None` and `FrameTooLarge` leave the buffer alone. -/
theorem decode_keeps (de : List UInt8 → Except ErrorKind Message) (src : List UInt8)
    (h : (decode de src).1 = .ok none ∨ ∃ n, (decode de src).1 = .error (.frameTooLarge n)) :
    (decode de src).2 = src := by
  rcases decode_cases de src with ⟨he, _⟩ | ⟨he, _⟩ | ⟨m, he, _⟩ | ⟨e, he, _⟩ <;> rw [he] at h ⊢
  · rcases h with h | ⟨n, h⟩ <;> cases h
  · rcases h with h | ⟨n, h⟩ <;> cases h

/-- A message and a malformed payload each cost exactly the first frame. -/
theorem decode_consumes (de : List UInt8 → Except ErrorKind Message) (src : List UInt8)
    (h : (∃ m, (decode de src).1 = .ok (some m)) ∨ ∃ e, (decode de src).1 = .error (.encode e)) :
    4 + headerLen src ≤ src.length ∧ (decode de src).2 = src.drop (4 + headerLen src) := by
  rcases decode_cases de src with ⟨he, _⟩ | ⟨he, _⟩ | ⟨m, he, hr, _⟩ | ⟨e, he, hr, _⟩ <;>
    rw [he] at h ⊢
  · rcases h with ⟨m, h⟩ | ⟨e, h⟩ <;> cases h
  · rcases h with ⟨m, h⟩ | ⟨e, h⟩ <;> cases h
  · exact ⟨hr.2.2, rfl⟩
  · exact ⟨hr.2.2, rfl⟩

/-- Behind a malformed frame, decoding goes on as if the frame had not been there. -/
theorem drain_after_malformed (de : List UInt8 → Except ErrorKind Message) (src : List UInt8)
    (e : ErrorKind) (h : (decode de src).1 = .error (.encode e)) :
    (codecDecoder de).drain src =
      ⟨.malformed e :: ((codecDecoder de).drain (src.drop (4 + headerLen src))).outs,
        ((codecDecoder de).drain (src.drop (4 + headerLen src))).rest,
        ((codecDecoder de).drain (src.drop (4 + headerLen src))).stopped⟩ := by
  have hstep : (codecDecoder de).step src
      = .item (.malformed e) (src.drop (4 + headerLen src)) := by
    show answer de src = _
    rcases decode_cases de src with ⟨he, _⟩ | ⟨he, _⟩ | ⟨m, he, hr, _⟩ | ⟨e', he, hr, _⟩ <;>
      rw [he] at h <;> cases h
    rw [answer, he]
  exact Decoder.drain_item hstep

/-- **CHUNKING INDEPENDENCE AND RESYNCHRONISATION**, for every deserializer: two
readers of the same bytes see the same outcomes, end in the same
`FrameTooLarge` or none, and keep the same remainder if none; and each call of
`decode` takes nothing from the buffer, or exactly one frame. -/
theorem chunking_independent (de : List UInt8 → Except ErrorKind Message)
    (cs cs' : List (List UInt8)) (hsame : cs.flatten = cs'.flatten) :
    ((codecDecoder de).readChunks cs).outs = ((codecDecoder de).readChunks cs').outs
      ∧ ((codecDecoder de).readChunks cs).stopped = ((codecDecoder de).readChunks cs').stopped
      ∧ (((codecDecoder de).readChunks cs).stopped = none →
          ((codecDecoder de).readChunks cs).rest = ((codecDecoder de).readChunks cs').rest)
      ∧ (∀ e, ((codecDecoder de).readChunks cs).stopped = some e → ∃ n, e = .frameTooLarge n)
      ∧ (∀ src, (decode de src).1 = .ok none
            ∨ (∃ n, (decode de src).1 = .error (.frameTooLarge n)) →
          (decode de src).2 = src)
      ∧ (∀ src, (∃ m, (decode de src).1 = .ok (some m))
            ∨ (∃ e, (decode de src).1 = .error (.encode e)) →
          4 + headerLen src ≤ src.length ∧ (decode de src).2 = src.drop (4 + headerLen src))
      ∧ ∀ src e, (decode de src).1 = .error (.encode e) →
          (codecDecoder de).drain src =
            ⟨.malformed e :: ((codecDecoder de).drain (src.drop (4 + headerLen src))).outs,
              ((codecDecoder de).drain (src.drop (4 + headerLen src))).rest,
              ((codecDecoder de).drain (src.drop (4 + headerLen src))).stopped⟩ := by
  obtain ⟨houts, hstopped, hrest⟩ := (codecDecoder de).readChunks_congr cs cs' hsame
  refine ⟨houts, hstopped, hrest, ?_, decode_keeps de, decode_consumes de,
    drain_after_malformed de⟩
  intro e he
  rw [((codecDecoder de).readChunks_agrees cs).stopped] at he
  exact stopped_tooLarge de _ he

theorem chunking_independent_split_header :
    ((codecDecoder fun _ => .error .unexpectedEof).readChunks [[0, 0], [0, 1, 9, 0]]).outs
      = ((codecDecoder fun _ => .error .unexpectedEof).readChunks [[0], [0, 0, 1], [9, 0]]).outs :=
  (chunking_independent _ [[0, 0], [0, 1, 9, 0]] [[0], [0, 0, 1], [9, 0]] (by decide)).1

/-! ## §3. What `decode` accepts. -/

/-- The first frame is complete and within the limit, and its payload is an
encoded message with at least one byte behind it. -/
def SurplusPayload (b : List UInt8) : Prop :=
  FrameReady b ∧ ∃ m t, t ≠ [] ∧ payloadOf b = Bincode.serialize m ++ t

/-- A buffer with a complete first frame is its header, its payload and the rest. -/
theorem FrameReady.split {b : List UInt8} (h : FrameReady b) :
    b = putU32 (payloadOf b).length ++ (payloadOf b ++ b.drop (4 + headerLen b)) := by
  obtain ⟨h4, _, hlen⟩ := h
  have hpl : (payloadOf b).length = headerLen b := by
    simp only [payloadOf, List.length_take, List.length_drop]
    omega
  rw [hpl, putU32_headerLen b h4, payloadOf, ← List.drop_drop, List.take_append_drop,
    List.take_append_drop]

/-- An accepted frame carries the encoding of its message, and possibly more. -/
theorem payload_of_decode {b r : List UInt8} {m : Message}
    (h : decode Bincode.deserialize b = (.ok (some m), r)) :
    FrameReady b ∧ r = b.drop (4 + headerLen b)
      ∧ ∃ t, payloadOf b = Bincode.serialize m ++ t := by
  rcases decode_cases Bincode.deserialize b with
    ⟨he, _⟩ | ⟨he, _⟩ | ⟨m', he, hr, hde⟩ | ⟨e, he, _⟩ <;> rw [he] at h <;> cases h
  exact ⟨hr, rfl, Bincode.serialize_of_deserialize hde⟩

/-- **`decode` inverts `encode` exactly when no surplus byte is in the frame.** -/
theorem decode_exact_iff (b : List UInt8) :
    (∀ m r, decode Bincode.deserialize b = (.ok (some m), r)
        ↔ ∃ f, encode m [] = (.ok (), f) ∧ b = f ++ r)
      ↔ ¬ SurplusPayload b := by
  have hframe : ∀ m r, (∃ f, encode m [] = (.ok (), f) ∧ b = f ++ r)
      ↔ Fits m ∧ b = frame m ++ r := by
    intro m r
    by_cases hm : Fits m
    · simp [encode_of_fits hm, hm]
    · simp [encode_of_not_fits hm, hm]
  simp only [hframe]
  constructor
  · intro hexact hsurplus
    obtain ⟨hready, m, t, ht, hpay⟩ := hsurplus
    have hlt : (payloadOf b).length < lengthBound := by
      obtain ⟨_, hmax, _⟩ := hready
      have hle : (payloadOf b).length ≤ headerLen b := List.length_take_le _ _
      exact Nat.lt_of_le_of_lt (Nat.le_trans hle hmax) (by decide)
    have hde : Bincode.deserialize (payloadOf b) = .ok m :=
      (Bincode.deserialize_eq_ok_iff hlt).mpr ⟨t, hpay⟩
    have hdec : decode Bincode.deserialize b = (.ok (some m), b.drop (4 + headerLen b)) := by
      rw [decode_of_ready hready, hde]
    obtain ⟨hm, hb⟩ := (hexact m _).mp hdec
    -- the frame of `m` has no room for `t`
    have hpm : payloadOf b = Bincode.serialize m := by
      have hframed := payloadOf_frame hm (b.drop (4 + headerLen b))
      rwa [← hb] at hframed
    rw [hpm] at hpay
    exact ht (List.self_eq_append_right.mp hpay)
  · intro hno m r
    constructor
    · intro hdec
      obtain ⟨hready, rfl, t, hpay⟩ := payload_of_decode hdec
      have ht : t = [] := by
        by_contra ht
        exact hno ⟨hready, m, t, ht, hpay⟩
      rw [ht, List.append_nil] at hpay
      refine ⟨?_, ?_⟩
      · unfold Fits
        rw [← hpay]
        exact Nat.le_trans (List.length_take_le _ _) hready.2.1
      · have hb := hready.split
        rw [hpay, ← List.append_assoc] at hb
        exact hb
    · intro hwritten
      obtain ⟨hm, rfl⟩ := hwritten
      exact decode_frame hm r

/-- A `LeaveScreen` frame announcing five bytes, the fifth of them surplus, is
accepted although no message is encoded so. -/
theorem decode_accepts_surplus :
    ¬ ∀ (b : List UInt8) (m : Message) (r : List UInt8),
      decode Bincode.deserialize b = (.ok (some m), r)
        ↔ ∃ f, encode m [] = (.ok (), f) ∧ b = f ++ r := by
  intro h
  have hdec : decode Bincode.deserialize [0, 0, 0, 5, 3, 0, 0, 0, 255]
      = (.ok (some .leaveScreen), []) := by rfl
  obtain ⟨f, hf, hb⟩ := (h _ _ _).mp hdec
  have hframe : encode .leaveScreen [] = (.ok (), [0, 0, 0, 4, 3, 0, 0, 0]) := by rfl
  rw [hframe] at hf
  cases hf
  revert hb
  decide

end Dshare.Protocol
