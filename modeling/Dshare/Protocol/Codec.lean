/-
  Dshare.Protocol.Codec
  ─────────────────────
  `MessageCodec`: a four-byte big-endian length in front of a `bincode` payload.

  `decode` takes the deserializer as an argument, since nothing about framing
  depends on it: `codecDecoder` is a prefix-stable `Decoder` for every one.
  Writing enters with `bincode` (`messageFraming`): a frame that `encode` writes
  is decoded as soon as it is complete, and not before.

  `reserve` calls only move memory, so the buffers are plain byte lists.
-/
import Dshare.Lib.StreamDecoder
import Dshare.Protocol.Bincode

namespace Dshare.Protocol

open WireFormat StreamDecoder

/-! ## §1. The two functions of the codec. -/

/-- 16 MiB hard cap. -/
def MAX_FRAME_BYTES : Nat := 16 * 1024 * 1024

/-- `u32::from_be_bytes` of the first four bytes. -/
def headerLen (src : List UInt8) : Nat := leNat (src.take 4).reverse

/-- `put_u32`: four bytes, highest first. -/
def putU32 (n : Nat) : List UInt8 := (leBytes 4 (n % 2 ^ 32)).reverse

/-- `MessageCodec::decode`: the result, and what is left in the buffer. -/
def decode (deserialize : List UInt8 → Except ErrorKind Message) (src : List UInt8) :
    Except ProtocolError (Option Message) × List UInt8 :=
  if src.length < 4 then (.ok none, src)
  else
    let len := headerLen src
    if len > MAX_FRAME_BYTES then (.error (.frameTooLarge len), src)
    else if src.length < 4 + len then (.ok none, src)
    else
      let payload := (src.drop 4).take len
      let src := (src.drop 4).drop len
      match deserialize payload with
      | .error e => (.error (.encode e), src)
      | .ok msg => (.ok (some msg), src)

/-- `MessageCodec::encode`: the result, and the buffer afterwards. -/
def encode (item : Message) (dst : List UInt8) : Except ProtocolError Unit × List UInt8 :=
  let payload := Bincode.serialize item
  if payload.length > MAX_FRAME_BYTES then (.error (.frameTooLarge payload.length), dst)
  else (.ok (), dst ++ putU32 payload.length ++ payload)

/-- The messages `encode` accepts. -/
def Fits (m : Message) : Prop := (Bincode.serialize m).length ≤ MAX_FRAME_BYTES

instance (m : Message) : Decidable (Fits m) := inferInstanceAs (Decidable (_ ≤ _))

/-- The frame of a message. -/
def frame (m : Message) : List UInt8 :=
  putU32 (Bincode.serialize m).length ++ Bincode.serialize m

/-! ## §2. Headers. -/

@[simp] theorem putU32_length (n : Nat) : (putU32 n).length = 4 := by
  simp [putU32]

theorem headerLen_append (src more : List UInt8) (h : 4 ≤ src.length) :
    headerLen (src ++ more) = headerLen src := by
  unfold headerLen
  rw [List.take_append_of_le_length h]

theorem headerLen_putU32 (n : Nat) (rest : List UInt8) (h : n < 2 ^ 32) :
    headerLen (putU32 n ++ rest) = n := by
  unfold headerLen
  rw [List.take_left' (putU32_length n), putU32, List.reverse_reverse, Nat.mod_eq_of_lt h]
  exact leNat_leBytes 4 n h

/-- The header is the four bytes of the length it announces. -/
theorem putU32_headerLen (src : List UInt8) (h : 4 ≤ src.length) :
    putU32 (headerLen src) = src.take 4 := by
  have hlen : (src.take 4).reverse.length = 4 := by simp; omega
  have hlt : headerLen src < 2 ^ 32 := by
    have := leNat_lt (src.take 4).reverse
    rw [hlen] at this
    exact this
  have hback := leBytes_leNat (src.take 4).reverse
  rw [hlen] at hback
  unfold putU32
  rw [Nat.mod_eq_of_lt hlt]
  unfold headerLen
  rw [hback, List.reverse_reverse]

theorem MAX_FRAME_BYTES_lt : MAX_FRAME_BYTES < 2 ^ 32 := by decide

/-! ## §3. What `encode` does. -/

theorem encode_of_fits {m : Message} (h : Fits m) (dst : List UInt8) :
    encode m dst = (.ok (), dst ++ frame m) := by
  have hn : ¬ (Bincode.serialize m).length > MAX_FRAME_BYTES := Nat.not_lt.mpr h
  simp only [encode, if_neg hn, frame, List.append_assoc]

/-- **A rejected message leaves no byte.** -/
theorem encode_of_not_fits {m : Message} (h : ¬ Fits m) (dst : List UInt8) :
    encode m dst = (.error (.frameTooLarge (Bincode.serialize m).length), dst) := by
  have hn : (Bincode.serialize m).length > MAX_FRAME_BYTES := Nat.not_le.mp h
  simp only [encode, if_pos hn]

theorem frame_length (m : Message) : (frame m).length = 4 + (Bincode.serialize m).length := by
  simp [frame]

theorem headerLen_frame {m : Message} (h : Fits m) (rest : List UInt8) :
    headerLen (frame m ++ rest) = (Bincode.serialize m).length := by
  unfold frame
  rw [List.append_assoc]
  exact headerLen_putU32 _ _ (Nat.lt_of_le_of_lt h MAX_FRAME_BYTES_lt)

/-! ## §4. What `decode` does. -/

variable {de : List UInt8 → Except ErrorKind Message}

/-- The first frame is complete and within the limit. -/
def FrameReady (src : List UInt8) : Prop :=
  4 ≤ src.length ∧ headerLen src ≤ MAX_FRAME_BYTES ∧ 4 + headerLen src ≤ src.length

/-- The payload of the first frame. -/
def payloadOf (src : List UInt8) : List UInt8 := (src.drop 4).take (headerLen src)

/-- **The four ways `decode` can answer**, with the condition and the buffer left
behind in each. -/
theorem decode_cases (de : List UInt8 → Except ErrorKind Message) (src : List UInt8) :
    (decode de src = (.ok none, src)
        ∧ (src.length < 4 ∨ headerLen src ≤ MAX_FRAME_BYTES ∧ src.length < 4 + headerLen src))
      ∨ (decode de src = (.error (.frameTooLarge (headerLen src)), src)
        ∧ 4 ≤ src.length ∧ MAX_FRAME_BYTES < headerLen src)
      ∨ (∃ m, decode de src = (.ok (some m), src.drop (4 + headerLen src))
        ∧ FrameReady src ∧ de (payloadOf src) = .ok m)
      ∨ (∃ e, decode de src = (.error (.encode e), src.drop (4 + headerLen src))
        ∧ FrameReady src ∧ de (payloadOf src) = .error e) := by
  unfold decode
  by_cases h4 : src.length < 4
  · exact .inl ⟨by rw [if_pos h4], .inl h4⟩
  by_cases hbig : headerLen src > MAX_FRAME_BYTES
  · exact .inr (.inl ⟨by simp only [if_neg h4, if_pos hbig], by omega, hbig⟩)
  by_cases hlen : src.length < 4 + headerLen src
  · refine .inl ⟨by simp only [if_neg h4, if_neg hbig, if_pos hlen], .inr ⟨by omega, hlen⟩⟩
  have hready : FrameReady src := ⟨by omega, by omega, by omega⟩
  simp only [if_neg h4, if_neg hbig, if_neg hlen, List.drop_drop]
  cases hd : de ((src.drop 4).take (headerLen src)) with
  | ok m => exact .inr (.inr (.inl ⟨m, rfl, hready, hd⟩))
  | error e => exact .inr (.inr (.inr ⟨e, rfl, hready, hd⟩))

theorem decode_of_short {src : List UInt8}
    (h : src.length < 4 ∨ headerLen src ≤ MAX_FRAME_BYTES ∧ src.length < 4 + headerLen src) :
    decode de src = (.ok none, src) := by
  rcases decode_cases de src with h' | ⟨_, h4, hbig⟩ | ⟨_, _, hr, _⟩ | ⟨_, _, hr, _⟩
  · exact h'.1
  · omega
  · obtain ⟨h4, h1, h2⟩ := hr
    omega
  · obtain ⟨h4, h1, h2⟩ := hr
    omega

theorem decode_of_tooLarge {src : List UInt8} (h4 : 4 ≤ src.length)
    (hbig : MAX_FRAME_BYTES < headerLen src) :
    decode de src = (.error (.frameTooLarge (headerLen src)), src) := by
  have hn : ¬ src.length < 4 := by omega
  simp only [decode, if_neg hn, if_pos (show headerLen src > MAX_FRAME_BYTES from hbig)]

theorem decode_of_ready {src : List UInt8} (h : FrameReady src) :
    decode de src =
      (match de (payloadOf src) with
        | .ok m => .ok (some m)
        | .error e => .error (.encode e), src.drop (4 + headerLen src)) := by
  obtain ⟨h4, hmax, hlen⟩ := h
  have h1 : ¬ src.length < 4 := by omega
  have h2 : ¬ headerLen src > MAX_FRAME_BYTES := by omega
  have h3 : ¬ src.length < 4 + headerLen src := by omega
  simp only [decode, if_neg h1, if_neg h2, if_neg h3, List.drop_drop, payloadOf]
  cases de ((src.drop 4).take (headerLen src)) <;> rfl

theorem FrameReady.append {src : List UInt8} (h : FrameReady src) (more : List UInt8) :
    FrameReady (src ++ more) := by
  obtain ⟨h4, hmax, hlen⟩ := h
  unfold FrameReady
  rw [headerLen_append src more h4, List.length_append]
  omega

theorem payloadOf_append {src : List UInt8} (h : FrameReady src) (more : List UInt8) :
    payloadOf (src ++ more) = payloadOf src := by
  obtain ⟨h4, hmax, hlen⟩ := h
  unfold payloadOf
  rw [headerLen_append src more h4, List.drop_append_of_le_length h4,
    List.take_append_of_le_length (by rw [List.length_drop]; omega)]

/-! ## §5. The codec as a stream decoder. -/

/-- What a reader gets out of a frame. -/
inductive Outcome where
  | message (m : Message)
  | malformed (e : ErrorKind)
  deriving DecidableEq

/-- One call of `decode`, as an answer. -/
def answer (de : List UInt8 → Except ErrorKind Message) (src : List UInt8) :
    Answer UInt8 Outcome ProtocolError :=
  match decode de src with
  | (.ok none, _) => .more
  | (.ok (some m), rest) => .item (.message m) rest
  | (.error (.encode e), rest) => .item (.malformed e) rest
  | (.error e, _) => .stop e

/-- The outcome of a payload. -/
def outcomeOf (r : Except ErrorKind Message) : Outcome :=
  match r with
  | .ok m => .message m
  | .error e => .malformed e

theorem answer_of_short {src : List UInt8}
    (h : src.length < 4 ∨ headerLen src ≤ MAX_FRAME_BYTES ∧ src.length < 4 + headerLen src) :
    answer de src = .more := by
  rw [answer, decode_of_short h]

theorem answer_of_tooLarge {src : List UInt8} (h4 : 4 ≤ src.length)
    (hbig : MAX_FRAME_BYTES < headerLen src) :
    answer de src = .stop (.frameTooLarge (headerLen src)) := by
  rw [answer, decode_of_tooLarge h4 hbig]

theorem answer_of_ready {src : List UInt8} (h : FrameReady src) :
    answer de src = .item (outcomeOf (de (payloadOf src))) (src.drop (4 + headerLen src)) := by
  rw [answer, decode_of_ready h]
  cases de (payloadOf src) <;> rfl

/-- The same four cases for `answer`, malformed and well-formed frames together. -/
theorem answer_cases (de : List UInt8 → Except ErrorKind Message) (src : List UInt8) :
    (answer de src = .more
        ∧ (src.length < 4 ∨ headerLen src ≤ MAX_FRAME_BYTES ∧ src.length < 4 + headerLen src))
      ∨ (answer de src = .stop (.frameTooLarge (headerLen src))
        ∧ 4 ≤ src.length ∧ MAX_FRAME_BYTES < headerLen src)
      ∨ (answer de src = .item (outcomeOf (de (payloadOf src))) (src.drop (4 + headerLen src))
        ∧ FrameReady src) := by
  rcases decode_cases de src with ⟨_, h⟩ | ⟨_, h4, hbig⟩ | ⟨_, _, hr, _⟩ | ⟨_, _, hr, _⟩
  · exact .inl ⟨answer_of_short h, h⟩
  · exact .inr (.inl ⟨answer_of_tooLarge h4 hbig, h4, hbig⟩)
  · exact .inr (.inr ⟨answer_of_ready hr, hr⟩)
  · exact .inr (.inr ⟨answer_of_ready hr, hr⟩)

/-- **`MessageCodec` is prefix-stable**, whatever the deserializer does. -/
def codecDecoder (de : List UInt8 → Except ErrorKind Message) :
    Decoder UInt8 Outcome ProtocolError where
  step := answer de
  step_nil := answer_of_short (.inl (by simp))
  item_shorter := by
    intro b o rest h
    rcases answer_cases de b with ⟨he, _⟩ | ⟨he, _⟩ | ⟨he, h4, _, hlen⟩ <;> rw [he] at h <;> cases h
    rw [List.length_drop]
    omega
  item_append := by
    intro b o rest c h
    rcases answer_cases de b with ⟨he, _⟩ | ⟨he, _⟩ | ⟨he, hr⟩ <;> rw [he] at h <;> cases h
    rw [answer_of_ready (hr.append c), payloadOf_append hr, headerLen_append b c hr.1,
      List.drop_append_of_le_length hr.2.2]
  stop_append := by
    intro b e c h
    rcases answer_cases de b with ⟨he, _⟩ | ⟨he, h4, hbig⟩ | ⟨he, _⟩ <;> rw [he] at h <;> cases h
    rw [← headerLen_append b c h4] at hbig ⊢
    exact answer_of_tooLarge (by rw [List.length_append]; omega) hbig

/-! ## §6. The frames of `encode`. -/

theorem frameReady_frame {m : Message} (h : Fits m) (rest : List UInt8) :
    FrameReady (frame m ++ rest) := by
  unfold FrameReady
  rw [headerLen_frame h, List.length_append, frame_length]
  exact ⟨by omega, h, by omega⟩

theorem payloadOf_frame {m : Message} (h : Fits m) (rest : List UInt8) :
    payloadOf (frame m ++ rest) = Bincode.serialize m := by
  unfold payloadOf
  rw [headerLen_frame h, frame, List.append_assoc, List.drop_left' (putU32_length _),
    List.take_left' rfl]

theorem fits_lt {m : Message} (h : Fits m) : (Bincode.serialize m).length < lengthBound :=
  Nat.lt_of_le_of_lt h (by decide)

/-- A complete frame is decoded to its message, and exactly it is consumed. -/
theorem decode_frame {m : Message} (h : Fits m) (rest : List UInt8) :
    decode Bincode.deserialize (frame m ++ rest) = (.ok (some m), rest) := by
  have hde : Bincode.deserialize (Bincode.serialize m) = .ok m := by
    have := Bincode.deserialize_serialize m [] (fits_lt h)
    rwa [List.append_nil] at this
  rw [decode_of_ready (frameReady_frame h rest), payloadOf_frame h, hde, headerLen_frame h,
    ← frame_length, List.drop_left' rfl]

theorem answer_frame {m : Message} (h : Fits m) (rest : List UInt8) :
    answer Bincode.deserialize (frame m ++ rest) = .item (.message m) rest := by
  rw [answer, decode_frame h]

/-- A cut frame is not decoded. -/
theorem answer_cut_frame {m : Message} (h : Fits m) {p : List UInt8} (hp : p <+: frame m)
    (hne : p ≠ frame m) : answer Bincode.deserialize p = .more := by
  have hlt : p.length < (frame m).length := by
    rcases Nat.lt_or_ge p.length (frame m).length with hlt | hge
    · exact hlt
    · exact absurd (hp.eq_of_length_le hge) hne
  obtain ⟨q, hq⟩ := hp
  apply answer_of_short
  by_cases h4 : p.length < 4
  · exact .inl h4
  · right
    have hhead : headerLen p = (Bincode.serialize m).length := by
      rw [← headerLen_append p q (by omega), hq, ← List.append_nil (frame m)]
      exact headerLen_frame h []
    rw [hhead, ← frame_length]
    exact ⟨h, hlt⟩

/-- The decoder of the running program. -/
def messageDecoder : Decoder UInt8 Outcome ProtocolError := codecDecoder Bincode.deserialize

/-- **`encode` writes for `decode`.** -/
def messageFraming : Framing messageDecoder Message where
  ok := Fits
  frame := frame
  out := .message
  step_frame := fun _ c h => answer_frame h c
  step_partial := fun _ _ h hp hne => answer_cut_frame h hp hne

end Dshare.Protocol
