/-
  Dshare.Protocol.Bincode
  ───────────────────────
  **THE BYTES OF A MESSAGE.**

  The derived `Serialize`/`Deserialize` of `Message` under `bincode` 1.3's
  top-level functions: a `u32` little-endian variant index, then the fields in
  declaration order; little-endian integers of fixed width; one byte 0/1 for a
  `bool` and for an `Option`'s tag; a `u64` length in front of a `String`, a
  `Vec<u8>` and a `Uuid`.

  Every piece is a `WireFormat.Format`, so it reads what it writes
  (`decode_encode`) and reads nothing else (`encode_decode`).  `deserialize`
  itself is not exact: it returns as soon as the value is complete and leaves
  what follows it unread (`deserialize_eq_ok_iff`).
-/
import Dshare.Lib.WireFormat
import Dshare.Protocol.Message

namespace Dshare.Protocol.Bincode

open WireFormat

/-! ## §1. Fields. -/

def u16 : Format ErrorKind UInt16 := uint16 .unexpectedEof

def u32 : Format ErrorKind UInt32 := uint32 .unexpectedEof

def u64 : Format ErrorKind UInt64 := uint64 .unexpectedEof

def i32 : Format ErrorKind Int32 := int32 .unexpectedEof

def bool : Format ErrorKind Bool := WireFormat.bool .unexpectedEof .invalidBoolEncoding

def string : Format ErrorKind String := WireFormat.string .unexpectedEof .invalidUtf8Encoding

def vecU8 : Format ErrorKind (List UInt8) := bytes .unexpectedEof

def optionString : Format ErrorKind (Option String) :=
  string.option .unexpectedEof .invalidTagEncoding

/-- `serialize_bytes` of the sixteen bytes; `from_slice` refuses another length. -/
def uuid : Format ErrorKind Uuid :=
  vecU8.refine
    (fun bs => if h : bs.length = 16 then .ok ⟨bs, h⟩ else .error (.uuidLength bs.length))
    Uuid.bytes
    (fun u => by simp [u.length_bytes])
    (fun bs u h => by
      by_cases hl : bs.length = 16
      · simp only [hl, dite_true, Except.ok.injEq] at h
        rw [← h]
      · simp [hl] at h)

def screenInfo : Format ErrorKind ScreenInfo :=
  (u32.pair u32).iso (fun p => ⟨p.1, p.2⟩) (fun s => (s.width, s.height))
    (fun _ => rfl) (fun _ => rfl)

def hello : Format ErrorKind Hello :=
  (u16.pair (uuid.pair (string.pair screenInfo))).iso
    (fun p => ⟨p.1, p.2.1, p.2.2.1, p.2.2.2⟩)
    (fun h => (h.protocolVersion, h.peerId, h.hostname, h.screen))
    (fun _ => rfl) (fun _ => rfl)

/-- The variant index of a button. -/
def buttonIndex : MouseButton → Nat
  | .left => 0
  | .right => 1
  | .middle => 2
  | .back => 3
  | .forward => 4

def buttonOfIndex : Nat → Except ErrorKind MouseButton
  | 0 => .ok .left
  | 1 => .ok .right
  | 2 => .ok .middle
  | 3 => .ok .back
  | 4 => .ok .forward
  | i => .error (.unknownVariant i)

theorem buttonIndex_of_ok {i : Nat} {b : MouseButton} (h : buttonOfIndex i = .ok b) :
    buttonIndex b = i := by
  unfold buttonOfIndex at h
  split at h <;> cases h <;> rfl

def mouseButton : Format ErrorKind MouseButton :=
  u32.refine (fun i => buttonOfIndex i.toNat) (fun b => UInt32.ofNat (buttonIndex b))
    (fun b => by cases b <;> rfl)
    (fun i b h => by rw [buttonIndex_of_ok h, UInt32.ofNat_toNat])

def keyModifiers : Format ErrorKind KeyModifiers :=
  (bool.pair (bool.pair (bool.pair bool))).iso
    (fun p => ⟨p.1, p.2.1, p.2.2.1, p.2.2.2⟩)
    (fun m => (m.shift, m.ctrl, m.alt, m.metaKey))
    (fun _ => rfl) (fun _ => rfl)

/-! ## §2. Messages. -/

/-- The variant index of a message. -/
def variantIndex : Message → Nat
  | .hello _ => 0
  | .helloAck _ _ => 1
  | .enterScreen _ _ => 2
  | .leaveScreen => 3
  | .mouseMove _ _ => 4
  | .mouseWarp _ _ => 5
  | .mouseButton _ _ => 6
  | .mouseWheel _ _ => 7
  | .keyEvent _ _ _ => 8
  | .clipboardUpdate _ _ => 9
  | .ping _ => 10
  | .pong _ => 11

/-- The fields of a message, in declaration order. -/
def encodeFields : Message → List UInt8
  | .hello h => hello.encode h
  | .helloAck accepted reason => (bool.pair optionString).encode (accepted, reason)
  | .enterScreen x y => (i32.pair i32).encode (x, y)
  | .leaveScreen => []
  | .mouseMove dx dy => (i32.pair i32).encode (dx, dy)
  | .mouseWarp x y => (i32.pair i32).encode (x, y)
  | .mouseButton button pressed => (mouseButton.pair bool).encode (button, pressed)
  | .mouseWheel dx dy => (i32.pair i32).encode (dx, dy)
  | .keyEvent keycode pressed modifiers =>
      (u32.pair (bool.pair keyModifiers)).encode (keycode, pressed, modifiers)
  | .clipboardUpdate mime data => (string.pair vecU8).encode (mime, data)
  | .ping nonce => u64.encode nonce
  | .pong nonce => u64.encode nonce

/-- Read the fields of the variant with this index. -/
def decodeFields (variant : Nat) (b : List UInt8) :
    Except ErrorKind (Message × List UInt8) :=
  match variant with
  | 0 => hello.decodeAs .hello b
  | 1 => (bool.pair optionString).decodeAs (fun p => .helloAck p.1 p.2) b
  | 2 => (i32.pair i32).decodeAs (fun p => .enterScreen p.1 p.2) b
  | 3 => .ok (.leaveScreen, b)
  | 4 => (i32.pair i32).decodeAs (fun p => .mouseMove p.1 p.2) b
  | 5 => (i32.pair i32).decodeAs (fun p => .mouseWarp p.1 p.2) b
  | 6 => (mouseButton.pair bool).decodeAs (fun p => .mouseButton p.1 p.2) b
  | 7 => (i32.pair i32).decodeAs (fun p => .mouseWheel p.1 p.2) b
  | 8 => (u32.pair (bool.pair keyModifiers)).decodeAs
      (fun p => .keyEvent p.1 p.2.1 p.2.2) b
  | 9 => (string.pair vecU8).decodeAs (fun p => .clipboardUpdate p.1 p.2) b
  | 10 => u64.decodeAs .ping b
  | 11 => u64.decodeAs .pong b
  | i => .error (.unknownVariant i)

theorem decodeFields_encodeFields (m : Message) (rest : List UInt8)
    (h : (encodeFields m).length < lengthBound) :
    decodeFields (variantIndex m) (encodeFields m ++ rest) = .ok (m, rest) := by
  cases m <;> simp only [variantIndex, encodeFields, decodeFields] at h ⊢
  case leaveScreen => rfl
  all_goals exact Format.decodeAs_encode _ _ _ rest h

theorem encodeFields_of_decodeFields {variant : Nat} {b rest : List UInt8} {m : Message}
    (h : decodeFields variant b = .ok (m, rest)) :
    variant = variantIndex m ∧ b = encodeFields m ++ rest := by
  unfold decodeFields at h
  split at h
  case h_4 =>
    cases h
    exact ⟨rfl, rfl⟩
  case h_13 => cases h
  all_goals
    obtain ⟨a, rfl, hb⟩ := Format.decodeAs_ok h
    exact ⟨rfl, hb⟩

theorem variantIndex_lt (m : Message) : variantIndex m < 12 := by
  cases m <;> simp [variantIndex]

theorem toNat_variantIndex (m : Message) : (UInt32.ofNat (variantIndex m)).toNat = variantIndex m :=
  UInt32.toNat_ofNat_of_lt (Nat.lt_trans (variantIndex_lt m) (by decide))

/-- **The format of `Message`.** -/
def message : Format ErrorKind Message where
  encode m := u32.encode (UInt32.ofNat (variantIndex m)) ++ encodeFields m
  decode b :=
    match u32.decode b with
    | .error e => .error e
    | .ok (variant, rest) => decodeFields variant.toNat rest
  decode_encode := by
    intro m rest h
    have hf : (encodeFields m).length < lengthBound := by
      rw [List.length_append] at h
      omega
    have hv : (u32.encode (UInt32.ofNat (variantIndex m))).length < lengthBound := by
      simp [u32, lengthBound]
    simp only [List.append_assoc, u32.decode_encode _ _ hv, toNat_variantIndex,
      decodeFields_encodeFields m rest hf]
  encode_decode := by
    intro b m rest h
    cases hd : u32.decode b with
    | error e => simp [hd] at h
    | ok p =>
        obtain ⟨variant, r⟩ := p
        simp only [hd] at h
        obtain ⟨hv, hr⟩ := encodeFields_of_decodeFields h
        rw [u32.encode_decode b _ r hd, hr, ← hv, UInt32.ofNat_toNat, List.append_assoc]

/-! ## §3. The top-level functions. -/

/-- `bincode::serialize`. -/
def serialize (m : Message) : List UInt8 := message.encode m

/-- `bincode::deserialize`: the value at the front, trailing bytes allowed. -/
def deserialize (b : List UInt8) : Except ErrorKind Message :=
  match message.decode b with
  | .ok (m, _) => .ok m
  | .error e => .error e

theorem deserialize_serialize (m : Message) (rest : List UInt8)
    (h : (serialize m).length < lengthBound) :
    deserialize (serialize m ++ rest) = .ok m := by
  unfold deserialize serialize
  rw [message.decode_encode m rest h]

/-- What `deserialize` accepts starts with the encoding of its result. -/
theorem serialize_of_deserialize {b : List UInt8} {m : Message}
    (h : deserialize b = .ok m) : ∃ rest, b = serialize m ++ rest := by
  unfold deserialize at h
  cases hd : message.decode b with
  | error e => simp [hd] at h
  | ok p =>
      obtain ⟨m', rest⟩ := p
      simp only [hd, Except.ok.injEq] at h
      exact ⟨rest, h ▸ message.encode_decode b m' rest hd⟩

/-- **`deserialize` accepts an encoding and whatever follows it**, and nothing else. -/
theorem deserialize_eq_ok_iff {b : List UInt8} {m : Message} (hb : b.length < lengthBound) :
    deserialize b = .ok m ↔ ∃ rest, b = serialize m ++ rest := by
  constructor
  · exact serialize_of_deserialize
  · intro hrest
    obtain ⟨rest, rfl⟩ := hrest
    rw [List.length_append] at hb
    exact deserialize_serialize m rest (by omega)

end Dshare.Protocol.Bincode
