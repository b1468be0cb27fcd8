/-
  Dshare.Protocol.Message
  ───────────────────────
  The wire protocol's data: the twelve messages the two peers exchange, the
  records inside them, and the errors of the codec.

  Fixed-width fields keep their width (`u16` is `UInt16`, `i32` is `Int32`), a
  `String` is text, a `Vec<u8>` is a byte list, and a `Uuid` is sixteen bytes.
-/

namespace Dshare.Protocol

/-- `PROTOCOL_VERSION`. -/
def PROTOCOL_VERSION : UInt16 := 1

/-- A 128-bit identifier. -/
structure Uuid where
  bytes : List UInt8
  length_bytes : bytes.length = 16
  deriving DecidableEq

/-- `Uuid::nil`. -/
def Uuid.nil : Uuid := ⟨List.replicate 16 0, rfl⟩

structure ScreenInfo where
  width : UInt32
  height : UInt32
  deriving DecidableEq

structure Hello where
  protocolVersion : UInt16
  peerId : Uuid
  hostname : String
  screen : ScreenInfo
  deriving DecidableEq

inductive MouseButton where
  | left
  | right
  | middle
  | back
  | forward
  deriving DecidableEq

structure KeyModifiers where
  shift : Bool
  ctrl : Bool
  alt : Bool
  /-- `meta` in the source. -/
  metaKey : Bool
  deriving DecidableEq

/-- All messages exchanged between peers, in declaration order. -/
inductive Message where
  | hello (h : Hello)
  | helloAck (accepted : Bool) (reason : Option String)
  /-- Cursor entered the client's screen at this position. -/
  | enterScreen (x y : Int32)
  /-- Cursor left, stop forwarding input. -/
  | leaveScreen
  /-- Relative mouse motion while the cursor is on the remote screen. -/
  | mouseMove (dx dy : Int32)
  /-- Absolute warp. -/
  | mouseWarp (x y : Int32)
  | mouseButton (button : MouseButton) (pressed : Bool)
  | mouseWheel (dx dy : Int32)
  /-- `keycode` is a Linux evdev key code. -/
  | keyEvent (keycode : UInt32) (pressed : Bool) (modifiers : KeyModifiers)
  /-- Plain UTF-8 for now. -/
  | clipboardUpdate (mime : String) (data : List UInt8)
  | ping (nonce : UInt64)
  | pong (nonce : UInt64)
  deriving DecidableEq

/-- What `bincode` reports on a payload it cannot read.  The last two are its
`Custom` errors: an unknown variant index, and a `Uuid` of another length. -/
inductive ErrorKind where
  | unexpectedEof
  | invalidUtf8Encoding
  | invalidBoolEncoding (byte : UInt8)
  | invalidTagEncoding (tag : UInt8)
  | unknownVariant (index : Nat)
  | uuidLength (length : Nat)
  deriving DecidableEq

inductive ProtocolError where
  | io (text : String)
  | encode (e : ErrorKind)
  | frameTooLarge (len : Nat)
  | versionMismatch (peer ours : UInt16)
  deriving DecidableEq

end Dshare.Protocol
