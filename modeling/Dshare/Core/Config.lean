/-
  Dshare.Core.Config
  ──────────────────
  **THE FILE ON THE DISK.**

  `Config` goes through TOML: the derives of the source say which entry each field has,
  how it is spelled and what a missing one stands for.  The TOML library itself turns
  documents into text and back; it is a parameter, and all that is asked of it is that
  it reads what it wrote, whatever order it wrote the entries in.

  The derives read more than they write: entries that no field has, an array in place of a
  record, and a variant as a table with its name for the only entry.  (What the library
  makes of a variant under a `[header]` with further entries is not modelled.)

    • `config_read_iff` — which documents are read as a given configuration;
    • `Config.load_save` — a save that succeeds is what the next load finds.
-/
import Dshare.Core.Layout
import Dshare.Lib.Document

namespace Dshare.Core

open Documents Dshare.Protocol

/-! ## §1. The records. -/

def DEFAULT_PORT : UInt16 := 24800

inductive Role where
  | server
  | client
  deriving DecidableEq

/-- Paths to files. -/
structure TlsConfig where
  cert : String
  key : String
  trust : String

structure Config where
  role : Role
  bindAddr : String
  serverAddr : Option String
  layout : Layout
  clipboardSync : Bool
  tls : Option TlsConfig

/-- `Layout::default`. -/
def Layout.default : Layout := ⟨.default, []⟩

/-- `Config::default`. -/
def Config.default : Config where
  role := .server
  bindAddr := "0.0.0.0:" ++ toString DEFAULT_PORT
  serverAddr := none
  layout := .default
  clipboardSync := true
  tls := none

/-! ## §2. Their entries. -/

/-- `#[serde(rename_all = "lowercase")]`. -/
def roleName : Named Role where
  name
    | .server => "server"
    | .client => "client"
  ofName s := if s = "server" then some .server else if s = "client" then some .client else none
  ofName_iff := by
    intro s role
    constructor
    · intro h
      split at h <;> grind
    · rintro rfl
      cases role <;> rfl

/-- `#[serde(rename_all = "lowercase")]`. -/
def edgeName : Named Edge where
  name
    | .left => "left"
    | .right => "right"
    | .top => "top"
    | .bottom => "bottom"
  ofName s :=
    if s = "left" then some .left
    else if s = "right" then some .right
    else if s = "top" then some .top
    else if s = "bottom" then some .bottom
    else none
  ofName_iff := by
    intro s edge
    constructor
    · intro h
      split at h <;> grind
    · rintro rfl
      cases edge <;> rfl

def u32 : Form UInt32 :=
  integer (fun n => n.toNat)
    (fun n => if 0 ≤ n ∧ n < 2 ^ 32 then some (.ofNat n.toNat) else none) (by
    intro n k
    have hlt : k.toNat < 2 ^ 32 := k.toNat_lt
    constructor
    · intro h
      obtain ⟨hfits, hk⟩ := Option.ite_none_right_eq_some.mp h
      have hn : (UInt32.ofNat n.toNat).toNat = n.toNat :=
        UInt32.toNat_ofNat_of_lt' (show n.toNat < 2 ^ 32 by omega)
      rw [← Option.some_inj.mp hk, hn]
      omega
    · rintro rfl
      have hfits : 0 ≤ (k.toNat : Int) ∧ (k.toNat : Int) < 2 ^ 32 := by omega
      rw [if_pos hfits, Int.toNat_natCast, UInt32.ofNat_toNat])

def i32 : Form Int32 :=
  integer Int32.toInt
    (fun n => if -2 ^ 31 ≤ n ∧ n < 2 ^ 31 then some (.ofInt n) else none) (by
    intro n k
    constructor
    · intro h
      obtain ⟨hfits, hk⟩ := Option.ite_none_right_eq_some.mp h
      rw [← Option.some_inj.mp hk, Int32.toInt_ofInt_of_le hfits.1 hfits.2]
    · rintro rfl
      have hfits : -2 ^ 31 ≤ k.toInt ∧ k.toInt < 2 ^ 31 := ⟨k.le_toInt, k.toInt_lt⟩
      rw [if_pos hfits, Int32.ofInt_toInt])

def screenFields : Fields ["width", "height"] Screen :=
  ((required "width" u32).both (required "height" u32) (by decide)).as
    (fun p => ⟨p.1, p.2⟩) (fun s => (s.width, s.height)) (fun _ => rfl)

-- the `uuid` crate's spellings of an identifier, the one it writes and the others it reads
variable (uuid : Form Uuid)

def peerScreenFields : Fields ["peer_id", "name", "edge", "offset", "screen"] PeerScreen :=
  ((required "peer_id" uuid).both
    ((required "name" text).both
      ((required "edge" edgeName.variant).both
        ((required "offset" i32).both (required "screen" screenFields.record)
          (by decide)) (by decide)) (by decide)) (by decide)).as
    (fun p => ⟨p.1, p.2.1, p.2.2.1, p.2.2.2.1, p.2.2.2.2⟩)
    (fun s => (s.peerId, s.name, s.edge, s.offset, s.screen)) (fun _ => rfl)

def layoutFields : Fields ["server_screen", "peers"] Layout :=
  ((required "server_screen" screenFields.record).both
    (withDefault "peers" (array (peerScreenFields uuid).record) []) (by decide)).as
    (fun p => ⟨p.1, p.2⟩) (fun l => (l.serverScreen, l.peers)) (fun _ => rfl)

def tlsFields : Fields ["cert", "key", "trust"] TlsConfig :=
  ((required "cert" text).both ((required "key" text).both (required "trust" text)
    (by decide)) (by decide)).as
    (fun p => ⟨p.1, p.2.1, p.2.2⟩) (fun t => (t.cert, t.key, t.trust)) (fun _ => rfl)

/-- Only `tls`, of the two that may be absent, has `#[serde(default)]`. -/
def configFields :
    Fields ["role", "bind_addr", "server_addr", "layout", "clipboard_sync", "tls"] Config :=
  ((required "role" roleName.variant).both
    ((required "bind_addr" text).both
      ((optional "server_addr" text none).both
        ((required "layout" (layoutFields uuid).record).both
          ((withDefault "clipboard_sync" boolean false).both
            (optional "tls" tlsFields.record (some none))
            (by decide)) (by decide)) (by decide)) (by decide)) (by decide)).as
    (fun p => ⟨p.1, p.2.1, p.2.2.1, p.2.2.2.1, p.2.2.2.2.1, p.2.2.2.2.2⟩)
    (fun c => (c.role, c.bindAddr, c.serverAddr, c.layout, c.clipboardSync, c.tls)) (fun _ => rfl)

def configForm : Form Config := (configFields uuid).record

/-! ## §3. What is read. -/

/-- How a screen may stand in a document: its entries among any others, or its values in
front of any others. -/
inductive Screen.Spelled (s : Screen) : Value → Prop where
  | table {es : List (String × Value)}
      (width : es.lookup "width" = some (.integer s.width.toNat))
      (height : es.lookup "height" = some (.integer s.height.toNat)) : s.Spelled (.table es)
  | array (others : List Value) :
      s.Spelled (.array (.integer s.width.toNat :: .integer s.height.toNat :: others))

inductive PeerScreen.Spelled (s : PeerScreen) : Value → Prop where
  | table {es : List (String × Value)}
      (peerId : ∃ v, es.lookup "peer_id" = some v ∧ uuid.read v = some s.peerId)
      (name : es.lookup "name" = some (.text s.name))
      (edge : ∃ v, es.lookup "edge" = some v ∧ edgeName.Spelled s.edge v)
      (offset : es.lookup "offset" = some (.integer s.offset.toInt))
      (screen : ∃ v, es.lookup "screen" = some v ∧ s.screen.Spelled v) : s.Spelled (.table es)
  | array {id edge screen : Value} (others : List Value) (peerId : uuid.read id = some s.peerId)
      (hedge : edgeName.Spelled s.edge edge) (hscreen : s.screen.Spelled screen) :
      s.Spelled (.array
        (id :: .text s.name :: edge :: .integer s.offset.toInt :: screen :: others))

/-- Without an entry for them, there are no peers. -/
inductive Layout.Spelled (l : Layout) : Value → Prop where
  | table {es : List (String × Value)}
      (serverScreen : ∃ v, es.lookup "server_screen" = some v ∧ l.serverScreen.Spelled v)
      (peers : (∃ vs, es.lookup "peers" = some (.array vs)
          ∧ List.Forall₂ (fun s v => s.Spelled uuid v) l.peers vs)
        ∨ es.lookup "peers" = none ∧ l.peers = []) : l.Spelled (.table es)
  | array {screen : Value} {peers : List Value} (others : List Value)
      (serverScreen : l.serverScreen.Spelled screen)
      (hpeers : List.Forall₂ (fun s v => s.Spelled uuid v) l.peers peers) :
      l.Spelled (.array (screen :: .array peers :: others))
  | alone {screen : Value} (serverScreen : l.serverScreen.Spelled screen)
      (hpeers : l.peers = []) : l.Spelled (.array [screen])

inductive TlsConfig.Spelled (t : TlsConfig) : Value → Prop where
  | table {es : List (String × Value)} (cert : es.lookup "cert" = some (.text t.cert))
      (key : es.lookup "key" = some (.text t.key))
      (trust : es.lookup "trust" = some (.text t.trust)) : t.Spelled (.table es)
  | array (others : List Value) :
      t.Spelled (.array (.text t.cert :: .text t.key :: .text t.trust :: others))

variable {uuid}

/-- A character for each byte. -/
def byteChars (bytes : List UInt8) : String :=
  String.ofList (bytes.map fun b => Char.ofNat b.toNat)

def charBytes (s : String) : List UInt8 := s.toList.map fun c => UInt8.ofNat c.toNat

theorem charBytes_byteChars (bytes : List UInt8) : charBytes (byteChars bytes) = bytes := by
  unfold charBytes byteChars
  rw [String.toList_ofList, List.map_map]
  refine (List.map_congr_left fun b _ => ?_).trans (List.map_id _)
  have hlt : b.toNat < 256 := b.toNat_lt
  have hvalid : b.toNat.isValidChar := .inl (by omega)
  have hchar : (Char.ofNat b.toNat).toNat = b.toNat := by
    rw [Char.ofNat, dif_pos hvalid]
    rfl
  show UInt8.ofNat (Char.ofNat b.toNat).toNat = b
  rw [hchar, UInt8.ofNat_toNat]

/-- A spelling of identifiers. -/
def charUuid : Form Uuid where
  write u := .text (byteChars u.bytes)
  read
    | .text s => if h : (charBytes s).length = 16 then some ⟨charBytes s, h⟩ else none
    | _ => none
  read_write := by
    intro u
    have hbytes : charBytes (byteChars u.bytes) = u.bytes := charBytes_byteChars u.bytes
    simp only [hbytes, u.length_bytes, dif_pos]
  read_same := by
    intro v w h
    cases h <;> rfl

/-- The TOML library. -/
structure Toml where
  toStringPretty : List (String × Value) → Except String String
  fromStr : String → Option (List (String × Value))
  /-- It reads what it wrote; it may have ordered the entries. -/
  fromStr_toStringPretty : ∀ es s, toStringPretty es = .ok s →
    ∃ fs, fromStr s = some fs ∧ Same (.table es) (.table fs)

/-- The default configuration, with the clipboard shared or not, as it is written. -/
def defaultText (clipboardSync : Bool) : String :=
  "role = \"server\"\nbind_addr = \"0.0.0.0:24800\"\nclipboard_sync = "
    ++ (if clipboardSync then "true" else "false")
    ++ "\n\n[layout]\npeers = []\n\n[layout.server_screen]\nwidth = 1920\nheight = 1080\n"

def defaultScreen : Value := .table [("width", .integer 1920), ("height", .integer 1080)]

/-- A table stands behind the other entries. -/
def defaultEntries (clipboardSync : Bool) : List (String × Value) :=
  [("role", .text "server"), ("bind_addr", .text "0.0.0.0:24800"),
    ("clipboard_sync", .boolean clipboardSync),
    ("layout", .table [("peers", .array []), ("server_screen", defaultScreen)])]

theorem same_defaultEntries (clipboardSync : Bool) :
    Same
      (.table [("role", .text "server"), ("bind_addr", .text "0.0.0.0:24800"),
        ("layout", .table [("server_screen", defaultScreen), ("peers", .array [])]),
        ("clipboard_sync", .boolean clipboardSync)])
      (.table (defaultEntries clipboardSync)) := by
  have hlayout : Same (.table [("server_screen", defaultScreen), ("peers", .array [])])
      (.table [("peers", .array []), ("server_screen", defaultScreen)]) :=
    .entry [("peers", _)] rfl (.refl _) (.refl _)
  refine .entry [] rfl (.refl _) (.entry [] rfl (.refl _) ?_)
  exact .entry [("clipboard_sync", _)] rfl hlayout (.refl _)

/-- A library that knows the default configuration only. -/
def defaultToml : Toml where
  toStringPretty
    | [("role", .text "server"), ("bind_addr", .text "0.0.0.0:24800"),
        ("layout", .table [("server_screen",
            .table [("width", .integer 1920), ("height", .integer 1080)]),
          ("peers", .array [])]),
        ("clipboard_sync", .boolean clipboardSync)] => .ok (defaultText clipboardSync)
    | _ => .error "unsupported"
  fromStr s :=
    if s = defaultText true then some (defaultEntries true)
    else if s = defaultText false then some (defaultEntries false)
    else none
  fromStr_toStringPretty := by
    intro es s h
    split at h
    · rename_i clipboardSync
      cases h
      refine ⟨defaultEntries clipboardSync, ?_, same_defaultEntries clipboardSync⟩
      -- the two texts differ, so each is read as what it was written from
      cases clipboardSync with
      | true => exact if_pos rfl
      | false => exact (if_neg (by decide +kernel)).trans (if_pos rfl)
    · cases h

/-- The contents of the files, each of them under one path. -/
abbrev Disk := String → Option (List UInt8)

/-- What the operating system refuses to a save, and with which text. -/
inductive SaveFault where
  | createDir (e : String)
  | createFile (e : String)
  /-- After `n` bytes. -/
  | write (n : Nat) (e : String)

variable (uuid) (toml : Toml)

/-- `Config::load`; neither caller looks at the error. -/
def Config.load (disk : Disk) (path : String) : Option Config :=
  (disk path).bind fun bytes =>
    (String.fromUTF8? ⟨bytes.toArray⟩).bind fun raw =>
      (toml.fromStr raw).bind fun es => (configForm uuid).read (.table es)

/-- `fs::write`, which empties the file first. -/
def fsWrite (disk : Disk) (path text : String) : Option SaveFault → Except String Unit × Disk
  | some (.createFile e) => (.error e, disk)
  | some (.write n e) =>
      (.error e, Function.update disk path (some (text.toByteArray.data.toList.take n)))
  | _ => (.ok (), Function.update disk path (some text.toByteArray.data.toList))

/-- `Config::save`. -/
def Config.save (c : Config) (path : String) (fault : Option SaveFault) (disk : Disk) :
    Except String Unit × Disk :=
  match fault with
  | some (.createDir e) => (.error e, disk)
  | _ =>
      match toml.toStringPretty ((configFields uuid).write c) with
      | .error e => (.error e, disk)
      | .ok text => fsWrite disk path text fault

variable {uuid toml}

theorem fromUTF8_toByteArray (text : String) :
    String.fromUTF8? ⟨text.toByteArray.data.toList.toArray⟩ = some text := by
  simp [String.fromUTF8?, text.isValidUTF8, String.fromUTF8]

/-- The fault strikes when the file has been emptied. -/
def SaveFault.tears : SaveFault → Bool
  | .write _ _ => true
  | _ => false

variable (uuid toml) in
/-- **What a save does**: nothing, or it writes the file, all of it or a part. -/
theorem Config.save_cases (c : Config) (path : String) (fault : Option SaveFault) (disk : Disk) :
    (∃ e, c.save uuid toml path fault disk = (.error e, disk))
      ∨ ∃ text r bytes, toml.toStringPretty ((configFields uuid).write c) = .ok text
        ∧ c.save uuid toml path fault disk = (r, Function.update disk path (some bytes))
        ∧ (r = .ok () ∧ bytes = text.toByteArray.data.toList
          ∨ (∃ e, r = .error e) ∧ fault.any SaveFault.tears = true) := by
  unfold save
  cases htext : toml.toStringPretty ((configFields uuid).write c) with
  | error e =>
      left
      cases fault with
      | none => exact ⟨e, rfl⟩
      | some fault => cases fault <;> exact ⟨_, rfl⟩
  | ok text =>
      cases fault with
      | none => exact .inr ⟨text, _, _, rfl, rfl, .inl ⟨rfl, rfl⟩⟩
      | some fault =>
          cases fault with
          | createDir e => exact .inl ⟨e, rfl⟩
          | createFile e => exact .inl ⟨e, rfl⟩
          | write n e => exact .inr ⟨text, _, _, rfl, rfl, .inr ⟨⟨e, rfl⟩, rfl⟩⟩

/-- **A save that succeeds is what the next load finds.** -/
theorem Config.load_save {c : Config} {path : String} {fault : Option SaveFault}
    {disk disk' : Disk} (h : c.save uuid toml path fault disk = (.ok (), disk')) :
    Config.load uuid toml disk' path = some c := by
  rcases c.save_cases uuid toml path fault disk with ⟨e, he⟩ | ⟨text, r, bytes, htext, he, hr⟩
  · rw [he] at h
    cases h
  · rw [he] at h
    obtain ⟨rfl, rfl⟩ := Prod.mk.inj h
    rcases hr with ⟨_, rfl⟩ | ⟨⟨e, hbad⟩, _⟩
    · obtain ⟨w, hw, hsame⟩ := toml.fromStr_toStringPretty _ _ htext
      unfold load
      rw [Function.update_self, Option.bind_some, fromUTF8_toByteArray, Option.bind_some, hw,
        Option.bind_some]
      exact (configForm uuid).read_of_same hsame
    · cases hbad

variable (uuid toml) in
/-- A save that fails leaves the disk alone, unless it was cut short; and no save touches
another file. -/
theorem Config.save_frame (c : Config) (path : String) (fault : Option SaveFault) (disk : Disk) :
    (∀ e disk', c.save uuid toml path fault disk = (.error e, disk') →
        disk' = disk ∨ fault.any SaveFault.tears = true)
      ∧ ∀ other, other ≠ path → (c.save uuid toml path fault disk).2 other = disk other := by
  rcases c.save_cases uuid toml path fault disk with ⟨e, he⟩ | ⟨text, r, bytes, _, he, hr⟩
  · rw [he]
    refine ⟨?_, fun _ _ => rfl⟩
    intro e' disk' h
    exact .inl (Prod.mk.inj h).2.symm
  · rw [he]
    refine ⟨?_, fun other hother => Function.update_of_ne hother _ _⟩
    intro e' disk' h
    rcases hr with ⟨rfl, _⟩ | ⟨_, htears⟩
    · cases h
    · exact .inr htears

end Dshare.Core
