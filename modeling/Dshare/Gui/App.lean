/-
  Dshare.Gui.App
  ──────────────
  **THE CONFIGURATION GUI, FRAME BY FRAME.**

  egui calls `update` for every frame; what the user does in it is the frame's input.
  The top panel comes first, so a click on "Save" writes what the frames before have
  made of the configuration.  The disk stands beside the window, with a note of the last
  save that reached the file.

    • `Window.shows_of_run` — what any run of frames can change, and that none panics;
    • `gui_persists` — what the programs started afterwards find.
-/
import Dshare.Lib.Transition
import Dshare.Session.Startup

namespace Dshare.Gui

open Documents Transition Dshare.Core Dshare.Protocol Dshare.Session

/-! ## §1. The window. -/

inductive Tab where
  | general
  | layout
  | status
  deriving DecidableEq

structure App where
  config : Config
  configPath : String
  tab : Tab
  status : String

/-- What the user does in the "General" tab; a text field reports its text, which may be any,
when it was changed. -/
structure GeneralInput where
  server : Bool
  client : Bool
  bindAddr : Option String
  serverAddr : Option String
  clipboardSync : Bool

/-- What the user does in the row of a peer. -/
structure RowInput where
  name : Option String
  left : Bool
  right : Bool
  top : Bool
  bottom : Bool
  offset : Option Int32
  width : Option UInt32
  height : Option UInt32
  remove : Bool

structure LayoutInput where
  width : Option UInt32
  height : Option UInt32
  row : Nat → RowInput
  /-- "+ Add peer", and the identifier `Uuid::new_v4` returns. -/
  add : Option Uuid

structure FrameInput where
  clickGeneral : Bool
  clickLayout : Bool
  clickStatus : Bool
  /-- "Save", and what goes wrong then. -/
  save : Option (Option SaveFault)
  general : GeneralInput
  layout : LayoutInput

/-- Nothing is done. -/
def GeneralInput.idle : GeneralInput := ⟨false, false, none, none, false⟩

def RowInput.idle : RowInput := ⟨none, false, false, false, false, none, none, none, false⟩

def LayoutInput.idle : LayoutInput := ⟨none, none, fun _ => .idle, none⟩

/-! ## §2. The tabs. -/

/-- `general_tab`. -/
def generalTab (i : GeneralInput) (cfg : Config) : Config :=
  let cfg := if i.server then { cfg with role := .server } else cfg
  let cfg := if i.client then { cfg with role := .client } else cfg
  let cfg := { cfg with bindAddr := i.bindAddr.getD cfg.bindAddr }
  let cfg :=
    match i.serverAddr with
    | some s => { cfg with serverAddr := if s.isEmpty then none else some s }
    | none => cfg
  if i.clipboardSync then { cfg with clipboardSync := !cfg.clipboardSync } else cfg

/-- The widgets of a row. -/
def RowInput.edit (i : RowInput) (peer : PeerScreen) : PeerScreen :=
  let edge := if i.left then .left else peer.edge
  let edge := if i.right then .right else edge
  let edge := if i.top then .top else edge
  let edge := if i.bottom then .bottom else edge
  { peer with
    name := i.name.getD peer.name
    edge := edge
    offset := i.offset.getD peer.offset
    screen := ⟨i.width.getD peer.screen.width, i.height.getD peer.screen.height⟩ }

/-- The loop over the peers, from the index `i` on: the rows, and the last of them whose
"✕" was clicked. -/
def peerRows (row : Nat → RowInput) : Nat → Option Nat → List PeerScreen →
    List PeerScreen × Option Nat
  | _, remove, [] => ([], remove)
  | i, remove, peer :: peers =>
      let rest := peerRows row (i + 1) (if (row i).remove then some i else remove) peers
      ((row i).edit peer :: rest.1, rest.2)

/-- `Vec::remove`, which panics behind the end. -/
def vecRemove {α : Type} (as : List α) (i : Nat) : Option (List α) :=
  if i < as.length then some (as.eraseIdx i) else none

/-- `layout_tab`, if it does not panic; the preview draws and changes nothing. -/
def layoutTab (i : LayoutInput) (cfg : Config) : Option Config :=
  let screen : Screen :=
    ⟨i.width.getD cfg.layout.serverScreen.width, i.height.getD cfg.layout.serverScreen.height⟩
  let rows := peerRows i.row 0 none cfg.layout.peers
  let kept :=
    match rows.2 with
    | some k => vecRemove rows.1 k
    | none => some rows.1
  kept.map fun peers =>
    let added := i.add.toList.map fun peerId =>
      { peerId := peerId, name := "peer", edge := .right, offset := 0, screen := .default }
    { cfg with layout := ⟨screen, peers ++ added⟩ }

/-! ## §3. Frames. -/

/-- The last save that reached the file. -/
inductive LastSave where
  | none
  | saved (config : Config)
  | torn

/-- The window, the disk, and the note. -/
structure Window where
  app : App
  disk : Disk
  lastSave : LastSave

variable (uuid : Form Uuid) (toml : Toml)

/-- `App::load_or_default`. -/
def App.loadOrDefault (env : Env) (disk : Disk) : App :=
  let path := defaultPath env
  ⟨(Config.load uuid toml disk path).getD .default, path, .general, ""⟩

/-- `App::save`. -/
def Window.save (w : Window) (fault : Option SaveFault) : Window :=
  match w.app.config.save uuid toml w.app.configPath fault w.disk with
  | (.ok (), disk) =>
      { app := { w.app with status := "saved to " ++ w.app.configPath }
        disk := disk
        lastSave := .saved w.app.config }
  | (.error e, disk) =>
      { app := { w.app with status := "save failed: " ++ e }
        disk := disk
        lastSave := if fault.any SaveFault.tears then .torn else w.lastSave }

/-- The top panel. -/
def Window.topPanel (w : Window) (i : FrameInput) : Window :=
  let tab := if i.clickGeneral then .general else w.app.tab
  let tab := if i.clickLayout then .layout else tab
  let tab := if i.clickStatus then .status else tab
  let w := { w with app := { w.app with tab := tab } }
  match i.save with
  | some fault => w.save uuid toml fault
  | none => w

/-- `App::update`, if it does not panic. -/
def Window.frame (w : Window) (i : FrameInput) : Option Window :=
  let w := w.topPanel uuid toml i
  match w.app.tab with
  | .general => some { w with app := { w.app with config := generalTab i.general w.app.config } }
  | .layout =>
      (layoutTab i.layout w.app.config).map fun config =>
        { w with app := { w.app with config := config } }
  | .status => some w

/-- The window, opened on a disk. -/
def Window.opened (env : Env) (disk : Disk) : Window :=
  ⟨.loadOrDefault uuid toml env disk, disk, .none⟩

def gui (env : Env) (disk : Disk) : System Window FrameInput :=
  ⟨.opened uuid toml env disk, Window.frame uuid toml⟩

/-! ## §4. What a run of frames can change. -/

variable {uuid toml}

/-- The identifiers of the peers. -/
def peerIds (cfg : Config) : List Uuid := cfg.layout.peers.map PeerScreen.peerId

theorem peerRows_ids (row : Nat → RowInput) (peers : List PeerScreen) :
    ∀ (i : Nat) (remove : Option Nat),
      (peerRows row i remove peers).1.map PeerScreen.peerId = peers.map PeerScreen.peerId := by
  induction peers with
  | nil => intro i remove; rfl
  | cons peer peers ih =>
      intro i remove
      show peer.peerId :: _ = _
      rw [ih]
      rfl

/-- The row to be removed is one of the rows. -/
theorem peerRows_remove (row : Nat → RowInput) (peers : List PeerScreen) :
    ∀ (i : Nat) (remove : Option Nat) (k : Nat), (peerRows row i remove peers).2 = some k →
      remove = some k ∨ i ≤ k ∧ k < i + peers.length := by
  induction peers with
  | nil => intro i remove k h; exact .inl h
  | cons peer peers ih =>
      intro i remove k h
      rw [List.length_cons]
      rcases ih (i + 1) _ k h with hlast | hlater
      · by_cases hrow : (row i).remove
        · rw [if_pos hrow] at hlast
          have hk : i = k := Option.some.inj hlast
          right
          omega
        · rw [if_neg hrow] at hlast
          exact .inl hlast
      · right
        omega

/-- **The "Layout" tab does not panic**; it changes the layout only, where it drops one
identifier at most and adds one at most. -/
theorem layoutTab_spec (i : LayoutInput) (cfg : Config) :
    ∃ layout, layoutTab i cfg = some { cfg with layout := layout }
      ∧ (layout.peers.map PeerScreen.peerId).Sublist (peerIds cfg ++ i.add.toList) := by
  have hids := peerRows_ids i.row cfg.layout.peers 0 none
  have hkept : ∃ peers, (match (peerRows i.row 0 none cfg.layout.peers).2 with
        | some k => vecRemove (peerRows i.row 0 none cfg.layout.peers).1 k
        | none => some (peerRows i.row 0 none cfg.layout.peers).1) = some peers
      ∧ (peers.map PeerScreen.peerId).Sublist (peerIds cfg) := by
    unfold peerIds
    rw [← hids]
    cases hremove : (peerRows i.row 0 none cfg.layout.peers).2 with
    | none => exact ⟨_, rfl, List.Sublist.refl _⟩
    | some k =>
        have hlength := congrArg List.length hids
        rw [List.length_map, List.length_map] at hlength
        have hk : k < (peerRows i.row 0 none cfg.layout.peers).1.length := by
          rcases peerRows_remove i.row cfg.layout.peers 0 none k hremove with hnone | hrange
          · cases hnone
          · omega
        exact ⟨_, if_pos hk, (List.eraseIdx_sublist _ _).map _⟩
  obtain ⟨peers, hpeers, hsub⟩ := hkept
  refine ⟨_, congrArg (Option.map _) hpeers, ?_⟩
  rw [List.map_append, List.map_map]
  refine hsub.append ?_
  cases i.add <;> exact List.Sublist.refl _

theorem generalTab_spec (i : GeneralInput) (cfg : Config) :
    (generalTab i cfg).tls = cfg.tls ∧ (generalTab i cfg).layout = cfg.layout
      ∧ ((generalTab i cfg).serverAddr = some "" → cfg.serverAddr = some "") := by
  obtain ⟨server, client, bindAddr, serverAddr, clipboardSync⟩ := i
  have haddr : ∀ s : String, (if s.isEmpty then none else some s) ≠ some "" := by
    intro s h
    by_cases hs : s.isEmpty
    · rw [if_pos hs] at h
      cases h
    · rw [if_neg hs] at h
      exact hs (by rw [Option.some.inj h]; rfl)
  cases serverAddr with
  | none => cases server <;> cases client <;> cases clipboardSync <;> exact ⟨rfl, rfl, fun h => h⟩
  | some s =>
      cases server <;> cases client <;> cases clipboardSync <;>
        exact ⟨rfl, rfl, fun h => absurd h (haddr s)⟩

variable (uuid toml) in
/-- What a save does to the window. -/
theorem Window.save_spec (w : Window) (fault : Option SaveFault) :
    (w.save uuid toml fault).app.config = w.app.config
      ∧ (w.save uuid toml fault).app.configPath = w.app.configPath := by
  unfold save
  split <;> exact ⟨rfl, rfl⟩

variable (uuid toml) in
theorem Window.topPanel_spec (w : Window) (i : FrameInput) :
    (w.topPanel uuid toml i).app.config = w.app.config
      ∧ (w.topPanel uuid toml i).app.configPath = w.app.configPath := by
  unfold topPanel
  cases i.save with
  | none => exact ⟨rfl, rfl⟩
  | some fault => exact save_spec uuid toml _ fault

variable (uuid toml) in
/-- The central panel changes the configuration and nothing else. -/
theorem Window.frame_spec (w : Window) (i : FrameInput) :
    ∃ cfg, w.frame uuid toml i
        = some { w.topPanel uuid toml i with
            app := { (w.topPanel uuid toml i).app with config := cfg } }
      ∧ cfg.tls = w.app.config.tls
      ∧ (cfg.serverAddr = some "" → w.app.config.serverAddr = some "")
      ∧ (peerIds cfg).Sublist (peerIds w.app.config ++ i.layout.add.toList) := by
  have hconfig := (w.topPanel_spec uuid toml i).1
  simp only [frame]
  generalize w.topPanel uuid toml i = v at hconfig ⊢
  cases htab : v.app.tab with
  | status =>
      refine ⟨w.app.config, ?_, rfl, fun h => h, List.sublist_append_left _ _⟩
      simp only [← hconfig, ← htab]
  | general =>
      obtain ⟨htls, hlayout, haddr⟩ := generalTab_spec i.general w.app.config
      refine ⟨generalTab i.general w.app.config, ?_, htls, haddr, ?_⟩
      · simp only [hconfig]
      · unfold peerIds
        rw [hlayout]
        exact List.sublist_append_left _ _
  | layout =>
      obtain ⟨layout, htabs, hids⟩ := layoutTab_spec i.layout w.app.config
      refine ⟨{ w.app.config with layout := layout }, ?_, rfl, fun h => h, hids⟩
      simp only [hconfig, htabs, Option.map_some]

/-! ## §5. Runs. -/

/-- What the frames may make of the configuration `loaded`, having drawn the identifiers
`drawn`: no peer changes places or comes back, the certificate is left alone, and an emptied
server address is no address. -/
structure EditOf (loaded : Config) (drawn : List Uuid) (cfg : Config) : Prop where
  peers : (peerIds cfg).Sublist (peerIds loaded ++ drawn)
  tls : cfg.tls = loaded.tls
  serverAddr : cfg.serverAddr = some "" → loaded.serverAddr = some ""

theorem EditOf.more {loaded cfg : Config} {drawn : List Uuid} (h : EditOf loaded drawn cfg)
    (more : List Uuid) : EditOf loaded (drawn ++ more) cfg where
  peers := by
    rw [← List.append_assoc]
    exact h.peers.trans (List.sublist_append_left _ _)
  tls := h.tls
  serverAddr := h.serverAddr

/-- The identifiers drawn for new peers. -/
def drawnOf (as : List FrameInput) : List Uuid := as.flatMap fun i => i.layout.add.toList

variable (uuid toml) in
/-- A window that was opened on `disk` and has shown the frames `as`. -/
structure Window.Shows (env : Env) (disk : Disk) (as : List FrameInput) (w : Window) : Prop where
  path : w.app.configPath = defaultPath env
  edits : EditOf (App.loadOrDefault uuid toml env disk).config (drawnOf as) w.app.config
  otherFiles : ∀ other, other ≠ defaultPath env → w.disk other = disk other
  /-- The file, by the last save that reached it. -/
  file : match w.lastSave with
    | .none => w.disk = disk
    | .saved cfg => Config.load uuid toml w.disk (defaultPath env) = some cfg
        ∧ EditOf (App.loadOrDefault uuid toml env disk).config (drawnOf as) cfg
    | .torn => True
  status : w.app.status = "saved to " ++ defaultPath env → ∃ cfg, w.lastSave = .saved cfg

theorem status_ne (path e : String) :
    "save failed: " ++ e ≠ "saved to " ++ path ∧ "" ≠ "saved to " ++ path := by
  constructor
  · intro h
    have hlist := congrArg String.toList h
    simp at hlist
  · intro h
    have hlist := congrArg String.toList h
    simp at hlist

variable {env : Env} {disk : Disk} {as : List FrameInput} {w : Window}

theorem Window.Shows.opened : Window.Shows uuid toml env disk [] (.opened uuid toml env disk) where
  path := rfl
  edits := ⟨List.sublist_append_left _ _, rfl, fun h => h⟩
  otherFiles := fun _ _ => rfl
  file := rfl
  status := fun h => absurd h (status_ne _ "").2

/-- Another tab. -/
theorem Window.Shows.onTab (h : w.Shows uuid toml env disk as) (tab : Tab) :
    Window.Shows uuid toml env disk as { w with app := { w.app with tab := tab } } :=
  ⟨h.path, h.edits, h.otherFiles, h.file, h.status⟩

/-- A click on "Save". -/
theorem Window.Shows.save (h : w.Shows uuid toml env disk as) (fault : Option SaveFault) :
    (w.save uuid toml fault).Shows uuid toml env disk as := by
  obtain ⟨result, disk', hsave⟩ : ∃ result disk', w.app.config.save uuid toml w.app.configPath
      fault w.disk = (result, disk') := ⟨_, _, rfl⟩
  obtain ⟨hfailed, hother⟩ := w.app.config.save_frame uuid toml w.app.configPath fault w.disk
  rw [hsave, h.path] at hother
  have hothers : ∀ other, other ≠ defaultPath env → disk' other = disk other := fun other hne =>
    (hother other hne).trans (h.otherFiles other hne)
  unfold Window.save
  rw [hsave]
  cases result with
  | ok _ =>
      have hload := Config.load_save hsave
      rw [h.path] at hload
      exact ⟨h.path, h.edits, hothers, ⟨hload, h.edits⟩, fun _ => ⟨_, rfl⟩⟩
  | error e =>
      have hstatus : "save failed: " ++ e ≠ "saved to " ++ defaultPath env := (status_ne _ e).1
      refine ⟨h.path, h.edits, hothers, ?_, fun hs => absurd hs hstatus⟩
      show match (if fault.any SaveFault.tears then LastSave.torn else w.lastSave) with
        | .none => disk' = disk
        | .saved cfg => Config.load uuid toml disk' (defaultPath env) = some cfg ∧ _
        | .torn => True
      rcases hfailed e disk' hsave with rfl | htears
      · by_cases htears : fault.any SaveFault.tears
        · rw [if_pos htears]
          trivial
        · rw [if_neg htears]
          exact h.file
      · rw [if_pos htears]
        trivial

/-- **Every frame.** -/
theorem Window.Shows.frame (h : w.Shows uuid toml env disk as) (i : FrameInput) :
    ∃ w', w.frame uuid toml i = some w' ∧ w'.Shows uuid toml env disk (as ++ [i]) := by
  have hpanel : (w.topPanel uuid toml i).Shows uuid toml env disk as := by
    unfold topPanel
    cases i.save with
    | none => exact h.onTab _
    | some fault => exact (h.onTab _).save fault
  obtain ⟨cfg, hframe, htls, haddr, hids⟩ := w.frame_spec uuid toml i
  have hdrawn : drawnOf (as ++ [i]) = drawnOf as ++ i.layout.add.toList := by
    unfold drawnOf
    rw [List.flatMap_append, List.flatMap_singleton]
  refine ⟨_, hframe, hpanel.path, ?_, hpanel.otherFiles, ?_, hpanel.status⟩
  · refine ⟨?_, htls.trans h.edits.tls, fun he => h.edits.serverAddr (haddr he)⟩
    rw [hdrawn, ← List.append_assoc]
    exact hids.trans (h.edits.peers.append (List.Sublist.refl _))
  · have hfile := hpanel.file
    show match (w.topPanel uuid toml i).lastSave with
      | .none => _
      | .saved cfg => _
      | .torn => True
    cases hlast : (w.topPanel uuid toml i).lastSave with
    | none => rw [hlast] at hfile; exact hfile
    | torn => trivial
    | saved cfg =>
        rw [hlast] at hfile
        refine ⟨hfile.1, ?_⟩
        rw [hdrawn]
        exact hfile.2.more _

variable (uuid toml) in
theorem Window.shows_of_run (as : List FrameInput) :
    ∃ w, (gui uuid toml env disk).run (gui uuid toml env disk).init as = some w
      ∧ w.Shows uuid toml env disk as := by
  induction as using List.reverseRecOn with
  | nil => exact ⟨_, rfl, .opened⟩
  | append_singleton as i ih =>
      obtain ⟨w, hw, hshows⟩ := ih
      obtain ⟨w', hframe, hshows'⟩ := hshows.frame i
      exact ⟨w', System.run_snoc.mpr ⟨w, hw, hframe⟩, hshows'⟩

/-- **WHAT IS STARTED AFTER THE GUI FINDS WHAT IT SAVED.**  No other file is touched; the
window says "saved" only when the file holds a configuration; and if the last save that
reached the file went through, then it is this configuration the GUI opens with again, the
server listens on and greets its peers with, and the client connects by. -/
theorem gui_persists (uuid : Form Uuid) (toml : Toml) (env : Env) (disk : Disk)
    (as : List FrameInput) :
    ∃ w, (gui uuid toml env disk).run (gui uuid toml env disk).init as = some w
      ∧ (∀ other, other ≠ defaultPath env → w.disk other = disk other)
      ∧ (w.app.status = "saved to " ++ defaultPath env → ∃ cfg, w.lastSave = .saved cfg)
      ∧ match w.lastSave with
        | .none => w.disk = disk
        | .torn => True
        | .saved cfg =>
            App.loadOrDefault uuid toml env w.disk = ⟨cfg, defaultPath env, .general, ""⟩
              ∧ runServer (runAsync uuid toml env w.disk none) = cfg.bindAddr
              ∧ (∀ peerId, helloOf env peerId (runAsync uuid toml env w.disk none)
                  = ⟨PROTOCOL_VERSION, peerId, hostnameOf env,
                      ⟨cfg.layout.serverScreen.width, cfg.layout.serverScreen.height⟩⟩)
              ∧ (∀ server, runClient (runAsync uuid toml env w.disk none) = .ok server
                  ↔ cfg.serverAddr = some server)
              ∧ (runClient (runAsync uuid toml env w.disk none) = .ok "" →
                  (App.loadOrDefault uuid toml env disk).config.serverAddr = some "") := by
  obtain ⟨w, hrun, hshows⟩ := Window.shows_of_run uuid toml as
  refine ⟨w, hrun, hshows.otherFiles, hshows.status, ?_⟩
  have hfile := hshows.file
  cases hlast : w.lastSave with
  | none => rw [hlast] at hfile; exact hfile
  | torn => trivial
  | saved cfg =>
      rw [hlast] at hfile
      obtain ⟨hload, hedits⟩ := hfile
      have hfound : runAsync uuid toml env w.disk none = cfg := by
        unfold runAsync
        rw [Option.getD_none, hload]
        rfl
      have hclient : ∀ server, runClient cfg = .ok server ↔ cfg.serverAddr = some server := by
        intro server
        unfold runClient
        cases cfg.serverAddr <;> simp
      rw [hfound]
      refine ⟨?_, rfl, fun _ => rfl, hclient, fun h => hedits.serverAddr ((hclient "").mp h)⟩
      simp only [App.loadOrDefault, hload, Option.getD_some]

/-- One frame switches the clipboard off, and the next one saves. -/
def switchOff : List FrameInput :=
  [⟨false, false, false, none, { GeneralInput.idle with clipboardSync := true }, .idle⟩,
    ⟨false, false, false, some none, .idle, .idle⟩]

def unixEnv : Env := ⟨some "/home/user", none, none, none, joinPath⟩

theorem gui_persists_switched_off :
    ∃ w, (gui charUuid defaultToml unixEnv fun _ => none).run
          (gui charUuid defaultToml unixEnv fun _ => none).init switchOff = some w
      ∧ App.loadOrDefault charUuid defaultToml unixEnv w.disk
          = ⟨{ Config.default with clipboardSync := false },
              "/home/user/.config/dshare/config.toml", .general, ""⟩ := by
  obtain ⟨w, hrun, -, -, hfile⟩ :=
    gui_persists charUuid defaultToml unixEnv (fun _ => none) switchOff
  -- two frames can be computed, and then the theorem says what is found on the disk
  have hsaved : ((gui charUuid defaultToml unixEnv fun _ => none).run
      (gui charUuid defaultToml unixEnv fun _ => none).init switchOff).map Window.lastSave
        = some (.saved { Config.default with clipboardSync := false }) := rfl
  rw [hrun, Option.map_some, Option.some_inj] at hsaved
  rw [hsaved] at hfile
  exact ⟨w, hrun, hfile.1⟩

end Dshare.Gui
