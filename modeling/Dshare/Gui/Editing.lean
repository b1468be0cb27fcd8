/-
  Dshare.Gui.Editing
  ──────────────────
  **WHICH CONFIGURATIONS CAN BE MADE IN THE GUI.**

  `EditOf` says what no run of frames can change.  Everything else can be changed: one
  frame adds each new peer, one removes each peer that is not wanted, and then one frame
  in each tab sets the rest.  A text field may come to hold any text here; that egui lets no
  line break into a field of one line is not modelled.

    • `peerRows_edits` — what the rows of a frame make of the peers;
    • `exists_removals` — a part of a list is left by removing the rest;
    • `gui_session` — the configurations that some run makes are those of `EditOf`.
-/
import Mathlib.Data.List.Sublists
import Mathlib.Tactic.Common
import Dshare.Gui.App

namespace Dshare.Gui

open Documents Transition Dshare.Core Dshare.Protocol Dshare.Session

/-! ## §1. Frames in one tab. -/

/-- A frame in the "Layout" tab, with no save. -/
def onLayout (i : LayoutInput) : FrameInput := ⟨false, true, false, none, .idle, i⟩

/-- A frame in the "General" tab, with no save. -/
def onGeneral (i : GeneralInput) : FrameInput := ⟨true, false, false, none, i, .idle⟩

variable {uuid : Form Uuid} {toml : Toml} {env : Env} {disk : Disk}

/-- **Frames in the "Layout" tab** edit the configuration one after the other. -/
theorem run_onLayout (is : List LayoutInput) :
    ∀ (w : Window) (cfg : Config),
      is.foldlM (fun cfg i => layoutTab i cfg) w.app.config = some cfg →
      ∃ w', (gui uuid toml env disk).run w (is.map onLayout) = some w' ∧ w'.app.config = cfg := by
  induction is with
  | nil =>
      intro w cfg h
      cases h
      exact ⟨w, rfl, rfl⟩
  | cons i is ih =>
      intro w cfg h
      rw [List.foldlM_cons] at h
      obtain ⟨cfg₁, hfirst, hrest⟩ := Option.bind_eq_some_iff.mp h
      obtain ⟨w', hrun, hcfg⟩ :=
        ih { w with app := { w.app with tab := .layout, config := cfg₁ } } cfg hrest
      refine ⟨w', ?_, hcfg⟩
      have hframe : (gui uuid toml env disk).step w (onLayout i)
          = some { w with app := { w.app with tab := .layout, config := cfg₁ } } := by
        show (layoutTab i w.app.config).map _ = _
        rw [hfirst]
        rfl
      show ((gui uuid toml env disk).step w (onLayout i)).bind _ = _
      rw [hframe]
      exact hrun

/-! ## §2. Rows. -/

/-- **What the rows of a frame make of the peers**, if none is to be removed. -/
theorem peerRows_edits {row : Nat → RowInput} (hkeep : ∀ j, (row j).remove = false)
    (remove : Option Nat) (peers : List PeerScreen) :
    ∀ (edited : List PeerScreen) (i : Nat), peers.length = edited.length →
      (∀ j p q, peers[j]? = some p → edited[j]? = some q → (row (i + j)).edit p = q) →
      peerRows row i remove peers = (edited, remove) := by
  induction peers with
  | nil =>
      intro edited i hlen _
      rw [List.length_eq_zero_iff.mp hlen.symm]
      rfl
  | cons p peers ih =>
      intro edited i hlen hedit
      cases edited with
      | nil => cases hlen
      | cons q edited =>
          have hfirst : (row i).edit p = q := hedit 0 p q rfl rfl
          have hrest := ih edited (i + 1) (Nat.succ.inj hlen) fun j p' q' hp hq => by
            rw [Nat.add_assoc, Nat.add_comm 1 j]
            exact hedit (j + 1) p' q' hp hq
          rw [peerRows, hkeep i]
          simp only [Bool.false_eq_true, if_false, hrest, hfirst]

/-- The row of a peer that is to be like another. -/
def RowInput.setTo (q : PeerScreen) : RowInput :=
  { name := some q.name
    left := q.edge == .left
    right := q.edge == .right
    top := q.edge == .top
    bottom := q.edge == .bottom
    offset := some q.offset
    width := some q.screen.width
    height := some q.screen.height
    remove := false }

theorem RowInput.edit_setTo {p q : PeerScreen} (h : p.peerId = q.peerId) :
    (RowInput.setTo q).edit p = q := by
  obtain ⟨peerId, name, edge, offset, screen⟩ := q
  cases h
  cases edge <;> rfl

theorem peerRows_idle (peers : List PeerScreen) (i : Nat) :
    peerRows (fun _ => .idle) i none peers = (peers, none) := by
  refine peerRows_edits (fun _ => rfl) none peers peers i rfl ?_
  intro j p q hp hq
  rw [hp] at hq
  cases hq
  rfl

/-- A click on the "✕" of one row. -/
theorem peerRows_remove_one (k : Nat) (peers : List PeerScreen) :
    ∀ (i : Nat) (remove : Option Nat),
      peerRows (fun j => { RowInput.idle with remove := j == k }) i remove peers
        = (peers, if i ≤ k ∧ k < i + peers.length then some k else remove) := by
  induction peers with
  | nil =>
      intro i remove
      rw [if_neg (by simp)]
      rfl
  | cons peer peers ih =>
      intro i remove
      rw [peerRows, ih, List.length_cons]
      refine Prod.ext rfl ?_
      by_cases hi : i = k
      · subst hi
        simp
      · have hik : (i == k) = false := by simpa using hi
        have hrange : (i + 1 ≤ k ∧ k < i + 1 + peers.length)
            ↔ (i ≤ k ∧ k < i + (peers.length + 1)) := by omega
        simp only [hik, Bool.false_eq_true, if_false, hrange]

/-! ## §3. The layout. -/

def withPeers (cfg : Config) (peers : List PeerScreen) : Config :=
  { cfg with layout := { cfg.layout with peers := peers } }

/-- "+ Add peer". -/
def addPeer (peerId : Uuid) : LayoutInput := { LayoutInput.idle with add := some peerId }

theorem layoutTab_addPeer (cfg : Config) (peers : List PeerScreen) (peerId : Uuid) :
    layoutTab (addPeer peerId) (withPeers cfg peers)
      = some (withPeers cfg (peers ++ [⟨peerId, "peer", .right, 0, .default⟩])) := by
  simp [layoutTab, addPeer, LayoutInput.idle, withPeers, peerRows_idle]

/-- The "✕" of the row `k`. -/
def removePeer (k : Nat) : LayoutInput :=
  { LayoutInput.idle with row := fun j => { RowInput.idle with remove := j == k } }

theorem layoutTab_removePeer (cfg : Config) {peers : List PeerScreen} {k : Nat}
    (hk : k < peers.length) :
    layoutTab (removePeer k) (withPeers cfg peers) = some (withPeers cfg (peers.eraseIdx k)) := by
  simp [layoutTab, removePeer, LayoutInput.idle, withPeers, peerRows_remove_one, hk, vecRemove]

/-- All fields of the tab. -/
def setLayout (layout : Layout) : LayoutInput :=
  { width := some layout.serverScreen.width
    height := some layout.serverScreen.height
    row := fun j => (layout.peers[j]?).elim .idle .setTo
    add := none }

theorem layoutTab_setLayout (cfg : Config) {peers : List PeerScreen} {layout : Layout}
    (h : peers.map PeerScreen.peerId = layout.peers.map PeerScreen.peerId) :
    layoutTab (setLayout layout) (withPeers cfg peers) = some { cfg with layout := layout } := by
  have hlen : peers.length = layout.peers.length := by
    have := congrArg List.length h
    rwa [List.length_map, List.length_map] at this
  have hkeep : ∀ j : Nat,
      ((layout.peers[j]?).elim RowInput.idle RowInput.setTo).remove = false := by
    intro j
    cases layout.peers[j]? <;> rfl
  have hrows := peerRows_edits hkeep none peers layout.peers 0 hlen fun j p q hp hq => by
    rw [Nat.zero_add, hq]
    refine RowInput.edit_setTo ?_
    have hj := congrArg (fun ids : List Uuid => ids[j]?) h
    simp only [List.getElem?_map, hp, hq, Option.map_some] at hj
    exact Option.some.inj hj
  simp [layoutTab, setLayout, withPeers, hrows]

/-- New peers are added one by one. -/
theorem exists_additions (cfg : Config) (drawn : List Uuid) :
    ∀ peers : List PeerScreen, ∃ added : List PeerScreen,
      (drawn.map addPeer).foldlM (fun cfg i => layoutTab i cfg) (withPeers cfg peers)
          = some (withPeers cfg added)
        ∧ added.map PeerScreen.peerId = peers.map PeerScreen.peerId ++ drawn := by
  induction drawn with
  | nil =>
      intro peers
      exact ⟨peers, rfl, (List.append_nil _).symm⟩
  | cons peerId drawn ih =>
      intro peers
      obtain ⟨added, hfold, hids⟩ := ih (peers ++ [⟨peerId, "peer", .right, 0, .default⟩])
      refine ⟨added, ?_, ?_⟩
      · rw [List.map_cons, List.foldlM_cons, layoutTab_addPeer]
        exact hfold
      · rw [hids, List.map_append, List.append_assoc]
        rfl

/-- **A part of the peers is left by removing the rest**, one in each frame. -/
theorem exists_removals (cfg : Config) {kept peers : List PeerScreen} (h : kept.Sublist peers) :
    ∀ front : List PeerScreen, ∃ ks : List Nat,
      (ks.map removePeer).foldlM (fun cfg i => layoutTab i cfg) (withPeers cfg (front ++ peers))
        = some (withPeers cfg (front ++ kept)) := by
  induction h with
  | slnil => intro front; exact ⟨[], rfl⟩
  | @cons kept peers p _ ih =>
      -- `p` goes
      intro front
      obtain ⟨ks, hks⟩ := ih front
      refine ⟨front.length :: ks, ?_⟩
      have hk : front.length < (front ++ p :: peers).length := by simp
      rw [List.map_cons, List.foldlM_cons, layoutTab_removePeer cfg hk]
      have herase : (front ++ p :: peers).eraseIdx front.length = front ++ peers := by
        rw [List.eraseIdx_append_of_length_le (Nat.le_refl _), Nat.sub_self]
        rfl
      rw [herase]
      exact hks
  | @cons_cons kept peers p _ ih =>
      -- `p` stays
      intro front
      obtain ⟨ks, hks⟩ := ih (front ++ [p])
      refine ⟨ks, ?_⟩
      rw [List.append_assoc, List.append_assoc] at hks
      exact hks

/-! ## §4. The rest of the configuration. -/

/-- All fields of the "General" tab; an empty server address is left as it is. -/
def setGeneral (cfg target : Config) : GeneralInput :=
  { server := target.role == .server
    client := target.role == .client
    bindAddr := some target.bindAddr
    serverAddr := if target.serverAddr = some "" then none else some (target.serverAddr.getD "")
    clipboardSync := cfg.clipboardSync != target.clipboardSync }

theorem generalTab_setGeneral {cfg target : Config} (hlayout : cfg.layout = target.layout)
    (htls : cfg.tls = target.tls)
    (haddr : target.serverAddr = some "" → cfg.serverAddr = some "") :
    generalTab (setGeneral cfg target) cfg = target := by
  obtain ⟨role, bindAddr, serverAddr, layout, clipboardSync, tls⟩ := cfg
  obtain ⟨role', bindAddr', serverAddr', layout', clipboardSync', tls'⟩ := target
  cases hlayout
  cases htls
  cases serverAddr' with
  | none =>
      cases role' <;> cases clipboardSync <;> cases clipboardSync' <;> rfl
  | some s =>
      by_cases hs : s = ""
      · -- the field is not touched
        subst hs
        cases haddr rfl
        cases role' <;> cases clipboardSync <;> cases clipboardSync' <;> rfl
      · have hfull : s.isEmpty = false := by
          rw [Bool.eq_false_iff]
          exact fun h => hs (String.isEmpty_iff.mp h)
        have hset : (if some s = some "" then none else some ((some s).getD "")) = some s := by
          rw [if_neg fun h => hs (Option.some.inj h)]
          rfl
        unfold generalTab setGeneral
        simp only [hset, hfull]
        cases role' <;> cases clipboardSync <;> cases clipboardSync' <;> rfl

/-! ## §5. Everything that can be made. -/

/-- Every edit of a configuration can be made, by these frames. -/
theorem exists_frames {loaded cfg : Config} {drawn : List Uuid} (h : EditOf loaded drawn cfg) :
    ∃ (is : List LayoutInput) (g : GeneralInput), is.flatMap (fun i => i.add.toList) = drawn
      ∧ is.foldlM (fun cfg i => layoutTab i cfg) loaded = some { loaded with layout := cfg.layout }
      ∧ generalTab g { loaded with layout := cfg.layout } = cfg := by
  obtain ⟨added, hadded, hids⟩ := exists_additions loaded drawn loaded.layout.peers
  have hpeers := h.peers
  unfold peerIds at hpeers
  rw [← hids] at hpeers
  obtain ⟨kept, hkept, hsame⟩ := List.sublist_map_iff.mp hpeers
  obtain ⟨ks, hks⟩ := exists_removals loaded hkept []
  refine ⟨drawn.map addPeer ++ (ks.map removePeer ++ [setLayout cfg.layout]),
    setGeneral { loaded with layout := cfg.layout } cfg, ?_, ?_, ?_⟩
  · have hnone : (ks.map removePeer).flatMap (fun i => i.add.toList) = [] := by
      rw [List.flatMap_map]
      exact List.flatMap_eq_nil_iff.mpr fun _ _ => rfl
    have hall : (drawn.map addPeer).flatMap (fun i => i.add.toList) = drawn := by
      rw [List.flatMap_map]
      exact List.flatMap_singleton' drawn
    rw [List.flatMap_append, List.flatMap_append, hnone, hall]
    simp [setLayout]
  · rw [List.foldlM_append]
    show ((drawn.map addPeer).foldlM (fun cfg i => layoutTab i cfg)
      (withPeers loaded loaded.layout.peers)).bind _ = _
    rw [hadded, Option.bind_some, List.foldlM_append]
    show ((ks.map removePeer).foldlM (fun cfg i => layoutTab i cfg)
      (withPeers loaded ([] ++ added))).bind _ = _
    rw [hks, Option.bind_some, List.nil_append, List.foldlM_cons,
      layoutTab_setLayout loaded hsame.symm]
    rfl
  · exact generalTab_setGeneral rfl h.tls.symm h.serverAddr

/-- **WHAT A SESSION OF THE GUI CAN MAKE OF A CONFIGURATION**: whatever is clicked and typed,
no frame panics; and some session in which the identifiers `drawn` are drawn makes it `cfg`
exactly if the peers keep their order, with new ones at the end, the certificate stays, and
an emptied server address is no address. -/
theorem gui_session (uuid : Form Uuid) (toml : Toml) (env : Env) (disk : Disk) :
    (∀ as, ∃ w, (gui uuid toml env disk).run (gui uuid toml env disk).init as = some w)
      ∧ ∀ drawn cfg,
        (∃ as w, drawnOf as = drawn
            ∧ (gui uuid toml env disk).run (gui uuid toml env disk).init as = some w
            ∧ w.app.config = cfg)
          ↔ EditOf (App.loadOrDefault uuid toml env disk).config drawn cfg := by
  constructor
  · intro as
    obtain ⟨w, hrun, _⟩ := Window.shows_of_run uuid toml as
    exact ⟨w, hrun⟩
  · intro drawn cfg
    constructor
    · rintro ⟨as, w, rfl, hrun, rfl⟩
      obtain ⟨w', hrun', hshows⟩ := Window.shows_of_run uuid toml as
      rw [hrun] at hrun'
      cases hrun'
      exact hshows.edits
    · intro hedit
      obtain ⟨is, g, hdrawn, hlayout, hgeneral⟩ := exists_frames hedit
      obtain ⟨w, hrun, hcfg⟩ := run_onLayout is (gui uuid toml env disk).init _ hlayout
      refine ⟨is.map onLayout ++ [onGeneral g], _, ?_, System.run_snoc.mpr ⟨w, hrun, rfl⟩, ?_⟩
      · unfold drawnOf
        rw [List.flatMap_append, List.flatMap_map]
        show is.flatMap (fun i => i.add.toList) ++ [] = drawn
        rw [List.append_nil, hdrawn]
      · show generalTab g w.app.config = cfg
        rw [hcfg, hgeneral]

/-- **A peer can be added and set up; a certificate cannot.** -/
theorem gui_session_laptop :
    (∃ as w, drawnOf as = [⟨List.replicate 16 7, rfl⟩]
        ∧ (gui charUuid defaultToml unixEnv fun _ => none).run
            (gui charUuid defaultToml unixEnv fun _ => none).init as = some w
        ∧ w.app.config = { Config.default with
            layout := ⟨.default,
              [⟨⟨List.replicate 16 7, rfl⟩, "laptop", .left, 40, ⟨1280, 800⟩⟩]⟩ })
      ∧ ¬∃ as w, drawnOf as = []
        ∧ (gui charUuid defaultToml unixEnv fun _ => none).run
            (gui charUuid defaultToml unixEnv fun _ => none).init as = some w
        ∧ w.app.config = { Config.default with tls := some ⟨"cert.pem", "key.pem", "ca.pem"⟩ } := by
  have hmade := (gui_session charUuid defaultToml unixEnv fun _ => none).2
  constructor
  · exact (hmade _ _).mpr ⟨List.Sublist.refl _, rfl, fun h => h⟩
  · intro hcert
    cases ((hmade _ _).mp hcert).tls

end Dshare.Gui
