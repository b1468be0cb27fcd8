/-
  Dshare.Gui.Preview
  ──────────────────
  **THE PREVIEW AND THE EDGE CHECK DRAW ONE PICTURE.**

  `layout_preview` places a rectangle for every peer beside the server's; the
  edge check computes entry points without ever looking at it.  Here the
  preview's arithmetic is exact, and the two are compared in the server's plane,
  where the scale is divided out:

    • `drawn_eq` — where each peer's rectangle is;
    • `check_edge_agrees_with_preview` — the entry point is the point of the row
      or column facing the server that is closest to the cursor.
-/
import Mathlib.Data.Rat.Cast.Order
import Mathlib.Tactic.FieldSimp
import Dshare.Core.Layout

namespace Dshare.Gui

open CheckedInt Dshare.Core

/-! ## §1. `layout_preview`. -/

/-- `egui::Pos2` and `egui::Vec2`. -/
@[ext]
structure Pos2 where
  x : ℚ
  y : ℚ

/-- `egui::Rect` as the preview uses it: built around a center, asked for its sides. -/
structure RectApi where
  Rect : Type
  fromCenterSize (center size : Pos2) : Rect
  left : Rect → ℚ
  right : Rect → ℚ
  top : Rect → ℚ
  bottom : Rect → ℚ
  left_fromCenterSize : ∀ c s, left (fromCenterSize c s) = c.x - s.x / 2
  right_fromCenterSize : ∀ c s, right (fromCenterSize c s) = c.x + s.x / 2
  top_fromCenterSize : ∀ c s, top (fromCenterSize c s) = c.y - s.y / 2
  bottom_fromCenterSize : ∀ c s, bottom (fromCenterSize c s) = c.y + s.y / 2

/-- `let scale = 0.15_f32`. -/
def scale : ℚ := 15 / 100

/-- A screen's size, scaled. -/
def scaledSize (s : Screen) : Pos2 := ⟨s.width.toNat * scale, s.height.toNat * scale⟩

variable (E : RectApi)

def serverRect (center : Pos2) (l : Layout) : E.Rect :=
  E.fromCenterSize center (scaledSize l.serverScreen)

/-- `peer_center`. -/
def peerCenter (server : E.Rect) (peer : PeerScreen) : Pos2 :=
  let peerSize := scaledSize peer.screen
  let offsetPx := peer.offset.toInt * scale
  match peer.edge with
  | .right => ⟨E.right server + peerSize.x / 2, E.top server + offsetPx + peerSize.y / 2⟩
  | .left => ⟨E.left server - peerSize.x / 2, E.top server + offsetPx + peerSize.y / 2⟩
  | .top => ⟨E.left server + offsetPx + peerSize.x / 2, E.top server - peerSize.y / 2⟩
  | .bottom => ⟨E.left server + offsetPx + peerSize.x / 2, E.bottom server + peerSize.y / 2⟩

def peerRect (server : E.Rect) (peer : PeerScreen) : E.Rect :=
  E.fromCenterSize (peerCenter E server peer) (scaledSize peer.screen)

/-- The rectangles `layout_preview` fills, around the center of the area it allocates:
the server's, then the peers'. -/
def layoutPreview (center : Pos2) (l : Layout) : E.Rect × List E.Rect :=
  let server := serverRect E center l
  (server, l.peers.map (peerRect E server))

/-! ## §2. The server's plane. -/

/-- A rectangle of the server's plane. -/
structure Sides where
  left : ℚ
  top : ℚ
  right : ℚ
  bottom : ℚ

/-- A drawn rectangle in the server's plane: the server's corner is the origin, and the
scale is divided out. -/
def plane (server r : E.Rect) : Sides where
  left := (E.left r - E.left server) / scale
  top := (E.top r - E.top server) / scale
  right := (E.right r - E.left server) / scale
  bottom := (E.bottom r - E.top server) / scale

theorem scale_ne_zero : scale ≠ 0 := by norm_num [scale]

theorem plane_server (center : Pos2) (l : Layout) :
    plane E (serverRect E center l) (serverRect E center l)
      = ⟨0, 0, l.serverScreen.width.toNat, l.serverScreen.height.toNat⟩ := by
  have hscale := scale_ne_zero
  simp only [plane, serverRect, scaledSize, E.left_fromCenterSize, E.right_fromCenterSize,
    E.top_fromCenterSize, E.bottom_fromCenterSize, Sides.mk.injEq]
  refine ⟨?_, ?_, ?_, ?_⟩ <;> field_simp <;> ring

/-- **Where the preview draws a peer**: against its edge of the server's screen, at its
offset, in its own size. -/
theorem drawn_eq (center : Pos2) (l : Layout) (peer : PeerScreen) :
    plane E (serverRect E center l) (peerRect E (serverRect E center l) peer) =
      match peer.edge with
      | .left => ⟨-peer.screen.width.toNat, peer.offset.toInt, 0,
          peer.offset.toInt + peer.screen.height.toNat⟩
      | .right => ⟨l.serverScreen.width.toNat, peer.offset.toInt,
          l.serverScreen.width.toNat + peer.screen.width.toNat,
          peer.offset.toInt + peer.screen.height.toNat⟩
      | .top => ⟨peer.offset.toInt, -peer.screen.height.toNat,
          peer.offset.toInt + peer.screen.width.toNat, 0⟩
      | .bottom => ⟨peer.offset.toInt, l.serverScreen.height.toNat,
          peer.offset.toInt + peer.screen.width.toNat,
          l.serverScreen.height.toNat + peer.screen.height.toNat⟩ := by
  have hscale := scale_ne_zero
  cases hedge : peer.edge <;>
    simp only [plane, peerRect, peerCenter, hedge, serverRect, scaledSize,
      E.left_fromCenterSize, E.right_fromCenterSize, E.top_fromCenterSize,
      E.bottom_fromCenterSize, Sides.mk.injEq] <;>
    refine ⟨?_, ?_, ?_, ?_⟩ <;> field_simp <;> ring

/-! ## §3. The row or column facing the server. -/

/-- The unit square at `p` lies in the drawn rectangle and touches the server's side:
it belongs to the rectangle's row or column facing the server. -/
def Faces (server drawn : Sides) (edge : Edge) (p : Pos2) : Prop :=
  (drawn.left ≤ p.x ∧ p.x + 1 ≤ drawn.right) ∧ (drawn.top ≤ p.y ∧ p.y + 1 ≤ drawn.bottom)
    ∧ match edge with
      | .left => p.x + 1 = server.left
      | .right => p.x = server.right
      | .top => p.y + 1 = server.top
      | .bottom => p.y = server.bottom

/-- The square of the distance between two points. -/
def distSq (p q : Pos2) : ℚ := (p.x - q.x) ^ 2 + (p.y - q.y) ^ 2

theorem distSq_eq (edge : Edge) (p q : Pos2) :
    distSq p q = (edge.coord p.x p.y - edge.coord q.x q.y) ^ 2
      + (edge.depth p.x p.y - edge.depth q.x q.y) ^ 2 := by
  cases edge with
  | left | right => exact add_comm _ _
  | top | bottom => rfl

theorem pos2_ext (edge : Edge) {p q : Pos2} (hcoord : edge.coord p.x p.y = edge.coord q.x q.y)
    (hdepth : edge.depth p.x p.y = edge.depth q.x q.y) : p = q := by
  cases edge with
  | left | right => exact Pos2.ext hdepth hcoord
  | top | bottom => exact Pos2.ext hcoord hdepth

/-- Across its edge, the row or column facing the server. -/
def facingLine (server : Screen) : Edge → ℚ
  | .left | .top => -1
  | .right => server.width.toNat
  | .bottom => server.height.toNat

theorem faces_iff (center : Pos2) (l : Layout) {peer : PeerScreen} (hproper : peer.screen.Proper)
    (p : Pos2) :
    Faces (plane E (serverRect E center l) (serverRect E center l))
        (plane E (serverRect E center l) (peerRect E (serverRect E center l) peer)) peer.edge p
      ↔ peer.edge.depth p.x p.y = facingLine l.serverScreen peer.edge
        ∧ (peer.offset.toInt : ℚ) ≤ peer.edge.coord p.x p.y
        ∧ peer.edge.coord p.x p.y + 1 ≤ peer.offset.toInt
            + (peer.edge.coord peer.screen.width peer.screen.height).toNat := by
  have hw : (1 : ℚ) ≤ peer.screen.width.toNat := by exact_mod_cast hproper.width.1
  have hh : (1 : ℚ) ≤ peer.screen.height.toNat := by exact_mod_cast hproper.height.1
  rw [plane_server, drawn_eq]
  unfold Faces facingLine
  -- touching the server's side fixes the depth, and a proper screen is a pixel deep at least
  cases peer.edge with
  | left =>
      simp only [Edge.coord, Edge.depth]
      constructor
      · intro h
        exact ⟨by linarith [h.2.2], h.2.1⟩
      · intro h
        exact ⟨⟨by linarith [h.1], by linarith [h.1]⟩, h.2, by linarith [h.1]⟩
  | right =>
      simp only [Edge.coord, Edge.depth]
      constructor
      · intro h
        exact ⟨h.2.2, h.2.1⟩
      · intro h
        exact ⟨⟨by linarith [h.1], by linarith [h.1]⟩, h.2, h.1⟩
  | top =>
      simp only [Edge.coord, Edge.depth]
      constructor
      · intro h
        exact ⟨by linarith [h.2.2], h.1⟩
      · intro h
        exact ⟨h.2, ⟨by linarith [h.1], by linarith [h.1]⟩, by linarith [h.1]⟩
  | bottom =>
      simp only [Edge.coord, Edge.depth]
      constructor
      · intro h
        exact ⟨h.2.2, h.1⟩
      · intro h
        exact ⟨h.2, ⟨by linarith [h.1], by linarith [h.1]⟩, h.1⟩

/-! ## §4. The entry point in the plane. -/

/-- A pixel of a peer's screen, in the server's plane. -/
def place (drawn : Sides) (ex ey : Int32) : Pos2 :=
  ⟨drawn.left + ex.toInt, drawn.top + ey.toInt⟩

/-- `p` is the point of the row or column facing the server that is closest to the cursor. -/
def Closest (server drawn : Sides) (edge : Edge) (x y : Int32) (p : Pos2) : Prop :=
  Faces server drawn edge p
    ∧ ∀ q, Faces server drawn edge q → q ≠ p →
        distSq p ⟨x.toInt, y.toInt⟩ < distSq q ⟨x.toInt, y.toInt⟩

/-- A pixel's coordinates in the plane, along the edge and across it. -/
theorem place_eq (center : Pos2) {l : Layout} {x y : Int32} {peer : PeerScreen} {ex ey : Int32}
    (hat : peer.EntersAt x y ex ey) :
    let drawn := plane E (serverRect E center l) (peerRect E (serverRect E center l) peer)
    peer.edge.coord (place drawn ex ey).x (place drawn ex ey).y
        = peer.offset.toInt + (peer.edge.coord ex ey).toInt
      ∧ peer.edge.depth (place drawn ex ey).x (place drawn ex ey).y
        = facingLine l.serverScreen peer.edge := by
  intro drawn
  have hdepth := hat.depth
  have hdrawn : drawn = _ := drawn_eq E center l peer
  rw [hdrawn]
  -- to the left and above the entry is on the last column or row, else on the first
  cases hedge : peer.edge with
  | left =>
      rw [hedge] at hdepth
      have hex : (ex.toInt : ℚ) = peer.screen.width.toNat - 1 := by exact_mod_cast hdepth
      refine ⟨rfl, ?_⟩
      show -(peer.screen.width.toNat : ℚ) + ex.toInt = -1
      linarith
  | right =>
      rw [hedge] at hdepth
      have hex : (ex.toInt : ℚ) = 0 := by exact_mod_cast hdepth
      refine ⟨rfl, ?_⟩
      show (l.serverScreen.width.toNat : ℚ) + ex.toInt = l.serverScreen.width.toNat
      linarith
  | top =>
      rw [hedge] at hdepth
      have hey : (ey.toInt : ℚ) = peer.screen.height.toNat - 1 := by exact_mod_cast hdepth
      refine ⟨rfl, ?_⟩
      show -(peer.screen.height.toNat : ℚ) + ey.toInt = -1
      linarith
  | bottom =>
      rw [hedge] at hdepth
      have hey : (ey.toInt : ℚ) = 0 := by exact_mod_cast hdepth
      refine ⟨rfl, ?_⟩
      show (l.serverScreen.height.toNat : ℚ) + ey.toInt = l.serverScreen.height.toNat
      linarith

/-- **Where a peer is entered is closest to the cursor.** -/
theorem closest_of_entersAt (center : Pos2) {l : Layout} {x y : Int32} {peer : PeerScreen}
    (hproper : peer.screen.Proper) {ex ey : Int32} (hat : peer.EntersAt x y ex ey) :
    let server := plane E (serverRect E center l) (serverRect E center l)
    let drawn := plane E (serverRect E center l) (peerRect E (serverRect E center l) peer)
    Closest server drawn peer.edge x y (place drawn ex ey) := by
  intro server drawn
  obtain ⟨hcoord, hdepth⟩ := place_eq E center (l := l) hat
  -- along the edge, the entry point is the cursor's coordinate clamped to the drawn rectangle
  have hlast := (hproper.coord peer.edge).1
  have hclamp : peer.edge.coord (place drawn ex ey).x (place drawn ex ey).y
      = max (peer.offset.toInt : ℚ) (min (peer.offset.toInt
          + (peer.edge.coord peer.screen.width peer.screen.height).toNat - 1)
          (peer.edge.coord x y).toInt) := by
    have hint : peer.offset.toInt + (peer.edge.coord ex ey).toInt
        = max peer.offset.toInt (min (peer.offset.toInt
            + (peer.edge.coord peer.screen.width peer.screen.height).toNat - 1)
            (peer.edge.coord x y).toInt) := by
      rw [hat.coord]
      omega
    rw [hcoord]
    exact_mod_cast hint
  have hcursor : peer.edge.coord (x.toInt : ℚ) (y.toInt : ℚ) = (peer.edge.coord x y).toInt := by
    cases peer.edge <;> rfl
  refine ⟨(faces_iff E center l hproper _).mpr ⟨hdepth, ?_, ?_⟩, ?_⟩
  · rw [hclamp]
    exact le_max_left _ _
  · have hle : peer.offset.toInt + (peer.edge.coord ex ey).toInt + 1
        ≤ peer.offset.toInt + (peer.edge.coord peer.screen.width peer.screen.height).toNat := by
      rw [hat.coord]
      omega
    rw [hcoord]
    exact_mod_cast hle
  · intro q hq hne
    obtain ⟨hqdepth, hqlo, hqhi⟩ := (faces_iff E center l hproper q).mp hq
    -- another point of the row differs along the edge
    have hqne : peer.edge.coord q.x q.y
        ≠ peer.edge.coord (place drawn ex ey).x (place drawn ex ey).y :=
      fun heq => hne (pos2_ext peer.edge heq (hqdepth.trans hdepth.symm))
    rw [distSq_eq peer.edge, distSq_eq peer.edge q, hqdepth, hdepth, hcursor]
    rw [hclamp] at hqne ⊢
    have hnear := clamp_nearest hqlo (le_sub_iff_add_le.mpr hqhi) hqne
    linarith

/-- **Crossing an edge agrees with the preview.**  On proper screens the cursor stays
exactly when no peer sits on an edge it is beyond; otherwise a peer on such an edge is
entered at a point of its screen, which in the preview's picture is the point of the
peer's row or column facing the server that is closest to the cursor. -/
theorem check_edge_agrees_with_preview (center : Pos2) {l : Layout} (h : l.Proper) {x y : Int32}
    (hm : l.Measures x y) :
    ∃ r, l.checkEdge x y = .ok r
      ∧ (r = .stay ↔ ∀ peer ∈ l.peers, ¬ peer.edge.Beyond l.serverScreen x y)
      ∧ (l.serverScreen.Inside x y → r = .stay)
      ∧ ∀ i ex ey, r = .cross i ex ey →
          ∃ peer rect, l.peers[i]? = some peer ∧ (layoutPreview E center l).2[i]? = some rect
            ∧ peer.edge.Beyond l.serverScreen x y ∧ peer.screen.Inside ex ey
            ∧ Closest (plane E (layoutPreview E center l).1 (layoutPreview E center l).1)
                (plane E (layoutPreview E center l).1 rect) peer.edge x y
                (place (plane E (layoutPreview E center l).1 rect) ex ey) := by
  have hbeyond := Edge.beyond_iff h.server x y
  cases hfacing : l.facing x y with
  | none =>
      refine ⟨.stay, Layout.checkEdge_eq_stay_iff.mpr hfacing, ⟨fun _ => ?_, fun _ => rfl⟩,
        fun _ => rfl, nofun⟩
      intro peer hmem hno
      have hfalse := Layout.facing_eq_none.mp hfacing peer hmem
      rw [(hbeyond peer.edge).mpr hno] at hfalse
      cases hfalse
  | some p =>
      obtain ⟨peer, i⟩ := p
      obtain ⟨hget, hon⟩ := Layout.facing_eq_some hfacing
      have hcrossed := (hbeyond peer.edge).mp hon
      have hmem := List.mem_of_getElem? hget
      obtain ⟨ex, ey, hcross, hat, hinside⟩ := Layout.checkEdge_of_facing h hm hfacing
      refine ⟨.cross i ex ey, hcross, ⟨nofun, fun hno => absurd hcrossed (hno peer hmem)⟩,
        fun hin => absurd hcrossed (Edge.not_beyond_of_inside hin peer.edge), ?_⟩
      intro j ex' ey' hr
      cases hr
      refine ⟨peer, _, hget, ?_, hcrossed, hinside,
        closest_of_entersAt E center (h.peers peer hmem) hat⟩
      show (l.peers.map _)[i]? = _
      rw [List.getElem?_map, hget]
      rfl

/-- Rectangles kept by their corners. -/
def cornerRects : RectApi where
  Rect := Pos2 × Pos2
  fromCenterSize c s := (⟨c.x - s.x / 2, c.y - s.y / 2⟩, ⟨c.x + s.x / 2, c.y + s.y / 2⟩)
  left r := r.1.x
  right r := r.2.x
  top r := r.1.y
  bottom r := r.2.y
  left_fromCenterSize _ _ := rfl
  right_fromCenterSize _ _ := rfl
  top_fromCenterSize _ _ := rfl
  bottom_fromCenterSize _ _ := rfl

/-- The tests' `layout_with_right_peer`, crossed at `(1920, 500)`. -/
theorem right_peer_agrees_with_preview :
    let l : Layout := ⟨.default, [⟨.nil, "ubuntu", .right, 0, ⟨2560, 1440⟩⟩]⟩
    l.checkEdge 1920 500 = .ok (.cross 0 0 500)
      ∧ ∃ rect, (layoutPreview cornerRects ⟨0, 0⟩ l).2[0]? = some rect
        ∧ Closest
            (plane cornerRects (layoutPreview cornerRects ⟨0, 0⟩ l).1
              (layoutPreview cornerRects ⟨0, 0⟩ l).1)
            (plane cornerRects (layoutPreview cornerRects ⟨0, 0⟩ l).1 rect) .right 1920 500
            (place (plane cornerRects (layoutPreview cornerRects ⟨0, 0⟩ l).1 rect) 0 500) := by
  intro l
  have hcross : l.checkEdge 1920 500 = .ok (.cross 0 0 500) := by decide
  obtain ⟨r, hr, -, -, henter⟩ :=
    check_edge_agrees_with_preview cornerRects ⟨0, 0⟩ (l := l) (x := 1920) (y := 500)
      (by decide) (by decide)
  rw [hcross] at hr
  cases hr
  obtain ⟨peer, rect, hget, hrect, -, -, hclosest⟩ := henter 0 0 500 rfl
  cases hget
  exact ⟨hcross, rect, hrect, hclosest⟩

end Dshare.Gui
