/-
  Dshare.Core.Layout
  ──────────────────
  **WHERE THE CURSOR CROSSES TO A PEER.**

  `Layout::check_edge` as a debug build runs it: the subtractions check for
  overflow and `clamp` asserts its bounds, so the function may panic.

    • `checkEdge_eq` — the answer is that of the first peer in the list that sits
      on an edge the cursor is beyond; nothing later unfolds the loop;
    • `along_eq_ok_iff` — where along the edge that peer is entered;
    • `enters_spanning_iff` — when that peer is the one next to the cursor;
    • `check_edge_safe_iff` — when the answer is safe, for every layout at all;
    • `Layout.entered_iff` — which peers can be entered at all.
-/
import Mathlib.Data.List.Enum
import Dshare.Lib.CheckedInt
import Dshare.Protocol.Message

namespace Dshare.Core

open CheckedInt Dshare.Protocol

/-! ## §1. Layouts. -/

structure Screen where
  width : UInt32
  height : UInt32
  deriving DecidableEq

/-- `Screen::default`. -/
def Screen.default : Screen := ⟨1920, 1080⟩

inductive Edge where
  | left
  | right
  | top
  | bottom
  deriving DecidableEq

structure PeerScreen where
  peerId : Uuid
  name : String
  edge : Edge
  /-- Offset along the shared edge, in pixels. -/
  offset : Int32
  screen : Screen

structure Layout where
  serverScreen : Screen
  peers : List PeerScreen

/-- Result of a cursor movement check. -/
inductive EdgeCross where
  | stay
  | cross (peerIndex : Nat) (entryX entryY : Int32)
  deriving DecidableEq

/-- How `check_edge` panics. -/
inductive Panic where
  /-- "attempt to subtract with overflow". -/
  | subtract
  /-- `clamp`'s "assertion failed: min <= max". -/
  | clamp
  deriving DecidableEq

/-! ## §2. `check_edge`. -/

/-- `(c - offset).clamp(0, extent - 1)`. -/
def along (c offset extent : Int32) : Except Panic Int32 := do
  let d ← sub .subtract c offset
  let last ← sub .subtract extent 1
  clamp .clamp d 0 last

/-- The guards of `match peer.edge`. -/
def Edge.beyond (server : Screen) (x y : Int32) : Edge → Bool
  | .left => decide (x < 0)
  | .right => decide (x ≥ server.width.toInt32)
  | .top => decide (y < 0)
  | .bottom => decide (y ≥ server.height.toInt32)

/-- The arms of `match peer.edge`: where the peer is entered. -/
def PeerScreen.entry (peer : PeerScreen) (x y : Int32) : Except Panic (Int32 × Int32) :=
  let pw := peer.screen.width.toInt32
  let ph := peer.screen.height.toInt32
  match peer.edge with
  | .left => do
      let localY ← along y peer.offset ph
      let last ← sub .subtract pw 1
      pure (last, localY)
  | .right => do
      let localY ← along y peer.offset ph
      pure (0, localY)
  | .top => do
      let localX ← along x peer.offset pw
      let last ← sub .subtract ph 1
      pure (localX, last)
  | .bottom => do
      let localX ← along x peer.offset pw
      pure (localX, 0)

/-- The loop over the peers, from the index `i` on. -/
def checkEdgeFrom (server : Screen) (x y : Int32) : Nat → List PeerScreen → Except Panic EdgeCross
  | _, [] => pure .stay
  | i, peer :: peers =>
      if peer.edge.beyond server x y then do
        let e ← peer.entry x y
        pure (.cross i e.1 e.2)
      else checkEdgeFrom server x y (i + 1) peers

/-- `Layout::check_edge`. -/
def Layout.checkEdge (l : Layout) (x y : Int32) : Except Panic EdgeCross :=
  checkEdgeFrom l.serverScreen x y 0 l.peers

/-! ## §3. The peer that decides. -/

/-- The first peer in the list that sits on an edge the cursor is beyond, and its index. -/
def Layout.facing (l : Layout) (x y : Int32) : Option (PeerScreen × Nat) :=
  l.peers.zipIdx.find? fun p => p.1.edge.beyond l.serverScreen x y

theorem checkEdgeFrom_eq (server : Screen) (x y : Int32) (peers : List PeerScreen) :
    ∀ i, checkEdgeFrom server x y i peers =
      match (peers.zipIdx i).find? fun p => p.1.edge.beyond server x y with
      | some (peer, j) => (peer.entry x y).map fun e => .cross j e.1 e.2
      | none => .ok .stay := by
  induction peers with
  | nil => intro i; rfl
  | cons peer peers ih =>
      intro i
      unfold checkEdgeFrom
      rw [List.zipIdx_cons, List.find?_cons]
      cases peer.edge.beyond server x y with
      | true =>
          rw [if_pos rfl]
          show _ = (peer.entry x y).map fun e => EdgeCross.cross i e.1 e.2
          cases peer.entry x y <;> rfl
      | false => exact ih (i + 1)

/-- **`check_edge` asks one peer**: the first that sits on an edge the cursor is beyond. -/
theorem Layout.checkEdge_eq (l : Layout) (x y : Int32) :
    l.checkEdge x y =
      match l.facing x y with
      | some (peer, i) => (peer.entry x y).map fun e => .cross i e.1 e.2
      | none => .ok .stay :=
  checkEdgeFrom_eq l.serverScreen x y l.peers 0

theorem Layout.facing_eq_none {l : Layout} {x y : Int32} :
    l.facing x y = none ↔ ∀ peer ∈ l.peers, peer.edge.beyond l.serverScreen x y = false := by
  unfold facing
  rw [List.find?_eq_none]
  constructor
  · intro h peer hmem
    obtain ⟨i, hi⟩ := List.getElem?_of_mem hmem
    have hno := h (peer, i) (List.mk_mem_zipIdx_iff_getElem?.mpr hi)
    simpa using hno
  · intro h p hp
    rw [h p.1 (List.fst_mem_of_mem_zipIdx hp)]
    exact Bool.false_ne_true

theorem Layout.facing_eq_some {l : Layout} {x y : Int32} {peer : PeerScreen} {i : Nat}
    (h : l.facing x y = some (peer, i)) :
    l.peers[i]? = some peer ∧ peer.edge.beyond l.serverScreen x y = true := by
  have hbeyond := List.find?_some
    (p := fun p : PeerScreen × Nat => p.1.edge.beyond l.serverScreen x y) h
  exact ⟨List.mk_mem_zipIdx_iff_getElem?.mp (List.mem_of_find?_eq_some h), hbeyond⟩

/-! ## §4. The entry point. -/

/-- What `along` computes, in integers. -/
structure Along (c offset extent v : Int32) : Prop where
  fits : Fits (c.toInt - offset.toInt)
  positive : 1 ≤ extent.toInt
  value : v.toInt = max 0 (min (extent.toInt - 1) (c.toInt - offset.toInt))

theorem along_eq_ok_iff {c offset extent v : Int32} :
    along c offset extent = .ok v ↔ Along c offset extent v := by
  unfold along
  constructor
  · intro h
    obtain ⟨d, hd, h⟩ := bind_eq_ok_iff.mp h
    obtain ⟨last, hlast, h⟩ := bind_eq_ok_iff.mp h
    obtain ⟨hle, hv⟩ := clamp_eq_ok_iff.mp h
    rw [sub_eq_ok_iff.mp hlast] at hle hv
    rw [sub_eq_ok_iff.mp hd] at hv
    exact ⟨sub_eq_ok_iff.mp hd ▸ fits_toInt d, by simpa using hle, hv⟩
  · intro h
    -- `extent - 1` does not overflow, since the extent is positive
    obtain ⟨d, hd, hdv⟩ := exists_sub (e := Panic.subtract) h.fits
    have hone : Fits (extent.toInt - (1 : Int32).toInt) := by
      have hpos := h.positive
      have hmax := Int32.toInt_lt extent
      exact ⟨by show _ ≤ extent.toInt - 1; omega, by show extent.toInt - 1 < _; omega⟩
    obtain ⟨last, hlast, hlastv⟩ := exists_sub (e := Panic.subtract) hone
    refine bind_eq_ok_iff.mpr ⟨d, hd, bind_eq_ok_iff.mpr ⟨last, hlast, ?_⟩⟩
    rw [clamp_eq_ok_iff, hdv, hlastv]
    have hpos := h.positive
    exact ⟨by show 0 ≤ extent.toInt - 1; omega, h.value⟩

/-- Inside the range, `along` goes through. -/
theorem exists_along {c offset extent : Int32} (hfits : Fits (c.toInt - offset.toInt))
    (hextent : 1 ≤ extent.toInt) :
    ∃ v, along c offset extent = .ok v ∧ Along c offset extent v := by
  have hmax := Int32.toInt_lt extent
  have hrange : Fits (max 0 (min (extent.toInt - 1) (c.toInt - offset.toInt))) := by
    constructor <;> omega
  have hvalue : Along c offset extent
      (Int32.ofInt (max 0 (min (extent.toInt - 1) (c.toInt - offset.toInt)))) :=
    ⟨hfits, hextent, Int32.toInt_ofInt_of_le hrange.1 hrange.2⟩
  exact ⟨_, along_eq_ok_iff.mpr hvalue, hvalue⟩

/-- The coordinate along an edge, of a cursor or of a screen's size. -/
def Edge.coord {α : Type} (x y : α) : Edge → α
  | .left | .right => y
  | .top | .bottom => x

/-- The coordinate across an edge. -/
def Edge.depth {α : Type} (x y : α) : Edge → α
  | .left | .right => x
  | .top | .bottom => y

/-- The row or column of a peer's screen that faces the server, by the screen's depth. -/
def Edge.inner (extent : Int) : Edge → Int
  | .left | .top => extent - 1
  | .right | .bottom => 0

/-- Every point has its two coordinates, whichever way the edge runs. -/
theorem Edge.exists_point {α : Type} (edge : Edge) (c d : α) :
    ∃ e : α × α, edge.coord e.1 e.2 = c ∧ edge.depth e.1 e.2 = d := by
  cases edge with
  | left => exact ⟨(d, c), rfl, rfl⟩
  | right => exact ⟨(d, c), rfl, rfl⟩
  | top => exact ⟨(c, d), rfl, rfl⟩
  | bottom => exact ⟨(c, d), rfl, rfl⟩

/-- **Where a peer is entered**: along the edge as `along` says, across it on the
row or column facing the server. -/
theorem PeerScreen.entry_eq_ok_iff {peer : PeerScreen} {x y : Int32} {e : Int32 × Int32} :
    peer.entry x y = .ok e
      ↔ Along (peer.edge.coord x y) peer.offset
            (peer.edge.coord peer.screen.width.toInt32 peer.screen.height.toInt32)
            (peer.edge.coord e.1 e.2)
          ∧ (peer.edge.depth e.1 e.2).toInt
            = peer.edge.inner
                (peer.edge.depth peer.screen.width.toInt32 peer.screen.height.toInt32).toInt := by
  have hzero : ∀ v : Int32, v = 0 ↔ v.toInt = 0 := fun v => Int32.toInt_inj.symm
  obtain ⟨a, b⟩ := e
  unfold entry
  cases peer.edge with
  | left | top =>
      -- entered on the last column or row, which is subtracted
      simp only [bind_eq_ok_iff, along_eq_ok_iff, sub_eq_ok_iff]
      constructor
      · intro h
        obtain ⟨v, hv, last, hlast, h⟩ := h
        cases h
        exact ⟨hv, hlast⟩
      · intro h
        exact ⟨_, h.1, _, h.2, rfl⟩
  | right | bottom =>
      simp only [bind_eq_ok_iff, along_eq_ok_iff]
      constructor
      · intro h
        obtain ⟨v, hv, h⟩ := h
        cases h
        exact ⟨hv, rfl⟩
      · intro h
        obtain ⟨halong, hdepth⟩ := h
        cases (hzero _).mpr hdepth
        exact ⟨_, halong, rfl⟩

theorem Layout.checkEdge_eq_stay_iff {l : Layout} {x y : Int32} :
    l.checkEdge x y = .ok .stay ↔ l.facing x y = none := by
  rw [checkEdge_eq]
  cases l.facing x y with
  | none => exact ⟨fun _ => rfl, fun _ => rfl⟩
  | some p =>
      show (p.1.entry x y).map (fun e => EdgeCross.cross p.2 e.1 e.2) = _ ↔ _
      cases p.1.entry x y with
      | error e => exact ⟨nofun, nofun⟩
      | ok e => exact ⟨nofun, nofun⟩

theorem Layout.checkEdge_eq_cross_iff {l : Layout} {x y : Int32} {i : Nat} {ex ey : Int32} :
    l.checkEdge x y = .ok (.cross i ex ey)
      ↔ ∃ peer, l.facing x y = some (peer, i) ∧ peer.entry x y = .ok (ex, ey) := by
  rw [checkEdge_eq]
  cases l.facing x y with
  | none => exact ⟨nofun, nofun⟩
  | some p =>
      obtain ⟨peer, j⟩ := p
      show (peer.entry x y).map (fun e => EdgeCross.cross j e.1 e.2) = _ ↔ _
      cases hentry : peer.entry x y with
      | error e =>
          constructor
          · intro h
            cases h
          · intro h
            obtain ⟨peer', hfacing, hok⟩ := h
            cases hfacing
            rw [hentry] at hok
            cases hok
      | ok e =>
          constructor
          · intro h
            cases h
            exact ⟨peer, rfl, hentry⟩
          · intro h
            obtain ⟨peer', hfacing, hok⟩ := h
            cases hfacing
            rw [hentry] at hok
            cases hok
            rfl

/-! ## §5. Safety. -/

/-- The points of a screen. -/
def Screen.Inside (s : Screen) (x y : Int32) : Prop :=
  (0 ≤ x.toInt ∧ x.toInt < s.width.toNat) ∧ 0 ≤ y.toInt ∧ y.toInt < s.height.toNat

theorem Screen.inside_iff (s : Screen) (edge : Edge) (e : Int32 × Int32) :
    s.Inside e.1 e.2 ↔
      (0 ≤ (edge.coord e.1 e.2).toInt
        ∧ (edge.coord e.1 e.2).toInt < (edge.coord s.width s.height).toNat)
      ∧ 0 ≤ (edge.depth e.1 e.2).toInt
        ∧ (edge.depth e.1 e.2).toInt < (edge.depth s.width s.height).toNat := by
  cases edge with
  | left | right => exact and_comm
  | top | bottom => exact Iff.rfl

/-- What lets a cursor enter a peer's screen, at a point of it and without a panic. -/
structure PeerScreen.Enterable (peer : PeerScreen) (x y : Int32) : Prop where
  fits : Fits ((peer.edge.coord x y).toInt - peer.offset.toInt)
  extent : 1 ≤ (peer.edge.coord peer.screen.width peer.screen.height).toNat
    ∧ (peer.edge.coord peer.screen.width peer.screen.height).toNat < 2 ^ 31
  depth : 1 ≤ (peer.edge.depth peer.screen.width peer.screen.height).toNat
  /-- To the left and above, the cursor enters on the last column or row. -/
  last : peer.edge = .left ∨ peer.edge = .top →
    (peer.edge.depth peer.screen.width peer.screen.height).toNat < 2 ^ 31

/-- The row or column facing the server is one of the screen. -/
theorem inner_inside_iff (edge : Edge) (u : UInt32) :
    (0 ≤ edge.inner u.toInt32.toInt ∧ edge.inner u.toInt32.toInt < u.toNat)
      ↔ 1 ≤ u.toNat ∧ (edge = .left ∨ edge = .top → u.toNat < 2 ^ 31) := by
  have hu := toInt_toInt32 u
  cases edge with
  | left | top =>
      -- a size from `2 ^ 31` on is negative as an `i32`
      show (0 ≤ u.toInt32.toInt - 1 ∧ u.toInt32.toInt - 1 < _) ↔ _
      by_cases h : u.toNat < 2 ^ 31
      · rw [if_pos h] at hu
        simp only [h, implies_true, and_true]
        omega
      · rw [if_neg h] at hu
        have hmax := UInt32.toNat_lt u
        simp only [h, reduceCtorEq, or_true, true_or, forall_const, and_false, iff_false]
        omega
  | right | bottom =>
      show ((0 : Int) ≤ 0 ∧ (0 : Int) < _) ↔ _
      simp only [reduceCtorEq, or_self, false_imp_iff, and_true]
      omega

theorem one_le_toInt_toInt32 (u : UInt32) :
    1 ≤ u.toInt32.toInt ↔ 1 ≤ u.toNat ∧ u.toNat < 2 ^ 31 := by
  have hu := toInt_toInt32 u
  have hmax := UInt32.toNat_lt u
  by_cases h : u.toNat < 2 ^ 31
  · rw [if_pos h] at hu
    omega
  · rw [if_neg h] at hu
    omega

theorem coord_toInt32 (edge : Edge) (u v : UInt32) :
    edge.coord u.toInt32 v.toInt32 = (edge.coord u v).toInt32 := by
  cases edge <;> rfl

theorem depth_toInt32 (edge : Edge) (u v : UInt32) :
    edge.depth u.toInt32 v.toInt32 = (edge.depth u v).toInt32 := by
  cases edge <;> rfl

/-- **A peer is entered at a point of its screen exactly when it is enterable.** -/
theorem PeerScreen.enterable_iff {peer : PeerScreen} {x y : Int32} :
    (∃ e, peer.entry x y = .ok e ∧ peer.screen.Inside e.1 e.2) ↔ peer.Enterable x y := by
  constructor
  · intro h
    obtain ⟨e, hentry, hinside⟩ := h
    obtain ⟨halong, hdepth⟩ := entry_eq_ok_iff.mp hentry
    rw [coord_toInt32] at halong
    rw [depth_toInt32] at hdepth
    obtain ⟨-, hin⟩ := (peer.screen.inside_iff peer.edge e).mp hinside
    rw [hdepth, inner_inside_iff] at hin
    exact ⟨halong.fits, (one_le_toInt_toInt32 _).mp halong.positive, hin.1, hin.2⟩
  · intro h
    have hpos := (one_le_toInt_toInt32 _).mpr h.extent
    have hin := (inner_inside_iff peer.edge _).mpr ⟨h.depth, h.last⟩
    have hmax := UInt32.toNat_lt (peer.edge.depth peer.screen.width peer.screen.height)
    obtain ⟨c, -, hc⟩ := exists_along h.fits hpos
    -- the row or column facing the server, as a machine word
    obtain ⟨d, hd⟩ : ∃ d : Int32, d.toInt = peer.edge.inner
        (peer.edge.depth peer.screen.width peer.screen.height).toInt32.toInt := by
      have hrange := Int32.toInt_lt
        (peer.edge.depth peer.screen.width peer.screen.height).toInt32
      have hle : peer.edge.inner
            (peer.edge.depth peer.screen.width peer.screen.height).toInt32.toInt < 2 ^ 31 := by
        cases hedge : peer.edge <;> simp only [hedge, Edge.inner] at * <;> omega
      exact ⟨_, Int32.toInt_ofInt_of_le (by omega) hle⟩
    obtain ⟨e, hec, hed⟩ := peer.edge.exists_point c d
    have hentry : peer.entry x y = .ok e := by
      rw [entry_eq_ok_iff, coord_toInt32, depth_toInt32, hec, hed]
      exact ⟨hc, hd⟩
    have hcv := hc.value
    have hcu := toInt_toInt32 (peer.edge.coord peer.screen.width peer.screen.height)
    rw [if_pos h.extent.2] at hcu
    refine ⟨e, hentry, (peer.screen.inside_iff peer.edge e).mpr ⟨?_, ?_⟩⟩
    · rw [hec]
      omega
    · rw [hed, hd]
      exact hin

/-- What `check_edge` owes every layout and cursor: it completes, a cursor on the server's
screen stays, and a peer is entered at a point of its screen. -/
def Layout.CheckedSafely (l : Layout) (x y : Int32) : Prop :=
  ∃ r, l.checkEdge x y = .ok r
    ∧ (l.serverScreen.Inside x y → r = .stay)
    ∧ ∀ i ex ey, r = .cross i ex ey →
        ∃ peer, l.peers[i]? = some peer ∧ peer.screen.Inside ex ey

/-- **When `check_edge` is safe**: when the peer that decides, if there is one, is
enterable and the cursor is not on the server's screen. -/
theorem check_edge_safe_iff (l : Layout) (x y : Int32) :
    l.CheckedSafely x y
      ↔ ∀ peer i, l.facing x y = some (peer, i) →
          ¬ l.serverScreen.Inside x y ∧ peer.Enterable x y := by
  constructor
  · intro h peer i hfacing
    obtain ⟨r, hr, hstay, hcross⟩ := h
    cases r with
    | stay =>
        have hnone := Layout.checkEdge_eq_stay_iff.mp hr
        rw [hfacing] at hnone
        cases hnone
    | cross j ex ey =>
        obtain ⟨peer', hfacing', hentry⟩ := Layout.checkEdge_eq_cross_iff.mp hr
        rw [hfacing] at hfacing'
        cases hfacing'
        -- the index of the answer is that of the peer that decides
        obtain ⟨peer', hget, hinside⟩ := hcross i ex ey rfl
        rw [(Layout.facing_eq_some hfacing).1] at hget
        cases hget
        exact ⟨fun hin => (nomatch hstay hin),
          PeerScreen.enterable_iff.mp ⟨(ex, ey), hentry, hinside⟩⟩
  · intro h
    cases hfacing : l.facing x y with
    | none =>
        exact ⟨.stay, Layout.checkEdge_eq_stay_iff.mpr hfacing, fun _ => rfl, nofun⟩
    | some p =>
        obtain ⟨peer, i⟩ := p
        obtain ⟨hout, henter⟩ := h peer i hfacing
        obtain ⟨e, hentry, hinside⟩ := PeerScreen.enterable_iff.mpr henter
        refine ⟨.cross i e.1 e.2, Layout.checkEdge_eq_cross_iff.mpr ⟨peer, hfacing, hentry⟩,
          fun hin => absurd hin hout, ?_⟩
        intro j ex ey hr
        cases hr
        exact ⟨peer, (Layout.facing_eq_some hfacing).1, hinside⟩

/-- A peer to the right whose height is `0` makes `clamp` panic. -/
theorem zero_height_panics :
    let l : Layout := ⟨.default, [⟨.nil, "peer", .right, 0, ⟨1920, 0⟩⟩]⟩
    l.checkEdge 1920 500 = .error .clamp ∧ ¬ l.CheckedSafely 1920 500 := by
  intro l
  have hpanic : l.checkEdge 1920 500 = .error .clamp := by decide
  refine ⟨hpanic, ?_⟩
  intro h
  obtain ⟨r, hr, -⟩ := h
  rw [hpanic] at hr
  cases hr

/-! ## §6. Screens as the program means them. -/

/-- A screen whose sizes are between `1` and `i32::MAX`. -/
structure Screen.Proper (s : Screen) : Prop where
  width : 1 ≤ s.width.toNat ∧ s.width.toNat < 2 ^ 31
  height : 1 ≤ s.height.toNat ∧ s.height.toNat < 2 ^ 31

instance (s : Screen) : Decidable s.Proper :=
  decidable_of_iff ((1 ≤ s.width.toNat ∧ s.width.toNat < 2 ^ 31)
    ∧ 1 ≤ s.height.toNat ∧ s.height.toNat < 2 ^ 31) ⟨fun h => ⟨h.1, h.2⟩, fun h => ⟨h.1, h.2⟩⟩

/-- All screens of a layout are proper. -/
structure Layout.Proper (l : Layout) : Prop where
  server : l.serverScreen.Proper
  peers : ∀ peer ∈ l.peers, peer.screen.Proper

instance (l : Layout) : Decidable l.Proper :=
  decidable_of_iff (l.serverScreen.Proper ∧ ∀ peer ∈ l.peers, peer.screen.Proper)
    ⟨fun h => ⟨h.1, h.2⟩, fun h => ⟨h.1, h.2⟩⟩

/-- The cursor's distances from every peer's offset fit in an `i32`. -/
def Layout.Measures (l : Layout) (x y : Int32) : Prop :=
  ∀ peer ∈ l.peers, Fits (x.toInt - peer.offset.toInt) ∧ Fits (y.toInt - peer.offset.toInt)

instance (l : Layout) (x y : Int32) : Decidable (l.Measures x y) :=
  inferInstanceAs (Decidable (∀ _ ∈ _, _))

/-- The cursor is beyond an edge of the server's screen, as integers. -/
def Edge.Beyond (server : Screen) (x y : Int32) : Edge → Prop
  | .left => x.toInt < 0
  | .right => (server.width.toNat : Int) ≤ x.toInt
  | .top => y.toInt < 0
  | .bottom => (server.height.toNat : Int) ≤ y.toInt

instance (server : Screen) (x y : Int32) : (edge : Edge) → Decidable (edge.Beyond server x y)
  | .left => inferInstanceAs (Decidable (x.toInt < 0))
  | .right => inferInstanceAs (Decidable ((server.width.toNat : Int) ≤ x.toInt))
  | .top => inferInstanceAs (Decidable (y.toInt < 0))
  | .bottom => inferInstanceAs (Decidable ((server.height.toNat : Int) ≤ y.toInt))

theorem Screen.Proper.coord {s : Screen} (h : s.Proper) (edge : Edge) :
    1 ≤ (edge.coord s.width s.height).toNat ∧ (edge.coord s.width s.height).toNat < 2 ^ 31 := by
  cases edge with
  | left | right => exact h.height
  | top | bottom => exact h.width

theorem Screen.Proper.depth {s : Screen} (h : s.Proper) (edge : Edge) :
    1 ≤ (edge.depth s.width s.height).toNat ∧ (edge.depth s.width s.height).toNat < 2 ^ 31 := by
  cases edge with
  | left | right => exact h.width
  | top | bottom => exact h.height

/-- On a proper screen the casts mean what they say. -/
theorem Edge.beyond_iff {server : Screen} (h : server.Proper) (x y : Int32) (edge : Edge) :
    edge.beyond server x y = true ↔ edge.Beyond server x y := by
  have hw := toInt_toInt32 server.width
  have hh := toInt_toInt32 server.height
  rw [if_pos h.width.2] at hw
  rw [if_pos h.height.2] at hh
  cases edge with
  | left =>
      show decide (x < 0) = true ↔ _
      rw [decide_eq_true_iff, Int32.lt_iff_toInt_lt]
      rfl
  | right =>
      show decide (server.width.toInt32 ≤ x) = true ↔ _
      rw [decide_eq_true_iff, Int32.le_iff_toInt_le, hw]
      rfl
  | top =>
      show decide (y < 0) = true ↔ _
      rw [decide_eq_true_iff, Int32.lt_iff_toInt_lt]
      rfl
  | bottom =>
      show decide (server.height.toInt32 ≤ y) = true ↔ _
      rw [decide_eq_true_iff, Int32.le_iff_toInt_le, hh]
      rfl

theorem Edge.not_beyond_of_inside {server : Screen} {x y : Int32} (h : server.Inside x y)
    (edge : Edge) : ¬ edge.Beyond server x y := by
  obtain ⟨⟨hx, hw⟩, hy, hh⟩ := h
  cases edge with
  | left => exact not_lt.mpr hx
  | right => exact not_le.mpr hw
  | top => exact not_lt.mpr hy
  | bottom => exact not_le.mpr hh

theorem Layout.Measures.fits {l : Layout} {x y : Int32} (h : l.Measures x y) {peer : PeerScreen}
    (hmem : peer ∈ l.peers) : Fits ((peer.edge.coord x y).toInt - peer.offset.toInt) := by
  cases peer.edge with
  | left | right => exact (h peer hmem).2
  | top | bottom => exact (h peer hmem).1

/-- Where the cursor enters a peer of a proper screen: along the edge as near to its
own coordinate as the screen goes, across it on the row or column facing the server. -/
structure PeerScreen.EntersAt (peer : PeerScreen) (x y ex ey : Int32) : Prop where
  coord : (peer.edge.coord ex ey).toInt =
    max 0 (min (((peer.edge.coord peer.screen.width peer.screen.height).toNat : Int) - 1)
      ((peer.edge.coord x y).toInt - peer.offset.toInt))
  depth : (peer.edge.depth ex ey).toInt =
    peer.edge.inner (peer.edge.depth peer.screen.width peer.screen.height).toNat

/-- **`check_edge` on proper screens**: the first peer on an edge the cursor is beyond
is entered where the cursor is. -/
theorem Layout.checkEdge_of_facing {l : Layout} (h : l.Proper) {x y : Int32}
    (hm : l.Measures x y) {peer : PeerScreen} {i : Nat} (hfacing : l.facing x y = some (peer, i)) :
    ∃ ex ey, l.checkEdge x y = .ok (.cross i ex ey) ∧ peer.EntersAt x y ex ey
      ∧ peer.screen.Inside ex ey := by
  have hmem := List.mem_of_getElem? (facing_eq_some hfacing).1
  have hscreen := h.peers peer hmem
  have hc := hscreen.coord peer.edge
  have hd := hscreen.depth peer.edge
  obtain ⟨e, hentry, hinside⟩ := PeerScreen.enterable_iff.mpr
    ⟨hm.fits hmem, hc, hd.1, fun _ => hd.2⟩
  obtain ⟨halong, hdepth⟩ := PeerScreen.entry_eq_ok_iff.mp hentry
  have hcu := toInt_toInt32 (peer.edge.coord peer.screen.width peer.screen.height)
  have hdu := toInt_toInt32 (peer.edge.depth peer.screen.width peer.screen.height)
  rw [if_pos hc.2] at hcu
  rw [if_pos hd.2] at hdu
  have hvalue := halong.value
  rw [coord_toInt32, hcu] at hvalue
  rw [depth_toInt32, hdu] at hdepth
  exact ⟨e.1, e.2, checkEdge_eq_cross_iff.mpr ⟨peer, hfacing, hentry⟩, ⟨hvalue, hdepth⟩, hinside⟩

/-! ## §7. The peer next to the cursor. -/

/-- The peer's screen spans the cursor's coordinate along its edge. -/
def PeerScreen.Spans (peer : PeerScreen) (x y : Int32) : Prop :=
  peer.offset.toInt ≤ (peer.edge.coord x y).toInt
    ∧ (peer.edge.coord x y).toInt
      < peer.offset.toInt + (peer.edge.coord peer.screen.width peer.screen.height).toNat

instance (peer : PeerScreen) (x y : Int32) : Decidable (peer.Spans x y) :=
  inferInstanceAs (Decidable (_ ∧ _))

/-- Some peer on a crossed edge spans the cursor's coordinate. -/
def Layout.Spanned (l : Layout) (x y : Int32) : Prop :=
  ∃ peer ∈ l.peers, peer.edge.Beyond l.serverScreen x y ∧ peer.Spans x y

/-- If some peer on a crossed edge is next to the cursor, such a peer is entered, at the
cursor's own coordinate. -/
def Layout.EntersSpanning (l : Layout) (x y : Int32) : Prop :=
  l.Spanned x y →
    ∃ i ex ey peer, l.checkEdge x y = .ok (.cross i ex ey) ∧ l.peers[i]? = some peer
      ∧ peer.edge.Beyond l.serverScreen x y ∧ peer.Spans x y
      ∧ (peer.edge.coord ex ey).toInt = (peer.edge.coord x y).toInt - peer.offset.toInt

/-- **When the peer next to the cursor is entered**: when the first peer in the list that
sits on a crossed edge is next to the cursor, or none is. -/
theorem enters_spanning_iff {l : Layout} (h : l.Proper) {x y : Int32} (hm : l.Measures x y) :
    l.EntersSpanning x y
      ↔ (l.Spanned x y → ∃ peer i, l.facing x y = some (peer, i) ∧ peer.Spans x y) := by
  constructor
  · intro henters hspanned
    obtain ⟨i, ex, ey, peer, hcross, hget, -, hspans, -⟩ := henters hspanned
    obtain ⟨peer', hfacing, -⟩ := Layout.checkEdge_eq_cross_iff.mp hcross
    rw [(Layout.facing_eq_some hfacing).1] at hget
    cases hget
    exact ⟨peer, i, hfacing, hspans⟩
  · intro hfirst hspanned
    obtain ⟨peer, i, hfacing, hspans⟩ := hfirst hspanned
    obtain ⟨hget, hbeyond⟩ := Layout.facing_eq_some hfacing
    obtain ⟨ex, ey, hcross, hat, -⟩ := Layout.checkEdge_of_facing h hm hfacing
    refine ⟨i, ex, ey, peer, hcross, hget, (Edge.beyond_iff h.server x y _).mp hbeyond, hspans, ?_⟩
    -- a cursor that the peer spans is not clamped
    have hcoord := hat.coord
    obtain ⟨hlo, hhi⟩ := hspans
    omega

/-- A peer is never entered when an earlier one sits on the same edge. -/
theorem Layout.not_entered_of_shadowed {l : Layout} {i j : Nat} {p q : PeerScreen}
    (hi : l.peers[i]? = some p) (hj : l.peers[j]? = some q) (hlt : i < j)
    (hedge : p.edge = q.edge) (x y ex ey : Int32) :
    l.checkEdge x y ≠ .ok (.cross j ex ey) := by
  intro hcross
  obtain ⟨peer, hfacing, -⟩ := checkEdge_eq_cross_iff.mp hcross
  -- the search passed every earlier peer, and so the one that shadows
  obtain ⟨hbeyond, k, hk, hget, hbefore⟩ := List.find?_eq_some_iff_getElem.mp hfacing
  rw [List.getElem_zipIdx, Nat.zero_add] at hget
  obtain ⟨rfl, rfl⟩ := Prod.mk.inj hget
  obtain ⟨hlen, rfl⟩ := List.getElem?_eq_some_iff.mp hj
  have hno := hbefore i hlt
  rw [List.getElem_zipIdx] at hno
  obtain ⟨hleni, rfl⟩ := List.getElem?_eq_some_iff.mp hi
  simp only [hedge, hbeyond] at hno
  cases hno

/-- Two peers to the right, one below the other: the cursor beside the second enters the
first. -/
theorem second_peer_shadowed :
    let l : Layout := ⟨.default,
      [⟨.nil, "upper", .right, 0, ⟨100, 100⟩⟩, ⟨.nil, "lower", .right, 100, ⟨100, 100⟩⟩]⟩
    l.Proper ∧ l.Measures 1920 150 ∧ l.checkEdge 1920 150 = .ok (.cross 0 0 99)
      ∧ ¬ l.EntersSpanning 1920 150 := by
  intro l
  have hcross : l.checkEdge 1920 150 = .ok (.cross 0 0 99) := by decide
  refine ⟨by decide, by decide, hcross, ?_⟩
  intro henters
  obtain ⟨i, ex, ey, peer, hcross', hget, -, hspans, -⟩ := henters
    ⟨⟨.nil, "lower", .right, 100, ⟨100, 100⟩⟩, by simp [l], by decide, by decide⟩
  rw [hcross] at hcross'
  cases hcross'
  cases hget
  exact absurd hspans.2 (by decide)

/-- With the second one listed first, it is entered. -/
theorem enters_spanning_iff_reordered :
    let l : Layout := ⟨.default,
      [⟨.nil, "lower", .right, 100, ⟨100, 100⟩⟩, ⟨.nil, "upper", .right, 0, ⟨100, 100⟩⟩]⟩
    l.EntersSpanning 1920 150 := by
  intro l
  refine (enters_spanning_iff (by decide) (by decide)).mpr fun _ => ?_
  exact ⟨⟨.nil, "lower", .right, 100, ⟨100, 100⟩⟩, 0, by rfl, by decide⟩

/-! ## §8. The peers that can be entered. -/

/-- The search stops at a peer on a crossed edge that no earlier one sits on. -/
theorem Layout.facing_of_first {l : Layout} {x y : Int32} {j : Nat} {q : PeerScreen}
    (hj : l.peers[j]? = some q) (hbeyond : q.edge.beyond l.serverScreen x y = true)
    (hfirst : ∀ i p, i < j → l.peers[i]? = some p → p.edge.beyond l.serverScreen x y = false) :
    l.facing x y = some (q, j) := by
  obtain ⟨hlen, hq⟩ := List.getElem?_eq_some_iff.mp hj
  have hzip : j < l.peers.zipIdx.length := by
    rw [List.length_zipIdx]
    exact hlen
  refine List.find?_eq_some_iff_getElem.mpr ⟨hbeyond, j, hzip, ?_, ?_⟩
  · rw [List.getElem_zipIdx, Nat.zero_add, hq]
  · intro i hi
    have hleni : i < l.peers.length := Nat.lt_trans hi hlen
    rw [List.getElem_zipIdx]
    have hno := hfirst i l.peers[i] hi (List.getElem?_eq_getElem hleni)
    simp only [hno, Bool.not_false]

/-- A cursor that is beyond the one edge only, at the corner of the screen. -/
def Edge.outside (server : Screen) : Edge → Int32 × Int32
  | .left => (-1, 0)
  | .right => (server.width.toInt32, 0)
  | .top => (0, -1)
  | .bottom => (0, server.height.toInt32)

theorem Screen.Proper.toInt_toInt32 {s : Screen} (h : s.Proper) :
    s.width.toInt32.toInt = s.width.toNat ∧ s.height.toInt32.toInt = s.height.toNat := by
  constructor
  · rw [CheckedInt.toInt_toInt32, if_pos h.width.2]
  · rw [CheckedInt.toInt_toInt32, if_pos h.height.2]

theorem Edge.beyond_outside {server : Screen} (h : server.Proper) (edge edge' : Edge) :
    edge'.beyond server (edge.outside server).1 (edge.outside server).2 = true
      ↔ edge' = edge := by
  obtain ⟨hw, hh⟩ := h.toInt_toInt32
  have hw1 := h.width.1
  have hh1 := h.height.1
  have hneg : (-1 : Int32).toInt = -1 := by decide
  have hzero : (0 : Int32).toInt = 0 := by decide
  rw [Edge.beyond_iff h]
  cases edge <;> cases edge' <;>
    · simp only [Edge.outside, Edge.Beyond, hw, hh, hneg, hzero, reduceCtorEq, iff_true, iff_false]
      omega

/-- **WHICH PEERS CAN BE ENTERED**: of the peers on each edge the first in the list, and no
other, whatever the cursor does.  The one offset left out is the one that cannot be
negated. -/
theorem Layout.entered_iff {l : Layout} (h : l.Proper) {j : Nat} {q : PeerScreen}
    (hj : l.peers[j]? = some q) (hoffset : q.offset ≠ Int32.minValue) :
    (∃ x y ex ey, l.checkEdge x y = .ok (.cross j ex ey))
      ↔ ∀ i p, i < j → l.peers[i]? = some p → p.edge ≠ q.edge := by
  constructor
  · intro henters i p hi hp hedge
    obtain ⟨x, y, ex, ey, hcross⟩ := henters
    exact not_entered_of_shadowed hp hj hi hedge x y ex ey hcross
  · intro hfirst
    obtain ⟨x, y, hxy⟩ : ∃ x y, (x, y) = q.edge.outside l.serverScreen := ⟨_, _, rfl⟩
    have hbeyond : ∀ edge : Edge, edge.beyond l.serverScreen x y = true ↔ edge = q.edge := by
      intro edge
      have := Edge.beyond_outside h.server q.edge edge
      rwa [← hxy] at this
    have hfacing : l.facing x y = some (q, j) := by
      refine facing_of_first hj ((hbeyond q.edge).mpr rfl) ?_
      intro i p hi hp
      rw [Bool.eq_false_iff]
      exact fun hb => hfirst i p hi hp ((hbeyond p.edge).mp hb)
    have hscreen := h.peers q (List.mem_of_getElem? hj)
    have hzero : (q.edge.coord x y).toInt = 0 := by
      have : (q.edge.coord (x, y).1 (x, y).2).toInt = 0 := by
        rw [hxy]
        cases q.edge <;> rfl
      exact this
    have hfits : Fits ((q.edge.coord x y).toInt - q.offset.toInt) := by
      rw [hzero]
      have hlo := Int32.le_toInt q.offset
      have hhi := Int32.toInt_lt q.offset
      have hne : q.offset.toInt ≠ -2 ^ 31 := by
        intro he
        exact hoffset (Int32.toInt_inj.mp he)
      unfold Fits
      omega
    have hc := hscreen.coord q.edge
    have hd := hscreen.depth q.edge
    obtain ⟨e, hentry, -⟩ := PeerScreen.enterable_iff.mpr ⟨hfits, hc, hd.1, fun _ => hd.2⟩
    exact ⟨x, y, e.1, e.2, checkEdge_eq_cross_iff.mpr ⟨q, hfacing, hentry⟩⟩

/-- The peer on the left can be entered, behind two on the right. -/
theorem Layout.entered_iff_left :
    let l : Layout := ⟨.default,
      [⟨.nil, "upper", .right, 0, ⟨100, 100⟩⟩, ⟨.nil, "lower", .right, 100, ⟨100, 100⟩⟩,
        ⟨.nil, "side", .left, 40, ⟨100, 100⟩⟩]⟩
    ∃ x y ex ey, l.checkEdge x y = .ok (.cross 2 ex ey) := by
  intro l
  have hside : l.peers[2]? = some ⟨.nil, "side", .left, 40, ⟨100, 100⟩⟩ := rfl
  refine (Layout.entered_iff (by decide) hside (by decide)).mpr ?_
  intro i p hi hp
  obtain rfl | rfl : i = 0 ∨ i = 1 := by omega
  · cases hp
    decide
  · cases hp
    decide

end Dshare.Core
