/-
  Dshare.Lib.WireFormat
  ─────────────────────
  **PREFIX FORMATS THAT CARRY THEIR OWN TWO LAWS.**

  A `Format ε α` writes a value of `α` as bytes and reads one back from the
  front of a byte list, handing over what is left.  Its two fields of proof say
  that it reads exactly what it writes:

    • `decode_encode` — the encoding of `a`, whatever follows it, is read as `a`;
    • `encode_decode` — whatever is read as `a` begins with the encoding of `a`.

  Lengths travel as 64-bit words, so the first law is promised for encodings
  shorter than `lengthBound`; no byte list that exists in memory is longer.

  The combinators below keep both laws, so a record's or an enumeration's format
  is assembled from its fields' without a new induction.
-/
import Mathlib.Algebra.Group.Nat.Defs

namespace WireFormat

/-! ## §1. Little-endian numerals. -/

/-- The `k` low bytes of `n`, lowest first. -/
def leBytes : Nat → Nat → List UInt8
  | 0, _ => []
  | k + 1, n => UInt8.ofNat n :: leBytes k (n / 256)

/-- The number whose bytes are listed, lowest first. -/
def leNat : List UInt8 → Nat
  | [] => 0
  | b :: bs => b.toNat + 256 * leNat bs

@[simp] theorem leBytes_length (k n : Nat) : (leBytes k n).length = k := by
  induction k generalizing n with
  | zero => rfl
  | succ k ih => simp [leBytes, ih]

theorem leNat_lt (bs : List UInt8) : leNat bs < 256 ^ bs.length := by
  induction bs with
  | nil => simp [leNat]
  | cons b bs ih =>
      have hb : b.toNat < 256 := b.toNat_lt
      simp only [leNat, List.length_cons, Nat.pow_succ]
      omega

theorem leNat_leBytes (k n : Nat) (h : n < 256 ^ k) : leNat (leBytes k n) = n := by
  induction k generalizing n with
  | zero =>
      have h0 : n = 0 := by simpa using h
      simp [leBytes, leNat, h0]
  | succ k ih =>
      have hq : n / 256 < 256 ^ k := by
        rw [Nat.div_lt_iff_lt_mul (by decide), ← Nat.pow_succ]
        exact h
      simp only [leBytes, leNat, ih _ hq, UInt8.toNat_ofNat']
      omega

theorem leBytes_leNat (bs : List UInt8) : leBytes bs.length (leNat bs) = bs := by
  induction bs with
  | nil => rfl
  | cons b bs ih =>
      have hb : b.toNat < 256 := b.toNat_lt
      have hlow : UInt8.ofNat (b.toNat + 256 * leNat bs) = b := by
        apply UInt8.toNat_inj.mp
        rw [UInt8.toNat_ofNat']
        omega
      have hhigh : (b.toNat + 256 * leNat bs) / 256 = leNat bs := by omega
      simp only [leNat, List.length_cons, leBytes, hlow, hhigh, ih]

/-! ## §2. Formats. -/

/-- Lengths are written in eight bytes. -/
def lengthBound : Nat := 2 ^ 64

/-- A writer and a prefix reader of one type, which agree. -/
structure Format (ε α : Type) where
  encode : α → List UInt8
  decode : List UInt8 → Except ε (α × List UInt8)
  decode_encode : ∀ (a : α) (rest : List UInt8), (encode a).length < lengthBound →
    decode (encode a ++ rest) = .ok (a, rest)
  encode_decode : ∀ (b : List UInt8) (a : α) (rest : List UInt8),
    decode b = .ok (a, rest) → b = encode a ++ rest

variable {ε α β : Type}

/-- The value read from the front of `b`, as a value of another type. -/
def Format.decodeAs (f : Format ε α) (mk : α → β) (b : List UInt8) :
    Except ε (β × List UInt8) :=
  match f.decode b with
  | .ok (a, rest) => .ok (mk a, rest)
  | .error e => .error e

theorem Format.decodeAs_encode (f : Format ε α) (mk : α → β) (a : α)
    (rest : List UInt8) (h : (f.encode a).length < lengthBound) :
    f.decodeAs mk (f.encode a ++ rest) = .ok (mk a, rest) := by
  simp only [decodeAs, f.decode_encode a rest h]

theorem Format.decodeAs_ok {f : Format ε α} {mk : α → β} {b rest : List UInt8} {v : β}
    (h : f.decodeAs mk b = .ok (v, rest)) :
    ∃ a, v = mk a ∧ b = f.encode a ++ rest := by
  unfold decodeAs at h
  cases hd : f.decode b with
  | error e => simp [hd] at h
  | ok p =>
      obtain ⟨a, r⟩ := p
      simp only [hd, Except.ok.injEq, Prod.mk.injEq] at h
      obtain ⟨rfl, rfl⟩ := h
      exact ⟨a, rfl, f.encode_decode b a r hd⟩

/-- **Fixed-width little-endian words** of `k` bytes. -/
def word (eof : ε) (k : Nat) (toNat : α → Nat) (ofNat : Nat → α)
    (toNat_lt : ∀ a, toNat a < 256 ^ k) (ofNat_toNat : ∀ a, ofNat (toNat a) = a)
    (toNat_ofNat : ∀ n, n < 256 ^ k → toNat (ofNat n) = n) : Format ε α where
  encode a := leBytes k (toNat a)
  decode b :=
    if b.length < k then .error eof else .ok (ofNat (leNat (b.take k)), b.drop k)
  decode_encode := by
    intro a rest _
    have hlen : ¬ (leBytes k (toNat a) ++ rest).length < k := by simp
    have htake : (leBytes k (toNat a) ++ rest).take k = leBytes k (toNat a) :=
      List.take_left' (leBytes_length k _)
    have hdrop : (leBytes k (toNat a) ++ rest).drop k = rest :=
      List.drop_left' (leBytes_length k _)
    rw [if_neg hlen, htake, hdrop, leNat_leBytes k _ (toNat_lt a), ofNat_toNat]
  encode_decode := by
    intro b a rest h
    split at h
    next => cases h
    next hlen =>
      simp only [Except.ok.injEq, Prod.mk.injEq] at h
      obtain ⟨rfl, rfl⟩ := h
      have htk : (b.take k).length = k := by simp; omega
      have hlt : leNat (b.take k) < 256 ^ k := by
        have := leNat_lt (b.take k)
        rwa [htk] at this
      have hback : leBytes k (leNat (b.take k)) = b.take k := by
        have := leBytes_leNat (b.take k)
        rwa [htk] at this
      rw [toNat_ofNat _ hlt, hback, List.take_append_drop]

/-- The same bytes, seen as a value of another type; reading may refuse. -/
def Format.refine (f : Format ε α) (view : α → Except ε β) (of : β → α)
    (view_of : ∀ b, view (of b) = .ok b) (of_view : ∀ a b, view a = .ok b → of b = a) :
    Format ε β where
  encode b := f.encode (of b)
  decode bs :=
    match f.decode bs with
    | .error e => .error e
    | .ok (a, rest) =>
        match view a with
        | .error e => .error e
        | .ok b => .ok (b, rest)
  decode_encode := by
    intro b rest h
    simp only [f.decode_encode (of b) rest h, view_of]
  encode_decode := by
    intro bs b rest h
    cases hd : f.decode bs with
    | error e => simp [hd] at h
    | ok p =>
        obtain ⟨a, r⟩ := p
        cases ht : view a with
        | error e => simp [hd, ht] at h
        | ok c =>
            simp only [hd, ht, Except.ok.injEq, Prod.mk.injEq] at h
            obtain ⟨rfl, rfl⟩ := h
            rw [of_view a c ht]
            exact f.encode_decode bs a r hd

/-- Change of representation, without refusal. -/
def Format.iso (f : Format ε α) (mk : α → β) (un : β → α)
    (mk_un : ∀ b, mk (un b) = b) (un_mk : ∀ a, un (mk a) = a) : Format ε β :=
  f.refine (fun a => .ok (mk a)) un (fun b => by rw [mk_un])
    (fun a b h => by cases h; exact un_mk a)

/-- One value after another. -/
def Format.pair (f : Format ε α) (g : Format ε β) : Format ε (α × β) where
  encode p := f.encode p.1 ++ g.encode p.2
  decode b :=
    match f.decode b with
    | .error e => .error e
    | .ok (a, rest) => g.decodeAs (fun c => (a, c)) rest
  decode_encode := by
    intro p rest h
    have hf : (f.encode p.1).length < lengthBound := by
      rw [List.length_append] at h
      omega
    have hg : (g.encode p.2).length < lengthBound := by
      rw [List.length_append] at h
      omega
    simp only [List.append_assoc, f.decode_encode p.1 _ hf,
      g.decodeAs_encode _ p.2 rest hg]
  encode_decode := by
    intro b p rest h
    cases hd : f.decode b with
    | error e => simp [hd] at h
    | ok q =>
        obtain ⟨a, r⟩ := q
        simp only [hd] at h
        obtain ⟨c, rfl, hc⟩ := Format.decodeAs_ok h
        rw [f.encode_decode b a r hd, hc, List.append_assoc]

/-- One byte, 0 or 1; any other byte is refused. -/
def bool (eof : ε) (bad : UInt8 → ε) : Format ε Bool where
  encode b := [if b then 1 else 0]
  decode
    | [] => .error eof
    | t :: rest =>
        if t = 0 then .ok (false, rest) else if t = 1 then .ok (true, rest) else .error (bad t)
  decode_encode := by
    intro b rest _
    cases b <;> rfl
  encode_decode := by
    intro bs b rest h
    cases bs with
    | nil => cases h
    | cons t r =>
        simp only at h
        split at h
        next h0 => cases h; simp [h0]
        next h0 =>
          split at h
          next h1 => cases h; simp [h1]
          next => cases h

/-- A tag byte 0, or a tag byte 1 and a value. -/
def Format.option (f : Format ε α) (eof : ε) (bad : UInt8 → ε) : Format ε (Option α) where
  encode
    | none => [0]
    | some a => 1 :: f.encode a
  decode
    | [] => .error eof
    | t :: rest =>
        if t = 0 then .ok (none, rest)
        else if t = 1 then f.decodeAs some rest
        else .error (bad t)
  decode_encode := by
    intro o rest h
    cases o with
    | none => rfl
    | some a =>
        have ha : (f.encode a).length < lengthBound := by
          simp only [List.length_cons] at h
          omega
        simp only [List.cons_append, if_neg (show ¬ (1 : UInt8) = 0 by decide), if_true]
        exact f.decodeAs_encode some a rest ha
  encode_decode := by
    intro bs o rest h
    cases bs with
    | nil => cases h
    | cons t r =>
        simp only at h
        split at h
        next h0 => cases h; simp [h0]
        next h0 =>
          split at h
          next h1 =>
            obtain ⟨a, rfl, ha⟩ := Format.decodeAs_ok h
            simp [h1, ha]
          next => cases h

/-! ## §3. Machine words, length-prefixed bytes, strings. -/

def uint16 (eof : ε) : Format ε UInt16 :=
  word eof 2 UInt16.toNat UInt16.ofNat (fun a => a.toNat_lt) (fun a => by simp)
    (fun n h => UInt16.toNat_ofNat_of_lt h)

def uint32 (eof : ε) : Format ε UInt32 :=
  word eof 4 UInt32.toNat UInt32.ofNat (fun a => a.toNat_lt) (fun a => by simp)
    (fun n h => UInt32.toNat_ofNat_of_lt h)

def uint64 (eof : ε) : Format ε UInt64 :=
  word eof 8 UInt64.toNat UInt64.ofNat (fun a => a.toNat_lt) (fun a => by simp)
    (fun n h => UInt64.toNat_ofNat_of_lt h)

/-- Two's complement. -/
def int32 (eof : ε) : Format ε Int32 :=
  (uint32 eof).iso UInt32.toInt32 Int32.toUInt32 (fun b => by simp) (fun a => by simp)

@[simp] theorem uint32_encode_length (eof : ε) (n : UInt32) :
    ((uint32 eof).encode n).length = 4 := leBytes_length 4 _

@[simp] theorem uint64_encode_length (eof : ε) (n : UInt64) :
    ((uint64 eof).encode n).length = 8 := leBytes_length 8 _

/-- **A byte string behind its 64-bit length.** -/
def bytes (eof : ε) : Format ε (List UInt8) where
  encode bs := (uint64 eof).encode (UInt64.ofNat bs.length) ++ bs
  decode b :=
    match (uint64 eof).decode b with
    | .error e => .error e
    | .ok (n, rest) =>
        if rest.length < n.toNat then .error eof
        else .ok (rest.take n.toNat, rest.drop n.toNat)
  decode_encode := by
    intro bs rest h
    have hlen : bs.length < 2 ^ 64 := by
      rw [List.length_append] at h
      unfold lengthBound at h
      omega
    have hn : (UInt64.ofNat bs.length).toNat = bs.length := UInt64.toNat_ofNat_of_lt hlen
    rw [List.append_assoc, (uint64 eof).decode_encode _ _ (by simp [lengthBound])]
    simp [hn]
  encode_decode := by
    intro b bs rest h
    cases hd : (uint64 eof).decode b with
    | error e => simp [hd] at h
    | ok p =>
        obtain ⟨n, r⟩ := p
        simp only [hd] at h
        split at h
        next => cases h
        next hlen =>
          simp only [Except.ok.injEq, Prod.mk.injEq] at h
          obtain ⟨rfl, rfl⟩ := h
          have htk : (r.take n.toNat).length = n.toNat := by simp; omega
          rw [htk, UInt64.ofNat_toNat, List.append_assoc, List.take_append_drop]
          exact (uint64 eof).encode_decode b n r hd

/-- UTF-8 text behind its 64-bit length in bytes. -/
def string (eof badUtf8 : ε) : Format ε String :=
  (bytes eof).refine
    (fun bs =>
      match String.fromUTF8? ⟨bs.toArray⟩ with
      | some s => .ok s
      | none => .error badUtf8)
    (fun s => s.toByteArray.data.toList)
    (fun s => by simp [String.fromUTF8?, s.isValidUTF8, String.fromUTF8])
    (fun bs s h => by
      unfold String.fromUTF8? at h
      by_cases hv : ByteArray.IsValidUTF8 ⟨bs.toArray⟩
      · simp only [hv, dite_true, Except.ok.injEq] at h
        subst h
        simp [String.fromUTF8]
      · simp [hv] at h)

end WireFormat
