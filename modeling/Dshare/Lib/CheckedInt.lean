/-
  Dshare.Lib.CheckedInt
  ─────────────────────
  **32-BIT ARITHMETIC THAT REPORTS WHAT WOULD PANIC.**

  Subtraction and multiplication that refuse to overflow and `Ord::clamp` with its
  assertion, each with what it means for the integers behind the machine words; and the one fact
  about clamping that geometry needs: the clamped value is the point of the
  interval closest to the value.
-/
import Mathlib.Tactic.Linarith
import Mathlib.Tactic.Ring

namespace CheckedInt

variable {ε : Type}

/-- An integer that a signed word holds. -/
def Fits (n : Int) : Prop := -2 ^ 31 ≤ n ∧ n < 2 ^ 31

instance (n : Int) : Decidable (Fits n) := inferInstanceAs (Decidable (_ ∧ _))

/-- `a - b`, unless it overflows. -/
def sub (overflow : ε) (a b : Int32) : Except ε Int32 :=
  if Fits (a.toInt - b.toInt) then .ok (a - b) else .error overflow

/-- `a * b`, unless it overflows. -/
def mul (overflow : ε) (a b : Int32) : Except ε Int32 :=
  if Fits (a.toInt * b.toInt) then .ok (a * b) else .error overflow

/-- `c.clamp(lo, hi)`, which asserts `lo <= hi`. -/
def clamp (unordered : ε) (c lo hi : Int32) : Except ε Int32 :=
  if lo ≤ hi then .ok (if c < lo then lo else if hi < c then hi else c)
  else .error unordered

/-- A computation that goes through took every step. -/
theorem bind_eq_ok_iff {α β : Type} {x : Except ε α} {f : α → Except ε β} {b : β} :
    (x >>= f) = .ok b ↔ ∃ a, x = .ok a ∧ f a = .ok b := by
  cases x with
  | error e => exact ⟨nofun, fun h => by obtain ⟨_, h, _⟩ := h; cases h⟩
  | ok a =>
      constructor
      · intro h
        exact ⟨a, rfl, h⟩
      · intro h
        obtain ⟨_, ha, h⟩ := h
        cases ha
        exact h

theorem fits_toInt (a : Int32) : Fits a.toInt := ⟨Int32.le_toInt a, Int32.toInt_lt a⟩

/-- Nothing is reduced of an integer that fits. -/
theorem bmod_of_fits {n : Int} (h : Fits n) : n.bmod (2 ^ 32) = n := by
  obtain ⟨hlo, hhi⟩ := h
  exact Int.bmod_eq_of_le (by omega) (by omega)

/-- The difference of two words is the difference of the integers exactly when that fits. -/
theorem toInt_sub_iff {a b : Int32} :
    (a - b).toInt = a.toInt - b.toInt ↔ Fits (a.toInt - b.toInt) := by
  constructor
  · intro h
    rw [← h]
    exact fits_toInt (a - b)
  · intro h
    rw [Int32.toInt_sub, bmod_of_fits h]

/-- The product of two words is the product of the integers exactly when that fits. -/
theorem toInt_mul_iff {a b : Int32} :
    (a * b).toInt = a.toInt * b.toInt ↔ Fits (a.toInt * b.toInt) := by
  constructor
  · intro h
    rw [← h]
    exact fits_toInt (a * b)
  · intro h
    rw [Int32.toInt_mul, bmod_of_fits h]

/-- **A checked difference is the difference.** -/
theorem sub_eq_ok_iff {e : ε} {a b d : Int32} :
    sub e a b = .ok d ↔ d.toInt = a.toInt - b.toInt := by
  unfold sub
  by_cases h : Fits (a.toInt - b.toInt)
  · rw [if_pos h, Except.ok.injEq, ← Int32.toInt_inj, toInt_sub_iff.mpr h]
    exact eq_comm
  · rw [if_neg h]
    constructor
    · intro hd
      cases hd
    · -- the difference would be that of a machine word after all
      intro hd
      rw [← hd] at h
      exact absurd (fits_toInt d) h

/-- A difference that fits is computed. -/
theorem exists_sub {e : ε} {a b : Int32} (h : Fits (a.toInt - b.toInt)) :
    ∃ d, sub e a b = .ok d ∧ d.toInt = a.toInt - b.toInt :=
  ⟨a - b, if_pos h, toInt_sub_iff.mpr h⟩

/-- **Clamping clamps.** -/
theorem clamp_eq_ok_iff {e : ε} {c lo hi v : Int32} :
    clamp e c lo hi = .ok v
      ↔ lo.toInt ≤ hi.toInt ∧ v.toInt = max lo.toInt (min hi.toInt c.toInt) := by
  unfold clamp
  by_cases h : lo ≤ hi
  · have hle := Int32.le_iff_toInt_le.mp h
    rw [if_pos h, Except.ok.injEq, ← Int32.toInt_inj]
    by_cases hlo : c < lo
    · have hc := Int32.lt_iff_toInt_lt.mp hlo
      rw [if_pos hlo]
      omega
    · have hc := mt Int32.lt_iff_toInt_lt.mpr hlo
      rw [if_neg hlo]
      by_cases hhi : hi < c
      · have hc' := Int32.lt_iff_toInt_lt.mp hhi
        rw [if_pos hhi]
        omega
      · have hc' := mt Int32.lt_iff_toInt_lt.mpr hhi
        rw [if_neg hhi]
        omega
  · have hle := mt Int32.le_iff_toInt_le.mpr h
    rw [if_neg h]
    constructor
    · intro hv
      cases hv
    · intro hv
      exact absurd hv.1 hle

/-- A signed word with the bits of an unsigned one. -/
theorem toInt_toInt32 (u : UInt32) :
    u.toInt32.toInt = if u.toNat < 2 ^ 31 then (u.toNat : Int) else (u.toNat : Int) - 2 ^ 32 := by
  have hbits : u.toInt32.toInt = u.toBitVec.toInt := rfl
  have hnat : u.toBitVec.toNat = u.toNat := rfl
  rw [hbits, BitVec.toInt_eq_toNat_cond, hnat]
  by_cases h : u.toNat < 2 ^ 31
  · rw [if_pos h, if_pos (by omega)]
  · rw [if_neg h, if_neg (by omega)]
    rfl

/-- **The clamped value is the closest point of the interval.** -/
theorem clamp_nearest {α : Type} [CommRing α] [LinearOrder α] [IsStrictOrderedRing α]
    {c lo hi q : α} (hlo : lo ≤ q) (hhi : q ≤ hi) (hne : q ≠ max lo (min hi c)) :
    (max lo (min hi c) - c) ^ 2 < (q - c) ^ 2 := by
  have hle : lo ≤ hi := le_trans hlo hhi
  -- the difference of the two squares is a product of two factors of one sign
  have hfactor : ∀ v : α, (q - c) ^ 2 = (v - c) ^ 2 + (q - v) * (q + v - 2 * c) := by
    intro v
    ring
  rcases lt_or_ge c lo with hc | hc
  · rw [min_eq_right (le_trans hc.le hle), max_eq_left hc.le] at hne ⊢
    have hq : 0 < q - lo := sub_pos.mpr (lt_of_le_of_ne hlo (Ne.symm hne))
    have hprod := mul_pos hq (show 0 < q + lo - 2 * c by linarith)
    linarith [hfactor lo]
  rcases lt_or_ge hi c with hc' | hc'
  · rw [min_eq_left hc'.le, max_eq_right hle] at hne ⊢
    have hq : q - hi < 0 := sub_neg.mpr (lt_of_le_of_ne hhi hne)
    have hprod := mul_pos_of_neg_of_neg hq (show q + hi - 2 * c < 0 by linarith)
    linarith [hfactor hi]
  · rw [min_eq_right hc', max_eq_right hc] at hne ⊢
    have hq : q - c ≠ 0 := sub_ne_zero.mpr hne
    rw [sub_self, zero_pow two_ne_zero]
    exact sq_pos_of_ne_zero hq

end CheckedInt
