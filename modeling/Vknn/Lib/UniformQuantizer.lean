import Mathlib.Algebra.Order.Round
import Mathlib.Tactic.Ring

/-!
# A uniform quantizer against a clamp

A uniform quantizer rounds a number to a multiple of its step and saturates at two codes.
Clamping the number to the two extreme values instead leaves out the rounding only: the two
differ by half a step at most.  The bounds of the clamp may themselves be off by less than
half a step, or be absent where no number goes as far.
-/

namespace UniformQuantizer

variable {K : Type} [Field K] [LinearOrder K]

section Rounding

variable [IsStrictOrderedRing K] [FloorRing K]

/-- The nearest integer, of two the even one. -/
def nearestEven (x : K) : Int :=
  let rest := x - (⌊x⌋ : K)
  if 2 * rest < 1 ∨ 2 * rest = 1 ∧ ⌊x⌋ % 2 = 0 then ⌊x⌋ else ⌊x⌋ + 1

theorem abs_sub_nearestEven (x : K) : |x - (nearestEven x : K)| ≤ 1 / 2 := by
  have low := Int.floor_le x
  have high := Int.lt_floor_add_one x
  dsimp only [nearestEven]
  split_ifs with down
  · have : 2 * (x - (⌊x⌋ : K)) ≤ 1 := by
      rcases down with less | ⟨tie, -⟩
      · exact less.le
      · exact tie.le
    rw [abs_le]
    constructor <;> linarith
  · have : 1 ≤ 2 * (x - (⌊x⌋ : K)) := by
      by_contra less
      exact down (.inl (not_le.mp less))
    push_cast
    rw [abs_le]
    constructor <;> linarith

end Rounding

def saturate (low high r : Int) : Int := if r < low then low else if high < r then high else r

/-- A number brought under a bound; one that is absent does not bind. -/
def clipHigh (hi : Option K) (x : K) : K :=
  match hi with
  | some h => if h < x then h else x
  | none => x

def clip (lo hi : Option K) (x : K) : K :=
  match lo with
  | some l => if x < l then l else clipHigh hi x
  | none => clipHigh hi x

/-- A lower bound that stands for `e`: less than half a step off, or absent below `x`. -/
def LowBound (lo : Option K) (e step x : K) : Prop :=
  match lo with
  | some l => |l - e| < step / 2
  | none => e - step / 2 < x

/-- An upper bound that stands for `e`: less than half a step off, or absent above `x`. -/
def HighBound (hi : Option K) (e step x : K) : Prop :=
  match hi with
  | some h => |h - e| < step / 2
  | none => x < e + step / 2

variable [IsStrictOrderedRing K]

/-- **A clamp differs from the quantizer by half a step at most.** -/
theorem abs_clip_sub_le {step x : K} (positive : 0 < step) {low high r : Int}
    (order : low ≤ high) (near : |x / step - r| ≤ 1 / 2) {lo hi : Option K}
    (below : LowBound lo (low * step) step x) (above : HighBound hi (high * step) step x) :
    |clip lo hi x - saturate low high r * step| ≤ step / 2 := by
  have scaled : |x - r * step| ≤ step / 2 := by
    have factor : x - r * step = (x / step - r) * step := by
      rw [sub_mul, div_mul_cancel₀ x positive.ne']
    rw [factor, abs_mul, abs_of_pos positive]
    calc |x / step - r| * step ≤ 1 / 2 * step := mul_le_mul_of_nonneg_right near positive.le
      _ = step / 2 := by ring
  obtain ⟨left, right⟩ := abs_le.mp scaled
  -- a code that is not below another is at least one step above the one before it
  have apart : ∀ {a b : Int}, a < b → (a : K) * step + step ≤ b * step := fun {a b} less => by
    have : ((a + 1 : Int) : K) ≤ b := Int.cast_le.mpr less
    push_cast at this
    have := mul_le_mul_of_nonneg_right this positive.le
    linarith
  -- the number is not clamped from below: then its code is not below the lowest
  have inner : (∀ l, lo = some l → l ≤ x) → low ≤ r := fun free => by
    by_contra short
    have := apart (not_le.mp short)
    cases lo with
    | none =>
      have : (low : K) * step - step / 2 < x := below
      linarith
    | some l =>
      have small : |l - low * step| < step / 2 := below
      have := (abs_lt.mp small).1
      have := free l rfl
      linarith
  have outer : (∀ h, hi = some h → x ≤ h) → r ≤ high := fun free => by
    by_contra long
    have := apart (not_le.mp long)
    cases hi with
    | none =>
      have : x < (high : K) * step + step / 2 := above
      linarith
    | some h =>
      have small : |h - high * step| < step / 2 := above
      have := (abs_lt.mp small).2
      have := free h rfl
      linarith
  by_cases clampedLow : ∃ l, lo = some l ∧ x < l
  · obtain ⟨l, rfl, short⟩ := clampedLow
    have small : |l - low * step| < step / 2 := below
    have lowest : r ≤ low := by
      by_contra long
      have := apart (not_le.mp long)
      have := (abs_lt.mp small).2
      linarith
    have code : saturate low high r = low := by
      unfold saturate
      split_ifs <;> omega
    rw [code, show clip (some l) hi x = l from if_pos short]
    exact small.le
  · have freeLow : ∀ l, lo = some l → l ≤ x := fun l same =>
      not_lt.mp fun short => clampedLow ⟨l, same, short⟩
    have upper : clip lo hi x = clipHigh hi x := by
      cases lo with
      | none => rfl
      | some l => exact if_neg (not_lt.mpr (freeLow l rfl))
    have notLow := inner freeLow
    rw [upper]
    by_cases clampedHigh : ∃ h, hi = some h ∧ h < x
    · obtain ⟨h, rfl, long⟩ := clampedHigh
      have small : |h - high * step| < step / 2 := above
      have highest : high ≤ r := by
        by_contra short
        have := apart (not_le.mp short)
        have := (abs_lt.mp small).1
        linarith
      have code : saturate low high r = high := by
        unfold saturate
        split_ifs <;> omega
      rw [code, show clipHigh (some h) x = h from if_pos long]
      exact small.le
    · have freeHigh : ∀ h, hi = some h → x ≤ h := fun h same =>
        not_lt.mp fun long => clampedHigh ⟨h, same, long⟩
      have notHigh := outer freeHigh
      have code : saturate low high r = r := by
        unfold saturate
        split_ifs <;> omega
      rw [code]
      cases hi with
      | none => exact scaled
      | some h =>
        rw [show clipHigh (some h) x = x from if_neg (not_lt.mpr (freeHigh h rfl))]
        exact scaled

end UniformQuantizer
