import Mathlib.Data.Set.Card
import Mathlib.Tactic.Ring
import Mathlib.Tactic.Linarith
import Mathlib.Tactic.Positivity

/-!
# Windows on a line

A window covers `span` consecutive places of a line and is moved along it by a
stride.  It may stand wherever it lies on the line as a whole, so how often it
can be moved is the number of such positions, and none where it is longer than
the line.

Two closed forms of that number are in use.  One divides the room left over by
the stride, and is right only as far as its division rounds down.  The other
starts from a wanted number of positions, one for each cell the stride cuts the
line into, and pads the line until so many windows fit.
-/

namespace Windows

open Int Finset

/-- The positions at which a window lies on a line of a given length. -/
def positions (length span stride : Int) : Set Nat := {i | (i : Int) * stride + span ≤ length}

/-- How many there are. -/
noncomputable def count (length span stride : Int) : Nat := (positions length span stride).ncard

variable {length span stride : Int}

/-- Positions that are the first so many are counted by it. -/
theorem count_eq_of_iff {n : Nat}
    (first : ∀ i : Nat, (i : Int) * stride + span ≤ length ↔ i < n) :
    count length span stride = n := by
  have range : positions length span stride = (range n : Set Nat) := by
    ext i
    rw [coe_range, Set.mem_Iio]
    exact first i
  rw [count, range, Set.ncard_coe_finset, card_range]

/-- A window longer than the line has no position on it. -/
theorem count_of_short (positive : 0 < stride) (short : length < span) :
    count length span stride = 0 := by
  refine count_eq_of_iff fun i => ?_
  have forward : 0 ≤ (i : Int) * stride := by positivity
  constructor
  · intro fits
    omega
  · exact fun impossible => absurd impossible (Nat.not_lt_zero i)

/-- A window that fits can be moved as often as the stride goes into the room left over. -/
theorem count_of_fits (positive : 0 < stride) (fits : span ≤ length) :
    (count length span stride : Int) = (length - span) / stride + 1 := by
  have room : 0 ≤ (length - span) / stride := ediv_nonneg (by omega) positive.le
  have counted : count length span stride = ((length - span) / stride).toNat + 1 := by
    refine count_eq_of_iff fun i => ?_
    have moved : (i : Int) ≤ (length - span) / stride ↔ (i : Int) * stride ≤ length - span :=
      Int.le_ediv_iff_mul_le positive
    omega
  rw [counted]
  push_cast
  omega

/-- **Truncating division counts the positions exactly when the window fits**, or misses the line by
at least one stride and less than two. -/
theorem truncated_eq_count_iff (positive : 0 < stride) :
    (length - span).tdiv stride + 1 = count length span stride ↔
      span ≤ length ∨ stride ≤ span - length ∧ span - length < 2 * stride := by
  by_cases fits : span ≤ length
  · rw [count_of_fits positive fits, tdiv_eq_ediv_of_nonneg (by omega)]
    exact iff_of_true rfl (Or.inl fits)
  · have missing : (length - span).tdiv stride = -((span - length) / stride) := by
      rw [← tdiv_eq_ediv_of_nonneg (by omega), ← Int.neg_tdiv, Int.neg_sub]
    have one : (span - length) / stride = 1 ↔
        stride ≤ span - length ∧ span - length < 2 * stride := by
      rw [ediv_eq_iff_of_pos positive]
      omega
    rw [count_of_short positive (by omega), missing]
    constructor
    · intro zero
      exact Or.inr (one.mp (by omega))
    · rintro (fits' | far)
      · exact absurd fits' fits
      · have := one.mpr far
        omega

/-! ## A window for each cell -/

/-- The number of cells of a stride's length that a line is cut into, the last one perhaps short. -/
def cells (length stride : Int) : Int := (length + stride - 1) / stride

/-- The least padding under which so many windows fit. -/
def leastPadding (length span stride : Int) : Int :=
  max 0 ((cells length stride - 1) * stride + span - length)

theorem cells_nonneg (positive : 0 < stride) (line : 0 ≤ length) : 0 ≤ cells length stride :=
  ediv_nonneg (by omega) positive.le

/-- The cells reach to the end of the line, and none of them is empty. -/
theorem cells_spec (length : Int) {stride : Int} (positive : 0 < stride) :
    length ≤ cells length stride * stride ∧ (cells length stride - 1) * stride < length := by
  have quotient := mul_ediv_add_emod (length + stride - 1) stride
  have low := emod_nonneg (length + stride - 1) positive.ne'
  have high := emod_lt_of_pos (length + stride - 1) positive
  have expand : (cells length stride - 1) * stride = cells length stride * stride - stride := by
    ring
  have swap : stride * ((length + stride - 1) / stride) = cells length stride * stride :=
    Int.mul_comm _ _
  omega

/-- A cell begins on the line exactly when it is one of the cells. -/
theorem cell_begins_iff (length : Int) {stride : Int} (positive : 0 < stride) (i : Int) :
    i * stride < length ↔ i < cells length stride := by
  obtain ⟨reach, last⟩ := cells_spec length positive
  constructor
  · intro begins
    by_contra beyond
    have far : cells length stride * stride ≤ i * stride :=
      Int.mul_le_mul_of_nonneg_right (by omega) positive.le
    omega
  · intro inside
    have near : i * stride ≤ (cells length stride - 1) * stride :=
      Int.mul_le_mul_of_nonneg_right (by omega) positive.le
    omega

/-- **The least padding makes room for one window a cell, and no more.** -/
theorem count_padded (positive : 0 < stride) (window : 1 ≤ span) (line : 0 ≤ length) :
    (count (length + leastPadding length span stride) span stride : Int) = cells length stride := by
  have nonneg := cells_nonneg positive line
  obtain ⟨reach, last⟩ := cells_spec length positive
  have counted : count (length + leastPadding length span stride) span stride =
      (cells length stride).toNat := by
    refine count_eq_of_iff fun i => ?_
    have begins := cell_begins_iff length positive i
    have step : (i : Int) < cells length stride ↔
        (i : Int) * stride ≤ (cells length stride - 1) * stride := by
      rw [mul_le_mul_iff_left₀ positive]
      omega
    unfold leastPadding
    omega
  rw [counted]
  omega

end Windows
