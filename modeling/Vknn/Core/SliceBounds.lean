import Mathlib.Data.Int.DivMod
import Vknn.Lib.CheckedInt

/-!
# The bounds of a slice

`resolveSliceAxis` turns the bounds of a slice along one axis into a first index and a count.  Bounds
below zero count from the end, and what lies outside of the axis is clamped, to different limits for
the two directions.

The rule itself is about exact integers.  The source computes in 64 bits and guards only the bounds:
adding the step to the distance of the bounds overflows for steps near the ends of the range, as do
the negation of the smallest step and the sum for the largest axis.
-/

namespace Vknn

open Int Option

/-- Where the walk along an axis begins and how many elements it yields. -/
structure SliceAxisBounds where
  start : Int := 0
  count : Int := 0
deriving DecidableEq

open CheckedInt in
/-- Resolve one axis of a slice; nothing where a step of the computation overflows. -/
def resolveSliceAxis (dim rawStart rawEnd step : Int) : Option SliceAxisBounds :=
  if dim ≤ 0 ∨ step = 0 then some {}
  else do
    let next ← add dim 1
    let kFarNegative ← neg next
    let bound := fun (raw : Int) =>
      if raw < 0 then if raw < kFarNegative then some kFarNegative else add raw dim else some raw
    let start ← bound rawStart
    let last ← bound rawEnd
    if 0 < step then
      let start := max 0 (min start dim)
      let last := max 0 (min last dim)
      let span ← sub last start
      let span ← add span step
      let span ← sub span 1
      pure ⟨start, max 0 (span.tdiv step)⟩
    else
      let top ← sub dim 1
      let start := max 0 (min start top)
      let last := max (-1) (min last top)
      let stride ← neg step
      let span ← sub start last
      let span ← add span stride
      let span ← sub span 1
      pure ⟨start, max 0 (span.tdiv stride)⟩

/-! ## The rule -/

namespace OnnxSlice

/-- A bound, counted from the end where it is below zero. -/
def fromEnd (dim raw : Int) : Int := if raw < 0 then raw + dim else raw

def first (dim raw step : Int) : Int :=
  max 0 (min (fromEnd dim raw) (if 0 < step then dim else dim - 1))

def stop (dim raw step : Int) : Int :=
  if 0 < step then max 0 (min (fromEnd dim raw) dim) else max (-1) (min (fromEnd dim raw) (dim - 1))

def index (dim rawStart step : Int) (i : Nat) : Int := first dim rawStart step + i * step

/-- The walk takes more than `i` steps: the axis is not empty, and the index after `i` steps has not
reached the end. -/
def Visits (dim rawStart rawEnd step : Int) (i : Nat) : Prop :=
  0 < dim ∧ if 0 < step then index dim rawStart step i < stop dim rawEnd step
    else stop dim rawEnd step < index dim rawStart step i

/-- How far the walk can reach: the distance from where it begins to where it stops, in the direction
of the step. -/
def reach (dim rawStart rawEnd step : Int) : Int :=
  if 0 < step then stop dim rawEnd step - first dim rawStart step
  else first dim rawStart step - stop dim rawEnd step

end OnnxSlice

open OnnxSlice

/-- **The rule is met**: no computation overflows, the indices are those of the rule in order, and all
of them are on the axis. -/
def MeetsSliceRule (dim rawStart rawEnd step : Int) : Prop :=
  ∃ b, resolveSliceAxis dim rawStart rawEnd step = some b ∧ 0 ≤ b.count ∧
    ∀ i : Nat, ((i : Int) < b.count ↔ Visits dim rawStart rawEnd step i) ∧
      ((i : Int) < b.count → b.start + i * step = index dim rawStart step i ∧
        0 ≤ b.start + i * step ∧ b.start + i * step < dim)

/-- When the computation stays in 64 bits: the axis is not the largest one, the step is not the
smallest one, and its size together with the reach is below `2 ^ 63`. -/
def SliceFits (dim rawStart rawEnd step : Int) : Prop :=
  dim = 0 ∨ dim < 2 ^ 63 - 1 ∧ step ≠ -2 ^ 63 ∧ reach dim rawStart rawEnd step + |step| < 2 ^ 63

instance (dim rawStart rawEnd step : Int) : Decidable (SliceFits dim rawStart rawEnd step) :=
  inferInstanceAs (Decidable (_ ∨ _))

/-! ## Counting -/

variable {dim rawEnd rawStart span step stride : Int}

/-- Dividing upwards counts the steps that stay short of a distance. -/
theorem lt_ceil_iff (positive : 0 < stride) (i : Nat) :
    (i : Int) < max 0 ((span + stride - 1).tdiv stride) ↔ i * stride < span := by
  by_cases ahead : 0 < span
  · rw [tdiv_eq_ediv_of_nonneg (by omega)]
    have nonneg : 0 ≤ (span + stride - 1) / stride := ediv_nonneg (by omega) positive.le
    rw [max_eq_right nonneg, ← add_one_le_iff, Int.le_ediv_iff_mul_le positive, add_mul, one_mul]
    omega
  · have none : (span + stride - 1).tdiv stride ≤ 0 := by
      rcases Int.lt_or_le (span + stride - 1) 0 with below | above
      · have up := Int.tdiv_nonneg (neg_nonneg.mpr below.le) positive.le
        rw [Int.neg_tdiv] at up
        omega
      · rw [tdiv_eq_ediv_of_nonneg above, ediv_eq_zero_of_lt above (by omega)]
    have up : 0 ≤ (i : Int) * stride := mul_nonneg (natCast_nonneg i) positive.le
    rw [max_eq_left none]
    omega

/-! ## What is computed -/

/-- The bound that is clamped is the one counted from the end, or both are in front of the axis. -/
theorem bound_cases {raw : Int} (positive : 0 < dim) (small : dim < 2 ^ 63 - 1)
    (fits : CheckedInt.Fits raw) : ∃ b, (if raw < 0 then if raw < -(dim + 1) then some (-(dim + 1))
      else CheckedInt.add raw dim else some raw) = some b ∧
        (b = fromEnd dim raw ∨ b ≤ -1 ∧ fromEnd dim raw ≤ -1) := by
  unfold fromEnd
  obtain ⟨low, high⟩ := fits
  split
  · split
    · exact ⟨_, rfl, .inr ⟨by omega, by omega⟩⟩
    · have inside : CheckedInt.Fits (raw + dim) := ⟨by omega, by omega⟩
      exact ⟨_, CheckedInt.value_of_fits inside, .inl rfl⟩
  · exact ⟨_, rfl, .inl rfl⟩

/-- The end of the computation: rounding the quotient of the reach and the stride upwards. -/
def countSteps (start span stride : Int) : Option SliceAxisBounds := do
  let span ← CheckedInt.add span stride
  let span ← CheckedInt.sub span 1
  pure ⟨start, max 0 (span.tdiv stride)⟩

theorem countSteps_eq {start : Int} (positive : 0 < stride) (fits : -2 ^ 63 ≤ span) :
    countSteps start span stride = if span + stride < 2 ^ 63 then
      some ⟨start, max 0 ((span + stride - 1).tdiv stride)⟩ else none := by
  unfold countSteps CheckedInt.add CheckedInt.sub
  split
  · rename_i small
    rw [CheckedInt.value_of_fits ⟨by omega, small⟩]
    dsimp only [bind_eq_bind, bind_some]
    rw [CheckedInt.value_of_fits ⟨by omega, by omega⟩]
    rfl
  · rename_i large
    have beyond : CheckedInt.value (span + stride) = none := if_neg fun fits => large fits.2
    rw [beyond]
    rfl

/-- The result for an axis that is not empty and not the largest one. -/
theorem resolveSliceAxis_eq (positive : 0 < dim)
    (small : dim < 2 ^ 63 - 1) (fitsStart : CheckedInt.Fits rawStart) (fitsEnd : CheckedInt.Fits rawEnd)
    (fitsStep : CheckedInt.Fits step) (moves : step ≠ 0) :
    resolveSliceAxis dim rawStart rawEnd step =
      if step ≠ -2 ^ 63 ∧ reach dim rawStart rawEnd step + |step| < 2 ^ 63 then
        some ⟨first dim rawStart step,
          max 0 ((reach dim rawStart rawEnd step + |step| - 1).tdiv |step|)⟩
      else none := by
  obtain ⟨low, high⟩ := fitsStep
  obtain ⟨b, fromStart, startCases⟩ := bound_cases positive small fitsStart
  obtain ⟨e, fromLast, endCases⟩ := bound_cases positive small fitsEnd
  have next : CheckedInt.add dim 1 = some (dim + 1) := CheckedInt.value_of_fits ⟨by omega, by omega⟩
  have far : CheckedInt.neg (dim + 1) = some (-(dim + 1)) :=
    CheckedInt.value_of_fits ⟨by omega, by omega⟩
  unfold resolveSliceAxis
  rw [if_neg (by omega)]
  simp only [next, far, fromStart, fromLast, bind_eq_bind, bind_some]
  by_cases forward : 0 < step
  · have begins : max 0 (min b dim) = first dim rawStart step := by
      unfold first
      rw [if_pos forward]
      omega
    have ends : max 0 (min e dim) = stop dim rawEnd step := by
      unfold stop
      rw [if_pos forward]
      omega
    have bounds : 0 ≤ first dim rawStart step ∧ first dim rawStart step ≤ dim ∧
        0 ≤ stop dim rawEnd step ∧ stop dim rawEnd step ≤ dim := by omega
    have span : reach dim rawStart rawEnd step = stop dim rawEnd step - first dim rawStart step :=
      if_pos forward
    have distance : CheckedInt.sub (stop dim rawEnd step) (first dim rawStart step) =
        some (reach dim rawStart rawEnd step) := by
      rw [span]
      exact CheckedInt.value_of_fits ⟨by omega, by omega⟩
    rw [if_pos forward, begins, ends, abs_of_pos forward, distance]
    refine (countSteps_eq forward (by omega)).trans ?_
    simp only [show step ≠ -2 ^ 63 by omega, ne_eq, not_false_eq_true, true_and]
  · have top : CheckedInt.sub dim 1 = some (dim - 1) := CheckedInt.value_of_fits ⟨by omega, by omega⟩
    have begins : max 0 (min b (dim - 1)) = first dim rawStart step := by
      unfold first
      rw [if_neg forward]
      omega
    have ends : max (-1) (min e (dim - 1)) = stop dim rawEnd step := by
      unfold stop
      rw [if_neg forward]
      omega
    have bounds : 0 ≤ first dim rawStart step ∧ first dim rawStart step ≤ dim - 1 ∧
        -1 ≤ stop dim rawEnd step ∧ stop dim rawEnd step ≤ dim - 1 := by omega
    have span : reach dim rawStart rawEnd step = first dim rawStart step - stop dim rawEnd step :=
      if_neg forward
    have distance : CheckedInt.sub (first dim rawStart step) (stop dim rawEnd step) =
        some (reach dim rawStart rawEnd step) := by
      rw [span]
      exact CheckedInt.value_of_fits ⟨by omega, by omega⟩
    have backward : step < 0 := lt_of_le_of_ne (not_lt.mp forward) moves
    rw [if_neg forward, top, abs_of_neg backward]
    dsimp only [bind_some]
    rw [begins, ends]
    by_cases smallest : step = -2 ^ 63
    · have beyond : CheckedInt.neg step = none := if_neg fun fits => by
        have := fits.2
        omega
      rw [beyond, if_neg fun both => both.1 smallest]
      rfl
    · have stride : CheckedInt.neg step = some (-step) := CheckedInt.value_of_fits ⟨by omega, by omega⟩
      rw [stride]
      dsimp only [bind_some]
      rw [distance]
      refine (countSteps_eq (by omega) (by omega)).trans ?_
      simp only [smallest, ne_eq, not_false_eq_true, true_and]

/-! ## When the rule is met -/

theorem visits_iff {dim rawStart rawEnd step : Int} (positive : 0 < dim) (i : Nat) :
    Visits dim rawStart rawEnd step i ↔ i * |step| < reach dim rawStart rawEnd step := by
  unfold Visits reach index
  by_cases forward : 0 < step
  · rw [if_pos forward, if_pos forward, abs_of_pos forward]
    constructor
    · rintro ⟨-, before⟩
      linarith
    · exact fun before => ⟨positive, by linarith⟩
  · rw [if_neg forward, if_neg forward, abs_of_nonpos (not_lt.mp forward)]
    constructor
    · rintro ⟨-, before⟩
      linarith
    · exact fun before => ⟨positive, by linarith⟩

theorem index_bounds {i : Nat}
    (visits : Visits dim rawStart rawEnd step i) :
    0 ≤ index dim rawStart step i ∧ index dim rawStart step i < dim := by
  obtain ⟨positive, before⟩ := visits
  have steps : 0 ≤ (i : Int) := natCast_nonneg i
  by_cases forward : 0 < step
  · rw [if_pos forward] at before
    have low : 0 ≤ first dim rawStart step := le_max_left _ _
    have high : stop dim rawEnd step ≤ dim := by
      unfold stop
      rw [if_pos forward]
      omega
    have up : 0 ≤ (i : Int) * step := mul_nonneg steps forward.le
    exact ⟨add_nonneg low up, lt_of_lt_of_le before high⟩
  · rw [if_neg forward] at before
    have high : first dim rawStart step ≤ dim - 1 := by
      unfold first
      rw [if_neg forward]
      omega
    have low : -1 ≤ stop dim rawEnd step := by
      unfold stop
      rw [if_neg forward]
      exact le_max_left _ _
    have down : (i : Int) * step ≤ 0 := mul_nonpos_of_nonneg_of_nonpos steps (not_lt.mp forward)
    unfold index at before ⊢
    omega

/-- **The rule is met exactly when the computation stays in 64 bits.** -/
theorem meetsSliceRule_iff {dim rawStart rawEnd step : Int} (nonneg : 0 ≤ dim)
    (fitsDim : CheckedInt.Fits dim) (fitsStart : CheckedInt.Fits rawStart) (fitsEnd : CheckedInt.Fits rawEnd)
    (fitsStep : CheckedInt.Fits step) (moves : step ≠ 0) :
    MeetsSliceRule dim rawStart rawEnd step ↔ SliceFits dim rawStart rawEnd step := by
  rcases nonneg.eq_or_lt with rfl | positive
  · refine ⟨fun _ => .inl rfl, fun _ => ⟨{}, if_pos (.inl le_rfl), le_rfl, fun i => ⟨?_, ?_⟩⟩⟩
    · exact ⟨fun visited => absurd visited (by simp), fun visits => absurd visits.1 (lt_irrefl 0)⟩
    · exact fun visited => absurd visited (by simp)
  · by_cases small : dim < 2 ^ 63 - 1
    · have computed := resolveSliceAxis_eq positive small fitsStart fitsEnd fitsStep moves
      by_cases fits : step ≠ -2 ^ 63 ∧ reach dim rawStart rawEnd step + |step| < 2 ^ 63
      · rw [if_pos fits] at computed
        refine ⟨fun _ => .inr ⟨small, fits⟩, fun _ => ⟨_, computed, le_max_left _ _, fun i => ?_⟩⟩
        have visited := (lt_ceil_iff (abs_pos.mpr moves) i).trans
          (@visits_iff dim rawStart rawEnd step positive i).symm
        refine ⟨visited, fun before => ⟨rfl, ?_⟩⟩
        exact index_bounds (visited.mp before)
      · rw [if_neg fits] at computed
        constructor
        · rintro ⟨b, found, -⟩
          rw [computed] at found
          cases found
        · rintro (rfl | ⟨-, inside⟩)
          · exact absurd positive (lt_irrefl 0)
          · exact absurd inside fits
    · have beyond : CheckedInt.add dim 1 = none := if_neg fun fits => by
        have := fits.2
        omega
      constructor
      · rintro ⟨b, found, -⟩
        unfold resolveSliceAxis at found
        rw [if_neg (by omega), beyond] at found
        cases found
      · rintro (rfl | ⟨inside, -⟩)
        · exact absurd positive (lt_irrefl 0)
        · exact absurd inside small

/-- A backward walk over a whole axis, with the bounds at the ends of the range. -/
theorem meetsSliceRule_reversed : MeetsSliceRule 8 (2 ^ 63 - 1) (-2 ^ 63) (-3) :=
  (meetsSliceRule_iff (by decide) (by decide) (by decide) (by decide) (by decide)
    (by decide)).mpr (by decide)

/-- The largest step, which exporters use to take one element, overflows for two elements. -/
theorem largestStep_overflows :
    ¬ MeetsSliceRule 2 0 2 (2 ^ 63 - 1) ∧ resolveSliceAxis 2 0 2 (2 ^ 63 - 1) = none := by
  have overflows : resolveSliceAxis 2 0 2 (2 ^ 63 - 1) = none := by decide
  refine ⟨?_, overflows⟩
  rintro ⟨b, found, -⟩
  rw [overflows] at found
  cases found

end Vknn
