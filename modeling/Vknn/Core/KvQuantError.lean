import Vknn.Cpu.IntCasts

/-!
# What a quantized row reads back as

A row of the cache is read back by multiplying its codes with the scale that was
stored.  The product of a code and a half is a number of single precision, so that
reading back is exact.  The quotient that a code is rounded from is not; but a quotient
of two halves is never close to the middle between two codes without being that middle,
and rounding it first does not move it across.

So a value is off by half the scale at most unless it is clamped.  It is clamped where
the stored scale was itself rounded down too far, which takes a scale of a few units
of the smallest half.
-/

namespace Vknn.KvQuant

open GridRounding List Nat Option
open Cpu (fp32FromInt64)

/-! ## Reading back -/

/-- The product of two numbers, rounded to nearest even. -/
def mulF32 (a b : Nat) : Nat :=
  let sign := (a ^^^ b) &&& 0x80000000
  let x := fabs a
  let y := fabs b
  if isNan a || isNan b || (x = kInf && y = 0) || (x = 0 && y = kInf) then kNan
  else if x = kInf || y = kInf then sign ||| kInf
  else sign ||| min (roundQuotient 23 (singleUnits x * singleUnits y) (2 ^ 149)) kInf

def kvQuantDecode (code : Int) (scale : Nat) : Nat := mulF32 (fp32FromInt64 code) scale

def kvDequantRow (stored : Nat × List Int) : List Nat :=
  stored.2.map fun code => kvQuantDecode code (halfToFloat stored.1)

/-- Consecutive rows, each read back with its own scale. -/
def kvDequantRows (stored : List (Nat × List Int)) : List (List Nat) := stored.map kvDequantRow

/-! ## Exact values -/

/-- A finite number in units of the format; the sign is the highest bit. -/
def signedUnits (f : Nat) : Int :=
  if f / 2 ^ 31 % 2 = 0 then singleUnits (fabs f) else -(singleUnits (fabs f) : Int)

/-- How far a value of a row is from the one it reads back as. -/
def readError (row back : List Nat) (i : Nat) : Nat :=
  (signedUnits (back.getD i 0) - signedUnits (row.getD i 0)).natAbs

/-- The largest magnitude of a row, in units of half precision. -/
def rowHalfUnits (row : List Nat) : Nat := singleUnits (kvQuantRowAbsMax row) / kHalfUnit

def rowOf (src : List Nat) (headDim r : Nat) : List Nat := (src.drop (r * headDim)).take headDim

/-- A row of a buffer as it is read back, and its scale in units of single precision. -/
def readBack (src : List Nat) (rows headDim r : Nat) : List Nat :=
  (kvDequantRows (kvQuantRows src rows headDim)).getD r []

def storedScale (src : List Nat) (rows headDim r : Nat) : Nat :=
  singleUnits (halfToFloat ((kvQuantRows src rows headDim).getD r (0, [])).1)

/-- Each value of a row is off by half the stored scale at most. -/
def WithinHalfScale (src : List Nat) (rows headDim r : Nat) : Prop :=
  ∀ i < (rowOf src headDim r).length,
    2 * readError (rowOf src headDim r) (readBack src rows headDim r) i ≤
      storedScale src rows headDim r

/-! ## Signs -/

theorem signed_join (x : Nat) {m : Nat} (small : m < 2 ^ 31) : fabs ((x &&& 0x80000000) ||| m) = m ∧
      ((x &&& 0x80000000) ||| m < 2 ^ 31 ↔ x / 2 ^ 31 % 2 = 0) ∧
      ((x &&& 0x80000000) ||| m) / 2 ^ 31 % 2 = x / 2 ^ 31 % 2 := by
  have bit : x &&& 0x80000000 = x / 2 ^ 31 % 2 * 2 ^ 31 := and_bit x 31
  have joined : (x &&& 0x80000000) ||| m = 2 ^ 31 * (x / 2 ^ 31 % 2) + m := by
    rw [bit, mul_comm, two_pow_add_eq_or_of_lt small]
  rw [fabs_eq_mod, joined]
  refine ⟨?_, ?_, ?_⟩ <;> omega

theorem signedUnits_join (x : Nat) {m : Nat} (small : m < 2 ^ 31) :
    signedUnits ((x &&& 0x80000000) ||| m) =
      if x / 2 ^ 31 % 2 = 0 then (singleUnits m : Int) else -(singleUnits m : Int) := by
  obtain ⟨magnitude, -, sign⟩ := signed_join x small
  rw [signedUnits, magnitude, sign]

theorem xor_sign {a b : Nat} (small : b < 2 ^ 31) : (a ^^^ b) / 2 ^ 31 = a / 2 ^ 31 := by
  rw [xor_div_two_pow, div_eq_of_lt small, xor_zero]

/-! ## Products are exact -/

theorem grid_kInf : 2 ^ 200 < grid 23 kInf := by decide

theorem roundQuotient_exact {n d b : Nat} (positive : 0 < d) (met : d * grid 23 b = n)
    (finite : grid 23 b < 2 ^ 200) :
    roundQuotient 23 n d < kInf ∧ grid 23 (roundQuotient 23 n d) = grid 23 b := by
  have nearest := @nearestEven_roundQuotient 23 n d (by omega) positive
  rw [nearest.eq_of_exact (strictMono_grid 23) positive met]
  exact ⟨(strictMono_grid 23).lt_iff_lt.mp (finite.trans grid_kInf), rfl⟩

theorem fp32FromInt64_exact {n : Int} (small : n.natAbs < 2 ^ 24) :
    fabs (fp32FromInt64 n) < kInf ∧ singleUnits (fabs (fp32FromInt64 n)) = n.natAbs * 2 ^ 149 ∧
      fp32FromInt64 n / 2 ^ 31 % 2 = if n < 0 then 1 else 0 := by
  obtain ⟨b, held⟩ := @exists_grid 23 n.natAbs 149 small
  have bounded : grid 23 b < 2 ^ 200 := by
    rw [held]
    calc n.natAbs * 2 ^ 149 < 2 ^ 24 * 2 ^ 149 := mul_lt_mul_of_pos_right small (by positivity)
      _ < 2 ^ 200 := by norm_num
  obtain ⟨below, same⟩ := roundQuotient_exact one_pos
    (by rw [one_mul, held] : 1 * grid 23 b = n.natAbs * 2 ^ 149) bounded
  have place : roundQuotient 23 (n.natAbs * 2 ^ 149) 1 < 2 ^ 31 := by
    unfold kInf at below
    omega
  have signed : fabs (fp32FromInt64 n) = roundQuotient 23 (n.natAbs * 2 ^ 149) 1 ∧
      fp32FromInt64 n / 2 ^ 31 % 2 = if n < 0 then 1 else 0 := by
    rw [fabs_eq_mod]
    unfold fp32FromInt64
    dsimp only
    split <;> omega
  rw [signed.1]
  exact ⟨below, same.trans held, signed.2⟩

/-- **A code times a half is exact.** -/
theorem kvQuantDecode_units {code : Int} {scale h : Nat} (small : code.natAbs < 2 ^ 7)
    (bounded : scale ≤ kFp16Max) (units : singleUnits scale = kHalfUnit * grid 10 h) :
    signedUnits (kvQuantDecode code scale) = code * (kHalfUnit * grid 10 h : Nat) := by
  obtain ⟨code_finite, code_units, code_sign⟩ :=
    @fp32FromInt64_exact code (small.trans (by norm_num))
  have scale_lt : scale < 2 ^ 31 := by unfold kFp16Max at bounded; omega
  have scale_finite : scale < kInf := by unfold kFp16Max at bounded; unfold kInf; omega
  obtain ⟨c, k, -, few, -, scaled, -⟩ := grid_form 10 h
  -- a significand of 11 bits times a code of 7 bits
  obtain ⟨b, held⟩ := @exists_grid 23 (code.natAbs * c) (125 + k) (by
    calc code.natAbs * c < 2 ^ 7 * 2 ^ 11 := mul_lt_mul'' small few
      _ ≤ 2 ^ 24 := by norm_num)
  have product : grid 23 b = code.natAbs * (kHalfUnit * grid 10 h) := by
    rw [held, scaled, kHalfUnit, pow_add]
    ring
  have largest : kHalfUnit * grid 10 h ≤ grid 23 kFp16Max := by
    rw [← units]
    exact (strictMono_grid 23).monotone bounded
  have top : grid 23 kFp16Max = 2047 * 2 ^ 154 := by decide
  have below : grid 23 b < 2 ^ 200 := by
    rw [product]
    calc code.natAbs * (kHalfUnit * grid 10 h) ≤ 2 ^ 7 * (2047 * 2 ^ 154) :=
          Nat.mul_le_mul small.le (top ▸ largest)
      _ < 2 ^ 200 := by norm_num
  obtain ⟨place, same⟩ := @roundQuotient_exact
    (singleUnits (fabs (fp32FromInt64 code)) * singleUnits (fabs scale)) (2 ^ 149) b (by positivity)
    (by rw [fabs_of_lt scale_lt, code_units, units, product]; ring) below
  have no_nan : isNan (fp32FromInt64 code) = false := by
    unfold isNan
    exact decide_eq_false (by unfold fabs kInf at code_finite; omega)
  have scale_number : isNan scale = false := isNan_of_le scale_finite.le
  have numbers : kvQuantDecode code scale = ((fp32FromInt64 code ^^^ scale) &&& 0x80000000) |||
      roundQuotient 23 (singleUnits (fabs (fp32FromInt64 code)) * singleUnits (fabs scale))
        (2 ^ 149) := by
    have scale_ne : fabs scale ≠ kInf := by rw [fabs_of_lt scale_lt]; exact scale_finite.ne
    unfold kvQuantDecode mulF32
    simp only [no_nan, scale_number]
    rw [if_neg (by simp [code_finite.ne, scale_ne]), if_neg (by simp [code_finite.ne, scale_ne]),
      min_eq_left place.le]
  rw [numbers, signedUnits_join _ (by unfold kInf at place; omega), xor_sign scale_lt, code_sign]
  have magnitude : singleUnits (roundQuotient 23
      (singleUnits (fabs (fp32FromInt64 code)) * singleUnits (fabs scale)) (2 ^ 149)) =
      code.natAbs * (kHalfUnit * grid 10 h) := same.trans product
  rw [magnitude, cast_mul]
  by_cases negative : code < 0
  · rw [if_pos negative, if_neg (by omega), Int.ofNat_natAbs_of_nonpos negative.le, neg_mul, neg_neg]
  · rw [if_neg negative, if_pos rfl, Int.natAbs_of_nonneg (not_lt.mp negative)]

/-! ## Rounding a quotient of halves twice -/

section Twice

variable {x h q : Nat}

/-- **A quotient of halves that is rounded to the middle between two codes is that middle.** -/
theorem exact_of_half {j : Nat} (nearest : NearestEven (grid 23) (grid 10 x * 2 ^ 149) (grid 10 h) q)
    (positive : 0 < grid 10 h) (few : j < 2 ^ 7) (middle : grid 23 q = (2 * j + 1) * 2 ^ 148) :
    2 * grid 10 x = (2 * j + 1) * grid 10 h := by
  obtain ⟨r, k, place, r_lt, normal, here, next⟩ := grid_form 23 q
  obtain ⟨s, m, -, s_lt, s_normal, scale, -⟩ := grid_form 10 h
  obtain ⟨v, l, -, v_lt, -, value, -⟩ := grid_form 10 x
  have r_ge : 2 ^ 23 ≤ r := by
    refine normal.resolve_right fun zero => ?_
    rw [here, zero] at middle
    omega
  have k_le : k ≤ 132 := by
    have small : 2 ^ k < 2 ^ 133 := by
      have leading : 2 ^ 23 * 2 ^ k ≤ (2 * j + 1) * 2 ^ 148 := by
        rw [← middle, here]
        exact mul_le_mul_right _ r_ge
      omega
    exact Nat.lt_succ_iff.mp ((Nat.pow_lt_pow_iff_right (by omega)).mp small)
  obtain ⟨not_above, not_below⟩ := nearest_error positive nearest place r_lt (by omega) here next
  have step : grid 10 h * 2 ^ k ≤ grid 10 h * 2 ^ 132 :=
    Nat.mul_le_mul_left _ (Nat.pow_le_pow_right (by omega) k_le)
  have centre : grid 10 h * grid 23 q = (2 * j + 1) * grid 10 h * 2 ^ 148 := by rw [middle]; ring
  rw [centre] at not_above not_below
  -- the two sides are multiples of a 64th of the scale's step, and closer than that
  have scales : 2 ^ m ≤ 2 ^ 6 * 2 ^ (m - 6) := by
    rw [← Nat.pow_add]
    exact Nat.pow_le_pow_right (by omega) (by omega)
  have scale_lt : grid 10 h < 2 ^ 17 * 2 ^ (m - 6) := by
    rw [scale]
    calc s * 2 ^ m < 2 ^ 11 * 2 ^ m := mul_lt_mul_of_pos_right s_lt (by positivity)
      _ ≤ 2 ^ 11 * (2 ^ 6 * 2 ^ (m - 6)) := mul_le_mul_left _ scales
      _ = 2 ^ 17 * 2 ^ (m - 6) := by ring
  have scale_multiple : 2 ^ (m - 6) ∣ (2 * j + 1) * grid 10 h := by
    rw [scale]
    exact ((pow_dvd_pow 2 (sub_le m 6)).mul_left s).mul_left _
  have coarse : m - 6 ≤ l + 1 := by
    by_contra fine
    have leading : 2 ^ 10 ≤ s := s_normal.resolve_right (by omega)
    have large : 2 ^ 10 * 2 ^ m ≤ (2 * j + 1) * grid 10 h := by
      rw [scale]
      calc 2 ^ 10 * 2 ^ m ≤ s * 2 ^ m := Nat.mul_le_mul_right _ leading
        _ ≤ (2 * j + 1) * (s * 2 ^ m) := Nat.le_mul_of_pos_left _ (by omega)
    have small : grid 10 x < 2 ^ 11 * 2 ^ (m - 8) := by
      rw [value]
      calc v * 2 ^ l < 2 ^ 11 * 2 ^ l := Nat.mul_lt_mul_of_pos_right v_lt (by positivity)
        _ ≤ 2 ^ 11 * 2 ^ (m - 8) := Nat.mul_le_mul_left _ (Nat.pow_le_pow_right (by omega) (by omega))
    have eighth : 2 ^ m = 2 ^ 8 * 2 ^ (m - 8) := by
      rw [← Nat.pow_add]
      congr 1
      omega
    have sixth : 2 ^ (m - 6) = 2 ^ 2 * 2 ^ (m - 8) := by
      rw [← pow_add]
      congr 1
      omega
    omega
  have value_multiple : 2 ^ (m - 6) ∣ 2 * grid 10 x := by
    rw [value, Nat.mul_left_comm, ← Nat.pow_succ']
    exact (pow_dvd_pow 2 coarse).mul_left v
  exact eq_of_near value_multiple scale_multiple (by omega) (by omega)

/-- A quotient of halves keeps its side of the middle between two codes. -/
theorem sides_of_half (j : Nat) (nearest : NearestEven (grid 23) (grid 10 x * 2 ^ 149) (grid 10 h) q)
    (positive : 0 < grid 10 h) (few : j < 2 ^ 7) :
    ((2 * j + 1) * grid 10 h < 2 * grid 10 x ↔ (2 * j + 1) * 2 ^ 148 < grid 23 q) ∧
      (2 * grid 10 x < (2 * j + 1) * grid 10 h ↔ grid 23 q < (2 * j + 1) * 2 ^ 148) := by
  obtain ⟨b, held⟩ := @exists_grid 23 (2 * j + 1) 148 (by omega)
  have mono := strictMono_grid 23
  have centre : grid 10 h * grid 23 b = (2 * j + 1) * grid 10 h * 2 ^ 148 := by rw [held]; ring
  have behind : (2 * j + 1) * grid 10 h ≤ 2 * grid 10 x → (2 * j + 1) * 2 ^ 148 ≤ grid 23 q := by
    intro le
    rw [← held]
    exact mono.monotone (nearest.le_of_le mono positive (by omega))
  have before : 2 * grid 10 x ≤ (2 * j + 1) * grid 10 h → grid 23 q ≤ (2 * j + 1) * 2 ^ 148 := by
    intro le
    rw [← held]
    exact mono.monotone (nearest.ge_of_ge mono positive (by omega))
  have exactly := exact_of_half nearest positive few
  omega

/-- **The nearest code to a rounded quotient of halves is the nearest to the quotient, as far as the
codes go.** -/
theorem nearest_code (nearest : NearestEven (grid 23) (grid 10 x * 2 ^ 149) (grid 10 h) q)
    (positive : 0 < grid 10 h) :
    (2 * grid 10 x ≤ 255 * grid 10 h →
      2 * Nat.dist (min (nearestQuotient (grid 23 q) (2 ^ 149)) 127 * grid 10 h) (grid 10 x) ≤
        grid 10 h) ∧
    (255 * grid 10 h ≤ 2 * grid 10 x → 127 ≤ nearestQuotient (grid 23 q) (2 ^ 149)) := by
  obtain ⟨low, high⟩ := @nearestQuotient_bounds (grid 23 q) (2 ^ 149) (by positivity)
  obtain ⟨last_above, last_below⟩ := sides_of_half 127 nearest positive (by norm_num)
  generalize nearestQuotient (grid 23 q) (2 ^ 149) = k at *
  refine ⟨fun within => ?_, fun beyond => by omega⟩
  rcases lt_or_ge 127 k with clamped | inside
  · -- the quotient is the middle behind the last code
    rw [min_eq_right clamped.le]
    unfold Nat.dist
    omega
  rw [min_eq_left inside]
  have upper : 2 * grid 10 x ≤ (2 * k + 1) * grid 10 h := by
    have side := (sides_of_half k nearest positive (by omega)).1
    omega
  have lower : 2 * (k * grid 10 h) ≤ 2 * grid 10 x + grid 10 h := by
    rcases Nat.eq_zero_or_pos k with rfl | some_
    · rw [Nat.zero_mul]
      exact Nat.zero_le _
    obtain ⟨j, rfl⟩ : ∃ j, k = j + 1 := ⟨k - 1, by omega⟩
    have side := (sides_of_half j nearest positive (by omega)).2
    have above : (2 * j + 1) * grid 10 h ≤ 2 * grid 10 x := by
      by_contra less
      have before := side.mp (by omega)
      clear upper last_above last_below
      omega
    calc 2 * ((j + 1) * grid 10 h) = (2 * j + 1) * grid 10 h + grid 10 h := by ring
      _ ≤ 2 * grid 10 x + grid 10 h := Nat.add_le_add_right above _
  rw [show (2 * k + 1) * grid 10 h = 2 * (k * grid 10 h) + grid 10 h by ring] at upper
  unfold Nat.dist
  omega

/-- A 127th of a half keeps its side of the middle between two halves. -/
theorem sides_of_middle {a : Nat} (t : Nat) (quotient : NearestEven (grid 23) (grid 23 a) 127 q)
    (units : grid 23 a = kHalfUnit * grid 10 x) :
    (127 * (grid 10 t + grid 10 (t + 1)) < 2 * grid 10 x ↔
        kHalfUnit * (grid 10 t + grid 10 (t + 1)) < 2 * grid 23 q) ∧
      (2 * grid 10 x < 127 * (grid 10 t + grid 10 (t + 1)) ↔
        2 * grid 23 q < kHalfUnit * (grid 10 t + grid 10 (t + 1))) := by
  obtain ⟨c, k, sum, small⟩ := middle_form t
  obtain ⟨b, held⟩ := @exists_grid 23 (2 * c + 1) (124 + k) (by omega)
  have mono := strictMono_grid 23
  have unit_pos : 0 < kHalfUnit := by unfold kHalfUnit; positivity
  have middle : kHalfUnit * (grid 10 t + grid 10 (t + 1)) = 2 * grid 23 b := by
    rw [sum, held, kHalfUnit, pow_add]
    ring
  have scaled : kHalfUnit * (127 * (grid 10 t + grid 10 (t + 1))) = 2 * (127 * grid 23 b) := by
    rw [mul_left_comm, middle]
    ring
  have twice : kHalfUnit * (2 * grid 10 x) = 2 * grid 23 a := by rw [units]; ring
  have compare : ∀ u v : Nat, u ≤ v ↔ kHalfUnit * u ≤ kHalfUnit * v := fun u v =>
    (Nat.mul_le_mul_left_iff unit_pos).symm
  have behind : 127 * grid 23 b ≤ grid 23 a → grid 23 b ≤ grid 23 q := fun le =>
    mono.monotone (quotient.le_of_le mono (by omega) le)
  have before : grid 23 a ≤ 127 * grid 23 b → grid 23 q ≤ grid 23 b := fun le =>
    mono.monotone (quotient.ge_of_ge mono (by omega) le)
  have never : grid 23 q ≠ grid 23 b := by
    intro same
    have met := exact_of_middle quotient small (same.trans held)
    refine @half_ne_middle x t ?_
    unfold Tie
    rw [← units, mul_assoc, middle, met, same]
    ring
  rw [← not_le, ← not_le, ← not_le, ← not_le, compare (2 * grid 10 x), compare _ (2 * grid 10 x),
    scaled, twice, middle]
  omega

/-- **The stored scale is the half nearest to a 127th of the largest magnitude.** -/
theorem scale_nearest {a : Nat} (quotient : NearestEven (grid 23) (grid 23 a) 127 q)
    (narrowed : NearestEven (grid 10) (grid 23 q) kHalfUnit h)
    (units : grid 23 a = kHalfUnit * grid 10 x) : NearestEven (grid 10) (grid 10 x) 127 h := by
  have mono := strictMono_grid 10
  have unit_pos : 0 < kHalfUnit := by unfold kHalfUnit; positivity
  obtain ⟨above, below⟩ := narrowed.middles mono unit_pos
  have never : ∀ t, 2 * grid 10 x ≠ 127 * (grid 10 t + grid 10 (t + 1)) := by
    intro t met
    refine @half_ne_middle x t ?_
    unfold Tie
    rw [mul_left_comm, met]
    ring
  refine nearestEven_of_middles mono (by omega) ?_ ?_
  · have side := (sides_of_middle h quotient units).1
    have apart := never h
    omega
  · rintro b rfl
    have side := (sides_of_middle b quotient units).2
    have apart := never b
    have lower := below b rfl
    omega

end Twice

/-! ## The stored scale -/

theorem grid_first {c : Nat} (small : c ≤ 2 ^ 11) : grid 10 c = c := by
  have scaled := @grid_scaled 10 0 c (.inr rfl) small
  simpa using scaled

/-- **No value is clamped exactly where the nearest whole number of units is a scale that does not
clamp.**  It is in every row whose largest magnitude is 127 times 126 units or more. -/
theorem covers_iff {X h : Nat} (nearest : NearestEven (grid 10) X 127 h) :
    2 * X ≤ 255 * grid 10 h ↔ 2 * X ≤ 255 * ((X + 63) / 127) := by
  have mono := strictMono_grid 10
  obtain ⟨e, whole⟩ : ∃ e, e = (X + 63) / 127 := ⟨_, rfl⟩
  rw [← whole]
  rcases lt_or_ge e (2 ^ 10) with small | large
  · have same : h = e := by
      refine nearest.unique mono (by omega) (nearestEven_of_middles mono (by omega) ?_ ?_)
      · rw [grid_first (by omega), grid_first (by omega)]
        omega
      · rintro b rfl
        rw [grid_first (by omega), grid_first (by omega)]
        omega
    rw [same, grid_first (by omega)]
  · refine ⟨fun _ => by omega, fun _ => ?_⟩
    have place : 2 ^ 10 ≤ h := by
      by_contra less
      have upper := (nearest.middles mono (by omega)).1
      have next : grid 10 (h + 1) ≤ 2 ^ 10 := by
        rw [grid_first (by omega)]
        omega
      have here : grid 10 h ≤ 2 ^ 10 - 1 := by
        rw [grid_first (by omega)]
        omega
      omega
    obtain ⟨s, k, split, -, normal, value, next⟩ := grid_form 10 h
    have leading : 2 ^ 10 ≤ s := by
      rcases normal with low | rfl
      · exact low
      · omega
    have upper := (nearest.middles mono (by omega)).1
    rw [next, value] at upper
    rw [value]
    have step : 2 ^ 10 * 2 ^ k ≤ s * 2 ^ k := Nat.mul_le_mul_right _ leading
    rw [Nat.add_one_mul s] at upper
    omega

/-- Where a value is clamped the scale is a few units, and the value is beyond the last code by
less than half a code. -/
theorem beyond_small {X h : Nat} (nearest : NearestEven (grid 10) X 127 h)
    (clamped : 255 * grid 10 h < 2 * X) : X ≤ 127 * grid 10 h + 63 := by
  obtain ⟨s, k, -, -, normal, value, next⟩ := grid_form 10 h
  have upper := (nearest.middles (strictMono_grid 10) (by omega)).1
  rw [next, value, Nat.add_one_mul s] at upper
  rw [value] at clamped ⊢
  rcases normal with leading | rfl
  · have step : 2 ^ 10 * 2 ^ k ≤ s * 2 ^ k := mul_le_mul_right _ leading
    omega
  · omega

/-! ## Encoding -/

/-- **A value is off by half the scale at most, or by what it exceeds 127 times the scale.** -/
theorem kvQuantEncode_spec {value scale x h : Nat} (value_le : fabs value ≤ kFp16Max)
    (value_units : singleUnits (fabs value) = kHalfUnit * grid 10 x) (scale_le : scale ≤ kFp16Max)
    (scale_units : singleUnits scale = kHalfUnit * grid 10 h) :
    ∃ k : Nat, k ≤ 127 ∧ kvQuantEncode value scale = (if value / 2 ^ 31 % 2 = 0 then (k : Int) else -k) ∧
      (2 * grid 10 x ≤ 255 * grid 10 h → 2 * Nat.dist (k * grid 10 h) (grid 10 x) ≤ grid 10 h) ∧
      (255 * grid 10 h ≤ 2 * grid 10 x →
        Nat.dist (k * grid 10 h) (grid 10 x) = grid 10 x - 127 * grid 10 h) := by
  have unit_pos : 0 < kHalfUnit := by unfold kHalfUnit; positivity
  have ceil : kFp16Max < kInf := by decide
  have scale_lt : scale < 2 ^ 31 := by unfold kInf at ceil; omega
  have number : floatLess 0 scale = decide (0 < scale) :=
    floatLess_of_le (Nat.zero_le _) (scale_le.trans ceil.le)
  rcases Nat.eq_zero_or_pos scale with rfl | positive
  · have zero : grid 10 h = 0 := by
      have none_ : kHalfUnit * grid 10 h = 0 := by rw [← scale_units]; decide
      exact (Nat.mul_eq_zero.mp none_).resolve_left unit_pos.ne'
    refine ⟨0, Nat.zero_le _, ?_, fun within => ?_, fun _ => ?_⟩
    · simp [kvQuantEncode, number]
    · rw [zero] at within ⊢
      unfold Nat.dist
      omega
    · rw [zero]
      unfold Nat.dist
      omega
  have scale_pos : 0 < grid 10 h := by
    refine Nat.pos_of_mul_pos_left (a := kHalfUnit) ?_
    rw [← scale_units]
    exact (Nat.zero_le _).trans_lt (strictMono_grid 23 positive)
  have value_finite : Finite value := value_le.trans_lt ceil
  obtain ⟨q, rounded⟩ : ∃ q, q = roundQuotient 23 (singleUnits (fabs value) * 2 ^ 149)
    (singleUnits scale) := ⟨_, rfl⟩
  have nearest : NearestEven (grid 23) (grid 10 x * 2 ^ 149) (grid 10 h) q := by
    have scaled := @nearestEven_roundQuotient 23 (singleUnits (fabs value) * 2 ^ 149)
      (singleUnits scale) (by omega) (by rw [scale_units]; positivity)
    rwa [← rounded, value_units, scale_units, mul_assoc kHalfUnit, mul_comm kHalfUnit,
      mul_comm kHalfUnit, nearestEven_scale unit_pos] at scaled
  have q_lt : q < kInf := by
    refine (strictMono_grid 23).lt_iff_lt.mp (lt_of_le_of_lt ?_ grid_kInf)
    obtain ⟨b, held⟩ := @exists_grid 23 1 200 (by omega)
    rw [one_mul] at held
    rw [← held]
    refine (strictMono_grid 23).monotone
      (nearest.ge_of_ge (strictMono_grid 23) scale_pos ?_)
    have top : kHalfUnit * grid 10 x ≤ kHalfUnit * 2 ^ 51 := by
      rw [← value_units]
      exact ((strictMono_grid 23).monotone value_le).trans (by decide)
    rw [held]
    calc grid 10 x * 2 ^ 149 ≤ 2 ^ 51 * 2 ^ 149 :=
          mul_le_mul_right _ (le_of_mul_le_mul_left top unit_pos)
      _ ≤ grid 10 h * 2 ^ 200 := by
          rw [← Nat.pow_add]
          exact Nat.le_mul_of_pos_left _ scale_pos
  have quotient : divF32 value scale = ((value ^^^ scale) &&& 0x80000000) ||| q := by
    have value_number : isNan value = false := by
      unfold isNan
      exact decide_eq_false (by unfold Finite fabs kInf at value_finite; omega)
    have scale_number : isNan scale = false := isNan_of_le (scale_le.trans ceil.le)
    have scale_ne : scale ≠ kInf := (scale_le.trans_lt ceil).ne
    have value_ne : fabs value ≠ kInf := value_finite.ne
    unfold divF32
    simp only [value_number, scale_number, fabs_of_lt scale_lt, ← rounded]
    rw [if_neg (by simp [value_ne, positive.ne']), if_neg (by simp [value_ne, positive.ne']),
      if_neg scale_ne, min_eq_left q_lt.le]
  have quotient_number : isNan (divF32 value scale) = false :=
    isNan_divF32 value_finite (by rw [number, decide_eq_true positive])
  obtain ⟨magnitude, sign, -⟩ :=
    signed_join (value ^^^ scale) (show q < 2 ^ 31 by unfold kInf at q_lt; omega)
  rw [xor_sign scale_lt] at sign
  obtain ⟨within, beyond⟩ := nearest_code nearest scale_pos
  refine ⟨min (nearestQuotient (grid 23 q) (2 ^ 149)) 127, min_le_right _ _, ?_, within, ?_⟩
  · unfold kvQuantEncode
    rw [number, decide_eq_true positive]
    simp only [quotient_number, Bool.not_true, Bool.false_eq_true, if_false]
    rw [quotient, roundCode, magnitude]
    exact if_congr sign rfl rfl
  · intro more
    rw [min_eq_right (beyond more)]
    unfold Nat.dist
    omega

/-! ## Rows -/

theorem FromHalves.scale {row halves : List Nat} (stored : FromHalves row halves) :
    ∃ h, halfToFloat (kvQuantRow row).1 ≤ kFp16Max ∧
      singleUnits (halfToFloat (kvQuantRow row).1) = kHalfUnit * grid 10 h ∧
      singleUnits (kvQuantRowAbsMax row) = kHalfUnit * rowHalfUnits row ∧
      NearestEven (grid 10) (rowHalfUnits row) 127 h := by
  have unit_pos : 0 < kHalfUnit := by unfold kHalfUnit; positivity
  obtain ⟨x, units⟩ := stored.absMax_units
  have largest : rowHalfUnits row = grid 10 x := by
    rw [rowHalfUnits, units, Nat.mul_div_cancel_left _ unit_pos]
  obtain ⟨below, quotient⟩ := scale_nearestEven (kvQuantRowAbsMax_le row)
  have narrowed := (hostScale_nearestEven_iff row).mpr stored.no_tie
  have nearest := scale_nearest quotient narrowed units
  have top : grid 10 x ≤ 127 * grid 10 0x7BFF := by
    have bounded : kHalfUnit * grid 10 x ≤ kHalfUnit * (127 * grid 10 0x7BFF) := by
      rw [← units]
      exact ((strictMono_grid 23).monotone (kvQuantRowAbsMax_le row)).trans (by decide)
    exact le_of_mul_le_mul_left bounded unit_pos
  have finite := nearest.ge_of_ge (strictMono_grid 10) (by omega) top
  have place : (kvQuantRow row).1 % 2 ^ 15 = (kvQuantRow row).1 := mod_eq_of_lt (by omega)
  obtain ⟨scale_le, scale_units⟩ :=
    @singleUnits_halfToFloat (kvQuantRow row).1 (by rw [place]; omega)
  have unsigned : halfToFloat (kvQuantRow row).1 < 2 ^ 31 := by
    have parts := @halfToFloat_parts (kvQuantRow row).1 (by rw [place]; omega)
    omega
  rw [mod_eq_of_lt unsigned] at scale_le scale_units
  rw [place] at scale_units
  exact ⟨(kvQuantRow row).1, scale_le, scale_units, by rw [units, largest], by rwa [largest]⟩

/-- **What a value of a row of halves reads back as.** -/
theorem FromHalves.readError {row halves : List Nat} (stored : FromHalves row halves) {h : Nat}
    (scale_le : halfToFloat (kvQuantRow row).1 ≤ kFp16Max)
    (scale_units : singleUnits (halfToFloat (kvQuantRow row).1) = kHalfUnit * grid 10 h) {i : Nat}
    (inside : i < row.length) :
    ∃ x, singleUnits (fabs (row.getD i 0)) = kHalfUnit * grid 10 x ∧
      (2 * grid 10 x ≤ 255 * grid 10 h →
        2 * KvQuant.readError row (kvDequantRow (kvQuantRow row)) i ≤ kHalfUnit * grid 10 h) ∧
      (255 * grid 10 h ≤ 2 * grid 10 x → KvQuant.readError row (kvDequantRow (kvQuantRow row)) i =
          kHalfUnit * (grid 10 x - 127 * grid 10 h)) := by
  have value : row.getD i 0 = row[i] := by
    rw [getD_eq_getElem?_getD, getElem?_eq_getElem inside, getD_some]
  have listed : row[i] ∈ row := getElem_mem inside
  obtain ⟨x, units⟩ := stored.units listed
  obtain ⟨k, small, code, within, beyond⟩ :=
    kvQuantEncode_spec (stored.within _ listed) units scale_le scale_units
  have decoded : (kvDequantRow (kvQuantRow row)).getD i 0 =
      kvQuantDecode (kvQuantEncode row[i] (halfToFloat (kvQuantRow row).1))
        (halfToFloat (kvQuantRow row).1) := by
    unfold kvDequantRow kvQuantRow
    simp [getD_eq_getElem?_getD, inside]
  have error : KvQuant.readError row (kvDequantRow (kvQuantRow row)) i =
      kHalfUnit * Nat.dist (k * grid 10 h) (grid 10 x) := by
    have few : (kvQuantEncode row[i] (halfToFloat (kvQuantRow row).1)).natAbs < 2 ^ 7 := by
      rw [code]
      split <;> omega
    unfold KvQuant.readError
    rw [decoded, value, kvQuantDecode_units few scale_le scale_units, code, signedUnits, units,
      ← Nat.dist_mul_left, Nat.dist]
    have product : kHalfUnit * (k * grid 10 h) = k * (kHalfUnit * grid 10 h) := by ring
    rw [product]
    generalize kHalfUnit * grid 10 h = u
    generalize kHalfUnit * grid 10 x = v
    split
    · rw [← cast_mul]
      omega
    · rw [neg_mul, ← cast_mul]
      omega
  rw [error, value]
  refine ⟨x, units, fun less => ?_, fun more => by rw [beyond more]⟩
  rw [mul_left_comm]
  exact mul_le_mul_left _ (within less)

theorem FromHalves.rowOf {src halves : List Nat} (stored : FromHalves src halves)
    (headDim r : Nat) : FromHalves (KvQuant.rowOf src headDim r) (KvQuant.rowOf halves headDim r) := by
  obtain ⟨rfl, finite⟩ := stored
  refine ⟨by rw [KvQuant.rowOf, KvQuant.rowOf, ← map_drop, ← map_take], fun h listed => ?_⟩
  exact finite h (mem_of_mem_drop (mem_of_mem_take listed))

theorem kvQuantRows_getD (src : List Nat) {rows headDim r : Nat} (inside : r < rows) :
    storedScale src rows headDim r =
        singleUnits (halfToFloat (kvQuantRow (rowOf src headDim r)).1) ∧
      readBack src rows headDim r = kvDequantRow (kvQuantRow (rowOf src headDim r)) := by
  unfold storedScale readBack kvDequantRows kvQuantRows
  simp [getD_eq_getElem?_getD, inside, rowOf]

/-- **A row of halves reads back within half its stored scale exactly where the scale, a 127th of the
largest magnitude in whole units of the smallest half, does not clamp that magnitude.**  That is so
in every row of zeros and in every row whose largest magnitude is 127 times 126 such units or more.
In the others a value is within half the scale, or is clamped to 127 times the scale and off by less
than 64 of the units. -/
theorem kvDequantRows_withinHalfScale_iff {src halves : List Nat} (stored : FromHalves src halves)
    (rows headDim : Nat) {r : Nat} (inside : r < rows) :
    (WithinHalfScale src rows headDim r ↔ 2 * rowHalfUnits (rowOf src headDim r) ≤
        255 * ((rowHalfUnits (rowOf src headDim r) + 63) / 127)) ∧
      (rowHalfUnits (rowOf src headDim r) = 0 ∨ 127 * 126 ≤ rowHalfUnits (rowOf src headDim r) →
        WithinHalfScale src rows headDim r) ∧
      ∀ i < (rowOf src headDim r).length,
        2 * readError (rowOf src headDim r) (readBack src rows headDim r) i ≤
            storedScale src rows headDim r ∨
          readError (rowOf src headDim r) (readBack src rows headDim r) i =
              singleUnits (fabs ((rowOf src headDim r).getD i 0)) -
                127 * storedScale src rows headDim r ∧
            readError (rowOf src headDim r) (readBack src rows headDim r) i < 64 * kHalfUnit := by
  obtain ⟨scale_kept, kept_back⟩ := @kvQuantRows_getD src rows headDim r inside
  have halved := stored.rowOf headDim r
  unfold WithinHalfScale
  rw [scale_kept, kept_back]
  generalize KvQuant.rowOf src headDim r = row at halved
  generalize KvQuant.rowOf halves headDim r = hs at halved
  have unit_pos : 0 < kHalfUnit := by unfold kHalfUnit; positivity
  obtain ⟨h, scale_le, scale_units, largest_units, nearest⟩ := halved.scale
  have bounded : ∀ i < row.length, ∀ x, singleUnits (fabs (row.getD i 0)) = kHalfUnit * grid 10 x →
      grid 10 x ≤ rowHalfUnits row := by
    intro i listed x units
    have below := halved.absMax.1 (row.getD i 0) (by
      rw [getD_eq_getElem?_getD, getElem?_eq_getElem listed, getD_some]
      exact getElem_mem listed)
    refine le_of_mul_le_mul_left ?_ unit_pos
    rw [← units, ← largest_units]
    exact (strictMono_grid 23).monotone below
  have all_iff : (∀ i < row.length, 2 * readError row (kvDequantRow (kvQuantRow row)) i ≤
      singleUnits (halfToFloat (kvQuantRow row).1)) ↔ 2 * rowHalfUnits row ≤ 255 * grid 10 h := by
    rw [scale_units]
    constructor
    · intro all
      by_contra clamped
      rcases halved.absMax.2 with zero | ⟨f, listed, same⟩
      · have none_ : kHalfUnit * rowHalfUnits row = 0 := by rw [← largest_units, zero]; decide
        have gone := (Nat.mul_eq_zero.mp none_).resolve_left unit_pos.ne'
        omega
      · obtain ⟨i, i_lt, rfl⟩ := getElem_of_mem listed
        obtain ⟨x, units, -, beyond⟩ := halved.readError scale_le scale_units i_lt
        have value : row.getD i 0 = row[i] := by
          rw [getD_eq_getElem?_getD, getElem?_eq_getElem i_lt, getD_some]
        rw [value, same, largest_units] at units
        have top := Nat.eq_of_mul_eq_mul_left unit_pos units
        have far := all i i_lt
        rw [beyond (by omega), Nat.mul_left_comm] at far
        have excess := le_of_mul_le_mul_left far unit_pos
        omega
    · intro covered i listed
      obtain ⟨x, units, within, -⟩ := halved.readError scale_le scale_units listed
      have below := bounded i listed x units
      exact within (by omega)
  rw [all_iff, covers_iff nearest]
  refine ⟨Iff.rfl, fun either => by omega, fun i listed => ?_⟩
  obtain ⟨x, units, within, beyond⟩ := halved.readError scale_le scale_units listed
  have below := bounded i listed x units
  rw [scale_units]
  rcases lt_or_ge (255 * grid 10 h) (2 * grid 10 x) with clamped | covered
  · right
    have small := beyond_small nearest (by omega)
    rw [beyond clamped.le, units]
    refine ⟨by rw [Nat.mul_sub, Nat.mul_left_comm], ?_⟩
    rw [Nat.mul_comm 64]
    exact Nat.mul_lt_mul_of_pos_left (by omega) unit_pos
  · exact .inl (within covered)

/-- A row whose largest magnitude is one. -/
theorem ones_withinHalfScale : WithinHalfScale [0x3F800000, 0xBF000000] 1 2 0 :=
  (@kvDequantRows_withinHalfScale_iff [0x3F800000, 0xBF000000] [0x3C00, 0xB800]
    ⟨by decide, by decide⟩ 1 2 0 (by decide)).1.mpr (by decide)

/-- A row of the smallest half: its scale is zero, and it reads back as zero. -/
theorem smallest_clamped : storedScale [0x33800000] 1 1 0 = 0 ∧ readBack [0x33800000] 1 1 0 = [0] ∧
    ¬ ∀ (src halves : List Nat) (rows headDim r : Nat), FromHalves src halves → r < rows →
      WithinHalfScale src rows headDim r := by
  refine ⟨by decide, by decide, fun all => ?_⟩
  have first := all [0x33800000] [1] 1 1 0 ⟨by decide, by decide⟩ (by decide) 0 (by decide)
  revert first
  decide

end Vknn.KvQuant
