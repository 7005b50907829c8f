import Vknn.Ir.HalfRounding

/-!
# Quantizing a row of the cache

A row of keys or values is stored as codes of 8 bits and one scale.  The scale is
the largest magnitude over 127, narrowed to half precision.  The host and the device
derive it from the same quotient, and narrow it by different rules: the host's takes
a tie upwards.

A tie needs a magnitude that is 127 times the middle between two halves.  That is
never itself a half, so that rows which come from half storage have one scale on both
sides.  A row of single precision can meet it.
-/

namespace Vknn.KvQuant

open GridRounding List Nat

/-! ## Single precision -/

/-- The pattern of infinity, and that of a NaN. -/
def kInf : Nat := 0x7F800000
def kNan : Nat := 0x7FC00000

def fabs (f : Nat) : Nat := f &&& 0x7FFFFFFF

/-- The larger of two numbers; a NaN is passed over. -/
def fmax (a b : Nat) : Nat :=
  if isNan a then b else if isNan b then a else if floatLess a b then b else a

/-- The smaller of two numbers; a NaN is passed over. -/
def fmin (a b : Nat) : Nat :=
  if isNan a then b else if isNan b then a else if floatLess b a then b else a

/-- The quotient of two numbers, rounded to nearest even. -/
def divF32 (a b : Nat) : Nat :=
  let sign := (a ^^^ b) &&& 0x80000000
  let x := fabs a
  let y := fabs b
  if isNan a || isNan b || (x = kInf && y = kInf) || (x = 0 && y = 0) then kNan
  else if x = kInf || y = 0 then sign ||| kInf
  else if y = kInf then sign
  else sign ||| min (roundQuotient 23 (singleUnits x * 2 ^ 149) (singleUnits y)) kInf

/-- The nearest integer to a number that is no NaN, clamped to the codes. -/
def roundCode (f : Nat) : Int :=
  let magnitude : Int := (min (nearestQuotient (singleUnits (fabs f)) (2 ^ 149)) 127 : Nat)
  if f < 0x80000000 then magnitude else -magnitude

/-! ## The host -/

/-- The pattern of 127, and that of the largest magnitude. -/
def kKvQuantMaxCode : Nat := 0x42FE0000
def kKvQuantAbsMaxCeil : Nat := kFp16Max

def kvQuantRowAbsMax (row : List Nat) : Nat :=
  fmin (row.foldl (fun absMax f => fmax absMax (fabs f)) 0) kKvQuantAbsMaxCeil

def kvQuantRowScaleBits (absMax : Nat) : Nat := floatToHalf (divF32 absMax kKvQuantMaxCode)

def kvQuantEncode (value scale : Nat) : Int :=
  if !floatLess 0 scale then 0
  else
    let quotient := divF32 value scale
    if isNan quotient then 0 else roundCode quotient

/-- The scale of a row, and its codes. -/
def kvQuantRow (row : List Nat) : Nat × List Int :=
  let bits := kvQuantRowScaleBits (kvQuantRowAbsMax row)
  (bits, row.map fun value => kvQuantEncode value (halfToFloat bits))

/-- Consecutive rows, each quantized on its own. -/
def kvQuantRows (src : List Nat) (rows headDim : Nat) : List (Nat × List Int) :=
  (List.range rows).map fun r => kvQuantRow ((src.drop (r * headDim)).take headDim)

/-! ## The device -/

def vxSatF16 (f : Nat) : Nat :=
  if isNan f then f
  else
    let atLeast := if floatLess f kFp16Lowest then kFp16Lowest else f
    if floatLess kFp16Max atLeast then kFp16Max else atLeast

def vknnRte16 (f : Nat) : Nat := floatToHalfRteBits (vxSatF16 f)

def kvqWg : Nat := 64

/-- The largest of two numbers none of which is a NaN. -/
def shaderMax (a b : Nat) : Nat := if floatLess a b then b else a

/-- What a lane finds in its share of a row. -/
def laneAbs (row : List Nat) (tid : Nat) : Nat :=
  (List.range row.length).foldl (fun laneAbs i =>
    if i % kvqWg = tid then shaderMax laneAbs (fabs (row.getD i 0)) else laneAbs) 0

/-- The lanes' results, halved in number until one is left. -/
def reduceLanes : Nat → (Nat → Nat) → Nat
  | 0, lanes => lanes 0
  | k + 1, lanes => reduceLanes k fun tid => shaderMax (lanes tid) (lanes (tid + 2 ^ k))

/-- The scale the device stores for a row, as it reads it from half storage, and the codes. -/
def linkCopyKvqRow (row : List Nat) : Nat × List Int :=
  let scale16 := vknnRte16 (divF32 (reduceLanes 6 (laneAbs row)) kKvQuantMaxCode)
  let scale := halfToFloat scale16
  (scale16, row.map fun value => if floatLess 0 scale then roundCode (divF32 value scale) else 0)

/-! ## Magnitudes -/

/-- A pattern of a number that is neither infinite nor a NaN. -/
def Finite (f : Nat) : Prop := fabs f < kInf

instance (f : Nat) : Decidable (Finite f) := inferInstanceAs (Decidable (_ < _))

theorem fabs_eq_mod (f : Nat) : fabs f = f % 2 ^ 31 := and_mask f 31

variable {a b f q : Nat} {halves : List Nat}

theorem fabs_of_lt (small : f < 2 ^ 31) : fabs f = f := by rw [fabs_eq_mod, mod_eq_of_lt small]

theorem isNan_of_le (bounded : f ≤ kInf) : isNan f = false := by
  have magnitude : f &&& 0x7FFFFFFF = f := fabs_of_lt (by unfold kInf at bounded; omega)
  unfold isNan kInf at *
  rw [magnitude]
  exact decide_eq_false (by omega)

theorem floatLess_of_le (a_le : a ≤ kInf) (b_le : b ≤ kInf) : floatLess a b = decide (a < b) := by
  have a_key : floatKey a = a := if_pos (by unfold kInf at a_le; omega)
  have b_key : floatKey b = b := if_pos (by unfold kInf at b_le; omega)
  rw [floatLess, isNan_of_le a_le, isNan_of_le b_le, a_key, b_key]
  simp

theorem shaderMax_eq (a_le : a ≤ kInf) (b_le : b ≤ kInf) : shaderMax a b = max a b := by
  rw [shaderMax, floatLess_of_le a_le b_le]
  simp only [decide_eq_true_eq]
  split <;> omega

theorem fmax_eq (a_le : a ≤ kInf) (b_le : b ≤ kInf) : fmax a b = max a b := by
  rw [fmax, isNan_of_le a_le, isNan_of_le b_le]
  exact shaderMax_eq a_le b_le

theorem fmax_le (a_le : a ≤ kInf) (b_lt : b < 2 ^ 31) : fmax a b ≤ kInf := by
  by_cases b_le : b ≤ kInf
  · rw [fmax_eq a_le b_le]
    omega
  · have skipped : isNan b = true := by
      have magnitude : b &&& 0x7FFFFFFF = b := fabs_of_lt b_lt
      unfold isNan kInf at *
      rw [magnitude]
      exact decide_eq_true (by omega)
    rw [fmax, isNan_of_le a_le, skipped]
    exact a_le

theorem fmin_eq (a_le : a ≤ kInf) (b_le : b ≤ kInf) : fmin a b = min a b := by
  rw [fmin, isNan_of_le a_le, isNan_of_le b_le, floatLess_of_le b_le a_le]
  simp only [decide_eq_true_eq, Bool.false_eq_true, if_false]
  split <;> omega

theorem ceil_le : kKvQuantAbsMaxCeil ≤ kInf := by decide

theorem foldl_fmax_le {row : List Nat} {start : Nat} (bounded : start ≤ kInf) :
    row.foldl (fun absMax f => fmax absMax (fabs f)) start ≤ kInf := by
  induction row generalizing start with
  | nil => exact bounded
  | cons f row ih =>
    refine ih (fmax_le bounded ?_)
    rw [fabs_eq_mod]
    exact mod_lt f (by positivity)

/-- **No magnitude is above the ceiling of half precision.** -/
theorem kvQuantRowAbsMax_le (row : List Nat) : kvQuantRowAbsMax row ≤ kFp16Max := by
  have bounded := @foldl_fmax_le row 0 (Nat.zero_le _)
  rw [kvQuantRowAbsMax, fmin_eq bounded ceil_le]
  exact Nat.min_le_right _ _

/-! ## The quotient by 127 -/

theorem singleUnits_maxCode : singleUnits kKvQuantMaxCode = 127 * 2 ^ 149 := by decide

/-- The scale of a magnitude is the number nearest to a 127th of it. -/
theorem scale_nearestEven (small : a ≤ kFp16Max) : divF32 a kKvQuantMaxCode ≤ a ∧
      NearestEven (grid 23) (singleUnits a) 127 (divF32 a kKvQuantMaxCode) := by
  have a_lt : a < 2 ^ 31 := by unfold kFp16Max at small; omega
  have a_fabs := fabs_of_lt a_lt
  have b_fabs : fabs kKvQuantMaxCode = kKvQuantMaxCode := by decide
  have a_finite : a ≠ kInf := by unfold kFp16Max at small; unfold kInf; omega
  have no_nan : isNan a = false := isNan_of_le (by unfold kFp16Max at small; unfold kInf; omega)
  have b_no_nan : isNan kKvQuantMaxCode = false := by decide
  have sign : (a ^^^ kKvQuantMaxCode) &&& 0x80000000 = 0 := by
    have together : a ^^^ kKvQuantMaxCode < 2 ^ 31 :=
      xor_lt_two_pow a_lt (by unfold kKvQuantMaxCode; omega)
    have bit := and_bit (a ^^^ kKvQuantMaxCode) 31
    rw [div_eq_of_lt together] at bit
    simpa using bit
  have nearest := @nearestEven_roundQuotient 23 (singleUnits a * 2 ^ 149) (127 * 2 ^ 149)
    (by omega) (by positivity)
  rw [nearestEven_scale (by positivity)] at nearest
  have below : roundQuotient 23 (singleUnits a * 2 ^ 149) (127 * 2 ^ 149) ≤ a := by
    by_contra beyond
    have farther := nearest a (by omega)
    have more : singleUnits a <
        grid 23 (roundQuotient 23 (singleUnits a * 2 ^ 149) (127 * 2 ^ 149)) :=
      strictMono_grid 23 (Nat.lt_of_not_le beyond)
    have here : grid 23 a = singleUnits a := rfl
    rw [here] at farther
    unfold Nat.dist at farther
    omega
  have quotient : divF32 a kKvQuantMaxCode =
      roundQuotient 23 (singleUnits a * 2 ^ 149) (127 * 2 ^ 149) := by
    unfold divF32
    simp only [a_fabs, b_fabs, no_nan, b_no_nan, sign, singleUnits_maxCode]
    rw [if_neg (by simp [a_finite]; intro zero; decide), if_neg (by simp [a_finite]; decide),
      if_neg (by decide), zero_or, Nat.min_eq_left]
    unfold kFp16Max at small
    unfold kInf
    omega
  rw [quotient]
  exact ⟨below, nearest⟩

/-! ## Ties -/

theorem middle_form (t : Nat) :
    ∃ c k, grid 10 t + grid 10 (t + 1) = (2 * c + 1) * 2 ^ k ∧ c < 2 ^ 11 := by
  obtain ⟨c, k, -, small, -, here, next⟩ := grid_form 10 t
  exact ⟨c, k, by rw [here, next]; ring, small⟩

/-- A nearest place is off by half a step at most. -/
theorem nearest_error {n d r k : Nat} (positive : 0 < d) (nearest : NearestEven (grid 23) n d q)
    (place : q = k * 2 ^ 23 + r) (small : r < 2 ^ 24) (some_ : 0 < r)
    (here : grid 23 q = r * 2 ^ k) (next : grid 23 (q + 1) = (r + 1) * 2 ^ k) :
    2 * n ≤ 2 * (d * grid 23 q) + d * 2 ^ k ∧ 2 * (d * grid 23 q) ≤ 2 * n + d * 2 ^ k := by
  obtain ⟨b, rfl⟩ : ∃ b, q = b + 1 := ⟨q - 1, by omega⟩
  obtain ⟨above, below⟩ := nearest.middles (strictMono_grid 23) positive
  have lower := below b rfl
  obtain ⟨r', k', before, -, normal, there, back⟩ := grid_form 23 b
  have scales : k' ≤ k := by
    by_contra more
    rcases normal with low | zero <;> omega
  have shorter : d * 2 ^ k' ≤ d * 2 ^ k := Nat.mul_le_mul_left d (Nat.pow_le_pow_right (by omega) scales)
  have up : d * (grid 23 (b + 1) + grid 23 (b + 1 + 1)) = 2 * (d * grid 23 (b + 1)) + d * 2 ^ k := by
    rw [next, here]
    ring
  have down : d * (grid 23 b + grid 23 (b + 1)) + d * 2 ^ k' = 2 * (d * grid 23 (b + 1)) := by
    rw [back, there]
    ring
  omega

/-- **A quotient by 127 that is the middle between two halves is exact.** -/
theorem exact_of_middle {c j : Nat} (nearest : NearestEven (grid 23) (grid 23 a) 127 q)
    (small : c < 2 ^ 11) (middle : grid 23 q = (2 * c + 1) * 2 ^ (124 + j)) :
    grid 23 a = 127 * grid 23 q := by
  obtain ⟨r, k, place, r_lt, normal, here, next⟩ := grid_form 23 q
  obtain ⟨s, m, -, s_lt, -, magnitude, -⟩ := grid_form 23 a
  have large : 2 ^ 124 ≤ grid 23 q := by
    rw [middle, Nat.pow_add]
    have scale : 0 < 2 ^ j := by positivity
    nlinarith
  have r_ge : 2 ^ 23 ≤ r := by
    refine normal.resolve_right fun zero => ?_
    rw [here, zero] at large
    omega
  have step_pos : 0 < 2 ^ k := by positivity
  obtain ⟨not_above, not_below⟩ := nearest_error (by omega) nearest place r_lt (by omega) here next
  have leading : 2 ^ 23 * 2 ^ k ≤ r * 2 ^ k := Nat.mul_le_mul_right _ r_ge
  -- the magnitude is a whole multiple of 64 steps, since it has 24 bits and needs 30 steps' worth
  have coarse : k + 6 ≤ m := by
    by_contra fine
    have scale : 2 ^ m ≤ 2 ^ (k + 5) := Nat.pow_le_pow_right (by omega) (by omega)
    have bounded : grid 23 a < 2 ^ 24 * 2 ^ (k + 5) := by
      rw [magnitude]
      calc s * 2 ^ m < 2 ^ 24 * 2 ^ m := Nat.mul_lt_mul_of_pos_right s_lt (by positivity)
        _ ≤ 2 ^ 24 * 2 ^ (k + 5) := Nat.mul_le_mul_left _ scale
    rw [Nat.pow_add] at bounded
    omega
  have fits : k + 6 ≤ 124 + j := by
    by_contra short
    have scale : 2 ^ (124 + j) ≤ 2 ^ (k + 5) := Nat.pow_le_pow_right (by omega) (by omega)
    have bounded : grid 23 q ≤ (2 * c + 1) * 2 ^ (k + 5) := by
      rw [middle]
      exact Nat.mul_le_mul_left _ scale
    have few : (2 * c + 1) * 2 ^ (k + 5) < 2 ^ 12 * 2 ^ (k + 5) :=
      Nat.mul_lt_mul_of_pos_right (by omega) (by positivity)
    rw [Nat.pow_add] at bounded few
    omega
  have a_multiple : 2 ^ (k + 6) ∣ grid 23 a := by
    rw [magnitude]
    exact (pow_dvd_pow 2 coarse).mul_left s
  have q_multiple : 2 ^ (k + 6) ∣ 127 * grid 23 q := by
    rw [middle]
    exact ((pow_dvd_pow 2 fits).mul_left _).mul_left _
  have step : 2 ^ (k + 6) = 64 * 2 ^ k := by rw [Nat.pow_add]; ring
  exact eq_of_near a_multiple q_multiple (by omega) (by omega)

/-- **The scale is a tie exactly where the magnitude is 127 times one.** -/
theorem tie_scale_iff {t : Nat} (nearest : NearestEven (grid 23) (singleUnits a) 127 q) :
    Tie (grid 10) (singleUnits q) kHalfUnit t ↔
      Tie (grid 10) (singleUnits a) (127 * kHalfUnit) t := by
  obtain ⟨c, k, sum, small⟩ := middle_form t
  have scale : kHalfUnit * ((2 * c + 1) * 2 ^ k) = 2 * ((2 * c + 1) * 2 ^ (124 + k)) := by
    rw [kHalfUnit, Nat.pow_add]
    ring
  unfold Tie
  rw [sum, Nat.mul_assoc, scale]
  constructor
  · intro tie
    have middle : grid 23 q = (2 * c + 1) * 2 ^ (124 + k) := by
      unfold singleUnits at tie
      omega
    have exactly := exact_of_middle nearest small middle
    unfold singleUnits
    rw [exactly, middle]
    ring
  · intro tie
    obtain ⟨b, held⟩ := @exists_grid 23 (2 * c + 1) (124 + k) (by omega)
    have met : 127 * grid 23 b = singleUnits a := by omega
    have same := nearest.eq_of_exact (strictMono_grid 23) (by omega) met
    unfold singleUnits
    rw [same, held]

theorem evenTie_scale_iff (nearest : NearestEven (grid 23) (singleUnits a) 127 q) :
    EvenTie (singleUnits q) kHalfUnit ↔ EvenTie (singleUnits a) (127 * kHalfUnit) :=
  exists_congr fun _ => and_congr_right fun _ => tie_scale_iff nearest

/-! ## The largest magnitude on both sides -/

section Largest

variable {row : List Nat}

theorem foldl_fmax_le_iff (finite : ∀ f ∈ row, Finite f) {start : Nat} (bounded : start ≤ kInf)
    (b : Nat) : row.foldl (fun absMax f => fmax absMax (fabs f)) start ≤ b ↔
      start ≤ b ∧ ∀ f ∈ row, fabs f ≤ b := by
  induction row generalizing start with
  | nil => simp
  | cons f row ih =>
    have here : fabs f ≤ kInf := (finite f mem_cons_self).le
    have rest : ∀ g ∈ row, Finite g := fun g listed => finite g (mem_cons_of_mem f listed)
    rw [foldl_cons, fmax_eq bounded here, ih rest (Nat.max_le.mpr ⟨bounded, here⟩), Nat.max_le,
      forall_mem_cons, and_assoc]

theorem laneAbs_le (finite : ∀ f ∈ row, Finite f) (tid b : Nat) : laneAbs row tid ≤ kInf ∧
      (laneAbs row tid ≤ b ↔ ∀ i < row.length, i % kvqWg = tid → fabs (row.getD i 0) ≤ b) := by
  have known : ∀ i < row.length, fabs (row.getD i 0) ≤ kInf := by
    intro i inside
    rw [getD_eq_getElem?_getD, getElem?_eq_getElem inside, Option.getD_some]
    exact (finite _ (getElem_mem inside)).le
  unfold laneAbs
  generalize row.length = n at known
  induction n with
  | zero => simp
  | succ n ih =>
    obtain ⟨bounded, below⟩ := ih fun i inside => known i (by omega)
    rw [range_succ, foldl_append, foldl_cons, foldl_nil]
    have last := known n (by omega)
    have split : (∀ i < n + 1, i % kvqWg = tid → fabs (row.getD i 0) ≤ b) ↔
        (∀ i < n, i % kvqWg = tid → fabs (row.getD i 0) ≤ b) ∧
          (n % kvqWg = tid → fabs (row.getD n 0) ≤ b) := forall_lt_succ_right
    rw [split]
    by_cases mine : n % kvqWg = tid
    · rw [if_pos mine, shaderMax_eq bounded last, Nat.max_le, Nat.max_le, below]
      exact ⟨⟨bounded, last⟩, and_congr_right fun _ => ⟨fun le _ => le, fun le => le mine⟩⟩
    · rw [if_neg mine, below]
      exact ⟨bounded, ⟨fun le => ⟨le, fun here => absurd here mine⟩, And.left⟩⟩

theorem reduceLanes_le_iff (k : Nat) {lanes : Nat → Nat} (bounded : ∀ tid, lanes tid ≤ kInf)
    (b : Nat) : reduceLanes k lanes ≤ b ↔ ∀ tid < 2 ^ k, lanes tid ≤ b := by
  induction k generalizing lanes with
  | zero =>
    rw [reduceLanes]
    exact ⟨fun le tid first => by rwa [show tid = 0 by omega], fun le => le 0 (by omega)⟩
  | succ k ih =>
    have pairs : ∀ tid, shaderMax (lanes tid) (lanes (tid + 2 ^ k)) =
        max (lanes tid) (lanes (tid + 2 ^ k)) := fun tid => shaderMax_eq (bounded _) (bounded _)
    have double : 2 ^ (k + 1) = 2 ^ k + 2 ^ k := by rw [Nat.pow_succ, Nat.mul_two]
    rw [reduceLanes, ih fun tid => by rw [pairs]; exact Nat.max_le.mpr ⟨bounded _, bounded _⟩]
    simp only [pairs, Nat.max_le]
    constructor
    · intro le tid inside
      by_cases low : tid < 2 ^ k
      · exact (le tid low).1
      · have upper := (le (tid - 2 ^ k) (by omega)).2
        rwa [Nat.sub_add_cancel (by omega)] at upper
    · exact fun le tid inside => ⟨le tid (by omega), le (tid + 2 ^ k) (by omega)⟩

/-- **The lanes find the largest magnitude the host finds.** -/
theorem reduceLanes_laneAbs (finite : ∀ f ∈ row, Finite f)
    (within : ∀ f ∈ row, fabs f ≤ kFp16Max) :
    reduceLanes 6 (laneAbs row) = kvQuantRowAbsMax row := by
  have start : 0 ≤ kInf := Nat.zero_le _
  have capped := (foldl_fmax_le_iff finite start kKvQuantAbsMaxCeil).mpr ⟨Nat.zero_le _, within⟩
  rw [kvQuantRowAbsMax, fmin_eq (foldl_fmax_le start) ceil_le, Nat.min_eq_left capped]
  refine eq_of_forall_ge_iff fun b => ?_
  rw [reduceLanes_le_iff 6 (fun tid => (laneAbs_le finite tid 0).1), foldl_fmax_le_iff finite start]
  constructor
  · refine fun le => ⟨Nat.zero_le b, fun f listed => ?_⟩
    obtain ⟨i, inside, rfl⟩ := getElem_of_mem listed
    have mine := (laneAbs_le finite (i % kvqWg) b).2.mp
      (le _ (mod_lt i (by unfold kvqWg; omega))) i inside rfl
    rwa [getD_eq_getElem?_getD, getElem?_eq_getElem inside, Option.getD_some] at mine
  · rintro ⟨-, le⟩ tid -
    refine (laneAbs_le finite tid b).2.mpr fun i inside _ => ?_
    rw [getD_eq_getElem?_getD, getElem?_eq_getElem inside, Option.getD_some]
    exact le _ (getElem_mem inside)

end Largest

/-! ## Narrowing the scale -/

theorem isNan_signed {x m : Nat} (bounded : m ≤ kInf) :
    isNan ((x &&& 0x80000000) ||| m) = false := by
  have bit : x &&& 0x80000000 = x / 2 ^ 31 % 2 * 2 ^ 31 := and_bit x 31
  have small : m < 2 ^ 31 := by unfold kInf at bounded; omega
  have joined : (x &&& 0x80000000) ||| m = 2 ^ 31 * (x / 2 ^ 31 % 2) + m := by
    rw [bit, Nat.mul_comm, two_pow_add_eq_or_of_lt small]
  have magnitude : ((x &&& 0x80000000) ||| m) &&& 0x7FFFFFFF = m := by
    refine (and_mask _ 31).trans ?_
    rw [joined]
    omega
  unfold isNan
  rw [magnitude]
  exact decide_eq_false (by unfold kInf at bounded; omega)

/-- A quotient of a finite number by a positive one is no NaN. -/
theorem isNan_divF32 {value scale : Nat} (finite : Finite value)
    (positive : floatLess 0 scale = true) : isNan (divF32 value scale) = false := by
  have unfolded := positive
  unfold floatLess at unfolded
  simp only [Bool.and_eq_true, Bool.not_eq_true', decide_eq_true_eq] at unfolded
  obtain ⟨⟨-, scale_number⟩, larger⟩ := unfolded
  have scale_small : scale < 2 ^ 31 := by
    unfold floatKey at larger
    split at larger
    · split at larger <;> omega
    · omega
  have scale_pos : 0 < scale := by
    rw [floatKey, floatKey, if_pos (by omega), if_pos (by omega)] at larger
    omega
  have value_number : isNan value = false := by
    unfold isNan
    have magnitude : value &&& 0x7FFFFFFF = fabs value := rfl
    rw [magnitude]
    unfold Finite kInf at finite
    exact decide_eq_false (by omega)
  have value_finite : fabs value ≠ kInf := finite.ne
  have bare : ∀ x : Nat, isNan (x &&& 0x80000000) = false := fun x => by
    have signed := @isNan_signed x 0 (Nat.zero_le _)
    rwa [or_zero] at signed
  unfold divF32
  simp only [fabs_of_lt scale_small, value_number, scale_number]
  rw [if_neg (by simp [value_finite]; omega), if_neg (by simp [value_finite]; omega)]
  split
  · exact bare _
  · exact isNan_signed (Nat.min_le_right _ _)

theorem vknnRte16_eq (small : q ≤ kFp16Max) : vknnRte16 q = floatToHalfRteBits q := by
  have q_le : q ≤ kInf := by unfold kFp16Max at small; unfold kInf; omega
  have no_nan := isNan_of_le q_le
  have above : floatLess q kFp16Lowest = false := by
    have key : floatKey q = q := if_pos (by unfold kFp16Max at small; omega)
    have lowest : floatKey kFp16Lowest = -1199562752 := by decide
    rw [floatLess, key, lowest]
    simp
  have below : floatLess kFp16Max q = false := by
    rw [floatLess_of_le (by decide) q_le]
    exact decide_eq_false (by omega)
  rw [vknnRte16, vxSatF16, no_nan, if_neg (by decide)]
  simp only [above, below, Bool.false_eq_true, if_false]

/-- The host's scale is the nearest half except where the magnitude is 127 times a tie. -/
theorem hostScale_nearestEven_iff (row : List Nat) :
    NearestEven (grid 10) (singleUnits (divF32 (kvQuantRowAbsMax row) kKvQuantMaxCode)) kHalfUnit
        (kvQuantRow row).1 ↔
      ¬ EvenTie (singleUnits (kvQuantRowAbsMax row)) (127 * kHalfUnit) := by
  have small := kvQuantRowAbsMax_le row
  obtain ⟨below, quotient⟩ := scale_nearestEven small
  have q_lt : divF32 (kvQuantRowAbsMax row) kKvQuantMaxCode < 143 * 2 ^ 23 := by
    unfold kFp16Max at small
    omega
  have host := floatToHalf_nearestEven_iff q_lt
  rwa [evenTie_scale_iff quotient] at host

theorem deviceScale_nearestEven {row : List Nat} (finite : ∀ f ∈ row, Finite f)
    (within : ∀ f ∈ row, fabs f ≤ kFp16Max) :
    NearestEven (grid 10) (singleUnits (divF32 (kvQuantRowAbsMax row) kKvQuantMaxCode)) kHalfUnit
      (linkCopyKvqRow row).1 := by
  have small := kvQuantRowAbsMax_le row
  obtain ⟨below, -⟩ := scale_nearestEven small
  have q_lt : divF32 (kvQuantRowAbsMax row) kKvQuantMaxCode < 143 * 2 ^ 23 := by
    unfold kFp16Max at small
    omega
  have device := floatToHalfRteBits_nearestEven q_lt
  rw [← vknnRte16_eq (below.trans small)] at device
  rwa [linkCopyKvqRow, reduceLanes_laneAbs finite within]

theorem rows_agree_iff {row : List Nat} (finite : ∀ f ∈ row, Finite f) :
    kvQuantRow row = linkCopyKvqRow row ↔ (kvQuantRow row).1 = (linkCopyKvqRow row).1 := by
  refine ⟨congrArg Prod.fst, fun scales => Prod.ext scales ?_⟩
  have encoded : (kvQuantRow row).2 = row.map fun value =>
      kvQuantEncode value (halfToFloat (kvQuantRow row).1) := rfl
  rw [encoded, scales]
  refine map_congr_left fun value listed => ?_
  rw [linkCopyKvqRow]
  unfold kvQuantEncode
  cases positive : floatLess 0 (halfToFloat
      (vknnRte16 (divF32 (reduceLanes 6 (laneAbs row)) kKvQuantMaxCode))) with
  | false => rfl
  | true =>
    have number := isNan_divF32 (finite value listed) positive
    simp only [number, Bool.not_true, Bool.false_eq_true, if_false, if_true]

/-- Host and device store the same row exactly where the host's scale is the nearest half. -/
theorem rows_agree_iff_no_tie {row : List Nat} (finite : ∀ f ∈ row, Finite f)
    (within : ∀ f ∈ row, fabs f ≤ kFp16Max) :
    kvQuantRow row = linkCopyKvqRow row ↔
      ¬ EvenTie (singleUnits (kvQuantRowAbsMax row)) (127 * kHalfUnit) := by
  have device := deviceScale_nearestEven finite within
  rw [rows_agree_iff finite, ← hostScale_nearestEven_iff row]
  constructor
  · intro scales
    rwa [scales]
  · intro nearest
    exact nearest.unique (strictMono_grid 10) (by unfold kHalfUnit; positivity) device

/-! ## Rows of halves -/

/-- 127 times the middle between two halves is no half: it has too many bits. -/
theorem half_ne_middle {x t : Nat} :
    ¬ Tie (grid 10) (kHalfUnit * grid 10 x) (127 * kHalfUnit) t := by
  intro tie
  obtain ⟨s, j, -, few, -, here, -⟩ := grid_form 10 x
  obtain ⟨c, k, -, -, normal, below, above⟩ := grid_form 10 t
  have unit_pos : 0 < kHalfUnit := by unfold kHalfUnit; positivity
  have doubled : 2 * (s * 2 ^ j) = 127 * ((2 * c + 1) * 2 ^ k) := by
    unfold Tie at tie
    rw [here, below, above] at tie
    refine Nat.eq_of_mul_eq_mul_left unit_pos ?_
    calc kHalfUnit * (2 * (s * 2 ^ j)) = 2 * (kHalfUnit * (s * 2 ^ j)) := by ring
      _ = 127 * kHalfUnit * (c * 2 ^ k + (c + 1) * 2 ^ k) := tie
      _ = kHalfUnit * (127 * ((2 * c + 1) * 2 ^ k)) := by ring
  cases k with
  | zero => omega
  | succ k =>
    have leading : 2 ^ 10 ≤ c := normal.resolve_right (succ_ne_zero k)
    have halved : s * 2 ^ j = 127 * (2 * c + 1) * 2 ^ k := by
      rw [Nat.pow_succ] at doubled
      refine Nat.eq_of_mul_eq_mul_left (by omega : 0 < 2) ?_
      rw [doubled]
      ring
    rcases Nat.lt_or_ge k j with lower | upper
    · obtain ⟨i, rfl⟩ := Nat.exists_eq_add_of_lt lower
      have odd : s * 2 ^ (i + 1) = 127 * (2 * c + 1) := by
        refine eq_of_mul_eq_mul_right (by positivity : 0 < 2 ^ k) ?_
        rw [← halved, Nat.mul_assoc, ← Nat.pow_add]
        congr 2
        omega
      rw [Nat.pow_succ, ← Nat.mul_assoc] at odd
      omega
    · obtain ⟨i, rfl⟩ := Nat.exists_eq_add_of_le upper
      have many : s = 127 * (2 * c + 1) * 2 ^ i := by
        refine eq_of_mul_eq_mul_right (by positivity : 0 < 2 ^ j) ?_
        rw [halved, Nat.pow_add]
        ring
      have more : 127 * (2 * c + 1) * 1 ≤ 127 * (2 * c + 1) * 2 ^ i :=
        Nat.mul_le_mul_left _ Nat.one_le_two_pow
      omega

theorem foldl_max_mem (row : List Nat) (start : Nat) :
    row.foldl max start = start ∨ row.foldl max start ∈ row := by
  induction row generalizing start with
  | nil => exact .inl rfl
  | cons f row ih =>
    rw [foldl_cons]
    rcases ih (max start f) with same | listed
    · rw [same]
      rcases Nat.le_total start f with less | more
      · exact .inr (by rw [Nat.max_eq_right less]; exact mem_cons_self)
      · exact .inl (Nat.max_eq_left more)
    · exact .inr (mem_cons_of_mem f listed)

/-- A row that comes from half storage. -/
def FromHalves (row halves : List Nat) : Prop :=
  row = halves.map halfToFloat ∧ ∀ h ∈ halves, h % 2 ^ 15 < 0x7C00

theorem FromHalves.within {row : List Nat} (stored : FromHalves row halves) :
    ∀ f ∈ row, fabs f ≤ kFp16Max := by
  obtain ⟨rfl, finite⟩ := stored
  intro f listed
  obtain ⟨h, of_halves, rfl⟩ := mem_map.mp listed
  rw [fabs_eq_mod]
  exact (singleUnits_halfToFloat (finite h of_halves)).1

theorem FromHalves.finite {row : List Nat} (stored : FromHalves row halves) :
    ∀ f ∈ row, Finite f := fun f listed => by
  have bounded := stored.within f listed
  unfold Finite kInf
  unfold kFp16Max at bounded
  omega

theorem foldl_fmax {row : List Nat} {start : Nat} (bounded : start ≤ kInf)
    (finite : ∀ f ∈ row, Finite f) :
    row.foldl (fun absMax f => fmax absMax (fabs f)) start = (row.map fabs).foldl max start := by
  induction row generalizing start with
  | nil => rfl
  | cons f row ih =>
    have here : fabs f ≤ kInf := (finite f mem_cons_self).le
    rw [foldl_cons, map_cons, foldl_cons, fmax_eq bounded here]
    exact ih (Nat.max_le.mpr ⟨bounded, here⟩) fun g listed => finite g (mem_cons_of_mem f listed)

/-- The largest magnitude of a row of halves bounds the row, and is zero or one of the row's. -/
theorem FromHalves.absMax {row : List Nat} (stored : FromHalves row halves) :
    (∀ f ∈ row, fabs f ≤ kvQuantRowAbsMax row) ∧
      (kvQuantRowAbsMax row = 0 ∨ ∃ f ∈ row, fabs f = kvQuantRowAbsMax row) := by
  have start : 0 ≤ kInf := Nat.zero_le _
  have capped := (foldl_fmax_le_iff stored.finite start kKvQuantAbsMaxCeil).mpr
    ⟨Nat.zero_le _, stored.within⟩
  have same : kvQuantRowAbsMax row = row.foldl (fun absMax f => fmax absMax (fabs f)) 0 := by
    rw [kvQuantRowAbsMax, fmin_eq (foldl_fmax_le start) ceil_le, Nat.min_eq_left capped]
  rw [same]
  refine ⟨((foldl_fmax_le_iff stored.finite start _).mp le_rfl).2, ?_⟩
  rw [foldl_fmax start stored.finite]
  rcases foldl_max_mem (row.map fabs) 0 with zero | listed
  · exact .inl zero
  · exact .inr (mem_map.mp listed)

theorem FromHalves.units {row : List Nat} (stored : FromHalves row halves)
    (listed : f ∈ row) : ∃ x, singleUnits (fabs f) = kHalfUnit * grid 10 x := by
  obtain ⟨rfl, finite⟩ := stored
  obtain ⟨h, of_halves, rfl⟩ := mem_map.mp listed
  rw [fabs_eq_mod]
  exact ⟨_, (singleUnits_halfToFloat (finite h of_halves)).2⟩

theorem FromHalves.absMax_units {row : List Nat} (stored : FromHalves row halves) :
    ∃ x, singleUnits (kvQuantRowAbsMax row) = kHalfUnit * grid 10 x := by
  rcases stored.absMax.2 with zero | ⟨f, listed, same⟩
  · rw [zero]
    exact ⟨0, by decide⟩
  · rw [← same]
    exact stored.units listed

/-- **Rows of halves never tie.** -/
theorem FromHalves.no_tie {row : List Nat} (stored : FromHalves row halves) :
    ¬ EvenTie (singleUnits (kvQuantRowAbsMax row)) (127 * kHalfUnit) := by
  obtain ⟨x, units⟩ := stored.absMax_units
  rintro ⟨t, -, tie⟩
  rw [units] at tie
  exact half_ne_middle tie

/-! ## The stored scale -/

/-- **The stored scale is the nearest half except where the magnitude is 127 times the middle
between an even half and the next.**  Elsewhere host and device store the same row, and always do
for a row that comes from half storage. -/
theorem kvScale_nearestEven_iff (row : List Nat) (finite : ∀ f ∈ row, Finite f) :
    (NearestEven (grid 10) (singleUnits (divF32 (kvQuantRowAbsMax row) kKvQuantMaxCode)) kHalfUnit
        (kvQuantRow row).1 ↔
      ¬ EvenTie (singleUnits (kvQuantRowAbsMax row)) (127 * kHalfUnit)) ∧
    ((∀ f ∈ row, fabs f ≤ kFp16Max) → (kvQuantRow row = linkCopyKvqRow row ↔
        ¬ EvenTie (singleUnits (kvQuantRowAbsMax row)) (127 * kHalfUnit))) ∧
    ∀ halves, FromHalves row halves → kvQuantRow row = linkCopyKvqRow row :=
  ⟨hostScale_nearestEven_iff row, fun within => rows_agree_iff_no_tie finite within,
    fun _ stored => (rows_agree_iff_no_tie finite stored.within).mpr stored.no_tie⟩

/-- A row whose largest magnitude is one. -/
theorem unitRow_no_tie : ¬ EvenTie (singleUnits (kvQuantRowAbsMax [0x3F800000, 0xBF000000]))
    (127 * kHalfUnit) :=
  ((kvScale_nearestEven_iff [0x3F800000, 0xBF000000] (by decide)).2.1 (by decide)).mp
    (by decide)

/-- 127 times the middle between 1 and the next half: the host stores the next half. -/
theorem middleRow_astray : (∀ f ∈ [0x42FE1FC0], Finite f) ∧ ¬ NearestEven (grid 10)
      (singleUnits (divF32 (kvQuantRowAbsMax [0x42FE1FC0]) kKvQuantMaxCode)) kHalfUnit
      (kvQuantRow [0x42FE1FC0]).1 ∧
    kvQuantRow [0x42FE1FC0] ≠ linkCopyKvqRow [0x42FE1FC0] := by
  refine ⟨by decide, fun nearest => ?_, by decide⟩
  have even := nearest 0x3C00 (by decide)
  revert even
  decide

end Vknn.KvQuant
