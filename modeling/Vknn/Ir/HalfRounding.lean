import Mathlib.Data.Nat.Bitwise
import Vknn.Ir.Half
import Vknn.Lib.GridRounding

/-!
# Narrowing as rounding

A pattern of bits is a place in the grid of its format.  The units of single
precision are `2 ^ 125` times finer than those of half precision.  Both narrowings
find the half below a number and round from there, one a tie upwards, the other to
even.
-/

namespace Vknn

open GridRounding Nat

/-! ## The fields of a pattern -/

theorem and_mask (f p : Nat) : f &&& (2 ^ p - 1) = f % 2 ^ p := and_two_pow_sub_one_eq_mod f p

theorem and_bit (f p : Nat) : f &&& 2 ^ p = f / 2 ^ p % 2 * 2 ^ p := by
  rw [and_two_pow, testBit_eq_decide_div_mod_eq]
  rcases mod_two_eq_zero_or_one (f / 2 ^ p) with bit | bit <;> simp [bit]

/-- The fields of a number that is not negative. -/
structure Fields (f e m : Nat) : Prop where
  sign : (f >>> 16) &&& 0x8000 = 0
  exponent : (f >>> 23) &&& 0xFF = e
  significand : f &&& 0x7FFFFF = m

variable {e f m : Nat}

theorem fields (exponent : e < 256) (significand : m < 2 ^ 23) : Fields (e * 2 ^ 23 + m) e m := by
  have mask8 := and_mask ((e * 2 ^ 23 + m) >>> 23) 8
  have mask23 := and_mask (e * 2 ^ 23 + m) 23
  have bit15 := and_bit ((e * 2 ^ 23 + m) >>> 16) 15
  rw [shiftRight_eq_div_pow] at mask8 bit15
  refine ⟨?_, ?_, ?_⟩
  · rw [shiftRight_eq_div_pow]
    refine bit15.trans ?_
    omega
  · rw [shiftRight_eq_div_pow]
    refine mask8.trans ?_
    omega
  · refine mask23.trans ?_
    omega

/-! ## Normal halves -/

theorem joined_fields {e m : Nat} (significand : m < 2 ^ 23) :
    e <<< 10 ||| m >>> 13 = e * 2 ^ 10 + m / 2 ^ 13 := by
  rw [← shiftLeft_add_eq_or_of_lt (by rw [shiftRight_eq_div_pow]; omega),
    shiftLeft_eq, shiftRight_eq_div_pow]

theorem floatToHalf_normal (low : 113 ≤ e) (high : e ≤ 142) (significand : m < 2 ^ 23) :
    floatToHalf (e * 2 ^ 23 + m) = if m % 2 ^ 13 < 2 ^ 12 then (e - 112) * 2 ^ 10 + m / 2 ^ 13
      else (e - 112) * 2 ^ 10 + m / 2 ^ 13 + 1 := by
  obtain ⟨sign, exponent, mant⟩ := fields (by omega : e < 256) significand
  have bit12 : m &&& 0x1000 = m / 2 ^ 12 % 2 * 2 ^ 12 := and_bit m 12
  have rebased : ((e : Int) - 127 + 15).toNat = e - 112 := by omega
  have joined := @joined_fields (e - 112) m significand
  unfold floatToHalf
  simp only [sign, exponent, mant]
  rw [if_neg (by omega), if_neg (by omega), if_neg (by omega), rebased, zero_or, joined, bit12]
  split <;> split <;> omega

theorem floatToHalfRteBits_normal (low : 113 ≤ e) (high : e ≤ 142)
    (significand : m < 2 ^ 23) :
    floatToHalfRteBits (e * 2 ^ 23 + m) =
      if m % 2 ^ 13 < 2 ^ 12 ∨ m % 2 ^ 13 = 2 ^ 12 ∧ ((e - 112) * 2 ^ 10 + m / 2 ^ 13) % 2 = 0 then
        (e - 112) * 2 ^ 10 + m / 2 ^ 13
      else (e - 112) * 2 ^ 10 + m / 2 ^ 13 + 1 := by
  obtain ⟨sign, exponent, mant⟩ := fields (by omega : e < 256) significand
  have rest : m &&& 0x1FFF = m % 2 ^ 13 := and_mask m 13
  have rebased : ((e : Int) - 112).toNat = e - 112 := by omega
  have joined := @joined_fields (e - 112) m significand
  unfold floatToHalfRteBits
  simp only [sign, exponent, mant]
  rw [if_neg (by omega), if_neg (by omega), if_neg (by omega), rebased, zero_or, joined, rest,
    and_one_is_mod]
  split <;> split <;> omega

/-! ## Subnormal halves -/

theorem or_leading (significand : m < 2 ^ 23) : m ||| 0x800000 = 2 ^ 23 + m := by
  rw [Nat.or_comm]
  exact (two_pow_add_eq_or_of_lt significand 1).symm.trans (by omega)

theorem floatToHalf_subnormal (low : 102 ≤ e) (high : e ≤ 112)
    (significand : m < 2 ^ 23) :
    floatToHalf (e * 2 ^ 23 + m) =
      if (2 ^ 23 + m) % 2 ^ (126 - e) < 2 ^ (125 - e) then (2 ^ 23 + m) / 2 ^ (126 - e)
      else (2 ^ 23 + m) / 2 ^ (126 - e) + 1 := by
  obtain ⟨sign, exponent, mant⟩ := fields (by omega : e < 256) significand
  have leading := or_leading significand
  have shift : (14 - ((e : Int) - 127 + 15)).toNat = 126 - e := by omega
  have before : 126 - e - 1 = 125 - e := by omega
  have double : 2 ^ (126 - e) = 2 ^ (125 - e) * 2 := by
    rw [← Nat.pow_succ]
    congr 1
    omega
  have top : (2 ^ 23 + m) / 2 ^ (125 - e) % 2 = (2 ^ 23 + m) % 2 ^ (126 - e) / 2 ^ (125 - e) := by
    rw [double, mod_mul_right_div_self]
  have half_pos : 0 < 2 ^ (125 - e) := by positivity
  unfold floatToHalf
  simp only [sign, exponent, mant]
  rw [if_neg (by omega), if_neg (by omega), if_pos (by omega), if_neg (by omega), zero_or,
    shift, leading, before, shiftRight_eq_div_pow, shiftRight_eq_div_pow, and_one_is_mod, top]
  by_cases less : (2 ^ 23 + m) % 2 ^ (126 - e) < 2 ^ (125 - e)
  · rw [if_pos less, div_eq_of_lt less, if_neg (by omega)]
  · have some_ : 0 < (2 ^ 23 + m) % 2 ^ (126 - e) / 2 ^ (125 - e) :=
      Nat.div_pos (by omega) half_pos
    rw [if_neg less, if_pos (by omega)]

theorem floatToHalfRteBits_subnormal (low : 102 ≤ e) (high : e ≤ 112)
    (significand : m < 2 ^ 23) :
    floatToHalfRteBits (e * 2 ^ 23 + m) = if (2 ^ 23 + m) % 2 ^ (126 - e) < 2 ^ (125 - e) ∨
          (2 ^ 23 + m) % 2 ^ (126 - e) = 2 ^ (125 - e) ∧ (2 ^ 23 + m) / 2 ^ (126 - e) % 2 = 0 then
        (2 ^ 23 + m) / 2 ^ (126 - e)
      else (2 ^ 23 + m) / 2 ^ (126 - e) + 1 := by
  obtain ⟨sign, exponent, mant⟩ := fields (by omega : e < 256) significand
  have leading := or_leading significand
  have shift : (14 - ((e : Int) - 112)).toNat = 126 - e := by omega
  have before : 126 - e - 1 = 125 - e := by omega
  have mask := and_mask (2 ^ 23 + m) (126 - e)
  unfold floatToHalfRteBits
  simp only [sign, exponent, mant]
  rw [if_neg (by omega), if_neg (by omega), if_pos (by omega), if_neg (by omega), zero_or,
    shift, leading, before, shiftRight_eq_div_pow, one_shiftLeft, one_shiftLeft, mask,
    and_one_is_mod]
  split <;> split <;> omega

/-! ## Below all halves -/

theorem narrow_tiny (high : e < 102) (significand : m < 2 ^ 23) :
    floatToHalf (e * 2 ^ 23 + m) = 0 ∧ floatToHalfRteBits (e * 2 ^ 23 + m) = 0 := by
  obtain ⟨sign, exponent, mant⟩ := fields (by omega : e < 256) significand
  constructor
  · unfold floatToHalf
    simp only [sign, exponent, mant]
    rw [if_neg (by omega), if_neg (by omega), if_pos (by omega), if_pos (by omega)]
  · unfold floatToHalfRteBits
    simp only [sign, exponent, mant]
    rw [if_neg (by omega), if_neg (by omega), if_pos (by omega), if_pos (by omega)]

/-! ## Rounding -/

/-- A number in the units of its format, and how many of them make a unit of half precision. -/
def singleUnits (f : Nat) : Nat := grid 23 f
def kHalfUnit : Nat := 2 ^ 125

/-- Both narrowings round from one half below the number. -/
structure Narrows (f t : Nat) : Prop where
  between : Between (grid 10) (singleUnits f) kHalfUnit t
  away : floatToHalf f = upward (grid 10) (singleUnits f) kHalfUnit t
  even : floatToHalfRteBits f = toEven (grid 10) (singleUnits f) kHalfUnit t

theorem narrows_normal (low : 113 ≤ e) (high : e ≤ 142) (significand : m < 2 ^ 23) :
    Narrows (e * 2 ^ 23 + m) ((e - 112) * 2 ^ 10 + m / 2 ^ 13) := by
  have place : (e - 112) * 2 ^ 10 + m / 2 ^ 13 = (e - 113) * 2 ^ 10 + (2 ^ 10 + m / 2 ^ 13) := by
    omega
  have quotient : (2 ^ 23 + m) / 2 ^ 13 = 2 ^ 10 + m / 2 ^ 13 := by omega
  have rest : (2 ^ 23 + m) % 2 ^ 13 = m % 2 ^ 13 := by omega
  have step : kHalfUnit * 2 ^ (e - 113) = 2 ^ 13 * 2 ^ (e - 1) := by
    rw [kHalfUnit, ← Nat.pow_add, ← Nat.pow_add]
    congr 1
    omega
  have units : singleUnits (e * 2 ^ 23 + m) = (2 ^ 23 + m) * 2 ^ (e - 1) := by
    rw [singleUnits, grid_parts significand, if_neg (by omega), Nat.add_comm m]
  have here : kHalfUnit * grid 10 ((e - 112) * 2 ^ 10 + m / 2 ^ 13) =
      (2 ^ 23 + m) / 2 ^ 13 * 2 ^ 13 * 2 ^ (e - 1) := by
    rw [place, grid_scaled (.inl (by omega)) (by omega), quotient, Nat.mul_left_comm, step]
    ring
  have next : kHalfUnit * grid 10 ((e - 112) * 2 ^ 10 + m / 2 ^ 13 + 1) =
      ((2 ^ 23 + m) / 2 ^ 13 + 1) * 2 ^ 13 * 2 ^ (e - 1) := by
    rw [place, Nat.add_assoc, grid_scaled (.inl (by omega)) (by omega), quotient,
      Nat.mul_left_comm, step]
    ring
  obtain ⟨between, away, even⟩ := of_remainder (by positivity) (by norm_num : 2 ^ 13 = 2 * 2 ^ 12)
    (by positivity) units here next
  rw [rest] at away even
  refine ⟨between, ?_, ?_⟩
  · rw [floatToHalf_normal low high significand, away]
  · rw [floatToHalfRteBits_normal low high significand, even]

theorem narrows_subnormal (low : 102 ≤ e) (high : e ≤ 112) (significand : m < 2 ^ 23) :
    Narrows (e * 2 ^ 23 + m) ((2 ^ 23 + m) / 2 ^ (126 - e)) := by
  have small : (2 ^ 23 + m) / 2 ^ (126 - e) < 2 ^ 10 := by
    have wide : 2 ^ 14 ≤ 2 ^ (126 - e) := Nat.pow_le_pow_right (by omega) (by omega)
    refine (Nat.div_lt_iff_lt_mul (by positivity)).mpr ?_
    calc 2 ^ 23 + m < 2 ^ 10 * 2 ^ 14 := by omega
      _ ≤ 2 ^ 10 * 2 ^ (126 - e) := Nat.mul_le_mul_left _ wide
  have double : 2 ^ (126 - e) = 2 * 2 ^ (125 - e) := by
    rw [Nat.mul_comm, ← Nat.pow_succ]
    congr 1
    omega
  have step : kHalfUnit = 2 ^ (126 - e) * 2 ^ (e - 1) := by
    rw [kHalfUnit, ← Nat.pow_add]
    congr 1
    omega
  have units : singleUnits (e * 2 ^ 23 + m) = (2 ^ 23 + m) * 2 ^ (e - 1) := by
    rw [singleUnits, grid_parts significand, if_neg (by omega), Nat.add_comm m]
  have first : ∀ c ≤ 2 ^ 11, grid 10 c = c := by
    intro c below
    have scaled := @grid_scaled 10 0 c (.inr rfl) below
    simpa using scaled
  have here : kHalfUnit * grid 10 ((2 ^ 23 + m) / 2 ^ (126 - e)) =
      (2 ^ 23 + m) / 2 ^ (126 - e) * 2 ^ (126 - e) * 2 ^ (e - 1) := by
    rw [first _ (by omega), step]
    ring
  have next : kHalfUnit * grid 10 ((2 ^ 23 + m) / 2 ^ (126 - e) + 1) =
      ((2 ^ 23 + m) / 2 ^ (126 - e) + 1) * 2 ^ (126 - e) * 2 ^ (e - 1) := by
    rw [first _ (by omega), step]
    ring
  obtain ⟨between, away, even⟩ :=
    of_remainder (by positivity) double (by positivity) units here next
  refine ⟨between, ?_, ?_⟩
  · rw [floatToHalf_subnormal low high significand, away]
  · rw [floatToHalfRteBits_subnormal low high significand, even]

theorem narrows_tiny (high : e < 102) (significand : m < 2 ^ 23) : Narrows (e * 2 ^ 23 + m) 0 := by
  obtain ⟨away, even⟩ := narrow_tiny high significand
  have zero : grid 10 0 = 0 := rfl
  have one : grid 10 (0 + 1) = 1 := rfl
  have small : 2 * singleUnits (e * 2 ^ 23 + m) < kHalfUnit := by
    have scale : 2 ^ (e - 1) ≤ 2 ^ 100 := Nat.pow_le_pow_right (by omega) (by omega)
    have bounded : (m + if e = 0 then 0 else 2 ^ 23) < 2 ^ 24 := by split <;> omega
    rw [singleUnits, grid_parts significand, kHalfUnit]
    calc 2 * ((m + if e = 0 then 0 else 2 ^ 23) * 2 ^ (e - 1))
        ≤ 2 * ((m + if e = 0 then 0 else 2 ^ 23) * 2 ^ 100) :=
          Nat.mul_le_mul_left 2 (Nat.mul_le_mul_left _ scale)
      _ < 2 ^ 125 := by omega
  have below : 2 * singleUnits (e * 2 ^ 23 + m) < kHalfUnit * (grid 10 0 + grid 10 (0 + 1)) := by
    rw [zero, one]
    omega
  refine ⟨⟨by rw [zero]; omega, by rw [one]; omega⟩, ?_, ?_⟩
  · rw [away, upward, if_pos below]
  · rw [even, toEven, if_pos (.inl below)]

/-- **Both narrowings round from the half below.** -/
theorem narrows (small : f < 143 * 2 ^ 23) : ∃ t, Narrows f t := by
  have parts : f / 2 ^ 23 * 2 ^ 23 + f % 2 ^ 23 = f := div_add_mod' f (2 ^ 23)
  have significand : f % 2 ^ 23 < 2 ^ 23 := mod_lt f (by positivity)
  have exponent : f / 2 ^ 23 ≤ 142 := by omega
  rw [← parts]
  rcases Nat.lt_or_ge (f / 2 ^ 23) 102 with tiny | some_
  · exact ⟨_, narrows_tiny tiny significand⟩
  rcases Nat.lt_or_ge (f / 2 ^ 23) 113 with subnormal | normal
  · exact ⟨_, narrows_subnormal some_ (by omega) significand⟩
  · exact ⟨_, narrows_normal normal exponent significand⟩

/-- **The device's narrowing gives the nearest half.** -/
theorem floatToHalfRteBits_nearestEven (small : f < 143 * 2 ^ 23) :
    NearestEven (grid 10) (singleUnits f) kHalfUnit (floatToHalfRteBits f) := by
  obtain ⟨t, narrowed⟩ := narrows small
  rw [narrowed.even]
  exact nearestEven_toEven (strictMono_grid 10) (by unfold kHalfUnit; positivity) narrowed.between

/-- A number halfway between an even half and the next. -/
def EvenTie (n d : Nat) : Prop := ∃ t, t % 2 = 0 ∧ Tie (grid 10) n d t

/-- **The host's narrowing gives the nearest half except on a tie above an even one.** -/
theorem floatToHalf_nearestEven_iff (small : f < 143 * 2 ^ 23) :
    NearestEven (grid 10) (singleUnits f) kHalfUnit (floatToHalf f) ↔
      ¬ EvenTie (singleUnits f) kHalfUnit := by
  have positive : 0 < kHalfUnit := by unfold kHalfUnit; positivity
  have mono := strictMono_grid 10
  obtain ⟨t, narrowed⟩ := narrows small
  rw [narrowed.away, upward_nearestEven_iff mono positive narrowed.between, not_iff_not]
  constructor
  · rintro ⟨tie, even⟩
    exact ⟨t, even, tie⟩
  · rintro ⟨other, even, tie⟩
    have same : other = t := place_unique mono (between_of_tie mono positive tie) narrowed.between
    exact same ▸ ⟨tie, even⟩

/-! ## Widening -/

theorem normalizeHalf_eq {fuel mant exp : Nat} (rounds : fuel ≤ 10) (small : mant < 2 ^ 11)
    (enough : 2 ^ (10 - fuel) ≤ mant) (room : fuel ≤ exp) :
    ∃ k, normalizeHalf fuel mant exp = (mant * 2 ^ k, exp - k) ∧ k ≤ fuel ∧
      2 ^ 10 ≤ mant * 2 ^ k ∧ mant * 2 ^ k < 2 ^ 11 := by
  induction fuel generalizing mant exp with
  | zero => exact ⟨0, by simp [normalizeHalf], le_rfl, by simpa using enough, by simpa using small⟩
  | succ fuel ih =>
    have bit : mant &&& 0x400 = mant / 2 ^ 10 % 2 * 2 ^ 10 := and_bit mant 10
    rw [normalizeHalf, bit]
    by_cases leading : 2 ^ 10 ≤ mant
    · rw [if_neg (by omega)]
      exact ⟨0, by simp, Nat.zero_le _, by simpa using leading, by simpa using small⟩
    · have double : 2 ^ (10 - fuel) = 2 ^ (10 - (fuel + 1)) * 2 := by
        rw [← Nat.pow_succ]
        congr 1
        omega
      obtain ⟨k, shifted, k_le, low, high⟩ := @ih (mant * 2) (exp - 1) (by omega) (by omega)
        (by omega) (by omega)
      have power : mant * 2 * 2 ^ k = mant * 2 ^ (k + 1) := by
        rw [Nat.pow_succ]
        ring
      rw [if_pos (by omega), shiftLeft_eq, Nat.pow_one, shifted, power]
      rw [power] at low high
      exact ⟨k + 1, by rw [Nat.sub_sub, Nat.add_comm 1], by omega, low, high⟩

theorem drop_sign {x m : Nat} (small : m < 2 ^ 31) :
    ((x &&& 0x8000) <<< 16 ||| m) % 2 ^ 31 = m := by
  have bit : x &&& 0x8000 = x / 2 ^ 15 % 2 * 2 ^ 15 := and_bit x 15
  have shifted : (x &&& 0x8000) <<< 16 = 2 ^ 31 * (x / 2 ^ 15 % 2) := by
    rw [bit, shiftLeft_eq]
    ring
  rw [shifted, ← two_pow_add_eq_or_of_lt small]
  omega

theorem joined_widened {x : Nat} (small : m * 2 ^ 13 < 2 ^ 23) :
    x <<< 23 ||| m <<< 13 = x * 2 ^ 23 + m * 2 ^ 13 := by
  have field : m <<< 13 = m * 2 ^ 13 := shiftLeft_eq _ _
  rw [field, ← shiftLeft_add_eq_or_of_lt small, shiftLeft_eq]

/-- **Widening keeps the magnitude of a finite half.** -/
theorem singleUnits_halfToFloat {h : Nat} (finite : h % 2 ^ 15 < 0x7C00) :
    halfToFloat h % 2 ^ 31 ≤ kFp16Max ∧
      singleUnits (halfToFloat h % 2 ^ 31) = kHalfUnit * grid 10 (h % 2 ^ 15) := by
  have mask5 := and_mask (h >>> 10) 5
  have mask10 : h &&& 0x3FF = h % 2 ^ 10 := and_mask h 10
  have exponent : (h >>> 10) &&& 0x1F = h % 2 ^ 15 / 2 ^ 10 := by
    refine mask5.trans ?_
    rw [shiftRight_eq_div_pow]
    omega
  have parts : h % 2 ^ 15 = h % 2 ^ 15 / 2 ^ 10 * 2 ^ 10 + h % 2 ^ 10 := by omega
  have place : h % 2 ^ 10 < 2 ^ 10 := mod_lt h (by positivity)
  unfold halfToFloat
  simp only [exponent, mask10]
  rw [parts]
  generalize block : h % 2 ^ 15 / 2 ^ 10 = e at *
  generalize h % 2 ^ 10 = m at *
  have last : (e * 2 ^ 10 + m) / 2 ^ 10 = e := by omega
  rw [last]
  by_cases subnormal : e = 0
  · rw [if_pos subnormal]
    by_cases zero : m = 0
    · have dropped := @drop_sign h 0 (by positivity)
      rw [or_zero] at dropped
      rw [if_pos zero, dropped, subnormal, zero]
      exact ⟨Nat.zero_le _, by decide⟩
    · obtain ⟨k, shifted, k_le, low, high⟩ := @normalizeHalf_eq 10 m (127 - 15 + 1) le_rfl
        (by omega) (by rw [Nat.sub_self, Nat.pow_zero]; omega) (by omega)
      have remaining : 127 - 15 + 1 - k + k = 113 := by omega
      generalize 127 - 15 + 1 - k = x at shifted remaining
      have mask : m * 2 ^ k &&& 0x3FF = m * 2 ^ k - 2 ^ 10 := by
        refine (and_mask (m * 2 ^ k) 10).trans ?_
        omega
      have small : (m * 2 ^ k - 2 ^ 10) * 2 ^ 13 < 2 ^ 23 := by omega
      have joined : x <<< 23 ||| (m * 2 ^ k - 2 ^ 10) <<< 13 =
          x * 2 ^ 23 + (m * 2 ^ k - 2 ^ 10) * 2 ^ 13 := joined_widened small
      have bounded : x * 2 ^ 23 + (m * 2 ^ k - 2 ^ 10) * 2 ^ 13 ≤ kFp16Max := by
        unfold kFp16Max
        omega
      rw [if_neg zero, shifted, mask, Nat.or_assoc, joined,
        drop_sign (bounded.trans_lt (by decide))]
      refine ⟨bounded, ?_⟩
      have first : grid 10 (0 * 2 ^ 10 + m) = m * 2 ^ 0 := grid_scaled (.inr rfl) (by omega)
      have significand : (m * 2 ^ k - 2 ^ 10) * 2 ^ 13 + 2 ^ 23 = m * 2 ^ k * 2 ^ 13 := by omega
      have total : k + 13 + (x - 1) = 125 := by omega
      have scale : 2 ^ k * 2 ^ 13 * 2 ^ (x - 1) = kHalfUnit := by
        rw [kHalfUnit, ← Nat.pow_add, ← Nat.pow_add, total]
      have normal : x ≠ 0 := by omega
      have units : singleUnits (x * 2 ^ 23 + (m * 2 ^ k - 2 ^ 10) * 2 ^ 13) =
          m * 2 ^ k * 2 ^ 13 * 2 ^ (x - 1) := by
        have parts := @grid_parts 23 x _ small
        rwa [if_neg normal, significand] at parts
      calc singleUnits (x * 2 ^ 23 + (m * 2 ^ k - 2 ^ 10) * 2 ^ 13)
          = m * (2 ^ k * 2 ^ 13 * 2 ^ (x - 1)) := by rw [units]; ring
        _ = kHalfUnit * grid 10 (e * 2 ^ 10 + m) := by rw [scale, subnormal, first]; ring
  · have small : m * 2 ^ 13 < 2 ^ 23 := by omega
    have rebased : e + 127 - 15 = e + 112 := by omega
    have joined : (e + 112) <<< 23 ||| m <<< 13 = (e + 112) * 2 ^ 23 + m * 2 ^ 13 :=
      joined_widened small
    have bounded : (e + 112) * 2 ^ 23 + m * 2 ^ 13 ≤ kFp16Max := by
      unfold kFp16Max
      omega
    have no_infinity : e ≠ 0x1F := by omega
    have normal : e + 112 ≠ 0 := by omega
    rw [if_neg subnormal, if_neg no_infinity, Nat.or_assoc, rebased, joined,
      drop_sign (bounded.trans_lt (by decide))]
    refine ⟨bounded, ?_⟩
    have scale : 2 ^ 13 * 2 ^ (e + 112 - 1) = kHalfUnit * 2 ^ (e - 1) := by
      rw [kHalfUnit, ← Nat.pow_add, ← Nat.pow_add]
      congr 1
      omega
    rw [singleUnits, @grid_parts 23 (e + 112) _ small, grid_parts place, if_neg normal,
      if_neg subnormal]
    calc (m * 2 ^ 13 + 2 ^ 23) * 2 ^ (e + 112 - 1)
        = (m + 2 ^ 10) * (2 ^ 13 * 2 ^ (e + 112 - 1)) := by ring
      _ = kHalfUnit * ((m + 2 ^ 10) * 2 ^ (e - 1)) := by rw [scale]; ring

/-! ## Widening and narrowing -/

/-- A finite half widens to its sign and a magnitude. -/
theorem halfToFloat_form {h : Nat} (finite : h % 2 ^ 15 < 0x7C00) :
    ∃ m < 2 ^ 31, halfToFloat h = (h &&& 0x8000) <<< 16 ||| m := by
  have mask5 := and_mask (h >>> 10) 5
  have exponent : (h >>> 10) &&& 0x1F = h % 2 ^ 15 / 2 ^ 10 := by
    refine mask5.trans ?_
    rw [shiftRight_eq_div_pow]
    omega
  have masked : ∀ m : Nat, m &&& 0x3FF < 2 ^ 10 := fun m => lt_succ_of_le and_le_right
  have field : ∀ e m : Nat, e < 2 ^ 8 → m < 2 ^ 10 → e <<< 23 ||| m <<< 13 < 2 ^ 31 := by
    intro e m e_lt m_lt
    rw [shiftLeft_eq, shiftLeft_eq]
    exact or_lt_two_pow (by omega) (by omega)
  unfold halfToFloat
  simp only [exponent]
  by_cases subnormal : h % 2 ^ 15 / 2 ^ 10 = 0
  · rw [if_pos subnormal]
    by_cases zero : h &&& 0x3FF = 0
    · exact ⟨0, by positivity, by rw [if_pos zero, or_zero]⟩
    · obtain ⟨k, shifted, -, -, -⟩ := @normalizeHalf_eq 10 (h &&& 0x3FF) (127 - 15 + 1) le_rfl
        ((masked h).trans (by norm_num)) (by omega) (by omega)
      refine ⟨_, field _ _ ?_ (masked _), by rw [if_neg zero, Nat.or_assoc]⟩
      rw [shifted]
      dsimp only
      omega
  · rw [if_neg subnormal, if_neg (by omega), Nat.or_assoc]
    exact ⟨_, field _ _ (by omega) (masked h), rfl⟩

/-- The sign and the magnitude of a finite half that is widened. -/
theorem halfToFloat_parts {h : Nat} (finite : h % 2 ^ 15 < 0x7C00) :
    halfToFloat h = h / 2 ^ 15 % 2 * 2 ^ 31 + halfToFloat h % 2 ^ 31 := by
  obtain ⟨m, small, form⟩ := halfToFloat_form finite
  have bit : h &&& 0x8000 = h / 2 ^ 15 % 2 * 2 ^ 15 := and_bit h 15
  have shifted : (h &&& 0x8000) <<< 16 = 2 ^ 31 * (h / 2 ^ 15 % 2) := by
    rw [bit, shiftLeft_eq]
    ring
  rw [shifted, ← two_pow_add_eq_or_of_lt small] at form
  omega

theorem floatToHalf_exact {x : Nat} (small : m < 143 * 2 ^ 23)
    (met : singleUnits m = kHalfUnit * grid 10 x) : floatToHalf m = x := by
  have positive : 0 < kHalfUnit := by unfold kHalfUnit; positivity
  have mono := strictMono_grid 10
  have next : kHalfUnit * grid 10 x < kHalfUnit * grid 10 (x + 1) :=
    Nat.mul_lt_mul_of_pos_left (mono (lt_succ_self x)) positive
  obtain ⟨t, narrowed⟩ := narrows small
  have here : Between (grid 10) (singleUnits m) kHalfUnit x := ⟨met.ge, met ▸ next⟩
  rw [narrowed.away, place_unique mono narrowed.between here, upward, if_pos]
  rw [met, Nat.mul_add]
  omega

theorem floatToHalf_signed (small : m < 143 * 2 ^ 23) :
    floatToHalf (2 ^ 31 + m) = 2 ^ 15 + floatToHalf m := by
  have mask8 := and_mask ((2 ^ 31 + m) >>> 23) 8
  have mask23 := and_mask (2 ^ 31 + m) 23
  have bit15 := and_bit ((2 ^ 31 + m) >>> 16) 15
  rw [shiftRight_eq_div_pow] at mask8 bit15
  have sign : ((2 ^ 31 + m) >>> 16) &&& 0x8000 = 2 ^ 15 := by
    rw [shiftRight_eq_div_pow]
    refine bit15.trans ?_
    omega
  have exponent : ((2 ^ 31 + m) >>> 23) &&& 0xFF = m / 2 ^ 23 := by
    rw [shiftRight_eq_div_pow]
    refine mask8.trans ?_
    omega
  have mant : (2 ^ 31 + m) &&& 0x7FFFFF = m % 2 ^ 23 := by
    refine mask23.trans ?_
    omega
  obtain ⟨sign', exponent', mant'⟩ :=
    fields (show m / 2 ^ 23 < 256 by omega) (mod_lt m (by positivity : 0 < 2 ^ 23))
  rw [div_add_mod' m (2 ^ 23)] at sign' exponent' mant'
  have joined : ∀ x : Nat, x < 2 ^ 15 → 2 ^ 15 ||| x = 2 ^ 15 + x := fun x less => by
    have added := two_pow_add_eq_or_of_lt less 1
    rw [Nat.mul_one] at added
    exact added.symm
  have significand : m % 2 ^ 23 < 2 ^ 23 := mod_lt m (by positivity)
  have small : m / 2 ^ 23 ≤ 142 := by omega
  unfold floatToHalf
  simp only [sign, exponent, mant, sign', exponent', mant', zero_or]
  clear sign exponent mant sign' exponent' mant' mask8 mask23 bit15
  generalize m / 2 ^ 23 = e at small ⊢
  generalize m % 2 ^ 23 = r at significand ⊢
  have finite : ¬ e = 0xFF := by omega
  have bounded : ¬ (0x1F : Int) ≤ (e : Int) - 127 + 15 := by omega
  rw [if_neg finite, if_neg finite, if_neg bounded, if_neg bounded]
  by_cases subnormal : (e : Int) - 127 + 15 ≤ 0
  · rw [if_pos subnormal, if_pos subnormal]
    by_cases tiny : (e : Int) - 127 + 15 < -10
    · rw [if_pos tiny, if_pos tiny, Nat.add_zero]
    · have wide : 2 ^ 14 ≤ 2 ^ (14 - ((e : Int) - 127 + 15)).toNat :=
        Nat.pow_le_pow_right (by omega) (by omega)
      have few : (r ||| 0x800000) >>> (14 - ((e : Int) - 127 + 15)).toNat < 2 ^ 10 := by
        rw [or_leading significand, shiftRight_eq_div_pow, Nat.div_lt_iff_lt_mul (by positivity)]
        calc 2 ^ 23 + r < 2 ^ 10 * 2 ^ 14 := by omega
          _ ≤ _ := Nat.mul_le_mul_left _ wide
      rw [if_neg tiny, if_neg tiny, joined _ (by split <;> omega)]
  · have place : ((e : Int) - 127 + 15).toNat ≤ 30 := by omega
    have few : ((e : Int) - 127 + 15).toNat <<< 10 ||| r >>> 13 < 2 ^ 15 - 1 := by
      rw [joined_fields significand]
      omega
    rw [if_neg subnormal, if_neg subnormal, Nat.or_assoc, joined _ (by omega)]
    split <;> omega

theorem floatToHalf_lt (f : Nat) : floatToHalf f < 2 ^ 16 := by
  have sign : (f >>> 16) &&& 0x8000 < 2 ^ 16 := lt_of_le_of_lt and_le_right (by norm_num)
  have significand : f &&& 0x7FFFFF < 2 ^ 23 := lt_succ_of_le and_le_right
  unfold floatToHalf
  dsimp only
  generalize (f >>> 16) &&& 0x8000 = s at sign ⊢
  generalize f &&& 0x7FFFFF = m at significand ⊢
  generalize (((f >>> 23) &&& 0xFF : Nat) : Int) - 127 + 15 = x
  split
  · exact or_lt_two_pow (or_lt_two_pow sign (by norm_num)) (by split <;> norm_num)
  split
  · exact or_lt_two_pow sign (by norm_num)
  split
  · split
    · exact sign
    · refine or_lt_two_pow sign ?_
      have few : (m ||| 0x800000) >>> (14 - x).toNat < 2 ^ 10 := by
        have wide : 2 ^ 14 ≤ 2 ^ (14 - x).toNat := Nat.pow_le_pow_right (by omega) (by omega)
        rw [or_leading significand, shiftRight_eq_div_pow, Nat.div_lt_iff_lt_mul (by positivity)]
        calc 2 ^ 23 + m < 2 ^ 10 * 2 ^ 14 := by omega
          _ ≤ _ := Nat.mul_le_mul_left _ wide
      split <;> omega
  · split
    · exact mod_lt _ (by positivity)
    · rw [Nat.or_assoc, joined_fields significand]
      exact or_lt_two_pow sign (by omega)

/-- **A finite half that is widened narrows to itself.** -/
theorem floatToHalfSat_halfToFloat {h : Nat} (word : h < 2 ^ 16) (finite : h % 2 ^ 15 < 0x7C00) :
    floatToHalfSat (halfToFloat h) = h := by
  obtain ⟨bounded, units⟩ := singleUnits_halfToFloat finite
  have parts := halfToFloat_parts finite
  have exactly : floatToHalf (halfToFloat h % 2 ^ 31) = h % 2 ^ 15 :=
    floatToHalf_exact (by unfold kFp16Max at bounded; omega) units
  have signed := floatToHalf_signed (m := halfToFloat h % 2 ^ 31)
    (by unfold kFp16Max at bounded; omega)
  generalize halfToFloat h % 2 ^ 31 = m at *
  have within : saturateToFp16Range (halfToFloat h) = halfToFloat h := by
    have lowest : floatKey kFp16Lowest = -1199562752 := by decide
    have highest : floatKey kFp16Max = 1199562752 := by decide
    have key : -1199562752 ≤ floatKey (halfToFloat h) ∧ floatKey (halfToFloat h) ≤ 1199562752 := by
      unfold kFp16Max at bounded
      unfold floatKey
      rw [parts]
      split <;> omega
    have above : floatLess (halfToFloat h) kFp16Lowest = false := by
      rw [floatLess, lowest]
      simp [key.1]
    have below : floatLess kFp16Max (halfToFloat h) = false := by
      rw [floatLess, highest]
      simp [key.2]
    unfold saturateToFp16Range
    simp only [above, below, Bool.false_eq_true, if_false]
  rw [floatToHalfSat, within, parts]
  rcases mod_two_eq_zero_or_one (h / 2 ^ 15) with plus | minus
  · rw [plus, Nat.zero_mul, Nat.zero_add, exactly]
    omega
  · rw [minus, Nat.one_mul, signed, exactly]
    omega

end Vknn
