import Mathlib.Algebra.Order.Field.Basic
import Vknn.Ir.Graph
import Vknn.Ir.HalfRounding

/-!
# Values of numbers, and casts

The value of a finite number in single precision is a rational; so is that of a number in
double precision.  Both formats round to the nearest number they hold, of two to the even
one, and single precision takes what is beyond its largest number for infinite.

The product of a code of eight bits and a number in single precision is exact in double
precision.  Cast back to single precision it is off by less than half the number.
-/

namespace Vknn

open GridRounding Nat

/-! ## Values -/

/-- The pattern of infinity, and how many of the units of a format make one. -/
def kFp32Inf : Nat := 0x7F800000
def kFp32Exponent : Nat := 149
def kDoubleExponent : Nat := 1074
def kFp32Unit : Nat := 2 ^ kFp32Exponent
def kDoubleUnit : Nat := 2 ^ kDoubleExponent

def magnitude (x : Float32Bits) : Nat := x.bits.toNat % 2 ^ 31

def FiniteFloat (x : Float32Bits) : Prop := magnitude x < kFp32Inf

instance (x : Float32Bits) : Decidable (FiniteFloat x) := inferInstanceAs (Decidable (_ < _))

def floatValue (x : Float32Bits) : ℚ :=
  let m : ℚ := singleUnits (magnitude x) / kFp32Unit
  if x.bits.toNat < 2 ^ 31 then m else -m

def floatMax : ℚ := grid 23 (kFp32Inf - 1) / kFp32Unit

/-! ## Rounding -/

/-- The number in double precision that is nearest to a rational. -/
def castDouble (q : ℚ) : ℚ :=
  let m : ℚ := grid 52 (roundQuotient 52 (q.num.natAbs * kDoubleUnit) q.den) / kDoubleUnit
  if q < 0 then -m else m

/-- The number in single precision that is nearest to a rational. -/
def castFloat (q : ℚ) : Float32Bits :=
  let m := min (roundQuotient 23 (q.num.natAbs * kFp32Unit) q.den) kFp32Inf
  ⟨.ofNat (if q < 0 then 2 ^ 31 + m else m)⟩

theorem kFp32Unit_pos : 0 < kFp32Unit := Nat.two_pow_pos kFp32Exponent

theorem kDoubleUnit_pos : 0 < kDoubleUnit := Nat.two_pow_pos kDoubleExponent

theorem kDoubleUnit_eq : kDoubleUnit = 2 ^ (kDoubleExponent - kFp32Exponent) * kFp32Unit := by
  have total : kDoubleExponent = kDoubleExponent - kFp32Exponent + kFp32Exponent := rfl
  rw [kDoubleUnit, kFp32Unit, ← Nat.pow_add, ← total]

/-- The numerator of a rational that is some number of units. -/
theorem natAbs_num_mul {q : ℚ} {n unit : Nat} (units : |q| * unit = n) :
    q.num.natAbs * unit = n * q.den := by
  have den : (q.den : ℚ) ≠ 0 := cast_ne_zero.mpr q.den_nz
  have num : (q.num.natAbs : ℚ) = |q| * q.den := by
    have value : |q| = |(q.num : ℚ)| / q.den := by rw [← abs_cast q.den, ← abs_div, Rat.num_div_den]
    rw [cast_natAbs, Int.cast_abs, value, div_mul_cancel₀ _ den]
  have scaled : (q.num.natAbs : ℚ) * unit = n * q.den := by
    rw [num, ← units]
    ring
  exact_mod_cast scaled

theorem nearest_units {p : Nat} (stored : 0 < p) {q : ℚ} {n unit : Nat}
    (units : |q| * unit = n) :
    NearestEven (grid p) n 1 (roundQuotient p (q.num.natAbs * unit) q.den) := by
  have nearest := nearestEven_roundQuotient (n := q.num.natAbs * unit) stored q.den_pos
  rw [natAbs_num_mul units] at nearest ⊢
  refine (nearestEven_scale q.den_pos).mp ?_
  rwa [Nat.one_mul]

/-- **A number that double precision holds is not rounded.** -/
theorem castDouble_exact {q : ℚ} {c k : Nat} (small : c < 2 ^ 53)
    (units : |q| * kDoubleUnit = (c * 2 ^ k : Nat)) : castDouble q = q := by
  obtain ⟨b, held⟩ := exists_grid (p := 52) k small
  have place := (nearest_units (by omega) units).eq_of_exact (strictMono_grid 52) Nat.one_pos
    ((Nat.one_mul _).trans held)
  have value : ((grid 52 (roundQuotient 52 (q.num.natAbs * kDoubleUnit) q.den) : Nat) : ℚ) /
      kDoubleUnit = |q| := by
    rw [place, held, ← units, mul_div_cancel_right₀ _ (cast_ne_zero.mpr kDoubleUnit_pos.ne')]
  rw [castDouble, value]
  split_ifs with sign
  · rw [abs_of_neg sign, neg_neg]
  · exact abs_of_nonneg (not_lt.mp sign)

/-! ## The cast to single precision -/

theorem magnitude_castFloat (q : ℚ) : magnitude (castFloat q) =
    min (roundQuotient 23 (q.num.natAbs * kFp32Unit) q.den) kFp32Inf := by
  rw [magnitude, castFloat]
  generalize roundQuotient 23 (q.num.natAbs * kFp32Unit) q.den = h
  have bounded : min h kFp32Inf ≤ 0x7F800000 := Nat.min_le_right h kFp32Inf
  dsimp only
  rw [UInt32.toNat_ofNat']
  split_ifs <;> omega

theorem sign_castFloat (q : ℚ) : (castFloat q).bits.toNat < 2 ^ 31 ↔ ¬ q < 0 := by
  rw [castFloat]
  generalize roundQuotient 23 (q.num.natAbs * kFp32Unit) q.den = h
  have bounded : min h kFp32Inf ≤ 0x7F800000 := Nat.min_le_right h kFp32Inf
  dsimp only
  rw [UInt32.toNat_ofNat']
  split_ifs with sign
  · simp only [sign, not_true_eq_false, iff_false, not_lt]
    omega
  · simp only [sign, not_false_eq_true, iff_true]
    omega

/-- **A code times a number is cast to less than half the number away, or it is beyond the largest
number.** -/
theorem castFloat_product {q : ℚ} {k b : Nat} (small : k < 2 ^ 23) (positive : 0 < grid 23 b)
    (units : |q| * kFp32Unit = (k * grid 23 b : Nat)) :
    FiniteFloat (castFloat q) ∧ |floatValue (castFloat q) - q| < (grid 23 b : ℚ) / kFp32Unit / 2 ∨
      ¬ FiniteFloat (castFloat q) ∧ floatMax < |q| := by
  have unit : (0 : ℚ) < kFp32Unit := cast_pos.mpr kFp32Unit_pos
  have nearest := nearest_units (p := 23) (by omega) units
  have size := magnitude_castFloat q
  have sign := sign_castFloat q
  unfold FiniteFloat
  generalize roundQuotient 23 (q.num.natAbs * kFp32Unit) q.den = h at nearest size
  have whole : |q| = (k * grid 23 b : Nat) / kFp32Unit := by
    rw [← units, mul_div_cancel_right₀ _ unit.ne']
  rcases Nat.lt_or_ge h kFp32Inf with finite | infinite
  · left
    rw [min_eq_left finite.le] at size
    refine ⟨size ▸ finite, ?_⟩
    have error := product_error small positive nearest
    have distance : |((grid 23 h : Nat) : ℚ) - (k * grid 23 b : Nat)| * 2 < (grid 23 b : Nat) := by
      have close := (cast_lt (α := ℚ)).mpr error
      have split : ((Nat.dist (grid 23 h) (k * grid 23 b) : Nat) : ℚ) =
          |((grid 23 h : Nat) : ℚ) - (k * grid 23 b : Nat)| := by
        unfold Nat.dist
        rcases le_total (grid 23 h) (k * grid 23 b) with le | le
        · rw [Nat.sub_eq_zero_of_le le, Nat.zero_add, cast_sub le, abs_sub_comm,
            abs_of_nonneg (sub_nonneg.mpr (cast_le.mpr le))]
        · rw [Nat.sub_eq_zero_of_le le, Nat.add_zero, cast_sub le,
            abs_of_nonneg (sub_nonneg.mpr (cast_le.mpr le))]
      rw [cast_mul, split, cast_ofNat] at close
      linarith
    have value : |floatValue (castFloat q) - q| =
        |((grid 23 h : Nat) : ℚ) - (k * grid 23 b : Nat)| / kFp32Unit := by
      rw [floatValue, size, singleUnits]
      by_cases negative : q < 0
      · rw [if_neg (fun low => sign.mp low negative), ← abs_of_pos unit, ← abs_div, abs_of_pos unit]
        rw [abs_of_neg negative] at whole
        rw [show q = -((k * grid 23 b : Nat) / kFp32Unit) by rw [← whole, neg_neg], sub_neg_eq_add,
          neg_add_eq_sub, ← sub_div, ← abs_neg, ← neg_div, neg_sub]
      · rw [if_pos (sign.mpr negative)]
        rw [abs_of_nonneg (not_lt.mp negative)] at whole
        rw [whole, ← sub_div, abs_div, abs_of_pos unit]
    rw [value, div_div, mul_comm (kFp32Unit : ℚ), ← div_div]
    refine div_lt_div_of_pos_right ?_ unit
    linarith
  · right
    rw [min_eq_right infinite] at size
    refine ⟨size ▸ lt_irrefl _, ?_⟩
    have beyond := nearest.lt_of_lt (strictMono_grid 23) (b := kFp32Inf - 1) (by
      unfold kFp32Inf at infinite ⊢
      omega)
    rw [floatMax, whole]
    exact div_lt_div_of_pos_right (cast_lt.mpr beyond) unit

end Vknn
