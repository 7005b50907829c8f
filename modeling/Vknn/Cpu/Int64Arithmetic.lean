import Mathlib.Data.UInt
import Vknn.Ir.Shape

/-!
# Powers and quotients of 64-bit integers

A power with a natural exponent is computed by squaring, over unsigned products that wrap; a
negative exponent gives the reciprocal, truncated toward zero.  A quotient avoids the two divisions
that trap.
-/

namespace Vknn.Cpu

def int64FromWrappedBits (bits : UInt64) : Int64 := bits.toInt64

def wrappingSubInt64 (a b : Int64) : Int64 := int64FromWrappedBits (a.toUInt64 - b.toUInt64)

/-- The division of the processor, which traps on a zero divisor and where the quotient is too
large. -/
def hardwareDiv (dividend divisor : Int64) : Option Int64 :=
  if divisor = 0 ∨ (dividend = Int64.minValue ∧ divisor = -1) then none
  else some (dividend / divisor)

def divideInt64 (dividend divisor : Int64) : Option Int64 :=
  if divisor = 0 then some 0
  else if divisor = -1 then some (wrappingSubInt64 0 dividend)
  else hardwareDiv dividend divisor

/-- One pass per significant exponent bit. -/
def powLoop (result squaredBase remainingPower : UInt64) : UInt64 :=
  if remainingPower ≠ 0 then
    powLoop (if remainingPower &&& 1 ≠ 0 then result * squaredBase else result)
      (squaredBase * squaredBase) (remainingPower >>> 1)
  else result
termination_by remainingPower.toNat
decreasing_by
  have positive : remainingPower.toNat ≠ 0 := fun none =>
    ‹remainingPower ≠ 0› (UInt64.toNat_inj.mp none)
  simp [Nat.shiftRight_eq_div_pow]
  omega

def powInt64 (base exponent : Int64) : Int64 :=
  if exponent < 0 then
    if base = 1 then 1
    else if base = -1 then if exponent % 2 ≠ 0 then -1 else 1
    else 0
  else int64FromWrappedBits (powLoop 1 base.toUInt64 exponent.toUInt64)

/-! ## Powers -/

theorem bit_eq (n : UInt64) : n &&& 1 ≠ 0 ↔ n.toNat % 2 = 1 := by
  rw [Ne, ← UInt64.toNat_inj, UInt64.toNat_and]
  simp [Nat.and_one_is_mod]

/-- **The loop multiplies the result by a power of the base.** -/
theorem powLoop_eq (result squaredBase remainingPower : UInt64) :
    powLoop result squaredBase remainingPower = result * squaredBase ^ remainingPower.toNat := by
  fun_induction powLoop result squaredBase remainingPower with
  | case1 result squaredBase remainingPower more ih =>
    have halved : (remainingPower >>> 1).toNat = remainingPower.toNat / 2 := by
      simp [Nat.shiftRight_eq_div_pow]
    have split := Nat.div_add_mod remainingPower.toNat 2
    simp only [dite_eq_ite] at ih
    rw [ih, halved, ← pow_two, ← pow_mul]
    by_cases odd : remainingPower &&& 1 ≠ 0
    · rw [if_pos odd]
      rw [(bit_eq _).mp odd] at split
      conv_rhs => rw [← split, pow_succ']
      rw [mul_assoc]
    · rw [if_neg odd]
      have even : remainingPower.toNat % 2 = 0 := by
        have := mt (bit_eq _).mpr odd
        omega
      rw [even] at split
      conv_rhs => rw [← split, Nat.add_zero]
  | case2 result squaredBase remainingPower done =>
    rw [not_not.mp done, UInt64.toNat_zero, pow_zero, mul_one]

theorem toInt_pow (base : Int64) (e : Nat) :
    (base.toUInt64 ^ e).toInt64.toInt = wrap64 (base.toInt ^ e) := by
  induction e with
  | zero =>
    rw [pow_zero, pow_zero]
    rfl
  | succ e ih =>
    rw [pow_succ, UInt64.toInt64_mul, Int64.toInt_mul, ih, Int64.toInt64_toUInt64, wrap64,
      Int.bmod_mul_bmod, ← wrap64, pow_succ]

/-- The reciprocal of a power of an integer is zero when truncated, but where the base is a unit. -/
theorem tdiv_pow (b : Int) {e : Nat} (more : e ≠ 0) :
    Int.tdiv 1 (b ^ e) = if b = 1 then 1 else if b = -1 then if e % 2 = 1 then -1 else 1 else 0 := by
  split
  case isTrue one => rw [one, one_pow, Int.tdiv_one]
  case isFalse one =>
    split
    case isTrue unit =>
      rw [unit]
      split
      case isTrue odd => rw [Odd.neg_one_pow (Nat.odd_iff.mpr odd)]; rfl
      case isFalse even => rw [Even.neg_one_pow (Nat.even_iff.mpr (by omega))]; rfl
    case isFalse unit =>
      rcases eq_or_ne b 0 with rfl | some_
      · rw [zero_pow more, Int.tdiv_zero]
      · have large : 1 < (b ^ e).natAbs := by
          rw [Int.natAbs_pow]
          exact Nat.one_lt_pow more (by omega)
        rcases le_total 0 (b ^ e) with low | high
        · exact Int.tdiv_eq_zero_of_lt one_pos.le (by omega)
        · rw [← neg_neg (b ^ e), Int.tdiv_neg, neg_eq_zero]
          exact Int.tdiv_eq_zero_of_lt one_pos.le (by omega)

/-- A power modulo `2 ^ 64` for a natural exponent, else the reciprocal truncated toward zero. -/
theorem powInt64_eq (base exponent : Int64) : (powInt64 base exponent).toInt =
      if 0 ≤ exponent.toInt then wrap64 (base.toInt ^ exponent.toInt.toNat)
      else Int.tdiv 1 (base.toInt ^ exponent.toInt.natAbs) := by
  rw [powInt64]
  by_cases negative : exponent < 0
  · have below : exponent.toInt < 0 := Int64.lt_iff_toInt_lt.mp negative
    have one : base = 1 ↔ base.toInt = 1 := Int64.toInt_inj.symm
    have unit : base = -1 ↔ base.toInt = -1 := Int64.toInt_inj.symm
    have parity : exponent % 2 ≠ 0 ↔ exponent.toInt.natAbs % 2 = 1 := by
      rw [Ne, ← Int64.toInt_inj, Int64.toInt_mod]
      change ¬exponent.toInt.tmod 2 = 0 ↔ _
      rw [← Int.dvd_iff_tmod_eq_zero]
      omega
    rw [if_pos negative, if_neg (not_le.mpr below), tdiv_pow _ (by omega)]
    simp only [one, unit, parity]
    split_ifs <;> rfl
  · have above : 0 ≤ exponent := Int64.not_lt.mp negative
    have low : 0 ≤ exponent.toInt := Int64.le_iff_toInt_le.mp above
    rw [if_neg negative, if_pos low, int64FromWrappedBits, powLoop_eq,
      Int64.toNat_toUInt64_of_le above, ← Int64.toNat_toInt, one_mul, toInt_pow]

/-! ## Quotients -/

/-- The division never traps, and the quotient is the truncated one, which is too large for the
least dividend and the divisor `-1` only. -/
theorem divideInt64_eq (dividend divisor : Int64) :
    ∃ q, divideInt64 dividend divisor = some q ∧ (divisor ≠ 0 →
      q.toInt = wrap64 (dividend.toInt.tdiv divisor.toInt) ∧
        (¬(dividend = Int64.minValue ∧ divisor = -1) →
          q.toInt = dividend.toInt.tdiv divisor.toInt)) := by
  have fits (other : ¬(dividend = Int64.minValue ∧ divisor = -1)) :
      (dividend / divisor).toInt = dividend.toInt.tdiv divisor.toInt := by
    rcases not_and_or.mp other with above | unit
    · exact Int64.toInt_div_of_ne_left _ _ above
    · exact Int64.toInt_div_of_ne_right _ _ unit
  rw [divideInt64]
  by_cases zero : divisor = 0
  · exact ⟨0, if_pos zero, fun other => absurd zero other⟩
  rw [if_neg zero]
  refine ⟨dividend / divisor, ?_, fun _ => ⟨Int64.toInt_div _ _, fits⟩⟩
  by_cases unit : divisor = -1
  · have negated : wrappingSubInt64 0 dividend = dividend / -1 := by
      rw [← Int64.toInt_inj, Int64.toInt_div, wrappingSubInt64, int64FromWrappedBits,
        UInt64.toInt64_sub, Int64.toInt64_toUInt64, Int64.toInt64_toUInt64, Int64.toInt_sub]
      change (0 - dividend.toInt).bmod _ = (dividend.toInt.tdiv (-1)).bmod _
      rw [Int.tdiv_neg, Int.tdiv_one, Int.zero_sub]
    rw [if_pos unit, unit, negated]
  · rw [if_neg unit, hardwareDiv, if_neg]
    rintro (none | ⟨-, same⟩)
    · exact zero none
    · exact unit same

/-- **The power of any base to any exponent, and the quotient by any divisor.** -/
theorem int64_arithmetic_exact : (∀ base exponent : Int64, (powInt64 base exponent).toInt =
      if 0 ≤ exponent.toInt then wrap64 (base.toInt ^ exponent.toInt.toNat)
      else Int.tdiv 1 (base.toInt ^ exponent.toInt.natAbs)) ∧
      ∀ dividend divisor : Int64, ∃ q, divideInt64 dividend divisor = some q ∧ (divisor ≠ 0 →
        q.toInt = wrap64 (dividend.toInt.tdiv divisor.toInt) ∧
          (¬(dividend = Int64.minValue ∧ divisor = -1) →
            q.toInt = dividend.toInt.tdiv divisor.toInt)) :=
  ⟨powInt64_eq, divideInt64_eq⟩

end Vknn.Cpu
