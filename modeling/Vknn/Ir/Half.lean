import Mathlib.Tactic.Linarith

/-!
# Single and half precision as bits

A number is its pattern of 32 or 16 bits.  Widening is exact.  There are two
narrowings that differ on ties alone: one looks only at the top one of the
dropped bits, so that a tie goes away from zero; the other, which the device's
helper has a copy of, takes a tie to the even neighbour.
-/

namespace Vknn

/-! ## Comparing -/

def isNan (f : Nat) : Bool := 0x7F800000 < f &&& 0x7FFFFFFF

/-- A number that orders the patterns that are no NaN as the numbers they stand for. -/
def floatKey (f : Nat) : Int := if f < 0x80000000 then f else 0x80000000 - (f : Int)

/-- The comparison of two numbers; none holds of a NaN. -/
def floatLess (a b : Nat) : Bool := !isNan a && !isNan b && floatKey a < floatKey b

/-- The pattern of 65504, the largest finite half, and of its negative. -/
def kFp16Max : Nat := 0x477FE000
def kFp16Lowest : Nat := 0xC77FE000

/-! ## Widening -/

/-- Shift a subnormal significand up until its leading bit is that of a normal one. -/
def normalizeHalf : Nat → Nat → Nat → Nat × Nat
  | 0, mant, exp => (mant, exp)
  | fuel + 1, mant, exp =>
    if mant &&& 0x400 = 0 then normalizeHalf fuel (mant <<< 1) (exp - 1) else (mant, exp)

def halfToFloat (h : Nat) : Nat :=
  let sign := (h &&& 0x8000) <<< 16
  let exp := (h >>> 10) &&& 0x1F
  let mant := h &&& 0x3FF
  if exp = 0 then
    if mant = 0 then sign
    else
      -- ten rounds are enough: the significand is not zero
      let shifted := normalizeHalf 10 mant (127 - 15 + 1)
      sign ||| (shifted.2 <<< 23) ||| ((shifted.1 &&& 0x3FF) <<< 13)
  else if exp = 0x1F then sign ||| 0x7F800000 ||| (mant <<< 13)
  else sign ||| ((exp + 127 - 15) <<< 23) ||| (mant <<< 13)

/-! ## Narrowing -/

/-- Narrow to half precision; a halfway value goes away from zero. -/
def floatToHalf (f : Nat) : Nat :=
  let sign := (f >>> 16) &&& 0x8000
  let exp : Int := (((f >>> 23) &&& 0xFF : Nat) : Int) - 127 + 15
  let mant := f &&& 0x7FFFFF
  if (f >>> 23) &&& 0xFF = 0xFF then sign ||| 0x7C00 ||| (if mant ≠ 0 then 0x200 else 0)
  else if 0x1F ≤ exp then sign ||| 0x7C00
  else if exp ≤ 0 then
    if exp < -10 then sign
    else
      let mant := mant ||| 0x800000
      let shift := (14 - exp).toNat
      let half := mant >>> shift
      let half := if (mant >>> (shift - 1)) &&& 1 ≠ 0 then half + 1 else half
      sign ||| half
  else
    let out := sign ||| (exp.toNat <<< 10) ||| (mant >>> 13)
    if mant &&& 0x1000 ≠ 0 then (out + 1) % 2 ^ 16 else out

/-- Narrow to half precision; a halfway value goes to its even neighbour. -/
def floatToHalfRteBits (f : Nat) : Nat :=
  let sign := (f >>> 16) &&& 0x8000
  let exp := (f >>> 23) &&& 0xFF
  let mant := f &&& 0x7FFFFF
  if exp = 255 then sign ||| 0x7C00 ||| (if mant ≠ 0 then 0x200 else 0)
  else
    let rebased : Int := (exp : Int) - 112
    if 31 ≤ rebased then sign ||| 0x7C00
    else if rebased ≤ 0 then
      if rebased < -10 then sign
      else
        let mant := mant ||| 0x800000
        let shift := (14 - rebased).toNat
        let half := mant >>> shift
        let rem := mant &&& ((1 <<< shift) - 1)
        let halfway := 1 <<< (shift - 1)
        let half := if halfway < rem ∨ rem = halfway ∧ half &&& 1 = 1 then half + 1 else half
        sign ||| half
    else
      let half := (rebased.toNat <<< 10) ||| (mant >>> 13)
      let rem := mant &&& 0x1FFF
      let half := if 0x1000 < rem ∨ rem = 0x1000 ∧ half &&& 1 = 1 then half + 1 else half
      sign ||| half

/-- Clamp to the finite range of half precision; a NaN passes. -/
def saturateToFp16Range (f : Nat) : Nat :=
  let atLeast := if floatLess f kFp16Lowest then kFp16Lowest else f
  if floatLess kFp16Max atLeast then kFp16Max else atLeast

def floatToHalfSat (f : Nat) : Nat := floatToHalf (saturateToFp16Range f)

/-- The vector conversion of the host: it clamps from above first, rounds a tie to even, and keeps
the leading payload bits of a NaN. -/
def vcvtSat (f : Nat) : Nat :=
  if isNan f then ((f >>> 16) &&& 0x8000) ||| 0x7E00 ||| ((f &&& 0x7FFFFF) >>> 13)
  else
    let atMost := if floatLess kFp16Max f then kFp16Max else f
    floatToHalfRteBits (if floatLess atMost kFp16Lowest then kFp16Lowest else atMost)

theorem floatToHalfSat_zero : floatToHalfSat 0 = 0 := by decide

theorem vcvtSat_zero : vcvtSat 0 = 0 := by decide

end Vknn
