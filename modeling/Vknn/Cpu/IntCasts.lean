import Vknn.Core.KvQuant
import Vknn.Cpu.Storage

/-!
# Casts to integers and back

The host casts a number to an integer of 64 bits, whatever integer type is asked for:
it drops the fraction, and a number outside the range becomes the end of the range.
The cast back rounds to the nearest number.

In the range nothing is rounded, so that the two casts drop the fraction.  They do not
keep what an integer cannot hold: a number from `2 ^ 63` on, and the sign of a zero.
-/

namespace Vknn.Cpu

open GridRounding KvQuant List

/-! ## The kernels -/

/-- The pattern of `2 ^ 63`, and that of its negative. -/
def kInt64RangeEndFp32 : Nat := 0x5F000000
def kInt64RangeStartFp32 : Nat := 0xDF000000

def int64Max : Int := 2 ^ 63 - 1
def int64Min : Int := -2 ^ 63

/-- The cast of a number to an integer, away from the ends of the range. -/
def int64OfFp32 (value : Nat) : Int :=
  let magnitude : Int := (singleUnits (fabs value) / 2 ^ 149 : Nat)
  if value < 0x80000000 then magnitude else -magnitude

def int64FromFp32Operand (value : Nat) : Int :=
  if isNan value then 0
  else if !floatLess value kInt64RangeEndFp32 then int64Max
  else if !floatLess kInt64RangeStartFp32 value then int64Min
  else int64OfFp32 value

/-- The cast of an integer of 64 bits to the nearest number. -/
def fp32FromInt64 (value : Int) : Nat :=
  let magnitude := roundQuotient 23 (value.natAbs * 2 ^ 149) 1
  if value < 0 then 0x80000000 + magnitude else magnitude

/-- Drop the fraction of a number, and keep its sign. -/
def truncFp32 (x : Nat) : Nat :=
  let exponent := (x >>> 23) &&& 0xFF
  if exponent < 127 then x &&& 0x80000000
  else if exponent < 150 then (x >>> (150 - exponent)) <<< (150 - exponent)
  else x

/-! ## Signs -/

variable {a x : Nat}

theorem sign_cases (word : x < 2 ^ 32) : fabs x < 2 ^ 31 ∧ (x = fabs x ∨ x = 2 ^ 31 + fabs x) := by
  rw [fabs_eq_mod]
  omega

theorem exponent_eq (x : Nat) : (x >>> 23) &&& 0xFF = x / 2 ^ 23 % 2 ^ 8 := by
  rw [Nat.shiftRight_eq_div_pow]
  exact and_mask _ 8

theorem truncFp32_eq (magnitude : a < 2 ^ 31) : truncFp32 a = if a / 2 ^ 23 < 127 then 0
    else if a / 2 ^ 23 < 150 then a / 2 ^ (150 - a / 2 ^ 23) * 2 ^ (150 - a / 2 ^ 23) else a := by
  have exponent : (a >>> 23) &&& 0xFF = a / 2 ^ 23 := by
    rw [exponent_eq]
    omega
  have sign : a &&& 0x80000000 = a / 2 ^ 31 % 2 * 2 ^ 31 := and_bit a 31
  have none_ : a / 2 ^ 31 = 0 := Nat.div_eq_of_lt magnitude
  unfold truncFp32
  simp only [exponent, sign, none_]
  simp only [Nat.shiftRight_eq_div_pow, Nat.shiftLeft_eq, Nat.zero_mod, Nat.zero_mul]

theorem truncFp32_sign (magnitude : a < 2 ^ 31) :
    truncFp32 (2 ^ 31 + a) = 2 ^ 31 + truncFp32 a := by
  have exponent : ((2 ^ 31 + a) >>> 23) &&& 0xFF = a / 2 ^ 23 := by
    rw [exponent_eq]
    omega
  have sign : (2 ^ 31 + a) &&& 0x80000000 = (2 ^ 31 + a) / 2 ^ 31 % 2 * 2 ^ 31 := and_bit _ 31
  have one : (2 ^ 31 + a) / 2 ^ 31 = 1 := by omega
  rw [truncFp32_eq magnitude]
  unfold truncFp32
  simp only [exponent, sign, one]
  simp only [Nat.shiftRight_eq_div_pow, Nat.shiftLeft_eq]
  generalize a / 2 ^ 23 = e
  by_cases small : e < 127
  · rw [if_pos small, if_pos small]
    rfl
  rw [if_neg small, if_neg small]
  by_cases fraction : e < 150
  · have whole : 2 ^ (150 - e) * 2 ^ (31 - (150 - e)) = 2 ^ 31 := by
      have total : 150 - e + (31 - (150 - e)) = 31 := by omega
      rw [← Nat.pow_add, total]
    rw [if_pos fraction, if_pos fraction, ← whole, Nat.mul_add_div (by positivity), Nat.add_mul,
      Nat.mul_comm (2 ^ (31 - (150 - e)))]
  · rw [if_neg fraction, if_neg fraction]

/-! ## Dropping the fraction -/

/-- **What is left of a magnitude is its whole units.** -/
theorem singleUnits_truncFp32 (magnitude : a < 2 ^ 31) :
    singleUnits (truncFp32 a) = singleUnits a / 2 ^ 149 * 2 ^ 149 := by
  have significand : a % 2 ^ 23 < 2 ^ 23 := Nat.mod_lt a (by positivity)
  have parts : a / 2 ^ 23 * 2 ^ 23 + a % 2 ^ 23 = a := Nat.div_add_mod' a (2 ^ 23)
  rw [truncFp32_eq magnitude]
  generalize a / 2 ^ 23 = e at parts ⊢
  generalize a % 2 ^ 23 = m at parts significand
  subst parts
  have units : singleUnits (e * 2 ^ 23 + m) = (m + if e = 0 then 0 else 2 ^ 23) * 2 ^ (e - 1) :=
    grid_parts significand
  by_cases small : e < 127
  · -- less than one
    have scale : 2 ^ (e - 1) ≤ 2 ^ 125 := Nat.pow_le_pow_right (by omega) (by omega)
    have bounded : (m + if e = 0 then 0 else 2 ^ 23) < 2 ^ 24 := by split <;> omega
    have below : (m + if e = 0 then 0 else 2 ^ 23) * 2 ^ (e - 1) < 2 ^ 149 :=
      calc (m + if e = 0 then 0 else 2 ^ 23) * 2 ^ (e - 1)
          ≤ (m + if e = 0 then 0 else 2 ^ 23) * 2 ^ 125 := Nat.mul_le_mul_left _ scale
        _ < 2 ^ 24 * 2 ^ 125 := Nat.mul_lt_mul_of_pos_right bounded (by positivity)
        _ = 2 ^ 149 := (Nat.pow_add 2 24 125).symm
    rw [if_pos small, units, Nat.div_eq_of_lt below, Nat.zero_mul]
    rfl
  rw [if_neg small]
  rw [if_neg (by omega)] at units
  by_cases fraction : e < 150
  · have unit : 2 ^ 149 = 2 ^ (150 - e) * 2 ^ (e - 1) := by
      have total : 149 = 150 - e + (e - 1) := by omega
      exact (congrArg (2 ^ ·) total).trans (Nat.pow_add 2 _ _)
    have whole : 2 ^ 23 = 2 ^ (150 - e) * 2 ^ (e - 127) := by
      have total : 23 = 150 - e + (e - 127) := by omega
      exact (congrArg (2 ^ ·) total).trans (Nat.pow_add 2 _ _)
    have dropped : m / 2 ^ (150 - e) * 2 ^ (150 - e) ≤ m := Nat.div_mul_le_self _ _
    have cut : (e * 2 ^ 23 + m) / 2 ^ (150 - e) * 2 ^ (150 - e) =
        e * 2 ^ 23 + m / 2 ^ (150 - e) * 2 ^ (150 - e) := by
      rw [whole, ← Nat.mul_assoc, Nat.mul_right_comm, Nat.mul_comm (e * _),
        Nat.mul_add_div (by positivity), Nat.add_mul]
      ring
    have cut' : (m + 2 ^ 23) / 2 ^ (150 - e) * 2 ^ (150 - e) =
        m / 2 ^ (150 - e) * 2 ^ (150 - e) + 2 ^ 23 := by
      rw [whole, Nat.add_mul_div_left _ _ (by positivity), Nat.add_mul, Nat.mul_comm (2 ^ (e - 127))]
    rw [if_pos fraction, units, cut]
    have units' : singleUnits (e * 2 ^ 23 + m / 2 ^ (150 - e) * 2 ^ (150 - e)) =
        (m / 2 ^ (150 - e) * 2 ^ (150 - e) + if e = 0 then 0 else 2 ^ 23) * 2 ^ (e - 1) :=
      grid_parts (dropped.trans_lt significand)
    rw [units', if_neg (by omega), unit, Nat.mul_div_mul_right _ _ (by positivity), ← Nat.mul_assoc,
      cut']
  · have unit : 2 ^ (e - 1) = 2 ^ 149 * 2 ^ (e - 150) := by
      have total : e - 1 = 149 + (e - 150) := by omega
      exact (congrArg (2 ^ ·) total).trans (Nat.pow_add 2 _ _)
    rw [if_neg fraction, units, unit, Nat.mul_left_comm, Nat.mul_div_cancel_left _ (by positivity),
      Nat.mul_comm]

/-- **The cast back of whole units** is what is left without the fraction. -/
theorem fp32FromInt64_units (magnitude : a < 2 ^ 31) :
    roundQuotient 23 (singleUnits a / 2 ^ 149 * 2 ^ 149) 1 = truncFp32 a := by
  refine (nearestEven_roundQuotient (by omega) one_pos).eq_of_exact (strictMono_grid 23) one_pos ?_
  rw [Nat.one_mul]
  exact singleUnits_truncFp32 magnitude

theorem units_eq_zero_iff (a : Nat) : singleUnits a / 2 ^ 149 = 0 ↔ a < 0x3F800000 := by
  have one : singleUnits 0x3F800000 = 2 ^ 149 := by decide
  rw [Nat.div_eq_zero_iff_lt (by positivity), ← one]
  exact (strictMono_grid 23).lt_iff_lt

/-! ## The two casts -/

/-- The cast of a number to an integer, by its magnitude and its sign. -/
theorem int64FromFp32Operand_eq (word : x < 2 ^ 32) : int64FromFp32Operand x =
    if kInf < fabs x then 0
    else if kInt64RangeEndFp32 ≤ fabs x then if x < 2 ^ 31 then int64Max else int64Min
    else int64OfFp32 x := by
  obtain ⟨small, sign⟩ := sign_cases word
  have nan : isNan x = decide (kInf < fabs x) := rfl
  have ends : isNan kInt64RangeEndFp32 = false ∧ isNan kInt64RangeStartFp32 = false ∧
      floatKey kInt64RangeEndFp32 = 0x5F000000 ∧ floatKey kInt64RangeStartFp32 = -0x5F000000 := by
    decide
  obtain ⟨end_, start, endKey, startKey⟩ := ends
  have key : floatKey x = if x < 2 ^ 31 then (fabs x : Int) else -(fabs x : Int) := by
    unfold floatKey
    rcases sign with positive | negative
    · rw [if_pos (by omega), if_pos (by omega), ← positive]
    · rw [if_neg (by omega), if_neg (by omega)]
      omega
  unfold int64FromFp32Operand floatLess
  rw [nan, end_, start, endKey, startKey, key]
  by_cases no_number : kInf < fabs x
  · rw [if_pos (decide_eq_true no_number), if_pos no_number]
  have number : decide (kInf < fabs x) = false := decide_eq_false no_number
  rw [number, if_neg no_number, if_neg Bool.false_ne_true]
  simp only [Bool.not_false, Bool.true_and, Bool.not_eq_true', decide_eq_false_iff_not]
  have end__ : kInt64RangeEndFp32 = 0x5F000000 := rfl
  rw [end__]
  generalize int64OfFp32 x = inside
  generalize fabs x = a at small
  by_cases positive : x < 2 ^ 31
  · rw [if_pos positive, if_pos positive]
    by_cases beyond : 0x5F000000 ≤ a
    · rw [if_pos (by omega), if_pos beyond]
    · rw [if_neg (by omega), if_neg (by omega), if_neg beyond]
  · rw [if_neg positive, if_neg positive]
    by_cases beyond : 0x5F000000 ≤ a
    · rw [if_neg (by omega), if_pos (by omega), if_pos beyond]
    · rw [if_neg (by omega), if_neg (by omega), if_neg beyond]

theorem fp32FromInt64_ends : fp32FromInt64 int64Max = kInt64RangeEndFp32 ∧
    fp32FromInt64 int64Min = kInt64RangeStartFp32 := by
  decide

/-- **A magnitude that is below the range survives both casts** without its fraction. -/
theorem fp32FromInt64_magnitude (magnitude : a < 2 ^ 31) :
    fp32FromInt64 (singleUnits a / 2 ^ 149 : Nat) = truncFp32 a := by
  rw [← fp32FromInt64_units magnitude, fp32FromInt64, if_neg (by omega), Int.natAbs_natCast]

/-- A negative number keeps its sign where an integer is left. -/
theorem fp32FromInt64_negative (magnitude : a < 2 ^ 31) :
    fp32FromInt64 (-(singleUnits a / 2 ^ 149 : Nat)) =
      if a < 0x3F800000 then 0 else 2 ^ 31 + truncFp32 a := by
  rw [fp32FromInt64, Int.natAbs_neg, Int.natAbs_natCast, fp32FromInt64_units magnitude]
  by_cases less : a < 0x3F800000
  · have zero := (units_eq_zero_iff a).mpr less
    rw [zero, if_neg (by decide), if_pos less, ← fp32FromInt64_units magnitude, zero]
    decide
  · have some_ := mt (units_eq_zero_iff a).mp less
    rw [if_pos (by omega), if_neg less]
    simp only [Nat.reducePow]

theorem truncFp32_whole (magnitude : a < 2 ^ 31) (large : 150 ≤ a / 2 ^ 23) : truncFp32 a = a := by
  rw [truncFp32_eq magnitude, if_neg (by omega), if_neg (by omega)]

/-- What an integer of 64 bits can hold of a number: its magnitude is at most `2 ^ 63`, and it is no
negative number, and no negative zero, that is less than one in magnitude. -/
def SurvivesCasts (x : Nat) : Prop :=
  fabs x ≤ kInt64RangeEndFp32 ∧ ¬ (0x80000000 ≤ x ∧ fabs x < 0x3F800000)

instance (x : Nat) : Decidable (SurvivesCasts x) := inferInstanceAs (Decidable (_ ∧ ¬ _))

/-- **The two casts drop the fraction of a number, and nothing else, exactly when** an integer can
hold what is left. -/
theorem casts_eq_trunc_iff (word : x < 2 ^ 32) :
    fp32FromInt64 (int64FromFp32Operand x) = truncFp32 x ↔ SurvivesCasts x := by
  obtain ⟨small, sign⟩ := sign_cases word
  obtain ⟨maxBack, minBack⟩ := fp32FromInt64_ends
  have zeroBack : fp32FromInt64 0 = 0 := by decide
  have large : kInt64RangeEndFp32 ≤ fabs x → truncFp32 x = x := by
    intro beyond
    have whole := truncFp32_whole small (by unfold kInt64RangeEndFp32 at beyond; omega)
    rcases sign with positive | negative
    · rw [positive]
      exact whole
    · rw [negative, truncFp32_sign small, ← negative, whole, ← negative]
  unfold SurvivesCasts
  rw [int64FromFp32Operand_eq word]
  by_cases no_number : kInf < fabs x
  · unfold kInf at no_number
    rw [if_pos (by unfold kInf; exact no_number), zeroBack,
      large (by unfold kInt64RangeEndFp32; omega)]
    unfold kInt64RangeEndFp32
    omega
  rw [if_neg no_number]
  by_cases beyond : kInt64RangeEndFp32 ≤ fabs x
  · rw [if_pos beyond, large beyond]
    unfold kInt64RangeEndFp32 kInt64RangeStartFp32 at *
    rcases sign with positive | negative
    · rw [if_pos (by omega), maxBack]
      omega
    · rw [if_neg (by omega), minBack]
      omega
  rw [if_neg beyond, int64OfFp32]
  rcases sign with positive | negative
  · rw [if_pos (by omega), fp32FromInt64_magnitude small, ← positive]
    have below : x < 2 ^ 31 := by omega
    omega
  · rw [if_neg (by omega), fp32FromInt64_negative small, negative, truncFp32_sign small]
    rw [← negative]
    split <;> omega

/-! ## Words -/

theorem truncFp32_lt (word : x < 2 ^ 32) : truncFp32 x < 2 ^ 32 := by
  unfold truncFp32
  dsimp only
  split
  · exact Nat.and_le_left.trans_lt word
  split
  · rw [Nat.shiftRight_eq_div_pow, Nat.shiftLeft_eq]
    exact (Nat.div_mul_le_self _ _).trans_lt word
  · exact word

theorem casts_lt (word : x < 2 ^ 32) : fp32FromInt64 (int64FromFp32Operand x) < 2 ^ 32 := by
  obtain ⟨small, sign⟩ := sign_cases word
  obtain ⟨maxBack, minBack⟩ := fp32FromInt64_ends
  have zeroBack : fp32FromInt64 0 = 0 := by decide
  have less : truncFp32 (fabs x) < 2 ^ 31 := by
    rw [truncFp32_eq small]
    split
    · omega
    split
    · exact (Nat.div_mul_le_self _ _).trans_lt small
    · exact small
  rw [int64FromFp32Operand_eq word]
  split
  · rw [zeroBack]
    omega
  split
  · split
    · rw [maxBack]
      decide
    · rw [minBack]
      decide
  unfold int64OfFp32
  dsimp only
  split
  · rw [fp32FromInt64_magnitude small]
    omega
  · rw [fp32FromInt64_negative small]
    split <;> omega

/-! ## Tensors -/

def narrowLane (x : Float32Bits) : Int := int64FromFp32Operand x.bits.toNat

def widenLane (value : Int) : Float32Bits := ⟨.ofNat (fp32FromInt64 value)⟩

def truncLane (x : Float32Bits) : Float32Bits := ⟨.ofNat (truncFp32 x.bits.toNat)⟩

theorem lane_eq_trunc_iff (x : Float32Bits) :
    widenLane (narrowLane x) = truncLane x ↔ SurvivesCasts x.bits.toNat := by
  have word : x.bits.toNat < 2 ^ 32 := x.bits.toNat_lt
  rw [← casts_eq_trunc_iff word]
  constructor
  · intro same
    have bits : (UInt32.ofNat (fp32FromInt64 (int64FromFp32Operand x.bits.toNat))).toNat =
        (UInt32.ofNat (truncFp32 x.bits.toNat)).toNat := congrArg (fun y => y.bits.toNat) same
    rwa [UInt32.toNat_ofNat_of_lt' (casts_lt word), UInt32.toNat_ofNat_of_lt' (truncFp32_lt word)]
      at bits
  · intro same
    exact congrArg (fun n => (⟨.ofNat n⟩ : Float32Bits)) same

/-- The words that integers of 64 bits take up, the lower half of each first. -/
def laneWords (values : List Int) : List Float32Bits :=
  values.flatMap fun v => [⟨.ofNat (v % 2 ^ 32).toNat⟩, ⟨.ofNat (v / 2 ^ 32 % 2 ^ 32).toNat⟩]

namespace Lanes

/-- The cast to integers: numbers are converted, integers are copied. -/
def toInts : Lanes Float32Bits → Lanes Float32Bits
  | ints shape values => ints shape values
  | floats shape values => ints shape (values.map narrowLane)

/-- Dropping fractions: the kernel takes what it reads for numbers, so that of integers it reads as
many words as there are elements. -/
def trunc : Lanes Float32Bits → Lanes Float32Bits
  | ints shape values => floats shape (((laneWords values).take values.length).map truncLane)
  | floats shape values => floats shape (values.map truncLane)

/-- Where dropping fractions gives what the two casts give: every number survives them; integers, if
there are any, are converted to what their words truncate to. -/
def SurvivesCasts : Lanes Float32Bits → Prop
  | ints _ values => values.map widenLane = ((laneWords values).take values.length).map truncLane
  | floats _ values => ∀ x ∈ values, Cpu.SurvivesCasts x.bits.toNat

instance (x : Lanes Float32Bits) : Decidable x.SurvivesCasts :=
  match x with
  | ints _ values => inferInstanceAs (Decidable (values.map widenLane = _))
  | floats _ values => inferInstanceAs (Decidable (∀ x ∈ values, _))

@[simp] theorem isInt_toInts (x : Lanes Float32Bits) : x.toInts.isInt = true := by cases x <;> rfl

@[simp] theorem isInt_trunc (x : Lanes Float32Bits) : x.trunc.isInt = false := by cases x <;> rfl

/-- **On tensors.** -/
theorem casts_eq_trunc_iff (x : Lanes Float32Bits) :
    x.toInts.toFloats widenLane = x.trunc ↔ x.SurvivesCasts := by
  cases x with
  | ints shape values => simp [toInts, toFloats, trunc, SurvivesCasts]
  | floats shape values =>
    simp only [toInts, toFloats, trunc, SurvivesCasts, floats.injEq, true_and, map_map,
      map_inj_left, Function.comp_apply, lane_eq_trunc_iff]

end Lanes

/-! ## Kernels that cast -/

def onnxIsWideInt (target : Int) : Bool := target = 6 || target = 7 || target = 12 || target = 13

/-- The code of the unary operator that drops fractions. -/
def unaryTrunc : Int := 21

def plainWideCast (op : Operation) : Bool :=
  op.type = .cast && !op.attr.has (str "pw_steps") && onnxIsWideInt (op.attr.geti (str "to") 1)

def plainTrunc (op : Operation) : Bool :=
  op.type = .unary && !op.attr.has (str "pw_steps") && op.subOp = unaryTrunc

/-- Kernels whose casts, and whose dropping of fractions, are the host's. -/
structure HostCasts (K : LaneOperators Float32Bits) : Prop where
  widen : K.widen = widenLane
  wideCast : ∀ op x rest r b, plainWideCast op = true → K.apply op (some x :: rest) r b = [x.toInts]
  trunc : ∀ op x rest r b, plainTrunc op = true → K.apply op (some x :: rest) r b = [x.trunc]

/-- Kernels that cast and drop fractions, and of everything else compute the storage only. -/
def hostCasts : LaneOperators Float32Bits where
  unset := emptyLanes false
  widen := widenLane
  apply op ins _ _ :=
    match ins with
    | some x :: _ =>
      if plainFloatCast op then [x.toFloats widenLane]
      else if plainWideCast op then [x.toInts]
      else if plainTrunc op then [x.trunc]
      else (outputStorage op (ins.map (Option.map Lanes.isInt))).map emptyLanes
    | _ => (outputStorage op (ins.map (Option.map Lanes.isInt))).map emptyLanes
  unset_isInt := isInt_emptyLanes false
  storage op ins r b k := by
    split
    · rename_i x rest
      split
      · rename_i cast
        simp only [plainFloatCast, Bool.and_eq_true, decide_eq_true_eq] at cast
        simp only [outputStorage, cast.1.1, castsToInteger_of_float cast.2]
        exact isInt_getD_single (x.isInt_toFloats widenLane) le_rfl k
      split
      · rename_i cast
        simp only [plainWideCast, onnxIsWideInt, Bool.and_eq_true, Bool.or_eq_true,
          decide_eq_true_eq] at cast
        have integer : castsToInteger (op.attr.geti (str "to") 1) = true := by
          rcases cast.2 with ((target | target) | target) | target <;> rw [target] <;> rfl
        simp only [outputStorage, cast.1.1, integer]
        exact isInt_getD_single x.isInt_toInts le_rfl k
      split
      · rename_i drop
        simp only [plainTrunc, Bool.and_eq_true, decide_eq_true_eq] at drop
        have none_ : outputStorage op ((some x :: rest).map (Option.map Lanes.isInt)) = [] := by
          simp [outputStorage, drop.1.1, keepsStorage, mixesStorage]
        rw [none_]
        exact isInt_getD_single x.isInt_trunc (by simp) k
      · exact isInt_getD_map _ _
    · exact isInt_getD_map _ _
  floatCast op x rest r b type bare float := by
    have plain : plainFloatCast op = true := by simp [plainFloatCast, type, bare, float]
    simp only [plain, if_true]

theorem hostCasts_laws : HostCasts hostCasts where
  widen := rfl
  wideCast op x rest r b wide := by
    have other : plainFloatCast op = false := by
      simp only [plainWideCast, onnxIsWideInt, Bool.and_eq_true, Bool.or_eq_true,
        decide_eq_true_eq] at wide
      simp only [plainFloatCast, onnxToIsFloat, Bool.and_eq_false_imp]
      rcases wide.2 with ((target | target) | target) | target <;> rw [target] <;> simp
    simp only [hostCasts, other, wide, if_true, Bool.false_eq_true, if_false]
  trunc op x rest r b drop := by
    have type : op.type = .unary := by
      simp only [plainTrunc, Bool.and_eq_true, decide_eq_true_eq] at drop
      exact drop.1.1
    have other : plainFloatCast op = false ∧ plainWideCast op = false := by
      simp [plainFloatCast, plainWideCast, type]
    simp only [hostCasts, other.1, other.2, drop, if_true, Bool.false_eq_true, if_false]

end Vknn.Cpu
