import Mathlib.Data.Rat.Floor
import Vknn.Ir.FloatCasts
import Vknn.Lib.UniformQuantizer
import Vknn.Lib.Wire

/-!
# The clamp in place of a quantized hop

A QuantizeLinear followed by a DequantizeLinear with the same parameters is replaced by a
Clip between the two extreme values the pair can give.  What the pair rounds is left out;
what it saturates is kept.

The extreme values are products of a code and the scale, computed in double precision, where
they are exact, and cast to single precision, where they need not be: a bound is the number
nearest to the extreme value.  That is close enough for the clamp to differ from the pair by
half a scale at most.  A pair with more than one scale gets no clamp and stays.

How payloads are decoded is a parameter.
-/

namespace Vknn.Import.Qdq

open UniformQuantizer List Nat Prod Option

abbrev InitFloats := TensorDesc → HostBuffer → List Float32Bits

section Pass

variable (floats : InitFloats) (g : Graph)

def payloadOf (id : TensorId) : Option (List Float32Bits) :=
  (g.initializers[id]?).map (floats (g.desc id))

/-- The numbers of a constant, in double precision; 64-bit integers are not read. -/
def initAsDouble (id : TensorId) : Option (List ℚ) :=
  if (g.desc id).dtype = .int64 then none else (payloadOf floats g id).map (·.map floatValue)

/-- Whether two tensors hold the same parameter. -/
def sameParam (a b : TensorId) : Bool :=
  if a = b then true
  else if a = kNoTensor ∨ b = kNoTensor ∨ ¬ g.isInitializer a ∨ ¬ g.isInitializer b then false
  else match initAsDouble floats g a, initAsDouble floats g b with
    | some av, some bv => av = bv
    | _, _ => false

/-- Whether two zero points are equal; an absent one is 0. -/
def zeroPointsMatch (a b : TensorId) : Bool :=
  if a = b then true
  else if a = kNoTensor ∨ b = kNoTensor then
    match initAsDouble floats g (if a = kNoTensor then b else a) with
    | some v => v.all (· = 0)
    | none => false
  else sameParam floats g a b

/-- The codes that a QuantizeLinear saturates to, by the type of its zero point. -/
def quantRange (zp : TensorId) : Option (Int × Int) :=
  match if zp = kNoTensor then .uint8 else (g.desc zp).dtype with
  | .int8 => some (-128, 127)
  | .uint8 => some (0, 255)
  | _ => none

/-- The bounds of a Clip. -/
structure Clamp where
  lo : Float32Bits
  hi : Float32Bits
deriving DecidableEq

/-- A bound: the product of a code, without the zero point, and the scale. -/
def clampBound (code : Int) (zero scale : ℚ) : Float32Bits :=
  castFloat (castDouble (castDouble (code - zero) * scale))

/-- The clamp of a hop, where it has one scale and codes of 8 bits. -/
def insertQuantClamp (scale zp : TensorId) : Option Clamp := do
  let (qmin, qmax) ← quantRange g zp
  match ← initAsDouble floats g scale with
  | [s] =>
    (if zp = kNoTensor then some 0 else (initAsDouble floats g zp).bind List.head?).map fun zpv =>
      { lo := clampBound qmin zpv s, hi := clampBound qmax zpv s }
  | _ => none

def operandOf (n : Node) (i : Nat) : TensorId := n.inputs.getD i kNoTensor

/-- Whether a QuantizeLinear and a DequantizeLinear of its output have the same parameters. -/
def collapsible (q dq : Node) : Bool :=
  dq.type = .dequantizeLinear && 2 ≤ dq.inputs.length &&
    dq.outputs.headD kNoTensor ≠ kNoTensor && q.outputs.contains (operandOf dq 0) &&
    q.type = .quantizeLinear && 2 ≤ q.inputs.length && operandOf q 0 ≠ kNoTensor &&
    sameParam floats g (operandOf q 1) (operandOf dq 1) &&
    zeroPointsMatch floats g (operandOf q 2) (operandOf dq 2) &&
    (((payloadOf floats g (operandOf dq 1)).getD []).length ≤ 1 ||
      q.attr.geti (str "axis") 1 = dq.attr.geti (str "axis") 1)

/-- The clamp that replaces a pair; none where the pair is kept. -/
def sandwichClamp (q dq : Node) : Option Clamp :=
  if collapsible floats g q dq then insertQuantClamp floats g (operandOf q 1) (operandOf q 2)
  else none

end Pass

/-! ## What a pair and its clamp compute -/

def zeroOf (floats : InitFloats) (g : Graph) (zp : TensorId) : ℚ :=
  if zp = kNoTensor then 0 else ((initAsDouble floats g zp).getD []).headD 0

section Values

variable {K : Type} [Field K] [LinearOrder K]

def boundOf (x : Float32Bits) : Option K := if FiniteFloat x then some (floatValue x : K) else none

def Clamp.apply (clamp : Clamp) (x : K) : K := clip (boundOf clamp.lo) (boundOf clamp.hi) x

variable [FloorRing K]

/-- The exact result of a pair: a code, and the value of that code. -/
def pairValue (qmin qmax : Int) (scale : ℚ) (zero : Int) (x : K) : K :=
  ((saturate qmin qmax (nearestEven (x / scale) + zero) - zero : Int) : K) * scale

end Values

/-! ## The bounds -/

/-- Few codes times a number are exact in double precision. -/
theorem clampBound_eq (b : Float32Bits) {code zero : Int}
    (small : (code - zero).natAbs < 2 ^ 8) :
    clampBound code zero (floatValue b) = castFloat ((code - zero) * floatValue b) := by
  obtain ⟨c, k, -, few, -, here, -⟩ := GridRounding.grid_form 23 (magnitude b)
  have size : |floatValue b| * kFp32Unit = (c * 2 ^ k : Nat) := by
    have unit : (0 : ℚ) < kFp32Unit := cast_pos.mpr kFp32Unit_pos
    have held : |floatValue b| = (singleUnits (magnitude b) : ℚ) / kFp32Unit := by
      have nonneg : (0 : ℚ) ≤ singleUnits (magnitude b) / kFp32Unit := by positivity
      dsimp only [floatValue]
      split_ifs
      · exact abs_of_nonneg nonneg
      · rw [abs_neg, abs_of_nonneg nonneg]
    rw [held, div_mul_cancel₀ _ unit.ne', singleUnits, here]
  have difference : ((code - zero).natAbs : ℚ) = |(code : ℚ) - zero| := by
    rw [cast_natAbs]
    push_cast
    rfl
  have first : castDouble ((code : ℚ) - zero) = code - zero := by
    refine castDouble_exact (c := (code - zero).natAbs) (k := kDoubleExponent) (by omega) ?_
    rw [← difference, ← cast_mul]
    rfl
  have second : castDouble (((code : ℚ) - zero) * floatValue b) = (code - zero) * floatValue b := by
    obtain ⟨j, finer⟩ : ∃ j, kDoubleUnit = 2 ^ j * kFp32Unit := ⟨_, kDoubleUnit_eq⟩
    refine castDouble_exact (c := (code - zero).natAbs * c) (k := k + j) ?_ ?_
    · calc (code - zero).natAbs * c < 2 ^ 8 * 2 ^ (23 + 1) := mul_lt_mul'' small few
        _ ≤ 2 ^ 53 := by norm_num
    · generalize kFp32Unit = unit at size finer
      calc |((code : ℚ) - zero) * floatValue b| * kDoubleUnit
          = (code - zero).natAbs * (|floatValue b| * unit) * 2 ^ j := by
            rw [abs_mul, ← difference, finer, cast_mul, cast_pow, cast_ofNat]
            ring
        _ = ((code - zero).natAbs * c * 2 ^ (k + j) : Nat) := by
            rw [size]
            push_cast
            ring
  rw [clampBound, first, second]

section Near

variable {K : Type} [Field K] [LinearOrder K] [IsStrictOrderedRing K]

variable {b : Float32Bits} {m : Int}

theorem bound_near (positive : 0 < floatValue b)
    (small : m.natAbs < 2 ^ 8) :
    FiniteFloat (castFloat (m * floatValue b)) ∧
        |floatValue (castFloat (m * floatValue b)) - m * floatValue b| < floatValue b / 2 ∨
      ¬ FiniteFloat (castFloat (m * floatValue b)) ∧ floatMax < |m * floatValue b| := by
  have unit : (0 : ℚ) < kFp32Unit := cast_pos.mpr kFp32Unit_pos
  have value : floatValue b = (GridRounding.grid 23 (magnitude b) : ℚ) / kFp32Unit := by
    have nonneg : (0 : ℚ) ≤ singleUnits (magnitude b) / kFp32Unit := by positivity
    dsimp only [floatValue] at positive ⊢
    split_ifs at positive ⊢
    · rfl
    · linarith
  have some_ : 0 < GridRounding.grid 23 (magnitude b) := by
    rw [value] at positive
    exact cast_pos.mp ((div_pos_iff_of_pos_right unit).mp positive)
  have units : |m * floatValue b| * kFp32Unit =
      (m.natAbs * GridRounding.grid 23 (magnitude b) : Nat) := by
    rw [abs_mul, abs_of_pos positive, value, mul_assoc, div_mul_cancel₀ _ unit.ne', cast_mul,
      cast_natAbs, Int.cast_abs]
  rw [value] at units ⊢
  exact castFloat_product (by omega) some_ units

theorem abs_cast_sub_lt {a c e : ℚ} (close : |a - c| < e) : |(a : K) - c| < e := by
  rw [← Rat.cast_sub, ← Rat.cast_abs]
  exact Rat.cast_lt.mpr close

theorem saturate_sub (qmin qmax r z : Int) :
    saturate qmin qmax (r + z) - z = saturate (qmin - z) (qmax - z) r := by
  unfold saturate
  split_ifs <;> omega

/-- The largest number of single precision bounds what a bound that overflows would have been. -/
theorem lowBound_of_code (positive : 0 < floatValue b) (sign : m ≤ 0)
    (small : m.natAbs < 2 ^ 8) {x : K}
    (within : FiniteFloat (castFloat (m * floatValue b)) ∨ -(floatMax : K) ≤ x) :
    LowBound (boundOf (castFloat (m * floatValue b))) ((m : K) * (floatValue b : K))
      (floatValue b) x := by
  rcases bound_near positive small with ⟨finite, close⟩ | ⟨infinite, beyond⟩
  · have cast := abs_cast_sub_lt (K := K) close
    rw [boundOf, if_pos finite]
    simpa [LowBound] using cast
  · rw [boundOf, if_neg infinite]
    have low := within.resolve_left infinite
    have nonpos : (m : ℚ) * floatValue b ≤ 0 :=
      mul_nonpos_of_nonpos_of_nonneg (Int.cast_nonpos.mpr sign) positive.le
    rw [abs_of_nonpos nonpos] at beyond
    have castBeyond := (Rat.cast_lt (K := K)).mpr beyond
    have castPositive := (Rat.cast_pos (K := K)).mpr positive
    push_cast at castBeyond
    show (m : K) * floatValue b - floatValue b / 2 < x
    linarith

theorem highBound_of_code (positive : 0 < floatValue b) (sign : 0 ≤ m)
    (small : m.natAbs < 2 ^ 8) {x : K}
    (within : FiniteFloat (castFloat (m * floatValue b)) ∨ x ≤ floatMax) :
    HighBound (boundOf (castFloat (m * floatValue b))) ((m : K) * (floatValue b : K))
      (floatValue b) x := by
  rcases bound_near positive small with ⟨finite, close⟩ | ⟨infinite, beyond⟩
  · have cast := abs_cast_sub_lt (K := K) close
    rw [boundOf, if_pos finite]
    simpa [HighBound] using cast
  · rw [boundOf, if_neg infinite]
    have high := within.resolve_left infinite
    have nonneg : 0 ≤ (m : ℚ) * floatValue b := mul_nonneg (Int.cast_nonneg sign) positive.le
    rw [abs_of_nonneg nonneg] at beyond
    have castBeyond := (Rat.cast_lt (K := K)).mpr beyond
    have castPositive := (Rat.cast_pos (K := K)).mpr positive
    push_cast at castBeyond
    show x < (m : K) * floatValue b + floatValue b / 2
    linarith

end Near

/-! ## The pairs that are replaced -/

variable {floats : InitFloats} {g : Graph} {q dq : Node} {clamp : Clamp}

theorem sameParam_values {a b : TensorId} (same : sameParam floats g a b) :
    initAsDouble floats g a = initAsDouble floats g b := by
  unfold sameParam at same
  split_ifs at same with equal
  · rw [equal]
  · split at same
    · rename_i av bv here there
      rw [here, there, of_decide_eq_true same]
    · cases same

theorem zeroOf_eq {a b : TensorId} (same : zeroPointsMatch floats g a b) :
    zeroOf floats g a = zeroOf floats g b := by
  have zeros : ∀ {l : List ℚ}, (l.all (· = 0)) = true → l.headD 0 = 0 := fun {l} all => by
    cases l with
    | nil => rfl
    | cons v l => simpa using (all_eq_true.mp all) v mem_cons_self
  unfold zeroPointsMatch at same
  split_ifs at same with equal absent none_
  · rw [equal]
  · split at same
    · rename_i v here
      rw [zeroOf, zeroOf, if_pos none_, if_neg (fun other => equal (none_.trans other.symm)), here]
      exact (zeros same).symm
    · cases same
  · split at same
    · rename_i v here
      rw [zeroOf, zeroOf, if_neg none_, if_pos (absent.resolve_left none_), here]
      exact zeros same
    · cases same
  · rw [not_or] at absent
    rw [zeroOf, zeroOf, if_neg absent.1, if_neg absent.2, sameParam_values same]

/-- What a pair is quantized with: one scale and one zero point, the same in both nodes, and the
codes of the zero point's type. -/
structure HopParams (floats : InitFloats) (g : Graph) (q dq : Node) (b : Float32Bits) (z : Int)
    (qmin qmax : Int) : Prop where
  range : quantRange g (operandOf q 2) = some (qmin, qmax)
  scale : payloadOf floats g (operandOf q 1) = some [b]
  scaleBack : initAsDouble floats g (operandOf dq 1) = some [floatValue b]
  zero : zeroOf floats g (operandOf q 2) = z
  zeroBack : zeroOf floats g (operandOf dq 2) = z
  inside : qmin ≤ z ∧ z ≤ qmax

/-- The zero points and scales that the operators allow. -/
structure Quantizes (floats : InitFloats) (g : Graph) (q : Node) : Prop where
  scales : ∀ l, payloadOf floats g (operandOf q 1) = some l →
    ∀ b ∈ l, FiniteFloat b ∧ 0 < floatValue b
  zeros : ∀ l qmin qmax, initAsDouble floats g (operandOf q 2) = some l →
    quantRange g (operandOf q 2) = some (qmin, qmax) →
      ∀ v ∈ l, ∃ z : Int, v = z ∧ qmin ≤ z ∧ z ≤ qmax

theorem quantRange_cases {zp : TensorId} {qmin qmax : Int}
    (range : quantRange g zp = some (qmin, qmax)) :
    (qmin = -128 ∧ qmax = 127 ∨ qmin = 0 ∧ qmax = 255) ∧
      (zp = kNoTensor → qmin = 0 ∧ qmax = 255) := by
  unfold quantRange at range
  by_cases none_ : zp = kNoTensor
  · rw [if_pos none_] at range
    obtain ⟨rfl, rfl⟩ := mk.inj (some.inj range)
    exact ⟨.inr ⟨rfl, rfl⟩, fun _ => ⟨rfl, rfl⟩⟩
  · rw [if_neg none_] at range
    refine ⟨?_, fun absent => absurd absent none_⟩
    split at range
    · obtain ⟨rfl, rfl⟩ := mk.inj (some.inj range)
      exact .inl ⟨rfl, rfl⟩
    · obtain ⟨rfl, rfl⟩ := mk.inj (some.inj range)
      exact .inr ⟨rfl, rfl⟩
    · cases range

/-- **A pair that is replaced has one scale**, and its clamp is made from its parameters. -/
theorem sandwichClamp_params (made : sandwichClamp floats g q dq = some clamp)
    (valid : Quantizes floats g q) : ∃ b z qmin qmax, HopParams floats g q dq b z qmin qmax ∧
      FiniteFloat b ∧ 0 < floatValue b ∧ clamp = ⟨clampBound qmin z (floatValue b),
        clampBound qmax z (floatValue b)⟩ := by
  unfold sandwichClamp at made
  split_ifs at made with matched
  simp only [collapsible, Bool.and_eq_true] at matched
  have sameScale := sameParam_values matched.1.1.2
  have sameZero := zeroOf_eq matched.1.2
  simp only [insertQuantClamp, bind_eq_bind, bind_eq_some_iff] at made
  obtain ⟨⟨qmin, qmax⟩, range, sv, scales, made⟩ := made
  split at made
  · rename_i s
    obtain ⟨zpv, zero, rfl⟩ := map_eq_some_iff.mp made
    have numbers := scales
    unfold initAsDouble at numbers
    split_ifs at numbers
    obtain ⟨l, payload, mapped⟩ := map_eq_some_iff.mp numbers
    obtain ⟨b, rfl, rfl⟩ := map_eq_singleton_iff.mp mapped
    obtain ⟨finite, positive⟩ := valid.scales _ payload b (mem_singleton_self b)
    obtain ⟨z, value, inside⟩ : ∃ z : Int, zeroOf floats g (operandOf q 2) = z ∧ zpv = z ∧
        qmin ≤ z ∧ z ≤ qmax := by
      by_cases none_ : operandOf q 2 = kNoTensor
      · rw [if_pos none_, some.injEq] at zero
        obtain ⟨rfl, rfl⟩ := (quantRange_cases range).2 none_
        exact ⟨0, by rw [zeroOf, if_pos none_]; rfl, by rw [← zero]; rfl, by decide, by decide⟩
      · rw [if_neg none_] at zero
        obtain ⟨zs, held, first⟩ := bind_eq_some_iff.mp zero
        obtain ⟨rest, rfl⟩ : ∃ rest, zs = zpv :: rest := by
          cases zs with
          | nil => cases first
          | cons v rest => exact ⟨rest, by rw [some.inj first]⟩
        obtain ⟨z, same, inside⟩ := valid.zeros _ qmin qmax held range zpv mem_cons_self
        exact ⟨z, by rw [zeroOf, if_neg none_, held, ← same]; rfl, same, inside⟩
    obtain ⟨same, inside⟩ := inside
    refine ⟨b, z, qmin, qmax, ⟨range, payload, sameScale ▸ scales, value, sameZero ▸ value, inside⟩,
      finite, positive, ?_⟩
    rw [same]
  · cases made

/-- **The clamp of a pair.**  Its bounds are the extreme values cast to single precision, and
wherever no bound that has overflowed would matter it differs from the pair by half a scale at
most. -/
theorem sandwichClamp_near {K : Type} [Field K] [LinearOrder K] [IsStrictOrderedRing K]
    [FloorRing K] (made : sandwichClamp floats g q dq = some clamp)
    (valid : Quantizes floats g q) : ∃ b z qmin qmax, HopParams floats g q dq b z qmin qmax ∧
      clamp.lo = castFloat ((qmin - z) * floatValue b) ∧
      clamp.hi = castFloat ((qmax - z) * floatValue b) ∧
      ∀ x : K, FiniteFloat clamp.lo ∨ -(floatMax : K) ≤ x → FiniteFloat clamp.hi ∨ x ≤ floatMax →
        |clamp.apply x - pairValue qmin qmax (floatValue b) z x| ≤ (floatValue b : K) / 2 := by
  obtain ⟨b, z, qmin, qmax, params, finite, positive, rfl⟩ := sandwichClamp_params made valid
  obtain ⟨least, most⟩ := params.inside
  have sizes : (qmin - z).natAbs < 2 ^ 8 ∧ (qmax - z).natAbs < 2 ^ 8 := by
    rcases (quantRange_cases params.range).1 with ⟨rfl, rfl⟩ | ⟨rfl, rfl⟩ <;> omega
  have low := clampBound_eq b sizes.1
  have high := clampBound_eq b sizes.2
  refine ⟨b, z, qmin, qmax, params, low, high, fun x below above => ?_⟩
  dsimp only at below above
  have lowCast : ((qmin : ℚ) - z) * floatValue b = ((qmin - z : Int) : ℚ) * floatValue b := by
    push_cast
    rfl
  have highCast : ((qmax : ℚ) - z) * floatValue b = ((qmax - z : Int) : ℚ) * floatValue b := by
    push_cast
    rfl
  rw [low, lowCast] at below
  rw [high, highCast] at above
  have near := abs_clip_sub_le ((Rat.cast_pos (K := K)).mpr positive)
    (show qmin - z ≤ qmax - z by omega) (abs_sub_nearestEven (x / (floatValue b : K)))
    (lowBound_of_code positive (by omega) sizes.1 below)
    (highBound_of_code positive (by omega) sizes.2 above)
  rw [Clamp.apply, low, high, lowCast, highCast, pairValue, saturate_sub]
  exact near

/-! ## A hop with the scale 0.1 -/

/-- Codes of eight bits are read as they are, anything else as single precision. -/
def plainFloats : InitFloats := fun d payload =>
  if d.dtype = .int8 then payload.map fun byte => castFloat byte.toInt8.toInt
  else (List.range (payload.length / 4)).map fun k =>
    ⟨.ofNat (Wire.leNat ((payload.drop (4 * k)).take 4))⟩

/-- A tensor quantized with the scale 0.1 and the zero point 0, and read back. -/
def hop : Graph where
  tensors := [{ name := str "x" }, { name := str "scale" }, { name := str "zero", dtype := .int8 },
    { name := str "codes", dtype := .int8 }, { name := str "y" }]
  initializers := ((∅ : Std.ExtTreeMap TensorId HostBuffer).insert 1 [0xCD, 0xCC, 0xCC, 0x3D]).insert
    2 [0]

def hopQuantize : Node := { type := .quantizeLinear, inputs := [0, 1, 2], outputs := [3] }

def hopDequantize : Node := { type := .dequantizeLinear, inputs := [3, 1, 2], outputs := [4] }

def hopClamp : Clamp := { lo := ⟨0xC14CCCCD⟩, hi := ⟨0x414B3333⟩ }

theorem hop_clamped : sandwichClamp plainFloats hop hopQuantize hopDequantize = some hopClamp := by
  decide +kernel

theorem hop_quantizes : Quantizes plainFloats hop hopQuantize := by
  have scale : payloadOf plainFloats hop (operandOf hopQuantize 1) = some [⟨0x3DCCCCCD⟩] := by
    decide
  have zero : initAsDouble plainFloats hop (operandOf hopQuantize 2) = some [0] := by decide +kernel
  have codes : quantRange hop (operandOf hopQuantize 2) = some (-128, 127) := by decide
  refine ⟨fun l held b mem => ?_, fun l qmin qmax held range v mem => ?_⟩
  · rw [scale, some.injEq] at held
    rw [← held, mem_singleton] at mem
    rw [mem]
    decide +kernel
  · rw [zero, some.injEq] at held
    rw [codes, some.injEq, mk.injEq] at range
    rw [← held, mem_singleton] at mem
    refine ⟨0, by rw [mem]; rfl, ?_, ?_⟩ <;> omega

/-- The clamp's bounds are not the extreme values of the pair. -/
theorem hop_bounds_cast : sandwichClamp plainFloats hop hopQuantize hopDequantize = some hopClamp ∧
    HopParams plainFloats hop hopQuantize hopDequantize ⟨0x3DCCCCCD⟩ 0 (-128) 127 ∧
      floatValue hopClamp.hi ≠ (127 - 0) * floatValue ⟨0x3DCCCCCD⟩ :=
  ⟨hop_clamped, ⟨by decide +kernel, by decide +kernel, by decide +kernel, by decide +kernel,
    by decide +kernel, by decide⟩, by decide +kernel⟩

theorem hop_near : ∃ b z qmin qmax,
    HopParams plainFloats hop hopQuantize hopDequantize b z qmin qmax ∧
      ∀ x : ℚ, |hopClamp.apply x - pairValue qmin qmax (floatValue b) z x| ≤ floatValue b / 2 := by
  obtain ⟨b, z, qmin, qmax, params, -, -, near⟩ :=
    sandwichClamp_near (K := ℚ) hop_clamped hop_quantizes
  refine ⟨b, z, qmin, qmax, params, fun x => ?_⟩
  have close := near x (.inl (by decide)) (.inl (by decide))
  rwa [Rat.cast_id] at close

end Vknn.Import.Qdq
