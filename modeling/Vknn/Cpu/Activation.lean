import Vknn.Cpu.IntCasts

/-!
# Activations

A rectifier, and a clamp to two bounds, as kernels of their own and as the last step of
another kernel.  As kernels of their own they take what they read for numbers, and their
result holds numbers.  A clamp finds each bound in an attribute, or else in an operand;
without either it is unbounded on that side.

A convolution, a product and a sum apply the activation that their node records, a sum of
integers excepted.
-/

namespace Vknn.Cpu

open List Bool

/-! ## One number -/

/-- A rectifier: what is not above zero, a NaN included, becomes zero. -/
def reluLane (v : Float32Bits) : Float32Bits := if floatLess 0 v.bits.toNat then v else ⟨0⟩

/-- A clamp: the lower bound is tried first, and a NaN passes. -/
def clampLane (lo hi v : Float32Bits) : Float32Bits :=
  if floatLess v.bits.toNat lo.bits.toNat then lo
  else if floatLess hi.bits.toNat v.bits.toNat then hi
  else v

/-- Whether two numbers compare equal; the two zeros do. -/
def floatEqual (a b : Float32Bits) : Bool :=
  !isNan a.bits.toNat && !isNan b.bits.toNat && floatKey a.bits.toNat = floatKey b.bits.toNat

def kSix : Float32Bits := ⟨0x40C00000⟩
def kInfinity : Float32Bits := ⟨0x7F800000⟩
def kMinusInfinity : Float32Bits := ⟨0xFF800000⟩

/-- The activation that a node records, on one number.  The smooth ones are open. -/
def actLane (smooth : ActType → Float32Bits → Float32Bits) (act : ActType) (lo hi v : Float32Bits) :
    Float32Bits :=
  match act with
  | .none => v
  | .relu => reluLane v
  | .relu6 => clampLane ⟨0⟩ kSix v
  | .clip => clampLane lo hi v
  | other => smooth other v

/-! ## Tensors -/

namespace Lanes

/-- What a kernel reads that takes a tensor for numbers. -/
def words : Lanes Float32Bits → List Float32Bits
  | ints _ values => laneWords values
  | floats _ values => values

/-- The first number of a buffer, and what is read where there is none. -/
def firstNumber (past : Float32Bits) (x : Lanes Float32Bits) : Float32Bits := x.words.headD past

/-- A kernel on numbers, one by one; of integers it reads as many words as there are elements. -/
def mapNumbers (f : Float32Bits → Float32Bits) : Lanes Float32Bits → Lanes Float32Bits
  | ints shape values => floats shape (((laneWords values).take values.length).map f)
  | floats shape values => floats shape (values.map f)

/-- The last step of a kernel: integers are left alone. -/
def applyAct (f : Float32Bits → Float32Bits) : Lanes Float32Bits → Lanes Float32Bits
  | ints shape values => ints shape values
  | floats shape values => floats shape (values.map f)

@[simp] theorem isInt_mapNumbers (f : Float32Bits → Float32Bits) (x : Lanes Float32Bits) :
    (x.mapNumbers f).isInt = false := by
  cases x <;> rfl

@[simp] theorem isInt_applyAct (f : Float32Bits → Float32Bits) (x : Lanes Float32Bits) :
    (x.applyAct f).isInt = x.isInt := by
  cases x <;> rfl

/-- **The last step does what a kernel of its own does exactly when** it is not left out, and the two
take every element to the same number. -/
theorem applyAct_eq_mapNumbers_iff (f f' : Float32Bits → Float32Bits) (x : Lanes Float32Bits) :
    x.applyAct f = x.mapNumbers f' ↔ x.isInt = false ∧ ∀ v ∈ x.words, f v = f' v := by
  cases x <;> simp [applyAct, mapNumbers, isInt, words]

/-- **The last step leaves a tensor alone exactly when** it is left out, or leaves every element. -/
theorem applyAct_eq_self_iff (f : Float32Bits → Float32Bits) (x : Lanes Float32Bits) :
    x.applyAct f = x ↔ x.isInt = false → ∀ v ∈ x.words, f v = v := by
  cases x with
  | ints shape values => simp [applyAct, isInt]
  | floats shape values =>
    have fixed := map_inj_left (l := values) (f := f) (g := id)
    rw [map_id] at fixed
    simpa [applyAct, isInt, words] using fixed

end Lanes

/-! ## Kernels -/

/-- A bound of a clamp: the attribute, or else what the operand holds, or else none. -/
def clipBound (past : Float32Bits) (attr : Attributes) (key : Str) (unbounded : Float32Bits)
    (operand : Option (Lanes Float32Bits)) : Float32Bits :=
  let bound := match operand with
    | some b => b.firstNumber past
    | none => unbounded
  if attr.has key then attr.getf key bound else bound

/-- What a clamp does to one number, from its attributes and the operands that follow the first. -/
def clipLane (past : Float32Bits) (attr : Attributes) (rest : List (Option (Lanes Float32Bits))) :
    Float32Bits → Float32Bits :=
  clampLane (clipBound past attr (str "min") kMinusInfinity (rest.getD 0 none))
    (clipBound past attr (str "max") kInfinity (rest.getD 1 none))

/-- Kernels that end with the activation their node records. -/
def endsWithAct (t : OpType) : Bool := t = .conv || t = .gemm || t = .add

/-- What a kernel sees of a node that records no activation. -/
def Operation.withoutAct (op : Operation) : Operation :=
  { op with fusedAct := .none, actLo := ⟨0⟩, actHi := ⟨0⟩ }

/-- What a kernel is that ends with an activation, on one number. -/
def Operation.lane (smooth : ActType → Float32Bits → Float32Bits) (op : Operation) :
    Float32Bits → Float32Bits :=
  actLane smooth op.fusedAct op.actLo op.actHi

/-- Kernels whose activations are the host's: `past` is what is read of an empty buffer. -/
structure HostActivations (K : LaneOperators Float32Bits) (past : Float32Bits)
    (smooth : ActType → Float32Bits → Float32Bits) : Prop where
  relu : ∀ op x rest r b, op.type = .relu → op.attr.has (str "pw_steps") = false →
    K.apply op (some x :: rest) r b = [x.mapNumbers reluLane]
  clip : ∀ op x rest r b, op.type = .clip → op.attr.has (str "pw_steps") = false →
    K.apply op (some x :: rest) r b = [x.mapNumbers (clipLane past op.attr rest)]
  epilogue : ∀ op ins r b, endsWithAct op.type = true → op.attr.has (str "pw_steps") = false →
    ∃ y, K.apply op.withoutAct ins r b = [y] ∧ K.apply op ins r b = [y.applyAct (op.lane smooth)]

/-! ## Kernels that do little else -/

/-- A sum with zeros, and the like: the first operand, if it holds numbers. -/
def firstNumbers : List (Option (Lanes Float32Bits)) → Lanes Float32Bits
  | some (.floats shape values) :: _ => .floats shape values
  | _ => emptyLanes false

/-- A kernel that ends with an activation, before its end. -/
def copyOperand (op : Operation) (ins : List (Option (Lanes Float32Bits))) : Lanes Float32Bits :=
  if (outputStorage op (ins.map (Option.map Lanes.isInt))).getD 0 false then emptyLanes true
  else firstNumbers ins

@[simp] theorem isInt_copyOperand (op : Operation) (ins : List (Option (Lanes Float32Bits))) :
    (copyOperand op ins).isInt = (outputStorage op (ins.map (Option.map Lanes.isInt))).getD 0 false := by
  unfold copyOperand
  split
  · rename_i int
    rw [isInt_emptyLanes, int]
  · rename_i numbers
    rw [not_eq_true] at numbers
    rw [numbers]
    unfold firstNumbers
    split <;> rfl

/-- Kernels that activate and cast, copy where there is arithmetic, and of everything else compute the
storage only. -/
def hostActivations : LaneOperators Float32Bits where
  unset := emptyLanes false
  widen := widenLane
  apply op ins _ _ :=
    if op.attr.has (str "pw_steps") then
      (outputStorage op (ins.map (Option.map Lanes.isInt))).map emptyLanes
    else if endsWithAct op.type then
      [(copyOperand op ins).applyAct (op.lane fun _ v => v)]
    else match ins with
      | some x :: rest =>
        if plainFloatCast op then [x.toFloats widenLane]
        else if op.type = .relu then [x.mapNumbers reluLane]
        else if op.type = .clip then [x.mapNumbers (clipLane ⟨0⟩ op.attr rest)]
        else (outputStorage op (ins.map (Option.map Lanes.isInt))).map emptyLanes
      | _ => (outputStorage op (ins.map (Option.map Lanes.isInt))).map emptyLanes
  unset_isInt := isInt_emptyLanes false
  storage op ins r b k := by
    have unlisted : ∀ t, t = .relu ∨ t = .clip → op.type = t →
        outputStorage op (ins.map (Option.map Lanes.isInt)) = [] := by
      rintro t (rfl | rfl) type <;> simp [outputStorage, type, keepsStorage, mixesStorage]
    split
    · exact isInt_getD_map _ _
    split
    · rename_i ends
      refine isInt_getD_single (by simp) ?_ k
      simp only [endsWithAct, or_eq_true, decide_eq_true_eq] at ends
      rcases ends with (type | type) | type <;>
        simp [outputStorage, type, keepsStorage, mixesStorage]
    split
    · rename_i x rest
      split
      · rename_i cast
        simp only [plainFloatCast, and_eq_true, decide_eq_true_eq] at cast
        refine isInt_getD_single ?_ ?_ k <;> simp [outputStorage, cast.1.1, castsToInteger_of_float cast.2]
      split
      · rename_i type
        have empty := unlisted _ (.inl rfl) type
        exact isInt_getD_single (by rw [empty]; simp) (by rw [empty]; simp) k
      split
      · rename_i type
        have empty := unlisted _ (.inr rfl) type
        exact isInt_getD_single (by rw [empty]; simp) (by rw [empty]; simp) k
      · exact isInt_getD_map _ _
    · exact isInt_getD_map _ _
  floatCast op x rest r b type bare float := by
    have plain : plainFloatCast op = true := by simp [plainFloatCast, type, bare, float]
    have other : endsWithAct op.type = false := by simp [endsWithAct, type]
    simp only [bare, other, plain, if_true, false_eq_true, if_false]

theorem hostActivations_laws : HostActivations hostActivations ⟨0⟩ fun _ v => v where
  relu op x rest r b type bare := by
    have other : endsWithAct op.type = false ∧ plainFloatCast op = false := by
      simp [endsWithAct, plainFloatCast, type]
    simp only [hostActivations, bare, other.1, other.2, if_pos type, Bool.false_eq_true, if_false]
  clip op x rest r b type bare := by
    have other : endsWithAct op.type = false ∧ plainFloatCast op = false ∧ op.type ≠ .relu := by
      simp [endsWithAct, plainFloatCast, type]
    simp only [hostActivations, bare, other.1, other.2.1, if_neg other.2.2, if_pos type,
      Bool.false_eq_true, if_false]
  epilogue op ins r b ends bare := by
    refine ⟨copyOperand op ins, ?_, ?_⟩
    · have raw : hostActivations.apply op.withoutAct ins r b =
          [(copyOperand op.withoutAct ins).applyAct fun v => v] := by
        simp only [hostActivations, Operation.withoutAct, bare, ends, if_true, false_eq_true,
          if_false]
        rfl
      have same : copyOperand op.withoutAct ins = copyOperand op ins := rfl
      rw [raw, same, (Lanes.applyAct_eq_self_iff _ _).mpr fun _ _ _ => rfl]
    · simp only [hostActivations, bare, ends, if_true, Bool.false_eq_true, if_false]

end Vknn.Cpu
