import Vknn.Cpu.RmsNorm

/-!
# Running arithmetic without rounding

The operators that combine tensors element by element, apply a function to every element, take
means or normalize rows are computed exactly, where their node has no pointwise epilogue.  A sum
applies the activation that its node records.  Every other operator is left open.
-/

namespace Vknn.Cpu

open List

open Gemm (Held)

variable {R : Type} [Field R] (ar : Arithmetic R) (rest : Operators (Option (Held R)))

/-- The axes of a reduction: the attribute, or else what the second operand holds, or else none. -/
def axesOperand (attr : Attributes) (second : Option (Option (Held R))) : Option (List Int) :=
  if !(attr.getints (str "axes")).isEmpty then some (attr.getints (str "axes"))
  else match second with
    | some A => A.map fun A => ar.ints A.elems
    | none => some []

def kDefaultEpsilon : Float32Bits := ⟨0x358637BD⟩

def arithmeticOperators : Operators (Option (Held R)) where
  unset := rest.unset
  apply op ins residual bias :=
    if op.attr.has (str "pw_steps") then rest.apply op ins residual bias
    else match op.type, ins with
      | .binary, some X :: some Y :: _ => [do elementwise (binaryLane ar op.subOp) (← X) (← Y)]
      | .add, some X :: some Y :: _ =>
        [do (← elementwise (· + ·) (← X) (← Y)) |> mapped (ar.act op.fusedAct op.actLo op.actHi)]
      | .unary, some X :: _ => [X.map (mapped (unaryLane ar op.subOp op.actLo op.actHi))]
      | .reduce, some X :: more =>
        if op.subOp = reduceMean then
          [do
            let X ← X
            let axes ← axesOperand ar op.attr (more.headD none)
            some (meanAlong axes (op.attr.geti (str "keepdims") 1 ≠ 0) X)]
        else rest.apply op ins residual bias
      | .rmsNorm, some X :: some G :: _ =>
        [do some (rmsNorm ar (ar.number (op.attr.getf (str "epsilon") kDefaultEpsilon)) (← X) (← G))]
      | _, _ => rest.apply op ins residual bias

/-! ## What nodes compute -/

section Values

variable {g : Graph} {n : Node} {o a b : TensorId} {more : List TensorId}
  {E : TensorId → Option (Held R)}

/-- What a node with one output, and without an epilogue, gives its kernel. -/
structure Plain (n : Node) (o : TensorId) : Prop where
  outputs : n.outputs = [o]
  steps : n.attr.has (str "pw_steps") = false

theorem Plain.value (plain : Plain n o) (other : n.type ≠ .identity) :
    (operatorMachine (arithmeticOperators ar rest) g).value n E o =
      ((arithmeticOperators ar rest).apply (operation g n) (n.inputs.map (tensorOf E))
        (tensorOf E n.fusedResidual) (tensorOf E n.fusedBias)).getD 0 rest.unset :=
  value_single plain.outputs other

theorem value_binary (plain : Plain n o) (type : n.type = .binary) (inputs : n.inputs = a :: b :: more)
    (first : a ≠ kNoTensor) (second : b ≠ kNoTensor) :
    (operatorMachine (arithmeticOperators ar rest) g).value n E o =
      (E a).bind fun X => (E b).bind fun Y => elementwise (binaryLane ar n.subOp) X Y := by
  rw [plain.value ar rest (by rw [type]; decide), inputs, map_cons, map_cons,
    tensorOf_present first, tensorOf_present second]
  dsimp only [arithmeticOperators, operation]
  rw [plain.steps, if_neg Bool.false_ne_true, type]
  rfl

theorem value_add (plain : Plain n o) (type : n.type = .add) (inputs : n.inputs = a :: b :: more)
    (first : a ≠ kNoTensor) (second : b ≠ kNoTensor) :
    (operatorMachine (arithmeticOperators ar rest) g).value n E o =
      (E a).bind fun X => (E b).bind fun Y =>
        (elementwise (· + ·) X Y).map (mapped (ar.act n.fusedAct n.actLo n.actHi)) := by
  rw [plain.value ar rest (by rw [type]; decide), inputs, map_cons, map_cons,
    tensorOf_present first, tensorOf_present second]
  dsimp only [arithmeticOperators, operation]
  rw [plain.steps, if_neg Bool.false_ne_true, type]
  cases E a with
  | none => rfl
  | some X =>
    cases E b with
    | none => rfl
    | some Y => cases made : elementwise (· + ·) X Y <;> simp [made]

theorem value_unary (plain : Plain n o) (type : n.type = .unary) (inputs : n.inputs = a :: more)
    (first : a ≠ kNoTensor) :
    (operatorMachine (arithmeticOperators ar rest) g).value n E o =
      (E a).map (mapped (unaryLane ar n.subOp n.actLo n.actHi)) := by
  rw [plain.value ar rest (by rw [type]; decide), inputs, map_cons, tensorOf_present first]
  dsimp only [arithmeticOperators, operation]
  rw [plain.steps, if_neg Bool.false_ne_true, type]
  rfl

theorem value_mean (plain : Plain n o) (type : n.type = .reduce) (mean : n.subOp = reduceMean)
    (inputs : n.inputs = a :: more) (first : a ≠ kNoTensor) :
    (operatorMachine (arithmeticOperators ar rest) g).value n E o =
      (E a).bind fun X => (axesOperand ar n.attr ((more.map (tensorOf E)).headD none)).map fun axes =>
        meanAlong axes (n.attr.geti (str "keepdims") 1 ≠ 0) X := by
  rw [plain.value ar rest (by rw [type]; decide), inputs, map_cons, tensorOf_present first]
  dsimp only [arithmeticOperators, operation]
  rw [plain.steps, if_neg Bool.false_ne_true, type]
  dsimp only
  rw [if_pos mean]
  cases E a with
  | none => rfl
  | some X => cases axesOperand ar n.attr ((more.map (tensorOf E)).headD none) <;> rfl

theorem value_rmsNorm (plain : Plain n o) (type : n.type = .rmsNorm) (inputs : n.inputs = a :: b :: more)
    (first : a ≠ kNoTensor) (second : b ≠ kNoTensor) :
    (operatorMachine (arithmeticOperators ar rest) g).value n E o =
      (E a).bind fun X => (E b).map fun G =>
        rmsNorm ar (ar.number (n.attr.getf (str "epsilon") kDefaultEpsilon)) X G := by
  rw [plain.value ar rest (by rw [type]; decide), inputs, map_cons, map_cons,
    tensorOf_present first, tensorOf_present second]
  dsimp only [arithmeticOperators, operation]
  rw [plain.steps, if_neg Bool.false_ne_true, type]
  cases E a with
  | none => rfl
  | some X => cases E b <;> rfl

end Values

end Vknn.Cpu
