import Vknn.Cpu.Operators

/-!
# What kernels store

At run time a tensor holds 64-bit integers or single-precision numbers, whatever its
descriptor says.  Which of the two a kernel stores follows from its operator, its
attributes and what its operands store.  Kernels that move elements keep the storage of
what they move; arithmetic on a mixed pair gives integers; everything else gives numbers.

So storage runs along with the values: it is itself a run, on one bit for each tensor.
-/

namespace Vknn.Cpu

open List

/-! ## Storage -/

/-- What a tensor holds: integers, or numbers of some kind. -/
inductive Lanes (F : Type) where
  | ints (shape : Shape) (values : List Int)
  | floats (shape : Shape) (values : List F)
deriving DecidableEq

namespace Lanes

variable {F : Type}

def isInt : Lanes F → Bool
  | ints _ _ => true
  | floats _ _ => false

/-- The cast to numbers: integers are converted, numbers are copied. -/
def toFloats (widen : Int → F) : Lanes F → Lanes F
  | ints shape values => floats shape (values.map widen)
  | floats shape values => floats shape values

@[simp] theorem isInt_toFloats (widen : Int → F) (x : Lanes F) : (x.toFloats widen).isInt = false := by
  cases x <;> rfl

/-- **The cast to numbers leaves a tensor alone exactly when it holds numbers.** -/
theorem toFloats_eq_self_iff (widen : Int → F) (x : Lanes F) : x.toFloats widen = x ↔ x.isInt = false := by
  cases x <;> simp [toFloats, isInt]

end Lanes

/-! ## The rule of each kernel -/

/-- Element types that a cast stores as integers; a truth value is one of them. -/
def castsToInteger (target : Int) : Bool := [2, 3, 4, 5, 6, 7, 12, 13, 9].contains target

/-- The codes of the reductions whose results are numbers, and of the power. -/
def reduceMean : Int := 0
def reduceL2 : Int := 5
def binaryPow : Int := 5

def valueKind (attr : Attributes) : AttrKind :=
  match attr.map[str "value"]? with
  | some a => a.kind
  | none => .none

/-- Kernels that store their first operand's elements under its own storage. -/
def keepsStorage : OpType → Bool
  | .identity | .reshape | .squeeze | .unsqueeze | .flatten | .convertLayout | .convertDtype
  | .expand | .tile | .slice | .transpose | .gather | .scatterND | .bitwiseNot => true
  | _ => false

/-- Kernels on two operands that store integers when either operand does. -/
def mixesStorage : OpType → Bool
  | .add | .mod | .bitShift | .bitwiseAnd | .bitwiseOr | .bitwiseXor => true
  | _ => false

def intAt (ins : List (Option Bool)) (k : Nat) : Bool := (ins.getD k none).getD false

/-- The operands of a node without those of an epilogue. -/
def coreOperands (op : Operation) (ins : List (Option Bool)) : List (Option Bool) :=
  ins.take (Node.pwCoreInputs { attr := op.attr, inputs := ins.map fun _ => kNoTensor })

/-- Whether the outputs of a kernel hold integers, in the order of the outputs; an output that is not
listed holds numbers. -/
def outputStorage (op : Operation) (ins : List (Option Bool)) : List Bool :=
  match op.type with
  | .shape | .argMax | .argMin => [true]
  | .cast => [castsToInteger (op.attr.geti (str "to") 1)]
  | .constant => [valueKind op.attr ≠ .floats]
  | .constantOfShape => [valueKind op.attr = .ints]
  | .reduce => [intAt ins 0 && op.subOp ≠ reduceMean && op.subOp ≠ reduceL2]
  | .range => [intAt ins 0 && intAt ins 1 && intAt ins 2]
  | .binary => [intAt ins 0 || (intAt ins 1 && op.subOp ≠ binaryPow)]
  | .where => [intAt ins 1 || intAt ins 2]
  | .concat => [(coreOperands op ins).any fun o => o.getD false]
  | .split => op.wanted.map fun _ => intAt ins 0
  | .topK => [intAt ins 0, true]
  | t =>
    if keepsStorage t then [intAt ins 0]
    else if mixesStorage t then [intAt ins 0 || intAt ins 1]
    else []

/-- ONNX codes of the element types that are numbers. -/
def onnxToIsFloat (target : Int) : Bool := target = 1 || target = 10 || target = 11

/-- Kernels on integers and numbers.  What they compute is open, but not what they store, and not what
a cast to numbers does. -/
structure LaneOperators (F : Type) extends Operators (Lanes F) where
  widen : Int → F
  unset_isInt : unset.isInt = false
  storage : ∀ op ins r b k, ((apply op ins r b).getD k unset).isInt =
    (outputStorage op (ins.map (Option.map Lanes.isInt))).getD k false
  floatCast : ∀ op x rest r b, op.type = .cast → op.attr.has (str "pw_steps") = false →
    onnxToIsFloat (op.attr.geti (str "to") 1) = true →
    apply op (some x :: rest) r b = [x.toFloats widen]

/-- Kernels that compute no more than storage. -/
def storageOperators : Operators Bool where
  unset := false
  apply op ins _ _ := outputStorage op ins

/-- Whether each tensor holds integers after a run, from what holds integers before it. -/
def storesInt (g : Graph) (s : TensorId → Bool) : TensorId → Bool := perform storageOperators g g.nodes s

/-! ## Storage runs along -/

section Along

variable {V W : Type} {K : Operators V} {L : Operators W} {h : V → W} {g : Graph}

theorem getD_runOperator_map (unset : h K.unset = L.unset)
    (along : ∀ op ins r b k, h ((K.apply op ins r b).getD k K.unset) =
      (L.apply op (ins.map (Option.map h)) (r.map h) (b.map h)).getD k L.unset)
    (nd : Node) (e : TensorId → V) (k : Nat) :
    h ((runOperator K g nd e).getD k K.unset) =
      (runOperator L g nd fun t => h (e t)).getD k L.unset := by
  have operand : ∀ t, (tensorOf e t).map h = tensorOf (fun t => h (e t)) t := by
    intro t
    unfold tensorOf
    split <;> rfl
  unfold runOperator
  split
  · cases k with
    | zero => rfl
    | succ k => exact unset
  · rw [along, map_map, operand, operand]
    congr 2
    exact map_congr_left fun t _ => operand t

/-- **A map of values that the kernels respect takes runs to runs.** -/
theorem perform_map (unset : h K.unset = L.unset)
    (along : ∀ op ins r b k, h ((K.apply op ins r b).getD k K.unset) =
      (L.apply op (ins.map (Option.map h)) (r.map h) (b.map h)).getD k L.unset)
    (nodes : List Node) (e : TensorId → V) (t : TensorId) :
    h (perform K g nodes e t) = perform L g nodes (fun s => h (e s)) t := by
  induction nodes generalizing e with
  | nil => rfl
  | cons nd nodes ih =>
    change h (perform K g nodes ((operatorMachine K g).step e nd) t) =
      perform L g nodes ((operatorMachine L g).step (fun s => h (e s)) nd) t
    rw [ih]
    congr 1
    funext s
    unfold Dataflow.Machine.step
    rw [apply_ite h]
    exact if_congr Iff.rfl (getD_runOperator_map unset along nd e _) rfl

end Along

variable {F : Type} {K : LaneOperators F} {g : Graph}

/-- **A tensor holds integers after a run exactly when the storage rules say so.** -/
theorem isInt_perform (e : TensorId → Lanes F) (t : TensorId) :
    (perform K.toOperators g g.nodes e t).isInt = storesInt g (fun s => (e s).isInt) t :=
  perform_map (L := storageOperators) K.unset_isInt K.storage g.nodes e t

/-- **What a node of an ordered program stores** follows from what its operands hold in the end. -/
theorem storage_written {nodes : List Node} (ordered : signature.Ordered nodes) (s : TensorId → Bool)
    {n : Node} (mem : n ∈ nodes) {t : TensorId} (written : t ∈ writesOf n) :
    perform storageOperators g nodes s t = (outputStorage (operation g n)
      (n.inputs.map (tensorOf (perform storageOperators g nodes s)))).getD (n.outputs.idxOf t) false := by
  have solved := Dataflow.Machine.solved_run (M := operatorMachine storageOperators g) ordered s n
    mem t written
  refine solved.trans ?_
  change (runOperator storageOperators g n (perform storageOperators g nodes s)).getD _ false = _
  unfold runOperator
  split
  · rename_i plain
    simp only [plainIdentity, Bool.and_eq_true, decide_eq_true_eq] at plain
    obtain ⟨⟨⟨type, some⟩, present⟩, -⟩ := plain
    cases shape : n.inputs with
    | nil => simp [shape] at some
    | cons p rest =>
      rw [shape] at present
      have there : p ≠ kNoTensor := present
      simp [outputStorage, operation, type, keepsStorage, intAt, tensorOf, there]
  · rfl

/-! ## Kernels that do nothing else -/

/-- Whether a node is a cast to numbers without an epilogue. -/
def plainFloatCast (op : Operation) : Bool :=
  op.type = .cast && !op.attr.has (str "pw_steps") && onnxToIsFloat (op.attr.geti (str "to") 1)

/-- A tensor of the given storage without elements. -/
def emptyLanes {F : Type} (int : Bool) : Lanes F := if int then .ints [] [] else .floats [] []

@[simp] theorem isInt_emptyLanes {F : Type} (int : Bool) : (emptyLanes int : Lanes F).isInt = int := by
  cases int <;> rfl

theorem castsToInteger_of_float {target : Int} (float : onnxToIsFloat target = true) :
    castsToInteger target = false := by
  simp only [onnxToIsFloat, Bool.or_eq_true, decide_eq_true_eq] at float
  rcases float with (rfl | rfl) | rfl <;> rfl

theorem isInt_getD_map {F : Type} (stored : List Bool) (k : Nat) :
    ((stored.map (emptyLanes : Bool → Lanes F)).getD k (emptyLanes false)).isInt =
      stored.getD k false := by
  rw [getD_eq_getElem?_getD, getD_eq_getElem?_getD, getElem?_map]
  cases stored[k]? <;> simp

theorem isInt_getD_single {F : Type} {x : Lanes F} {stored : List Bool}
    (same : x.isInt = stored.getD 0 false) (short : stored.length ≤ 1) (k : Nat) :
    ([x].getD k (emptyLanes false)).isInt = stored.getD k false := by
  cases k with
  | zero => exact same
  | succ k =>
    have beyond : stored.getD (k + 1) false = false := by
      rw [getD_eq_getElem?_getD, getElem?_eq_none (by omega)]
      rfl
    rw [beyond]
    rfl

/-- Kernels that cast to numbers, and of everything else compute the storage only. -/
def storageOnly (F : Type) (widen : Int → F) : LaneOperators F where
  unset := emptyLanes false
  widen := widen
  apply op ins _ _ :=
    match plainFloatCast op, ins with
    | true, some x :: _ => [x.toFloats widen]
    | _, _ => (outputStorage op (ins.map (Option.map Lanes.isInt))).map emptyLanes
  unset_isInt := isInt_emptyLanes false
  storage op ins r b k := by
    split
    · rename_i x rest cast
      simp only [plainFloatCast, Bool.and_eq_true, decide_eq_true_eq] at cast
      have stored : outputStorage op ((some x :: rest).map (Option.map Lanes.isInt)) = [false] := by
        simp only [outputStorage, cast.1.1, castsToInteger_of_float cast.2]
      rw [stored]
      exact isInt_getD_single (x.isInt_toFloats widen) le_rfl k
    · exact isInt_getD_map _ _
  floatCast op x rest r b type bare float := by
    have plain : plainFloatCast op = true := by simp [plainFloatCast, type, bare, float]
    simp only [plain]

end Vknn.Cpu
