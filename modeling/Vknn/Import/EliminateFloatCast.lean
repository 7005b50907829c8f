import Vknn.Cpu.Storage
import Vknn.Import.KeptNodes

/-!
# Removing casts between numbers

A walk over the nodes marks each tensor with an element type, as far as it can tell.  A cast
to numbers goes when the tensor it reads is marked as numbers and its result is no graph
output: the readers of its result read what it reads.  Only operands are rewired.
-/

namespace Vknn.Import

/-! ## The walk -/

def isFloat : DType → Bool
  | .float32 | .float16 => true
  | _ => false

/-- Operators whose results the walk takes for numbers, whatever they read. -/
def floatResult : OpType → Bool
  | .conv | .gemm | .matMul | .einsum | .softmax | .layerNorm | .batchNorm | .reduce
  | .globalAvgPool | .avgPool | .resize | .gridSample | .fusedSE | .fusedDwPw => true
  | _ => false

abbrev TypeMarks := TensorId → Option DType

/-- The element type a graph input is taken for: bytes become numbers at the boundary. -/
def inputType : DType → DType
  | .uint8 | .int8 => .float32
  | d => d

variable (g : Graph)

def setKnown (dt : TypeMarks) (id : TensorId) (d : DType) : TypeMarks :=
  if 0 ≤ id ∧ id < g.tensors.length then Function.update dt id (some d) else dt

/-- The marks before the walk: of constants, then of graph inputs. -/
def seedMarks : TypeMarks :=
  let constants := (List.range g.tensors.length).foldl (fun dt (k : Nat) =>
    if (g.desc k).isInitializer then setKnown g dt k (g.desc k).dtype else dt) fun _ => none
  g.inputs.foldl (fun dt id => setKnown g dt id (inputType (g.desc id).dtype)) constants

def knownAt (dt : TypeMarks) (pin : TensorId) : Option DType := if pin = kNoTensor then none else dt pin

/-- The operand whose mark is passed on. -/
def primaryInput (nd : Node) : TensorId :=
  nd.inputs.getD (if nd.type = .where then 1 else 0) kNoTensor

/-- The mark of a node's outputs, if there is one. -/
def resultMark (dt : TypeMarks) (nd : Node) : Option DType :=
  match nd.type with
  | .shape => some .int64
  | .cast => some (if Cpu.onnxToIsFloat (nd.attr.geti (str "to") 1) then .float32 else .int64)
  | .equal | .or | .xor | .not => some .int32
  | .argMax | .argMin => some .int64
  | t => if floatResult t then some .float32 else knownAt dt (primaryInput nd)

def markNode (dt : TypeMarks) (nd : Node) : TypeMarks :=
  if nd.outputs.isEmpty then dt
  else if nd.type = .topK then
    let dt := if 1 < nd.outputs.length then setKnown g dt (nd.outputs.getD 1 kNoTensor) .int64 else dt
    match knownAt dt (nd.inputs.headD kNoTensor) with
    | some d => setKnown g dt (nd.outputs.headD kNoTensor) d
    | none => dt
  else
    match resultMark dt nd with
    | some out => nd.outputs.foldl (fun dt o => setKnown g dt o out) dt
    | none => dt

def marks : TypeMarks := g.nodes.foldl (markNode g) (seedMarks g)

def markedFloat (t : TensorId) : Bool := (marks g t).any isFloat

/-! ## The removal -/

def redundantCast (c : Node) : Bool :=
  c.type = .cast && c.inputs.length = 1 && c.outputs.length = 1 &&
    c.inputs.headD kNoTensor ≠ kNoTensor && Cpu.onnxToIsFloat (c.attr.geti (str "to") 1) &&
    markedFloat g (c.inputs.headD kNoTensor) && !g.outputs.contains (c.outputs.headD kNoTensor)

/-- Read one tensor for another, as an operand. -/
def rewireInputs (gone kept : TensorId) (nn : Node) : Node :=
  { nn with inputs := nn.inputs.map (Dataflow.redirect gone kept) }

/-- The nodes during the pass, and the positions of the removed ones. -/
structure CastState where
  nodes : List Node
  remove : List Nat := []

def castStep (st : CastState) (i : Nat) : CastState :=
  match st.nodes[i]? with
  | none => st
  | some c =>
    if redundantCast g c then
      { nodes := st.nodes.map
          (rewireInputs (c.outputs.headD kNoTensor) (c.inputs.headD kNoTensor))
        remove := i :: st.remove }
    else st

def castRun : CastState := (List.range g.nodes.length).foldl (castStep g) { nodes := g.nodes }

def eliminateFloatCast : Graph := { g with nodes := keptFrom (castRun g).remove 0 (castRun g).nodes }

end Vknn.Import
