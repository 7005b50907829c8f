import Vknn.Cpu.IntCasts
import Vknn.Import.EliminateFloatCast
import Vknn.Import.PassesUtil

/-!
# Folding a round trip through integers

A cast of numbers to a wide integer type, whose result is read by a cast back to numbers
and by nothing else, becomes one operator that drops fractions.  It takes the place of the
first cast and makes the result of the second, which goes.

The walk that marks tensors is the one that removes casts between numbers; here a graph
input has the element type it is declared with.
-/

namespace Vknn.Import

variable (g : Graph)

/-! ## What the pass looks at -/

/-- The marks before the walk: of constants, then of graph inputs, as they are declared. -/
def declaredMarks : TypeMarks :=
  let constants := (List.range g.tensors.length).foldl (fun dt (k : Nat) =>
    if (g.desc k).isInitializer then setKnown g dt k (g.desc k).dtype else dt) fun _ => none
  g.inputs.foldl (fun dt id => setKnown g dt id (g.desc id).dtype) constants

/-- Whether the walk finds that a tensor holds numbers. -/
def provenFloat (t : TensorId) : Bool :=
  (g.nodes.foldl (markNode g) (declaredMarks g) t).any isFloat

/-- A cast of numbers to a wide integer type, whose result is inside the graph. -/
def castsToWideInt (c1 : Node) : Bool :=
  let input := c1.inputs.headD kNoTensor
  let mid := c1.outputs.headD kNoTensor
  c1.type = .cast && c1.inputs.length = 1 && c1.outputs.length = 1 &&
    Cpu.onnxIsWideInt (c1.attr.geti (str "to") 1) &&
    input ≠ kNoTensor && provenFloat g input &&
    mid ≠ kNoTensor && mid < g.tensors.length && !g.outputs.contains mid

def castsBack (mid : TensorId) (c2 : Node) : Bool :=
  c2.type = .cast && c2.inputs.length = 1 && c2.outputs.length = 1 &&
    c2.inputs.headD kNoTensor = mid && Cpu.onnxToIsFloat (c2.attr.geti (str "to") 1) &&
    c2.outputs.headD kNoTensor ≠ kNoTensor

/-! ## The pass -/

/-- What takes the place of a first cast. -/
def truncOf (out : TensorId) (c1 : Node) : Node :=
  { c1 with
    type := .unary
    subOp := Cpu.unaryTrunc
    actLo := ⟨0⟩
    actHi := ⟨0⟩
    fusedAct := .none
    attr := {}
    outputs := c1.outputs.set 0 out }

/-- The nodes during the pass, and the positions of the removed ones. -/
structure RoundtripState where
  nodes : List Node
  removed : List Nat := []

/-- The second cast of the pair that begins at a node: its position, and its result. -/
def castPartner (st : RoundtripState) (i : Nat) (c1 : Node) : Option (Nat × TensorId) :=
  if !castsToWideInt g c1 then none
  else match readersOf g (c1.outputs.headD kNoTensor) with
    | [j] =>
      if st.removed.contains j || j = i then none
      else match st.nodes[j]? with
        | none => none
        | some c2 =>
          if castsBack (c1.outputs.headD kNoTensor) c2 then
            some (j, c2.outputs.headD kNoTensor)
          else none
    | _ => none

def roundtripStep (st : RoundtripState) (i : Nat) : RoundtripState :=
  if st.removed.contains i then st
  else match st.nodes[i]? with
    | none => st
    | some c1 =>
      match castPartner g st i c1 with
      | none => st
      | some (j, out) => { nodes := st.nodes.set i (truncOf out c1), removed := j :: st.removed }

def roundtripRun : RoundtripState := (List.range g.nodes.length).foldl (roundtripStep g) { nodes := g.nodes }

def foldIntRoundtripCast : Graph := { g with nodes := keptFrom (roundtripRun g).removed 0 (roundtripRun g).nodes }

/-! ## Pairs -/

/-- Two casts that the pass makes one node of, with their positions. -/
structure Roundtrip (i j : Nat) (c1 c2 : Node) : Prop where
  first : g.nodes[i]? = some c1
  wide : castsToWideInt g c1 = true
  reader : readersOf g (c1.outputs.headD kNoTensor) = [j]
  second : g.nodes[j]? = some c2
  back : castsBack (c1.outputs.headD kNoTensor) c2 = true

end Vknn.Import
