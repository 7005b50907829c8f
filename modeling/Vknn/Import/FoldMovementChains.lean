import Vknn.Core.TopoSort
import Vknn.Cpu.Movement
import Vknn.Import.PassesUtil

/-!
# Folding movement chains

A movement node that reads another one's output can read that one's input instead,
through a composed map: a stride for each output axis, and a base.  The pass rewires
the consumer, stamps the map on it, and drops the producer; it repeats until a round
folds nothing.

A site is refused when the tensor between has another reader, is a graph output, or
is pinned to full precision.  Readers are counted over operand lists only.
-/

namespace Vknn.Import

/-! ## Maps -/

/-- Source elements are read at `base` plus each output coordinate times its stride. -/
structure MovementMap where
  stride : List Int
  base : Int

variable (floatInts : FloatInts) (g : Graph)

/-- The parameters of a slice that are known when the pass runs. -/
def staticSliceParams (nd : Node) : Cpu.SliceParams where
  starts := readI64Param floatInts g nd (str "starts") 1
  ends := readI64Param floatInts g nd (str "ends") 2
  axes := readI64Param floatInts g nd (str "axes") 3
  steps := readI64Param floatInts g nd (str "steps") 4

/-- The begin and the step of each axis; nothing when a step is not positive. -/
def sliceSteps (p : Cpu.SliceParams) (shape : Shape) : Option (List (Int × Int)) :=
  let entries := p.entries shape.length
  if entries.any fun entry => entry.step ≤ 0 then none
  else
    some (entries.foldl (fun axes entry =>
        let dim := shape.getD entry.axis 0
        let st := if entry.start < 0 then entry.start + dim else entry.start
        axes.set entry.axis (max 0 (min st dim), entry.step))
      (shape.map fun _ => (0, 1)))

/-- The map of a plain node over a map of its input: a transposition permutes the coefficients, a
slice scales them by its steps and folds its starts into the base. -/
def throughNode (nd : Node) (shape : Shape) (m : MovementMap) : Option MovementMap :=
  if nd.type = .transpose then
    let perm := Cpu.transposePerm (nd.attr.getints (str "perm")) shape.length
    if perm.all fun p => 0 ≤ p ∧ p < shape.length then
      some ⟨perm.map fun p => m.stride.getD p.toNat 0, m.base⟩
    else none
  else if nd.type = .slice then
    let p := staticSliceParams floatInts g nd
    if p.starts.isEmpty then none
    else
      match sliceSteps p shape with
      | some axes =>
        some ⟨m.stride.zipWith (fun s axis => s * axis.2) axes,
          m.base + RowMajor.dot (axes.map Prod.fst) m.stride⟩
      | none => none
  else none

/-- The map of a node relative to its input.  A folded node carries its own. -/
def movementMapOf (nd : Node) : Option MovementMap :=
  let shape := (g.desc (nd.inputs.headD kNoTensor)).shape
  let out := (g.desc (nd.outputs.headD kNoTensor)).shape
  if shape.length = 0 ∨ out.length ≠ shape.length ∨ numElements shape ≤ 0 ∨ numElements out ≤ 0 then
    none
  else if nd.attr.has (str "view_stride") then
    let stride := nd.attr.getints (str "view_stride")
    if stride.length = shape.length then some ⟨stride, nd.attr.geti (str "view_base") 0⟩ else none
  else throughNode floatInts g nd shape ⟨Cpu.rowStridesOf shape, 0⟩

/-- A movement node the fold may touch: one operand and one output that are there, and no fused
work. -/
def movementEligible (nd : Node) : Bool :=
  (nd.type = .transpose || nd.type = .slice) && nd.outputs.length = 1 &&
    nd.outputs.headD kNoTensor ≠ kNoTensor && !nd.inputs.isEmpty &&
    nd.inputs.headD kNoTensor ≠ kNoTensor && !nd.attr.has (str "pw_steps") &&
    !nd.attr.has (str "pw_outs") && nd.fusedResidual = kNoTensor

/-- Whether a tensor keeps its materialised form for its precision. -/
def pinned (fp32Pins : Str) (t : TensorId) : Bool :=
  !fp32Pins.isEmpty && (fp32NameMatch (g.desc t).name fp32Pins || (g.desc t).storeFp32)

/-! ## The pass -/

/-- Read the source of the chain through a map. -/
def stamp (nd : Node) (source : TensorId) (m : MovementMap) : Node :=
  { nd with
    inputs := nd.inputs.set 0 source
    attr := ⟨(nd.attr.map.insert (str "view_stride") { kind := .ints, ints := m.stride }).insert
      (str "view_base") { kind := .int, i := m.base }⟩ }

/-- The nodes during a round, the positions of the folded producers, and their number. -/
structure FoldState where
  nodes : List Node
  dead : List Nat := []
  folded : Nat := 0

/-- The position of the last node that writes a tensor of the table. -/
def producerOf (nodes : List Node) (t : TensorId) : Option Nat :=
  if t < g.tensors.length then ({ g with nodes } : Graph).producer[t]? else none

/-- What a round over some nodes does at a position: the producer that goes, and the consumer that
takes over.  Producers and readers are looked up in the nodes the round started with. -/
def foldSite (fp32Pins : Str) (nodes : List Node) (st : FoldState) (i : Nat) :
    Option (Nat × Node) := do
  let nd ← st.nodes[i]?
  guard (movementEligible nd && !nd.attr.has (str "view_stride"))
  let mid := nd.inputs.headD kNoTensor
  let pi ← producerOf g nodes mid
  guard (pi ∉ st.dead)
  let P ← st.nodes[pi]?
  guard (movementEligible P && consumers nodes mid = 1 && mid ∉ g.outputs)
  guard (!pinned g fp32Pins mid)
  let pm ← movementMapOf floatInts g P
  let fm ← movementMapOf floatInts g nd
  let midShape := (g.desc mid).shape
  guard (pm.stride.length = midShape.length ∧ fm.stride.length = midShape.length)
  let composed ← throughNode floatInts g nd midShape pm
  return (pi, stamp nd (P.inputs.headD kNoTensor) composed)

def foldStep (fp32Pins : Str) (nodes : List Node) (st : FoldState) (i : Nat) : FoldState :=
  match foldSite floatInts g fp32Pins nodes st i with
  | some (pi, nd) => { nodes := st.nodes.set i nd, dead := pi :: st.dead, folded := st.folded + 1 }
  | none => st

/-- A round over all nodes, and the number of folds. -/
def foldRound (fp32Pins : Str) (nodes : List Node) : List Node × Nat :=
  let st := (List.range nodes.length).foldl (foldStep floatInts g fp32Pins nodes) { nodes }
  (keptFrom st.dead 0 st.nodes, st.folded)

/-- At most a number of rounds; the last one folds nothing. -/
def foldRounds (fp32Pins : Str) : Nat → List Node → List Node × Nat
  | 0, nodes => (nodes, 0)
  | rounds + 1, nodes =>
    let (kept, folded) := foldRound floatInts g fp32Pins nodes
    if folded = 0 then (nodes, 0)
    else
      let (last, more) := foldRounds fp32Pins rounds kept
      (last, folded + more)

def kMovementFoldMaxRounds : Nat := 256

/-- Fold chains of movement nodes, and count the folded producers. -/
def foldMovementChains (fp32Pins : Str) : Graph × Nat :=
  let (nodes, foldedTotal) := foldRounds floatInts g fp32Pins kMovementFoldMaxRounds g.nodes
  ({ g with nodes }, foldedTotal)

end Vknn.Import
