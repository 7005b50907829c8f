import Vknn.Import.Nc4Packing
import Vknn.Import.OnnxGraphBuilder

/-!
# Assigning layouts and inserting conversions

Every tensor on the device is stored flat or in blocks of four channels.  The pass first gives
each tensor a layout: the operators with one kernel decide theirs, the operators that only copy
take over the layout of what they read where the two shapes are stored alike, some fused
operators vote, graph inputs that only flat readers read become flat, and a shape of more than
four dimensions is flat at any rate.  Then every read whose reader operates in the other layout
is routed through a conversion, which all readers of a tensor share, and a packed graph output
gets a flat copy under its name.
-/

namespace Vknn

namespace Import.Layout

/-! ## The operators -/

/-- How the kernel of an operator reads its tensors. -/
inductive LayoutClass where
  | nc4 | flat | shapeDependent
deriving DecidableEq

/-- The layout column of the operator table. -/
def layoutClass : OpType → LayoutClass
  | .clip | .matMul | .expand | .tile | .layerNorm | .rmsNorm | .transpose | .slice | .reduce
  | .depthToSpace | .where | .equal | .greater | .greaterEqual | .less | .lessEqual
  | .constantOfShape | .range | .quantizeLinear | .dequantizeLinear | .isNaN | .and | .rope
  | .fusedAttention | .det | .or | .xor | .not | .argMax | .argMin | .mod | .bitShift
  | .bitwiseAnd | .bitwiseOr | .bitwiseXor | .bitwiseNot => .flat
  | .convTranspose | .add | .einsum | .softmax | .concat | .pad | .gather | .binary | .split
  | .scatterND | .fusedPointwise | .topK | .channelShuffle => .shapeDependent
  | _ => .nc4

def out0 (nd : Node) : TensorId := nd.outputs.headD kNoTensor

def in0 (nd : Node) : TensorId := nd.inputs.headD kNoTensor

/-- Whether a node may read its data operand's packed buffer as its own. -/
def agnosticKeepsNc4Packing (g : Graph) (nd : Node) : Bool :=
  if in0 nd = kNoTensor ∨ out0 nd = kNoTensor then true
  else nc4PackingIdentical (g.desc (in0 nd)).shape (g.desc (out0 nd)).shape

/-- A possibly negative axis attribute. -/
def axisOf (nd : Node) (d rank : Int) : Int :=
  let axis := nd.attr.geti (str "axis") d
  if axis < 0 then axis + rank else axis

/-- Whether a shape has four dimensions and whole blocks of channels. -/
def wholeBlocks (s : Shape) : Bool := s.length = 4 && (s.getD 1 0).tmod 4 = 0

/-- Whether one shape is the other's channels over a larger plane. -/
def broadcastsChannels (s f : Shape) : Bool :=
  s.length = 4 && f.length = 4 && s.getD 0 0 = f.getD 0 0 && s.getD 1 0 = f.getD 1 0 &&
    s.getD 2 0 = 1 && s.getD 3 0 = 1 && (1 < f.getD 2 0 || 1 < f.getD 3 0)

/-- Whether the node runs as a flat operator. -/
def gpuFlatNode (g : Graph) (nd : Node) : Bool :=
  let sh (t : TensorId) : Shape := (g.desc t).shape
  match layoutClass nd.type with
  | .flat => true
  | .nc4 => false
  | .shapeDependent =>
    match nd.type with
    | .convTranspose =>
      if (sh (in0 nd)).length ≠ 4 then false
      else 2 ≤ nd.inputs.length && nd.inputs.getD 1 kNoTensor ≠ kNoTensor
    | .pad =>
      let mode := nd.attr.gets (str "mode") (str "constant")
      if mode ≠ str "constant" ∧ mode ≠ str "edge" ∧ mode ≠ str "reflect" then false
      else
        nd.attr.getints (str "pads") ≠ [] ||
          (1 < nd.inputs.length && nd.inputs.getD 1 kNoTensor ≠ kNoTensor &&
            g.isInitializer (nd.inputs.getD 1 kNoTensor))
    | .gather => 2 ≤ nd.inputs.length
    | .split =>
      let shape := sh (in0 nd)
      if shape.length = 4 ∧ axisOf nd 0 shape.length = 1 then
        nd.outputs.any fun o => o ≠ kNoTensor && !wholeBlocks (sh o)
      else true
    | .scatterND => 3 ≤ nd.inputs.length
    | .topK =>
      if sh (in0 nd) = [] then false
      else
        nd.attr.has (str "k") ||
          (1 < nd.pwCoreInputs && nd.inputs.getD 1 kNoTensor ≠ kNoTensor &&
            g.isInitializer (nd.inputs.getD 1 kNoTensor))
    | .einsum =>
      (nd.attr.gets (str "equation") []).filter (fun c => c ≠ 32 && c ≠ 9) = str "i,j->ij"
    | .softmax =>
      if nd.inputs = [] then false
      else
        let s := sh (in0 nd)
        if s.length < 2 then true
        else
          let x := NCHW.ofShape s
          let inner := (s.drop (axisOf nd (-1) s.length).toNat).foldl (fun p d => p * d) 1
          !(x.h * x.w = 1 && inner = x.c)
    | .concat =>
      let shape := sh (out0 nd)
      if shape.length ≠ 4 ∨ axisOf nd 1 shape.length ≠ 1 then true
      else (nd.inputs.take nd.pwCoreInputs).any fun t => !wholeBlocks (sh t)
    | .binary | .add =>
      match nd.inputs with
      | [x, y] =>
        if g.isInitializer x || g.isInitializer y then true
        else if (sh x).length = 4 ∧ (sh y).length = 4 ∧ sh x = sh y then false
        else if nd.type = .binary ∧
            (broadcastsChannels (sh x) (sh y) ∨ broadcastsChannels (sh y) (sh x)) then false
        else true
      | _ => false
    | .fusedPointwise => nd.attr.geti (str "pw_flat") 0 ≠ 0
    | .channelShuffle =>
      if in0 nd = kNoTensor then false
      else (g.desc (in0 nd)).gpuFlat || !agnosticKeepsNc4Packing g nd
    | _ => false

/-- The operators that copy their operand element for element, or have a kernel in both
layouts. -/
def layoutAgnostic (nd : Node) : Bool :=
  nd.type = .reshape || nd.type = .flatten || nd.type = .squeeze || nd.type = .unsqueeze ||
    nd.type = .cast || nd.type = .channelShuffle

/-- Whether the grid of a sampling is read flat in any layout. -/
def readsGrid (nd : Node) (inputIndex : Nat) : Bool :=
  nd.type = .gridSample && inputIndex = 1 && !nd.attr.has (str "warp")

/-- The layout a node operates in: that of its first output. -/
def operatesFlat (g : Graph) (nd : Node) : Bool :=
  if out0 nd = kNoTensor then false else (g.desc (out0 nd)).gpuFlat

/-- The layout a node reads an input in. -/
def readerWantsFlat (g : Graph) (nd : Node) (inputIndex : Nat) : Bool :=
  if readsGrid nd inputIndex then true else operatesFlat g nd

/-- Whether a node runs in its data operand's layout whichever that is. -/
def passesLayoutThrough (g : Graph) (nd : Node) : Bool :=
  layoutAgnostic nd && in0 nd ≠ kNoTensor && out0 nd ≠ kNoTensor && agnosticKeepsNc4Packing g nd

/-! ## Seeding -/

def setFlat (g : Graph) (f : Bool) (o : TensorId) : Graph :=
  if o ≠ kNoTensor then g.updateDesc o fun d => { d with gpuFlat := f } else g

/-- The layout a node gives its outputs. -/
def seedLayout (g : Graph) (nd : Node) : Bool :=
  if layoutAgnostic nd ∧ in0 nd ≠ kNoTensor then
    (g.desc (in0 nd)).gpuFlat || !agnosticKeepsNc4Packing g nd
  else gpuFlatNode g nd

def seedNode (g : Graph) (nd : Node) : Graph :=
  nd.outputs.foldl (fun h o => setFlat h (seedLayout g nd) o) g

/-- Give the outputs of all nodes their layouts in node order. -/
def seedFromProducers (g : Graph) : Graph := g.nodes.foldl seedNode g

/-! ## The vote of the flexible nodes -/

/-- Whether a fused pointwise node can run in both layouts. -/
def isFlexible (g : Graph) (nd : Node) : Bool :=
  if nd.type ≠ .fusedPointwise ∨ !nd.attr.has (str "pw_steps") ∨ out0 nd = kNoTensor then false
  else if (g.desc (out0 nd)).shape.length ≠ 4 then false
  else
    let steps := nd.attr.getints (str "pw_steps")
    steps.length % 8 = 0 &&
      (List.range (steps.length / 8)).all fun s => steps.getD (8 * s + 6) 0 ≠ 2

def flexibleNodes (g : Graph) : List Nat :=
  (List.range g.nodes.length).filter fun i => isFlexible g (g.node i)

/-- The nodes that read a tensor, once for every input that does. -/
def readersOf (g : Graph) (t : TensorId) : List Nat :=
  (List.range g.nodes.length).flatMap fun j =>
    ((g.node j).inputs.filter fun x => x = t).map fun _ => j

def runsFlat (nd : Node) : Bool := nd.attr.geti (str "pw_flat") 0 ≠ 0

/-- The edges whose far end has a layout: the tensor, and whether that layout is flat. -/
def voteEdges (g : Graph) (flexible : List Nat) (nd : Node) : List (TensorId × Bool) :=
  ((nd.inputs.filter fun x => x ≠ kNoTensor && !g.isInitializer x).map fun x =>
      (x, (g.desc x).gpuFlat)) ++
    (nd.outputs.filter fun o => o ≠ kNoTensor).flatMap fun o =>
      (readersOf g o).filterMap fun j =>
        let r := g.node j
        if layoutAgnostic r then
          if in0 r = o ∧ !agnosticKeepsNc4Packing g r then some (o, true) else none
        else some (o, if j ∈ flexible then runsFlat r else gpuFlatNode g r)

/-- The elements that cross a conversion where the far end has the given layout. -/
def voteCost (g : Graph) (edges : List (TensorId × Bool)) (neighborFlat : Bool) : Int :=
  ((edges.filter fun e => e.2 = neighborFlat).map fun e => elemCount (g.desc e.1).shape).sum

/-- The layout a flexible node prefers; a tie keeps the one it has. -/
def wantsFlat (g : Graph) (flexible : List Nat) (nd : Node) : Bool :=
  let edges := voteEdges g flexible nd
  let flatCost := voteCost g edges false
  let nc4Cost := voteCost g edges true
  if flatCost ≠ nc4Cost then flatCost < nc4Cost else runsFlat nd

/-- Set the layout a fused node runs in. -/
def setRunsFlat (f : Bool) (nd : Node) : Node :=
  { nd with
    attr := { map := nd.attr.map.insert (str "pw_flat") { kind := .int, i := if f then 1 else 0 } } }

def voteNode (flexible : List Nat) (state : Graph × Bool) (i : Nat) : Graph × Bool :=
  let want := wantsFlat state.1 flexible (state.1.node i)
  if want ≠ runsFlat (state.1.node i) then
    ({ state.1 with nodes := state.1.nodes.modify i (setRunsFlat want) }, true)
  else state

/-- Vote until nobody changes, for a bounded number of rounds. -/
def voteRounds (flexible : List Nat) : Nat → Graph → Graph
  | 0, g => g
  | rounds + 1, g =>
    let voted := flexible.foldl (voteNode flexible) (g, false)
    if voted.2 then voteRounds flexible rounds (seedFromProducers voted.1) else voted.1

/-! ## The layout of graph inputs -/

/-- One read of a tensor: an input of a node, or a fused edge. -/
structure TensorRead where
  node : Nat
  slot : Nat
  fusedEdge : Bool

def readsOf (g : Graph) (t : TensorId) : List TensorRead :=
  (List.range g.nodes.length).flatMap fun i =>
    let nd := g.node i
    (((List.range nd.inputs.length).filter fun k => nd.inputs.getD k kNoTensor = t).map fun k =>
        ⟨i, k, false⟩) ++
      (([nd.fusedResidual, nd.fusedBias].filter fun e => e = t).map fun _ => ⟨i, 0, true⟩)

/-- Whether a read runs flat, where the pass-through outputs with flat reads are known. -/
def readRunsFlat (g : Graph) (through : TensorId → Bool) (read : TensorRead) : Bool :=
  let reader := g.node read.node
  if read.fusedEdge then operatesFlat g reader
  else if read.slot = 0 ∧ passesLayoutThrough g reader then through (out0 reader)
  else readerWantsFlat g reader read.slot

def allReadsRunFlat (g : Graph) (through : TensorId → Bool) (t : TensorId) : Bool :=
  readsOf g t ≠ [] && (readsOf g t).all (readRunsFlat g through)

/-- The pass-through outputs all of whose reads run flat, found from the last node to the
first. -/
def passThroughOutputReadsFlat (g : Graph) : TensorId → Bool :=
  g.nodes.foldr (fun nd through =>
    if passesLayoutThrough g nd ∧ out0 nd < (g.tensors.length : Int) ∧ out0 nd ∉ g.outputs then
      let flat := allReadsRunFlat g through (out0 nd)
      fun t => if t = out0 nd then flat else through t
    else through) fun _ => false

def isProduced (g : Graph) (t : TensorId) : Bool :=
  g.nodes.any fun nd => nd.outputs.any fun o => o ≠ kNoTensor && o = t

/-- Give the flat layout to the tensors that nobody writes and only flat readers read. -/
def adoptRound (g : Graph) : Graph × Bool :=
  let through := passThroughOutputReadsFlat g
  (List.range g.tensors.length).foldl (fun (state : Graph × Bool) (i : Nat) =>
    let t : TensorId := i
    if state.1.isInitializer t || isProduced g t || (state.1.desc t).gpuFlat then state
    else if allReadsRunFlat state.1 through t then (setFlat state.1 true t, true)
    else state) (g, false)

def adoptInputs : Nat → Graph → Graph
  | 0, g => g
  | rounds + 1, g =>
    let adopted := adoptRound g
    if adopted.2 then adoptInputs rounds (seedFromProducers adopted.1) else adopted.1

/-! ## The assignment -/

/-- More than four dimensions are flat. -/
def flattenHighRanks (g : Graph) : Graph :=
  { g with
    tensors := g.tensors.map fun d => if 4 < d.shape.length then { d with gpuFlat := true } else d }

def globalLayoutAssign (g : Graph) : Graph :=
  let seeded := seedFromProducers g
  let voted := voteRounds (flexibleNodes seeded) 8 seeded
  flattenHighRanks (adoptInputs 8 voted)

/-! ## The conversions -/

/-- The state of the splicer: the graph with the tensors made so far, the conversions found so
far by tensor and layout, and the conversion nodes. -/
structure Splice where
  g : Graph
  cache : List ((TensorId × Bool) × TensorId) := []
  converts : List Node := []
  n : Nat := 0

/-- Route one read through a conversion where the tensor is stored in the other layout. -/
def convertRead (st : Splice) (ref : TensorId) (wantFlat : Bool) : Splice × TensorId :=
  if ref = kNoTensor ∨ st.g.isInitializer ref then (st, ref)
  else if (st.g.desc ref).gpuFlat = wantFlat then (st, ref)
  else
    match st.cache.lookup (ref, wantFlat) with
    | some t2 => (st, t2)
    | none =>
      let d : TensorDesc :=
        { st.g.desc ref with
          name := (st.g.desc ref).name ++ (if wantFlat then str "#flat" else str "#nc4") ++
            decimal st.n
          isInitializer := false
          isInput := false
          isOutput := false
          gpuFlat := wantFlat }
      let made := st.g.addTensor d
      ({ g := made.1
         cache := ((ref, wantFlat), made.2) :: st.cache
         converts := st.converts ++
           [{ type := .convertLayout, name := str "convert" ++ decimal st.n,
              subOp := if wantFlat then 0 else 1, inputs := [ref], outputs := [made.2] }]
         n := st.n + 1 },
        made.2)

/-- Route the inputs of a node from an index on. -/
def convertInputs (nd : Node) (needFlat : Bool) :
    Nat → Splice → List TensorId → Splice × List TensorId
  | _, st, [] => (st, [])
  | inIdx, st, ref :: refs =>
    let read := convertRead st ref (if readsGrid nd inIdx then true else needFlat)
    let rest := convertInputs nd needFlat (inIdx + 1) read.1 refs
    (rest.1, read.2 :: rest.2)

/-- Route all reads of a node; one without a first output is left alone. -/
def spliceNode (st : Splice) (nd : Node) : Splice × Node :=
  if out0 nd = kNoTensor then (st, nd)
  else
    let needFlat := (st.g.desc (out0 nd)).gpuFlat
    let ins := convertInputs nd needFlat 0 st nd.inputs
    let residual := convertRead ins.1 nd.fusedResidual needFlat
    let bias := convertRead residual.1 nd.fusedBias needFlat
    (bias.1, { nd with inputs := ins.2, fusedResidual := residual.2, fusedBias := bias.2 })

def spliceNodes : Splice → List Node → Splice × List Node
  | st, [] => (st, [])
  | st, nd :: nodes =>
    let here := spliceNode st nd
    let rest := spliceNodes here.1 nodes
    (rest.1, here.2 :: rest.2)

/-- Give a packed graph output a flat copy under its name. -/
def spliceOutput (st : Splice) (out : TensorId) : Splice × TensorId :=
  if out = kNoTensor ∨ st.g.isInitializer out ∨ (st.g.desc out).gpuFlat then (st, out)
  else
    let d : TensorDesc :=
      { st.g.desc out with isInitializer := false, isInput := false, isOutput := true, gpuFlat := true }
    let renamed := st.g.updateDesc out fun d =>
      { d with name := d.name ++ str "#nc4", isOutput := false }
    let made := renamed.addTensor d
    ({ st with
        g := made.1
        converts := st.converts ++
          [{ type := .convertLayout, name := str "convertout" ++ decimal st.n, subOp := 0,
             inputs := [out], outputs := [made.2] }]
        n := st.n + 1 },
      made.2)

def spliceOutputs : Splice → List TensorId → Splice × List TensorId
  | st, [] => (st, [])
  | st, out :: outs =>
    let here := spliceOutput st out
    let rest := spliceOutputs here.1 outs
    (rest.1, here.2 :: rest.2)

/-- Assign layouts, and insert a conversion wherever a tensor is read in the other layout. -/
def insertLayoutConverts (g : Graph) : Except Error Graph :=
  let assigned := globalLayoutAssign g
  let nodes := spliceNodes { g := assigned } assigned.nodes
  let outs := spliceOutputs nodes.1 assigned.outputs
  let spliced : Graph := { outs.1.g with nodes := nodes.2, outputs := outs.2 }
  if outs.1.converts = [] then .ok spliced
  else Graph.topoSort { spliced with nodes := nodes.2 ++ outs.1.converts }

end Import.Layout

end Vknn
