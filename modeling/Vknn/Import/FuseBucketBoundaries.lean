import Vknn.Import.OnnxGraphBuilder
import Vknn.Lib.Loop

/-!
# Fusing hand-offs between buckets

Several graphs of one model are chained by name: what one gives out under a name, another
takes in under the same name and with the same shape.  The pass copies the producer into the
consumer, which then makes the value itself, and deletes a producer that nobody takes from
any more.  It starts over after each merge, until there is no hand-off left.

The features of an image encoder are handed on in another way: a decoder that makes its
embeddings itself gets a second copy that scatters the features into them.
-/

namespace Vknn.Import

open Function

/-! ## Merging two graphs -/

def boundaryNames (g : Graph) (ids : List TensorId) : List Str := ids.map fun id => (g.desc id).name

def dropFromList (list : List TensorId) (id : TensorId) : List TensorId := list.filter (· ≠ id)

/-- The consumer while a producer is copied into it, and the names its tensors get there. -/
structure MergeState where
  dst : Graph
  remap : TensorId → Option TensorId

/-- An input of the producer becomes an input of the consumer, unless that has one of the name. -/
def mergeInput (src : Graph) (st : MergeState) (si : TensorId) : MergeState :=
  let existing := st.dst.find (src.desc si).name
  if existing ≠ kNoTensor ∧ existing ∈ st.dst.inputs then
    { st with remap := update st.remap si (some existing) }
  else
    let (dst, nt) := st.dst.addTensor { src.desc si with isOutput := false }
    { dst := { dst with inputs := dst.inputs ++ [nt] }
      remap := update st.remap si (some nt) }

/-- Every other tensor of the producer gets a fresh one. -/
def mergeTensor (src : Graph) (st : MergeState) (t : TensorId) : MergeState :=
  if (st.remap t).isSome then st
  else
    let (dst, nt) := st.dst.addTensor { src.desc t with isInput := false, isOutput := false }
    { dst :=
        match src.initializers[t]? with
        | some payload => { dst with initializers := dst.initializers.insert nt payload }
        | none => dst
      remap := update st.remap t (some nt) }

def remapId (remap : TensorId → Option TensorId) (t : TensorId) : TensorId :=
  if t = kNoTensor then t else (remap t).getD t

/-- A node of the producer under the names of the consumer. -/
def copyNode (remap : TensorId → Option TensorId) (sn : Node) : Node :=
  { sn with
    inputs := sn.inputs.map (remapId remap)
    outputs := sn.outputs.map (remapId remap)
    fusedResidual := remapId remap sn.fusedResidual
    fusedBias := remapId remap sn.fusedBias }

def tensorIds (g : Graph) : List TensorId := (List.range g.tensors.length).map fun t : Nat => (t : Int)

def notInput (d : TensorDesc) : TensorDesc := { d with isInput := false }

/-- The consumer without its boundary input, onto which every tensor of that name is mapped. -/
def openBoundary (src dst : Graph) (boundary : Str) : MergeState :=
  let dstIn := dst.find boundary
  let opened := dst.updateDesc dstIn notInput
  { dst := { opened with inputs := dropFromList opened.inputs dstIn }
    remap := fun t =>
      if 0 ≤ t ∧ t < src.tensors.length ∧ (src.desc t).name = boundary then some dstIn else none }

/-- Every tensor of the producer has a place in the consumer. -/
def mergedTensors (src dst : Graph) (boundary : Str) : MergeState :=
  (tensorIds src).foldl (mergeTensor src)
    (src.inputs.foldl (mergeInput src) (openBoundary src dst boundary))

/-- The producer copied into the consumer, before its nodes. -/
def mergeProducerInto (src dst : Graph) (boundary : Str) : Graph :=
  if src.find boundary = kNoTensor ∨ dst.find boundary = kNoTensor then dst
  else
    let st := mergedTensors src dst boundary
    { st.dst with nodes := src.nodes.map (copyNode st.remap) ++ st.dst.nodes }

/-! ## Hand-offs -/

/-- The graphs of a model, with their names. -/
structure Buckets where
  graphs : List Graph
  names : List Str

def bucketAt (graphs : List Graph) (i : Nat) : Graph := graphs.getD i {}

/-- A graph takes in a tensor of the name and the shape. -/
def takesIn (g : Graph) (name : Str) (shape : Shape) : Bool :=
  let id := g.find name
  id ≠ kNoTensor && g.inputs.contains id && (g.desc id).shape = shape

/-- What the producer finds under a name the consumer takes in, at the same shape. -/
def handsOff (producer consumer : Graph) (name : Str) : Bool :=
  let aid := producer.find name
  aid ≠ kNoTensor && takesIn consumer name (producer.desc aid).shape

/-- The first hand-off between two graphs; the empty name when there is none. -/
def boundaryOf (producer consumer : Graph) : Str :=
  ((boundaryNames producer producer.outputs).find? (handsOff producer consumer)).getD []

def firstConsumer (graphs : List Graph) (a : Nat) : Option (Nat × Str) :=
  (List.range graphs.length).findSome? fun b =>
    let boundary := boundaryOf (bucketAt graphs a) (bucketAt graphs b)
    if b = a ∨ boundary = [] then none else some (b, boundary)

/-- The first producer that has a consumer, with that. -/
def firstHandOff (graphs : List Graph) : Option (Nat × Nat × Str) :=
  (List.range graphs.length).findSome? fun a =>
    (firstConsumer graphs a).map fun consumer => (a, consumer)

/-- Another graph still takes in an output of the producer. -/
def stillConsumed (graphs : List Graph) (a : Nat) : Bool :=
  let producer := bucketAt graphs a
  producer.outputs.any fun ao => (List.range graphs.length).any fun c =>
    c ≠ a && takesIn (bucketAt graphs c) (producer.desc ao).name (producer.desc ao).shape

/-- One merge: the producer is copied into the consumer, and deleted when nobody takes from it. -/
def mergeStep (buckets : Buckets) : Option Buckets :=
  (firstHandOff buckets.graphs).map fun (a, b, boundary) =>
    let merged := mergeProducerInto (bucketAt buckets.graphs a) (bucketAt buckets.graphs b) boundary
    let graphs := buckets.graphs.set b merged
    if stillConsumed graphs a then { buckets with graphs }
    else { graphs := graphs.eraseIdx a, names := buckets.names.eraseIdx a }

/-! ## Image features -/

/-- Nodes that write under another name what they wrote under a name. -/
def renameOutput (out other : TensorId) (nodes : List Node) : List Node :=
  nodes.map fun n => { n with outputs := n.outputs.map fun o => if o = out then other else o }

/-- The copy of a decoder that scatters features into its embeddings. -/
def spliceImageFeatures (dec : Graph) (embeds : TensorId) (featureName : Str) (featureShape : Shape)
    (featureDtype : DType) : Graph :=
  let desc := dec.desc embeds
  let (dec, preEmbeds) := dec.addTensor
    { desc with
      name := desc.name ++ str ".pre_image_splice"
      isInput := false, isOutput := false, isInitializer := false }
  match dec.nodes.reverse.findIdx? fun n => n.outputs.contains embeds with
  | none => dec
  | some fromEnd =>
    let producerIndex := dec.nodes.length - 1 - fromEnd
    let dec := { dec with nodes := renameOutput embeds preEmbeds dec.nodes }
    let (dec, features) := dec.addTensor
      { name := featureName, shape := featureShape, dtype := featureDtype, isInput := true }
    let dec := { dec with inputs := dec.inputs ++ [features] }
    let (dec, positions) := dec.addTensor
      { name := str "image_positions", shape := [1, featureShape.getD 1 0, 2], dtype := .float32,
        isInput := true }
    let dec := { dec with inputs := dec.inputs ++ [positions] }
    let scatter : Node :=
      { type := .scatterND, name := str "image_splice/ScatterND",
        inputs := [preEmbeds, positions, features], outputs := [embeds] }
    { dec with nodes := dec.nodes.insertIdx (producerIndex + 1) scatter }

/-- Another graph takes in a tensor of the name. -/
def consumedElsewhere (graphs : List Graph) (v : Nat) (name : Str) : Bool :=
  (List.range graphs.length).any fun c =>
    let cid := (bucketAt graphs c).find name
    c ≠ v && cid ≠ kNoTensor && (bucketAt graphs c).inputs.contains cid

/-- The output of an image encoder that fits a decoder. -/
def imageFeature (graphs : List Graph) (d : Nat) (seqLen hidden : Int) : Option TensorDesc :=
  (List.range graphs.length).findSome? fun v =>
    if v = d then none
    else
      ((bucketAt graphs v).outputs.map (bucketAt graphs v).desc).find? fun cd =>
        cd.shape.length = 3 && cd.shape.getD 0 0 = 1 && cd.shape.getD 2 0 = hidden &&
          cd.shape.getD 1 0 ≤ seqLen && !consumedElsewhere graphs v cd.name

/-- The image-capable copy of a graph, if it makes embeddings that features fit. -/
def imageCopy (graphs : List Graph) (d : Nat) : Option Graph :=
  let decoder := bucketAt graphs d
  let embeds := decoder.find (str "inputs_embeds")
  let shape := (decoder.desc embeds).shape
  if embeds = kNoTensor || decoder.inputs.contains embeds || shape.length ≠ 3 then none
  else
    (imageFeature graphs d (shape.getD 1 0) (shape.getD 2 0)).map fun cd =>
      spliceImageFeatures decoder embeds cd.name cd.shape cd.dtype

/-- The copies are put behind their originals, from a position on for so many graphs. -/
def spliceFrom : Nat → Nat → Buckets → Buckets
  | 0, _, buckets => buckets
  | left + 1, d, buckets =>
    match imageCopy buckets.graphs d with
    | none => spliceFrom left (d + 1) buckets
    | some copy =>
      spliceFrom left (d + 2)
        { graphs := buckets.graphs.insertIdx (d + 1) copy
          names := buckets.names.insertIdx (d + 1) (buckets.names.getD d [] ++ str " (image)") }

/-! ## The pass -/

/-- The pass with fuel for its merges; nothing when the fuel runs out. -/
def fuseBucketBoundaries (fuel : Nat) (buckets : Buckets) : Option Buckets :=
  if buckets.graphs.length < 2 then some buckets
  else (Loop.run mergeStep fuel buckets).map fun merged => spliceFrom merged.graphs.length 0 merged

end Vknn.Import
