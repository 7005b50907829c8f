import Vknn.Session.Bind
import Vknn.Lib.Entries

/-!
# Building a graph from an ONNX model

The fields of the model are collected in the order they stand in: graph inputs and outputs
get a tensor by name at once, nodes keep the raw names of what they read and write.  Then
every initializer gets its data, and the names of the nodes are resolved.

Names are not unique in traces.  Resolution walks the nodes with a table of the latest
definition of each name: an input takes what the table holds, and every output takes a new
tensor, which the table and the name index of the graph then hold.

The host data of an initializer is the parameter `fill`, and the integer widths stamped on
bit operations are the parameter `widths`: both are read, never the tensors of a node.
-/

namespace Vknn

open Std

/-! ## Tensors by name -/

namespace Graph

/-- Append a tensor; a named one joins the name index. -/
def addTensor (g : Graph) (d : TensorDesc) : Graph × TensorId :=
  ({ g with
      tensors := g.tensors ++ [d]
      tensorByName :=
        if d.name = [] then g.tensorByName
        else g.tensorByName.insert d.name (g.tensors.length : Int) },
    (g.tensors.length : Int))

/-- The tensor with a name, made if there is none. -/
def findOrAdd (g : Graph) (name : Str) : Graph × TensorId :=
  match g.tensorByName[name]? with
  | some id => (g, id)
  | none => g.addTensor { name := name }

/-- Change the descriptor of a tensor. -/
def updateDesc (g : Graph) (id : TensorId) (f : TensorDesc → TensorDesc) : Graph :=
  if 0 ≤ id then { g with tensors := g.tensors.modify id.toNat f } else g

end Graph

def opTypeName : OpType → Str
  | .conv => str "Conv"
  | .convTranspose => str "ConvTranspose"
  | .clip => str "Clip"
  | .relu => str "Relu"
  | .add => str "Add"
  | .globalAvgPool => str "GlobalAveragePool"
  | .avgPool => str "AveragePool"
  | .maxPool => str "MaxPool"
  | .gemm => str "Gemm"
  | .matMul => str "MatMul"
  | .einsum => str "Einsum"
  | .reshape => str "Reshape"
  | .expand => str "Expand"
  | .tile => str "Tile"
  | .squeeze => str "Squeeze"
  | .flatten => str "Flatten"
  | .softmax => str "Softmax"
  | .layerNorm => str "LayerNormalization"
  | .batchNorm => str "BatchNormalization"
  | .concat => str "Concat"
  | .pad => str "Pad"
  | .identity => str "Identity"
  | .constant => str "Constant"
  | .shape => str "Shape"
  | .gather => str "Gather"
  | .unsqueeze => str "Unsqueeze"
  | .unary => str "Unary"
  | .binary => str "Binary"
  | .pRelu => str "PRelu"
  | .resize => str "Resize"
  | .gridSample => str "GridSample"
  | .transpose => str "Transpose"
  | .slice => str "Slice"
  | .reduce => str "Reduce"
  | .depthToSpace => str "DepthToSpace"
  | .cast => str "Cast"
  | .split => str "Split"
  | .«where» => str "Where"
  | .equal => str "Equal"
  | .greater => str "Greater"
  | .greaterEqual => str "GreaterEqual"
  | .constantOfShape => str "ConstantOfShape"
  | .range => str "Range"
  | .eyeLike => str "EyeLike"
  | .scatterND => str "ScatterND"
  | .fusedSE => str "FusedSE"
  | .fusedDwPw => str "FusedDwPw"
  | .fusedPointwise => str "FusedPointwise"
  | .convertLayout => str "ConvertLayout"
  | .convertDtype => str "ConvertDtype"
  | .convGemm => str "ConvGemm"
  | .less => str "Less"
  | .lessEqual => str "LessEqual"
  | .dropout => str "Dropout"
  | .topK => str "TopK"
  | .instanceNorm => str "InstanceNormalization"
  | .quantizeLinear => str "QuantizeLinear"
  | .dequantizeLinear => str "DequantizeLinear"
  | .dynamicQuantizeLinear => str "DynamicQuantizeLinear"
  | .qLinearConv => str "QLinearConv"
  | .qLinearMatMul => str "QLinearMatMul"
  | .qLinearAdd => str "QLinearAdd"
  | .qLinearGlobalAveragePool => str "QLinearGlobalAveragePool"
  | .matMulInteger => str "MatMulInteger"
  | .convInteger => str "ConvInteger"
  | .qGemm => str "QGemm"
  | .isNaN => str "IsNaN"
  | .and => str "And"
  | .rmsNorm => str "RMSNorm"
  | .simplifiedLayerNorm => str "SimplifiedLayerNormalization"
  | .skipSimplifiedLayerNorm => str "SkipSimplifiedLayerNormalization"
  | .skipLayerNorm => str "SkipLayerNormalization"
  | .rotaryEmbedding => str "RotaryEmbedding"
  | .multiHeadAttention => str "MultiHeadAttention"
  | .groupQueryAttention => str "GroupQueryAttention"
  | .matMulNBits => str "MatMulNBits"
  | .rope => str "Rope"
  | .fusedAttention => str "FusedAttention"
  | .det => str "Det"
  | .channelShuffle => str "ChannelShuffle"
  | .or => str "Or"
  | .xor => str "Xor"
  | .not => str "Not"
  | .argMax => str "ArgMax"
  | .argMin => str "ArgMin"
  | .mod => str "Mod"
  | .bitShift => str "BitShift"
  | .bitwiseAnd => str "BitwiseAnd"
  | .bitwiseOr => str "BitwiseOr"
  | .bitwiseXor => str "BitwiseXor"
  | .bitwiseNot => str "BitwiseNot"
  | .mean => str "Mean"
  | _ => str "Unknown"

namespace Onnx

/-! ## The model that is read -/

/-- A decoded tensor of the model; `payload` is what its element data is decoded from. -/
structure TensorProto where
  name : Str := []
  dims : List Int := []
  dataType : Int := 1
  payload : List UInt8 := []

/-- A field of the model's graph, decoded.  A node comes with the names it reads and writes. -/
inductive GraphField where
  | node (n : Node) (ins outs : List Str)
  | initializer (tp : TensorProto)
  | input (name : Str) (shape : Shape) (elem : Int) (params : List Str)
  | output (name : Str) (shape : Shape) (elem : Int)
  | valueInfo (name : Str) (shape : Shape) (elem : Int)

/-- The compute type of an element type. -/
def dtypeFromElem (el : Int) : DType :=
  if el = 10 then .float16
  else if el = 7 then .int64
  else if el = 6 then .int32
  else if el = 3 then .int8
  else if el = 2 ∨ el = 9 then .uint8
  else .float32

def fullyStatic (sh : Shape) : Bool := sh.all fun d => 0 ≤ d

/-- A node with the names it reads and writes. -/
structure RawNode where
  node : Node
  ins : List Str
  outs : List Str

/-- What has been built so far. -/
structure Builder where
  g : Graph := {}
  inits : List TensorProto := []
  nodes : List RawNode := []
  valueInfoShapes : ExtTreeMap Str Shape := ∅
  valueInfoElemTypes : ExtTreeMap Str Int := ∅
  declaredElemTypes : ExtTreeMap TensorId Int := ∅

namespace Builder

/-- Record the declared element type of a tensor, unless it is undefined. -/
def declare (types : ExtTreeMap TensorId Int) (id : TensorId) (el : Int) :
    ExtTreeMap TensorId Int :=
  if el = 0 then types else types.insert id el

def collectField (b : Builder) : GraphField → Builder
  | .node n ins outs => { b with nodes := b.nodes ++ [⟨n, ins, outs⟩] }
  | .initializer tp => { b with inits := b.inits ++ [tp] }
  | .input name shape elem params =>
    let (g, id) := b.g.findOrAdd name
    let g := g.updateDesc id fun d =>
      { d with shape := shape, dimParams := params, dtype := dtypeFromElem elem, isInput := true }
    { b with
      g := { g with inputs := g.inputs ++ [id] }
      declaredElemTypes := declare b.declaredElemTypes id elem }
  | .output name shape elem =>
    let (g, id) := b.g.findOrAdd name
    let g := g.updateDesc id fun d =>
      { d with
        shape := if fullyStatic shape then shape else d.shape
        dtype := dtypeFromElem elem
        isOutput := true }
    { b with
      g := { g with outputs := g.outputs ++ [id] }
      declaredElemTypes := declare b.declaredElemTypes id elem }
  | .valueInfo name shape elem =>
    { b with
      valueInfoShapes :=
        if name ≠ [] ∧ shape ≠ [] then b.valueInfoShapes.insert name shape else b.valueInfoShapes
      valueInfoElemTypes :=
        if name ≠ [] ∧ elem ≠ 0 then b.valueInfoElemTypes.insert name elem
        else b.valueInfoElemTypes }

def collect (fields : List GraphField) : Builder := fields.foldl collectField {}

/-- The storage type of an initializer: 64-bit integers for what single precision cannot hold, bytes
for quantized data, single precision for the rest. -/
def storageType (dataType : Int) : DType :=
  if dataType = 7 ∨ dataType = 12 ∨ dataType = 13 then .int64
  else if dataType = 3 then .int8
  else if dataType = 2 then .uint8
  else .float32

section Phases

variable (fill : TensorProto → Int → HostBuffer)

def materialize (b : Builder) (tp : TensorProto) : Builder :=
  let (g, id) := b.g.findOrAdd tp.name
  let g := g.updateDesc id fun d =>
    { d with isInitializer := true, shape := tp.dims, dtype := storageType tp.dataType }
  { b with
    g := { g with
      initializers := g.initializers.insert id (fill tp (tp.dims.foldl (fun n x => n * x) 1)) }
    declaredElemTypes := b.declaredElemTypes.insert id tp.dataType }

def materializeInitializers (b : Builder) : Builder := b.inits.foldl (materialize fill) b

/-! ## Resolving the names -/

def producerCount (b : Builder) (s : Str) : Nat := (b.nodes.flatMap RawNode.outs).count s

/-- What changes while the names are resolved. -/
structure Walk where
  g : Graph
  latest : ExtTreeMap Str TensorId
  declaredElemTypes : ExtTreeMap TensorId Int

/-- The tensors some names are read from. -/
def resolveInputs (w : Walk) : List Str → Walk × List TensorId
  | [] => (w, [])
  | s :: ins =>
    if s = [] then
      let (w, ids) := resolveInputs w ins
      (w, kNoTensor :: ids)
    else
      match w.latest[s]? with
      | some id =>
        let (w, ids) := resolveInputs w ins
        (w, id :: ids)
      | none =>
        let (g, id) := w.g.findOrAdd s
        let (w, ids) := resolveInputs { w with g := g } ins
        (w, id :: ids)

/-- The descriptor of a node output: its name, and the shape hint where the name has one producer. -/
def outputDesc (b : Builder) (s : Str) : TensorDesc :=
  { name := s
    shape :=
      match b.valueInfoShapes[s]? with
      | some shape => if fullyStatic shape ∧ b.producerCount s = 1 then shape else []
      | none => [] }

/-- New tensors for the names a node writes. -/
def defineOutputs (b : Builder) (w : Walk) : List Str → Walk × List TensorId
  | [] => (w, [])
  | s :: outs =>
    if s = [] then
      let (w, ids) := defineOutputs b w outs
      (w, kNoTensor :: ids)
    else
      let (g, id) := w.g.addTensor (outputDesc b s)
      let types :=
        match b.valueInfoElemTypes[s]? with
        | some el => if b.producerCount s = 1 then w.declaredElemTypes.insert id el
            else w.declaredElemTypes
        | none => w.declaredElemTypes
      let (w, ids) := defineOutputs b ⟨g, w.latest.insert s id, types⟩ outs
      (w, id :: ids)

def resolveNodes (b : Builder) (w : Walk) (i : Nat) : List RawNode → Walk × List Node
  | [] => (w, [])
  | raw :: rest =>
    let (w, inputs) := resolveInputs w raw.ins
    let (w, outputs) := defineOutputs b w raw.outs
    let name :=
      if raw.node.name = [] then opTypeName raw.node.type ++ str "_" ++ decimal i else raw.node.name
    let (w, nodes) := resolveNodes b w (i + 1) rest
    (w, { raw.node with inputs := inputs, outputs := outputs, name := name } :: nodes)

/-- Point an output at the last definition of its name, and carry its declaration over. -/
def repoint (w : Walk) (oid : TensorId) : Walk × TensorId :=
  match w.latest[(w.g.desc oid).name]? with
  | some id =>
    if id = oid then (w, oid)
    else
      let declared := w.g.desc oid
      let g := w.g.updateDesc id fun d =>
        { d with
          isOutput := true
          shape := if fullyStatic declared.shape then declared.shape else d.shape
          dtype := declared.dtype }
      let types :=
        match w.declaredElemTypes[oid]? with
        | some el => w.declaredElemTypes.insert id el
        | none => w.declaredElemTypes
      ({ w with g := g, declaredElemTypes := types }, id)
  | none => (w, oid)

def repointAll (w : Walk) : List TensorId → Walk × List TensorId
  | [] => (w, [])
  | oid :: rest =>
    let (w, id) := repoint w oid
    let (w, ids) := repointAll w rest
    (w, id :: ids)

/-- The table before the first node: graph inputs, then initializers. -/
def firstDefinitions (b : Builder) : List (Str × TensorId) :=
  (b.g.inputs.map fun id => ((b.g.desc id).name, id)) ++
    b.inits.map fun tp => (tp.name, b.g.find tp.name)

/-- Resolve the names of all nodes, then the graph outputs. -/
def ssaResolveNodeIo (b : Builder) : Graph :=
  let (w, nodes) := resolveNodes b
    ⟨b.g, Entries.insertAll ∅ (firstDefinitions b), b.declaredElemTypes⟩ 0 b.nodes
  let (w, outputs) := repointAll w w.g.outputs
  { w.g with nodes := nodes, outputs := outputs }

/-- Initializers that are also listed as graph inputs are no inputs. -/
def dropInitializerInputs (g : Graph) : Graph :=
  { g with inputs := g.inputs.filter fun id => !g.isInitializer id }

variable (widths : List Node → Node → Attributes)

/-- Set the integer widths of the bit operations. -/
def stampIntegerWidths (g : Graph) : Graph :=
  { g with nodes := g.nodes.map fun n => { n with attr := widths g.nodes n } }

def build (fields : List GraphField) : Graph :=
  dropInitializerInputs
    (stampIntegerWidths widths (ssaResolveNodeIo (materializeInitializers fill (collect fields))))

end Phases

end Builder

end Onnx

end Vknn
