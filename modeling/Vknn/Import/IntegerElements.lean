import Vknn.Ir.Graph

/-!
# Which tensors hold integers

Descriptors do not say whether an intermediate tensor holds integers: that is read from its
producers.  Each operator has a rule for each of two facts, that the values are integers and
that they are stored as 64-bit integers.  A rule settles the fact, or defers to some of the
operands.  A resolver walks the producers on a stack of its own and remembers what it found.
-/

namespace Vknn.Import

open Function

/-! ## Rules -/

/-- The element fact a resolver answers. -/
inductive ElementFact where
  | integerValues | int64Storage
deriving DecidableEq

/-- What a producer says about the fact on one of its outputs. -/
inductive RuleKind where
  | holds | lacks | anyOperand | everyOperand
deriving DecidableEq

/-- The operands a rule reads, one bit for each slot, or all of the node's own. -/
structure ElementRule where
  kind : RuleKind := .lacks
  operandMask : Nat := 0
  everyCoreOperand : Bool := false
deriving DecidableEq

def kMaskedOperandSlots : Nat := 32

def operandSlotBit (slot : Nat) : Nat := 1 <<< slot

def holdsRule : ElementRule := { kind := .holds }

def anyOperandRule (operandMask : Nat) : ElementRule := { kind := .anyOperand, operandMask }

def anyCoreOperandRule : ElementRule := { anyOperandRule 0 with everyCoreOperand := true }

def kLeading : Nat := operandSlotBit 0
def kBothSides : Nat := operandSlotBit 0 ||| operandSlotBit 1
def kThirdOperand : Nat := operandSlotBit 2

/-- Element types of the ONNX codes that are integers. -/
def isIntegerElementType (elementType : Int) : Bool := [2, 3, 4, 5, 6, 7, 12, 13].contains elementType

/-- The target of a cast, whose default is a single-precision number. -/
def castTarget (cast : Node) : Int := cast.attr.geti (str "to") 1

def kOnnxBool : Int := 9

def integerLabel (dtype : DType) : Bool :=
  dtype = .int64 || dtype = .int32 || dtype = .int8 || dtype = .uint8

/-- A constant whose value the importer recorded as integers. -/
def integerValueAttribute (node : Node) : Bool :=
  match node.attr.map[str "value"]? with
  | some value => value.kind = .ints
  | none => false

/-- Sum, maximum, minimum and product; a mean and a norm are numbers on integers too. -/
def integerReduction (node : Node) : Bool := [1, 2, 3, 4].contains node.subOp

def kBinaryPow : Int := 5
def kUnaryAbs : Int := 6
def kUnaryNeg : Int := 7

/-- The second output of a selection holds the indices. -/
def selectsIndices (producer : Node) (output : TensorId) : Bool :=
  1 < producer.outputs.length && producer.outputs.getD 1 kNoTensor = output

/-- The rule of each operator for integer values. -/
def integerValuesRule (producer : Node) (output : TensorId) : ElementRule :=
  match producer.type with
  | .cast => if isIntegerElementType (castTarget producer) then holdsRule else {}
  | .shape | .argMax | .argMin | .bitShift | .bitwiseAnd | .bitwiseOr | .bitwiseXor
  | .bitwiseNot => holdsRule
  | .constant | .constantOfShape => if integerValueAttribute producer then holdsRule else {}
  | .topK => if selectsIndices producer output then holdsRule else anyOperandRule kLeading
  | .convertLayout | .convertDtype | .identity | .reshape | .flatten | .squeeze | .unsqueeze
  | .slice | .transpose | .expand | .tile | .split | .gather | .depthToSpace | .channelShuffle
  | .relu | .clip => anyOperandRule kLeading
  | .unary =>
    if producer.subOp = kUnaryNeg || producer.subOp = kUnaryAbs then anyOperandRule kLeading
    else {}
  | .reduce => if integerReduction producer then anyOperandRule kLeading else {}
  | .pad | .scatterND => anyOperandRule (kLeading ||| kThirdOperand)
  | .range => anyOperandRule (kBothSides ||| kThirdOperand)
  | .where => anyOperandRule (operandSlotBit 1 ||| kThirdOperand)
  | .concat | .add | .mod => anyCoreOperandRule
  | .binary => if producer.subOp = kBinaryPow then anyOperandRule kLeading else anyCoreOperandRule
  | _ => {}

/-- The rule of each operator for 64-bit storage. -/
def int64StorageRule (producer : Node) (output : TensorId) : ElementRule :=
  match producer.type with
  | .cast =>
    if isIntegerElementType (castTarget producer) || castTarget producer = kOnnxBool then holdsRule
    else {}
  | .shape | .argMax | .argMin => holdsRule
  | .constant | .constantOfShape => if integerValueAttribute producer then holdsRule else {}
  | .topK => if selectsIndices producer output then holdsRule else anyOperandRule kLeading
  | .convertLayout | .convertDtype | .identity | .reshape | .flatten | .squeeze | .unsqueeze
  | .slice | .transpose | .expand | .tile | .split | .gather | .scatterND | .bitwiseNot =>
    anyOperandRule kLeading
  | .reduce => if integerReduction producer then anyOperandRule kLeading else {}
  | .add | .mod | .bitShift | .bitwiseAnd | .bitwiseOr | .bitwiseXor => anyOperandRule kBothSides
  | .binary => anyOperandRule (if producer.subOp = kBinaryPow then kLeading else kBothSides)
  | .concat => anyCoreOperandRule
  | .where => anyOperandRule (operandSlotBit 1 ||| kThirdOperand)
  | .range => { anyOperandRule (kBothSides ||| kThirdOperand) with kind := .everyOperand }
  | _ => {}

/-! ## Producers -/

/-- The entry of a tensor that no node writes. -/
def kNoTensorProducer : Int := -1

/-- Entering a node as the producer of its outputs. -/
def enterProducer (producers : List Int) (nodeIndex : Nat) (outputs : List TensorId) : List Int :=
  outputs.foldl (fun (producers : List Int) (output : TensorId) =>
    if 0 ≤ output ∧ output < producers.length then producers.set output.toNat nodeIndex
    else producers) producers

/-- The node that writes each tensor, the last one when several do. -/
def tensorProducers (g : Graph) : List Int :=
  g.nodes.zipIdx.foldl (fun producers entry => enterProducer producers entry.2 entry.1.outputs)
    (List.replicate g.tensors.length kNoTensorProducer)

/-! ## The resolver -/

/-- What a resolver remembers of a tensor. -/
inductive Resolution where
  | unresolved | pending | lacks | holds
deriving DecidableEq

def Resolution.ofBool (fact : Bool) : Resolution := if fact then .holds else .lacks

/-- A resolver over a graph: the fact it answers, the producers it reads, and its memory. -/
structure ElementFactResolver where
  graph : Graph
  fact : ElementFact
  producers : List Int
  resolution : TensorId → Resolution := fun _ => .unresolved

/-- A resolver with its own producer index. -/
def elementFactResolver (g : Graph) (fact : ElementFact) : ElementFactResolver where
  graph := g
  fact := fact
  producers := tensorProducers g

/-- One pending tensor of the walk: the operands its producer's rule reads, and the next one to
inspect. -/
structure PendingTensor where
  tensor : TensorId
  operands : List TensorId := []
  nextOperand : Nat := 0
  everyOperand : Bool := false

/-- The memory and the stack of the walk, its top first. -/
structure Walk where
  resolution : TensorId → Resolution
  pending : List PendingTensor

/-- What the producer of a tensor says: the fact, or the operands to ask. -/
inductive Visit where
  | settled (fact : Bool)
  | asks (operands : List TensorId) (everyOperand : Bool)
deriving DecidableEq

def labelHolds (fact : ElementFact) (desc : TensorDesc) : Bool :=
  match fact with
  | .integerValues => integerLabel desc.dtype
  | .int64Storage => desc.dtype = .int64

/-- A node with a fused pointwise chain computes numbers. -/
def elementRule (fact : ElementFact) (producer : Node) (output : TensorId) : ElementRule :=
  if producer.attr.has (str "pw_steps") then {}
  else
    match fact with
    | .integerValues => integerValuesRule producer output
    | .int64Storage => int64StorageRule producer output

def askedOperands (rule : ElementRule) (producer : Node) : List TensorId :=
  ((producer.inputs.take producer.pwCoreInputs).zipIdx.filter fun operand =>
    rule.everyCoreOperand ||
      (operand.2 < kMaskedOperandSlots && rule.operandMask &&& operandSlotBit operand.2 ≠ 0)).map
    Prod.fst

def validTensor (g : Graph) (id : TensorId) : Bool := 0 ≤ id && id < g.tensors.length

namespace ElementFactResolver

variable (r : ElementFactResolver)

def visit (current : TensorId) : Visit :=
  let desc := r.graph.desc current
  let producerIndex := r.producers.getD current.toNat kNoTensorProducer
  if labelHolds r.fact desc then .settled true
  else if desc.isInput || desc.isInitializer || r.graph.isInitializer current ||
      producerIndex = kNoTensorProducer then .settled false
  else
    let producer := r.graph.nodes.getD producerIndex.toNat {}
    let rule := elementRule r.fact producer current
    match rule.kind with
    | .holds => .settled true
    | .lacks => .settled false
    | .anyOperand => .asks (askedOperands rule producer) false
    | .everyOperand => .asks (askedOperands rule producer) true

/-- How the look at the remaining operands ends. -/
inductive Inspection where
  | deferred (operand : TensorId) (nextOperand : Nat)
  | decided (fact : Bool)
  | exhausted

/-- Looking at the remaining operands, up to one that is not resolved or settles the answer.  An
operand that is pending lies on a cycle. -/
def inspect (resolution : TensorId → Resolution) (everyOperand : Bool) :
    List TensorId → Nat → Inspection
  | [], _ => .exhausted
  | operand :: rest, nextOperand =>
    match if validTensor r.graph operand then resolution operand else .lacks with
    | .unresolved => .deferred operand nextOperand
    | .holds =>
      if everyOperand then inspect resolution everyOperand rest (nextOperand + 1)
      else .decided true
    | .pending | .lacks =>
      if everyOperand then .decided false
      else inspect resolution everyOperand rest (nextOperand + 1)

/-- Looking at the operands of a pending tensor. -/
def examine (resolution : TensorId → Resolution) (top : PendingTensor) (rest : List PendingTensor) :
    Walk :=
  let resolve fact := update resolution top.tensor (.ofBool fact)
  match r.inspect resolution top.everyOperand (top.operands.drop top.nextOperand) top.nextOperand with
  | .deferred operand nextOperand =>
    ⟨resolution, { tensor := operand } :: { top with nextOperand } :: rest⟩
  | .decided fact => ⟨resolve fact, rest⟩
  | .exhausted => ⟨resolve (top.everyOperand && !top.operands.isEmpty), rest⟩

def walkStep (w : Walk) : Walk :=
  match w.pending with
  | [] => w
  | top :: rest =>
    match w.resolution top.tensor with
    | .unresolved =>
      match r.visit top.tensor with
      | .settled fact => ⟨update w.resolution top.tensor (.ofBool fact), rest⟩
      | .asks operands everyOperand =>
        r.examine (update w.resolution top.tensor .pending)
          { top with operands := top.operands ++ operands, everyOperand } rest
    | .pending => r.examine w.resolution top rest
    | .lacks | .holds => ⟨w.resolution, rest⟩

/-- The walk until its stack is empty; nothing when the fuel runs out before. -/
def walk : Nat → Walk → Option Walk
  | 0, w => if w.pending.isEmpty then some w else none
  | fuel + 1, w => if w.pending.isEmpty then some w else walk fuel (r.walkStep w)

/-- Whether a tensor has the fact, and the resolver afterwards. -/
def holds (fuel : Nat) (tensor : TensorId) : Option (Bool × ElementFactResolver) :=
  if validTensor r.graph tensor then do
    let w ← r.walk fuel ⟨r.resolution, [{ tensor }]⟩
    return (w.resolution tensor = .holds, { r with resolution := w.resolution })
  else some (false, r)

/-- Queries one after another on one resolver. -/
def answers (fuel : Nat) : ElementFactResolver → List TensorId → Option (List Bool)
  | _, [] => some []
  | r, tensor :: tensors => do
      let (answer, r) ← r.holds fuel tensor
      let rest ← answers fuel r tensors
      return answer :: rest

end ElementFactResolver

/-- The answer for every tensor of a graph. -/
def resolveElementFact (fuel : Nat) (g : Graph) (fact : ElementFact) : Option (List Bool) :=
  (elementFactResolver g fact).answers fuel ((List.range g.tensors.length).map Nat.cast)

end Vknn.Import
