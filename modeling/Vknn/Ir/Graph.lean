import Vknn.Ir.Enums

/-!
# The graph

A graph is a flat table of tensor descriptors, a list of nodes, and the host
bytes of its constants.  Nodes, graph inputs, graph outputs and constants name
tensors by their position in the table.  A node reads the tensors in its operand
list and, beside them, up to two tensors that a fusion has attached to it: a
residual and a bias.  The second kind is easy to overlook, and several of the
results about the passes turn on it.

Strings are byte strings, identifiers and sizes are integers, and a
floating-point number is its bit pattern.
-/

namespace Vknn

open Std

abbrev Str := List UInt8

instance : LawfulBEq Str := inferInstance

def str (s : String) : Str := s.toList.map fun c => UInt8.ofNat c.toNat

abbrev TensorId := Int

def kNoTensor : TensorId := -1

abbrev Shape := List Int

/-- The number of elements of a shape; a rank-0 shape counts none. -/
def numElements (s : Shape) : Int := if s.isEmpty then 0 else s.foldl (fun n d => n * d) 1

/-- A single-precision number, as its bit pattern. -/
structure Float32Bits where
  bits : UInt32
deriving DecidableEq, Repr

abbrev HostBuffer := List UInt8

/-- A single attribute value: `kind` says which of the other members carries it.  `shape` is
the tensor shape of a tensor-valued attribute, whose elements are in `floats`. -/
structure Attr where
  kind : AttrKind := .none
  i : Int := 0
  f : Float32Bits := ⟨0⟩
  ints : List Int := []
  floats : List Float32Bits := []
  str : Str := []
  shape : List Int := []
deriving DecidableEq

/-- A node's attributes by name. -/
structure Attributes where
  map : ExtTreeMap Str Attr := ∅
deriving DecidableEq

namespace Attributes

def has (attr : Attributes) (k : Str) : Bool := attr.map.contains k

def geti (attr : Attributes) (k : Str) (d : Int) : Int :=
  match attr.map[k]? with
  | some a => a.i
  | none => d

def getf (attr : Attributes) (k : Str) (d : Float32Bits) : Float32Bits :=
  match attr.map[k]? with
  | some a => a.f
  | none => d

def getints (attr : Attributes) (k : Str) : List Int :=
  match attr.map[k]? with
  | some a => a.ints
  | none => []

def getfloats (attr : Attributes) (k : Str) : List Float32Bits :=
  match attr.map[k]? with
  | some a => a.floats
  | none => []

def gets (attr : Attributes) (k d : Str) : Str :=
  match attr.map[k]? with
  | some a => a.str
  | none => d

theorem has_eq (attr : Attributes) (k : Str) : attr.has k = (attr.map[k]?).isSome :=
  ExtTreeMap.contains_eq_isSome_getElem?

theorem lookup_insert (m : ExtTreeMap Str Attr) (k k' : Str) (a : Attr) :
    (m.insert k a)[k']? = if k' = k then some a else m[k']? := by
  rw [ExtTreeMap.getElem?_insert]
  by_cases same : k' = k
  · rw [if_pos (LawfulEqCmp.compare_eq_iff_eq.mpr same.symm), if_pos same]
  · rw [if_neg fun equal => same (LawfulEqCmp.compare_eq_iff_eq.mp equal).symm, if_neg same]

end Attributes

/-- Compile-time description of a tensor. -/
structure TensorDesc where
  name : Str := []
  shape : Shape := []
  dimParams : List Str := []
  dtype : DType := .float32
  format : TensorFormat := .nchw
  isInput : Bool := false
  isOutput : Bool := false
  isInitializer : Bool := false
  gpuFlat : Bool := false
  storeFp32 : Bool := false
deriving DecidableEq

/-- One operator instance. -/
structure Node where
  type : OpType := .unknown
  name : Str := []
  inputs : List TensorId := []
  outputs : List TensorId := []
  attr : Attributes := {}
  fusedAct : ActType := .none
  actLo : Float32Bits := ⟨0⟩
  actHi : Float32Bits := ⟨0⟩
  subOp : Int := 0
  fusedResidual : TensorId := kNoTensor
  fusedBias : TensorId := kNoTensor
deriving DecidableEq

namespace Node

/-- The node's own operand count, without operands appended by a fused pointwise chain. -/
def pwCoreInputs (n : Node) : Nat :=
  if n.attr.has (str "pw_steps") then
    let base := n.attr.geti (str "pw_opbase") n.inputs.length
    let base := if base < 0 then 0 else base
    if base.toNat < n.inputs.length then base.toNat else n.inputs.length
  else n.inputs.length

theorem pwCoreInputs_le (n : Node) : n.pwCoreInputs ≤ n.inputs.length := by
  unfold pwCoreInputs
  dsimp only
  generalize (if n.attr.geti (str "pw_opbase") n.inputs.length < 0 then (0 : Int)
    else n.attr.geti (str "pw_opbase") n.inputs.length) = base
  split
  · split
    · exact Nat.le_of_lt ‹_›
    · exact le_rfl
  · exact le_rfl

/-- Every tensor the node reads: its operands, then the fused residual and bias. -/
def reads (n : Node) : List TensorId := n.inputs ++ [n.fusedResidual, n.fusedBias]

end Node

/-- A whole model. -/
structure Graph where
  tensors : List TensorDesc := []
  nodes : List Node := []
  tensorByName : ExtTreeMap Str TensorId := ∅
  inputs : List TensorId := []
  outputs : List TensorId := []
  initializers : ExtTreeMap TensorId HostBuffer := ∅
deriving DecidableEq

namespace Graph

/-- Look up a tensor by name without creating one. -/
def find (g : Graph) (name : Str) : TensorId := g.tensorByName[name]?.getD kNoTensor

def isInitializer (g : Graph) (id : TensorId) : Bool := g.initializers.contains id

/-- The descriptor of a tensor; the default one where the position is not in the table, which
the source never asks for. -/
def desc (g : Graph) (id : TensorId) : TensorDesc :=
  if 0 ≤ id then g.tensors.getD id.toNat {} else {}

end Graph

end Vknn
