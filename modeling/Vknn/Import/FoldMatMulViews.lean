import Vknn.Import.EliminateDeadNodes
import Vknn.Import.FoldMovementChains
import Vknn.Lib.Strided

/-!
# Folding views into matrix products

A matrix product can read an operand through strides instead of consuming what a chain
of transpositions, expansions and reshapes has made of it.  The pass walks the producers
of each operand, composes the chain into a view of the chain's source, refines the batch
axes of both operands to common blocks, and stamps the strides on the product, which
then reads the sources.  The nodes of a chain that nobody needs any more are removed.
-/

namespace Vknn.Import

open Strided Cpu

/-! ## Views -/

abbrev SubDim := Block
abbrev ViewAxis := Axis
abbrev View := List ViewAxis

/-- Take one more block into an axis: a block of size 1 goes, and a block that is jointly dense with
the one before it is merged. -/
def canonicalStep (out : ViewAxis) (s : SubDim) : ViewAxis :=
  if s.size = 1 then out
  else
    match out.getLast? with
    | some back =>
      if back.stride = s.size * s.stride then out.dropLast ++ [⟨back.size * s.size, s.stride⟩]
      else out ++ [s]
    | none => [s]

def canonicalAxis (axis : ViewAxis) : ViewAxis :=
  let out := axis.foldl canonicalStep []
  if out.isEmpty then [⟨1, 0⟩] else out

def denseView (shape : Shape) : View := dense shape

/-- Take blocks from the front for an axis of a given extent; the last one may be split. -/
def takeBlocks : List SubDim → Int → Option (ViewAxis × List SubDim)
  | [], need => if need ≤ 1 then some ([], []) else none
  | s :: flat, need =>
    if need ≤ 1 then some ([], s :: flat)
    else if s.size ≤ need then
      if need % s.size ≠ 0 then none
      else (takeBlocks flat (need / s.size)).map fun taken => (s :: taken.1, taken.2)
    else if s.size % need ≠ 0 then none
    else some ([⟨need, s.stride * (s.size / need)⟩], ⟨s.size / need, s.stride⟩ :: flat)

/-- The axes of a target shape, from the blocks in order. -/
def reshapeAxes : Shape → List SubDim → Option View
  | [], flat => if flat.isEmpty then some [] else none
  | t :: target, flat =>
    if t ≤ 0 then none
    else do
      let (axis, rest) ← takeBlocks flat t
      let out ← reshapeAxes target rest
      return canonicalAxis axis :: out

def reshapeView (view : View) (target : Shape) : Option View :=
  reshapeAxes target (view.flatten.filter fun s => s.size ≠ 1)

/-- The axes of a view against the extents of a target: an axis matches, or is repeated. -/
def expandAxes : View → Shape → Option View
  | axis :: view, t :: target => do
      let out ← expandAxes view target
      if total axis = t then some (axis :: out)
      else if total axis ≠ 1 then none
      else some ([⟨t, 0⟩] :: out)
  | _, _ => some []

/-- Expand a view; the rank may grow on the left. -/
def expandView (view : View) (target : Shape) : Option View :=
  if target.length < view.length then none
  else expandAxes (units (target.length - view.length) ++ view) target

/-- Permute a view; an empty permutation reverses it. -/
def transposeView (view : View) (perm : List Int) : Option View :=
  let perm := if perm.isEmpty then (List.range view.length).reverse.map fun (i : Nat) => (i : Int)
    else perm
  if perm.length ≠ view.length then none
  else if perm.all fun p => 0 ≤ p ∧ p < view.length then
    some (perm.map fun p => view.getD p.toNat [])
  else none

variable (g : Graph)

/-- Apply one node of a chain to a view of its input. -/
def applyChainOp (nd : Node) (view : View) : Option View :=
  let outShape := (g.desc (nd.outputs.headD kNoTensor)).shape
  if nd.type = .transpose then transposeView view (nd.attr.getints (str "perm"))
  else if nd.type = .reshape ∨ nd.type = .unsqueeze ∨ nd.type = .squeeze then
    reshapeView view outShape
  else if nd.type = .expand then expandView view outShape
  else none

/-! ## Chains -/

def chainOp (t : OpType) : Bool :=
  t = .transpose || t = .reshape || t = .unsqueeze || t = .squeeze || t = .expand

/-- A node that moves elements and computes nothing on the way. -/
def bareChainNode (nd : Node) : Bool :=
  !nd.attr.has (str "pw_steps") && nd.fusedAct = .none && nd.fusedBias = kNoTensor &&
    nd.fusedResidual = kNoTensor && nd.outputs.length = 1

def moverOp (t : OpType) : Bool := t = .transpose || t = .expand

/-- The node that made a tensor, if a chain may run through it.  Producers are those of the graph
the pass started with. -/
def chainNode (fp32Pins : Str) (nodes : List Node) (src : TensorId) : Option Node := do
  let p ← producerOf g g.nodes src
  let nd ← nodes[p]?
  guard (chainOp nd.type && !nd.inputs.isEmpty && bareChainNode nd)
  guard (!(!fp32Pins.isEmpty && fp32NameMatch (g.desc src).name fp32Pins))
  return nd

/-- The chain that made a tensor, last node first, and its source. -/
def walkChain (fp32Pins : Str) (nodes : List Node) : Nat → TensorId → List Node × TensorId
  | 0, src => ([], src)
  | fuel + 1, src =>
    match chainNode g fp32Pins nodes src with
    | some nd =>
      let (chain, source) := walkChain fp32Pins nodes fuel (nd.inputs.headD kNoTensor)
      (nd :: chain, source)
    | none => ([], src)

/-- The view of the source that a chain comes to. -/
def composeChain (source : TensorId) : List Node → Option View
  | [] => some (denseView (g.desc source).shape)
  | nd :: chain => do
      let view ← composeChain source chain
      applyChainOp g nd view

/-- How an operand is read: the view, the tensor it addresses, and whether a chain was folded. -/
structure OperandView where
  view : View
  source : TensorId
  folded : Bool

def kMaxChain : Nat := 16

/-- Resolve an operand to a view; without a chain that is worth it, the dense view of itself. -/
def resolveOperand (fp32Pins : Str) (nodes : List Node) (operand : TensorId) : OperandView :=
  let (chain, source) := walkChain g fp32Pins nodes kMaxChain operand
  if chain.isEmpty || !chain.any fun nd => moverOp nd.type then
    ⟨denseView (g.desc operand).shape, operand, false⟩
  else
    match composeChain g source chain with
    | some view => ⟨view, source, true⟩
    | none => ⟨denseView (g.desc operand).shape, operand, false⟩

/-! ## Common blocks -/

/-- A block of an axis with a stride of each operand. -/
structure RefinedBlock where
  size : Int
  aStride : Int
  bStride : Int

/-- Split two lists of blocks at the union of their boundaries. -/
def refineBlocks : Nat → List SubDim → List SubDim → List RefinedBlock → Option (List RefinedBlock)
  | fuel + 1, x :: pa, y :: pb, out =>
    if x.size = 1 ∧ y.size = 1 then
      refineBlocks fuel pa pb (if out.isEmpty then [⟨1, 0, 0⟩] else out)
    else if x.size = y.size then refineBlocks fuel pa pb (out ++ [⟨x.size, x.stride, y.stride⟩])
    else if x.size > y.size then
      if x.size % y.size ≠ 0 then none
      else refineBlocks fuel (⟨x.size / y.size, x.stride⟩ :: pa) pb
        (out ++ [⟨y.size, x.stride * (x.size / y.size), y.stride⟩])
    else if y.size % x.size ≠ 0 then none
    else refineBlocks fuel pa (⟨y.size / x.size, y.stride⟩ :: pb)
      (out ++ [⟨x.size, x.stride, y.stride * (y.size / x.size)⟩])
  | _, [], [], out => some out
  | _, _, _, _ => none

/-- The common refinement of two axes.  Every step takes a block from one of them. -/
def refineAxis (a b : ViewAxis) : Option (List RefinedBlock) :=
  refineBlocks (a.length + b.length) a b []

/-- The stride of an axis that has one. -/
def singleStride (axis : ViewAxis) : Option Int :=
  match canonicalAxis axis with
  | [s] => some s.stride
  | _ => none

/-- A batch axis that matches the output, or is repeated along it. -/
def batchAxis (axis : ViewAxis) (want : Int) : Option ViewAxis :=
  if total axis = want then some (canonicalAxis axis)
  else if total axis = 1 then some [⟨want, 0⟩]
  else none

/-- The common blocks of the batch axes. -/
def batchBlocks : View → View → Shape → Option (List RefinedBlock)
  | a :: va, b :: vb, want :: out => do
      let axA ← batchAxis a want
      let axB ← batchAxis b want
      let refined ← refineAxis axA axB
      let rest ← batchBlocks va vb out
      return refined ++ rest
  | _, _, _ => some []

/-! ## The view of a product -/

def kTiledMatMulMin : Int := 32
def kGemvMinK : Int := 512
def kGemvMaxN : Int := 16384
def kGemvVec : Int := 4
def kStrideMax : Int := 2 ^ 31 - 1

/-- What is stamped on a product. -/
structure MatMulView where
  dims : List Int
  aStride : List Int
  bStride : List Int
  aK : Int
  bK : Int
  M : Int
  N : Int
  K : Int

/-- A view with leading axes of one position up to a rank. -/
def padTo (rank : Nat) (view : View) : View := units (rank - view.length) ++ view

/-- Whether a view of a vector times a matrix keeps the alignment the vector kernel needs. -/
def gemvParity (v : MatMulView) : Bool :=
  if v.M = 1 ∧ kGemvMinK ≤ v.K ∧ v.N < kGemvMaxN ∧ v.N % kGemvVec = 0 then
    v.bStride.getLastD 0 = 1 && v.bK % kGemvVec = 0 &&
      (v.bStride.take (v.bStride.length - 2)).all fun s => s % kGemvVec = 0
  else true

def fitsStride (v : List Int) : Bool := v.all fun x => 0 ≤ x ∧ x ≤ kStrideMax

/-- Compose the views of both operands into the view of a product. -/
def composeMatMulView (sa sb out : Shape) (a b : View) : Option MatMulView := do
  let rank := out.length
  let batchRank := rank - 2
  let va := padTo rank a
  let vb := padTo rank b
  let M := dimFromEnd sa 2
  let K := dimFromEnd sa 1
  let N := dimFromEnd sb 1
  let aM ← singleStride (va.getD batchRank [])
  let aK ← singleStride (va.getD (batchRank + 1) [])
  let bK ← singleStride (vb.getD batchRank [])
  let bN ← singleStride (vb.getD (batchRank + 1) [])
  let blocks ← batchBlocks (va.take batchRank) (vb.take batchRank) (out.take batchRank)
  let v : MatMulView :=
    { dims := blocks.map (·.size) ++ [M, N]
      aStride := blocks.map (·.aStride) ++ [aM, 0]
      bStride := blocks.map (·.bStride) ++ [0, bN]
      aK, bK, M, N, K }
  guard (gemvParity v)
  guard (RowMajor.size v.dims = RowMajor.size out && fitsStride v.dims && fitsStride v.aStride &&
    fitsStride v.bStride && v.aK ≤ kStrideMax && v.bK ≤ kStrideMax)
  return v

/-! ## The pass -/

def intAttr (v : Int) : Attr := { kind := .int, i := v }
def intsAttr (v : List Int) : Attr := { kind := .ints, ints := v }

def stampView (nd : Node) (a b : TensorId) (v : MatMulView) : Node :=
  { nd with
    inputs := (nd.inputs.set 0 a).set 1 b
    attr := ⟨nd.attr.map
      |>.insert kMmView (intAttr kMmViewVersion)
      |>.insert kMmViewDims (intsAttr v.dims)
      |>.insert kMmViewAStride (intsAttr v.aStride)
      |>.insert kMmViewBStride (intsAttr v.bStride)
      |>.insert kMmViewAK (intAttr v.aK)
      |>.insert kMmViewBK (intAttr v.bK)
      |>.insert kMmViewM (intAttr v.M)
      |>.insert kMmViewN (intAttr v.N)
      |>.insert kMmViewK (intAttr v.K)⟩ }

def kWq : Str := str "wq"

def staticShape (s : Shape) : Bool := s.all (fun d => 0 < d) && !s.isEmpty

/-- The operands of a node the fold may touch, and their view. -/
def foldOperands (fp32Pins : Str) (nodes : List Node) (nd : Node) :
    Option (OperandView × OperandView × MatMulView) := do
  guard (nd.type = .matMul && !nd.attr.has kWq && !nd.attr.has kMmView)
  guard (2 ≤ nd.inputs.length && !nd.outputs.isEmpty)
  let sa := (g.desc (nd.inputs.getD 0 kNoTensor)).shape
  let sb := (g.desc (nd.inputs.getD 1 kNoTensor)).shape
  let out := (g.desc (nd.outputs.headD kNoTensor)).shape
  guard (2 ≤ sa.length && 2 ≤ sb.length && out.length = max sa.length sb.length)
  guard (staticShape sa && staticShape sb && staticShape out)
  guard (!(kTiledMatMulMin ≤ dimFromEnd sa 2 && kTiledMatMulMin ≤ dimFromEnd sb 1 &&
    kTiledMatMulMin ≤ dimFromEnd sa 1))
  let a := resolveOperand g fp32Pins nodes (nd.inputs.getD 0 kNoTensor)
  let b := resolveOperand g fp32Pins nodes (nd.inputs.getD 1 kNoTensor)
  guard (a.folded || b.folded)
  let v ← composeMatMulView sa sb out a.view b.view
  return (a, b, v)

/-- The nodes during the pass, and the number of folds. -/
structure ViewState where
  nodes : List Node
  folded : Nat := 0

def viewStep (fp32Pins : Str) (st : ViewState) (i : Nat) : ViewState :=
  match st.nodes[i]? with
  | some nd =>
    match foldOperands g fp32Pins st.nodes nd with
    | some (a, b, v) =>
      { nodes := st.nodes.set i (stampView nd a.source b.source v), folded := st.folded + 1 }
    | none => st
  | none => st

/-- Fold chains that feed matrix products into views. -/
def foldMatMulViews (fp32Pins : Str) : Graph :=
  let st := (List.range g.nodes.length).foldl (viewStep g fp32Pins) { nodes := g.nodes }
  if st.folded = 0 then { g with nodes := st.nodes }
  else eliminateDeadNodes { g with nodes := st.nodes }

end Vknn.Import
