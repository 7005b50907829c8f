import Vknn.Cpu.MatMul
import Vknn.Lib.Dataflow

/-!
# Running a graph

A graph runs by running its nodes in list order.  The state gives every tensor its
elements, in row-major order; shapes are those of the descriptors.  Nodes that move
elements and carry no fused work have the kernels of the previous modules, and so has
a matrix product, with the arithmetic of its elements left open.  Every other kernel
is any function of the node and of what the node reads.
-/

namespace Vknn.Cpu

open List Bool

/-- The program of a pointwise epilogue, as the node carries it. -/
structure PwEpilogue where
  steps : List Int
  params : List Float32Bits
  outs : List Int

/-- The kernels a run uses, and how elements are read as integers.  An epilogue works on the shape
and the elements of the primary result and on the operands its sources name. -/
structure Kernels (α : Type) extends Arith α where
  ints : List α → List Int
  epilogue : PwEpilogue → Shape → List α → List (Option (Shape × List α)) → List (List α)
  other : Node → List (Option (List α)) → Option (List α) → Option (List α) → List (List α)

/-- A movement node that copies elements and does nothing else. -/
def plainMover (nd : Node) : Bool :=
  (nd.type = .transpose || nd.type = .slice) && nd.outputs.length = 1 &&
    nd.outputs.headD kNoTensor ≠ kNoTensor && !nd.inputs.isEmpty &&
    nd.inputs.headD kNoTensor ≠ kNoTensor && !nd.attr.has (str "pw_steps") &&
    !nd.attr.has (str "pw_outs") && nd.fusedResidual = kNoTensor

/-- A node that copies or repeats elements and does nothing else. -/
def plainCopy (nd : Node) : Bool :=
  (nd.type = .reshape || nd.type = .squeeze || nd.type = .unsqueeze || nd.type = .expand) &&
    nd.outputs.length = 1 && !nd.inputs.isEmpty && nd.inputs.headD kNoTensor ≠ kNoTensor &&
    !nd.attr.has (str "pw_steps")

/-- A matrix product with both operands. -/
def matrixProduct (nd : Node) : Bool :=
  nd.type = .matMul && 2 ≤ nd.inputs.length && nd.inputs.getD 0 kNoTensor ≠ kNoTensor &&
    nd.inputs.getD 1 kNoTensor ≠ kNoTensor

def readsOf (nd : Node) : List TensorId := nd.reads.filter (· ≠ kNoTensor)

def writesOf (nd : Node) : List TensorId := nd.outputs.filter (· ≠ kNoTensor)

variable {α : Type} (K : Kernels α) (g : Graph)

/-- A parameter list of a slice: the attribute, or else what the operand holds. -/
def readParamList (nd : Node) (e : TensorId → List α) (attr : Str) (idx : Nat) : List Int :=
  let a := nd.attr.getints attr
  if !a.isEmpty then a
  else
    let t := nd.inputs.getD idx kNoTensor
    if idx < nd.pwCoreInputs ∧ t ≠ kNoTensor then K.ints (e t) else []

def sliceParams (nd : Node) (e : TensorId → List α) : SliceParams where
  starts := readParamList K nd e (str "starts") 1
  ends := readParamList K nd e (str "ends") 2
  axes := readParamList K nd e (str "axes") 3
  steps := readParamList K nd e (str "steps") 4

/-- What a plain movement node computes. -/
def runMover (nd : Node) (e : TensorId → List α) : List α :=
  let input := nd.inputs.headD kNoTensor
  let shape := (g.desc input).shape
  if nd.attr.has (str "view_stride") then
    runViewGather K.zero (g.desc (nd.outputs.headD kNoTensor)).shape
      (nd.attr.getints (str "view_stride")) (nd.attr.geti (str "view_base") 0) (e input)
  else if nd.type = .transpose then
    transpose K.zero (nd.attr.getints (str "perm")) shape (e input)
  else slice K.zero (sliceParams K nd e) shape (e input)

/-- The target of a reshape: what its second operand holds. -/
def reshapeTarget (nd : Node) (e : TensorId → List α) : List Int :=
  let t := nd.inputs.getD 1 kNoTensor
  if t = kNoTensor then [] else K.ints (e t)

def runCopy (nd : Node) (e : TensorId → List α) : List α :=
  let input := nd.inputs.headD kNoTensor
  let shape := (g.desc input).shape
  if nd.type = .reshape then copyAs K.zero (reshapeShape (reshapeTarget K nd e) shape) (e input)
  else if nd.type = .squeeze then
    copyAs K.zero (squeezeShape (readParamList K nd e (str "axes") 1) shape) (e input)
  else if nd.type = .unsqueeze then
    copyAs K.zero (unsqueezeShape (readParamList K nd e (str "axes") 1) shape) (e input)
  else expand K.zero (readParamList K nd e (str "shape") 1) shape (e input)

/-- What an operand is to a kernel; an absent one is nothing. -/
def operand (e : TensorId → List α) (t : TensorId) : Option (List α) :=
  if t = kNoTensor then none else some (e t)

/-! ## Matrix products -/

/-- What a matrix product computes before its epilogue, and its shape. -/
def runMatMul (nd : Node) (e : TensorId → List α) : Shape × List α :=
  let a := nd.inputs.getD 0 kNoTensor
  let b := nd.inputs.getD 1 kNoTensor
  let bias := operand e nd.fusedBias
  if nd.attr.has kMmView then
    ((g.desc (nd.outputs.headD kNoTensor)).shape,
      matmulRows K.toArith (viewGeometry nd) (e a) (e b) bias)
  else
    let sa := (g.desc a).shape
    let sb := (g.desc b).shape
    (matmulShape sa sb, matmulRows K.toArith (denseGeometry sa sb) (e a) (e b) bias)

def kPwRefOp0 : Int := -8

/-- The operand positions that the sources of an epilogue name, three for each step. -/
def epilogueSources (nd : Node) : List (Option Nat) :=
  let steps := nd.attr.getints (str "pw_steps")
  (List.range (steps.length / 8)).flatMap fun s => (List.range 3).map fun f =>
    let ref := steps.getD (s * 8 + 2 + f) 0
    if ref ≤ kPwRefOp0 then some (kPwRefOp0 - ref).toNat else none

/-- Apply the epilogue of a node to its primary result. -/
def applyPwEpilogue (nd : Node) (e : TensorId → List α) (Y : Shape × List α) : List (List α) :=
  K.epilogue
    { steps := nd.attr.getints (str "pw_steps"), params := nd.attr.getfloats (str "pw_params"),
      outs := nd.attr.getints (str "pw_outs") } Y.1 Y.2
    ((epilogueSources nd).map fun source => source.bind fun i =>
      let t := nd.inputs.getD i kNoTensor
      (operand e t).map fun buffer => ((g.desc t).shape, buffer))

/-- The outputs of a node, from its primary result. -/
def finish (nd : Node) (e : TensorId → List α) (Y : Shape × List α) : List (List α) :=
  if nd.attr.has (str "pw_steps") then applyPwEpilogue K g nd e Y else [Y.2]

/-- What a node computes, one buffer for each output. -/
def runNode (nd : Node) (e : TensorId → List α) : List (List α) :=
  if plainMover nd then [runMover K g nd e]
  else if plainCopy nd then [runCopy K g nd e]
  else if matrixProduct nd then finish K g nd e (runMatMul K g nd e)
  else
    K.other nd (nd.inputs.map (operand e)) (operand e nd.fusedResidual) (operand e nd.fusedBias)

/-! ## Reading only what is read -/

variable {K g}

variable {nd : Node} {t : TensorId} {e e' : TensorId → List α}

theorem mem_readsOf : t ∈ readsOf nd ↔ t ∈ nd.reads ∧ t ≠ kNoTensor := by simp [readsOf]

theorem mem_writesOf : t ∈ writesOf nd ↔ t ∈ nd.outputs ∧ t ≠ kNoTensor := by simp [writesOf]

theorem mem_readsOf_of_input (mem : t ∈ nd.inputs)
    (present : t ≠ kNoTensor) : t ∈ readsOf nd :=
  mem_readsOf.mpr ⟨mem_append_left _ mem, present⟩

theorem operand_congr
    (agree : ∀ t ∈ readsOf nd, e t = e' t) (mem : t ∈ nd.reads) :
    operand e t = operand e' t := by
  unfold operand
  split
  · rfl
  · rename_i present
    rw [agree t (mem_readsOf.mpr ⟨mem, present⟩)]

theorem readParamList_congr
    (agree : ∀ t ∈ readsOf nd, e t = e' t) (attr : Str) (idx : Nat) :
    readParamList K nd e attr idx = readParamList K nd e' attr idx := by
  unfold readParamList
  dsimp only
  split
  · rfl
  · split
    · rename_i here
      have inside : idx < nd.inputs.length := here.1.trans_le nd.pwCoreInputs_le
      rw [agree _ (mem_readsOf_of_input ?_ here.2)]
      rw [getD_eq_getElem?_getD, getElem?_eq_getElem inside]
      exact getElem_mem inside
    · rfl

theorem headD_mem {l : List TensorId} (present : l.headD kNoTensor ≠ kNoTensor) :
    l.headD kNoTensor ∈ l := by
  cases l with
  | nil => exact absurd rfl present
  | cons a l => exact mem_cons_self

theorem input_of_plainMover (plain : plainMover nd = true) :
    nd.inputs.headD kNoTensor ≠ kNoTensor := by
  simp only [plainMover, and_eq_true, decide_eq_true_eq, ne_eq, decide_not,
    not_eq_true', decide_eq_false_iff_not] at plain
  exact plain.1.1.1.2

theorem runMover_congr (plain : plainMover nd = true)
    (agree : ∀ t ∈ readsOf nd, e t = e' t) : runMover K g nd e = runMover K g nd e' := by
  have present := input_of_plainMover plain
  have input := agree _ (mem_readsOf_of_input (headD_mem present) present)
  have params : sliceParams K nd e = sliceParams K nd e' := by
    unfold sliceParams
    simp only [readParamList_congr agree]
  unfold runMover
  dsimp only
  rw [input, params]

theorem input_of_plainCopy (plain : plainCopy nd = true) :
    nd.inputs.headD kNoTensor ≠ kNoTensor := by
  simp only [plainCopy, and_eq_true, decide_eq_true_eq, ne_eq, decide_not,
    not_eq_true', decide_eq_false_iff_not] at plain
  exact plain.1.2

theorem getD_mem {l : List TensorId} {i : Nat} (present : l.getD i kNoTensor ≠ kNoTensor) :
    l.getD i kNoTensor ∈ l := by
  by_cases inside : i < l.length
  · rw [getD_eq_getElem?_getD, getElem?_eq_getElem inside]
    exact getElem_mem inside
  · rw [getD_eq_getElem?_getD, getElem?_eq_none (not_lt.mp inside)] at present
    exact absurd rfl present

theorem input_congr
    (agree : ∀ t ∈ readsOf nd, e t = e' t) {i : Nat}
    (present : nd.inputs.getD i kNoTensor ≠ kNoTensor) :
    e (nd.inputs.getD i kNoTensor) = e' (nd.inputs.getD i kNoTensor) :=
  agree _ (mem_readsOf_of_input (getD_mem present) present)

theorem runCopy_congr (plain : plainCopy nd = true)
    (agree : ∀ t ∈ readsOf nd, e t = e' t) : runCopy K g nd e = runCopy K g nd e' := by
  have present := input_of_plainCopy plain
  have input := agree _ (mem_readsOf_of_input (headD_mem present) present)
  have target : reshapeTarget K nd e = reshapeTarget K nd e' := by
    unfold reshapeTarget
    dsimp only
    split
    · rfl
    · rename_i held
      rw [input_congr agree held]
  unfold runCopy
  dsimp only
  rw [input, target, readParamList_congr agree, readParamList_congr agree]

theorem operands_of_matrixProduct (product : matrixProduct nd = true) :
    nd.inputs.getD 0 kNoTensor ≠ kNoTensor ∧ nd.inputs.getD 1 kNoTensor ≠ kNoTensor := by
  simp only [matrixProduct, and_eq_true, decide_eq_true_eq, ne_eq, decide_not,
    not_eq_true', decide_eq_false_iff_not] at product
  exact ⟨product.1.2, product.2⟩

theorem runMatMul_congr (product : matrixProduct nd = true)
    (agree : ∀ t ∈ readsOf nd, e t = e' t) : runMatMul K g nd e = runMatMul K g nd e' := by
  obtain ⟨presentA, presentB⟩ := operands_of_matrixProduct product
  unfold runMatMul
  dsimp only
  rw [input_congr agree presentA, input_congr agree presentB, operand_congr agree
    (mem_append_right _ (mem_cons_of_mem _ mem_cons_self))]

theorem applyPwEpilogue_congr
    (agree : ∀ t ∈ readsOf nd, e t = e' t) (Y : Shape × List α) :
    applyPwEpilogue K g nd e Y = applyPwEpilogue K g nd e' Y := by
  unfold applyPwEpilogue
  congr 1
  refine map_congr_left fun source _ => ?_
  cases source with
  | none => rfl
  | some i =>
    dsimp only [Option.bind_some]
    unfold operand
    split
    · rfl
    · rename_i present
      rw [input_congr agree present]

theorem runNode_congr
    (agree : ∀ t ∈ readsOf nd, e t = e' t) : runNode K g nd e = runNode K g nd e' := by
  unfold runNode
  split
  · rename_i plain
    rw [runMover_congr plain agree]
  split
  · rename_i plain
    rw [runCopy_congr plain agree]
  split
  · rename_i product
    unfold finish
    rw [runMatMul_congr product agree, applyPwEpilogue_congr agree]
  · have operands : nd.inputs.map (operand e) = nd.inputs.map (operand e') :=
      map_congr_left fun t mem => operand_congr agree (mem_append_left _ mem)
    rw [operands, operand_congr agree (mem_append_right _ mem_cons_self),
      operand_congr agree (mem_append_right _ (mem_cons_of_mem _ mem_cons_self))]

/-- Nodes as instructions over tensors. -/
def signature : Dataflow.Signature Node TensorId where
  reads := readsOf
  writes := writesOf

variable (K g)

/-- Nodes as instructions that compute. -/
def machine : Dataflow.Machine Node TensorId (List α) where
  toSignature := signature
  value nd e t := (runNode K g nd e).getD (nd.outputs.idxOf t) []
  depends nd e e' agree t _ := by rw [runNode_congr agree]

/-- Run the nodes of a graph from what its tensors hold. -/
def execute (nodes : List Node) (e : TensorId → List α) : TensorId → List α :=
  (machine K g).run nodes e

end Vknn.Cpu
