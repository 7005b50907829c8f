import Vknn.Cpu.Movement
import Vknn.Import.InsertLayoutConverts
import Vknn.Import.PassesUtil

/-!
# The commands a node records

A device segment gives every tensor a buffer, which may be a view of another one's memory.  Where a
node only moves bytes that are in place already, it records nothing: a part of a concatenation that is
a view of the whole at its own offset, say.  Each operator finds that out from the buffers it is given
when it records, so a node that the planner took for one without commands records some after all when
a buffer has been replaced since.

The commands of all other kernels are the parameter `kernel`.
-/

namespace Vknn.Vulkan

open List Cpu NCHW

/-! ## Buffers -/

/-- The memory behind a buffer: an allocation of the device, or a file that the caller shares. -/
inductive Backing where
  | allocation (id : Nat)
  | dmaBuf (id : Nat)
deriving DecidableEq

/-- A device buffer: the buffer whose memory it is in, itself unless it is a view, and its range
there. -/
structure DeviceBuffer where
  handle : Nat
  hazardRoot : Nat
  rootOffset : Nat := 0
  bytes : Nat
  backing : Backing
deriving DecidableEq

abbrev Bindings := TensorId → Option DeviceBuffer

namespace DeviceBuffer

/-- Whether the ranges of two buffers meet. -/
def Meets (a b : DeviceBuffer) : Prop :=
  a.rootOffset < b.rootOffset + b.bytes ∧ b.rootOffset < a.rootOffset + a.bytes

instance (a b : DeviceBuffer) : Decidable (a.Meets b) := inferInstanceAs (Decidable (_ ∧ _))

/-- Two buffers share bytes of the same memory. -/
def SharesBytes (a b : DeviceBuffer) : Prop := a.backing = b.backing ∧ a.Meets b

instance (a b : DeviceBuffer) : Decidable (a.SharesBytes b) := inferInstanceAs (Decidable (_ ∧ _))

/-- Whether a buffer is in the memory of another, a number of bytes after its start. -/
def SitsAt (part whole : DeviceBuffer) (base elemBytes : Int) : Prop :=
  part.hazardRoot = whole.hazardRoot ∧
    (part.rootOffset : Int) = (whole.rootOffset + base * elemBytes) % 2 ^ 64

instance (part whole : DeviceBuffer) (base elemBytes : Int) :
    Decidable (part.SitsAt whole base elemBytes) :=
  inferInstanceAs (Decidable (_ ∧ _))

end DeviceBuffer

/-- Buffers with different roots are in different memory: no file is shared under two tensors. -/
def Unaliased (buffers : Bindings) : Prop :=
  ∀ t u x y, buffers t = some x → buffers u = some y → x.backing = y.backing →
    x.hazardRoot = y.hazardRoot

/-! ## Commands -/

/-- The pipeline stage a command runs in. -/
inductive Stage where
  | compute | transfer
deriving DecidableEq

/-- A recorded command that touches memory. -/
structure Command where
  stage : Stage
  reads : List DeviceBuffer
  writes : List DeviceBuffer
deriving DecidableEq

/-- What the kernels of all other operators record. -/
abbrev Kernel := Node → Bindings → List Command

/-- Whether an operator joins or takes apart tensors: the planner elides no other. -/
def movesSlices (t : OpType) : Bool := t = .concat || t = .split || t = .slice

/-- A cache that is kept in eight bits, with a scale for each row. -/
structure KvqCache where
  headDim : Int
  scales : DeviceBuffer

/-- What a segment is planned with: its graph, the positions of its nodes, its precision, the nodes
that the planner took for ones without commands, the paddings that fill around their data, the
settings by which recordings are split, whether the device has barriers of execution alone, and what
the segment shares with the outside. -/
structure SegmentPlan where
  graph : Graph
  nodeIdx : List Nat := []
  useFp16 : Bool := false
  fullyElided : List Nat := []
  transferFillNodes : List Nat := []
  rowPad : TensorId → Int := fun _ => 0
  maxSubmitNodes : Int := 0
  maxSubmitBindings : Int := 0
  profile : Bool := false
  synchronization2 : Bool := true
  boundaryInputs : List TensorId := []
  boundaryOutputs : List TensorId := []
  kvqCaches : TensorId → Option KvqCache := fun _ => none
  chainStepsMax : Int := 1
  ioGpuConvert : Bool := false
  storage8bit : Bool := false
  shaderInt8 : Bool := false
  elidesMoves : ∀ ni ∈ fullyElided, movesSlices (graph.nodes.getD ni {}).type = true

namespace SegmentPlan

variable (plan : SegmentPlan)

def node (ni : Nat) : Node := plan.graph.nodes.getD ni {}

/-- Whether a node runs in single precision. -/
def nodeFp32 (nd : Node) : Bool :=
  let out := nd.outputs.headD kNoTensor
  out ≠ kNoTensor && (plan.graph.desc out).storeFp32

/-- The bytes of a stored element in a node's kernel. -/
def elemBytes (nd : Node) : Int := if !plan.nodeFp32 nd && plan.useFp16 then 2 else 4

def bufOf (buffers : Bindings) (t : TensorId) : Option DeviceBuffer :=
  if t = kNoTensor then none else buffers t

/-- The buffer an operand is read from, unless it is a constant, which has one of its own. -/
def operandBuf (buffers : Bindings) (t : TensorId) : Option DeviceBuffer :=
  if plan.graph.isInitializer t then none else bufOf buffers t

/-- The buffers that a node's operands and its residual are in. -/
def inputBufs (buffers : Bindings) (nd : Node) : List DeviceBuffer :=
  (nd.inputs ++ [nd.fusedResidual]).filterMap (bufOf buffers)

/-- The buffers that a node's outputs are in. -/
def outputBufs (buffers : Bindings) (nd : Node) : List DeviceBuffer :=
  nd.outputs.filterMap (bufOf buffers)

def dispatch (buffers : Bindings) (nd : Node) : Command :=
  ⟨.compute, inputBufs buffers nd, outputBufs buffers nd⟩

/-- A whole-buffer copy of the first operand. -/
def copy (buffers : Bindings) (src : TensorId) (dst : TensorId) : Command :=
  ⟨.transfer, (plan.operandBuf buffers src).toList, (bufOf buffers dst).toList⟩

/-! ## Slices of a whole -/

/-- The product of the dimensions before an axis. -/
def outer (s : Shape) (axis : Int) : Int := (s.take axis.toNat).foldl (fun n d => n * d) 1

/-- One slice of a node that joins or splits: the tensor, and the element it starts at. -/
structure Slice where
  tensor : TensorId
  base : Int

/-- Start elements of slices laid out one after the other, each as long as its extent says. -/
def sliceBases (extent : TensorId → Int) (scale : Int) (tensors : List TensorId) : List Slice :=
  (tensors.foldl (fun (acc : List Slice × Int) t =>
      (acc.1 ++ [⟨t, toInt32 (acc.2 * scale)⟩], acc.2 + extent t)) ([], 0)).1

/-- The slices of a flat node along an axis of the whole. -/
def flatSlices (nd : Node) (d : Int) (whole : TensorId) (tensors : List TensorId) : List Slice :=
  let ws := (plan.graph.desc whole).shape
  let axis := Import.Layout.axisOf nd d ws.length
  sliceBases (fun t => (plan.graph.desc t).shape.getD axis.toNat 0)
    ((rowStridesOf ws).getD axis.toNat 0) (tensors.filter fun t => t ≠ kNoTensor)

/-- The slices of a node in the packed layout, whose channels are split in blocks. -/
def blockSlices (whole : TensorId) (tensors : List TensorId) : List Slice :=
  let x := ofShape (plan.graph.desc whole).shape
  sliceBases (fun t => cBlocks (ofShape (plan.graph.desc t).shape).c)
    (x.h * x.w * kNC4Block) tensors

/-- Whether a tensor keeps row-major order on the device. -/
def flat (t : TensorId) : Bool := (plan.graph.desc t).gpuFlat

/-! ## Operators that may record nothing -/

/-- Whether a slice is a view of the whole at its own start. -/
def inPlace (buffers : Bindings) (nd : Node) (whole : TensorId) (s : Slice) : Bool :=
  match plan.operandBuf buffers s.tensor, plan.operandBuf buffers whole with
  | some part, some all => part.SitsAt all s.base (plan.elemBytes nd)
  | _, _ => false

/-- The parts a concatenation is made of. -/
def concatParts (nd : Node) : List Slice :=
  let whole := nd.outputs.headD kNoTensor
  let parts := nd.inputs.take nd.pwCoreInputs
  if plan.flat whole then plan.flatSlices nd 1 whole parts else plan.blockSlices whole parts

/-- Whether a concatenation may leave out parts that are in place. -/
def concatMayAlias (nd : Node) : Bool :=
  let ws := (plan.graph.desc (nd.outputs.headD kNoTensor)).shape
  !nd.attr.has (str "pw_steps") &&
    if plan.flat (nd.outputs.headD kNoTensor) then outer ws (Import.Layout.axisOf nd 1 ws.length) = 1
    else (ofShape ws).n = 1

/-- One scatter for each part that is not in place. -/
def concat (buffers : Bindings) (nd : Node) : List Command :=
  let whole := nd.outputs.headD kNoTensor
  ((plan.concatParts nd).filter fun s =>
      !(plan.concatMayAlias nd && plan.inPlace buffers nd whole s)).map fun s =>
    if nd.attr.has (str "pw_steps") then dispatch buffers nd
    else ⟨.compute, (plan.operandBuf buffers s.tensor).toList, (bufOf buffers whole).toList⟩

def splitParts (nd : Node) : List Slice :=
  let whole := nd.inputs.headD kNoTensor
  if plan.flat (nd.outputs.headD kNoTensor) then plan.flatSlices nd 0 whole nd.outputs
  else plan.blockSlices whole (nd.outputs.filter fun t => t ≠ kNoTensor)

/-- Whether a split may leave out outputs that are in place. -/
def splitMayAlias (nd : Node) : Bool :=
  let ws := (plan.graph.desc (nd.inputs.headD kNoTensor)).shape
  if plan.flat (nd.outputs.headD kNoTensor) then outer ws (Import.Layout.axisOf nd 0 ws.length) = 1
  else (ofShape ws).n = 1

/-- One gather, or one copy for each batch, for each output that is not in place. -/
def split (buffers : Bindings) (nd : Node) : List Command :=
  let whole := nd.inputs.headD kNoTensor
  let batches := (ofShape (plan.graph.desc whole).shape).n
  ((plan.splitParts nd).filter fun s =>
      !(plan.splitMayAlias nd && plan.inPlace buffers nd whole s)).flatMap fun s =>
    if plan.flat (nd.outputs.headD kNoTensor) then
      [⟨.compute, (plan.operandBuf buffers whole).toList, (bufOf buffers s.tensor).toList⟩]
    else List.replicate batches.toNat (plan.copy buffers whole s.tensor)

/-- Whether a node of one operand finds its output in the operand's own buffer. -/
def sameHandle (buffers : Bindings) (nd : Node) : Bool :=
  match plan.operandBuf buffers (nd.inputs.headD kNoTensor),
    bufOf buffers (nd.outputs.headD kNoTensor) with
  | some src, some dst => src.handle = dst.handle
  | _, _ => false

/-- A reshape copies unless its output shares the operand's buffer. -/
def reshape (buffers : Bindings) (nd : Node) : List Command :=
  if plan.sameHandle buffers nd then []
  else [plan.copy buffers (nd.inputs.headD kNoTensor) (nd.outputs.headD kNoTensor)]

/-- The casts that narrow; the others copy. -/
def castTruncates (nd : Node) : Bool :=
  [2, 3, 4, 5, 6, 7, 9, 12, 13].contains (nd.attr.geti (str "to") 1)

def cast (buffers : Bindings) (nd : Node) : List Command :=
  if castTruncates nd then [dispatch buffers nd]
  else [plan.copy buffers (nd.inputs.headD kNoTensor) (nd.outputs.headD kNoTensor)]

/-- The start and the step of each axis of a slice. -/
def sliceWalks (floatInts : Import.FloatInts) (nd : Node) : List (Int × Int) :=
  let param := Import.readI64Param floatInts plan.graph nd
  let starts := param (str "starts") 1
  let ends := param (str "ends") 2
  let axes := param (str "axes") 3
  let steps := param (str "steps") 4
  let shape := (plan.graph.desc (nd.inputs.headD kNoTensor)).shape
  (List.range (min starts.length ends.length)).foldl (fun (walks : List (Int × Int)) (a : Nat) =>
      let ax := axes.getD a 0
      let ax := toInt32 (if axes.isEmpty then a else if ax < 0 then ax + shape.length else ax)
      if ax < 0 ∨ (shape.length : Int) ≤ ax then walks
      else
        let step := steps.getD a 1
        let bounds := Cpu.resolveSliceAxis (shape.getD ax.toNat 0) (starts.getD a 0) (ends.getD a 0)
          step
        walks.set ax.toNat (bounds.start, step))
    (shape.map fun _ => (0, 1))

def sliceBase (floatInts : Import.FloatInts) (nd : Node) : Int :=
  let strides := rowStridesOf (plan.graph.desc (nd.inputs.headD kNoTensor)).shape
  ((plan.sliceWalks floatInts nd).zip strides).foldl
    (fun base w => Cpu.toInt32 (base + Cpu.toInt32 (w.1.1 * w.2))) 0

/-- Whether a slice takes a run of consecutive elements. -/
def contiguousSlice (floatInts : Import.FloatInts) (nd : Node) : Bool :=
  let shape := (plan.graph.desc (nd.inputs.headD kNoTensor)).shape
  let out := (plan.graph.desc (nd.outputs.headD kNoTensor)).shape
  let walks := plan.sliceWalks floatInts nd
  let whole := fun (d : Nat) => (walks.getD d (0, 1)).1 = 0 ∧ out.getD d 0 = shape.getD d 0
  let axes := List.range shape.length
  let folded := nd.attr.has (str "view_stride") &&
    (nd.attr.getints (str "view_stride")).length = out.length
  !folded && shape.length = out.length && walks.all (fun w => w.2 = 1) &&
    (match (axes.filter fun d => !decide (whole d)).getLast? with
      | some last => axes.all fun d =>
        (last ≤ d || out.getD d 0 = 1) && (d ≤ last || decide (whole d))
      | none => true) &&
    (decide (plan.rowPad (nd.outputs.headD kNoTensor) ≤ 0) || out.isEmpty)

/-- The start element of a slice's gather: a folded chain has its own. -/
def gatherBase (floatInts : Import.FloatInts) (nd : Node) : Int :=
  if nd.attr.has (str "view_stride") && (nd.attr.getints (str "view_stride")).length =
      (plan.graph.desc (nd.outputs.headD kNoTensor)).shape.length then
    toInt32 (nd.attr.geti (str "view_base") 0)
  else plan.sliceBase floatInts nd

/-- Whether a slice or a transposition looks for its output in the operand's memory. -/
def gatherMayAlias (nd : Node) : Bool :=
  !nd.attr.has (str "pw_steps") && nd.inputs.headD kNoTensor ≠ kNoTensor &&
    !plan.graph.isInitializer (nd.inputs.headD kNoTensor)

/-- A slice gathers unless its output is a view of the operand at the start of the run. -/
def slice (floatInts : Import.FloatInts) (buffers : Bindings) (nd : Node) : List Command :=
  let out := nd.outputs.headD kNoTensor
  if plan.gatherMayAlias nd && (plan.sameHandle buffers nd ||
      plan.contiguousSlice floatInts nd &&
        plan.inPlace buffers nd (nd.inputs.headD kNoTensor) ⟨out, plan.gatherBase floatInts nd⟩)
  then [] else [dispatch buffers nd]

def transpose (buffers : Bindings) (nd : Node) : List Command :=
  if plan.gatherMayAlias nd && plan.sameHandle buffers nd then [] else [dispatch buffers nd]

/-! ## Padding -/

/-- A padding that can fill around data in place: the byte its data starts at, the bytes of the
data, and the bytes of the output. -/
structure PadView where
  viewOffBytes : Int
  dataBytes : Int
  outBytes : Int

/-- A padding by a known constant along one axis, with nothing but ones before it. -/
def padView (floatInts : Import.FloatInts) (nd : Node) : Option PadView :=
  let shape := (plan.graph.desc (nd.inputs.headD kNoTensor)).shape
  let out := (plan.graph.desc (nd.outputs.headD kNoTensor)).shape
  let rank := out.length
  let pads := Import.readI64Param floatInts plan.graph nd (str "pads") 1
  let mode := nd.attr.gets (str "mode") (str "constant")
  let value := nd.inputs.getD 2 kNoTensor
  let padded := (List.range rank).filter fun d => pads.getD d 0 > 0 ∨ pads.getD (rank + d) 0 > 0
  match padded with
  | [axis] =>
    let stride := (out.drop (axis + 1)).foldl (fun n d => n * d) 1
    let view : PadView := ⟨pads.getD axis 0 * stride * plan.elemBytes nd,
      numElements shape * plan.elemBytes nd, numElements out * plan.elemBytes nd⟩
    if mode ≠ str "edge" ∧ mode ≠ str "reflect" ∧ (value = kNoTensor ∨ plan.graph.isInitializer value) ∧
        2 * rank ≤ pads.length ∧ (∀ d < 2 * rank, 0 ≤ pads.getD d 0) ∧ outer out axis = 1 ∧
        view.viewOffBytes % 4 = 0 ∧ (view.viewOffBytes + view.dataBytes) % 4 = 0 ∧
        view.outBytes % 4 = 0
    then some view else none
  | _ => none

/-- Whether a padding finds its data in its output. -/
def padInPlace (floatInts : Import.FloatInts) (buffers : Bindings) (nd : Node) : Option PadView :=
  match plan.padView floatInts nd with
  | some view =>
    match plan.operandBuf buffers (nd.inputs.headD kNoTensor),
      bufOf buffers (nd.outputs.headD kNoTensor) with
    | some src, some dst =>
      if !nd.attr.has (str "pw_steps") ∧ src.SitsAt dst view.viewOffBytes 1 then some view else none
    | _, _ => none
  | none => none

/-- A padding fills the two ranges around its data where the data is in place, and gathers
elsewhere. -/
def pad (floatInts : Import.FloatInts) (buffers : Bindings) (nd : Node) : List Command :=
  match plan.padInPlace floatInts buffers nd with
  | some view =>
    let fill : Command := ⟨.transfer, [], (bufOf buffers (nd.outputs.headD kNoTensor)).toList⟩
    (if view.viewOffBytes > 0 then [fill] else []) ++
      if view.viewOffBytes + view.dataBytes < view.outBytes then [fill] else []
  | none => [dispatch buffers nd]

/-! ## All operators -/

/-- The commands a node records against the buffers that are bound. -/
def commands (floatInts : Import.FloatInts) (kernel : Kernel) (buffers : Bindings) (nd : Node) :
    List Command :=
  match nd.type with
  | .concat => plan.concat buffers nd
  | .split => plan.split buffers nd
  | .slice => plan.slice floatInts buffers nd
  | .transpose => plan.transpose buffers nd
  | .reshape | .flatten | .squeeze | .unsqueeze => plan.reshape buffers nd
  | .cast => plan.cast buffers nd
  | .pad => plan.pad floatInts buffers nd
  | _ => kernel nd buffers

/-- The kernels run in the compute stage, read their operands, their residual and their outputs, and
write their outputs; buffers that are a kernel's own are not counted. -/
def KernelsBound (kernel : Kernel) : Prop :=
  ∀ nd buffers, ∀ c ∈ kernel nd buffers, c.stage = .compute ∧
    (∀ x ∈ c.reads, x ∈ inputBufs buffers nd ∨ x ∈ outputBufs buffers nd) ∧
    ∀ x ∈ c.writes, x ∈ outputBufs buffers nd

/-! ## Nodes that record nothing -/

/-- Whether everything a node would move is in place. -/
def AllInPlace (floatInts : Import.FloatInts) (buffers : Bindings) (nd : Node) : Prop :=
  match nd.type with
  | .concat =>
    ∀ s ∈ plan.concatParts nd, plan.concatMayAlias nd = true ∧
      plan.inPlace buffers nd (nd.outputs.headD kNoTensor) s = true
  | .split =>
    ∀ s ∈ plan.splitParts nd, (plan.splitMayAlias nd = true ∧
      plan.inPlace buffers nd (nd.inputs.headD kNoTensor) s = true) ∨
        (plan.flat (nd.outputs.headD kNoTensor) = false ∧
          (ofShape (plan.graph.desc (nd.inputs.headD kNoTensor)).shape).n ≤ 0)
  | .slice =>
    plan.gatherMayAlias nd = true ∧ (plan.sameHandle buffers nd = true ∨
      plan.contiguousSlice floatInts nd = true ∧ plan.inPlace buffers nd (nd.inputs.headD kNoTensor)
          ⟨nd.outputs.headD kNoTensor, plan.gatherBase floatInts nd⟩ = true)
  | _ => False

/-- **A node that moves slices records nothing exactly where they are all in place.** -/
theorem commands_eq_nil_iff (floatInts : Import.FloatInts) (kernel : Kernel) (buffers : Bindings)
    {nd : Node} (moves : movesSlices nd.type = true) :
    plan.commands floatInts kernel buffers nd = [] ↔ plan.AllInPlace floatInts buffers nd := by
  unfold movesSlices at moves
  rcases (by simpa [or_assoc] using moves : nd.type = .concat ∨ nd.type = .split ∨ nd.type = .slice)
    with type | type | type
  · simp only [commands, AllInPlace, type, concat, map_eq_nil_iff, filter_eq_nil_iff,
      Bool.not_eq_true', Bool.not_eq_false, Bool.and_eq_true]
  · simp only [commands, AllInPlace, type, split, flatMap_eq_nil_iff, mem_filter,
      Bool.not_eq_true', Bool.and_eq_false_iff]
    refine forall_congr' fun s => ?_
    cases plan.flat (nd.outputs.headD kNoTensor) <;> cases plan.splitMayAlias nd <;>
      cases plan.inPlace buffers nd (nd.inputs.headD kNoTensor) s <;> simp [replicate_eq_nil_iff]
  · simp only [commands, AllInPlace, type, slice]
    cases plan.gatherMayAlias nd <;> cases plan.sameHandle buffers nd <;>
      cases plan.contiguousSlice floatInts nd <;> simp

end SegmentPlan

end Vknn.Vulkan
