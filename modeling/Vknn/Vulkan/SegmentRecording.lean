import Vknn.Vulkan.NodeCommands

/-!
# The recorded command stream

A segment records its nodes once, as a stream of commands in a few chunks, and submits the chunks on
every run.  A node that touches memory an earlier one has touched is put behind a barrier: a full
barrier where one of the two writes what the other reads or writes, and one of execution alone where
an earlier read only must not be overtaken.  A barrier serves the compute stage, or the transfer stage
as well where a copy is involved.

Around the nodes the stream carries the resident links, the conversions of shared files, the
reductions of outputs, and the hand-over between the iterations of a decode chain.
-/

namespace Vknn.Vulkan

/-! ## Entries -/

inductive BarrierKind where
  | compute | transfer | execution
deriving DecidableEq

/-- What a link copy is told: shapes and layouts of a bit copy, or the row length of a copy that
quantizes. -/
inductive LinkPush where
  | bitCopy (fp16 : Bool) (src dst : NCHW) (srcFlat dstFlat : Bool)
  | quantize (headDim : Int)
deriving DecidableEq

/-- A conversion between a shared file or a staging buffer and a boundary buffer. -/
structure ConvertBinding where
  imported : DeviceBuffer
  isInput : Bool := true
  shape : NCHW
  declFmt : TensorFormat
  declDtype : DType
  devFmt : TensorFormat
  devDtype : DType
deriving DecidableEq

/-- An entry of the stream.  `split` ends a chunk and begins the next one. -/
inductive Entry where
  | barrier (kind : BarrierKind)
  | node (ni : Nat) (commands : List Command)
  | feedback (step maskValidSlots : Int) (tokenFp16 positionFp16 maskFp16 : Bool)
      (operands : List (Option DeviceBuffer))
  | linkCopy (push : LinkPush) (rangeWordBase : Nat) (operands : List (Option DeviceBuffer))
  | convert (boundary : Option DeviceBuffer) (binding : ConvertBinding)
  | argMax (fp16 : Bool) (elemCount : Int) (slot : Nat) (output result : Option DeviceBuffer)
  | split
deriving DecidableEq

abbrev Chunk := List Entry

def chunksOf (entries : List Entry) : List Chunk := entries.splitOnP (fun e => e = .split)

/-! ## The nodes -/

/-- Operand slots and extra outputs that a fused kernel always binds. -/
def kPwMaxOperands : Int := 6
def kPwMaxOuts : Int := 4

/-- What has been read and written since the last barrier, and the size of the chunk. -/
structure Tracking where
  writtenBufs : List DeviceBuffer := []
  readBufs : List DeviceBuffer := []
  copySinceBarrier : Bool := false
  nodesSinceSplit : Int := 0
  bindsSinceSplit : Int := 0
  entries : List Entry := []

/-- Whether a buffer meets one of a set. -/
def hazard (s : List DeviceBuffer) (b : DeviceBuffer) : Bool :=
  s.any fun a => a.handle = b.handle || (a.hazardRoot = b.hazardRoot && decide (a.Meets b))

/-- The barrier a node needs before it. -/
inductive Need where
  | nothing | execution | full
deriving DecidableEq

namespace SegmentPlan

variable (plan : SegmentPlan) (floatInts : Import.FloatInts) (kernel : Kernel) (buffers : Bindings)

/-- The nodes that the barriers treat as copies. -/
def isCopy (ni : Nat) : Bool :=
  let nd := plan.node ni
  match nd.type with
  | .split => nd.outputs.headD kNoTensor = kNoTensor || !plan.flat (nd.outputs.headD kNoTensor)
  | .pad => plan.transferFillNodes.contains ni
  | .reshape | .flatten | .squeeze | .unsqueeze | .cast => true
  | _ => false

/-- An estimate of the descriptors a node binds. -/
def bindEstimate (nd : Node) : Int :=
  let pwExtra :=
    if nd.type = .fusedPointwise || nd.attr.has (str "pw_steps") then 1 + kPwMaxOperands + kPwMaxOuts
    else 0
  if nd.type = .concat then nd.pwCoreInputs * (2 + pwExtra)
  else nd.inputs.length + nd.outputs.length + pwExtra

/-- Whether the loop leaves a node out of its bookkeeping. -/
def elided (ni : Nat) : Bool := plan.fullyElided.contains ni

/-- The barrier the loop puts before a node. -/
def need (t : Tracking) (ni : Nat) : Need :=
  let nd := plan.node ni
  let copy := t.copySinceBarrier || plan.isCopy ni
  if plan.elided ni then .nothing
  else if plan.profile then .full
  else if (inputBufs buffers nd).any (hazard t.writtenBufs) then .full
  else if (outputBufs buffers nd).any (hazard t.writtenBufs) then .full
  else if (outputBufs buffers nd).any (hazard t.readBufs) then if copy then .full else .execution
  else .nothing

def withBarrier (t : Tracking) (ni : Nat) : Tracking :=
  match plan.need buffers t ni with
  | .full =>
    let kind : BarrierKind := if t.copySinceBarrier || plan.isCopy ni then .transfer else .compute
    { t with
      entries := t.entries ++ [.barrier kind]
      writtenBufs := []
      readBufs := []
      copySinceBarrier := false }
  | .execution =>
    let kind : BarrierKind := if plan.synchronization2 then .execution else .compute
    { t with entries := t.entries ++ [.barrier kind], readBufs := [] }
  | .nothing => t

/-- Record a node, and note what it reads and writes. -/
def withNode (t : Tracking) (ni : Nat) : Tracking :=
  let nd := plan.node ni
  let entries := t.entries ++ [.node ni (plan.commands floatInts kernel buffers nd)]
  if plan.elided ni then { t with entries := entries }
  else
    { t with
      entries := entries
      readBufs := inputBufs buffers nd ++ t.readBufs
      writtenBufs := outputBufs buffers nd ++ t.writtenBufs
      copySinceBarrier := t.copySinceBarrier || plan.isCopy ni }

/-- End the chunk after a node where it has grown to its limit and more nodes follow. -/
def withSplit (t : Tracking) (ni : Nat) (more : Bool) : Tracking :=
  let nodes := t.nodesSinceSplit + 1
  let binds := t.bindsSinceSplit + bindEstimate (plan.node ni)
  let splitNodes := decide (plan.maxSubmitNodes > 0) && decide (nodes ≥ plan.maxSubmitNodes)
  let splitBinds := decide (plan.maxSubmitBindings > 0) && decide (binds ≥ plan.maxSubmitBindings)
  if !plan.profile && (splitNodes || splitBinds) && more then
    { entries := t.entries ++ [.split] }
  else { t with nodesSinceSplit := nodes, bindsSinceSplit := binds }

/-- One round of the loop over the nodes. -/
def recordNode (t : Tracking) (ni : Nat) (more : Bool) : Tracking :=
  plan.withSplit (plan.withNode floatInts kernel buffers (plan.withBarrier buffers t ni) ni) ni more

def recordNodes : Tracking → List Nat → Tracking
  | t, [] => t
  | t, ni :: rest => recordNodes (plan.recordNode floatInts kernel buffers t ni !rest.isEmpty) rest

/-- The nodes of one iteration, and the barrier that makes their outputs visible. -/
def nodeEntries : List Entry :=
  let t := plan.recordNodes floatInts kernel buffers {} plan.nodeIdx
  t.entries ++ [.barrier (if t.copySinceBarrier then .transfer else .compute)]

end SegmentPlan

/-! ## What a recording encodes -/

/-- A link that copies ranges of an output into an input on the device.  `capacity` is the number of
ranges that the ranges buffer has room for in each iteration. -/
structure ResidentLink where
  src : TensorId
  dst : TensorId
  rangesBuf : DeviceBuffer
  capacity : Nat
  kvq : Bool
deriving DecidableEq

/-- The tensors by which the iterations of a decode chain are joined. -/
structure DecodeChain where
  tokenInput : TensorId := kNoTensor
  positionInput : TensorId := kNoTensor
  maskInput : TensorId := kNoTensor
  argMaxOutput : TensorId := kNoTensor
deriving DecidableEq

/-- The part of a segment's state that its recording encodes. -/
structure Recordable where
  buffers : Bindings
  convert : Std.ExtTreeMap TensorId ConvertBinding := ∅
  residentLinks : List ResidentLink := []
  argMaxOutputs : Std.ExtTreeSet TensorId := ∅
  argMaxResults : TensorId → Option DeviceBuffer := fun _ => none
  chainConfigured : Bool := false
  chainSteps : Int := 1
  chain : DecodeChain := {}
  chainStateBuf : Option DeviceBuffer := none

namespace Recordable

def recordedSteps (r : Recordable) : Nat := if r.chainConfigured then r.chainSteps.toNat else 1

variable (plan : SegmentPlan) (r : Recordable)

/-- Whether a boundary tensor is stored in half precision. -/
def boundaryFp16 (tid : TensorId) : Bool := plan.useFp16 && !(plan.graph.desc tid).storeFp32

/-- The hand-over from the iteration before. -/
def feedbackEntry (step : Nat) : Entry :=
  .feedback step (numElements (plan.graph.desc r.chain.maskInput).shape - 1)
    (boundaryFp16 plan r.chain.tokenInput) (boundaryFp16 plan r.chain.positionInput)
    (boundaryFp16 plan r.chain.maskInput)
    [r.argMaxResults r.chain.argMaxOutput, r.buffers r.chain.tokenInput,
      r.buffers r.chain.positionInput, r.buffers r.chain.maskInput, r.chainStateBuf]

/-- The copy of a link, which finds the ranges of its iteration by their stride. -/
def linkEntry (step : Nat) (link : ResidentLink) : Entry :=
  let rangeWordBase := step * (2 + link.capacity * 3) % 2 ^ 32
  let cache := plan.kvqCaches link.dst
  let operands := [r.buffers link.src, r.buffers link.dst, some link.rangesBuf]
  if link.kvq then
    .linkCopy (.quantize (cache.elim 0 KvqCache.headDim)) rangeWordBase
      (operands ++ [cache.map KvqCache.scales])
  else
    let src := plan.graph.desc link.src
    let dst := plan.graph.desc link.dst
    .linkCopy (.bitCopy (boundaryFp16 plan link.src) (.ofShape src.shape) (.ofShape dst.shape)
      src.gpuFlat dst.gpuFlat) rangeWordBase operands

def convertEntries (isInput : Bool) : List Entry :=
  (r.convert.toList.filter fun kv => kv.2.isInput = isInput).map fun kv =>
    .convert (r.buffers kv.1) kv.2

/-- Entries, and a barrier after them if there are any. -/
def fenced (entries : List Entry) : List Entry :=
  if entries.isEmpty then [] else entries ++ [.barrier .compute]

def argMaxEntries (step : Nat) : List Entry :=
  r.argMaxOutputs.toList.map fun tid =>
    .argMax (boundaryFp16 plan tid) (numElements (plan.graph.desc tid).shape) step (r.buffers tid)
      (r.argMaxResults tid)

variable (floatInts : Import.FloatInts) (kernel : Kernel)

/-- One iteration.  All but the last end their chunk. -/
def iteration (step : Nat) : List Entry :=
  fenced ((if 0 < step then [r.feedbackEntry plan step] else []) ++
      r.residentLinks.map (r.linkEntry plan step)) ++
    (if step = 0 then fenced (r.convertEntries true) else []) ++
    plan.nodeEntries floatInts kernel r.buffers ++ r.argMaxEntries plan step ++
    if step + 1 < r.recordedSteps then [.barrier .transfer] else fenced (r.convertEntries false)

/-- The whole recording, whose iterations are chunks of their own. -/
def recordedEntries : List Entry :=
  List.intercalate [.split] ((List.range r.recordedSteps).map (r.iteration plan floatInts kernel))

def iterationChunks (step : Nat) : List Chunk := chunksOf (r.iteration plan floatInts kernel step)

def recordedChunks : List Chunk :=
  (List.range r.recordedSteps).flatMap (r.iterationChunks plan floatInts kernel)

/-- The position of each iteration's first chunk. -/
def firstChunk (step : Nat) : Nat :=
  ((List.range step).flatMap (r.iterationChunks plan floatInts kernel)).length

end Recordable

end Vknn.Vulkan
