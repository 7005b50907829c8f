import Vknn.Cpu.Execution
import Vknn.Session.Run

/-!
# Plans on the CPU

A plan on the CPU holds the constants that its nodes read, and those that are graph outputs, in its
runtime tensors; half-precision and 8-bit payloads are decoded to single precision on the way.  Its
segments run their nodes in order.  A kernel reads the operands of its node, the fused residual and
the fused bias, and writes the outputs, or it raises.

What the kernels compute is the parameter `ops`; the bounds that runs check index inputs against
are the parameter `collectGatherIndexAxisSizes`.
-/

namespace Vknn.Session

/-! ## Loading the constants -/

section Load

variable (decode : DType → List UInt8 → Float32Bits)

/-- Whether a constant's payload is decoded when it is loaded. -/
def decodedOnLoad (dtype : DType) : Bool := dtype = .float16 || dtype = .int8 || dtype = .uint8

/-- The payload of a constant in single precision, as many lanes as it has elements. -/
def initFloats (d : TensorDesc) (payload : HostBuffer) : HostBuffer :=
  let n := numElements d.shape
  let n := if n ≤ 0 then payload.length / d.dtype.dtypeSize else n.toNat
  let filled := min n (payload.length / d.dtype.dtypeSize)
  decodeHostLanesToFloat32 decode d.dtype payload filled ++ List.replicate (4 * (n - filled)) 0

/-- The constants that the host needs: those that nodes read, and the graph outputs. -/
def hostNeeded (g : Graph) : List TensorId :=
  (g.nodes.flatMap Node.reads ++ g.outputs).filter fun t => t ≠ kNoTensor && g.isInitializer t

/-- The storage a constant is loaded in. -/
def loadedConstant (d : TensorDesc) (payload : HostBuffer) : DType × HostBuffer :=
  if decodedOnLoad d.dtype then (.float32, initFloats decode d payload) else (d.dtype, payload)

/-- The constants of a plan on the CPU. -/
def hostConstants (g : Graph) : Std.ExtTreeMap TensorId (DType × HostBuffer) :=
  (hostNeeded g).foldl (fun constants t =>
    constants.insert t (loadedConstant decode (g.desc t) (g.initializers.getD t []))) ∅

def cpuConfig : Config := { backend := .cpu }

/-- The segments of a graph all of whose nodes are on the CPU. -/
def cpuSegments (g : Graph) : List CompiledSegment :=
  (Partition.segments g fun _ => 0).map fun seg => { seg with backend := .cpu }

/-- A plan on the CPU before the limits of its index inputs are known. -/
def builtPlan (g : Graph) : PlanBucket :=
  buildBucket cpuConfig g (cpuSegments g) (hostConstants decode g)

variable (collectGatherIndexAxisSizes : Graph → List (TensorId × Int))

def cpuPlan (g : Graph) : PlanBucket :=
  { builtPlan decode g with gatherIndexAxisSizes := collectGatherIndexAxisSizes g }

/-- A session on the CPU, as it is opened. -/
def cpuSession (graphs : List Graph) : Session :=
  opened cpuConfig (graphs.map (cpuPlan decode collectGatherIndexAxisSizes))

end Load

/-! ## Running the segments -/

/-- What a kernel sees and leaves of a tensor. -/
structure Operand where
  shape : Shape := []
  dtype : DType := .float32
  host : HostBuffer := []
  hostValid : Bool := false
deriving DecidableEq

end Session

def RtTensor.operand (rt : RtTensor) : Session.Operand := ⟨rt.shape, rt.dtype, rt.host, rt.hostValid⟩

def RtTensor.withOperand (rt : RtTensor) (o : Session.Operand) : RtTensor :=
  { rt with shape := o.shape, dtype := o.dtype, host := o.host, hostValid := o.hostValid }

@[simp] theorem RtTensor.operand_withOperand (rt : RtTensor) (o : Session.Operand) :
    (rt.withOperand o).operand = o := rfl

@[simp] theorem RtTensor.dmaBufFd_withOperand (rt : RtTensor) (o : Session.Operand) :
    (rt.withOperand o).dmaBufFd = rt.dmaBufFd := rfl

namespace Session

/-- The kernels: from the node and what it reads, whether it succeeds, and what it leaves in each
output. -/
abbrev CpuOps := Node → List (Option Operand) → Bool × (Nat → Operand)

variable (ops : CpuOps)

def operandsOf (nd : Node) (pool : Pool) : List (Option Operand) :=
  nd.reads.map fun t => if t = kNoTensor then none else some (pool t).operand

/-- Write the outputs of a node from a position on. -/
def writeOutputs (results : Nat → Operand) : Nat → List TensorId → Pool → Pool
  | _, [], pool => pool
  | k, o :: rest, pool =>
    if o = kNoTensor then writeOutputs results (k + 1) rest pool
    else
      writeOutputs results (k + 1) rest
        (Function.update pool o ((pool o).withOperand (results k)))

/-- Run nodes in order, until one raises. -/
def runNodes : List Node → Pool → Bool × Pool
  | [], pool => (true, pool)
  | nd :: rest, pool =>
    let result := ops nd (operandsOf nd pool)
    let pool := writeOutputs result.2 0 nd.outputs pool
    if result.1 then runNodes rest pool else (false, pool)

/-- Run segments in order, until one raises. -/
def runCpuSegments (g : Graph) : List CompiledSegment → Pool → Bool × Pool
  | [], pool => (true, pool)
  | seg :: rest, pool =>
    match runNodes ops (seg.nodeIdx.map g.node) pool with
    | (true, pool) => runCpuSegments g rest pool
    | (false, pool) => (false, pool)

def runCpuPlan (b : PlanBucket) (pool : Pool) : Bool × Pool :=
  runCpuSegments ops b.graph b.segments pool

theorem runNodes_append (front back : List Node) (pool : Pool) : runNodes ops (front ++ back) pool =
      match runNodes ops front pool with
      | (true, pool) => runNodes ops back pool
      | (false, pool) => (false, pool) := by
  induction front generalizing pool with
  | nil => rfl
  | cons nd rest ih =>
    rw [List.cons_append, runNodes, runNodes]
    split
    · exact ih _
    · rfl

theorem runCpuSegments_eq (g : Graph) (segments : List CompiledSegment) (pool : Pool) :
    runCpuSegments ops g segments pool =
      runNodes ops ((segments.flatMap fun seg => seg.nodeIdx).map g.node) pool := by
  induction segments generalizing pool with
  | nil => rfl
  | cons seg rest ih =>
    rw [runCpuSegments, List.flatMap_cons, List.map_append, runNodes_append]
    split
    · exact ih _
    · rfl

theorem segments_nodeIdx (g : Graph) (nodeBackendIdx : Nat → Nat) :
    (Partition.segments g nodeBackendIdx).flatMap (fun seg => seg.nodeIdx) =
      List.range g.nodes.length := by
  rw [← (Partition.runs_parts nodeBackendIdx g.nodes.length).covers, List.flatMap_def]
  congr 1
  refine List.ext_getElem? fun p => ?_
  rw [List.getElem?_map, Partition.segments_getElem?]
  cases (Partition.parts nodeBackendIdx g.nodes.length)[p]? <;> rfl

/-- **A plan on the CPU runs the nodes of its graph in order.** -/
theorem runCpuPlan_eq {b : PlanBucket} (segments : b.segments = cpuSegments b.graph) (pool : Pool) :
    runCpuPlan ops b pool = runNodes ops b.graph.nodes pool := by
  have indices : (cpuSegments b.graph).flatMap (fun seg => seg.nodeIdx) =
      List.range b.graph.nodes.length := by
    rw [cpuSegments, List.flatMap_map]
    exact segments_nodeIdx b.graph fun _ => 0
  rw [runCpuPlan, segments, runCpuSegments_eq, indices, b.graph.map_node_range]

end Vknn.Session
