import Vknn.Session.RepeatableRuns
import Vknn.Vulkan.BoundaryTransfer

/-!
# Hand-off between segments

A plan whose nodes are on two backends is cut into segments that run one after the other.  A device
segment has a buffer of its own for each tensor.  Before it is submitted it uploads its boundary
inputs from host storage, unless that very buffer is valid; afterwards it downloads its boundary
outputs.  A kernel on the CPU reads and writes host storage, and what it writes is no longer valid on
a device.

A tensor that the caller has bound to a file is neither uploaded nor downloaded.  Where its
declaration is the device's own layout, the segments use the file as its buffer, else the device
converts between the two.

Beside the run goes a record of what has been produced so far: the value of each tensor as the
segment that wrote it has left it.

The kernels and conversions are parameters, as is what happens between the segments of one run and
those of the next.
-/

namespace Vknn.HandOff

open Session Vulkan

/-! ## State -/

/-- The buffers: one for a tensor of a segment, or a file of the caller. -/
inductive BufferId where
  | own (segment : Nat) (tid : TensorId)
  | file (id : Nat)
deriving DecidableEq

/-- The device residency of a tensor. -/
structure DeviceStorage where
  buffer : Option BufferId := none
  valid : Bool := false

structure State where
  pool : Pool
  device : TensorId → DeviceStorage := fun _ => {}
  memory : BufferId → DeviceBytes := fun _ _ => 0

/-- What the file of a boundary tensor is to the segments. -/
inductive FileUse where
  | direct (id : Nat)
  | converted (id : Nat)
  | unavailable
deriving DecidableEq

def FileUse.id : FileUse → Option Nat
  | .direct id | .converted id => some id
  | .unavailable => none

/-- The settings of a run: selected rows, reduced outputs, and the caller's files. -/
structure Setting where
  rows : TensorId → Option Int := fun _ => none
  argMax : TensorId → Bool := fun _ => false
  files : TensorId → FileUse := fun _ => .unavailable

/-- The kernels of both backends, and the conversions of files.  A device segment computes the
contents of its outputs from those of its buffers, or throws. -/
structure Kernels where
  cpu : CpuOps
  gpu : Nat → (TensorId → DeviceBytes) → Option (TensorId → DeviceBytes)
  convertIn : TensorId → DeviceBytes → DeviceBytes
  convertOut : TensorId → DeviceBytes → DeviceBytes

/-- The segments of a graph under an assignment of backends to nodes. -/
def segments (g : Graph) (backendOf : Nat → BackendKind) : List CompiledSegment :=
  (Partition.segments g fun n => if backendOf n = .cpu then 1 else 0).map fun seg =>
    { seg with backend := backendOf (seg.nodeIdx.headD 0) }

variable (decode : DType → List UInt8 → Float32Bits) (floatToHalfSat : Float32Bits → UInt16)
variable (k : Kernels) (g : Graph) (useFp16 : Bool) (r : Setting)

def flat (t : TensorId) : Bool := (g.desc t).gpuFlat

def deviceFp16 (t : TensorId) : Bool := useFp16 && !(g.desc t).storeFp32

/-- The tensors that a segment writes. -/
def produced (seg : CompiledSegment) : List TensorId :=
  (seg.nodeIdx.flatMap fun ni => (g.node ni).outputs).filter fun t => t ≠ kNoTensor

/-- The boundary inputs that a device segment has buffers for. -/
def deviceInputs (seg : CompiledSegment) : List TensorId :=
  seg.boundaryInputs.filter fun t => !g.isInitializer t

/-- The buffer that a segment uses for a tensor. -/
def bound (s : State) (p : Nat) (t : TensorId) : BufferId :=
  if 0 ≤ (s.pool t).dmaBufFd then
    match r.files t with
    | .direct id => .file id
    | _ => .own p t
  else .own p t

/-! ## A device segment -/

/-- Whether a boundary input is uploaded from host storage. -/
def uploads (s : State) (p : Nat) (t : TensorId) : Bool :=
  decide ((s.pool t).dmaBufFd < 0) && (s.pool t).hostValid &&
    !((s.device t).valid && (s.device t).buffer = some (.own p t))

/-- Upload the boundary inputs.  Each step of the loop touches one tensor and its buffer. -/
def upload (p : Nat) (seg : CompiledSegment) (s : State) : State where
  pool := s.pool
  device t :=
    if t ∈ deviceInputs g seg then
      ⟨some (bound r s p t),
        (s.device t).valid || decide (0 ≤ (s.pool t).dmaBufFd) || uploads s p t⟩
    else s.device t
  memory
    | .own q t =>
      if q = p ∧ t ∈ deviceInputs g seg ∧ uploads s p t = true then
        uploadInput decode floatToHalfSat (s.pool t) (deviceFp16 g useFp16 t) (flat g t)
          (s.memory (.own q t))
      else s.memory (.own q t)
    | .file id => s.memory (.file id)

/-- Convert the files of boundary inputs into their buffers. -/
def convertInputs (p : Nat) (seg : CompiledSegment) (s : State) : State where
  pool := s.pool
  device := s.device
  memory
    | .own q t =>
      if q = p ∧ t ∈ deviceInputs g seg ∧ 0 ≤ (s.pool t).dmaBufFd then
        match r.files t with
        | .converted id => k.convertIn t (s.memory (.file id))
        | _ => s.memory (.own q t)
      else s.memory (.own q t)
    | .file id => s.memory (.file id)

/-- Write the contents of tensors to their buffers, one after the other. -/
def writeBuffers (s : State) (p : Nat) (results : TensorId → DeviceBytes) (ts : List TensorId) :
    BufferId → DeviceBytes :=
  ts.foldl (fun m t => Function.update m (bound r s p t) (results t)) s.memory

/-- Convert boundary outputs to their files. -/
def convertOutputs (p : Nat) (s : State) (ts : List TensorId) (memory : BufferId → DeviceBytes) :
    BufferId → DeviceBytes :=
  ts.foldl (fun m t =>
    if 0 ≤ (s.pool t).dmaBufFd then
      match r.files t with
      | .converted id => Function.update m (.file id) (k.convertOut t (m (.own p t)))
      | _ => m
    else m) memory

def dispatch (p : Nat) (seg : CompiledSegment) (s : State) : Option State :=
  (k.gpu p fun t => s.memory (bound r s p t)).map fun results =>
    { s with
      memory := convertOutputs k r p s seg.boundaryOutputs
        (writeBuffers r s p results (produced g seg)) }

/-- What a download leaves of a boundary output. -/
def downloaded (s : State) (p : Nat) (t : TensorId) : RtTensor :=
  let rt := s.pool t
  if r.argMax t then { rt with hostValid := false }
  else if rt.dmaBufFd < 0 then
    downloadOutput decode floatToHalfSat (s.memory (.own p t)) rt (deviceFp16 g useFp16 t) (flat g t)
      (g.outputs.contains t) (g.desc t).dtype (r.rows t)
  else rt

def download (p : Nat) (seg : CompiledSegment) (s : State) : State where
  pool t :=
    if t ∈ seg.boundaryOutputs then downloaded decode floatToHalfSat g useFp16 r s p t else s.pool t
  device t := if t ∈ seg.boundaryOutputs then ⟨some (bound r s p t), true⟩ else s.device t
  memory := s.memory

/-- The state in which the kernels of a device segment read. -/
def received (p : Nat) (seg : CompiledSegment) (s : State) : State :=
  convertInputs k g r p seg (upload decode floatToHalfSat g useFp16 r p seg s)

def runDevice (p : Nat) (seg : CompiledSegment) (s : State) : Bool × State :=
  let s := received decode floatToHalfSat k g useFp16 r p seg s
  match dispatch k g r p seg s with
  | none => (false, s)
  | some s => (true, download decode floatToHalfSat g useFp16 r p seg s)

/-! ## A segment on the CPU -/

/-- Run one node.  What it writes is valid on the host only. -/
def runCpuNode (nd : Node) (s : State) : Bool × State :=
  let result := k.cpu nd (operandsOf nd s.pool)
  (result.1, { s with
    pool := writeOutputs result.2 0 nd.outputs s.pool
    device := fun t => if t ∈ nd.outputs then { s.device t with valid := false } else s.device t })

/-- Run nodes in order, until one raises. -/
def runCpu : List Node → State → Bool × State
  | [], s => (true, s)
  | nd :: rest, s =>
    match runCpuNode k nd s with
    | (true, s) => runCpu rest s
    | (false, s) => (false, s)

/-- The nodes that are run, and the states in which they read. -/
def cpuReads : List Node → State → List (State × List TensorId)
  | [], _ => []
  | nd :: rest, s =>
    (s, nd.reads) :: match runCpuNode k nd s with
      | (true, s) => cpuReads rest s
      | (false, _) => []

/-! ## Runs -/

def runSegment (p : Nat) (seg : CompiledSegment) (s : State) : Bool × State :=
  match seg.backend with
  | .cpu => runCpu k (seg.nodeIdx.map g.node) s
  | .vulkan => runDevice decode floatToHalfSat k g useFp16 r p seg s

/-- Run segments in order, until one fails. -/
def runSegments : Nat → List CompiledSegment → State → State
  | _, [], s => s
  | p, seg :: rest, s =>
    match runSegment decode floatToHalfSat k g useFp16 r p seg s with
    | (true, s) => runSegments (p + 1) rest s
    | (false, s) => s

/-- A value that a segment has produced. -/
structure Made where
  producer : CompiledSegment
  value : Operand
deriving DecidableEq

/-- The record after a segment has run. -/
def note (p : Nat) (seg : CompiledSegment) (made : TensorId → Option Made) (s : State) :
    TensorId → Option Made := fun t =>
  if t ∈ produced g seg then
    some ⟨seg,
      match seg.backend with
      | .cpu => (s.pool t).operand
      | .vulkan => deviceOperand decode (s.memory (bound r s p t)) (s.pool t).shape
          (deviceFp16 g useFp16 t) (flat g t)⟩
  else made t

/-- A read of a segment: the state it finds, the tensors read, and what has been produced. -/
structure Reading where
  position : Nat
  seg : CompiledSegment
  made : TensorId → Option Made
  state : State
  reads : List TensorId

def readsOf (p : Nat) (seg : CompiledSegment) (s : State) : List (State × List TensorId) :=
  match seg.backend with
  | .cpu => cpuReads k (seg.nodeIdx.map g.node) s
  | .vulkan => [(received decode floatToHalfSat k g useFp16 r p seg s,
      seg.nodeIdx.flatMap fun ni => (g.node ni).reads)]

def readings : Nat → List CompiledSegment → (TensorId → Option Made) → State → List Reading
  | _, [], _, _ => []
  | p, seg :: rest, made, s =>
    ((readsOf decode floatToHalfSat k g useFp16 r p seg s).map fun x => ⟨p, seg, made, x.1, x.2⟩) ++
      match runSegment decode floatToHalfSat k g useFp16 r p seg s with
      | (true, s) => readings (p + 1) rest (note decode g useFp16 r p seg made s) s
      | (false, _) => []

/-- A run of a session: what its caller binds, and what collecting the outputs of the run before has
left, is any change of the state. -/
structure Run where
  bind : State → State
  setting : Setting

def after (segs : List CompiledSegment) (s : State) (runs : List Run) : State :=
  runs.foldl (fun s run =>
    runSegments decode floatToHalfSat k g useFp16 run.setting 0 segs (run.bind s)) s

def readingsAfter (segs : List CompiledSegment) (s : State) (before : List Run) (run : Run) :
    List Reading :=
  readings decode floatToHalfSat k g useFp16 run.setting 0 segs (fun _ => none)
    (run.bind (after decode floatToHalfSat k g useFp16 segs s before))

/-! ## Faithfulness -/

/-- A read finds a value: on the CPU in host storage, on the device in the buffer of the segment. -/
def Receives (x : Reading) (t : TensorId) (m : Made) : Prop :=
  match x.seg.backend with
  | .cpu => (x.state.pool t).operand = m.value
  | .vulkan => Carries decode floatToHalfSat (x.state.memory (bound r x.state x.position t)) m.value
      (deviceFp16 g useFp16 t) (flat g t)

/-- **Faithful hand-off**: what a segment reads of a tensor that an earlier segment has produced is
the value as that segment has left it. -/
def Faithful (x : Reading) : Prop :=
  ∀ t ∈ x.reads, t ∉ produced g x.seg → ∀ m, x.made t = some m →
    Receives decode floatToHalfSat g useFp16 r x t m

/-- A tensor is published by the device: among the outputs of its producer, not reduced, and not
bound to a file. -/
structure Published (x : Reading) (t : TensorId) (m : Made) : Prop where
  output : t ∈ m.producer.boundaryOutputs
  whole : r.argMax t = false
  unbound : (x.state.pool t).dmaBufFd < 0

/-- A tensor that segments of the device share through the caller's file, which no other tensor has. -/
def Shared (x : Reading) (t : TensorId) : Prop :=
  0 ≤ (x.state.pool t).dmaBufFd ∧ ∃ id, r.files t = .direct id ∧
    ∀ u, 0 ≤ (x.state.pool u).dmaBufFd → (r.files u).id = some id → u = t

/-- What the caller is given of a tensor is what the graph needs: unless it is a row-major graph
output it is not cut down, and a row-major tensor has a rank. -/
def Undiminished (t : TensorId) (m : Made) (half : Prop) : Prop :=
  (flat g t = true → m.value.shape ≠ []) ∧ (flat g t = true → g.outputs.contains t = true →
      ((g.desc t).dtype = .float16 → half) ∧ ¬ Vulkan.Narrows m.value.shape (r.rows t))

/-- The hand-offs that the transfers serve. -/
def Crosses (x : Reading) (t : TensorId) (m : Made) : Prop :=
  match m.producer.backend, x.seg.backend with
  | .cpu, .cpu => True
  | .cpu, .vulkan => t ∈ deviceInputs g x.seg ∧ (x.state.pool t).dmaBufFd < 0 ∧
      (m.value.shape ≠ [] ∨ (flat g t = false ∧ m.value.dtype = .float32))
  | .vulkan, .cpu => Published r x t m ∧ Undiminished g r t m False
  | .vulkan, .vulkan => t ∈ deviceInputs g x.seg ∧ (Shared r x t ∨
      (Published r x t m ∧ Undiminished g r t m (deviceFp16 g useFp16 t = true)))

/-- The kernels on the CPU leave valid host storage. -/
def Publishes (ops : CpuOps) : Prop := ∀ nd operands i, ((ops nd operands).2 i).hostValid = true

end Vknn.HandOff
