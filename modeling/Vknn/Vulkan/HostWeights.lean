import Vknn.Vulkan.WeightCache

/-!
# Host weights and their device copies

An operator on the device reads an initializer in one of several ways: it uploads the payload flat,
or as it is, or it decodes the payload to pack it itself; an operand that may be a constant is
uploaded when the commands are recorded, and the copy is held for the next recording.

The payload of a large initializer is released as soon as a flat or a raw copy exists.  A segment
remembers the copies it has made, and a pool shares copies of equal payloads between segments.  After
all segments are built, the initializers that the large operators read are erased.

The reads of each kernel are the parameter `kernels`.
-/

namespace Vknn.Vulkan

open Function

/-! ## Upload rules -/

/-- Elements a flat upload of an initializer binds. -/
def uploadInitElemCount (shape : Shape) (storedDtype : DType) (payloadBytes : Nat) : Int :=
  let shapeCount := numElements shape
  if shapeCount > 0 then shapeCount
  else if storedDtype.dtypeSize > 0 then (payloadBytes / storedDtype.dtypeSize : Nat) else 0

/-- Payload bytes that elements of a type occupy, as a 64-bit size. -/
def uploadInitPayloadBytesNeeded (elemCount : Int) (storedDtype : DType) : Nat :=
  if elemCount > 0 then elemCount.toNat * storedDtype.dtypeSize % 2 ^ 64 else 0

/-- The payload a device copy of an initializer holds. -/
inductive InitializerDeviceStore where
  | flatFp16 | flatFp32 | rawBytes
deriving DecidableEq

def flatInitializerStore (fp16Storage : Bool) : InitializerDeviceStore :=
  if fp16Storage then .flatFp16 else .flatFp32

/-- Two folds over the eight-byte words of a payload, and the bytes after them. -/
def contentDigest (bytes : HostBuffer) : UInt64 × UInt64 :=
  let words := (List.range (bytes.length / 8)).map fun i =>
    UInt64.ofNat (Wire.leNat ((bytes.drop (8 * i)).take 8))
  let tail := (bytes.drop (8 * (bytes.length / 8))).map UInt8.toUInt64
  let h1 := (words ++ tail).foldl (fun h w => (h ^^^ w) * 1099511628211) 1469598103934665603
  let h2 := words.foldl (fun h w => (h ^^^ (w + 0x9e3779b97f4a7c15)) * 0x100000001b3)
    (0x2b992ddfa23249d6 ^^^ UInt64.ofNat bytes.length)
  let h2 := tail.foldl (fun h w => (h ^^^ (w + 0x9e3779b97f4a7c15)) * 0x100000001b3) h2
  (h1 ^^^ UInt64.ofNat bytes.length, h2)

/-- Payloads at least this large are released. -/
def kReleaseThresholdBytes : Nat := 2 ^ 20

/-! ## Reads -/

/-- How a kernel reads an initializer: `init` and `raw` upload it, `floats` decodes it, `operand`
and `chainOperand` resolve an operand in a slot of the kernel when the commands are recorded, `truth`
reads a constant by its truth, and `fill` puts a constant where the kernel expects an activation. -/
inductive Read where
  | init (t : TensorId)
  | raw (t : TensorId) (tag : Str)
  | floats (t : TensorId)
  | operand (t : TensorId) (slot : Nat)
  | chainOperand (t : TensorId) (slot : Nat) (flatWorld : Bool)
  | truth (t : TensorId)
  | fill (t : TensorId)
deriving DecidableEq

def Read.tensor : Read → TensorId
  | .init t | .raw t _ | .floats t | .operand t _ | .chainOperand t _ _ | .truth t | .fill t => t

/-- Why a read fails. -/
inductive ReadFault where
  | outOfRange | shortPayload | emptyPayload | nullBuffer
deriving DecidableEq

/-! ## Plans -/

/-- A plan whose weights are uploaded: the graph, the payloads that are views of a file, the
precision, and the nodes of each device segment. -/
structure WeightPlan where
  graph : Graph
  viewed : TensorId → Bool := fun _ => false
  useFp16 : Bool := false
  segments : List (List Nat) := []

/-- The reads of each kernel, when it is prepared and each time it is recorded, and how many of its
operands must be in buffers. -/
structure Kernels where
  prepare : Graph → Node → List Read
  record : Graph → Node → List Read
  segmentFilledConstantOperandEnd : Graph → Node → Nat

namespace WeightPlan

variable (plan : WeightPlan)

/-- Whether a node's output is kept in single precision. -/
def nodeFp32 (nd : Node) : Bool :=
  let out := nd.outputs.headD kNoTensor
  out ≠ kNoTensor && (plan.graph.desc out).storeFp32

def nodeStoresFp16 (nd : Node) : Bool := if plan.nodeFp32 nd then false else plan.useFp16

/-- The payload that the graph has for an initializer. -/
def payload (t : TensorId) : Option HostBuffer := plan.graph.initializers[t]?

end WeightPlan

/-- The key of a flat or a raw copy. -/
inductive CopyKey where
  | flat (dtype : DType) (count : Int) (digest : UInt64 × UInt64) (fp16 : Bool)
  | raw (tag : Str) (digest : UInt64 × UInt64) (fp16 : Bool)
deriving DecidableEq

/-- The initializers and the device copies while a plan is built and recorded.  `memo`, `buffers` and
`kept` belong to a segment, `holds` to a read of a node in a segment. -/
structure WeightState where
  initializers : TensorId → Option HostBuffer
  memo : Nat → TensorId × InitializerDeviceStore → Option HostBuffer := fun _ _ => none
  pool : CopyKey → Option HostBuffer := fun _ => none
  buffers : Nat → TensorId → Option HostBuffer := fun _ _ => none
  holds : Nat × Nat × Read → Option HostBuffer := fun _ => none
  kept : Nat → List TensorId := fun _ => []

/-- The initializers that nodes read at both precisions. -/
def initializersReadAtBothPrecisions (isInitializer : TensorId → Bool) (nodes : List Node)
    (nodeStoresFp16 : Node → Bool) : List TensorId :=
  let readBy := fun fp16 => (nodes.filter fun nd => nodeStoresFp16 nd = fp16).flatMap Node.reads
  (readBy true).filter fun t => t ≠ kNoTensor && isInitializer t && (readBy false).contains t

section Upload

variable (decode : DType → List UInt8 → Float32Bits) (toHalf : HostBuffer → HostBuffer)

/-- The single-precision lanes of a payload. -/
def flatLanes (dtype : DType) (count : Int) (payload : HostBuffer) : HostBuffer :=
  let n := count.toNat
  let filled := min n (payload.length / dtype.dtypeSize)
  Session.decodeHostLanesToFloat32 decode dtype payload filled ++
    List.replicate (4 * (n - filled)) 0

/-- The flat device copy of a payload; half-precision lanes are copied as they are. -/
def flatCopy (dtype : DType) (count : Int) (payload : HostBuffer) (fp16 : Bool) : HostBuffer :=
  if fp16 && dtype = .float16 && (payload.length : Int) = count * 2 then payload
  else uploadWeight toHalf (flatLanes decode dtype count payload) fp16

variable (plan : WeightPlan)

/-- The flat copy of an initializer at a precision. -/
def flatInit (t : TensorId) (payload : HostBuffer) (fp16 : Bool) : HostBuffer :=
  let d := plan.graph.desc t
  flatCopy decode toHalf d.dtype (uploadInitElemCount d.shape d.dtype payload.length) payload fp16

/-- Drop a payload, unless it is kept or a view. -/
def releaseInitializer (seg : Nat) (t : TensorId) (st : WeightState) : WeightState :=
  match st.initializers t with
  | none => st
  | some _ =>
    if (st.kept seg).contains t || plan.viewed t then st
    else { st with initializers := update st.initializers t (some []) }

def rememberFlatWeight (seg : Nat) (key : TensorId × InitializerDeviceStore) (copy : HostBuffer)
    (st : WeightState) : WeightState :=
  { st with memo := update st.memo seg (update (st.memo seg) key (some copy)) }

/-- Take a copy from the pool or make it, remember it, and release a large payload. -/
def shareCopy (seg : Nat) (t : TensorId) (store : InitializerDeviceStore) (key : CopyKey)
    (make payload : HostBuffer) (st : WeightState) : HostBuffer × WeightState :=
  let shared := Memo.acquire st.pool key make
  let st := rememberFlatWeight seg (t, store) shared.1 { st with pool := shared.2 }
  (shared.1,
    if kReleaseThresholdBytes ≤ payload.length then releaseInitializer plan seg t st else st)

def uploadInit (seg : Nat) (fp16 : Bool) (t : TensorId) (st : WeightState) :
    Except ReadFault HostBuffer × WeightState :=
  match st.initializers t with
  | none => (.error .outOfRange, st)
  | some hb =>
    let d := plan.graph.desc t
    let n := uploadInitElemCount d.shape d.dtype hb.length
    if hb.length < uploadInitPayloadBytesNeeded n d.dtype then (.error .shortPayload, st)
    else
      match st.memo seg (t, flatInitializerStore fp16) with
      | some memo => (.ok memo, st)
      | none =>
        let shared := shareCopy plan seg t (flatInitializerStore fp16)
          (.flat d.dtype n (contentDigest hb) fp16) (flatInit decode toHalf plan t hb fp16) hb st
        (.ok shared.1, shared.2)

/-- Upload the bytes of an initializer. -/
def uploadInitRaw (seg : Nat) (fp16 : Bool) (t : TensorId) (tag : Str) (st : WeightState) :
    Except ReadFault HostBuffer × WeightState :=
  match st.initializers t with
  | none => (.error .outOfRange, st)
  | some hb =>
    match st.memo seg (t, .rawBytes) with
    | some memo => (.ok memo, st)
    | none =>
      let shared := shareCopy plan seg t .rawBytes (.raw tag (contentDigest hb) fp16) hb hb st
      (.ok shared.1, shared.2)

/-- The single-precision lanes of an initializer. -/
def initFloats (t : TensorId) (st : WeightState) : Except ReadFault HostBuffer :=
  match st.initializers t with
  | none => .error .outOfRange
  | some hb =>
    let d := plan.graph.desc t
    .ok (flatLanes decode d.dtype (uploadInitElemCount d.shape d.dtype hb.length) hb)

def hold (key : Nat × Nat × Read) (result : Except ReadFault HostBuffer × WeightState) :
    Except ReadFault HostBuffer × WeightState :=
  match result with
  | (.ok copy, st) => (.ok copy, { st with holds := update st.holds key (some copy) })
  | (.error fault, st) => (.error fault, st)

/-- The buffer of a tensor that is not an initializer. -/
def devBuf (seg : Nat) (t : TensorId) (st : WeightState) : Except ReadFault HostBuffer :=
  match st.buffers seg t with
  | some buffer => .ok buffer
  | none => .error .nullBuffer

/-! ## Constants read by truth -/

/-- The elements of a flat store; a rank-0 shape has one. -/
def flatElementCount (shape : Shape) : Int := if shape.isEmpty then 1 else numElements shape

/-- Whether a half-precision store keeps which values of a type are zero. -/
def fp16StoreKeepsTruth (dtype : DType) : Bool := dtype ≠ .float32

/-- The bytes of a flat store, which has room for four elements at least. -/
def flatUploadBytes (count : Int) (fp16Storage : Bool) : Nat :=
  (max count 4).toNat * if fp16Storage then 2 else 4

/-- Each lane as 1.0 where it is not zero, and 0.0 where it is. -/
def canonicalConstantOperand (count : Int) (lanes : HostBuffer) : HostBuffer :=
  (List.range count.toNat).flatMap fun k =>
    if Wire.leNat (lane lanes k) % 2 ^ 31 = 0 then [0, 0, 0, 0] else [0, 0, 128, 63]

/-- The bytes a payload must have to be read by truth, as a 64-bit size. -/
def truthBytesNeeded (d : TensorDesc) : Nat :=
  (flatElementCount d.shape * d.dtype.dtypeSize % 2 ^ 64).toNat

/-- Whether a shared copy of a released payload can be read by truth. -/
def sharesTruth (d : TensorDesc) (fp16 : Bool) (shared : HostBuffer) : Bool :=
  max shared.length (flatUploadBytes 0 fp16) = flatUploadBytes (flatElementCount d.shape) fp16 &&
    (!fp16 || fp16StoreKeepsTruth d.dtype)

/-- The copy of a constant that is read by truth: made from the payload, or the shared flat copy
where the payload has been released. -/
def uploadTruth (seg : Nat) (fp16 : Bool) (t : TensorId) (st : WeightState) :
    Except ReadFault HostBuffer :=
  match st.initializers t with
  | none => .error .outOfRange
  | some hb =>
    let d := plan.graph.desc t
    if truthBytesNeeded d ≤ hb.length then
      (initFloats decode plan t st).map fun lanes =>
        uploadWeight toHalf (canonicalConstantOperand (flatElementCount d.shape) lanes) fp16
    else
      match st.memo seg (t, flatInitializerStore fp16) with
      | some shared =>
        if hb.isEmpty && sharesTruth d fp16 shared then .ok shared else .error .shortPayload
      | none => .error .shortPayload

/-! ## One read -/

/-- Resolve a read of a node in a segment. -/
def read (seg node : Nat) (r : Read) (st : WeightState) : Except ReadFault HostBuffer × WeightState :=
  let fp16 := plan.nodeStoresFp16 (plan.graph.node node)
  match r with
  | .init t => uploadInit decode toHalf plan seg fp16 t st
  | .raw t tag => uploadInitRaw plan seg fp16 t tag st
  | .floats t => (initFloats decode plan t st, st)
  | .truth t => (uploadTruth decode toHalf plan seg fp16 t st, st)
  | .operand t slot =>
    match st.initializers t, st.holds (seg, node, .operand t slot) with
    | none, _ => (devBuf seg t st, st)
    | some _, some copy => (.ok copy, st)
    | some _, none =>
      hold (seg, node, .operand t slot) (uploadInit decode toHalf plan seg fp16 t st)
  | .chainOperand t slot flatWorld =>
    match st.initializers t, st.holds (seg, node, .chainOperand t slot flatWorld) with
    | none, _ => (devBuf seg t st, st)
    | some _, some copy => (.ok copy, st)
    | some hb, none =>
      if hb.isEmpty then (.error .emptyPayload, st)
      else
        hold (seg, node, .chainOperand t slot flatWorld)
          (if flatWorld then uploadInit decode toHalf plan seg fp16 t st
           else (initFloats decode plan t st, st))
  | .fill t =>
    match st.initializers t, st.buffers seg t with
    | none, _ => (devBuf seg t st, st)
    | some _, some buffer => (.ok buffer, st)
    | some _, none =>
      match initFloats decode plan t st with
      | .error fault => (.error fault, st)
      | .ok lanes =>
        (.ok lanes, { st with
          buffers := update st.buffers seg
            (update (st.buffers seg) t (some lanes)) })

end Upload

/-! ## Building and recording a plan -/

section Steps

variable (plan : WeightPlan)

/-- The operands of fused pointwise chains, which are uploaded when commands are recorded. -/
def keepAtRecord (g : Graph) : List TensorId :=
  (g.nodes.filter fun nd => nd.attr.has (str "pw_steps")).flatMap fun nd =>
    (nd.inputs.drop nd.pwCoreInputs).filter fun t => t ≠ kNoTensor

/-- Whether a node is one of the large operators. -/
def uploadsBulk (nd : Node) : Bool :=
  nd.type = .conv || nd.type = .matMul || nd.type = .gemm || nd.type = .convGemm

/-- The initializers that are erased after compilation. -/
def freeable (g : Graph) (isInitializer : TensorId → Bool) : List TensorId :=
  ((g.nodes.filter uploadsBulk).flatMap fun nd => nd.inputs).filter fun t =>
    t ≠ kNoTensor && isInitializer t && !(keepAtRecord g).contains t

/-- What happens to the weights of a plan: a segment starts to be built, a node reads, a copy that
nobody uses any more goes away, and the session erases the host weights. -/
inductive WeightStep where
  | build (seg : Nat)
  | read (seg node : Nat) (r : Read)
  | expire (key : CopyKey)
  | forget (seg : Nat) (key : TensorId × InitializerDeviceStore)
  | erase

def WeightPlan.segmentNodes (seg : Nat) : List Node :=
  (plan.segments.getD seg []).map plan.graph.node

/-- What a kernel's reads are in a segment. -/
def segmentReads (reads : Graph → Node → List Read) (seg : Nat) : List WeightStep :=
  (plan.segments.getD seg []).flatMap fun node =>
    (reads plan.graph (plan.graph.node node)).map (.read seg node)

/-- The constants that a node's kernel expects in buffers. -/
def fills (kernels : Kernels) (g : Graph) (nd : Node) : List Read :=
  ((nd.inputs.take (kernels.segmentFilledConstantOperandEnd g nd) ++ [nd.fusedResidual]).filter
    fun t => t ≠ kNoTensor && g.isInitializer t).map .fill

/-- Build a segment: fill buffers, prepare every kernel, record the commands. -/
def buildSegment (kernels : Kernels) (seg : Nat) : List WeightStep :=
  .build seg :: segmentReads plan (fills kernels) seg ++ segmentReads plan kernels.prepare seg ++
    segmentReads plan kernels.record seg

/-- A plan from its first segment on, with the segments that are recorded again. -/
def planSteps (kernels : Kernels) (recordings : List Nat) : List WeightStep :=
  (List.range plan.segments.length).flatMap (buildSegment plan kernels) ++
    .erase :: recordings.flatMap (segmentReads plan kernels.record)

variable (decode : DType → List UInt8 → Float32Bits) (toHalf : HostBuffer → HostBuffer)

/-- What a read of a plan has resolved to. -/
structure Resolution where
  node : Nat
  read : Read
  result : Except ReadFault HostBuffer

/-- One step, and what its read resolves to. -/
def WeightState.step (st : WeightState) : WeightStep → WeightState × List Resolution
  | .build seg =>
    let kept := initializersReadAtBothPrecisions (fun t => (st.initializers t).isSome)
      (plan.segmentNodes seg) plan.nodeStoresFp16
    ({ st with
      memo := update st.memo seg fun _ => none
      kept := update st.kept seg kept }, [])
  | .read seg node r =>
    let after := Vulkan.read decode toHalf plan seg node r st
    (after.2, [⟨node, r, after.1⟩])
  | .expire key => ({ st with pool := update st.pool key none }, [])
  | .forget seg key =>
    ({ st with
      memo := update st.memo seg (update (st.memo seg) key none) }, [])
  | .erase =>
    let erased := freeable plan.graph fun t => (st.initializers t).isSome
    ({ st with
      initializers := fun t => if erased.contains t then none else st.initializers t }, [])

/-- What the reads of a sequence of steps resolve to. -/
def WeightState.run (st : WeightState) : List WeightStep → List Resolution
  | [] => []
  | s :: rest =>
    (st.step plan decode toHalf s).2 ++ WeightState.run (st.step plan decode toHalf s).1 rest

/-- The weights of a plan before its first segment is built. -/
def WeightPlan.start : WeightState := { initializers := plan.payload }

end Steps

end Vknn.Vulkan
