import Vknn.Vulkan.SegmentRecording

/-!
# Runs of a recorded segment

A run first binds the files that the caller shares for boundary tensors, directly or behind a
conversion, then stages the inputs that the device converts.  Where anything that the recording
encodes has changed it records anew, and it submits the chunks of the active iterations.  Between runs
the caller declares links, reductions and decode chains.

Each of these can fail.  What a file turns out to be, whether it can be imported, and where an
allocation, the recording or a submission fails, comes from outside.  A step that throws leaves the
state as far as it has got.
-/

namespace Vknn.Vulkan

open Function

/-! ## Conversions at the boundary -/

/-- The pairs of stored types that the device converts between. -/
def kBoundaryConvertVariants : List (DType × DType) :=
  [(.float32, .float32), (.float32, .float16), (.float16, .float32), (.float16, .float16),
    (.uint8, .float16), (.uint8, .float32), (.float16, .uint8), (.float32, .uint8),
    (.uint8, .uint8), (.int8, .float16), (.int8, .float32), (.float16, .int8), (.float32, .int8)]

def boundaryConvertHasVariant (source destination : DType) : Bool :=
  kBoundaryConvertVariants.contains (source, destination)

def isEightBitDtype (dtype : DType) : Bool := dtype = .uint8 || dtype = .int8

/-- Whether a device with these capabilities runs the variant of a pair. -/
def boundaryConvertDeviceSupports (source destination : DType) (storage8bit shaderInt8 : Bool) :
    Bool :=
  boundaryConvertHasVariant source destination &&
    (!(isEightBitDtype source || isEightBitDtype destination) || (storage8bit && shaderInt8))

/-- The stored type of a boundary buffer. -/
def boundaryDeviceDtype (segmentFp16 storeFp32 : Bool) : DType :=
  if segmentFp16 && !storeFp32 then .float16 else .float32

/-- Whether a declared file is the boundary buffer itself. -/
def dmaBufBindsDirectly (declFmt : TensorFormat) (declDtype : DType) (devFmt : TensorFormat)
    (devDtype : DType) : Bool :=
  declFmt = .auto || (declFmt = devFmt && declDtype = devDtype)

/-- Whether a declaration is refused: it does not bind directly, and the device does not convert. -/
def dmaBufRefused (isInput : Bool) (declFmt : TensorFormat) (declDtype : DType)
    (devFmt : TensorFormat) (devDtype : DType) (storage8bit shaderInt8 : Bool) : Bool :=
  !dmaBufBindsDirectly declFmt declDtype devFmt devDtype &&
    !boundaryConvertDeviceSupports (if isInput then declDtype else devDtype)
      (if isInput then devDtype else declDtype) storage8bit shaderInt8

/-! ## What a run is given -/

/-- What a run reads of the runtime tensors. -/
structure BoundTensor where
  dmaBufFd : Int := -1
  dmaBufFormat : TensorFormat := .nchw
  dmaBufDtype : DType := .float32
  dtype : DType := .float32
  shape : Shape := []
deriving DecidableEq

/-- How an import of a shared file ends. -/
inductive ImportResult where
  | imported | unavailable | throws
deriving DecidableEq

/-- The world a run finds: the identities of files, the ends of imports, the staging allocations that
fail, and where the recording, the upload and the submissions fail.  A recording that fails leaves
some of its chunks and some positions. -/
structure RunWorld where
  dmaBufId : Int → Nat := fun _ => 0
  imports : TensorId → ImportResult := fun _ => .imported
  stagingFails : TensorId → Bool := fun _ => false
  recordFails : Option (Nat × List Nat) := none
  uploadFails : Bool := false
  submitFails : Option Nat := none

/-! ## The state -/

/-- The import of a boundary tensor's file. -/
structure Imported where
  id : Nat := 0
  fd : Int := -1
  bytes : Nat := 0
  buf : Option DeviceBuffer := none

/-- A segment's state. -/
structure SegmentState extends Recordable where
  origBoundary : Bindings := fun _ => none
  imported : TensorId → Imported := fun _ => {}
  stagingIn : Bindings := fun _ => none
  recordedConvert : Std.ExtTreeMap TensorId ConvertBinding := ∅
  linksChanged : Bool := false
  argMaxChanged : Bool := false
  chainChanged : Bool := false
  recordingStale : Bool := true
  chainActiveSteps : Int := 1
  cmds : List Chunk := []
  iterationFirstChunk : List Nat := []
  nextHandle : Nat := 0

/-- How a step ends: a refusal of a declaration, another error after some chunks have been submitted,
a run with the chunks it has submitted, or the status of a call. -/
inductive Ending where
  | refused
  | failed (submitted : List Chunk)
  | done (submitted : List Chunk)
  | returned (status : Status)
deriving DecidableEq

namespace SegmentState

variable (plan : SegmentPlan) (rt : TensorId → BoundTensor) (w : RunWorld) (s : SegmentState)

def allocate (bytes : Nat) : DeviceBuffer :=
  ⟨s.nextHandle, s.nextHandle, 0, bytes, .allocation s.nextHandle⟩

/-- The file that a tensor binds in this run; an eight-bit cache binds none. -/
def boundDmaBufFd (tid : TensorId) : Int :=
  if (plan.kvqCaches tid).isSome then -1 else (rt tid).dmaBufFd

def deviceFormat (tid : TensorId) : TensorFormat := if plan.flat tid then .nchw else .nc4hw4

def deviceDtype (tid : TensorId) : DType :=
  boundaryDeviceDtype plan.useFp16 (plan.graph.desc tid).storeFp32

/-- The shape of a tensor in this run. -/
def boundShape (tid : TensorId) : Shape :=
  if (rt tid).shape.isEmpty then (plan.graph.desc tid).shape else (rt tid).shape

/-- Whether a tensor's declaration refuses the run. -/
def refuses (isInput : Bool) (tid : TensorId) : Bool :=
  (s.buffers tid).isSome && decide (0 ≤ boundDmaBufFd plan rt tid) &&
    dmaBufRefused isInput (rt tid).dmaBufFormat (rt tid).dmaBufDtype (deviceFormat plan tid)
      (deviceDtype plan tid) plan.storage8bit plan.shaderInt8

/-- Whether a tensor's declaration binds directly. -/
def direct (tid : TensorId) : Bool :=
  dmaBufBindsDirectly (rt tid).dmaBufFormat (rt tid).dmaBufDtype (deviceFormat plan tid)
    (deviceDtype plan tid)

/-- The bytes that a declared layout takes. -/
def declaredBytes (declFmt : TensorFormat) (declDtype : DType) (tid : TensorId) : Nat :=
  (formatElems declFmt (.ofShape (boundShape plan rt tid)) * declDtype.dtypeSize % 2 ^ 64).toNat

/-! ## Rebinding -/

/-- Keep the buffer that a boundary tensor was planned with. -/
def snapshot (tid : TensorId) : SegmentState :=
  match s.origBoundary tid with
  | some _ => s
  | none => { s with origBoundary := update s.origBoundary tid (s.buffers tid) }

def neededBytes (tid : TensorId) : Nat :=
  if direct plan rt tid then ((s.origBoundary tid).elim 0 DeviceBuffer.bytes)
  else declaredBytes plan rt (rt tid).dmaBufFormat (rt tid).dmaBufDtype tid

/-- Whether a held import is not of this file, or not of this size. -/
def importStale (fd : Int) (needB : Nat) (imp : Imported) : Bool :=
  imp.buf.isNone || imp.bytes ≠ needB ||
    if w.dmaBufId fd ≠ 0 then imp.id ≠ w.dmaBufId fd else imp.fd ≠ fd

/-- Refresh a tensor's import; `none` where that throws. -/
def refreshImport (tid : TensorId) (fd : Int) (needB : Nat) : Option SegmentState :=
  if importStale w fd needB (s.imported tid) then
    match w.imports tid with
    | .throws => none
    | .unavailable =>
      some { s with imported := update s.imported tid ⟨w.dmaBufId fd, fd, needB, none⟩ }
    | .imported =>
      some { s with
        imported := update s.imported tid ⟨w.dmaBufId fd, fd, needB, some
          ⟨s.nextHandle, s.nextHandle, 0, needB, .dmaBuf (w.dmaBufId fd)⟩⟩
        nextHandle := s.nextHandle + 1 }
  else some s

/-- The conversion between a file and a boundary tensor. -/
def convertBinding (tid : TensorId) (isInput : Bool) (buf : DeviceBuffer) (declFmt : TensorFormat)
    (declDtype : DType) : ConvertBinding where
  imported := buf
  isInput := isInput
  shape := .ofShape (boundShape plan rt tid)
  declFmt := declFmt
  declDtype := declDtype
  devFmt := deviceFormat plan tid
  devDtype := deviceDtype plan tid

/-- Bind a tensor's buffer, and note the change. -/
def bindBuffer (tid : TensorId) (want : Option DeviceBuffer) : SegmentState :=
  if s.buffers tid = want then s
  else { s with buffers := update s.buffers tid want, recordingStale := true }

/-- Rebind a boundary tensor for this run; the flag says that this throws. -/
def rebind (tid : TensorId) (isInput : Bool) : SegmentState × Bool :=
  if (s.buffers tid).isNone then (s, false)
  else
    let s := s.snapshot tid
    let fd := boundDmaBufFd plan rt tid
    let needB := s.neededBytes plan rt tid
    if 0 ≤ fd ∧ 0 < needB then
      match s.refreshImport w tid fd needB with
      | none => (s, true)
      | some s =>
        match (s.imported tid).buf with
        | none => (s.bindBuffer tid (s.origBoundary tid), false)
        | some buf =>
          if direct plan rt tid then (s.bindBuffer tid (some buf), false)
          else
            let binding := convertBinding plan rt tid isInput buf (rt tid).dmaBufFormat
              (rt tid).dmaBufDtype
            ({ s with convert := s.convert.insert tid binding }.bindBuffer tid
              (s.origBoundary tid), false)
    else (s.bindBuffer tid (s.origBoundary tid), false)

/-- Rebind tensors one after the other, until one throws. -/
def rebindAll : List (TensorId × Bool) → SegmentState → SegmentState × Bool
  | [], s => (s, false)
  | (tid, isInput) :: rest, s =>
    match rebind plan rt w s tid isInput with
    | (s, true) => (s, true)
    | (s, false) => rebindAll rest s

/-- The boundary tensors, inputs first. -/
def boundary : List (TensorId × Bool) :=
  plan.boundaryInputs.map (fun tid => (tid, true)) ++
    plan.boundaryOutputs.map fun tid => (tid, false)

/-! ## Staging -/

/-- Whether an input is converted on the device from a staging buffer. -/
def stages (tid : TensorId) : Bool :=
  plan.graph.inputs.contains tid && (s.buffers tid).isSome &&
    !(decide (0 ≤ (rt tid).dmaBufFd) || s.convert.contains tid) &&
    (isEightBitDtype (rt tid).dtype ||
      ((rt tid).dtype = .float32 && (boundShape plan rt tid).length = 4)) &&
    !(s.residentLinks.any fun link => link.dst = tid) && (plan.kvqCaches tid).isNone &&
    boundaryConvertDeviceSupports (rt tid).dtype (deviceDtype plan tid) plan.storage8bit
      plan.shaderInt8 &&
    decide (0 < declaredBytes plan rt .nchw (rt tid).dtype tid)

/-- Stand up the staging buffer of an input; the flag says that this throws. -/
def stage (tid : TensorId) : SegmentState × Bool :=
  if stages plan rt s tid then
    let need := declaredBytes plan rt .nchw (rt tid).dtype tid
    let binding := fun st => convertBinding plan rt tid true st .nchw (rt tid).dtype
    match (s.stagingIn tid).filter fun st => st.bytes = need with
    | some st => ({ s with convert := s.convert.insert tid (binding st) }, false)
    | none =>
      if w.stagingFails tid then (s, true)
      else
        let st := s.allocate need
        ({ s with
          stagingIn := update s.stagingIn tid (some st)
          nextHandle := s.nextHandle + 1
          convert := s.convert.insert tid (binding st) }, false)
  else (s, false)

def stageAll : List TensorId → SegmentState → SegmentState × Bool
  | [], s => (s, false)
  | tid :: rest, s =>
    match stage plan rt w s tid with
    | (s, true) => (s, true)
    | (s, false) => stageAll rest s

/-! ## Recording and submitting -/

variable (floatInts : Import.FloatInts) (kernel : Kernel)

/-- Whether two sets of conversions are the same. -/
def sameConvert (a b : Std.ExtTreeMap TensorId ConvertBinding) : Bool :=
  a.size = b.size && a.toList.all fun kv => b[kv.1]? = some kv.2

/-- Gather all changes in the one flag. -/
def noteChanges : SegmentState :=
  { s with
    recordingStale := s.recordingStale || !sameConvert s.convert s.recordedConvert ||
      s.linksChanged || s.argMaxChanged || s.chainChanged
    linksChanged := false
    argMaxChanged := false
    chainChanged := false }

/-- Record the stream.  A chain of iterations does not convert outputs, which is found out here. -/
def record : SegmentState × Option Ending :=
  if 1 < s.recordedSteps ∧ s.convert.toList.any (fun kv => !kv.2.isInput) then (s, some .refused)
  else
    match w.recordFails with
    | some (pushed, positions) =>
      ({ s with
        cmds := (s.recordedChunks plan floatInts kernel).take pushed
        iterationFirstChunk := positions }, some (.failed []))
    | none =>
      ({ s with
        cmds := s.recordedChunks plan floatInts kernel
        iterationFirstChunk := (List.range s.recordedSteps).map (s.firstChunk plan floatInts kernel)
        recordedConvert := s.convert
        recordingStale := false }, none)

/-- The chunks that the active iterations take. -/
def chunksForActiveSteps : Nat :=
  if (s.recordedSteps : Int) ≤ s.chainActiveSteps ∨ s.iterationFirstChunk.length < s.recordedSteps
  then s.cmds.length
  else s.iterationFirstChunk.getD s.chainActiveSteps.toNat 0

def submit : Ending :=
  let chunks := s.cmds.take s.chunksForActiveSteps
  if w.uploadFails then .failed []
  else
    match w.submitFails with
    | some n => .failed (chunks.take n)
    | none => .done chunks

/-- Record where that is due, and submit. -/
def recordAndSubmit : SegmentState × Ending :=
  if s.recordingStale then
    match record plan w { s with cmds := [] } floatInts kernel with
    | (s, some ending) => (s, ending)
    | (s, none) => (s, s.submit w)
  else (s, s.submit w)

def run : SegmentState × Ending :=
  let s := { s with convert := ∅ }
  if (boundary plan).any fun b => refuses plan rt s b.2 b.1 then (s, .refused)
  else
    match rebindAll plan rt w (boundary plan) s with
    | (s, true) => (s, .failed [])
    | (s, false) =>
      match (if plan.ioGpuConvert then stageAll plan rt w plan.boundaryInputs s else (s, false)) with
      | (s, true) => (s, .failed [])
      | (s, false) => s.noteChanges.recordAndSubmit plan w floatInts kernel

/-! ## Calls between runs -/

def linkRangesBufferBytes (capacity : Nat) : Nat := plan.chainStepsMax.toNat * (8 + capacity * 12)

/-- Link an output to an input.  The ranges buffer is allocated before anything changes. -/
def addResidentLink (src dst : TensorId) (allocFails : Bool) : SegmentState × Ending :=
  let kvq := (plan.kvqCaches dst).isSome
  match s.buffers src, s.buffers dst with
  | some srcBuf, some dstBuf =>
    if kvq && !(Recordable.boundaryFp16 plan src && plan.flat src && plan.flat dst) then
      (s, .returned .invalidArgument)
    else if !kvq && Recordable.boundaryFp16 plan src != Recordable.boundaryFp16 plan dst then
      (s, .returned .invalidArgument)
    else if srcBuf = dstBuf then (s, .returned .invalidArgument)
    else if s.residentLinks.any fun link => link.src = src && link.dst = dst then
      (s, .returned .ok)
    else if allocFails then (s, .failed [])
    else
      let rangesBuf := s.allocate (linkRangesBufferBytes plan 16)
      ({ s with
        residentLinks := s.residentLinks ++ [⟨src, dst, rangesBuf, 16, kvq⟩]
        nextHandle := s.nextHandle + 1
        linksChanged := true }, .returned .ok)
  | _, _ => (s, .returned .invalidArgument)

/-- Whether ranges cover whole rows of a cache. -/
def wholeRows (headDim : Int) (rangeSets : List (List LinkRange)) : Bool :=
  rangeSets.all fun ranges => ranges.all fun range =>
    range.sourceElem.tmod headDim = 0 && range.destElem.tmod headDim = 0 &&
      range.count.tmod headDim = 0

def neededCapacity (rangeSets : List (List LinkRange)) : Nat :=
  (rangeSets.map fun ranges => ranges.length % 2 ^ 32).foldl max 0

/-- Whether range sets for a link ask for a larger ranges buffer. -/
def growsRanges (link : ResidentLink) (rangeSets : List (List LinkRange)) : Bool :=
  (!link.kvq || wholeRows ((plan.kvqCaches link.dst).elim 0 KvqCache.headDim) rangeSets) &&
    decide (link.capacity < neededCapacity rangeSets)

def findLink (src dst : TensorId) : Option Nat :=
  s.residentLinks.findIdx? fun link => link.src = src && link.dst = dst

/-- Set the ranges of a link.  The new room is noted before the buffer is allocated. -/
def setResidentLinkRangeSets (src dst : TensorId) (rangeSets : List (List LinkRange))
    (allocFails : Bool) : SegmentState × Ending :=
  match s.findLink src dst with
  | none => (s, .returned .ok)
  | some i =>
    match s.residentLinks[i]? with
    | none => (s, .returned .ok)
    | some link =>
      if link.kvq &&
          !wholeRows ((plan.kvqCaches link.dst).elim 0 KvqCache.headDim) rangeSets then
        (s, .failed [])
      else if growsRanges plan link rangeSets then
        let capacity := max (link.capacity * 2 % 2 ^ 32) (neededCapacity rangeSets)
        if allocFails then
          ({ s with residentLinks := s.residentLinks.set i { link with capacity := capacity } },
            .failed [])
        else
          let rangesBuf := s.allocate (linkRangesBufferBytes plan capacity)
          ({ s with
            residentLinks := s.residentLinks.set i
              { link with capacity := capacity, rangesBuf := rangesBuf }
            nextHandle := s.nextHandle + 1
            linksChanged := true }, .returned .ok)
      else (s, .returned .ok)

def clearResidentLinks : SegmentState × Ending :=
  if s.residentLinks.isEmpty then (s, .returned .ok)
  else ({ s with residentLinks := [], linksChanged := true }, .returned .ok)

/-- Whether an output is registered for a reduction by a call. -/
def registersArgMax (output : TensorId) : Bool :=
  plan.boundaryOutputs.contains output && (s.buffers output).isSome && plan.flat output &&
    !s.argMaxOutputs.contains output

/-- Register an output for the reduction.  It is in the set before its result is allocated. -/
def setOutputArgMax (output : TensorId) (allocFails : Bool) : SegmentState × Ending :=
  if !(plan.boundaryOutputs.contains output && (s.buffers output).isSome) then
    (s, .returned .invalidArgument)
  else if !plan.flat output then (s, .returned .unsupported)
  else if registersArgMax plan s output then
    if allocFails then ({ s with argMaxOutputs := s.argMaxOutputs.insert output }, .failed [])
    else
      let result := s.allocate (8 * plan.chainStepsMax.toNat)
      ({ s with
        argMaxOutputs := s.argMaxOutputs.insert output
        argMaxResults := update s.argMaxResults output (some result)
        nextHandle := s.nextHandle + 1
        argMaxChanged := true }, .returned .ok)
  else (s, .returned .ok)

/-- Why a decode chain is not configured. -/
def chainRefusal (chain : DecodeChain) (steps : Int) : Option Status :=
  let feedbackInputs := [chain.tokenInput, chain.positionInput, chain.maskInput]
  let shape := fun t => (plan.graph.desc t).shape
  let bad := feedbackInputs.find? fun t =>
    !(plan.boundaryInputs.contains t && (s.buffers t).isSome) ||
      (!plan.flat t && ((NCHW.ofShape (shape t)).h ≠ 1 || (NCHW.ofShape (shape t)).w ≠ 1))
  if steps < 1 ∨ plan.chainStepsMax < steps then some .invalidArgument
  else if plan.profile then some .unsupported
  else if !s.argMaxOutputs.contains chain.argMaxOutput then some .invalidArgument
  else
    match bad with
    | some t =>
      some (if plan.boundaryInputs.contains t && (s.buffers t).isSome then .unsupported
        else .invalidArgument)
    | none =>
      if numElements (shape chain.tokenInput) ≠ 1 ∨ numElements (shape chain.positionInput) ≠ 1 then
        some .invalidArgument
      else if numElements (shape chain.maskInput) < 2 then some .invalidArgument
      else none

/-- Configure a decode chain.  The chain is set before its state is allocated. -/
def configureDecodeChain (chain : DecodeChain) (steps : Int) (allocFails : Bool) :
    SegmentState × Ending :=
  match chainRefusal plan s chain steps with
  | some status => (s, .returned status)
  | none =>
    let s : SegmentState := { s with
      chain := chain
      chainSteps := steps
      chainConfigured := true
      chainActiveSteps := 1 }
    if s.chainStateBuf.isSome then ({ s with chainChanged := true }, .returned .ok)
    else if allocFails then (s, .failed [])
    else
      ({ s with
        chainStateBuf := some (s.allocate 4)
        nextHandle := s.nextHandle + 1
        chainChanged := true }, .returned .ok)

/-- Set how many iterations the next runs submit. -/
def setDecodeChainWindow (basePosition activeSteps : Int) : SegmentState × Ending :=
  if !s.chainConfigured then (s, .returned .unsupported)
  else if activeSteps < 1 ∨ s.chainSteps < activeSteps then (s, .returned .invalidArgument)
  else if basePosition < 0 ∨ 2 ^ 24 < basePosition + s.chainSteps then
    (s, .returned .invalidArgument)
  else ({ s with chainActiveSteps := activeSteps }, .returned .ok)

end SegmentState

/-! ## Steps -/

/-- A step of a segment: a run or a call, with the failures it meets. -/
inductive SegmentCall where
  | run (rt : TensorId → BoundTensor) (w : RunWorld)
  | addResidentLink (src dst : TensorId) (allocFails : Bool)
  | setResidentLinkRangeSets (src dst : TensorId) (rangeSets : List (List LinkRange))
      (allocFails : Bool)
  | clearResidentLinks
  | setOutputArgMax (output : TensorId) (allocFails : Bool)
  | configureDecodeChain (chain : DecodeChain) (steps : Int) (allocFails : Bool)
  | setDecodeChainWindow (basePosition activeSteps : Int)

namespace SegmentState

variable (plan : SegmentPlan) (floatInts : Import.FloatInts) (kernel : Kernel)

def step (s : SegmentState) : SegmentCall → SegmentState × Ending
  | .run rt w => s.run plan rt w floatInts kernel
  | .addResidentLink src dst allocFails => s.addResidentLink plan src dst allocFails
  | .setResidentLinkRangeSets src dst rangeSets allocFails =>
    s.setResidentLinkRangeSets plan src dst rangeSets allocFails
  | .clearResidentLinks => s.clearResidentLinks
  | .setOutputArgMax output allocFails => s.setOutputArgMax plan output allocFails
  | .configureDecodeChain chain steps allocFails => s.configureDecodeChain plan chain steps allocFails
  | .setDecodeChainWindow basePosition activeSteps => s.setDecodeChainWindow basePosition activeSteps

def after (s : SegmentState) (calls : List SegmentCall) : SegmentState :=
  calls.foldl (fun s call => (s.step plan floatInts kernel call).1) s

/-- A segment as it is built: buffers are allocated, nothing is recorded. -/
def start (buffers : Bindings) (nextHandle : Nat) : SegmentState where
  buffers := buffers
  nextHandle := nextHandle

end SegmentState

end Vknn.Vulkan
