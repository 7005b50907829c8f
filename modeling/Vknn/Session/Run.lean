import Vknn.Session.Dispatch
import Vknn.Session.Links

/-!
# One run

A run selects a plan and binds the caller's inputs; takes the file descriptors
and the spare storage out of the caller's outputs; applies the links of the plan;
runs the segments; and collects the outputs.  An output whose storage already has
the declared type is moved into the caller's tensor, which leaves none behind.  A
linked output stays where it is.

A host link copies element ranges between the storage of two tensors.  The copy
is unchecked: the ranges were checked when the link was made, against the planned
shapes.  Each copy is recorded with the sizes of both buffers at that moment.

Running the segments and converting an output to another type are the parameters
`exec` and `encode`.
-/

namespace Vknn.Session

open Function



/-! ## Applying the links -/

/-- One copy of a range, and the sizes of the two buffers at the time. -/
structure RangeCopy where
  range : LinkRange
  elemBytes : Nat
  srcBytes : Nat
  dstBytes : Nat
deriving DecidableEq

/-- Allocate and zero a linked tensor that holds no values yet. -/
def ensureResidentHostStorage (g : Graph) (id : TensorId) (rt : RtTensor) : RtTensor :=
  if rt.hostValid && !rt.host.isEmpty then rt
  else
    let shape := if rt.shape.isEmpty then (g.desc id).shape else rt.shape
    let dtype := internalStorageDtype (g.desc id).dtype
    { rt with
      shape, dtype, host := List.replicate (wantBytes (storedElems shape) dtype) 0,
      hostValid := true }

/-- Copy a range of elements from one buffer over another. -/
def memcpyRange (elemBytes : Nat) (src dst : HostBuffer) (r : LinkRange) : HostBuffer :=
  let moved := (src.drop (r.sourceElem.toNat * elemBytes)).take (r.count.toNat * elemBytes)
  dst.take (r.destElem.toNat * elemBytes) ++ moved ++
    dst.drop (r.destElem.toNat * elemBytes + moved.length)

/-- Copy ranges in order, recording each. -/
def copyRanges (elemBytes : Nat) (src : HostBuffer) :
    List LinkRange → HostBuffer → HostBuffer × List RangeCopy
  | [], dst => (dst, [])
  | r :: rest, dst =>
    let after := copyRanges elemBytes src rest (memcpyRange elemBytes src dst r)
    (after.1, ⟨r, elemBytes, src.length, dst.length⟩ :: after.2)

/-- What applying links leaves: a status, the links, the runtime tensors and the copies made. -/
structure Applied where
  status : Status
  links : List ResidentLink
  pool : Pool
  copies : List RangeCopy

/-- Apply the links of a plan in order. -/
def applyResidentLinks (bucketIndex : Nat) (g : Graph) : List ResidentLink → Pool → Applied
  | [], pool => ⟨.ok, [], pool, []⟩
  | link :: rest, pool =>
    if link.bucket ≠ bucketIndex then
      let after := applyResidentLinks bucketIndex g rest pool
      { after with links := link :: after.links }
    else if 0 ≤ (pool link.outId).dmaBufFd ∨ 0 ≤ (pool link.inId).dmaBufFd then
      ⟨.invalidArgument, link :: rest, pool, []⟩
    else if link.deviceSegment.isSome then
      let after := applyResidentLinks bucketIndex g rest pool
      { after with links := { link with rangesDirty := false } :: after.links }
    else
      let src := ensureResidentHostStorage g link.outId (pool link.outId)
      let pool := update pool link.outId src
      let dst := ensureResidentHostStorage g link.inId (pool link.inId)
      let pool := update pool link.inId dst
      if src.dtype ≠ dst.dtype then ⟨.invalidArgument, link :: rest, pool, []⟩
      else
        let copied := copyRanges src.dtype.dtypeSize src.host (link.rangeSets.headD []) dst.host
        let pool := update pool link.inId { dst with host := copied.1 }
        let after := applyResidentLinks bucketIndex g rest pool
        { after with links := link :: after.links, copies := copied.2 ++ after.copies }

/-! ## The caller's outputs -/

/-- The tensor an output entry binds a file descriptor to: the one with its name, else the only
graph output. -/
def resolveOutput (g : Graph) (name : Str) : Option TensorId :=
  if g.find name ≠ kNoTensor then some (g.find name)
  else
    match g.outputs with
    | [only] => some only
    | _ => none

/-- Bind the file descriptors the caller's outputs bring. -/
def bindOutputFds (g : Graph) : List IOTensor → Pool → Pool
  | [], pool => pool
  | io :: rest, pool =>
    if io.dmaBufFd < 0 then bindOutputFds g rest pool
    else
      match resolveOutput g io.name with
      | some id =>
        bindOutputFds g rest
          (update pool id { pool id with dmaBufFd := io.dmaBufFd })
      | none => bindOutputFds g rest pool

/-- Whether a tensor takes back the storage of the caller's output in its place. -/
def reclaims (g : Graph) (oid : TensorId) (rt : RtTensor) (io : IOTensor) : Bool :=
  !io.data.isEmpty && rt.dmaBufFd < 0 && !rt.hostValid && rt.host.isEmpty &&
    io.name = (g.desc oid).name

/-- Take back the storage the previous run moved into the caller's outputs, position by
position. -/
def reclaim (g : Graph) : List IOTensor → List TensorId → Pool → List IOTensor × Pool
  | io :: outputs, oid :: oids, pool =>
    if reclaims g oid (pool oid) io then
      let after := reclaim g outputs oids
        (update pool oid { pool oid with host := io.data })
      ({ io with data := [] } :: after.1, after.2)
    else
      let after := reclaim g outputs oids pool
      (io :: after.1, after.2)
  | outputs, _, pool => (outputs, pool)

section Run

variable (decode : DType → List UInt8 → Float32Bits)
variable (encode : DType → RtTensor → Int → List UInt8)

/-- Bring a tensor into the declared type: by moving its storage where that has the type and the
size already. -/
def readbackOutput (dst : DType) (rt : RtTensor) (elems : Int) : List UInt8 × RtTensor :=
  if dst = rt.dtype ∧ (rt.host.length : Int) = elems * dst.dtypeSize % 2 ^ 64 then
    (rt.host, { rt with host := [], hostValid := false })
  else (encode dst rt elems, rt)

/-- Collect the graph outputs of a plan. -/
def collectOutputs (g : Graph) (linkedOutput : TensorId → Bool) :
    List TensorId → Pool → List IOTensor × Pool
  | [], pool => ([], pool)
  | oid :: rest, pool =>
    let rt := pool oid
    let declared := (g.desc oid).dtype
    let read : List UInt8 × RtTensor :=
      if linkedOutput oid || 0 ≤ rt.dmaBufFd then ([], rt)
      else readbackOutput encode declared rt (storedElems rt.shape)
    let io : IOTensor :=
      { name := (g.desc oid).name, shape := rt.shape, dmaBufFd := rt.dmaBufFd
        dtype := if !linkedOutput oid && 0 ≤ rt.dmaBufFd then rt.dtype else declared
        data := read.1 }
    let after := collectOutputs g linkedOutput rest
      (update pool oid { read.2 with dmaBufFd := -1 })
    (io :: after.1, after.2)

/-! ## The run -/

/-- What a run returns and leaves, and the copies it made. -/
structure RunResult where
  status : Status
  session : Session
  outputs : List IOTensor
  copies : List RangeCopy

/-- Put the runtime tensors of a plan back into a session. -/
def setPool (s : Session) (i : Nat) (b : PlanBucket) (pool : Pool) : Session :=
  { s with buckets := s.buckets.set i { b with pool } }

/-- The caller's outputs and the runtime tensors as a run has them before it applies the links. -/
def takeOutputs (g : Graph) (outputs : List IOTensor) (pool : Pool) : List IOTensor × Pool :=
  reclaim g outputs g.outputs (bindOutputFds g outputs (clearFds g.outputs pool))

/-- A run on its selected plan, with what running the segments does given by `exec`. -/
def runBucket (exec : Pool → Bool × Pool) (s : Session) (i : Nat) (b : PlanBucket)
    (inputs outputs : List IOTensor) : RunResult :=
  match bindInputs decode b (s.linkedInput i) inputs (clearFds b.graph.inputs b.pool) with
  | (.ok, pool) =>
    let taken := takeOutputs b.graph outputs pool
    let applied := applyResidentLinks i b.graph s.links taken.2
    let s := { s with links := applied.links }
    match applied.status with
    | .ok =>
      match exec applied.pool with
      | (true, pool) =>
        let linkedOutput := fun id =>
          s.links.any fun link => link.bucket = i && link.outId = id
        let collected := collectOutputs encode b.graph linkedOutput b.graph.outputs pool
        ⟨.ok, s.setPool i b collected.2, collected.1, applied.copies⟩
      | (false, pool) => ⟨.runtimeError, s.setPool i b pool, taken.1, applied.copies⟩
    | failure => ⟨failure, s.setPool i b applied.pool, taken.1, applied.copies⟩
  | (failure, pool) => ⟨failure, s.setPool i b pool, outputs, []⟩

def run (exec : PlanBucket → Pool → Bool × Pool) (s : Session)
    (inputs outputs : List IOTensor) : RunResult :=
  match selectBucket s inputs with
  | none => ⟨.invalidArgument, s, outputs, []⟩
  | some i =>
    match s.buckets[i]? with
    | none => ⟨.invalidArgument, s, outputs, []⟩
    | some b => runBucket decode encode (exec b) s i b inputs outputs

end Run

end Vknn.Session
