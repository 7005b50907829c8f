import Vknn.Session.State
import Vknn.Lib.Wire

/-!
# Binding a caller's inputs

A run takes a list of named tensors.  Each entry is resolved to a tensor of the
plan, its shape is judged against the planned one, and its bytes are brought into
the storage the engine computes on: 64-bit integers stay as they are, everything
else becomes single precision.  Entries are bound in order, so of two entries for
one tensor the later one is what stays.

The decoding of one lane into single precision is the parameter `decode`.
-/

namespace Vknn

open Function

/-! ## Host storage -/

/-- The bytes of `n` elements, as a 64-bit size. -/
def wantBytes (n : Int) (dt : DType) : Nat := if n > 0 then n.toNat * dt.dtypeSize % 2 ^ 64 else 0

/-- A caller's tensor. -/
structure IOTensor where
  name : Str := []
  shape : Shape := []
  dtype : DType := .float32
  dmaBufFd : Int := -1
  data : List UInt8 := []
deriving DecidableEq

def boundaryHostLaneBytes (dtype : DType) : Nat :=
  if dtype.dtypeSize > 0 then dtype.dtypeSize else 4

/-- Whether a whole-device run keeps the caller's bytes as they are. -/
def boundaryStagesRawInputBytes (dtype : DType) : Bool := dtype = .uint8 || dtype = .int8

namespace Session

section Bind

variable (decode : DType → List UInt8 → Float32Bits)

/-- The single-precision storage of the first `count` caller lanes. -/
def decodeHostLanesToFloat32 (dtype : DType) (bytes : List UInt8) (count : Nat) : HostBuffer :=
  (List.range count).flatMap fun i =>
    let lane := (bytes.drop (i * boundaryHostLaneBytes dtype)).take (boundaryHostLaneBytes dtype)
    Wire.leBytes 4 (decode dtype lane).bits.toNat

/-- The host storage of `elems` elements filled from a caller's bytes, the rest zero. -/
def boundBytes (src : DType) (input : List UInt8) (elems : Int) : HostBuffer :=
  if src = .int64 then
    let avail := min elems.toNat (input.length / 8)
    (input.take (8 * avail) ++ List.replicate (8 * (elems.toNat - avail)) 0).take
      (wantBytes elems .int64)
  else
    let filled := min elems.toNat (input.length / boundaryHostLaneBytes src)
    (decodeHostLanesToFloat32 decode src input filled ++
      List.replicate (4 * (elems.toNat - filled)) 0).take (wantBytes elems .float32)

/-- Bring a caller's bytes into the internal storage of a tensor. -/
def bindInput (src : DType) (input : List UInt8) (elems : Int) (rt : RtTensor) : RtTensor :=
  { rt with
    dtype := if src = .int64 then .int64 else .float32
    host := boundBytes decode src input elems }

/-! ## One entry -/

/-- Whether a device segment consumes a tensor. -/
def gpuConsumed (b : PlanBucket) (id : TensorId) : Bool :=
  b.segments.any fun seg => seg.backend ≠ .cpu && seg.boundaryInputs.contains id

/-- The shape check every input passes once its plan is selected. -/
def validateInputShape (b : PlanBucket) (id : TensorId) (got : Shape) : Status :=
  let d := b.graph.desc id
  if got.isEmpty || got = d.shape || elemCount d.shape ≤ 0 then .ok
  else if boundShapeCompatible got d.shape d.gpuFlat (gpuConsumed b id) then .ok
  else .invalidArgument

/-- The tensor an entry is bound to: the one with its name, else the only graph input. -/
def resolve (g : Graph) (name : Str) : Option TensorId :=
  if g.find name ≠ kNoTensor then some (g.find name)
  else
    match g.inputs with
    | [only] => some only
    | _ => none

/-- The shape a bound entry gives its tensor. -/
def boundShape (g : Graph) (id : TensorId) (io : IOTensor) : Shape :=
  if io.shape.isEmpty then (g.desc id).shape else io.shape

/-- The element count storage is sized for; a rank-0 tensor carries one element. -/
def storedElems (shape : Shape) : Int := if shape.isEmpty then 1 else elemCount shape

def bindTensor (b : PlanBucket) (linked : TensorId → Bool) (id : TensorId) (io : IOTensor)
    (rt : RtTensor) : RtTensor :=
  let shape := boundShape b.graph id io
  if 0 ≤ io.dmaBufFd then
    { rt with shape, dmaBufFd := io.dmaBufFd, dtype := io.dtype, hostValid := false }
  else if b.ioGpuConvert && boundaryStagesRawInputBytes io.dtype && !linked id then
    { rt with
      shape, dmaBufFd := io.dmaBufFd, dtype := io.dtype, host := io.data, hostValid := true }
  else
    bindInput decode io.dtype io.data (storedElems shape)
      { rt with shape, dmaBufFd := io.dmaBufFd, hostValid := true }

/-- Whether every element of an index tensor selects a row of its axis. -/
def indicesInRange (b : PlanBucket) (id : TensorId) (rt : RtTensor) : Bool :=
  if rt.hostValid && rt.dtype = .int64 then
    match b.gatherIndexAxisSizes.find? fun limit => limit.1 = id with
    | some (_, axisSize) =>
      (List.range (storedElems rt.shape).toNat).all fun e =>
        let value := Wire.leInt 8 ((rt.host.drop (8 * e)).take 8)
        decide (-axisSize ≤ value ∧ value < axisSize)
    | none => true
  else true

/-- Bind the entries in order, stopping at the first that fails. -/
def bindInputs (b : PlanBucket) (linked : TensorId → Bool) : List IOTensor → Pool → Status × Pool
  | [], pool => (.ok, pool)
  | io :: rest, pool =>
    match resolve b.graph io.name with
    | none => (.invalidArgument, pool)
    | some id =>
      match validateInputShape b id io.shape with
      | .ok =>
        let rt := bindTensor decode b linked id io (pool id)
        let pool := update pool id rt
        if indicesInRange b id rt then bindInputs b linked rest pool
        else (.invalidArgument, pool)
      | failure => (failure, pool)

/-- Forget the file descriptors an earlier run bound to some tensors. -/
def clearFds (ids : List TensorId) (pool : Pool) : Pool :=
  fun id => if id ∈ ids then { pool id with dmaBufFd := -1 } else pool id

/-! ## What binding leaves -/

def lastEntry (g : Graph) (inputs : List IOTensor) (id : TensorId) : Option IOTensor :=
  inputs.reverse.find? fun io => resolve g io.name = some id

theorem shape_bindTensor (b : PlanBucket) (linked : TensorId → Bool) (id : TensorId)
    (io : IOTensor) (rt : RtTensor) :
    (bindTensor decode b linked id io rt).shape = boundShape b.graph id io := by
  unfold bindTensor
  split
  · rfl
  split
  · rfl
  · rfl

/-- **What a step of binding does**: fail, or go on with one tensor changed. -/
theorem bindInputs_cons_ok {b : PlanBucket} {linked : TensorId → Bool} {io : IOTensor}
    {rest : List IOTensor} {pool : Pool}
    (bound : (bindInputs decode b linked (io :: rest) pool).1 = .ok) :
    ∃ id, resolve b.graph io.name = some id ∧ validateInputShape b id io.shape = .ok ∧
      bindInputs decode b linked (io :: rest) pool = bindInputs decode b linked rest
          (update pool id (bindTensor decode b linked id io (pool id))) := by
  rw [bindInputs] at bound ⊢
  cases resolved : resolve b.graph io.name with
  | none => simp [resolved] at bound
  | some id =>
    simp only [resolved] at bound ⊢
    split at bound
    · rename_i valid
      split at bound
      · rename_i inRange
        refine ⟨id, rfl, valid, ?_⟩
        simp only [if_pos inRange]
      · cases bound
    · rename_i failed
      exact absurd bound failed

/-- **After binding, a tensor has the shape of the last entry bound to it.** -/
theorem shape_bindInputs (b : PlanBucket) (linked : TensorId → Bool) (id : TensorId)
    (inputs : List IOTensor) (pool : Pool)
    (bound : (bindInputs decode b linked inputs pool).1 = .ok) :
    ((bindInputs decode b linked inputs pool).2 id).shape = match lastEntry b.graph inputs id with
      | some io => boundShape b.graph id io
      | none => (pool id).shape := by
  induction inputs generalizing pool with
  | nil => rfl
  | cons io rest ih =>
    obtain ⟨other, resolved, _, next⟩ := bindInputs_cons_ok decode bound
    rw [next] at bound ⊢
    rw [ih _ bound, lastEntry, lastEntry, List.reverse_cons, List.find?_append]
    cases rest.reverse.find? (fun io => resolve b.graph io.name = some id) with
    | some later => rfl
    | none =>
      rw [Option.none_or, List.find?_singleton, resolved]
      by_cases same : other = id
      · subst same
        simp only [update_self, decide_true, if_true]
        exact shape_bindTensor decode b linked other io (pool other)
      · have distinct : ¬ (some other = some id) := fun eq => same (Option.some.inj eq)
        simp only [distinct, decide_false, Bool.false_eq_true, if_false]
        rw [update_of_ne (Ne.symm same)]

end Bind

end Session

end Vknn
