import Vknn.Session.Partition
import Vknn.Ir.Shape

/-!
# The state of a session

A session owns one plan per declared input-shape set.  A plan holds its graph,
the segments the graph was cut into, and a pool with one runtime tensor per entry
of the tensor table.  Beside the plans a session keeps the table of links its
caller has declared between graph outputs and graph inputs.
-/

namespace Vknn

/-! ## Plans -/

/-- The hardware a segment runs on. -/
inductive BackendKind where
  | vulkan | cpu
deriving DecidableEq, Repr

/-- A segment of a compiled graph and the backend that runs it. -/
structure CompiledSegment extends Partition.Segment where
  backend : BackendKind := .cpu
deriving DecidableEq

/-- A runtime tensor: its logical shape, its host residency, and the file descriptor a caller
has bound in place of it, or -1. -/
structure RtTensor where
  shape : Shape := []
  dtype : DType := .float32
  host : HostBuffer := []
  hostValid : Bool := false
  dmaBufFd : Int := -1
deriving DecidableEq

abbrev Pool := TensorId → RtTensor

/-- One compiled plan: the key it is found by, its graph and segments, its runtime tensors,
whether 8-bit inputs are uploaded raw, and the axis sizes its index inputs select from. -/
structure PlanBucket where
  key : Str := []
  graph : Graph
  segments : List CompiledSegment := []
  pool : Pool := fun _ => {}
  ioGpuConvert : Bool := false
  gatherIndexAxisSizes : List (TensorId × Int) := []

/-- The settings of a session that its runs and links read. -/
structure Config where
  backend : BackendKind := .vulkan
  decodeChainSteps : Int := 1
deriving DecidableEq

/-! ## Links -/

/-- One contiguous element range copied from a linked output into a linked input. -/
structure LinkRange where
  sourceElem : Int := 0
  destElem : Int := 0
  count : Int := 0
deriving DecidableEq, Repr

/-- One declared link.  `deviceSegment` is the position of the segment that applies the copies
on the device; where there is none the session copies host storage. -/
structure ResidentLink where
  bucket : Nat := 0
  outputName : Str
  inputName : Str
  outId : TensorId := kNoTensor
  inId : TensorId := kNoTensor
  deviceSegment : Option Nat := none
  rangeSets : List (List LinkRange) := []
  rangesDirty : Bool := false
deriving DecidableEq

/-- An entry of a device segment's own table: which segment of which plan copies what. -/
structure Registration where
  bucket : Nat
  segment : Nat
  src : TensorId
  dst : TensorId
deriving DecidableEq

/-- A session: its plans, its links, and the entries its device segments hold. -/
structure Session where
  cfg : Config := {}
  buckets : List PlanBucket
  links : List ResidentLink := []
  registrations : List Registration := []

namespace Session

/-- A session on which nothing has been linked. -/
def opened (cfg : Config) (buckets : List PlanBucket) : Session := { cfg, buckets }

end Session

end Vknn
