import Vknn.Core.ModelIo
import Vknn.Import.OnnxGraphBuilder

/-!
# Quantizing the weights of several buckets together

The buckets of one compile are one model at several input shapes.  The pass visits the bucket
with the most calibration rows first.  In each bucket it collects the sites, the weights worth
packing; a site whose key an earlier bucket has published takes over what that bucket found,
and every other site is quantized on the statistics of its own bucket.  What a bucket finds is
published when the bucket is done.

The double-precision arithmetic is a parameter: from what the loop reads about a site it gives
a verdict, and it changes a bias by a correction.  The calibration run is a parameter as well.
A number in double precision is its bit pattern.  The lines the pass prints are left out, and
with them the measured error that only they carry.
-/

namespace Vknn.Import.Quantize

/-! ## Options and statistics -/

/-- A double-precision number, as its bit pattern. -/
structure DoubleBits where
  bits : UInt64
deriving DecidableEq

/-- The knobs of the pass.  `calibSamples` and `calibFiles` are read by the calibration run. -/
structure QuantOptions where
  bits : Int := 4
  lut4 : Bool := false
  group : Int := 128
  outlierFrac : DoubleBits := ⟨0x3F847AE147AE147B⟩
  convGroup : Int := 32
  convOutlierFrac : DoubleBits := ⟨0x3FA999999999999A⟩
  calibSamples : Int := 8
  maxLayerRelErr : DoubleBits := ⟨0x3FD0000000000000⟩
  minElems : Int := 16384
  minK : Int := 256
  calibFiles : List (List Str) := []
deriving DecidableEq

/-- The totals of one bucket. -/
structure QuantStats where
  sites : Int := 0
  quantized : Int := 0
  guardKept : Int := 0
  outlierCols : Int := 0
  bytesBefore : Int := 0
  bytesAfter : Int := 0
  shared : Int := 0
  calibrated : Bool := false
deriving DecidableEq

/-- The activation statistics of one tensor: the row count, and per channel a sum and a sum of
squares. -/
structure ActStats where
  count : Int := 0
  sum : List DoubleBits := []
  sumSq : List DoubleBits := []
deriving DecidableEq

/-- One quantizable weight: the node that reads it, the weight and the activation, and how the
stored tensor maps onto the logical `[K, N]` view. -/
structure QuantSite where
  nodeIdx : Nat := 0
  weight : TensorId := kNoTensor
  act : TensorId := kNoTensor
  k : Int := 0
  n : Int := 0
  layout : Int := 0
  convChannels : Bool := false
  actChannels : Int := 0
  convGroups : Int := 1
deriving DecidableEq

/-! ## Attribute keys and formats -/

def kWq : Str := str "wq"
def kWqK : Str := str "wq_k"
def kWqN : Str := str "wq_n"
def kWqGroup : Str := str "wq_group"
def kWqNOut : Str := str "wq_nout"
def kWqLayout : Str := str "wq_layout"
def kWqScales : Str := str "wq_scales"
def kWqOidx : Str := str "wq_oidx"
def kWqOval : Str := str "wq_oval"
def kWqLut : Str := str "wq_lut"

def kWqFormatInt4 : Int := 1
def kWqFormatInt8 : Int := 2
def kWqFormatLut4 : Int := 3

namespace QuantOptions

def int8Width (opt : QuantOptions) : Bool := !opt.lut4 && opt.bits = 8

def format (opt : QuantOptions) : Int :=
  if opt.lut4 then kWqFormatLut4 else if opt.int8Width then kWqFormatInt8 else kWqFormatInt4

def scaleSuffix (opt : QuantOptions) : Str :=
  if opt.lut4 then str "#l4s" else if opt.int8Width then str "#i8s" else str "#i4s"

def oidxSuffix (opt : QuantOptions) : Str :=
  if opt.lut4 then str "#l4oi" else if opt.int8Width then str "#i8oi" else str "#i4oi"

def ovalSuffix (opt : QuantOptions) : Str :=
  if opt.lut4 then str "#l4ov" else if opt.int8Width then str "#i8ov" else str "#i4ov"

def biasSuffix (opt : QuantOptions) : Str :=
  if opt.lut4 then str "#l4b" else if opt.int8Width then str "#i8b" else str "#i4b"

/-- The error a bucket is refused with, if the options do not fit together. -/
def refusal (opt : QuantOptions) : Option Error :=
  if opt.bits ≠ 4 ∧ opt.bits ≠ 8 then
    some (.mk' .invalidArgument (str "quantizeWeights: bits must be 4 or 8, got " ++ intStr opt.bits))
  else if opt.lut4 ∧ opt.bits ≠ 4 then
    some (.mk' .invalidArgument
      (str "quantizeWeights: the LUT4 codebook format is 4-bit (bits must stay 4)"))
  else none

end QuantOptions

/-! ## Sites -/

/-- How often a tensor is used: as operand, residual or bias of a node, or as graph output. -/
def tensorUses (g : Graph) (t : TensorId) : Nat :=
  (g.nodes.map fun nd => nd.reads.count t).sum + g.outputs.count t

/-- The geometry of a weight in the view of its node, if the node reads it in a known way. -/
def siteGeometry (nd : Node) (wd : TensorDesc) (s : QuantSite) : Option QuantSite :=
  match nd.type, wd.shape with
  | .matMul, [rows, cols] => some { s with k := rows, n := cols, layout := 0, actChannels := rows }
  | .gemm, [rows, cols] =>
    if nd.attr.geti (str "transA") 0 ≠ 0 then none
    else if nd.attr.geti (str "transB") 0 ≠ 0 then
      some { s with k := cols, n := rows, layout := 1, actChannels := cols }
    else some { s with k := rows, n := cols, layout := 0, actChannels := rows }
  | .conv, [cout, cin, kh, kw] =>
    some { s with
      k := wrap64 (cin * kh * kw)
      n := cout
      layout := 1
      convChannels := true
      actChannels := cin
      convGroups := max (nd.attr.geti (str "group") 1) 1 }
  | _, _ => none

/-- The site of the node at an index, if it has one. -/
def siteAt (g : Graph) (opt : QuantOptions) (i : Nat) (nd : Node) : Option QuantSite :=
  if nd.type ≠ .matMul ∧ nd.type ≠ .gemm ∧ nd.type ≠ .conv then none
  else if nd.pwCoreInputs < 2 ∨ nd.attr.has kWq then none
  else
    let w := nd.inputs.getD 1 kNoTensor
    if ¬ g.isInitializer w ∨ tensorUses g w ≠ 1 then none
    else if (g.desc w).dtype ≠ .float32 ∧ (g.desc w).dtype ≠ .float16 then none
    else
      match siteGeometry nd (g.desc w)
          { nodeIdx := i, weight := w, act := nd.inputs.getD 0 kNoTensor } with
      | none => none
      | some s =>
        if s.k < opt.minK ∨ wrap64 (s.k * s.n) < opt.minElems ∨ s.act = kNoTensor ∨
            g.isInitializer s.act then none
        else some s

/-- The weights that are quantized, in node order. -/
def collectSites (g : Graph) (opt : QuantOptions) : List QuantSite :=
  (List.range g.nodes.length).filterMap fun i => siteAt g opt i (g.nodes.getD i {})

/-! ## Sharing keys -/

/-- The identity of a weight across buckets. -/
structure WeightKey where
  name : Str
  digest : UInt64
  payloadBytes : Int
  k : Int
  n : Int
  group : Int
  layout : Int
  dtype : DType
  opClass : OpType
deriving DecidableEq

def groupFor (opt : QuantOptions) (type : OpType) (k : Int) : Int :=
  min (if type = .matMul then opt.group else opt.convGroup) k

/-- The sharing key of a site; an unnamed weight has none. -/
def weightKeyFor (g : Graph) (s : QuantSite) (opt : QuantOptions) : Option WeightKey :=
  if (g.desc s.weight).name = [] then none
  else
    match g.initializers[s.weight]? with
    | none => none
    | some hb =>
      some
        { name := (g.desc s.weight).name
          digest := ModelIo.fnv1a hb
          payloadBytes := hb.length
          k := s.k
          n := s.n
          group := groupFor opt (g.nodes.getD s.nodeIdx {}).type s.k
          layout := s.layout
          dtype := (g.desc s.weight).dtype
          opClass := (g.nodes.getD s.nodeIdx {}).type }

/-- Where a shared weight was quantized: the tensors that hold what was found, in the order they
were made and under the attribute that names each, or the verdict that it stays as it is. -/
structure QuantSource where
  keptFp16 : Bool := false
  weight : TensorId := kNoTensor
  sides : List (Str × TensorId) := []
  nOut : Int := 0
  group : Int := 0
  biasDelta : List DoubleBits := []

abbrev Produced := List (WeightKey × QuantSource)

/-- What the buckets so far have found, each with the graph that holds it. -/
abbrev QuantCache := List (WeightKey × (Graph × QuantSource))

/-- Record a source under a key that has none. -/
def emplace (produced : Produced) (key : WeightKey) (src : QuantSource) : Produced :=
  match produced.lookup key with
  | some _ => produced
  | none => produced ++ [(key, src)]

/-- Add what a bucket has found; a key that is there keeps its entry. -/
def publish (shared : QuantCache) (g : Graph) (produced : Produced) : QuantCache :=
  shared ++ produced.map fun entry => (entry.1, (g, entry.2))

/-- The calibration rows of a bucket: the largest row count of its sites. -/
def calibrationRows (g : Graph) (sites : List QuantSite) : Int :=
  sites.foldl (fun rows s =>
    let shape := (g.desc s.act).shape
    let total := elemCount shape
    let channels :=
      if s.convChannels then (if 1 < shape.length then shape.getD 1 1 else 1)
      else (if shape = [] then 1 else shape.getLastD 1)
    if 0 < total ∧ 0 < channels then max rows (total / channels) else rows) 0

/-! ## What the arithmetic finds -/

/-- What the loop reads about a site before it decides. -/
structure Evidence where
  type : OpType
  dtype : DType
  payload : HostBuffer
  k : Int
  n : Int
  layout : Int
  convChannels : Bool
  actChannels : Int
  convGroups : Int
  stats : Option ActStats
deriving DecidableEq

/-- A packed weight: the payload, the scales, the outlier columns with their values, the codebook
and, where the bucket is calibrated, the shift of the outputs. -/
structure Packed where
  payload : HostBuffer := []
  scales : HostBuffer := []
  oidx : List UInt32 := []
  oval : HostBuffer := []
  codebook : HostBuffer := []
  delta : Option (List DoubleBits) := none

/-- What the error guard lets through. -/
inductive Verdict where
  | keptFp16
  | packed (found : Packed)

/-- The double-precision arithmetic: the verdict about a site, a bias less the correction, and a
new bias that is the correction alone. -/
structure Arithmetic where
  grid : QuantOptions → Evidence → Verdict
  corrected : DType → HostBuffer → List DoubleBits → HostBuffer
  correction : List DoubleBits → HostBuffer

/-- The calibration run over the sites of a bucket: whether it succeeded, and the statistics it
has gathered, which are kept where it stopped half-way. -/
abbrev Calibrate := Graph → List QuantSite → QuantOptions → Bool × (TensorId → Option ActStats)

def evidence (g : Graph) (s : QuantSite) (actStats : TensorId → Option ActStats) : Evidence where
  type := (g.nodes.getD s.nodeIdx {}).type
  dtype := (g.desc s.weight).dtype
  payload := g.initializers[s.weight]?.getD []
  k := s.k
  n := s.n
  layout := s.layout
  convChannels := s.convChannels
  actChannels := s.actChannels
  convGroups := s.convGroups
  stats := actStats s.act

/-! ## Changing a graph -/

def addConstant (g : Graph) (d : TensorDesc) (hb : HostBuffer) : Graph × TensorId :=
  ({ (g.addTensor d).1 with
      initializers := (g.addTensor d).1.initializers.insert (g.addTensor d).2 hb },
    (g.addTensor d).2)

def setPayload (g : Graph) (t : TensorId) (hb : HostBuffer) : Graph :=
  { g with initializers := g.initializers.insert t hb }

def modifyNode (g : Graph) (i : Nat) (f : Node → Node) : Graph :=
  { g with nodes := g.nodes.modify i f }

/-- Set integer attributes, one after another. -/
def setInts (attr : Attributes) (entries : List (Str × Int)) : Attributes :=
  entries.foldl (fun a e => { map := a.map.insert e.1 { kind := .int, i := e.2 } }) attr

/-- The bias operand of a site's node. -/
def biasOf (nd : Node) : TensorId :=
  if nd.type = .matMul then nd.fusedBias
  else if 3 ≤ nd.pwCoreInputs then nd.inputs.getD 2 kNoTensor
  else kNoTensor

/-- Take the shift of the outputs out of the bias of a site: out of the one it has, unless that
is shared, computed or oddly shaped, else by a new one where that moves no other operand. -/
def applyBiasCorrection (arith : Arithmetic) (g : Graph) (s : QuantSite)
    (delta : List DoubleBits) (weightName biasSuffix : Str) : Graph :=
  let nd := g.nodes.getD s.nodeIdx {}
  let biasId := biasOf nd
  if biasId ≠ kNoTensor then
    if ¬ g.isInitializer biasId ∨ tensorUses g biasId ≠ 1 ∨
        elemCount (g.desc biasId).shape ≠ s.n then g
    else if (g.desc biasId).dtype = .float16 ∨ (g.desc biasId).dtype = .float32 then
      setPayload g biasId
        (arith.corrected (g.desc biasId).dtype (g.initializers[biasId]?.getD []) delta)
    else g
  else
    let bd : TensorDesc :=
      { name := weightName ++ biasSuffix, shape := [s.n], dtype := .float32, isInitializer := true }
    if nd.type = .matMul then
      modifyNode (addConstant g bd (arith.correction delta)).1 s.nodeIdx fun nd =>
        { nd with fusedBias := (addConstant g bd (arith.correction delta)).2 }
    else if ¬ nd.attr.has (str "pw_steps") ∧ nd.inputs.length = 2 then
      modifyNode (addConstant g bd (arith.correction delta)).1 s.nodeIdx fun nd =>
        { nd with inputs := nd.inputs ++ [(addConstant g bd (arith.correction delta)).2] }
    else g

/-- A tensor to be made beside a weight: the attribute that will name it, its descriptor and its
bytes. -/
abbrev Side := Str × TensorDesc × HostBuffer

def addSides (g : Graph) : List Side → Graph × List (Str × TensorId)
  | [] => (g, [])
  | (key, d, hb) :: rest =>
    ((addSides (addConstant g d hb).1 rest).1,
      (key, (addConstant g d hb).2) :: (addSides (addConstant g d hb).1 rest).2)

/-- Make the side tensors, put the packed bytes into the weight, and describe them on the node. -/
def emit (g : Graph) (s : QuantSite) (format group nOut : Int) (payload : HostBuffer)
    (sides : List Side) : Graph × List (Str × TensorId) :=
  let made := addSides g sides
  let g := setPayload made.1 s.weight payload
  let g := g.updateDesc s.weight fun d => { d with dtype := .float16 }
  (modifyNode g s.nodeIdx fun nd =>
    { nd with
      attr := setInts nd.attr
        ([(kWq, format), (kWqK, s.k), (kWqN, s.n), (kWqGroup, group), (kWqNOut, nOut),
          (kWqLayout, s.layout)] ++ made.2) },
    made.2)

/-! ## One site -/

/-- The copy of a constant of another graph. -/
def copyInitializer («from» : Graph) (id : TensorId) : TensorDesc × HostBuffer :=
  ({ «from».desc id with isInput := false, isOutput := false, isInitializer := true },
    «from».initializers[id]?.getD [])

/-- Install another bucket's quantization of a weight. -/
def applySharedQuant (arith : Arithmetic) (g : Graph) (s : QuantSite) («from» : Graph)
    (src : QuantSource) (opt : QuantOptions) : Graph :=
  let weightName := (g.desc s.weight).name
  let g := (emit g s opt.format src.group src.nOut («from».initializers[src.weight]?.getD [])
    (src.sides.map fun side => (side.1, copyInitializer «from» side.2))).1
  if src.biasDelta ≠ [] then
    applyBiasCorrection arith g s src.biasDelta weightName opt.biasSuffix
  else g

def oidxBytes (oidx : List UInt32) : HostBuffer :=
  oidx.flatMap fun (i : UInt32) => Wire.leBytes 4 i.toNat

/-- The name that the tensors beside a weight start with. -/
def sideName (g : Graph) (s : QuantSite) : Str :=
  if (g.desc s.weight).name = [] then str "#w" ++ intStr s.weight else (g.desc s.weight).name

/-- The number of scale groups along the reduction axis. -/
def int4GroupCount (k group : Int) : Int := (k + group - 1).tdiv group

/-- The tensors made beside a packed weight. -/
def sidesOf (g : Graph) (s : QuantSite) (opt : QuantOptions) (group : Int) (found : Packed) :
    List Side :=
  let side (suffix : Str) (dt : DType) (elems : Int) : TensorDesc :=
    { name := sideName g s ++ suffix, shape := [elems], dtype := dt, isInitializer := true }
  [(kWqScales, side opt.scaleSuffix .float16 (int4GroupCount s.k group * s.n), found.scales)] ++
    (if found.oidx = [] then []
      else
        [(kWqOidx, side opt.oidxSuffix .int32 found.oidx.length, oidxBytes found.oidx),
          (kWqOval, side opt.ovalSuffix .float16 (found.oidx.length * s.n), found.oval)]) ++
    (if opt.lut4 then [(kWqLut, side (str "#l4cb") .float16 16, found.codebook)] else [])

/-- The state of a bucket while its sites are quantized. -/
structure Progress where
  g : Graph
  stats : QuantStats := {}
  produced : Produced := []

/-- One site: replayed where an earlier bucket has published its key, else quantized here. -/
def quantizeSite (arith : Arithmetic) (opt : QuantOptions) (actStats : TensorId → Option ActStats)
    (now : Progress) (s : QuantSite) (key : Option WeightKey)
    (cached : Option (Graph × QuantSource)) : Progress :=
  match cached with
  | some («from», src) =>
    if src.keptFp16 then
      { now with stats := { now.stats with guardKept := now.stats.guardKept + 1 } }
    else
      { now with
        g := applySharedQuant arith now.g s «from» src opt
        stats := { now.stats with
          quantized := now.stats.quantized + 1
          shared := now.stats.shared + 1
          outlierCols := now.stats.outlierCols + src.nOut } }
  | none =>
    let g := now.g
    match arith.grid opt (evidence g s actStats) with
    | .keptFp16 =>
      { now with
        stats := { now.stats with guardKept := now.stats.guardKept + 1 }
        produced :=
          match key with
          | some key => emplace now.produced key { keptFp16 := true }
          | none => now.produced }
    | .packed found =>
      let nd := g.nodes.getD s.nodeIdx {}
      let group := groupFor opt nd.type s.k
      let made := emit g s opt.format group found.oidx.length found.payload
        (sidesOf g s opt group found)
      { g :=
          match found.delta with
          | some delta => applyBiasCorrection arith made.1 s delta (sideName g s) opt.biasSuffix
          | none => made.1
        stats := { now.stats with
          quantized := now.stats.quantized + 1
          outlierCols := now.stats.outlierCols + found.oidx.length }
        produced :=
          match key with
          | some key =>
            emplace now.produced key
              { weight := s.weight
                sides := made.2
                nOut := found.oidx.length
                group := group
                biasDelta := found.delta.getD [] }
          | none => now.produced }

/-! ## One bucket -/

/-- What the buckets so far have published for a site. -/
def cachedFor (g : Graph) (opt : QuantOptions) (shared : QuantCache) (s : QuantSite) :
    Option (Graph × QuantSource) :=
  match weightKeyFor g s opt with
  | some key => shared.lookup key
  | none => none

/-- The sites that nobody has published. -/
def uncachedSites (g : Graph) (opt : QuantOptions) (shared : QuantCache) : List QuantSite :=
  (collectSites g opt).filter fun s => (cachedFor g opt shared s).isNone

/-- The statistics of the sites that are not published, if there are any. -/
def statistics (calibrate : Calibrate) (g : Graph) (opt : QuantOptions) (shared : QuantCache) :
    Bool × (TensorId → Option ActStats) :=
  if uncachedSites g opt shared = [] then (false, fun _ => none)
  else calibrate g (uncachedSites g opt shared) opt

/-- The size of the constants of a graph. -/
def initializerBytes (g : Graph) : Int :=
  (g.initializers.toList.map fun kv => (kv.2.length : Int)).sum

/-- Quantize the sites of one bucket in order. -/
def quantizeSites (arith : Arithmetic) (calibrate : Calibrate) (opt : QuantOptions) (g : Graph)
    (shared : QuantCache) : Progress :=
  (collectSites g opt).foldl (fun now s =>
    quantizeSite arith opt (statistics calibrate g opt shared).2 now s (weightKeyFor g s opt)
      (cachedFor g opt shared s)) { g := g, stats := { bytesBefore := initializerBytes g } }

def quantizeBucket (arith : Arithmetic) (calibrate : Calibrate) (opt : QuantOptions) (g : Graph)
    (shared : QuantCache) : Except Error Progress :=
  match opt.refusal with
  | some error => .error error
  | none =>
    let now := quantizeSites arith calibrate opt g shared
    .ok { now with
      stats := { now.stats with
        bytesAfter := initializerBytes now.g
        sites := (collectSites g opt).length
        calibrated := (statistics calibrate g opt shared).1 } }

def quantizeWeights (arith : Arithmetic) (calibrate : Calibrate) (opt : QuantOptions) (g : Graph) :
    Except Error (Graph × QuantStats) :=
  (quantizeBucket arith calibrate opt g []).map fun now => (now.g, now.stats)

/-! ## All buckets -/

/-- The buckets in the order they are visited: most calibration rows first, ties by position. -/
def visitOrder (opt : QuantOptions) (buckets : List Graph) : List Nat :=
  (((List.range buckets.length).map fun b =>
      (calibrationRows (buckets.getD b {}) (collectSites (buckets.getD b {}) opt), b)).insertionSort
    fun x y => y.1 ≤ x.1).map Prod.snd

/-- The state of the pass between two buckets. -/
structure Shared where
  buckets : List Graph
  stats : List QuantStats
  shared : QuantCache := []

/-- Visit one bucket: what it finds is published once it is done. -/
def visit (arith : Arithmetic) (calibrate : Calibrate) (opt : QuantOptions) (state : Shared)
    (b : Nat) : Except Error Shared :=
  match quantizeBucket arith calibrate opt (state.buckets.getD b {}) state.shared with
  | .error error => .error error
  | .ok now =>
    .ok
      { buckets := state.buckets.set b now.g
        stats := state.stats.set b now.stats
        shared := publish state.shared now.g now.produced }

/-- Quantize all buckets of one compile together. -/
def quantizeWeightsShared (arith : Arithmetic) (calibrate : Calibrate) (opt : QuantOptions)
    (buckets : List Graph) : Except Error (List Graph × List QuantStats) :=
  ((visitOrder opt buckets).foldlM (visit arith calibrate opt)
      { buckets := buckets, stats := List.replicate buckets.length {} }).map
    fun state => (state.buckets, state.stats)

end Vknn.Import.Quantize
