import Vknn.Import.OnnxGraphBuilder
import Vknn.Lib.Memo
import Vknn.Session.CpuPlan

/-!
# The weight cache

Operators on the device prepack their weights.  A prepacked weight is kept twice: as host numbers
in a weight cache, which a file carries from session to session, and as a device buffer in a pool
that a backend keeps for as long as somebody uses the buffer.  Both are looked up by a key made of
a tag of the model and a name that the operator chooses.

A cache file holds a document with one variant for each configuration it was written under.  The
document is used if it was written for the same kernels, device and model tag.

The coding of a document as bytes is the parameter `codec`, and the conversion to half precision is
the parameter `toHalf`.
-/

namespace Vknn.Vulkan

open Std

/-! ## Keys -/

def kFnvOffsetBasis : UInt64 := 1469598103934665603

def kFnvPrime : UInt64 := 1099511628211

def mix (h : UInt64) (s : Str) : UInt64 := s.foldl (fun h c => (h ^^^ c.toUInt64) * kFnvPrime) h

/-- The sixteen hexadecimal digits of a hash. -/
def hexDigits (h : UInt64) : Str :=
  (List.range 16).map fun i =>
    let digit := h.toNat / 16 ^ (15 - i) % 16
    UInt8.ofNat (if digit < 10 then 48 + digit else 87 + digit)

/-- The weight-cache namespace of a model. -/
def modelTag (g : Graph) : Str :=
  let h := g.nodes.foldl (fun h nd => mix (mix h nd.name) (opTypeName nd.type)) kFnvOffsetBasis
  hexDigits (mix h (decimal g.nodes.length))

def weightKey (tag rawKey : Str) : Str := if tag.isEmpty then rawKey else tag ++ str "/" ++ rawKey

/-- The key of a device buffer; the precision splits the key. -/
def poolKey (key : Str) (fp16 : Bool) : Str := key ++ if fp16 then str "|h" else str "|f"

/-! ## The document -/

/-- The configuration a variant was written under. -/
structure CacheKey where
  precision : Str := []
  flatLayout : Bool := true
  gpuIslandFold : Bool := true
  matmulViewFold : Bool := true
  ropeFusion : Bool := true
  fusedAttention : Bool := true
  kvConcatFold : Bool := false
  fp32Tensors : Str := []
  winograd : Int := 0
  winogradVariant : Int := 0
  winogradUnit : Int := 0
  directConv3x3 : Int := 0
  splitKConv : Int := 0
  coopmatGemm : Int := 0
  kvCacheQuant : Int := 0
deriving DecidableEq

/-- Prepacked weights by key, as single-precision lanes. -/
abbrev Weights := ExtTreeMap Str HostBuffer

/-- What is kept for one configuration. -/
structure CacheVariant extends CacheKey where
  pipeline : List UInt8 := []
  weights : Weights := ∅
  tune : ExtTreeMap Str Int := ∅
  tuneLevel : ExtTreeMap Str Int := ∅
deriving DecidableEq

def CacheVariant.sameKey (v o : CacheVariant) : Bool := v.toCacheKey = o.toCacheKey

def kCacheFormat : Nat := 2

/-- The kernels and the device that a backend runs on. -/
structure Device where
  kernelHash : Str := []
  vendorId : Nat := 0
  deviceId : Nat := 0
  driverVersion : Nat := 0
  pipelineCacheUUID : List UInt8 := []
deriving DecidableEq

structure CacheDoc extends Device where
  format : Nat := kCacheFormat
  model : Str := []
  variants : List CacheVariant := []
deriving DecidableEq

def CacheDoc.findVariant (doc : CacheDoc) (k : CacheVariant) : Option CacheVariant :=
  doc.variants.find? fun v => v.sameKey k

/-- A coding of documents as the contents of files. -/
structure CacheCodec (F : Type) where
  cacheEncode : CacheDoc → F
  cacheDecode : F → Option CacheDoc
  roundTrip : ∀ doc, cacheDecode (cacheEncode doc) = some doc

/-! ## The cache of one session -/

/-- The level a tuning entry without one was measured at. -/
def tuningFast : Int := 1

structure WeightCache where
  weights : Weights := ∅
  tune : ExtTreeMap Str Int := ∅
  tuneLevel : ExtTreeMap Str Int := ∅
  enabled : Bool := false
  dirty : Bool := false

namespace WeightCache

def reset (enabled : Bool) : WeightCache := { enabled }

def loadFrom (v : CacheVariant) : WeightCache where
  weights := v.weights
  tune := v.tune
  tuneLevel := v.tune.keys.foldl (fun levels sig =>
    levels.insert sig (v.tuneLevel.getD sig tuningFast)) ∅
  enabled := true

def writeInto (c : WeightCache) (v : CacheVariant) : CacheVariant :=
  { v with
    weights := c.weights
    tune := c.tune
    tuneLevel := c.tune.keys.foldl (fun levels sig =>
      match c.tuneLevel[sig]? with
      | some level => levels.insert sig level
      | none => levels) ∅ }

def put (c : WeightCache) (key : Str) (data : HostBuffer) : WeightCache :=
  { c with weights := c.weights.insert key data, dirty := true }

def setTuned (c : WeightCache) (sig : Str) (val level : Int) : WeightCache :=
  { c with tune := c.tune.insert sig val, tuneLevel := c.tuneLevel.insert sig level, dirty := true }

end WeightCache

/-! ## The backend -/

/-- The settings that the cache reads. -/
structure CacheConfig where
  variantKey : CacheKey := {}
  noCache : Bool := false
  cacheFile : Str := []

/-- What a backend keeps of caches: the document it has loaded, the weight cache, and the device
buffers that are still in use. -/
structure Backend (F : Type) where
  cacheLoaded : Bool := false
  noCache : Bool := false
  cacheFile : Str := []
  curKey : CacheVariant := {}
  cacheDoc : CacheDoc := {}
  loadedBytes : Option F := none
  wcache : Option WeightCache := none
  weightPool : Str → Option HostBuffer := fun _ => none

section Caches

variable {F : Type} [DecidableEq F] (codec : CacheCodec F)

abbrev Files (F : Type) := Str → Option F

/-- Whether a loaded document was written for this device and model. -/
def docMatches (device : Device) (modelHash : Str) (doc : CacheDoc) : Bool :=
  doc.format = kCacheFormat && doc.toDevice = device && doc.model = modelHash

/-- Load and check the cache file of a model, once for a backend. -/
def loadCache (files : Files F) (device : Device) (cfg : CacheConfig) (modelHash : Str)
    (b : Backend F) : Backend F :=
  if b.cacheLoaded then b
  else
    let b := { b with
      cacheLoaded := true
      noCache := cfg.noCache
      cacheFile := cfg.cacheFile
      curKey := { cfg.variantKey with }
      cacheDoc := { device with model := modelHash } }
    let enabled := !b.noCache && !b.cacheFile.isEmpty
    let bytes := if enabled then files b.cacheFile else none
    match bytes, bytes.bind codec.cacheDecode with
    | some bytes, some loaded =>
      if docMatches device modelHash loaded then
        { b with
          cacheDoc := loaded
          loadedBytes := some bytes
          wcache := match loaded.findVariant b.curKey with
            | some matched => some (WeightCache.loadFrom matched)
            | none => some (WeightCache.reset enabled) }
      else { b with wcache := some (WeightCache.reset enabled) }
    | _, _ => { b with wcache := some (WeightCache.reset enabled) }

/-- Put a variant in the place of the one with its key, or at the end. -/
def replaceVariant (v : CacheVariant) : List CacheVariant → List CacheVariant
  | [] => [v]
  | e :: rest => if e.sameKey v then v :: rest else e :: replaceVariant v rest

/-- Write the cache file, unless its content would not change; `written` says whether the write
succeeds. -/
def saveCaches (pipeline : List UInt8) (written : Bool) (b : Backend F) (files : Files F) :
    Backend F × Files F :=
  match b.wcache with
  | none => (b, files)
  | some wcache =>
    if b.noCache || b.cacheFile.isEmpty then (b, files)
    else
      let v := wcache.writeInto { b.curKey with pipeline }
      let doc := { b.cacheDoc with variants := replaceVariant v b.cacheDoc.variants }
      let b : Backend F := { b with cacheDoc := doc }
      let saved := { wcache with dirty := false }
      let out := codec.cacheEncode doc
      if b.loadedBytes = some out then ({ b with wcache := some saved }, files)
      else if written then
        ({ b with loadedBytes := some out, wcache := some saved },
          Function.update files b.cacheFile (some out))
      else (b, files)

variable (toHalf : HostBuffer → HostBuffer)

def uploadWeight (data : HostBuffer) (fp16 : Bool) : HostBuffer := if fp16 then toHalf data else data

/-- Take a prepacked weight from the host cache, or compute it and keep it. -/
def prepacked (key : Str) (compute : HostBuffer) (b : Backend F) : HostBuffer × Backend F :=
  match b.wcache with
  | none => (compute, b)
  | some wcache =>
    match wcache.weights[key]? with
    | some v => (v, b)
    | none =>
      if wcache.enabled then (compute, { b with wcache := some (wcache.put key compute) })
      else (compute, b)

/-- Serve a prepacked weight from the pool, the cache or its compute function. -/
def uploadCached (tag rawKey : Str) (fp16 : Bool) (compute : HostBuffer) (b : Backend F) :
    HostBuffer × Backend F :=
  let key := weightKey tag rawKey
  match b.weightPool (poolKey key fp16) with
  | some bytes => (bytes, b)
  | none =>
    let v := prepacked key compute b
    let bytes := uploadWeight toHalf v.1 fp16
    (bytes, { v.2 with
      weightPool := Function.update b.weightPool (poolKey key fp16) (some bytes) })

end Caches

/-! ## A packer -/

section Gemm

variable (decode : DType → List UInt8 → Float32Bits)

def lane (v : HostBuffer) (i : Nat) : HostBuffer := (v.drop (4 * i)).take 4

/-- The single-precision lanes of an initializer. -/
def initFloatsOf (g : Graph) (t : TensorId) : HostBuffer :=
  Session.initFloats decode (g.desc t) (g.initializers.getD t [])

/-- The weight panel of a fully connected layer, one row for each output channel. -/
def gemmWeight (g : Graph) (node : Node) : HostBuffer :=
  let ws := (g.desc (node.inputs.getD 1 kNoTensor)).shape
  let transB := node.attr.geti (str "transB") 0 ≠ 0
  let cin := (if transB then ws.getD 1 0 else ws.getD 0 0).toNat
  let cout := (if transB then ws.getD 0 0 else ws.getD 1 0).toNat
  let wsrc := initFloatsOf decode g (node.inputs.getD 1 kNoTensor)
  (List.range cout).flatMap fun oc => (List.range cin).flatMap fun ic =>
    lane wsrc (if transB then oc * cin + ic else ic * cout + oc)

/-- The bias of a fully connected layer, zero where the node has none. -/
def gemmBias (g : Graph) (node : Node) : HostBuffer :=
  let ws := (g.desc (node.inputs.getD 1 kNoTensor)).shape
  let transB := node.attr.geti (str "transB") 0 ≠ 0
  let cout := (if transB then ws.getD 0 0 else ws.getD 1 0).toNat
  if 2 < node.pwCoreInputs ∧ node.inputs.getD 2 kNoTensor ≠ kNoTensor then
    (List.range cout).flatMap fun oc => lane (initFloatsOf decode g (node.inputs.getD 2 kNoTensor)) oc
  else List.replicate (4 * cout) 0

end Gemm

end Vknn.Vulkan
