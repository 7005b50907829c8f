import Vknn.Lib.Wire
import Vknn.Ir.Graph

/-!
# The compiled model file

A model file holds one graph, with its constants inline, or several graphs that
share one pool of constants.  Both are wrapped a second time when a weight is
quantized.  The writer emits fixed-width little-endian fields with no framing;
the reader consumes them in the same order through a cursor whose success flag
is sticky, and is judged at the end.

The reader hands each graph it has finished to a consumer, which may stop the
stream.  A consumer is represented by what it answers to a delivery after the
deliveries it has already seen, so every deterministic consumer is one.
-/

namespace Vknn.ModelIo

open Wire Scan Std

/-! ## Container words -/

def kMagic : Nat := 0x334d5856
def kMagic4 : Nat := 0x344d5856
def kMagic5 : Nat := 0x354d5856
def kMagic6 : Nat := 0x364d5856
def kSubBodyVxm3 : Nat := 3
def kSubBodyVxm4 : Nat := 4

/-- The attribute that marks a packed weight, and the format value that older engines read. -/
def kWq : Str := str "wq"
def kWqFormatInt4 : Int := 1

/-- Weight-quantization content, for the choice of container. -/
structure QuantContent where
  anyQuantized : Bool := false
  nonInt4 : Bool := false

def graphQuantContent (g : Graph) : QuantContent :=
  g.nodes.foldl (fun content n =>
    if n.attr.has kWq then
      { anyQuantized := true
        nonInt4 := content.nonInt4 || n.attr.geti kWq 0 != kWqFormatInt4 }
    else content) {}

/-! ## Writing -/

def emit (fields : List Bytes) : Bytes := fields.flatten

namespace Writer

def u32 (v : Nat) : Bytes := leBytes 4 v
def i32 (v : Int) : Bytes := leBytesInt 4 v
def i64 (v : Int) : Bytes := leBytesInt 8 v
def f32 (v : Float32Bits) : Bytes := leBytes 4 v.bits.toNat

/-- A length and that many bytes: strings and byte blobs. -/
def blob (s : Bytes) : Bytes := emit [u32 s.length, s]

def vec {α : Type} (elem : α → Bytes) (v : List α) : Bytes := emit [u32 v.length, v.flatMap elem]

end Writer

open Writer in
def writeAttr (a : Attr) : Bytes :=
  emit [u32 a.kind.code, i64 a.i, f32 a.f, vec i64 a.ints, vec f32 a.floats, blob a.str]

/-- The three tensor roles packed into one word. -/
def roleFlags (t : TensorDesc) : Nat :=
  (if t.isInput then 1 else 0) + (if t.isOutput then 2 else 0) + (if t.isInitializer then 4 else 0)

open Writer in
def writeTensor (t : TensorDesc) : Bytes :=
  emit [blob t.name, vec i64 t.shape, u32 t.dtype.code, u32 t.format.code, u32 (roleFlags t)]

open Writer in
def writeNode (n : Node) : Bytes :=
  emit [u32 n.type.code, blob n.name, vec i32 n.inputs, vec i32 n.outputs, u32 n.fusedAct.code,
    f32 n.actLo, f32 n.actHi, i64 n.subOp, i64 n.fusedResidual, i64 n.fusedBias,
    u32 n.attr.map.size, n.attr.map.toList.flatMap fun kv => emit [blob kv.1, writeAttr kv.2]]

open Writer in
/-- Everything of a graph body except its constants. -/
def writeGraphStructure (g : Graph) : Bytes :=
  emit [u32 g.tensors.length, g.tensors.flatMap writeTensor, u32 g.nodes.length,
    g.nodes.flatMap writeNode, vec i32 g.inputs, vec i32 g.outputs]

/-- The leading word or words: plain, or the quantized wrapper and its body tag. -/
def containerWords (content : QuantContent) (plain sub : Nat) : Bytes :=
  if content.anyQuantized then
    emit [Writer.u32 (if content.nonInt4 then kMagic6 else kMagic5), Writer.u32 sub]
  else Writer.u32 plain

open Writer in
/-- The single-graph file: the graph, then its constants inline, keyed by tensor. -/
def saveGraphBin (g : Graph) : Bytes :=
  emit [containerWords (graphQuantContent g) kMagic kSubBodyVxm3, writeGraphStructure g,
    u32 g.initializers.size,
    g.initializers.toList.flatMap fun kv => emit [i64 kv.1, blob kv.2]]

/-! ### The shared pool -/

abbrev DigestKey := Nat × UInt64

/-- The pool's payloads, and the candidate slots of each digest. -/
structure Pool where
  payloads : List Bytes := []
  poolIndex : List (DigestKey × List Nat) := []

def fnv1a (bytes : Bytes) : UInt64 :=
  bytes.foldl (fun h b => (h ^^^ b.toUInt64) * 1099511628211) 1469598103934665603

/-- The candidate slots recorded for a digest. -/
def Pool.candidates (pool : Pool) (key : DigestKey) : List Nat :=
  (pool.poolIndex.lookup key).getD []

/-- The slot of a payload: a candidate that holds exactly these bytes, or a fresh one. -/
def internPayload (pool : Pool) (bytes : Bytes) : Pool × Nat :=
  let key : DigestKey := (bytes.length, fnv1a bytes)
  let slots := pool.candidates key
  match slots.find? fun s => pool.payloads[s]? == some bytes with
  | some s => (pool, s)
  | none =>
    let slot := pool.payloads.length % 2 ^ 32
    ({ payloads := pool.payloads ++ [bytes]
       poolIndex := (key, slots ++ [slot]) :: pool.poolIndex }, slot)

/-- Refer one graph's constants into the pool. -/
def internInits (pool : Pool) : List (TensorId × HostBuffer) → Pool × List (TensorId × Nat)
  | [] => (pool, [])
  | (id, bytes) :: rest =>
    let (pool, slot) := internPayload pool bytes
    let (pool, refs) := internInits pool rest
    (pool, (id, slot) :: refs)

/-- Refer every graph's constants into the pool, before anything is written. -/
def internBuckets (pool : Pool) : List Graph → Pool × List (List (TensorId × Nat))
  | [] => (pool, [])
  | g :: rest =>
    let (pool, refs) := internInits pool g.initializers.toList
    let (pool, later) := internBuckets pool rest
    (pool, refs :: later)

open Writer in
/-- One bucket: its name, its structure, and its table of pool references. -/
def writeBucket (name : Str) (g : Graph) (refs : List (TensorId × Nat)) : Bytes :=
  emit [blob name, writeGraphStructure g, u32 refs.length,
    refs.flatMap fun ref => emit [i64 ref.1, u32 ref.2]]

/-- The name of a bucket; a missing one is empty. -/
def bucketName (names : List Str) (b : Nat) : Str := names.getD b []

open Writer in
/-- The file of a list of buckets, where there is one to write. -/
def saveGraphBinBuckets (buckets : List Graph) (names : List Str) : Option Bytes :=
  match buckets with
  | [] => none
  | [g] => some (saveGraphBin g)
  | _ =>
    let content := buckets.foldl (fun content b =>
      let bucketContent := graphQuantContent b
      { anyQuantized := content.anyQuantized || bucketContent.anyQuantized
        nonInt4 := content.nonInt4 || bucketContent.nonInt4 }) ({} : QuantContent)
    let (pool, bucketInits) := internBuckets {} buckets
    some (emit [containerWords content kMagic4 kSubBodyVxm4, u32 buckets.length,
      u32 pool.payloads.length, pool.payloads.flatMap blob,
      ((buckets.zip bucketInits).zipIdx.flatMap fun entry =>
        writeBucket (bucketName names entry.2) entry.1.1 entry.1.2)])

/-! ## Reading -/

namespace Reader

def u32 : Scan Nat := do
  let b ← block 4
  pure (leNat b)

def i64 : Scan Int := do
  let b ← block 8
  pure (leInt 8 b)

def f32 : Scan Float32Bits := do
  let b ← block 4
  pure ⟨UInt32.ofNat (leNat b)⟩

/-- A length and that many bytes; a length past the end of the file fails and reads nothing. -/
def str : Scan Bytes := do
  let n ← u32
  whenRemaining n (do fail; pure []) (block n)

/-- Cut a byte string into words of a fixed width. -/
def words (width : Nat) : Nat → Bytes → List Bytes
  | 0, _ => []
  | n + 1, bytes => bytes.take width :: words width n (bytes.drop width)

/-- A length and that many elements of a fixed width. -/
def vec {α : Type} (width : Nat) (elem : Bytes → α) : Scan (List α) := do
  let n ← u32
  whenRemaining (n * width) (do fail; pure []) do
    let b ← block (n * width)
    pure ((words width n b).map elem)

def ints : Scan (List Int) := vec 8 (leInt 8)
def ids : Scan (List TensorId) := vec 4 (leInt 4)
def floats : Scan (List Float32Bits) := vec 4 fun b => ⟨UInt32.ofNat (leNat b)⟩

/-- A 64-bit field narrowed to 32 bits. -/
def narrowed : Scan Int := do
  let v ← i64
  pure (v.bmod (2 ^ 32))

end Reader

open Reader in
def readAttr : Scan Attr := do
  let kind ← u32
  let i ← i64
  let f ← f32
  let ints ← ints
  let floats ← floats
  let str ← Reader.str
  pure { kind := .ofCode kind, i, f, ints, floats, str }

open Reader in
def readTensor : Scan TensorDesc := do
  let name ← Reader.str
  let shape ← ints
  let dtype ← u32
  let format ← u32
  let flags ← u32
  pure { name, shape
         dtype := .ofCode (dtype % 256)
         format := .ofCode (format % 256)
         isInput := flags.testBit 0
         isOutput := flags.testBit 1
         isInitializer := flags.testBit 2 }

/-- The name index rebuilt from the tensor table; the later of two equal names wins. -/
def nameIndex (tensors : List TensorDesc) : ExtTreeMap Str TensorId :=
  tensors.zipIdx.foldl (fun m entry =>
    if entry.1.name.isEmpty then m else m.insert entry.1.name (entry.2 : Int)) ∅

/-- Attributes are read one by one while the cursor is good. -/
def readAttrs : Nat → ExtTreeMap Str Attr → Scan (ExtTreeMap Str Attr)
  | 0, m => pure m
  | n + 1, m => do
      let ok ← good
      if ok then do
        let k ← Reader.str
        let a ← readAttr
        readAttrs n (m.insert k a)
      else pure m

open Reader in
/-- One node, and whether its attribute count was credible; the graph is abandoned otherwise. -/
def readNode : Scan (Node × Bool) := do
  let type ← u32
  let name ← Reader.str
  let inputs ← ids
  let outputs ← ids
  let fusedAct ← u32
  let actLo ← f32
  let actHi ← f32
  let subOp ← narrowed
  let fusedResidual ← narrowed
  let fusedBias ← narrowed
  let n : Node := { type := .ofCode type, name, inputs, outputs, fusedAct := .ofCode fusedAct,
                    actLo, actHi, subOp, fusedResidual, fusedBias }
  let na ← u32
  whenRemaining na (do fail; pure (n, false)) do
    let map ← readAttrs na ∅
    pure ({ n with attr := ⟨map⟩ }, true)

/-- The node table; nodes after an abandoned one stay empty. -/
def readNodes : Nat → Scan (List Node × Bool)
  | 0 => pure ([], true)
  | count + 1 => do
      let (n, credible) ← readNode
      if credible then do
        let (rest, complete) ← readNodes count
        pure (n :: rest, complete)
      else pure (n :: List.replicate count {}, false)

/-- An id that a table of `nt` tensors allows: absent, or a position. -/
def validId (nt : Nat) (id : TensorId) : Bool := id == kNoTensor || (0 ≤ id && id < nt)

/-- The check of every id a graph's structure carries. -/
def validIds (g : Graph) : Bool :=
  (g.nodes.all fun n =>
    n.inputs.all (validId g.tensors.length) && n.outputs.all (validId g.tensors.length) &&
      validId g.tensors.length n.fusedResidual && validId g.tensors.length n.fusedBias) &&
    g.inputs.all (validId g.tensors.length) && g.outputs.all (validId g.tensors.length)

open Reader in
/-- Everything of a graph body except its constants. -/
def readGraphStructure : Scan Graph := do
  let nt ← u32
  whenRemaining nt (do fail; pure {}) do
    let tensors ← times nt readTensor
    let g : Graph := { tensors, tensorByName := nameIndex tensors }
    let nn ← u32
    whenRemaining nn (do fail; pure g) do
      let (nodes, complete) ← readNodes nn
      let g := { g with nodes }
      if complete then do
        let inputs ← ids
        let outputs ← ids
        let g := { g with inputs, outputs }
        if validIds g then pure g else do fail; pure g
      else pure g

abbrev Initializers := ExtTreeMap TensorId HostBuffer

/-- The bytes of a blob at the cursor, viewed in the mapped file when there is one. -/
def inlineBlob (mapped : Bool) (n : Nat) : Scan Bytes := do
  let blobAt ← tell
  let size ← size
  if mapped && blobAt + n ≤ size then do
    let b ← peek blobAt n
    skip n
    pure b
  else block n

open Reader in
/-- Inline constants are read one by one while the cursor is good. -/
def readInlineInits (mapped : Bool) : Nat → Initializers → Scan Initializers
  | 0, m => pure m
  | n + 1, m => do
      let ok ← good
      if ok then do
        let id ← narrowed
        let blobBytes ← u32
        whenRemaining blobBytes (do fail; pure m) do
          let hb ← inlineBlob mapped blobBytes
          readInlineInits mapped n (m.insert id hb)
      else pure m

open Reader in
def readSingle (mapped : Bool) : Scan Graph := do
  let g ← readGraphStructure
  let ni ← u32
  let initializers ← whenRemaining ni (do fail; pure ∅)
    (readInlineInits mapped ni ∅)
  pure { g with initializers }

open Reader in
/-- The place and size of each pool blob; blobs after a failure keep an empty place. -/
def readBlobIndex : Nat → Scan (List (Nat × Nat))
  | 0 => pure []
  | n + 1 => do
      let ok ← good
      if ok then do
        let sz ← u32
        whenRemaining sz (do fail; pure (List.replicate (n + 1) (0, 0))) do
          let blobAt ← tell
          skip sz
          let rest ← readBlobIndex n
          pure ((blobAt, sz) :: rest)
      else pure (List.replicate (n + 1) (0, 0))

open Reader in
/-- A bucket's pool references; references after a failure stay empty. -/
def readRefs : Nat → Scan (List (TensorId × Nat))
  | 0 => pure []
  | n + 1 => do
      let ok ← good
      if ok then do
        let id ← narrowed
        let ix ← u32
        let rest ← readRefs n
        pure ((id, ix) :: rest)
      else pure (List.replicate (n + 1) (0, 0))

/-- The bytes of a pool blob, viewed in the mapped file when there is one. -/
def pooledBlob (mapped : Bool) (blobAt n : Nat) : Scan Bytes := do
  let size ← size
  if mapped && blobAt + n ≤ size then peek blobAt n
  else if n = 0 then pure []
  else do
    seek blobAt
    block n

/-- Give a graph the payloads its references name.  A reference past the pool leaves an empty
buffer behind. -/
def attachPayloads (mapped : Bool) (blobs : List (Nat × Nat)) :
    List (TensorId × Nat) → Initializers → Scan Initializers
  | [], m => pure m
  | ref :: refs, m => do
      let hb ← match blobs[ref.2]? with
        | some blob => pooledBlob mapped blob.1 blob.2
        | none => pure []
      let ok ← good
      if ok then attachPayloads mapped blobs refs (m.insert ref.1 hb) else pure m

/-- A bucket before its payloads are attached. -/
structure BucketHead where
  name : Str
  graph : Graph
  refs : List (TensorId × Nat)

open Reader in
def readBucketHead : Scan BucketHead := do
  let name ← Reader.str
  let graph ← readGraphStructure
  let ni ← u32
  let refs ← whenRemaining ni (do fail; pure []) (readRefs ni)
  pure { name, graph, refs }

/-- One bucket; the cursor comes back behind its reference table. -/
def readBucket (mapped : Bool) (blobs : List (Nat × Nat)) : Scan (Str × Graph) := do
  let head ← readBucketHead
  let ok ← good
  if ok then do
    let next ← tell
    let initializers ← attachPayloads mapped blobs head.refs ∅
    seek next
    pure (head.name, { head.graph with initializers })
  else pure (head.name, head.graph)

/-- What the loader hands to its consumer. -/
structure Delivery where
  graph : Graph
  name : Str
  index : Nat
  count : Nat

/-- A consumer: whether it goes on, given what it has seen and what it is handed. -/
abbrev Consumer := List Delivery → Delivery → Bool

/-- Hand over the buckets from `b` on, while the cursor is good and the consumer goes on.  The
result is the loader's own, with everything handed over. -/
def readBuckets (mapped : Bool) (blobs : List (Nat × Nat)) (consume : Consumer) (nb : Nat) :
    Nat → Nat → List Delivery → Scan (Bool × List Delivery)
  | 0, _, seen => do
      let ok ← good
      pure (ok, seen)
  | left + 1, b, seen => do
      let ok ← good
      if ok then do
        let (name, graph) ← readBucket mapped blobs
        let ok ← good
        if ok then
          let delivery : Delivery := ⟨graph, name, b, nb⟩
          if consume seen delivery then
            readBuckets mapped blobs consume nb left (b + 1) (seen ++ [delivery])
          else pure (true, seen ++ [delivery])
        else pure (false, seen)
      else pure (false, seen)

open Reader in
/-- The leading word, with a quantized wrapper replaced by the word of its body. -/
def readMagic : Scan Nat := do
  let magic ← u32
  if magic = kMagic5 ∨ magic = kMagic6 then do
    let sub ← u32
    pure (if sub = kSubBodyVxm3 then kMagic else if sub = kSubBodyVxm4 then kMagic4 else 0)
  else pure magic

open Reader in
/-- The loader as a walk over the file. -/
def loadScan (mapped : Bool) (consume : Consumer) : Scan (Bool × List Delivery) := do
  let magic ← readMagic
  if magic = kMagic then do
    let g ← readSingle mapped
    let ok ← good
    if ok then pure (true, [⟨g, [], 0, 1⟩]) else pure (false, [])
  else if magic = kMagic4 then do
    let nb ← u32
    let np ← u32
    whenRemaining np (pure (false, [])) do
      let blobs ← readBlobIndex np
      readBuckets mapped blobs consume nb nb 0 []
  else pure (false, [])

/-- Stream the buckets of a file to a consumer: the loader's answer, and what it handed over. -/
def loadGraphBinBucketsStreamed (mapped : Bool) (consume : Consumer) (file : Bytes) :
    Bool × List Delivery :=
  ((loadScan mapped consume).run file ⟨0, true⟩).1

def loadGraphBinBuckets (mapped : Bool) (file : Bytes) : Bool × List Graph × List Str :=
  let (ok, seen) := loadGraphBinBucketsStreamed mapped (fun _ _ => true) file
  (ok, seen.map (·.graph), seen.map (·.name))

end Vknn.ModelIo
