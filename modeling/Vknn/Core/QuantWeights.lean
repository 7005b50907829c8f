import Vknn.Core.QuantPacking
import Vknn.Import.QuantizeWeights
import Vknn.Lib.Guarded

/-!
# Materializing packed weights

When a model is loaded, a packed weight that nothing reads packed is unpacked
again.  The node's attributes say how many rows and columns the weight has, how
its rows are grouped and which constants hold its scales and its kept rows, and
all of them come from the file.  The products formed from them are 64-bit and
wrap; the payload is compared with such a product, and the buffers are as long as
such products say, before the loops walk over the rows and columns themselves.

Every access of the loops is made here with the length of its buffer watched.  A
buffer that is too long for a vector, or that the machine does not have, is a
refusal, as is a constant that is not there.
-/

namespace Vknn.QuantWeights

open Guarded Import.Quantize
open QuantPacking (FloatArith signExtend)

/-- Why a load is refused: an error of the pass, a constant that is not there, a vector that is too
long for any, or memory that is not there. -/
inductive Refusal where
  | error (e : Error)
  | outOfRange
  | lengthError
  | badAlloc
deriving DecidableEq

/-! ## Sizes -/

/-- A value as a `size_t`.  The wraps on the way to it cancel. -/
def sizeT (n : Int) : Nat := (n % 2 ^ 64).toNat

def int4RowBytes (n : Int) : Int := wrap64 (4 * (wrap64 (n + 7)).tdiv 8)
def int8RowBytes (n : Int) : Int := wrap64 (8 * (wrap64 (n + 7)).tdiv 8)
def int4GroupCount (k group : Int) : Int := (wrap64 (k + group - 1)).tdiv group

section

variable {F α : Type} (arith : FloatArith F) (floatToHalfSat : F → UInt16)
  (allocates : Nat → Bool)

/-- A vector of zeros, whose elements take `width` bytes each. -/
def vector (width : Nat) (length : Int) (zero : α) : Outcome Refusal (List α) :=
  let n := sizeT length
  if (2 ^ 63 - 1) / width < n then .rejected .lengthError
  else if allocates (n * width) then .ok (List.replicate n zero)
  else .rejected .badAlloc

/-- The constant of a tensor, where the graph has it. -/
def constant (g : Graph) (t : TensorId) : Outcome Refusal HostBuffer :=
  match g.initializers[t]? with
  | some bytes => .ok bytes
  | none => .rejected .outOfRange

/-! ## Side tensors -/

/-- `wantBytes` zero bytes, with as many bytes of a payload copied over them as there are. -/
def copyQuantSide (wantBytes : Nat) (src : HostBuffer) : HostBuffer :=
  src.take wantBytes ++ List.replicate (wantBytes - src.length) 0

/-- The elements of copied bytes, `width` of them each. -/
def elements (width n : Nat) (bytes : HostBuffer) : List Int :=
  (List.range n).map fun i => Wire.leInt width ((bytes.drop (width * i)).take width)

def words16 (n : Nat) (src : HostBuffer) : List UInt16 :=
  (elements 2 n (copyQuantSide (n * 2) src)).map fun x => UInt16.ofInt x

def words32 (n : Nat) (src : HostBuffer) : List Int := elements 4 n (copyQuantSide (n * 4) src)

/-! ## The decoders -/

def scaleAt (scales : List UInt16) (N group k n : Int) : Outcome Refusal F := do
  let s ← readAt scales (sizeT (k / group * N + n))
  .ok (arith.halfToFloat s)

def int4At (packed : HostBuffer) (rowBytes k n : Int) : Outcome Refusal Int := do
  let byte ← readAt packed (wrap64 (k * rowBytes + n / 2))
  .ok (signExtend (if n % 2 = 1 then byte >>> 4 else byte &&& 0xF))

def int8At (packed : HostBuffer) (rowBytes k n : Int) : Outcome Refusal Int := do
  let byte ← readAt packed (wrap64 (k * rowBytes + n))
  .ok byte.toInt8.toInt

/-- The shared body of the decoders: the grid from `value`, then the kept rows over it. -/
def dequant (value : Int → Int → Outcome Refusal F) (oidx : List Int) (oval : List UInt16)
    (K N nOut : Int) : Outcome Refusal (List F) := do
  let w ← vector allocates 4 (K * N) arith.zero
  let w ← loop K.toNat (fun k w => loop N.toNat (fun n w => do
    let v ← value k n
    storeAt w (sizeT (k * N + n)) v) w) w
  loop nOut.toNat (fun j w => do
    let k ← readAt oidx j
    if k < 0 ∨ K ≤ k then .ok w
    else loop N.toNat (fun n w => do
      let v ← readAt oval (sizeT (j * N + n))
      storeAt w (sizeT (k * N + n)) (arith.halfToFloat v)) w) w

def int4Dequant (packed : HostBuffer) (scales : List UInt16) (oidx : List Int) (oval : List UInt16)
    (K N group nOut : Int) : Outcome Refusal (List F) :=
  dequant arith allocates (fun k n => do
    let s ← scaleAt arith scales N group k n
    let q ← int4At packed (int4RowBytes N) k n
    .ok (arith.mul (arith.ofInt q) s)) oidx oval K N nOut

def int8Dequant (packed : HostBuffer) (scales : List UInt16) (oidx : List Int) (oval : List UInt16)
    (K N group nOut : Int) : Outcome Refusal (List F) :=
  dequant arith allocates (fun k n => do
    let s ← scaleAt arith scales N group k n
    let q ← int8At packed (int8RowBytes N) k n
    .ok (arith.mul (arith.ofInt q) s)) oidx oval K N nOut

def lut4Dequant (packed : HostBuffer) (codebook scales : List UInt16) (oidx : List Int)
    (oval : List UInt16) (K N group nOut : Int) : Outcome Refusal (List F) :=
  dequant arith allocates (fun k n => do
    let q ← int4At packed (int4RowBytes N) k n
    let s ← scaleAt arith scales N group k n
    let entry ← readAt codebook (q % 16)
    .ok (arith.mul (arith.halfToFloat entry) s)) oidx oval K N nOut

/-! ## One node -/

/-- The grid narrowed into the layout of the tensor. -/
def relaid (w : List F) (layout K N : Int) (h : List UInt16) : Outcome Refusal (List UInt16) :=
  if layout = 0 then
    loop (wrap64 (K * N)).toNat (fun idx h => do
      let v ← readAt w idx
      storeAt h idx (floatToHalfSat v)) h
  else
    loop N.toNat (fun n h => loop K.toNat (fun k h => do
      let v ← readAt w (sizeT (k * N + n))
      storeAt h (wrap64 (n * K + k)) (floatToHalfSat v)) h) h

/-- Back in the layout of the tensor, in half precision. -/
def narrowed (w : List F) (layout K N : Int) : Outcome Refusal HostBuffer := do
  let half ← vector allocates 1 (K * N * 2) (0 : UInt8)
  let h ← relaid floatToHalfSat w layout K N (List.replicate (half.length / 2) 0)
  .ok (h.flatMap fun (x : UInt16) => [x.toUInt8, (x >>> 8).toUInt8])

/-- The format of a node's packed weight, 0 where it has none. -/
def weightQuantFormat (nd : Node) : Int :=
  if nd.attr.has kWq then wrap32 (nd.attr.geti kWq 0) else 0

/-- Bytes of a packed row of a format. -/
def packedRowBytes (format N : Int) : Int :=
  if format = kWqFormatInt8 then int8RowBytes N else int4RowBytes N

/-- The attributes that describe a packed weight. -/
def quantKeys : List Str :=
  [kWq, kWqK, kWqN, kWqGroup, kWqNOut, kWqLayout, kWqScales, kWqOidx, kWqOval, kWqLut]

/-- The node with the description of its weight taken off. -/
def stripped (nd : Node) : Node :=
  { nd with attr := ⟨quantKeys.foldl (fun map key => map.erase key) nd.attr.map⟩ }

/-! ## Refusals -/

def dash : Str := [0x20, 0xE2, 0x80, 0x94, 0x20]

def unsupportedFormat (nd : Node) : Error :=
  .mk' .unsupported (str "weight-quantization format " ++ intStr (weightQuantFormat nd) ++
    str " on node " ++ nd.name ++
    str " is not supported by this build" ++ dash ++ str "reconvert the model or upgrade vknn")

def corruptDims (nd : Node) : Error :=
  .mk' .unsupported (str "corrupt weight-quant dimensions (K/N/group/nOut) on node " ++ nd.name ++
    dash ++ str "reconvert the model")

def shortPayload (nd : Node) : Error :=
  .mk' .unsupported (str "corrupt model: packed weight payload on node " ++ nd.name ++
    str " is shorter than K*rowBytes" ++ dash ++ str "reconvert the model")

/-! ## The pass -/

/-- A side constant of the kept rows, which a node without kept rows does not have. -/
def keptConstant (g : Graph) (nd : Node) (key : Str) : Outcome Refusal HostBuffer :=
  if 0 < nd.attr.geti kWqNOut 0 then constant g (wrap32 (nd.attr.geti key kNoTensor)) else .ok []

/-- The grid of a node, decoded by its format. -/
def decoded (g : Graph) (nd : Node) (packed : HostBuffer) (scales : List UInt16) (oidx : List Int)
    (oval : List UInt16) (K N group nOut : Int) : Outcome Refusal (List F) :=
  if weightQuantFormat nd = kWqFormatInt4 then
    int4Dequant arith allocates packed scales oidx oval K N group nOut
  else if weightQuantFormat nd = kWqFormatInt8 then
    int8Dequant arith allocates packed scales oidx oval K N group nOut
  else do
    let book ← vector allocates 2 16 (0 : UInt16)
    let lutHb ← constant g (wrap32 (nd.attr.geti kWqLut kNoTensor))
    lut4Dequant arith allocates packed (words16 book.length lutHb) scales oidx oval K N group nOut

/-- The weight of a node in half precision. -/
def reconstruct (g : Graph) (nd : Node) (weight : TensorId) : Outcome Refusal HostBuffer := do
  let K := nd.attr.geti kWqK 0
  let N := nd.attr.geti kWqN 0
  let group := nd.attr.geti kWqGroup 1
  let nOut := nd.attr.geti kWqNOut 0
  let packed ← constant g weight
  let scaleHb ← constant g (wrap32 (nd.attr.geti kWqScales kNoTensor))
  let scales ← vector allocates 2 (int4GroupCount K group * N) (0 : UInt16)
  let oidx ← vector allocates 4 nOut (0 : Int)
  let oval ← vector allocates 2 (nOut * N) (0 : UInt16)
  let oidxHb ← keptConstant g nd kWqOidx
  let ovalHb ← keptConstant g nd kWqOval
  if (packed.length : Int) < wrap64 (K * packedRowBytes (weightQuantFormat nd) N) then
    .rejected (.error (shortPayload nd))
  else do
    let w ← decoded arith allocates g nd packed (words16 scales.length scaleHb)
      (words32 oidx.length oidxHb) (words16 oval.length ovalHb) K N group nOut
    narrowed floatToHalfSat allocates w (nd.attr.geti kWqLayout 0) K N

/-- The constants once a weight is reconstructed: its own replaced, its side tensors gone. -/
def settledConstants (g : Graph) (nd : Node) (weight : TensorId) (half : HostBuffer) : Graph :=
  let constants := g.initializers.insert weight half
  let constants := constants.erase (wrap32 (nd.attr.geti kWqScales kNoTensor))
  let constants :=
    if 0 < nd.attr.geti kWqNOut 0 then
      (constants.erase (wrap32 (nd.attr.geti kWqOidx kNoTensor))).erase
        (wrap32 (nd.attr.geti kWqOval kNoTensor))
    else constants
  let lutId := wrap32 (nd.attr.geti kWqLut kNoTensor)
  { g with initializers := if lutId ≠ kNoTensor then constants.erase lutId else constants }

/-- Whether a node's dimensions are ones the loops accept. -/
def validDims (nd : Node) : Prop :=
  1 ≤ nd.attr.geti kWqGroup 1 ∧ 0 ≤ nd.attr.geti kWqK 0 ∧ 0 ≤ nd.attr.geti kWqN 0 ∧
    0 ≤ nd.attr.geti kWqNOut 0

instance (nd : Node) : Decidable (validDims nd) := inferInstanceAs (Decidable (_ ∧ _))

/-- Whether a node's format is one of the three there are. -/
def knownFormat (nd : Node) : Prop :=
  weightQuantFormat nd = kWqFormatInt4 ∨ weightQuantFormat nd = kWqFormatInt8 ∨
    weightQuantFormat nd = kWqFormatLut4

instance (nd : Node) : Decidable (knownFormat nd) := inferInstanceAs (Decidable (_ ∨ _))

/-- One turn of the loop over the nodes: the graph and the number of weights so far. -/
def materializeNode (keepPacked : Nat → Node → Bool) (i : Nat) (state : Graph × Int) :
    Outcome Refusal (Graph × Int) :=
  let g := state.1
  let nd := g.nodes.getD i {}
  if ¬ nd.attr.has kWq then .ok state
  else if ¬ knownFormat nd then .rejected (.error (unsupportedFormat nd))
  else if ¬ validDims nd then .rejected (.error (corruptDims nd))
  else if keepPacked i nd then .ok state
  else do
    let weight ← readAt nd.inputs 1
    let half ← reconstruct arith floatToHalfSat allocates g nd weight
    let g := settledConstants g nd weight half
    .ok ({ g with nodes := g.nodes.set i (stripped nd) }, state.2 + 1)

def materializeQuantWeights (g : Graph) (keepPacked : Nat → Node → Bool) : Outcome Refusal (Graph × Int) :=
  loop g.nodes.length (materializeNode arith floatToHalfSat allocates keepPacked) (g, 0)

end

end Vknn.QuantWeights
