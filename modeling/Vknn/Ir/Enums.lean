import Mathlib.Data.List.Basic
import Mathlib.Tactic.Linarith

/-!
# Enumerations of the graph format

A compiled model stores its enumerators as raw numbers, and the loader casts
whatever number it finds back to the enumeration.  Each type below therefore has
a constructor for every named enumerator, in the source's order, and one more,
`unlisted`, for the codes no enumerator names: a cast never fails, and the code
of a cast is the number it was cast from.
-/

namespace Vknn

/-- Operator types, in the order of their append-only codes. -/
inductive OpType where
  | unknown | conv | convTranspose | clip | relu | add | globalAvgPool | avgPool | maxPool | gemm
  | matMul | einsum | reshape | expand | tile | squeeze | flatten | softmax | layerNorm
  | batchNorm | concat | pad | identity | constant | shape | gather | unsqueeze | unary | binary
  | pRelu | resize | gridSample | transpose | slice | reduce | depthToSpace | cast | split
  | «where» | equal | greater | greaterEqual | constantOfShape | eyeLike | scatterND | fusedSE
  | fusedDwPw | fusedPointwise | convertLayout | convertDtype | range | convGemm | less
  | lessEqual | dropout | topK | instanceNorm | quantizeLinear | dequantizeLinear
  | dynamicQuantizeLinear | qLinearConv | qLinearMatMul | qLinearAdd | qLinearGlobalAveragePool
  | matMulInteger | convInteger | qGemm | isNaN | and | rmsNorm | simplifiedLayerNorm
  | skipSimplifiedLayerNorm | skipLayerNorm | rotaryEmbedding | multiHeadAttention
  | groupQueryAttention | matMulNBits | rope | fusedAttention | channelShuffle | det | or | xor
  | not | argMax | argMin | mod | bitShift | bitwiseAnd | bitwiseOr | bitwiseXor | bitwiseNot
  | mean
  | unlisted (excess : Nat)
deriving DecidableEq, Repr

namespace OpType

def namedCount : Nat := 93

/-- The number an operator type is stored as. -/
def code : OpType → Nat
  | unlisted excess => namedCount + excess
  | t => t.ctorIdx

/-- The named operators in code order. -/
def named : List OpType := [
  unknown, conv, convTranspose, clip, relu, add, globalAvgPool, avgPool, maxPool, gemm, matMul,
  einsum, reshape, expand, tile, squeeze, flatten, softmax, layerNorm, batchNorm, concat, pad,
  identity, constant, shape, gather, unsqueeze, unary, binary, pRelu, resize, gridSample,
  transpose, slice, reduce, depthToSpace, cast, split, «where», equal, greater, greaterEqual,
  constantOfShape, eyeLike, scatterND, fusedSE, fusedDwPw, fusedPointwise, convertLayout,
  convertDtype, range, convGemm, less, lessEqual, dropout, topK, instanceNorm, quantizeLinear,
  dequantizeLinear, dynamicQuantizeLinear, qLinearConv, qLinearMatMul, qLinearAdd,
  qLinearGlobalAveragePool, matMulInteger, convInteger, qGemm, isNaN, and, rmsNorm,
  simplifiedLayerNorm, skipSimplifiedLayerNorm, skipLayerNorm, rotaryEmbedding,
  multiHeadAttention, groupQueryAttention, matMulNBits, rope, fusedAttention, channelShuffle,
  det, or, xor, not, argMax, argMin, mod, bitShift, bitwiseAnd, bitwiseOr, bitwiseXor,
  bitwiseNot, mean]

/-- The operator type a stored number is cast to. -/
def ofCode (n : Nat) : OpType := named.getD n (unlisted (n - namedCount))

theorem ofCode_code (t : OpType) : ofCode t.code = t := by
  cases t with
  | unlisted excess =>
    have beyond : named.length ≤ namedCount + excess := by simp [named, namedCount]
    simp only [code, ofCode, List.getD_eq_getElem?_getD, List.getElem?_eq_none beyond,
      Option.getD_none, Nat.add_sub_cancel_left]
  | _ => rfl

end OpType

/-- Element types of a tensor. -/
inductive DType where
  | float32 | float16 | int32 | int8 | uint8 | int64
  | unlisted (excess : Nat)
deriving DecidableEq, Repr

namespace DType

def code : DType → Nat
  | float32 => 0
  | float16 => 1
  | int32 => 2
  | int8 => 3
  | uint8 => 4
  | int64 => 5
  | unlisted excess => 6 + excess

def ofCode : Nat → DType
  | 0 => float32
  | 1 => float16
  | 2 => int32
  | 3 => int8
  | 4 => uint8
  | 5 => int64
  | excess + 6 => unlisted excess

@[simp] theorem ofCode_code (t : DType) : ofCode t.code = t := by
  cases t <;> simp [code, ofCode, Nat.add_comm 6]

/-- Size in bytes of one element, and 0 for an unrecognised type. -/
def dtypeSize : DType → Nat
  | float32 => 4
  | float16 => 2
  | int32 => 4
  | int8 => 1
  | uint8 => 1
  | int64 => 8
  | unlisted _ => 0

end DType

/-- Physical layouts at an input or output boundary.  The two runs of unnamed codes lie
between `auto` and `unknown` and above `unknown`. -/
inductive TensorFormat where
  | nchw | nhwc | nc4hw4 | auto | unknown
  | unlisted (code : Nat) (unnamed : 3 < code ∧ code ≠ 255)
deriving DecidableEq, Repr

namespace TensorFormat

def code : TensorFormat → Nat
  | nchw => 0
  | nhwc => 1
  | nc4hw4 => 2
  | auto => 3
  | unknown => 255
  | unlisted code _ => code

def ofCode (n : Nat) : TensorFormat :=
  if unnamed : 3 < n ∧ n ≠ 255 then unlisted n unnamed
  else if n = 0 then nchw
  else if n = 1 then nhwc
  else if n = 2 then nc4hw4
  else if n = 3 then auto
  else unknown

@[simp] theorem ofCode_code (t : TensorFormat) : ofCode t.code = t := by
  cases t with
  | unlisted code unnamed => simp [TensorFormat.code, ofCode, unnamed]
  | _ => rfl

end TensorFormat

/-- Fused-activation codes. -/
inductive ActType where
  | none | relu | relu6 | clip | hardSwish | siLU
  | unlisted (excess : Nat)
deriving DecidableEq, Repr

namespace ActType

def code : ActType → Nat
  | none => 0
  | relu => 1
  | relu6 => 2
  | clip => 3
  | hardSwish => 4
  | siLU => 5
  | unlisted excess => 6 + excess

def ofCode : Nat → ActType
  | 0 => none
  | 1 => relu
  | 2 => relu6
  | 3 => clip
  | 4 => hardSwish
  | 5 => siLU
  | excess + 6 => unlisted excess

@[simp] theorem ofCode_code (t : ActType) : ofCode t.code = t := by
  cases t <;> simp [code, ofCode, Nat.add_comm 6]

end ActType

/-- The discriminant of an attribute value. -/
inductive AttrKind where
  | none | int | float | ints | floats | string
  | unlisted (excess : Nat)
deriving DecidableEq, Repr

namespace AttrKind

def code : AttrKind → Nat
  | none => 0
  | int => 1
  | float => 2
  | ints => 3
  | floats => 4
  | string => 5
  | unlisted excess => 6 + excess

def ofCode : Nat → AttrKind
  | 0 => none
  | 1 => int
  | 2 => float
  | 3 => ints
  | 4 => floats
  | 5 => string
  | excess + 6 => unlisted excess

@[simp] theorem ofCode_code (t : AttrKind) : ofCode t.code = t := by
  cases t <;> simp [code, ofCode, Nat.add_comm 6]

end AttrKind

end Vknn
