import Vknn.Ir.Shape
import Vknn.Lib.CellWrites

/-!
# The geometry of a dense matrix product

What the kernels of a batched product decode from the shapes of its operands and
of its output: the extents of a matrix, the physical width of a row of each
operand, and a stride of each operand for every output axis.  Extents and strides
are 64-bit while they are derived and 32-bit where a kernel reads them.

Beside it stands the rule by which a product takes the kernel with four-wide
loads, and the question the planner asks before it widens the rows of an operand
for that kernel.
-/

namespace Vknn.MatMulTile

/-! ## Four-wide rows -/

def kTiledMatMulMin : Int := 32
def kVec4Align : Int := 4

/-- `n` rounded up to a multiple of four. -/
def roundUpVec4 (n : Int) : Int :=
  wrap64 ((wrap64 (n + kVec4Align - 1)).tdiv kVec4Align * kVec4Align)

/-- The verdict of the rule, and the physical row widths the kernel reads with. -/
structure MatMulVec4Route where
  eligible : Bool := false
  padB : Bool := false
  aKp : Int := 0
  bNp : Int := 0
deriving DecidableEq, Repr

def allAligned (strides : List Int) : Bool := strides.all fun stride => stride % kVec4Align = 0

def matmulVec4Route (useFp16 : Bool) (N K : Int) (aBatchStride bBatchStride : List Int)
    (bIsInitializer bPayloadResident : Bool) (aRowStride bRowStride : Int) : MatMulVec4Route :=
  let aKp := if 0 < aRowStride then aRowStride else K
  let bNp := if 0 < bRowStride then bRowStride else N
  let route : MatMulVec4Route := { aKp, bNp }
  if !useFp16 ∨ N ≤ 0 ∨ K ≤ 0 ∨ aKp < K ∨ bNp < N ∨ aKp % kVec4Align ≠ 0 ∨
      !allAligned aBatchStride then route
  else if bNp % kVec4Align = 0 then { route with eligible := allAligned bBatchStride }
  else if !bIsInitializer ∨ !bPayloadResident then route
  else if bBatchStride.any fun stride => stride ≠ 0 then route
  else { route with eligible := true, padB := true, bNp := roundUpVec4 N }

/-! ## The geometry -/

structure MatMulFlatGeom where
  aWas1D : Bool
  bWas1D : Bool
  M : Int
  N : Int
  K : Int
  aRow : Int
  bRow : Int
  rank : Nat
  batchRank : Nat
  outDim : List Int
  aStride : List Int
  bStride : List Int
deriving DecidableEq, Repr

/-- A batch dimension of an operand, with leading ones up to the batch rank of the output. -/
def batchDim (s : Shape) (batchRank i : Nat) : Int :=
  let off : Int := batchRank - ((s.length : Int) - 2)
  if (i : Int) < off then 1 else s.getD ((i : Int) - off).toNat 0

/-- The strides of the batch axes below `n`, derived from the last one on: `acc` is what one step
along axis `n - 1` moves by, and an axis of one position does not move. -/
def batchStrides (dim : Nat → Int) : Nat → Int → List Int
  | 0, _ => []
  | n + 1, acc =>
    batchStrides dim n (wrap64 (acc * dim n)) ++ [wrap32 (if dim n = 1 then 0 else acc)]

/-- The stride of a matrix axis, where the output has the axis. -/
def setAxis (axis value : Int) (strides : List Int) : List Int :=
  if 0 ≤ axis then strides.set axis.toNat value else strides

/-- The output axis of the rows and that of the columns, negative where promotion dropped it. -/
def rowAxis (aWas1D bWas1D : Bool) (rank : Nat) : Int :=
  if aWas1D then -1 else if bWas1D then rank - 1 else rank - 2

def columnAxis (bWas1D : Bool) (rank : Nat) : Int := if bWas1D then -1 else rank - 1

/-- The number of axes before the first matrix axis. -/
def firstMatrixAxis (rank : Nat) (mAxis nAxis : Int) : Nat :=
  let first : Int := rank
  let first := if 0 ≤ mAxis then min first mAxis else first
  let first := if 0 ≤ nAxis then min first nAxis else first
  first.toNat

def matmulFlatGeom (sa sb out : Shape) (aRowStride bRowStride : Int) : MatMulFlatGeom :=
  let aWas1D : Bool := sa.length = 1
  let bWas1D : Bool := sb.length = 1
  let sa := if aWas1D then 1 :: sa else sa
  let sb := if bWas1D then sb ++ [1] else sb
  let M := sa.getD (sa.length - 2) 0
  let K := sa.getD (sa.length - 1) 0
  let N := sb.getD (sb.length - 1) 0
  let aRow := if 0 < aRowStride then aRowStride else K
  let bRow := if 0 < bRowStride then bRowStride else N
  let rank := out.length
  let mAxis := rowAxis aWas1D bWas1D rank
  let nAxis := columnAxis bWas1D rank
  let batchRank := firstMatrixAxis rank mAxis nAxis
  let aStride := batchStrides (batchDim sa batchRank) batchRank (wrap64 (M * aRow)) ++
    List.replicate (rank - batchRank) 0
  let bStride := batchStrides (batchDim sb batchRank) batchRank (wrap64 (K * bRow)) ++
    List.replicate (rank - batchRank) 0
  { aWas1D, bWas1D, M, N, K, aRow, bRow, rank, batchRank
    outDim := out.map wrap32
    aStride := setAxis nAxis 0 (setAxis mAxis (wrap32 aRow) aStride)
    bStride := setAxis nAxis 1 (setAxis mAxis 0 bStride) }

/-! ## Widening an operand -/

inductive MatMulOperand where
  | A | B
deriving DecidableEq, Repr

/-- The rule on a geometry whose second operand is no constant. -/
def planRoute (useFp16 : Bool) (geometry : MatMulFlatGeom) : MatMulVec4Route :=
  matmulVec4Route useFp16 geometry.N geometry.K (geometry.aStride.take geometry.batchRank)
    (geometry.bStride.take geometry.batchRank) false false geometry.aRow geometry.bRow

def MatMulOperand.rowExtent (geometry : MatMulFlatGeom) : MatMulOperand → Int
  | .A => geometry.K
  | .B => geometry.N

/-- The geometry with the rows of one operand widened. -/
def MatMulOperand.widened (sa sb out : Shape) (padded : Int) : MatMulOperand → MatMulFlatGeom
  | .A => matmulFlatGeom sa sb out padded 0
  | .B => matmulFlatGeom sa sb out 0 padded

/-- Whether wider rows of one operand make the rule hold that did not, and how wide. -/
def matmulVec4PadUnlocks (useFp16 : Bool) (which : MatMulOperand) (sa sb out : Shape) :
    Bool × Int :=
  if !useFp16 ∨ sa.length < 2 ∨ sb.length < 2 ∨ out.length < 2 then (false, 0)
  else
    let packed := matmulFlatGeom sa sb out 0 0
    if packed.aWas1D ∨ packed.bWas1D ∨ packed.M < kTiledMatMulMin ∨ packed.N < kTiledMatMulMin ∨
        packed.K < kTiledMatMulMin then (false, 0)
    else
      let logical := which.rowExtent packed
      if logical ≤ 0 ∨ logical % kVec4Align = 0 then (false, 0)
      else
        let padded := roundUpVec4 logical
        if (planRoute useFp16 packed).eligible then (false, 0)
        else if !(planRoute useFp16 (which.widened sa sb out padded)).eligible then (false, 0)
        else (true, padded)

/-- Rows of `n` elements copied into rows of `np` elements. -/
def padMatMulRowsVec4 {α : Type} (zero : α) (src : List α) (rows n np : Nat) : List α :=
  (List.range rows).foldl (fun padded row =>
    (List.range n).foldl (fun padded i =>
      padded.set (row * np + i) (src.getD (row * n + i) zero)) padded)
    (List.replicate (rows * np) zero)

end Vknn.MatMulTile
