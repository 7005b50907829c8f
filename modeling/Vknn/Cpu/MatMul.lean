import Vknn.Cpu.Reshape

/-!
# Matrix multiplication

A product of stacks of matrices runs row by row: each element of a row adds up the
products along the reduction axis, in ascending order.  Where the operands are read is
a matter of strides alone.  The dense run derives the strides from the operand shapes; a
node that carries a view has them in its attributes.
-/

namespace Vknn.Cpu

open List RowMajor

variable {α : Type}

/-! ## Attributes of a view -/

def kMmView : Str := str "mmview"
def kMmViewDims : Str := str "mmview_dims"
def kMmViewAStride : Str := str "mmview_astride"
def kMmViewBStride : Str := str "mmview_bstride"
def kMmViewAK : Str := str "mmview_ak"
def kMmViewBK : Str := str "mmview_bk"
def kMmViewM : Str := str "mmview_m"
def kMmViewN : Str := str "mmview_n"
def kMmViewK : Str := str "mmview_k"
def kMmViewVersion : Int := 1

/-! ## Rows -/

/-- The arithmetic of the elements. -/
structure Arith (α : Type) where
  zero : α
  mul : α → α → α
  add : α → α → α

/-- One output row, from two matrices with a stride for each step along `K` and `N`. -/
def matmulRow (ar : Arith α) (am bm : Int → α) (bias : Option (Int → α)) (N K aK bK bN : Int) :
    List α :=
  (List.range N.toNat).map fun (n : Nat) =>
    let acc := (List.range K.toNat).foldl
      (fun acc (k : Nat) => ar.add acc (ar.mul (am (k * aK)) (bm (k * bK + n * bN)))) ar.zero
    match bias with
    | some b => ar.add acc (b n)
    | none => acc

/-- Where the operands of a product are read: the batch axes with a stride of each operand, the
extents of a matrix, and the strides of its axes. -/
structure Geometry where
  batch : List Int
  aStride : List Int
  bStride : List Int
  M : Int
  N : Int
  K : Int
  aM : Int
  aK : Int
  bK : Int
  bN : Int
deriving DecidableEq

def Geometry.rows (geo : Geometry) : Int := size geo.batch * geo.M

/-- Where a row of the first operand begins. -/
def Geometry.aBase (geo : Geometry) (row : Int) : Int :=
  row % geo.M * geo.aM + (unwind (geo.batch.zip geo.aStride) (row / geo.M)).2

/-- Where a matrix of the second operand begins. -/
def Geometry.bBase (geo : Geometry) (row : Int) : Int :=
  (unwind (geo.batch.zip geo.bStride) (row / geo.M)).2

/-- The rows of a product, one after the other. -/
def matmulRows (ar : Arith α) (geo : Geometry) (A B : List α) (bias : Option (List α)) : List α :=
  (List.range geo.rows.toNat).flatMap fun (row : Nat) =>
    matmulRow ar (fun i => readAt ar.zero A (geo.aBase row + i))
      (fun i => readAt ar.zero B (geo.bBase row + i)) (bias.map fun b n => readAt ar.zero b n)
      geo.N geo.K geo.aK geo.bK geo.bN

/-! ## The dense run -/

/-- The step between matrices along each batch axis; a repeated axis does not move. -/
def batchStrides (matrix : Int) : List Int → List Int
  | [] => []
  | d :: ds => (if d = 1 then 0 else matrix * size ds) :: batchStrides matrix ds

/-- A vector operand is a matrix of one row, or of one column. -/
def promoteA (sa : Shape) : Shape := if sa.length = 1 then 1 :: sa else sa

def promoteB (sb : Shape) : Shape := if sb.length = 1 then sb ++ [1] else sb

def dimFromEnd (s : Shape) (i : Nat) : Int := s.getD (s.length - i) 0

/-- The batch axes of a shape, with leading ones up to a rank. -/
def batchDims (rank : Nat) (s : Shape) : List Int := padLeft rank (s.take (s.length - 2))

def denseGeometry (sa sb : Shape) : Geometry :=
  let sa := promoteA sa
  let sb := promoteB sb
  let M := dimFromEnd sa 2
  let K := dimFromEnd sa 1
  let N := dimFromEnd sb 1
  let batchRank := max (sa.length - 2) (sb.length - 2)
  let aDims := batchDims batchRank sa
  let bDims := batchDims batchRank sb
  { batch := aDims.zipWith max bDims
    aStride := batchStrides (M * K) aDims
    bStride := batchStrides (K * N) bDims
    M, N, K, aM := K, aK := 1, bK := N, bN := 1 }

/-- The output shape, without the dimensions that promotion put in. -/
def matmulShape (sa sb : Shape) : Shape :=
  let geo := denseGeometry sa sb
  let out := geo.batch ++ (if sa.length = 1 then [] else [geo.M]) ++ [geo.N]
  let out := if sb.length = 1 then out.dropLast else out
  if out.isEmpty then [1] else out

/-! ## The run of a view -/

def viewGeometry (nd : Node) : Geometry :=
  let dims := nd.attr.getints kMmViewDims
  let aStride := nd.attr.getints kMmViewAStride
  let bStride := nd.attr.getints kMmViewBStride
  let batchRank := dims.length - 2
  { batch := dims.take batchRank
    aStride := aStride.take batchRank
    bStride := bStride.take batchRank
    M := nd.attr.geti kMmViewM 0
    N := nd.attr.geti kMmViewN 0
    K := nd.attr.geti kMmViewK 0
    aM := aStride.getD batchRank 0
    aK := nd.attr.geti kMmViewAK 0
    bK := nd.attr.geti kMmViewBK 0
    bN := bStride.getD (batchRank + 1) 0 }

/-! ## Reading the same elements -/

/-- Two ways of reading operands for the same output: every element of every row finds the same
elements along the reduction axis. -/
structure Geometry.SameReads (geo geo' : Geometry) (inA inB : Int → Int) : Prop where
  rows : geo'.rows = geo.rows
  N : geo'.N = geo.N
  K : geo'.K = geo.K
  a : ∀ row k, 0 ≤ row → row < geo.rows → 0 ≤ k → k < geo.K →
    geo'.aBase row + k * geo'.aK = inA (geo.aBase row + k * geo.aK)
  b : ∀ row n k, 0 ≤ row → row < geo.rows → 0 ≤ n → n < geo.N → 0 ≤ k → k < geo.K →
    geo'.bBase row + (k * geo'.bK + n * geo'.bN) = inB (geo.bBase row + (k * geo.bK + n * geo.bN))

/-- The positions a product reads are inside its operands. -/
structure Geometry.Within (geo : Geometry) (sizeA sizeB : Int) : Prop where
  a : ∀ row k, 0 ≤ row → row < geo.rows → 0 ≤ k → k < geo.K →
    0 ≤ geo.aBase row + k * geo.aK ∧ geo.aBase row + k * geo.aK < sizeA
  b : ∀ row n k, 0 ≤ row → row < geo.rows → 0 ≤ n → n < geo.N → 0 ≤ k → k < geo.K →
    0 ≤ geo.bBase row + (k * geo.bK + n * geo.bN) ∧
      geo.bBase row + (k * geo.bK + n * geo.bN) < sizeB

/-- **Products that read the same elements are the same.** -/
theorem matmulRows_congr (ar : Arith α) {geo geo' : Geometry} {inA inB : Int → Int}
    {A B A' B' : List α} {sizeA sizeB : Int} (reads : geo.SameReads geo' inA inB)
    (within : geo.Within sizeA sizeB)
    (holdsA : ∀ i, 0 ≤ i → i < sizeA → readAt ar.zero A' (inA i) = readAt ar.zero A i)
    (holdsB : ∀ i, 0 ≤ i → i < sizeB → readAt ar.zero B' (inB i) = readAt ar.zero B i)
    (bias : Option (List α)) : matmulRows ar geo' A' B' bias = matmulRows ar geo A B bias := by
  unfold matmulRows
  rw [reads.rows]
  refine flatMap_congr fun row rowIn => ?_
  have rowLow : (0 : Int) ≤ row := Int.natCast_nonneg row
  have rowHigh : (row : Int) < geo.rows := by
    have small := mem_range.mp rowIn
    omega
  unfold matmulRow
  rw [reads.N, reads.K]
  refine map_congr_left fun n nIn => ?_
  have nHigh : (n : Int) < geo.N := by
    have small := mem_range.mp nIn
    omega
  have sums : (List.range geo.K.toNat).foldl (fun acc (k : Nat) => ar.add acc
        (ar.mul (readAt ar.zero A' (geo'.aBase row + k * geo'.aK))
          (readAt ar.zero B' (geo'.bBase row + (k * geo'.bK + n * geo'.bN))))) ar.zero =
      (List.range geo.K.toNat).foldl (fun acc (k : Nat) => ar.add acc
        (ar.mul (readAt ar.zero A (geo.aBase row + k * geo.aK))
          (readAt ar.zero B (geo.bBase row + (k * geo.bK + n * geo.bN))))) ar.zero := by
    refine foldl_ext _ _ _ fun acc k kIn => ?_
    have kHigh : (k : Int) < geo.K := by
      have small := mem_range.mp kIn
      omega
    have kLow := Int.natCast_nonneg k
    have nLow := Int.natCast_nonneg n
    have insideA := within.a row k rowLow rowHigh kLow kHigh
    have insideB := within.b row n k rowLow rowHigh nLow nHigh kLow kHigh
    rw [reads.a row k rowLow rowHigh kLow kHigh, holdsA _ insideA.1 insideA.2,
      reads.b row n k rowLow rowHigh nLow nHigh kLow kHigh, holdsB _ insideB.1 insideB.2]
  dsimp only at sums ⊢
  rw [sums]

end Vknn.Cpu
