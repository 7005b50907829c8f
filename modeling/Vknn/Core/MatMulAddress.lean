import Vknn.Core.MatMulTile
import Vknn.Import.MatMulViewReads

/-!
# What a dense product addresses

The definition of a matrix product names, for each element of the output and each
step along the reduction, one element of either operand.  A vector operand is a
matrix of one row, or of one column, and leaves no axis in the output.  Batch axes
are matched from the last one on, and an axis of one position is read at that
position throughout.

The geometry of the kernels comes to the same elements by one stride for each
output axis.  The strides are derived in 64 bits and kept in 32, which is where
the two can part.
-/

namespace Vknn.MatMulTile

open List RowMajor

open Import (pin Broadcasts)
open RowMajor (Inside dot flat size)

/-! ## The definition -/

section Definition

variable (sa sb : Shape) (br : Nat)

def rowExtent : Int := Cpu.dimFromEnd (Cpu.promoteA sa) 2
def innerExtent : Int := Cpu.dimFromEnd (Cpu.promoteA sa) 1
def columnExtent : Int := Cpu.dimFromEnd (Cpu.promoteB sb) 1

/-- The batch dimensions of an operand, with leading ones up to the rank of the output's. -/
def aBatch : List Int := Cpu.batchDims br (Cpu.promoteA sa)
def bBatch : List Int := Cpu.batchDims br (Cpu.promoteB sb)

/-- Shapes a product is defined for, with the number of batch axes its output has. -/
structure Accepts : Prop where
  rankA : 1 ≤ sa.length
  rankB : 1 ≤ sb.length
  roomA : (Cpu.promoteA sa).length ≤ br + 2
  roomB : (Cpu.promoteB sb).length ≤ br + 2
  nonnegA : ∀ d ∈ sa, 0 ≤ d
  nonnegB : ∀ d ∈ sb, 0 ≤ d
  inner : innerExtent sa = Cpu.dimFromEnd (Cpu.promoteB sb) 2
  batch : List.Forall₂ Broadcasts (aBatch sa br) (bBatch sb br)

def together (d e : Int) : Int := if d = 1 then e else d

/-- The matrix axes of the output, each there if its operand is a matrix. -/
def matrixAxes (row column : Int) : List Int :=
  (if sa.length = 1 then [] else [row]) ++ (if sb.length = 1 then [] else [column])

def productShape : Shape :=
  (aBatch sa br).zipWith together (bBatch sb br) ++
    matrixAxes sa sb (rowExtent sa) (columnExtent sb)

/-- The row and the column of an output element. -/
def rowOf (c : List Int) : Int := if sa.length = 1 then 0 else c.getD br 0
def columnOf (c : List Int) : Int := if sb.length = 1 then 0 else c.getD (c.length - 1) 0

/-- The element of the first operand an output element takes at a step, in memory whose rows are
`aRow` wide. -/
def aElement (aRow : Int) (c : List Int) (k : Int) : Int :=
  flat (aBatch sa br ++ [rowExtent sa, aRow])
    ((aBatch sa br).zipWith pin (c.take br) ++ [rowOf sa br c, k])

/-- The element of the second operand. -/
def bElement (bRow : Int) (c : List Int) (k : Int) : Int :=
  flat (bBatch sb br ++ [innerExtent sa, bRow])
    ((bBatch sb br).zipWith pin (c.take br) ++ [k, columnOf sb c])

/-- The strides that come to these elements. -/
def aStrides (aRow : Int) : List Int :=
  Cpu.batchStrides (rowExtent sa * aRow) (aBatch sa br) ++ matrixAxes sa sb aRow 0

def bStrides (bRow : Int) : List Int :=
  Cpu.batchStrides (innerExtent sa * bRow) (bBatch sb br) ++ matrixAxes sa sb 0 1

end Definition

/-! ## The derived strides -/

theorem wrap64_wrap64_mul (n d : Int) : wrap64 (wrap64 n * d) = wrap64 (n * d) := by
  rw [wrap64, wrap64, wrap64, Int.bmod_mul_bmod]

theorem wrap32_wrap64 (n : Int) : wrap32 (wrap64 n) = wrap32 n := by
  rw [wrap32, wrap64, wrap32]
  exact Int.bmod_bmod_of_dvd (by decide)

theorem batchStrides_concat (matrix : Int) (ds : List Int) (d : Int) :
    Cpu.batchStrides matrix (ds ++ [d]) =
      Cpu.batchStrides (matrix * d) ds ++ [if d = 1 then 0 else matrix] := by
  induction ds with
  | nil => simp [Cpu.batchStrides, size]
  | cons e ds ih =>
    have steps : matrix * size (ds ++ [d]) = matrix * d * size ds := by
      rw [size_append, size, size]
      ring
    rw [cons_append, Cpu.batchStrides, ih, steps, Cpu.batchStrides, cons_append]

/-- The loop over the batch axes derives the batch strides, as 32 bits hold them. -/
theorem batchStrides_eq {dim : Nat → Int} {ds : List Int} (acc : Int)
    (same : ∀ i < ds.length, dim i = ds.getD i 0) :
    batchStrides dim ds.length (wrap64 acc) = (Cpu.batchStrides acc ds).map wrap32 := by
  induction ds using List.reverseRecOn generalizing acc with
  | nil => rfl
  | append_singleton ds d ih =>
    have last : dim ds.length = d := by
      rw [same ds.length (by simp), getD_eq_getElem?_getD, getElem?_concat_length, Option.getD_some]
    have earlier : ∀ i < ds.length, dim i = ds.getD i 0 := by
      intro i inside
      rw [same i (by simp; omega), getD_eq_getElem?_getD, getElem?_append_left inside,
        ← getD_eq_getElem?_getD]
    rw [length_append, length_singleton, batchStrides, last, wrap64_wrap64_mul,
      ih (acc * d) earlier, batchStrides_concat, map_append, map_singleton]
    split
    · rfl
    · rw [wrap32_wrap64]

/-- The dimension the loop reads for an axis is the padded one. -/
theorem batchDim_eq {s : Shape} {br i : Nat} (two : 2 ≤ s.length) (room : s.length ≤ br + 2)
    (inside : i < br) : batchDim s br i = (Cpu.batchDims br s).getD i 0 := by
  have count : br - (s.take (s.length - 2)).length = br + 2 - s.length := by
    rw [length_take]
    omega
  rw [batchDim, Cpu.batchDims, Cpu.padLeft, count]
  simp only [getD_eq_getElem?_getD]
  split
  · rw [getElem?_append_left (by rw [length_replicate]; omega), getElem?_replicate,
      if_pos (by omega), Option.getD_some]
  · have shifted : ((i : Int) - ((br : Int) - ((s.length : Int) - 2))).toNat =
        i - (br + 2 - s.length) := by omega
    rw [getElem?_append_right (by rw [length_replicate]; omega), length_replicate,
      getElem?_take, if_pos (by omega), shifted]

theorem setAxis_append (xs : List Int) (y value : Int) (ys : List Int) :
    setAxis xs.length value (xs ++ y :: ys) = xs ++ value :: ys := by
  rw [setAxis, if_pos (Int.natCast_nonneg _), Int.toNat_natCast, set_append_right _ _ le_rfl,
    Nat.sub_self, set_cons_zero]

/-- Behind the batch axes stand the matrix axes the output has. -/
theorem setAxes_eq (sa sb : Shape) (xs : List Int) (e f m n : Int) :
    setAxis (columnAxis (sb.length = 1) (xs.length + (matrixAxes sa sb e f).length)) n
        (setAxis (rowAxis (sa.length = 1) (sb.length = 1)
            (xs.length + (matrixAxes sa sb e f).length)) m
          (xs ++ List.replicate (xs.length + (matrixAxes sa sb e f).length - xs.length) 0)) =
      xs ++ matrixAxes sa sb m n := by
  have skip : ∀ (value : Int) (strides : List Int), setAxis (-1) value strides = strides :=
    fun _ _ => rfl
  rw [Nat.add_sub_cancel_left]
  by_cases aVector : sa.length = 1
  · by_cases bVector : sb.length = 1
    · simp [matrixAxes, rowAxis, columnAxis, aVector, bVector, skip]
    · simp [matrixAxes, rowAxis, columnAxis, aVector, bVector, skip, setAxis_append]
  · by_cases bVector : sb.length = 1
    · simp [matrixAxes, rowAxis, columnAxis, aVector, bVector, skip, setAxis_append]
    · have rows : ((xs.length + 2 : Nat) : Int) - 2 = xs.length := by omega
      have columns : ((xs.length + 2 : Nat) : Int) - 1 = (xs ++ [m]).length := by simp; omega
      have apart : xs ++ [m, 0] = (xs ++ [m]) ++ 0 :: [] := by simp
      simp only [matrixAxes, rowAxis, columnAxis, aVector, bVector, decide_false, if_false,
        Bool.false_eq_true, singleton_append, length_cons, length_nil]
      rw [rows, columns, replicate_succ, setAxis_append, replicate_one, apart,
        setAxis_append, append_assoc]
      rfl

section Geometry

variable {sa sb : Shape} {br : Nat}

theorem length_aBatch (accepts : Accepts sa sb br) : (aBatch sa br).length = br :=
  Import.length_batchDims accepts.roomA

theorem length_bBatch (accepts : Accepts sa sb br) : (bBatch sb br).length = br :=
  Import.length_batchDims accepts.roomB

theorem length_productShape (accepts : Accepts sa sb br) : (productShape sa sb br).length =
    br + (matrixAxes sa sb (rowExtent sa) (columnExtent sb)).length := by
  rw [productShape, length_append, length_zipWith, length_aBatch accepts,
    length_bBatch accepts, Nat.min_self]

theorem two_promoteA (accepts : Accepts sa sb br) : 2 ≤ (Cpu.promoteA sa).length := by
  have some_ := accepts.rankA
  unfold Cpu.promoteA
  split
  · rw [length_cons]
    omega
  · omega

theorem two_promoteB (accepts : Accepts sa sb br) : 2 ≤ (Cpu.promoteB sb).length := by
  have some_ := accepts.rankB
  unfold Cpu.promoteB
  split
  · rw [length_append, length_singleton]
    omega
  · omega

theorem promotedA_eq (sa : Shape) :
    (if (decide (sa.length = 1)) = true then 1 :: sa else sa) = Cpu.promoteA sa := by
  simp [Cpu.promoteA]

theorem promotedB_eq (sb : Shape) :
    (if (decide (sb.length = 1)) = true then sb ++ [1] else sb) = Cpu.promoteB sb := by
  simp [Cpu.promoteB]

/-- The physical width of the rows of an operand. -/
def rowWidth (stride extent : Int) : Int := if 0 < stride then stride else extent

theorem map_matrixAxes (f : Int → Int) (row column : Int) :
    (matrixAxes sa sb row column).map f = matrixAxes sa sb (f row) (f column) := by
  unfold matrixAxes
  split <;> split <;> rfl

/-- The axes the geometry takes for batch axes are those of the definition. -/
theorem batchRank_eq (accepts : Accepts sa sb br) : firstMatrixAxis (productShape sa sb br).length
      (rowAxis (sa.length = 1) (sb.length = 1) (productShape sa sb br).length)
      (columnAxis (sb.length = 1) (productShape sa sb br).length) = br := by
  rw [length_productShape accepts]
  unfold matrixAxes firstMatrixAxis rowAxis columnAxis
  by_cases aVector : sa.length = 1
  · by_cases bVector : sb.length = 1
    · simp [aVector, bVector]
    · simp [aVector, bVector]
  · by_cases bVector : sb.length = 1
    · simp [aVector, bVector]
    · simp only [aVector, bVector, decide_false, Bool.false_eq_true, if_false, length_append,
        length_singleton]
      omega

/-- The strides before and after the matrix axes are set. -/
theorem strides_form (accepts : Accepts sa sb br) (aRowStride bRowStride : Int) :
    (matmulFlatGeom sa sb (productShape sa sb br) aRowStride bRowStride).aStride =
        setAxis (columnAxis (sb.length = 1) (productShape sa sb br).length) 0
          (setAxis (rowAxis (sa.length = 1) (sb.length = 1) (productShape sa sb br).length)
            (wrap32 (rowWidth aRowStride (innerExtent sa)))
            (batchStrides (batchDim (Cpu.promoteA sa) br) br
                (wrap64 (rowExtent sa * rowWidth aRowStride (innerExtent sa))) ++
              List.replicate ((productShape sa sb br).length - br) 0)) ∧
      (matmulFlatGeom sa sb (productShape sa sb br) aRowStride bRowStride).bStride =
        setAxis (columnAxis (sb.length = 1) (productShape sa sb br).length) 1
          (setAxis (rowAxis (sa.length = 1) (sb.length = 1) (productShape sa sb br).length) 0
            (batchStrides (batchDim (Cpu.promoteB sb) br) br
                (wrap64 (innerExtent sa * rowWidth bRowStride (columnExtent sb))) ++
              List.replicate ((productShape sa sb br).length - br) 0)) := by
  have axes := batchRank_eq accepts
  simp only [matmulFlatGeom, promotedA_eq, promotedB_eq, axes]
  exact ⟨rfl, rfl⟩

/-- **The geometry holds the strides of the definition, as 32 bits hold them.** -/
theorem matmulFlatGeom_eq (accepts : Accepts sa sb br) (aRowStride bRowStride : Int) :
    (matmulFlatGeom sa sb (productShape sa sb br) aRowStride bRowStride).aStride =
        (aStrides sa sb br (rowWidth aRowStride (innerExtent sa))).map wrap32 ∧
      (matmulFlatGeom sa sb (productShape sa sb br) aRowStride bRowStride).bStride =
        (bStrides sa sb br (rowWidth bRowStride (columnExtent sb))).map wrap32 := by
  have aDerived : ∀ acc, batchStrides (batchDim (Cpu.promoteA sa) br) br (wrap64 acc) =
      (Cpu.batchStrides acc (aBatch sa br)).map wrap32 := by
    intro acc
    have derived := @batchStrides_eq (batchDim (Cpu.promoteA sa) br) (aBatch sa br) acc
      fun i inside => batchDim_eq (two_promoteA accepts) accepts.roomA
        (by rwa [length_aBatch accepts] at inside)
    rwa [length_aBatch accepts] at derived
  have bDerived : ∀ acc, batchStrides (batchDim (Cpu.promoteB sb) br) br (wrap64 acc) =
      (Cpu.batchStrides acc (bBatch sb br)).map wrap32 := by
    intro acc
    have derived := @batchStrides_eq (batchDim (Cpu.promoteB sb) br) (bBatch sb br) acc
      fun i inside => batchDim_eq (two_promoteB accepts) accepts.roomB
        (by rwa [length_bBatch accepts] at inside)
    rwa [length_bBatch accepts] at derived
  have aLength : ∀ matrix, ((Cpu.batchStrides matrix (aBatch sa br)).map wrap32).length = br := by
    intro matrix
    rw [length_map, Import.length_batchStrides, length_aBatch accepts]
  have bLength : ∀ matrix, ((Cpu.batchStrides matrix (bBatch sb br)).map wrap32).length = br := by
    intro matrix
    rw [length_map, Import.length_batchStrides, length_bBatch accepts]
  obtain ⟨aForm, bForm⟩ := strides_form accepts aRowStride bRowStride
  rw [aForm, bForm, aDerived, bDerived, aStrides, bStrides, length_productShape accepts,
    map_append, map_append]
  have aSet := setAxes_eq sa sb ((Cpu.batchStrides (rowExtent sa * rowWidth aRowStride
    (innerExtent sa)) (aBatch sa br)).map wrap32) (rowExtent sa) (columnExtent sb)
    (wrap32 (rowWidth aRowStride (innerExtent sa))) 0
  have bSet := setAxes_eq sa sb ((Cpu.batchStrides (innerExtent sa * rowWidth bRowStride
    (columnExtent sb)) (bBatch sb br)).map wrap32) (rowExtent sa) (columnExtent sb) 0 1
  rw [aLength] at aSet
  rw [bLength] at bSet
  rw [aSet, bSet, map_matrixAxes, map_matrixAxes]
  exact ⟨rfl, rfl⟩

theorem aRow_eq (sa sb : Shape) (out : Shape) (aRowStride bRowStride : Int) :
    (matmulFlatGeom sa sb out aRowStride bRowStride).aRow = rowWidth aRowStride (innerExtent sa) ∧
      (matmulFlatGeom sa sb out aRowStride bRowStride).bRow =
        rowWidth bRowStride (columnExtent sb) := by
  simp only [matmulFlatGeom, promotedA_eq, promotedB_eq]
  exact ⟨rfl, rfl⟩

end Geometry

/-! ## The exact strides -/

theorem dot_append {xs us : List Int} (same : xs.length = us.length) (ys vs : List Int) :
    dot (xs ++ ys) (us ++ vs) = dot xs us + dot ys vs := by
  induction xs generalizing us with
  | nil =>
    obtain rfl := length_eq_zero_iff.mp same.symm
    simp [dot]
  | cons x xs ih =>
    cases us with
    | nil => cases same
    | cons u us =>
      rw [cons_append, cons_append, dot, ih (Nat.succ.inj same), dot]
      ring

/-- The matrix axes of a coordinate list add the row to one operand and the column to the other. -/
theorem dot_matrixAxes (sa sb : Shape) {cb : List Int} {br : Nat} (batch : cb.length = br)
    {rest : List Int} {e f : Int} (same : rest.length = (matrixAxes sa sb e f).length)
    (aRow : Int) :
    dot rest (matrixAxes sa sb aRow 0) = rowOf sa br (cb ++ rest) * aRow ∧
      dot rest (matrixAxes sa sb 0 1) = columnOf sb (cb ++ rest) := by
  subst batch
  by_cases aVector : sa.length = 1
  · by_cases bVector : sb.length = 1
    · simp [matrixAxes, rowOf, columnOf, aVector, bVector, dot]
    · simp only [matrixAxes, aVector, bVector, if_true, if_false, nil_append,
        length_singleton] at same
      obtain ⟨x, rfl⟩ := length_eq_one_iff.mp same
      simp [matrixAxes, rowOf, columnOf, aVector, bVector, dot]
  · by_cases bVector : sb.length = 1
    · simp only [matrixAxes, aVector, bVector, if_true, if_false, append_nil,
        length_singleton] at same
      obtain ⟨x, rfl⟩ := length_eq_one_iff.mp same
      simp [matrixAxes, rowOf, columnOf, aVector, bVector, dot]
    · simp only [matrixAxes, aVector, bVector, if_false, singleton_append, length_cons,
        length_nil] at same
      obtain ⟨x, y, rfl⟩ := length_eq_two.mp same
      simp [matrixAxes, rowOf, columnOf, aVector, bVector, dot]

section Exact

variable {sa sb : Shape} {br : Nat}

/-- **The exact strides come to the elements of the definition.** -/
theorem dot_strides (accepts : Accepts sa sb br) {c : List Int}
    (inside : Inside c (productShape sa sb br)) (aRow bRow k : Int) :
    dot c (aStrides sa sb br aRow) + k = aElement sa br aRow c k ∧
      dot c (bStrides sa sb br bRow) + k * bRow = bElement sa sb br bRow c k := by
  have length : c.length = br + (matrixAxes sa sb (rowExtent sa) (columnExtent sb)).length := by
    rw [inside.length_eq, length_productShape accepts]
  have batch : (c.take br).length = br := by
    rw [length_take]
    omega
  have split : c = c.take br ++ c.drop br := (take_append_drop br c).symm
  have rest : (c.drop br).length = (matrixAxes sa sb (rowExtent sa) (columnExtent sb)).length := by
    rw [length_drop]
    omega
  obtain ⟨row, column⟩ := dot_matrixAxes sa sb batch rest aRow
  rw [← split] at row column
  have aBatchDot := @Import.dot_batchStrides (rowExtent sa * aRow) (aBatch sa br)
    (c.take br) (by rw [batch, length_aBatch accepts])
  have bBatchDot := @Import.dot_batchStrides (innerExtent sa * bRow) (bBatch sb br)
    (c.take br) (by rw [batch, length_bBatch accepts])
  have aPinned : ((aBatch sa br).zipWith pin (c.take br)).length = (aBatch sa br).length := by
    rw [length_zipWith, batch, length_aBatch accepts, Nat.min_self]
  have bPinned : ((bBatch sb br).zipWith pin (c.take br)).length = (bBatch sb br).length := by
    rw [length_zipWith, batch, length_bBatch accepts, Nat.min_self]
  constructor
  · rw [aElement, Import.flat_matrix aPinned, aStrides]
    conv_lhs => rw [split]
    rw [dot_append (by rw [Import.length_batchStrides, batch, length_aBatch accepts]), aBatchDot,
      row]
    ring
  · rw [bElement, Import.flat_matrix bPinned, bStrides]
    conv_lhs => rw [split]
    rw [dot_append (by rw [Import.length_batchStrides, batch, length_bBatch accepts]), bBatchDot,
      column]
    ring

end Exact

/-! ## Thirty-two bits -/

/-- The strides of the axes that have more than one position fit in 32 bits. -/
def StepsFit (out strides : List Int) : Prop :=
  ∀ axis ∈ out.zip strides, 2 ≤ axis.1 → axis.2 < 2 ^ 31

theorem wrap32_eq_iff {n : Int} (nonneg : 0 ≤ n) : wrap32 n = n ↔ n < 2 ^ 31 := by
  constructor
  · intro same
    have bounded := (fits_wrap32 n).2
    omega
  · exact fun small => wrap32_of_fits (by omega) small

theorem dot_zeros (n : Nat) (vs : List Int) : dot (List.replicate n 0) vs = 0 := by
  induction n generalizing vs with
  | zero => rfl
  | succ n ih =>
    cases vs with
    | nil => rfl
    | cons v vs => rw [replicate_succ, dot, ih, Int.zero_mul, Int.zero_add]

/-- **Strides held in 32 bits address alike exactly where those that are used fit.** -/
theorem dot_map_wrap32_iff {out vs : List Int} (same : vs.length = out.length)
    (positive : ∀ d ∈ out, 0 < d) (nonneg : ∀ v ∈ vs, 0 ≤ v) :
    (∀ c, Inside c out → dot c (vs.map wrap32) = dot c vs) ↔ StepsFit out vs := by
  induction out generalizing vs with
  | nil =>
    obtain rfl := length_eq_zero_iff.mp same
    exact ⟨fun _ => nofun, fun _ c _ => by simp [dot]⟩
  | cons d out ih =>
    cases vs with
    | nil => cases same
    | cons v vs =>
      have positives : ∀ e ∈ out, 0 < e := fun e listed => positive e (mem_cons_of_mem d listed)
      have later := ih (Nat.succ.inj same) positives
        fun w listed => nonneg w (mem_cons_of_mem v listed)
      have first := positive d mem_cons_self
      have held := wrap32_eq_iff (nonneg v mem_cons_self)
      constructor
      · intro alike
        have tail : StepsFit out vs := by
          refine later.mp fun c inside => ?_
          have here := alike (0 :: c) (.cons ⟨le_rfl, first⟩ inside)
          rwa [map_cons, dot, dot, Int.zero_mul, Int.zero_mul, Int.zero_add,
            Int.zero_add] at here
        intro axis listed
        rw [zip_cons_cons, mem_cons] at listed
        rcases listed with rfl | listed
        · intro two
          have two : 2 ≤ d := two
          -- one step along this axis alone
          have here := alike (1 :: List.replicate out.length 0)
            (.cons ⟨by omega, by omega⟩ (inside_zeros positives))
          rw [map_cons, dot, dot, dot_zeros, dot_zeros, Int.one_mul, Int.one_mul,
            Int.add_zero, Int.add_zero] at here
          exact held.mp here
        · exact tail axis listed
      · intro fit c inside
        cases inside with
        | @cons x _ c _ here rest =>
          have tail := later.mpr
            (fun axis listed => fit axis (mem_cons_of_mem _ listed)) c rest
          rw [map_cons, dot, dot, tail]
          by_cases two : 2 ≤ d
          · rw [held.mpr (fit (d, v) mem_cons_self two)]
          · have start : x = 0 := by omega
            rw [start, Int.zero_mul, Int.zero_mul]

/-! ## The exact condition -/

section Condition

variable (sa sb : Shape) (br : Nat) (aRowStride bRowStride : Int)

/-- The geometry names the operand elements of the definition: its extents are those of the output,
and for each output element and each step along the reduction its offsets come to the elements that
are multiplied. -/
def Addresses : Prop :=
  ∀ c, Inside c (productShape sa sb br) →
    (matmulFlatGeom sa sb (productShape sa sb br) aRowStride bRowStride).outDim =
        productShape sa sb br ∧
      ∀ k, 0 ≤ k → k < innerExtent sa →
        dot c (matmulFlatGeom sa sb (productShape sa sb br) aRowStride bRowStride).aStride + k =
            aElement sa br (rowWidth aRowStride (innerExtent sa)) c k ∧
          dot c (matmulFlatGeom sa sb (productShape sa sb br) aRowStride bRowStride).bStride +
              k * (matmulFlatGeom sa sb (productShape sa sb br) aRowStride bRowStride).bRow =
            bElement sa sb br (rowWidth bRowStride (columnExtent sb)) c k

/-- Where the output has elements its extents fit in 32 bits, and where they are sums of anything
the strides along axes of more than one position do. -/
def FitsGeometry : Prop :=
  (∀ d ∈ productShape sa sb br, 0 < d) → (∀ d ∈ productShape sa sb br, d < 2 ^ 31) ∧
      (0 < innerExtent sa → StepsFit (productShape sa sb br)
          (aStrides sa sb br (rowWidth aRowStride (innerExtent sa))) ∧
        StepsFit (productShape sa sb br)
          (bStrides sa sb br (rowWidth bRowStride (columnExtent sb))))

end Condition

section Settled

variable {sa sb : Shape} {br : Nat}

theorem map_wrap32_eq_iff {out : List Int} (nonneg : ∀ d ∈ out, 0 ≤ d) :
    out.map wrap32 = out ↔ ∀ d ∈ out, d < 2 ^ 31 := by
  rw [← map_id out, map_map]
  refine map_inj_left.trans ?_
  simp only [map_id, Function.comp_apply, id_eq]
  exact forall₂_congr fun d listed => wrap32_eq_iff (nonneg d listed)

theorem nonneg_promoteA (accepts : Accepts sa sb br) : ∀ d ∈ Cpu.promoteA sa, 0 ≤ d := by
  intro d listed
  unfold Cpu.promoteA at listed
  split at listed
  · rcases mem_cons.mp listed with rfl | listed
    · omega
    · exact accepts.nonnegA d listed
  · exact accepts.nonnegA d listed

theorem nonneg_promoteB (accepts : Accepts sa sb br) : ∀ d ∈ Cpu.promoteB sb, 0 ≤ d := by
  intro d listed
  unfold Cpu.promoteB at listed
  split at listed
  · rcases mem_append.mp listed with listed | listed
    · exact accepts.nonnegB d listed
    · rw [mem_singleton] at listed
      omega
  · exact accepts.nonnegB d listed

theorem nonneg_dimFromEnd {s : Shape} (nonneg : ∀ d ∈ s, 0 ≤ d) (n : Nat) :
    0 ≤ Cpu.dimFromEnd s n := by
  unfold Cpu.dimFromEnd
  rw [getD_eq_getElem?_getD]
  cases found : s[s.length - n]? with
  | none => simp
  | some d => exact nonneg d (mem_of_getElem? found)

theorem nonneg_batchDims {s : Shape} (nonneg : ∀ d ∈ s, 0 ≤ d) :
    ∀ d ∈ Cpu.batchDims br s, 0 ≤ d := by
  intro d listed
  rcases mem_append.mp listed with padding | listed
  · obtain ⟨-, rfl⟩ := mem_replicate.mp padding
    omega
  · exact nonneg d (mem_of_mem_take listed)

theorem nonneg_rowWidth {extent : Int} (nonneg : 0 ≤ extent) (stride : Int) :
    0 ≤ rowWidth stride extent := by
  unfold rowWidth
  split <;> omega

theorem nonneg_batchStrides {matrix : Int} (nonneg : 0 ≤ matrix) {ds : List Int}
    (dims : ∀ d ∈ ds, 0 ≤ d) : ∀ v ∈ Cpu.batchStrides matrix ds, 0 ≤ v := by
  induction ds with
  | nil => exact fun _ => nofun
  | cons d ds ih =>
    have rest : ∀ e ∈ ds, 0 ≤ e := fun e listed => dims e (mem_cons_of_mem d listed)
    intro v listed
    rw [Cpu.batchStrides, mem_cons] at listed
    rcases listed with rfl | listed
    · split
      · exact le_rfl
      · exact Int.mul_nonneg nonneg (size_nonneg rest)
    · exact ih rest v listed

theorem nonneg_matrixAxes {m n : Int} (row : 0 ≤ m) (column : 0 ≤ n) :
    ∀ v ∈ matrixAxes sa sb m n, 0 ≤ v := by
  intro v listed
  unfold matrixAxes at listed
  split at listed <;> split at listed <;> simp at listed <;> omega

theorem nonneg_productShape (accepts : Accepts sa sb br) : ∀ d ∈ productShape sa sb br, 0 ≤ d := by
  have aDims : ∀ d ∈ aBatch sa br, 0 ≤ d := nonneg_batchDims (nonneg_promoteA accepts)
  have bDims : ∀ d ∈ bBatch sb br, 0 ≤ d := nonneg_batchDims (nonneg_promoteB accepts)
  intro d listed
  rcases mem_append.mp listed with batch | matrix
  · obtain ⟨i, inside, rfl⟩ := getElem_of_mem batch
    rw [getElem_zipWith, together]
    split
    · exact bDims _ (getElem_mem _)
    · exact aDims _ (getElem_mem _)
  · exact nonneg_matrixAxes (nonneg_dimFromEnd (nonneg_promoteA accepts) 2)
      (nonneg_dimFromEnd (nonneg_promoteB accepts) 1) d matrix

theorem nonneg_strides (accepts : Accepts sa sb br) (aRowStride bRowStride : Int) :
    (∀ v ∈ aStrides sa sb br (rowWidth aRowStride (innerExtent sa)), 0 ≤ v) ∧
      ∀ v ∈ bStrides sa sb br (rowWidth bRowStride (columnExtent sb)), 0 ≤ v := by
  have rows : 0 ≤ rowExtent sa := nonneg_dimFromEnd (nonneg_promoteA accepts) 2
  have inner : 0 ≤ innerExtent sa := nonneg_dimFromEnd (nonneg_promoteA accepts) 1
  have columns : 0 ≤ columnExtent sb := nonneg_dimFromEnd (nonneg_promoteB accepts) 1
  have aWidth := nonneg_rowWidth inner aRowStride
  have bWidth := nonneg_rowWidth columns bRowStride
  constructor
  · intro v listed
    rcases mem_append.mp listed with batch | matrix
    · exact nonneg_batchStrides (Int.mul_nonneg rows aWidth)
        (nonneg_batchDims (nonneg_promoteA accepts)) v batch
    · exact nonneg_matrixAxes aWidth le_rfl v matrix
  · intro v listed
    rcases mem_append.mp listed with batch | matrix
    · exact nonneg_batchStrides (Int.mul_nonneg inner bWidth)
        (nonneg_batchDims (nonneg_promoteB accepts)) v batch
    · exact nonneg_matrixAxes le_rfl (by omega) v matrix

theorem length_strides (accepts : Accepts sa sb br) (row : Int) :
    (aStrides sa sb br row).length = (productShape sa sb br).length ∧
      (bStrides sa sb br row).length = (productShape sa sb br).length := by
  have axes : ∀ e f g h : Int, (matrixAxes sa sb e f).length = (matrixAxes sa sb g h).length := by
    intro e f g h
    unfold matrixAxes
    split <;> split <;> rfl
  rw [length_productShape accepts, aStrides, bStrides, length_append, length_append,
    Import.length_batchStrides, Import.length_batchStrides, length_aBatch accepts,
    length_bBatch accepts, axes row 0 (rowExtent sa) (columnExtent sb),
    axes 0 1 (rowExtent sa) (columnExtent sb)]
  exact ⟨rfl, rfl⟩

/-- The offsets of the geometry are those of the exact strides. -/
theorem addresses_iff_dots (accepts : Accepts sa sb br) (aRowStride bRowStride : Int) :
    Addresses sa sb br aRowStride bRowStride ↔ ∀ c, Inside c (productShape sa sb br) →
        (productShape sa sb br).map wrap32 = productShape sa sb br ∧ (0 < innerExtent sa →
            dot c ((aStrides sa sb br (rowWidth aRowStride (innerExtent sa))).map wrap32) =
                dot c (aStrides sa sb br (rowWidth aRowStride (innerExtent sa))) ∧
              dot c ((bStrides sa sb br (rowWidth bRowStride (columnExtent sb))).map wrap32) =
                dot c (bStrides sa sb br (rowWidth bRowStride (columnExtent sb)))) := by
  have extents : (matmulFlatGeom sa sb (productShape sa sb br) aRowStride bRowStride).outDim =
      (productShape sa sb br).map wrap32 := rfl
  obtain ⟨aHeld, bHeld⟩ := matmulFlatGeom_eq accepts aRowStride bRowStride
  obtain ⟨-, bRow⟩ := aRow_eq sa sb (productShape sa sb br) aRowStride bRowStride
  refine forall₂_congr fun c inside => ?_
  rw [extents, aHeld, bHeld, bRow]
  refine and_congr_right fun _ => ⟨fun named some_ => ?_, fun alike k _ below => ?_⟩
  · obtain ⟨aExact, bExact⟩ := dot_strides accepts inside (rowWidth aRowStride (innerExtent sa))
      (rowWidth bRowStride (columnExtent sb)) 0
    obtain ⟨aNamed, bNamed⟩ := named 0 le_rfl some_
    constructor
    · linarith
    · linarith
  · obtain ⟨aExact, bExact⟩ := dot_strides accepts inside (rowWidth aRowStride (innerExtent sa))
      (rowWidth bRowStride (columnExtent sb)) k
    obtain ⟨aAlike, bAlike⟩ := alike (by omega)
    rw [aAlike, bAlike]
    exact ⟨aExact, bExact⟩

theorem fits_of_addresses (accepts : Accepts sa sb br) {aRowStride bRowStride : Int}
    (addresses : Addresses sa sb br aRowStride bRowStride) :
    FitsGeometry sa sb br aRowStride bRowStride := by
  intro positive
  have named := (addresses_iff_dots accepts aRowStride bRowStride).mp addresses
  obtain ⟨aNonneg, bNonneg⟩ := nonneg_strides accepts aRowStride bRowStride
  have aLength := (length_strides accepts (rowWidth aRowStride (innerExtent sa))).1
  have bLength := (length_strides accepts (rowWidth bRowStride (columnExtent sb))).2
  refine ⟨?_, fun some_ => ⟨?_, ?_⟩⟩
  · exact (map_wrap32_eq_iff (nonneg_productShape accepts)).mp
      (named _ (inside_zeros positive)).1
  · exact (dot_map_wrap32_iff aLength positive aNonneg).mp fun c inside =>
      ((named c inside).2 some_).1
  · exact (dot_map_wrap32_iff bLength positive bNonneg).mp fun c inside =>
      ((named c inside).2 some_).2

theorem positive_of_inside {c ds : List Int} (inside : Inside c ds) : ∀ d ∈ ds, 0 < d := by
  induction inside with
  | nil => exact fun _ => nofun
  | cons here _ ih =>
    intro d listed
    rcases mem_cons.mp listed with rfl | listed
    · omega
    · exact ih d listed

theorem addresses_of_fits (accepts : Accepts sa sb br) {aRowStride bRowStride : Int}
    (fit : FitsGeometry sa sb br aRowStride bRowStride) :
    Addresses sa sb br aRowStride bRowStride := by
  rw [addresses_iff_dots accepts]
  intro c inside
  have positive := positive_of_inside inside
  obtain ⟨extents, strides⟩ := fit positive
  obtain ⟨aNonneg, bNonneg⟩ := nonneg_strides accepts aRowStride bRowStride
  have aLength := (length_strides accepts (rowWidth aRowStride (innerExtent sa))).1
  have bLength := (length_strides accepts (rowWidth bRowStride (columnExtent sb))).2
  refine ⟨(map_wrap32_eq_iff (nonneg_productShape accepts)).mpr extents, fun some_ => ⟨?_, ?_⟩⟩
  · exact (dot_map_wrap32_iff aLength positive aNonneg).mpr (strides some_).1 c inside
  · exact (dot_map_wrap32_iff bLength positive bNonneg).mpr (strides some_).2 c inside

end Settled

/-! ## The sum of an output element -/

section Sums

variable {α : Type}

/-- What the kernel adds up for a position of the output: it decodes the position from the last
axis on. -/
def geometrySum (ar : Cpu.Arith α) (geometry : MatMulFlatGeom) (a b : Int → α) (position : Int) :
    α :=
  (List.range geometry.K.toNat).foldl (fun acc (k : Nat) => ar.add acc (ar.mul
    (a ((unwind (geometry.outDim.zip geometry.aStride) position).2 + k))
    (b ((unwind (geometry.outDim.zip geometry.bStride) position).2 + k * geometry.bRow))))
    ar.zero

/-- The sum the definition gives an output element. -/
def productSum (ar : Cpu.Arith α) (sa sb : Shape) (br : Nat) (aRow bRow : Int) (a b : Int → α)
    (c : List Int) : α :=
  (List.range (innerExtent sa).toNat).foldl (fun acc (k : Nat) => ar.add acc (ar.mul
    (a (aElement sa br aRow c k)) (b (bElement sa sb br bRow c k)))) ar.zero

variable {sa sb : Shape} {br : Nat}

theorem foldl_range_congr {β : Type} {f g : β → Nat → β} {n : Nat}
    (same : ∀ acc, ∀ k < n, f acc k = g acc k) (acc : β) :
    (List.range n).foldl f acc = (List.range n).foldl g acc :=
  foldl_ext f g acc fun acc k listed => same acc k (mem_range.mp listed)

/-- Offsets that name the elements of the definition give its sum. -/
theorem geometrySum_eq (accepts : Accepts sa sb br) {aRowStride bRowStride : Int}
    (addresses : Addresses sa sb br aRowStride bRowStride) (ar : Cpu.Arith α) (a b : Int → α)
    {c : List Int} (inside : Inside c (productShape sa sb br)) :
    geometrySum ar (matmulFlatGeom sa sb (productShape sa sb br) aRowStride bRowStride) a b
        (flat (productShape sa sb br) c) =
      productSum ar sa sb br (rowWidth aRowStride (innerExtent sa))
        (rowWidth bRowStride (columnExtent sb)) a b c := by
  obtain ⟨extents, offsets⟩ := addresses c inside
  obtain ⟨aHeld, bHeld⟩ := matmulFlatGeom_eq accepts aRowStride bRowStride
  have inner : (matmulFlatGeom sa sb (productShape sa sb br) aRowStride bRowStride).K =
      innerExtent sa := by
    simp only [matmulFlatGeom, promotedA_eq]
    rfl
  have aLength :
      (matmulFlatGeom sa sb (productShape sa sb br) aRowStride bRowStride).aStride.length =
        (productShape sa sb br).length := by
    rw [aHeld, length_map, (length_strides accepts _).1]
  have bLength :
      (matmulFlatGeom sa sb (productShape sa sb br) aRowStride bRowStride).bStride.length =
        (productShape sa sb br).length := by
    rw [bHeld, length_map, (length_strides accepts _).2]
  rw [geometrySum, productSum, extents, inner, unwind_zip inside aLength, unwind_zip inside bLength]
  refine foldl_range_congr (fun acc k below => ?_) ar.zero
  obtain ⟨aNamed, bNamed⟩ := offsets k (Int.natCast_nonneg k) (by omega)
  rw [aNamed, bNamed]

/-- **A dense product is addressed as it is defined exactly where the geometry fits in 32 bits.**
The offsets then give every output element its sum. -/
theorem geometry_addresses_iff (accepts : Accepts sa sb br) (aRowStride bRowStride : Int) :
    (Addresses sa sb br aRowStride bRowStride ↔ FitsGeometry sa sb br aRowStride bRowStride) ∧
      (FitsGeometry sa sb br aRowStride bRowStride →
        ∀ {β : Type} (ar : Cpu.Arith β) (a b : Int → β) (c : List Int),
          Inside c (productShape sa sb br) →
            geometrySum ar (matmulFlatGeom sa sb (productShape sa sb br) aRowStride bRowStride) a b
                (flat (productShape sa sb br) c) =
              productSum ar sa sb br (rowWidth aRowStride (innerExtent sa))
                (rowWidth bRowStride (columnExtent sb)) a b c) :=
  ⟨⟨fits_of_addresses accepts, addresses_of_fits accepts⟩, fun fit _ ar a b _ inside =>
    geometrySum_eq accepts (addresses_of_fits accepts fit) ar a b inside⟩

/-- Two matrices times one, the second operand shared by the batch. -/
theorem sharedOperand_addressed :
    Accepts [2, 2, 3] [3, 2] 1 ∧ Addresses [2, 2, 3] [3, 2] 1 4 0 := by
  have accepts : Accepts [2, 2, 3] [3, 2] 1 :=
    ⟨by decide, by decide, by decide, by decide, by decide, by decide, by decide,
      .cons (.inr (.inr rfl)) .nil⟩
  refine ⟨accepts, (geometry_addresses_iff accepts 4 0).1.mpr fun _ => ⟨by decide, fun _ => ?_⟩⟩
  exact ⟨by unfold StepsFit; decide, by unfold StepsFit; decide⟩

/-- The second matrix of a batch begins `2 ^ 31` elements in, which 32 bits hold as a negative
number. -/
theorem wideBatch_astray : Accepts [2, 65536, 32768] [32768, 1] 1 ∧
    ¬ Addresses [2, 65536, 32768] [32768, 1] 1 0 0 := by
  refine ⟨⟨by decide, by decide, by decide, by decide, by decide, by decide, by decide,
    .cons (.inr (.inr rfl)) .nil⟩, fun addresses => ?_⟩
  have second : Inside [1, 0, 0] (productShape [2, 65536, 32768] [32768, 1] 1) :=
    .cons (by decide) (.cons (by decide) (.cons (by decide) .nil))
  have named := ((addresses _ second).2 0 le_rfl (by decide)).1
  revert named
  decide

end Sums

end Vknn.MatMulTile
