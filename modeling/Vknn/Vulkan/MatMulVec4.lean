import Vknn.Core.MatMulTile

/-!
# The four-wide matrix product

The kernel with four-wide loads reads its operands in vectors of four elements.
A load begins at the place the one-by-one kernel would read, shifted down by two
bits, and is made where that one place is inside the matrix: nothing else keeps
the other three in the row.  What does is the rule by which the kernel is chosen:
row widths and batch strides that are multiples of four.

The stores of the kernel are one element each.
-/

namespace Vknn.MatMulTile

open List Int

/-! ## The kernel -/

/-- The extents and row widths the kernel is launched with. -/
structure MatMulPC where
  M : Int
  N : Int
  K : Int
  aKp : Int
  bNp : Int
deriving DecidableEq, Repr

/-- What the operator passes for a route. -/
def MatMulVec4Route.push (route : MatMulVec4Route) (M N K : Int) : MatMulPC :=
  { M := wrap32 M, N := wrap32 N, K := wrap32 K, aKp := wrap32 route.aKp, bNp := wrap32 route.bNp }

/-- Where a matrix of an operand begins: the batch index taken apart from the last batch axis on.
An axis is its output extent and its stride. -/
def batchBase (axes : List (Int × Int)) (batch : Int) : Int :=
  (axes.foldr (fun axis state =>
    (state.1 / axis.1, wrap32 (state.2 + wrap32 (state.1 % axis.1 * axis.2)))) (batch, 0)).2

/-- A four-wide load: where its row begins, its offset in the row, and the vector it reads. -/
structure VecLoad where
  rowStart : Int
  offset : Int
  vec : Int
deriving DecidableEq, Repr

def VecLoad.at_ (rowStart offset : Int) : VecLoad :=
  { rowStart, offset, vec := wrap32 (rowStart + offset) >>> (2 : Nat) }

/-- The load of the first operand's panel that one thread makes in one turn of the filling loop. -/
def aLoad (pc : MatMulPC) (aBase : Int) (groupY step tid t : Nat) : Option VecLoad :=
  let v := tid + t * 256
  let gm : Int := groupY * 128 + (v / 4 : Nat)
  let gk : Int := step * 16 + (v % 4 * 4 : Nat)
  if gm < pc.M ∧ gk < pc.K then some (.at_ (wrap32 (aBase + wrap32 (gm * pc.aKp))) gk) else none

/-- The load of the second operand's panel. -/
def bLoad (pc : MatMulPC) (bBase : Int) (groupX step tid t : Nat) : Option VecLoad :=
  let v := tid + t * 256
  let gk : Int := step * 16 + (v / 32 : Nat)
  let gn : Int := groupX * 128 + (v % 32 * 4 : Nat)
  if gk < pc.K ∧ gn < pc.N then some (.at_ (wrap32 (bBase + wrap32 (gk * pc.bNp))) gn) else none

/-- A load starts at a multiple of four elements, exactly where the one element would be read that
it replaces, and ends within a row of a width. -/
def VecLoad.InRow (load : VecLoad) (width : Int) : Prop :=
  4 * load.vec = wrap32 (load.rowStart + load.offset) ∧ 0 ≤ load.offset ∧ load.offset + 4 ≤ width

/-! ## Multiples of four -/

theorem wrap32_emod_four (n : Int) : wrap32 n % 4 = n % 4 := by
  rw [wrap32, bmod_eq_emod]
  split <;> omega

/-- The base of every matrix is a multiple of four where the batch strides are. -/
theorem batchBase_aligned {axes : List (Int × Int)} (aligned : ∀ axis ∈ axes, axis.2 % 4 = 0)
    (batch : Int) : batchBase axes batch % 4 = 0 := by
  unfold batchBase
  induction axes with
  | nil => rfl
  | cons axis axes ih =>
    have here := aligned axis mem_cons_self
    have later := ih fun axis listed => aligned axis (mem_cons_of_mem _ listed)
    rw [foldr_cons]
    generalize axes.foldr _ (batch, (0 : Int)) = state at later
    have step : state.1 % axis.1 * axis.2 % 4 = 0 := by
      rw [mul_emod, here, Int.mul_zero]
      rfl
    rw [wrap32_emod_four, add_emod, later, wrap32_emod_four, step]
    rfl

/-- A load whose row and offset are multiples of four, and whose offset lies below an extent that
the row is as wide as, stays in the row. -/
theorem VecLoad.inRow_at {rowStart offset extent width : Int} (row : rowStart % 4 = 0)
    (aligned : offset % 4 = 0) (low : 0 ≤ offset) (high : offset < extent) (wide : extent ≤ width)
    (widthAligned : width % 4 = 0) : (VecLoad.at_ rowStart offset).InRow width := by
  have start : wrap32 (rowStart + offset) % 4 = 0 := by
    rw [wrap32_emod_four]
    omega
  refine ⟨?_, low, ?_⟩
  · show 4 * (wrap32 (rowStart + offset) >>> (2 : Nat)) = wrap32 (rowStart + offset)
    rw [shiftRight_eq_div_pow]
    omega
  · show offset + 4 ≤ width
    omega

/-! ## The rule -/

/-- What an eligible route has been tested for. -/
structure Eligible (N K : Int) (aBatch bBatch : List Int) (route : MatMulVec4Route) : Prop where
  rows : 0 < N ∧ 0 < K
  aWide : K ≤ route.aKp
  aAligned : route.aKp % 4 = 0
  aBatch : ∀ stride ∈ aBatch, stride % 4 = 0
  bBatch : ∀ stride ∈ bBatch, stride % 4 = 0
  bWide : N ≤ route.bNp ∨ 2 ^ 63 ≤ N + 3
  bAligned : route.bNp % 4 = 0

theorem roundUpVec4_aligned (n : Int) : roundUpVec4 n % 4 = 0 := by
  unfold roundUpVec4 kVec4Align
  generalize (wrap64 (n + 4 - 1)).tdiv 4 = q
  rw [wrap64, bmod_eq_emod]
  split <;> omega

theorem le_roundUpVec4 {n : Int} (positive : 0 < n) (fits : n + 3 < 2 ^ 63) :
    n ≤ roundUpVec4 n := by
  unfold roundUpVec4 kVec4Align
  have sum : wrap64 (n + 4 - 1) = n + 3 := by
    rw [wrap64_of_fits (by omega) (by omega)]
    omega
  rw [sum, tdiv_eq_ediv_of_nonneg (by omega), wrap64_of_fits (by omega) (by omega)]
  omega

theorem mem_allAligned {strides : List Int} (aligned : allAligned strides = true) :
    ∀ stride ∈ strides, stride % 4 = 0 := by
  intro stride listed
  exact of_decide_eq_true (all_eq_true.mp aligned stride listed)

variable {useFp16 bIsInitializer bPayloadResident : Bool} {N K aRowStride bRowStride : Int}
  {aBatch bBatch : List Int}

/-- **What eligibility says.** -/
theorem eligible_of_route
    (eligible : (matmulVec4Route useFp16 N K aBatch bBatch bIsInitializer bPayloadResident aRowStride
      bRowStride).eligible = true) :
    Eligible N K aBatch bBatch (matmulVec4Route useFp16 N K aBatch bBatch bIsInitializer
      bPayloadResident aRowStride bRowStride) := by
  unfold matmulVec4Route at eligible ⊢
  dsimp only at eligible ⊢
  generalize (if 0 < aRowStride then aRowStride else K) = aKp at eligible ⊢
  generalize (if 0 < bRowStride then bRowStride else N) = bNp at eligible ⊢
  split at eligible
  · cases eligible
  rename_i tested
  rw [if_neg tested]
  simp only [not_or, Bool.not_eq_true', Bool.not_eq_false, not_le, not_lt, ne_eq,
    Decidable.not_not] at tested
  obtain ⟨-, columns, rows, aWide, bWide, aAligned, aStrides⟩ := tested
  split at eligible
  · rename_i bAligned
    rw [if_pos bAligned]
    exact ⟨⟨columns, rows⟩, aWide, aAligned, mem_allAligned aStrides, mem_allAligned eligible,
      .inl bWide, bAligned⟩
  rename_i unaligned
  rw [if_neg unaligned]
  split at eligible
  · cases eligible
  rename_i resident
  rw [if_neg resident]
  split at eligible
  · cases eligible
  rename_i broadcast
  rw [if_neg broadcast]
  refine ⟨⟨columns, rows⟩, aWide, aAligned, mem_allAligned aStrides, ?_, ?_, roundUpVec4_aligned N⟩
  · intro stride listed
    have zero : stride = 0 := by
      by_contra moves
      exact broadcast (any_eq_true.mpr ⟨stride, listed, by simpa using moves⟩)
    rw [zero]
    rfl
  · by_cases fits : N + 3 < 2 ^ 63
    · exact .inl (le_roundUpVec4 columns fits)
    · exact .inr (by omega)

/-! ## Every load -/

theorem wrap32_le {n : Int} (nonneg : 0 ≤ n) : wrap32 n ≤ n := by
  rw [wrap32, bmod_eq_emod]
  split <;> omega

variable {route : MatMulVec4Route} {out sa sb : Shape} {which : MatMulOperand} {padded : Int}

theorem aLoad_inRow (sound : Eligible N K aBatch bBatch route) {M : Int}
    {aBase : Int} (base : aBase % 4 = 0) {groupY step tid t : Nat} {load : VecLoad}
    (made : aLoad (route.push M N K) aBase groupY step tid t = some load) :
    load.InRow route.aKp := by
  unfold aLoad at made
  dsimp only at made
  split at made
  · rename_i inside
    cases made
    have below := wrap32_le (show 0 ≤ K by have := sound.rows.2; omega)
    have width : wrap32 route.aKp % 4 = 0 := by rw [wrap32_emod_four, sound.aAligned]
    have row : ((groupY * 128 + ((tid + t * 256) / 4 : Nat) : Int)) * wrap32 route.aKp % 4 = 0 := by
      rw [mul_emod, width, Int.mul_zero]
      rfl
    refine VecLoad.inRow_at ?_ (by omega) (by omega) (Int.lt_of_lt_of_le inside.2 below) sound.aWide
      sound.aAligned
    rw [wrap32_emod_four, add_emod, base, wrap32_emod_four]
    show (0 + _ * wrap32 route.aKp % 4) % 4 = 0
    rw [row]
    rfl
  · cases made

theorem bLoad_inRow (sound : Eligible N K aBatch bBatch route) {M : Int}
    (fits : N < 2 ^ 63) {bBase : Int} (base : bBase % 4 = 0) {groupX step tid t : Nat}
    {load : VecLoad} (made : bLoad (route.push M N K) bBase groupX step tid t = some load) :
    load.InRow route.bNp := by
  unfold bLoad at made
  dsimp only at made
  split at made
  · rename_i inside
    cases made
    have counted : ((groupX * 128 + ((tid + t * 256) % 32 * 4 : Nat) : Int)) < wrap32 N := inside.2
    have below := wrap32_le (show 0 ≤ N by have := sound.rows.1; omega)
    have width : wrap32 route.bNp % 4 = 0 := by rw [wrap32_emod_four, sound.bAligned]
    have row : ((step * 16 + ((tid + t * 256) / 32 : Nat) : Int)) * wrap32 route.bNp % 4 = 0 := by
      rw [mul_emod, width, Int.mul_zero]
      rfl
    -- rounding up overflows only for extents the kernel counts as negative
    have wide : N ≤ route.bNp := by
      rcases sound.bWide with wide | overflow
      · exact wide
      · exfalso
        rw [wrap32, bmod_eq_emod] at counted
        split at counted <;> omega
    refine VecLoad.inRow_at ?_ (by omega) (by omega) (Int.lt_of_lt_of_le counted below) wide
      sound.bAligned
    rw [wrap32_emod_four, add_emod, base, wrap32_emod_four]
    show (0 + _ * wrap32 route.bNp % 4) % 4 = 0
    rw [row]
    rfl
  · cases made

/-! ## Widened operands -/

/-- The route the operator derives, from the row widths the operands were given. -/
def opRoute (useFp16 : Bool) (sa sb out : Shape) (aRowPad bRowPad : Int)
    (bIsInitializer bPayloadResident : Bool) : MatMulVec4Route :=
  let d := matmulFlatGeom sa sb out aRowPad bRowPad
  matmulVec4Route useFp16 d.N d.K (d.aStride.take (d.rank - 2)) (d.bStride.take (d.rank - 2))
    bIsInitializer bPayloadResident d.aRow d.bRow

/-- A route that holds without a constant operand holds with one, unchanged. -/
theorem route_of_plain
    (eligible : (matmulVec4Route useFp16 N K aBatch bBatch false false aRowStride bRowStride).eligible
      = true) (bIsInitializer bPayloadResident : Bool) :
    matmulVec4Route useFp16 N K aBatch bBatch bIsInitializer bPayloadResident aRowStride bRowStride =
      matmulVec4Route useFp16 N K aBatch bBatch false false aRowStride bRowStride := by
  unfold matmulVec4Route at eligible ⊢
  dsimp only at eligible ⊢
  generalize (if 0 < aRowStride then aRowStride else K) = aKp at eligible ⊢
  generalize (if 0 < bRowStride then bRowStride else N) = bNp at eligible ⊢
  split at eligible
  · cases eligible
  rename_i tested
  rw [if_neg tested, if_neg tested]
  split at eligible
  · rename_i aligned
    rw [if_pos aligned, if_pos aligned]
  · rw [if_pos (.inl rfl)] at eligible
    cases eligible

/-- Without a constant operand the kernel reads the row widths the operands have. -/
theorem widths_of_plain :
    (matmulVec4Route useFp16 N K aBatch bBatch false false aRowStride bRowStride).aKp =
        (if 0 < aRowStride then aRowStride else K) ∧
      (matmulVec4Route useFp16 N K aBatch bBatch false false aRowStride bRowStride).bNp =
        (if 0 < bRowStride then bRowStride else N) ∧
      (matmulVec4Route useFp16 N K aBatch bBatch false false aRowStride bRowStride).padB = false := by
  unfold matmulVec4Route
  dsimp only
  generalize (if 0 < aRowStride then aRowStride else K) = aKp
  generalize (if 0 < bRowStride then bRowStride else N) = bNp
  split
  · exact ⟨rfl, rfl, rfl⟩
  split
  · exact ⟨rfl, rfl, rfl⟩
  · rw [if_pos (.inl rfl)]
    exact ⟨rfl, rfl, rfl⟩

/-- Of two matrices, the batch axes of the output are all but the last two. -/
theorem batchRank_matrices {aRowStride bRowStride : Int}
    (aMatrix : sa.length ≠ 1) (bMatrix : sb.length ≠ 1) :
    (matmulFlatGeom sa sb out aRowStride bRowStride).batchRank =
      (matmulFlatGeom sa sb out aRowStride bRowStride).rank - 2 := by
  have axes : ∀ rank : Nat, firstMatrixAxis rank (rowAxis false false rank)
      (columnAxis false rank) = rank - 2 := by
    intro rank
    simp only [firstMatrixAxis, rowAxis, columnAxis, Bool.false_eq_true, if_false]
    split <;> split <;> omega
  simp only [matmulFlatGeom, aMatrix, bMatrix, decide_false, axes]

/-- What the planner's question has been answered on. -/
theorem matmulVec4PadUnlocks_cases
    (unlocks : matmulVec4PadUnlocks useFp16 which sa sb out = (true, padded)) :
    2 ≤ sa.length ∧ 2 ≤ sb.length ∧ which.rowExtent (matmulFlatGeom sa sb out 0 0) % 4 ≠ 0 ∧
      (planRoute useFp16 (matmulFlatGeom sa sb out 0 0)).eligible = false ∧
      padded = roundUpVec4 (which.rowExtent (matmulFlatGeom sa sb out 0 0)) ∧
      (planRoute useFp16 (which.widened sa sb out padded)).eligible = true := by
  unfold matmulVec4PadUnlocks at unlocks
  dsimp only at unlocks
  split at unlocks
  · cases unlocks
  rename_i ranks
  split at unlocks
  · cases unlocks
  split at unlocks
  · cases unlocks
  rename_i unaligned
  split at unlocks
  · cases unlocks
  rename_i refused
  split at unlocks
  · cases unlocks
  rename_i granted
  obtain ⟨-, rfl⟩ := Prod.mk.inj unlocks
  refine ⟨by omega, by omega, fun aligned => unaligned (.inr aligned), by simpa using refused, rfl,
    by simpa using granted⟩

/-- Where an operand is widened for a product, the other is not. -/
theorem unlocks_one {aPadded bPadded : Int}
    (aUnlocks : matmulVec4PadUnlocks useFp16 .A sa sb out = (true, aPadded)) :
    matmulVec4PadUnlocks useFp16 .B sa sb out ≠ (true, bPadded) := by
  intro bUnlocks
  obtain ⟨-, -, -, -, -, eligible⟩ := matmulVec4PadUnlocks_cases aUnlocks
  obtain ⟨-, -, unaligned, -, -, -⟩ := matmulVec4PadUnlocks_cases bUnlocks
  -- the other operand stays packed, so the rule has tested its rows
  have tested := eligible_of_route eligible
  have aligned := tested.bAligned
  rw [widths_of_plain.2.1] at aligned
  have columns : 0 < (matmulFlatGeom sa sb out 0 0).N := tested.rows.1
  have packed : (MatMulOperand.widened sa sb out aPadded .A).bRow = (matmulFlatGeom sa sb out 0 0).N :=
    rfl
  rw [packed, if_pos columns] at aligned
  exact unaligned aligned

/-- **A widened operand is read as planned.**  Where the planner's question is answered with a
width, the operator's own rule holds on the widened geometry, constant operands or not, and the
kernel reads the operand with that width. -/
theorem opRoute_of_unlocks
    (unlocks : matmulVec4PadUnlocks useFp16 which sa sb out = (true, padded))
    (bIsInitializer bPayloadResident : Bool) :
    opRoute useFp16 sa sb out (if which = .A then padded else 0) (if which = .B then padded else 0)
        bIsInitializer bPayloadResident =
      planRoute useFp16 (which.widened sa sb out padded) ∧
    (planRoute useFp16 (which.widened sa sb out padded)).eligible = true := by
  obtain ⟨aRank, bRank, -, -, -, eligible⟩ := matmulVec4PadUnlocks_cases unlocks
  refine ⟨?_, eligible⟩
  have geometry : matmulFlatGeom sa sb out (if which = .A then padded else 0)
      (if which = .B then padded else 0) = which.widened sa sb out padded := by
    cases which with
    | A => rfl
    | B => rfl
  have batch : (which.widened sa sb out padded).batchRank =
      (which.widened sa sb out padded).rank - 2 := by
    cases which with
    | A => exact batchRank_matrices (by omega) (by omega)
    | B => exact batchRank_matrices (by omega) (by omega)
  rw [opRoute, geometry, ← batch]
  exact route_of_plain eligible bIsInitializer bPayloadResident

theorem padded_pos
    (unlocks : matmulVec4PadUnlocks useFp16 which sa sb out = (true, padded)) : 0 < padded := by
  obtain ⟨-, -, -, refused, -, eligible⟩ := matmulVec4PadUnlocks_cases unlocks
  by_contra nonpos
  have same : which.widened sa sb out padded = matmulFlatGeom sa sb out 0 0 := by
    cases which with
    | A => simp only [MatMulOperand.widened, matmulFlatGeom, nonpos, lt_irrefl, if_false]
    | B => simp only [MatMulOperand.widened, matmulFlatGeom, nonpos, lt_irrefl, if_false]
  rw [same, refused] at eligible
  cases eligible

/-- The width the kernel reads an operand with. -/
def MatMulOperand.width (route : MatMulVec4Route) : MatMulOperand → Int
  | .A => route.aKp
  | .B => route.bNp

theorem width_of_unlocks
    (unlocks : matmulVec4PadUnlocks useFp16 which sa sb out = (true, padded)) :
    which.width (planRoute useFp16 (which.widened sa sb out padded)) = padded := by
  have positive := padded_pos unlocks
  cases which with
  | A =>
    have row : (MatMulOperand.widened sa sb out padded .A).aRow = padded := if_pos positive
    rw [MatMulOperand.width, planRoute, widths_of_plain.1, row, if_pos positive]
  | B =>
    have row : (MatMulOperand.widened sa sb out padded .B).bRow = padded := if_pos positive
    rw [MatMulOperand.width, planRoute, widths_of_plain.2.1, row, if_pos positive]

/-! ## Repacked weights -/

section Repacked

open CellWrites

variable {α : Type} (zero : α) (src : List α) (rows n np : Nat)

theorem padMatMulRowsVec4_eq_run : padMatMulRowsVec4 zero src rows n np =
      run ((List.range rows).flatMap fun row =>
        ((List.range n).map fun i => Write.put i (src.getD (row * n + i) zero)).map fun w =>
          ⟨row * np + w.cell, w.change⟩) (List.replicate (rows * np) zero) := by
  simp only [padMatMulRowsVec4, foldl_set, foldl_run, map_map]
  rfl

theorem length_padMatMulRowsVec4 : (padMatMulRowsVec4 zero src rows n np).length = rows * np := by
  rw [padMatMulRowsVec4_eq_run, length_run, length_replicate]

/-- A repacked row is the row, and zeros up to its width. -/
theorem getElem?_padMatMulRowsVec4 (wide : n ≤ np) {row c : Nat} (inside : row < rows)
    (column : c < np) :
    (padMatMulRowsVec4 zero src rows n np)[row * np + c]? =
      some (if c < n then src.getD (row * n + c) zero else zero) := by
  have start : (List.replicate (rows * np) zero)[row * np + c]? = some zero := by
    rw [getElem?_replicate, if_pos]
    calc row * np + c < (row + 1) * np := by rw [Nat.succ_mul]; omega
      _ ≤ rows * np := Nat.mul_le_mul_right _ inside
  have within : ∀ y < rows,
      ∀ w ∈ (List.range n).map fun i => Write.put i (src.getD (y * n + i) zero), w.cell < np := by
    intro y _ w listed
    obtain ⟨i, small, rfl⟩ := mem_map.mp listed
    exact Nat.lt_of_lt_of_le (mem_range.mp small) wide
  have stored := settled_puts 0 n c (fun i => src.getD (row * n + i) zero) zero
  simp only [Nat.zero_add] at stored
  rw [padMatMulRowsVec4_eq_run, getElem?_run, start, Option.map_some,
    settled_row inside column within, stored]

end Repacked

/-! ## The rule as a whole -/

/-- Every four-wide load of a launch stays in its row: at each batch index, in each workgroup, at
each step along the reduction and for each thread. -/
def LoadsInRows (route : MatMulVec4Route) (M N K : Int) (aAxes bAxes : List (Int × Int)) : Prop :=
  ∀ batch : Int, ∀ group step tid t : Nat, ∀ load : VecLoad,
    (aLoad (route.push M N K) (batchBase aAxes batch) group step tid t = some load →
      load.InRow route.aKp) ∧
    (bLoad (route.push M N K) (batchBase bAxes batch) group step tid t = some load →
      load.InRow route.bNp)

theorem loadsInRows_of_eligible (sound : Eligible N K aBatch bBatch route)
    (fits : N < 2 ^ 63) (M : Int) (dims : List Int) :
    LoadsInRows route M N K (dims.zip aBatch) (dims.zip bBatch) := by
  intro batch group step tid t load
  have aBase : batchBase (dims.zip aBatch) batch % 4 = 0 :=
    batchBase_aligned (fun axis listed => sound.aBatch axis.2 (of_mem_zip listed).2) batch
  have bBase : batchBase (dims.zip bBatch) batch % 4 = 0 :=
    batchBase_aligned (fun axis listed => sound.bBatch axis.2 (of_mem_zip listed).2) batch
  exact ⟨fun made => aLoad_inRow sound aBase made, fun made => bLoad_inRow sound fits bBase made⟩

end Vknn.MatMulTile
