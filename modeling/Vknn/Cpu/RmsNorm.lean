import Vknn.Cpu.Elementwise
import Vknn.Lib.AxisPieces

/-!
# Rows and their root mean square

A tensor is read as rows along its last axis.  The mean of a row has one element, and what is
computed from it alone is combined again with the elements of its row.  For that the axis of the
row has to be kept as one of a single position; without it the axes move, and only a tensor that
is a single row has the same result.

The kernel that normalizes rows does all of this at once, with a gain for each column.
-/

namespace Vknn.Cpu

open RowMajor Broadcast List Int Option
open Gemm (Held)

variable {R : Type} {lead : Shape} {n a : Int} {M U X G : Held R} {F : Int → R} {u : R}

/-! ## One element for each row -/

/-- A tensor with one element for each row: the axis of the row is kept, or there is one row. -/
inductive RowLike (lead : Shape) (M : Held R) (F : Int → R) : Prop
  | column (table : M = tabulated (lead ++ [1]) F)
  | single (ones : ∀ d ∈ lead, d = 1) (one : Single M (F 0)) (rank : M.shape.length ≤ lead.length + 1)

theorem RowLike.mapped (rows : RowLike lead M F) (f : R → R) :
    RowLike lead (mapped f M) fun r => f (F r) := by
  cases rows with
  | column table => exact .column (by rw [table, mapped_tabulated])
  | single ones one rank => exact .single ones (one.mapped f) rank

/-! ## The kernel -/

variable [Field R]

/-- Each row over its root mean square, times a gain for each column. -/
def rmsNorm (ar : Arithmetic R) (eps : R) (X G : Held R) : Held R :=
  let last := X.shape.getLastD 1
  let norm := if last < 1 then 1 else last
  let outer := size X.shape / norm
  ⟨X.shape, (List.range outer.toNat).flatMap fun (r : Nat) =>
    let sumsq := ∑ j ∈ Finset.range norm.toNat,
      readAt 0 X.elems (r * norm + j) * readAt 0 X.elems (r * norm + j)
    let inv := 1 / ar.sqrt (sumsq / norm + eps)
    (List.range norm.toNat).map fun (j : Nat) =>
      readAt 0 X.elems (r * norm + j) * inv * readAt 0 G.elems j⟩

/-! ## Means of rows -/

theorem size_rows (lead : Shape) (n : Int) : size (lead ++ [n]) = size lead * n := by
  rw [size_append, size, size, Int.mul_one]

/-- An axis, counted from either end, is the last. -/
def IsLast (rank : Nat) (a : Int) : Prop := (if a < 0 then a + (rank + 1 : Nat) else a) = rank

theorem reduces_last (last : IsLast lead.length a) (i : Nat) :
    reduces [a] (lead ++ [n]).length i = decide (i = lead.length) := by
  rw [IsLast] at last
  simp only [reduces, isEmpty_cons, Bool.false_or, map_cons, map_nil,
    length_append, length_singleton, contains_cons, contains_nil, Bool.or_false]
  rw [last]
  by_cases same : i = lead.length
  · simp [same]
  · have other : (i : Int) ≠ lead.length := by omega
    simp [same, other]

theorem keptAxes_last (last : IsLast lead.length a) :
    keptAxes [a] (lead ++ [n]).length = List.range lead.length := by
  have early : (List.range lead.length).filter (fun i => !decide (i = lead.length)) =
      List.range lead.length :=
    filter_eq_self.mpr fun i mem => by
      have small := mem_range.mp mem
      simp [small.ne]
  rw [keptAxes, filter_congr fun i _ => congrArg (!·) (reduces_last (n := n) last i),
    length_append, length_singleton, range_succ, filter_append, early]
  simp

theorem reducedShape_last (last : IsLast lead.length a) (keep : Bool) :
    reducedShape [a] keep (lead ++ [n]) =
      if keep then lead ++ [1] else if lead = [] then [1] else lead := by
  have front : (List.range lead.length).filterMap (fun i =>
      if decide (i = lead.length) then if keep then some 1 else none
      else some ((lead ++ [n]).getD i 0)) = lead := by
    have each : ∀ i ∈ List.range lead.length, (if decide (i = lead.length) then
        if keep then some 1 else none else some ((lead ++ [n]).getD i 0)) = some (lead.getD i 0) := by
      intro i mem
      have small := mem_range.mp mem
      simp [small.ne, getElem?_append_left small]
    rw [filterMap_congr each]
    change (List.range lead.length).filterMap (some ∘ fun i => lead.getD i 0) = lead
    rw [filterMap_eq_map]
    refine ext_getElem (by simp) fun i small small' => ?_
    simp [small']
  rw [reducedShape, filterMap_congr fun i _ => by rw [reduces_last (n := n) last i], length_append,
    length_singleton, range_succ, filterMap_append, front]
  cases keep with
  | true => simp
  | false => simp

/-- **Every element is added to its row.** -/
theorem bin_last (last : IsLast lead.length a) (low : ∀ d ∈ lead ++ [n], 0 ≤ d) {i : Int}
    (least : 0 ≤ i) (high : i < size (lead ++ [n])) : bin [a] (lead ++ [n]) i = i / n := by
  obtain ⟨rs, inside, whole, position, row⟩ :=
    exists_row (positive_of_inside low least high) least high
  have dims : (List.range lead.length).map (fun k => (lead ++ [n]).getD k 0) = lead := by
    refine ext_getElem (by simp) fun i small small' => ?_
    simp [getElem?_append_left small', small']
  have digits : ∀ k ∈ (List.range lead.length).zip (strides lead),
      i / (strides (lead ++ [n])).getD k.1 1 % (lead ++ [n]).getD k.1 0 * k.2 =
        rs.getD k.1 0 * k.2 := by
    intro k mem
    have small := mem_range.mp (of_mem_zip mem).1
    have coordinate := digit whole (k := k.1) (by rw [length_append]; omega)
    rw [position] at coordinate
    rw [coordinate, getD_eq_getElem?_getD,
      getElem?_append_left (by rw [inside.length_eq]; exact small),
      ← getD_eq_getElem?_getD]
  rw [bin, keptAxes_last last, dims, map_congr_left digits, ← row, flat,
    dot_eq_sum (by rw [inside.length_eq, length_strides])]
  congr 1
  refine ext_getElem (by simp) fun k small small' => ?_
  have inRange : k < lead.length := by simpa using small
  simp [getElem_zip, inRange]

theorem row_positions {L k o : Nat} (small : o < L) :
    (Finset.range (L * k)).filter (fun i => i / k = o) =
      (Finset.range k).image fun j => o * k + j := by
  ext i
  rw [Finset.mem_filter, Finset.mem_range, Finset.mem_image]
  constructor
  · rintro ⟨inside, rfl⟩
    have some_ : 0 < k := Nat.pos_of_ne_zero fun zero => by simp [zero] at inside
    refine ⟨i % k, Finset.mem_range.mpr (Nat.mod_lt i some_), ?_⟩
    rw [Nat.mul_comm, Nat.div_add_mod]
  · rintro ⟨j, column, rfl⟩
    have column := Finset.mem_range.mp column
    have next := Nat.mul_le_mul_right k (Nat.succ_le_of_lt small)
    rw [Nat.succ_mul] at next
    exact ⟨by omega, AxisPieces.row_div o column⟩

/-- The mean of a row, of a table's elements. -/
def rowMean (n : Int) (F : Int → R) (r : Int) : R := (∑ j ∈ Finset.range n.toNat, F (r * n + j)) / n

/-- **Means along the last axis** are those of the rows. -/
theorem meanAlong_last (last : IsLast lead.length a) (keep : Bool) (low : ∀ d ∈ lead ++ [n], 0 ≤ d)
    (F : Int → R) {o : Int} (least : 0 ≤ o) (high : o < size lead)
    (wide : size (reducedShape [a] keep (lead ++ [n])) = size lead) :
    readAt 0 (meanAlong [a] keep (tabulated (lead ++ [n]) F)).elems o = rowMean n F o := by
  obtain ⟨k, rfl⟩ := eq_ofNat_of_zero_le
    (low n (mem_append_right _ mem_cons_self))
  obtain ⟨r, rfl⟩ := eq_ofNat_of_zero_le least
  obtain ⟨L, rows⟩ := eq_ofNat_of_zero_le
    (size_nonneg fun d mem => low d (mem_append_left _ mem) : 0 ≤ size lead)
  have whole : size (lead ++ [(k : Int)]) = (L * k : Nat) := by
    rw [size_rows, rows]
    exact (natCast_mul L k).symm
  have inRow : r < L := by omega
  have members : ((Finset.range (L * k)).filter fun (i : Nat) =>
      bin [a] (lead ++ [(k : Int)]) i = (r : Int)) = (Finset.range k).image fun j => r * k + j := by
    rw [← row_positions inRow]
    refine Finset.filter_congr fun i inside => ?_
    have small := Finset.mem_range.mp inside
    rw [bin_last last low (natCast_nonneg i) (by rw [whole]; exact ofNat_lt.mpr small),
      ← natCast_ediv]
    exact ofNat_inj
  have apart : Set.InjOn (fun j => r * k + j) (Finset.range k : Set Nat) :=
    fun _ _ _ _ same => Nat.add_left_cancel same
  have total : ∑ i ∈ (Finset.range k).image (fun j => r * k + j),
      readAt 0 (tabulated (lead ++ [(k : Int)]) F).elems (i : Nat) =
      ∑ j ∈ Finset.range k, F ((r : Int) * k + j) := by
    rw [Finset.sum_image apart]
    refine Finset.sum_congr rfl fun j inside => ?_
    have column := Finset.mem_range.mp inside
    have next := Nat.mul_le_mul_right k (Nat.succ_le_of_lt inRow)
    rw [Nat.succ_mul] at next
    rw [readAt_tabulated (natCast_nonneg _) (by rw [whole]; exact ofNat_lt.mpr (by omega))]
    push_cast
    rfl
  rw [meanAlong, shape_tabulated, readAt_tabulated least (by rw [wide]; exact high)]
  dsimp only
  rw [whole, toNat_natCast, members, Finset.card_image_of_injOn apart, Finset.card_range, total,
    rowMean, toNat_natCast]
  split
  · rename_i none_
    rw [none_]
    simp
  · rw [cast_natCast]

/-! ## Combining rows -/

theorem RowLike.combine (rows : RowLike lead M F) (low : ∀ d ∈ lead, 0 ≤ d) (single : Single U u)
    (rank : U.shape.length ≤ lead.length + 1) (f : R → R → R) :
    ∃ Z, elementwise f M U = some Z ∧ RowLike lead Z fun r => f (F r) u := by
  cases rows with
  | column table =>
    subst table
    have sized : Sized (tabulated (lead ++ [1]) F) := sized_tabulated fun d mem => by
      rcases mem_append.mp mem with front | last
      · exact low d front
      · rw [mem_singleton.mp last]
        exact Int.one_nonneg
    refine ⟨_, (elementwise_single sized single (by simpa [tabulated] using rank) f).1, .column ?_⟩
    exact tabulated_congr fun i least high => by rw [readAt_tabulated (s := lead ++ [1]) least high]
  | single ones one narrow =>
    obtain ⟨Z, made, element, length⟩ := single_elementwise one single f
    exact ⟨Z, made, .single ones element (by omega)⟩

theorem RowLike.combine_left (rows : RowLike lead M F) (low : ∀ d ∈ lead, 0 ≤ d)
    (single : Single U u) (rank : U.shape.length ≤ lead.length + 1) (f : R → R → R) :
    ∃ Z, elementwise f U M = some Z ∧ RowLike lead Z fun r => f u (F r) := by
  obtain ⟨Z, made, rows⟩ := rows.combine low single rank fun a b => f b a
  refine ⟨Z, Eq.trans ?_ made, rows⟩
  rw [elementwise, elementwise, Broadcast.shape_comm]

/-- **Combined with the elements of the rows.** -/
theorem RowLike.spread (rows : RowLike lead M F) (sized : Sized X) (shape : X.shape = lead ++ [n])
    (f : R → R → R) : elementwise f X M =
      some (tabulated (lead ++ [n]) fun i => f (readAt 0 X.elems i) (F (i / n))) := by
  have low := sized.dims
  cases rows with
  | column table =>
    subst table
    have fits : Fits (lead ++ [1]) (lead ++ [n]) := by
      refine ⟨by simp, ?_⟩
      have same : (lead ++ [n]).length = (lead ++ [(1 : Int)]).length := by simp
      rw [same, padded_self]
      exact rel_append (forall₂_same.mpr fun d _ => .inr rfl) (.cons (.inl rfl) .nil)
    rw [(elementwise_of_fits sized (by rw [shape]; exact fits) f).1, shape]
    refine congrArg some (tabulated_congr fun i least high => ?_)
    rw [shape] at low
    have positive := positive_of_inside low least high
    change f _ (readAt 0 (tabulated (lead ++ [1]) F).elems (offset _ (lead ++ [1]) i)) = _
    have wide : 0 < n := positive n (mem_append_right _ mem_cons_self)
    rw [offset_row positive least high, readAt_tabulated (ediv_nonneg least wide.le)]
    rw [size_rows] at high ⊢
    rw [Int.mul_one]
    exact Int.ediv_lt_of_lt_mul wide high
  | single ones one narrow =>
    rw [(elementwise_single sized one (by simpa [shape] using narrow) f).1, shape]
    refine congrArg some (tabulated_congr fun i least high => ?_)
    rw [shape] at low
    have positive := positive_of_inside low least high
    have wide : 0 < n := positive n (mem_append_right _ mem_cons_self)
    rw [size_rows, size_of_units ones, Int.one_mul] at high
    rw [ediv_eq_zero_of_lt least high]

theorem rowLike_mean (last : IsLast lead.length a) {keep : Bool}
    (kept : keep = true ∨ ∀ d ∈ lead, d = 1) (low : ∀ d ∈ lead ++ [n], 0 ≤ d) (F : Int → R) :
    RowLike lead (meanAlong [a] keep (tabulated (lead ++ [n]) F)) (rowMean n F) := by
  have shape := reducedShape_last (n := n) last keep
  cases keep with
  | true =>
    rw [if_pos rfl] at shape
    have wide : size (lead ++ [1]) = size lead := by rw [size_rows, Int.mul_one]
    have same : (meanAlong [a] true (tabulated (lead ++ [n]) F)).shape = lead ++ [1] := shape
    have sized : Sized (meanAlong [a] true (tabulated (lead ++ [n]) F)) := by
      refine sized_tabulated fun d mem => ?_
      rw [shape_tabulated, shape] at mem
      rcases mem_append.mp mem with front | one
      · exact low d (mem_append_left _ front)
      · rw [mem_singleton.mp one]
        exact Int.one_nonneg
    refine .column (sized.eq_tabulated.trans ?_)
    rw [same]
    exact tabulated_congr fun o least high =>
      meanAlong_last last true low F least (wide ▸ high) (by rw [shape, wide])
  | false =>
    have ones := kept.resolve_left (by decide)
    rw [if_neg (by decide)] at shape
    have units : ∀ d ∈ reducedShape [a] false (lead ++ [n]), d = 1 := by
      rw [shape]
      split
      · exact fun d mem => mem_singleton.mp mem
      · exact ones
    have element := meanAlong_last last false low F (Int.le_refl 0)
      (by rw [size_of_units ones]; exact Int.one_pos)
      (by rw [size_of_units units, size_of_units ones])
    refine .single ones ⟨units, ?_⟩ ?_
    · have sized : Sized (meanAlong [a] false (tabulated (lead ++ [n]) F)) :=
        sized_tabulated fun d mem => by
          rw [units d mem]
          exact Int.one_nonneg
      have count := sized.count
      have whole : size (meanAlong [a] false (tabulated (lead ++ [n]) F)).shape = 1 :=
        size_of_units units
      rw [whole] at count
      obtain ⟨v, elems⟩ := length_eq_one_iff.mp count
      rw [elems] at element ⊢
      rw [← element]
      rfl
    · change (reducedShape [a] false (lead ++ [n])).length ≤ _
      rw [shape]
      split <;> simp

/-! ## The chain -/

/-- A gain with one element for each column, and no other axis of several positions. -/
structure Gain (lead : Shape) (n : Int) (G : Held R) : Prop where
  columns : size G.shape = n
  ones : ∀ d ∈ G.shape.dropLast, d = 1
  rank : G.shape.length ≤ lead.length + 1

/-- **A gain is read at the column.** -/
theorem Gain.spread (gain : Gain lead n G) (sized : Sized X) (shape : X.shape = lead ++ [n])
    (f : R → R → R) : elementwise f X G = some (tabulated (lead ++ [n]) fun i =>
      f (readAt 0 X.elems i) (readAt 0 G.elems (i % n))) := by
  obtain ⟨columns, ones, rank⟩ := gain
  have low := sized.dims
  rw [shape] at low
  rcases eq_nil_or_concat G.shape with scalar | ⟨units, d, split⟩
  · have units : ∀ d ∈ G.shape, d = 1 := by simp [scalar]
    obtain rfl : n = 1 := by rw [← columns, scalar, size]
    rw [(elementwise_of_fits sized (fits_units units (by simp [shape, scalar])) f).1, shape]
    refine congrArg some (tabulated_congr fun i least high => ?_)
    rw [offset_units units (by simp [scalar]) (positive_of_inside low least high) least high,
      emod_one]
  · rw [concat_eq_append] at split
    rw [split, dropLast_concat] at ones
    rw [split, size_rows, size_of_units ones, Int.one_mul] at columns
    subst columns
    rw [split, length_append, length_singleton] at rank
    have narrow : units.length ≤ lead.length := by omega
    have fits := fits_last (n := d) ones narrow (.inr rfl)
    rw [(elementwise_of_fits sized (by rw [shape, split]; exact fits) f).1, shape, split]
    refine congrArg some (tabulated_congr fun i least high => ?_)
    rw [offset_column ones narrow (positive_of_inside low least high) least high]

/-- The steps of a normalization, each a kernel of its own; `recip` takes reciprocals. -/
def rmsChain (ar : Arithmetic R) (axes : List Int) (keep : Bool) (recip : Held R → Option (Held R))
    (X E C G : Held R) : Option (Held R) := do
  let p ← elementwise ar.pow X E
  let a ← elementwise (· + ·) (meanAlong axes keep p) C
  let r ← recip (mapped ar.sqrt a)
  let y ← elementwise (· * ·) X r
  elementwise (· * ·) y G

/-! ## Normalizing -/

/-- **The kernel**, position by position. -/
theorem rmsNorm_eq (ar : Arithmetic R) (eps : R) (low : ∀ d ∈ lead ++ [n], 0 ≤ d)
    (shape : X.shape = lead ++ [n]) : rmsNorm ar eps X G = tabulated (lead ++ [n]) fun i =>
      readAt 0 X.elems i *
        (1 / ar.sqrt (rowMean n (fun i => readAt 0 X.elems i * readAt 0 X.elems i) (i / n) + eps)) *
        readAt 0 G.elems (i % n) := by
  obtain ⟨k, rfl⟩ := eq_ofNat_of_zero_le
    (low n (mem_append_right _ mem_cons_self))
  obtain ⟨L, rows⟩ := eq_ofNat_of_zero_le
    (size_nonneg fun d mem => low d (mem_append_left _ mem) : 0 ≤ size lead)
  have whole : size (lead ++ [(k : Int)]) = (L * k : Nat) := by
    rw [size_rows, rows]
    exact (natCast_mul L k).symm
  rw [rmsNorm, shape, getLastD_concat, tabulated, whole]
  refine congrArg (Held.mk _) ?_
  rcases Nat.eq_zero_or_pos k with zero | some_
  · subst zero
    simp
  · have wide : ¬ ((k : Int) < 1) := by omega
    dsimp only
    rw [if_neg wide, toNat_natCast, toNat_natCast, ← natCast_ediv, toNat_natCast,
      Nat.mul_div_cancel L some_, AxisPieces.flatMap_range_map₂]
    refine map_congr_left fun p _ => ?_
    have position : ((p / k : Nat) : Int) * k + (p % k : Nat) = p := by
      exact_mod_cast (by rw [Nat.mul_comm, Nat.div_add_mod] : p / k * k + p % k = p)
    rw [position, rowMean, toNat_natCast, natCast_ediv, natCast_emod]

def Reciprocal (lead : Shape) (recip : Held R → Option (Held R)) : Prop :=
  ∀ M F, RowLike lead M F → ∃ Z, recip M = some Z ∧ RowLike lead Z fun r => 1 / F r

/-- **The chain normalizes the rows**, where its exponent squares, its axis is the last, the axis of
the row is kept or there is one row, and the gain has one element for each column. -/
theorem rmsChain_eq (ar : Arithmetic R) {E C : Held R} {e c : R} {keep : Bool}
    {recip : Held R → Option (Held R)} (sized : Sized X) (shape : X.shape = lead ++ [n])
    (last : IsLast lead.length a) (kept : keep = true ∨ ∀ d ∈ lead, d = 1) (exponent : Single E e)
    (exponentRank : E.shape.length ≤ lead.length + 1) (squares : ∀ v, ar.pow v e = v * v)
    (epsilon : Single C c) (epsilonRank : C.shape.length ≤ lead.length + 1)
    (reciprocal : Reciprocal lead recip) (gain : Gain lead n G) :
    rmsChain ar [a] keep recip X E C G = some (rmsNorm ar c X G) := by
  have low := sized.dims
  rw [shape] at low
  have square := (elementwise_single sized exponent (by simpa [shape] using exponentRank) ar.pow).1
  rw [shape] at square
  simp only [squares] at square
  have means := rowLike_mean last kept low fun i => readAt 0 X.elems i * readAt 0 X.elems i
  obtain ⟨A, added, sums⟩ := means.combine (fun d mem => low d (mem_append_left _ mem))
    epsilon epsilonRank (· + ·)
  obtain ⟨Z, inverted, inverses⟩ := reciprocal _ _ (sums.mapped ar.sqrt)
  have normal := inverses.spread sized shape (· * ·)
  have scaled := fun N : Int → R =>
    gain.spread (X := tabulated (lead ++ [n]) N) (sized_tabulated low) rfl (· * ·)
  simp only [rmsChain, bind_eq_bind]
  rw [square, bind_some, added, bind_some, inverted, bind_some, normal,
    bind_some, scaled, rmsNorm_eq ar c low shape]
  exact congrArg some (tabulated_congr fun i least high => by rw [readAt_tabulated least high])

end Vknn.Cpu
