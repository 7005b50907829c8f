import Vknn.Import.ChainViews

/-!
# What a product reads through a view

The dense run of a product finds the element of an operand at the position of its
coordinates, where the coordinates of a repeated batch axis are pinned to zero.  The
composed view decodes the same row into the common batch blocks.  Both come to the same
element whenever the operand views follow the operands.
-/

namespace Vknn.Import

open List RowMajor Int
open Cpu (Geometry batchDims batchStrides denseGeometry dimFromEnd matmulShape padLeft
  viewGeometry)

open Strided (total dims Spans Reaches Recasts)

/-! ## Matrices in a stack -/

/-- The coordinate a batch axis of an operand is read at. -/
def pin (d c : Int) : Int := if d = 1 then 0 else c

theorem zipWith_squash (view : View) (cs : List Int) :
    view.zipWith squash cs = (dims view).zipWith pin cs := by
  rw [dims, zipWith_map_left]
  rfl

variable {out s : Shape} {bs ds es : List Int} {geo : Geometry} {m : Int} {a b view : View}
  {v : MatMulView}

/-- A stack of matrices: the batch axes, then the two axes of a matrix. -/
theorem shape_eq_matrix (two : 2 ≤ s.length) :
    s = s.take (s.length - 2) ++ [dimFromEnd s 2, dimFromEnd s 1] := by
  obtain ⟨front, P, Q, rfl⟩ : ∃ front P Q, s = front ++ [P, Q] := by
    refine ⟨s.take (s.length - 2), s[s.length - 2], s[s.length - 1], ?_⟩
    have tail : s.drop (s.length - 2) = [s[s.length - 2], s[s.length - 1]] := by
      rw [drop_eq_getElem_cons (by omega), drop_eq_getElem_cons (by omega),
        drop_eq_nil_of_le (by omega)]
      congr 3
      omega
    rw [← tail, take_append_drop]
  have length : (front ++ [P, Q]).length = front.length + 2 := by
    rw [length_append]
    rfl
  rw [dimFromEnd, dimFromEnd, length, Nat.add_sub_cancel, take_left]
  simp [getD_eq_getElem?_getD]

theorem padLeft_eq_matrix {br : Nat} (two : 2 ≤ s.length) (rank : s.length ≤ br + 2) :
    padLeft (br + 2) s = batchDims br s ++ [dimFromEnd s 2, dimFromEnd s 1] := by
  have count : br + 2 - s.length = br - (s.take (s.length - 2)).length := by
    rw [length_take]
    omega
  rw [batchDims, padLeft, padLeft, count, append_assoc]
  conv_lhs => rw [shape_eq_matrix two]
  rw [← shape_eq_matrix two]

theorem length_batchDims {br : Nat} (rank : s.length ≤ br + 2) : (batchDims br s).length = br := by
  rw [batchDims]
  apply Cpu.length_padLeft
  rw [length_take]
  omega

variable {cs xs : List Int} {p q : Int} {i : Nat} {t : TensorId} {index : Int → Int}
  {blocks : List RefinedBlock}

theorem flat_matrix (same : xs.length = ds.length) (P Q p q : Int) :
    flat (ds ++ [P, Q]) (xs ++ [p, q]) = flat ds xs * (P * Q) + (p * Q + q) := by
  rw [flat_append same]
  simp [flat, RowMajor.strides, size, dot]

theorem inside_matrix (inside : RowMajor.Inside xs ds) {P Q : Int}
    (lowP : 0 ≤ p) (highP : p < P) (lowQ : 0 ≤ q) (highQ : q < Q) :
    RowMajor.Inside (xs ++ [p, q]) (ds ++ [P, Q]) :=
  rel_append inside (.cons ⟨lowP, highP⟩ (.cons ⟨lowQ, highQ⟩ .nil))

/-! ## The dense run -/

/-- The batch strides count the positions of pinned coordinates. -/
theorem dot_batchStrides (matrix : Int) {ds cs : List Int} (same : cs.length = ds.length) :
    dot cs (batchStrides matrix ds) = flat ds (ds.zipWith pin cs) * matrix := by
  induction ds generalizing cs with
  | nil =>
    obtain rfl := length_eq_zero_iff.mp same
    simp [dot, flat, RowMajor.strides]
  | cons d ds ih =>
    cases cs with
    | nil => cases same
    | cons c cs =>
      rw [batchStrides, dot, ih (Nat.succ.inj same), zipWith_cons_cons, flat_cons, pin]
      split <;> ring

theorem length_batchStrides (matrix : Int) (ds : List Int) :
    (batchStrides matrix ds).length = ds.length := by
  induction ds with
  | nil => rfl
  | cons d ds ih => rw [batchStrides, length_cons, length_cons, ih]

/-- Two dimensions of operands that can be multiplied: the same, or one of them is repeated. -/
def Broadcasts (d e : Int) : Prop := d = e ∨ d = 1 ∨ e = 1

theorem Broadcasts.symm {d e : Int} (broadcasts : Broadcasts d e) : Broadcasts e d := by
  unfold Broadcasts at broadcasts ⊢
  tauto

theorem inside_pin (broadcasts : List.Forall₂ Broadcasts ds es)
    (positive : ∀ d ∈ ds, 0 < d) (inside : RowMajor.Inside cs (ds.zipWith max es)) :
    RowMajor.Inside (ds.zipWith pin cs) ds := by
  induction broadcasts generalizing cs with
  | nil =>
    cases inside
    exact .nil
  | @cons d e ds es here _ ih =>
    cases inside with
    | @cons c _ cs _ bounds rest =>
      refine .cons ?_ (ih (fun d mem => positive d (mem_cons_of_mem _ mem)) rest)
      have first := positive d mem_cons_self
      unfold pin
      rcases here with same | single | single <;> split <;> omega

/-- Every coordinate of the operand is pinned from one of the output. -/
theorem exists_pin {ys : List Int} (same : ds.length = es.length)
    (inside : RowMajor.Inside ys ds) :
    RowMajor.Inside ys (ds.zipWith max es) ∧ ds.zipWith pin ys = ys := by
  induction inside generalizing es with
  | nil =>
    obtain rfl := length_eq_zero_iff.mp same.symm
    exact ⟨.nil, rfl⟩
  | @cons y d ys ds here _ ih =>
    cases es with
    | nil => cases same
    | cons e es =>
      obtain ⟨within, pinned⟩ := ih (Nat.succ.inj same)
      refine ⟨.cons ⟨here.1, here.2.trans_le (le_max_left d e)⟩ within, ?_⟩
      rw [zipWith_cons_cons, pinned, pin]
      split
      · rw [show y = 0 by omega]
      · rfl

/-- The shapes of a product of stacks of matrices. -/
structure Multiplies (sa sb : Shape) (br : Nat) : Prop where
  rank : br + 2 = max sa.length sb.length
  twoA : 2 ≤ sa.length
  twoB : 2 ≤ sb.length
  positiveA : ∀ d ∈ sa, 0 < d
  positiveB : ∀ d ∈ sb, 0 < d
  inner : dimFromEnd sa 1 = dimFromEnd sb 2
  batch : List.Forall₂ Broadcasts (batchDims br sa) (batchDims br sb)

variable {sa sb : Shape} {br : Nat}

/-- The geometry of a product of stacks of matrices. -/
theorem denseGeometry_eq (rank : br + 2 = max sa.length sb.length) (twoA : 2 ≤ sa.length)
    (twoB : 2 ≤ sb.length) : denseGeometry sa sb =
      { batch := (batchDims br sa).zipWith max (batchDims br sb)
        aStride := batchStrides (dimFromEnd sa 2 * dimFromEnd sa 1)
          (batchDims br sa)
        bStride := batchStrides (dimFromEnd sa 1 * dimFromEnd sb 1)
          (batchDims br sb)
        M := dimFromEnd sa 2
        N := dimFromEnd sb 1
        K := dimFromEnd sa 1
        aM := dimFromEnd sa 1
        aK := 1
        bK := dimFromEnd sb 1
        bN := 1 } := by
  have promotedA : Cpu.promoteA sa = sa := if_neg (by omega)
  have promotedB : Cpu.promoteB sb = sb := if_neg (by omega)
  have batchRank : max (sa.length - 2) (sb.length - 2) = br := by omega
  rw [denseGeometry, promotedA, promotedB, batchRank]

namespace Multiplies

theorem rankA (multiplies : Multiplies sa sb br) : sa.length ≤ br + 2 :=
  multiplies.rank ▸ Nat.le_max_left ..

theorem rankB (multiplies : Multiplies sa sb br) : sb.length ≤ br + 2 :=
  multiplies.rank ▸ Nat.le_max_right ..

end Multiplies

theorem positive_batchDims (positive : ∀ d ∈ s, 0 < d) (br : Nat) :
    ∀ d ∈ batchDims br s, 0 < d := by
  intro d mem
  rcases mem_append.mp mem with unit | inS
  · rw [eq_of_mem_replicate unit]
    exact Int.one_pos
  · exact positive d (mem_of_mem_take inS)

theorem positive_dimFromEnd (positive : ∀ d ∈ s, 0 < d) (some : 0 < i)
    (small : i ≤ s.length) : 0 < dimFromEnd s i := by
  have inside : s.length - i < s.length := by omega
  rw [dimFromEnd, getD_eq_getElem?_getD, getElem?_eq_getElem inside]
  exact positive _ (getElem_mem inside)

theorem positive_max (positive : ∀ d ∈ ds, 0 < d) : ∀ d ∈ ds.zipWith max es, 0 < d := by
  induction ds generalizing es with
  | nil => exact fun d mem => nomatch mem
  | cons d ds ih =>
    cases es with
    | nil => exact fun d mem => nomatch mem
    | cons e es =>
      intro m mem
      rcases mem_cons.mp mem with rfl | later
      · exact (positive d mem_cons_self).trans_le (le_max_left d e)
      · exact ih (fun d mem => positive d (mem_cons_of_mem _ mem)) m later

theorem aBase_eq
    (same : geo.aStride.length = geo.batch.length) (inside : RowMajor.Inside bs geo.batch)
    (low : 0 ≤ m) (high : m < geo.M) : geo.aBase (flat geo.batch bs * geo.M + m) =
      m * geo.aM + dot bs geo.aStride := by
  rw [Geometry.aBase, Int.add_comm _ m, add_mul_emod_self_right, emod_eq_of_lt low high,
    add_mul_ediv_right _ _ (by omega), ediv_eq_zero_of_lt low high, Int.zero_add,
    unwind_zip inside same]

theorem bBase_eq
    (same : geo.bStride.length = geo.batch.length) (inside : RowMajor.Inside bs geo.batch)
    (low : 0 ≤ m) (high : m < geo.M) :
    geo.bBase (flat geo.batch bs * geo.M + m) = dot bs geo.bStride := by
  rw [Geometry.bBase, Int.add_comm _ m, add_mul_ediv_right _ _ (by omega),
    ediv_eq_zero_of_lt low high, Int.zero_add, unwind_zip inside same]

/-- A row is a matrix of the stack and a row of it. -/
theorem exists_row (positive : ∀ d ∈ geo.batch, 0 < d) (some : 0 < geo.M)
    {row : Int} (low : 0 ≤ row) (high : row < geo.rows) : ∃ bs m, RowMajor.Inside bs geo.batch ∧
      0 ≤ m ∧ m < geo.M ∧ row = flat geo.batch bs * geo.M + m := by
  obtain ⟨bs, inside, position⟩ := exists_coords positive
    (ediv_nonneg low some.le) (Int.ediv_lt_of_lt_mul some high)
  refine ⟨bs, row % geo.M, inside, emod_nonneg _ some.ne', emod_lt_of_pos _ some, ?_⟩
  rw [position, Int.mul_comm]
  exact (mul_ediv_add_emod row geo.M).symm

theorem row_inside
    (inside : RowMajor.Inside bs geo.batch) (low : 0 ≤ m) (high : m < geo.M) :
    0 ≤ flat geo.batch bs * geo.M + m ∧ flat geo.batch bs * geo.M + m < geo.rows := by
  obtain ⟨least, most⟩ := flat_inside inside
  have product := Int.mul_nonneg least (low.trans high.le)
  have block := Int.mul_le_mul_of_nonneg_right (add_one_le_iff.mpr most) (low.trans high.le)
  rw [Int.add_mul, Int.one_mul] at block
  refine ⟨by omega, ?_⟩
  rw [Geometry.rows]
  omega

namespace Multiplies

variable {bs : List Int} {k m : Int}

theorem dims (multiplies : Multiplies sa sb br) : (denseGeometry sa sb).M = dimFromEnd sa 2 ∧
    (denseGeometry sa sb).N = dimFromEnd sb 1 ∧ (denseGeometry sa sb).K = dimFromEnd sa 1 := by
  rw [denseGeometry_eq multiplies.rank multiplies.twoA multiplies.twoB]
  exact ⟨rfl, rfl, rfl⟩

theorem length_coords (multiplies : Multiplies sa sb br)
    (inside : RowMajor.Inside bs (denseGeometry sa sb).batch) : bs.length = br := by
  rw [inside.length_eq, denseGeometry_eq multiplies.rank multiplies.twoA multiplies.twoB,
    length_zipWith, length_batchDims multiplies.rankA, length_batchDims multiplies.rankB,
    Nat.min_self]

/-- The positions of the coordinates of an output row, in the first operand. -/
theorem dense_a (multiplies : Multiplies sa sb br)
    (inside : RowMajor.Inside bs (denseGeometry sa sb).batch) (lowM : 0 ≤ m)
    (highM : m < dimFromEnd sa 2) :
    (denseGeometry sa sb).aBase
        (flat (denseGeometry sa sb).batch bs * (denseGeometry sa sb).M + m) +
        k * (denseGeometry sa sb).aK =
      flat (padLeft (br + 2) sa)
        ((batchDims br sa).zipWith pin bs ++ [m, k]) := by
  have geometry := denseGeometry_eq multiplies.rank multiplies.twoA multiplies.twoB
  have lengthA := length_batchDims multiplies.rankA
  have lengthB := length_batchDims multiplies.rankB
  have length := multiplies.length_coords inside
  rw [geometry] at inside ⊢
  rw [aBase_eq ?_ inside lowM highM]
  · dsimp only
    rw [dot_batchStrides _ (length.trans lengthA.symm),
      padLeft_eq_matrix multiplies.twoA multiplies.rankA, flat_matrix]
    · ring
    · rw [length_zipWith, lengthA, length, Nat.min_self]
  · dsimp only
    rw [length_batchStrides, length_zipWith, lengthA, lengthB, Nat.min_self]

/-- The positions of the coordinates of an output element, in the second operand. -/
theorem dense_b (multiplies : Multiplies sa sb br) {n : Int}
    (inside : RowMajor.Inside bs (denseGeometry sa sb).batch) (lowM : 0 ≤ m)
    (highM : m < dimFromEnd sa 2) :
    (denseGeometry sa sb).bBase
        (flat (denseGeometry sa sb).batch bs * (denseGeometry sa sb).M + m) +
        (k * (denseGeometry sa sb).bK + n * (denseGeometry sa sb).bN) =
      flat (padLeft (br + 2) sb)
        ((batchDims br sb).zipWith pin bs ++ [k, n]) := by
  have geometry := denseGeometry_eq multiplies.rank multiplies.twoA multiplies.twoB
  have lengthA := length_batchDims multiplies.rankA
  have lengthB := length_batchDims multiplies.rankB
  have length := multiplies.length_coords inside
  rw [geometry] at inside ⊢
  rw [bBase_eq ?_ inside lowM highM]
  · dsimp only
    rw [dot_batchStrides _ (length.trans lengthB.symm),
      padLeft_eq_matrix multiplies.twoB multiplies.rankB, flat_matrix, multiplies.inner]
    · ring
    · rw [length_zipWith, lengthB, length, Nat.min_self]
  · dsimp only
    rw [length_batchStrides, length_zipWith, lengthA, lengthB, Nat.min_self]

theorem batch_eq (multiplies : Multiplies sa sb br) : (denseGeometry sa sb).batch =
    (batchDims br sa).zipWith max (batchDims br sb) := by
  rw [denseGeometry_eq multiplies.rank multiplies.twoA multiplies.twoB]

theorem positive_batch (multiplies : Multiplies sa sb br) :
    ∀ d ∈ (denseGeometry sa sb).batch, 0 < d := by
  rw [multiplies.batch_eq]
  exact positive_max (positive_batchDims multiplies.positiveA br)

/-- The pinned coordinates of an output row are inside the first operand. -/
theorem inside_a (multiplies : Multiplies sa sb br)
    (inside : RowMajor.Inside bs (denseGeometry sa sb).batch) (lowM : 0 ≤ m)
    (highM : m < dimFromEnd sa 2) (lowK : 0 ≤ k) (highK : k < dimFromEnd sa 1) :
    RowMajor.Inside ((batchDims br sa).zipWith pin bs ++ [m, k])
      (padLeft (br + 2) sa) := by
  rw [padLeft_eq_matrix multiplies.twoA multiplies.rankA]
  rw [multiplies.batch_eq] at inside
  exact inside_matrix (inside_pin multiplies.batch
    (positive_batchDims multiplies.positiveA br) inside) lowM highM lowK highK

/-- The pinned coordinates of an output element are inside the second operand. -/
theorem inside_b (multiplies : Multiplies sa sb br) {n : Int}
    (inside : RowMajor.Inside bs (denseGeometry sa sb).batch) (lowK : 0 ≤ k)
    (highK : k < dimFromEnd sa 1) (lowN : 0 ≤ n) (highN : n < dimFromEnd sb 1) :
    RowMajor.Inside ((batchDims br sb).zipWith pin bs ++ [k, n])
      (padLeft (br + 2) sb) := by
  rw [padLeft_eq_matrix multiplies.twoB multiplies.rankB]
  rw [multiplies.batch_eq, zipWith_comm_of_comm max_comm] at inside
  exact inside_matrix (inside_pin (List.Forall₂.flip (multiplies.batch.imp fun _ _ h => h.symm))
    (positive_batchDims multiplies.positiveB br) inside) lowK (multiplies.inner ▸ highK) lowN highN

end Multiplies

/-! ## Padded views -/

variable {r : Graph}

/-- **A padded view reads an operand at pinned coordinates**: its batch axes lead to an offset, and
each step in a matrix moves by the stride of its axis. -/
theorem reads_padTo
    (follows : Follows r view t index) (two : 2 ≤ (shapeIn r t).length)
    (rank : (shapeIn r t).length ≤ br + 2) (length : cs.length = br) {s₁ s₂ : Int}
    (inside : RowMajor.Inside ((batchDims br (shapeIn r t)).zipWith pin cs ++ [p, q])
      (padLeft (br + 2) (shapeIn r t)))
    (first : singleStride ((padTo (br + 2) view).getD br []) = some s₁)
    (second : singleStride ((padTo (br + 2) view).getD (br + 1) []) = some s₂) :
    ∃ o, Reaches ((padTo (br + 2) view).take br)
        (((padTo (br + 2) view).take br).zipWith squash cs) o ∧
      index (flat (padLeft (br + 2) (shapeIn r t))
        ((batchDims br (shapeIn r t)).zipWith pin cs ++ [p, q])) = o + (p * s₁ + q * s₂) := by
  obtain ⟨ys, split, within, position⟩ := inside_padded inside
  have padded : flat (padLeft (br + 2) (shapeIn r t))
      ((batchDims br (shapeIn r t)).zipWith pin cs ++ [p, q]) = flat (shapeIn r t) ys := position
  rcases follows with ⟨extents, leads⟩ | ⟨rfl, still⟩
  · have viewRank : view.length = (shapeIn r t).length := by
      rw [← extents, dims, length_map]
    have axes : dims (padTo (br + 2) view) = padLeft (br + 2) (shapeIn r t) := by
      rw [padTo, dims, map_append, ← dims, ← dims, extents, viewRank, Strided.units, dims,
        map_replicate]
      rfl
    have count : (padTo (br + 2) view).length = br + 2 := by
      rw [← length_map, ← dims, axes, Cpu.length_padLeft rank]
    have whole : Reaches (padTo (br + 2) view)
        ((batchDims br (shapeIn r t)).zipWith pin cs ++ [p, q])
        (index (flat (shapeIn r t) ys)) := by
      have joined := (Strided.reaches_units (br + 2 - view.length)).append (leads ys within)
      rw [Int.zero_add, viewRank] at joined
      rw [padTo, split, viewRank]
      exact joined
    have batch : dims ((padTo (br + 2) view).take br) = batchDims br (shapeIn r t) := by
      rw [dims, map_take, ← dims, axes, padLeft_eq_matrix two rank,
        take_left' (length_batchDims rank)]
    have parts : padTo (br + 2) view = (padTo (br + 2) view).take br ++
        [(padTo (br + 2) view).getD br [], (padTo (br + 2) view).getD (br + 1) []] := by
      conv_lhs => rw [← take_append_drop br (padTo (br + 2) view)]
      congr 1
      rw [drop_eq_getElem_cons (by omega), drop_eq_getElem_cons (by omega),
        drop_eq_nil_of_le (by omega)]
      simp [getD_eq_getElem?_getD, count]
    rw [parts] at whole
    obtain ⟨o, o', outer, inner, sum⟩ := whole.split (by
      rw [length_zipWith, length_batchDims rank, length, length_take, count]
      omega)
    refine ⟨o, ?_, ?_⟩
    · rw [zipWith_squash, batch]
      exact outer
    · rw [padded, sum]
      cases inner with
      | cons row rest =>
        cases rest with
        | cons column none =>
          cases none
          rw [spans_singleStride first row, spans_singleStride second column, Int.add_zero]
  · have units : padTo (br + 2) [] = Strided.units (br + 2) := append_nil _
    have stride : singleStride [⟨1, 0⟩] = some 0 := rfl
    have axis : ∀ i < br + 2, (Strided.units (br + 2)).getD i [] = [⟨1, 0⟩] := by
      intro i small
      rw [Strided.units, getD_eq_getElem?_getD, getElem?_replicate, if_pos small]
      rfl
    rw [units, axis _ (by omega), stride] at first second
    obtain rfl := Option.some.inj first
    obtain rfl := Option.some.inj second
    have bound := flat_inside within
    refine ⟨0, ?_, ?_⟩
    · have front : (Strided.units (br + 2)).take br = Strided.units br := by
        rw [Strided.units, take_replicate, Nat.min_eq_left (by omega), Strided.units]
      have zeros : (Strided.units br).zipWith squash cs = List.replicate br 0 := by
        rw [Strided.units, ← length]
        clear inside split length front padded position
        induction cs with
        | nil => rfl
        | cons c cs ih => exact congrArg (List.cons 0) ih
      rw [units, front, zeros]
      exact Strided.reaches_units br
    · rw [padded, still _ bound.1 bound.2, Int.mul_zero, Int.mul_zero, Int.add_zero, Int.add_zero]

/-! ## The stamped view -/

theorem viewGeometry_stampView (nd : Node) (a b : TensorId) (v : MatMulView) :
    viewGeometry (stampView nd a b v) =
      { batch := v.dims.take (v.dims.length - 2)
        aStride := v.aStride.take (v.dims.length - 2)
        bStride := v.bStride.take (v.dims.length - 2)
        M := v.M
        N := v.N
        K := v.K
        aM := v.aStride.getD (v.dims.length - 2) 0
        aK := v.aK
        bK := v.bK
        bN := v.bStride.getD (v.dims.length - 2 + 1) 0 } := by
  unfold viewGeometry stampView Attributes.getints Attributes.geti
  dsimp only
  simp only [Std.ExtTreeMap.getElem?_insert]
  simp +decide [intsAttr, intAttr]

/-- The geometry of a composed view: the common batch blocks, and the strides in a matrix. -/
theorem viewGeometry_composed
    (found : composeMatMulView sa sb out a b = some v) (nd : Node) (x y : TensorId) :
    ∃ aM aK bK bN blocks, singleStride ((padTo out.length a).getD (out.length - 2) []) = some aM ∧
      singleStride ((padTo out.length a).getD (out.length - 2 + 1) []) = some aK ∧
      singleStride ((padTo out.length b).getD (out.length - 2) []) = some bK ∧
      singleStride ((padTo out.length b).getD (out.length - 2 + 1) []) = some bN ∧
      batchBlocks ((padTo out.length a).take (out.length - 2))
        ((padTo out.length b).take (out.length - 2)) (out.take (out.length - 2)) = some blocks ∧
      viewGeometry (stampView nd x y v) =
        { batch := blocks.map (·.size)
          aStride := blocks.map (·.aStride)
          bStride := blocks.map (·.bStride)
          M := dimFromEnd sa 2
          N := dimFromEnd sb 1
          K := dimFromEnd sa 1
          aM, aK, bK, bN } := by
  unfold composeMatMulView at found
  simp only [bind, Option.bind_eq_some_iff, Option.guard_eq_some', pure, Option.some.injEq] at found
  obtain ⟨aM, foundM, aK, foundK, bK, foundK', bN, foundN, blocks, refined, -, -, -, -, rfl⟩ := found
  refine ⟨aM, aK, bK, bN, blocks, foundM, foundK, foundK', foundN, refined, ?_⟩
  rw [viewGeometry_stampView]
  have length : (blocks.map (·.size) ++ [dimFromEnd sa 2, dimFromEnd sb 1]).length - 2 =
      blocks.length := by
    rw [length_append, length_map]
    rfl
  dsimp only
  rw [length, take_left' (length_map _), take_left' (length_map _), take_left' (length_map _)]
  simp [getD_eq_getElem?_getD]

/-- The output shape of a product of stacks of matrices. -/
theorem matmulShape_eq (multiplies : Multiplies sa sb br) : matmulShape sa sb =
    (denseGeometry sa sb).batch ++ [dimFromEnd sa 2, dimFromEnd sb 1] := by
  have notA : ¬ sa.length = 1 := by
    have two := multiplies.twoA
    omega
  have notB : ¬ sb.length = 1 := by
    have two := multiplies.twoB
    omega
  have dense := denseGeometry_eq multiplies.rank multiplies.twoA multiplies.twoB
  rw [matmulShape, if_neg notA, if_neg notB, append_assoc, dense]
  exact if_neg (by simp)

theorem length_batch (multiplies : Multiplies sa sb br) :
    (denseGeometry sa sb).batch.length = br := by
  rw [multiplies.batch_eq, length_zipWith, length_batchDims multiplies.rankA,
    length_batchDims multiplies.rankB, Nat.min_self]

theorem positive_padTo (positive : ∀ axis ∈ view, Positive axis) (rank n : Nat) :
    ∀ axis ∈ (padTo rank view).take n, Positive axis := by
  intro axis mem
  rcases mem_append.mp (mem_of_mem_take mem) with unit | inView
  · rw [eq_of_mem_replicate unit]
    intro s only
    rw [mem_singleton.mp only]
    exact Int.one_pos
  · exact positive axis inView

theorem length_padTo {rank : Nat} (fits : view.length ≤ rank) :
    (padTo rank view).length = rank := by
  rw [padTo, length_append, Strided.units, length_replicate]
  omega

theorem Follows.length_le
    (follows : Follows r view t index) : view.length ≤ (shapeIn r t).length := by
  rcases follows with ⟨extents, -⟩ | ⟨rfl, -⟩
  · rw [← extents, dims, length_map]
  · exact Nat.zero_le _

/-- **A product reads through a composed view what the dense run reads**, when both views follow the
operands. -/
theorem sameReads_of_follows {A B : TensorId} {br : Nat} (sized : Sized r)
    (multiplies : Multiplies (shapeIn r A) (shapeIn r B) br) {indexA indexB : Int → Int}
    (followsA : Follows r a A indexA) (followsB : Follows r b B indexB)
    (found : composeMatMulView (shapeIn r A) (shapeIn r B)
      (matmulShape (shapeIn r A) (shapeIn r B)) a b = some v) (nd : Node) (x y : TensorId) :
    (denseGeometry (shapeIn r A) (shapeIn r B)).SameReads
      (viewGeometry (stampView nd x y v)) indexA indexB := by
  obtain ⟨aM, aK, bK, bN, blocks, foundM, foundK, foundK', foundN, refined, geometry⟩ :=
    viewGeometry_composed found nd x y
  have batchLength := length_batch multiplies
  have shape := matmulShape_eq multiplies
  have length : (matmulShape (shapeIn r A) (shapeIn r B)).length = br + 2 := by
    rw [shape, length_append, batchLength]
    rfl
  have batch : (matmulShape (shapeIn r A) (shapeIn r B)).take br =
      (denseGeometry (shapeIn r A) (shapeIn r B)).batch := by
    rw [shape, take_left' batchLength]
  rw [length, Nat.add_sub_cancel] at foundM foundK foundK' foundN refined
  rw [batch] at refined
  have someA : 0 < sizeIn r A := size_pos multiplies.positiveA
  have someB : 0 < sizeIn r B := size_pos multiplies.positiveB
  have lengthA : ((padTo (br + 2) a).take br).length =
      (denseGeometry (shapeIn r A) (shapeIn r B)).batch.length := by
    rw [length_take, length_padTo (followsA.length_le.trans multiplies.rankA), batchLength]
    omega
  have lengthB : ((padTo (br + 2) b).take br).length =
      (denseGeometry (shapeIn r A) (shapeIn r B)).batch.length := by
    rw [length_take, length_padTo (followsB.length_le.trans multiplies.rankB), batchLength]
    omega
  obtain ⟨sizes, spansA, spansB⟩ := spans_batchBlocks lengthA lengthB
    (positive_padTo (followsA.positive sized someA) _ _)
    (positive_padTo (followsB.positive sized someB) _ _) multiplies.positive_batch refined
  obtain ⟨denseM, denseN, denseK⟩ := multiplies.dims
  have someM : 0 < dimFromEnd (shapeIn r A) 2 :=
    positive_dimFromEnd multiplies.positiveA (by omega) multiplies.twoA
  have sizesA : (partA blocks).map (·.size) = blocks.map (·.size) := by
    rw [partA, map_map]
    rfl
  have stridesA : (partA blocks).map (·.stride) = blocks.map (·.aStride) := by
    rw [partA, map_map]
    rfl
  have sizesB : (partB blocks).map (·.size) = blocks.map (·.size) := by
    rw [partB, map_map]
    rfl
  have stridesB : (partB blocks).map (·.stride) = blocks.map (·.bStride) := by
    rw [partB, map_map]
    rfl
  refine ⟨?_, ?_, ?_, ?_, ?_⟩
  · rw [geometry, Geometry.rows, Geometry.rows, denseM]
    dsimp only
    rw [sizes]
  · rw [geometry, denseN]
  · rw [geometry, denseK]
  · intro row k low high lowK highK
    obtain ⟨bs, m, inside, lowM, highM, rfl⟩ :=
      exists_row multiplies.positive_batch (denseM ▸ someM) low high
    rw [denseM] at highM
    rw [denseK] at highK
    obtain ⟨o, reaches, index⟩ := reads_padTo followsA multiplies.twoA multiplies.rankA
      (inside.length_eq.trans batchLength) (multiplies.inside_a inside lowM highM lowK highK)
      foundM foundK
    obtain ⟨ds, within, position, offset⟩ := (spansA bs o inside reaches).digits
    rw [sizesA] at within position
    rw [stridesA] at offset
    rw [multiplies.dense_a inside lowM highM, index, ← position, denseM, geometry,
      aBase_eq (by simp) within lowM highM, offset]
    dsimp only
    ring
  · intro row n k low high lowN highN lowK highK
    obtain ⟨bs, m, inside, lowM, highM, rfl⟩ :=
      exists_row multiplies.positive_batch (denseM ▸ someM) low high
    rw [denseM] at highM
    rw [denseK] at highK
    rw [denseN] at highN
    obtain ⟨o, reaches, index⟩ := reads_padTo followsB multiplies.twoB multiplies.rankB
      (inside.length_eq.trans batchLength) (multiplies.inside_b inside lowK highK lowN highN)
      foundK' foundN
    obtain ⟨ds, within, position, offset⟩ := (spansB bs o inside reaches).digits
    rw [sizesB] at within position
    rw [stridesB] at offset
    rw [multiplies.dense_b inside lowM highM, index, ← position, denseM, geometry,
      bBase_eq (by simp) within lowM highM, offset]

/-! ## Every position is read -/

namespace Multiplies

theorem size_padLeft_lt {s : Shape} {rank : Nat} {cs : List Int}
    (inside : RowMajor.Inside cs (padLeft rank s)) :
    0 ≤ flat (padLeft rank s) cs ∧ flat (padLeft rank s) cs < size s := by
  rw [← Cpu.size_padLeft rank s]
  exact flat_inside inside

theorem within (multiplies : Multiplies sa sb br) :
    (denseGeometry sa sb).Within (size sa) (size sb) := by
  obtain ⟨denseM, denseN, denseK⟩ := multiplies.dims
  have someM : 0 < (denseGeometry sa sb).M :=
    denseM ▸ positive_dimFromEnd multiplies.positiveA (by omega) multiplies.twoA
  refine ⟨?_, ?_⟩
  · intro row k low high lowK highK
    obtain ⟨bs, m, inside, lowM, highM, rfl⟩ := exists_row multiplies.positive_batch someM low high
    rw [multiplies.dense_a inside lowM (denseM ▸ highM)]
    exact size_padLeft_lt (multiplies.inside_a inside lowM (denseM ▸ highM) lowK (denseK ▸ highK))
  · intro row n k low high lowN highN lowK highK
    obtain ⟨bs, m, inside, lowM, highM, rfl⟩ := exists_row multiplies.positive_batch someM low high
    rw [multiplies.dense_b inside lowM (denseM ▸ highM)]
    exact size_padLeft_lt (multiplies.inside_b inside lowK (denseK ▸ highK) lowN (denseN ▸ highN))

/-- The coordinates of a position in a stack of matrices. -/
theorem exists_matrix {s : Shape} (two : 2 ≤ s.length) (rank : s.length ≤ br + 2)
    (positive : ∀ d ∈ s, 0 < d) {i : Int} (low : 0 ≤ i) (high : i < size s) :
    ∃ ys p q, RowMajor.Inside ys (batchDims br s) ∧ 0 ≤ p ∧ p < dimFromEnd s 2 ∧ 0 ≤ q ∧
      q < dimFromEnd s 1 ∧ flat (padLeft (br + 2) s) (ys ++ [p, q]) = i := by
  have matrix := padLeft_eq_matrix two rank
  have all : ∀ d ∈ padLeft (br + 2) s, 0 < d := by
    intro d mem
    rcases mem_append.mp mem with unit | inS
    · rw [eq_of_mem_replicate unit]
      exact Int.one_pos
    · exact positive d inS
  rw [← Cpu.size_padLeft (br + 2) s] at high
  obtain ⟨cs, inside, rfl⟩ := exists_coords all low high
  rw [matrix] at inside ⊢
  obtain ⟨ys, zs, outer, inner, rfl⟩ : ∃ ys zs, RowMajor.Inside ys (batchDims br s) ∧
      RowMajor.Inside zs [dimFromEnd s 2, dimFromEnd s 1] ∧ cs = ys ++ zs := by
    refine ⟨cs.take (batchDims br s).length, cs.drop (batchDims br s).length, ?_, ?_,
      (take_append_drop _ cs).symm⟩
    · exact forall₂_take_append cs _ _ inside
    · exact forall₂_drop_append cs _ _ inside
  cases inner with
  | cons first rest =>
    cases rest with
    | cons second none =>
      cases none
      exact ⟨ys, _, _, outer, first.1, first.2, second.1, second.2, rfl⟩

/-- **Every element of the first operand is read.** -/
theorem reads_all_a (multiplies : Multiplies sa sb br) {i : Int} (low : 0 ≤ i)
    (high : i < size sa) : ∃ row k, 0 ≤ row ∧ row < (denseGeometry sa sb).rows ∧
      0 ≤ k ∧ k < (denseGeometry sa sb).K ∧
      (denseGeometry sa sb).aBase row + k * (denseGeometry sa sb).aK = i := by
  obtain ⟨denseM, -, denseK⟩ := multiplies.dims
  obtain ⟨ys, m, k, inside, lowM, highM, lowK, highK, position⟩ :=
    exists_matrix multiplies.twoA multiplies.rankA multiplies.positiveA low high
  obtain ⟨within, pinned⟩ := exists_pin multiplies.batch.length_eq inside
  rw [← multiplies.batch_eq] at within
  obtain ⟨lowRow, highRow⟩ := row_inside within lowM (denseM ▸ highM)
  refine ⟨_, k, lowRow, highRow, lowK, denseK ▸ highK, ?_⟩
  rw [multiplies.dense_a within lowM highM, pinned, position]

/-- **Every element of the second operand is read.** -/
theorem reads_all_b (multiplies : Multiplies sa sb br) {i : Int} (low : 0 ≤ i)
    (high : i < size sb) : ∃ row n k, 0 ≤ row ∧ row < (denseGeometry sa sb).rows ∧
      0 ≤ n ∧ n < (denseGeometry sa sb).N ∧ 0 ≤ k ∧ k < (denseGeometry sa sb).K ∧
      (denseGeometry sa sb).bBase row + (k * (denseGeometry sa sb).bK +
        n * (denseGeometry sa sb).bN) = i := by
  obtain ⟨denseM, denseN, denseK⟩ := multiplies.dims
  have someM : 0 < dimFromEnd sa 2 :=
    positive_dimFromEnd multiplies.positiveA (by omega) multiplies.twoA
  obtain ⟨ys, k, n, inside, lowK, highK, lowN, highN, position⟩ :=
    exists_matrix multiplies.twoB multiplies.rankB multiplies.positiveB low high
  obtain ⟨within, pinned⟩ := exists_pin multiplies.batch.length_eq.symm inside
  rw [zipWith_comm_of_comm max_comm, ← multiplies.batch_eq] at within
  obtain ⟨lowRow, highRow⟩ := row_inside within le_rfl (denseM ▸ someM)
  refine ⟨_, n, k, lowRow, highRow, lowN, denseN ▸ highN, lowK, ?_, ?_⟩
  · rw [denseK, multiplies.inner]
    exact highK
  · rw [multiplies.dense_b within le_rfl someM, pinned, position]

end Multiplies

/-! ## Views that do not move -/

theorem still_concat {f : RefinedBlock → Int} {out : List RefinedBlock} {last : RefinedBlock}
    (held : ∀ r ∈ out, f r = 0) (zero : f last = 0) : ∀ r ∈ out ++ [last], f r = 0 :=
  forall_mem_append.mpr ⟨held, forall_mem_singleton.mpr zero⟩

theorem still_refineBlocks {fuel : Nat} {pa pb : List SubDim} {out : List RefinedBlock}
    (found : refineBlocks fuel pa pb out = some blocks) :
    ((∀ s ∈ pa, s.stride = 0) → (∀ r ∈ out, r.aStride = 0) → ∀ r ∈ blocks, r.aStride = 0) ∧
      ((∀ s ∈ pb, s.stride = 0) → (∀ r ∈ out, r.bStride = 0) → ∀ r ∈ blocks, r.bStride = 0) := by
  induction fuel generalizing pa pb out with
  | zero =>
    cases pa <;> cases pb <;> cases found
    exact ⟨fun _ held => held, fun _ held => held⟩
  | succ fuel ih =>
    cases pa with
    | nil =>
      cases pb <;> cases found
      exact ⟨fun _ held => held, fun _ held => held⟩
    | cons x pa =>
      cases pb with
      | nil => cases found
      | cons y pb =>
        rw [refineBlocks] at found
        rw [forall_mem_cons, forall_mem_cons]
        split at found
        · obtain ⟨restA, restB⟩ := ih found
          refine ⟨fun still held => restA still.2 ?_, fun still held => restB still.2 ?_⟩
          all_goals
            split
            · simp
            · exact held
        split at found
        · obtain ⟨restA, restB⟩ := ih found
          exact ⟨fun still held => restA still.2 (still_concat held still.1),
            fun still held => restB still.2 (still_concat held still.1)⟩
        split at found
        · split at found
          · cases found
          obtain ⟨restA, restB⟩ := ih found
          rw [forall_mem_cons] at restA
          refine ⟨fun still held => restA still (still_concat held ?_),
            fun still held => restB still.2 (still_concat held still.1)⟩
          dsimp only
          rw [still.1, Int.zero_mul]
        · split at found
          · cases found
          obtain ⟨restA, restB⟩ := ih found
          rw [forall_mem_cons] at restB
          refine ⟨fun still held => restA still.2 (still_concat held still.1),
            fun still held => restB still (still_concat held ?_)⟩
          dsimp only
          rw [still.1, Int.zero_mul]

theorem still_batchAxis {axis axis' : ViewAxis} {want : Int} (still : ∀ s ∈ axis, s.stride = 0)
    (found : batchAxis axis want = some axis') : ∀ s ∈ axis', s.stride = 0 := by
  unfold batchAxis at found
  split at found
  · obtain rfl := Option.some.inj found
    exact still_canonicalAxis still
  · split at found
    · obtain rfl := Option.some.inj found
      exact forall_mem_singleton.mpr rfl
    · cases found

/-- Operands that do not move have blocks that do not move. -/
theorem still_batchBlocks {va vb : View}
    (found : batchBlocks va vb out = some blocks) :
    (Still va → ∀ r ∈ blocks, r.aStride = 0) ∧ (Still vb → ∀ r ∈ blocks, r.bStride = 0) := by
  have none : (Still va → ∀ r ∈ ([] : List RefinedBlock), r.aStride = 0) ∧
      (Still vb → ∀ r ∈ ([] : List RefinedBlock), r.bStride = 0) :=
    ⟨fun _ r mem => (nomatch mem), fun _ r mem => nomatch mem⟩
  induction va generalizing vb out blocks with
  | nil =>
    obtain rfl := Option.some.inj found
    exact none
  | cons a va ih =>
    cases vb with
    | nil =>
      obtain rfl := Option.some.inj found
      exact none
    | cons b vb =>
      cases out with
      | nil =>
        obtain rfl := Option.some.inj found
        exact none
      | cons want out =>
        rw [batchBlocks] at found
        simp only [bind, Option.bind_eq_some_iff, pure, Option.some.injEq] at found
        obtain ⟨axA, foundA, axB, foundB, refined, common, rest, later, rfl⟩ := found
        obtain ⟨laterA, laterB⟩ := ih later
          ⟨fun _ r mem => (nomatch mem), fun _ r mem => nomatch mem⟩
        obtain ⟨hereA, hereB⟩ := still_refineBlocks common
        refine ⟨fun still => forall_mem_append.mpr ⟨hereA ?_ ?_, laterA ?_⟩,
          fun still => forall_mem_append.mpr ⟨hereB ?_ ?_, laterB ?_⟩⟩
        · exact still_batchAxis (still a mem_cons_self) foundA
        · exact fun r mem => nomatch mem
        · exact fun axis mem => still axis (mem_cons_of_mem _ mem)
        · exact still_batchAxis (still b mem_cons_self) foundB
        · exact fun r mem => nomatch mem
        · exact fun axis mem => still axis (mem_cons_of_mem _ mem)

theorem still_singleStride (still : Still view) {v : Int}
    (single : singleStride (view.getD i []) = some v) : v = 0 := by
  have axis : ∀ s ∈ view.getD i [], s.stride = 0 := by
    rw [getD_eq_getElem?_getD]
    cases found : view[i]? with
    | none => exact fun s inside => nomatch inside
    | some axis => exact still axis (mem_of_getElem? found)
  unfold singleStride at single
  split at single
  · rename_i s canonical
    obtain rfl := Option.some.inj single
    refine still_canonicalAxis axis s ?_
    rw [canonical]
    exact mem_singleton_self s
  · cases single

theorem still_padTo (still : Still view) (rank : Nat) : Still (padTo rank view) :=
  still_append (still_units _) still

theorem still_take (still : Still view) (n : Nat) : Still (view.take n) :=
  fun axis mem => still axis (mem_of_mem_take mem)

theorem unwind_still {axes : List (Int × Int)} (still : ∀ axis ∈ axes, axis.2 = 0) (i : Int) :
    (unwind axes i).2 = 0 := by
  induction axes with
  | nil => rfl
  | cons axis axes ih =>
    rw [unwind, foldr_cons, ← unwind, still axis mem_cons_self, Int.mul_zero, Int.add_zero]
    exact ih fun a mem => still a (mem_cons_of_mem _ mem)

/-- **A product reads one element through a view that does not move.** -/
theorem reads_still
    (found : composeMatMulView sa sb out a b = some v) (nd : Node) (x y : TensorId) :
    (Still a → ∀ row k, (viewGeometry (stampView nd x y v)).aBase row +
      k * (viewGeometry (stampView nd x y v)).aK = 0) ∧
    (Still b → ∀ row n k, (viewGeometry (stampView nd x y v)).bBase row +
      (k * (viewGeometry (stampView nd x y v)).bK +
        n * (viewGeometry (stampView nd x y v)).bN) = 0) := by
  obtain ⟨aM, aK, bK, bN, blocks, foundM, foundK, foundK', foundN, refined, geometry⟩ :=
    viewGeometry_composed found nd x y
  rw [geometry]
  have zeros : ∀ f : RefinedBlock → Int, (∀ r ∈ blocks, f r = 0) →
      ∀ axis ∈ (blocks.map (·.size)).zip (blocks.map f), axis.2 = 0 := by
    intro f held axis mem
    obtain ⟨r, inside, same⟩ := mem_map.mp (of_mem_zip mem).2
    rw [← same, held r inside]
  refine ⟨fun still row k => ?_, fun still row n k => ?_⟩
  · obtain rfl := still_singleStride (still_padTo still _) foundM
    obtain rfl := still_singleStride (still_padTo still _) foundK
    have blocksStill := (still_batchBlocks refined).1 (still_take (still_padTo still _) _)
    rw [Geometry.aBase, unwind_still (zeros (·.aStride) blocksStill)]
    simp
  · obtain rfl := still_singleStride (still_padTo still _) foundK'
    obtain rfl := still_singleStride (still_padTo still _) foundN
    have blocksStill := (still_batchBlocks refined).2 (still_take (still_padTo still _) _)
    rw [Geometry.bBase, unwind_still (zeros (·.bStride) blocksStill)]
    simp

end Vknn.Import
