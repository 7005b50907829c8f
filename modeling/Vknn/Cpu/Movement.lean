import Vknn.Ir.Graph
import Vknn.Lib.RowMajor

/-!
# Kernels that move elements

A transposition, a slice and a strided view all fill their output the same way:
the position of an output element is decoded into coordinates, and the coordinates
say which input element is copied there.  They differ in what a coordinate adds to
the input position.
-/

namespace Vknn.Cpu

open List RowMajor Int

variable {α : Type}

def rowStridesOf (s : Shape) : List Int := RowMajor.strides s

/-- Read an element of a buffer.  Outside the buffer, where the source has no say, the element is
`zero`. -/
def readAt (zero : α) (X : List α) (i : Int) : α := if 0 ≤ i then X.getD i.toNat zero else zero

/-- Fill an output: decode each position, and read the input where the terms of the coordinates
lead from a base. -/
def gather (zero : α) (out : Shape) (fs : List (Int → Int)) (base : Int) (X : List α) : List α :=
  (List.range (numElements out).toNat).map fun (oi : Nat) =>
    readAt zero X (RowMajor.walk (rowStridesOf out) fs oi base)

/-- A folded movement chain: a stride for each output axis, and a base. -/
def runViewGather (zero : α) (out : Shape) (vs : List Int) (base : Int) (X : List α) : List α :=
  gather zero out (vs.map fun v c => c * v) base X

/-! ## Transpose -/

/-- The permutation of a transposition: the attribute, or all axes reversed where it does not fit
the rank; a negative axis counts from the end. -/
def transposePerm (perm : List Int) (rank : Nat) : List Int :=
  (if perm.length = rank then perm else (List.range rank).reverse.map fun (i : Nat) => (i : Int)).map
    fun p => if p < 0 then p + rank else p

/-- The input shape read through the permutation. -/
def transposeShape (perm : List Int) (X : Shape) : Shape :=
  (transposePerm perm X.length).map fun p => X.getD p.toNat 0

def transpose (zero : α) (perm : List Int) (shape : Shape) (X : List α) : List α :=
  gather zero (transposeShape perm shape)
    ((transposePerm perm shape.length).map fun p c => c * (rowStridesOf shape).getD p.toNat 0) 0 X

/-! ## Slice -/

/-- One axis of a resolved slice: where the walk begins, and how many elements it yields. -/
structure SliceAxisBounds where
  start : Int := 0
  count : Int := 0

/-- Resolve one axis of a slice against the input extent. -/
def resolveSliceAxis (dim rawStart rawEnd step : Int) : SliceAxisBounds :=
  if dim ≤ 0 ∨ step = 0 then {}
  else
    let kFarNegative := -(dim + 1)
    let bound := fun raw : Int =>
      if raw < 0 then (if raw < kFarNegative then kFarNegative else raw + dim) else raw
    let start := bound rawStart
    let last := bound rawEnd
    if step > 0 then
      let start := max 0 (min start dim)
      let last := max 0 (min last dim)
      ⟨start, max 0 ((last - start + step - 1).tdiv step)⟩
    else
      let start := max 0 (min start (dim - 1))
      let last := max (-1) (min last (dim - 1))
      let stride := -step
      ⟨start, max 0 ((start - last + stride - 1).tdiv stride)⟩

/-- The parameters of a slice. -/
structure SliceParams where
  starts : List Int
  ends : List Int
  axes : List Int
  steps : List Int

/-- One entry of the parameter lists: the axis it is for, its bounds and its step. -/
structure SliceEntry where
  axis : Nat
  start : Int
  last : Int
  step : Int

def toInt32 (n : Int) : Int := n.bmod (2 ^ 32)

/-- The entries that name an axis of the input; the others are skipped. -/
def SliceParams.entries (p : SliceParams) (rank : Nat) : List SliceEntry :=
  (List.range (min p.starts.length p.ends.length)).filterMap fun (k : Nat) =>
    let ax := toInt32 (if p.axes.isEmpty ∨ p.axes.length ≤ k then (k : Int) else p.axes.getD k 0)
    let ax := if ax < 0 then ax + rank else ax
    if ax < 0 ∨ (rank : Int) ≤ ax then none
    else some ⟨ax.toNat, p.starts.getD k 0, p.ends.getD k 0, p.steps.getD k 1⟩

/-- The walk of one axis: its begin and step, and the number of elements. -/
structure SliceWalk where
  start : Int
  step : Int
  extent : Int

/-- The walks of the axes: whole axes, and those the entries name; a later entry of an axis wins. -/
def sliceWalks (p : SliceParams) (shape : Shape) : List SliceWalk :=
  (p.entries shape.length).foldl (fun walks entry =>
      let b := resolveSliceAxis (shape.getD entry.axis 0) entry.start entry.last entry.step
      walks.set entry.axis ⟨b.start, entry.step, b.count⟩)
    (shape.map fun d => ⟨0, 1, d⟩)

def sliceShape (p : SliceParams) (shape : Shape) : Shape := (sliceWalks p shape).map (·.extent)

def slice (zero : α) (p : SliceParams) (shape : Shape) (X : List α) : List α :=
  gather zero (sliceShape p shape)
    ((sliceWalks p shape).zipWith (fun w s c => (w.start + c * w.step) * s) (rowStridesOf shape)) 0 X

/-! ## What a gather reads -/

variable {out s shape : Shape}

theorem numElements_eq_size (axes : s ≠ []) : numElements s = size s := by
  have folded : ∀ (s : Shape) (n : Int), s.foldl (fun n d => n * d) n = n * size s := by
    intro s
    induction s with
    | nil => intro n; simp [size]
    | cons d s ih =>
      intro n
      rw [foldl_cons, ih, size, Int.mul_assoc]
  rw [numElements, if_neg (by simpa using axes), folded, Int.one_mul]

/-- A shape whose positions all have coordinates. -/
structure Solid (s : Shape) : Prop where
  axes : s ≠ []
  positive : ∀ d ∈ s, 0 < d

theorem Solid.of_numElements (axes : s ≠ []) (sizes : ∀ d ∈ s, 0 ≤ d)
    (some : 0 < numElements s) : Solid s := by
  rw [numElements_eq_size axes] at some
  exact ⟨axes, positive_of_size_pos sizes some⟩

/-- **An element of a gather** is the input element its coordinates lead to. -/
theorem readAt_gather (zero : α) (solid : Solid out) (fs : List (Int → Int))
    (base : Int) (X : List α) {cs : List Int} (inside : RowMajor.Inside cs out) :
    readAt zero (gather zero out fs base X) (flat out cs) =
      readAt zero X (base + RowMajor.terms fs cs) := by
  obtain ⟨low, high⟩ := flat_inside inside
  have bound : (flat out cs).toNat < (numElements out).toNat := by
    rw [numElements_eq_size solid.axes]
    omega
  rw [readAt, if_pos low, gather, getD_eq_getElem?_getD, getElem?_map,
    getElem?_range bound, Option.map_some, Option.getD_some, toNat_of_nonneg low,
    rowStridesOf, walk_flat inside]

/-- Two gathers that read the same element for all coordinates fill the same output. -/
theorem gather_congr (zero : α) (solid : Solid out) {fs fs' : List (Int → Int)}
    {base base' : Int} {X X' : List α}
    (same : ∀ cs, RowMajor.Inside cs out → readAt zero X (base + RowMajor.terms fs cs) =
      readAt zero X' (base' + RowMajor.terms fs' cs)) :
    gather zero out fs base X = gather zero out fs' base' X' := by
  refine map_congr_left fun oi mem => ?_
  have bound : (oi : Int) < size out := by
    rw [← numElements_eq_size solid.axes]
    have small := mem_range.mp mem
    omega
  obtain ⟨cs, inside, here⟩ := exists_coords solid.positive (natCast_nonneg oi) bound
  rw [← here, rowStridesOf, walk_flat inside, walk_flat inside]
  exact same cs inside

/-- Terms of output coordinates that lead to the position of input coordinates. -/
structure Leads (out shape : Shape) (fs : List (Int → Int)) (source : List Int → List Int) :
    Prop where
  inside : ∀ cs, RowMajor.Inside cs out → RowMajor.Inside (source cs) shape
  position : ∀ cs, RowMajor.Inside cs out → RowMajor.terms fs cs = flat shape (source cs)

/-! ## What a transposition reads -/

/-- A permutation of the axes, once negative ones are counted from the end. -/
def Permutes (perm : List Int) : Prop :=
  (perm.map toNat).Perm (List.range perm.length) ∧ ∀ p ∈ perm, 0 ≤ p

@[simp] theorem length_transposePerm (perm : List Int) (rank : Nat) :
    (transposePerm perm rank).length = rank := by
  unfold transposePerm
  split
  · rw [length_map]
    assumption
  · simp

@[simp] theorem length_transposeShape (perm : List Int) (shape : Shape) :
    (transposeShape perm shape).length = shape.length := by
  simp [transposeShape]

/-- The input coordinates of a transposition. -/
def transposeSource (perm : List Int) (rank : Nat) : List Int → List Int :=
  unpermute ((transposePerm perm rank).map toNat)

/-- The terms of a transposition lead to the unpermuted coordinates. -/
theorem leads_transpose {perm : List Int}
    (permutes : Permutes (transposePerm perm shape.length)) :
    Leads (transposeShape perm shape) shape
      ((transposePerm perm shape.length).map fun p c => c * (rowStridesOf shape).getD p.toNat 0)
      (transposeSource perm shape.length) := by
  obtain ⟨permutation, -⟩ := permutes
  rw [length_transposePerm] at permutation
  have shapes : transposeShape perm shape =
      ((transposePerm perm shape.length).map toNat).map fun p => shape.getD p 0 := by
    rw [map_map]
    rfl
  refine ⟨fun cs inside => ?_, fun cs inside => ?_⟩
  · rw [shapes] at inside
    exact inside_unpermute permutation inside
  · have same : cs.length = (RowMajor.strides shape).length := by
      rw [inside.length_eq, length_transposeShape, length_strides]
    have split : (transposePerm perm shape.length).map
        (fun p c => c * (rowStridesOf shape).getD p.toNat 0) =
        (((transposePerm perm shape.length).map toNat).map fun p =>
          (RowMajor.strides shape).getD p 0).map fun v c => c * v := by
      rw [map_map, map_map]
      rfl
    rw [split, terms_mul, flat, transposeSource, dot_unpermute same (by rwa [length_strides])]

/-! ## What a slice reads -/

/-- The walks of a slice stay inside the axes they walk. -/
structure SliceWalk.Stays (w : SliceWalk) (dim : Int) : Prop where
  start : 0 ≤ w.start
  step : 0 < w.step
  last : ∀ c, 0 ≤ c → c < w.extent → w.start + c * w.step < dim

theorem stays_whole (d : Int) : (⟨0, 1, d⟩ : SliceWalk).Stays d where
  start := le_rfl
  step := Int.one_pos
  last c _ small := by simpa using small

/-- A resolved axis stays inside, when its step is positive. -/
theorem stays_resolveSliceAxis {dim : Int} (rawStart rawEnd : Int) {step : Int} (some : 0 < dim)
    (forward : 0 < step) :
    (⟨(resolveSliceAxis dim rawStart rawEnd step).start, step,
      (resolveSliceAxis dim rawStart rawEnd step).count⟩ : SliceWalk).Stays dim := by
  unfold resolveSliceAxis
  rw [if_neg (by omega)]
  dsimp only
  rw [if_pos forward]
  generalize (if rawStart < 0 then if rawStart < -(dim + 1) then -(dim + 1) else rawStart + dim
    else rawStart) = start
  generalize (if rawEnd < 0 then if rawEnd < -(dim + 1) then -(dim + 1) else rawEnd + dim
    else rawEnd) = last
  refine ⟨by dsimp only; omega, forward, fun c low small => ?_⟩
  dsimp only at small ⊢
  have bound : max 0 (min last dim) ≤ dim := by omega
  generalize max 0 (min start dim) = start at small ⊢
  generalize max 0 (min last dim) = last at small bound
  have span : 0 < last - start + step - 1 := by
    by_contra none
    have quotient : 0 ≤ (-(last - start + step - 1)).tdiv step :=
      Int.tdiv_nonneg (by omega) forward.le
    rw [Int.neg_tdiv] at quotient
    omega
  rw [tdiv_eq_ediv_of_nonneg span.le] at small
  have steps : c + 1 ≤ (last - start + step - 1) / step := by omega
  have reach := (Int.le_ediv_iff_mul_le forward).mp steps
  rw [Int.add_mul, Int.one_mul] at reach
  omega

/-- **Every walk of a slice with positive steps stays inside its axis.** -/
theorem stays_sliceWalks {p : SliceParams} (positive : ∀ d ∈ shape, 0 < d)
    (forward : ∀ entry ∈ p.entries shape.length, 0 < entry.step) :
    List.Forall₂ SliceWalk.Stays (sliceWalks p shape) shape := by
  unfold sliceWalks
  have whole : List.Forall₂ SliceWalk.Stays (shape.map fun d => (⟨0, 1, d⟩ : SliceWalk)) shape := by
    rw [forall₂_map_left_iff]
    exact forall₂_same.mpr fun d _ => stays_whole d
  generalize shape.map (fun d => (⟨0, 1, d⟩ : SliceWalk)) = walks at whole
  generalize p.entries shape.length = entries at forward
  induction entries generalizing walks with
  | nil => exact whole
  | cons entry entries ih =>
    refine ih _ ?_ fun e mem => forward e (mem_cons_of_mem _ mem)
    have paired := forall₂_iff_get.mp whole
    refine forall₂_iff_get.mpr ⟨by rw [length_set]; exact paired.1, ?_⟩
    intro j small small'
    simp only [get_eq_getElem]
    rw [getElem_set]
    split
    · rename_i same
      subst same
      rw [getD_eq_getElem?_getD, getElem?_eq_getElem small', Option.getD_some]
      exact stays_resolveSliceAxis _ _ (positive _ (getElem_mem small'))
        (forward entry mem_cons_self)
    · exact paired.2 j (by rw [paired.1]; exact small') small'

def sliceSource (walks : List SliceWalk) : List Int → List Int :=
  RowMajor.stepped (walks.map fun w => (w.start, w.step))

/-- The terms of a slice lead to the stepped coordinates. -/
theorem leads_slice {walks : List SliceWalk}
    (stays : List.Forall₂ SliceWalk.Stays walks shape) :
    Leads (walks.map (·.extent)) shape
      (walks.zipWith (fun w s c => (w.start + c * w.step) * s) (rowStridesOf shape))
      (sliceSource walks) := by
  refine ⟨fun cs inside => ?_, fun cs inside => ?_⟩
  · induction stays generalizing cs with
    | nil =>
      cases inside
      exact .nil
    | @cons w d walks shape here _ ih =>
      rw [map_cons] at inside
      cases inside with
      | @cons c e cs extents first rest =>
        refine .cons ⟨?_, here.last c first.1 first.2⟩ (ih cs rest)
        exact Int.add_nonneg here.start (Int.mul_nonneg first.1 here.step.le)
  · induction stays generalizing cs with
    | nil =>
      cases inside
      rfl
    | @cons w d walks shape here _ ih =>
      rw [map_cons] at inside
      cases inside with
      | @cons c e cs extents first rest => exact congrArg _ (ih cs rest)

end Vknn.Cpu
