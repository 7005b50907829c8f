import Vknn.Cpu.Concat
import Vknn.Lib.Ranges

/-!
# Splitting a tensor along an axis

The kernel copies one segment of the axis after another, each as long as its entry in the sizes
or, where there are none, as an equal share of the axis.  The operator gives the last outputs
what is left when the outputs do not divide the axis; an equal share leaves the remainder in no
output.  An output that is left out has no segment here, so that the next output begins where
it would have begun.

The pieces that the operator defines, joined again, are the input.
-/

namespace Vknn.Cpu

open AxisPieces Ranges List RowMajor Int

variable {α : Type}

/-! ## The kernel -/

/-- The sizes that a node is run with; `held` is what its second operand holds. -/
def splitSizes (nd : Node) (held : List Int) : List Int :=
  let sp := nd.attr.getints (str "split")
  if sp = [] ∧ 1 < nd.pwCoreInputs ∧ nd.inputs.getD 1 kNoTensor ≠ kNoTensor then held else sp

def splitAxis (nd : Node) (rank : Nat) : Int := axisOf (nd.attr.geti (str "axis") 0) rank

/-- The extent of an output: its entry in the sizes, or an equal share. -/
def segment (sp : List Int) (nout : Nat) (extent : Int) (k : Nat) : Int :=
  if k < sp.length then sp.getD k 0 else extent.tdiv nout

/-- Copy a segment: for each slab and each place of the segment one row. -/
def copySegment (zero : α) (outer extent inner off seg : Int) (X : List α) : List α :=
  (points (0, outer)).flatMap fun o => (points (0, seg)).flatMap fun s =>
    (points (0, inner)).map fun j => readAt zero X ((o * extent + off + s) * inner + j)

/-- The outputs from some output on; an output without a tensor is skipped. -/
def splitFrom (zero : α) (seg : Nat → Int) (axis : Nat) (shape : Shape) (X : List α) :
    List TensorId → Nat → Int → List (Option (Shape × List α))
  | [], _, _ => []
  | o :: outs, k, off =>
    if o = kNoTensor then none :: splitFrom zero seg axis shape X outs (k + 1) off
    else
      some (shape.set axis (seg k), copySegment zero (RowMajor.size (shape.take axis))
          (shape.getD axis 0) (RowMajor.size (shape.drop (axis + 1))) off (seg k) X) ::
        splitFrom zero seg axis shape X outs (k + 1) (off + seg k)

def split (zero : α) (nd : Node) (held : List Int) (shape : Shape) (X : List α) :
    List (Option (Shape × List α)) :=
  let axis := (splitAxis nd shape.length).toNat
  let seg := segment (splitSizes nd held) nd.outputs.length (shape.getD axis 0)
  splitFrom zero seg axis shape X nd.outputs 0 0

/-! ## The operator -/

/-- The extents of the outputs: as given, or shares of equal size, rounded up, of which the last
ones get what is left. -/
def onnxSizes (sp : List Int) (nout : Nat) (extent : Int) : List Int :=
  if sp ≠ [] then sp
  else
    let chunk := (extent + nout - 1) / nout
    (List.range nout).map fun (k : Nat) => max 0 (min chunk (extent - k * chunk))

/-- A piece of a tensor: the elements whose coordinate on the axis is from `start` on. -/
structure IsPiece (axis : Nat) (start size : Int) (shape : Shape) (X : List α)
    (Y : Shape × List α) : Prop where
  dims : Y.1 = shape.set axis size
  count : (Y.2.length : Int) = RowMajor.size (shape.set axis size)
  elements : ∀ cs, RowMajor.Inside cs (shape.set axis size) →
    Y.2[(flat (shape.set axis size) cs).toNat]? =
      X[(flat shape (cs.modify axis (· + start))).toNat]?

/-- A node and an input that the operator is defined for. -/
structure SplitValid (nd : Node) (sp : List Int) (shape : Shape) : Prop where
  axis : 0 ≤ splitAxis nd shape.length ∧ splitAxis nd shape.length < shape.length
  dims : ∀ d ∈ shape, 0 ≤ d
  outputs : nd.outputs ≠ []
  sizes : sp ≠ [] → sp.length = nd.outputs.length ∧ (∀ z ∈ sp, 0 ≤ z) ∧
    sp.sum = shape.getD (splitAxis nd shape.length).toNat 0

/-! ## Extents -/

theorem onnxSizes_share {nout : Nat} (some_ : 0 < nout) {extent : Int} (size : 0 ≤ extent)
    (n : Nat) : (((List.range n).map fun (k : Nat) => max 0 (min ((extent + nout - 1) / nout)
      (extent - k * ((extent + nout - 1) / nout)))).sum) =
        min (n * ((extent + nout - 1) / nout)) extent := by
  have chunk : 0 ≤ (extent + nout - 1) / nout := ediv_nonneg (by omega) (by omega)
  generalize (extent + nout - 1) / nout = c at chunk
  induction n with
  | zero => simp [size]
  | succ n ih =>
    rw [range_succ, map_append, sum_append, ih, map_singleton,
      sum_singleton, Nat.cast_succ, Int.add_mul, Int.one_mul]
    omega

/-- The extents of the outputs add up to the axis. -/
theorem onnxSizes_spec (sp : List Int) {nout : Nat} {extent : Int} (some_ : 0 < nout)
    (size : 0 ≤ extent) (given : sp ≠ [] → sp.length = nout ∧ (∀ z ∈ sp, 0 ≤ z) ∧ sp.sum = extent) :
    (onnxSizes sp nout extent).length = nout ∧ (∀ z ∈ onnxSizes sp nout extent, 0 ≤ z) ∧
      (onnxSizes sp nout extent).sum = extent := by
  unfold onnxSizes
  split_ifs with sizes
  · exact given sizes
  · refine ⟨by simp, fun z listed => ?_, ?_⟩
    · obtain ⟨k, -, rfl⟩ := mem_map.mp listed
      exact le_max_left _ _
    · have enough : extent ≤ nout * ((extent + nout - 1) / nout) := by
        have rest := mul_ediv_add_emod (extent + nout - 1) nout
        have small := emod_lt_of_pos (extent + nout - 1) (by omega : (0 : Int) < nout)
        omega
      rw [onnxSizes_share some_ size, min_eq_right enough]

/-! ## A shape around its axis -/

/-- A shape is what is in front of the axis, its extent, and what is behind it. -/
theorem exists_around {shape : Shape} (axis : Nat) (inside : axis < shape.length)
    (dims : ∀ d ∈ shape, 0 ≤ d) : ∃ (pre post : Shape) (e : Nat), pre.length = axis ∧
      shape = pre ++ (e : Int) :: post ∧ (∀ d ∈ pre, 0 ≤ d) ∧ ∀ d ∈ post, 0 ≤ d := by
  obtain ⟨e, extent⟩ := eq_ofNat_of_zero_le (dims _ (getElem_mem inside))
  refine ⟨shape.take axis, shape.drop (axis + 1), e, ?_, ?_, ?_, ?_⟩
  · rw [length_take, Nat.min_eq_left inside.le]
  · rw [← extent, ← drop_eq_getElem_cons inside, take_append_drop]
  · exact fun d listed => dims d (mem_of_mem_take listed)
  · exact fun d listed => dims d (mem_of_mem_drop listed)

section Around

variable {pre post : Shape} {e : Nat}

theorem set_around (z : Int) : (pre ++ (e : Int) :: post).set pre.length z = pre ++ z :: post := by
  rw [set_append_right _ _ le_rfl, Nat.sub_self, set_cons_zero]

theorem getD_around : (pre ++ (e : Int) :: post).getD pre.length 0 = e := by
  rw [getD_eq_getElem?_getD, getElem?_append_right le_rfl, Nat.sub_self]
  rfl

theorem modify_around (f : Int → Int) (a : Int) {cs : List Int} (same : cs.length = pre.length)
    (ds : List Int) : (cs ++ a :: ds).modify pre.length f = cs ++ f a :: ds := by
  rw [← same]
  clear same
  induction cs with
  | nil => rfl
  | cons c cs ih => rw [cons_append, length_cons, modify_succ_cons, ih, cons_append]

theorem isPiece_iff (front : ∀ d ∈ pre, 0 ≤ d) (back : ∀ d ∈ post, 0 ≤ d) (start size : Nat)
    (X : List α) (Y : Shape × List α) :
    IsPiece pre.length start size (pre ++ (e : Int) :: post) X Y ↔
      Y.1 = pre ++ (size : Int) :: post ∧
        Piece (RowMajor.size pre).toNat (RowMajor.size post).toNat e size start X Y.2 := by
  have outer := size_nonneg front
  have inner := size_nonneg back
  have total : RowMajor.size (pre ++ (size : Int) :: post) =
      ((RowMajor.size pre).toNat * size * (RowMajor.size post).toNat : Nat) := by
    rw [size_append, RowMajor.size]
    push_cast
    rw [toNat_of_nonneg outer, toNat_of_nonneg inner, Int.mul_assoc]
  refine ⟨fun piece => ⟨piece.dims.trans (set_around _), ?_, ?_⟩, ?_⟩
  · have count := piece.count
    rw [set_around, total] at count
    exact ofNat_inj.mp count
  · intro o block a place j row
    obtain ⟨cs, inCs, rfl⟩ : ∃ cs, RowMajor.Inside cs pre ∧ (flat pre cs).toNat = o := by
      obtain ⟨cs, inside, here⟩ := exists_coords
        (positive_of_size_pos front (by omega)) (i := o) (by omega) (by omega)
      exact ⟨cs, inside, by omega⟩
    obtain ⟨ds, inDs, rfl⟩ : ∃ ds, RowMajor.Inside ds post ∧ (flat post ds).toNat = j := by
      obtain ⟨ds, inside, here⟩ := exists_coords
        (positive_of_size_pos back (by omega)) (i := j) (by omega) (by omega)
      exact ⟨ds, inside, by omega⟩
    have held := piece.elements (cs ++ (a : Int) :: ds) (by
      rw [set_around]
      exact rel_append inCs (.cons ⟨by omega, by omega⟩ inDs))
    rw [set_around, modify_around _ _ inCs.length_eq, flat_position inCs inDs, Int.add_comm,
      ← Nat.cast_add, flat_position inCs inDs] at held
    exact held
  · rintro ⟨dims, count, elements⟩
    refine ⟨dims.trans (set_around _).symm, by rw [set_around, total, count], fun cs inside => ?_⟩
    rw [set_around] at inside ⊢
    obtain ⟨front, c, back, rfl, inFront, here, inBack⟩ := forall₂_split inside
    obtain ⟨a, rfl⟩ := eq_ofNat_of_zero_le here.1
    have frontAt := flat_inside inFront
    have backAt := flat_inside inBack
    rw [modify_around _ _ inFront.length_eq, flat_position inFront inBack, Int.add_comm,
      ← Nat.cast_add, flat_position inFront inBack]
    exact elements _ (by omega) a (by omega) _ (by omega)

theorem sum_cast (sizes : List Nat) : (sizes.map fun (n : Nat) => (n : Int)).sum = sizes.sum := by
  induction sizes with
  | nil => rfl
  | cons n sizes ih => rw [map_cons, sum_cons, ih, sum_cons, Nat.cast_add]

theorem blockElems_around (back : ∀ d ∈ post, 0 ≤ d) (n : Nat) :
    blockElems pre.length (pre ++ (n : Int) :: post) = n * (RowMajor.size post).toNat := by
  rw [blockElems, drop_left, RowMajor.size,
    toNat_mul (natCast_nonneg n) (size_nonneg back), toNat_natCast]

theorem counted_around (front : ∀ d ∈ pre, 0 ≤ d) (back : ∀ d ∈ post, 0 ≤ d) {n : Nat} :
    (n : Int) = RowMajor.size (pre ++ (e : Int) :: post) ↔
      n = (RowMajor.size pre).toNat * e * (RowMajor.size post).toNat := by
  rw [size_append, RowMajor.size, ← ofNat_inj]
  push_cast
  rw [toNat_of_nonneg (size_nonneg front), toNat_of_nonneg (size_nonneg back), Int.mul_assoc]

/-- **Pieces, joined, are the array.** -/
theorem concat_pieces (zero : α) (front : ∀ d ∈ pre, 0 ≤ d) (back : ∀ d ∈ post, 0 ≤ d)
    {sizes : List Nat} (nonempty : sizes ≠ []) (total : sizes.sum = e) {axis : Int}
    (place : (axisOf axis (pre.length + (post.length + 1))).toNat = pre.length) {X : List α}
    (counted : X.length = (RowMajor.size pre).toNat * e * (RowMajor.size post).toNat)
    {parts : List (Shape × List α)}
    (shapes : List.Forall₂ (fun (part : Shape × List α) (n : Nat) =>
      part.1 = pre ++ (n : Int) :: post) parts sizes)
    (pieces : ∀ k part n, parts[k]? = some part → sizes[k]? = some n →
      Piece (RowMajor.size pre).toNat (RowMajor.size post).toNat e n (sizes.take k).sum X part.2) :
    concat zero axis parts = (pre ++ (e : Int) :: post, X) := by
  have extents : (parts.map fun part => part.1.getD pre.length 0) =
      sizes.map fun (n : Nat) => (n : Int) := by
    refine forall₂_eq_eq_eq ▸ forall₂_map_left_iff.mpr
      (forall₂_map_right_iff.mpr (shapes.imp fun part n here => ?_))
    rw [here, getD_around]
  obtain ⟨n, dims⟩ : ∃ n : Nat, (parts.headD ([], [])).1 = pre ++ (n : Int) :: post := by
    cases shapes with
    | nil => exact absurd rfl nonempty
    | @cons part n parts sizes here _ => exact ⟨n, here⟩
  have axisHere : (axisOf axis (parts.headD ([], [])).1.length).toNat = pre.length := by
    rw [dims, length_append, length_cons]
    exact place
  have out : (parts.headD ([], [])).1.set pre.length
      (parts.map fun part => part.1.getD pre.length 0).sum = pre ++ (e : Int) :: post := by
    rw [dims, set_around, extents, sum_cast, total]
  have lead : ((parts.headD ([], [])).1.take pre.length) = pre := by rw [dims, take_left]
  have run : blockElems pre.length (pre ++ (e : Int) :: post) = e * (RowMajor.size post).toNat :=
    blockElems_around back e
  have large : (numElements (pre ++ (e : Int) :: post)).toNat =
      (RowMajor.size pre).toNat * (e * (RowMajor.size post).toNat) := by
    rw [numElements_eq_size (by simp), ← (counted_around front back).mpr counted, toNat_natCast,
      counted, Nat.mul_assoc]
  have laid := Laid.run zero (fun part => blockElems pre.length part.1) parts sizes 0
    (List.replicate (numElements (pre ++ (e : Int) :: post)).toNat zero)
    ⟨(length_replicate ..).trans large, fun o _ r small => absurd small (by simp)⟩
    (by rw [Nat.zero_add, total])
    (shapes.imp fun part n here => by rw [here, blockElems_around back])
    (fun k part n listed sized => by
      have here := pieces k part n listed sized
      rwa [← Nat.zero_add (sizes.take k).sum] at here)
  rw [Nat.zero_add, total, Nat.zero_mul, ← run] at laid
  rw [concat]
  dsimp only
  rw [axisHere, out, lead]
  exact congrArg (pre ++ (e : Int) :: post, ·) (laid.eq (by rw [counted, run, Nat.mul_assoc]))

end Around

/-! ## What the kernel writes -/

theorem readAt_natCast (zero : α) (X : List α) (n : Nat) : readAt zero X n = X.getD n zero := by
  rw [readAt, if_pos (natCast_nonneg n), toNat_natCast]

theorem copySegment_eq (zero : α) (outer inner e off seg : Nat) (X : List α) :
    copySegment zero outer e inner off seg X =
      (List.range outer).flatMap fun o => (List.range seg).flatMap fun s =>
        (List.range inner).map fun j => X.getD (position e inner o (off + s) j) zero := by
  simp only [copySegment, points, Int.sub_zero, toNat_natCast, Int.zero_add, flatMap_map, map_map]
  refine flatMap_congr fun o _ => flatMap_congr fun s _ =>
    map_congr_left fun j _ => ?_
  rw [Function.comp_apply, ← readAt_natCast, position]
  push_cast
  rw [Int.add_assoc (o * e : Int)]

theorem getElem?_copySegment (zero : α) {outer inner e off seg : Nat} (X : List α) {o s j : Nat}
    (block : o < outer) (place : s < seg) (row : j < inner) :
    (copySegment zero outer e inner off seg X)[position seg inner o s j]? =
      some (X.getD (position e inner o (off + s) j) zero) := by
  rw [copySegment_eq, getElem?_loops _ block place row]

theorem length_copySegment (zero : α) (outer inner e off seg : Nat) (X : List α) :
    (copySegment zero outer e inner off seg X).length = outer * seg * inner := by
  rw [copySegment_eq, loops_eq, length_map, length_range]

/-- **A segment that lies on the axis is a piece.** -/
theorem piece_copySegment (zero : α) {outer inner e off seg : Nat} {X : List α}
    (room : off + seg ≤ e) (counted : X.length = outer * e * inner) :
    Piece outer inner e seg off X (copySegment zero outer e inner off seg X) := by
  refine ⟨length_copySegment zero outer inner e off seg X, fun o block s place j row => ?_⟩
  have inside : position e inner o (off + s) j < X.length := by
    rw [counted]
    exact position_lt block (by omega) row
  rw [getElem?_copySegment zero X block place row, getD_eq_getElem?_getD,
    getElem?_eq_getElem inside, Option.getD_some]

/-- How far the outputs before some output have advanced. -/
def advanced (seg : Nat → Int) (outs : List TensorId) (n : Nat) : Int :=
  ((List.range n).map fun j => if outs.getD j kNoTensor = kNoTensor then 0 else seg j).sum

theorem advanced_cons (seg : Nat → Int) (o : TensorId) (outs : List TensorId) (n : Nat) :
    advanced seg (o :: outs) (n + 1) =
      (if o = kNoTensor then 0 else seg 0) + advanced (fun j => seg (j + 1)) outs n := by
  rw [advanced, range_succ_eq_map, map_cons, sum_cons, map_map]
  rfl

theorem getElem?_splitFrom (zero : α) (axis : Nat) (shape : Shape) (X : List α)
    (outs : List TensorId) (seg : Nat → Int) (k : Nat) (off : Int) (i : Nat) :
    (splitFrom zero seg axis shape X outs k off)[i]? = outs[i]?.map fun o =>
      if o = kNoTensor then none
      else some (shape.set axis (seg (k + i)), copySegment zero (RowMajor.size (shape.take axis))
        (shape.getD axis 0) (RowMajor.size (shape.drop (axis + 1)))
        (off + advanced (fun j => seg (k + j)) outs i) (seg (k + i)) X) := by
  induction outs generalizing k off i with
  | nil => rfl
  | cons o outs ih =>
    have shifted : (fun j => seg (k + 1 + j)) = fun j => seg (k + (j + 1)) :=
      funext fun j => congrArg seg (by omega)
    cases i with
    | zero =>
      rw [splitFrom]
      split_ifs with omitted
      · simp [omitted]
      · simp [omitted, advanced]
    | succ i =>
      rw [splitFrom, advanced_cons]
      split_ifs with omitted
      · rw [getElem?_cons_succ, ih, getElem?_cons_succ, Int.zero_add, shifted,
          Nat.add_right_comm, Nat.add_assoc]
      · rw [getElem?_cons_succ, ih, getElem?_cons_succ, Int.add_assoc, shifted,
          Nat.add_right_comm, Nat.add_assoc]
        rfl

/-! ## The outputs and their pieces -/

section Outputs

variable (nd : Node) (held : List Int) (shape : Shape)

def splitExtent : Int := shape.getD (splitAxis nd shape.length).toNat 0

/-- The extents of the pieces that the operator defines. -/
def pieceSizes : List Int := onnxSizes (splitSizes nd held) nd.outputs.length (splitExtent nd shape)

/-- A tensor is the piece for an output. -/
def IsPieceOf (k : Nat) (X : List α) (Y : Shape × List α) : Prop :=
  IsPiece (splitAxis nd shape.length).toNat ((pieceSizes nd held shape).take k).sum
    ((pieceSizes nd held shape).getD k 0) shape X Y

/-- Pieces for all outputs, joined, are the input. -/
def PiecesJoin : Prop :=
  ∀ (α : Type) (zero : α) (X : List α) (parts : List (Shape × List α)),
    (X.length : Int) = RowMajor.size shape → parts.length = nd.outputs.length →
    (∀ k part, parts[k]? = some part → IsPieceOf nd held shape k X part) →
      concat zero (nd.attr.geti (str "axis") 0) parts = (shape, X)

/-- Every output that is there is given its piece. -/
def WritesPieces : Prop :=
  ∀ (α : Type) (zero : α) (X : List α), (X.length : Int) = RowMajor.size shape →
    ∀ k < nd.outputs.length, nd.outputs.getD k kNoTensor ≠ kNoTensor →
      ∃ Y, (split zero nd held shape X)[k]? = some (some Y) ∧ IsPieceOf nd held shape k X Y

/-- Sizes are given, or the outputs that are there have equal shares; and only pieces without
elements are left out in front of one that has some. -/
def SplitSuited : Prop :=
  ∀ k < nd.outputs.length, nd.outputs.getD k kNoTensor ≠ kNoTensor →
    (splitSizes nd held ≠ [] ∨ (pieceSizes nd held shape).getD k 0 =
      splitExtent nd shape / nd.outputs.length) ∧
    (RowMajor.size (shape.set (splitAxis nd shape.length).toNat
        ((pieceSizes nd held shape).getD k 0)) = 0 ∨
      ∀ j < k, nd.outputs.getD j kNoTensor = kNoTensor → (pieceSizes nd held shape).getD j 0 = 0)

end Outputs

theorem sum_take (sizes : List Int) (k : Nat) :
    (sizes.take k).sum = ((List.range k).map fun j => sizes.getD j 0).sum := by
  induction k with
  | zero => rfl
  | succ k ih =>
    rw [take_add_one, sum_append, ih, range_succ, map_append, sum_append,
      map_singleton, sum_singleton, getD_eq_getElem?_getD]
    cases sizes[k]? <;> simp

/-- What the outputs that are left out would have advanced. -/
theorem sum_take_eq (sizes : List Int) {outs : List TensorId} {seg : Nat → Int} {k : Nat}
    (same : ∀ j < k, outs.getD j kNoTensor ≠ kNoTensor → seg j = sizes.getD j 0) :
    (sizes.take k).sum = advanced seg outs k + ((List.range k).map fun j =>
        if outs.getD j kNoTensor = kNoTensor then sizes.getD j 0 else 0).sum := by
  rw [sum_take, advanced, ← sum_map_add]
  refine congrArg List.sum (map_congr_left fun j listed => ?_)
  split_ifs with omitted
  · rw [Int.zero_add]
  · rw [same j (mem_range.mp listed) omitted, Int.add_zero]

theorem sum_range_eq_zero_iff {f : Nat → Int} (nonneg : ∀ j, 0 ≤ f j) (k : Nat) :
    0 ≤ ((List.range k).map f).sum ∧ (((List.range k).map f).sum = 0 ↔ ∀ j < k, f j = 0) := by
  induction k with
  | zero => simp
  | succ k ih =>
    have last := nonneg k
    rw [range_succ, map_append, sum_append, map_singleton, sum_singleton]
    refine ⟨by omega, fun none j small => ?_, fun none => ?_⟩
    · rcases Nat.lt_succ_iff_lt_or_eq.mp small with earlier | rfl
      · exact ih.2.mp (by omega) j earlier
      · omega
    · rw [ih.2.mpr fun j small => none j (by omega), none k (by omega)]
      rfl

/-- Nothing is lost in front of an output exactly when all that is left out is empty. -/
theorem omitted_sum_eq_zero {sizes : List Int} (nonneg : ∀ z ∈ sizes, 0 ≤ z)
    (outs : List TensorId) (k : Nat) :
    0 ≤ ((List.range k).map fun j =>
        if outs.getD j kNoTensor = kNoTensor then sizes.getD j 0 else 0).sum ∧
      (((List.range k).map fun j =>
          if outs.getD j kNoTensor = kNoTensor then sizes.getD j 0 else 0).sum = 0 ↔
        ∀ j < k, outs.getD j kNoTensor = kNoTensor → sizes.getD j 0 = 0) := by
  have spec := sum_range_eq_zero_iff
    (f := fun j => if outs.getD j kNoTensor = kNoTensor then sizes.getD j 0 else 0) (fun j => by
      split_ifs
      · rw [getD_eq_getElem?_getD]
        cases held : sizes[j]? with
        | none => exact le_rfl
        | some z => exact nonneg z (mem_of_getElem? held)
      · exact le_rfl) k
  simpa only [ite_eq_right_iff] using spec

/-- A node, and an input cut at the axis, with the extents of the pieces. -/
structure Around (nd : Node) (held : List Int) (shape pre post : Shape) (e : Nat)
    (sizes : List Nat) : Prop where
  whole : shape = pre ++ (e : Int) :: post
  axis : (splitAxis nd shape.length).toNat = pre.length
  front : ∀ d ∈ pre, 0 ≤ d
  back : ∀ d ∈ post, 0 ≤ d
  pieces : pieceSizes nd held shape = sizes.map fun (n : Nat) => (n : Int)
  nonempty : sizes ≠ []
  count : sizes.length = nd.outputs.length
  total : sizes.sum = e

theorem getD_cast (sizes : List Nat) (k : Nat) :
    (sizes.map fun (n : Nat) => (n : Int)).getD k 0 = sizes.getD k 0 := by
  rw [getD_eq_getElem?_getD, getElem?_map, getD_eq_getElem?_getD]
  cases sizes[k]? <;> rfl

variable {nd : Node} {held : List Int} {shape : Shape}

theorem SplitValid.around (valid : SplitValid nd (splitSizes nd held) shape) :
    ∃ pre post e sizes, Around nd held shape pre post e sizes := by
  obtain ⟨low, high⟩ := valid.axis
  obtain ⟨pre, post, e, axis, whole, front, back⟩ :=
    exists_around (splitAxis nd shape.length).toNat (by omega) valid.dims
  have extent : splitExtent nd shape = e := by
    rw [splitExtent, ← axis]
    exact whole ▸ getD_around
  have nonneg : 0 ≤ splitExtent nd shape := by omega
  obtain ⟨count, nonneg, total⟩ := onnxSizes_spec (splitSizes nd held)
    (length_pos_iff.mpr valid.outputs) nonneg valid.sizes
  have cast : pieceSizes nd held shape =
      ((pieceSizes nd held shape).map toNat).map fun (n : Nat) => (n : Int) := by
    rw [map_map]
    exact (map_id _).symm.trans
      (map_congr_left fun z listed => (toNat_of_nonneg (nonneg z listed)).symm)
  have count' : ((pieceSizes nd held shape).map toNat).length = nd.outputs.length := by
    rw [length_map]
    exact count
  refine ⟨pre, post, e, (pieceSizes nd held shape).map toNat, whole, axis.symm, front, back,
    cast, ?_, count', ?_⟩
  · rw [← length_pos_iff, count']
    exact length_pos_iff.mpr valid.outputs
  · have sum := sum_cast ((pieceSizes nd held shape).map toNat)
    rw [← cast] at sum
    exact ofNat_inj.mp (sum.symm.trans (total.trans extent))

section Around

variable {pre post : Shape} {e : Nat} {sizes : List Nat}

theorem Around.extent (around : Around nd held shape pre post e sizes) :
    splitExtent nd shape = e := by
  rw [splitExtent, around.axis, around.whole, getD_around]

theorem Around.counted (around : Around nd held shape pre post e sizes) {n : Nat} :
    (n : Int) = RowMajor.size shape ↔
      n = (RowMajor.size pre).toNat * e * (RowMajor.size post).toNat := by
  rw [around.whole]
  exact counted_around around.front around.back

theorem Around.isPieceOf_iff (around : Around nd held shape pre post e sizes) (k : Nat)
    (X : List α) (Y : Shape × List α) : IsPieceOf nd held shape k X Y ↔
      Y.1 = pre ++ ((sizes.getD k 0 : Nat) : Int) :: post ∧
        Piece (RowMajor.size pre).toNat (RowMajor.size post).toNat e (sizes.getD k 0)
          (sizes.take k).sum X Y.2 := by
  rw [IsPieceOf, around.axis, around.pieces, ← map_take, sum_cast, getD_cast, around.whole,
    isPiece_iff around.front around.back]

theorem Around.set_axis (around : Around nd held shape pre post e sizes) (z : Int) :
    shape.set (splitAxis nd shape.length).toNat z = pre ++ z :: post := by
  rw [around.axis, around.whole, set_around]

/-- **The pieces, joined, are the input.** -/
theorem Around.join (around : Around nd held shape pre post e sizes) :
    PiecesJoin nd held shape := by
  intro α zero X parts counted many pieces
  have piece : ∀ k part, parts[k]? = some part → part.1 = pre ++ ((sizes.getD k 0 : Nat) : Int) ::
      post ∧ Piece (RowMajor.size pre).toNat (RowMajor.size post).toNat e (sizes.getD k 0)
        (sizes.take k).sum X part.2 :=
    fun k part listed => (around.isPieceOf_iff k X part).mp (pieces k part listed)
  have paired : List.Forall₂ (fun (part : Shape × List α) (n : Nat) =>
      part.1 = pre ++ (n : Int) :: post) parts sizes := by
    refine forall₂_iff_get.mpr ⟨many.trans around.count.symm, fun k inParts inSizes => ?_⟩
    have here := (piece k parts[k] (getElem?_eq_getElem inParts)).1
    rwa [getD_eq_getElem?_getD, getElem?_eq_getElem inSizes] at here
  have place : (axisOf (nd.attr.geti (str "axis") 0) (pre.length + (post.length + 1))).toNat =
      pre.length := by
    have axis := around.axis
    rwa [splitAxis, around.whole, length_append, length_cons] at axis
  rw [around.whole]
  refine concat_pieces zero around.front around.back around.nonempty around.total place
    (around.counted.mp counted) paired fun k part n listed sized => ?_
  have here := (piece k part listed).2
  rwa [getD_eq_getElem?_getD, sized, Option.getD_some] at here

theorem Around.segment_iff (around : Around nd held shape pre post e sizes) {k : Nat}
    (output : k < nd.outputs.length) :
    segment (splitSizes nd held) nd.outputs.length (splitExtent nd shape) k = sizes.getD k 0 ↔
      splitSizes nd held ≠ [] ∨ (pieceSizes nd held shape).getD k 0 =
        splitExtent nd shape / nd.outputs.length := by
  have pieces := around.pieces
  rw [← getD_cast, ← pieces]
  by_cases given : splitSizes nd held = []
  · rw [segment, given, if_neg (by simp), tdiv_eq_ediv_of_nonneg (by simp [around.extent])]
    simp [eq_comm]
  · have same : pieceSizes nd held shape = splitSizes nd held := if_pos given
    have count : (splitSizes nd held).length = nd.outputs.length := by
      rw [← same, pieces, length_map, around.count]
    rw [segment, if_pos (by omega), same]
    simp [given]

theorem Around.written (around : Around nd held shape pre post e sizes) (zero : α) (X : List α)
    {k : Nat} (output : k < nd.outputs.length)
    (present : nd.outputs.getD k kNoTensor ≠ kNoTensor) :
    let seg := segment (splitSizes nd held) nd.outputs.length (splitExtent nd shape)
    (split zero nd held shape X)[k]? = some (some (pre ++ seg k :: post,
      copySegment zero ((RowMajor.size pre).toNat : Nat) e ((RowMajor.size post).toNat : Nat)
        (advanced seg nd.outputs k) (seg k) X)) := by
  have behind : shape.drop (pre.length + 1) = post := by
    rw [around.whole, drop_append]
    simp
  have front : shape.take pre.length = pre := by rw [around.whole, take_left]
  have extent := around.extent
  rw [getD_eq_getElem?_getD, getElem?_eq_getElem output, Option.getD_some] at present
  intro seg
  have held : (fun j => segment (splitSizes nd held) nd.outputs.length
      (shape.getD (splitAxis nd shape.length).toNat 0) (0 + j)) = seg :=
    funext fun j => by rw [Nat.zero_add]; rfl
  rw [split, getElem?_splitFrom, getElem?_eq_getElem output, Option.map_some, if_neg present, held,
    Nat.zero_add, Int.zero_add, around.set_axis, ← splitExtent, extent, around.axis, front, behind,
    toNat_of_nonneg (size_nonneg around.front),
    toNat_of_nonneg (size_nonneg around.back), ← extent]

theorem Around.room (around : Around nd held shape pre post e sizes) {k : Nat}
    (output : k < nd.outputs.length) : (sizes.take k).sum + sizes.getD k 0 ≤ e := by
  have inside : k < sizes.length := around.count.symm ▸ output
  have whole : (sizes.take (k + 1)).sum + (sizes.drop (k + 1)).sum = e := by
    rw [← sum_append, take_append_drop, around.total]
  rw [take_add_one, sum_append, getElem?_eq_getElem inside] at whole
  rw [getD_eq_getElem?_getD, getElem?_eq_getElem inside, Option.getD_some]
  simp only [Option.toList_some, sum_singleton] at whole
  omega

/-- Where the outputs in front have their extents, an output begins at its piece or, by what is
left out in front of it, too early. -/
theorem Around.advanced_spec (around : Around nd held shape pre post e sizes) {seg : Nat → Int}
    {k : Nat} (same : ∀ j < k, nd.outputs.getD j kNoTensor ≠ kNoTensor → seg j = sizes.getD j 0) :
    ∃ off : Nat, advanced seg nd.outputs k = off ∧ off ≤ (sizes.take k).sum ∧
      (off = (sizes.take k).sum ↔ ∀ j < k, nd.outputs.getD j kNoTensor = kNoTensor →
        (pieceSizes nd held shape).getD j 0 = 0) := by
  have nonneg : ∀ z ∈ sizes.map fun (n : Nat) => (n : Int), 0 ≤ z := by
    intro z listed
    obtain ⟨n, -, rfl⟩ := mem_map.mp listed
    exact natCast_nonneg n
  have lost := omitted_sum_eq_zero nonneg nd.outputs k
  have split := sum_take_eq (k := k) (sizes.map fun (n : Nat) => (n : Int))
    fun j small present => (same j small present).trans (getD_cast sizes j).symm
  rw [← map_take, sum_cast] at split
  have forward : 0 ≤ advanced seg nd.outputs k := by
    have held : advanced seg nd.outputs k =
        advanced (fun j => ((sizes.getD j 0 : Nat) : Int)) nd.outputs k := by
      refine congrArg List.sum (map_congr_left fun j listed => ?_)
      split_ifs with omitted
      · rfl
      · exact same j (mem_range.mp listed) omitted
    rw [held]
    exact (sum_range_eq_zero_iff (fun j => by
      split_ifs
      · exact le_rfl
      · exact natCast_nonneg _) k).1
  rw [around.pieces]
  refine ⟨(advanced seg nd.outputs k).toNat, (toNat_of_nonneg forward).symm, by omega, ?_⟩
  rw [← lost.2]
  omega

theorem Around.pieceSize (around : Around nd held shape pre post e sizes) (k : Nat) :
    RowMajor.size (shape.set (splitAxis nd shape.length).toNat
      ((pieceSizes nd held shape).getD k 0)) =
        ((RowMajor.size pre).toNat * sizes.getD k 0 * (RowMajor.size post).toNat : Nat) := by
  rw [around.set_axis, around.pieces, getD_cast, size_append, RowMajor.size]
  push_cast
  rw [toNat_of_nonneg (size_nonneg around.front),
    toNat_of_nonneg (size_nonneg around.back), Int.mul_assoc]

/-- An output whose extent is right and in front of which nothing is lost gets its piece. -/
theorem Around.writes (around : Around nd held shape pre post e sizes)
    (suited : SplitSuited nd held shape) : WritesPieces nd held shape := by
  intro α zero X counted k output present
  have extents : ∀ j ≤ k, nd.outputs.getD j kNoTensor ≠ kNoTensor →
      segment (splitSizes nd held) nd.outputs.length (splitExtent nd shape) j = sizes.getD j 0 :=
    fun j le there => (around.segment_iff (by omega)).mpr (suited j (by omega) there).1
  obtain ⟨off, here, before, lost⟩ :=
    around.advanced_spec fun j small there => extents j small.le there
  have written := around.written zero X output present
  dsimp only at written
  rw [here, extents k le_rfl present] at written
  refine ⟨_, written, (around.isPieceOf_iff k X _).mpr ⟨rfl, ?_⟩⟩
  have room := around.room output
  rcases (suited k output present).2 with none | nothing
  · rw [around.pieceSize, natCast_eq_zero] at none
    rw [piece_empty none, ← length_eq_zero_iff, length_copySegment, none]
  · rw [lost.mpr nothing]
    exact piece_copySegment zero room (around.counted.mp counted)

/-- An input with different elements shows where every piece has come from. -/
theorem Around.suited (around : Around nd held shape pre post e sizes)
    (writes : WritesPieces nd held shape) : SplitSuited nd held shape := by
  let X := List.range ((RowMajor.size pre).toNat * e * (RowMajor.size post).toNat)
  have counted : (X.length : Int) = RowMajor.size shape := around.counted.mpr (length_range ..)
  have extents : ∀ k < nd.outputs.length, nd.outputs.getD k kNoTensor ≠ kNoTensor →
      segment (splitSizes nd held) nd.outputs.length (splitExtent nd shape) k = sizes.getD k 0 := by
    intro k output present
    obtain ⟨Y, written, piece⟩ := writes Nat 0 X counted k output present
    rw [around.written 0 X output present, Option.some.injEq, Option.some.injEq] at written
    have dims := ((around.isPieceOf_iff k X Y).mp piece).1
    rw [← written] at dims
    exact (List.cons.inj (append_cancel_left dims)).1
  intro k output present
  refine ⟨(around.segment_iff output).mp (extents k output present), ?_⟩
  obtain ⟨off, here, before, lost⟩ := around.advanced_spec (k := k)
    fun j small there => extents j (Nat.lt_trans small output) there
  rw [around.pieceSize, natCast_eq_zero]
  by_cases none : (RowMajor.size pre).toNat * sizes.getD k 0 * (RowMajor.size post).toNat = 0
  · exact .inl none
  · right
    rw [← lost]
    obtain ⟨Y, written, piece⟩ := writes Nat 0 X counted k output present
    have elements := ((around.isPieceOf_iff k X Y).mp piece).2.elements
    rw [around.written 0 X output present, Option.some.injEq, Option.some.injEq, here,
      extents k output present] at written
    have block : 0 < (RowMajor.size pre).toNat := Nat.pos_of_ne_zero fun zero => none (by simp [zero])
    have place : 0 < sizes.getD k 0 := Nat.pos_of_ne_zero fun zero => none (by rw [zero]; simp)
    have row : 0 < (RowMajor.size post).toNat := Nat.pos_of_ne_zero fun zero => none (by simp [zero])
    have room := around.room output
    have first := elements 0 block 0 place 0 row
    have value : ∀ a < e, X[position e (RowMajor.size post).toNat 0 a 0]? =
        some (position e (RowMajor.size post).toNat 0 a 0) :=
      fun a small => getElem?_range (position_lt block small row)
    rw [← written, getElem?_copySegment 0 X block place row, getD_eq_getElem?_getD,
      value _ (by omega), value _ (by omega), Option.getD_some, Option.some.injEq] at first
    exact position_inj row first

end Around

/-- **The pieces always tile the input, and every output gets its piece exactly when** the outputs
that are there have the kernel's extents and nothing is left out in front of them. -/
theorem split_tiles_iff (valid : SplitValid nd (splitSizes nd held) shape) :
    PiecesJoin nd held shape ∧ (WritesPieces nd held shape ↔ SplitSuited nd held shape) := by
  obtain ⟨pre, post, e, sizes, around⟩ := valid.around
  exact ⟨around.join, around.suited, around.writes⟩

/-- A node that splits the first axis. -/
def splitNode (outs : List TensorId) : Node where
  type := .split
  inputs := [0]
  outputs := outs

/-- Two outputs of three rows each. -/
theorem split_even_right :
    PiecesJoin (splitNode [1, 2]) [] [6, 2] ∧ WritesPieces (splitNode [1, 2]) [] [6, 2] := by
  have valid : SplitValid (splitNode [1, 2]) (splitSizes (splitNode [1, 2]) []) [6, 2] :=
    ⟨by decide, by decide, by decide, fun given => absurd (by decide) given⟩
  have suited : SplitSuited (splitNode [1, 2]) [] [6, 2] := by
    unfold SplitSuited
    decide
  exact ⟨(split_tiles_iff valid).1, (split_tiles_iff valid).2.mpr suited⟩

/-- Of seven elements the first of two outputs is to have four, and gets three; and the second
of two outputs, of which the first is left out, gets the first one's elements. -/
theorem split_remainder_astray :
    (SplitValid (splitNode [1, 2]) (splitSizes (splitNode [1, 2]) []) [7] ∧
        pieceSizes (splitNode [1, 2]) [] [7] = [4, 3] ∧
        ¬ WritesPieces (splitNode [1, 2]) [] [7]) ∧
      SplitValid (splitNode [kNoTensor, 2]) (splitSizes (splitNode [kNoTensor, 2]) []) [6] ∧
        pieceSizes (splitNode [kNoTensor, 2]) [] [6] = [3, 3] ∧
        ¬ WritesPieces (splitNode [kNoTensor, 2]) [] [6] := by
  refine ⟨⟨⟨by decide, by decide, by decide, fun given => absurd (by decide) given⟩, by decide,
      fun writes => ?_⟩,
    ⟨by decide, by decide, by decide, fun given => absurd (by decide) given⟩, by decide,
      fun writes => ?_⟩
  · have kernel : (split 0 (splitNode [1, 2]) [] [7] (List.range 7))[0]? =
        some (some ([3], [0, 1, 2])) := by decide
    obtain ⟨Y, written, piece⟩ := writes Nat 0 (List.range 7) (by decide) 0 (by decide) (by decide)
    rw [kernel, Option.some.injEq, Option.some.injEq] at written
    have dims := piece.dims
    rw [← written] at dims
    exact absurd dims (by decide)
  · have kernel : (split 0 (splitNode [kNoTensor, 2]) [] [6] (List.range 6))[1]? =
        some (some ([3], [0, 1, 2])) := by decide
    obtain ⟨Y, written, piece⟩ := writes Nat 0 (List.range 6) (by decide) 1 (by decide) (by decide)
    rw [kernel, Option.some.injEq, Option.some.injEq] at written
    have first := piece.elements [0] (.cons (by decide) .nil)
    rw [← written] at first
    exact absurd first (by decide)

end Vknn.Cpu
