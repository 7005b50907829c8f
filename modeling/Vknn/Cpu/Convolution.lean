import Vknn.Core.ConvSum
import Vknn.Cpu.AxisSlice
import Vknn.Cpu.Gemm
import Vknn.Cpu.Operators
import Vknn.Ir.Shape

/-!
# The convolution kernel

The output is made of planes, one for each image and each output channel, and each thread
fills whole planes.  A channel adds up what its group of input channels gives, so the outputs of
one group are those of a convolution without groups of these channels, with the group's rows
of the weight; and joined along the channels they are the output.

Elements are those of a semiring, so that sums have no rounding.
-/

namespace Vknn.Cpu

open ConvSum AxisPieces List Int
open RowMajor (size)
open Gemm (Held)

variable {R : Type}

/-! ## Planes -/

/-- The planes of an output, after the fused activation. -/
def planes (act : R → R) (n c h w : Int) (f : Int → Int → Int → Int → R) : List R :=
  (List.range n.toNat).flatMap fun (b : Nat) => (List.range c.toNat).flatMap fun (oc : Nat) =>
    (List.range h.toNat).flatMap fun (oy : Nat) => (List.range w.toNat).map fun (ox : Nat) =>
      act (f b oc oy ox)

theorem plane_lt {h w y x : Nat} (row : y < h) (column : x < w) : y * w + x < h * w := by
  have next := Nat.mul_le_mul_right w (Nat.succ_le_of_lt row)
  rw [Nat.succ_mul] at next
  omega

theorem planes_eq (act : R → R) (n c h w : Nat) (f : Int → Int → Int → Int → R) :
    planes act n c h w f = (List.range n).flatMap fun (b : Nat) =>
      (List.range c).flatMap fun (oc : Nat) => (List.range (h * w)).map fun p => act (f b oc (p / w : Nat) (p % w : Nat)) := by
  simp only [planes, toNat_natCast]
  refine flatMap_congr fun b _ => flatMap_congr fun oc _ => ?_
  exact flatMap_range_map₂ h w fun (y x : Nat) => act (f b oc y x)

theorem length_planes (act : R → R) (n c h w : Nat) (f : Int → Int → Int → Int → R) :
    (planes act n c h w f).length = n * c * (h * w) := by
  rw [planes_eq, loops_eq, length_map, length_range]

/-- **The planes of a group are a piece of the planes.** -/
theorem piece_planes (act : R → R) {n h w group outCg gi : Nat} {f f' : Int → Int → Int → Int → R}
    (inside : gi < group)
    (same : ∀ b < n, ∀ j < outCg, ∀ oy ox, f' b j oy ox = f b (gi * outCg + j : Nat) oy ox) :
    Piece n (h * w) (group * outCg) outCg (gi * outCg)
      (planes act n (group * outCg : Nat) h w f) (planes act n outCg h w f') := by
  rw [planes_eq, planes_eq]
  refine ⟨by rw [loops_eq, length_map, length_range], fun b image j channel p place => ?_⟩
  have whole : gi * outCg + j < group * outCg := plane_lt inside channel
  rw [getElem?_loops (fun (b j : Nat) p => act (f' b j (p / w : Nat) (p % w : Nat))) image channel place,
    getElem?_loops (fun (b j : Nat) p => act (f b j (p / w : Nat) (p % w : Nat))) image whole place,
    same b image j channel]

variable [CommSemiring R]

/-! ## The kernel -/

def convOperands (X W : Held R) (B : Option (Held R)) : Operands R where
  channels := (NCHW.ofShape X.shape).c
  perGroup := W.shape.getD 1 0
  outputs := W.shape.getD 0 0
  x := readAt 0 X.elems
  w := readAt 0 W.elems
  bias := match B with
    | none => fun _ => 0
    | some b => readAt 0 b.elems

/-- Convolve; nothing where the kernel throws. -/
def convolve (act : R → R) (attr : Attributes) (X W : Held R) (B : Option (Held R)) :
    Option (Held R) :=
  if W.shape.length < 4 then none
  else
    let x := NCHW.ofShape X.shape
    let outC := W.shape.getD 0 0
    (conv2d (convOperands X W B) attr (W.shape.getD 2 0) (W.shape.getD 3 0) x.h x.w).map fun r =>
      ⟨if X.shape.length = 3 ∧ r.1.2 = 1 then [x.n, outC, r.1.1] else [x.n, outC, r.1.1, r.1.2],
        planes act x.n outC r.1.1 r.1.2 r.2⟩

/-! ## Groups -/

/-- Attributes that differ in that there are no groups. -/
structure Ungrouped (attr attr' : Attributes) : Prop where
  lists : ∀ k, k ≠ str "group" → attr'.getints k = attr.getints k
  autoPad : attr'.gets (str "auto_pad") (str "NOTSET") = attr.gets (str "auto_pad") (str "NOTSET")
  group : attr'.geti (str "group") 1 = 1

/-- The rows of a group, each group having as many elements. -/
def groupRows (shape : Shape) (count gi : Nat) (W : Held R) : Held R :=
  ⟨shape, (W.elems.drop (gi * count)).take count⟩

def groupChannels (inCg gi : Nat) (X : Held R) : Held R :=
  ⟨sliceShape (axisSlice 1 (gi * inCg) inCg) X.shape,
    slice 0 (axisSlice 1 (gi * inCg) inCg) X.shape X.elems⟩

def joined (axis : Int) (parts : List (Held R)) : Held R :=
  let y := concat 0 axis (parts.map fun part => (part.shape, part.elems))
  ⟨y.1, y.2⟩

variable {attr attr' : Attributes}

/-- Without groups the geometry is the same, and so are the strides and dilations. -/
theorem Ungrouped.conv2d_eq (ungrouped : Ungrouped attr attr') (o : Operands R) (kh kw h w : Int) :
    conv2d o attr' kh kw h w = (convGeom h w kh kw attr).map fun geo =>
      ((geo.outH, geo.outW), conv2dAt o 1 h w kh kw
        ((listPadded attr (str "strides") [1, 1]).getD 0 1)
        ((listPadded attr (str "strides") [1, 1]).getD 1 1)
        ((listPadded attr (str "dilations") [1, 1]).getD 0 1)
        ((listPadded attr (str "dilations") [1, 1]).getD 1 1) geo.padT geo.padL) := by
  have same : ∀ k d, k ≠ str "group" → listOr attr' k d = listOr attr k d := by
    intro k d other
    rw [listOr, listOr, ungrouped.lists k other]
  have strides := same (str "strides") [1, 1] (by decide)
  have dilations := same (str "dilations") [1, 1] (by decide)
  have geometry : convGeom h w kh kw attr' = convGeom h w kh kw attr := by
    rw [convGeom, convGeom, strides, dilations, ungrouped.autoPad,
      same (str "pads") [0, 0, 0, 0] (by decide)]
  rw [conv2d, geometry, listPadded, listPadded, strides, dilations, ungrouped.group]
  cases convGeom h w kh kw attr <;> rfl

/-- The operands of a group are those of the whole, from a place on. -/
structure GroupOperands (n h w kh kw group inCg outCg gi : Nat) (o o' : Operands R) : Prop where
  channels : o.channels = (group * inCg : Nat)
  perGroup : o.perGroup = inCg
  outputs : o.outputs = (group * outCg : Nat)
  channels' : o'.channels = inCg
  perGroup' : o'.perGroup = inCg
  outputs' : o'.outputs = outCg
  x : ∀ b < n, ∀ ic < inCg, ∀ p < h * w, o'.x (position inCg (h * w) b ic p : Nat) =
    o.x (position (group * inCg) (h * w) b (gi * inCg + ic) p : Nat)
  w : ∀ i < outCg * inCg * (kh * kw), o'.w i = o.w (gi * (outCg * inCg * (kh * kw)) + i : Nat)
  bias : ∀ j < outCg, o'.bias j = o.bias (gi * outCg + j : Nat)

/-- **A channel of a group adds up the same products.** -/
theorem GroupOperands.conv2dAt_eq {n h w kh kw group inCg outCg gi : Nat} {o o' : Operands R}
    (same : GroupOperands n h w kh kw group inCg outCg gi o o') (some_ : 0 < group) {b j : Nat}
    (image : b < n) (channel : j < outCg) (sh sw dh dw pt pl oy ox : Int) :
    conv2dAt o' 1 h w kh kw sh sw dh dw pt pl b j oy ox =
      conv2dAt o group h w kh kw sh sw dh dw pt pl b (gi * outCg + j : Nat) oy ox := by
  have first : (j : Int) / (o'.outputs / 1) * o'.perGroup = 0 := by
    rw [same.outputs', ediv_one, ← natCast_ediv, Nat.div_eq_of_lt channel]
    exact Int.zero_mul _
  have start : ((gi * outCg + j : Nat) : Int) / (o.outputs / group) * o.perGroup =
      (gi * inCg : Nat) := by
    rw [same.outputs, same.perGroup, ← natCast_ediv, Nat.mul_div_cancel_left outCg some_,
      ← natCast_ediv, row_div gi channel, Nat.cast_mul]
  rw [conv2dAt, conv2dAt]
  dsimp only
  rw [first, start, same.bias j channel, same.perGroup, same.perGroup', same.channels,
    same.channels']
  refine congrArg (_ + ·) (Finset.sum_congr rfl fun ic small => Finset.sum_congr rfl fun ky low => ?_)
  have ic_lt : ic < inCg := by simpa using small
  have ky_lt : ky < kh := by simpa using low
  split_ifs with row
  · refine Finset.sum_congr rfl fun kx left => ?_
    have kx_lt : kx < kw := by simpa using left
    split_ifs with column
    · obtain ⟨iy, hereY⟩ := eq_ofNat_of_zero_le row.1
      obtain ⟨ix, hereX⟩ := eq_ofNat_of_zero_le column.1
      rw [hereY] at row
      rw [hereX] at column
      rw [hereY, hereX]
      have iy_lt : iy < h := by omega
      have ix_lt : ix < w := by omega
      have inPlane : iy * w + ix < h * w := plane_lt iy_lt ix_lt
      have inKernel : ky * kw + kx < kh * kw := plane_lt ky_lt kx_lt
      have product := same.x b image ic ic_lt (iy * w + ix) inPlane
      have weight := same.w (position inCg (kh * kw) j ic (ky * kw + kx))
        (position_lt channel ic_lt inKernel)
      have inX : ((b : Int) * inCg + (0 + ic)) * h * w + (iy * w + ix) =
          (position inCg (h * w) b ic (iy * w + ix) : Nat) := by
        rw [position]
        push_cast
        ring
      have inWhole : ((b : Int) * (group * inCg : Nat) + ((gi * inCg : Nat) + ic)) * h * w +
          (iy * w + ix) =
          (position (group * inCg) (h * w) b (gi * inCg + ic) (iy * w + ix) : Nat) := by
        rw [position]
        push_cast
        ring
      have inRows : ((j : Int) * inCg + ic) * kh * kw + (ky * kw + kx) =
          (position inCg (kh * kw) j ic (ky * kw + kx) : Nat) := by
        rw [position]
        push_cast
        ring
      have inWeight : (((gi * outCg + j : Nat) : Int) * inCg + ic) * kh * kw + (ky * kw + kx) =
          (gi * (outCg * inCg * (kh * kw)) + position inCg (kh * kw) j ic (ky * kw + kx) : Nat) := by
        rw [position]
        push_cast
        ring
      rw [inX, inWhole, inRows, inWeight, product, weight]
    · rfl
  · rfl

/-! ## The operands of a group -/

/-- A whole input and a whole weight: `n` images of `h` by `w` places, groups of `inCg` channels in
and `outCg` channels out, and a kernel of `kh` by `kw`. -/
structure Whole (n h w kh kw group inCg outCg : Nat) (X W : Held R) : Prop where
  input : X.shape = [(n : Int), (group * inCg : Nat), h, w]
  images : n < 2 ^ 63
  count : X.elems.length = n * (group * inCg) * (h * w)
  weight : W.shape = [((group * outCg : Nat) : Int), inCg, kh, kw]

section Whole

variable {n h w kh kw group inCg outCg gi : Nat} {X W : Held R}

theorem readAt_getElem? {X Y : List R} {i j : Nat} (same : X[i]? = Y[j]?) :
    readAt 0 X i = readAt 0 Y j := by
  rw [readAt_natCast, readAt_natCast, getD_eq_getElem?_getD, getD_eq_getElem?_getD, same]

theorem readAt_rows (shape : Shape) (W : Held R) (count gi : Nat) {i : Nat} (small : i < count) :
    readAt 0 (groupRows shape count gi W).elems i = readAt 0 W.elems (gi * count + i : Nat) := by
  refine readAt_getElem? ?_
  rw [groupRows, getElem?_take_of_lt small, getElem?_drop]

/-- The shape and the elements of a group's channels. -/
theorem Whole.channels (whole : Whole n h w kh kw group inCg outCg X W) (inside : gi < group) :
    (groupChannels inCg gi X).shape = [(n : Int), inCg, h, w] ∧
      Piece n (h * w) (group * inCg) inCg (gi * inCg) X.elems
        (groupChannels inCg gi X).elems := by
  have room : gi * inCg + inCg ≤ group * inCg := by
    rw [← Nat.add_one_mul]
    exact Nat.mul_le_mul_right inCg inside
  have one : toInt32 ([(n : Int)].length : Nat) = ([(n : Int)].length : Nat) :=
    (by decide : toInt32 ((1 : Nat) : Int) = (1 : Nat))
  have front : ∀ d ∈ [(n : Int)], 0 ≤ d := by simp
  have back : ∀ d ∈ [(h : Int), (w : Int)], 0 ≤ d := by simp
  have outer : (size [(n : Int)]).toNat = n := by simp [size]
  have inner : (size [(h : Int), (w : Int)]).toNat = h * w := by
    rw [size, size, size, Int.mul_one]
    exact toNat_natCast (h * w)
  have piece := slice_piece (0 : R) front back one room (X := X.elems)
    (by rw [outer, inner, whole.count])
  obtain ⟨shape, elements⟩ := (isPiece_iff front back _ _ _ _).mp piece
  rw [outer, inner] at elements
  rw [groupChannels, whole.input]
  exact ⟨shape, elements⟩

theorem ofShape_four {n c h w : Int} (low : 0 ≤ n) (high : n < 2 ^ 63) :
    NCHW.ofShape [n, c, h, w] = ⟨n, c, h, w⟩ := by
  have fits : wrap64 (1 * n) = n := by
    rw [Int.one_mul]
    exact wrap64_of_fits (by omega) high
  exact congrArg (fun m => NCHW.mk m c h w) fits

theorem Whole.operands (whole : Whole n h w kh kw group inCg outCg X W) (B : Option (Held R))
    (inside : gi < group) :
    GroupOperands n h w kh kw group inCg outCg gi (convOperands X W B)
      (convOperands (groupChannels inCg gi X)
        (groupRows [(outCg : Int), inCg, kh, kw] (outCg * inCg * (kh * kw)) gi W)
        (B.map (groupRows [(outCg : Int)] outCg gi))) := by
  obtain ⟨shape, elements⟩ := whole.channels inside
  have images : (n : Int) < 2 ^ 63 := by exact_mod_cast whole.images
  refine ⟨?_, ?_, ?_, ?_, rfl, rfl, fun b image ic small p place => ?_, fun i small => ?_,
    fun j small => ?_⟩
  · dsimp only [convOperands]
    rw [whole.input, ofShape_four (natCast_nonneg n) images]
  · dsimp only [convOperands]
    rw [whole.weight]
    rfl
  · dsimp only [convOperands]
    rw [whole.weight]
    rfl
  · dsimp only [convOperands]
    rw [shape, ofShape_four (natCast_nonneg n) images]
  · exact readAt_getElem? (elements.elements b image ic small p place)
  · exact readAt_rows _ W _ gi small
  · cases B with
    | none => rfl
    | some B => exact readAt_rows _ B outCg gi small

def axisEntry (attr : Attributes) (key : Str) (i : Nat) : Int := (listPadded attr key [1, 1]).getD i 1

/-- The sums of a convolution with resolved geometry. -/
def sums (o : Operands R) (attr : Attributes) (group : Int) (h w kh kw : Int) (geo : ConvGeom) :
    Int → Int → Int → Int → R :=
  conv2dAt o group h w kh kw (axisEntry attr (str "strides") 0) (axisEntry attr (str "strides") 1)
    (axisEntry attr (str "dilations") 0) (axisEntry attr (str "dilations") 1) geo.padT geo.padL

theorem Whole.convolve_eq (whole : Whole n h w kh kw group inCg outCg X W) (act : R → R)
    (B : Option (Held R)) : convolve act attr X W B = (convGeom h w kh kw attr).map fun geo =>
      ⟨[(n : Int), (group * outCg : Nat), geo.outH, geo.outW],
        planes act n (group * outCg : Nat) geo.outH geo.outW
          (sums (convOperands X W B) attr (attr.geti (str "group") 1) h w kh kw geo)⟩ := by
  have images : (n : Int) < 2 ^ 63 := by exact_mod_cast whole.images
  rw [convolve, whole.weight, if_neg (by simp), whole.input, ofShape_four (natCast_nonneg n) images]
  change (conv2d (convOperands X W B) attr kh kw h w).map _ = _
  rw [conv2d]
  cases convGeom h w kh kw attr <;> rfl

theorem Whole.convolve_group (whole : Whole n h w kh kw group inCg outCg X W)
    (ungrouped : Ungrouped attr attr') (inside : gi < group) (act : R → R) (B : Option (Held R)) :
    convolve act attr' (groupChannels inCg gi X)
        (groupRows [(outCg : Int), inCg, kh, kw] (outCg * inCg * (kh * kw)) gi W) B =
      (convGeom h w kh kw attr).map fun geo =>
        ⟨[(n : Int), outCg, geo.outH, geo.outW], planes act n outCg geo.outH geo.outW
          (sums (convOperands (groupChannels inCg gi X)
            (groupRows [(outCg : Int), inCg, kh, kw] (outCg * inCg * (kh * kw)) gi W) B)
            attr 1 h w kh kw geo)⟩ := by
  have images : (n : Int) < 2 ^ 63 := by exact_mod_cast whole.images
  have shape := (whole.channels inside).1
  rw [convolve, if_neg (by simp [groupRows]), shape, ofShape_four (natCast_nonneg n) images]
  change (conv2d _ attr' kh kw h w).map _ = _
  rw [ungrouped.conv2d_eq]
  cases convGeom h w kh kw attr <;> rfl

/-- **The outputs of the groups, joined along the channels, are the output.** -/
theorem Whole.joined_eq (whole : Whole n h w kh kw group inCg outCg X W)
    (groups : attr.geti (str "group") 1 = group) (some_ : 0 < group)
    (ungrouped : Ungrouped attr attr') (act : R → R) (B : Option (Held R))
    (proper : ∀ Y, convolve act attr X W B = some Y → ∀ d ∈ Y.shape, 0 ≤ d) :
    ((List.range group).mapM fun gi => convolve act attr' (groupChannels inCg gi X)
        (groupRows [(outCg : Int), inCg, kh, kw] (outCg * inCg * (kh * kw)) gi W)
        (B.map (groupRows [(outCg : Int)] outCg gi))).map (joined 1) =
      convolve act attr X W B := by
  have whole_ : convolve act attr X W B = _ := whole.convolve_eq act B
  cases geometry : convGeom h w kh kw attr with
  | none =>
    obtain ⟨more, rfl⟩ := Nat.exists_eq_add_of_lt some_
    rw [whole_, geometry, range_succ_eq_map, mapM_cons,
      whole.convolve_group ungrouped (by omega), geometry]
    rfl
  | some geo =>
    rw [geometry, Option.map_some] at whole_
    have dims := proper _ whole_
    obtain ⟨outH, hereH⟩ := eq_ofNat_of_zero_le (dims geo.outH (by simp))
    obtain ⟨outW, hereW⟩ := eq_ofNat_of_zero_le (dims geo.outW (by simp))
    rw [whole_, hereH, hereW, groups]
    have each : ∀ gi ∈ List.range group, convolve act attr' (groupChannels inCg gi X)
        (groupRows [(outCg : Int), inCg, kh, kw] (outCg * inCg * (kh * kw)) gi W)
        (B.map (groupRows [(outCg : Int)] outCg gi)) =
        some ⟨[(n : Int), outCg, outH, outW], planes act n outCg outH outW
          (sums (convOperands (groupChannels inCg gi X)
            (groupRows [(outCg : Int), inCg, kh, kw] (outCg * inCg * (kh * kw)) gi W)
            (B.map (groupRows [(outCg : Int)] outCg gi))) attr 1 h w kh kw geo)⟩ := by
      intro gi listed
      rw [whole.convolve_group ungrouped (mem_range.mp listed), geometry, Option.map_some,
        hereH, hereW]
    rw [(Gemm.mapM_eq_some_map _).mpr each, Option.map_some, Option.some.injEq, joined]
    have front : ∀ d ∈ [(n : Int)], 0 ≤ d := by simp
    have back : ∀ d ∈ [(outH : Int), (outW : Int)], 0 ≤ d := by simp
    have outer : (size [(n : Int)]).toNat = n := by simp [size]
    have inner : (size [(outH : Int), (outW : Int)]).toNat = outH * outW := by
      rw [size, size, size, Int.mul_one]
      exact toNat_natCast (outH * outW)
    have pieces := @concat_pieces R [(n : Int)] [(outH : Int), (outW : Int)] (group * outCg) 0 front
      back (List.replicate group outCg) (by simp; omega) (by simp) 1 rfl
      (planes act n (group * outCg : Nat) outH outW
        (sums (convOperands X W B) attr group h w kh kw geo))
      (by rw [outer, inner, length_planes])
      ((List.range group).map fun gi => ([(n : Int), outCg, outH, outW],
        planes act n outCg outH outW (sums (convOperands (groupChannels inCg gi X)
          (groupRows [(outCg : Int), inCg, kh, kw] (outCg * inCg * (kh * kw)) gi W)
          (B.map (groupRows [(outCg : Int)] outCg gi))) attr 1 h w kh kw geo)))
      ?_ ?_
    · rw [map_map]
      exact congrArg (fun y : Shape × List R => Held.mk y.1 y.2) pieces
    · refine forall₂_iff_get.mpr ⟨by simp, fun i small small' => ?_⟩
      simp
    · intro gi part size listed sized
      rw [getElem?_map] at listed
      obtain ⟨gi', place, rfl⟩ := Option.map_eq_some_iff.mp listed
      obtain ⟨inside, rfl⟩ := List.getElem?_eq_some_iff.mp place
      obtain ⟨-, rfl⟩ := List.getElem?_eq_some_iff.mp sized
      rw [length_range] at inside
      rw [outer, inner, getElem_range, getElem_replicate, take_replicate,
        Nat.min_eq_left inside.le, sum_replicate, smul_eq_mul]
      refine piece_planes act inside fun b image j channel oy ox => ?_
      exact (whole.operands B inside).conv2dAt_eq some_ image channel _ _ _ _ _ _ oy ox

end Whole

/-! ## The kernels of a run -/

/-- An operand that may be left out: what it holds, if it is there; nothing where it is there and
was not computed. -/
def optionalOperand : Option (Option (Held R)) → Option (Option (Held R))
  | none => some none
  | some b => b.map some

/-- A slice whose lists are attributes. -/
def sliced (attr : Attributes) (X : Held R) : Held R :=
  let p : SliceParams := ⟨attr.getints (str "starts"), attr.getints (str "ends"),
    attr.getints (str "axes"), attr.getints (str "steps")⟩
  ⟨sliceShape p X.shape, slice 0 p X.shape X.elems⟩

/-- Kernels on tensors: convolutions, slices by attributes and concatenations, none of them with a
pointwise epilogue, are computed without rounding.  A residual, and every other operator, is left to
`rest`.  A convolution has an activation and no use for a fused bias. -/
def exactOperators (act : ActType → Float32Bits → Float32Bits → R → R)
    (rest : Operators (Option (Held R))) : Operators (Option (Held R)) where
  unset := rest.unset
  apply op ins residual bias :=
    if op.attr.has (str "pw_steps") then rest.apply op ins residual bias
    else match op.type, ins, residual with
      | .conv, some X :: some W :: more, none => [do
          let X ← X
          let W ← W
          let B ← optionalOperand (more.headD none)
          convolve (act op.fusedAct op.actLo op.actHi) op.attr X W B]
      | .slice, [some X], _ =>
        if op.attr.has (str "view_stride") then rest.apply op ins residual bias
        else [X.map (sliced op.attr)]
      | .concat, parts, _ =>
        [(parts.mapM fun part => Option.join part).map (joined (op.attr.geti (str "axis") 0))]
      | _, _, _ => rest.apply op ins residual bias

section Apply

variable (act : ActType → Float32Bits → Float32Bits → R → R)
  (rest : Operators (Option (Held R))) {op : Operation}

theorem apply_conv (type : op.type = .conv) (plain : op.attr.has (str "pw_steps") = false)
    (X W : Option (Held R)) (more : List (Option (Option (Held R))))
    (bias : Option (Option (Held R))) :
    (exactOperators act rest).apply op (some X :: some W :: more) none bias = [do
      let X ← X
      let W ← W
      let B ← optionalOperand (more.headD none)
      convolve (act op.fusedAct op.actLo op.actHi) op.attr X W B] := by
  dsimp only [exactOperators]
  rw [plain, if_neg Bool.false_ne_true, type]

theorem apply_slice (type : op.type = .slice) (plain : op.attr.has (str "pw_steps") = false)
    (unfolded : op.attr.has (str "view_stride") = false) (X : Option (Held R))
    (residual bias : Option (Option (Held R))) :
    (exactOperators act rest).apply op [some X] residual bias = [X.map (sliced op.attr)] := by
  dsimp only [exactOperators]
  rw [plain, if_neg Bool.false_ne_true, type]
  dsimp only
  rw [unfolded, if_neg Bool.false_ne_true]

theorem apply_concat (type : op.type = .concat) (plain : op.attr.has (str "pw_steps") = false)
    (parts : List (Option (Option (Held R)))) (residual bias : Option (Option (Held R))) :
    (exactOperators act rest).apply op parts residual bias =
      [(parts.mapM fun part => Option.join part).map (joined (op.attr.geti (str "axis") 0))] := by
  dsimp only [exactOperators]
  rw [plain, if_neg Bool.false_ne_true, type]

end Apply

end Vknn.Cpu
