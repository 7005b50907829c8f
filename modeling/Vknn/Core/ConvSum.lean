import Vknn.Core.ConvGeom

/-!
# Convolution sums

The kernel convolves in two spatial dimensions.  A convolution in one dimension is given to
it as one whose second dimension is a single place: the input is as high as it was long, the
weight is one column wide, and the attributes gain a stride and dilation of 1 and pads of 0.
What the kernel then adds up is the one-dimensional sum, over the same buffers.

Elements are those of a semiring, so that sums have no rounding.
-/

namespace Vknn

open Finset Option

namespace ConvSum

open ConvGeom (spanOf sameAxis explicitAxis)

variable {R : Type} [CommSemiring R]

/-- The buffers of a convolution and the channels they have: those of the input, those a group
reads, and those of the output. -/
structure Operands (R : Type) where
  channels : Int
  perGroup : Int
  outputs : Int
  x : Int → R
  w : Int → R
  bias : Int → R

/-! ## In two dimensions -/

/-- An integer list of a node, or a default where it is absent. -/
def listOr (attr : Attributes) (key : Str) (d : List Int) : List Int :=
  let v := attr.getints key
  if v = [] then d else v

/-- The list that the kernel reads: what is missing at the end is taken from the default. -/
def listPadded (attr : Attributes) (key : Str) (d : List Int) : List Int :=
  let v := listOr attr key d
  v ++ d.drop v.length

/-- The geometry of a node's attributes; nothing where a list ends before its second entry. -/
def convGeom (inH inW kh kw : Int) (attr : Attributes) : Option ConvGeom :=
  match listOr attr (str "strides") [1, 1], listOr attr (str "dilations") [1, 1] with
  | sh :: sw :: _, dh :: dw :: _ =>
    convGeomEx inH inW kh kw sh sw dh dw (listOr attr (str "pads") [0, 0, 0, 0])
      (attr.gets (str "auto_pad") (str "NOTSET"))
  | _, _ => none

def conv2dAt (o : Operands R) (group inH inW kh kw sh sw dh dw pt pl n oc oy ox : Int) : R :=
  let icStart := oc / (o.outputs / group) * o.perGroup
  o.bias oc + ∑ ic ∈ range o.perGroup.toNat, ∑ ky ∈ range kh.toNat,
    let iy := oy * sh - pt + ky * dh
    if 0 ≤ iy ∧ iy < inH then
      ∑ kx ∈ range kw.toNat,
        let ix := ox * sw - pl + kx * dw
        if 0 ≤ ix ∧ ix < inW then
          o.x ((n * o.channels + (icStart + ic)) * inH * inW + (iy * inW + ix)) *
            o.w ((oc * o.perGroup + ic) * kh * kw + (ky * kw + kx))
        else 0
    else 0

/-- The output extents of the kernel and its outputs. -/
def conv2d (o : Operands R) (attr : Attributes) (kh kw inH inW : Int) :
    Option ((Int × Int) × (Int → Int → Int → Int → R)) := do
  let geo ← convGeom inH inW kh kw attr
  let strides := listPadded attr (str "strides") [1, 1]
  let dil := listPadded attr (str "dilations") [1, 1]
  pure ((geo.outH, geo.outW),
    conv2dAt o (attr.geti (str "group") 1) inH inW kh kw (strides.getD 0 1) (strides.getD 1 1)
      (dil.getD 0 1) (dil.getD 1 1) geo.padT geo.padL)

/-! ## In one dimension -/

/-- The pads before and behind the only axis. -/
def pads1d (pads : List Int) (autoPad : Str) : Option (Int × Int) :=
  if autoPad = str "VALID" then some (0, 0)
  else match pads with
    | b :: e :: _ => some (b, e)
    | _ => none

/-- The extent of the only axis and the pad before it, by the rule that every axis has. -/
def geom1d (len k s d : Int) (pads : List Int) (autoPad : Str) : Option (Int × Int) := do
  let span ← spanOf d k
  if autoPad = str "SAME_UPPER" ∨ autoPad = str "SAME_LOWER" then do
    let (out, first, _) ← sameAxis (autoPad == str "SAME_UPPER") len span s
    pure (out, first)
  else do
    let (first, behind) ← pads1d pads autoPad
    let out ← explicitAxis len first behind span s
    pure (out, first)

/-- One output of a one-dimensional convolution. -/
def conv1dAt (o : Operands R) (group len k s d pad n oc l : Int) : R :=
  let icStart := oc / (o.outputs / group) * o.perGroup
  o.bias oc + ∑ ic ∈ range o.perGroup.toNat, ∑ j ∈ range k.toNat,
    let i := l * s - pad + j * d
    if 0 ≤ i ∧ i < len then
      o.x ((n * o.channels + (icStart + ic)) * len + i) * o.w ((oc * o.perGroup + ic) * k + j)
    else 0

/-- The output extent of a one-dimensional convolution and its outputs. -/
def conv1d (o : Operands R) (attr : Attributes) (k len : Int) :
    Option (Int × (Int → Int → Int → R)) := do
  let s := (attr.getints (str "strides")).headD 1
  let d := (attr.getints (str "dilations")).headD 1
  let (out, pad) ← geom1d len k s d (listOr attr (str "pads") [0, 0])
    (attr.gets (str "auto_pad") (str "NOTSET"))
  pure (out, conv1dAt o (attr.geti (str "group") 1) len k s d pad)

/-! ## One dimension as two -/

/-- A list with the entry of a second dimension: appended, or put behind each pad. -/
def extended (oneD : Nat) (fill : Int) (v : List Int) : List Int :=
  if v.length ≠ oneD then v
  else if oneD = 2 then [v.getD 0 0, fill, v.getD 1 0, fill]
  else v ++ [fill]

/-- Attributes of a one-dimensional convolution: each list is absent or has one dimension. -/
structure OneDim (attr : Attributes) : Prop where
  strides : (attr.getints (str "strides")).length ≤ 1
  dilations : (attr.getints (str "dilations")).length ≤ 1
  kernel : (attr.getints (str "kernel_shape")).length ≤ 1
  pads : attr.getints (str "pads") = [] ∨ (attr.getints (str "pads")).length = 2

/-- Attributes of a two-dimensional convolution: each list is absent or has two dimensions. -/
structure TwoDim (attr : Attributes) : Prop where
  strides : attr.getints (str "strides") = [] ∨ (attr.getints (str "strides")).length = 2
  dilations : attr.getints (str "dilations") = [] ∨ (attr.getints (str "dilations")).length = 2
  kernel : attr.getints (str "kernel_shape") = [] ∨ (attr.getints (str "kernel_shape")).length = 2
  pads : attr.getints (str "pads") = [] ∨ (attr.getints (str "pads")).length = 4

/-- Attributes that differ by the entries of a second dimension. -/
structure Widened (attr attr' : Attributes) : Prop where
  strides : attr'.getints (str "strides") = extended 1 1 (attr.getints (str "strides"))
  dilations : attr'.getints (str "dilations") = extended 1 1 (attr.getints (str "dilations"))
  kernel : attr'.getints (str "kernel_shape") = extended 1 1 (attr.getints (str "kernel_shape"))
  pads : attr'.getints (str "pads") = extended 2 0 (attr.getints (str "pads"))
  autoPad : attr'.gets (str "auto_pad") (str "NOTSET") = attr.gets (str "auto_pad") (str "NOTSET")
  group : attr'.geti (str "group") 1 = attr.geti (str "group") 1

theorem extended_single {v : List Int} (short : v.length ≤ 1) :
    v = [] ∧ extended 1 1 v = [] ∨ ∃ a, v = [a] ∧ extended 1 1 v = [a, 1] := by
  match v with
  | [] => exact .inl ⟨rfl, rfl⟩
  | [a] => exact .inr ⟨a, rfl, rfl⟩
  | _ :: _ :: _ =>
    rw [List.length_cons, List.length_cons] at short
    omega

theorem extended_pads {v : List Int} (size : v = [] ∨ v.length = 2) :
    v = [] ∧ extended 2 0 v = [] ∨ ∃ b e, v = [b, e] ∧ extended 2 0 v = [b, 0, e, 0] := by
  rcases size with rfl | two
  · exact .inl ⟨rfl, rfl⟩
  · obtain ⟨b, e, rfl⟩ := List.length_eq_two.mp two
    exact .inr ⟨b, e, rfl, rfl⟩

variable {attr attr' : Attributes}

theorem Widened.twoDim (widened : Widened attr attr') (oneDim : OneDim attr) : TwoDim attr' := by
  refine ⟨?_, ?_, ?_, ?_⟩
  · rw [widened.strides]
    rcases extended_single oneDim.strides with ⟨-, none_⟩ | ⟨a, -, two⟩
    · exact .inl none_
    · exact .inr (two ▸ rfl)
  · rw [widened.dilations]
    rcases extended_single oneDim.dilations with ⟨-, none_⟩ | ⟨a, -, two⟩
    · exact .inl none_
    · exact .inr (two ▸ rfl)
  · rw [widened.kernel]
    rcases extended_single oneDim.kernel with ⟨-, none_⟩ | ⟨a, -, two⟩
    · exact .inl none_
    · exact .inr (two ▸ rfl)
  · rw [widened.pads]
    rcases extended_pads oneDim.pads with ⟨-, none_⟩ | ⟨b, e, -, four⟩
    · exact .inl none_
    · exact .inr (four ▸ rfl)

/-- The stride or dilation of the first axis stays, that of the second is 1. -/
theorem Widened.listOr_pair {key : Str} (short : (attr.getints key).length ≤ 1)
    (list : attr'.getints key = extended 1 1 (attr.getints key)) :
    listOr attr' key [1, 1] = [(attr.getints key).headD 1, 1] := by
  rw [listOr, list]
  rcases extended_single short with ⟨none_, same⟩ | ⟨a, one, two⟩
  · rw [same, none_]
    rfl
  · rw [two, one]
    rfl

/-- The geometry has the extent and the pad of the one axis, and one place beside it. -/
theorem Widened.convGeom_eq (widened : Widened attr attr') (oneDim : OneDim attr) (len k : Int) :
    (convGeom len 1 k 1 attr').map (fun geo => (geo.outH, geo.outW, geo.padT, geo.padL)) =
      (geom1d len k ((attr.getints (str "strides")).headD 1)
        ((attr.getints (str "dilations")).headD 1) (listOr attr (str "pads") [0, 0])
        (attr.gets (str "auto_pad") (str "NOTSET"))).map fun r => (r.1, 1, r.2, 0) := by
  have strides := Widened.listOr_pair oneDim.strides widened.strides
  have dilations := Widened.listOr_pair oneDim.dilations widened.dilations
  generalize (attr.getints (str "strides")).headD 1 = s at strides ⊢
  generalize (attr.getints (str "dilations")).headD 1 = d at dilations ⊢
  rw [convGeom, strides, dilations, widened.autoPad]
  generalize attr.gets (str "auto_pad") (str "NOTSET") = autoPad
  dsimp only
  have unitSpan : spanOf 1 1 = some 1 := by decide
  rw [convGeomEx, geom1d, unitSpan]
  cases spanOf d k with
  | none => rfl
  | some span =>
    simp only [bind_eq_bind, bind_some]
    by_cases auto_ : autoPad = str "SAME_UPPER" ∨ autoPad = str "SAME_LOWER"
    · have unit : sameAxis (autoPad == str "SAME_UPPER") 1 1 1 = some (1, 0, 0) := by
        cases autoPad == str "SAME_UPPER" <;> decide
      rw [if_pos auto_, if_pos auto_, unit]
      cases sameAxis (autoPad == str "SAME_UPPER") len span s <;> rfl
    · have unit : explicitAxis 1 0 0 1 1 = some 1 := by decide
      rw [if_neg auto_, if_neg auto_]
      have pads : ConvGeom.explicitPads (listOr attr' (str "pads") [0, 0, 0, 0]) autoPad =
          (pads1d (listOr attr (str "pads") [0, 0]) autoPad).map fun p => (p.1, 0, p.2, 0) := by
        dsimp only [ConvGeom.explicitPads, pads1d, listOr]
        rw [widened.pads]
        by_cases valid : autoPad = str "VALID"
        · rw [if_pos valid, if_pos valid]
          rfl
        · rw [if_neg valid, if_neg valid]
          rcases extended_pads oneDim.pads with ⟨none_, same⟩ | ⟨b, e, two, four⟩
          · rw [same, none_]
            rfl
          · rw [four, two]
            rfl
      rw [pads]
      cases pads1d (listOr attr (str "pads") [0, 0]) autoPad with
      | none => rfl
      | some p =>
        simp only [map_some, bind_some, unit]
        cases explicitAxis len p.1 p.2 span s <;> rfl

theorem conv2dAt_unit (o : Operands R) (group len k s d pad n oc l : Int) :
    conv2dAt o group len 1 k 1 s 1 d 1 pad 0 n oc l 0 = conv1dAt o group len k s d pad n oc l := by
  rw [conv2dAt, conv1dAt]
  simp

/-- **The widened attributes describe the same sum** over the same buffers. -/
theorem Widened.conv2d_eq (widened : Widened attr attr') (oneDim : OneDim attr) (o : Operands R)
    (k len : Int) :
    (conv2d o attr' k 1 len 1).map (fun r => (r.1, fun n oc l => r.2 n oc l 0)) =
      (conv1d o attr k len).map fun r => ((r.1, 1), r.2) := by
  have geometry := widened.convGeom_eq oneDim len k
  have strides := Widened.listOr_pair oneDim.strides widened.strides
  have dilations := Widened.listOr_pair oneDim.dilations widened.dilations
  rw [conv2d, conv1d, listPadded, listPadded, strides, dilations, widened.group]
  cases here : convGeom len 1 k 1 attr' with
  | none =>
    rw [here, map_none] at geometry
    rw [map_eq_none_iff.mp geometry.symm]
    rfl
  | some geo =>
    rw [here, map_some] at geometry
    obtain ⟨⟨out, pad⟩, found, same⟩ := map_eq_some_iff.mp geometry.symm
    obtain ⟨rfl, one, rfl, zero⟩ : out = geo.outH ∧ 1 = geo.outW ∧ pad = geo.padT ∧
      0 = geo.padL := by simpa using same
    rw [found]
    simp only [bind_eq_bind, bind_some, Option.pure_def, map_some, ← one, ← zero]
    refine congrArg some (Prod.ext rfl ?_)
    funext n oc l
    exact conv2dAt_unit o _ len k _ _ _ n oc l

end ConvSum

end Vknn
