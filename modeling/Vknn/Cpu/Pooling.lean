import Vknn.Core.ConvSum

/-!
# Pooling

A window of a pool takes the cells of the input that it covers, row by row; those in the padding
are passed over.  An average is their sum, divided by the whole kernel's area or by how many
there are; a maximum is the largest.  Both kernels walk a window in the same way.

The geometry is that of a convolution with dilation 1.  A node's dilations are not read, and
neither is a rounding of its extents upwards.
-/

namespace Vknn.Cpu.Pooling

open ConvGeom ConvSum List

def poolGeom (inH inW : Int) (attr : Attributes) : Option ConvGeom :=
  match listOr attr (str "kernel_shape") [1, 1], listOr attr (str "strides") [1, 1] with
  | kh :: kw :: _, sh :: sw :: _ =>
    convGeomEx inH inW kh kw sh sw 1 1 (listOr attr (str "pads") [0, 0, 0, 0])
      (attr.gets (str "auto_pad") (str "NOTSET"))
  | _, _ => none

/-! ## The kernels -/

section Kernels

variable {σ R : Type}

/-- Walk the window of one output: rows and columns that lie in the padding are passed over. -/
def walk (h w : Axis) (padT padL oy ox : Int) (step : σ → Int → Int → σ) (start : σ) : σ :=
  (range h.kernel.toNat).foldl (fun s (ky : Nat) =>
    let iy := oy * h.stride - padT + (ky : Int)
    if iy < 0 ∨ h.input ≤ iy then s
    else (range w.kernel.toNat).foldl (fun s (kx : Nat) =>
      let ix := ox * w.stride - padL + (kx : Int)
      if ix < 0 ∨ w.input ≤ ix then s else step s iy ix) s) start

/-- One output of the average: the sum over the window, and what divides it. -/
def avgPool [AddCommMonoid R] (h w : Axis) (padT padL : Int) (incPad : Bool) (plane : Int → R)
    (oy ox : Int) : R × Int :=
  let (acc, cnt) := walk h w padT padL oy ox
    (fun (acc, cnt) iy ix => (acc + plane (iy * w.input + ix), cnt + 1)) ((0 : R), (0 : Int))
  (acc, if incPad then h.kernel * w.kernel else max cnt 1)

/-- One output of the maximum; where the window covers nothing there is none. -/
def maxPool [LinearOrder R] (h w : Axis) (padT padL : Int) (plane : Int → R) (oy ox : Int) :
    WithBot R :=
  walk h w padT padL oy ox (fun m iy ix => max m (plane (iy * w.input + ix))) ⊥

end Kernels

/-! ## What a pool is -/

/-- A place that a tap of window `o` falls on. -/
def Covered (a : Axis) (pad o x : Int) : Prop :=
  0 ≤ x ∧ x < a.input ∧ ∃ k, 0 ≤ k ∧ k < a.kernel ∧ x = o * a.stride - pad + k * a.dilation

/-- The extent under given pads, rounded down or up. -/
def Extent (ceil : Bool) (a : Axis) (before behind out : Int) : Prop :=
  if ceil then out = -((a.span - (a.input + before + behind)) / a.stride) + 1
  else a.Counted before behind out

def Geometry (ceil : Bool) (h w : Axis) (pads : List Int) (autoPad : Str) (g : ConvGeom) : Prop :=
  if autoPad = str "SAME_UPPER" ∨ autoPad = str "SAME_LOWER" then
    h.Same (autoPad == str "SAME_UPPER") g.padT g.padB g.outH ∧
      w.Same (autoPad == str "SAME_UPPER") g.padL g.padR g.outW
  else
    explicitPads pads autoPad = some (g.padT, g.padL, g.padB, g.padR) ∧
      Extent ceil h g.padT g.padB g.outH ∧ Extent ceil w g.padL g.padR g.outW

/-- The cells of a window, each once, and what the kernels make of them. -/
structure Window (h w : Axis) (padT padL oy ox : Int) (cells : List (Int × Int)) : Prop where
  nodup : cells.Nodup
  covered : ∀ y x, (y, x) ∈ cells ↔ Covered h padT oy y ∧ Covered w padL ox x
  average : ∀ {R : Type} [AddCommMonoid R] (plane : Int → R) (incPad : Bool),
    avgPool h w padT padL incPad plane oy ox =
      ((cells.map fun c => plane (c.1 * w.input + c.2)).sum,
        if incPad then h.kernel * w.kernel else max cells.length 1)
  maximum : ∀ {R : Type} [LinearOrder R] (plane : Int → R) (m : WithBot R),
    maxPool h w padT padL plane oy ox ≤ m ↔
      ∀ c ∈ cells, (plane (c.1 * w.input + c.2) : WithBot R) ≤ m

/-- A node is refused, or it is pooled: its geometry, the cells of each window, the divisor of an average
and the largest element are those of the axes. -/
def Pooled (ceil : Bool) (h w : Axis) (attr : Attributes) : Prop :=
  ∀ g, poolGeom h.input w.input attr = some g →
    Geometry ceil h w (listOr attr (str "pads") [0, 0, 0, 0])
      (attr.gets (str "auto_pad") (str "NOTSET")) g ∧
      ∀ oy ox, ∃ cells, Window h w g.padT g.padL oy ox cells

/-- The axes of a node, with dilations. -/
def axes (attr : Attributes) (inH inW dh dw : Int) : Axis × Axis :=
  let ks := listOr attr (str "kernel_shape") [1, 1]
  let st := listOr attr (str "strides") [1, 1]
  (⟨inH, ks.getD 0 1, st.getD 0 1, dh⟩, ⟨inW, ks.getD 1 1, st.getD 1 1, dw⟩)

/-- A node is refused or pooled as it asks for. -/
def AsAsked (attr : Attributes) (inH inW : Int) : Prop :=
  let dil := listOr attr (str "dilations") [1, 1]
  let a := axes attr inH inW (dil.getD 0 1) (dil.getD 1 1)
  Pooled (attr.geti (str "ceil_mode") 0 ≠ 0) a.1 a.2 attr

/-! ## Windows -/

/-- The cells of one axis in a window. -/
def taps (a : Axis) (pad o : Int) : List Int :=
  ((range a.kernel.toNat).map fun (k : Nat) => o * a.stride - pad + (k : Int)).filter
    fun x => 0 ≤ x ∧ x < a.input

variable {h w a : Axis} {padT padL pad oy ox o x : Int}

theorem nodup_taps : (taps a pad o).Nodup :=
  (List.nodup_range.map fun i j same => by simpa using same).filter _

theorem mem_taps (undilated : a.dilation = 1) : x ∈ taps a pad o ↔ Covered a pad o x := by
  simp only [taps, mem_filter, mem_map, mem_range, decide_eq_true_eq, Covered, undilated]
  constructor
  · rintro ⟨⟨k, small, rfl⟩, least, high⟩
    exact ⟨least, high, k, by omega, by omega, by omega⟩
  · rintro ⟨least, high, k, first, small, rfl⟩
    exact ⟨⟨k.toNat, by omega, by omega⟩, least, high⟩

/-- **A walk goes through the cells of the window.** -/
theorem walk_eq {σ : Type} (step : σ → Int → Int → σ) (start : σ) :
    walk h w padT padL oy ox step start =
      ((taps h padT oy).flatMap fun y => (taps w padL ox).map fun x => (y, x)).foldl
        (fun s c => step s c.1 c.2) start := by
  have passed : ∀ (n x : Int), (x < 0 ∨ n ≤ x) ↔ ¬ (0 ≤ x ∧ x < n) := fun n x => by omega
  simp only [walk, taps, foldl_flatMap, foldl_map, foldl_filter, passed, ite_not, decide_eq_true_eq]

/-- **Every window is pooled over the cells it covers.** -/
theorem exists_window (hDilation : h.dilation = 1) (wDilation : w.dilation = 1) (padT padL oy ox : Int) :
    ∃ cells, Window h w padT padL oy ox cells := by
  refine ⟨(taps h padT oy).flatMap fun y => (taps w padL ox).map fun x => (y, x), ?_, ?_, ?_, ?_⟩
  · exact nodup_taps.product nodup_taps
  · intro y x
    rw [← mem_taps hDilation, ← mem_taps wDilation]
    simp
  · intro R _ plane incPad
    have counted : ∀ (cells : List (Int × Int)) (acc : R) (cnt : Int),
        cells.foldl (fun s c => (s.1 + plane (c.1 * w.input + c.2), s.2 + 1)) (acc, cnt) =
          (acc + (cells.map fun c => plane (c.1 * w.input + c.2)).sum, cnt + cells.length) := by
      intro cells
      induction cells with
      | nil => simp
      | cons c cells ih =>
        intro acc cnt
        rw [foldl_cons, ih, map_cons, sum_cons, add_assoc, length_cons]
        push_cast
        ring_nf
    rw [avgPool, walk_eq, counted, zero_add, zero_add]
  · intro R _ plane m
    have largest : ∀ (cells : List (Int × Int)) (start : WithBot R),
        cells.foldl (fun s c => max s (plane (c.1 * w.input + c.2) : WithBot R)) start ≤ m ↔
          start ≤ m ∧ ∀ c ∈ cells, (plane (c.1 * w.input + c.2) : WithBot R) ≤ m := by
      intro cells
      induction cells with
      | nil => simp
      | cons c cells ih =>
        intro start
        rw [foldl_cons, ih, max_le_iff, forall_mem_cons, and_assoc]
    rw [maxPool, walk_eq, largest]
    simp

/-- **A node is pooled as if it had no dilations and were rounded down**, whatever it asks for. -/
theorem pooled_undilated {attr : Attributes} {inH inW : Int}
    (validH : (axes attr inH inW 1 1).1.Valid) (validW : (axes attr inH inW 1 1).2.Valid)
    (computable : Computable (axes attr inH inW 1 1).1 (axes attr inH inW 1 1).2
      (listOr attr (str "pads") [0, 0, 0, 0]) (attr.gets (str "auto_pad") (str "NOTSET"))) :
    Pooled false (axes attr inH inW 1 1).1 (axes attr inH inW 1 1).2 attr := by
  obtain ⟨g', resolved, right⟩ := (right_iff validH validW _ _).mpr computable
  intro g found
  refine ⟨?_, exists_window rfl rfl g.padT g.padL⟩
  have same : poolGeom inH inW attr = some g' := by
    have asked : poolGeom inH inW attr = some g := found
    unfold poolGeom at asked ⊢
    unfold axes at resolved
    split at asked
    · rename_i kernels strides
      simp only [kernels, strides, getD_cons_zero, getD_cons_succ] at resolved ⊢
      exact resolved
    · cases asked
  obtain rfl := Option.some.inj (same.symm.trans found)
  exact right

def dilated : Attributes where
  map := (((∅ : Std.ExtTreeMap Str Attr).insert (str "kernel_shape") { kind := .ints, ints := [2, 2] }).insert
    (str "dilations") { kind := .ints, ints := [2, 2] })

/-- On a 3-by-3 input it is pooled without its dilation. -/
theorem dilated_pooled :
    Pooled false (axes dilated 3 3 1 1).1 (axes dilated 3 3 1 1).2 dilated := by
  have axis : axes dilated 3 3 1 1 = (⟨3, 2, 1, 1⟩, ⟨3, 2, 1, 1⟩) := by decide
  have unpadded : listOr dilated (str "pads") [0, 0, 0, 0] = [0, 0, 0, 0] := by decide
  have plain : dilated.gets (str "auto_pad") (str "NOTSET") = str "NOTSET" := by decide
  have valid : (⟨3, 2, 1, 1⟩ : Axis).Valid := ⟨by decide, by decide, by decide, by decide⟩
  have span : (⟨3, 2, 1, 1⟩ : Axis).SpanFits := ⟨by decide, by decide, by decide⟩
  have fits : (⟨3, 2, 1, 1⟩ : Axis).ExplicitFits 0 0 :=
    ⟨by decide, by decide, by decide, by decide, .inl (by decide)⟩
  refine pooled_undilated (axis ▸ valid) (axis ▸ valid) ?_
  rw [axis, unpadded, plain]
  exact ⟨span, span, 0, 0, 0, 0, by decide, fits, fits⟩

/-- It has 2 by 2 outputs instead of one. -/
theorem dilated_ignored : ¬ AsAsked dilated 3 3 := by
  intro asked
  have found : poolGeom 3 3 dilated = some ⟨2, 2, 0, 0, 0, 0⟩ := by decide
  have dil : listOr dilated (str "dilations") [1, 1] = [2, 2] := by decide
  have axis : axes dilated 3 3 2 2 = (⟨3, 2, 1, 2⟩, ⟨3, 2, 1, 2⟩) := by decide
  have plain : dilated.gets (str "auto_pad") (str "NOTSET") = str "NOTSET" := by decide
  have floor : decide (dilated.geti (str "ceil_mode") 0 ≠ 0) = false := by decide
  unfold AsAsked at asked
  rw [dil, floor] at asked
  have geometry : Geometry false (axes dilated 3 3 2 2).1 (axes dilated 3 3 2 2).2 _ _ _ :=
    (asked _ found).1
  rw [plain, axis, Geometry, if_neg (by decide)] at geometry
  have one : (2 : Int) = Windows.count 3 3 1 := geometry.2.1
  rw [Windows.count_of_fits (by decide) (by decide)] at one
  exact absurd one (by decide)

end Vknn.Cpu.Pooling
