import Vknn.Ir.Graph
import Vknn.Lib.CheckedInt
import Vknn.Lib.Windows

/-!
# The geometry of a convolution

`convGeomEx` resolves the output extent and the pads of a convolution or pool on
its two axes.  With explicit pads the extent is what truncating division makes
of the room behind the first window; with automatic ones it is the number of
stride cells, and the pads are what that many windows need.

The extent is judged by the windows it stands for: as many as lie inside the
padded input.  With automatic pads each window also reaches the place its stride
cell begins at.
-/

namespace Vknn

/-- Resolved output extents, and the pads before and behind each axis. -/
structure ConvGeom where
  outH : Int
  outW : Int
  padT : Int
  padL : Int
  padB : Int
  padR : Int
deriving DecidableEq, Repr

namespace ConvGeom

open CheckedInt

def spanOf (dilation kernel : Int) : Option Int := do
  let gaps ← sub kernel 1
  let spread ← mul dilation gaps
  add spread 1

/-- One axis under automatic pads: the extent, and the pads before and behind. -/
def sameAxis (up : Bool) (input span stride : Int) : Option (Int × Int × Int) := do
  let biased ← add input stride
  let biased ← sub biased 1
  let out ← div biased stride
  let steps ← sub out 1
  let reach ← mul steps stride
  let reach ← add reach span
  let total ← sub reach input
  let total := if total < 0 then 0 else total
  let first := if up then total.tdiv 2 else total - total.tdiv 2
  pure (out, first, total - first)

/-- One axis under given pads: the extent. -/
def explicitAxis (input before behind span stride : Int) : Option Int := do
  let padded ← add input before
  let padded ← add padded behind
  let room ← sub padded span
  let steps ← div room stride
  add steps 1

/-- The explicit pads, in the order top, left, bottom, right. -/
def explicitPads (pads : List Int) (autoPad : Str) : Option (Int × Int × Int × Int) :=
  if autoPad = str "VALID" then some (0, 0, 0, 0)
  else match pads with
    | t :: l :: b :: r :: _ => some (t, l, b, r)
    | _ => none

end ConvGeom

open ConvGeom in
/-- Resolve the geometry of both axes; nothing where a step of the computation overflows, or where
pads are read that are not there. -/
def convGeomEx (inH inW kh kw sh sw dh dw : Int) (pads : List Int) (autoPad : Str) :
    Option ConvGeom := do
  let spanH ← spanOf dh kh
  let spanW ← spanOf dw kw
  if autoPad = str "SAME_UPPER" ∨ autoPad = str "SAME_LOWER" then do
    let up := autoPad == str "SAME_UPPER"
    let (outH, padT, padB) ← sameAxis up inH spanH sh
    let (outW, padL, padR) ← sameAxis up inW spanW sw
    pure { outH, outW, padT, padL, padB, padR }
  else do
    let (padT, padL, padB, padR) ← explicitPads pads autoPad
    let outH ← explicitAxis inH padT padB spanH sh
    let outW ← explicitAxis inW padL padR spanW sw
    pure { outH, outW, padT, padL, padB, padR }

namespace ConvGeom

open CheckedInt

/-! ## What the extent stands for -/

/-- One axis of a convolution. -/
structure Axis where
  input : Int
  kernel : Int
  stride : Int
  dilation : Int
deriving DecidableEq, Repr

namespace Axis

/-- The values a convolution has a meaning for. -/
structure Valid (a : Axis) : Prop where
  input : 0 ≤ a.input
  kernel : 1 ≤ a.kernel
  stride : 1 ≤ a.stride
  dilation : 1 ≤ a.dilation

def span (a : Axis) : Int := a.dilation * (a.kernel - 1) + 1

theorem Valid.span_pos {a : Axis} (valid : a.Valid) : 1 ≤ a.span := by
  have spread : 0 ≤ a.dilation * (a.kernel - 1) :=
    mul_nonneg (by linarith [valid.dilation]) (by linarith [valid.kernel])
  unfold span
  omega

/-- The extent is the number of windows that lie inside the padded input. -/
def Counted (a : Axis) (before behind out : Int) : Prop :=
  out = Windows.count (a.input + before + behind) a.span a.stride

/-- Place `x` of the input is in window `i`, behind pads of a size. -/
def InWindow (a : Axis) (before i x : Int) : Prop :=
  i * a.stride - before ≤ x ∧ x < i * a.stride - before + a.span

/-- Automatic pads: one window a stride cell, each inside the padded input and at the place its cell
begins at, under the least padding that allows it, split evenly with an odd place behind
(`up`) or before. -/
structure Same (a : Axis) (up : Bool) (before behind out : Int) : Prop where
  counted : a.Counted before behind out
  cells : out = Windows.cells a.input a.stride
  inside : ∀ i, 0 ≤ i → i < out → i * a.stride - before + a.span ≤ a.input + behind
  anchored : ∀ i, 0 ≤ i → i < out → i * a.stride < a.input ∧ a.InWindow before i (i * a.stride)
  covered : a.stride ≤ a.span → ∀ x, 0 ≤ x → x < a.input →
    ∃ i, 0 ≤ i ∧ i < out ∧ a.InWindow before i x
  least : before + behind = Windows.leastPadding a.input a.span a.stride
  split : if up then before ≤ behind ∧ behind ≤ before + 1 else behind ≤ before ∧ before ≤ behind + 1

end Axis

/-- **The geometry is right**: it is there, its pads are the ones asked for, and its extents count the
windows they stand for. -/
def Right (h w : Axis) (pads : List Int) (autoPad : Str) : Prop :=
  ∃ g, convGeomEx h.input w.input h.kernel w.kernel h.stride w.stride h.dilation w.dilation pads
      autoPad = some g ∧
    if autoPad = str "SAME_UPPER" ∨ autoPad = str "SAME_LOWER" then
      h.Same (autoPad == str "SAME_UPPER") g.padT g.padB g.outH ∧
        w.Same (autoPad == str "SAME_UPPER") g.padL g.padR g.outW
    else
      explicitPads pads autoPad = some (g.padT, g.padL, g.padB, g.padR) ∧
        h.Counted g.padT g.padB g.outH ∧ w.Counted g.padL g.padR g.outW

/-! ## When it is right -/

namespace Axis

/-- No step of the span's computation overflows. -/
structure SpanFits (a : Axis) : Prop where
  gaps : Fits (a.kernel - 1)
  spread : Fits (a.dilation * (a.kernel - 1))
  span : Fits a.span

/-- No step of an automatic axis overflows. -/
structure SameFits (a : Axis) : Prop where
  biased : Fits (a.input + a.stride)
  unbiased : Fits (a.input + a.stride - 1)
  steps : Fits (Windows.cells a.input a.stride - 1)
  reach : Fits ((Windows.cells a.input a.stride - 1) * a.stride)
  window : Fits ((Windows.cells a.input a.stride - 1) * a.stride + a.span)
  total : Fits ((Windows.cells a.input a.stride - 1) * a.stride + a.span - a.input)

/-- No step of an explicit axis overflows, and the window fits the padded input, or misses it by at
least one stride and less than two. -/
structure ExplicitFits (a : Axis) (before behind : Int) : Prop where
  first : Fits (a.input + before)
  padded : Fits (a.input + before + behind)
  room : Fits (a.input + before + behind - a.span)
  out : Fits ((a.input + before + behind - a.span).tdiv a.stride + 1)
  window : a.span ≤ a.input + before + behind ∨ a.stride ≤ a.span - (a.input + before + behind) ∧
      a.span - (a.input + before + behind) < 2 * a.stride

end Axis

/-- No step overflows, the pads that are read are there, and under explicit pads each window fits or
misses by at least one stride and less than two. -/
def Computable (h w : Axis) (pads : List Int) (autoPad : Str) : Prop :=
  h.SpanFits ∧ w.SpanFits ∧
    if autoPad = str "SAME_UPPER" ∨ autoPad = str "SAME_LOWER" then h.SameFits ∧ w.SameFits
    else ∃ t l b r, explicitPads pads autoPad = some (t, l, b, r) ∧
      h.ExplicitFits t b ∧ w.ExplicitFits l r

/-! ## One axis -/

namespace Axis

variable {a : Axis}

theorem spanOf_eq_some_iff (a : Axis) (s : Int) :
    spanOf a.dilation a.kernel = some s ↔ a.SpanFits ∧ a.span = s := by
  simp only [spanOf, sub, mul, add, Option.bind_eq_bind, Option.bind_eq_some_iff, value_eq_some_iff]
  constructor
  · rintro ⟨_, ⟨gaps, rfl⟩, _, ⟨spread, rfl⟩, span, same⟩
    exact ⟨⟨gaps, spread, span⟩, same⟩
  · rintro ⟨fits, same⟩
    exact ⟨_, ⟨fits.gaps, rfl⟩, _, ⟨fits.spread, rfl⟩, fits.span, same⟩

theorem explicitAxis_eq_some_iff (valid : a.Valid) (before behind out : Int) :
    explicitAxis a.input before behind a.span a.stride = some out ↔
      Fits (a.input + before) ∧ Fits (a.input + before + behind) ∧
        Fits (a.input + before + behind - a.span) ∧
          Fits ((a.input + before + behind - a.span).tdiv a.stride + 1) ∧
            (a.input + before + behind - a.span).tdiv a.stride + 1 = out := by
  have nonzero : a.stride ≠ 0 := by linarith [valid.stride]
  simp only [explicitAxis, sub, add, CheckedInt.div, Option.bind_eq_bind, Option.bind_eq_some_iff,
    value_eq_some_iff, if_neg nonzero]
  constructor
  · rintro ⟨_, ⟨first, rfl⟩, _, ⟨padded, rfl⟩, _, ⟨room, rfl⟩, _, ⟨_, rfl⟩, fits, same⟩
    exact ⟨first, padded, room, fits, same⟩
  · rintro ⟨first, padded, room, fits, same⟩
    exact ⟨_, ⟨first, rfl⟩, _, ⟨padded, rfl⟩, _, ⟨room, rfl⟩, _,
      ⟨fits_tdiv room (by linarith [valid.stride]), rfl⟩, fits, same⟩

/-- **An explicit axis is right exactly when its window fits**, or misses by one stride. -/
theorem explicit_iff (valid : a.Valid) (before behind : Int) :
    (∃ out, explicitAxis a.input before behind a.span a.stride = some out ∧
      a.Counted before behind out) ↔ a.ExplicitFits before behind := by
  have exact_ := @Windows.truncated_eq_count_iff (a.input + before + behind) a.span
    a.stride (by linarith [valid.stride])
  constructor
  · rintro ⟨out, computed, counted⟩
    obtain ⟨first, padded, room, fits, rfl⟩ :=
      (explicitAxis_eq_some_iff valid before behind out).mp computed
    exact ⟨first, padded, room, fits, exact_.mp counted⟩
  · intro fits
    exact ⟨_, (explicitAxis_eq_some_iff valid before behind _).mpr
      ⟨fits.first, fits.padded, fits.room, fits.out, rfl⟩, exact_.mpr fits.window⟩

def firstPad (a : Axis) (up : Bool) : Int :=
  let total := Windows.leastPadding a.input a.span a.stride
  if up then total / 2 else total - total / 2

theorem sameAxis_of_fits (valid : a.Valid) (up : Bool) (fits : a.SameFits) :
    sameAxis up a.input a.span a.stride = some (Windows.cells a.input a.stride, a.firstPad up,
      Windows.leastPadding a.input a.span a.stride - a.firstPad up) := by
  have nonzero : a.stride ≠ 0 := by linarith [valid.stride]
  have cells : (a.input + a.stride - 1).tdiv a.stride = Windows.cells a.input a.stride :=
    Int.tdiv_eq_ediv_of_nonneg (by linarith [valid.input, valid.stride])
  have quotient : Fits (Windows.cells a.input a.stride) :=
    cells ▸ fits_tdiv fits.unbiased (by linarith [valid.stride])
  have clamped : ∀ t : Int, (if t < 0 then 0 else t) = max 0 t := by
    intro t
    split <;> omega
  have halved : (Windows.leastPadding a.input a.span a.stride).tdiv 2 =
      Windows.leastPadding a.input a.span a.stride / 2 :=
    Int.tdiv_eq_ediv_of_nonneg (le_max_left _ _)
  unfold Windows.leastPadding at halved
  simp only [sameAxis, add, sub, mul, CheckedInt.div, if_neg nonzero, cells,
    value_of_fits fits.biased, value_of_fits fits.unbiased, value_of_fits quotient,
    value_of_fits fits.steps, value_of_fits fits.reach, value_of_fits fits.window,
    value_of_fits fits.total, Option.bind_eq_bind, Option.bind_some, Option.pure_def, clamped,
    halved, firstPad, Windows.leastPadding]

theorem fits_of_sameAxis (valid : a.Valid) {up : Bool} {r : Int × Int × Int}
    (computed : sameAxis up a.input a.span a.stride = some r) : a.SameFits := by
  have nonzero : a.stride ≠ 0 := by linarith [valid.stride]
  have cells : (a.input + a.stride - 1).tdiv a.stride = Windows.cells a.input a.stride :=
    Int.tdiv_eq_ediv_of_nonneg (by linarith [valid.input, valid.stride])
  simp only [sameAxis, add, sub, mul, CheckedInt.div, if_neg nonzero, Option.bind_eq_bind,
    Option.bind_eq_some_iff, value_eq_some_iff] at computed
  obtain ⟨_, ⟨biased, rfl⟩, _, ⟨unbiased, rfl⟩, _, ⟨_, rfl⟩, _, ⟨steps, rfl⟩, _, ⟨reach, rfl⟩, _,
    ⟨window, rfl⟩, _, ⟨total, rfl⟩, -⟩ := computed
  rw [cells] at steps reach window total
  exact ⟨biased, unbiased, steps, reach, window, total⟩

/-- The pads are split evenly, with the odd place where it was asked for. -/
theorem firstPad_spec (a : Axis) (up : Bool) :
    0 ≤ a.firstPad up ∧ a.firstPad up ≤ Windows.leastPadding a.input a.span a.stride ∧
      if up then 2 * a.firstPad up ≤ Windows.leastPadding a.input a.span a.stride ∧
          Windows.leastPadding a.input a.span a.stride ≤ 2 * a.firstPad up + 1
        else Windows.leastPadding a.input a.span a.stride ≤ 2 * a.firstPad up ∧
          2 * a.firstPad up ≤ Windows.leastPadding a.input a.span a.stride + 1 := by
  have nonneg : 0 ≤ Windows.leastPadding a.input a.span a.stride := le_max_left _ _
  unfold firstPad
  cases up with
  | true =>
    simp only [if_true]
    omega
  | false =>
    simp only [Bool.false_eq_true, if_false]
    omega

/-- **Automatic pads give one window a stride cell.** -/
theorem same_of_fits (valid : a.Valid) (up : Bool) :
    a.Same up (a.firstPad up) (Windows.leastPadding a.input a.span a.stride - a.firstPad up)
      (Windows.cells a.input a.stride) := by
  have positive : 0 < a.stride := by linarith [valid.stride]
  have window := valid.span_pos
  obtain ⟨first, bounded, halves⟩ := a.firstPad_spec up
  obtain ⟨reach, last⟩ := Windows.cells_spec a.input positive
  have enough : (Windows.cells a.input a.stride - 1) * a.stride + a.span - a.input ≤
      Windows.leastPadding a.input a.span a.stride := le_max_right _ _
  -- The last window leaves at most the whole padding before it, so each reaches its cell.
  have small : a.firstPad up < a.span := by
    unfold Windows.leastPadding at bounded
    omega
  have anchored : ∀ i, 0 ≤ i → i < Windows.cells a.input a.stride →
      i * a.stride < a.input ∧ a.InWindow (a.firstPad up) i (i * a.stride) := by
    intro i _ below
    refine ⟨(Windows.cell_begins_iff a.input positive i).mpr below, ?_, ?_⟩ <;> omega
  refine ⟨?_, rfl, fun i _ below => ?_, anchored, fun wide x nonneg inside => ?_, by omega, ?_⟩
  · have padded := Windows.count_padded positive window valid.input
    rw [Counted, ← padded]
    congr 2
    omega
  · have step : i * a.stride ≤ (Windows.cells a.input a.stride - 1) * a.stride :=
      Int.mul_le_mul_of_nonneg_right (by omega) positive.le
    omega
  · have expand : (Windows.cells a.input a.stride - 1) * a.stride =
        Windows.cells a.input a.stride * a.stride - a.stride := by ring
    have reachable := Int.ediv_mul_le (x + a.firstPad up) positive.ne'
    have close := Int.lt_ediv_add_one_mul_self (x + a.firstPad up) positive
    have step : ((x + a.firstPad up) / a.stride + 1) * a.stride =
        (x + a.firstPad up) / a.stride * a.stride + a.stride := by ring
    have quotient : 0 ≤ (x + a.firstPad up) / a.stride := Int.ediv_nonneg (by omega) positive.le
    by_cases within : (x + a.firstPad up) / a.stride < Windows.cells a.input a.stride
    · exact ⟨_, quotient, within, by omega, by omega⟩
    -- Behind the last cell's own reach: its window holds all that is left of the input.
    · have moved : (Windows.cells a.input a.stride - 1) * a.stride ≤
          (x + a.firstPad up) / a.stride * a.stride :=
        Int.mul_le_mul_of_nonneg_right (by omega) positive.le
      have some_ : 0 < Windows.cells a.input a.stride := by
        have begins := Windows.cell_begins_iff a.input positive 0
        omega
      refine ⟨Windows.cells a.input a.stride - 1, by omega, by omega, by omega, ?_⟩
      unfold Windows.leastPadding at bounded
      omega
  · cases up with
    | true =>
      simp only [if_true] at halves ⊢
      omega
    | false =>
      simp only [Bool.false_eq_true, if_false] at halves ⊢
      omega

end Axis

/-! ## Both axes -/

/-- **The geometry is right exactly when nothing overflows and the explicit windows fit**, or miss
the padded input by at least one stride and less than two. -/
theorem right_iff {h w : Axis} (validH : h.Valid) (validW : w.Valid) (pads : List Int)
    (autoPad : Str) : Right h w pads autoPad ↔ Computable h w pads autoPad := by
  unfold Right Computable convGeomEx
  simp only [Option.bind_eq_bind, Option.pure_def, Option.bind_eq_some_iff]
  by_cases same : autoPad = str "SAME_UPPER" ∨ autoPad = str "SAME_LOWER"
  · simp only [if_pos same]
    constructor
    · rintro ⟨g, ⟨spanH, hSpan, spanW, wSpan, computed⟩, -⟩
      obtain ⟨fitsH, rfl⟩ := (h.spanOf_eq_some_iff spanH).mp hSpan
      obtain ⟨fitsW, rfl⟩ := (w.spanOf_eq_some_iff spanW).mp wSpan
      simp only [Option.bind_eq_some_iff] at computed
      obtain ⟨rH, computedH, rW, computedW, -⟩ := computed
      exact ⟨fitsH, fitsW, Axis.fits_of_sameAxis validH computedH,
        Axis.fits_of_sameAxis validW computedW⟩
    · rintro ⟨fitsH, fitsW, axisH, axisW⟩
      have computedH := Axis.sameAxis_of_fits validH (autoPad == str "SAME_UPPER") axisH
      have computedW := Axis.sameAxis_of_fits validW (autoPad == str "SAME_UPPER") axisW
      refine ⟨⟨_, _, _, _, _, _⟩, ⟨_, (h.spanOf_eq_some_iff _).mpr ⟨fitsH, rfl⟩, _,
        (w.spanOf_eq_some_iff _).mpr ⟨fitsW, rfl⟩, ?_⟩,
        Axis.same_of_fits validH _, Axis.same_of_fits validW _⟩
      rw [computedH, computedW]
      rfl
  · simp only [if_neg same]
    constructor
    · rintro ⟨g, ⟨spanH, hSpan, spanW, wSpan, computed⟩, padded, countedH, countedW⟩
      obtain ⟨fitsH, rfl⟩ := (h.spanOf_eq_some_iff spanH).mp hSpan
      obtain ⟨fitsW, rfl⟩ := (w.spanOf_eq_some_iff spanW).mp wSpan
      rw [padded] at computed
      simp only [Option.bind_some, Option.bind_eq_some_iff, Option.some.injEq] at computed
      obtain ⟨outH, computedH, outW, computedW, same⟩ := computed
      rw [← same] at countedH countedW
      exact ⟨fitsH, fitsW, _, _, _, _, padded,
        (Axis.explicit_iff validH _ _).mp ⟨outH, computedH, countedH⟩,
        (Axis.explicit_iff validW _ _).mp ⟨outW, computedW, countedW⟩⟩
    · rintro ⟨fitsH, fitsW, t, l, b, r, padded, axisH, axisW⟩
      obtain ⟨outH, computedH, countedH⟩ := (Axis.explicit_iff validH t b).mpr axisH
      obtain ⟨outW, computedW, countedW⟩ := (Axis.explicit_iff validW l r).mpr axisW
      refine ⟨⟨outH, outW, t, l, b, r⟩, ⟨_, (h.spanOf_eq_some_iff _).mpr ⟨fitsH, rfl⟩, _,
        (w.spanOf_eq_some_iff _).mpr ⟨fitsW, rfl⟩, ?_⟩, padded, countedH, countedW⟩
      rw [padded]
      simp only [Option.bind_some, computedH, computedW]

/-- A 3-window moved by 2 along an axis, the way the first layer of an image model does. -/
def stem (input : Int) : Axis := ⟨input, 3, 2, 1⟩

theorem stem_right : Right (stem 224) (stem 7) [1, 1, 1, 1] (str "NOTSET") :=
  (right_iff ⟨by decide, by decide, by decide, by decide⟩ ⟨by decide, by decide, by decide, by decide⟩
    [1, 1, 1, 1] (str "NOTSET")).mpr
    ⟨⟨by decide, by decide, by decide⟩, ⟨by decide, by decide, by decide⟩, 1, 1, 1, 1, by decide,
      ⟨by decide, by decide, by decide, by decide, Or.inl (by decide)⟩,
      ⟨by decide, by decide, by decide, by decide, Or.inl (by decide)⟩⟩

/-- **A window longer than the input is given an output position** when it misses by less than the
stride. -/
theorem stem_short : ¬ Right (stem 2) (stem 2) [0, 0, 0, 0] (str "NOTSET") := by
  rintro ⟨g, computed, right⟩
  have resolved : convGeomEx 2 2 3 3 2 2 1 1 [0, 0, 0, 0] (str "NOTSET") =
      some ⟨1, 1, 0, 0, 0, 0⟩ := by decide
  obtain rfl := Option.some.inj (resolved.symm.trans computed)
  rw [if_neg (by decide)] at right
  have counted := right.2.1
  have none_ := @Windows.count_of_short 2 3 2 (by decide) (by decide)
  rw [Axis.Counted] at counted
  have length : (stem 2).input + 0 + 0 = 2 := rfl
  have span : (stem 2).span = 3 := rfl
  have stride : (stem 2).stride = 2 := rfl
  rw [length, span, stride, none_] at counted
  exact absurd counted (by decide)

end ConvGeom

end Vknn
