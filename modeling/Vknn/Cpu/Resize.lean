import Mathlib.Data.Rat.Floor
import Vknn.Ir.Shape

/-!
# Resize

Every output element goes back to a coordinate of the input.  The nearest mode takes the element
at the rounded coordinate, the linear one weighs the two neighbours on each axis; past an edge
both read the border.  The numbers are exact.

A coordinate is scaled by the ratio of the extents, also where a scale is given, and a middle is
always rounded down: which way the node wants it rounded is not read.
-/

namespace Vknn.Cpu.Resize

open NCHW Int Option

def vxResizeMode (s : Str) : Nat := if s = str "linear" ∨ s = str "bilinear" then 1 else 0

def vxResizeCoord (s : Str) : Nat :=
  if s = str "align_corners" then 1
  else if s = str "asymmetric" then 2
  else if s = str "pytorch_half_pixel" then 3
  else 0

/-- Where output index `d` lies in the input. -/
def srcCoord (d outS inS : Int) (coordMode : Nat) : ℚ :=
  let scale : ℚ := outS / inS
  if coordMode = 1 then if 1 < outS then d * (inS - 1) / (outS - 1) else 0
  else if coordMode = 2 then d / scale
  else if coordMode = 3 then if 1 < outS then (d + 1 / 2) / scale - 1 / 2 else 0
  else (d + 1 / 2) / scale - 1 / 2

def clampi (v lo hi : Int) : Int := if v < lo then lo else if hi < v then hi else v

def nearest (f : ℚ) : Int := if 1 / 2 < f - ⌊f⌋ then ⌊f⌋ + 1 else ⌊f⌋

/-- A run-time parameter, by its element type. -/
inductive Param where
  | ints (v : List Int)
  | floats (v : List ℚ)

/-- Conversion to an integer drops the fraction. -/
def toInt (q : ℚ) : Int := if 0 ≤ q then ⌊q⌋ else ⌈q⌉

/-- The height and width that the parameters ask for. -/
def asked (x : NCHW) : Option Param → Option Param → Int × Int
  | some (.ints [_, _, h, w]), _ => (h, w)
  | some (.floats [_, _, h, w]), _ => (toInt h, toInt w)
  | _, some (.floats [_, _, h, w]) => (toInt (x.h * h), toInt (x.w * w))
  | _, _ => (0, 0)

/-- The output's shape; there is none where the node is refused. -/
def outShape (shape desc : Shape) (sizes scales : Option Param) : Option Shape :=
  let x := ofShape shape
  let (oh, ow) := if shape.length = 4 then asked x sizes scales else (0, 0)
  if 0 < oh ∧ 0 < ow then some [x.n, x.c, oh, ow]
  else if desc.length = 4 then some desc else none

/-- The element of plane `n, c` in row `oy` and column `ox` of an output of `outH` by `outW`. -/
def element (mode coordMode : Nat) (x : NCHW) (outH outW : Int) (xd : Int → ℚ)
    (n c oy ox : Int) : ℚ :=
  let xc (i : Int) := xd ((n * x.c + c) * x.h * x.w + i)
  let fy := srcCoord oy outH x.h coordMode
  let fx := srcCoord ox outW x.w coordMode
  if mode = 0 then
    xc (clampi (nearest fy) 0 (x.h - 1) * x.w + clampi (nearest fx) 0 (x.w - 1))
  else
    let wy := fy - ⌊fy⌋
    let wx := fx - ⌊fx⌋
    let iy1 := clampi (⌊fy⌋ + 1) 0 (x.h - 1)
    let ix1 := clampi (⌊fx⌋ + 1) 0 (x.w - 1)
    let cy0 := clampi ⌊fy⌋ 0 (x.h - 1)
    let cx0 := clampi ⌊fx⌋ 0 (x.w - 1)
    let a := xc (cy0 * x.w + cx0)
    let b := xc (cy0 * x.w + ix1)
    let cc := xc (iy1 * x.w + cx0)
    let d := xc (iy1 * x.w + ix1)
    a * (1 - wy) * (1 - wx) + b * (1 - wy) * wx + cc * wy * (1 - wx) + d * wy * wx

def resizeCpu (attr : Attributes) (shape desc : Shape) (sizes scales : Option Param)
    (xd : Int → ℚ) : Option (Shape × (Int → Int → Int → Int → ℚ)) :=
  (outShape shape desc sizes scales).map fun os =>
    (os, element (vxResizeMode (attr.gets (str "mode") (str "nearest")))
      (vxResizeCoord (attr.gets (str "coordinate_transformation_mode") (str "half_pixel")))
      (.ofShape shape) (os.getD 2 0) (os.getD 3 0) xd)

/-! ## What resizing is -/

/-- The original coordinate of place `d` on an axis; any other transformation is the default. -/
def original (transform : Str) (scale : ℚ) (inS outS d : Int) : ℚ :=
  if transform = str "align_corners" then if outS = 1 then 0 else d * (inS - 1) / (outS - 1)
  else if transform = str "asymmetric" then d / scale
  else if transform = str "pytorch_half_pixel" ∧ outS = 1 then 0
  else (d + 1 / 2) / scale - 1 / 2

/-- What each rounding takes for a coordinate. -/
def Picks (rounding : Str) (f : ℚ) (i : Int) : Prop :=
  (rounding = str "floor" ∧ i ≤ f ∧ f < i + 1) ∨ (rounding = str "ceil" ∧ i - 1 < f ∧ f ≤ i) ∨
    (rounding = str "round_prefer_floor" ∧ i - 1 / 2 < f ∧ f ≤ i + 1 / 2) ∨
    (rounding = str "round_prefer_ceil" ∧ i - 1 / 2 ≤ f ∧ f < i + 1 / 2)

/-- The place in an axis of `n` that is closest to `i`. -/
def border (n i : Int) : Int := max 0 (min i (n - 1))

def lerp (t : ℚ) (f : Int → ℚ) (i : Int) : ℚ := (1 - t) * f i + t * f (i + 1)

/-- `v` is the sample of a plane at row `fy` and column `fx`. -/
def Sample (mode rounding : Str) (h w : Int) (plane : Int → Int → ℚ) (fy fx v : ℚ) : Prop :=
  if mode = str "linear" ∨ mode = str "bilinear" then
    v = lerp (fract fy)
      (fun iy => lerp (fract fx) (fun ix => plane (border h iy) (border w ix)) ⌊fx⌋) ⌊fy⌋
  else ∃ iy ix, Picks rounding fy iy ∧ Picks rounding fx ix ∧ v = plane (border h iy) (border w ix)

/-- Every output is the sample at its coordinates, under a rounding and the scales given or else
the ratios of the extents. -/
def Resized (attr : Attributes) (shape desc : Shape) (sizes scales : Option Param)
    (rounding : Str) (given : Option (ℚ × ℚ)) : Prop :=
  ∀ xd os y, resizeCpu attr shape desc sizes scales xd = some (os, y) → ∃ on oc oh ow,
    os = [on, oc, oh, ow] ∧ ∀ n c oy ox, 0 ≤ oy → oy < oh → 0 ≤ ox → ox < ow →
      let x := ofShape shape
      let transform := attr.gets (str "coordinate_transformation_mode") (str "half_pixel")
      let scale := given.getD (oh / x.h, ow / x.w)
      Sample (attr.gets (str "mode") (str "nearest")) rounding x.h x.w
        (fun iy ix => xd ((n * x.c + c) * x.h * x.w + (iy * x.w + ix)))
        (original transform scale.1 x.h oh oy) (original transform scale.2 x.w ow ox) (y n c oy ox)

def givenScales : Option Param → Option Param → Option (ℚ × ℚ)
  | none, some (.floats [_, _, h, w]) => some (h, w)
  | _, _ => none

/-- A node that runs has modes the kernel implements, and is resized as it asks for. -/
def AsAsked (attr : Attributes) (shape desc : Shape) (sizes scales : Option Param) : Prop :=
  Resized attr shape desc sizes scales (attr.gets (str "nearest_mode") (str "round_prefer_floor"))
      (givenScales sizes scales) ∧
    ((outShape shape desc sizes scales).isSome →
      attr.gets (str "mode") (str "nearest") ∈ [str "nearest", str "linear", str "bilinear"] ∧
      attr.gets (str "coordinate_transformation_mode") (str "half_pixel") ∈
        [str "half_pixel", str "align_corners", str "asymmetric", str "pytorch_half_pixel"])

/-! ## What the kernel samples -/

theorem nearest_picks (f : ℚ) : Picks (str "round_prefer_floor") f (nearest f) := by
  have low := floor_le f
  have high := lt_floor_add_one f
  refine .inr (.inr (.inl ⟨rfl, ?_⟩))
  unfold nearest
  split
  · push_cast
    constructor <;> linarith
  · constructor <;> linarith

theorem clampi_eq {n : Int} (i : Int) (room : 0 < n) : clampi i 0 (n - 1) = border n i := by
  unfold clampi border
  split
  · omega
  · split <;> omega

/-- A coordinate is scaled by the ratio of the extents. -/
theorem srcCoord_eq {outS : Int} (d inS : Int) (s : Str) (room : 0 < outS) :
    srcCoord d outS inS (vxResizeCoord s) = original s (outS / inS) inS outS d := by
  have one : 1 < outS ↔ ¬ outS = 1 := by omega
  have apart : str "asymmetric" ≠ str "align_corners" ∧
      str "pytorch_half_pixel" ≠ str "align_corners" ∧
      str "pytorch_half_pixel" ≠ str "asymmetric" := by decide
  unfold srcCoord vxResizeCoord original
  by_cases corners : s = str "align_corners"
  · simp [corners, one]
  · by_cases origin : s = str "asymmetric"
    · simp [origin, apart]
    · by_cases torch : s = str "pytorch_half_pixel" <;> simp [corners, origin, torch, one, apart]

/-- **A node is resized by the ratios of its extents, with middles rounded down**, whatever
rounding and scales it asks for. -/
theorem resized_ratio (attr : Attributes) {shape : Shape} (desc : Shape)
    (sizes scales : Option Param) (tall : 0 < (ofShape shape).h)
    (wide : 0 < (ofShape shape).w) :
    Resized attr shape desc sizes scales (str "round_prefer_floor") none := by
  intro xd os y ran
  obtain ⟨os, shaped, same⟩ := map_eq_some_iff.mp ran
  obtain ⟨rfl, rfl⟩ := Prod.mk.inj same
  have four : os.length = 4 := by grind [outShape]
  obtain ⟨on, oc, oh, ow, rfl⟩ := List.length_eq_four.mp four
  refine ⟨on, oc, oh, ow, rfl, fun n c oy ox first row left column => ?_⟩
  simp only [List.getD_cons_zero, List.getD_cons_succ, getD_none, element,
    srcCoord_eq _ _ _ (first.trans_lt row), srcCoord_eq _ _ _ (left.trans_lt column),
    clampi_eq _ tall, clampi_eq _ wide, vxResizeMode, Sample]
  split
  · rw [if_neg one_ne_zero]
    simp only [lerp, fract]
    ring
  · rw [if_pos rfl]
    exact ⟨_, _, nearest_picks _, nearest_picks _, rfl⟩

/-- Three elements at a scale of one and a half become four. -/
theorem widened_resized :
    Resized {} [1, 1, 1, 3] [] none (some (.floats [1, 1, 1, 3 / 2])) (str "round_prefer_floor")
      none :=
  resized_ratio {} [] none _ (by decide) (by decide)

/-- The second of them is the input's second element: at that scale it would be the first. -/
theorem widened_misread : ¬ AsAsked {} [1, 1, 1, 3] [] none (some (.floats [1, 1, 1, 3 / 2])) := by
  intro ⟨asked, _⟩
  have shaped : outShape [1, 1, 1, 3] [] none (some (.floats [1, 1, 1, 3 / 2])) =
      some [1, 1, 1, 4] := by decide +kernel
  obtain ⟨_, _, _, _, same, sample⟩ := asked (fun i => i) [1, 1, 1, 4] _
    (congrArg (Option.map _) shaped)
  obtain ⟨rfl, rfl, rfl, rfl⟩ := by simpa only [List.cons.injEq, and_true] using same
  have sampled := sample 0 0 0 1 (by decide) (by decide) (by decide) (by decide)
  rw [Sample, if_neg (by decide)] at sampled
  obtain ⟨iy, ix, -, picked, value⟩ := sampled
  have half : original (str "half_pixel") (3 / 2) 3 4 1 = 1 / 2 := by decide +kernel
  have first : ix = 0 := by
    rcases picked with ⟨other, -⟩ | ⟨other, -⟩ | ⟨-, low, high⟩ | ⟨other, -⟩
    rotate_left 2
    · have low : (ix : ℚ) - 1 / 2 < 1 / 2 := half ▸ low
      have high : 1 / 2 ≤ (ix : ℚ) + 1 / 2 := half ▸ high
      have below : (ix : ℚ) < 1 := by linarith
      have behind : (0 : ℚ) ≤ ix := by linarith
      norm_cast at below behind
      omega
    all_goals exact absurd other (by decide)
  have top : border (ofShape [1, 1, 1, 3]).h iy = 0 := by
    change max 0 (min iy (1 - 1)) = 0
    omega
  rw [first, top] at value
  exact absurd value (by decide +kernel)

end Vknn.Cpu.Resize
