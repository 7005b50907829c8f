import Vknn.Lib.CookToom

/-!
# Winograd construction

The transform matrices of an output tile size come from interpolation points: a row of each
matrix for each finite point, and a last one for the point at infinity.  The convolution
that validates a point set transforms each tile and each filter on both sides, multiplies
pointwise, sums over the channels and transforms back.

Everything is in exact arithmetic.  A matrix is the list of its rows.
-/

namespace Vknn.Wino

open List (range replicate zipWith)

/-- The taps of the filters this construction is used for. -/
def kWinoKernelTaps : Nat := 3

structure WinoMatrices where
  outTile : Nat
  alpha : Nat
  filterG : List (List ℚ)
  inputBt : List (List ℚ)
  outputAt : List (List ℚ)

/-! ## Construction -/

/-- The coefficients of the product of `x - root`, ascending. -/
def winoPolyFromRoots (roots : List ℚ) : List ℚ :=
  roots.foldl
    (fun coeffs root =>
      zipWith (fun a b => a + b) ((coeffs.map fun c => -(root * c)) ++ [0]) (0 :: coeffs))
    [1]

/-- The first powers of a point, from a given one on. -/
def powersFrom (p : ℚ) (power : ℚ) : Nat → List ℚ
  | 0 => []
  | n + 1 => power :: powersFrom p (power * p) n

def point (points : List ℚ) (i : Nat) : ℚ := points.getD i 0

def others (points : List ℚ) (i : Nat) : List ℚ :=
  ((range points.length).filter fun j => j ≠ i).map (point points)

/-- The product of the distances of a point to the others. -/
def scale (points : List ℚ) (i : Nat) : ℚ :=
  (others points i).foldl (fun scale q => scale * (point points i - q)) 1

def zeros (rows columns : Nat) : List (List ℚ) := replicate rows (replicate columns 0)

def flip (v : ℚ) : ℚ := if v = 0 then 0 else -v

/-- A matrix with its first row flipped. -/
def flipFirst : List (List ℚ) → List (List ℚ)
  | [] => []
  | row :: rows => row.map flip :: rows

def entry (M : List (List ℚ)) (i j : Nat) : ℚ := (M.getD i []).getD j 0

/-- The rows of the filter matrix, before the sign is normalized. -/
def filterRows (taps : Nat) (points : List ℚ) : List (List ℚ) :=
  ((range points.length).map fun i =>
      (powersFrom (point points i) 1 taps).map fun power => power / scale points i) ++
    [(range taps).map fun k => if k + 1 = taps then 1 else 0]

def inputRows (points : List ℚ) : List (List ℚ) :=
  ((range points.length).map fun i => winoPolyFromRoots (others points i) ++ [0]) ++
    [winoPolyFromRoots points]

/-- The rows of the output matrix; its columns are the powers of the points. -/
def outputRows (outTile : Nat) (points : List ℚ) : List (List ℚ) :=
  (range outTile).map fun t =>
    ((range points.length).map fun i => (powersFrom (point points i) 1 outTile).getD t 0) ++
      [if t + 1 = outTile then 1 else 0]

/-- The matrices of an output tile size, a number of taps, and the finite points.  The source fixes
the taps to `kWinoKernelTaps`.  With a wrong number of points the tile is empty. -/
def buildWinoMatrices (taps outTile : Nat) (finitePoints : List ℚ) : WinoMatrices :=
  let alpha := outTile + taps - 1
  if finitePoints.length + 2 ≠ outTile + taps then
    { outTile := 0, alpha := alpha, filterG := zeros alpha taps, inputBt := zeros alpha alpha,
      outputAt := zeros outTile alpha }
  else
    let G := filterRows taps finitePoints
    let B := inputRows finitePoints
    let negative := entry G 0 0 < 0
    { outTile := outTile, alpha := alpha,
      filterG := if negative then flipFirst G else G,
      inputBt := if negative then flipFirst B else B,
      outputAt := outputRows outTile finitePoints }

/-! ## A line -/

def matVec (M : List (List ℚ)) (x : List ℚ) : List ℚ :=
  M.map fun row => (zipWith (fun a b => a * b) row x).sum

/-- The pointwise product of the transformed filter and data, transformed back. -/
def winograd (w : WinoMatrices) (g d : List ℚ) : List ℚ :=
  matVec w.outputAt (zipWith (fun a b => a * b) (matVec w.filterG g) (matVec w.inputBt d))

/-- The correlation of data with a filter, where the filter fits. -/
def correlation (g d : List ℚ) : List ℚ :=
  (range (d.length + 1 - g.length)).map fun t =>
    (zipWith (fun a b => a * b) g (d.drop t)).sum

/-! ## The convolution -/

def sumTo (n : Nat) (f : Nat → ℚ) : ℚ := (range n).foldl (fun acc k => acc + f k) 0

def winoFilter (taps : Nat) (w : WinoMatrices) (kernel : Nat → Nat → ℚ) (i j : Nat) : ℚ :=
  let gg := fun i j => sumTo taps fun k => entry w.filterG i k * kernel k j
  sumTo taps fun k => gg i k * entry w.filterG j k

def winoData (w : WinoMatrices) (d : Nat → Nat → ℚ) (i j : Nat) : ℚ :=
  let t := fun i c => sumTo w.alpha fun r => entry w.inputBt i r * d r c
  sumTo w.alpha fun c => t i c * entry w.inputBt j c

def winoOutput (w : WinoMatrices) (M : Nat → Nat → ℚ) (k j : Nat) : ℚ :=
  let t := fun k c => sumTo w.alpha fun i => entry w.outputAt k i * M i c
  sumTo w.alpha fun c => t k c * entry w.outputAt j c

section Convolution

variable (input : List ℚ) (cin height width : Nat) (weights : List ℚ) (cout : Nat)

/-- The input at a position, zero in the padding. -/
def padded (ic : Nat) (iy ix : Int) : ℚ :=
  if 0 ≤ iy ∧ iy < height ∧ 0 ≤ ix ∧ ix < width then
    input.getD ((ic * height + iy.toNat) * width + ix.toNat) 0
  else 0

def tap (oc ic k j : Nat) : ℚ :=
  weights.getD (((oc * cin + ic) * kWinoKernelTaps + k) * kWinoKernelTaps + j) 0

/-- The sum over the channels of a transformed tile. -/
def winoTile (w : WinoMatrices) (ty tx oc i j : Nat) : ℚ :=
  sumTo cin fun ic =>
    winoData w
        (fun r c => padded input height width ic ((ty * w.outTile : Nat) - 1 + r)
          ((tx * w.outTile : Nat) - 1 + c)) i j *
      winoFilter kWinoKernelTaps w (tap cin weights oc ic) i j

/-- What is written, in order: position and value. -/
def winoWrites (w : WinoMatrices) : List (Nat × ℚ) :=
  (range ((height + w.outTile - 1) / w.outTile)).flatMap fun ty =>
    (range ((width + w.outTile - 1) / w.outTile)).flatMap fun tx =>
      (range cout).flatMap fun oc =>
        (range w.outTile).flatMap fun k =>
          (range w.outTile).flatMap fun j =>
            let oy := ty * w.outTile + k
            let ox := tx * w.outTile + j
            if oy < height ∧ ox < width then
              [((oc * height + oy) * width + ox,
                winoOutput w (winoTile input cin height width weights w ty tx oc) k j)]
            else []

/-- An array of zeros after some writes. -/
def written (size : Nat) (writes : List (Nat × ℚ)) : List ℚ :=
  writes.foldl (fun out e => out.set e.1 e.2) (replicate size 0)

/-- The padded convolution by tiles.  The scratch arrays of the source have room for an `alpha` of up
to 8; here they have what they need. -/
def winoConv2dFp64 (w : WinoMatrices) : List ℚ :=
  written (cout * height * width) (winoWrites input cin height width weights cout w)

/-- One output of the direct convolution. -/
def directSum (oc oy ox : Nat) : ℚ :=
  sumTo cin fun ic => sumTo kWinoKernelTaps fun ky => sumTo kWinoKernelTaps fun kx =>
    padded input height width ic (oy - 1 + ky) (ox - 1 + kx) * tap cin weights oc ic ky kx

def directConv3x3Fp64 : List ℚ :=
  written (cout * height * width)
    ((range cout).flatMap fun oc => (range height).flatMap fun oy =>
      (range width).map fun ox =>
        ((oc * height + oy) * width + ox, directSum input cin height width weights oc oy ox))

end Convolution

end Vknn.Wino
