import Vknn.Cpu.Movement
import Vknn.Lib.AxisPieces

/-!
# Concatenation

The output is filled part by part.  What a part holds from the axis on is one run of elements
for every position in front of the axis; the runs of the parts are laid side by side, each part
beginning where the one before it has ended.
-/

namespace Vknn.Cpu

open CellWrites List Nat

variable {α : Type}

def axisOf (axis : Int) (rank : Nat) : Int := if axis < 0 then axis + rank else axis

/-- The elements of one run: the dimensions from the axis to the end. -/
def blockElems (axis : Nat) (s : Shape) : Nat := (RowMajor.size (s.drop axis)).toNat

/-- Lay the runs of one part into the output, from an offset on. -/
def layPart (zero : α) (outer outBlock off bk : Nat) (part : List α) (y : List α) : List α :=
  (List.range outer).foldl (fun y o => (List.range bk).foldl
    (fun y e => y.set (o * outBlock + off + e) (part.getD (o * bk + e) zero)) y) y

/-- Join parts of one element type along an axis. -/
def concat (zero : α) (axis : Int) (parts : List (Shape × List α)) : Shape × List α :=
  let first := (parts.headD ([], [])).1
  let axis := (axisOf axis first.length).toNat
  let out := first.set axis (parts.map fun part => part.1.getD axis 0).sum
  let outer := (RowMajor.size (first.take axis)).toNat
  let start : List α × Nat := (List.replicate (numElements out).toNat zero, 0)
  let filled := parts.foldl (fun (y, off) part =>
    let bk := blockElems axis part.1
    (layPart zero outer (blockElems axis out) off bk part.2 y, off + bk)) start
  (out, filled.1)

/-! ## One part -/

@[simp] theorem length_layPart (zero : α) (outer outBlock off bk : Nat) (part y : List α) :
    (layPart zero outer outBlock off bk part y).length = y.length := by
  simp only [layPart, foldl_set, foldl_run, length_run]

variable {extent inner outBlock outer : Nat} {X y : List α}

/-- **A part is laid into its own place of every run**, and nothing else changes. -/
theorem getElem?_layPart (zero : α) {off bk o r : Nat} (part y : List α)
    (block : o < outer) (inside : r < outBlock) (room : off + bk ≤ outBlock)
    (large : y.length = outer * outBlock) :
    (layPart zero outer outBlock off bk part y)[o * outBlock + r]? =
      if off ≤ r ∧ r < off + bk then some (part.getD (o * bk + (r - off)) zero)
      else y[o * outBlock + r]? := by
  have writes : layPart zero outer outBlock off bk part y = run ((List.range outer).flatMap fun o =>
      ((List.range bk).map fun e => Write.put (off + e) (part.getD (o * bk + e) zero)).map
        fun w => ⟨o * outBlock + w.cell, w.change⟩) y := by
    simp only [layPart, foldl_set, foldl_run, map_map]
    refine congrArg (fun body => run ((List.range outer).flatMap body) y) ?_
    funext o
    refine map_congr_left fun e _ => ?_
    rw [Function.comp_apply, Write.put, Write.put, Nat.add_assoc]
  have held : o * outBlock + r < y.length := by
    have next := Nat.mul_le_mul_right outBlock (succ_le_of_lt block)
    rw [succ_mul] at next
    omega
  have within : ∀ p < outer, ∀ w ∈ (List.range bk).map fun e =>
      Write.put (off + e) (part.getD (p * bk + e) zero), w.cell < outBlock := by
    intro p _ w listed
    obtain ⟨e, small, rfl⟩ := mem_map.mp listed
    have small := mem_range.mp small
    rw [Write.put_cell]
    omega
  rw [writes, getElem?_run, getElem?_eq_getElem held, Option.map_some,
    settled_row block inside within]
  by_cases reached : off ≤ r
  · obtain ⟨c, rfl⟩ := Nat.exists_eq_add_of_le reached
    rw [settled_puts off bk c (fun e => part.getD (o * bk + e) zero), Nat.add_sub_cancel_left]
    by_cases here : c < bk
    · rw [if_pos here, if_pos (by omega)]
    · rw [if_neg here, if_neg (by omega)]
  · rw [settled_elsewhere, if_neg (by omega)]
    intro w listed
    obtain ⟨e, -, rfl⟩ := mem_map.mp listed
    rw [Write.put_cell]
    omega

/-! ## All parts -/

/-- The runs of an array, up to an offset in each. -/
structure Laid (outer outBlock off : Nat) (X y : List α) : Prop where
  large : y.length = outer * outBlock
  same : ∀ o < outer, ∀ r < off, y[o * outBlock + r]? = X[o * outBlock + r]?

open AxisPieces

theorem Laid.step (zero : α) {start size : Nat} {Y : List α}
    (laid : Laid outer (extent * inner) (start * inner) X y) (room : start + size ≤ extent)
    (piece : Piece outer inner extent size start X Y) :
    Laid outer (extent * inner) ((start + size) * inner) X
      (layPart zero outer (extent * inner) (start * inner) (size * inner) Y y) := by
  have fits : start * inner + size * inner ≤ extent * inner := by
    rw [← Nat.add_mul]
    exact Nat.mul_le_mul_right inner room
  refine ⟨by rw [length_layPart, laid.large], fun o block r inside => ?_⟩
  rw [Nat.add_mul] at inside
  rw [getElem?_layPart zero Y y block (by omega) fits laid.large]
  split_ifs with here
  · -- in the piece: the position within it, and the same element of the whole
    have rows : 0 < inner := Nat.pos_of_ne_zero fun none => by simp [none] at here
    obtain ⟨e, rfl⟩ := Nat.exists_eq_add_of_le here.1
    have small : e < size * inner := by omega
    have place : e / inner < size := (Nat.div_lt_iff_lt_mul rows).mpr small
    have row : e % inner < inner := mod_lt e rows
    have inPiece : o * (size * inner) + e = position size inner o (e / inner) (e % inner) := by
      rw [position, Nat.add_mul, Nat.add_assoc, div_add_mod', Nat.mul_assoc]
    have inWhole : o * (extent * inner) + (start * inner + e) =
        position extent inner o (start + e / inner) (e % inner) := by
      have split := div_add_mod' e inner
      rw [position, Nat.add_mul, Nat.add_mul, Nat.mul_assoc]
      omega
    have held := piece.elements o block (e / inner) place (e % inner) row
    rw [← inPiece, ← inWhole] at held
    have bounded : o * (size * inner) + e < Y.length := by
      rw [inPiece, piece.count]
      exact position_lt block place row
    rw [Nat.add_sub_cancel_left, ← held, getD_eq_getElem?_getD,
      getElem?_eq_getElem bounded, Option.getD_some]
  · exact laid.same o block r (by omega)

theorem Laid.run (zero : α) (bk : Shape × List α → Nat) :
    ∀ (parts : List (Shape × List α)) (sizes : List Nat) (start : Nat) (y : List α),
      Laid outer (extent * inner) (start * inner) X y → start + sizes.sum ≤ extent →
      List.Forall₂ (fun part size => bk part = size * inner) parts sizes →
      (∀ k part size, parts[k]? = some part → sizes[k]? = some size →
        Piece outer inner extent size (start + (sizes.take k).sum) X part.2) →
      Laid outer (extent * inner) ((start + sizes.sum) * inner) X
        (parts.foldl (fun (y, off) part =>
          (layPart zero outer (extent * inner) off (bk part) part.2 y, off + bk part))
            (y, start * inner)).1 := by
  intro parts
  induction parts with
  | nil =>
    intro sizes start y laid _ lengths _
    cases lengths
    exact laid
  | cons part parts ih =>
    intro sizes start y laid room lengths pieces
    cases lengths with
    | @cons _ size _ sizes here rest =>
      rw [sum_cons] at room ⊢
      have next := laid.step zero (by omega) (pieces 0 part size rfl rfl)
      rw [foldl_cons]
      dsimp only
      rw [here, ← Nat.add_mul, ← Nat.add_assoc]
      refine ih sizes (start + size) _ next (by omega) rest fun k p n listed sized => ?_
      have piece := pieces (k + 1) p n listed sized
      rwa [take_succ_cons, sum_cons, ← Nat.add_assoc] at piece

theorem Laid.eq (laid : Laid outer outBlock outBlock X y)
    (counted : X.length = outer * outBlock) : y = X := by
  apply ext_getElem?
  intro i
  rcases Nat.lt_or_ge i (outer * outBlock) with inside | outside
  · have large : 0 < outBlock := Nat.pos_of_ne_zero fun none => by simp [none] at inside
    have same := laid.same (i / outBlock) ((Nat.div_lt_iff_lt_mul large).mpr inside)
      (i % outBlock) (mod_lt i large)
    rwa [div_add_mod'] at same
  · have length := laid.large
    rw [getElem?_eq_none (by omega), getElem?_eq_none (by omega)]

end Vknn.Cpu
