import Vknn.Lib.CellWrites
import Vknn.Lib.RowMajor

/-!
# Pieces along an axis

A row-major array with a chosen axis is a number of blocks; each has one row of elements for
every place along the axis.  A piece of the array has the rows from some place on, as many as
it is long, of every block.  The position of an element is the same in any array with these
rows, but for the length of the axis.

Lengths that add up to the axis put every place of it into one piece.
-/

namespace AxisPieces

open List Nat

variable {α : Type}

/-- The position of an element: its block, its place along the axis, and where it is in its row. -/
def position (extent inner o a j : Nat) : Nat := (o * extent + a) * inner + j

/-- An array has the rows of another from a place on. -/
structure Piece (outer inner extent size start : Nat) (X Y : List α) : Prop where
  count : Y.length = outer * size * inner
  elements : ∀ o < outer, ∀ a < size, ∀ j < inner,
    Y[position size inner o a j]? = X[position extent inner o (start + a) j]?

/-! ## Positions -/

variable {a b extent inner j o outer : Nat} {cs pre : List Int}

theorem position_lt (block : o < outer) (place : a < extent)
    (row : j < inner) : position extent inner o a j < outer * extent * inner := by
  have rows : o * extent + a + 1 ≤ outer * extent := by
    have next := mul_le_mul_right extent (succ_le_of_lt block)
    rw [succ_mul] at next
    omega
  have filled := mul_le_mul_right inner rows
  rw [succ_mul] at filled
  rw [position]
  omega

theorem position_inj (row : j < inner)
    (same : position extent inner o a j = position extent inner o b j) : a = b := by
  have rows := eq_of_mul_eq_mul_right (by omega) (add_right_cancel same)
  omega

theorem piece_empty {size start : Nat} {X Y : List α}
    (none : outer * size * inner = 0) : Piece outer inner extent size start X Y ↔ Y = [] := by
  refine ⟨fun piece => length_eq_zero_iff.mp (piece.count.trans none), ?_⟩
  rintro rfl
  refine ⟨none.symm, fun o block a place j row => ?_⟩
  have inside := position_lt block place row
  omega

/-! ## Loops -/

theorem row_div (i : Nat) (small : j < b) : (i * b + j) / b = i := by
  rw [mul_comm, mul_add_div (by omega), div_eq_of_lt small, add_zero]

theorem row_mod (i : Nat) (small : j < b) : (i * b + j) % b = j := by
  rw [mul_comm, mul_add_mod, mod_eq_of_lt small]

theorem flatMap_range_map₂ {β : Type} (a b : Nat) (f : Nat → Nat → β) :
    ((List.range a).flatMap fun i => (List.range b).map (f i)) =
      (List.range (a * b)).map fun p => f (p / b) (p % b) := by
  rw [← CellWrites.flatMap_range_map a b]
  refine flatMap_congr fun i _ => map_congr_left fun j small => ?_
  rw [row_div i (mem_range.mp small), row_mod i (mem_range.mp small)]

/-- **Loops over blocks, places and rows** list the elements by their positions. -/
theorem loops_eq {β : Type} (outer size inner : Nat) (f : Nat → Nat → Nat → β) :
    ((List.range outer).flatMap fun o =>
        (List.range size).flatMap fun a => (List.range inner).map (f o a)) =
      (List.range (outer * size * inner)).map fun p =>
        f (p / inner / size) (p / inner % size) (p % inner) := by
  have lines := CellWrites.flatMap_range_map outer size fun q => q
  rw [map_id'] at lines
  rw [← flatMap_range_map₂ (outer * size) inner fun q => f (q / size) (q % size), ← lines,
    flatMap_assoc]
  refine flatMap_congr fun o _ => ?_
  rw [flatMap_map]
  refine flatMap_congr fun a small => ?_
  rw [row_div o (mem_range.mp small), row_mod o (mem_range.mp small)]

theorem getElem?_loops {β : Type} {size : Nat} (f : Nat → Nat → Nat → β)
    (block : o < outer) (place : a < size) (row : j < inner) :
    ((List.range outer).flatMap fun o =>
        (List.range size).flatMap fun a => (List.range inner).map (f o a))[
          position size inner o a j]? = some (f o a j) := by
  rw [loops_eq, getElem?_map, getElem?_range (position_lt block place row),
    Option.map_some, position, row_div _ row, row_mod _ row, row_div o place, row_mod o place]

/-! ## Arrays with coordinates -/

open RowMajor

theorem forall₂_split {R : Int → Int → Prop} {post : List Int} {d : Int}
    (all : List.Forall₂ R cs (pre ++ d :: post)) : ∃ front c back, cs = front ++ c :: back ∧
      List.Forall₂ R front pre ∧ R c d ∧ List.Forall₂ R back post := by
  induction pre generalizing cs with
  | nil =>
    cases all with
    | @cons c _ back _ here rest => exact ⟨[], c, back, rfl, .nil, here, rest⟩
  | cons p pre ih =>
    cases all with
    | @cons c _ cs _ here rest =>
      obtain ⟨front, x, back, rfl, first, middle, last⟩ := ih rest
      exact ⟨c :: front, x, back, rfl, .cons here first, middle, last⟩

theorem flat_axis (same : cs.length = pre.length) (d c : Int)
    (post ds : List Int) :
    flat (pre ++ d :: post) (cs ++ c :: ds) = (flat pre cs * d + c) * size post + flat post ds := by
  rw [flat_append same, flat_cons, RowMajor.size]
  ring

/-- The position of coordinates, by the block, the place and the row that they name. -/
theorem flat_position {post ds : List Int} (front : Inside cs pre)
    (back : Inside ds post) :
    (flat (pre ++ (extent : Int) :: post) (cs ++ (a : Int) :: ds)).toNat =
      position extent (size post).toNat (flat pre cs).toNat a (flat post ds).toNat := by
  obtain ⟨block, -⟩ := flat_inside front
  obtain ⟨row, below⟩ := flat_inside back
  rw [flat_axis front.length_eq]
  obtain ⟨o, here⟩ := Int.eq_ofNat_of_zero_le block
  obtain ⟨j, there⟩ := Int.eq_ofNat_of_zero_le row
  obtain ⟨n, rows⟩ := Int.eq_ofNat_of_zero_le (by omega : 0 ≤ size post)
  rw [here, there, rows, position]
  norm_cast

end AxisPieces
