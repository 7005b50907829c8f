import Mathlib.Data.Int.ConditionallyCompleteOrder
import Mathlib.Data.List.Range
import Mathlib.Tactic.Linarith

/-!
# Ranges that follow one another

A list of half-open ranges tiles a range when the first begins where the range begins,
each next one begins where the one before it ends, none is empty, and the last ends
where the range ends.  Then every point of the range is in exactly one of them.
-/

namespace Ranges

open List

/-- Nonempty ranges, one after the other, from a point to a point. -/
def Tiles (start stop : Int) : List (Int × Int) → Prop
  | [] => start = stop
  | c :: cs => c.1 = start ∧ start < c.2 ∧ Tiles c.2 stop cs

variable {a b : Int} {cs : List (Int × Int)}

theorem Tiles.append {c : Int} {ds : List (Int × Int)} (first : Tiles a b cs)
    (second : Tiles b c ds) : Tiles a c (cs ++ ds) := by
  induction cs generalizing a with
  | nil =>
    have same : a = b := first
    exact same ▸ second
  | cons x cs ih => exact ⟨first.1, first.2.1, ih first.2.2⟩

theorem Tiles.le (tiles : Tiles a b cs) : a ≤ b := by
  induction cs generalizing a with
  | nil => exact le_of_eq tiles
  | cons x cs ih => exact tiles.2.1.le.trans (ih tiles.2.2)

/-- **Every point is in exactly one range.** -/
theorem Tiles.count (tiles : Tiles a b cs) (x : Int) :
    cs.countP (fun c => c.1 ≤ x ∧ x < c.2) = if a ≤ x ∧ x < b then 1 else 0 := by
  induction cs generalizing a with
  | nil =>
    obtain rfl : a = b := tiles
    rw [countP_nil, if_neg (by omega)]
  | cons c cs ih =>
    obtain ⟨first, some, rest⟩ := tiles
    have last := rest.le
    have step : cs.countP (fun c => c.1 ≤ x ∧ x < c.2) +
        (if c.1 ≤ x ∧ x < c.2 then 1 else 0) = if a ≤ x ∧ x < b then 1 else 0 := by
      rw [ih rest]
      split_ifs <;> omega
    rw [countP_cons, ← step]
    simp only [decide_eq_true_eq]

def points (c : Int × Int) : List Int :=
  (List.range (c.2 - c.1).toNat).map fun (k : Nat) => c.1 + (k : Int)

theorem points_append {c : Int} (first : a ≤ b) (second : b ≤ c) :
    points (a, b) ++ points (b, c) = points (a, c) := by
  have whole : (c - a).toNat = (b - a).toNat + (c - b).toNat := by omega
  have start : b = a + ((b - a).toNat : Int) := by omega
  simp only [points, whole, range_add, map_append, map_map]
  refine congrArg _ (map_congr_left fun k _ => ?_)
  rw [Function.comp_apply, Nat.cast_add]
  omega

/-- **The ranges visit the points of the range they tile, in order.** -/
theorem Tiles.points_eq (tiles : Tiles a b cs) : cs.flatMap points = points (a, b) := by
  induction cs generalizing a with
  | nil =>
    obtain rfl : a = b := tiles
    simp [points]
  | cons c cs ih =>
    obtain ⟨first, nonempty, rest⟩ := tiles
    have whole := points_append nonempty.le rest.le
    rw [flatMap_cons, ih rest, ← whole, ← first]

/-- The ranges between the values of a monotone sequence, without the empty ones. -/
theorem tiles_steps {f : Nat → Int} (grows : Monotone f) (n : Nat) : Tiles (f 0) (f n)
      (((List.range n).map fun i => (f i, f (i + 1))).filter fun c => c.1 < c.2) := by
  induction n with
  | zero => exact rfl
  | succ n ih =>
    rw [range_succ, map_append, filter_append]
    apply ih.append
    rw [map_singleton]
    rcases lt_or_eq_of_le (grows n.le_succ) with some | none
    · rw [filter_cons_of_pos (by simpa using some)]
      exact ⟨rfl, some, rfl⟩
    · rw [filter_cons_of_neg (by simp [none])]
      exact none

end Ranges
