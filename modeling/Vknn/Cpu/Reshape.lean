import Vknn.Cpu.Movement

/-!
# Kernels that reshape and repeat

Reshape, squeeze and unsqueeze copy the elements in order and differ only in the shape
they give them.  Expand repeats the input along the axes where the output is larger; the
input is aligned to the right end of each axis, and what lies before it repeats its first
element.
-/

namespace Vknn.Cpu

open List RowMajor

variable {α : Type}

/-- Copy the elements under another shape.  Only the overlap is copied; zeros fill the rest. -/
def copyAs (zero : α) (shape : Shape) (X : List α) : List α :=
  let n := (numElements shape).toNat
  X.take n ++ List.replicate (n - X.length) zero

/-! ## Output shapes -/

/-- A target shape: 0 keeps the input dimension at its position, and the last -1 takes what is
left of the element count. -/
def reshapeShape (target : List Int) (X : Shape) : Shape :=
  let out := target.mapIdx fun i d => if d = 0 then X.getD i 1 else d
  let known := (out.filter fun d => d ≠ -1).foldl (fun n d => n * d) 1
  match (out.zipIdx.filter fun d => d.1 = -1).getLast? with
  | some infer => out.set infer.2 ((numElements X).tdiv (max known 1))
  | none => out

/-- The dimensions that are not dropped: those of size 1 where no axes are given. -/
def squeezeShape (axes : List Int) (X : Shape) : Shape :=
  let drop := fun (d : Int) (k : Nat) =>
    if axes.isEmpty then d = 1
    else axes.any fun ax => (if ax < 0 then ax + X.length else ax) = k
  let out := (X.zipIdx.filter fun d => !drop d.1 d.2).map Prod.fst
  if out.isEmpty then [1] else out

/-- Dimensions of size 1 put in at the axes, in ascending order. -/
def unsqueezeShape (axes : List Int) (X : Shape) : Shape :=
  (axes.mergeSort (fun a b => a ≤ b)).foldl (fun (out : Shape) (ax : Int) =>
    let ax : Int := if ax < 0 then ax + (out.length + 1) else ax
    out.insertIdx (min ax out.length).toNat 1) X

/-- A shape with leading dimensions of size 1. -/
def padLeft (rank : Nat) (s : Shape) : Shape := List.replicate (rank - s.length) 1 ++ s

/-- The larger of two right-aligned shapes in each dimension; a negative entry of the target
counts as 1. -/
def expandShape (target : List Int) (X : Shape) : Shape :=
  let rank := max X.length target.length
  (padLeft rank X).zipWith (fun p t => max p (if t < 0 then 1 else t)) (padLeft rank target)

/-! ## Expand -/

/-- The input coordinate of each output coordinate. -/
def expandSource (out pin : Shape) (cs : List Int) : List Int :=
  (out.zip pin).zipWith (fun d c => min (max (c - (d.1 - d.2)) 0) (max (d.2 - 1) 0)) cs

/-- What each output coordinate adds to the input position. -/
def expandTerms (out pin : Shape) : List (Int → Int) :=
  (out.zip pin).zipWith
    (fun d s c => min (max (c - (d.1 - d.2)) 0) (max (d.2 - 1) 0) * s) (rowStridesOf pin)

def expand (zero : α) (target : List Int) (shape : Shape) (X : List α) : List α :=
  let out := expandShape target shape
  gather zero out (expandTerms out (padLeft out.length shape)) 0 X

/-! ## What they read -/

/-- A copy under a shape holds what the input holds, as far as the shape goes. -/
theorem readAt_copyAs (zero : α) {shape : Shape} (X : List α) {i : Int} (low : 0 ≤ i)
    (high : i < numElements shape) : readAt zero (copyAs zero shape X) i = readAt zero X i := by
  obtain ⟨n, rfl⟩ := Int.eq_ofNat_of_zero_le low
  have inside : n < (numElements shape).toNat := by omega
  rw [readAt, readAt, if_pos low, if_pos low, copyAs, Int.toNat_natCast,
    getD_eq_getElem?_getD, getD_eq_getElem?_getD]
  by_cases held : n < X.length
  · rw [getElem?_append_left (by rw [length_take]; omega), getElem?_take_of_lt inside]
  · rw [getElem?_append_right (by rw [length_take]; omega), getElem?_replicate,
      getElem?_eq_none (not_lt.mp held)]
    split <;> rfl

@[simp] theorem length_padLeft {rank : Nat} {s : Shape} (fits : s.length ≤ rank) :
    (padLeft rank s).length = rank := by
  rw [padLeft, length_append, length_replicate]
  omega

theorem size_padLeft (rank : Nat) (s : Shape) : size (padLeft rank s) = size s := by
  rw [padLeft, size_append, size_units, Int.one_mul]

/-- An output that an input fills: no dimension of the input is empty, or larger than that of the
output. -/
def Fills (out pin : Shape) : Prop := List.Forall₂ (fun d p => 0 < p ∧ p ≤ d) out pin

/-- The expanded coordinates are inside the input, and the terms add up to their position. -/
theorem leads_expand {out pin : Shape} (fills : Fills out pin) :
    Leads out pin (expandTerms out pin) (expandSource out pin) := by
  refine ⟨fun cs inside => ?_, fun cs inside => ?_⟩
  · induction fills generalizing cs with
    | nil =>
      cases inside
      exact .nil
    | @cons d p out pin here _ ih =>
      cases inside with
      | @cons c _ cs _ first rest =>
        refine .cons ?_ (ih cs rest)
        dsimp only
        omega
  · induction fills generalizing cs with
    | nil =>
      cases inside
      rfl
    | @cons d p out pin _ _ ih =>
      cases inside with
      | @cons c _ cs _ first rest => exact congrArg _ (ih cs rest)

theorem exists_expandSource {out pin : Shape} (fills : Fills out pin) {xs : List Int}
    (inside : Inside xs pin) :
    ∃ cs, Inside cs out ∧ expandSource out pin cs = xs := by
  induction fills generalizing xs with
  | nil =>
    cases inside
    exact ⟨[], .nil, rfl⟩
  | @cons d p out pin here _ ih =>
    cases inside with
    | @cons x _ xs _ first rest =>
      obtain ⟨cs, within, source⟩ := ih rest
      refine ⟨(x + (d - p)) :: cs, .cons (by omega) within, ?_⟩
      have back : min (max (x + (d - p) - (d - p)) 0) (max (p - 1) 0) = x := by omega
      exact congrArg₂ List.cons back source

end Vknn.Cpu
