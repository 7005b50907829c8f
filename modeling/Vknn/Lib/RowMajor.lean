import Mathlib.Algebra.BigOperators.Group.List.Basic
import Mathlib.Tactic.Linarith
import Mathlib.Tactic.Ring

/-!
# Row-major positions

An array of several dimensions is stored with its last axis running fastest.  The
position of an element is the sum of its coordinates, each times the stride of its
axis; the coordinates come back from the position by dividing by one stride after
the other.

A walk takes a position of one array and adds up, axis by axis, a term of each
coordinate.  Reading another array through such terms is what views, slices and
transpositions do, and the facts here say which element is read.
-/

namespace RowMajor

open List Int

def size : List Int → Int
  | [] => 1
  | d :: dims => d * size dims

/-- The stride of each axis: the number of elements of the axes after it. -/
def strides : List Int → List Int
  | [] => []
  | _ :: dims => size dims :: strides dims

/-- Coordinates times strides, added up. -/
def dot : List Int → List Int → Int
  | c :: cs, v :: vs => c * v + dot cs vs
  | _, _ => 0

def flat (dims cs : List Int) : Int := dot cs (strides dims)

def Inside (cs dims : List Int) : Prop := List.Forall₂ (fun c d => 0 ≤ c ∧ c < d) cs dims

/-- Decode a position by a list of strides, and add up a term of each coordinate. -/
def walk : List Int → List (Int → Int) → Int → Int → Int
  | s :: outStride, f :: fs, rem, inf => walk outStride fs (rem % s) (inf + f (rem / s))
  | _, _, _, inf => inf

/-- A term of each coordinate, added up. -/
def terms : List (Int → Int) → List Int → Int
  | f :: fs, c :: cs => f c + terms fs cs
  | _, _ => 0

@[simp] theorem length_strides (dims : List Int) : (strides dims).length = dims.length := by
  induction dims with
  | nil => rfl
  | cons d dims ih => rw [strides, length_cons, ih, length_cons]

/-! ## Positions and coordinates -/

theorem flat_cons (d c : Int) (dims cs : List Int) :
    flat (d :: dims) (c :: cs) = c * size dims + flat dims cs := rfl

variable {cs dims vs : List Int} {axes : List (Int × Int)} {perm : List Nat}

theorem size_pos (positive : ∀ d ∈ dims, 0 < d) : 0 < size dims := by
  induction dims with
  | nil => exact Int.one_pos
  | cons d dims ih =>
    exact Int.mul_pos (positive d mem_cons_self)
      (ih fun e mem => positive e (mem_cons_of_mem _ mem))

/-- Where there are elements and no negative dimension, no dimension is empty. -/
theorem positive_of_size_pos (sizes : ∀ d ∈ dims, 0 ≤ d) (some : 0 < size dims) :
    ∀ d ∈ dims, 0 < d := by
  induction dims with
  | nil => exact fun d mem => nomatch mem
  | cons e dims ih =>
    rw [size] at some
    have first := sizes e mem_cons_self
    have rest : 0 < size dims := by
      by_contra none
      have small := Int.mul_nonpos_of_nonneg_of_nonpos first (not_lt.mp none)
      omega
    have here : 0 < e := by
      by_contra none
      obtain rfl : e = 0 := by omega
      rw [Int.zero_mul] at some
      exact lt_irrefl 0 some
    intro d mem
    rcases mem_cons.mp mem with rfl | later
    · exact here
    · exact ih (fun d mem => sizes d (mem_cons_of_mem _ mem)) rest d later

theorem size_nonneg (sizes : ∀ d ∈ dims, 0 ≤ d) : 0 ≤ size dims := by
  induction dims with
  | nil => exact Int.one_nonneg
  | cons d dims ih =>
    exact Int.mul_nonneg (sizes d mem_cons_self)
      (ih fun e mem => sizes e (mem_cons_of_mem _ mem))

theorem inside_zeros (positive : ∀ d ∈ dims, 0 < d) :
    Inside (List.replicate dims.length 0) dims := by
  induction dims with
  | nil => exact .nil
  | cons d dims ih =>
    exact .cons ⟨le_rfl, positive d mem_cons_self⟩
      (ih fun e mem => positive e (mem_cons_of_mem _ mem))

/-- **The position of inside coordinates is inside.** -/
theorem flat_inside (inside : Inside cs dims) : 0 ≤ flat dims cs ∧ flat dims cs < size dims := by
  induction inside with
  | nil => exact ⟨le_rfl, Int.one_pos⟩
  | @cons c d cs dims here _ ih =>
    obtain ⟨low, high⟩ := here
    rw [flat_cons, size]
    have least := Int.mul_nonneg low (ih.1.trans ih.2.le)
    have most : (c + 1) * size dims ≤ d * size dims :=
      Int.mul_le_mul_of_nonneg_right high (ih.1.trans ih.2.le)
    rw [Int.add_mul, Int.one_mul] at most
    omega

/-- **A walk over the position of coordinates adds up their terms.** -/
theorem walk_flat (inside : Inside cs dims) (fs : List (Int → Int))
    (inf : Int) : walk (strides dims) fs (flat dims cs) inf = inf + terms fs cs := by
  induction inside generalizing fs inf with
  | nil => cases fs <;> simp [walk, strides, terms]
  | @cons c d cs dims here rest ih =>
    cases fs with
    | nil => simp [walk, strides, terms]
    | cons f fs =>
      obtain ⟨low, high⟩ := flat_inside rest
      have quotient : flat (d :: dims) (c :: cs) / size dims = c := by
        rw [flat_cons, Int.add_comm, add_mul_ediv_right _ _ (by omega),
          ediv_eq_zero_of_lt low high, Int.zero_add]
      have remainder : flat (d :: dims) (c :: cs) % size dims = flat dims cs := by
        rw [flat_cons, Int.add_comm, add_mul_emod_self_right, emod_eq_of_lt low high]
      rw [strides, walk, quotient, remainder, ih, terms, Int.add_assoc]

/-- **Every position inside has coordinates.** -/
theorem exists_coords (positive : ∀ d ∈ dims, 0 < d) {i : Int} (low : 0 ≤ i)
    (high : i < size dims) : ∃ cs, Inside cs dims ∧ flat dims cs = i := by
  induction dims generalizing i with
  | nil =>
    have only : i = 0 := by
      rw [size] at high
      omega
    exact ⟨[], .nil, only.symm⟩
  | cons d dims ih =>
    have later := fun e mem => positive e (mem_cons_of_mem _ mem)
    have block := size_pos later
    obtain ⟨cs, inside, at'⟩ := ih later (emod_nonneg i (by omega))
      (emod_lt_of_pos i block)
    refine ⟨i / size dims :: cs, .cons ⟨ediv_nonneg low block.le, ?_⟩ inside, ?_⟩
    · exact Int.ediv_lt_of_lt_mul block high
    · rw [flat_cons, at', Int.mul_comm, mul_ediv_add_emod]

/-- What lies from an axis on is a whole number of times in the array. -/
theorem size_eq_mul {k : Nat} (small : k < dims.length) :
    ∃ m, size dims = m * (dims.getD k 0 * (strides dims).getD k 1) := by
  induction dims generalizing k with
  | nil => cases small
  | cons d dims ih =>
    cases k with
    | zero => exact ⟨1, (Int.one_mul _).symm⟩
    | succ k =>
      obtain ⟨m, whole⟩ := ih (Nat.lt_of_succ_lt_succ small)
      refine ⟨d * m, ?_⟩
      change d * size dims = d * m * (dims.getD k 0 * (strides dims).getD k 1)
      rw [whole, Int.mul_assoc]

theorem stride_pos (positive : ∀ d ∈ dims, 0 < d) (k : Nat) : 0 < (strides dims).getD k 1 := by
  induction dims generalizing k with
  | nil => exact Int.one_pos
  | cons d dims ih =>
    have later := fun e mem => positive e (mem_cons_of_mem d mem)
    cases k with
    | zero => exact size_pos later
    | succ k => exact ih later k

/-- **A coordinate** is a quotient by the stride of its axis, up to whole axes. -/
theorem digit (inside : Inside cs dims) {k : Nat} (small : k < dims.length) :
    flat dims cs / (strides dims).getD k 1 % dims.getD k 0 = cs.getD k 0 := by
  induction inside generalizing k with
  | nil => cases small
  | @cons c d cs dims here rest ih =>
    obtain ⟨low, high⟩ := flat_inside rest
    have positive : ∀ e ∈ dims, 0 < e :=
      positive_of_size_pos (fun e mem => ?_) (lt_of_le_of_lt low high)
    · cases k with
      | zero =>
        change flat (d :: dims) (c :: cs) / size dims % d = c
        rw [flat_cons, Int.add_comm, add_mul_ediv_right _ _ (by omega),
          ediv_eq_zero_of_lt low high, Int.zero_add, emod_eq_of_lt here.1 here.2]
      | succ k =>
        change flat (d :: dims) (c :: cs) / (strides dims).getD k 1 % dims.getD k 0 = cs.getD k 0
        rw [← ih (Nat.lt_of_succ_lt_succ small)]
        obtain ⟨m, whole⟩ := size_eq_mul (Nat.lt_of_succ_lt_succ small)
        have block := (stride_pos positive k).ne'
        have moved : c * size dims + flat dims cs =
            flat dims cs + c * m * dims.getD k 0 * (strides dims).getD k 1 := by
          rw [whole]
          ring
        rw [flat_cons, moved, add_mul_ediv_right _ _ block, add_mul_emod_self_right]
    · obtain ⟨i, inRange, rfl⟩ := getElem_of_mem mem
      have pair := (forall₂_iff_get.mp rest).2 i (by rw [rest.length_eq]; exact inRange) inRange
      exact le_trans pair.1 pair.2.le

/-! ## Terms -/

theorem terms_mul (vs cs : List Int) : terms (vs.map fun v c => c * v) cs = dot cs vs := by
  induction vs generalizing cs with
  | nil => cases cs <;> rfl
  | cons v vs ih =>
    cases cs with
    | nil => rfl
    | cons c cs => rw [map_cons, terms, ih, dot]

theorem dot_eq_sum (same : cs.length = vs.length) :
    dot cs vs = ((List.range vs.length).map fun k => cs.getD k 0 * vs.getD k 0).sum := by
  induction vs generalizing cs with
  | nil => cases cs <;> simp [dot]
  | cons v vs ih =>
    cases cs with
    | nil => cases same
    | cons c cs =>
      rw [dot, ih (Nat.succ.inj same), length_cons, range_succ_eq_map, map_cons, sum_cons, map_map]
      rfl

/-! ## Affine steps -/

/-- The coordinate a step of `step` from `begin` reaches on each axis. -/
def stepped (axes : List (Int × Int)) (cs : List Int) : List Int :=
  axes.zipWith (fun axis c => axis.1 + c * axis.2) cs

/-- **Stepping each axis scales its stride and moves the start.** -/
theorem dot_stepped
    (sameAxes : axes.length = vs.length) (same : cs.length = vs.length) :
    dot (stepped axes cs) vs =
      dot (axes.map Prod.fst) vs + dot cs (vs.zipWith (fun v axis => v * axis.2) axes) := by
  induction vs generalizing axes cs with
  | nil =>
    obtain rfl := length_eq_zero_iff.mp sameAxes
    obtain rfl := length_eq_zero_iff.mp same
    rfl
  | cons v vs ih =>
    cases axes with
    | nil => cases sameAxes
    | cons axis axes =>
      cases cs with
      | nil => cases same
      | cons c cs =>
        have rest := ih (Nat.succ.inj sameAxes) (Nat.succ.inj same)
        simp only [stepped, zipWith_cons_cons, dot, map_cons] at rest ⊢
        rw [rest]
        ring

/-! ## Permuted axes -/

/-- The coordinates before a permutation of the axes, from those after it. -/
def unpermute (perm : List Nat) (cs : List Int) : List Int :=
  (List.range perm.length).map fun j => cs.getD (perm.idxOf j) 0

@[simp] theorem length_unpermute (perm : List Nat) (cs : List Int) :
    (unpermute perm cs).length = perm.length := by
  simp [unpermute]

/-- **Permuting the strides permutes the coordinates back.** -/
theorem dot_unpermute (same : cs.length = vs.length)
    (permutation : perm.Perm (List.range vs.length)) :
    dot (unpermute perm cs) vs = dot cs (perm.map fun p => vs.getD p 0) := by
  have count : perm.length = vs.length := by rw [permutation.length_eq, length_range]
  have distinct : perm.Nodup := permutation.symm.nodup nodup_range
  rw [dot_eq_sum (by rw [length_unpermute, count]), dot_eq_sum (by rw [length_map, same, count])]
  rw [← (permutation.map fun k => (unpermute perm cs).getD k 0 * vs.getD k 0).sum_eq, length_map]
  congr 1
  apply ext_getElem
  · simp
  intro k inside inside'
  rw [length_map] at inside
  have bound : perm[k] < perm.length := by
    rw [count]
    exact mem_range.mp (permutation.mem_iff.mp (getElem_mem inside))
  simp [unpermute, getD_eq_getElem?_getD, inside, bound, distinct.idxOf_getElem k inside]

/-- The coordinates before a permutation are inside when those after it are inside the permuted
axes. -/
theorem inside_unpermute
    (permutation : perm.Perm (List.range dims.length))
    (inside : Inside cs (perm.map fun p => dims.getD p 0)) :
    Inside (unpermute perm cs) dims := by
  have count : perm.length = dims.length := by rw [permutation.length_eq, length_range]
  have paired := forall₂_iff_get.mp inside
  refine forall₂_iff_get.mpr ⟨by rw [length_unpermute, count], fun j small small' => ?_⟩
  have mem : j ∈ perm := permutation.mem_iff.mpr (mem_range.mpr small')
  have found := idxOf_lt_length_of_mem mem
  have length : cs.length = perm.length := by rw [paired.1, length_map]
  have here := paired.2 (perm.idxOf j) (by omega) (by rw [length_map]; exact found)
  simp only [get_eq_getElem, getElem_map, getElem_idxOf] at here
  simp only [get_eq_getElem, unpermute, getElem_map, getElem_range]
  have coordinate : perm.idxOf j < cs.length := by omega
  rw [getD_eq_getElem?_getD, getElem?_eq_getElem small', Option.getD_some] at here
  rw [getD_eq_getElem?_getD, getElem?_eq_getElem coordinate, Option.getD_some]
  exact here

/-- Permuting coordinates and back changes nothing. -/
theorem unpermute_map
    (permutation : perm.Perm (List.range cs.length)) :
    unpermute perm (perm.map fun p => cs.getD p 0) = cs := by
  have count : perm.length = cs.length := by rw [permutation.length_eq, length_range]
  apply ext_getElem
  · rw [length_unpermute, count]
  intro j small small'
  have mem : j ∈ perm := permutation.mem_iff.mpr (mem_range.mpr small')
  have found := idxOf_lt_length_of_mem mem
  simp [unpermute, getD_eq_getElem?_getD, found, getElem_idxOf, small']

/-- Permuted coordinates are inside the permuted axes. -/
theorem inside_permute (inside : Inside cs dims)
    (permutation : perm.Perm (List.range dims.length)) :
    Inside (perm.map fun p => cs.getD p 0) (perm.map fun p => dims.getD p 0) := by
  have paired := forall₂_iff_get.mp inside
  rw [Inside, forall₂_map_left_iff, forall₂_map_right_iff]
  refine forall₂_same.mpr fun p mem => ?_
  have small : p < dims.length := mem_range.mp (permutation.mem_iff.mp mem)
  have here := paired.2 p (by rw [paired.1]; exact small) small
  have small' : p < cs.length := by rw [paired.1]; exact small
  simp only [get_eq_getElem] at here
  rwa [getD_eq_getElem?_getD, getElem?_eq_getElem small', Option.getD_some,
    getD_eq_getElem?_getD, getElem?_eq_getElem small, Option.getD_some]

/-! ## Axes of one position -/

theorem size_append (dims later : List Int) : size (dims ++ later) = size dims * size later := by
  induction dims with
  | nil => rw [nil_append, size, Int.one_mul]
  | cons d dims ih => rw [cons_append, size, size, ih, Int.mul_assoc]

theorem size_units (n : Nat) : size (List.replicate n 1) = 1 := by
  induction n with
  | zero => rfl
  | succ n ih => rw [replicate_succ, size, ih, Int.mul_one]

theorem flat_append (same : cs.length = dims.length) (later ds : List Int) :
    flat (dims ++ later) (cs ++ ds) = flat dims cs * size later + flat later ds := by
  induction dims generalizing cs with
  | nil =>
    obtain rfl := length_eq_zero_iff.mp same
    simp [flat, dot]
  | cons d dims ih =>
    cases cs with
    | nil => cases same
    | cons c cs =>
      rw [cons_append, cons_append, flat_cons, flat_cons, ih (Nat.succ.inj same), size_append]
      ring

theorem flat_zeros (dims : List Int) (n : Nat) : flat dims (List.replicate n 0) = 0 := by
  induction dims generalizing n with
  | nil => cases n <;> rfl
  | cons d dims ih =>
    cases n with
    | zero => rfl
    | succ n => rw [replicate_succ, flat_cons, ih, Int.zero_mul, Int.zero_add]

theorem inside_padded {n : Nat}
    (inside : Inside cs (List.replicate n 1 ++ dims)) : ∃ xs, cs = List.replicate n 0 ++ xs ∧
      Inside xs dims ∧ flat (List.replicate n 1 ++ dims) cs = flat dims xs := by
  induction n generalizing cs with
  | zero => exact ⟨cs, rfl, inside, rfl⟩
  | succ n ih =>
    rw [replicate_succ, cons_append] at inside
    cases inside with
    | @cons c _ cs _ here rest =>
      obtain ⟨xs, rfl, within, position⟩ := ih rest
      obtain rfl : c = 0 := by omega
      refine ⟨xs, rfl, within, ?_⟩
      rw [replicate_succ, cons_append, flat_cons, position, Int.zero_mul, Int.zero_add]

/-! ## Decoding from the last axis -/

/-- Decode a position from the last axis on: what is left of it, and each coordinate times a
stride, added up. -/
def unwind (axes : List (Int × Int)) (i : Int) : Int × Int :=
  axes.foldr (fun axis state => (state.1 / axis.1, state.2 + state.1 % axis.1 * axis.2)) (i, 0)

/-- **Unwinding the position of coordinates** leaves what lies above it. -/
theorem unwind_flat
    (inside : Inside cs (axes.map Prod.fst)) (q : Int) :
    unwind axes (q * size (axes.map Prod.fst) + flat (axes.map Prod.fst) cs) =
      (q, dot cs (axes.map Prod.snd)) := by
  induction axes generalizing cs q with
  | nil =>
    cases inside
    simp [unwind, size, flat, dot]
  | cons axis axes ih =>
    cases inside with
    | @cons c _ cs _ here rest =>
      have above := ih rest (q * axis.1 + c)
      have position : q * size ((axis :: axes).map Prod.fst) +
          flat ((axis :: axes).map Prod.fst) (c :: cs) =
          (q * axis.1 + c) * size (axes.map Prod.fst) + flat (axes.map Prod.fst) cs := by
        rw [map_cons, size, flat_cons]
        ring
      have digit : (q * axis.1 + c) / axis.1 = q ∧ (q * axis.1 + c) % axis.1 = c := by
        have positive : axis.1 ≠ 0 := by omega
        rw [Int.add_comm, add_mul_ediv_right _ _ positive, add_mul_emod_self_right,
          ediv_eq_zero_of_lt here.1 here.2, emod_eq_of_lt here.1 here.2, Int.zero_add]
        exact ⟨rfl, rfl⟩
      rw [position, unwind, foldr_cons]
      rw [unwind] at above
      rw [above, digit.1, digit.2, map_cons, dot, Int.add_comm]

theorem unwind_inside
    (inside : Inside cs (axes.map Prod.fst)) :
    (unwind axes (flat (axes.map Prod.fst) cs)).2 = dot cs (axes.map Prod.snd) := by
  have unwound := unwind_flat inside 0
  rw [Int.zero_mul, Int.zero_add] at unwound
  rw [unwound]

theorem unwind_zip {ds : List Int} (inside : Inside cs ds) (same : vs.length = ds.length) :
    (unwind (ds.zip vs) (flat ds cs)).2 = dot cs vs := by
  have sizes : (ds.zip vs).map Prod.fst = ds := map_fst_zip same.ge
  have strides : (ds.zip vs).map Prod.snd = vs := map_snd_zip same.le
  have unwound := unwind_inside (sizes.symm ▸ inside : Inside cs ((ds.zip vs).map Prod.fst))
  rwa [sizes, strides] at unwound

end RowMajor
