import Vknn.Lib.RowMajor

/-!
# Broadcasting

Two arrays are combined element by element after their axes are lined up from the last one.
Where an array has no axis, or one of a single position, the same elements are used again all
along the other array's axis.  So an operand is read through strides of its own that are zero
along such an axis.

The facts here say where an operand of some shape is read: at the same position, at the row of the
position, at its coordinate along an axis, or always at the same place.
-/

namespace Broadcast

open RowMajor List Int Nat

/-- A shape with axes of one position in front, up to a rank. -/
def padded (rank : Nat) (s : List Int) : List Int := List.replicate (rank - s.length) 1 ++ s

/-- The extent of an axis of two operands, if their extents go together. -/
def extent (a b : Int) : Option Int :=
  if a ≠ b ∧ a ≠ 1 ∧ b ≠ 1 then none else some (if a = 0 ∨ b = 0 then 0 else max a b)

/-- The shape of two operands together. -/
def shape (s t : List Int) : Option (List Int) :=
  let rank := max s.length t.length
  ((padded rank s).zip (padded rank t)).mapM fun d => extent d.1 d.2

/-- Strides that are zero along the axes of one position. -/
def zeroed (s : List Int) : List Int := s.zipWith (fun d v => if d = 1 then 0 else v) (strides s)

/-- Where an operand is read for a position of the result. -/
def offset (out s : List Int) (i : Int) : Int :=
  (unwind (out.zip (zeroed (padded out.length s))) i).2

/-! ## Shapes -/

variable {cs lead s t tail units out : List Int} {i n : Int}

@[simp] theorem length_padded {rank : Nat} (fits : s.length ≤ rank) :
    (padded rank s).length = rank := by
  rw [padded, length_append, length_replicate]
  omega

@[simp] theorem padded_self (s : List Int) : padded s.length s = s := by
  rw [padded, Nat.sub_self, replicate_zero, nil_append]

@[simp] theorem length_zeroed (s : List Int) : (zeroed s).length = s.length := by
  rw [zeroed, length_zipWith, length_strides, min_self]

/-- An operand whose axes are those of a shape, or of one position, or missing. -/
structure Fits (t s : List Int) : Prop where
  rank : t.length ≤ s.length
  axes : List.Forall₂ (fun a d => a = 1 ∨ a = d) (padded s.length t) s

theorem extent_of_fits {a d : Int} (low : 0 ≤ d) (fits : a = 1 ∨ a = d) :
    extent d a = some d ∧ extent a d = some d := by
  have both : ¬ (d ≠ a ∧ d ≠ 1 ∧ a ≠ 1) ∧ ¬ (a ≠ d ∧ a ≠ 1 ∧ d ≠ 1) := by
    rcases fits with rfl | rfl <;> simp
  unfold extent
  rw [if_neg both.1, if_neg both.2]
  refine ⟨congrArg some ?_, congrArg some ?_⟩
  · split_ifs <;> omega
  · split_ifs <;> omega

/-- **What fits a shape is broadcast to it.** -/
theorem shape_of_fits (low : ∀ d ∈ s, 0 ≤ d) (fits : Fits t s) :
    shape s t = some s ∧ shape t s = some s := by
  obtain ⟨rank, axes⟩ := fits
  unfold shape
  dsimp only
  rw [max_eq_left rank, max_eq_right rank, padded_self]
  clear rank
  generalize padded s.length t = t' at axes
  induction axes with
  | nil => exact ⟨rfl, rfl⟩
  | @cons a d t' s here _ ih =>
    obtain ⟨first, second⟩ := extent_of_fits (low d mem_cons_self) here
    obtain ⟨left, right⟩ := ih fun x mem => low x (mem_cons_of_mem _ mem)
    rw [zip_cons_cons, zip_cons_cons, mapM_cons, mapM_cons, left, right]
    dsimp only
    rw [first, second]
    exact ⟨rfl, rfl⟩

theorem fits_units (units : ∀ d ∈ t, d = 1) (rank : t.length ≤ s.length) : Fits t s := by
  refine ⟨rank, forall₂_iff_get.mpr ⟨length_padded rank, fun i small _ => .inl ?_⟩⟩
  rcases mem_append.mp (get_mem (padded s.length t) ⟨i, small⟩) with front | inside
  · exact eq_of_mem_replicate front
  · exact units _ inside

/-- An operand with axes of one position before the last fits where the last one does. -/
theorem fits_last {a : Int} (ones : ∀ d ∈ units, d = 1)
    (rank : units.length ≤ lead.length) (last : a = 1 ∨ a = n) :
    Fits (units ++ [a]) (lead ++ [n]) := by
  have front := fits_units ones rank
  refine ⟨by simpa using rank, ?_⟩
  have split : padded (lead ++ [n]).length (units ++ [a]) = padded lead.length units ++ [a] := by
    rw [padded, padded, length_append, length_append, append_assoc]
    congr 2
    simp
  rw [split]
  exact rel_append front.axes (.cons last .nil)

theorem extent_comm (a b : Int) : extent a b = extent b a := by
  unfold extent
  split_ifs <;> first | rfl | omega | (congr 1; omega)

theorem shape_comm (s t : List Int) : shape s t = shape t s := by
  have pairs : ∀ l l' : List Int, (l.zip l').mapM (fun d => extent d.1 d.2) =
      (l'.zip l).mapM fun d => extent d.1 d.2 := by
    intro l
    induction l with
    | nil => intro l'; cases l' <;> rfl
    | cons a l ih =>
      intro l'
      cases l' with
      | nil => rfl
      | cons b l' =>
        rw [zip_cons_cons, zip_cons_cons, mapM_cons, mapM_cons, ih]
        dsimp only
        rw [extent_comm]
  rw [shape, shape, max_comm]
  exact pairs _ _

/-- **What is broadcast fits the shape of both together.** -/
theorem fits_of_shape (low : ∀ d ∈ s, 0 ≤ d) (joined : shape s t = some out) : Fits s out := by
  have axes : ∀ as bs os : List Int, as.length = bs.length → (∀ a ∈ as, 0 ≤ a) →
      (as.zip bs).mapM (fun d => extent d.1 d.2) = some os →
      List.Forall₂ (fun a d => a = 1 ∨ a = d) as os := by
    intro as
    induction as with
    | nil =>
      intro bs os same _ made
      cases made
      exact .nil
    | cons a as ih =>
      intro bs os same low made
      obtain ⟨b, bs, rfl⟩ := exists_cons_of_length_eq_add_one same.symm
      simp only [zip_cons_cons, mapM_cons, Option.bind_eq_bind, Option.bind_eq_some_iff,
        Option.pure_def, Option.some.injEq] at made
      obtain ⟨d, here, rest, later, rfl⟩ := made
      rw [forall_mem_cons] at low
      refine .cons ?_ (ih bs rest (Nat.succ.inj same) low.2 later)
      unfold extent at here
      split_ifs at here <;> cases here <;> omega
  have left := le_max_left s.length t.length
  have whole := axes _ _ _ ((length_padded left).trans (length_padded (le_max_right ..)).symm)
    (fun a mem => (mem_append.mp mem).elim (fun one => by simp [eq_of_mem_replicate one]) (low a))
    joined
  have size := whole.length_eq
  rw [length_padded left] at size
  exact ⟨size ▸ left, size ▸ whole⟩

/-! ## Offsets -/

theorem offset_flat {out : List Int} (inside : Inside cs out) (rank : s.length ≤ out.length) :
    offset out s (flat out cs) = dot cs (zeroed (padded out.length s)) := by
  rw [offset, unwind_zip inside]
  rw [length_zeroed, length_padded rank]

/-- **An operand is read inside.** -/
theorem offset_inside (fits : Fits s out) (positive : ∀ d ∈ out, 0 < d) (low : 0 ≤ i)
    (high : i < size out) : 0 ≤ offset out s i ∧ offset out s i < size s := by
  obtain ⟨cs, inside, rfl⟩ := exists_coords positive low high
  rw [offset_flat inside fits.rank]
  have count : size (padded out.length s) = size s := by
    rw [padded, size_append, size_units, Int.one_mul]
  rw [← count]
  have axes := fits.axes
  generalize padded out.length s = as at axes
  clear count high low positive fits
  induction axes generalizing cs with
  | nil =>
    cases inside
    exact ⟨le_rfl, Int.one_pos⟩
  | @cons a d as out fit _ ih =>
    cases inside with
    | @cons c _ cs _ here rest =>
      obtain ⟨least, most⟩ := ih _ rest
      change 0 ≤ c * (if a = 1 then 0 else size as) + dot cs (zeroed as) ∧
        c * (if a = 1 then 0 else size as) + dot cs (zeroed as) < a * size as
      split_ifs with one
      · rw [one]
        omega
      · obtain rfl := fit.resolve_left one
        have rows := Int.mul_nonneg here.1 (by omega : 0 ≤ size as)
        have next : (c + 1) * size as ≤ a * size as :=
          Int.mul_le_mul_of_nonneg_right here.2 (by omega)
        rw [Int.add_mul, Int.one_mul] at next
        omega

/-- Coordinates inside see no difference between strides and zeroed strides. -/
theorem dot_zeroed (inside : Inside cs s) : dot cs (zeroed s) = flat s cs := by
  induction inside with
  | nil => rfl
  | @cons c d cs s here _ ih =>
    have term : c * (if d = 1 then 0 else size s) = c * size s := by
      split_ifs with one
      · obtain rfl : c = 0 := by omega
        rw [Int.zero_mul, Int.zero_mul]
      · rfl
    change c * (if d = 1 then 0 else size s) + dot cs (zeroed s) = c * size s + flat s cs
    rw [term, ih]

theorem dot_zeros (cs : List Int) (n : Nat) : dot cs (List.replicate n 0) = 0 := by
  induction n generalizing cs with
  | zero => cases cs <;> rfl
  | succ n ih =>
    cases cs with
    | nil => rfl
    | cons c cs => rw [replicate_succ, dot, ih, Int.mul_zero, Int.zero_add]

theorem dot_append {vs : List Int} (same : cs.length = vs.length) (ds ws : List Int) :
    dot (cs ++ ds) (vs ++ ws) = dot cs vs + dot ds ws := by
  induction vs generalizing cs with
  | nil =>
    obtain rfl := length_eq_zero_iff.mp same
    exact (Int.zero_add _).symm
  | cons v vs ih =>
    cases cs with
    | nil => cases same
    | cons c cs => rw [cons_append, cons_append, dot, dot, ih (succ.inj same), Int.add_assoc]

/-- Axes of one position have no strides, whatever follows. -/
theorem zeroed_units (ones : ∀ d ∈ units, d = 1) (s : List Int) :
    zeroed (units ++ s) = List.replicate units.length 0 ++ zeroed s := by
  induction units with
  | nil => rfl
  | cons d units ih =>
    obtain rfl := ones d mem_cons_self
    change (if (1 : Int) = 1 then (0 : Int) else size (units ++ s)) :: zeroed (units ++ s) = _
    rw [if_pos rfl, ih fun x mem => ones x (mem_cons_of_mem _ mem), length_cons,
      replicate_succ, cons_append]

/-- A last axis of one position has no stride, and changes none. -/
theorem zeroed_last (s : List Int) : zeroed (s ++ [1]) = zeroed s ++ [0] := by
  induction s with
  | nil => rfl
  | cons d s ih =>
    change (if d = 1 then 0 else RowMajor.size (s ++ [1])) :: zeroed (s ++ [1]) =
      (if d = 1 then 0 else size s) :: (zeroed s ++ [0])
    rw [ih, size_append]
    simp [RowMajor.size]

theorem offset_self (positive : ∀ d ∈ s, 0 < d) (low : 0 ≤ i)
    (high : i < size s) : offset s s i = i := by
  obtain ⟨cs, inside, rfl⟩ := exists_coords positive low high
  rw [offset_flat inside (le_refl _), padded_self, dot_zeroed inside]

theorem offset_units {out : List Int} (ones : ∀ d ∈ t, d = 1) (rank : t.length ≤ out.length)
    (positive : ∀ d ∈ out, 0 < d) (low : 0 ≤ i) (high : i < size out) :
    offset out t i = 0 := by
  obtain ⟨cs, inside, rfl⟩ := exists_coords positive low high
  have all : ∀ d ∈ padded out.length t, d = 1 := by
    intro d mem
    rcases mem_append.mp mem with front | own
    · exact eq_of_mem_replicate front
    · exact ones d own
  have zeros := zeroed_units all []
  rw [append_nil] at zeros
  rw [offset_flat inside rank, zeros]
  simpa [zeroed, strides] using dot_zeros cs _

theorem exists_row (positive : ∀ d ∈ lead ++ [n], 0 < d)
    (low : 0 ≤ i) (high : i < size (lead ++ [n])) : ∃ rs, Inside rs lead ∧
      Inside (rs ++ [i % n]) (lead ++ [n]) ∧ flat (lead ++ [n]) (rs ++ [i % n]) = i ∧
      flat lead rs = i / n := by
  have wide : 0 < n := positive n (mem_append_right _ mem_cons_self)
  rw [size_append, RowMajor.size, RowMajor.size, Int.mul_one] at high
  obtain ⟨rs, inside, row⟩ := exists_coords
    (fun d mem => positive d (mem_append_left _ mem)) (ediv_nonneg low wide.le)
    (Int.ediv_lt_of_lt_mul wide high)
  have column : Inside [i % n] [n] := .cons ⟨emod_nonneg i wide.ne', emod_lt_of_pos i wide⟩ .nil
  refine ⟨rs, inside, rel_append inside column, ?_, row⟩
  rw [flat_append inside.length_eq, row]
  simp [RowMajor.size, flat, dot, strides, Int.mul_comm (i / n), mul_ediv_add_emod]

/-- **An operand with one element for each row** is read at the row. -/
theorem offset_row (positive : ∀ d ∈ lead ++ [n], 0 < d)
    (low : 0 ≤ i) (high : i < size (lead ++ [n])) : offset (lead ++ [n]) (lead ++ [1]) i = i / n := by
  obtain ⟨rs, inside, whole, position, row⟩ := exists_row positive low high
  have same : (lead ++ [n]).length = (lead ++ [(1 : Int)]).length := by simp
  have at_ := offset_flat (s := lead ++ [1]) whole (le_of_eq same.symm)
  rw [position] at at_
  rw [at_, same, padded_self, zeroed_last, dot_append (by rw [length_zeroed, inside.length_eq]),
    dot_zeroed inside, row]
  simp [dot]

/-- An operand whose one axis of several positions is lined up with an axis of the shape. -/
structure Along (lead : List Int) (n : Int) (tail t : List Int) : Prop where
  rank : t.length ≤ lead.length + 1 + tail.length
  split : ∃ units, t = units ++ n :: List.replicate tail.length 1 ∧ ∀ d ∈ units, d = 1

theorem Along.padded (along : Along lead n tail t) : padded (lead ++ n :: tail).length t =
      List.replicate lead.length 1 ++ n :: List.replicate tail.length 1 := by
  obtain ⟨rank, units, rfl, ones⟩ := along
  rw [Broadcast.padded, eq_replicate_of_mem ones, ← append_assoc, replicate_append_replicate]
  simp only [length_append, length_cons, length_replicate] at rank ⊢
  congr 2
  omega

theorem strides_axis (lead : List Int) (n : Int) (tail : List Int) :
    (strides (lead ++ n :: tail)).getD lead.length 1 = size tail := by
  induction lead with
  | nil => rfl
  | cons d lead ih => exact ih

theorem dot_unit (k m : Nat) (vs : List Int) :
    dot (List.replicate k 0 ++ 1 :: List.replicate m 0) vs = vs.getD k 0 := by
  have zeros : ∀ (m : Nat) (vs : List Int), dot (List.replicate m 0) vs = 0 := by
    intro m
    induction m with
    | zero => exact fun vs => rfl
    | succ m ih =>
      intro vs
      cases vs with
      | nil => rfl
      | cons v vs => rw [replicate_succ, dot, ih, Int.zero_mul, Int.zero_add]
  induction k generalizing vs with
  | zero =>
    cases vs with
    | nil => rfl
    | cons v vs =>
      change 1 * v + dot (List.replicate m 0) vs = v
      rw [zeros, Int.one_mul, Int.add_zero]
  | succ k ih =>
    cases vs with
    | nil => rfl
    | cons v vs =>
      change 0 * v + dot (List.replicate k 0 ++ 1 :: List.replicate m 0) vs = vs.getD k 0
      rw [ih, Int.zero_mul, Int.zero_add]

theorem zeroed_axis (lead : List Int) (n : Int) (tail : List Int) :
    (zeroed (lead ++ n :: tail)).getD lead.length 0 = if n = 1 then 0 else size tail := by
  induction lead with
  | nil => rfl
  | cons d lead ih => exact ih

theorem coordinate {cs : List Int} (inside : Inside cs (lead ++ n :: tail)) :
    flat (lead ++ n :: tail) cs / size tail % n = cs.getD lead.length 0 := by
  have coordinate := digit inside (k := lead.length) (by simp)
  rw [strides_axis] at coordinate
  have dim : (lead ++ n :: tail).getD lead.length 0 = n := by simp
  rwa [dim] at coordinate

/-- **An operand with one axis of several positions** is read at the coordinate of that axis. -/
theorem offset_axis {e : Int} (rank : t.length ≤ (lead ++ n :: tail).length)
    (pad : padded (lead ++ n :: tail).length t =
      List.replicate lead.length 1 ++ e :: List.replicate tail.length 1)
    (positive : ∀ d ∈ lead ++ n :: tail, 0 < d) (low : 0 ≤ i) (high : i < size (lead ++ n :: tail)) :
    offset (lead ++ n :: tail) t i = if e = 1 then 0 else i / size tail % n := by
  obtain ⟨cs, inside, rfl⟩ := exists_coords positive low high
  have length := inside.length_eq
  rw [length_append, length_cons] at length
  have here : lead.length < cs.length := by omega
  have split : cs = cs.take lead.length ++ cs.getD lead.length 0 :: cs.drop (lead.length + 1) := by
    rw [getD_eq_getElem?_getD, getElem?_eq_getElem here, Option.getD_some,
      ← drop_eq_getElem_cons here, take_append_drop]
  have zeros := zeroed_units
    (fun d (mem : d ∈ List.replicate tail.length 1) => eq_of_mem_replicate mem) []
  rw [append_nil] at zeros
  have place : zeroed (e :: List.replicate tail.length 1) =
      (if e = 1 then 0 else 1) :: List.replicate tail.length 0 := by
    have rest : zeroed (e :: List.replicate tail.length 1) =
        (if e = 1 then 0 else size (List.replicate tail.length 1)) ::
          zeroed (List.replicate tail.length 1) := rfl
    rw [rest, size_units, zeros, length_replicate]
    simp [zeroed, strides]
  rw [offset_flat inside rank, pad, coordinate inside,
    zeroed_units (fun _ => eq_of_mem_replicate), length_replicate, place]
  conv_lhs => rw [split]
  rw [dot_append (by simp; omega), dot_zeros, dot, dot_zeros, Int.zero_add, Int.add_zero]
  split_ifs with one
  · rw [Int.mul_zero]
  · rw [Int.mul_one]

/-- **An operand along an axis** is read at the coordinate of that axis. -/
theorem Along.offset (along : Along lead n tail t)
    (positive : ∀ d ∈ lead ++ n :: tail, 0 < d) (low : 0 ≤ i)
    (high : i < size (lead ++ n :: tail)) :
    offset (lead ++ n :: tail) t i = i / size tail % n := by
  rw [offset_axis (by simpa [add_comm, add_left_comm] using along.rank) along.padded positive
    low high]
  split_ifs with one
  · rw [one, emod_one]
  · rfl

/-- **An operand with one row** is read at the column. -/
theorem offset_column (ones : ∀ d ∈ units, d = 1)
    (rank : units.length ≤ lead.length) (positive : ∀ d ∈ lead ++ [n], 0 < d)
    (low : 0 ≤ i) (high : i < size (lead ++ [n])) :
    offset (lead ++ [n]) (units ++ [n]) i = i % n := by
  have along : Along lead n [] (units ++ [n]) := ⟨by simpa using rank, units, rfl, ones⟩
  rw [along.offset positive low high, RowMajor.size, ediv_one]

end Broadcast
