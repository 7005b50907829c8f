import Mathlib.Data.Int.ConditionallyCompleteOrder
import Vknn.Cpu.Activation
import Vknn.Cpu.Concat
import Vknn.Lib.PartialSort

/-!
# The first few of an axis

A slice along an axis is ranked by a partial sort of its places: by value, and equal values by
place.  The values and the places of the first few are the two outputs.  The places may be left
out, which changes nothing for the values.

A comparison with a NaN falls through to `false` on both sides, while two different places that
hold numbers are always told apart.
-/

namespace Vknn.Cpu.TopK

open CellWrites PartialSort List

/-! ## Elements -/

/-- An element type: its comparisons, and the number that an element stands for, if any. -/
structure Lane (α : Type) where
  ne : α → α → Bool
  lt : α → α → Bool
  key : α → Option Int
  ne_eq : ∀ a b, ne a b = false ↔ ∃ x, key a = some x ∧ key b = some x
  lt_eq : ∀ a b, lt a b = true ↔ ∃ x y, key a = some x ∧ key b = some y ∧ x < y

def float32 : Lane Float32Bits where
  ne a b := !floatEqual a b
  lt a b := floatLess a.bits.toNat b.bits.toNat
  key a := if isNan a.bits.toNat then none else some (floatKey a.bits.toNat)
  ne_eq a b := by
    unfold floatEqual
    cases isNan a.bits.toNat <;> cases isNan b.bits.toNat <;> simp
    exact eq_comm
  lt_eq a b := by
    unfold floatLess
    cases isNan a.bits.toNat <;> cases isNan b.bits.toNat <;> simp

def int64 : Lane Int where
  ne a b := decide (a ≠ b)
  lt a b := decide (a < b)
  key := some
  ne_eq a b := by simpa using eq_comm
  lt_eq a b := by simp

variable {α β : Type} (lane : Lane α)

/-! ## One slice -/

section Slice

variable {n : Nat} (largest : Bool) (x : Fin n → α)

/-- The comparator of the partial sort. -/
def cmp (a b : Fin n) : Bool :=
  if lane.ne (x a) (x b) then
    if largest then lane.lt (x b) (x a) else lane.lt (x a) (x b)
  else decide (a < b)

/-- What a slice is to be sorted by: its numbers, a NaN counting as last. -/
def rank (i : Fin n) : WithTop Int :=
  match lane.key (x i) with
  | some v => if largest then (-v : Int) else v
  | none => ⊤

/-- The places of a slice, sorted by value, and those of equal values ascending. -/
def order : Equiv.Perm (Fin n) := Tuple.sort (rank lane largest x)

/-- A slice is ranked: the comparator is a strict weak order, and whatever the partial sort may do,
it comes out with the first few places of the sorted slice. -/
def SliceExact (k : Nat) : Prop :=
  IsStrictWeakOrder (Fin n) (fun a b => cmp lane largest x a b) ∧
    ∀ idx, Allowed (fun a b => cmp lane largest x a b) k idx →
      ∀ j : Fin n, (j : Nat) < k → idx j = order lane largest x j

/-- No NaN in the slice; or nothing to rank; or no two numbers in it, and nothing taken. -/
def Rankable (k : Nat) : Prop :=
  (∀ i, lane.key (x i) ≠ none) ∨ n ≤ 1 ∨
    (k = 0 ∧ ∀ a b, lane.key (x a) ≠ none → lane.key (x b) ≠ none → a = b)

variable {lane largest x} {a b : Fin n} {k : Nat}

/-- Two places of numbers are ordered by value and then by place. -/
theorem cmp_numbers {v w : Int} (left : lane.key (x a) = some v) (right : lane.key (x b) = some w) :
    cmp lane largest x a b = true ↔
      toLex (rank lane largest x a, a) < toLex (rank lane largest x b, b) := by
  have less := lane.lt_eq (x a) (x b)
  have more := lane.lt_eq (x b) (x a)
  have equal := lane.ne_eq (x a) (x b)
  rw [left, right] at less equal more
  simp only [Option.some.injEq, exists_and_left, exists_eq_left'] at less more equal
  rw [Prod.Lex.toLex_lt_toLex, cmp, rank, rank, left, right]
  cases same : lane.ne (x a) (x b)
  · obtain rfl := equal.mp same
    simp
  · have apart : v ≠ w := fun here => by
      rw [equal.mpr here.symm] at same
      cases same
    have turned : ((-v : Int) : WithTop Int) < (-w : Int) ↔ w < v :=
      WithTop.coe_lt_coe.trans neg_lt_neg_iff
    cases largest
    · simp [less, apart]
    · simpa [more, apart] using turned.symm

/-- A NaN is before nothing, and nothing is before it. -/
theorem cmp_nan (nan : lane.key (x a) = none ∨ lane.key (x b) = none) :
    cmp lane largest x a b = false := by
  have unequal : lane.ne (x a) (x b) = true := by
    by_contra same
    obtain ⟨v, left, right⟩ := (lane.ne_eq _ _).mp (Bool.eq_false_iff.mpr same)
    rcases nan with none_ | none_ <;> simp_all
  have less : ∀ {c d}, (lane.key c = none ∨ lane.key d = none) → lane.lt c d = false := by
    intro c d either
    refine Bool.eq_false_iff.mpr fun holds => ?_
    obtain ⟨v, w, left, right, -⟩ := (lane.lt_eq c d).mp holds
    rcases either with none_ | none_ <;> simp_all
  rw [cmp, if_pos unequal, less nan, less nan.symm, ite_self]

/-- Without two numbers the comparator orders nothing. -/
theorem cmp_alone (alone : ∀ a b, lane.key (x a) ≠ none → lane.key (x b) ≠ none → a = b)
    (a b : Fin n) : cmp lane largest x a b = false := by
  by_cases nan : lane.key (x a) = none ∨ lane.key (x b) = none
  · exact cmp_nan nan
  · obtain ⟨left, right⟩ := not_or.mp nan
    obtain rfl := alone a b left right
    obtain ⟨v, held⟩ := Option.ne_none_iff_exists'.mp left
    exact Bool.eq_false_iff.mpr fun less => lt_irrefl _ ((cmp_numbers held held).mp less)

theorem strictWeak_of_false {lt : Fin n → Fin n → Prop} (never : ∀ a b, ¬ lt a b) :
    IsStrictWeakOrder (Fin n) lt :=
  @IsStrictWeakOrder.mk _ _
    (@IsStrictOrder.mk _ _ ⟨fun a => never a a⟩ ⟨fun a b _ less => absurd less (never a b)⟩)
    fun a _ c _ _ => ⟨never a c, never c a⟩

/-- Beside a NaN, the comparator of a strict weak order sees no two numbers. -/
theorem alone_of_nan (weak : IsStrictWeakOrder (Fin n) fun a b => cmp lane largest x a b)
    {c : Fin n} (nan : lane.key (x c) = none) (a b : Fin n) (left : lane.key (x a) ≠ none)
    (right : lane.key (x b) ≠ none) : a = b := by
  have apart := weak.incomp_trans a c b (by simp [cmp_nan, nan]) (by simp [cmp_nan, nan])
  obtain ⟨v, left⟩ := Option.ne_none_iff_exists'.mp left
  obtain ⟨w, right⟩ := Option.ne_none_iff_exists'.mp right
  rw [cmp_numbers left right, cmp_numbers right left] at apart
  exact congrArg (fun p : WithTop Int ×ₗ Fin n => (ofLex p).2)
    (le_antisymm (not_lt.mp apart.2) (not_lt.mp apart.1))

/-- **A slice is ranked exactly without a NaN**, or where there is nothing to tell apart. -/
theorem sliceExact_iff (kept : k ≤ n) : SliceExact lane largest x k ↔ Rankable lane x k := by
  constructor
  · rintro ⟨weak, first⟩
    by_cases numbers : ∀ i, lane.key (x i) ≠ none
    · exact .inl numbers
    · obtain ⟨c, nan⟩ := not_forall.mp numbers
      have alone := alone_of_nan weak (not_not.mp nan)
      rcases Nat.lt_or_ge 1 n with many | few
      · refine .inr (.inr ⟨?_, alone⟩)
        by_contra taken
        -- Nothing is ordered, so the first two places may as well be exchanged.
        let zero : Fin n := ⟨0, by omega⟩
        let one : Fin n := ⟨1, many⟩
        have loose : ∀ idx : Equiv.Perm (Fin n),
            Allowed (fun a b => cmp lane largest x a b) k idx := fun idx _ =>
          ⟨idx.bijective, fun i j _ _ => by simp [cmp_alone alone]⟩
        have here := first _ (loose (Equiv.refl _)) zero (by simp [zero]; omega)
        have there := first _ (loose (Equiv.swap zero one)) zero (by simp [zero]; omega)
        rw [Equiv.swap_apply_left] at there
        have same : one = zero := there.trans here.symm
        simp [one, zero] at same
      · exact .inr (.inl few)
  · rintro (numbers | few | ⟨rfl, alone⟩)
    · have rule : ∀ a b, cmp lane largest x a b = true ↔
          toLex (rank lane largest x a, a) < toLex (rank lane largest x b, b) := by
        intro a b
        obtain ⟨v, left⟩ := Option.ne_none_iff_exists'.mp (numbers a)
        obtain ⟨w, right⟩ := Option.ne_none_iff_exists'.mp (numbers b)
        exact cmp_numbers left right
      have weak := strictWeak_of_key rule
      exact ⟨weak, fun idx allowed j small => (allowed weak).eq_sort rule j small⟩
    · have alone : ∀ a b : Fin n, a = b := fun a b => Fin.ext (by omega)
      refine ⟨strictWeak_of_false fun a b => ?_, fun idx _ j _ => alone _ _⟩
      simp [cmp_alone fun a b _ _ => alone a b]
    · refine ⟨strictWeak_of_false fun a b => ?_, fun idx _ j small => absurd small (by omega)⟩
      simp [cmp_alone alone]

end Slice

/-! ## The tensor -/

/-- Slices along an axis: how many, how long, and how many places are taken of each. -/
structure Slices where
  outer : Nat
  dim : Nat
  inner : Nat
  k : Nat
  kept : k ≤ dim

def clampAxis (axis : Int) (rank : Nat) : Nat := (max 0 (min (axisOf axis rank) (rank - 1))).toNat

/-- How many are asked for: an attribute, or else an operand. -/
def requested (attr operand : Option Int) : Int := attr.getD (operand.getD (-1))

/-- The slices of a tensor; one without axes has none. -/
def slices (shape : List Nat) (axis : Int) (attr operand : Option Int) : Slices :=
  if shape = [] then ⟨0, 0, 0, 0, Nat.le_refl 0⟩
  else
    let axis := clampAxis axis shape.length
    let dim := shape.getD axis 0
    ⟨(shape.take axis).prod, dim, (shape.drop (axis + 1)).prod,
      (max 0 (min (requested attr operand) dim)).toNat, by omega⟩

namespace Slices

variable (s : Slices)

def slice (x : Nat → α) (o i : Nat) (a : Fin s.dim) : α := x (o * s.dim * s.inner + i + a * s.inner)

/-- Where the outputs hold what was taken from a slice. -/
def place (o i j : Nat) : Nat := o * s.k * s.inner + i + j * s.inner

def stored (zero : β) (value : Nat → Nat → Nat → β) : List β :=
  (List.range s.outer).foldl (fun y o => (List.range s.inner).foldl (fun y i =>
    (List.range s.k).foldl (fun y j => y.set (s.place o i j) (value o i j)) y) y)
    (List.replicate (s.outer * (s.k * s.inner)) zero)

/-- A place that the partial sort came out with. -/
def entry {n : Nat} (idx : Fin n → Fin n) (j : Nat) : Nat :=
  if small : j < n then idx ⟨j, small⟩ else 0

/-- The values and the places, given what the partial sort made of each slice. -/
def topK (zero : α) (x : Nat → α) (sorts : Nat → Nat → Fin s.dim → Fin s.dim) : List α × List Nat :=
  (s.stored zero fun o i j => x (o * s.dim * s.inner + i + entry (sorts o i) j * s.inner),
    s.stored 0 fun o i j => entry (sorts o i) j)

variable {s}

theorem getElem?_stored (zero : β) (value : Nat → Nat → Nat → β) {o i j : Nat} (row : o < s.outer)
    (column : i < s.inner) (small : j < s.k) :
    (s.stored zero value)[s.place o i j]? = some (value o i j) := by
  have place : ∀ o i j, s.place o i j = o * (s.k * s.inner) + (j * s.inner + i) := by
    intro o i j
    rw [place, Nat.mul_assoc]
    omega
  have inside : ∀ {i j}, i < s.inner → j < s.k → j * s.inner + i < s.k * s.inner := by
    intro i j column small
    calc j * s.inner + i < (j + 1) * s.inner := by rw [Nat.succ_mul]; omega
      _ ≤ s.k * s.inner := Nat.mul_le_mul_right _ small
  let rows (o : Nat) : List (Write β) := (List.range s.inner).flatMap fun i =>
    (List.range s.k).map fun j => Write.put (j * s.inner + i) (value o i j)
  have writes : s.stored zero value = run ((List.range s.outer).flatMap fun o =>
      (rows o).map fun w => ⟨o * (s.k * s.inner) + w.cell, w.change⟩)
      (List.replicate (s.outer * (s.k * s.inner)) zero) := by
    simp only [stored, foldl_set, foldl_run, place, rows, map_flatMap, map_map]
    rfl
  have held : o * (s.k * s.inner) + (j * s.inner + i) < s.outer * (s.k * s.inner) := by
    calc _ < (o + 1) * (s.k * s.inner) := by rw [Nat.succ_mul]; have := inside column small; omega
      _ ≤ _ := Nat.mul_le_mul_right _ row
  have settled_here := getElem?_columns s.k s.inner (fun j i => value o i j)
    (length_replicate (a := zero)) small column
  rw [getElem?_run, getElem?_replicate, if_pos (inside column small), Option.map_some] at settled_here
  rw [writes, place, getElem?_run, getElem?_replicate, if_pos held, Option.map_some,
    settled_row row (inside column small)]
  · exact settled_here
  · intro y _ w listed
    obtain ⟨i, column, listed⟩ := mem_flatMap.mp listed
    obtain ⟨j, small, rfl⟩ := mem_map.mp listed
    exact inside (mem_range.mp column) (mem_range.mp small)

def before (s : Slices) (lane : Lane α) (largest : Bool) (x : Nat → α) (o i : Nat)
    (a b : Fin s.dim) : Prop := cmp lane largest (s.slice x o i) a b

/-- Every slice is ranked, whatever the partial sort may do: its comparator is a strict weak order,
and the outputs hold the first values of the sorted slice and their places. -/
def Exact (s : Slices) (lane : Lane α) (largest : Bool) (zero : α) (x : Nat → α) : Prop :=
  ∀ sorts, (∀ o i, Allowed (s.before lane largest x o i) s.k (sorts o i)) →
    ∀ o < s.outer, ∀ i < s.inner, IsStrictWeakOrder (Fin s.dim) (s.before lane largest x o i) ∧
      ∀ (j : Nat) (small : j < s.k),
        let a := order lane largest (s.slice x o i) ⟨j, small.trans_le s.kept⟩
        (s.topK zero x sorts).1[s.place o i j]? = some (s.slice x o i a) ∧
          (s.topK zero x sorts).2[s.place o i j]? = some (a : Nat)

variable {largest : Bool} {zero : α} {x : Nat → α}

theorem exact_iff_slices : s.Exact lane largest zero x ↔
    ∀ o < s.outer, ∀ i < s.inner, SliceExact lane largest (s.slice x o i) s.k := by
  constructor
  · intro exact_ o row i column
    choose rest allowed using fun o i => exists_allowed (s.before lane largest x o i) s.k
    refine ⟨(exact_ rest allowed o row i column).1, fun idx fine j small => ?_⟩
    let sorts (o' i' : Nat) := if o' = o ∧ i' = i then idx else rest o' i'
    have all : ∀ o i, Allowed (s.before lane largest x o i) s.k (sorts o i) := by
      intro o' i'
      by_cases here : o' = o ∧ i' = i
      · obtain ⟨rfl, rfl⟩ := here
        change Allowed _ s.k (if o' = o' ∧ i' = i' then idx else _)
        rwa [if_pos ⟨rfl, rfl⟩]
      · simpa [sorts, here] using allowed o' i'
    have taken := ((exact_ sorts all o row i column).2 j small).2
    rw [topK, getElem?_stored _ _ row column small, Option.some.injEq, entry, dif_pos j.isLt] at taken
    exact Fin.ext (by simpa [sorts] using taken)
  · intro each sorts allowed o row i column
    obtain ⟨weak, first⟩ := each o row i column
    refine ⟨weak, fun j small => ?_⟩
    have here := first _ (allowed o i) ⟨j, small.trans_le s.kept⟩ small
    rw [topK, getElem?_stored _ _ row column small, getElem?_stored _ _ row column small, entry,
      dif_pos (small.trans_le s.kept), here]
    exact ⟨rfl, rfl⟩

end Slices

/-- **The first few of every slice** come out in order exactly if no slice holds a NaN, or the
NaNs make no difference: there is nothing to rank, or nothing is taken. -/
theorem topK_exact_iff (largest : Bool) (zero : α) (shape : List Nat) (axis : Int)
    (attr operand : Option Int) (x : Nat → α) :
    let s := slices shape axis attr operand
    s.Exact lane largest zero x ↔
      ∀ o < s.outer, ∀ i < s.inner, Rankable lane (s.slice x o i) s.k := by
  intro s
  rw [Slices.exact_iff_slices]
  exact forall₄_congr fun o _ i _ => sliceExact_iff s.kept

/-- 1, a NaN and 2: the comparator holds 1 and 2 for equal to the NaN, but not to each other. -/
theorem topK_nan_unranked : ¬ (slices [3] (-1) (some 1) none).Exact float32 true ⟨0⟩
    (fun i => [⟨0x3F800000⟩, ⟨0x7FC00000⟩, ⟨0x40000000⟩].getD i ⟨0⟩) := by
  rw [Slices.exact_iff_slices]
  intro each
  rcases (sliceExact_iff (by decide)).mp (each 0 (by decide) 0 (by decide)) with
    numbers | few | ⟨nothing, -⟩
  · exact numbers ⟨1, by decide⟩ (by decide)
  · exact absurd few (by decide)
  · exact absurd nothing (by decide)

end Vknn.Cpu.TopK
