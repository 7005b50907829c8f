import Vknn.Cpu.Gemm
import Vknn.Cpu.Storage
import Vknn.Lib.Broadcast

/-!
# Element by element, and along axes

The kernels here combine two tensors element by element after broadcasting, apply a function to
every element, and take means along axes.

Elements are those of a field, so that nothing is rounded.  What the kernels need beside the
operations of a field is an arithmetic of its own.  Element types are not looked at.
-/

namespace Vknn.Cpu

open RowMajor Broadcast List Int
open Gemm (Held)

variable {R : Type} {s : Shape} {F F' : Int → R}

/-! ## Tables -/

/-- A tensor of a shape, position by position. -/
def tabulated (s : Shape) (F : Int → R) : Held R :=
  ⟨s, (List.range (size s).toNat).map fun (i : Nat) => F i⟩

@[simp] theorem shape_tabulated : (tabulated s F).shape = s := rfl

def mapped (f : R → R) (X : Held R) : Held R := ⟨X.shape, X.elems.map f⟩

/-- A tensor whose dimensions are not negative and that has as many elements as they say. -/
structure Sized (X : Held R) : Prop where
  dims : ∀ d ∈ X.shape, 0 ≤ d
  count : X.elems.length = (size X.shape).toNat

theorem tabulated_congr (same : ∀ i, 0 ≤ i → i < size s → F i = F' i) :
    tabulated s F = tabulated s F' := by
  refine congrArg (Held.mk s) (map_congr_left fun i mem => ?_)
  have small := mem_range.mp mem
  exact same i (natCast_nonneg i) (by omega)

theorem sized_tabulated (low : ∀ d ∈ s, 0 ≤ d) : Sized (tabulated s F) := ⟨low, by simp [tabulated]⟩

@[simp] theorem mapped_tabulated (f : R → R) : mapped f (tabulated s F) = tabulated s fun i => f (F i) := by
  rw [mapped, tabulated, tabulated, map_map]
  rfl

theorem positive_of_inside (low : ∀ d ∈ s, 0 ≤ d) {i : Int} (least : 0 ≤ i) (high : i < size s) :
    ∀ d ∈ s, 0 < d :=
  positive_of_size_pos low (lt_of_le_of_lt least high)

/-- A tensor of a single element. -/
structure Single (U : Held R) (v : R) : Prop where
  units : ∀ d ∈ U.shape, d = 1
  elems : U.elems = [v]

theorem size_of_units (units : ∀ d ∈ s, d = 1) : size s = 1 := by
  rw [eq_replicate_of_mem units, size_units]

variable {U X : Held R} {v : R}

/-- One element, and no negative dimension: every dimension is one. -/
theorem single_of_elems (sized : Sized U) (one : U.elems = [v]) : Single U v := by
  have count := sized.count
  rw [one, length_singleton] at count
  have whole : size U.shape = 1 := by omega
  refine ⟨?_, one⟩
  have low := sized.dims
  clear count one sized
  generalize U.shape = s at low whole
  induction s with
  | nil => exact fun d mem => absurd mem not_mem_nil
  | cons d s ih =>
    rw [size] at whole
    have rest := fun x mem => low x (mem_cons_of_mem d mem)
    have first := eq_one_of_mul_eq_one_right (low d mem_cons_self) whole
    rw [first, Int.one_mul] at whole
    intro x mem
    rcases mem_cons.mp mem with rfl | later
    · exact first
    · exact ih rest whole x later

theorem Single.sized (single : Single U v) : Sized U := by
  refine ⟨fun d mem => ?_, ?_⟩
  · rw [single.units d mem]
    exact Int.one_nonneg
  · rw [single.elems, size_of_units single.units]
    rfl

theorem Single.mapped (single : Single U v) (f : R → R) : Single (mapped f U) (f v) := by
  refine ⟨single.units, ?_⟩
  rw [Cpu.mapped, single.elems]
  rfl

/-! ## The kernels -/

/-- What kernels use beside the operations of a field. -/
structure Arithmetic (R : Type) where
  number : Float32Bits → R
  sqrt : R → R
  pow : R → R → R
  max : R → R → R
  min : R → R → R
  unary : Int → Float32Bits → Float32Bits → R → R
  act : ActType → Float32Bits → Float32Bits → R → R
  ints : List R → List Int

def binaryMul : Int := 0
def binaryDiv : Int := 2
def unarySqrt : Int := 10
def unaryReciprocal : Int := 18

variable [Field R] (ar : Arithmetic R)

/-- Two elements combined; what is none of the other operations is a sum. -/
def binaryLane (op : Int) (a b : R) : R :=
  if op = binaryMul then a * b
  else if op = 1 then a - b
  else if op = binaryDiv then a / b
  else if op = 3 then ar.max a b
  else if op = 4 then ar.min a b
  else if op = binaryPow then ar.pow a b
  else a + b

def unaryLane (op : Int) (lo hi : Float32Bits) (a : R) : R :=
  if op = unarySqrt then ar.sqrt a
  else if op = unaryReciprocal then 1 / a
  else ar.unary op lo hi a

/-- Combine two tensors; nothing where they do not broadcast. -/
def elementwise (f : R → R → R) (X Y : Held R) : Option (Held R) :=
  (Broadcast.shape X.shape Y.shape).map fun out => tabulated out fun i =>
    f (readAt 0 X.elems (offset out X.shape i)) (readAt 0 Y.elems (offset out Y.shape i))

/-- Whether an axis is one of those that are reduced; a negative one counts from the end, and
without any all are. -/
def reduces (axes : List Int) (rank i : Nat) : Bool :=
  axes.isEmpty || (axes.map fun (a : Int) => if a < 0 then a + (rank : Int) else a).contains (i : Int)

def keptAxes (axes : List Int) (rank : Nat) : List Nat :=
  (List.range rank).filter fun i => !reduces axes rank i

def reducedShape (axes : List Int) (keep : Bool) (s : Shape) : Shape :=
  let out := (List.range s.length).filterMap fun i =>
    if reduces axes s.length i then if keep then some 1 else none else some (s.getD i 0)
  if out = [] then [1] else out

/-- Where the element at a position is added. -/
def bin (axes : List Int) (s : Shape) (i : Int) : Int :=
  let kept := keptAxes axes s.length
  ((kept.zip (strides (kept.map fun k => s.getD k 0))).map fun k =>
    i / (strides s).getD k.1 1 % s.getD k.1 0 * k.2).sum

/-- Means along axes; nothing is divided where nothing was added. -/
def meanAlong (axes : List Int) (keep : Bool) (X : Held R) : Held R :=
  tabulated (reducedShape axes keep X.shape) fun o =>
    let members := (Finset.range (size X.shape).toNat).filter fun (i : Nat) => bin axes X.shape i = o
    if members.card = 0 then ∑ i ∈ members, readAt 0 X.elems (i : Nat)
    else (∑ i ∈ members, readAt 0 X.elems (i : Nat)) / members.card

/-! ## Reading tables -/

variable {ar}

theorem readAt_tabulated {i : Int} (low : 0 ≤ i) (high : i < size s) :
    readAt 0 (tabulated s F).elems i = F i := by
  obtain ⟨k, rfl⟩ := eq_ofNat_of_zero_le low
  have small : k < (size s).toNat := by omega
  rw [readAt, if_pos low, tabulated, getD_eq_getElem?_getD, getElem?_map, toNat_natCast,
    getElem?_range small]
  rfl

theorem Sized.eq_tabulated (sized : Sized X) : X = tabulated X.shape (readAt 0 X.elems) := by
  obtain ⟨shape, elems⟩ := X
  refine congrArg (Held.mk shape) (ext_getElem ?_ fun i small small' => ?_)
  · rw [length_map, length_range]
    exact sized.count
  · rw [getElem_map, getElem_range, readAt, if_pos (natCast_nonneg i),
      toNat_natCast, getD_eq_getElem?_getD, getElem?_eq_getElem small, Option.getD_some]

/-! ## Operands that fit -/

theorem elementwise_comm {f : R → R → R} (commutes : ∀ a b, f a b = f b a) (X Y : Held R) :
    elementwise f X Y = elementwise f Y X := by
  rw [elementwise, elementwise, Broadcast.shape_comm]
  congr 1
  funext out
  exact congrArg (tabulated out) (funext fun i => commutes _ _)

/-- **An operand that fits** is read along strides of its own, the other one where the result is. -/
theorem elementwise_of_fits {Y : Held R} (sized : Sized X) (fits : Fits Y.shape X.shape)
    (f : R → R → R) :
    elementwise f X Y = some (tabulated X.shape fun i =>
      f (readAt 0 X.elems i) (readAt 0 Y.elems (offset X.shape Y.shape i))) ∧
    elementwise f Y X = some (tabulated X.shape fun i =>
      f (readAt 0 Y.elems (offset X.shape Y.shape i)) (readAt 0 X.elems i)) := by
  obtain ⟨left, right⟩ := shape_of_fits sized.dims fits
  have same : ∀ i, 0 ≤ i → i < size X.shape → offset X.shape X.shape i = i := fun i low high =>
    offset_self (positive_of_inside sized.dims low high) low high
  rw [elementwise, elementwise, left, right]
  refine ⟨congrArg some (tabulated_congr fun i low high => ?_),
    congrArg some (tabulated_congr fun i low high => ?_)⟩
  · rw [same i low high]
  · rw [same i low high]

theorem Single.readAt_zero (single : Single U v) : readAt 0 U.elems 0 = v := by
  rw [single.elems]
  rfl

/-- A single element is combined with every element. -/
theorem elementwise_single (sized : Sized X) (single : Single U v)
    (rank : U.shape.length ≤ X.shape.length) (f : R → R → R) :
    elementwise f X U = some (tabulated X.shape fun i => f (readAt 0 X.elems i) v) ∧
    elementwise f U X = some (tabulated X.shape fun i => f v (readAt 0 X.elems i)) := by
  obtain ⟨left, right⟩ := elementwise_of_fits sized (fits_units single.units rank) f
  have here : ∀ i, 0 ≤ i → i < size X.shape → readAt 0 U.elems (offset X.shape U.shape i) = v := by
    intro i low high
    rw [offset_units single.units rank (positive_of_inside sized.dims low high) low high,
      single.readAt_zero]
  rw [left, right]
  refine ⟨congrArg some (tabulated_congr fun i low high => ?_),
    congrArg some (tabulated_congr fun i low high => ?_)⟩
  · rw [here i low high]
  · rw [here i low high]

/-- Two single elements are combined to one, with as many axes as the two have at most. -/
theorem single_elementwise {W : Held R} {w : R} (first : Single U v) (second : Single W w)
    (f : R → R → R) : ∃ Z, elementwise f U W = some Z ∧ Single Z (f v w) ∧
      Z.shape.length = max U.shape.length W.shape.length := by
  have table : ∀ {s : Shape}, (∀ d ∈ s, d = 1) → ∀ F : Int → R, Single (tabulated s F) (F 0) := by
    intro s units F
    refine ⟨units, ?_⟩
    rw [tabulated, size_of_units units]
    rfl
  rcases Nat.le_total W.shape.length U.shape.length with less | more
  · refine ⟨_, (elementwise_single first.sized second less f).1, ?_, (Nat.max_eq_left less).symm⟩
    rw [← first.readAt_zero]
    exact table first.units _
  · refine ⟨_, (elementwise_single second.sized first more f).2, ?_, (Nat.max_eq_right more).symm⟩
    rw [← second.readAt_zero]
    exact table second.units _

end Vknn.Cpu
