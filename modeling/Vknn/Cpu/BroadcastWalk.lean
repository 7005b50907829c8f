import Vknn.Lib.Broadcast

/-!
# Walking a broadcast shape

An element-by-element operator goes through its output in row-major order and keeps, for each
operand, the offset of the element to read.  The walk starts by decoding a position from the last
axis on; each step adds the stride of the last axis and carries over the axes that are full, the
way an odometer does.

Wherever the walk is started, and however often it is stepped, its offsets are those of the
coordinates of the position reached.
-/

namespace Vknn.Cpu

open List RowMajor

variable {n : Nat}

/-- A walk over a shape, with the strides, the offset and the coordinates of its `n` operands. -/
structure BroadcastWalk (n : Nat) where
  dims : List Int
  str : Fin n → List Int
  off : Fin n → Int
  coord : List Int

/-- The last axes are decoded first.  An empty axis is passed over. -/
def seekAxes : List Int → (Fin n → List Int) → Int → Int × (Fin n → Int) × List Int
  | [], _, lin => (lin, fun _ => 0, [])
  | d :: dims, str, lin =>
    let (lin, off, coord) := seekAxes dims (fun k => (str k).tail) lin
    if d ≤ 0 then (lin, off, 0 :: coord)
    else (lin / d, fun k => off k + lin % d * (str k).headD 0, lin % d :: coord)

/-- The last axes are stepped first; the flag says that all of them were full. -/
def nextAxes : List Int → (Fin n → List Int) → (Fin n → Int) → List Int →
    Bool × (Fin n → Int) × List Int
  | d :: dims, str, off, c :: coord =>
    match nextAxes dims (fun k => (str k).tail) off coord with
    | (false, off, coord) => (false, off, c :: coord)
    | (true, off, coord) =>
      let off k := off k + (str k).headD 0
      if c + 1 < d then (false, off, (c + 1) :: coord)
      else (true, fun k => off k - (str k).headD 0 * d, 0 :: coord)
  | _, _, off, coord => (true, off, coord)

namespace BroadcastWalk

def seek (w : BroadcastWalk n) (lin : Int) : BroadcastWalk n :=
  let (_, off, coord) := seekAxes w.dims w.str lin
  { w with off, coord }

def next (w : BroadcastWalk n) : BroadcastWalk n :=
  let (_, off, coord) := nextAxes w.dims w.str w.off w.coord
  { w with off, coord }

def offset (w : BroadcastWalk n) (k : Fin n) : Int := w.off k

@[simp] theorem next_dims (w : BroadcastWalk n) : w.next.dims = w.dims := rfl
@[simp] theorem next_str (w : BroadcastWalk n) : w.next.str = w.str := rfl

end BroadcastWalk

variable {dims cs : List Int}

theorem dot_cons (c : Int) (cs vs : List Int) :
    dot (c :: cs) vs = c * vs.headD 0 + dot cs vs.tail := by
  cases vs with
  | nil => cases cs <;> simp [dot]
  | cons v vs => rfl

/-- A position is whole arrays and the position of coordinates: its first digit, and the rest. -/
theorem position_cons {c d : Int} (here : 0 ≤ c ∧ c < d) (q : Int) (dims cs : List Int) :
    q * size (d :: dims) + flat (d :: dims) (c :: cs) = (q * d + c) * size dims + flat dims cs ∧
      (q * d + c) / d = q ∧ (q * d + c) % d = c := by
  refine ⟨?_, ?_, ?_⟩
  · rw [size, flat_cons]
    ring
  · rw [Int.add_comm, Int.add_mul_ediv_right _ _ (by omega),
      Int.ediv_eq_zero_of_lt here.1 here.2, Int.zero_add]
  · rw [Int.add_comm, Int.add_mul_emod_self_right, Int.emod_eq_of_lt here.1 here.2]

/-- **Seeking the position of coordinates** finds them. -/
theorem seekAxes_flat (inside : Inside cs dims) (str : Fin n → List Int) (q : Int) :
    seekAxes dims str (q * size dims + flat dims cs) = (q, fun k => dot cs (str k), cs) := by
  induction inside generalizing str q with
  | nil => simp [seekAxes, size, flat, dot]
  | @cons c d cs dims here rest ih =>
    obtain ⟨position, quotient, digit⟩ := position_cons here q dims cs
    rw [position, seekAxes, ih]
    simp only [if_neg (show ¬d ≤ 0 by omega), quotient, digit, dot_cons]
    simp only [Int.add_comm]

/-- What unravelling a position gives: the digit of each axis, times the stride of the operand. -/
def unraveled : List Int → List Int → Int → Int
  | d :: out, v :: vs, lin => lin / size out % d * v + unraveled out vs lin
  | _, _, _ => 0

theorem unraveled_flat (inside : Inside cs dims) (vs : List Int) (q : Int) :
    unraveled dims vs (q * size dims + flat dims cs) = dot cs vs := by
  induction inside generalizing vs q with
  | nil => rfl
  | @cons c d cs dims here rest ih =>
    cases vs with
    | nil => rfl
    | cons v vs =>
      obtain ⟨position, -, digit⟩ := position_cons here q dims cs
      obtain ⟨low, high⟩ := flat_inside rest
      rw [unraveled, position, ih, Int.add_comm (_ * _) (flat dims cs),
        Int.add_mul_ediv_right _ _ (by omega), Int.ediv_eq_zero_of_lt low high,
        Int.zero_add, digit, dot]

/-- **A step goes to the next position**, or, where all axes are full, back to the first one. -/
theorem nextAxes_flat (inside : Inside cs dims) (str : Fin n → List Int) (off : Fin n → Int) :
    ∃ full cs', nextAxes dims str off cs =
        (full, fun k => off k + (dot cs' (str k) - dot cs (str k)), cs') ∧
      Inside cs' dims ∧
      flat dims cs' + (if full then size dims else 0) = flat dims cs + 1 := by
  induction inside generalizing str with
  | nil => exact ⟨true, [], by simp [nextAxes], .nil, rfl⟩
  | @cons c d cs dims here rest ih =>
    obtain ⟨full, cs', stepped, inside', position⟩ := ih fun k => (str k).tail
    rw [nextAxes, stepped]
    cases full with
    | false =>
      refine ⟨false, c :: cs', ?_, .cons here inside', ?_⟩
      · simp only [dot_cons, Int.add_sub_add_left]
      · rw [flat_cons, flat_cons, if_neg Bool.false_ne_true]
        rw [if_neg Bool.false_ne_true] at position
        omega
    | true =>
      rw [if_pos rfl] at position
      by_cases room : c + 1 < d
      · refine ⟨false, (c + 1) :: cs', ?_, .cons ⟨by omega, room⟩ inside', ?_⟩
        · simp only [if_pos room, dot_cons, Prod.mk.injEq, true_and, and_true]
          funext k
          ring
        · rw [flat_cons, flat_cons, if_neg Bool.false_ne_true, Int.add_mul]
          omega
      · obtain rfl : d = c + 1 := by omega
        refine ⟨true, 0 :: cs', ?_, .cons ⟨le_rfl, by omega⟩ inside', ?_⟩
        · simp only [if_neg room, dot_cons, Prod.mk.injEq, true_and, and_true]
          funext k
          ring
        · rw [flat_cons, flat_cons, if_pos rfl, size, Int.add_mul]
          omega

namespace BroadcastWalk

/-- The walk is at the position of coordinates, with their offsets. -/
structure At (w : BroadcastWalk n) (cs : List Int) : Prop where
  inside : Inside cs w.dims
  coord : w.coord = cs
  off : ∀ k, w.offset k = dot cs (w.str k)

theorem at_seek (w : BroadcastWalk n) (inside : Inside cs w.dims) :
    (w.seek (flat w.dims cs)).At cs := by
  have sought := seekAxes_flat inside w.str 0
  rw [Int.zero_mul, Int.zero_add] at sought
  refine ⟨inside, ?_, fun k => ?_⟩
  · rw [seek, sought]
  · rw [offset, seek, sought]

theorem At.next {w : BroadcastWalk n} (here : w.At cs) (more : flat w.dims cs + 1 < size w.dims) :
    ∃ cs', w.next.At cs' ∧ flat w.dims cs' = flat w.dims cs + 1 := by
  obtain ⟨full, cs', stepped, inside, position⟩ := nextAxes_flat here.inside w.str w.off
  cases full with
  | true =>
    have low := (flat_inside inside).1
    rw [if_pos rfl] at position
    omega
  | false =>
    rw [← here.coord] at stepped
    refine ⟨cs', ⟨inside, ?_, fun k => ?_⟩, by simpa using position⟩
    · rw [BroadcastWalk.next, stepped]
    · have before := here.off k
      rw [offset] at before
      rw [offset, BroadcastWalk.next, stepped]
      simp only [before, here.coord]
      omega

/-- A run from a position inside stays inside for as long as there are elements. -/
theorem at_run (w : BroadcastWalk n) (extents : ∀ d ∈ w.dims, 0 ≤ d) {a : Int} (low : 0 ≤ a)
    (k : Nat) (below : a + k < size w.dims) :
    (next^[k] (w.seek a)).dims = w.dims ∧ (next^[k] (w.seek a)).str = w.str ∧
      ∃ cs, (next^[k] (w.seek a)).At cs ∧ flat w.dims cs = a + k := by
  induction k with
  | zero =>
    have positive := positive_of_size_pos extents (by omega)
    obtain ⟨cs, inside, rfl⟩ := exists_coords positive low (by omega)
    exact ⟨rfl, rfl, cs, w.at_seek inside, by simp⟩
  | succ k ih =>
    obtain ⟨dims, str, cs, here, position⟩ := ih (by omega)
    rw [Function.iterate_succ_apply', next_dims, next_str]
    obtain ⟨cs', there, next⟩ := here.next (by rw [dims]; omega)
    rw [dims] at next
    exact ⟨dims, str, cs', there, by omega⟩

/-- **Wherever the walk is started, and however often it is stepped**, the offset of each operand
is what unravelling the position reached gives. -/
theorem offset_next_seek (w : BroadcastWalk n) (extents : ∀ d ∈ w.dims, 0 ≤ d) (a k : Nat)
    (below : (a : Int) + k < size w.dims) (i : Fin n) :
    (next^[k] (w.seek a)).offset i = unraveled w.dims (w.str i) (a + k) := by
  obtain ⟨-, str, cs, here, position⟩ := w.at_run extents a.cast_nonneg k below
  have inside := here.inside
  rw [w.at_run extents a.cast_nonneg k below |>.1] at inside
  have digits := unraveled_flat inside (w.str i) 0
  rw [Int.zero_mul, Int.zero_add, position] at digits
  rw [here.off, str, digits]

theorem offset_next_seek_carried : let w : BroadcastWalk 2 :=
      ⟨[2, 3], fun i => if i = 0 then [0, 1] else [1, 0], fun _ => 0, [0, 0]⟩
    (next^[3] (w.seek 1)).offset 1 = unraveled w.dims (w.str 1) ((1 : Nat) + (3 : Nat)) ∧
      unraveled w.dims (w.str 1) 4 = 1 :=
  ⟨offset_next_seek _ (by decide) 1 3 (by decide) 1, by decide⟩

/-- **The walk reads where broadcasting says, and inside the operand**, if the operand's shape goes
together with another to that of the walk, and its strides are its own, zero along its axes of one
position. -/
theorem offset_broadcast (w : BroadcastWalk n) (extents : ∀ d ∈ w.dims, 0 ≤ d) (a k : Nat)
    (below : (a : Int) + k < size w.dims) {i : Fin n} {s t : List Int} (low : ∀ d ∈ s, 0 ≤ d)
    (joined : Broadcast.shape s t = some w.dims ∨ Broadcast.shape t s = some w.dims)
    (own : w.str i = Broadcast.zeroed (Broadcast.padded w.dims.length s)) :
    (next^[k] (w.seek a)).offset i = Broadcast.offset w.dims s (a + k) ∧
      0 ≤ (next^[k] (w.seek a)).offset i ∧ (next^[k] (w.seek a)).offset i < size s := by
  have fits : Broadcast.Fits s w.dims := Broadcast.fits_of_shape low
    (joined.elim id ((Broadcast.shape_comm s t).trans ·))
  have positive := positive_of_size_pos extents (by omega)
  have read : (next^[k] (w.seek a)).offset i = Broadcast.offset w.dims s (a + k) := by
    obtain ⟨dims, str, cs, here, position⟩ := w.at_run extents a.cast_nonneg k below
    have inside := dims ▸ here.inside
    rw [here.off, str, own, ← position, Broadcast.offset, unwind_zip inside]
    rw [Broadcast.length_zeroed, Broadcast.length_padded fits.rank]
  rw [read]
  exact ⟨rfl, Broadcast.offset_inside fits positive (by omega) below⟩

theorem offset_broadcast_row : let w : BroadcastWalk 1 :=
      ⟨[2, 3], fun _ => [0, 1], fun _ => 0, [0, 0]⟩
    (next^[3] (w.seek 1)).offset 0 = Broadcast.offset w.dims [3] ((1 : Nat) + (3 : Nat)) ∧
      0 ≤ (next^[3] (w.seek 1)).offset 0 ∧ (next^[3] (w.seek 1)).offset 0 < size [3] :=
  @offset_broadcast 1 _ (by decide) 1 3 (by decide) 0 [3] [2, 1] (by decide) (.inl rfl) rfl

end BroadcastWalk

end Vknn.Cpu
