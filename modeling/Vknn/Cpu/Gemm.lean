import Mathlib.Algebra.BigOperators.Fin
import Vknn.Cpu.Movement
import Vknn.Cpu.ParallelRuns

/-!
# The matrix product with a bias

The rows of the product are shared out between threads.  Where the first operand is read as
it is stored and the second one transposed, both rows of a dot product are contiguous, and a
build with vector instructions adds up four lanes side by side.  The bias is looked up by
the number of its elements alone: as many as the product has columns, and the column picks
one; otherwise the position in the product, modulo that number.  This finds the element of
the broadcast for every shape but two: a column of several elements beside several columns,
and a scalar of rank 0, which counts no elements.

Elements are those of a field, so that sums have no rounding.
-/

namespace Vknn.Cpu.Gemm

open Parallel Ranges List

/-- A tensor in host memory. -/
structure Held (R : Type) where
  shape : Shape
  elems : List R

/-- The attributes, with their defaults. -/
structure Params (R : Type) [One R] where
  alpha : R := 1
  beta : R := 1
  transA : Int := 0
  transB : Int := 0

variable {R : Type} [Field R]

/-! ## The kernel -/

section Kernel

variable (neon : Bool) (p : Params R) (A Bt : Held R) (C : Option (Held R))

def extentM : Int := if p.transA ≠ 0 then A.shape.getD 1 0 else A.shape.getD 0 0
def extentK : Int := if p.transA ≠ 0 then A.shape.getD 0 0 else A.shape.getD 1 0
def extentN : Int := if p.transB ≠ 0 then Bt.shape.getD 0 0 else Bt.shape.getD 1 0

def term (m n k : Int) : R :=
  (if p.transA ≠ 0 then readAt 0 A.elems (k * extentM p A + m)
    else readAt 0 A.elems (m * extentK p A + k)) *
  (if p.transB ≠ 0 then readAt 0 Bt.elems (n * extentK p A + k)
    else readAt 0 Bt.elems (k * extentN p Bt + n))

/-- Four lanes, after some steps of four products each. -/
def lanes (arow brow : Int) (steps : Nat) : R × R × R × R :=
  (List.range steps).foldl (fun v (s : Nat) =>
    let at_ := fun (lane : Int) =>
      readAt 0 A.elems (arow + (4 * s + lane)) * readAt 0 Bt.elems (brow + (4 * s + lane))
    (v.1 + at_ 0, v.2.1 + at_ 1, v.2.2.1 + at_ 2, v.2.2.2 + at_ 3)) (0, 0, 0, 0)

/-- The contraction: whole vectors of the rows first where they are contiguous, then the rest. -/
def contraction (m n : Int) : R :=
  let K := extentK p A
  let head : Nat × R :=
    if neon ∧ p.transB ≠ 0 ∧ p.transA = 0 then
      let v := lanes A Bt (m * K) (n * K) (K / 4).toNat
      ((K / 4).toNat, v.1 + v.2.1 + v.2.2.1 + v.2.2.2)
    else (0, 0)
  (points (4 * head.1, K)).foldl (fun acc k => acc + term p A Bt m n k) head.2

/-- What the bias is looked up by: the length of a vector, else the number of elements. -/
def biasCount (bias : Held R) : Int :=
  if bias.shape.length = 1 then bias.shape.getD 0 0 else numElements bias.shape

/-- The bias at a position; there is no remainder by nothing. -/
def biasAt (N : Int) (bias : Held R) (m n : Int) : Option R :=
  let cN := biasCount bias
  if cN = N then some (readAt 0 bias.elems n)
  else if cN = 0 then none
  else some (readAt 0 bias.elems ((m * N + n).tmod cN))

def outputAt (m n : Int) : Option R :=
  let acc := contraction neon p A Bt m n * p.alpha
  match C with
  | none => some acc
  | some bias => (biasAt (extentN p Bt) bias m n).map fun c => acc + p.beta * c

/-- The product: the positions of each chunk of rows, then the fused activation `act`. -/
def gemm (inParallel : Bool) (threads : Int) (act : R → R) : Option (List R) :=
  let M := extentM p A
  let N := extentN p Bt
  let positions :=
    (parallelFor inParallel threads 0 M (minChunkForWork (N * extentK p A))).flatMap fun chunk =>
      (points chunk).flatMap fun m => (points (0, N)).map fun n => (m, n)
  (positions.mapM fun at_ => outputAt neon p A Bt C at_.1 at_.2).map (·.map act)

end Kernel

/-! ## The operator -/

def entry (X : Held R) (i j : Int) : R := readAt 0 X.elems (i * X.shape.getD 1 0 + j)

/-- An element of a matrix or, where it is so marked, of its transpose. -/
def opEntry (trans : Int) (X : Held R) (i j : Int) : R :=
  if trans ≠ 0 then entry X j i else entry X i j

/-- A bias broadcast to a matrix: an axis of size 1 repeats its only element. -/
def broadcast (bias : Held R) (m n : Int) : R :=
  match bias.shape with
  | [] => readAt 0 bias.elems 0
  | [q] => readAt 0 bias.elems (if q = 1 then 0 else n)
  | p :: q :: _ => readAt 0 bias.elems ((if p = 1 then 0 else m) * q + if q = 1 then 0 else n)

/-- The shapes that can be broadcast to an `M` by `N` matrix. -/
def OneWay (M N : Nat) (s : Shape) : Prop :=
  s = [] ∨ s = [1] ∨ s = [(N : Int)] ∨ s = [1, 1] ∨ s = [1, (N : Int)] ∨ s = [(M : Int), 1] ∨
    s = [(M : Int), (N : Int)]

/-- Matrices whose product with a bias is `M` by `N`, over `K` terms. -/
structure Compatible (p : Params R) (A Bt : Held R) (C : Option (Held R)) (M K N : Nat) : Prop where
  left : A.shape = if p.transA ≠ 0 then [(K : Int), (M : Int)] else [(M : Int), (K : Int)]
  right : Bt.shape = if p.transB ≠ 0 then [(N : Int), (K : Int)] else [(K : Int), (N : Int)]
  bias : ∀ c ∈ C, OneWay M N c.shape

def onnxAt (p : Params R) (A Bt : Held R) (C : Option (Held R)) (K : Nat) (m n : Int) : R :=
  p.alpha * (∑ k ∈ Finset.range K, opEntry p.transA A m k * opEntry p.transB Bt k n) + match C with
    | none => 0
    | some bias => p.beta * broadcast bias m n

/-- The matrix of the operator, row by row. -/
def onnxGemm (p : Params R) (A Bt : Held R) (C : Option (Held R)) (M K N : Nat) : List R :=
  (points (0, M)).flatMap fun m => (points (0, N)).map fun n => onnxAt p A Bt C K m n

/-- A bias that the number of its elements tells enough about: a scalar of rank 0 has no output to
be added to, and a column of several elements beside several columns does not matter or repeats
one element. -/
structure BiasInPlace (beta : R) (M N : Nat) (bias : Held R) : Prop where
  scalar : bias.shape = [] → M = 0 ∨ N = 0
  column : bias.shape = [(M : Int), 1] → 1 < M → 1 < N →
    beta = 0 ∨ ∀ i < M, readAt 0 bias.elems (i : Nat) = readAt 0 bias.elems 0

/-! ## The contraction is a sum -/

theorem foldl_points (f : Int → R) (start : R) {a : Nat} {b : Int} :
    (points (a, b)).foldl (fun acc k => acc + f k) start =
      start + ∑ j ∈ Finset.range (b - a).toNat, f (a + j) := by
  rw [points, foldl_map]
  induction (b - a).toNat with
  | zero => rw [range_zero, foldl_nil, Finset.sum_range_zero, add_zero]
  | succ n ih =>
    rw [range_succ, foldl_append, ih, foldl_cons, foldl_nil, Finset.sum_range_succ, add_assoc]

/-- Four at a time, and one after the other, are the same sum. -/
theorem lanes_sum (A Bt : Held R) (arow brow : Int) (steps : Nat) :
    (lanes A Bt arow brow steps).1 + (lanes A Bt arow brow steps).2.1 +
        (lanes A Bt arow brow steps).2.2.1 + (lanes A Bt arow brow steps).2.2.2 =
      ∑ k ∈ Finset.range (4 * steps),
        readAt 0 A.elems (arow + (k : Nat)) * readAt 0 Bt.elems (brow + (k : Nat)) := by
  induction steps with
  | zero => simp [lanes]
  | succ n ih =>
    have step : lanes A Bt arow brow (n + 1) = ((lanes A Bt arow brow n).1 +
            readAt 0 A.elems (arow + (4 * n + 0)) * readAt 0 Bt.elems (brow + (4 * n + 0)),
          (lanes A Bt arow brow n).2.1 +
            readAt 0 A.elems (arow + (4 * n + 1)) * readAt 0 Bt.elems (brow + (4 * n + 1)),
          (lanes A Bt arow brow n).2.2.1 +
            readAt 0 A.elems (arow + (4 * n + 2)) * readAt 0 Bt.elems (brow + (4 * n + 2)),
          (lanes A Bt arow brow n).2.2.2 +
            readAt 0 A.elems (arow + (4 * n + 3)) * readAt 0 Bt.elems (brow + (4 * n + 3))) := by
      rw [lanes, range_succ, foldl_append, ← lanes]
      rfl
    rw [step, show 4 * (n + 1) = 4 * n + 1 + 1 + 1 + 1 from rfl, Finset.sum_range_succ,
      Finset.sum_range_succ, Finset.sum_range_succ, Finset.sum_range_succ, ← ih]
    push_cast
    simp only [add_zero, add_assoc]
    ring

section Compatible

variable {p : Params R} {A Bt : Held R} {C : Option (Held R)} {M K N : Nat}

theorem Compatible.extents (fits : Compatible p A Bt C M K N) :
    extentM p A = M ∧ extentK p A = K ∧ extentN p Bt = N := by
  unfold extentM extentK extentN
  rw [fits.left, fits.right]
  split_ifs <;> exact ⟨rfl, rfl, rfl⟩

/-- The kernel reads the elements that the operator multiplies. -/
theorem Compatible.term_eq (fits : Compatible p A Bt C M K N) (m n k : Int) :
    term p A Bt m n k = opEntry p.transA A m k * opEntry p.transB Bt k n := by
  obtain ⟨rows, depth, columns⟩ := fits.extents
  rw [term, rows, depth, columns, opEntry, opEntry]
  congr 1
  · by_cases turned : p.transA ≠ 0
    · rw [if_pos turned, if_pos turned, entry, fits.left, if_pos turned]
      rfl
    · rw [if_neg turned, if_neg turned, entry, fits.left, if_neg turned]
      rfl
  · by_cases turned : p.transB ≠ 0
    · rw [if_pos turned, if_pos turned, entry, fits.right, if_pos turned]
      rfl
    · rw [if_neg turned, if_neg turned, entry, fits.right, if_neg turned]
      rfl

/-- **With or without vectors, the contraction is the sum of the products.** -/
theorem Compatible.contraction_eq (fits : Compatible p A Bt C M K N) (neon : Bool) (m n : Int) :
    contraction neon p A Bt m n =
      ∑ k ∈ Finset.range K, opEntry p.transA A m k * opEntry p.transB Bt k n := by
  obtain ⟨rows, depth, columns⟩ := fits.extents
  rw [contraction]
  by_cases fast : neon ∧ p.transB ≠ 0 ∧ p.transA = 0
  · have vectors : ((K : Int) / 4).toNat = K / 4 := by omega
    have rest : ((K : Int) - (4 * (K / 4) : Nat)).toNat = K - 4 * (K / 4) := by omega
    simp only [if_pos fast, depth, vectors]
    rw [show (4 * ((K / 4 : Nat) : Int)) = ((4 * (K / 4) : Nat) : Int) by push_cast; rfl,
      foldl_points, rest, lanes_sum]
    have head : ∀ k : Nat, readAt 0 A.elems (m * K + k) * readAt 0 Bt.elems (n * K + k) =
        opEntry p.transA A m k * opEntry p.transB Bt k n := fun k => by
      rw [← fits.term_eq, term, if_neg (not_not.mpr fast.2.2), if_pos fast.2.1, depth]
    simp only [head, fits.term_eq]
    have split := Finset.sum_range_add (fun k : Nat =>
      opEntry p.transA A m k * opEntry p.transB Bt k n) (4 * (K / 4)) (K - 4 * (K / 4))
    rw [show 4 * (K / 4) + (K - 4 * (K / 4)) = K by omega] at split
    rw [split]
    push_cast
    rfl
  · have none_ : ((0 : Nat) : Int) = 4 * ((0 : Nat) : Int) := by omega
    simp only [if_neg fast, depth, fits.term_eq, ← none_]
    rw [foldl_points, zero_add]
    simp only [Nat.cast_zero, sub_zero, zero_add, Int.toNat_natCast]

end Compatible

/-! ## The bias -/

/-- A column repeated along the rows of the look-up is one element over and over. -/
theorem column_constant {α : Type} {f : Nat → α} {M N : Nat} (wide : 1 < N)
    (same : ∀ m < M, ∀ n < N, f (if M = N then n else (m * N + n) % M) = f m) :
    ∀ i < M, f i = f 0 := by
  intro i
  induction i using Nat.strongRecOn with
  | ind i earlier =>
    intro low
    by_cases square : M = N
    · have first := same 0 (by omega) i (square ▸ low)
      rwa [if_pos square] at first
    · have column := same (i / N) (lt_of_le_of_lt (Nat.div_le_self i N) low) (i % N)
        (Nat.mod_lt _ (by omega))
      rw [if_neg square, Nat.div_add_mod', Nat.mod_eq_of_lt low] at column
      rcases Nat.eq_zero_or_pos i with rfl | positive
      · rfl
      · have smaller := Nat.div_lt_self positive wide
        rw [column]
        exact earlier (i / N) smaller (smaller.trans low)

theorem tmod_position (M N m n : Nat) :
    ((m : Int) * N + n).tmod ((M : Nat) : Int) = ((m * N + n) % M : Nat) := by
  rw [Int.tmod_eq_emod_of_nonneg (by positivity)]
  push_cast
  rfl

theorem biasCount_pair {α : Type} (a b : Int) (elems : List α) : biasCount ⟨[a, b], elems⟩ = a * b := by
  rw [biasCount, if_neg (by simp)]
  simp only [numElements, isEmpty_cons, Bool.false_eq_true, if_false, foldl_cons,
    foldl_nil, one_mul]

theorem broadcast_vector (q : Int) (elems : List R) (m n : Int) :
    broadcast ⟨[q], elems⟩ m n = readAt 0 elems (if q = 1 then 0 else n) := rfl

theorem broadcast_pair (p q : Int) (elems : List R) (m n : Int) : broadcast ⟨[p, q], elems⟩ m n =
      readAt 0 elems ((if p = 1 then 0 else m) * q + if q = 1 then 0 else n) := rfl

variable {bias : Held R}

theorem biasAt_single (single : biasCount bias = 1) {N : Nat} (m n : Nat)
    (low : n < N) : biasAt N bias m n = some (readAt 0 bias.elems 0) := by
  rw [biasAt, single]
  by_cases one : (1 : Int) = N
  · rw [if_pos one, show n = 0 by omega]
    rfl
  · rw [if_neg one, if_neg one_ne_zero, Int.tmod_one]

theorem biasAt_row {N : Nat} (row : biasCount bias = N) (m n : Int) :
    biasAt N bias m n = some (readAt 0 bias.elems n) := by
  rw [biasAt, if_pos row]

/-- A shape that is found as it is broadcast, where it is neither a scalar nor a column. -/
theorem biasAt_broadcast {M N : Nat} (fits : OneWay M N bias.shape)
    (some_ : bias.shape ≠ []) (other : bias.shape = [(M : Int), 1] → M ≤ 1 ∨ N ≤ 1) {m n : Nat}
    (lowM : m < M) (lowN : n < N) :
    biasAt N bias m n = some (broadcast bias m n) := by
  have unit : (if (N : Int) = 1 then 0 else (n : Int)) = n := by split_ifs <;> omega
  have unitM : (if (M : Int) = 1 then 0 else (m : Int)) = m := by split_ifs <;> omega
  obtain ⟨s, elems⟩ := bias
  dsimp only at fits some_ other
  rcases fits with rfl | rfl | rfl | rfl | rfl | rfl | rfl
  · exact absurd rfl some_
  · exact biasAt_single rfl m n lowN
  · rw [biasAt_row rfl, broadcast_vector, unit]
  · exact biasAt_single rfl m n lowN
  · rw [biasAt_row (by rw [biasCount_pair, one_mul]), broadcast_pair, if_pos rfl, zero_mul,
      zero_add, unit]
  · -- one row, or one column in all
    rw [biasAt, biasCount_pair, mul_one, broadcast_pair, unitM, if_pos rfl, mul_one, add_zero]
    by_cases square : M = N
    · rw [if_pos (congrArg _ square), show n = m by have := other rfl; omega]
    · rw [if_neg (fun same => square (Nat.cast_injective same)), if_neg (by omega), tmod_position]
      have here : (m * N + n) % M = m := by
        rcases other rfl with one | one
        · rw [show M = 1 by omega, Nat.mod_one]
          omega
        · rw [show N = 1 by omega, Nat.mul_one, show n = 0 by omega, Nat.add_zero,
            Nat.mod_eq_of_lt lowM]
      rw [here]
  · rw [biasAt, biasCount_pair, broadcast_pair, unitM, unit]
    by_cases row : (M : Int) * N = N
    · have single : M = 1 := by
        have := Int.eq_of_mul_eq_mul_right (by omega : (N : Int) ≠ 0) (row.trans (one_mul _).symm)
        omega
      rw [if_pos row, show m = 0 by omega]
      simp only [Nat.cast_zero, zero_mul, zero_add]
    · have inside : m * N + n < M * N := by
        have := Nat.mul_le_mul_right N (show m + 1 ≤ M from lowM)
        rw [Nat.succ_mul] at this
        omega
      have some_ : ¬ (M : Int) * N = 0 := by
        rw [← Nat.cast_mul]
        omega
      have whole : ((m : Int) * N + n).tmod (M * N) = (m * N + n : Nat) := by
        rw [← Nat.cast_mul M N, tmod_position, Nat.mod_eq_of_lt inside]
      rw [if_neg row, if_neg some_, whole]
      push_cast
      rfl

/-- **The bias found is the one that is broadcast, at every position, exactly when it is in
place.** -/
theorem biasAt_iff {M N : Nat} (fits : OneWay M N bias.shape) (beta : R) :
    (∀ m < M, ∀ n < N, ∃ c, biasAt N bias (m : Nat) (n : Nat) = some c ∧
        beta * c = beta * broadcast bias (m : Nat) (n : Nat)) ↔ BiasInPlace beta M N bias := by
  by_cases scalar : bias.shape = []
  · have lost : ∀ m n : Nat, n < N → biasAt N bias m n = none := fun m n low => by
      have none_ : biasCount bias = 0 := by
        rw [biasCount, scalar]
        rfl
      rw [biasAt, none_, if_neg (by omega), if_pos rfl]
    constructor
    · intro found
      refine ⟨fun _ => ?_, fun column => by rw [scalar] at column; cases column⟩
      by_contra sizes
      obtain ⟨c, here, -⟩ := found 0 (by omega) 0 (by omega)
      rw [lost 0 0 (by omega)] at here
      cases here
    · intro placed m lowM n lowN
      have := placed.scalar scalar
      omega
  · by_cases column : bias.shape = [(M : Int), 1] ∧ 1 < M ∧ 1 < N
    · obtain ⟨shape, tall, wide⟩ := column
      have found : ∀ m n : Nat, m < M → n < N → biasAt N bias m n =
          some (readAt 0 bias.elems ((if M = N then n else (m * N + n) % M : Nat) : Int)) := by
        intro m n lowM lowN
        have count : biasCount bias = M := by
          obtain ⟨s, elems⟩ := bias
          dsimp only at shape
          rw [shape, biasCount_pair, mul_one]
        rw [biasAt, count]
        by_cases square : M = N
        · rw [if_pos (congrArg _ square), if_pos square]
        · rw [if_neg (fun same => square (Nat.cast_injective same)), if_neg (by omega), tmod_position,
            if_neg square]
      have spread : ∀ m n : Nat, broadcast bias m n = readAt 0 bias.elems (m : Nat) := by
        intro m n
        rw [broadcast, shape]
        dsimp only
        rw [if_neg (by omega), if_pos rfl, mul_one, add_zero]
      simp only [spread]
      constructor
      · intro same
        refine ⟨fun none_ => absurd none_ scalar, fun _ _ _ => ?_⟩
        by_cases zero : beta = 0
        · exact .inl zero
        · refine .inr (column_constant (f := fun i => readAt 0 bias.elems (i : Nat)) wide ?_)
          intro m lowM n lowN
          obtain ⟨c, here, equal⟩ := same m lowM n lowN
          rw [found m n lowM lowN, Option.some.injEq] at here
          rw [here]
          exact mul_left_cancel₀ zero equal
      · intro placed m lowM n lowN
        refine ⟨_, found m n lowM lowN, ?_⟩
        rcases placed.column shape tall wide with zero | constant
        · rw [zero, zero_mul, zero_mul]
        · rw [constant m lowM, constant]
          split_ifs
          · omega
          · exact Nat.mod_lt _ (by omega)
    · refine iff_of_true (fun m lowM n lowN => ⟨_, biasAt_broadcast fits scalar ?_ lowM lowN, rfl⟩)
        ⟨fun none_ => absurd none_ scalar, fun shape tall wide =>
          absurd ⟨shape, tall, wide⟩ column⟩
      intro shape
      by_contra both
      exact column ⟨shape, by omega, by omega⟩

/-! ## The product -/

theorem mapM_eq_some_map {α β : Type} {f : α → Option β} {g : α → β} (l : List α) :
    l.mapM f = some (l.map g) ↔ ∀ x ∈ l, f x = some (g x) := by
  induction l with
  | nil => simp
  | cons x l ih =>
    rw [mapM_cons, forall_mem_cons, ← ih, map_cons]
    cases here : f x <;> cases rest : l.mapM f <;> simp

theorem mem_points {n : Nat} {k : Int} : k ∈ points (0, (n : Int)) ↔ ∃ i < n, (i : Int) = k := by
  simp [points]

section Product

variable {p : Params R} {A Bt : Held R} {C : Option (Held R)} {M K N : Nat}

/-- An output element is the operator's exactly when the bias found for it counts as the one that
is broadcast. -/
theorem Compatible.outputAt_iff (fits : Compatible p A Bt C M K N) (neon : Bool) (m n : Int) :
    outputAt neon p A Bt C m n = some (onnxAt p A Bt C K m n) ↔
      ∀ bias ∈ C, ∃ c, biasAt N bias m n = some c ∧ p.beta * c = p.beta * broadcast bias m n := by
  dsimp only [outputAt, onnxAt]
  rw [fits.contraction_eq, mul_comm, fits.extents.2.2]
  cases C with
  | none => simp
  | some bias => simp only [Option.mem_some_iff, forall_eq', Option.map_eq_some_iff, add_right_inj]

/-- **The kernel is the operator exactly when the bias is in place**, on any number of threads,
with or without vector instructions. -/
theorem gemm_onnx_iff (fits : Compatible p A Bt C M K N) (neon inParallel : Bool) (threads : Int) :
    gemm neon p A Bt C inParallel threads id = some (onnxGemm p A Bt C M K N) ↔
      ∀ bias ∈ C, BiasInPlace p.beta M N bias := by
  obtain ⟨rows, depth, columns⟩ := fits.extents
  have positions : ((parallelFor inParallel threads 0 (extentM p A)
      (minChunkForWork (extentN p Bt * extentK p A))).flatMap fun chunk =>
        (points chunk).flatMap fun m => (points (0, extentN p Bt)).map fun n => (m, n)) =
      (points (0, (M : Int))).flatMap fun m => (points (0, (N : Int))).map fun n => (m, n) := by
    rw [← flatMap_assoc, rows, columns,
      (tiles_parallelFor inParallel threads (Int.natCast_nonneg M) _).points_eq]
  have matrix : onnxGemm p A Bt C M K N = ((points (0, (M : Int))).flatMap fun m =>
      (points (0, (N : Int))).map fun n => (m, n)).map fun at_ => onnxAt p A Bt C K at_.1 at_.2 := by
    rw [onnxGemm, map_flatMap]
    simp only [map_map]
    rfl
  simp only [gemm, positions, map_id_fun, id_eq, Option.map_id', matrix, mapM_eq_some_map,
    mem_flatMap, mem_map, fits.outputAt_iff]
  constructor
  · intro right bias here
    refine (biasAt_iff (fits.bias bias here) p.beta).mp fun m lowM n lowN => ?_
    exact right (m, n) ⟨m, mem_points.mpr ⟨m, lowM, rfl⟩, n, mem_points.mpr ⟨n, lowN, rfl⟩, rfl⟩
      bias here
  · rintro placed at_ ⟨m, memM, n, memN, rfl⟩ bias here
    obtain ⟨i, lowM, rfl⟩ := mem_points.mp memM
    obtain ⟨j, lowN, rfl⟩ := mem_points.mp memN
    exact (biasAt_iff (fits.bias bias here) p.beta).mpr (placed bias here) i lowM j lowN

end Product

/-- A row of biases is added to every row. -/
theorem gemm_rowBias_right :
    gemm true { transB := 1 } (⟨[2, 1], [1, 2]⟩ : Held ℚ) ⟨[2, 1], [3, 4]⟩ (some ⟨[2], [5, 6]⟩)
      false 4 id = some [8, 10, 11, 14] :=
  ((gemm_onnx_iff (M := 2) (K := 1) (N := 2) ⟨rfl, rfl, by
    rintro bias ⟨⟩
    exact .inr (.inr (.inl rfl))⟩ true false 4).mpr (by
      rintro bias ⟨⟩
      exact ⟨nofun, fun column => by simp at column⟩)).trans (by decide +kernel)

/-- A column of two biases beside two columns is taken for a row; a scalar of rank 0 stops the
kernel. -/
theorem gemm_columnBias_astray :
    Compatible {} (⟨[2, 1], [0, 0]⟩ : Held ℚ) ⟨[1, 2], [0, 0]⟩ (some ⟨[2, 1], [5, 6]⟩) 2 1 2 ∧
      onnxGemm {} (⟨[2, 1], [0, 0]⟩ : Held ℚ) ⟨[1, 2], [0, 0]⟩ (some ⟨[2, 1], [5, 6]⟩) 2 1 2 =
        [5, 5, 6, 6] ∧
      gemm false {} (⟨[2, 1], [0, 0]⟩ : Held ℚ) ⟨[1, 2], [0, 0]⟩ (some ⟨[2, 1], [5, 6]⟩) false 1
        id = some [5, 6, 5, 6] ∧
      gemm false {} (⟨[2, 1], [0, 0]⟩ : Held ℚ) ⟨[1, 2], [0, 0]⟩ (some ⟨[], [5]⟩) false 1 id =
        none := by
  refine ⟨⟨rfl, rfl, ?_⟩, by decide +kernel, by decide +kernel, by decide +kernel⟩
  rintro bias ⟨⟩
  exact .inr (.inr (.inr (.inr (.inr (.inl rfl)))))

end Vknn.Cpu.Gemm
