import Vknn.Core.QuantWeights
import Mathlib.Tactic.Ring

/-!
# Decoders with room

Where the products do not wrap and the buffers are as long as they say, the
watched decoders make no access outside a buffer and give what the plain ones
give.  A decoder whose grid is too long for a vector refuses instead.
-/

namespace Vknn.QuantWeights

open Guarded Guarded.Outcome Import.Quantize Int
open QuantPacking (FloatArith)

/-! ## Sizes that do not wrap -/

theorem sizeT_natCast {n : Nat} (fits : n < 2 ^ 64) : sizeT (n : Int) = n := by
  unfold sizeT
  omega

theorem wrap64_natCast {n : Nat} (fits : n < 2 ^ 63) : wrap64 (n : Int) = n :=
  wrap64_of_fits (by omega) (by omega)

theorem eights_natCast {n : Nat} (fits : n < 2 ^ 61) :
    (wrap64 ((n : Int) + 7)).tdiv 8 = (((n + 7) / 8 : Nat) : Int) := by
  have sum : wrap64 ((n : Int) + 7) = ((n + 7 : Nat) : Int) :=
    wrap64_natCast (n := n + 7) (by omega)
  rw [sum, tdiv_eq_ediv_of_nonneg (by omega)]
  rfl

theorem int4RowBytes_natCast {n : Nat} (fits : n < 2 ^ 61) :
    int4RowBytes (n : Int) = QuantPacking.int4RowBytes n := by
  rw [int4RowBytes, eights_natCast fits]
  exact wrap64_natCast (n := 4 * ((n + 7) / 8)) (by omega)

theorem int8RowBytes_natCast {n : Nat} (fits : n < 2 ^ 61) :
    int8RowBytes (n : Int) = QuantPacking.int8RowBytes n := by
  rw [int8RowBytes, eights_natCast fits]
  exact wrap64_natCast (n := 8 * ((n + 7) / 8)) (by omega)

section Vectors

variable {α : Type} (allocates : Nat → Bool)

/-- A vector is refused, or as long as it was asked to be and not too long for one. -/
theorem vector_cases (width : Nat) (length : Int) (zero : α) :
    (∃ r, vector allocates width length zero = rejected r) ∨ sizeT length ≤ (2 ^ 63 - 1) / width ∧
        vector allocates width length zero = ok (List.replicate (sizeT length) zero) := by
  unfold vector
  dsimp only
  split
  · exact .inl ⟨_, rfl⟩
  · split
    · exact .inr ⟨by omega, rfl⟩
    · exact .inl ⟨_, rfl⟩

end Vectors

/-! ## Grids -/

section Grids

variable {F : Type} (arith : FloatArith F) (allocates : Nat → Bool) {K N nOut : Nat}

theorem place_lt {k n : Nat} (row : k < K) (column : n < N) : k * N + n < K * N :=
  calc k * N + n < (k + 1) * N := by rw [Nat.succ_mul]; omega
    _ ≤ K * N := Nat.mul_le_mul_right _ row

theorem storeAt_grid {w : List F} {k n : Nat} (size : w.length = K * N) (fits : K * N < 2 ^ 64)
    (row : k < K) (column : n < N) (v : F) :
    (storeAt w (sizeT (k * N + n)) v : Outcome Refusal (List F)) = ok (w.set (k * N + n) v) := by
  have inside := place_lt row column
  have place : sizeT ((k : Int) * N + n) = k * N + n := by
    have cast : (k : Int) * N + n = ((k * N + n : Nat) : Int) := by push_cast; rfl
    rw [cast, sizeT_natCast (by omega)]
  rw [place, storeAt_of_inside (natCast_nonneg _) (by rw [size]; exact_mod_cast inside),
    toNat_natCast]

/-- A loop over the columns that stores to a row stores the whole row. -/
theorem loop_row {body : Nat → List F → Outcome Refusal (List F)} {plain : Nat → F} {k : Nat}
    (row : k < K) (fits : K * N < 2 ^ 64)
    (stores : ∀ n < N, ∀ w, body n w = storeAt w (sizeT (k * N + n)) (plain n)) {w : List F}
    (size : w.length = K * N) :
    loop N body w = ok ((List.range N).foldl (fun w n => w.set (k * N + n) (plain n)) w) ∧
    ((List.range N).foldl (fun w n => w.set (k * N + n) (plain n)) w).length = K * N := by
  have steps : ∀ n < N, ∀ w : List F, w.length = K * N →
      body n w = ok (w.set (k * N + n) (plain n)) ∧
        (w.set (k * N + n) (plain n)).length = K * N := by
    intro n column w held
    rw [stores n column, storeAt_grid held fits row column]
    exact ⟨rfl, by rw [List.length_set, held]⟩
  exact loop_eq_foldl steps size

theorem loop_grid {value : Int → Int → Outcome Refusal F} {plain : Nat → Nat → F}
    (fits : K * N < 2 ^ 64) (reads : ∀ k < K, ∀ n < N, value k n = ok (plain k n)) {w : List F}
    (size : w.length = K * N) :
    loop K (fun k w => loop N (fun n w => do
        let v ← value k n
        storeAt w (sizeT (k * N + n)) v) w) w =
      ok ((List.range K).foldl (fun w k =>
        (List.range N).foldl (fun w n => w.set (k * N + n) (plain k n)) w) w) ∧
    ((List.range K).foldl (fun w k =>
        (List.range N).foldl (fun w n => w.set (k * N + n) (plain k n)) w) w).length = K * N := by
  have steps : ∀ k < K, ∀ w : List F, w.length = K * N → loop N (fun n w => do
        let v ← value k n
        storeAt w (sizeT (k * N + n)) v) w =
        ok ((List.range N).foldl (fun w n => w.set (k * N + n) (plain k n)) w) ∧
      ((List.range N).foldl (fun w n => w.set (k * N + n) (plain k n)) w).length = K * N :=
    fun k row w held => loop_row row fits (fun n column w => by rw [reads k row n column]; rfl) held
  exact loop_eq_foldl steps size

/-- The loop over the entries writes the kept rows over the grid. -/
theorem loop_kept {oidx : List Int} {oval : List UInt16} (fits : K * N < 2 ^ 64)
    (entries : nOut ≤ oidx.length)
    (kept : 0 < K → 0 < N → nOut * N ≤ oval.length ∧ nOut * N < 2 ^ 64) {w : List F}
    (size : w.length = K * N) :
    loop nOut (fun j w => do
        let k ← readAt oidx j
        if k < 0 ∨ (K : Int) ≤ k then ok w
        else loop N (fun n w => do
          let v ← readAt oval (sizeT (j * N + n))
          storeAt w (sizeT (k * N + n)) (arith.halfToFloat v)) w) w =
      (ok ((List.range nOut).foldl (fun w j =>
        if oidx.getD j 0 < 0 ∨ (K : Int) ≤ oidx.getD j 0 then w
        else (List.range N).foldl (fun w n =>
          w.set ((oidx.getD j 0).toNat * N + n) (arith.halfToFloat (oval.getD (j * N + n) 0))) w)
        w) : Outcome Refusal (List F)) := by
  have steps : ∀ j < nOut, ∀ w : List F, w.length = K * N → (do
        let k ← readAt oidx j
        if k < 0 ∨ (K : Int) ≤ k then ok w
        else loop N (fun n w => do
          let v ← readAt oval (sizeT (j * N + n))
          storeAt w (sizeT (k * N + n)) (arith.halfToFloat v)) w : Outcome Refusal (List F)) =
        ok (if oidx.getD j 0 < 0 ∨ (K : Int) ≤ oidx.getD j 0 then w
          else (List.range N).foldl (fun w n =>
            w.set ((oidx.getD j 0).toNat * N + n) (arith.halfToFloat (oval.getD (j * N + n) 0)))
            w) ∧
      (if oidx.getD j 0 < 0 ∨ (K : Int) ≤ oidx.getD j 0 then w
        else (List.range N).foldl (fun w n =>
          w.set ((oidx.getD j 0).toNat * N + n) (arith.halfToFloat (oval.getD (j * N + n) 0)))
          w).length = K * N := by
    intro j entry w held
    have listed : (readAt oidx (j : Int) : Outcome Refusal Int) = ok (oidx.getD j 0) := by
      rw [readAt_of_inside (natCast_nonneg j) (by omega) 0, toNat_natCast]
    rw [listed, ok_bind]
    generalize oidx.getD j 0 = row
    by_cases elsewhere : row < 0 ∨ (K : Int) ≤ row
    · rw [if_pos elsewhere, if_pos elsewhere]
      exact ⟨rfl, held⟩
    rw [if_neg elsewhere, if_neg elsewhere]
    obtain ⟨k, rfl⟩ := eq_ofNat_of_zero_le (show 0 ≤ row by omega)
    have row : k < K := by omega
    refine loop_row row fits (fun n column w => ?_) held
    obtain ⟨long, small⟩ := kept (by omega) (by omega)
    have inside := place_lt entry column
    have place : sizeT ((j : Int) * N + n) = j * N + n := by
      have cast : (j : Int) * N + n = ((j * N + n : Nat) : Int) := by push_cast; rfl
      rw [cast, sizeT_natCast (by omega)]
    rw [place, readAt_of_inside (natCast_nonneg _) (by omega) 0, ok_bind, toNat_natCast]
  exact (loop_eq_foldl steps size).1

/-- **A decoder with room is the plain one.**  It is refused where the grid is too long or the
memory is not there. -/
theorem dequant_spec {value : Int → Int → Outcome Refusal F} {plain : Nat → Nat → F}
    {oidx : List Int} {oval : List UInt16} (entries : nOut ≤ oidx.length)
    (room : sizeT ((K : Int) * N) < 2 ^ 61 →
      K * N < 2 ^ 64 ∧ (∀ k < K, ∀ n < N, value k n = ok (plain k n)) ∧
        (0 < K → 0 < N → nOut * N ≤ oval.length ∧ nOut * N < 2 ^ 64)) :
    (∃ r, dequant arith allocates value oidx oval K N nOut = rejected r) ∨
      K * N < 2 ^ 61 ∧ dequant arith allocates value oidx oval K N nOut =
        ok (QuantPacking.dequant arith plain oidx oval K N nOut) := by
  rcases vector_cases allocates 4 ((K : Int) * N) arith.zero with ⟨r, refused⟩ | ⟨short, made⟩
  · exact .inl ⟨r, by rw [dequant, refused]; rfl⟩
  have short : sizeT ((K : Int) * N) < 2 ^ 61 := by omega
  obtain ⟨fits, reads, kept⟩ := room short
  have size : sizeT ((K : Int) * N) = K * N := by rw [← Nat.cast_mul, sizeT_natCast fits]
  refine .inr ⟨by omega, ?_⟩
  have start : (List.replicate (K * N) arith.zero).length = K * N := List.length_replicate
  obtain ⟨filled, held⟩ := loop_grid fits reads start
  rw [dequant, made, ok_bind, size, toNat_natCast, toNat_natCast, toNat_natCast,
    filled, ok_bind, loop_kept arith fits entries kept held]
  rfl

end Grids

/-! ## The three decoders -/

section Decoders

variable {F : Type} (arith : FloatArith F) (allocates : Nat → Bool) {K N group nOut : Nat}
  {packed : HostBuffer} {scales oval : List UInt16} {oidx : List Int}

/-- The buffers a decoder walks over are as long as its rows and columns, none of its row widths
wraps, and `rowBytes` of them make up the payload. -/
structure Readable (K N group nOut rowBytes : Nat) (packed : HostBuffer)
    (scales oval : List UInt16) : Prop where
  columns : N < 2 ^ 61
  scale : ∀ k < K, ∀ n < N, k / group * N + n < scales.length
  scaleFits : scales.length < 2 ^ 63
  payload : K * rowBytes ≤ packed.length
  payloadFits : K * rowBytes < 2 ^ 63
  kept : nOut * N ≤ oval.length
  keptFits : nOut * N < 2 ^ 64

theorem scaleAt_eq {k n : Nat} (inside : k / group * N + n < scales.length)
    (fits : scales.length < 2 ^ 63) :
    scaleAt arith scales N group k n = ok (QuantPacking.scaleAt arith scales N group k n) := by
  have place : sizeT ((k : Int) / group * N + n) = k / group * N + n := by
    have cast : (k : Int) / group * N + n = ((k / group * N + n : Nat) : Int) := by push_cast; rfl
    rw [cast, sizeT_natCast (by omega)]
  rw [scaleAt, place, readAt_of_inside (natCast_nonneg _) (by omega) 0, ok_bind, toNat_natCast]
  rfl

theorem readAt_payload {rowBytes k b : Nat} (row : k < K) (inside : b < rowBytes)
    (long : K * rowBytes ≤ packed.length) (fits : K * rowBytes < 2 ^ 63) {x : Int}
    (place : x = ((k * rowBytes + b : Nat) : Int)) :
    (readAt packed (wrap64 x) : Outcome Refusal UInt8) = ok (packed.getD (k * rowBytes + b) 0) := by
  have below := place_lt row inside
  rw [place, wrap64_natCast (by omega), readAt_of_inside (natCast_nonneg _) (by omega) 0,
    toNat_natCast]

theorem int4At_eq {k n : Nat} (row : k < K) (column : n < N)
    (long : K * QuantPacking.int4RowBytes N ≤ packed.length)
    (fits : K * QuantPacking.int4RowBytes N < 2 ^ 63) :
    int4At packed (QuantPacking.int4RowBytes N) k n =
      ok (QuantPacking.int4At packed (QuantPacking.int4RowBytes N) k n) := by
  have inside : n / 2 < QuantPacking.int4RowBytes N := by
    unfold QuantPacking.int4RowBytes
    omega
  have place : (k : Int) * QuantPacking.int4RowBytes N + (n : Int) / 2 =
      ((k * QuantPacking.int4RowBytes N + n / 2 : Nat) : Int) := by
    push_cast
    rfl
  have parity : (n : Int) % 2 = 1 ↔ n % 2 = 1 := by omega
  rw [int4At, readAt_payload row inside long fits place, ok_bind]
  simp only [parity]
  rfl

theorem int8At_eq {k n : Nat} (row : k < K) (column : n < N)
    (long : K * QuantPacking.int8RowBytes N ≤ packed.length)
    (fits : K * QuantPacking.int8RowBytes N < 2 ^ 63) :
    int8At packed (QuantPacking.int8RowBytes N) k n =
      ok (QuantPacking.int8At packed (QuantPacking.int8RowBytes N) k n) := by
  have inside : n < QuantPacking.int8RowBytes N := by
    unfold QuantPacking.int8RowBytes
    omega
  have place : (k : Int) * QuantPacking.int8RowBytes N + (n : Int) =
      ((k * QuantPacking.int8RowBytes N + n : Nat) : Int) := by
    push_cast
    rfl
  rw [int8At, readAt_payload row inside long fits place, ok_bind]
  rfl

theorem int4Dequant_spec (entries : nOut ≤ oidx.length)
    (room : sizeT ((K : Int) * N) < 2 ^ 61 → K * N < 2 ^ 64 ∧ (0 < K → 0 < N →
      Readable K N group nOut (QuantPacking.int4RowBytes N) packed scales oval)) :
    (∃ r, int4Dequant arith allocates packed scales oidx oval K N group nOut = rejected r) ∨
      K * N < 2 ^ 61 ∧ int4Dequant arith allocates packed scales oidx oval K N group nOut =
        ok (QuantPacking.int4Dequant arith packed scales oidx oval K N group nOut) := by
  refine dequant_spec arith allocates entries fun short => ?_
  obtain ⟨grid, readable⟩ := room short
  refine ⟨grid, fun k row n column => ?_, fun rows columns =>
    ⟨(readable rows columns).kept, (readable rows columns).keptFits⟩⟩
  obtain ⟨columns, scale, scaleFits, payload, payloadFits, -, -⟩ := readable (by omega) (by omega)
  rw [scaleAt_eq arith (scale k row n column) scaleFits, ok_bind, int4RowBytes_natCast columns,
    int4At_eq row column payload payloadFits, ok_bind]

theorem int8Dequant_spec (entries : nOut ≤ oidx.length)
    (room : sizeT ((K : Int) * N) < 2 ^ 61 → K * N < 2 ^ 64 ∧ (0 < K → 0 < N →
      Readable K N group nOut (QuantPacking.int8RowBytes N) packed scales oval)) :
    (∃ r, int8Dequant arith allocates packed scales oidx oval K N group nOut = rejected r) ∨
      K * N < 2 ^ 61 ∧ int8Dequant arith allocates packed scales oidx oval K N group nOut =
        ok (QuantPacking.int8Dequant arith packed scales oidx oval K N group nOut) := by
  refine dequant_spec arith allocates entries fun short => ?_
  obtain ⟨grid, readable⟩ := room short
  refine ⟨grid, fun k row n column => ?_, fun rows columns =>
    ⟨(readable rows columns).kept, (readable rows columns).keptFits⟩⟩
  obtain ⟨columns, scale, scaleFits, payload, payloadFits, -, -⟩ := readable (by omega) (by omega)
  rw [scaleAt_eq arith (scale k row n column) scaleFits, ok_bind, int8RowBytes_natCast columns,
    int8At_eq row column payload payloadFits, ok_bind]

theorem lut4Dequant_spec (entries : nOut ≤ oidx.length) {codebook : List UInt16}
    (sixteen : codebook.length = 16)
    (room : sizeT ((K : Int) * N) < 2 ^ 61 → K * N < 2 ^ 64 ∧ (0 < K → 0 < N →
      Readable K N group nOut (QuantPacking.int4RowBytes N) packed scales oval)) :
    (∃ r, lut4Dequant arith allocates packed codebook scales oidx oval K N group nOut =
        rejected r) ∨
      K * N < 2 ^ 61 ∧ lut4Dequant arith allocates packed codebook scales oidx oval K N group nOut =
          ok (QuantPacking.lut4Dequant arith packed codebook scales oidx oval K N group nOut) := by
  refine dequant_spec arith allocates entries fun short => ?_
  obtain ⟨grid, readable⟩ := room short
  refine ⟨grid, fun k row n column => ?_, fun rows columns =>
    ⟨(readable rows columns).kept, (readable rows columns).keptFits⟩⟩
  obtain ⟨columns, scale, scaleFits, payload, payloadFits, -, -⟩ := readable (by omega) (by omega)
  rw [int4RowBytes_natCast columns, int4At_eq row column payload payloadFits, ok_bind,
    scaleAt_eq arith (scale k row n column) scaleFits, ok_bind,
    readAt_of_inside (emod_nonneg _ (by omega)) (by omega) 0, ok_bind]

end Decoders

end Vknn.QuantWeights
