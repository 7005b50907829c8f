import Vknn.Cpu.ParallelRuns
import Vknn.Import.Nc4Packing
import Vknn.Ir.Half
import Vknn.Lib.CellWrites

/-!
# Packing at the boundary

A host tensor is dense; the device's is in blocks of four channels, and its last
block is filled up with zeros.  Packing and unpacking are loops over rows, one row
for each batch, block (or channel) and line, and the rows are split among threads.

A row only stores, each of its steps at a cell of its own, and the cells of all
rows together are those of the buffer, in order.  So the buffer ends up the same
however the rows are split and however the threads are interleaved.
-/

namespace Vknn.BoundaryPack

open List Int
open NCHW (elems ofShape)
open Nat (add_zero div_add_mod' div_eq_of_lt mod_eq_of_lt mod_lt mul_add_div mul_add_mod mul_comm)

open CellWrites (Write run)
open Cpu.Parallel (parallelFor minChunkForWork)

/-! ## Lanes -/

/-- What the pack stores for a value: the value itself, or its half.  A host with vector
instructions converts four lanes at once. -/
def storeLane (neon fp16 : Bool) (f : Nat) : Nat :=
  if fp16 then if neon then vcvtSat f else floatToHalfSat f else f

def loadLane (fp16 : Bool) (b : Nat) : Nat := if fp16 then halfToFloat b else b

@[simp] theorem storeLane_zero (neon fp16 : Bool) : storeLane neon fp16 0 = 0 := by
  unfold storeLane
  rw [floatToHalfSat_zero, vcvtSat_zero]
  split <;> simp

/-! ## Rows -/

section Rows

variable (Cb C H W : Nat)

def packedIndex (n cb h w l : Nat) : Nat := (((n * Cb + cb) * H + h) * W + w) * 4 + l

def denseIndex (n c h w : Nat) : Nat := ((n * C + c) * H + h) * W + w

def packRow (store : Nat → Nat) (src : List Nat) (row : Nat) : List (Write Nat) :=
  let h := row % H
  let cb := row / H % Cb
  let n := row / (H * Cb)
  (List.range W).flatMap fun w => (List.range 4).map fun l =>
    let c := cb * 4 + l
    .put (packedIndex Cb H W n cb h w l)
      (store (if c < C then src.getD (denseIndex C H W n c h w) 0 else 0))

/-- The steps of one row of the unpack. -/
def unpackRow (load : Nat → Nat) (src : List Nat) (row : Nat) : List (Write Nat) :=
  let h := row % H
  let c := row / H % C
  let n := row / (H * C)
  (List.range W).map fun w =>
    .put (denseIndex C H W n c h w) (load (src.getD (packedIndex Cb H W n (c / 4) h w (c % 4)) 0))

end Rows

/-! ## Loops -/

section Loops

variable (x : NCHW)

/-- The chunks of rows the pack's threads take. -/
def packChunks (inParallel : Bool) (threads : Int) : List (Int × Int) :=
  parallelFor inParallel threads 0 (wrap64 (wrap64 (x.n * cBlocks x.c) * x.h))
    (minChunkForWork (wrap64 (x.w * 4)))

/-- The chunks of the unpack's threads. -/
def unpackChunks (inParallel : Bool) (threads : Int) : List (Int × Int) :=
  parallelFor inParallel threads 0 (wrap64 (wrap64 (x.n * x.c) * x.h)) (minChunkForWork x.w)

def chunkSteps (row : Nat → List (Write Nat)) (chunk : Int × Int) : List (Write Nat) :=
  (Ranges.points chunk).flatMap fun r => row r.toNat

/-- All steps of the pack, one chunk after the other. -/
def packSteps (neon fp16 : Bool) (src : List Nat) (inParallel : Bool) (threads : Int) :
    List (Write Nat) :=
  (packChunks x inParallel threads).flatMap <| chunkSteps <|
    packRow (cBlocks x.c).toNat x.c.toNat x.h.toNat x.w.toNat (storeLane neon fp16) src

def unpackSteps (fp16 : Bool) (src : List Nat) (inParallel : Bool) (threads : Int) :
    List (Write Nat) :=
  (unpackChunks x inParallel threads).flatMap <| chunkSteps <|
    unpackRow (cBlocks x.c).toNat x.c.toNat x.h.toNat x.w.toNat (loadLane fp16) src

def packNc4 (src dst : List Nat) (neon fp16 inParallel : Bool) (threads : Int) : List Nat :=
  run (packSteps x neon fp16 src inParallel threads) dst

def unpackNc4 (src dst : List Nat) (fp16 inParallel : Bool) (threads : Int) : List Nat :=
  run (unpackSteps x fp16 src inParallel threads) dst

end Loops

/-! ## The layout -/

section Layout

variable (Cb C H W : Nat)

def packedValue (store : Nat → Nat) (src : List Nat) (p : Nat) : Nat :=
  let row := p / 4 / W
  let c := row / H % Cb * 4 + p % 4
  store (if c < C then src.getD (denseIndex C H W (row / (H * Cb)) c (row % H) (p / 4 % W)) 0
    else 0)

def nc4Layout (N : Nat) (store : Nat → Nat) (src : List Nat) : List Nat :=
  (List.range (N * Cb * H * W * 4)).map (packedValue Cb C H W store src)

/-- What a dense place holds after the unpack. -/
def unpackedValue (load : Nat → Nat) (src : List Nat) (q : Nat) : Nat :=
  let row := q / W
  let c := row / H % C
  load (src.getD (packedIndex Cb H W (row / (H * C)) (c / 4) (row % H) (q % W) (c % 4)) 0)

variable {Cb C H W : Nat}

theorem row_parts (B row : Nat) : (row / (H * B) * B + row / H % B) * H + row % H = row := by
  rw [← Nat.div_div_eq_div_mul, div_add_mod', div_add_mod']

theorem packRow_eq {store : Nat → Nat} {src : List Nat} (row : Nat) :
    packRow Cb C H W store src row = (List.range W).flatMap fun w => (List.range 4).map fun l =>
        .put ((row * W + w) * 4 + l) (packedValue Cb C H W store src ((row * W + w) * 4 + l)) := by
  unfold packRow
  refine flatMap_congr fun w inside => map_congr_left fun l lane => ?_
  have w_lt : w < W := mem_range.mp inside
  have l_lt : l < 4 := mem_range.mp lane
  have quarter : ((row * W + w) * 4 + l) / 4 = row * W + w := by omega
  have lanes : ((row * W + w) * 4 + l) % 4 = l := by omega
  have back : (row * W + w) / W = row := by
    rw [mul_comm, mul_add_div (by omega), div_eq_of_lt w_lt, add_zero]
  have column : (row * W + w) % W = w := by rw [mul_comm, mul_add_mod, mod_eq_of_lt w_lt]
  rw [packedIndex, row_parts, packedValue, quarter, lanes, back, column]

theorem unpackRow_eq {load : Nat → Nat} {src : List Nat} (row : Nat) :
    unpackRow Cb C H W load src row = (List.range W).map fun w =>
        .put (row * W + w) (unpackedValue Cb C H W load src (row * W + w)) := by
  unfold unpackRow
  refine map_congr_left fun w inside => ?_
  have w_lt : w < W := mem_range.mp inside
  have back : (row * W + w) / W = row := by
    rw [mul_comm, mul_add_div (by omega), div_eq_of_lt w_lt, add_zero]
  have column : (row * W + w) % W = w := by rw [mul_comm, mul_add_mod, mod_eq_of_lt w_lt]
  rw [denseIndex, row_parts, unpackedValue, back, column]

/-- All rows of the pack store to every cell, one after the other. -/
theorem packRows_eq {store : Nat → Nat} {src : List Nat} (rows : Nat) :
    (List.range rows).flatMap (packRow Cb C H W store src) =
      (List.range (rows * W * 4)).map fun p => .put p (packedValue Cb C H W store src p) := by
  have whole : ∀ row, packRow Cb C H W store src row = (List.range (W * 4)).map fun p =>
      .put (row * (W * 4) + p) (packedValue Cb C H W store src (row * (W * 4) + p)) := by
    intro row
    have nested := CellWrites.flatMap_range_map W 4 fun p =>
      (.put (row * (W * 4) + p) (packedValue Cb C H W store src (row * (W * 4) + p)) : Write Nat)
    rw [packRow_eq, ← nested]
    refine flatMap_congr fun w _ => map_congr_left fun l _ => ?_
    have place : row * (W * 4) + (w * 4 + l) = (row * W + w) * 4 + l := by ring
    rw [place]
  have nested := CellWrites.flatMap_range_map rows (W * 4) fun p =>
    (Write.put p (packedValue Cb C H W store src p) : Write Nat)
  rw [Nat.mul_assoc, ← nested]
  exact flatMap_congr fun row _ => whole row

theorem unpackRows_eq {load : Nat → Nat} {src : List Nat} (rows : Nat) :
    (List.range rows).flatMap (unpackRow Cb C H W load src) =
      (List.range (rows * W)).map fun q => .put q (unpackedValue Cb C H W load src q) := by
  have nested := CellWrites.flatMap_range_map rows W fun q =>
    (Write.put q (unpackedValue Cb C H W load src q) : Write Nat)
  rw [← nested]
  exact flatMap_congr fun row _ => unpackRow_eq row

/-- A packed place holds its channel's element, or a zero. -/
theorem packedValue_packedIndex {store : Nat → Nat} {src : List Nat} {n cb h w l : Nat}
    (block : cb < Cb) (line : h < H) (column : w < W) (lane : l < 4) :
    packedValue Cb C H W store src (packedIndex Cb H W n cb h w l) =
      store (if cb * 4 + l < C then src.getD (denseIndex C H W n (cb * 4 + l) h w) 0 else 0) := by
  have quarter : packedIndex Cb H W n cb h w l / 4 = ((n * Cb + cb) * H + h) * W + w := by
    unfold packedIndex
    omega
  have lanes : packedIndex Cb H W n cb h w l % 4 = l := by
    unfold packedIndex
    omega
  have row : (((n * Cb + cb) * H + h) * W + w) / W = (n * Cb + cb) * H + h := by
    rw [mul_comm, mul_add_div (by omega), div_eq_of_lt column, add_zero]
  have width : (((n * Cb + cb) * H + h) * W + w) % W = w := by
    rw [mul_comm, mul_add_mod, mod_eq_of_lt column]
  have blocks : ((n * Cb + cb) * H + h) / H = n * Cb + cb := by
    rw [mul_comm, mul_add_div (by omega), div_eq_of_lt line, add_zero]
  have height : ((n * Cb + cb) * H + h) % H = h := by rw [mul_comm, mul_add_mod, mod_eq_of_lt line]
  have batch : (n * Cb + cb) / Cb = n := by
    rw [mul_comm, mul_add_div (by omega), div_eq_of_lt block, add_zero]
  have within : (n * Cb + cb) % Cb = cb := by rw [mul_comm, mul_add_mod, mod_eq_of_lt block]
  rw [packedValue, quarter, lanes, row, width, height, ← Nat.div_div_eq_div_mul, blocks, batch,
    within]

theorem packedIndex_lt {N n cb h w l : Nat} (batch : n < N) (block : cb < Cb) (line : h < H)
    (column : w < W) (lane : l < 4) : packedIndex Cb H W n cb h w l < N * Cb * H * W * 4 := by
  have blocks : n * Cb + cb + 1 ≤ N * Cb :=
    calc n * Cb + cb + 1 ≤ n * Cb + Cb := by omega
      _ = (n + 1) * Cb := by ring
      _ ≤ N * Cb := Nat.mul_le_mul_right Cb batch
  have rows : (n * Cb + cb) * H + h + 1 ≤ N * Cb * H :=
    calc (n * Cb + cb) * H + h + 1 ≤ (n * Cb + cb) * H + H := by omega
      _ = (n * Cb + cb + 1) * H := by ring
      _ ≤ N * Cb * H := Nat.mul_le_mul_right H blocks
  have cells : ((n * Cb + cb) * H + h) * W + w + 1 ≤ N * Cb * H * W :=
    calc ((n * Cb + cb) * H + h) * W + w + 1 ≤ ((n * Cb + cb) * H + h) * W + W := by omega
      _ = ((n * Cb + cb) * H + h + 1) * W := by ring
      _ ≤ N * Cb * H * W := Nat.mul_le_mul_right W rows
  unfold packedIndex
  omega

theorem getElem?_nc4Layout {N n cb h w l : Nat} {store : Nat → Nat} {src : List Nat}
    (batch : n < N) (block : cb < Cb) (line : h < H) (column : w < W) (lane : l < 4) :
    (nc4Layout Cb C H W N store src)[packedIndex Cb H W n cb h w l]? =
      some (store (if cb * 4 + l < C then src.getD (denseIndex C H W n (cb * 4 + l) h w) 0
        else 0)) := by
  rw [nc4Layout, getElem?_map,
    getElem?_range (packedIndex_lt batch block line column lane), Option.map_some,
    packedValue_packedIndex block line column lane]

/-- **The unpack reads each element where the pack stored it.** -/
theorem unpackedValue_nc4Layout {N q : Nat} {store load : Nat → Nat} {src : List Nat}
    (blocks : Cb = (C + 3) / 4) (inside : q < N * C * H * W) :
    unpackedValue Cb C H W load (nc4Layout Cb C H W N store src) q =
      load (store (src.getD q 0)) := by
  have positive : 0 < N * C * H * W := by omega
  have W_pos : 0 < W := Nat.pos_of_mul_pos_left positive
  have H_pos : 0 < H := Nat.pos_of_mul_pos_left (Nat.pos_of_mul_pos_right positive)
  have C_pos : 0 < C :=
    Nat.pos_of_mul_pos_left (Nat.pos_of_mul_pos_right (Nat.pos_of_mul_pos_right positive))
  have row : q / W < N * C * H := Nat.div_lt_of_lt_mul (by rwa [mul_comm])
  have batch : q / W / (H * C) < N := by
    refine Nat.div_lt_of_lt_mul ?_
    calc q / W < N * C * H := row
      _ = H * C * N := by ring
  have channel : q / W / H % C < C := mod_lt _ C_pos
  have block : q / W / H % C / 4 < Cb := by omega
  have together : q / W / H % C / 4 * 4 + q / W / H % C % 4 = q / W / H % C := div_add_mod' _ 4
  have back : denseIndex C H W (q / W / (H * C)) (q / W / H % C) (q / W % H) (q % W) = q := by
    rw [denseIndex, row_parts, div_add_mod']
  have held := @getElem?_nc4Layout Cb C H W N _ _ _ _ _ store src batch block
    (mod_lt (q / W) H_pos) (mod_lt q W_pos) (mod_lt (q / W / H % C) (by omega : 0 < 4))
  rw [together, if_pos channel, back] at held
  rw [unpackedValue, getD_eq_getElem?_getD, held, Option.getD_some]

end Layout

/-! ## Any split, any interleaving -/

/-- The chunks of a loop run its rows in order, whatever the split. -/
theorem chunks_eq (row : Nat → List (Write Nat)) (inParallel : Bool) (threads rows minChunk : Int) :
    (parallelFor inParallel threads 0 rows minChunk).flatMap (chunkSteps row) =
      (List.range rows.toNat).flatMap row := by
  by_cases order : 0 ≤ rows
  · have tiles := Cpu.Parallel.tiles_parallelFor inParallel threads order minChunk
    have apart : (parallelFor inParallel threads 0 rows minChunk).flatMap (chunkSteps row) =
        ((parallelFor inParallel threads 0 rows minChunk).flatMap Ranges.points).flatMap
          fun r => row r.toNat := flatMap_assoc.symm
    have points : Ranges.points (0, rows) =
        (List.range rows.toNat).map fun (k : Nat) => (k : Int) := by
      simp [Ranges.points]
    rw [apart, tiles.points_eq, points, flatMap_map]
    rfl
  · have nothing : parallelFor inParallel threads 0 rows minChunk = [] := by
      unfold parallelFor
      exact if_pos (by omega)
    have no_rows : rows.toNat = 0 := by omega
    rw [nothing, no_rows]
    rfl

/-- The stored elements of a view: whole blocks of channels. -/
def packedCount (x : NCHW) : Nat := x.n.toNat * ((x.c.toNat + 3) / 4) * x.h.toNat * x.w.toNat * 4

/-- A view whose packed buffer has a size, or that has no elements. -/
def Sized (x : NCHW) : Prop := Counted x ∧ packedCount x < 2 ^ 63 ∨ Empty x

/-- What the 64-bit products come to. -/
structure Products (x : NCHW) : Prop where
  elems : x.elems.toNat = x.n.toNat * x.c.toNat * x.h.toNat * x.w.toNat
  blocks : 0 < x.elems.toNat → (cBlocks x.c).toNat = (x.c.toNat + 3) / 4
  stored : x.n.toNat * (cBlocks x.c).toNat * x.h.toNat * x.w.toNat * 4 = packedCount x
  pack : (wrap64 (wrap64 (x.n * cBlocks x.c) * x.h)).toNat * x.w.toNat =
    x.n.toNat * (cBlocks x.c).toNat * x.h.toNat * x.w.toNat
  unpack : (wrap64 (wrap64 (x.n * x.c) * x.h)).toNat * x.w.toNat =
    x.n.toNat * x.c.toNat * x.h.toNat * x.w.toNat

theorem wrap64_product {a b : Nat} (small : a * b < 2 ^ 63) :
    wrap64 ((a : Int) * (b : Int)) = ((a * b : Nat) : Int) := by
  rw [← Nat.cast_mul]
  exact wrap64_of_fits (by omega) (by omega)

theorem products_of_counts {N C H W : Nat} (n : 0 < N) (h : 0 < H) (w : 0 < W)
    (dense : N * C * H * W < 2 ^ 63) (packed : N * ((C + 3) / 4) * H * W * 4 < 2 ^ 63) :
    Products ⟨N, C, H, W⟩ := by
  have shrinks : ∀ {a b : Nat}, 0 < b → a * b < 2 ^ 63 → a < 2 ^ 63 :=
    fun some_ small => lt_of_le_of_lt (Nat.le_mul_of_pos_right _ some_) small
  have rowsFit : N * ((C + 3) / 4) * H < 2 ^ 63 := by
    refine shrinks w (shrinks (by omega : 0 < 4) packed)
  have blocksFit : N * ((C + 3) / 4) < 2 ^ 63 := shrinks h rowsFit
  have channels : (C + 3) / 4 * 4 < 2 ^ 63 := by
    refine lt_of_le_of_lt ?_ packed
    refine Nat.mul_le_mul_right 4 ?_
    calc (C + 3) / 4 ≤ N * ((C + 3) / 4) := Nat.le_mul_of_pos_left _ n
      _ ≤ N * ((C + 3) / 4) * H := Nat.le_mul_of_pos_right _ h
      _ ≤ N * ((C + 3) / 4) * H * W := Nat.le_mul_of_pos_right _ w
  have biased : wrap64 ((C : Int) + kNC4Block - 1) = ((C + 3 : Nat) : Int) := by
    unfold kNC4Block
    rw [wrap64_of_fits (by omega) (by omega)]
    omega
  have blocks : cBlocks C = (((C + 3) / 4 : Nat) : Int) := by
    rw [cBlocks, biased, kNC4Block, tdiv_eq_ediv_of_nonneg (natCast_nonneg _)]
    rfl
  have linesFit : N * C * H < 2 ^ 63 := shrinks w dense
  have planesFit : N * C < 2 ^ 63 := shrinks h linesFit
  refine ⟨?_, ?_, ?_, ?_, ?_⟩
  · have count : (N : Int) * C * H * W = ((N * C * H * W : Nat) : Int) := by push_cast; ring
    simp only [elems, toNat_natCast]
    rw [count, wrap64_of_fits (by omega) (by omega), toNat_natCast]
  · intro _
    simp only [blocks, toNat_natCast]
  · simp only [blocks, packedCount, toNat_natCast]
  · simp only [blocks, toNat_natCast]
    rw [wrap64_product blocksFit, wrap64_product rowsFit, toNat_natCast]
  · simp only [toNat_natCast]
    rw [wrap64_product planesFit, wrap64_product linesFit, toNat_natCast]

theorem products_of_empty {x : NCHW} (empty : Empty x) : Products x := by
  have zero : x.n = 0 ∨ x.c = 0 ∨ x.h = 0 ∨ x.w = 0 := by
    simpa only [Empty, mul_eq_zero, or_assoc] using empty
  have nothing : x.elems = 0 := by
    rw [elems, empty]
    rfl
  have none_wrapped : wrap64 0 = 0 := rfl
  have no_blocks : cBlocks 0 = 0 := rfl
  have counts : packedCount x = 0 ∧ x.n.toNat * x.c.toNat * x.h.toNat * x.w.toNat = 0 ∧
      x.n.toNat * (cBlocks x.c).toNat * x.h.toNat * x.w.toNat = 0 ∧
      (wrap64 (wrap64 (x.n * cBlocks x.c) * x.h)).toNat * x.w.toNat = 0 ∧
      (wrap64 (wrap64 (x.n * x.c) * x.h)).toNat * x.w.toNat = 0 := by
    rcases zero with zero | zero | zero | zero
    all_goals simp [packedCount, zero, none_wrapped, no_blocks]
  obtain ⟨stored, dense, blocks, pack, unpack⟩ := counts
  refine ⟨?_, ?_, ?_, ?_, ?_⟩
  · rw [nothing, dense]
    rfl
  · intro some_
    rw [nothing] at some_
    exact absurd some_ (by decide)
  · rw [blocks, stored]
  · rw [pack, blocks]
  · rw [unpack, dense]

theorem products {x : NCHW} (sized : Sized x) : Products x := by
  rcases sized with ⟨counted, small⟩ | empty
  · obtain ⟨n, c, h, w⟩ := x
    obtain ⟨n_pos, c_pos, h_pos, w_pos, fits⟩ := counted
    obtain ⟨N, rfl⟩ := eq_ofNat_of_zero_le n_pos.le
    obtain ⟨C, rfl⟩ := eq_ofNat_of_zero_le c_pos.le
    obtain ⟨H, rfl⟩ := eq_ofNat_of_zero_le h_pos.le
    obtain ⟨W, rfl⟩ := eq_ofNat_of_zero_le w_pos.le
    have dense : ((N * C * H * W : Nat) : Int) < 2 ^ 63 := by
      push_cast
      exact fits
    refine products_of_counts (natCast_pos.mp n_pos) (natCast_pos.mp h_pos)
      (natCast_pos.mp w_pos) ?_ small
    omega
  · exact products_of_empty empty

/-! ## The round trip -/

section RoundTrip

variable {x : NCHW}

theorem packSteps_eq (sized : Sized x) (neon fp16 : Bool) (src : List Nat) (inParallel : Bool)
    (threads : Int) :
    packSteps x neon fp16 src inParallel threads = (List.range (packedCount x)).map fun p => .put p
        (packedValue (cBlocks x.c).toNat x.c.toNat x.h.toNat x.w.toNat (storeLane neon fp16) src
          p) := by
  have counts := products sized
  rw [packSteps, packChunks, chunks_eq, packRows_eq, counts.pack, counts.stored]

theorem unpackSteps_eq (sized : Sized x) (fp16 : Bool) (src : List Nat) (inParallel : Bool)
    (threads : Int) :
    unpackSteps x fp16 src inParallel threads = (List.range x.elems.toNat).map fun q => .put q
        (unpackedValue (cBlocks x.c).toNat x.c.toNat x.h.toNat x.w.toNat (loadLane fp16) src
          q) := by
  have counts := products sized
  rw [unpackSteps, unpackChunks, chunks_eq, unpackRows_eq, counts.unpack, counts.elems]

def packedOf (x : NCHW) (neon fp16 : Bool) (src : List Nat) : List Nat :=
  nc4Layout (cBlocks x.c).toNat x.c.toNat x.h.toNat x.w.toNat x.n.toNat (storeLane neon fp16) src

theorem run_packSteps (sized : Sized x) (neon fp16 : Bool) (src : List Nat) {dst : List Nat}
    (room : dst.length = packedCount x) (inParallel : Bool) (threads : Int)
    {steps : List (Write Nat)}
    (interleaved : steps.Perm (packSteps x neon fp16 src inParallel threads)) :
    run steps dst = packedOf x neon fp16 src := by
  rw [packSteps_eq sized] at interleaved
  rw [CellWrites.run_perm interleaved (CellWrites.cells_puts _ _), CellWrites.run_puts _ _ _ room,
    packedOf, nc4Layout, (products sized).stored]

theorem run_unpackSteps (sized : Sized x) (neon fp16 : Bool) {src out : List Nat}
    (source : src.length = x.elems.toNat) (target : out.length = x.elems.toNat) (inParallel : Bool)
    (threads : Int) {steps : List (Write Nat)}
    (interleaved : steps.Perm
      (unpackSteps x fp16 (packedOf x neon fp16 src) inParallel threads)) :
    run steps out = src.map fun f => loadLane fp16 (storeLane neon fp16 f) := by
  have counts := products sized
  rw [unpackSteps_eq sized] at interleaved
  rw [CellWrites.run_perm interleaved (CellWrites.cells_puts _ _), CellWrites.run_puts _ _ _ target]
  apply ext_getElem?
  intro q
  rw [getElem?_map, getElem?_map]
  by_cases inside : q < x.elems.toNat
  · have within : q < x.n.toNat * x.c.toNat * x.h.toNat * x.w.toNat := counts.elems ▸ inside
    rw [getElem?_range inside, Option.map_some, packedOf,
      unpackedValue_nc4Layout (counts.blocks (by omega)) within, getD_eq_getElem?_getD,
      getElem?_eq_getElem (by omega), Option.map_some, Option.getD_some]
  · rw [getElem?_eq_none (by rw [length_range]; omega),
      getElem?_eq_none (by omega), Option.map_none, Option.map_none]

/-- **Packing round-trips, and no split of its work shows.**  Whatever the number of threads, and
however they are interleaved, the packed buffer is one and the same, its padding lanes are zero,
and unpacking gives back every element, in half precision if that is what was stored. -/
theorem nc4_roundTrips {s : Shape} (representable : Representable s)
    (size : packedCount (ofShape s) < 2 ^ 63) (neon fp16 : Bool) {src : List Nat}
    (source : src.length = (ofShape s).elems.toNat) :
    ∃ packed : List Nat, packed.length = packedCount (ofShape s) ∧
      (∀ (dst : List Nat) (inParallel : Bool) (threads : Int) (steps : List (Write Nat)),
        dst.length = packedCount (ofShape s) →
        steps.Perm (packSteps (ofShape s) neon fp16 src inParallel threads) →
          run steps dst = packed) ∧
      (∀ n h w c, n < (ofShape s).n.toNat → h < (ofShape s).h.toNat →
        w < (ofShape s).w.toNat → (ofShape s).c.toNat ≤ c →
        c / 4 < (cBlocks (ofShape s).c).toNat →
          packed[packedIndex (cBlocks (ofShape s).c).toNat (ofShape s).h.toNat
            (ofShape s).w.toNat n (c / 4) h w (c % 4)]? = some 0) ∧
      ∀ (out : List Nat) (inParallel : Bool) (threads : Int) (steps : List (Write Nat)),
        out.length = src.length →
        steps.Perm (unpackSteps (ofShape s) fp16 packed inParallel threads) →
          run steps out = src.map fun f => loadLane fp16 (storeLane neon fp16 f) := by
  have sized : Sized (ofShape s) :=
    (counted_or_empty representable).imp (fun counted => ⟨counted, size⟩) id
  refine ⟨packedOf (ofShape s) neon fp16 src, ?_, ?_, ?_, ?_⟩
  · rw [packedOf, nc4Layout, length_map, length_range, (products sized).stored]
  · intro dst inParallel threads steps room interleaved
    exact run_packSteps sized neon fp16 src room inParallel threads interleaved
  · intro n h w c batch line column beyond block
    have together : c / 4 * 4 + c % 4 = c := div_add_mod' c 4
    rw [packedOf, getElem?_nc4Layout batch block line column (mod_lt c (by omega)), together,
      if_neg (by omega), storeLane_zero]
  · intro out inParallel threads steps target interleaved
    exact run_unpackSteps sized neon fp16 source (target.trans source) inParallel threads
      interleaved

/-- Five channels in two blocks, on three threads. -/
theorem fiveChannels_roundTrip : ∃ packed : List Nat, packed.length = 16 ∧ packed[13]? = some 0 ∧
      unpackNc4 (ofShape [1, 5, 1, 2]) packed (List.replicate 10 0) true false 3 =
        [1, 2, 3, 4, 5, 6, 7, 8, 9, 10].map fun f => loadLane true (storeLane false true f) := by
  have representable : Representable [1, 5, 1, 2] := ⟨by decide, by decide⟩
  have source : [1, 2, 3, 4, 5, 6, 7, 8, 9, 10].length = (ofShape [1, 5, 1, 2]).elems.toNat := by
    decide
  obtain ⟨packed, length, -, padding, back⟩ :=
    nc4_roundTrips representable (by decide) false true source
  refine ⟨packed, length, ?_, ?_⟩
  · exact padding 0 0 1 5 (by decide) (by decide) (by decide) (by decide) (by decide)
  · exact back _ false 3 _ rfl (List.Perm.refl _)

end RoundTrip

end Vknn.BoundaryPack
