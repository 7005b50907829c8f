import Vknn.Lib.CellWrites
import Mathlib.Tactic.IntervalCases

/-!
# Packed weight codes

A quantized weight is a `K × N` grid of small signed codes.  Packed, the grid is
kept row after row: an int8 row one byte a code, padded to whole 8-byte pairs of
words, and an int4 row two codes a byte, the even column in the low half, padded
to whole 4-byte words.  Reading a code back takes its own path through the bytes,
sign and all.

Dequantization fills the grid with the codes scaled, and then writes the rows
kept out of the quantization over it.  A row index that names no row of the grid
is passed over.
-/

namespace Vknn.QuantPacking

open CellWrites List

/-! ## Rows of packed bytes -/

/-- Bytes of a packed int4 row: two codes each, up to a whole 4-byte word. -/
def int4RowBytes (n : Nat) : Nat := 4 * ((n + 7) / 8)

/-- Bytes of a packed int8 row, up to a whole pair of words. -/
def int8RowBytes (n : Nat) : Nat := 8 * ((n + 7) / 8)

def int4GroupCount (k group : Nat) : Nat := (k + group - 1) / group

def nibbleOf (q : Int8) : UInt8 := q.toUInt8 &&& 0xF

def int4Pack (q : List Int8) (K N : Nat) : List UInt8 :=
  let rowBytes := int4RowBytes N
  (List.range K).foldl (fun packed k =>
    (List.range N).foldl (fun packed n =>
      let nibble := nibbleOf (q.getD (k * N + n) 0)
      packed.modify (k * rowBytes + n / 2) fun byte =>
        if n % 2 = 1 then byte ||| (nibble <<< 4) else byte ||| nibble) packed)
    (List.replicate (K * rowBytes) 0)

def int8Pack (q : List Int8) (K N : Nat) : List UInt8 :=
  let rowBytes := int8RowBytes N
  (List.range K).foldl (fun packed k =>
    (List.range N).foldl (fun packed n =>
      packed.set (k * rowBytes + n) (q.getD (k * N + n) 0).toUInt8) packed)
    (List.replicate (K * rowBytes) 0)

def signExtend (nibble : UInt8) : Int := (nibble <<< 4).toInt8.toInt >>> (4 : Nat)

/-- The nibble at a place of a packed payload. -/
def rawNibble (packed : List UInt8) (rowBytes k n : Nat) : UInt8 :=
  let byte := packed.getD (k * rowBytes + n / 2) 0
  if n % 2 = 1 then byte >>> 4 else byte &&& 0xF

def int4At (packed : List UInt8) (rowBytes k n : Nat) : Int :=
  signExtend (rawNibble packed rowBytes k n)

def int8At (packed : List UInt8) (rowBytes k n : Nat) : Int :=
  (packed.getD (k * rowBytes + n) 0).toInt8.toInt

/-! ## Dequantization -/

/-- What the decoders ask of floating point. -/
structure FloatArith (F : Type) where
  zero : F
  ofInt : Int → F
  mul : F → F → F
  halfToFloat : UInt16 → F

variable {F : Type} (arith : FloatArith F)

/-- The shared body of the decoders: the grid from `value`, then the kept rows over it. -/
def dequant (value : Nat → Nat → F) (oidx : List Int) (oval : List UInt16) (K N nOut : Nat) :
    List F :=
  let w := (List.range K).foldl (fun w k =>
    (List.range N).foldl (fun w n => w.set (k * N + n) (value k n)) w)
    (List.replicate (K * N) arith.zero)
  (List.range nOut).foldl (fun w j =>
    let k := oidx.getD j 0
    if k < 0 ∨ (K : Int) ≤ k then w
    else (List.range N).foldl (fun w n =>
      w.set (k.toNat * N + n) (arith.halfToFloat (oval.getD (j * N + n) 0))) w) w

def scaleAt (scales : List UInt16) (N group k n : Nat) : F :=
  arith.halfToFloat (scales.getD (k / group * N + n) 0)

def int4Dequant (packed : List UInt8) (scales : List UInt16) (oidx : List Int) (oval : List UInt16)
    (K N group nOut : Nat) : List F :=
  dequant arith (fun k n =>
    arith.mul (arith.ofInt (int4At packed (int4RowBytes N) k n)) (scaleAt arith scales N group k n))
    oidx oval K N nOut

def int8Dequant (packed : List UInt8) (scales : List UInt16) (oidx : List Int) (oval : List UInt16)
    (K N group nOut : Nat) : List F :=
  dequant arith (fun k n =>
    arith.mul (arith.ofInt (int8At packed (int8RowBytes N) k n)) (scaleAt arith scales N group k n))
    oidx oval K N nOut

def lut4Dequant (packed : List UInt8) (codebook scales : List UInt16) (oidx : List Int)
    (oval : List UInt16) (K N group nOut : Nat) : List F :=
  dequant arith (fun k n =>
    -- `int4At` has a sign, so it is masked back to an index
    let idx := int4At packed (int4RowBytes N) k n % 16
    arith.mul (arith.halfToFloat (codebook.getD idx.toNat 0)) (scaleAt arith scales N group k n))
    oidx oval K N nOut

/-! ## What is packed -/

/-- A grid of codes. -/
structure Codes (K N : Nat) where
  q : List Int8
  size : q.length = K * N

/-- The scales of a grid: a group size, and one scale for each group and column. -/
structure Scales (K N : Nat) where
  group : Nat
  positive : 0 < group
  words : List UInt16
  size : words.length = int4GroupCount K group * N

/-- The rows kept out of the quantization, with their values. -/
structure Outliers (N : Nat) where
  oidx : List Int
  oval : List UInt16
  size : oval.length = oidx.length * N

namespace Codes

variable {K N : Nat} (codes : Codes K N)

/-- The code of a place; there is none in the padding. -/
def code (k n : Nat) : Int8 := if n < N then codes.q.getD (k * N + n) 0 else 0

def Narrow : Prop := ∀ k < K, ∀ n < N, -8 ≤ (codes.code k n).toInt ∧ (codes.code k n).toInt ≤ 7

/-- Every code is an index of a table of sixteen. -/
def Index : Prop := ∀ k < K, ∀ n < N, 0 ≤ (codes.code k n).toInt ∧ (codes.code k n).toInt < 16

theorem code_inside {k n : Nat} (column : n < N) : codes.code k n = codes.q.getD (k * N + n) 0 :=
  if_pos column

theorem code_outside {k n : Nat} (padding : N ≤ n) : codes.code k n = 0 :=
  if_neg (Nat.not_lt.mpr padding)

end Codes

/-! ## The packed bytes -/

/-- The step that packs a nibble of a row. -/
def nibbleWrite (n : Nat) (nibble : UInt8) : Write UInt8 :=
  ⟨n / 2, fun byte => if n % 2 = 1 then byte ||| (nibble <<< 4) else byte ||| nibble⟩

@[simp] theorem nibbleWrite_cell (n : Nat) (nibble : UInt8) :
    (nibbleWrite n nibble).cell = n / 2 := rfl

theorem nibbleWrite_odd {n : Nat} (odd : n % 2 = 1) (nibble byte : UInt8) :
    (nibbleWrite n nibble).change byte = byte ||| (nibble <<< 4) := if_pos odd

theorem nibbleWrite_even {n : Nat} (even : n % 2 = 0) (nibble byte : UInt8) :
    (nibbleWrite n nibble).change byte = byte ||| nibble := if_neg (by omega)

def nibbleWrites (q : List Int8) (N k : Nat) : List (Write UInt8) :=
  (List.range N).map fun n => nibbleWrite n (nibbleOf (q.getD (k * N + n) 0))

def byteWrites (q : List Int8) (N k : Nat) : List (Write UInt8) :=
  (List.range N).map fun n => Write.put n (q.getD (k * N + n) 0).toUInt8

theorem int4Pack_eq_run (q : List Int8) (K N : Nat) : int4Pack q K N =
      run ((List.range K).flatMap fun k =>
        (nibbleWrites q N k).map fun w => ⟨k * int4RowBytes N + w.cell, w.change⟩)
        (List.replicate (K * int4RowBytes N) 0) := by
  simp only [int4Pack, foldl_modify, foldl_run, nibbleWrites, map_map]
  rfl

theorem int8Pack_eq_run (q : List Int8) (K N : Nat) : int8Pack q K N =
      run ((List.range K).flatMap fun k =>
        (byteWrites q N k).map fun w => ⟨k * int8RowBytes N + w.cell, w.change⟩)
        (List.replicate (K * int8RowBytes N) 0) := by
  simp only [int8Pack, foldl_set, foldl_run, byteWrites, map_map]
  rfl

theorem length_int4Pack (q : List Int8) (K N : Nat) :
    (int4Pack q K N).length = K * int4RowBytes N := by
  rw [int4Pack_eq_run, length_run, length_replicate]

theorem length_int8Pack (q : List Int8) (K N : Nat) :
    (int8Pack q K N).length = K * int8RowBytes N := by
  rw [int8Pack_eq_run, length_run, length_replicate]

/-- After the columns so far, a byte holds the nibbles of those that fall into it. -/
theorem settled_nibbles (code : Nat → Int8) (M b : Nat) :
    settled ((List.range M).map fun n => nibbleWrite n (nibbleOf (code n))) b 0 =
      (if 2 * b < M then nibbleOf (code (2 * b)) else 0) |||
        (if 2 * b + 1 < M then nibbleOf (code (2 * b + 1)) <<< 4 else 0) := by
  induction M with
  | zero => simp
  | succ M ih =>
    rw [range_succ, map_append, settled_append, ih, map_singleton]
    by_cases even : M = 2 * b
    · have here : M / 2 = b := by omega
      rw [settled_here here, nibbleWrite_even (by omega), if_neg (by omega), if_neg (by omega),
        if_pos (by omega), if_neg (by omega), even]
      simp
    by_cases odd : M = 2 * b + 1
    · have here : M / 2 = b := by omega
      rw [settled_here here, nibbleWrite_odd (by omega), if_pos (by omega), if_neg (by omega),
        if_pos (by omega), if_pos (by omega), odd]
      simp
    · have elsewhere : M / 2 ≠ b := by omega
      have same : (2 * b < M + 1 ↔ 2 * b < M) ∧ (2 * b + 1 < M + 1 ↔ 2 * b + 1 < M) := by omega
      rw [settled_elsewhere (by simpa using elsewhere)]
      simp only [same]

section Bytes

variable {K N : Nat} (codes : Codes K N)

theorem blank_row {w k b : Nat} (row : k < K) (inside : b < w) :
    (List.replicate (K * w) (0 : UInt8))[k * w + b]? = some 0 := by
  rw [getElem?_replicate, if_pos]
  calc k * w + b < (k + 1) * w := by rw [Nat.succ_mul]; omega
    _ ≤ K * w := Nat.mul_le_mul_right _ row

/-- A byte of a packed int4 row holds the codes of its two columns. -/
theorem getD_int4Pack {k b : Nat} (row : k < K) (inside : b < int4RowBytes N) :
    (int4Pack codes.q K N).getD (k * int4RowBytes N + b) 0 =
      nibbleOf (codes.code k (2 * b)) ||| (nibbleOf (codes.code k (2 * b + 1)) <<< 4) := by
  have within : ∀ y < K, ∀ w ∈ nibbleWrites codes.q N y, w.cell < int4RowBytes N := by
    intro y _ w listed
    obtain ⟨n, small, rfl⟩ := mem_map.mp listed
    have column : n < N := mem_range.mp small
    show n / 2 < 4 * ((N + 7) / 8)
    omega
  rw [getD_eq_getElem?_getD, int4Pack_eq_run, getElem?_run, blank_row row inside, Option.map_some,
    Option.getD_some, settled_row row inside within, nibbleWrites,
    settled_nibbles fun n => codes.q.getD (k * N + n) 0]
  have blank : nibbleOf 0 = 0 := rfl
  have shifted : ((0 : UInt8) <<< 4) = 0 := rfl
  unfold Codes.code
  split <;> split <;> simp [blank, shifted]

/-- A byte of a packed int8 row holds the code of its column. -/
theorem getD_int8Pack {k c : Nat} (row : k < K) (inside : c < int8RowBytes N) :
    (int8Pack codes.q K N).getD (k * int8RowBytes N + c) 0 = (codes.code k c).toUInt8 := by
  have within : ∀ y < K, ∀ w ∈ byteWrites codes.q N y, w.cell < int8RowBytes N := by
    intro y _ w listed
    obtain ⟨n, small, rfl⟩ := mem_map.mp listed
    have column : n < N := mem_range.mp small
    show n < 8 * ((N + 7) / 8)
    omega
  rw [getD_eq_getElem?_getD, int8Pack_eq_run, getElem?_run, blank_row row inside, Option.map_some,
    Option.getD_some, settled_row row inside within]
  have stored := settled_puts 0 N c (fun n => (codes.q.getD (k * N + n) 0).toUInt8) 0
  simp only [Nat.zero_add] at stored
  rw [byteWrites, stored]
  unfold Codes.code
  split <;> rfl

end Bytes

/-! ## Reading a code back -/

theorem low_of_shared (x y : UInt8) :
    ((x &&& (0xF : UInt8)) ||| ((y &&& (0xF : UInt8)) <<< 4)) &&& (0xF : UInt8) =
      x &&& (0xF : UInt8) := by
  obtain ⟨x⟩ := x
  obtain ⟨y⟩ := y
  apply UInt8.eq_of_toBitVec_eq
  simp
  ext i inside
  simp
  interval_cases i <;> simp

theorem high_of_shared (x y : UInt8) :
    ((x &&& (0xF : UInt8)) ||| ((y &&& (0xF : UInt8)) <<< 4)) >>> 4 = y &&& (0xF : UInt8) := by
  obtain ⟨x⟩ := x
  obtain ⟨y⟩ := y
  apply UInt8.eq_of_toBitVec_eq
  simp
  ext i inside
  simp
  interval_cases i <;> simp

theorem signExtend_nibbleOf : ∀ c : Int8, -8 ≤ c.toInt → c.toInt ≤ 7 →
    signExtend (nibbleOf c) = c.toInt := by
  intro ⟨⟨c⟩⟩
  revert c
  decide

theorem mod_signExtend_nibbleOf : ∀ c : Int8, 0 ≤ c.toInt → c.toInt < 16 →
    signExtend (nibbleOf c) % 16 = c.toInt := by
  intro ⟨⟨c⟩⟩
  revert c
  decide

theorem toInt8_toUInt8 (c : Int8) : c.toUInt8.toInt8 = c := by rfl

section Reading

variable {K N : Nat} (codes : Codes K N)

/-- The nibble at a place is the one packed for it, padding included. -/
theorem rawNibble_int4Pack {k n : Nat} (row : k < K) (inside : n < 2 * int4RowBytes N) :
    rawNibble (int4Pack codes.q K N) (int4RowBytes N) k n = nibbleOf (codes.code k n) := by
  unfold rawNibble
  rw [getD_int4Pack codes row (by omega)]
  by_cases odd : n % 2 = 1
  · have column : 2 * (n / 2) + 1 = n := by omega
    rw [if_pos odd, column]
    exact high_of_shared _ _
  · have column : 2 * (n / 2) = n := by omega
    rw [if_neg odd, column]
    exact low_of_shared _ _

theorem int8At_int8Pack {k n : Nat} (row : k < K) (inside : n < int8RowBytes N) :
    int8At (int8Pack codes.q K N) (int8RowBytes N) k n = (codes.code k n).toInt := by
  rw [int8At, getD_int8Pack codes row inside, toInt8_toUInt8]

end Reading

/-! ## The dequantized grid -/

section Dequantized

variable (value : Nat → Nat → F) (oidx : List Int) (oval : List UInt16) (K N : Nat)

/-- The steps that write one kept row. -/
def keptWrites (j : Nat) : List (Write F) :=
  if oidx.getD j 0 < 0 ∨ (K : Int) ≤ oidx.getD j 0 then []
  else (List.range N).map fun n =>
    Write.put ((oidx.getD j 0).toNat * N + n) (arith.halfToFloat (oval.getD (j * N + n) 0))

def gridWrites : List (Write F) :=
  (List.range K).flatMap fun k =>
    ((List.range N).map fun n => Write.put n (value k n)).map fun w => ⟨k * N + w.cell, w.change⟩

theorem dequant_eq_run (nOut : Nat) : dequant arith value oidx oval K N nOut =
      run ((List.range nOut).flatMap (keptWrites arith oidx oval K N))
        (run (gridWrites value K N) (List.replicate (K * N) arith.zero)) := by
  have kept : ∀ (w : List F) (j : Nat), (if oidx.getD j 0 < 0 ∨ (K : Int) ≤ oidx.getD j 0 then w
        else run ((List.range N).map fun n => Write.put ((oidx.getD j 0).toNat * N + n)
          (arith.halfToFloat (oval.getD (j * N + n) 0))) w) =
        run (keptWrites arith oidx oval K N j) w := by
    intro w j
    unfold keptWrites
    split
    · rfl
    · rfl
  simp only [dequant, foldl_set, kept, foldl_run, gridWrites, map_map]
  rfl

theorem length_dequant (nOut : Nat) : (dequant arith value oidx oval K N nOut).length = K * N := by
  rw [dequant_eq_run, length_run, length_run, length_replicate]

variable {oidx K N}

variable {j k n nOut : Nat}

theorem keptWrites_elsewhere (column : n < N) (other : oidx.getD j 0 ≠ k) :
    ∀ w ∈ keptWrites arith oidx oval K N j, w.cell ≠ k * N + n := by
  intro w listed
  unfold keptWrites at listed
  split at listed
  · exact absurd listed not_mem_nil
  · rename_i inside
    obtain ⟨c, small, rfl⟩ := mem_map.mp listed
    have small : c < N := mem_range.mp small
    intro here
    have here : (oidx.getD j 0).toNat * N + c = k * N + n := here
    have row_j : ((oidx.getD j 0).toNat * N + c) / N = (oidx.getD j 0).toNat := by
      rw [Nat.mul_comm, Nat.mul_add_div (by omega), Nat.div_eq_of_lt small, Nat.add_zero]
    have row_k : (k * N + n) / N = k := by
      rw [Nat.mul_comm, Nat.mul_add_div (by omega), Nat.div_eq_of_lt column, Nat.add_zero]
    rw [here, row_k] at row_j
    omega

theorem settled_keptWrites (row : k < K) (column : n < N) (named : oidx.getD j 0 = k)
    (a : F) : settled (keptWrites arith oidx oval K N j) (k * N + n) a =
      arith.halfToFloat (oval.getD (j * N + n) 0) := by
  have inside : ¬ ((k : Int) < 0 ∨ (K : Int) ≤ k) := by omega
  rw [keptWrites, named, if_neg inside, Int.toNat_natCast,
    settled_puts (k * N) N n fun n => arith.halfToFloat (oval.getD (j * N + n) 0), if_pos column]

theorem settled_lastNaming (row : k < K) (column : n < N) (entry : j < nOut)
    (named : oidx.getD j 0 = k) (last : ∀ i < nOut, j < i → oidx.getD i 0 ≠ k) (a : F) :
    settled ((List.range nOut).flatMap (keptWrites arith oidx oval K N)) (k * N + n) a =
      arith.halfToFloat (oval.getD (j * N + n) 0) := by
  induction nOut with
  | zero => exact absurd entry (Nat.not_lt_zero j)
  | succ nOut ih =>
    rw [range_succ, flatMap_append, flatMap_singleton, settled_append]
    by_cases final : j = nOut
    · rw [← final, settled_keptWrites arith oval row column named]
    · have other := last nOut (by omega) (by omega)
      rw [settled_elsewhere (keptWrites_elsewhere arith oval column other)]
      exact ih (by omega) fun i below => last i (by omega)

/-- Every place of the grid, before and after the kept rows. -/
theorem getElem?_dequant (row : k < K) (column : n < N) :
    (dequant arith value oidx oval K N nOut)[k * N + n]? =
      some (settled ((List.range nOut).flatMap (keptWrites arith oidx oval K N)) (k * N + n)
        (value k n)) := by
  have start : (List.replicate (K * N) arith.zero)[k * N + n]? = some arith.zero := by
    rw [getElem?_replicate, if_pos]
    calc k * N + n < (k + 1) * N := by rw [Nat.succ_mul]; omega
      _ ≤ K * N := Nat.mul_le_mul_right _ row
  have within : ∀ y < K, ∀ w ∈ (List.range N).map fun n => Write.put n (value y n), w.cell < N := by
    intro y _ w listed
    obtain ⟨c, small, rfl⟩ := mem_map.mp listed
    exact mem_range.mp small
  have stored := settled_puts 0 N n (value k) arith.zero
  simp only [Nat.zero_add] at stored
  rw [dequant_eq_run, getElem?_run, getElem?_run, start, gridWrites, Option.map_some,
    settled_row row column within, stored, if_pos column, Option.map_some]

end Dequantized

/-! ## The round trip -/

/-- The kept rows override exactly the rows they name: a row that is named holds the values of the
last entry naming it, and every other row what it was dequantized to. -/
def Overridden {K N : Nat} (kept : Outliers N) (value : Nat → Nat → F) (w : List F) : Prop :=
  w.length = K * N ∧ ∀ k < K, ∀ n < N, (∀ j < kept.oidx.length, kept.oidx.getD j 0 = k →
      (∀ i < kept.oidx.length, j < i → kept.oidx.getD i 0 ≠ k) →
      w[k * N + n]? = some (arith.halfToFloat (kept.oval.getD (j * N + n) 0))) ∧
    ((∀ j < kept.oidx.length, kept.oidx.getD j 0 ≠ k) → w[k * N + n]? = some (value k n))

theorem overridden_dequant {K N : Nat} (kept : Outliers N) {value read : Nat → Nat → F}
    (same : ∀ k < K, ∀ n < N, read k n = value k n) :
    Overridden (K := K) arith kept value
      (dequant arith read kept.oidx kept.oval K N kept.oidx.length) := by
  refine ⟨length_dequant arith read kept.oidx kept.oval K N _, ?_⟩
  intro k row n column
  constructor
  · intro j entry named last
    rw [getElem?_dequant arith read kept.oval row column,
      settled_lastNaming arith kept.oval row column entry named last]
  · intro unnamed
    have untouched : ∀ w ∈ (List.range kept.oidx.length).flatMap
        (keptWrites arith kept.oidx kept.oval K N), w.cell ≠ k * N + n := by
      intro w listed
      obtain ⟨j, entry, of_j⟩ := mem_flatMap.mp listed
      exact keptWrites_elsewhere arith kept.oval column (unnamed j (mem_range.mp entry)) w of_j
    rw [getElem?_dequant arith read kept.oval row column, settled_elsewhere untouched,
      same k row n column]

section RoundTrip

variable {K N : Nat} (codes : Codes K N)

/-- An int8 payload gives back its codes and is zero where rows are padded. -/
def PacksInt8 : Prop :=
  (int8Pack codes.q K N).length = K * int8RowBytes N ∧ ∀ k < K,
    (∀ n < N, int8At (int8Pack codes.q K N) (int8RowBytes N) k n = (codes.code k n).toInt) ∧
    ∀ c, N ≤ c → c < int8RowBytes N → (int8Pack codes.q K N).getD (k * int8RowBytes N + c) 0 = 0

/-- An int4 payload gives back codes of four bits, with their sign or as an index, and is zero where
rows are padded. -/
def PacksInt4 : Prop :=
  (int4Pack codes.q K N).length = K * int4RowBytes N ∧ ∀ k < K, (codes.Narrow → ∀ n < N,
      int4At (int4Pack codes.q K N) (int4RowBytes N) k n = (codes.code k n).toInt) ∧
    (codes.Index → ∀ n < N,
      int4At (int4Pack codes.q K N) (int4RowBytes N) k n % 16 = (codes.code k n).toInt) ∧
    (∀ n, N ≤ n → n < 2 * int4RowBytes N →
      rawNibble (int4Pack codes.q K N) (int4RowBytes N) k n = 0) ∧
    ∀ b, N ≤ 2 * b → b < int4RowBytes N → (int4Pack codes.q K N).getD (k * int4RowBytes N + b) 0 = 0

theorem packsInt8 : PacksInt8 codes := by
  refine ⟨length_int8Pack codes.q K N, fun k row => ⟨?_, ?_⟩⟩
  · intro n column
    have inside : n < int8RowBytes N := by
      unfold int8RowBytes
      omega
    exact int8At_int8Pack codes row inside
  · intro c padding inside
    rw [getD_int8Pack codes row inside, codes.code_outside padding]
    rfl

theorem packsInt4 : PacksInt4 codes := by
  have inside : ∀ n < N, n < 2 * int4RowBytes N := by
    intro n column
    unfold int4RowBytes
    omega
  refine ⟨length_int4Pack codes.q K N, fun k row => ⟨?_, ?_, ?_, ?_⟩⟩
  · intro narrow n column
    rw [int4At, rawNibble_int4Pack codes row (inside n column)]
    exact signExtend_nibbleOf _ (narrow k row n column).1 (narrow k row n column).2
  · intro index n column
    rw [int4At, rawNibble_int4Pack codes row (inside n column)]
    exact mod_signExtend_nibbleOf _ (index k row n column).1 (index k row n column).2
  · intro n padding held
    rw [rawNibble_int4Pack codes row held, codes.code_outside padding]
    rfl
  · intro b padding held
    rw [getD_int4Pack codes row held, codes.code_outside padding,
      codes.code_outside (show N ≤ 2 * b + 1 by omega)]
    rfl

theorem div_lt_int4GroupCount {k K group : Nat} (positive : 0 < group) (row : k < K) :
    k / group < int4GroupCount K group := by
  unfold int4GroupCount
  rw [Nat.div_lt_iff_lt_mul positive]
  have whole := Nat.div_add_mod (K + group - 1) group
  have rest := Nat.mod_lt (K + group - 1) positive
  have commuted := Nat.mul_comm group ((K + group - 1) / group)
  omega

theorem Scales.inside (scales : Scales K N) {k n : Nat} (row : k < K) (column : n < N) :
    k / scales.group * N + n < scales.words.length := by
  have group := div_lt_int4GroupCount scales.positive row
  rw [scales.size]
  calc k / scales.group * N + n < (k / scales.group + 1) * N := by rw [Nat.succ_mul]; omega
    _ ≤ int4GroupCount K scales.group * N := Nat.mul_le_mul_right _ group

variable (scales : Scales K N) (kept : Outliers N) (codebook : List UInt16)

/-- What a decoder should make of a grid of codes, given what a code stands for. -/
def Decodes (meaning : Int8 → F) (w : List F) : Prop :=
  Overridden (K := K) arith kept (fun k n => arith.mul (meaning (codes.code k n))
    (scaleAt arith scales.words N scales.group k n)) w

/-- **Packing a weight loses nothing.**  For every grid of codes, the payload gives each code back
and is zero in its padding, every scale read is one the grid has, and each decoder makes of the
packed codes the codes scaled, with exactly the rows named by the kept entries overridden. -/
theorem packing_roundTrips : PacksInt8 codes ∧ PacksInt4 codes ∧
      (∀ k < K, ∀ n < N, k / scales.group * N + n < scales.words.length) ∧
      Decodes arith codes scales kept (fun c => arith.ofInt c.toInt)
        (int8Dequant arith (int8Pack codes.q K N) scales.words kept.oidx kept.oval K N scales.group
          kept.oidx.length) ∧
      (codes.Narrow → Decodes arith codes scales kept (fun c => arith.ofInt c.toInt)
        (int4Dequant arith (int4Pack codes.q K N) scales.words kept.oidx kept.oval K N scales.group
          kept.oidx.length)) ∧
      (codes.Index → Decodes arith codes scales kept
          (fun c => arith.halfToFloat (codebook.getD c.toInt.toNat 0))
          (lut4Dequant arith (int4Pack codes.q K N) codebook scales.words kept.oidx kept.oval K N
            scales.group kept.oidx.length)) := by
  refine ⟨packsInt8 codes, packsInt4 codes, fun k row n column => scales.inside row column,
    ?_, ?_, ?_⟩
  · refine overridden_dequant arith kept fun k row n column => ?_
    rw [((packsInt8 codes).2 k row).1 n column]
  · intro narrow
    refine overridden_dequant arith kept fun k row n column => ?_
    rw [((packsInt4 codes).2 k row).1 narrow n column]
  · intro index
    refine overridden_dequant arith kept fun k row n column => ?_
    rw [((packsInt4 codes).2 k row).2.1 index n column]

/-- Three codes, the last alone in its byte, and two bytes of padding. -/
example : int4Pack [1, -2, 7] 1 3 = [0xE1, 0x07, 0, 0] := by decide

end RoundTrip

end Vknn.QuantPacking
