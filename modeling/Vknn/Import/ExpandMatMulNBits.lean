import Vknn.Core.KvQuantError
import Vknn.Core.ModelRoundTrip
import Vknn.Core.QuantPacking
import Vknn.Import.QuantSteps

/-!
# A packed product of an exporter

The exporter's product keeps its weight in blocks along the reduction axis: for each
output column its blocks one after the other, two codes of four bits to a byte, and a
scale for each block.  A code stands for its distance from 8.  The import repacks the
weight, row after row, for the packed weights the engine has: the distance from 8 is
what those store, and the scales become halves.

Only the plain form is taken: codes of four bits, blocks of even length, no zero points.
The last block may be cut short.
-/

namespace Vknn.Import.NBits

open Quantize CellWrites List Int
open Cpu (fp32FromInt64 int64OfFp32)
open KvQuant (signedUnits)
open QuantPacking (int4Pack int4Dequant)
open Wire (leBytes leInt leNat)

/-! ## Host values -/

/-- Bytes of a stored lane; types that are widened at import have lanes of single precision. -/
def laneBytes : DType → Nat
  | .float16 => 2
  | .int64 => 8
  | .uint8 => 1
  | .int8 => 1
  | _ => 4

def decodeLane : DType → HostBuffer → Nat
  | .float16, lane => halfToFloat (leNat lane)
  | .int64, lane => fp32FromInt64 (leInt 8 lane)
  | .uint8, lane => fp32FromInt64 (leNat lane)
  | .int8, lane => fp32FromInt64 (leInt 1 lane)
  | _, lane => leNat lane

/-- The elements of an initializer in single precision; those past its bytes are zero. -/
def initFloats (g : Graph) (id : TensorId) : List Nat :=
  let hb := bytesOf g id
  let dt := (g.desc id).dtype
  let n := numElements (g.desc id).shape
  let n := if n ≤ 0 then (if 0 < dt.dtypeSize then hb.length / dt.dtypeSize else 0) else n.toNat
  let lanes := min n (hb.length / laneBytes dt)
  (ModelIo.Reader.words (laneBytes dt) lanes hb).map (decodeLane dt) ++ List.replicate (n - lanes) 0

/-! ## The pass -/

/-- The code of a weight out of the exporter's blocks. -/
def nibbleAt (bqf : List Nat) (kBlocks bs k n : Nat) : UInt8 :=
  let byte := UInt8.ofInt
    (int64OfFp32 (bqf.getD (n * kBlocks * (bs / 2) + k / bs * (bs / 2) + k % bs / 2) 0))
  if k % 2 = 1 then byte >>> 4 else byte &&& 0xF

def codes (bqf : List Nat) (kBlocks bs K N : Nat) : List Int8 :=
  (List.range N).foldl (fun q n =>
    (List.range K).foldl (fun q k =>
      q.set (k * N + n) (Int8.ofInt ((nibbleAt bqf kBlocks bs k n).toNat - 8))) q)
    (List.replicate (K * N) 0)

def scaleWords (scf : List Nat) (kBlocks N : Nat) : List Nat :=
  (List.range N).foldl (fun scales n =>
    (List.range kBlocks).foldl (fun scales b =>
      scales.set (b * N + n) (floatToHalfSat (scf.getD (n * kBlocks + b) 0))) scales)
    (List.replicate (kBlocks * N) 0)

def kWqVersion : Int := 1

/-- What the repacked weight is called. -/
def weightName (g : Graph) (nd : Node) (bq : TensorId) : Str :=
  if (g.desc bq).name = [] then nd.name ++ str "#w" else (g.desc bq).name

/-- A constant that is taken out of the graph. -/
def dropConstant (g : Graph) (t : TensorId) : Graph :=
  { g with initializers := g.initializers.erase t }.updateDesc t
    fun d => { d with isInitializer := false }

/-- The attributes of a packed weight. -/
def wqEntries (K N bs : Int) (scales : TensorId) : List (Str × Int) :=
  [(Quantize.kWq, kWqVersion), (kWqK, K), (kWqN, N), (kWqGroup, bs), (kWqNOut, 0), (kWqLayout, 0),
    (kWqScales, scales)]

/-- The node with its weight and scales made anew, and the old ones dropped. -/
def repack (g : Graph) (nd : Node) (K N bs : Int) (bqf scf : List Nat) : Graph × Node :=
  let bq := nd.inputs.getD 1 kNoTensor
  let sc := nd.inputs.getD 2 kNoTensor
  let kBlocks := (K + bs - 1) / bs
  let packed := int4Pack (codes bqf kBlocks.toNat bs.toNat K.toNat N.toNat) K.toNat N.toNat
  let scales := scaleWords scf kBlocks.toNat N.toNat
  let wname := weightName g nd bq
  let weight := addConstant g
    { name := wname ++ str "#i4w", shape := [K, N], dtype := .float16, isInitializer := true } packed
  let scaleId := addConstant weight.1
    { name := wname ++ str "#i4s", shape := [kBlocks * N], dtype := .float16, isInitializer := true }
    (scales.flatMap (leBytes 2))
  let attr := setInts {} (wqEntries K N bs scaleId.2)
  (dropConstant (dropConstant scaleId.1 bq) sc,
    { nd with type := .matMul, inputs := [nd.inputs.getD 0 kNoTensor, weight.2], attr := attr })

def expandMatMulNBits (g : Graph) (nd : Node) : Option (Graph × Node) :=
  let K := nd.attr.geti (str "K") 0
  let N := nd.attr.geti (str "N") 0
  let bs := nd.attr.geti (str "block_size") 0
  if nd.attr.geti (str "bits") 4 ≠ 4 ∨ K ≤ 0 ∨ N ≤ 0 ∨ bs ≤ 0 ∨ bs % 2 = 1 then none
  else if (nd.inputs.drop 3).any fun t => t ≠ kNoTensor then none
  else
    let bq := nd.inputs.getD 1 kNoTensor
    let sc := nd.inputs.getD 2 kNoTensor
    if !g.isInitializer bq || !g.isInitializer sc then none
    else
      let kBlocks := (K + bs - 1) / bs
      let bqf := initFloats g bq
      let scf := initFloats g sc
      if (bqf.length : Int) ≠ N * kBlocks * (bs / 2) ∨ (scf.length : Int) ≠ N * kBlocks then none
      else some (repack g nd K N bs bqf scf)

/-! ## What the operator and the packed weight mean -/

/-- A code of the operator: block by block, the even one of two in the low half of their byte. -/
def blockCode (B : List UInt8) (kBlocks bs k n : Nat) : Int :=
  let byte := (B.getD ((n * kBlocks + k / bs) * (bs / 2) + k % bs / 2) 0).toNat
  if k % bs % 2 = 0 then byte % 16 else byte / 16

def blockScale (scf : List Nat) (kBlocks bs k n : Nat) : Nat := scf.getD (n * kBlocks + k / bs) 0

/-- The exact value of a weight with a scale, in units of single precision; the zero point is the
default one. -/
def weighted (code : Int) (scale : Nat) : Int := (code - 8) * signedUnits scale

/-- Exact numbers in units of single precision. -/
def exactUnits : QuantPacking.FloatArith Int where
  zero := 0
  ofInt := id
  mul := (· * ·)
  halfToFloat h := signedUnits (halfToFloat h.toNat)

/-- The words of a half-precision initializer. -/
def halfWords (hb : HostBuffer) : List UInt16 :=
  (ModelIo.Reader.words 2 (hb.length / 2) hb).map fun word => UInt16.ofNat (leNat word)

/-- The exact values of a node's packed weight. -/
def packedWeight (g : Graph) (nd : Node) : List Int :=
  int4Dequant exactUnits (bytesOf g (nd.inputs.getD 1 kNoTensor))
    (halfWords (bytesOf g (nd.attr.geti kWqScales kNoTensor))) [] []
    (nd.attr.geti kWqK 0).toNat (nd.attr.geti kWqN 0).toNat (nd.attr.geti kWqGroup 1).toNat
    (nd.attr.geti kWqNOut 0).toNat

/-- The value an initializer of bytes holds, in the storage the import gives it. -/
def HoldsBytes (g : Graph) (t : TensorId) (B : List UInt8) : Prop :=
  initFloats g t = B.map fun (b : UInt8) => fp32FromInt64 b.toNat

instance (g : Graph) (t : TensorId) (B : List UInt8) : Decidable (HoldsBytes g t B) :=
  inferInstanceAs (Decidable (_ = _))

/-! ## The codes -/

theorem int64OfFp32_byte : ∀ b < 256, int64OfFp32 (fp32FromInt64 (b : Nat)) = (b : Nat) := by
  decide +kernel

theorem nibbleAt_eq {bqf : List Nat} {B : List UInt8}
    (stored : bqf = B.map fun (b : UInt8) => fp32FromInt64 b.toNat) {bs : Nat} (even : bs % 2 = 0)
    (kBlocks k n : Nat) : ((nibbleAt bqf kBlocks bs k n).toNat : Int) = blockCode B kBlocks bs k n := by
  have zero : fp32FromInt64 ((0 : UInt8).toNat : Int) = 0 := by decide
  have place : n * kBlocks * (bs / 2) + k / bs * (bs / 2) + k % bs / 2 =
      (n * kBlocks + k / bs) * (bs / 2) + k % bs / 2 := by ring
  have parity : k % bs % 2 = k % 2 := Nat.mod_mod_of_dvd k (Nat.dvd_of_mod_eq_zero even)
  unfold nibbleAt blockCode
  dsimp only
  rw [place, parity, stored, ← zero, List.getD_map]
  generalize B.getD ((n * kBlocks + k / bs) * (bs / 2) + k % bs / 2) 0 = b
  have byte : UInt8.ofInt (int64OfFp32 (fp32FromInt64 (b.toNat : Int))) = b := by
    have word : (((b.toNat : Nat) : Int) % 2 ^ 8).toNat = b.toNat := by
      have small := b.toNat_lt
      omega
    rw [int64OfFp32_byte _ b.toNat_lt, UInt8.ofInt, word, UInt8.ofNat_toNat]
  rw [byte]
  by_cases odd : k % 2 = 1
  · rw [if_pos odd, if_neg (by omega), UInt8.toNat_shiftRight, Nat.shiftRight_eq_div_pow]
    rfl
  · rw [if_neg odd, if_pos (by omega), UInt8.toNat_and]
    exact congrArg Nat.cast (and_mask b.toNat 4)

theorem blockCode_bounds (B : List UInt8) (kBlocks bs k n : Nat) :
    0 ≤ blockCode B kBlocks bs k n ∧ blockCode B kBlocks bs k n < 16 := by
  unfold blockCode
  dsimp only
  have byte := (B.getD ((n * kBlocks + k / bs) * (bs / 2) + k % bs / 2) 0).toNat_lt
  split <;> omega

theorem length_codes (bqf : List Nat) (kBlocks bs K N : Nat) :
    (codes bqf kBlocks bs K N).length = K * N := by
  simp only [codes, foldl_set, foldl_run, length_run, length_replicate]

theorem getD_codes (bqf : List Nat) (kBlocks bs : Nat) {K N k n : Nat} (row : k < K)
    (column : n < N) : (codes bqf kBlocks bs K N).getD (k * N + n) 0 =
      Int8.ofInt ((nibbleAt bqf kBlocks bs k n).toNat - 8) := by
  simp only [codes, foldl_set, foldl_run]
  rw [getD_eq_getElem?_getD,
    getElem?_columns K N (fun k n => Int8.ofInt ((nibbleAt bqf kBlocks bs k n).toNat - 8))
      length_replicate row column, Option.getD_some]

def grid (bqf : List Nat) (kBlocks bs K N : Nat) : QuantPacking.Codes K N where
  q := codes bqf kBlocks bs K N
  size := length_codes bqf kBlocks bs K N

/-- **Each code is the operator's, less 8.** -/
theorem code_grid {bqf : List Nat} {B : List UInt8}
    (stored : bqf = B.map fun (b : UInt8) => fp32FromInt64 b.toNat) {bs : Nat} (even : bs % 2 = 0)
    (kBlocks : Nat) {K N k n : Nat} (row : k < K) (column : n < N) :
    ((grid bqf kBlocks bs K N).code k n).toInt = blockCode B kBlocks bs k n - 8 := by
  have bounds := blockCode_bounds B kBlocks bs k n
  rw [QuantPacking.Codes.code_inside _ column, grid, getD_codes bqf kBlocks bs row column,
    nibbleAt_eq stored even, Int8.toInt_ofInt_of_le (by omega) (by omega)]

/-! ## The scales -/

/-- **Each word of the scales is a scale of the operator, narrowed.** -/
theorem getD_halfWords (scf : List Nat) {kBlocks N b n : Nat} (group : b < kBlocks)
    (column : n < N) : ((halfWords ((scaleWords scf kBlocks N).flatMap (leBytes 2))).getD
      (b * N + n) 0).toNat = floatToHalfSat (scf.getD (n * kBlocks + b) 0) := by
  have size : ((scaleWords scf kBlocks N).flatMap (leBytes 2)).length / 2 =
      (scaleWords scf kBlocks N).length := by
    rw [ModelIo.length_flatMap_of_width 2 (leBytes 2) (Wire.length_leBytes 2)]
    exact Nat.mul_div_cancel _ (by omega)
  have stored : (scaleWords scf kBlocks N)[b * N + n]? =
      some (floatToHalfSat (scf.getD (n * kBlocks + b) 0)) := by
    simp only [scaleWords, foldl_set, foldl_run]
    exact getElem?_columns kBlocks N (fun b n => floatToHalfSat (scf.getD (n * kBlocks + b) 0))
      length_replicate group column
  rw [halfWords, size, ModelIo.words_flatMap 2 (leBytes 2) (Wire.length_leBytes 2), map_map,
    getD_eq_getElem?_getD, getElem?_map, stored, Option.map_some, Option.getD_some,
    Function.comp_apply, Wire.leNat_leBytes, UInt16.toNat_ofNat']
  exact Nat.mod_eq_of_lt (Nat.mod_lt_of_lt (floatToHalf_lt _)) |>.trans
    (Nat.mod_eq_of_lt (floatToHalf_lt _))

/-! ## The graph -/

theorem bytesOf_dropConstant (g : Graph) (t u : TensorId) :
    bytesOf (dropConstant g t) u = if u = t then [] else bytesOf g u := by
  unfold dropConstant
  rw [updateDesc_bytes]
  unfold bytesOf
  dsimp only
  rw [Std.ExtTreeMap.getElem?_erase]
  by_cases same : u = t
  · rw [if_pos (Std.LawfulEqCmp.compare_eq_iff_eq.mpr same.symm), if_pos same, Option.getD_none]
  · rw [if_neg fun eq => same (Std.LawfulEqCmp.compare_eq_iff_eq.mp eq).symm, if_neg same]

/-- Taking out a constant leaves the others in place. -/
theorem dropConstant_other {t u : TensorId} (other : u ≠ t) (g : Graph) :
    (dropConstant g t).initializers[u]? = g.initializers[u]? ∧ (dropConstant g t).desc u = g.desc u := by
  have constants : ∀ (g : Graph) (f : TensorDesc → TensorDesc),
      (g.updateDesc t f).initializers = g.initializers := fun g f => by
    unfold Graph.updateDesc
    split <;> rfl
  unfold dropConstant
  constructor
  · rw [constants, Std.ExtTreeMap.getElem?_erase,
      if_neg fun eq => other (Std.LawfulEqCmp.compare_eq_iff_eq.mp eq).symm]
  · exact Onnx.desc_updateDesc_ne other _ _

/-- A new constant leaves those of the table in place. -/
theorem addConstant_other {u : TensorId} {g : Graph} (inside : u < (g.tensors.length : Int))
    (d : TensorDesc) (hb : HostBuffer) :
    (addConstant g d hb).1.initializers[u]? = g.initializers[u]? ∧
      (addConstant g d hb).1.desc u = g.desc u := by
  constructor
  · rw [addConstant_eq, setPayload]
    dsimp only
    rw [Std.ExtTreeMap.getElem?_insert, if_neg]
    · rfl
    · intro eq
      have same := Std.LawfulEqCmp.compare_eq_iff_eq.mp eq
      exact absurd inside (not_lt.mpr same.le)
  · rw [desc_addConstant, if_neg inside.ne]

section Repack

variable {g : Graph} {nd : Node} {K N bs : Nat} {bqf scf : List Nat}

abbrev blocks (K bs : Nat) : Nat := (K + bs - 1) / bs

theorem blocks_cast (positive : 0 < bs) : (((K : Int) + bs - 1) / bs).toNat = blocks K bs := by
  have sum : (K : Int) + bs - 1 = ((K + bs - 1 : Nat) : Int) := by omega
  rw [sum, ← natCast_div, toNat_natCast]

theorem geti_wqEntries {K N bs : Int} {scales : TensorId} {e : Str × Int}
    (mem : e ∈ wqEntries K N bs scales) (d : Int) :
    (setInts {} (wqEntries K N bs scales)).geti e.1 d = e.2 := by
  have keys : (wqEntries K N bs scales).map Prod.fst =
      [kWq, kWqK, kWqN, kWqGroup, kWqNOut, kWqLayout, kWqScales] := rfl
  refine geti_setInts ?_ mem {} d
  rw [keys]
  decide

/-- What the repacked node names, and what is there. -/
structure Repacked (g' : Graph) (nd' : Node) (K N bs : Nat) (bqf scf : List Nat) : Prop where
  weight : bytesOf g' (nd'.inputs.getD 1 kNoTensor) = int4Pack (codes bqf (blocks K bs) bs K N) K N
  scales : bytesOf g' (nd'.attr.geti kWqScales kNoTensor) =
    (scaleWords scf (blocks K bs) N).flatMap (leBytes 2)
  rows : nd'.attr.geti kWqK 0 = K
  columns : nd'.attr.geti kWqN 0 = N
  group : nd'.attr.geti kWqGroup 1 = bs
  kept : nd'.attr.geti kWqNOut 0 = 0

/-- Two constants made one after the other, where two of the table are dropped. -/
theorem bytesOf_made {bq sc : TensorId} (bq_in : bq < (g.tensors.length : Int))
    (sc_in : sc < (g.tensors.length : Int)) (d e : TensorDesc) (first second : HostBuffer) :
    bytesOf (dropConstant (dropConstant (addConstant (addConstant g d first).1 e second).1 bq) sc)
        (addConstant g d first).2 = first ∧
      bytesOf (dropConstant (dropConstant (addConstant (addConstant g d first).1 e second).1 bq) sc)
        (addConstant (addConstant g d first).1 e second).2 = second := by
  have next : (g.tensors.length : Int) < (g.tensors.length + 1 : Nat) := by omega
  have weight : (addConstant g d first).2 = (g.tensors.length : Int) := rfl
  have scale : (addConstant (addConstant g d first).1 e second).2 = ((g.tensors.length + 1 : Nat) : Int) := by
    rw [addConstant_eq]
    dsimp only
    rw [length_addConstant]
  constructor
  · rw [weight, bytesOf_dropConstant, bytesOf_dropConstant, bytesOf_addConstant, bytesOf_addConstant,
      length_addConstant, if_neg sc_in.ne', if_neg bq_in.ne', if_neg next.ne, if_pos rfl]
  · rw [scale, bytesOf_dropConstant, bytesOf_dropConstant, bytesOf_addConstant, length_addConstant,
      if_neg (sc_in.trans next).ne', if_neg (bq_in.trans next).ne', if_pos rfl]

theorem repacked (positive : 0 < bs)
    (bq_in : nd.inputs.getD 1 kNoTensor < (g.tensors.length : Int))
    (sc_in : nd.inputs.getD 2 kNoTensor < (g.tensors.length : Int)) :
    Repacked (repack g nd K N bs bqf scf).1 (repack g nd K N bs bqf scf).2 K N bs bqf scf := by
  have count := @blocks_cast K bs positive
  unfold repack
  simp only [count, toNat_natCast]
  refine ⟨(bytesOf_made bq_in sc_in _ _ _ _).1, ?_, geti_wqEntries (.tail _ (.head _)) 0,
    geti_wqEntries (.tail _ (.tail _ (.head _))) 0,
    geti_wqEntries (.tail _ (.tail _ (.tail _ (.head _)))) 1,
    geti_wqEntries (.tail _ (.tail _ (.tail _ (.tail _ (.head _))))) 0⟩
  dsimp only
  have named := fun scales : TensorId => @geti_wqEntries K N bs scales (kWqScales, scales)
    (.tail _ (.tail _ (.tail _ (.tail _ (.tail _ (.tail _ (.head _))))))) kNoTensor
  rw [named]
  exact (bytesOf_made bq_in sc_in _ _ _ _).2

/-- **Each value of the packed weight** is the operator's code less 8 times the narrowed scale. -/
theorem Repacked.value {g' : Graph} {nd' : Node} {B : List UInt8}
    (made : Repacked g' nd' K N bs bqf scf)
    (stored : bqf = B.map fun (b : UInt8) => fp32FromInt64 b.toNat) (positive : 0 < bs)
    (even : bs % 2 = 0) {k n : Nat} (row : k < K) (column : n < N) :
    (packedWeight g' nd')[k * N + n]? = some (weighted (blockCode B (blocks K bs) bs k n)
      (halfToFloat (floatToHalfSat (blockScale scf (blocks K bs) bs k n)))) := by
  have group : k / bs < blocks K bs := QuantPacking.div_lt_int4GroupCount positive row
  have bounds := blockCode_bounds B (blocks K bs) bs k n
  have code : QuantPacking.int4At (int4Pack (codes bqf (blocks K bs) bs K N) K N)
      (QuantPacking.int4RowBytes N) k n = blockCode B (blocks K bs) bs k n - 8 := by
    rw [← code_grid stored even (blocks K bs) row column]
    refine ((QuantPacking.packsInt4 (grid bqf (blocks K bs) bs K N)).2 k row).1 ?_ n column
    intro i row_i j column_j
    have within := blockCode_bounds B (blocks K bs) bs i j
    rw [code_grid stored even (blocks K bs) row_i column_j]
    omega
  rw [packedWeight, made.weight, made.scales, made.rows, made.columns, made.group, made.kept,
    toNat_natCast, toNat_natCast, toNat_natCast, int4Dequant,
    QuantPacking.getElem?_dequant _ _ _ row column]
  have word := getD_halfWords scf group column
  have scale : QuantPacking.scaleAt exactUnits
      (halfWords ((scaleWords scf (blocks K bs) N).flatMap (leBytes 2))) N bs k n =
      signedUnits (halfToFloat (floatToHalfSat (blockScale scf (blocks K bs) bs k n))) := by
    rw [QuantPacking.scaleAt, blockScale, ← word]
    rfl
  rw [code, scale]
  rfl

theorem repack_other {t : TensorId} (not_bq : t ≠ nd.inputs.getD 1 kNoTensor)
    (not_sc : t ≠ nd.inputs.getD 2 kNoTensor) (inside : t < (g.tensors.length : Int)) :
    (repack g nd K N bs bqf scf).1.initializers[t]? = g.initializers[t]? ∧
      (repack g nd K N bs bqf scf).1.desc t = g.desc t := by
  have next : (g.tensors.length : Int) < (g.tensors.length + 1 : Nat) := by omega
  have made := fun (d e : TensorDesc) (first second : HostBuffer) =>
    @addConstant_other t (addConstant g d first).1 (by
      rw [length_addConstant]
      exact inside.trans next) e second
  unfold repack
  dsimp only
  constructor
  · rw [(dropConstant_other not_sc _).1, (dropConstant_other not_bq _).1, (made _ _ _ _).1,
      (addConstant_other inside _ _).1]
  · rw [(dropConstant_other not_sc _).2, (dropConstant_other not_bq _).2, (made _ _ _ _).2,
      (addConstant_other inside _ _).2]

theorem repack_nodes : (repack g nd K N bs bqf scf).1.nodes = g.nodes := by
  unfold repack dropConstant
  dsimp only
  rw [Onnx.updateDesc_nodes, Onnx.updateDesc_nodes]
  rfl

end Repack

/-! ## Every expansion -/

theorem expandMatMulNBits_cases {g g' : Graph} {nd nd' : Node}
    (expanded : expandMatMulNBits g nd = some (g', nd')) : ∃ K N bs : Nat,
    nd.attr.geti (str "K") 0 = K ∧ nd.attr.geti (str "N") 0 = N ∧
      nd.attr.geti (str "block_size") 0 = bs ∧ 0 < bs ∧ bs % 2 = 0 ∧
      g.isInitializer (nd.inputs.getD 1 kNoTensor) ∧ g.isInitializer (nd.inputs.getD 2 kNoTensor) ∧
      (g', nd') = repack g nd K N bs (initFloats g (nd.inputs.getD 1 kNoTensor))
        (initFloats g (nd.inputs.getD 2 kNoTensor)) := by
  unfold expandMatMulNBits at expanded
  dsimp only at expanded
  split at expanded
  · cases expanded
  rename_i form
  split at expanded
  · cases expanded
  split at expanded
  · cases expanded
  rename_i constants
  split at expanded
  · cases expanded
  simp only [not_or, not_le, Decidable.not_not] at form
  obtain ⟨-, K_pos, N_pos, bs_pos, even⟩ := form
  obtain ⟨K, rows⟩ := eq_ofNat_of_zero_le K_pos.le
  obtain ⟨N, columns⟩ := eq_ofNat_of_zero_le N_pos.le
  obtain ⟨bs, size⟩ := eq_ofNat_of_zero_le bs_pos.le
  simp only [Bool.or_eq_true, Bool.not_eq_true', not_or, Bool.not_eq_false] at constants
  rw [rows, columns, size] at expanded
  refine ⟨K, N, bs, rows, columns, size, by omega, by omega, constants.1, constants.2, ?_⟩
  exact (Option.some.inj expanded).symm

/-- **Repacking a weight keeps every code, and every scale that is a half.**  At each place the
packed weight has the operator's code less 8 times the operator's scale narrowed to half precision,
which is that scale where it is a finite half.  All other constants of the graph stay as they are,
and so do its nodes. -/
theorem expandMatMulNBits_exact {g g' : Graph} {nd nd' : Node} {B : List UInt8}
    (inTable : ∀ t : TensorId, g.isInitializer t = true → t < (g.tensors.length : Int))
    (stored : HoldsBytes g (nd.inputs.getD 1 kNoTensor) B)
    (expanded : expandMatMulNBits g nd = some (g', nd')) :
    ∃ K N bs : Nat, nd.attr.geti (str "K") 0 = K ∧ nd.attr.geti (str "N") 0 = N ∧
      nd.attr.geti (str "block_size") 0 = bs ∧
      (∀ k < K, ∀ n < N,
        let code := blockCode B (blocks K bs) bs k n
        let scale := blockScale (initFloats g (nd.inputs.getD 2 kNoTensor)) (blocks K bs) bs k n
        (packedWeight g' nd')[k * N + n]? = some (weighted code (halfToFloat (floatToHalfSat scale))) ∧
        ((∃ h < 2 ^ 16, h % 2 ^ 15 < 0x7C00 ∧ scale = halfToFloat h) →
          (packedWeight g' nd')[k * N + n]? = some (weighted code scale))) ∧
      (∀ t : TensorId, g.isInitializer t = true → t ∉ [nd.inputs.getD 1 kNoTensor,
          nd.inputs.getD 2 kNoTensor] →
        g'.initializers[t]? = g.initializers[t]? ∧ g'.desc t = g.desc t) ∧
      g'.nodes = g.nodes := by
  obtain ⟨K, N, bs, rows, columns, size, positive, even, bq_constant, sc_constant, made⟩ :=
    expandMatMulNBits_cases expanded
  have graph := congrArg Prod.fst made
  have node := congrArg Prod.snd made
  dsimp only at graph node
  have parts := @repacked g nd K N bs (initFloats g (nd.inputs.getD 1 kNoTensor))
    (initFloats g (nd.inputs.getD 2 kNoTensor)) positive (inTable _ bq_constant)
    (inTable _ sc_constant)
  rw [← graph, ← node] at parts
  refine ⟨K, N, bs, rows, columns, size, fun k row n column => ?_, fun t constant other => ?_, ?_⟩
  · have value := parts.value stored positive even row column
    refine ⟨value, ?_⟩
    rintro ⟨h, word, finite, half⟩
    rw [value, half, floatToHalfSat_halfToFloat word finite]
  · simp only [mem_cons, not_mem_nil, or_false, not_or] at other
    rw [graph]
    exact repack_other other.1 other.2 (inTable t constant)
  · rw [graph]
    exact repack_nodes

/-! ## A small graph -/

/-- A product of one column and two rows, with its scale in a given storage. -/
def smallNode : Node where
  type := .matMulNBits
  inputs := [0, 1, 2]
  outputs := [3]
  attr := setInts {} [(str "K", 2), (str "N", 1), (str "block_size", 2)]

/-- Two such products with the same weight. -/
def smallGraph (dtype : DType) (scale : HostBuffer) : Graph where
  tensors := [{ shape := [1, 2], isInput := true },
    { shape := [1, 1, 1], dtype := .uint8, isInitializer := true },
    { shape := [1], dtype := dtype, isInitializer := true }, { shape := [1, 1], isOutput := true },
    { shape := [1, 1], isOutput := true }]
  nodes := [smallNode, { smallNode with outputs := [4] }]
  inputs := [0]
  outputs := [3, 4]
  initializers := (({} : Std.ExtTreeMap TensorId HostBuffer).insert 1 [0x9A]).insert 2 scale

theorem smallGraph_inTable (dtype : DType) (scale : HostBuffer) (t : TensorId)
    (constant : (smallGraph dtype scale).isInitializer t = true) :
    t < ((smallGraph dtype scale).tensors.length : Int) := by
  have keys : t = 2 ∨ t = 1 := by
    unfold Graph.isInitializer smallGraph at constant
    rw [Std.ExtTreeMap.contains_insert, Std.ExtTreeMap.contains_insert] at constant
    simp only [Bool.or_eq_true, beq_iff_eq, Std.LawfulEqCmp.compare_eq_iff_eq] at constant
    rcases constant with two | one | empty
    · exact .inl two.symm
    · exact .inr one.symm
    · exact absurd empty (by simp)
  have five : ((smallGraph dtype scale).tensors.length : Int) = 5 := rfl
  rw [five]
  rcases keys with rfl | rfl <;> decide

theorem smallNode_view : smallNode.attr.geti (str "K") 0 = (2 : Nat) ∧
    smallNode.attr.geti (str "N") 0 = (1 : Nat) ∧
    smallNode.attr.geti (str "block_size") 0 = (2 : Nat) := by
  decide

/-- With a scale of one in half precision the weight is that of the operator. -/
theorem smallGraph_exact : ∃ g' nd', expandMatMulNBits (smallGraph .float16 [0x00, 0x3C]) smallNode =
    some (g', nd') ∧ (packedWeight g' nd')[0]? = some (weighted 10 0x3F800000) := by
  have taken : (expandMatMulNBits (smallGraph .float16 [0x00, 0x3C]) smallNode).isSome := by
    decide
  obtain ⟨⟨g', nd'⟩, expanded⟩ := Option.isSome_iff_exists.mp taken
  have stored : HoldsBytes (smallGraph .float16 [0x00, 0x3C]) (smallNode.inputs.getD 1 kNoTensor)
      [0x9A] := by
    decide
  obtain ⟨K, N, bs, rows, columns, size, values, -, -⟩ :=
    expandMatMulNBits_exact (smallGraph_inTable _ _) stored expanded
  obtain ⟨two, one, pair⟩ := smallNode_view
  obtain rfl := ofNat_inj.mp (rows.symm.trans two)
  obtain rfl := ofNat_inj.mp (columns.symm.trans one)
  obtain rfl := ofNat_inj.mp (size.symm.trans pair)
  have scale : blockScale (initFloats (smallGraph .float16 [0x00, 0x3C])
      (smallNode.inputs.getD 2 kNoTensor)) (blocks 2 2) 2 0 0 = 0x3F800000 := by
    decide
  have half := (values 0 (by omega) 0 (by omega)).2 ⟨0x3C00, by norm_num, by norm_num, by
    rw [scale]
    decide⟩
  rw [scale] at half
  exact ⟨g', nd', expanded, half⟩

/-- A scale of a tenth in single precision is rounded, and a weight that another product reads as
well is gone. -/
theorem smallGraph_astray : (¬ ∀ (g g' : Graph) (nd nd' : Node) (B : List UInt8) (K N bs : Nat),
      (∀ t : TensorId, g.isInitializer t = true → t < (g.tensors.length : Int)) →
      HoldsBytes g (nd.inputs.getD 1 kNoTensor) B → expandMatMulNBits g nd = some (g', nd') →
      nd.attr.geti (str "K") 0 = K → nd.attr.geti (str "N") 0 = N →
      nd.attr.geti (str "block_size") 0 = bs → ∀ k < K, ∀ n < N,
        (packedWeight g' nd')[k * N + n]? = some (weighted (blockCode B (blocks K bs) bs k n)
          (blockScale (initFloats g (nd.inputs.getD 2 kNoTensor)) (blocks K bs) bs k n))) ∧
    ¬ ∀ (g g' : Graph) (nd nd' : Node),
      (∀ t : TensorId, g.isInitializer t = true → t < (g.tensors.length : Int)) →
      expandMatMulNBits g nd = some (g', nd') → ∀ m ∈ g.nodes, m ≠ nd → ∀ t ∈ m.inputs,
        g.isInitializer t = true → g'.initializers[t]? = g.initializers[t]? := by
  have taken : (expandMatMulNBits (smallGraph .float32 [0xCD, 0xCC, 0xCC, 0x3D]) smallNode).isSome := by
    decide
  obtain ⟨⟨g', nd'⟩, expanded⟩ := Option.isSome_iff_exists.mp taken
  constructor
  · intro exactly
    obtain ⟨two, one, pair⟩ := smallNode_view
    have first := exactly _ g' smallNode nd' [0x9A] 2 1 2 (smallGraph_inTable _ _) (by decide)
      expanded two one pair 0 (by omega) 0 (by omega)
    have rounded : (expandMatMulNBits (smallGraph .float32 [0xCD, 0xCC, 0xCC, 0x3D]) smallNode).map
        (fun made => (packedWeight made.1 made.2)[0]?) ≠
          some (some (weighted 10 0x3DCCCCCD)) := by
      decide
    rw [expanded, Option.map_some] at rounded
    have scale : blockScale (initFloats (smallGraph .float32 [0xCD, 0xCC, 0xCC, 0x3D])
        (smallNode.inputs.getD 2 kNoTensor)) (blocks 2 2) 2 0 0 = 0x3DCCCCCD := by
      decide
    rw [scale] at first
    exact rounded (congrArg some first)
  · intro stays
    have kept := stays _ g' smallNode nd' (smallGraph_inTable _ _) expanded
      { smallNode with outputs := [4] } (by simp [smallGraph]) (by simp [smallNode]) 1
      (by simp [smallNode]) (by decide)
    have gone : (expandMatMulNBits (smallGraph .float32 [0xCD, 0xCC, 0xCC, 0x3D]) smallNode).map
        (fun made => made.1.initializers[(1 : TensorId)]?) = some none := by
      decide
    rw [expanded, Option.map_some, kept] at gone
    revert gone
    decide

end Vknn.Import.NBits
