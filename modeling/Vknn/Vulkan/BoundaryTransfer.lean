import Vknn.Import.Nc4Packing
import Vknn.Session.CpuPlan

/-!
# Between host storage and a boundary buffer

A boundary buffer holds a tensor in single or half precision, either row-major or in blocks of four
channels.  Uploading packs host storage into the buffer; storage that is not in single precision is
decoded first.  Downloading brings a buffer back into single precision, element by element.

A row-major graph output is downloaded for the caller: in its declared type, and one row of it where
a row is selected.

The decoding of one lane is the parameter `decode`, and the narrowing to half precision, which
saturates, is `floatToHalfSat`.
-/

namespace Vknn.Vulkan

open List Session Nat

open Session (Operand storedElems)

/-! ## Lanes -/

abbrev DeviceBytes := Nat → UInt8

def readBytes (buf : DeviceBytes) (offset count : Nat) : List UInt8 :=
  (List.range count).map fun j => buf (offset + j)

/-- The single-precision lane of host storage at a position; zero past its end. -/
def hostLane (host : HostBuffer) (i : Nat) : List UInt8 :=
  (List.range 4).map fun j => host.getD (4 * i + j) 0

section Transfer

variable (decode : DType → List UInt8 → Float32Bits) (floatToHalfSat : Float32Bits → UInt16)

/-- A lane of a device buffer, in single precision. -/
def deviceLane (fp16 : Bool) (buf : DeviceBytes) (i : Nat) : List UInt8 :=
  if fp16 then Wire.leBytes 4 (decode .float16 (readBytes buf (2 * i) 2)).bits.toNat
  else readBytes buf (4 * i) 4

/-- A single-precision lane as the device stores it. -/
def storedLane (fp16 : Bool) (lane : List UInt8) : List UInt8 :=
  if fp16 then Wire.leBytes 2 (floatToHalfSat ⟨UInt32.ofNat (Wire.leNat lane)⟩).toNat else lane

/-- Overwrite the first lanes of a device buffer. -/
def writeLanes (fp16 : Bool) (count : Nat) (lane : Nat → List UInt8) (old : DeviceBytes) :
    DeviceBytes := fun k =>
  let width := if fp16 then 2 else 4
  if k < count * width then (storedLane floatToHalfSat fp16 (lane (k / width))).getD (k % width) 0
  else old k

/-! ## Packing and unpacking -/

/-- The host lane that a lane of the blocked layout holds; padding channels are zero. -/
def nc4Lane (x : NCHW) (src : HostBuffer) (p : Nat) : List UInt8 :=
  let channels := x.c.toNat
  let blocks := (channels + 3) / 4
  let plane := x.h.toNat * x.w.toNat
  let row := p / 4 / plane
  let c := row % blocks * 4 + p % 4
  if c < channels then hostLane src ((row / blocks * channels + c) * plane + p / 4 % plane)
  else List.replicate 4 0

def packNc4 (src : HostBuffer) (x : NCHW) (fp16 : Bool) (old : DeviceBytes) : DeviceBytes :=
  writeLanes floatToHalfSat fp16 (nc4Footprint x.n.toNat x.c.toNat (x.h.toNat * x.w.toNat))
    (nc4Lane x src) old

def unpackNc4 (buf : DeviceBytes) (x : NCHW) (fp16 : Bool) : HostBuffer :=
  (List.range x.elems.toNat).flatMap fun i =>
    deviceLane decode fp16 buf (nc4Position x.c.toNat (x.h.toNat * x.w.toNat) i)

/-- Pack host storage into a boundary buffer. -/
def packToBuffer (rt : RtTensor) (fp16 flat : Bool) (old : DeviceBytes) : DeviceBytes :=
  let n := (elemCount rt.shape).toNat
  let src := if rt.dtype = .int64 then
    decodeHostLanesToFloat32 decode .int64 rt.host n else rt.host
  if flat then writeLanes floatToHalfSat fp16 n (hostLane src) old
  else packNc4 floatToHalfSat src (.ofShape rt.shape) fp16 old

/-- Unpack a boundary buffer into host storage. -/
def unpackFromBuffer (buf : DeviceBytes) (rt : RtTensor) (fp16 flat : Bool) : RtTensor :=
  { rt with
    dtype := .float32
    host :=
      if flat then (List.range (elemCount rt.shape).toNat).flatMap (deviceLane decode fp16 buf)
      else unpackNc4 decode buf (.ofShape rt.shape) fp16
    hostValid := true }

/-- Bring lanes of a row-major graph output into its declared type: all of them, or some from an
offset on. -/
def downloadFlatOutput (buf : DeviceBytes) (rt : RtTensor) (deviceFp16 : Bool) (declared : DType)
    (srcElemOffset : Nat) (count : Nat) : RtTensor :=
  let lanes := (List.range count).map (srcElemOffset + ·)
  let converted : DType × HostBuffer :=
    if deviceFp16 && declared = .float16 then
      (.float16, lanes.flatMap fun i => readBytes buf (2 * i) 2)
    else if declared = .float16 then
      (.float16, lanes.flatMap fun i =>
        storedLane floatToHalfSat true (deviceLane decode false buf i))
    else (.float32, lanes.flatMap (deviceLane decode deviceFp16 buf))
  { rt with dtype := converted.1, host := converted.2, hostValid := true }

/-! ## One boundary tensor -/

/-- Upload a boundary input.  Storage that is not in single precision is decoded first, as many lanes
as its shape has elements. -/
def uploadInput (rt : RtTensor) (fp16 flat : Bool) (old : DeviceBytes) : DeviceBytes :=
  if rt.dtype ≠ .float32 then
    let n := (elemCount rt.shape).toNat
    let decoded := min n (rt.host.length / boundaryHostLaneBytes rt.dtype)
    packToBuffer decode floatToHalfSat
      { rt with
        dtype := .float32
        host := decodeHostLanesToFloat32 decode rt.dtype rt.host decoded ++
          List.replicate (4 * (n - decoded)) 0 } fp16 flat old
  else packToBuffer decode floatToHalfSat rt fp16 flat old

/-- The elements of a selected row, where the selection is in range. -/
def selectedRow (shape : Shape) (row : Int) : Option (Nat × Nat) :=
  let rowElems := shape.getLastD 0
  if 0 < rowElems ∧ 0 ≤ row ∧ row < (elemCount shape).tdiv rowElems then
    some ((row * rowElems).toNat, rowElems.toNat)
  else none

/-- Download a boundary output that has no file and is not reduced: row-major graph outputs for the
caller, everything else in single precision. -/
def downloadOutput (buf : DeviceBytes) (rt : RtTensor) (deviceFp16 flat graphOut : Bool)
    (declared : DType) (row : Option Int) : RtTensor :=
  if flat && graphOut then
    match row.bind (selectedRow rt.shape) with
    | some (offset, elems) =>
      downloadFlatOutput decode floatToHalfSat buf rt deviceFp16 declared offset elems
    | none =>
      downloadFlatOutput decode floatToHalfSat buf rt deviceFp16 declared 0
        (elemCount rt.shape).toNat
  else unpackFromBuffer decode buf rt deviceFp16 flat

/-! ## What a buffer holds -/

/-- The value of a boundary buffer, in single precision; a rank-0 tensor has one element. -/
def deviceValue (buf : DeviceBytes) (shape : Shape) (fp16 flat : Bool) : HostBuffer :=
  if flat then (List.range (storedElems shape).toNat).flatMap (deviceLane decode fp16 buf)
  else unpackNc4 decode buf (.ofShape shape) fp16

def singles (v : Operand) : HostBuffer :=
  if v.dtype = .float32 then v.host
  else decodeHostLanesToFloat32 decode v.dtype v.host
    (min (storedElems v.shape).toNat (v.host.length / boundaryHostLaneBytes v.dtype))

/-- A boundary buffer after a value has been packed into it. -/
def packed (v : Operand) (fp16 flat : Bool) (old : DeviceBytes) : DeviceBytes :=
  if flat then
    writeLanes floatToHalfSat fp16 (storedElems v.shape).toNat (hostLane (singles decode v)) old
  else packNc4 floatToHalfSat (singles decode v) (.ofShape v.shape) fp16 old

/-- A buffer carries a value: it is the value that the buffer has, or the value has been packed into
it. -/
def Carries (buf : DeviceBytes) (v : Operand) (fp16 flat : Bool) : Prop :=
  (v.dtype = .float32 ∧ deviceValue decode buf v.shape fp16 flat = v.host) ∨
    ∃ old, buf = packed decode floatToHalfSat v fp16 flat old

/-! ## Transfers of whole values -/

variable {decode floatToHalfSat}

variable {shape : Shape} {rt : RtTensor} {flat : Bool} {row : Option Int} {declared : DType}

theorem storedElems_of_ranked (ranked : shape ≠ []) : storedElems shape = elemCount shape := by
  cases shape with
  | nil => exact absurd rfl ranked
  | cons d rest => rfl

theorem hostLane_append_zeros (host : HostBuffer) (k i : Nat) :
    hostLane (host ++ List.replicate k 0) i = hostLane host i := by
  unfold hostLane
  refine map_congr_left fun j _ => ?_
  rw [getD_eq_getElem?_getD, getD_eq_getElem?_getD]
  by_cases inside : 4 * i + j < host.length
  · rw [getElem?_append_left inside]
  · have outside : host.length ≤ 4 * i + j := not_lt.mp inside
    rw [getElem?_append_right outside, getElem?_eq_none outside, getElem?_replicate]
    split <;> rfl

theorem nc4Lane_append_zeros (x : NCHW) (host : HostBuffer) (k : Nat) :
    nc4Lane x (host ++ List.replicate k 0) = nc4Lane x host := by
  funext p
  unfold nc4Lane
  dsimp only
  split
  · exact hostLane_append_zeros host k _
  · rfl

/-- **Uploading packs the value**, unless it is of rank 0 and row-major or to be decoded. -/
theorem uploadInput_eq {fp16 : Bool} (old : DeviceBytes)
    (whole : rt.shape ≠ [] ∨ (flat = false ∧ rt.dtype = .float32)) :
    uploadInput decode floatToHalfSat rt fp16 flat old =
      packed decode floatToHalfSat rt.operand fp16 flat old := by
  unfold uploadInput
  split
  · rename_i other
    have ranked : rt.shape ≠ [] := by
      rcases whole with ranked | ⟨-, single⟩
      · exact ranked
      · exact absurd single other
    have elems := storedElems_of_ranked ranked
    have decoded : singles decode rt.operand = decodeHostLanesToFloat32 decode rt.dtype
        rt.host (min (elemCount rt.shape).toNat
          (rt.host.length / boundaryHostLaneBytes rt.dtype)) := by
      unfold singles
      rw [if_neg (show ¬ rt.operand.dtype = .float32 from other)]
      change decodeHostLanesToFloat32 decode rt.dtype rt.host
        (min (storedElems rt.shape).toNat (rt.host.length / boundaryHostLaneBytes rt.dtype)) = _
      rw [elems]
    unfold packed packToBuffer packNc4
    rw [decoded]
    dsimp only
    rw [if_neg (show ¬ DType.float32 = .int64 by decide), nc4Lane_append_zeros]
    change _ = if flat then writeLanes floatToHalfSat fp16 (storedElems rt.shape).toNat _ old else _
    rw [elems]
    have lanes := fun host k => funext (hostLane_append_zeros host k)
    rw [lanes]
    rfl
  · rename_i single
    have single : rt.dtype = .float32 := not_not.mp single
    have same : singles decode rt.operand = rt.host := if_pos single
    unfold packed packToBuffer
    dsimp only
    rw [same, if_neg (show ¬ rt.dtype = .int64 by rw [single]; decide)]
    cases flat with
    | false => rfl
    | true =>
      rcases whole with ranked | ⟨no, -⟩
      · have elems : storedElems rt.operand.shape = elemCount rt.shape :=
          storedElems_of_ranked ranked
        rw [elems]
        rfl
      · cases no

/-! ## Downloads -/

/-- The value that a boundary buffer hands over. -/
def deviceOperand (decode : DType → List UInt8 → Float32Bits) (buf : DeviceBytes) (shape : Shape)
    (fp16 flat : Bool) : Operand where
  shape := shape
  dtype := .float32
  host := deviceValue decode buf shape fp16 flat
  hostValid := true

/-- The selection of a row leaves elements out. -/
def Narrows (shape : Shape) (row : Option Int) : Prop :=
  ∃ offset count, row.bind (selectedRow shape) = some (offset, count) ∧
    count ≠ (elemCount shape).toNat

/-- A row that leaves nothing out starts at the beginning. -/
theorem offset_of_whole {row : Int} {offset count : Nat}
    (selected : selectedRow shape row = some (offset, count))
    (whole : count = (elemCount shape).toNat) : offset = 0 := by
  unfold selectedRow at selected
  dsimp only at selected
  split at selected
  · rename_i inRange
    obtain ⟨positive, low, high⟩ := inRange
    obtain ⟨rfl, rfl⟩ := Prod.mk.inj (Option.some.inj selected)
    have total : elemCount shape = shape.getLastD 0 := by omega
    rw [total, Int.tdiv_self (ne_of_gt positive)] at high
    have first : row = 0 := by omega
    rw [first, Int.zero_mul]
    rfl
  · cases selected

/-- A download for the caller that leaves no element out. -/
theorem downloadOutput_of_shortcut
    (whole : ¬ Narrows rt.shape row) (buf : DeviceBytes) (fp16 : Bool) (declared : DType) :
    downloadOutput decode floatToHalfSat buf rt fp16 true true declared row =
      downloadFlatOutput decode floatToHalfSat buf rt fp16 declared 0 (elemCount rt.shape).toNat := by
  unfold downloadOutput
  rw [if_pos (Bool.and_self true)]
  split
  · rename_i offset count selected
    have all : count = (elemCount rt.shape).toNat := by
      by_contra narrow
      exact whole ⟨offset, count, selected, narrow⟩
    obtain ⟨r, -, taken⟩ := Option.bind_eq_some_iff.mp selected
    rw [offset_of_whole taken all, all]
  · rfl

theorem downloadFlatOutput_single (other : declared ≠ .float16)
    (buf : DeviceBytes) (fp16 : Bool) (n : Nat) :
    (downloadFlatOutput decode floatToHalfSat buf rt fp16 declared 0 n).operand =
      ⟨rt.shape, .float32, (List.range n).flatMap (deviceLane decode fp16 buf), true⟩ := by
  have converted : ¬ (fp16 && decide (declared = .float16)) = true := by
    rw [Bool.and_eq_true, decide_eq_true_eq]
    exact fun half => other half.2
  unfold downloadFlatOutput
  dsimp only
  rw [if_neg converted, if_neg other]
  simp only [RtTensor.operand, zero_add, map_id']

theorem deviceValue_of_ranked (ranked : shape ≠ []) (buf : DeviceBytes) (fp16 : Bool) :
    deviceValue decode buf shape fp16 true =
      (List.range (elemCount shape).toNat).flatMap (deviceLane decode fp16 buf) := by
  unfold deviceValue
  rw [if_pos rfl, storedElems_of_ranked ranked]

/-- **A download brings the whole value in single precision**, unless a row-major tensor has rank 0,
is declared in half precision or is narrowed to a row. -/
theorem operand_downloadOutput {graphOut : Bool}
    (ranked : flat = true → rt.shape ≠ [])
    (whole : flat = true → graphOut = true → declared ≠ .float16 ∧ ¬ Narrows rt.shape row)
    (buf : DeviceBytes) (fp16 : Bool) :
    (downloadOutput decode floatToHalfSat buf rt fp16 flat graphOut declared row).operand =
      deviceOperand decode buf rt.shape fp16 flat := by
  unfold deviceOperand
  cases flat with
  | false => rfl
  | true =>
    rw [deviceValue_of_ranked (ranked rfl)]
    cases graphOut with
    | false => rfl
    | true =>
      obtain ⟨other, all⟩ := whole rfl rfl
      rw [downloadOutput_of_shortcut all, downloadFlatOutput_single other]

/-- The pieces of a list that is joined from pieces of one width. -/
theorem take_drop_flatMap_range {α : Type} {f : Nat → List α} {width : Nat}
    (wide : ∀ i, (f i).length = width) {n i : Nat} (inside : i < n) :
    (((List.range n).flatMap f).drop (i * width)).take width = f i := by
  have front : ((List.range i).flatMap f).length = i * width := by
    rw [length_flatMap, map_congr_left fun j _ => wide j, map_const',
      sum_replicate_nat, length_range]
  obtain ⟨m, rfl⟩ := Nat.exists_eq_add_of_lt inside
  rw [show i + m + 1 = i + (1 + m) by omega, range_add, flatMap_append, ← front,
    drop_left, range_add, map_append, flatMap_append]
  have first : List.flatMap f (List.map (fun x => i + x) (List.range 1)) = f i := by simp
  rw [first, ← wide i, take_left]

/-- **Half-precision storage of a half-precision buffer decodes to its value.** -/
theorem decode_halves (buf : DeviceBytes) (n : Nat) : decodeHostLanesToFloat32 decode .float16
        ((List.range n).flatMap fun i => readBytes buf (2 * i) 2) n =
      (List.range n).flatMap (deviceLane decode true buf) := by
  unfold decodeHostLanesToFloat32
  refine flatMap_congr fun i mem => ?_
  have wide : ∀ j, (readBytes buf (2 * j) 2).length = 2 := fun j => by
    rw [readBytes, length_map, length_range]
  dsimp only
  rw [show boundaryHostLaneBytes .float16 = 2 from rfl,
    take_drop_flatMap_range wide (mem_range.mp mem)]
  rfl

/-- **What is downloaded and uploaded again is held**, also through the declared half precision of a
buffer that is in half precision. -/
theorem carries_uploadInput_downloadOutput {fp16 graphOut : Bool}
    (ranked : flat = true → rt.shape ≠ [])
    (whole : flat = true → graphOut = true →
      (declared = .float16 → fp16 = true) ∧ ¬ Narrows rt.shape row)
    {d : RtTensor} (buf old : DeviceBytes)
    (downloaded : d.operand =
      (downloadOutput decode floatToHalfSat buf rt fp16 flat graphOut declared row).operand) :
    Carries decode floatToHalfSat (uploadInput decode floatToHalfSat d fp16 flat old)
      (deviceOperand decode buf rt.shape fp16 flat) fp16 flat := by
  refine .inr ⟨old, ?_⟩
  by_cases half : flat = true ∧ graphOut = true ∧ declared = .float16
  · obtain ⟨rfl, rfl, rfl⟩ := half
    obtain ⟨narrow, all⟩ := whole rfl rfl
    obtain rfl := narrow rfl
    rw [downloadOutput_of_shortcut all] at downloaded
    have shape : d.shape = rt.shape := congrArg Operand.shape downloaded
    have dtype : d.dtype = .float16 := congrArg Operand.dtype downloaded
    have host : d.host = (List.range (elemCount rt.shape).toNat).flatMap fun i =>
        readBytes buf (2 * i) 2 := by
      have same := congrArg Operand.host downloaded
      simpa [downloadFlatOutput, RtTensor.operand] using same
    have size : d.host.length = (elemCount rt.shape).toNat * 2 := by
      rw [host, length_flatMap]
      simp [readBytes]
    have value : singles decode d.operand =
        singles decode (deviceOperand decode buf rt.shape true true) := by
      have other : ¬ d.operand.dtype = .float32 := by
        rw [show d.operand.dtype = d.dtype from rfl, dtype]
        decide
      unfold singles
      rw [if_neg other, if_pos (show (deviceOperand decode buf rt.shape true true).dtype = .float32 from rfl)]
      change decodeHostLanesToFloat32 decode d.dtype d.host
        (min (storedElems d.shape).toNat (d.host.length / boundaryHostLaneBytes d.dtype)) =
          deviceValue decode buf rt.shape true true
      rw [deviceValue_of_ranked (ranked rfl), dtype, shape, storedElems_of_ranked (ranked rfl), size,
        show boundaryHostLaneBytes .float16 = 2 from rfl, Nat.mul_div_cancel _ (by decide),
        Nat.min_self, host]
      exact decode_halves buf _
    rw [uploadInput_eq old (.inl (shape ▸ ranked rfl))]
    unfold packed
    rw [if_pos rfl, if_pos rfl, value]
    exact congrArg (fun s => writeLanes floatToHalfSat true (storedElems s).toNat _ old) shape
  · rw [operand_downloadOutput ranked (fun rowMajor terminal =>
      ⟨fun declares => half ⟨rowMajor, terminal, declares⟩, (whole rowMajor terminal).2⟩)
        buf fp16] at downloaded
    have single : d.shape = rt.shape ∧ d.dtype = .float32 :=
      ⟨congrArg Operand.shape downloaded, congrArg Operand.dtype downloaded⟩
    rw [uploadInput_eq old, downloaded]
    cases flat with
    | false => exact .inr ⟨rfl, single.2⟩
    | true => exact .inl (single.1 ▸ ranked rfl)

end Transfer

end Vknn.Vulkan
