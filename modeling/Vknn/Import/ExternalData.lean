import Vknn.Import.OnnxReader
import Vknn.Lib.CheckedInt

/-!
# Payloads in a data file

The payload of a tensor may be a range of another file.  Where the range does not lie in the
file the payload stays empty, and an error is logged that shows the range.  The payload then
fills a buffer that is sized by the product of the dimensions.

Signed arithmetic is checked: nothing comes out where a sum, a difference or a product does not
fit 64 bits.  The size of the buffer in bytes is unsigned and wraps.  What elements are worth
is not looked at, only where they are stored.
-/

namespace Vknn.OnnxWire

open CheckedInt Int Option Nat
open Wire (Bytes)

def kDataLocationExternal : Int := 1

/-! ## The range -/

/-- The length of the range, that is the rest of the file unless it is given. -/
def declaredLength (fileSize : Int) (t : TensorMessage) : Option Int :=
  if 0 ≤ t.extLength then some t.extLength else sub fileSize t.extOffset

/-- Whether a range lies outside of the file, without forming its end. -/
def rangeOutside (fileSize off len : Int) : Option Bool :=
  if off < 0 ∨ len < 0 ∨ fileSize < off then some true
  else (sub fileSize off).map fun rest => decide (rest < len)

/-- The payload of a tensor from the bytes of its data file. -/
def resolveExternal (file : Bytes) (t : TensorMessage) : Option TensorMessage :=
  if t.dataLocation ≠ kDataLocationExternal ∨ t.extLoc.isEmpty ∨ !t.raw.isEmpty then some t
  else do
    let len ← declaredLength file.length t
    let outside ← rangeOutside file.length t.extOffset len
    if outside then do
      -- The error shows where the range ends.
      let _ ← add t.extOffset len
      some t
    else some { t with raw := (file.drop t.extOffset.toNat).take len.toNat }

/-! ## The buffer -/

/-- What a payload is stored as: some bytes at once, or elements one after the other as far as there
are any. -/
inductive Fill where
  | bytes (k : Nat)
  | elements (k : Nat)

def resizeElems (n : Int) (width : Nat) : Nat := if 0 < n then n.toNat * width % 2 ^ 64 else 0

/-- The bytes of an element that is decoded one by one. -/
def rawWidth (dataType : Int) : Option Nat :=
  if dataType = 10 ∨ dataType = 4 ∨ dataType = 5 then some 2
  else if dataType = 11 ∨ dataType = 7 then some 8
  else if dataType = 6 then some 4
  else if dataType = 2 ∨ dataType = 3 ∨ dataType = 9 then some 1
  else none

def fillHostFloat (t : TensorMessage) (size : Nat) : Fill :=
  if !t.raw.isEmpty then
    if t.dataType = 1 then .bytes (min t.raw.length size)
    else .elements (((rawWidth t.dataType).map fun w => t.raw.length / w).getD 0)
  else if !t.floatData.isEmpty then .elements t.floatData.length
  else if !t.int64Data.isEmpty then .elements t.int64Data.length
  else .elements t.int32Data.length

def fillHostBytes (t : TensorMessage) (n : Int) : Fill :=
  if !t.raw.isEmpty then .bytes (min t.raw.length (max n 0).toNat)
  else .elements t.int32Data.length

def fillHostI64 (t : TensorMessage) (size : Nat) : Fill :=
  let isUint32 := t.dataType = 12
  if !t.raw.isEmpty ∧ (t.dataType = 7 ∨ t.dataType = 13) then .bytes (min t.raw.length size)
  else if !t.raw.isEmpty ∧ isUint32 then .elements (t.raw.length / 4)
  else if !t.int64Data.isEmpty then .elements t.int64Data.length
  else if !t.uint64Data.isEmpty then .elements t.uint64Data.length
  else if isUint32 then .elements t.int32Data.length
  else .elements 0

/-- The bytes of an element of the buffer. -/
def hostWidth (dataType : Int) : Nat :=
  if dataType = 7 ∨ dataType = 12 ∨ dataType = 13 then 8
  else if dataType = 3 ∨ dataType = 2 then 1
  else 4

def fillHost (t : TensorMessage) (n : Int) : Fill :=
  if hostWidth t.dataType = 8 then fillHostI64 t (resizeElems n 8)
  else if hostWidth t.dataType = 1 then fillHostBytes t n
  else fillHostFloat t (resizeElems n 4)

/-- Where the bytes that are stored end. -/
def Fill.reach (n : Int) (width : Nat) : Fill → Nat
  | bytes k => k
  | elements k => min n.toNat k * width

/-- The number of elements, by the dimensions. -/
def elementCount (dims : List Int) : Option Int := dims.foldlM mul 1

/-- What an initializer becomes: its payload, how many elements it should have, and how it is
stored. -/
def materializeInitializer (file : Bytes) (t : TensorMessage) :
    Option (TensorMessage × Int × Fill) := do
  let n ← elementCount t.dims
  let t ← resolveExternal file t
  some (t, n, fillHost t n)

/-! ## What is asked of it -/

def RangeInside (file : Bytes) (t : TensorMessage) : Prop :=
  0 ≤ t.extOffset ∧ t.extOffset ≤ file.length ∧ t.extOffset + t.extLength ≤ file.length

instance (file : Bytes) (t : TensorMessage) : Decidable (RangeInside file t) :=
  inferInstanceAs (Decidable (_ ∧ _))

/-- The tensor with its declared range, or as it was where that is not in the file. -/
def resolved (file : Bytes) (t : TensorMessage) : TensorMessage :=
  if t.dataLocation ≠ kDataLocationExternal ∨ t.extLoc.isEmpty ∨ !t.raw.isEmpty then t
  else if RangeInside file t then
    let rest := file.drop t.extOffset.toNat
    { t with raw := if 0 ≤ t.extLength then rest.take t.extLength.toNat else rest }
  else t

/-- The range is read as declared, all is stored inside the buffer, and nothing overflows. -/
def Safe (file : Bytes) (t : TensorMessage) : Prop :=
  ∃ n payload, materializeInitializer file t = some (resolved file t, n, payload) ∧
    payload.reach n (hostWidth t.dataType) ≤ resizeElems n (hostWidth t.dataType)

/-- Every product on the way to the number of elements fits. -/
def CountFits (dims : List Int) : Prop := ∀ k, Fits (dims.take k).prod

/-- The end of the range fits, or the rest of the file does where no length is given. -/
def RangeFits (file : Bytes) (t : TensorMessage) : Prop :=
  t.dataLocation = kDataLocationExternal → t.extLoc.isEmpty = false → t.raw.isEmpty = true →
    if 0 ≤ t.extLength then Fits (t.extOffset + t.extLength) else Fits (file.length - t.extOffset)

/-- The bytes of the buffer do not wrap, or what is stored one by one ends before they do. -/
def StoreFits (file : Bytes) (t : TensorMessage) : Prop :=
  let n := t.dims.prod
  n.toNat * hostWidth t.dataType < 2 ^ 64 ∨ match fillHost (resolved file t) n with
    | .bytes _ => True
    | .elements k => k * hostWidth t.dataType ≤ n.toNat * hostWidth t.dataType % 2 ^ 64

variable {file : Bytes} {t : TensorMessage} {dims : List Int} {n m : Int}

theorem product_eq_some_iff (fits : Fits n) : dims.foldlM mul n = some m ↔
    (∀ k, Fits (n * (dims.take k).prod)) ∧ m = n * dims.prod := by
  induction dims generalizing n with
  | nil => simp [fits, eq_comm]
  | cons d dims ih =>
    rw [List.foldlM_cons, mul, value]
    by_cases next : Fits (n * d)
    · rw [if_pos next]
      refine (ih next).trans ?_
      rw [List.prod_cons, ← mul_assoc]
      refine and_congr_left fun _ => ⟨fun all k => ?_, fun all k => ?_⟩
      · cases k with
        | zero => simpa using fits
        | succ k => simpa [mul_assoc] using all k
      · simpa [mul_assoc] using all (k + 1)
    · rw [if_neg next]
      refine iff_of_false (fun none_ => by cases none_) fun all => next ?_
      simpa using all.1 1

/-- Whether the range is outside of the file is found without an overflow. -/
theorem rangeOutside_eq (room : (file.length : Int) < 2 ^ 63) (off len : Int) :
    rangeOutside file.length off len =
      some (!decide (0 ≤ off ∧ 0 ≤ len ∧ off + len ≤ file.length)) := by
  unfold rangeOutside
  split_ifs with bad
  · rw [decide_eq_false (by omega)]
    rfl
  · rw [sub, value_of_fits ⟨by omega, by omega⟩, map_some, ← decide_not]
    exact congrArg some (decide_eq_decide.mpr (by omega))

/-- **The declared range is read, or none**, where nothing overflows. -/
theorem resolveExternal_eq_some_iff (room : (file.length : Int) < 2 ^ 63) {t' : TensorMessage} :
    resolveExternal file t = some t' ↔ RangeFits file t ∧ resolved file t = t' := by
  unfold resolveExternal resolved RangeFits
  by_cases inline_ : t.dataLocation ≠ kDataLocationExternal ∨ t.extLoc.isEmpty ∨ !t.raw.isEmpty
  · rw [if_pos inline_, if_pos inline_, some.injEq]
    refine (and_iff_right fun external located empty => ?_).symm
    simp [external, located, empty] at inline_
  rw [if_neg inline_, if_neg inline_]
  have pending : t.dataLocation = kDataLocationExternal ∧ t.extLoc.isEmpty = false ∧
      t.raw.isEmpty = true := by simpa using inline_
  obtain ⟨external, located, empty⟩ := pending
  simp only [external, located, empty, forall_const, rangeOutside_eq room, declaredLength]
  by_cases given : 0 ≤ t.extLength
  · rw [if_pos given, if_pos given]
    simp only [bind_eq_bind, bind_some, given, true_and, if_true]
    by_cases inside : 0 ≤ t.extOffset ∧ t.extOffset + t.extLength ≤ file.length
    · have range : RangeInside file t := ⟨inside.1, by omega, inside.2⟩
      rw [decide_eq_true inside, if_pos range]
      simp [show Fits (t.extOffset + t.extLength) from ⟨by omega, by omega⟩]
    · have range : ¬ RangeInside file t := fun range => inside ⟨range.1, range.2.2⟩
      rw [decide_eq_false inside, if_neg range]
      by_cases fits : Fits (t.extOffset + t.extLength) <;> simp [add, value, fits]
  · rw [if_neg given, if_neg given, sub, value]
    by_cases fits : Fits ((file.length : Int) - t.extOffset)
    · rw [if_pos fits]
      simp only [bind_eq_bind, bind_some, fits, true_and, add_sub_cancel, le_refl,
        and_true, given, if_false]
      by_cases inside : 0 ≤ t.extOffset ∧ 0 ≤ (file.length : Int) - t.extOffset
      · have range : RangeInside file t := ⟨inside.1, by omega, by omega⟩
        have all : (file.drop t.extOffset.toNat).length = ((file.length : Int) - t.extOffset).toNat := by
          rw [List.length_drop]
          omega
        rw [decide_eq_true inside, if_pos range, ← all, List.take_length]
        simp
      · have range : ¬ RangeInside file t := fun range => inside ⟨range.1, by have := range.2.1; omega⟩
        have end_ : Fits (file.length : Int) := ⟨by omega, room⟩
        rw [decide_eq_false inside, if_neg range]
        simp [add, value, end_]
    · rw [if_neg fits]
      simp [fits]

/-- A payload that is copied at once is cut to the buffer. -/
theorem fillHost_bytes {k : Nat} (fits : Fits n) (copied : fillHost t n = .bytes k) :
    k ≤ resizeElems n (hostWidth t.dataType) := by
  have whole : (max n 0).toNat ≤ resizeElems n 1 := by
    have := fits.2
    unfold resizeElems
    split_ifs <;> omega
  unfold fillHost at copied
  split_ifs at copied with wide narrow
  · unfold fillHostI64 at copied
    rw [wide]
    dsimp only at copied
    split_ifs at copied
    cases copied
    exact min_le_right _ _
  · unfold fillHostBytes at copied
    rw [narrow]
    split_ifs at copied
    cases copied
    exact (min_le_right _ _).trans whole
  · have width : hostWidth t.dataType = 4 := by
      unfold hostWidth at wide narrow ⊢
      split_ifs at wide narrow ⊢ <;> simp_all
    unfold fillHostFloat at copied
    rw [width]
    split_ifs at copied
    cases copied
    exact min_le_right _ _

/-- Elements stored one by one stay in a buffer that does not wrap, or end before it does. -/
theorem reach_elements_iff (n : Int) (k width : Nat) :
    (Fill.elements k).reach n width ≤ resizeElems n width ↔
      n.toNat * width < 2 ^ 64 ∨ k * width ≤ n.toNat * width % 2 ^ 64 := by
  unfold Fill.reach resizeElems
  dsimp only
  by_cases some_ : 0 < n
  · rw [if_pos some_]
    have first := mul_le_mul_right width (min_le_left n.toNat k)
    rcases lt_or_ge (n.toNat * width) (2 ^ 64) with small | large
    · rw [mod_eq_of_lt small]
      exact ⟨fun _ => .inl small, fun _ => first⟩
    · have wrapped := Nat.mod_lt (n.toNat * width) (Nat.two_pow_pos 64)
      rw [or_iff_right (by omega)]
      rcases Nat.le_total n.toNat k with less | more
      · have later := mul_le_mul_right width less
        rw [min_eq_left less]
        omega
      · rw [min_eq_right more]
  · have zero : n.toNat = 0 := by omega
    simp [zero, some_]

theorem resolved_frame (file : Bytes) (t : TensorMessage) :
    (resolved file t).dims = t.dims ∧ (resolved file t).dataType = t.dataType := by
  unfold resolved
  split_ifs <;> exact ⟨rfl, rfl⟩

/-- **Reading a payload is safe** exactly if the products of the dimensions fit, the end of the range
does, and the buffer's bytes do not wrap below what is stored. -/
theorem materialize_safe_iff (room : (file.length : Int) < 2 ^ 63) :
    Safe file t ↔ CountFits t.dims ∧ RangeFits file t ∧ StoreFits file t := by
  have count : ∀ n, elementCount t.dims = some n ↔ CountFits t.dims ∧ n = t.dims.prod := by
    intro n
    refine (product_eq_some_iff (by decide)).trans ?_
    simp only [one_mul]
    rfl
  have stored : CountFits t.dims →
      ((fillHost (resolved file t) t.dims.prod).reach t.dims.prod (hostWidth t.dataType) ≤
        resizeElems t.dims.prod (hostWidth t.dataType) ↔ StoreFits file t) := by
    intro counted
    have whole := counted t.dims.length
    rw [List.take_length] at whole
    unfold StoreFits
    dsimp only
    cases filled : fillHost (resolved file t) t.dims.prod with
    | bytes k =>
      have cut := fillHost_bytes whole filled
      rw [(resolved_frame file t).2] at cut
      exact iff_of_true cut (.inr trivial)
    | elements k => exact reach_elements_iff _ k _
  constructor
  · rintro ⟨n, payload, made, inside⟩
    obtain ⟨n', counted, made⟩ := bind_eq_some_iff.mp made
    obtain ⟨t', read, made⟩ := bind_eq_some_iff.mp made
    obtain ⟨fits, rfl⟩ := (count n').mp counted
    obtain ⟨range, rfl⟩ := (resolveExternal_eq_some_iff room).mp read
    cases made
    exact ⟨fits, range, (stored fits).mp inside⟩
  · rintro ⟨fits, range, store⟩
    refine ⟨_, _, ?_, (stored fits).mpr store⟩
    unfold materializeInitializer
    rw [(count _).mpr ⟨fits, rfl⟩, (resolveExternal_eq_some_iff room).mpr ⟨range, rfl⟩]
    rfl

/-- Four bytes of a file as one number. -/
theorem materialize_range :
    Safe [0, 0, 0, 0, 128, 63] { dims := [1], dataLocation := 1, extLoc := [119], extOffset := 2 } :=
  (materialize_safe_iff (by decide)).mpr ⟨fun k => by rcases k with _ | _ | k <;> simp [Fits],
    fun _ _ _ => by decide, .inl (by decide)⟩

/-- A length at the end of the 64-bit range: showing the range overflows. -/
theorem materialize_overflows : ¬ Safe []
    { dims := [1], dataLocation := 1, extLoc := [119], extOffset := 1, extLength := 2 ^ 63 - 1 } := by
  rintro ⟨n, payload, made, -⟩
  have nothing : materializeInitializer []
      { dims := [1], dataLocation := 1, extLoc := [119], extOffset := 1, extLength := 2 ^ 63 - 1 } =
      none := by decide
  rw [nothing] at made
  cases made

end Vknn.OnnxWire
