import Vknn.Import.OnnxWriting

/-!
# Packed values and single ones

The values of a repeated field may stand back to back in one payload, or each under a tag of its
own, and a message may do both.  The fields that look at the form of a payload read all of this
alike: the values come one behind the other, in the order of the message, with any other fields in
between.

The floats of an attribute are read as packed whatever the form.  Of a float under a tag of its own
the bytes are taken for a length.
-/

namespace Vknn.OnnxWire

open SliceReader Prog Reader List Nat
open Wire (Bytes leBytes leNat)

/-! ## Repeated fields of a message -/

/-- A repeated field of a message: how it is written, how the message is read, and in what forms the
other fields of the message are declared. -/
structure Repeated (σ α : Type) where
  number : Nat
  wire : Nat
  encode : α → Bytes
  Valid : α → Prop
  Declared : Nat → Nat → Prop
  step : σ → Nat → Nat → Prog σ
  start : σ
  proj : σ → List α

namespace Repeated

variable {σ α : Type} (R : Repeated σ α)

/-- Another field of the message. -/
structure Other where
  number : Nat
  payload : Payload
  apart : number ≠ R.number
  small : number < 2 ^ 29
  declared : R.Declared number payload.wire

/-- A part of a message. -/
inductive Item where
  | packed (vs : List α)
  | single (v : α)
  | other (o : R.Other)

/-- A part of a message, without its values. -/
inductive Form where
  | packed (n : Nat)
  | single
  | other (o : R.Other)

namespace Item

variable {R}

def form : R.Item → R.Form
  | packed vs => .packed vs.length
  | single _ => .single
  | other o => .other o

def values : R.Item → List α
  | packed vs => vs
  | single v => [v]
  | other _ => []

def bytes : R.Item → Bytes
  | packed vs => tagBytes R.number 2 ++ delimited (vs.flatMap R.encode)
  | single v => tagBytes R.number R.wire ++ R.encode v
  | other o => tagBytes o.number o.payload.wire ++ o.payload.encode

end Item

/-- The values of a field that are read from a message. -/
def parsed (file : Bytes) : List α := R.proj ((message R.step R.start).run file ⟨0, file.length⟩).1

/-- Of every message that is made in some way all the values are read, in order. -/
def Alike (forms : List R.Form) : Prop :=
  ∀ items : List R.Item, items.map Item.form = forms →
    (∀ item ∈ items, ∀ v ∈ item.values, R.Valid v) → (items.flatMap Item.bytes).length < 2 ^ 64 →
      R.parsed (items.flatMap Item.bytes) = items.flatMap Item.values

end Repeated

/-! ## The repeated fields -/

/-- The repeated numeric fields of a model. -/
inductive RepeatedField where
  | attrFloats
  | attrInts
  | tensorDims
  | tensorFloatData
  | tensorInt32Data
  | tensorInt64Data
  | tensorUint64Data
deriving DecidableEq

/-- The forms of the fields of an attribute. -/
def attrDeclared (number wire : Nat) : Prop :=
  match number with
  | 1 | 4 | 5 | 7 => wire = 2
  | 2 => wire = 5
  | 3 => wire = 0
  | 8 => wire = 0 ∨ wire = 2
  | _ => True

/-- The forms of the fields of a tensor. -/
def tensorDeclared (number wire : Nat) : Prop :=
  match number with
  | 1 | 5 | 7 | 11 => wire = 0 ∨ wire = 2
  | 2 | 14 => wire = 0
  | 4 => wire = 5 ∨ wire = 2
  | 8 | 9 | 13 => wire = 2
  | _ => True

namespace RepeatedField

abbrev State : RepeatedField → Type
  | attrFloats | attrInts => AttrMessage
  | _ => TensorMessage

abbrev Value : RepeatedField → Type
  | attrFloats | tensorFloatData => Float32Bits
  | _ => Int

/-- How each field is written and read. -/
def spec : (field : RepeatedField) → Repeated field.State field.Value
  | attrFloats =>
    { number := 7, wire := 5, encode := encodeFloat, Valid := fun _ => True,
      Declared := attrDeclared, step := attrField, start := {}, proj := fun m => m.a.floats }
  | attrInts =>
    { number := 8, wire := 0, encode := encodeInt, Valid := fun v => -2 ^ 63 ≤ v ∧ v < 2 ^ 63,
      Declared := attrDeclared, step := attrField, start := {}, proj := fun m => m.a.ints }
  | tensorDims =>
    { number := 1, wire := 0, encode := encodeInt, Valid := fun v => -2 ^ 63 ≤ v ∧ v < 2 ^ 63,
      Declared := tensorDeclared, step := tensorField, start := {}, proj := TensorMessage.dims }
  | tensorFloatData =>
    { number := 4, wire := 5, encode := encodeFloat, Valid := fun _ => True,
      Declared := tensorDeclared, step := tensorField, start := {},
      proj := TensorMessage.floatData }
  | tensorInt32Data =>
    { number := 5, wire := 0, encode := encodeInt, Valid := fun v => -2 ^ 31 ≤ v ∧ v < 2 ^ 31,
      Declared := tensorDeclared, step := tensorField, start := {},
      proj := TensorMessage.int32Data }
  | tensorInt64Data =>
    { number := 7, wire := 0, encode := encodeInt, Valid := fun v => -2 ^ 63 ≤ v ∧ v < 2 ^ 63,
      Declared := tensorDeclared, step := tensorField, start := {},
      proj := TensorMessage.int64Data }
  | tensorUint64Data =>
    { number := 11, wire := 0, encode := encodeInt, Valid := fun v => 0 ≤ v ∧ v < 2 ^ 64,
      Declared := tensorDeclared, step := tensorField, start := {},
      proj := TensorMessage.uint64Data }

end RepeatedField

/-! ## Other fields -/

variable {α σ : Type}

/-- A field of a tensor touches no values but its own. -/
structure TensorOther (number : Nat) (t t' : TensorMessage) : Prop where
  dims : number ≠ 1 → t'.dims = t.dims
  floatData : number ≠ 4 → t'.floatData = t.floatData
  int32Data : number ≠ 5 → t'.int32Data = t.int32Data
  int64Data : number ≠ 7 → t'.int64Data = t.int64Data
  uint64Data : number ≠ 11 → t'.uint64Data = t.uint64Data

theorem setExternal_other (number : Nat) (t : TensorMessage) (kv : Str × Str) :
    TensorOther number t (setExternal t kv) := by
  unfold setExternal
  split
  · exact ⟨fun _ => rfl, fun _ => rfl, fun _ => rfl, fun _ => rfl, fun _ => rfl⟩
  split
  · exact ⟨fun _ => rfl, fun _ => rfl, fun _ => rfl, fun _ => rfl, fun _ => rfl⟩
  split <;> exact ⟨fun _ => rfl, fun _ => rfl, fun _ => rfl, fun _ => rfl, fun _ => rfl⟩

section Payloads

variable {p : Payload} (fits : p.encode.length < 2 ^ 64)
include fits

theorem reads_anyVarint (form : p.wire = 0) : Reads varint p.encode fun _ => True := by
  cases p with
  | varint n => exact (reads_varint (UInt64.toNat_lt n)).mono fun _ _ => trivial
  | fixed64 n | bytes bs | fixed32 n => cases form

theorem reads_anyFixed32 (form : p.wire = 5) : Reads float32 p.encode fun _ => True := by
  cases p with
  | fixed32 n => exact (reads_fixed32 (UInt32.toNat_lt n)).map fun _ _ => trivial
  | varint n | fixed64 n | bytes bs => cases form

theorem reads_anyBytes (form : p.wire = 2) : Reads Reader.bytes p.encode fun _ => True := by
  cases p with
  | bytes bs =>
    have less : bs.length ≤ (delimited bs).length := length_append ▸ le_add_left _ _
    exact (reads_bytes (lt_of_le_of_lt less fits)).mono fun _ _ => trivial
  | varint n | fixed64 n | fixed32 n => cases form

theorem reads_anyNested {q : Prog α} (form : p.wire = 2) :
    Reads (nested q) p.encode fun _ => True := by
  cases p with
  | bytes bs =>
    have less : bs.length ≤ (delimited bs).length := length_append ▸ le_add_left _ _
    exact reads_nested (lt_of_le_of_lt less fits) fun _ _ _ _ _ => trivial
  | varint n | fixed64 n | fixed32 n => cases form

theorem reads_anyPackedOrSingle {one : Prog α} {single : Nat}
    (form : p.wire = single ∨ p.wire = 2)
    (reads : p.wire = single → Reads one p.encode fun _ => True) (acc : List α) :
    Reads (packedOrSingle one p.wire acc) p.encode fun _ => True := by
  unfold packedOrSingle
  split
  · rename_i packed_
    exact reads_anyNested fits packed_
  · rename_i other
    exact (reads (form.resolve_right other)).map fun _ _ => trivial

theorem reads_tensorOther (t : TensorMessage) {number : Nat}
    (declared : tensorDeclared number p.wire) :
    Reads (tensorField t number p.wire) p.encode (TensorOther number t) := by
  have number_ : p.wire = 0 → ∀ f : Nat → Int,
      Reads (varint >>= fun n => pure (f n)) p.encode fun _ => True :=
    fun form f => (reads_anyVarint fits form).map fun _ _ => trivial
  unfold tensorField
  split
  · exact (reads_anyPackedOrSingle fits declared (fun form => number_ form _) _).map fun _ _ =>
      ⟨fun no => absurd rfl no, fun _ => rfl, fun _ => rfl, fun _ => rfl, fun _ => rfl⟩
  · exact (number_ declared _).map fun _ _ =>
      ⟨fun _ => rfl, fun _ => rfl, fun _ => rfl, fun _ => rfl, fun _ => rfl⟩
  · exact (reads_anyPackedOrSingle fits declared (reads_anyFixed32 fits) _).map fun _ _ =>
      ⟨fun _ => rfl, fun no => absurd rfl no, fun _ => rfl, fun _ => rfl, fun _ => rfl⟩
  · exact (reads_anyPackedOrSingle fits declared (fun form => number_ form _) _).map fun _ _ =>
      ⟨fun _ => rfl, fun _ => rfl, fun no => absurd rfl no, fun _ => rfl, fun _ => rfl⟩
  · exact (reads_anyPackedOrSingle fits declared (fun form => number_ form _) _).map fun _ _ =>
      ⟨fun _ => rfl, fun _ => rfl, fun _ => rfl, fun no => absurd rfl no, fun _ => rfl⟩
  · exact (reads_anyPackedOrSingle fits declared (fun form => number_ form _) _).map fun _ _ =>
      ⟨fun _ => rfl, fun _ => rfl, fun _ => rfl, fun _ => rfl, fun no => absurd rfl no⟩
  · exact (reads_anyBytes fits declared).map fun _ _ =>
      ⟨fun _ => rfl, fun _ => rfl, fun _ => rfl, fun _ => rfl, fun _ => rfl⟩
  · exact (reads_anyBytes fits declared).map fun _ _ =>
      ⟨fun _ => rfl, fun _ => rfl, fun _ => rfl, fun _ => rfl, fun _ => rfl⟩
  · exact (reads_anyNested fits declared).map fun kv _ => setExternal_other 13 t kv
  · exact (number_ declared _).map fun _ _ =>
      ⟨fun _ => rfl, fun _ => rfl, fun _ => rfl, fun _ => rfl, fun _ => rfl⟩
  · exact (reads_skip p fits).map fun _ _ =>
      ⟨fun _ => rfl, fun _ => rfl, fun _ => rfl, fun _ => rfl, fun _ => rfl⟩

/-- A field of an attribute touches no values but its own. -/
structure AttrOther (number : Nat) (m m' : AttrMessage) : Prop where
  floats : number ≠ 7 → m'.a.floats = m.a.floats
  ints : number ≠ 8 → m'.a.ints = m.a.ints

theorem reads_attrOther (m : AttrMessage) {number : Nat}
    (declared : attrDeclared number p.wire) :
    Reads (attrField m number p.wire) p.encode (AttrOther number m) := by
  have number_ : p.wire = 0 → ∀ f : Nat → Int,
      Reads (varint >>= fun n => pure (f n)) p.encode fun _ => True :=
    fun form f => (reads_anyVarint fits form).map fun _ _ => trivial
  unfold attrField
  split
  · exact (reads_anyBytes fits declared).map fun _ _ => ⟨fun _ => rfl, fun _ => rfl⟩
  · exact (reads_anyFixed32 fits declared).map fun _ _ => ⟨fun _ => rfl, fun _ => rfl⟩
  · exact (number_ declared _).map fun _ _ => ⟨fun _ => rfl, fun _ => rfl⟩
  · exact (reads_anyBytes fits declared).map fun _ _ => ⟨fun _ => rfl, fun _ => rfl⟩
  · exact (reads_anyNested fits declared).map fun _ _ => ⟨fun no => absurd rfl no, fun _ => rfl⟩
  · exact (reads_anyPackedOrSingle fits declared (fun form => number_ form _) _).map fun _ _ =>
      ⟨fun _ => rfl, fun no => absurd rfl no⟩
  · exact (reads_anyNested fits declared).map fun _ _ => ⟨fun _ => rfl, fun _ => rfl⟩
  · exact (reads_skip p fits).map fun _ _ => ⟨fun _ => rfl, fun _ => rfl⟩

end Payloads

/-! ## Messages -/

namespace Repeated

variable (R : Repeated σ α)

/-- A field whose packed values are read, and which other fields leave alone. -/
structure Regular : Prop where
  small : R.number < 2 ^ 29
  form : R.wire < 8
  packed : ∀ s (vs : List α), (∀ v ∈ vs, R.Valid v) → (vs.flatMap R.encode).length < 2 ^ 64 →
    Reads (R.step s R.number 2) (delimited (vs.flatMap R.encode))
      fun s' => R.proj s' = R.proj s ++ vs
  other : ∀ s (o : R.Other), o.payload.encode.length < 2 ^ 64 →
    Reads (R.step s o.number o.payload.wire) o.payload.encode fun s' => R.proj s' = R.proj s

/-- A field whose single values are read. -/
def ReadsSingle : Prop := ∀ s v, R.Valid v →
  Reads (R.step s R.number R.wire) (R.encode v) fun s' => R.proj s' = R.proj s ++ [v]

variable {R}

theorem tagBytes_append_ne_nil (f w : Nat) (bytes : Bytes) : tagBytes f w ++ bytes ≠ [] :=
  append_ne_nil_of_left_ne_nil (groups_ne_nil _) bytes

theorem Item.bytes_ne_nil (item : R.Item) : item.bytes ≠ [] := by
  cases item with
  | packed vs => exact tagBytes_append_ne_nil _ _ _
  | single v => exact tagBytes_append_ne_nil _ _ _
  | other o => exact tagBytes_append_ne_nil _ _ _

/-- The bytes and the values of a part of a message. -/
def Item.piece (item : R.Item) : Piece α := ⟨item.bytes, item.values⟩

/-- A round of the walk reads a part of a message. -/
theorem Regular.reads_item (regular : R.Regular) {item : R.Item}
    (valid : ∀ v ∈ item.values, R.Valid v) (fits : item.bytes.length < 2 ^ 64)
    (single : item.form = .single → R.ReadsSingle) (s : σ) :
    Reads (tag >>= fun fw => R.step s fw.1 fw.2) item.bytes
      fun s' => R.proj s' = R.proj s ++ item.values := by
  cases item with
  | packed vs =>
    have less : (vs.flatMap R.encode).length < 2 ^ 64 := by
      unfold Item.bytes delimited at fits
      rw [length_append, length_append] at fits
      omega
    refine (reads_tag regular.small (by decide)).bind ?_
    rintro _ rfl
    exact regular.packed s vs valid less
  | single v =>
    refine (reads_tag regular.small regular.form).bind ?_
    rintro _ rfl
    exact single rfl s v (valid v mem_cons_self)
  | other o =>
    have less : o.payload.encode.length < 2 ^ 64 := by
      unfold Item.bytes at fits
      rw [length_append] at fits
      omega
    refine (reads_tag o.small o.payload.wire_lt).bind ?_
    rintro _ rfl
    exact (regular.other s o less).mono fun _ same =>
      same.trans (append_nil _).symm

theorem length_bytes_le {items : List R.Item} {item : R.Item} (inside : item ∈ items) :
    item.bytes.length ≤ (items.flatMap Item.bytes).length := by
  obtain ⟨before, after, rfl⟩ := append_of_mem inside
  rw [flatMap_append, flatMap_cons, length_append, length_append]
  omega

/-- **Where single values are read too, or there are none, all values are read.** -/
theorem Regular.alike (regular : R.Regular) {forms : List R.Form}
    (single : Form.single ∈ forms → R.ReadsSingle) (start : R.proj R.start = []) :
    R.Alike forms := by
  rintro items rfl valid fits
  have whole : Whole (message R.step R.start) ((items.map Item.piece).flatMap Piece.bytes)
      fun s' => R.proj s' = R.proj R.start ++ (items.map Item.piece).flatMap Piece.values := by
    refine whole_whileMore _ ?_ ?_ _
    · intro q inside
      obtain ⟨item, _, rfl⟩ := mem_map.mp inside
      exact item.bytes_ne_nil
    · intro q inside s
      obtain ⟨item, mem, rfl⟩ := mem_map.mp inside
      exact regular.reads_item (valid item mem) (lt_of_le_of_lt (length_bytes_le mem) fits)
        (fun form => single (mem_map.mpr ⟨item, mem, form⟩)) s
  rw [flatMap_map, flatMap_map, start] at whole
  exact whole _ ⟨0, _⟩ [] (append_nil _).symm (zero_add _).symm

end Repeated

/-! ## The fields that are read alike -/

theorem encodeInt_ne_nil (v : Int) : encodeInt v ≠ [] := groups_ne_nil _

theorem encodeFloat_ne_nil (v : Float32Bits) : encodeFloat v ≠ [] := cons_ne_nil _ _

theorem reads_packedForm {one : Prog α} {encode : α → Bytes} {vs : List α}
    (reads : ∀ v ∈ vs, Reads one (encode v) (· = v)) (some_ : ∀ v, encode v ≠ [])
    (fits : (vs.flatMap encode).length < 2 ^ 64) (acc : List α) :
    Reads (packedOrSingle one 2 acc) (delimited (vs.flatMap encode)) (· = acc ++ vs) := by
  unfold packedOrSingle
  rw [if_pos rfl]
  exact reads_packed reads (fun v _ => some_ v) fits acc

theorem reads_singleForm {one : Prog α} {bytes : Bytes} {v : α} {wire : Nat} (form : wire ≠ 2)
    (reads : Reads one bytes (· = v)) (acc : List α) :
    Reads (packedOrSingle one wire acc) bytes (· = acc ++ [v]) := by
  unfold packedOrSingle
  rw [if_neg form]
  exact reads_push reads acc

namespace RepeatedField

/-- Every field reads its packed values, and other fields leave it alone. -/
theorem regular (field : RepeatedField) : field.spec.Regular := by
  cases field with
  | attrFloats =>
    refine ⟨by decide, by decide, fun s vs _ fits => ?_, fun s o fits => ?_⟩
    · exact (reads_packed (fun v _ => reads_float32 v) (fun v _ => encodeFloat_ne_nil v) fits
        _).map fun _ values => values
    · exact (reads_attrOther fits s o.declared).mono fun _ other => other.floats o.apart
  | attrInts =>
    refine ⟨by decide, by decide, fun s vs valid fits => ?_, fun s o fits => ?_⟩
    · exact (reads_packedForm (fun v inside => reads_int64 (valid v inside).1 (valid v inside).2)
        encodeInt_ne_nil fits _).map fun _ values => values
    · exact (reads_attrOther fits s o.declared).mono fun _ other => other.ints o.apart
  | tensorDims =>
    refine ⟨by decide, by decide, fun s vs valid fits => ?_, fun s o fits => ?_⟩
    · exact (reads_packedForm (fun v inside => reads_int64 (valid v inside).1 (valid v inside).2)
        encodeInt_ne_nil fits _).map fun _ values => values
    · exact (reads_tensorOther fits s o.declared).mono fun _ other => other.dims o.apart
  | tensorFloatData =>
    refine ⟨by decide, by decide, fun s vs _ fits => ?_, fun s o fits => ?_⟩
    · exact (reads_packedForm (fun v _ => reads_float32 v) encodeFloat_ne_nil fits _).map
        fun _ values => values
    · exact (reads_tensorOther fits s o.declared).mono fun _ other => other.floatData o.apart
  | tensorInt32Data =>
    refine ⟨by decide, by decide, fun s vs valid fits => ?_, fun s o fits => ?_⟩
    · exact (reads_packedForm (fun v inside => reads_int32 (valid v inside).1 (valid v inside).2)
        encodeInt_ne_nil fits _).map fun _ values => values
    · exact (reads_tensorOther fits s o.declared).mono fun _ other => other.int32Data o.apart
  | tensorInt64Data =>
    refine ⟨by decide, by decide, fun s vs valid fits => ?_, fun s o fits => ?_⟩
    · exact (reads_packedForm (fun v inside => reads_int64 (valid v inside).1 (valid v inside).2)
        encodeInt_ne_nil fits _).map fun _ values => values
    · exact (reads_tensorOther fits s o.declared).mono fun _ other => other.int64Data o.apart
  | tensorUint64Data =>
    refine ⟨by decide, by decide, fun s vs valid fits => ?_, fun s o fits => ?_⟩
    · exact (reads_packedForm (fun v inside => reads_uint64 (valid v inside).1 (valid v inside).2)
        encodeInt_ne_nil fits _).map fun _ values => values
    · exact (reads_tensorOther fits s o.declared).mono fun _ other => other.uint64Data o.apart

/-- Every field but the floats of an attribute reads its single values. -/
theorem readsSingle {field : RepeatedField} (other : field ≠ attrFloats) :
    field.spec.ReadsSingle := by
  intro s v valid
  cases field with
  | attrFloats => exact absurd rfl other
  | attrInts =>
    exact (reads_singleForm (by decide) (reads_int64 valid.1 valid.2) _).map
      fun _ values => values
  | tensorDims =>
    exact (reads_singleForm (by decide) (reads_int64 valid.1 valid.2) _).map
      fun _ values => values
  | tensorFloatData =>
    exact (reads_singleForm (by decide) (reads_float32 v) _).map fun _ values => values
  | tensorInt32Data =>
    exact (reads_singleForm (by decide) (reads_int32 valid.1 valid.2) _).map
      fun _ values => values
  | tensorInt64Data =>
    exact (reads_singleForm (by decide) (reads_int64 valid.1 valid.2) _).map
      fun _ values => values
  | tensorUint64Data =>
    exact (reads_singleForm (by decide) (reads_uint64 valid.1 valid.2) _).map
      fun _ values => values

theorem proj_start (field : RepeatedField) : field.spec.proj field.spec.start = [] := by
  cases field <;> rfl

end RepeatedField

/-! ## A float that is taken for a length -/

theorem rounds_push_grows (one : Prog α) (file : Bytes) (fuel : Nat) (acc : List α) (r : Slice) :
    ∃ ws, ((rounds (push one) fuel acc).run file r).1 = acc ++ ws := by
  induction fuel generalizing acc r with
  | zero =>
    refine ⟨[], ?_⟩
    unfold rounds
    rw [run_bind]
    exact (append_nil _).symm
  | succ fuel ih =>
    unfold rounds
    rw [run_bind]
    change ∃ ws, ((if decide (r.stop ≤ r.pos) = true then pure acc
      else push one acc >>= fun s => rounds (push one) fuel s).run file r).1 = acc ++ ws
    split
    · exact ⟨[], (append_nil _).symm⟩
    · obtain ⟨ws, later⟩ := ih (acc ++ [(one.run file r).1]) (one.run file r).2.1
      refine ⟨(one.run file r).1 :: ws, ?_⟩
      rw [run_bind]
      unfold push
      simp only [run_bind, run_pure]
      exact later.trans (by rw [append_assoc, singleton_append])

variable {r : Slice} {file rest : Bytes} {b : UInt8}

/-- Where something is left, the first value that is added is the one that stands there. -/
theorem whileMore_push_first (one : Prog α) (file : Bytes) (acc : List α)
    (more : r.pos < r.stop) : ∃ ws,
      ((whileMore (push one) acc).run file r).1 = acc ++ (one.run file r).1 :: ws := by
  obtain ⟨ws, later⟩ := rounds_push_grows one file (r.stop - r.pos) (acc ++ [(one.run file r).1])
    (one.run file r).2.1
  refine ⟨ws, ?_⟩
  change ((rounds (push one) (r.stop - r.pos + 1) acc).run file r).1 = _
  unfold rounds
  simp only [run_bind, eof, not_le.mpr more, decide_false, Bool.false_eq_true, if_false]
  unfold push
  simp only [run_bind, run_pure]
  exact later.trans (by rw [append_assoc, singleton_append])

theorem nested_value (p : Prog α) (file : Bytes) (r : Slice) : ((nested p).run file r).1 =
    (p.run file ⟨(clampedLen.run file r).2.1.pos,
      (clampedLen.run file r).2.1.pos + (clampedLen.run file r).1⟩).1 := by
  rw [run_nested, run_bind, run_bind]
  rfl

theorem nested_cursor (p : Prog α) (file : Bytes) (r : Slice) : ((nested p).run file r).2.1 =
    { (clampedLen.run file r).2.1 with
      pos := (clampedLen.run file r).2.1.pos + (clampedLen.run file r).1 } := by
  rw [run_nested, run_bind, run_bind]
  rfl

theorem attrField_floats (m : AttrMessage) (w : Nat) (file : Bytes) (r : Slice) :
    ((attrField m 7 w).run file r).1.a.floats = ((packed float32 m.a.floats).run file r).1 ∧
      ((attrField m 7 w).run file r).2.1 = ((packed float32 m.a.floats).run file r).2.1 := by
  have seven : attrField m 7 w = packed float32 m.a.floats >>= fun floats =>
      pure { m with a := { m.a with floats := floats, kind := .floats } } := rfl
  rw [seven, run_bind]
  exact ⟨rfl, rfl⟩

theorem attrField_grows (m : AttrMessage) (f w : Nat) (file : Bytes) (r : Slice) :
    ∃ ws, ((attrField m f w).run file r).1.a.floats = m.a.floats ++ ws := by
  unfold attrField
  split
  case h_5 =>
    obtain ⟨ws, grown⟩ := rounds_push_grows float32 file _ m.a.floats
      ⟨(clampedLen.run file r).2.1.pos,
        (clampedLen.run file r).2.1.pos + (clampedLen.run file r).1⟩
    refine ⟨ws, ?_⟩
    rw [run_bind]
    exact (nested_value _ file r).trans grown
  all_goals
    refine ⟨[], ?_⟩
    rw [run_bind]
    exact (append_nil _).symm

theorem attrRounds_grow (file : Bytes) (fuel : Nat) (m : AttrMessage) (r : Slice) :
    ∃ ws, ((rounds (fun s => tag >>= fun fw => attrField s fw.1 fw.2) fuel m).run file
      r).1.a.floats = m.a.floats ++ ws := by
  induction fuel generalizing m r with
  | zero =>
    refine ⟨[], ?_⟩
    unfold rounds
    rw [run_bind]
    exact (append_nil _).symm
  | succ fuel ih =>
    unfold rounds
    rw [run_bind]
    change ∃ ws, ((if decide (r.stop ≤ r.pos) = true then pure m
      else (tag >>= fun fw => attrField m fw.1 fw.2) >>= fun s => rounds _ fuel s).run file
        r).1.a.floats = _
    split
    · exact ⟨[], (append_nil _).symm⟩
    · rw [run_bind, run_bind]
      obtain ⟨ws, first⟩ := attrField_grows m (tag.run file r).1.1 (tag.run file r).1.2 file
        (tag.run file r).2.1
      obtain ⟨ws', later⟩ := ih _ _
      exact ⟨ws ++ ws', later.trans (by rw [first, append_assoc])⟩

/-- A float whose bytes are a length: 134217727. -/
def lengthFloat : Float32Bits := ⟨0x3FFFFFFF⟩

theorem encodeFloat_lengthFloat : encodeFloat lengthFloat = groups 134217727 := by
  have bytes : encodeFloat lengthFloat = [255, 255, 255, 63] := by decide
  rw [bytes]
  simp [groups]

/-- Where no byte 255 stands, another float is read. -/
theorem float32_ne
    (split : List.drop r.pos file = b :: rest) (other : b ≠ 255) :
    (float32.run file r).1 ≠ lengthFloat := by
  intro same
  unfold float32 at same
  rw [run_bind] at same
  have bits : UInt32.ofNat (fixed32.run file r).1 = 0x3FFFFFFF := congrArg Float32Bits.bits same
  unfold fixed32 at bits
  rw [run_bind] at bits
  change UInt32.ofNat ((if r.stop - r.pos < 4 then _ else _ : Prog Nat).run file r).1 = _ at bits
  by_cases short : r.stop - r.pos < 4
  · rw [if_pos short, run_bind] at bits
    change UInt32.ofNat 0 = 0x3FFFFFFF at bits
    exact absurd bits (by decide)
  · rw [if_neg short, run_bind] at bits
    change UInt32.ofNat (leNat ((List.drop r.pos file).take 4)) = _ at bits
    rw [split, take_succ_cons] at bits
    have low := congrArg (fun n : UInt32 => n.toNat % 256) bits
    rw [leNat] at low
    rw [UInt32.toNat_ofNat'] at low
    have byte : b.toNat = 255 := by
      have small := UInt8.toNat_lt b
      have mask : (0x3FFFFFFF : UInt32).toNat % 256 = 255 := by decide
      omega
    exact other (UInt8.toNat_inj.mp byte)

/-- The first float of a packed field, where no byte 255 stands, is another one. -/
theorem attrFloats_ne (m : AttrMessage)
    (w : Nat) (split : List.drop (clampedLen.run file r).2.1.pos file = b :: rest) (other : b ≠ 255)
    (some_ : 0 < (clampedLen.run file r).1) : ∃ v ws, v ≠ lengthFloat ∧
      ((attrField m 7 w).run file r).1.a.floats = m.a.floats ++ v :: ws := by
  obtain ⟨ws, values⟩ := whileMore_push_first float32 file m.a.floats
    (r := ⟨(clampedLen.run file r).2.1.pos,
      (clampedLen.run file r).2.1.pos + (clampedLen.run file r).1⟩) (Nat.lt_add_of_pos_right some_)
  refine ⟨_, ws, ?_, (attrField_floats m w file r).1.trans ((nested_value _ file r).trans values)⟩
  exact float32_ne split other

/-- **A float under a tag of its own is lost, or another one stands in its place.** -/
theorem single_float_lost (m : AttrMessage) (fuel : Nat)
    (split : List.drop r.pos file = tagBytes 7 5 ++ (encodeFloat lengthFloat ++ rest))
    (stop : r.stop = r.pos + (tagBytes 7 5 ++ (encodeFloat lengthFloat ++ rest)).length)
    (other : ∀ b, rest.head? = some b → b ≠ 255) (ws : List Float32Bits) :
    ((rounds (fun s => tag >>= fun fw => attrField s fw.1 fw.2) (fuel + 1) m).run file
      r).1.a.floats ≠ m.a.floats ++ lengthFloat :: ws := by
  intro all
  rw [length_append, length_append, encodeFloat_lengthFloat] at stop
  rw [encodeFloat_lengthFloat] at split
  obtain ⟨tagged, moved⟩ := reads_tag (f := 7) (w := 5) (by decide) (by decide) file r _ split
    (by omega)
  have behind := drop_behind split
  obtain ⟨length, passed⟩ := reads_varint (n := 134217727) (by decide) file
    ⟨r.pos + (tagBytes 7 5).length, r.stop⟩ rest behind (by dsimp only; omega)
  have content := drop_behind behind
  dsimp only at passed
  have some_ := length_pos_iff.mpr (groups_ne_nil 134217727)
  have more : ¬ r.stop ≤ r.pos := by omega
  -- The length is clamped to what stands behind the float.
  have left : r.stop - (r.pos + (tagBytes 7 5).length + (groups 134217727).length) = rest.length :=
    by omega
  have clamped : (clampedLen.run file ⟨r.pos + (tagBytes 7 5).length, r.stop⟩).1 =
        (if 134217727 > rest.length then rest.length else 134217727) ∧
      (clampedLen.run file ⟨r.pos + (tagBytes 7 5).length, r.stop⟩).2.1 =
        ⟨r.pos + (tagBytes 7 5).length + (groups 134217727).length, r.stop⟩ := by
    unfold clampedLen
    rw [run_bind, run_bind, passed, length, ← left]
    exact ⟨rfl, rfl⟩
  have round : ((rounds (fun s => tag >>= fun fw => attrField s fw.1 fw.2) (fuel + 1) m).run file
      r).1 = ((rounds (fun s => tag >>= fun fw => attrField s fw.1 fw.2) fuel
        ((attrField m 7 5).run file ⟨r.pos + (tagBytes 7 5).length, r.stop⟩).1).run file
          ((attrField m 7 5).run file ⟨r.pos + (tagBytes 7 5).length, r.stop⟩).2.1).1 := by
    conv_lhs => unfold rounds
    simp only [run_bind, eof, more, decide_false, Bool.false_eq_true, if_false, tagged, moved]
  rw [round] at all
  cases rest with
  | nil =>
    have empty : (clampedLen.run file ⟨r.pos + (tagBytes 7 5).length, r.stop⟩).1 = 0 := clamped.1
    have floats := attrField_floats m 5 file ⟨r.pos + (tagBytes 7 5).length, r.stop⟩
    have none_ : ((packed float32 m.a.floats).run file
        ⟨r.pos + (tagBytes 7 5).length, r.stop⟩).1 = m.a.floats := by
      refine (nested_value _ file _).trans (rounds_done _ _ file ?_)
      rw [empty]
      exact le_rfl
    have done : ((attrField m 7 5).run file ⟨r.pos + (tagBytes 7 5).length, r.stop⟩).2.1.stop ≤
        ((attrField m 7 5).run file ⟨r.pos + (tagBytes 7 5).length, r.stop⟩).2.1.pos := by
      rw [floats.2]
      unfold packed
      rw [nested_cursor, clamped.2, empty]
      dsimp only
      rw [length_nil] at left
      omega
    rw [rounds_done fuel _ file done, floats.1, none_, self_eq_append_right] at all
    cases all
  | cons b rest =>
    have nonempty : 0 < (clampedLen.run file ⟨r.pos + (tagBytes 7 5).length, r.stop⟩).1 := by
      rw [clamped.1, length_cons]
      split <;> omega
    obtain ⟨v, ws', apart, first⟩ := attrFloats_ne m 5 (by rw [clamped.2]; exact content)
      (other b rfl) nonempty
    obtain ⟨ws'', later⟩ := attrRounds_grow file fuel
      ((attrField m 7 5).run file ⟨r.pos + (tagBytes 7 5).length, r.stop⟩).1
      ((attrField m 7 5).run file ⟨r.pos + (tagBytes 7 5).length, r.stop⟩).2.1
    rw [later, first, append_assoc, cons_append, append_cancel_left_eq, List.cons.injEq] at all
    exact apart all.1

/-- A tag of a form other than 7 does not begin with a byte 255. -/
theorem tagBytes_head {f w : Nat} (form : w < 7) {bytes : Bytes}
    (head : (tagBytes f w ++ bytes).head? = some b) : b ≠ 255 := by
  rintro rfl
  unfold tagBytes at head
  rw [groups] at head
  split at head
  · have first := Option.some.inj head
    have value := congrArg UInt8.toNat first
    rw [UInt8.toNat_ofNat'] at value
    have top : (255 : UInt8).toNat = 255 := rfl
    omega
  · have first := Option.some.inj head
    have value := congrArg UInt8.toNat first
    rw [UInt8.toNat_ofNat'] at value
    have top : (255 : UInt8).toNat = 255 := rfl
    omega

theorem items_head {items : List RepeatedField.attrFloats.spec.Item}
    (head : (items.flatMap Repeated.Item.bytes).head? = some b) : b ≠ 255 := by
  cases items with
  | nil => cases head
  | cons item items =>
    rw [flatMap_cons] at head
    cases item with
    | packed vs =>
      unfold Repeated.Item.bytes at head
      rw [append_assoc] at head
      exact tagBytes_head (by decide) head
    | single v =>
      unfold Repeated.Item.bytes at head
      rw [append_assoc] at head
      exact tagBytes_head (show 5 < 7 by decide) head
    | other o =>
      have form : o.payload.wire < 7 := by
        unfold Payload.wire
        split <;> decide
      unfold Repeated.Item.bytes at head
      rw [append_assoc] at head
      exact tagBytes_head form head

namespace Repeated

variable {R : Repeated σ α}

/-- A message can be made in some way: it is not too long. -/
def Writable (forms : List R.Form) : Prop :=
  ∃ items : List R.Item, items.map Item.form = forms ∧
    (∀ item ∈ items, ∀ v ∈ item.values, R.Valid v) ∧ (items.flatMap Item.bytes).length < 2 ^ 64

end Repeated

section AttrFloats

open Repeated RepeatedField

/-- Behind packed floats and other fields, a float under a tag of its own is not read. -/
theorem parsed_ne {front back : List attrFloats.spec.Item}
    (packed_ : Form.single ∉ front.map Item.form)
    (fits : ((front ++ .single lengthFloat :: back).flatMap Item.bytes).length < 2 ^ 64) :
    attrFloats.spec.parsed ((front ++ .single lengthFloat :: back).flatMap Item.bytes) ≠
      (front ++ .single lengthFloat :: back).flatMap Item.values := by
  intro all
  generalize text : (front ++ .single lengthFloat :: back).flatMap Item.bytes = file at all fits
  have split : List.drop 0 file = (front.map Item.piece).flatMap Piece.bytes ++
      (tagBytes 7 5 ++ (encodeFloat lengthFloat ++ back.flatMap Item.bytes)) := by
    rw [← text, drop_zero, flatMap_append, flatMap_cons, flatMap_map]
    exact congrArg _ (append_assoc _ _ _)
  have length := congrArg List.length split
  rw [drop_zero, length_append] at length
  have some_ : ∀ q ∈ front.map Item.piece, q.bytes ≠ [] := by
    intro q inside
    obtain ⟨item, -, rfl⟩ := mem_map.mp inside
    exact item.bytes_ne_nil
  have size := Wire.length_le_length_flatMap (front.map Item.piece) Piece.bytes
    fun q inside => length_pos_iff.mpr (some_ q inside)
  have enough : (front.map Item.piece).length ≤ file.length + 1 := by omega
  have each : ∀ q ∈ front.map Item.piece, ∀ m : AttrMessage,
      Reads (tag >>= fun fw => attrField m fw.1 fw.2) q.bytes
        fun m' => m'.a.floats = m.a.floats ++ q.values := by
    intro q inside m
    obtain ⟨item, mem, rfl⟩ := mem_map.mp inside
    have less : item.bytes.length < 2 ^ 64 := by
      refine lt_of_le_of_lt ?_ fits
      rw [← text]
      exact length_bytes_le (mem_append_left _ mem)
    exact (RepeatedField.regular attrFloats).reads_item (fun _ _ => trivial) less
      (fun form => absurd (mem_map.mpr ⟨item, mem, form⟩) packed_) m
  obtain ⟨m, fuel, spent, values, run⟩ := rounds_pieces (front.map Item.piece) some_ each {}
    enough (r := ⟨0, file.length⟩) split (by dsimp only; omega)
  have behind := drop_behind split
  obtain ⟨fuel, rfl⟩ := exists_eq_succ_of_ne_zero (show fuel ≠ 0 by omega)
  have stop : file.length = 0 + ((front.map Item.piece).flatMap Piece.bytes).length +
      (tagBytes 7 5 ++ (encodeFloat lengthFloat ++ back.flatMap Item.bytes)).length := by omega
  refine single_float_lost (r := ⟨_, file.length⟩) m fuel behind stop
    (fun b head => items_head head) (back.flatMap Item.values) ?_
  refine (congrArg (fun m : AttrMessage => m.a.floats) run).symm.trans (all.trans ?_)
  rw [values, flatMap_append, flatMap_cons, flatMap_map]
  rfl

theorem length_single (v : Float32Bits) :
    (Item.single v : attrFloats.spec.Item).bytes.length = (tagBytes 7 5).length + 4 :=
  length_append.trans (congrArg _ (Wire.length_leBytes 4 _))

/-- Among the messages with a float under a tag of its own, one is not read. -/
theorem attrFloats_not_alike {forms : List attrFloats.spec.Form} (writable : Writable forms)
    (single : Form.single ∈ forms) : ¬ attrFloats.spec.Alike forms := by
  intro alike
  obtain ⟨items, rfl, -, fits⟩ := writable
  obtain ⟨before, after, split, first⟩ := eq_append_cons_of_mem single
  obtain ⟨front, back, rfl, rfl, tail⟩ := map_eq_append_iff.mp split
  obtain ⟨item, back, rfl, form, rfl⟩ := map_eq_cons_iff.mp tail
  cases item with
  | packed vs => cases form
  | other o => cases form
  | single v =>
    have length : ((front ++ .single lengthFloat :: back).flatMap Item.bytes).length =
        ((front ++ .single v :: back).flatMap Item.bytes).length := by
      simp only [flatMap_append, flatMap_cons, length_append]
      rw [length_single, length_single]
    have less : ((front ++ .single lengthFloat :: back).flatMap Item.bytes).length < 2 ^ 64 :=
      length ▸ fits
    refine parsed_ne first less (alike _ ?_ (fun _ _ _ _ => trivial) less)
    rw [map_append, map_append]
    rfl

end AttrFloats

/-- **Packed and single values are read alike, except for the floats of an attribute**: of these,
all are read exactly when none has a tag of its own. -/
theorem alike_iff (field : RepeatedField) (forms : List field.spec.Form)
    (writable : Repeated.Writable forms) :
    field.spec.Alike forms ↔ field ≠ .attrFloats ∨ Repeated.Form.single ∉ forms := by
  constructor
  · intro alike
    by_contra both
    push Not at both
    obtain ⟨rfl, single⟩ := both
    exact attrFloats_not_alike writable single alike
  · rintro (other | packed_)
    · exact field.regular.alike (fun _ => field.readsSingle other) field.proj_start
    · exact field.regular.alike (fun single => absurd single packed_) field.proj_start

/-- Dimensions packed and single in one message are read. -/
theorem alike_dims : RepeatedField.tensorDims.spec.Alike [.packed 2, .single] := by
  refine (alike_iff .tensorDims [.packed 2, .single]
    ⟨[.packed [1, 2], .single 3], rfl, ?_, ?_⟩).mpr (Or.inl (by decide))
  · have first : ∀ v ∈ [(1 : Int), 2], -2 ^ 63 ≤ v ∧ v < 2 ^ 63 := by decide
    have second : ∀ v ∈ [(3 : Int)], -2 ^ 63 ≤ v ∧ v < 2 ^ 63 := by decide
    exact forall_mem_cons.mpr ⟨first, forall_mem_singleton.mpr second⟩
  · simp [Repeated.Item.bytes, RepeatedField.spec, tagBytes, delimited, encodeInt, groups]

/-- An attribute that is one float under a tag of its own is not read. -/
theorem singleFloat_not_alike : ¬ RepeatedField.attrFloats.spec.Alike [.single] :=
  attrFloats_not_alike
    ⟨[.single ⟨0⟩], rfl, fun _ _ _ _ => trivial,
      by simp [Repeated.Item.bytes, RepeatedField.spec, tagBytes, encodeFloat, groups]⟩
    mem_cons_self

end Vknn.OnnxWire
