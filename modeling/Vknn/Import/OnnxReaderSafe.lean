import Vknn.Import.OnnxReader

/-!
# What the walks over a model do

Every walk keeps to its slice, hands out parts of it only, and ends: a round passes over its tag at
least, even where the form of the payload is unknown and nothing more is passed over.

The shifts are another matter.  A number is decoded up to the group that does not go on, and after
ten groups that do go on the next one is shifted by 70.
-/

namespace Vknn.OnnxWire

open SliceReader Prog List Nat
open Wire (Bytes)

variable {file : Bytes} {r : Slice}

/-! ## Numbers -/

namespace Reader

theorem varintLoop_end (fuel v shift : Nat) (ended : r.stop ≤ r.pos) :
    (varintLoop (fuel + 1) v shift).run file r = (v, r, []) := by
  unfold varintLoop
  rw [run_bind]
  change _ = (v, r, [])
  simp [eof, ended]

def joined (v shift : Nat) (b : UInt8) : Nat := (v ||| (b.toNat % 128) <<< shift) % 2 ^ 64

theorem varintLoop_last (fuel v shift : Nat) (more : r.pos < r.stop)
    (last : (file.getD r.pos 0).toNat < 128) :
    (varintLoop (fuel + 1) v shift).run file r =
      (joined v shift (file.getD r.pos 0), ⟨r.pos + 1, r.stop⟩,
        [.read r.pos 1 r.stop, .shift shift]) := by
  have some_ : ¬ r.stop ≤ r.pos := not_le.mpr more
  unfold varintLoop
  simp only [run_bind, eof, some_, decide_false, Bool.false_eq_true, if_false, byte, Prog.tell]
  rw [if_pos last]
  rfl

theorem varintLoop_more (fuel v shift : Nat) (more : r.pos < r.stop)
    (goes : 128 ≤ (file.getD r.pos 0).toNat) :
    (varintLoop (fuel + 1) v shift).run file r =
      let o := (varintLoop fuel (joined v shift (file.getD r.pos 0)) (shift + 7)).run file
        ⟨r.pos + 1, r.stop⟩
      (o.1, o.2.1, .read r.pos 1 r.stop :: .shift shift :: o.2.2) := by
  have some_ : ¬ r.stop ≤ r.pos := not_le.mpr more
  conv_lhs => unfold varintLoop
  simp only [run_bind, eof, some_, decide_false, Bool.false_eq_true, if_false, byte, Prog.tell]
  rw [if_neg (not_lt.mpr goes)]
  rfl

/-- What reading a number does, whatever has been read of it: it keeps to the slice, and what it
records is no number of its own. -/
theorem varintLoop_framed (fuel v shift : Nat) (r : Slice) (valid : r.Valid file)
    (enough : r.stop - r.pos < fuel) :
    let o := (varintLoop fuel v shift).run file r
    o.2.1.stop = r.stop ∧ r.pos ≤ o.2.1.pos ∧ (r.pos < r.stop → r.pos < o.2.1.pos) ∧
      o.2.1.pos ≤ r.stop ∧ (∀ e ∈ o.2.2, e.Framed file) ∧ ∀ e ∈ o.2.2, e.Short file := by
  induction fuel generalizing v shift r with
  | zero => cases enough
  | succ fuel ih =>
    rcases lt_or_ge r.pos r.stop with more | ended
    · have here : (Event.read r.pos 1 r.stop).Framed file := ⟨more, valid.inside⟩
      rcases lt_or_ge (file.getD r.pos 0).toNat 128 with last | goes
      · rw [varintLoop_last fuel v shift more last]
        exact ⟨rfl, le_succ _, fun _ => lt_succ_self _, more,
          forall_mem_cons.mpr ⟨here, forall_mem_singleton.mpr trivial⟩,
          forall_mem_cons.mpr ⟨trivial, forall_mem_singleton.mpr trivial⟩⟩
      · rw [varintLoop_more fuel v shift more goes]
        obtain ⟨stop, forward, -, ordered, framed, short⟩ :=
          ih (joined v shift (file.getD r.pos 0)) (shift + 7) ⟨r.pos + 1, r.stop⟩
            ⟨more, valid.inside⟩ (by dsimp only; omega)
        dsimp only at stop forward ordered ⊢
        refine ⟨stop, by omega, fun _ => by omega, ordered, ?_, ?_⟩
        · rw [forall_mem_cons, forall_mem_cons]
          exact ⟨here, trivial, framed⟩
        · rw [forall_mem_cons, forall_mem_cons]
          exact ⟨trivial, trivial, short⟩
    · rw [varintLoop_end fuel v shift ended]
      exact ⟨rfl, le_rfl, fun more => absurd more (not_lt.mpr ended), valid.ordered,
        forall_mem_nil _, forall_mem_nil _⟩

/-- So many groups that go on, and another byte behind them. -/
def GoesOn (file : Bytes) (r : Slice) (m : Nat) : Prop :=
  r.pos + m < r.stop ∧ ∀ k < m, 128 ≤ file.getD (r.pos + k) 0

theorem goesOn_succ_iff (m : Nat) : GoesOn file r (m + 1) ↔
    128 ≤ file.getD r.pos 0 ∧ GoesOn file ⟨r.pos + 1, r.stop⟩ m := by
  unfold GoesOn
  dsimp only
  constructor
  · rintro ⟨inside, all⟩
    refine ⟨all 0 (succ_pos m), by omega, fun k small => ?_⟩
    rw [add_assoc, add_comm 1 k]
    exact all (k + 1) (succ_lt_succ small)
  · rintro ⟨first, inside, all⟩
    refine ⟨by omega, fun k small => ?_⟩
    cases k with
    | zero => exact first
    | succ k =>
      have later := all k (lt_of_succ_lt_succ small)
      rwa [add_assoc, add_comm 1 k] at later

/-- **Before the last of ten groups, a shift is too far exactly when all the others go on.** -/
theorem varintLoop_narrow_iff (m : Nat) {k : Nat} (ten : k + m = 10) (fuel v : Nat) (r : Slice)
    (valid : r.Valid file) (enough : r.stop - r.pos < fuel) :
    (∀ e ∈ ((varintLoop fuel v (7 * k)).run file r).2.2, e.Narrow) ↔ ¬ GoesOn file r m := by
  induction m generalizing k fuel v r with
  | zero =>
    obtain ⟨fuel, rfl⟩ := exists_eq_succ_of_ne_zero (ne_zero_of_lt enough)
    have wide : ¬ (Event.shift (7 * k)).Narrow := by
      change ¬ 7 * k < 64
      omega
    rcases lt_or_ge r.pos r.stop with more | ended
    · have goes : GoesOn file r 0 := ⟨more, nofun⟩
      refine iff_of_false (fun all => wide (all _ ?_)) (not_not_intro goes)
      rcases lt_or_ge (file.getD r.pos 0).toNat 128 with last | goes
      · rw [varintLoop_last fuel v _ more last]
        exact mem_cons_of_mem _ mem_cons_self
      · rw [varintLoop_more fuel v _ more goes]
        exact mem_cons_of_mem _ mem_cons_self
    · rw [varintLoop_end fuel v _ ended]
      exact iff_of_true (forall_mem_nil _) fun goes => absurd goes.1 (not_lt.mpr ended)
  | succ m ih =>
    obtain ⟨fuel, rfl⟩ := exists_eq_succ_of_ne_zero (ne_zero_of_lt enough)
    have narrow : (Event.shift (7 * k)).Narrow := by
      change 7 * k < 64
      omega
    rcases lt_or_ge r.pos r.stop with more | ended
    · rcases lt_or_ge (file.getD r.pos 0).toNat 128 with last | goes
      · rw [varintLoop_last fuel v _ more last, goesOn_succ_iff]
        refine iff_of_true ?_ fun goes => ?_
        · exact forall_mem_cons.mpr ⟨trivial, forall_mem_singleton.mpr narrow⟩
        · have first := UInt8.le_iff_toNat_le.mp goes.1
          exact absurd last (not_lt.mpr first)
      · have byte : (128 : UInt8) ≤ file.getD r.pos 0 := UInt8.le_iff_toNat_le.mpr goes
        rw [varintLoop_more fuel v _ more goes, goesOn_succ_iff]
        dsimp only
        rw [forall_mem_cons, forall_mem_cons, and_iff_right narrow,
          show 7 * k + 7 = 7 * (k + 1) by omega,
          ih (by omega) fuel _ ⟨r.pos + 1, r.stop⟩ ⟨more, valid.inside⟩ (by dsimp only; omega),
          and_iff_right byte]
        exact and_iff_right trivial
    · rw [varintLoop_end fuel v _ ended]
      refine iff_of_true (forall_mem_nil _) fun goes => ?_
      have inside := goes.1
      omega

theorem varint_run (file : Bytes) (r : Slice) : varint.run file r =
    let o := (varintLoop (r.stop - r.pos + 1) 0 0).run file r
    (o.1, o.2.1, .decode r :: o.2.2) := by
  unfold varint
  dsimp only
  rw [run_bind]
  rfl

theorem sound_varint : Sound varint := by
  intro file r valid
  obtain ⟨stop, forward, -, ordered, framed, short⟩ :=
    varintLoop_framed (r.stop - r.pos + 1) 0 0 r valid (lt_succ_self _)
  rw [varint_run]
  refine ⟨stop, forward, ordered, forall_mem_cons.mpr ⟨trivial, framed⟩, ?_⟩
  dsimp only
  rw [forall_mem_cons, forall_mem_cons, and_iff_left short]
  refine (and_iff_right trivial).trans ?_
  exact varintLoop_narrow_iff 10 (zero_add 10) _ 0 r valid (lt_succ_self _)

theorem progress_varint : Progress varint := by
  intro file r valid more
  rw [varint_run]
  exact (varintLoop_framed (r.stop - r.pos + 1) 0 0 r valid (lt_succ_self _)).2.2.1 more

/-! ## Clamped lengths -/

theorem clamped_le (len left : Nat) : (if len > left then left else len) ≤ left := by
  split
  · exact le_rfl
  · rename_i fits
    exact not_lt.mp fits

/-- A length that has been clamped is no more than what is left. -/
theorem kept_clampedLen (valid : r.Valid file) : Kept file r (clampedLen.run file r) ∧
    (clampedLen.run file r).1 ≤
      (clampedLen.run file r).2.1.stop - (clampedLen.run file r).2.1.pos := by
  constructor
  · exact (sound_varint.bind fun _ => sound_remaining.bind fun _ => sound_pure _) file r valid
  · unfold clampedLen
    rw [run_bind, run_bind]
    exact clamped_le _ _

theorem sound_clamped {α : Type} {k : Nat → Prog α} (keeps : ∀ n (r : Slice), r.Valid file →
    n ≤ r.stop - r.pos → Kept file r ((k n).run file r)) (valid : r.Valid file) :
    Kept file r ((clampedLen >>= k).run file r) := by
  obtain ⟨kept, fits⟩ := kept_clampedLen valid
  exact kept.bind (keeps _ _ (kept.valid valid) fits)

theorem sound_str : Sound str := fun _ _ valid =>
  sound_clamped (fun _ _ valid left => kept_block valid left) valid

theorem sound_bytes : Sound bytes := sound_str

theorem run_nested {α : Type} (p : Prog α) (file : Bytes) (r : Slice) : (nested p).run file r =
    (clampedLen >>= fun len => enter len >>= fun s => within s p).run file r := by
  simp only [nested, sub, run_bind, append_assoc]

theorem sound_nested {α : Type} {p : Prog α} (sound : Sound p) : Sound (nested p) := by
  intro file r valid
  rw [run_nested]
  exact sound_clamped (fun _ _ valid left => kept_enter valid left sound) valid

theorem sound_fixed32 : Sound fixed32 := by
  intro file r valid
  refine (sound_remaining file r valid).bind ?_
  change Kept file r ((if r.stop - r.pos < 4 then _ else _ : Prog Nat).run file r)
  split
  · exact (sound_exhaust file r valid).bind (sound_pure _ file _ ⟨le_rfl, valid.inside⟩)
  · rename_i enough
    have read := kept_block valid (not_lt.mp enough)
    exact read.bind (sound_pure _ file _ (read.valid valid))

theorem sound_advance (n : Nat) :
    Sound (remaining >>= fun left => advance (if left < n then left else n)) := by
  intro file r valid
  refine (sound_remaining file r valid).bind (kept_advance valid ?_)
  change (if r.stop - r.pos < n then r.stop - r.pos else n) ≤ r.stop - r.pos
  split
  · exact le_rfl
  · rename_i enough
    exact not_lt.mp enough

theorem sound_skip (wire : Nat) : Sound (skip wire) := by
  unfold skip
  split
  · exact sound_varint.bind fun _ => sound_pure ()
  · exact sound_advance 8
  · exact sound_advance 4
  · exact fun _ _ valid => sound_clamped (fun _ _ valid left => kept_advance valid left) valid
  · exact sound_pure ()

theorem sound_tag : Sound tag := sound_varint.map _

theorem progress_tag : Progress tag := progress_varint.bind sound_varint fun _ => sound_pure _

end Reader

/-! ## Messages -/

namespace Reader

variable {α σ : Type}

theorem sound_message {field : σ → Nat → Nat → Prog σ} (sound : ∀ s f w, Sound (field s f w))
    (s : σ) : Sound (message field s) :=
  sound_whileMore (fun _ => sound_tag.bind fun _ => sound _ _ _)
    (fun _ => progress_tag.bind sound_tag fun _ => sound _ _ _) s

theorem sound_push {one : Prog α} (sound : Sound one) (acc : List α) : Sound (push one acc) :=
  sound.map _

theorem sound_packed {one : Prog α} (sound : Sound one) (progress : Progress one)
    (acc : List α) : Sound (packed one acc) :=
  sound_nested (sound_whileMore (sound_push sound)
    (fun _ => progress.bind sound fun _ => sound_pure _) acc)

theorem sound_packedOrSingle {one : Prog α} (sound : Sound one) (progress : Progress one)
    (wire : Nat) (acc : List α) : Sound (packedOrSingle one wire acc) := by
  unfold packedOrSingle
  split
  · exact sound_packed sound progress acc
  · exact sound_push sound acc

theorem sound_int64 : Sound int64 := sound_varint.map _
theorem sound_int32 : Sound int32 := sound_varint.map _
theorem sound_uint64 : Sound uint64 := sound_varint.map _
theorem sound_float32 : Sound float32 := sound_fixed32.map _

theorem progress_int64 : Progress int64 := progress_varint.bind sound_varint fun _ => sound_pure _
theorem progress_int32 : Progress int32 := progress_varint.bind sound_varint fun _ => sound_pure _
theorem progress_uint64 : Progress uint64 := progress_varint.bind sound_varint fun _ => sound_pure _

theorem progress_float32 : Progress float32 := by
  have progress : Progress fixed32 := by
    intro file r valid more
    unfold fixed32
    rw [run_bind]
    change r.pos < ((if r.stop - r.pos < 4 then _ else _ : Prog Nat).run file r).2.1.pos
    split
    · rw [run_bind]
      exact more
    · rw [run_bind]
      exact Nat.lt_add_of_pos_right (show 0 < 4 by decide)
  exact progress.bind sound_fixed32 fun _ => sound_pure _

theorem sound_skipped (wire : Nat) (s : σ) : Sound (skip wire >>= fun _ => pure s) :=
  (sound_skip wire).map _

end Reader

open Reader

theorem sound_stringEntryField (kv : Str × Str) (f w : Nat) : Sound (stringEntryField kv f w) := by
  unfold stringEntryField
  split
  · exact sound_str.map _
  split
  · exact sound_str.map _
  · exact sound_skipped w kv

theorem sound_tensorField (t : TensorMessage) (f w : Nat) : Sound (tensorField t f w) := by
  unfold tensorField
  split
  · exact (sound_packedOrSingle sound_int64 progress_int64 w t.dims).map _
  · exact sound_int32.map _
  · exact (sound_packedOrSingle sound_float32 progress_float32 w t.floatData).map _
  · exact (sound_packedOrSingle sound_int32 progress_int32 w t.int32Data).map _
  · exact (sound_packedOrSingle sound_int64 progress_int64 w t.int64Data).map _
  · exact (sound_packedOrSingle sound_uint64 progress_uint64 w t.uint64Data).map _
  · exact sound_str.map _
  · exact sound_bytes.map _
  · exact (sound_nested (sound_message sound_stringEntryField _)).map _
  · exact sound_int32.map _
  · exact sound_skipped w t

theorem sound_parseTensor : Sound parseTensor := sound_message sound_tensorField _

theorem sound_attrField (m : AttrMessage) (f w : Nat) : Sound (attrField m f w) := by
  unfold attrField
  split
  · exact sound_str.map _
  · exact sound_float32.map _
  · exact sound_int64.map _
  · exact sound_bytes.map _
  · exact (sound_packed sound_float32 progress_float32 m.a.floats).map _
  · exact (sound_packedOrSingle sound_int64 progress_int64 w m.a.ints).map _
  · exact (sound_nested sound_parseTensor).map _
  · exact sound_skipped w m

theorem sound_readAttr : Sound readAttr := sound_message sound_attrField _

variable (flatten : TensorMessage → Attr → Attr)

theorem sound_parseAttr : Sound (parseAttr flatten) := by
  unfold parseAttr
  refine sound_readAttr.bind fun m => ?_
  split <;> exact sound_pure _

theorem sound_nodeField (n : NodeMessage) (f w : Nat) : Sound (nodeField flatten n f w) := by
  unfold nodeField
  split
  · exact sound_str.map _
  · exact sound_str.map _
  · exact sound_str.map _
  · exact sound_str.map _
  · exact (sound_nested (sound_parseAttr flatten)).map _
  · exact sound_skipped w n

theorem sound_parseNode : Sound (parseNode flatten) :=
  (sound_message (sound_nodeField flatten) _).map _

theorem sound_dimField (d : Int × Str) (f w : Nat) : Sound (dimField d f w) := by
  unfold dimField
  split
  · exact sound_int64.map _
  split
  · exact sound_str.map _
  · exact sound_skipped w d

theorem sound_shapeField (v : ValueInfo) (f w : Nat) : Sound (shapeField v f w) := by
  unfold shapeField
  split
  · exact (sound_nested (sound_message sound_dimField _)).map _
  · exact sound_skipped w v

theorem sound_tensorTypeField (v : ValueInfo) (f w : Nat) : Sound (tensorTypeField v f w) := by
  unfold tensorTypeField
  split
  · exact sound_int32.map _
  split
  · exact sound_nested (sound_message sound_shapeField v)
  · exact sound_skipped w v

theorem sound_typeField (v : ValueInfo) (f w : Nat) : Sound (typeField v f w) := by
  unfold typeField
  split
  · exact sound_nested (sound_message sound_tensorTypeField v)
  · exact sound_skipped w v

theorem sound_valueInfoField (v : ValueInfo) (f w : Nat) : Sound (valueInfoField v f w) := by
  unfold valueInfoField
  split
  · exact sound_str.map _
  split
  · exact sound_nested (sound_message sound_typeField v)
  · exact sound_skipped w v

theorem sound_parseValueInfo : Sound parseValueInfo := sound_message sound_valueInfoField _

theorem sound_collectField (fields : List GraphMessageField) (f w : Nat) :
    Sound (collectField flatten fields f w) := by
  unfold collectField
  split
  · exact (sound_nested (sound_parseNode flatten)).map _
  · exact (sound_nested sound_parseTensor).map _
  · exact (sound_nested sound_parseValueInfo).map _
  · exact (sound_nested sound_parseValueInfo).map _
  · exact (sound_nested sound_parseValueInfo).map _
  · exact sound_skipped w fields

theorem sound_collect : Sound (collect flatten) := sound_message (sound_collectField flatten) _

theorem sound_modelField (graphs : List (List GraphMessageField)) (f w : Nat) :
    Sound (modelField flatten graphs f w) := by
  unfold modelField
  split
  · exact (sound_nested (sound_collect flatten)).map _
  · exact sound_skipped w graphs

theorem sound_parseModel : Sound (parseModel flatten) := sound_message (sound_modelField flatten) _

/-! ## Whole walks -/

/-- The walks over messages. -/
inductive Walk where
  | model
  | graph
  | node
  | attr
  | tensor
  | valueInfo
deriving DecidableEq

/-- What a walk over a byte string does. -/
def Walk.record (file : Bytes) : Walk → List Event
  | model => ((parseModel flatten).run file ⟨0, file.length⟩).2.2
  | graph => ((collect flatten).run file ⟨0, file.length⟩).2.2
  | node => ((parseNode flatten).run file ⟨0, file.length⟩).2.2
  | attr => ((parseAttr flatten).run file ⟨0, file.length⟩).2.2
  | tensor => (parseTensor.run file ⟨0, file.length⟩).2.2
  | valueInfo => (parseValueInfo.run file ⟨0, file.length⟩).2.2

theorem valid_whole (file : Bytes) : Slice.Valid file ⟨0, file.length⟩ := ⟨zero_le _, le_rfl⟩

/-- **A walk is safe exactly when it decodes no number that is too long.** -/
theorem Walk.safe_iff (walk : Walk) (file : Bytes) : (∀ e ∈ walk.record flatten file, e.Safe file) ↔
      ∀ e ∈ walk.record flatten file, e.Short file := by
  cases walk with
  | model => exact (sound_parseModel flatten).events_safe_iff (valid_whole file)
  | graph => exact (sound_collect flatten).events_safe_iff (valid_whole file)
  | node => exact (sound_parseNode flatten).events_safe_iff (valid_whole file)
  | attr => exact (sound_parseAttr flatten).events_safe_iff (valid_whole file)
  | tensor => exact sound_parseTensor.events_safe_iff (valid_whole file)
  | valueInfo => exact sound_parseValueInfo.events_safe_iff (valid_whole file)

def longTag : Bytes := List.replicate 10 128 ++ [1]

theorem longTag_shifts_far : ¬ ∀ e ∈ Walk.tensor.record (fun _ a => a) longTag, e.Safe longTag := by
  intro safe
  have far : Event.shift 70 ∈ Walk.tensor.record (fun _ a => a) longTag := by decide +kernel
  have narrow : 70 < 64 := (safe _ far).2
  exact absurd narrow (by decide)

end Vknn.OnnxWire
