import Vknn.Import.OnnxReaderSafe

/-!
# Writing fields

A field is written as its tag and its payload, and numbers in groups of seven bits.  What is written
so is read back: numbers, fixed widths, and payloads behind their length, whatever stands behind
them in the slice.
-/

namespace Vknn.OnnxWire

open SliceReader Prog Reader List Nat Int
open Wire (Bytes leBytes leNat)

/-! ## Writing -/

/-- A number in groups of seven bits, least significant first. -/
def groups (n : Nat) : Bytes :=
  if n < 128 then [UInt8.ofNat n] else UInt8.ofNat (n % 128 + 128) :: groups (n / 128)
termination_by n

def tagBytes (f w : Nat) : Bytes := groups (8 * f + w)

def delimited (bytes : Bytes) : Bytes := groups bytes.length ++ bytes

/-- The payload of a field. -/
inductive Payload where
  | varint (n : UInt64)
  | fixed64 (n : UInt64)
  | bytes (bs : Bytes)
  | fixed32 (n : UInt32)

namespace Payload

def wire : Payload → Nat
  | varint _ => 0
  | fixed64 _ => 1
  | bytes _ => 2
  | fixed32 _ => 5

theorem wire_lt (p : Payload) : p.wire < 8 := by
  unfold wire
  split <;> decide

def encode : Payload → Bytes
  | varint n => groups n.toNat
  | fixed64 n => leBytes 8 n.toNat
  | bytes bs => delimited bs
  | fixed32 n => leBytes 4 n.toNat

end Payload

def encodeInt (v : Int) : Bytes := groups (v % 2 ^ 64).toNat

def encodeFloat (v : Float32Bits) : Bytes := leBytes 4 v.bits.toNat

/-! ## Reading numbers -/

theorem groups_ne_nil (n : Nat) : groups n ≠ [] := by
  rw [groups]
  split <;> exact cons_ne_nil _ _

theorem joined_eq {v shift : Nat} {b : UInt8} (below : v < 2 ^ shift)
    (fits : v + b.toNat % 128 * 2 ^ shift < 2 ^ 64) :
    joined v shift b = v + b.toNat % 128 * 2 ^ shift := by
  unfold joined
  rw [Nat.or_comm, ← Nat.shiftLeft_add_eq_or_of_lt below, Nat.shiftLeft_eq, Nat.add_comm,
    Nat.mod_eq_of_lt fits]

theorem reads_varintLoop {file rest : Bytes} (n fuel v shift : Nat) (r : Slice)
    (below : v < 2 ^ shift) (fits : v + n * 2 ^ shift < 2 ^ 64)
    (split : List.drop r.pos file = groups n ++ rest)
    (inside : r.pos + (groups n).length ≤ r.stop) (enough : r.stop - r.pos < fuel) :
    ((varintLoop fuel v shift).run file r).1 = v + n * 2 ^ shift ∧
      ((varintLoop fuel v shift).run file r).2.1 = ⟨r.pos + (groups n).length, r.stop⟩ := by
  induction n using Nat.strongRecOn generalizing fuel v shift r with
  | ind n ih =>
    obtain ⟨fuel, rfl⟩ := Nat.exists_eq_succ_of_ne_zero (Nat.ne_zero_of_lt enough)
    rw [groups] at split inside ⊢
    by_cases last : n < 128
    · rw [if_pos last] at split inside ⊢
      have byte : file.getD r.pos 0 = UInt8.ofNat n := getD_front split
      have value : (UInt8.ofNat n).toNat = n := by
        rw [UInt8.toNat_ofNat']
        omega
      have group : n % 128 = n := mod_eq_of_lt last
      rw [varintLoop_last fuel v shift inside (by rw [byte, value]; exact last), byte]
      refine ⟨?_, rfl⟩
      dsimp only
      rw [joined_eq below (by rw [value, group]; exact fits), value, group]
    · rw [if_neg last] at split inside ⊢
      rw [length_cons] at inside ⊢
      have byte : file.getD r.pos 0 = UInt8.ofNat (n % 128 + 128) := getD_front split
      have value : (UInt8.ofNat (n % 128 + 128)).toNat = n % 128 + 128 := by
        rw [UInt8.toNat_ofNat']
        omega
      have group : (n % 128 + 128) % 128 = n % 128 := by omega
      have power : 2 ^ (shift + 7) = 128 * 2 ^ shift := by rw [Nat.pow_add, Nat.mul_comm]
      have whole : n % 128 * 2 ^ shift + n / 128 * 2 ^ (shift + 7) = n * 2 ^ shift := by
        rw [power, ← Nat.mul_assoc, ← Nat.add_mul]
        congr 1
        omega
      have part : n % 128 * 2 ^ shift ≤ 127 * 2 ^ shift := mul_le_mul_right _ (by omega)
      have digit : joined v shift (UInt8.ofNat (n % 128 + 128)) = v + n % 128 * 2 ^ shift := by
        rw [joined_eq below (by rw [value, group]; omega), value, group]
      rw [varintLoop_more fuel v shift (by omega) (by rw [byte, value]; omega), byte, digit]
      have behind : List.drop (r.pos + 1) file = groups (n / 128) ++ rest := by
        rw [← drop_drop, split]
        rfl
      obtain ⟨read, moved⟩ := ih (n / 128) (by omega) fuel (v + n % 128 * 2 ^ shift)
        (shift + 7) ⟨r.pos + 1, r.stop⟩ (by omega) (by omega) behind (by dsimp only; omega)
        (by dsimp only; omega)
      dsimp only at read moved ⊢
      rw [read, moved]
      refine ⟨by omega, ?_⟩
      congr 1
      omega

variable {n : Nat} {v : Int} {bs : Bytes}

/-- **A number is read as it was written.** -/
theorem reads_varint (fits : n < 2 ^ 64) : Reads varint (groups n) (· = n) := by
  intro file r rest split inside
  rw [varint_run]
  obtain ⟨read, moved⟩ := reads_varintLoop n _ 0 0 r (by decide) (by omega) split inside
    (lt_succ_self (r.stop - r.pos))
  refine ⟨read.trans ?_, moved⟩
  rw [zero_add, pow_zero, mul_one]

theorem reads_tag {f w : Nat} (small : f < 2 ^ 29) (form : w < 8) :
    Reads tag (tagBytes f w) (· = (f, w)) := by
  refine (reads_varint (show 8 * f + w < 2 ^ 64 by omega)).map ?_
  rintro _ rfl
  have number : (8 * f + w) / 8 % 2 ^ 32 = f := by omega
  have wire : (8 * f + w) % 8 = w := by omega
  rw [number, wire]

theorem reads_int64 (low : -2 ^ 63 ≤ v) (high : v < 2 ^ 63) :
    Reads int64 (encodeInt v) (· = v) := by
  refine (reads_varint (by omega)).map ?_
  rintro _ rfl
  rw [toNat_of_nonneg (by omega), bmod_def]
  omega

theorem reads_int32 (low : -2 ^ 31 ≤ v) (high : v < 2 ^ 31) :
    Reads int32 (encodeInt v) (· = v) := by
  refine (reads_varint (by omega)).map ?_
  rintro _ rfl
  rw [toNat_of_nonneg (by omega), bmod_def]
  omega

theorem reads_uint64 (low : 0 ≤ v) (high : v < 2 ^ 64) : Reads uint64 (encodeInt v) (· = v) := by
  refine (reads_varint (by omega)).map ?_
  rintro _ rfl
  omega

theorem reads_fixed32 (fits : n < 2 ^ 32) : Reads fixed32 (leBytes 4 n) (· = n) := by
  intro file r rest split inside
  have length : (leBytes 4 n).length = 4 := Wire.length_leBytes 4 n
  have enough : ¬ r.stop - r.pos < 4 := by omega
  have block_ := reads_block (leBytes 4 n)
  rw [length] at block_
  have reads : Reads (block 4 >>= fun bytes => pure (leNat bytes)) (leBytes 4 n) (· = n) := by
    refine block_.map ?_
    rintro _ rfl
    exact Wire.leNat_leBytes_of_lt fits
  unfold fixed32
  rw [run_bind]
  change (((if r.stop - r.pos < 4 then _ else _ : Prog Nat).run file r).1 = n) ∧
    ((if r.stop - r.pos < 4 then _ else _ : Prog Nat).run file r).2.1 = _
  rw [if_neg enough]
  exact reads file r rest split inside

theorem reads_float32 (v : Float32Bits) : Reads float32 (encodeFloat v) (· = v) := by
  refine (reads_fixed32 (UInt32.toNat_lt v.bits)).map ?_
  rintro _ rfl
  rw [UInt32.ofNat_toNat]

/-! ## Reading payloads behind their length -/

variable {α σ : Type}

theorem reads_delimited (fits : bs.length < 2 ^ 64) {k : Nat → Prog α} {Q : α → Prop}
    (reads : Reads (k bs.length) bs Q) : Reads (clampedLen >>= k) (delimited bs) Q := by
  intro file r rest split inside
  unfold delimited at split inside ⊢
  rw [append_assoc] at split
  rw [length_append, ← add_assoc] at inside
  obtain ⟨value, moved⟩ := reads_varint fits file r _ split (by omega)
  have unclamped : ¬ bs.length > r.stop - (r.pos + (groups bs.length).length) := by omega
  have length : (clampedLen.run file r).1 = bs.length ∧
      (clampedLen.run file r).2.1 = ⟨r.pos + (groups bs.length).length, r.stop⟩ := by
    unfold clampedLen
    rw [run_bind, run_bind, moved, value]
    exact ⟨if_neg unclamped, rfl⟩
  rw [run_bind, length.1, length.2]
  obtain ⟨holds, later⟩ := reads file ⟨r.pos + (groups bs.length).length, r.stop⟩ rest
    (drop_behind split) inside
  refine ⟨holds, later.trans ?_⟩
  rw [length_append, add_assoc]

theorem reads_bytes (fits : bs.length < 2 ^ 64) : Reads Reader.bytes (delimited bs) (· = bs) :=
  reads_delimited fits (reads_block bs)

theorem reads_nested {p : Prog α} {Q : α → Prop} (fits : bs.length < 2 ^ 64)
    (whole : Whole p bs Q) : Reads (nested p) (delimited bs) Q := by
  intro file r rest split inside
  rw [run_nested]
  exact reads_delimited fits (reads_enter whole) file r rest split inside

theorem reads_width {bytes : Bytes} (width : bytes.length = n) :
    Reads (remaining >>= fun left => advance (if left < n then left else n)) bytes
      fun _ => True := by
  intro file r rest split inside
  subst width
  rw [run_bind]
  have enough : ¬ r.stop - r.pos < bytes.length := by omega
  refine ⟨trivial, ?_⟩
  change (⟨r.pos + (if r.stop - r.pos < bytes.length then r.stop - r.pos else bytes.length),
    r.stop⟩ : Slice) = _
  rw [if_neg enough]

theorem reads_skip (p : Payload) (fits : p.encode.length < 2 ^ 64) :
    Reads (skip p.wire) p.encode fun _ => True := by
  cases p with
  | varint n => exact (reads_varint (UInt64.toNat_lt n)).map fun _ _ => trivial
  | fixed64 n => exact reads_width (Wire.length_leBytes 8 _)
  | bytes bs =>
    have less : bs.length < 2 ^ 64 := by
      refine lt_of_le_of_lt ?_ fits
      exact (length_append ▸ le_add_left _ _ : bs.length ≤ (delimited bs).length)
    exact reads_delimited less (reads_advance bs)
  | fixed32 n => exact reads_width (Wire.length_leBytes 4 _)

/-! ## Reading values -/

theorem reads_push {one : Prog α} {bytes : Bytes} {v : α} (reads : Reads one bytes (· = v))
    (acc : List α) : Reads (push one acc) bytes (· = acc ++ [v]) := by
  refine reads.map ?_
  rintro _ rfl
  rfl

theorem reads_packed {one : Prog α} {encode : α → Bytes} {vs : List α}
    (reads : ∀ v ∈ vs, Reads one (encode v) (· = v)) (some_ : ∀ v ∈ vs, encode v ≠ [])
    (fits : (vs.flatMap encode).length < 2 ^ 64) (acc : List α) :
    Reads (packed one acc) (delimited (vs.flatMap encode)) (· = acc ++ vs) := by
  let piece : α → Piece α := fun v => ⟨encode v, [v]⟩
  have pieces : Whole (whileMore (push one) acc) ((vs.map piece).flatMap Piece.bytes)
      fun all => id all = id acc ++ (vs.map piece).flatMap Piece.values := by
    refine whole_whileMore _ ?_ ?_ acc
    · intro q inside
      obtain ⟨v, mem, rfl⟩ := mem_map.mp inside
      exact some_ v mem
    · intro q inside s
      obtain ⟨v, mem, rfl⟩ := mem_map.mp inside
      exact reads_push (reads v mem) s
  rw [flatMap_map, flatMap_map, flatMap_singleton'] at pieces
  exact reads_nested fits pieces

end Vknn.OnnxWire
