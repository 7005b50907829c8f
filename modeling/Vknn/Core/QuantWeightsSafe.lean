import Vknn.Core.QuantWeightsRoom

/-!
# Where materialization is safe

A node's dimensions are addressable when they describe no element at all, when
one of the buffers they ask for is longer than a vector can be, which is a
refusal, or when none of the products that matter wraps.  A node with such
dimensions and its two operands is materialized without an access outside a
buffer, whatever the file holds in its constants and whatever memory there is.
-/

namespace Vknn.QuantWeights

open Guarded Guarded.Outcome Import.Quantize List Int Nat QuantPacking Std
open QuantPacking (FloatArith)

/-! ## The condition -/

/-- Bytes of a packed row of a format, without wrapping. -/
def exactRowBytes (format N : Int) : Int :=
  if format = kWqFormatInt8 then 8 * ((N + 7) / 8) else 4 * ((N + 7) / 8)

/-- A buffer of the decoders would be longer than a vector can be. -/
def TooLong (K N group nOut : Int) : Prop :=
  2 ^ 62 ≤ sizeT (int4GroupCount K group * N) ∨ 2 ^ 61 ≤ sizeT nOut ∨ 2 ^ 62 ≤ sizeT (nOut * N) ∨
    2 ^ 61 ≤ sizeT (K * N)

/-- The products the decoders rely on do not wrap, nor does the sum the groups are counted by,
unless into a count that is refused. -/
def Exact (format K N group nOut : Int) : Prop :=
  K * N < 2 ^ 64 ∧ nOut * N < 2 ^ 64 ∧ K * exactRowBytes format N < 2 ^ 63 ∧
    K + 2 * group ≤ 2 ^ 64 + 1

/-- Dimensions that no access outside a buffer follows from. -/
def Addressable (format K N group nOut : Int) : Prop :=
  K = 0 ∨ N = 0 ∨ TooLong K N group nOut ∨ Exact format K N group nOut

/-- A node that may be materialized: if it has a packed weight of a known format and its dimensions
pass the checks on their signs, it has two operands and its dimensions are addressable. -/
def Admissible (nd : Node) : Prop :=
  nd.attr.has kWq → knownFormat nd → validDims nd → 2 ≤ nd.inputs.length ∧
      Addressable (weightQuantFormat nd) (nd.attr.geti kWqK 0) (nd.attr.geti kWqN 0)
        (nd.attr.geti kWqGroup 1) (nd.attr.geti kWqNOut 0)

/-- The attributes are 64-bit integers. -/
def Machine (nd : Node) : Prop :=
  ∀ (key : Str) (a : Attr), nd.attr.map[key]? = some a → -2 ^ 63 ≤ a.i ∧ a.i < 2 ^ 63

theorem Machine.geti_lt {nd : Node} (machine : Machine nd) (key : Str) {d : Int}
    (small : d < 2 ^ 63) : nd.attr.geti key d < 2 ^ 63 := by
  unfold Attributes.geti
  split
  · rename_i a found
    exact (machine key a found).2
  · exact small

/-! ## The groups and the rows -/

/-- Where the count of groups is not refused, it covers every row. -/
theorem scale_inside {K N group k n : Nat} (positive : 0 < group) (grid : K * N < 2 ^ 61)
    (groups : (K : Int) + 2 * group ≤ 2 ^ 64 + 1)
    (short : sizeT (int4GroupCount K group * N) < 2 ^ 62) (row : k < K) (column : n < N) :
    k / group * N + n < sizeT (int4GroupCount K group * N) := by
  have rows : K ≤ K * N := Nat.le_mul_of_pos_right K (by omega)
  have columns : N ≤ K * N := Nat.le_mul_of_pos_left N (by omega)
  by_cases exact_sum : K + group ≤ 2 ^ 63
  · have count : int4GroupCount K group = QuantPacking.int4GroupCount K group := by
      have sum : wrap64 ((K : Int) + group - 1) = ((K + group - 1 : Nat) : Int) := by
        rw [wrap64_of_fits (by omega) (by omega)]
        omega
      rw [int4GroupCount, sum, tdiv_eq_ediv_of_nonneg (by omega)]
      rfl
    have few : QuantPacking.int4GroupCount K group ≤ K := by
      unfold QuantPacking.int4GroupCount
      have many : K ≤ K * group := Nat.le_mul_of_pos_right K positive
      rw [← Nat.lt_succ_iff, Nat.div_lt_iff_lt_mul positive, Nat.succ_mul]
      omega
    have small : QuantPacking.int4GroupCount K group * N ≤ K * N := Nat.mul_le_mul_right N few
    rw [count, ← Nat.cast_mul, sizeT_natCast (by omega)]
    exact place_lt (QuantPacking.div_lt_int4GroupCount positive row) column
  · -- the sum wraps, and the count of -1 asks for a vector that is too long
    have count : int4GroupCount K group = -1 := by
      have sum : wrap64 ((K : Int) + group - 1) = K + group - 1 - 2 ^ 64 := by
        rw [wrap64, bmod_eq_emod]
        split
        · omega
        · omega
      have low : (K : Int) + group - 1 - 2 ^ 64 ≤ -group := by omega
      have high : -(2 * group : Int) < (K : Int) + group - 1 - 2 ^ 64 := by omega
      generalize (K : Int) + group - 1 - 2 ^ 64 = v at sum low high
      have quotient : -v / group = 1 := by
        rw [ediv_eq_iff_of_pos (by omega)]
        constructor <;> omega
      rw [int4GroupCount, sum, show v = -(-v) by ring, Int.neg_tdiv,
        tdiv_eq_ediv_of_nonneg (by omega), quotient]
    rw [count] at short
    exfalso
    unfold sizeT at short
    omega

theorem packedRowBytes_eq {format : Int} {N : Nat} (fits : N < 2 ^ 61) : packedRowBytes format N =
      ((if format = kWqFormatInt8 then QuantPacking.int8RowBytes N
        else QuantPacking.int4RowBytes N : Nat) : Int) := by
  unfold packedRowBytes
  split
  · exact int8RowBytes_natCast fits
  · exact int4RowBytes_natCast fits

theorem exactRowBytes_natCast (format : Int) (N : Nat) : exactRowBytes format N =
      ((if format = kWqFormatInt8 then QuantPacking.int8RowBytes N
        else QuantPacking.int4RowBytes N : Nat) : Int) := by
  unfold exactRowBytes QuantPacking.int8RowBytes QuantPacking.int4RowBytes
  split
  · omega
  · omega

/-! ## The parts of the pass -/

section Parts

variable {F α : Type} (arith : FloatArith F) (floatToHalfSat : F → UInt16) (allocates : Nat → Bool)

theorem vector_safe (width : Nat) (length : Int) (zero : α) :
    Safe (vector allocates width length zero) := by
  rcases vector_cases allocates width length zero with ⟨r, refused⟩ | ⟨-, made⟩
  · exact refused ▸ safe_rejected r
  · exact made ▸ safe_ok _

variable {allocates} in
theorem length_vector {width : Nat} {length : Int} {zero : α} {xs : List α}
    (made : vector allocates width length zero = ok xs) :
    xs.length = sizeT length ∧ sizeT length ≤ (2 ^ 63 - 1) / width := by
  rcases vector_cases allocates width length zero with ⟨r, refused⟩ | ⟨short, replicated⟩
  · rw [refused] at made
    cases made
  · rw [replicated] at made
    cases made
    exact ⟨length_replicate, short⟩

theorem constant_safe (g : Graph) (t : TensorId) : Safe (constant g t) := by
  unfold constant
  split
  · exact safe_ok _
  · exact safe_rejected _

@[simp] theorem length_words16 (n : Nat) (src : HostBuffer) : (words16 n src).length = n := by
  simp [words16, elements]

@[simp] theorem length_words32 (n : Nat) (src : HostBuffer) : (words32 n src).length = n := by
  simp [words32, elements]

variable {K N : Nat}

variable {w : List F} {keepPacked : Nat → Node → Bool} {i : Nat} {state : Graph × Int}

/-- A grid of the right size is narrowed without a fault. -/
theorem relaid_ok (size : w.length = K * N) (small : K * N < 2 ^ 61) (layout : Int)
    {h : List UInt16} (start : h.length = K * N) :
    ∃ h', relaid floatToHalfSat w layout K N h = ok h' ∧ h'.length = K * N := by
  unfold relaid
  split
  · have count : wrap64 ((K : Int) * N) = ((K * N : Nat) : Int) := by
      rw [← Nat.cast_mul, wrap64_natCast (by omega)]
    rw [count, toNat_natCast]
    refine loop_ok (fun idx inside h held => ?_) start
    cases w with
    | nil => exact absurd size (by rw [length_nil]; omega)
    | cons d _ =>
      rw [readAt_of_inside (natCast_nonneg idx) (by omega) d, ok_bind,
        storeAt_of_inside (natCast_nonneg idx) (by omega)]
      exact ⟨_, rfl, by rw [length_set, held]⟩
  · rw [toNat_natCast, toNat_natCast]
    refine loop_ok (fun n column h held => loop_ok (fun k row h held => ?_) held) start
    have inside := place_lt row column
    have across := place_lt column row
    have commuted := mul_comm N K
    have place : sizeT ((k : Int) * N + n) = k * N + n := by
      have cast : (k : Int) * N + n = ((k * N + n : Nat) : Int) := by push_cast; rfl
      rw [cast, sizeT_natCast (by omega)]
    have target : wrap64 ((n : Int) * K + k) = ((n * K + k : Nat) : Int) := by
      have cast : (n : Int) * K + k = ((n * K + k : Nat) : Int) := by push_cast; rfl
      rw [cast, wrap64_natCast (by omega)]
    have read : ((k * N + n : Nat) : Int) < w.length := by
      rw [size]
      exact_mod_cast inside
    have store : ((n * K + k : Nat) : Int) < h.length := by
      rw [held, ← commuted]
      exact_mod_cast across
    cases w with
    | nil => exact absurd size (by rw [length_nil]; omega)
    | cons d _ =>
      rw [place, readAt_of_inside (natCast_nonneg _) read d, ok_bind, target,
        storeAt_of_inside (natCast_nonneg _) store]
      exact ⟨_, rfl, by rw [length_set, held]⟩

theorem narrowed_safe (size : w.length = K * N) (small : K * N < 2 ^ 61)
    (layout : Int) : Safe (narrowed floatToHalfSat allocates w layout K N) := by
  refine Safe.bind (vector_safe allocates _ _ _) fun half made => ?_
  have bytes : half.length / 2 = K * N := by
    have doubled : (K : Int) * N * 2 = ((K * N * 2 : Nat) : Int) := by push_cast; rfl
    rw [(length_vector made).1, doubled, sizeT_natCast (by omega)]
    omega
  have start : (List.replicate (half.length / 2) (0 : UInt16)).length = K * N := by
    rw [length_replicate, bytes]
  obtain ⟨h, done, -⟩ := relaid_ok floatToHalfSat size small layout start
  rw [done, ok_bind]
  exact safe_ok _

/-- Row bytes of a format, as the plain packers count them. -/
def plainRowBytes (format : Int) (N : Nat) : Nat :=
  if format = kWqFormatInt8 then QuantPacking.int8RowBytes N else QuantPacking.int4RowBytes N

variable {g : Graph} {nd : Node}

/-- A decoder of any format is refused, or gives a grid. -/
theorem decoded_cases {packed : HostBuffer} {scales oval : List UInt16}
    {oidx : List Int} {group nOut : Nat} (entries : nOut ≤ oidx.length)
    (room : sizeT ((K : Int) * N) < 2 ^ 61 → K * N < 2 ^ 64 ∧ (0 < K → 0 < N →
      Readable K N group nOut (plainRowBytes (weightQuantFormat nd) N) packed scales oval)) :
    (∃ r, decoded arith allocates g nd packed scales oidx oval K N group nOut = rejected r) ∨
      K * N < 2 ^ 61 ∧
        ∃ w, decoded arith allocates g nd packed scales oidx oval K N group nOut = ok w ∧
          w.length = K * N := by
  unfold decoded
  unfold plainRowBytes at room
  split
  · rename_i four
    rw [four, if_neg (by decide)] at room
    rcases int4Dequant_spec arith allocates entries room with refused | ⟨small, made⟩
    · exact .inl refused
    · exact .inr ⟨small, _, made, length_dequant arith _ oidx oval K N nOut⟩
  · split
    · rename_i eight
      rw [if_pos eight] at room
      rcases int8Dequant_spec arith allocates entries room with refused | ⟨small, made⟩
      · exact .inl refused
      · exact .inr ⟨small, _, made, length_dequant arith _ oidx oval K N nOut⟩
    · rename_i _ eight
      rw [if_neg eight] at room
      rcases vector_cases allocates 2 16 (0 : UInt16) with ⟨r, refused⟩ | ⟨-, book⟩
      · exact .inl ⟨r, by rw [refused]; rfl⟩
      rw [book, ok_bind]
      cases found : constant g (wrap32 (nd.attr.geti kWqLut kNoTensor)) with
      | rejected r => exact .inl ⟨r, rfl⟩
      | fault => exact absurd found (constant_safe g _)
      | ok lutHb =>
        have sixteen : (words16 (List.replicate (sizeT 16) (0 : UInt16)).length lutHb).length =
            16 := by
          rw [length_words16, length_replicate]
          rfl
        rw [ok_bind]
        rcases lut4Dequant_spec arith allocates entries sixteen room with refused | ⟨small, made⟩
        · exact .inl refused
        · exact .inr ⟨small, _, made, length_dequant arith _ oidx oval K N nOut⟩

/-- Addressable dimensions whose buffers were made and whose payload passed its check leave the
decoders the room they need. -/
theorem room_of_addressable {format : Int} {group nOut : Nat} {packed : HostBuffer}
    {scales oval : List UInt16} (positive : 0 < group)
    (addressable : Addressable format K N group nOut)
    (scalesMade : scales.length = sizeT (int4GroupCount K group * N) ∧ scales.length < 2 ^ 62)
    (entries : sizeT nOut < 2 ^ 61)
    (ovalMade : oval.length = sizeT ((nOut : Int) * N) ∧ oval.length < 2 ^ 62)
    (passed : wrap64 (K * packedRowBytes format N) ≤ packed.length)
    (short : sizeT ((K : Int) * N) < 2 ^ 61) :
    K * N < 2 ^ 64 ∧ (0 < K → 0 < N →
      Readable K N group nOut (plainRowBytes format N) packed scales oval) := by
  rcases addressable with none_ | none_ | tooLong | ⟨grid, kept, payload, groups⟩
  · have no_rows : K = 0 := by exact_mod_cast none_
    subst no_rows
    exact ⟨by rw [zero_mul]; omega, fun rows _ => absurd rows (lt_irrefl 0)⟩
  · have no_columns : N = 0 := by exact_mod_cast none_
    subst no_columns
    exact ⟨by rw [mul_zero]; omega, fun _ columns => absurd columns (lt_irrefl 0)⟩
  · exfalso
    unfold TooLong at tooLong
    omega
  have gridFits : K * N < 2 ^ 64 := by exact_mod_cast grid
  have keptFits : nOut * N < 2 ^ 64 := by exact_mod_cast kept
  rw [← Nat.cast_mul, sizeT_natCast gridFits] at short
  refine ⟨gridFits, fun rows columns => ?_⟩
  have narrow_columns : N ≤ K * N := Nat.le_mul_of_pos_left N rows
  have small : N < 2 ^ 61 := by omega
  rw [exactRowBytes_natCast] at payload
  have payloadFits : K * plainRowBytes format N < 2 ^ 63 := by exact_mod_cast payload
  have held : ((K * plainRowBytes format N : Nat) : Int) ≤ packed.length := by
    rw [packedRowBytes_eq small] at passed
    calc ((K * plainRowBytes format N : Nat) : Int)
        = wrap64 ((K * plainRowBytes format N : Nat) : Int) := (wrap64_natCast payloadFits).symm
      _ ≤ packed.length := by
          rw [Nat.cast_mul]
          exact passed
  have ovalLength : oval.length = nOut * N := by
    rw [ovalMade.1, ← Nat.cast_mul, sizeT_natCast keptFits]
  refine ⟨small, fun k row n column => ?_, by omega, by exact_mod_cast held, payloadFits,
    ovalLength.ge, keptFits⟩
  rw [scalesMade.1]
  rw [scalesMade.1] at scalesMade
  exact scale_inside positive short groups scalesMade.2 row column

theorem keptConstant_safe (g : Graph) (nd : Node) (key : Str) : Safe (keptConstant g nd key) := by
  unfold keptConstant
  split
  · exact constant_safe g _
  · exact safe_ok _

/-- **An admissible weight is reconstructed without a fault.** -/
theorem reconstruct_safe {weight : TensorId} (machine : Machine nd)
    (dims : validDims nd)
    (addressable : Addressable (weightQuantFormat nd) (nd.attr.geti kWqK 0) (nd.attr.geti kWqN 0)
      (nd.attr.geti kWqGroup 1) (nd.attr.geti kWqNOut 0)) :
    Safe (reconstruct arith floatToHalfSat allocates g nd weight) := by
  obtain ⟨positive, rows, columns, entries⟩ := dims
  have bounded := machine.geti_lt kWqNOut (d := 0) (by omega)
  unfold reconstruct
  obtain ⟨K, atK⟩ := eq_ofNat_of_zero_le rows
  obtain ⟨N, atN⟩ := eq_ofNat_of_zero_le columns
  obtain ⟨nOut, atNOut⟩ := eq_ofNat_of_zero_le entries
  obtain ⟨group, atGroup⟩ := eq_ofNat_of_zero_le (show 0 ≤ nd.attr.geti kWqGroup 1 by omega)
  simp only [atK, atN, atNOut, atGroup] at addressable bounded positive ⊢
  refine Safe.bind (constant_safe g weight) fun packed _ => ?_
  refine Safe.bind (constant_safe g _) fun scaleHb _ => ?_
  refine Safe.bind (vector_safe allocates _ _ _) fun scales scalesMade => ?_
  refine Safe.bind (vector_safe allocates _ _ _) fun oidx oidxMade => ?_
  refine Safe.bind (vector_safe allocates _ _ _) fun oval ovalMade => ?_
  refine Safe.bind (keptConstant_safe g nd _) fun oidxHb _ => ?_
  refine Safe.bind (keptConstant_safe g nd _) fun ovalHb _ => ?_
  split
  · exact safe_rejected _
  rename_i passed
  have scalesLength := length_vector scalesMade
  have oidxLength := length_vector oidxMade
  have ovalLength := length_vector ovalMade
  have listed : nOut ≤ (words32 oidx.length oidxHb).length := by
    rw [length_words32, oidxLength.1, sizeT_natCast (by omega)]
  have room := @room_of_addressable K N _ group nOut packed (words16 scales.length scaleHb)
    (words16 oval.length ovalHb) (by omega) addressable
    ⟨by rw [length_words16, scalesLength.1], by rw [length_words16]; omega⟩ (by omega)
    ⟨by rw [length_words16, ovalLength.1], by rw [length_words16]; omega⟩ (by omega)
  rcases decoded_cases arith allocates (g := g) listed room with ⟨r, refused⟩ | ⟨small, w, made, size⟩
  · rw [refused]
    exact safe_rejected r
  · rw [made, ok_bind]
    exact narrowed_safe floatToHalfSat allocates size small _

/-- An admissible node is materialized without a fault. -/
theorem materializeNode_safe
    (machine : Machine (state.1.nodes.getD i {})) (admissible : Admissible (state.1.nodes.getD i {})) :
    Safe (materializeNode arith floatToHalfSat allocates keepPacked i state) := by
  unfold materializeNode
  dsimp only
  split
  · exact safe_ok _
  rename_i packed
  split
  · exact safe_rejected _
  rename_i known
  split
  · exact safe_rejected _
  rename_i dims
  split
  · exact safe_ok _
  obtain ⟨operands, addressable⟩ :=
    admissible (not_not.mp packed) (not_not.mp known) (not_not.mp dims)
  rw [readAt_of_inside (by omega) (by omega) kNoTensor, ok_bind]
  refine Safe.bind ?_ fun half _ => safe_ok _
  exact reconstruct_safe arith floatToHalfSat allocates machine (not_not.mp dims) addressable

/-! ## The whole pass -/

theorem getElem?_foldl_erase (keys : List Str) (map : ExtTreeMap Str Attr) (key : Str) :
    (keys.foldl (fun map key => map.erase key) map)[key]? =
      if key ∈ keys then none else map[key]? := by
  induction keys generalizing map with
  | nil => rfl
  | cons first keys ih =>
    rw [foldl_cons, ih, ExtTreeMap.getElem?_erase]
    by_cases later : key ∈ keys
    · rw [if_pos later, if_pos (mem_cons_of_mem first later)]
    rw [if_neg later]
    by_cases here : key = first
    · subst here
      simp
    · have other : ¬ compare first key = .eq := fun same =>
        here (LawfulEqOrd.eq_of_compare same).symm
      rw [if_neg other, if_neg (by simp [here, later])]

theorem has_stripped (nd : Node) : (stripped nd).attr.has kWq = false := by
  have gone : (stripped nd).attr.map[kWq]? = none := by
    rw [stripped, getElem?_foldl_erase, if_pos (by simp [quantKeys])]
  unfold Attributes.has
  rw [ExtTreeMap.contains_eq_isSome_getElem?, gone]
  rfl

theorem Machine.stripped (machine : Machine nd) : Machine (stripped nd) := by
  intro key a found
  rw [QuantWeights.stripped, getElem?_foldl_erase] at found
  split at found
  · cases found
  · exact machine key a found

theorem admissible_stripped (nd : Node) : Admissible (stripped nd) := by
  intro packed
  rw [has_stripped] at packed
  cases packed

theorem getD_of_all {P : Node → Prop} {nodes : List Node} (all : ∀ nd ∈ nodes, P nd)
    (default_ : P {}) (i : Nat) : P (nodes.getD i {}) := by
  rw [getD_eq_getElem?_getD]
  cases found : nodes[i]? with
  | none => exact default_
  | some nd => exact all nd (mem_of_getElem? found)

theorem machine_default : Machine {} := by
  intro key a found
  rw [show ({} : Node).attr.map[key]? = none from ExtTreeMap.getElem?_empty] at found
  cases found

theorem admissible_default : Admissible {} := by
  intro packed
  have bare : ({} : Node).attr.has kWq = false := ExtTreeMap.contains_empty
  rw [bare] at packed
  cases packed

/-- One turn leaves every node one that may be materialized. -/
theorem materializeNode_keeps {state' : Graph × Int}
    (held : ∀ nd ∈ state.1.nodes, Machine nd ∧ Admissible nd)
    (done : materializeNode arith floatToHalfSat allocates keepPacked i state = ok state') :
    ∀ nd ∈ state'.1.nodes, Machine nd ∧ Admissible nd := by
  have machine := getD_of_all (fun nd listed => (held nd listed).1) machine_default i
  unfold materializeNode at done
  dsimp only at done
  split at done
  · cases done
    exact held
  split at done
  · cases done
  split at done
  · cases done
  split at done
  · cases done
    exact held
  generalize state.1.nodes.getD i {} = nd at machine done
  cases operand : (readAt nd.inputs 1 : Outcome Refusal TensorId) with
  | rejected r =>
    rw [operand] at done
    cases done
  | fault =>
    rw [operand] at done
    cases done
  | ok weight =>
    rw [operand, ok_bind] at done
    cases half : reconstruct arith floatToHalfSat allocates state.1 nd weight with
    | rejected r =>
      rw [half] at done
      cases done
    | fault =>
      rw [half] at done
      cases done
    | ok bytes =>
      rw [half, ok_bind] at done
      cases done
      intro other listed
      rcases mem_or_eq_of_mem_set listed with old | rfl
      · exact held other old
      · exact ⟨machine.stripped, admissible_stripped nd⟩

/-- **A graph of admissible nodes is materialized without a fault.** -/
theorem materializeQuantWeights_safe (keepPacked : Nat → Node → Bool)
    (held : ∀ nd ∈ g.nodes, Machine nd ∧ Admissible nd) :
    Safe (materializeQuantWeights arith floatToHalfSat allocates g keepPacked) := by
  have steps : ∀ i < g.nodes.length, ∀ state : Graph × Int,
      (∀ nd ∈ state.1.nodes, Machine nd ∧ Admissible nd) →
      Safe (materializeNode arith floatToHalfSat allocates keepPacked i state) ∧
      ∀ state', materializeNode arith floatToHalfSat allocates keepPacked i state = ok state' →
        ∀ nd ∈ state'.1.nodes, Machine nd ∧ Admissible nd := by
    intro i _ state held
    refine ⟨materializeNode_safe arith floatToHalfSat allocates
      (getD_of_all (fun nd listed => (held nd listed).1) machine_default i)
      (getD_of_all (fun nd listed => (held nd listed).2) admissible_default i), ?_⟩
    exact fun state' done => materializeNode_keeps arith floatToHalfSat allocates held done
  exact (loop_safe steps held).1

end Parts

end Vknn.QuantWeights
