import Vknn.Core.QuantWeightsSafe

/-!
# What a crafted file can do

A node whose dimensions are not addressable can be given constants with which its
materialization leaves a buffer.  All of its constants are one run of zero bytes,
just long enough for the check of the payload, which compares it with a wrapped
product.  Zeros as row indices name the first row, so that the kept rows are
walked over as well.
-/

namespace Vknn.QuantWeights

open Guarded Guarded.Outcome Import.Quantize List Int Nat Std
open QuantPacking (FloatArith)

/-! ## Decoders without room -/

section Decoders

variable {F : Type} (arith : FloatArith F) {K N nOut : Nat}

/-- The machine that has all the memory asked for. -/
def plenty : Nat → Bool := fun _ => true

theorem vector_plenty {α : Type} {width : Nat} {length : Int} {zero : α}
    (short : sizeT length ≤ (2 ^ 63 - 1) / width) :
    vector plenty width length zero = ok (List.replicate (sizeT length) zero) := by
  unfold vector
  dsimp only
  rw [if_neg (by omega)]
  rfl

/-- A step that faults, or keeps the length of the grid. -/
def Keeps (length : Nat) (x : Outcome Refusal (List F)) : Prop :=
  x = fault ∨ ∃ w, x = ok w ∧ w.length = length

def OfLength (length : Nat) (w : List F) : Prop := w.length = length

theorem keeps_access_store {α : Type} {x : Outcome Refusal α} (decided : Decided x) (f : α → F)
    {length : Nat} {w : List F} (size : w.length = length) (i : Int) :
    Keeps length (do let v ← x; storeAt w i (f v)) := by
  cases x with
  | rejected r => exact absurd rfl (decided r)
  | fault => exact .inl rfl
  | ok v =>
    rcases storeAt_cases w i (f v) with faulted | ⟨w', done, same⟩
    · exact .inl faulted
    · exact .inr ⟨w', done, same.trans size⟩

variable {value : Int → Int → Outcome Refusal F} {oidx : List Int} {oval : List UInt16}

/-- A value or a place of the grid that is out of reach makes the decoder fault. -/
theorem dequant_fault_grid
    (short : sizeT ((K : Int) * N) < 2 ^ 61)
    (decided : ∀ k n, Decided (value k n)) {k n : Nat} (row : k < K) (column : n < N)
    (bad : ∀ w : List F, w.length = sizeT ((K : Int) * N) →
      (do let v ← value k n; storeAt w (sizeT (k * N + n)) v) = fault) :
    dequant arith plenty value oidx oval K N nOut = fault := by
  have start : (List.replicate (sizeT ((K : Int) * N)) arith.zero).length =
      sizeT ((K : Int) * N) := length_replicate
  have grid : loop K (fun k w => loop N (fun n w => do
        let v ← value k n
        storeAt w (sizeT (k * N + n)) v) w) (List.replicate (sizeT ((K : Int) * N)) arith.zero) =
      fault := by
    refine loop_fault (OfLength _) row (fun k _ w held => ?_) (fun w held => ?_) start
    · exact loop_cases (OfLength _)
        (fun n _ w held => keeps_access_store (decided k n) id held _) held
    · exact loop_fault (OfLength _) column
        (fun n _ w held => keeps_access_store (decided _ n) id held _) bad held
  rw [dequant, vector_plenty (by omega), ok_bind, toNat_natCast, toNat_natCast, grid]
  rfl

/-- Kept rows that all name the first row, and of which there are more values than the vector for
them has, make the decoder fault. -/
theorem dequant_fault_kept
    (short : sizeT ((K : Int) * N) < 2 ^ 61)
    (decided : ∀ k n, Decided (value k n)) (rows : 0 < K)
    (named : ∀ j < nOut, (readAt oidx (j : Nat) : Outcome Refusal Int) = ok 0)
    (wraps : oval.length < nOut * N) (fits : oval.length < 2 ^ 62) :
    dequant arith plenty value oidx oval K N nOut = fault := by
  have start : (List.replicate (sizeT ((K : Int) * N)) arith.zero).length =
      sizeT ((K : Int) * N) := length_replicate
  have columns : 0 < N := Nat.pos_of_mul_pos_left (Nat.zero_lt_of_lt wraps)
  have grid : Keeps (sizeT ((K : Int) * N)) (loop K (fun k w => loop N (fun n w => do
        let v ← value k n
        storeAt w (sizeT (k * N + n)) v) w)
      (List.replicate (sizeT ((K : Int) * N)) arith.zero)) :=
    loop_cases (OfLength _) (fun k _ w held => loop_cases (OfLength _)
      (fun n _ w held => keeps_access_store (decided k n) id held _) held) start
  rw [dequant, vector_plenty (by omega), ok_bind, toNat_natCast, toNat_natCast, toNat_natCast]
  rcases grid with faulted | ⟨w, filled, size⟩
  · rw [faulted]
    rfl
  rw [filled, ok_bind]
  -- the value just behind the vector is one of the products' places
  have entry : oval.length / N < nOut := (div_lt_iff_lt_mul columns).mpr wraps
  have column : oval.length % N < N := mod_lt _ columns
  have place : sizeT (((oval.length / N : Nat) : Int) * N + (oval.length % N : Nat)) =
      oval.length := by
    have whole : ((oval.length / N : Nat) : Int) * N + (oval.length % N : Nat) = oval.length := by
      exact_mod_cast div_add_mod' oval.length N
    rw [whole, sizeT_natCast (by omega)]
  have first : ¬ ((0 : Int) < 0 ∨ (K : Int) ≤ 0) := by omega
  refine loop_fault (OfLength _) entry (fun j entry w held => ?_) (fun w held => ?_) size
  · rw [named j entry, ok_bind, if_neg first]
    exact loop_cases (OfLength _)
      (fun n _ w held => keeps_access_store (decided_readAt oval _) _ held _) held
  · rw [named _ entry, ok_bind, if_neg first]
    refine loop_fault (OfLength _) column
      (fun n _ w held => keeps_access_store (decided_readAt oval _) _ held _) (fun w _ => ?_) held
    rw [place, readAt_of_beyond (by omega), fault_bind]

/-- What makes a decoder fault whose grid is not too long: more places than a `size_t` counts, no
value for the first place, or too few values for the kept rows. -/
theorem dequant_fault
    (short : sizeT ((K : Int) * N) < 2 ^ 61)
    (decided : ∀ k n, Decided (value k n)) (rows : 0 < K) (columns : 0 < N)
    (named : ∀ j < nOut, (readAt oidx (j : Nat) : Outcome Refusal Int) = ok 0)
    (fits : oval.length < 2 ^ 62)
    (cause : 2 ^ 64 ≤ K * N ∨ value 0 0 = fault ∨ oval.length < nOut * N) :
    dequant arith plenty value oidx oval K N nOut = fault := by
  rcases cause with many | nothing | few
  · -- the place just behind the grid
    have row : sizeT ((K : Int) * N) / N < K := (div_lt_iff_lt_mul columns).mpr (by omega)
    have column : sizeT ((K : Int) * N) % N < N := mod_lt _ columns
    have place : sizeT (((sizeT ((K : Int) * N) / N : Nat) : Int) * N +
        (sizeT ((K : Int) * N) % N : Nat)) = sizeT ((K : Int) * N) := by
      have whole : ((sizeT ((K : Int) * N) / N : Nat) : Int) * N +
          (sizeT ((K : Int) * N) % N : Nat) = sizeT ((K : Int) * N) := by
        exact_mod_cast div_add_mod' (sizeT ((K : Int) * N)) N
      rw [whole, sizeT_natCast (by omega)]
    refine dequant_fault_grid arith short decided row column fun w size => ?_
    refine bind_fault (decided _ _) fun v => ?_
    rw [place, storeAt_of_beyond (by omega)]
  · refine dequant_fault_grid arith short decided rows columns fun w _ => ?_
    rw [Nat.cast_zero, nothing, fault_bind]
  · exact dequant_fault_kept arith short decided rows named few fits

variable {packed : HostBuffer} {scales : List UInt16} {N group k n rowBytes : Int}

theorem decided_scaleAt : Decided (scaleAt arith scales N group k n) :=
  (decided_readAt scales _).bind fun _ => decided_ok _

theorem decided_int4At : Decided (int4At packed rowBytes k n) :=
  (decided_readAt packed _).bind fun _ => decided_ok _

theorem decided_int8At : Decided (int8At packed rowBytes k n) :=
  (decided_readAt packed _).bind fun _ => decided_ok _

theorem scaleAt_nil : scaleAt arith [] N group k n = fault := by
  rw [scaleAt, readAt_of_beyond (by rw [length_nil]; omega), fault_bind]

theorem readAt_nil (i : Int) : (readAt ([] : HostBuffer) i : Outcome Refusal UInt8) = fault := by
  unfold readAt
  split
  · rfl
  · rfl

theorem int4At_nil : int4At [] rowBytes k n = fault := by rw [int4At, readAt_nil, fault_bind]

theorem int8At_nil : int8At [] rowBytes k n = fault := by rw [int8At, readAt_nil, fault_bind]

theorem decoded_fault {K N nOut : Nat} {group : Int} {g : Graph} {nd : Node}
    {lutHb : HostBuffer}
    (table : constant g (wrap32 (nd.attr.geti kWqLut kNoTensor)) = ok lutHb)
    (short : sizeT ((K : Int) * N) < 2 ^ 61) (rows : 0 < K) (columns : 0 < N)
    (named : ∀ j < nOut, (readAt oidx (j : Nat) : Outcome Refusal Int) = ok 0)
    (fits : oval.length < 2 ^ 62)
    (cause : 2 ^ 64 ≤ K * N ∨ (scales = [] ∨ packed = []) ∨ oval.length < nOut * N) :
    decoded arith plenty g nd packed scales oidx oval K N group nOut = fault := by
  have lift : ∀ value : Int → Int → Outcome Refusal F, (∀ k n, Decided (value k n)) →
      (scales = [] ∨ packed = [] → value 0 0 = fault) →
      dequant arith plenty value oidx oval K N nOut = fault := by
    intro value decided nothing
    refine dequant_fault arith short decided rows columns named fits ?_
    rcases cause with many | missing | few
    · exact .inl many
    · exact .inr (.inl (nothing missing))
    · exact .inr (.inr few)
  unfold decoded
  split
  · refine lift _ (fun k n => (decided_scaleAt arith).bind fun s =>
      decided_int4At.bind fun q => decided_ok _) ?_
    rintro (rfl | rfl)
    · rw [scaleAt_nil, fault_bind]
    · exact bind_fault (decided_scaleAt arith) fun s => by rw [int4At_nil, fault_bind]
  split
  · refine lift _ (fun k n => (decided_scaleAt arith).bind fun s =>
      decided_int8At.bind fun q => decided_ok _) ?_
    rintro (rfl | rfl)
    · rw [scaleAt_nil, fault_bind]
    · exact bind_fault (decided_scaleAt arith) fun s => by rw [int8At_nil, fault_bind]
  · have sixteen : sizeT 16 ≤ (2 ^ 63 - 1) / 2 := by
      unfold sizeT
      omega
    rw [vector_plenty sixteen, ok_bind, table, ok_bind]
    refine lift _ (fun k n => decided_int4At.bind fun q => (decided_scaleAt arith).bind fun s =>
      (decided_readAt _ _).bind fun e => decided_ok _) ?_
    rintro (rfl | rfl)
    · exact bind_fault decided_int4At fun q => by rw [scaleAt_nil, fault_bind]
    · rw [int4At_nil, fault_bind]

end Decoders

/-! ## The crafted constants -/

/-- Zeros, as many as the check of the payload asks for. -/
def zeros (nd : Node) : HostBuffer :=
  List.replicate (wrap64 (nd.attr.geti kWqK 0 *
    packedRowBytes (weightQuantFormat nd) (nd.attr.geti kWqN 0))).toNat 0

def named (nd : Node) : List TensorId :=
  nd.inputs.getD 1 kNoTensor :: [kWqScales, kWqOidx, kWqOval, kWqLut].map fun key =>
    wrap32 (nd.attr.geti key kNoTensor)

/-- The graph of one node, whose constants are all zeros. -/
def crafted (nd : Node) : Graph :=
  { nodes := [nd]
    initializers := (named nd).foldl (fun constants t => constants.insert t (zeros nd)) ∅ }

theorem getElem?_foldl_insert (ids : List TensorId) (bytes : HostBuffer)
    (map : ExtTreeMap TensorId HostBuffer) (t : TensorId) :
    (ids.foldl (fun map t => map.insert t bytes) map)[t]? =
      if t ∈ ids then some bytes else map[t]? := by
  induction ids generalizing map with
  | nil => rfl
  | cons first ids ih =>
    rw [foldl_cons, ih, ExtTreeMap.getElem?_insert]
    by_cases later : t ∈ ids
    · rw [if_pos later, if_pos (mem_cons_of_mem first later)]
    rw [if_neg later]
    by_cases here : t = first
    · subst here
      simp
    · have other : ¬ compare first t = .eq := fun same =>
        here (LawfulEqOrd.eq_of_compare same).symm
      rw [if_neg other, if_neg (by simp [here, later])]

theorem constant_crafted {nd : Node} {t : TensorId} (listed : t ∈ named nd) :
    constant (crafted nd) t = ok (zeros nd) := by
  have found : (crafted nd).initializers[t]? = some (zeros nd) := by
    rw [crafted, getElem?_foldl_insert, if_pos listed]
  rw [constant, found]

theorem constant_crafted_key (nd : Node) {key : Str}
    (listed : key ∈ [kWqScales, kWqOidx, kWqOval, kWqLut]) :
    constant (crafted nd) (wrap32 (nd.attr.geti key kNoTensor)) = ok (zeros nd) :=
  constant_crafted (mem_cons_of_mem _ (mem_map.mpr ⟨key, listed, rfl⟩))

theorem leInt_zeros (width n : Nat) : Wire.leInt width (List.replicate n 0) = 0 := by
  have none_ : ∀ n, Wire.leNat (List.replicate n 0) = 0 := by
    intro n
    induction n with
    | zero => rfl
    | succ n ih => rw [replicate_succ, Wire.leNat, ih]; rfl
  rw [Wire.leInt, none_]
  exact zero_bmod

theorem readAt_words32_zeros {n L j : Nat} (entry : j < n) :
    (readAt (words32 n (List.replicate L 0)) (j : Nat) : Outcome Refusal Int) = ok 0 := by
  have blank : copyQuantSide (n * 4) (List.replicate L 0) =
      List.replicate (min (n * 4) L + (n * 4 - L)) 0 := by
    rw [copyQuantSide, take_replicate, length_replicate, replicate_append_replicate]
  have value : (words32 n (List.replicate L 0)).getD j 0 = 0 := by
    rw [words32, blank, elements, getD_eq_getElem?_getD, getElem?_map,
      getElem?_range entry, Option.map_some, Option.getD_some, drop_replicate,
      take_replicate, leInt_zeros]
  rw [readAt_of_inside (natCast_nonneg j) (by rw [length_words32]; omega) 0, toNat_natCast, value]

theorem keptConstant_crafted (nd : Node) {key : Str}
    (listed : key ∈ [kWqScales, kWqOidx, kWqOval, kWqLut]) :
    ∃ L, keptConstant (crafted nd) nd key = ok (List.replicate L 0) := by
  unfold keptConstant
  split
  · exact ⟨_, constant_crafted_key nd listed⟩
  · exact ⟨0, rfl⟩

/-! ## What wraps -/

/-- Dimensions that are not addressable leave a decoder without room. -/
theorem cause_of_not_addressable {format : Int} {K N nOut : Nat} {group : Int}
    (positive : 0 < group) (machine : group < 2 ^ 63)
    (bad : ¬ Addressable format K N group nOut) :
    0 < K ∧ 0 < N ∧ sizeT (int4GroupCount K group * N) < 2 ^ 62 ∧ sizeT nOut < 2 ^ 61 ∧
      sizeT ((nOut : Int) * N) < 2 ^ 62 ∧ sizeT ((K : Int) * N) < 2 ^ 61 ∧
      (2 ^ 64 ≤ K * N ∨
        (sizeT (int4GroupCount K group * N) = 0 ∨ wrap64 (K * packedRowBytes format N) ≤ 0) ∨
        sizeT ((nOut : Int) * N) < nOut * N) := by
  unfold Addressable TooLong at bad
  push Not at bad
  obtain ⟨rows, columns, ⟨scales, entries, values, grid⟩, inexact⟩ := bad
  have rows : 0 < K := by omega
  have columns : 0 < N := by omega
  refine ⟨rows, columns, scales, entries, values, grid, ?_⟩
  by_cases many : 2 ^ 64 ≤ K * N
  · exact .inl many
  have gridFits : K * N < 2 ^ 61 := by rwa [← Nat.cast_mul, sizeT_natCast (by omega)] at grid
  by_cases kept : nOut * N < 2 ^ 64
  swap
  · exact .inr (.inr (by omega))
  have rows_le : K ≤ K * N := Nat.le_mul_of_pos_right K columns
  have columns_le : N ≤ K * N := Nat.le_mul_of_pos_left N rows
  refine .inr (.inl ?_)
  by_cases payload : K * plainRowBytes format N < 2 ^ 63
  · -- the sum the groups are counted by wraps to a count of none
    left
    have sum_wraps : 2 ^ 64 + 1 < (K : Int) + 2 * group := by
      by_contra small
      refine inexact ⟨by exact_mod_cast Nat.lt_of_not_le many, by exact_mod_cast kept, ?_, by omega⟩
      rw [exactRowBytes_natCast]
      exact_mod_cast payload
    have sum : wrap64 ((K : Int) + group - 1) = K + group - 1 - 2 ^ 64 := by
      rw [wrap64, bmod_eq_emod]
      split
      · omega
      · omega
    have count : int4GroupCount K group = 0 := by
      rw [int4GroupCount, sum, show (K : Int) + group - 1 - 2 ^ 64 = -(2 ^ 64 + 1 - K - group) by ring,
        Int.neg_tdiv, tdiv_eq_zero_of_lt (by omega) (by omega), neg_zero]
    rw [count, zero_mul]
    rfl
  · -- the product the payload is compared with wraps to a negative number
    right
    have bytes : plainRowBytes format N ≤ 8 * N := by
      unfold plainRowBytes QuantPacking.int8RowBytes QuantPacking.int4RowBytes
      split
      · omega
      · omega
    have bounded : K * plainRowBytes format N ≤ 8 * (K * N) := by
      calc K * plainRowBytes format N ≤ K * (8 * N) := mul_le_mul_left K bytes
        _ = 8 * (K * N) := by ring
    rw [packedRowBytes_eq (by omega)]
    have product : (K : Int) * (plainRowBytes format N : Nat) =
        ((K * plainRowBytes format N : Nat) : Int) := by push_cast; rfl
    have wrapped : wrap64 (((K * plainRowBytes format N : Nat) : Int)) ≤ 0 := by
      rw [wrap64, bmod_eq_emod]
      split
      · omega
      · omega
    rw [← product] at wrapped
    exact wrapped

/-! ## The exact condition -/

section Exactness

variable {F : Type} (arith : FloatArith F) (floatToHalfSat : F → UInt16)

theorem words16_of_empty {n : Nat} (empty : n = 0) (src : HostBuffer) : words16 n src = [] := by
  subst empty
  rfl

/-- **Dimensions that are not addressable lead out of a buffer.** -/
theorem reconstruct_crafted {nd : Node} (machine : Machine nd) (dims : validDims nd)
    (bad : ¬ Addressable (weightQuantFormat nd) (nd.attr.geti kWqK 0) (nd.attr.geti kWqN 0)
      (nd.attr.geti kWqGroup 1) (nd.attr.geti kWqNOut 0)) :
    reconstruct arith floatToHalfSat plenty (crafted nd) nd (nd.inputs.getD 1 kNoTensor) =
      fault := by
  obtain ⟨positive, rows, columns, entries⟩ := dims
  have payload : constant (crafted nd) (nd.inputs.getD 1 kNoTensor) = ok (zeros nd) :=
    constant_crafted mem_cons_self
  have scaleHb := constant_crafted_key nd (show kWqScales ∈ _ by simp)
  have table := constant_crafted_key nd (show kWqLut ∈ _ by simp)
  obtain ⟨oidxLength, oidxHb⟩ := keptConstant_crafted nd (show kWqOidx ∈ _ by simp)
  obtain ⟨ovalLength, ovalHb⟩ := keptConstant_crafted nd (show kWqOval ∈ _ by simp)
  have enough : wrap64 (nd.attr.geti kWqK 0 *
      packedRowBytes (weightQuantFormat nd) (nd.attr.geti kWqN 0)) ≤ (zeros nd).length := by
    rw [zeros, length_replicate]
    omega
  have none_ : wrap64 (nd.attr.geti kWqK 0 *
      packedRowBytes (weightQuantFormat nd) (nd.attr.geti kWqN 0)) ≤ 0 → zeros nd = [] := by
    intro negative
    rw [zeros, toNat_of_nonpos negative]
    rfl
  have small := machine.geti_lt kWqGroup (d := 1) (by omega)
  have few_entries := machine.geti_lt kWqNOut (d := 0) (by omega)
  unfold reconstruct
  obtain ⟨K, atK⟩ := eq_ofNat_of_zero_le rows
  obtain ⟨N, atN⟩ := eq_ofNat_of_zero_le columns
  obtain ⟨nOut, atNOut⟩ := eq_ofNat_of_zero_le entries
  simp only [atK, atN, atNOut] at bad enough none_ few_entries ⊢
  obtain ⟨rows, columns, scalesFit, entriesFit, valuesFit, gridFits, cause⟩ :=
    cause_of_not_addressable (by omega) small bad
  rw [payload, ok_bind, scaleHb, ok_bind, vector_plenty (by omega), ok_bind,
    vector_plenty (by omega), ok_bind, vector_plenty (by omega), ok_bind, oidxHb, ok_bind, ovalHb,
    ok_bind, if_neg (by omega)]
  simp only [length_replicate]
  have entriesExact : sizeT nOut = nOut := sizeT_natCast (by omega)
  rw [decoded_fault arith table gridFits rows columns
    (fun j entry => readAt_words32_zeros (by omega)) (by rw [length_words16]; omega), fault_bind]
  rcases cause with many | (scales | negative) | few
  · exact .inl many
  · exact .inr (.inl (.inl (words16_of_empty scales _)))
  · exact .inr (.inl (.inr (none_ negative)))
  · exact .inr (.inr (by rw [length_words16]; exact few))

/-- A node that may not be materialized can be given constants it faults on. -/
theorem crafted_fault {nd : Node} (machine : Machine nd) (bad : ¬ Admissible nd) :
    materializeQuantWeights arith floatToHalfSat plenty (crafted nd) (fun _ _ => false) = fault := by
  unfold Admissible at bad
  push Not at bad
  obtain ⟨packed, known, dims, bad⟩ := bad
  have only : materializeQuantWeights arith floatToHalfSat plenty (crafted nd) (fun _ _ => false) =
      materializeNode arith floatToHalfSat plenty (fun _ _ => false) 0 (crafted nd, 0) := rfl
  have here : (crafted nd).nodes.getD 0 {} = nd := rfl
  rw [only, materializeNode]
  dsimp only
  rw [here, if_neg (not_not.mpr packed), if_neg (not_not.mpr known), if_neg (not_not.mpr dims),
    if_neg Bool.false_ne_true]
  by_cases operands : 2 ≤ nd.inputs.length
  · rw [readAt_of_inside (by omega) (by omega) kNoTensor, ok_bind, toNat_one,
      reconstruct_crafted arith floatToHalfSat machine dims (bad operands), fault_bind]
  · rw [readAt_of_beyond (by omega), fault_bind]

/-- **Materialization is safe for admissible nodes, and for no others.**  Whatever kind of nodes a
file may hold, every graph of them is materialized without an access outside a buffer, with any
constants and any memory, exactly when every node of the kind has its two operands and addressable
dimensions. -/
theorem materialization_safe_iff (kind : Node → Prop) (machine : ∀ nd, kind nd → Machine nd) :
    (∀ g : Graph, (∀ nd ∈ g.nodes, kind nd) → ∀ keepPacked allocates,
      Safe (materializeQuantWeights arith floatToHalfSat allocates g keepPacked)) ↔
      ∀ nd, kind nd → Admissible nd := by
  constructor
  · intro safe nd of_kind
    by_contra bad
    have only : ∀ other ∈ (crafted nd).nodes, kind other := by
      intro other listed
      rwa [mem_singleton.mp listed]
    exact safe (crafted nd) only (fun _ _ => false) plenty
      (crafted_fault arith floatToHalfSat (machine nd of_kind) bad)
  · intro admissible g kinds keepPacked allocates
    exact materializeQuantWeights_safe arith floatToHalfSat allocates keepPacked fun nd listed =>
      ⟨machine nd (kinds nd listed), admissible nd (kinds nd listed)⟩

end Exactness

/-! ## Two nodes -/

/-- A node with a packed int4 weight of given dimensions. -/
def packedNode (k n group : Int) : Node :=
  { type := .matMul
    inputs := [0, 1]
    attr := ⟨((((∅ : ExtTreeMap Str Attr).insert kWq { i := 1 }).insert kWqK { i := k }).insert
      kWqN { i := n }).insert kWqGroup { i := group }⟩ }

theorem machine_packedNode {k n group : Int} (rows : -2 ^ 63 ≤ k ∧ k < 2 ^ 63)
    (columns : -2 ^ 63 ≤ n ∧ n < 2 ^ 63) (groups : -2 ^ 63 ≤ group ∧ group < 2 ^ 63) :
    Machine (packedNode k n group) := by
  intro key a found
  simp only [packedNode, ExtTreeMap.getElem?_insert, ExtTreeMap.getElem?_empty] at found
  split at found
  · cases found
    exact groups
  split at found
  · cases found
    exact columns
  split at found
  · cases found
    exact rows
  split at found
  · cases found
    decide
  · cases found

def noArith : FloatArith Unit := ⟨(), fun _ => (), fun _ _ => (), fun _ => ()⟩

/-- Sixty-two bits of rows, four columns, in two groups: the bytes of the payload come to zero, so a
payload of no bytes passes the check, and the loops leave it at once. -/
theorem wrappedProduct_fault : zeros (packedNode (2 ^ 62) 4 (2 ^ 62 - 1)) = [] ∧
      ¬ Safe (materializeQuantWeights noArith (fun _ => 0) plenty
        (crafted (packedNode (2 ^ 62) 4 (2 ^ 62 - 1))) (fun _ _ => false)) := by
  have machine : Machine (packedNode (2 ^ 62) 4 (2 ^ 62 - 1)) :=
    machine_packedNode (by decide) (by decide) (by decide)
  have bad : ¬ Admissible (packedNode (2 ^ 62) 4 (2 ^ 62 - 1)) := by
    intro admissible
    obtain ⟨-, none_ | none_ | tooLong | ⟨grid, -⟩⟩ := admissible rfl (.inl rfl) (by decide)
    · exact absurd none_ (by decide)
    · exact absurd none_ (by decide)
    · unfold TooLong at tooLong
      exact absurd tooLong (by decide)
    · exact absurd grid (by decide)
  refine ⟨by decide, fun safe => safe ?_⟩
  exact crafted_fault noArith (fun _ => 0) machine bad

/-- Three rows of five columns, in groups of two. -/
theorem smallWeight_safe :
    Safe (materializeQuantWeights noArith (fun _ => 0) plenty (crafted (packedNode 3 5 2))
      (fun _ _ => false)) := by
  have exact_ : Exact 1 3 5 2 0 := by
    unfold Exact
    decide
  have admissible : Admissible (packedNode 3 5 2) :=
    fun _ _ _ => ⟨by decide, .inr (.inr (.inr exact_))⟩
  have one : ∀ nd, nd = packedNode 3 5 2 → Machine nd := by
    rintro nd rfl
    exact machine_packedNode (by decide) (by decide) (by decide)
  refine (materialization_safe_iff noArith (fun _ => 0) (fun nd => nd = packedNode 3 5 2)
    one).mpr ?_ _ ?_ _ _
  · rintro nd rfl
    exact admissible
  · intro nd listed
    exact mem_singleton.mp listed

end Vknn.QuantWeights
