import Vknn.Core.ModelPool

/-!
# What an accepted model file guarantees

The loader checks every tensor id that a graph's structure carries before it
hands the graph on.  The table of constants is read after that check, and
neither the tensor a record names nor the pool slot it refers to is compared
with anything.

The records are therefore described on their own, as the tables a file holds,
and the main result says that the loader is sound for every consumer exactly
when the records of every table it can reach are themselves in range.
-/

namespace Vknn.ModelIo

open Wire List
open Scan (fail good run_bind run_good run_good_bind run_pure run_tell run_whenRemaining
  whenRemaining)

/-! ## The records a file holds -/

/-- The table of constants of one bucket: the size of its tensor table, and the records in file
order, each with the payload it refers to, if there is one. -/
structure BucketTable where
  tensorCount : Nat
  records : List (TensorId × Option Bytes)

open Reader in
/-- The inline records of a single-graph file. -/
def readInlineRecords (mapped : Bool) : Nat → Scan (List (TensorId × Bytes))
  | 0 => pure []
  | n + 1 => do
      let ok ← good
      if ok then do
        let id ← narrowed
        let blobBytes ← u32
        whenRemaining blobBytes (do fail; pure []) do
          let hb ← inlineBlob mapped blobBytes
          let rest ← readInlineRecords mapped n
          pure ((id, hb) :: rest)
      else pure []

def pooledPayload (file : Bytes) (blobs : List (Nat × Nat)) (slot : Nat) : Option Bytes :=
  blobs[slot]?.map fun blob => (file.drop blob.1).take blob.2

/-- The table a bucket's references spell. -/
def tableOf (file : Bytes) (blobs : List (Nat × Nat)) (head : BucketHead) : BucketTable where
  tensorCount := head.graph.tensors.length
  records := head.refs.map fun ref => (ref.1, pooledPayload file blobs ref.2)

/-- The tables of the buckets that can be read, up to the first one that cannot. -/
def readTables (file : Bytes) (blobs : List (Nat × Nat)) : Nat → Scan (List BucketTable)
  | 0 => pure []
  | left + 1 => do
      let ok ← good
      if ok then do
        let head ← readBucketHead
        let ok ← good
        if ok then do
          let rest ← readTables file blobs left
          pure (tableOf file blobs head :: rest)
        else pure []
      else pure []

open Reader in
def readSingleTable (mapped : Bool) : Scan BucketTable := do
  let g ← readGraphStructure
  let ni ← u32
  let records ← whenRemaining ni (do fail; pure []) (readInlineRecords mapped ni)
  pure ⟨g.tensors.length, records.map fun r => (r.1, some r.2)⟩

open Reader in
/-- The tables of a file, in the order its buckets are handed over. -/
def tablesScan (mapped : Bool) (file : Bytes) : Scan (List BucketTable) := do
  let magic ← readMagic
  if magic = kMagic then do
    let table ← readSingleTable mapped
    let ok ← good
    if ok then pure [table] else pure []
  else if magic = kMagic4 then do
    let nb ← u32
    let np ← u32
    whenRemaining np (pure []) do
      let blobs ← readBlobIndex np
      readTables file blobs nb
  else pure []

def recordTables (mapped : Bool) (file : Bytes) : List BucketTable :=
  ((tablesScan mapped file).run file ⟨0, true⟩).1

/-! ## Sound loads -/

/-- Absent, or a position in the tensor table. -/
def ValidId (g : Graph) (id : TensorId) : Prop := id = kNoTensor ∨ 0 ≤ id ∧ id < g.tensors.length

/-- Every id that a graph's structure carries is valid. -/
structure IdsValid (g : Graph) : Prop where
  inputsOf : ∀ n ∈ g.nodes, ∀ id ∈ n.inputs, ValidId g id
  outputsOf : ∀ n ∈ g.nodes, ∀ id ∈ n.outputs, ValidId g id
  fusedResidual : ∀ n ∈ g.nodes, ValidId g n.fusedResidual
  fusedBias : ∀ n ∈ g.nodes, ValidId g n.fusedBias
  inputs : ∀ id ∈ g.inputs, ValidId g id
  outputs : ∀ id ∈ g.outputs, ValidId g id

/-- A graph whose ids are valid, whose constants are tensors of its table, and each of whose
constants comes from a record that refers to a payload of the file. -/
structure WellFormed (g : Graph) (table : BucketTable) : Prop where
  ids : IdsValid g
  keys : ∀ (id : TensorId) (hb : HostBuffer), g.initializers[id]? = some hb →
    0 ≤ id ∧ id < g.tensors.length
  payloads : ∀ (id : TensorId) (hb : HostBuffer), g.initializers[id]? = some hb →
    Entries.lastOf table.records id = some (some hb)

/-- **An accepted file is well formed**: when the loader answers true, every bucket it has
handed over is well formed against its own table in the file. -/
def Sound (mapped : Bool) (consume : Consumer) (file : Bytes) : Prop :=
  (loadGraphBinBucketsStreamed mapped consume file).1 = true →
    ∀ (i : Nat) (d : Delivery), (loadGraphBinBucketsStreamed mapped consume file).2[i]? = some d →
      ∃ table, (recordTables mapped file)[i]? = some table ∧ WellFormed d.graph table

/-- Every record that has the last word on its tensor names a tensor of the table and a payload
of the file. -/
def RecordsInRange (mapped : Bool) (file : Bytes) : Prop :=
  ∀ table ∈ recordTables mapped file, ∀ (id : TensorId) (payload : Option Bytes),
    Entries.lastOf table.records id = some payload →
      (0 ≤ id ∧ id < table.tensorCount) ∧ payload.isSome

theorem validId_iff (g : Graph) (id : TensorId) :
    validId g.tensors.length id = true ↔ ValidId g id := by
  simp [validId, ValidId]

theorem validIds_iff (g : Graph) : validIds g = true ↔ IdsValid g := by
  simp only [validIds, Bool.and_eq_true, all_eq_true, validId_iff]
  constructor
  · rintro ⟨⟨nodes, inputs⟩, outputs⟩
    exact ⟨fun n m => (nodes n m).1.1.1, fun n m => (nodes n m).1.1.2, fun n m => (nodes n m).1.2,
      fun n m => (nodes n m).2, inputs, outputs⟩
  · intro valid
    exact ⟨⟨fun n m => ⟨⟨⟨valid.inputsOf n m, valid.outputsOf n m⟩, valid.fusedResidual n m⟩,
      valid.fusedBias n m⟩, valid.inputs⟩, valid.outputs⟩

/-! ## The structure is checked -/

theorem sticky_u32 : Sticky Reader.u32 := (sticky_block 4).bind fun _ => sticky_pure _

theorem sticky_i64 : Sticky Reader.i64 := (sticky_block 8).bind fun _ => sticky_pure _

theorem sticky_narrowed : Sticky Reader.narrowed := sticky_i64.bind fun _ => sticky_pure _

theorem sticky_vec {α : Type} (width : Nat) (elem : Bytes → α) : Sticky (Reader.vec width elem) :=
  sticky_u32.bind fun _ => sticky_whenRemaining _ (sticky_fail.bind fun _ => sticky_pure _)
    ((sticky_block _).bind fun _ => sticky_pure _)

theorem sticky_inlineBlob (mapped : Bool) (n : Nat) : Sticky (inlineBlob mapped n) := by
  refine sticky_tell.bind fun at_ => sticky_size.bind fun size => ?_
  split
  · exact (sticky_peek _ _).bind fun _ => (sticky_skip _).bind fun _ => sticky_pure _
  · exact sticky_block n

theorem sticky_readInlineInits (mapped : Bool) (n : Nat) (m : Initializers) :
    Sticky (readInlineInits mapped n m) := by
  induction n generalizing m with
  | zero => exact sticky_pure m
  | succ n ih =>
    refine sticky_good.bind fun ok => ?_
    split
    · refine sticky_narrowed.bind fun id => sticky_u32.bind fun size => ?_
      exact sticky_whenRemaining _ (sticky_fail.bind fun _ => sticky_pure m)
        ((sticky_inlineBlob mapped size).bind fun _ => ih _)
    · exact sticky_pure m

theorem sticky_readRefs (n : Nat) : Sticky (readRefs n) := by
  induction n with
  | zero => exact sticky_pure []
  | succ n ih =>
    refine sticky_good.bind fun ok => ?_
    split
    · exact sticky_narrowed.bind fun _ => sticky_u32.bind fun _ => ih.bind fun _ => sticky_pure _
    · exact sticky_pure _

theorem sticky_readBlobIndex (n : Nat) : Sticky (readBlobIndex n) := by
  induction n with
  | zero => exact sticky_pure []
  | succ n ih =>
    refine sticky_good.bind fun ok => ?_
    split
    · refine sticky_u32.bind fun size => sticky_whenRemaining _ ?_ ?_
      · exact sticky_fail.bind fun _ => sticky_pure _
      · exact sticky_tell.bind fun _ => (sticky_skip _).bind fun _ => ih.bind fun _ => sticky_pure _
    · exact sticky_pure _

theorem yields_readNode : Yields readNode fun r => r.2 = true := by
  unfold readNode
  iterate 11 refine yields_bind_of_forall fun _ => ?_
  refine yields_whenRemaining (yields_of_fail (fun _ => sticky_pure _) _) ?_
  exact yields_bind_of_forall fun _ => yields_pure rfl

theorem yields_readNodes (count : Nat) : Yields (readNodes count) fun r => r.2 = true := by
  induction count with
  | zero => exact yields_pure rfl
  | succ count ih =>
    intro file c ok
    rw [readNodes, run_bind] at ok ⊢
    have node := yields_readNode file c
    rcases head : readNode.run file c with ⟨⟨n, credible⟩, c'⟩
    rw [head] at ok node
    cases credible with
    | true =>
      simp only [if_true, run_bind, run_pure] at ok ⊢
      exact ih file c' ok
    | false =>
      simp only [Bool.false_eq_true, if_false, run_pure] at ok
      exact absurd (node ok) Bool.false_ne_true

/-- **A graph body that ends well has passed the check of its ids.** -/
theorem yields_readGraphStructure : Yields readGraphStructure fun g => validIds g = true := by
  unfold readGraphStructure
  refine yields_bind_of_forall fun nt => ?_
  refine yields_whenRemaining (yields_of_fail (fun _ => sticky_pure _) _) ?_
  refine yields_bind_of_forall fun tensors => yields_bind_of_forall fun nn => ?_
  refine yields_whenRemaining (yields_of_fail (fun _ => sticky_pure _) _) ?_
  refine (yields_readNodes nn).bind (fun r => ?_) fun r complete => ?_
  · dsimp only
    split
    · refine (sticky_vec _ _).bind fun inputs => (sticky_vec _ _).bind fun outputs => ?_
      split
      · exact sticky_pure _
      · exact sticky_fail.bind fun _ => sticky_pure _
    · exact sticky_pure _
  · dsimp only
    rw [complete, if_pos rfl]
    refine yields_bind_of_forall fun inputs => yields_bind_of_forall fun outputs => ?_
    split
    case isTrue valid => exact yields_pure valid
    case isFalse _ => exact yields_of_fail (fun _ => sticky_pure _) _

theorem yields_readBucketHead : Yields readBucketHead fun head => validIds head.graph = true := by
  unfold readBucketHead
  refine yields_bind_of_forall fun name => ?_
  refine yields_readGraphStructure.bind (fun g => ?_) fun g valid => ?_
  · refine sticky_u32.bind fun ni => Sticky.bind ?_ fun refs => sticky_pure _
    exact sticky_whenRemaining _ (sticky_fail.bind fun _ => sticky_pure _) (sticky_readRefs ni)
  · exact yields_bind_of_forall fun ni => yields_bind_of_forall fun refs => yields_pure valid

theorem yields_readSingle (mapped : Bool) :
    Yields (readSingle mapped) fun g => validIds g = true := by
  unfold readSingle
  refine yields_readGraphStructure.bind (fun g => ?_) fun g valid => ?_
  · refine sticky_u32.bind fun ni => Sticky.bind ?_ fun inits => sticky_pure _
    exact sticky_whenRemaining _ (sticky_fail.bind fun _ => sticky_pure _)
      (sticky_readInlineInits mapped ni ∅)
  · exact yields_bind_of_forall fun ni => yields_bind_of_forall fun inits => yields_pure valid

/-! ## Deliveries and tables -/

/-- A delivered graph has passed the check and holds the constants its table records. -/
structure Matches (d : Delivery) (table : BucketTable) : Prop where
  valid : validIds d.graph = true
  count : table.tensorCount = d.graph.tensors.length
  initializers : d.graph.initializers =
    Entries.insertAll ∅ (table.records.map fun r => (r.1, r.2.getD []))

theorem Matches.getElem? {d : Delivery} {table : BucketTable} (same : Matches d table)
    (id : TensorId) :
    d.graph.initializers[id]? = (Entries.lastOf table.records id).map fun p => p.getD [] := by
  have last := Entries.lastOf_map (fun p : Option Bytes => p.getD []) table.records id
  rw [same.initializers, Entries.getElem?_insertAll, last]
  simp

/-- A delivered graph is well formed exactly when its records are in range. -/
theorem Matches.wellFormed_iff {d : Delivery} {table : BucketTable} (same : Matches d table) :
    WellFormed d.graph table ↔
      ∀ (id : TensorId) (payload : Option Bytes), Entries.lastOf table.records id = some payload →
        (0 ≤ id ∧ id < table.tensorCount) ∧ payload.isSome := by
  constructor
  · intro wellFormed id payload last
    have held : d.graph.initializers[id]? = some (payload.getD []) := by
      rw [same.getElem?, last, Option.map_some]
    have stored := wellFormed.payloads id _ held
    rw [last, Option.some.injEq] at stored
    exact ⟨same.count ▸ wellFormed.keys id _ held, stored ▸ rfl⟩
  · intro inRange
    have last : ∀ (id : TensorId) (hb : HostBuffer), d.graph.initializers[id]? = some hb →
        Entries.lastOf table.records id = some (some hb) := by
      intro id hb held
      rw [same.getElem?] at held
      obtain ⟨payload, recorded, rfl⟩ := Option.map_eq_some_iff.mp held
      obtain ⟨bytes, rfl⟩ := Option.isSome_iff_exists.mp (inRange id payload recorded).2
      exact recorded
    refine ⟨(validIds_iff d.graph).mp same.valid, fun id hb held => ?_, last⟩
    exact same.count ▸ (inRange id _ (last id hb held)).1

/-- Element by element, a list is related to a front part of another. -/
def Prefixed {α β : Type} (R : α → β → Prop) (xs : List α) (ys : List β) : Prop :=
  ∀ (i : Nat) (x : α), xs[i]? = some x → ∃ y, ys[i]? = some y ∧ R x y

theorem prefixed_nil {α β : Type} (R : α → β → Prop) (ys : List β) : Prefixed R [] ys := by
  intro i x held
  simp at held

theorem Prefixed.cons {α β : Type} {R : α → β → Prop} {x : α} {y : β} {xs : List α} {ys : List β}
    (head : R x y) (tail : Prefixed R xs ys) : Prefixed R (x :: xs) (y :: ys) := by
  intro i z held
  cases i with
  | zero => exact ⟨y, rfl, Option.some.inj held ▸ head⟩
  | succ i => exact tail i z held

/-! ## Pool indices and payloads -/

variable {file : Bytes} {c : Cursor} {blobs : List (Nat × Nat)}

theorem pos_le_of_u32 (ok : (Reader.u32.run file c).2.ok = true) :
    (Reader.u32.run file c).2.pos ≤ file.length := by
  have started := sticky_u32 file c ok
  simp only [Reader.u32, run_bind, run_pure, Scan.block, started, if_true, beq_iff_eq,
    length_take, length_drop] at ok ⊢
  omega

/-- **A pool index that ends well stays inside the file.** -/
theorem readBlobIndex_inside (n : Nat) (file : Bytes) (c : Cursor)
    (ok : ((readBlobIndex n).run file c).2.ok = true) :
    ∀ blob ∈ ((readBlobIndex n).run file c).1, blob.1 + blob.2 ≤ file.length := by
  induction n generalizing c with
  | zero => simp [readBlobIndex]
  | succ n ih =>
    rw [readBlobIndex, run_bind, run_good] at ok ⊢
    cases started : c.ok with
    | false =>
      rw [started, if_neg Bool.false_ne_true, run_pure] at ok
      exact absurd (started.symm.trans ok) Bool.false_ne_true
    | true =>
      rw [started] at ok
      rw [if_pos rfl, run_bind, run_whenRemaining] at ok ⊢
      split at ok
      case isTrue _ => simp at ok
      case isFalse enough =>
        rw [if_neg enough]
        simp only [run_bind, run_tell, Scan.run_skip, run_pure] at ok ⊢
        have sizeOk : (Reader.u32.run file c).2.ok = true :=
          sticky_readBlobIndex n file
            ⟨(Reader.u32.run file c).2.pos + (Reader.u32.run file c).1, _⟩ ok
        have here := pos_le_of_u32 sizeOk
        intro blob mem
        rcases mem_cons.mp mem with rfl | later
        · dsimp only at enough ⊢
          omega
        · exact ih _ ok blob later

/-- Payloads are attached without moving a good cursor's flag, each as its record says. -/
theorem attachPayloads_inside (mapped : Bool)
    (inside : ∀ blob ∈ blobs, blob.1 + blob.2 ≤ file.length) (refs : List (TensorId × Nat))
    (m : Initializers) (pos : Nat) :
    ∃ pos', (attachPayloads mapped blobs refs m).run file ⟨pos, true⟩ =
      (Entries.insertAll m (refs.map fun ref =>
        (ref.1, (pooledPayload file blobs ref.2).getD [])), ⟨pos', true⟩) := by
  induction refs generalizing m pos with
  | nil => exact ⟨pos, rfl⟩
  | cons ref refs ih =>
    cases found : blobs[ref.2]? with
    | none =>
      have missing : pooledPayload file blobs ref.2 = none := by
        rw [pooledPayload, found, Option.map_none]
      obtain ⟨pos', tail⟩ := ih (m.insert ref.1 []) pos
      refine ⟨pos', ?_⟩
      simp only [attachPayloads, found, run_bind, run_pure, run_good, if_true,
        tail, map_cons, Entries.insertAll_cons, missing, Option.getD_none]
    | some blob =>
      have fits := inside blob (mem_of_getElem? found)
      have points : Points file blob ((file.drop blob.1).take blob.2) := by
        refine ⟨?_, fits, rfl⟩
        rw [length_take, length_drop]
        omega
      have present : pooledPayload file blobs ref.2 = some ((file.drop blob.1).take blob.2) := by
        rw [pooledPayload, found, Option.map_some]
      obtain ⟨middle, fetched⟩ := pooledBlob_spec mapped points pos
      obtain ⟨pos', tail⟩ := ih (m.insert ref.1 ((file.drop blob.1).take blob.2)) middle
      refine ⟨pos', ?_⟩
      simp only [attachPayloads, found, run_bind, fetched, run_good, if_true, tail,
        map_cons, Entries.insertAll_cons, present, Option.getD_some]

/-- What reading one bucket does: it fails with its head, or it stands behind its head with the
constants its table records. -/
theorem readBucket_inside (mapped : Bool)
    (inside : ∀ blob ∈ blobs, blob.1 + blob.2 ≤ file.length) (c : Cursor) :
    ((readBucket mapped blobs).run file c).2 = (readBucketHead.run file c).2 ∧
      ((readBucketHead.run file c).2.ok = true → ((readBucket mapped blobs).run file c).1 =
          ((readBucketHead.run file c).1.name,
            { (readBucketHead.run file c).1.graph with
              initializers := Entries.insertAll ∅
                ((tableOf file blobs (readBucketHead.run file c).1).records.map
                  fun r => (r.1, r.2.getD [])) })) := by
  rw [readBucket, run_bind, run_bind, run_good]
  rcases readBucketHead.run file c with ⟨head, ⟨pos, ok⟩⟩
  cases ok with
  | false =>
    rw [if_neg Bool.false_ne_true]
    exact ⟨rfl, fun good => absurd good Bool.false_ne_true⟩
  | true =>
    obtain ⟨pos', attached⟩ := attachPayloads_inside mapped inside head.refs ∅ pos
    rw [if_pos rfl]
    simp only [run_bind, run_tell, attached, Scan.run_seek, run_pure, tableOf,
      map_map, Function.comp_def, forall_const, and_self]

/-- **Whatever is delivered matches its table.** -/
theorem readBuckets_prefixed (mapped : Bool)
    (inside : ∀ blob ∈ blobs, blob.1 + blob.2 ≤ file.length) (consume : Consumer) (nb left b : Nat)
    (seen : List Delivery) (c : Cursor) :
    ∃ new, ((readBuckets mapped blobs consume nb left b seen).run file c).1.2 = seen ++ new ∧
      Prefixed Matches new ((readTables file blobs left).run file c).1 := by
  induction left generalizing b seen c with
  | zero => exact ⟨[], by simp [readBuckets], prefixed_nil _ _⟩
  | succ left ih =>
    obtain ⟨sameCursor, built⟩ := readBucket_inside mapped inside c
    have checked := yields_readBucketHead file c
    rw [readBuckets, readTables, run_good_bind, run_good_bind]
    by_cases started : c.ok = true
    case neg =>
      rw [if_neg started, if_neg started]
      exact ⟨[], by simp, prefixed_nil _ _⟩
    rw [if_pos started, if_pos started, run_bind, run_good_bind, run_bind,
      run_good_bind, sameCursor]
    by_cases good : (readBucketHead.run file c).2.ok = true
    case neg =>
      rw [if_neg good, if_neg good]
      exact ⟨[], by simp, prefixed_nil _ _⟩
    rw [if_pos good, if_pos good]
    have matched : Matches ⟨((readBucket mapped blobs).run file c).1.2,
        ((readBucket mapped blobs).run file c).1.1, b, nb⟩
        (tableOf file blobs (readBucketHead.run file c).1) := by
      rw [built good]
      exact ⟨checked good, rfl, rfl⟩
    rw [run_bind (readTables file blobs left), run_pure]
    dsimp only
    split
    · obtain ⟨new, delivered, tail⟩ := ih (b + 1) (seen ++ [_]) (readBucketHead.run file c).2
      refine ⟨_, ?_, Prefixed.cons matched tail⟩
      rw [delivered, append_assoc, singleton_append]
    · exact ⟨_, rfl, Prefixed.cons matched (prefixed_nil _ _)⟩

/-- The consumer that stops at the delivery after a number of others. -/
def stopAfter (n : Nat) : Consumer := fun seen _ => decide (seen.length < n)

/-- **Every table is reached by some accepted load**: the one that stops there. -/
theorem readBuckets_reaches (mapped : Bool)
    (inside : ∀ blob ∈ blobs, blob.1 + blob.2 ≤ file.length) (nb left b : Nat)
    (seen : List Delivery) (c : Cursor) (i : Nat)
    (small : i < ((readTables file blobs left).run file c).1.length) :
    ∃ new, ((readBuckets mapped blobs (stopAfter (seen.length + i)) nb left b seen).run file c).1 =
      (true, seen ++ new) ∧ new.length = i + 1 := by
  induction left generalizing b seen c i with
  | zero => simp [readTables] at small
  | succ left ih =>
    obtain ⟨sameCursor, built⟩ := readBucket_inside mapped inside c
    rw [readTables] at small
    rw [readBuckets, run_good_bind]
    rw [run_good_bind] at small
    by_cases started : c.ok = true
    case neg =>
      rw [if_neg started] at small
      simp at small
    rw [if_pos started, run_bind, run_good_bind] at small ⊢
    rw [sameCursor]
    by_cases good : (readBucketHead.run file c).2.ok = true
    case neg =>
      rw [if_neg good] at small
      simp at small
    rw [if_pos good] at small ⊢
    simp only [run_bind, run_pure, length_cons] at small
    dsimp only
    cases i with
    | zero =>
      have stops : stopAfter (seen.length + 0) seen = fun _ => false := by
        funext d
        simp [stopAfter]
      rw [stops, if_neg Bool.false_ne_true]
      exact ⟨[_], rfl, rfl⟩
    | succ i =>
      have goesOn : stopAfter (seen.length + (i + 1)) seen = fun _ => true := by
        funext d
        simp [stopAfter]
      rw [goesOn, if_pos rfl]
      obtain ⟨new, delivered, length⟩ := ih (b + 1)
        (seen ++ [⟨((readBucket mapped blobs).run file c).1.2,
          ((readBucket mapped blobs).run file c).1.1, b, nb⟩])
        (readBucketHead.run file c).2 i (by omega)
      rw [length_append, length_singleton, Nat.add_assoc, Nat.add_comm 1] at delivered
      refine ⟨[⟨((readBucket mapped blobs).run file c).1.2,
        ((readBucket mapped blobs).run file c).1.1, b, nb⟩] ++ new, ?_, ?_⟩
      · rw [delivered, append_assoc]
      · rw [singleton_append, length_cons, length]

/-! ## Inline records -/

/-- The constants of a single-graph file are its records, inserted in file order. -/
theorem readInlineInits_records (mapped : Bool) (n : Nat) (m : Initializers) (file : Bytes)
    (c : Cursor) :
    (readInlineInits mapped n m).run file c =
      (Entries.insertAll m ((readInlineRecords mapped n).run file c).1,
        ((readInlineRecords mapped n).run file c).2) := by
  induction n generalizing m c with
  | zero => rfl
  | succ n ih =>
    rw [readInlineInits, readInlineRecords, run_good_bind, run_good_bind]
    by_cases started : c.ok = true
    case neg =>
      rw [if_neg started, if_neg started]
      rfl
    rw [if_pos started, if_pos started]
    simp only [run_bind, run_whenRemaining]
    split
    · rfl
    · simp only [ih, run_pure, Entries.insertAll_cons]

theorem readSingle_table (mapped : Bool) (file : Bytes) (c : Cursor) :
    ((readSingle mapped).run file c).2 = ((readSingleTable mapped).run file c).2 ∧
      ((readSingleTable mapped).run file c).1.tensorCount =
        ((readSingle mapped).run file c).1.tensors.length ∧
      ((readSingle mapped).run file c).1.initializers = Entries.insertAll ∅
        (((readSingleTable mapped).run file c).1.records.map fun r => (r.1, r.2.getD [])) := by
  simp only [readSingle, readSingleTable, run_bind, run_whenRemaining, run_pure]
  split
  · exact ⟨rfl, trivial, rfl⟩
  · simp [readInlineInits_records, map_map, Function.comp_def]

/-- A single-graph file is delivered with the constants of its one table, or not at all. -/
theorem load_single (mapped : Bool) (consume : Consumer)
    (magic : readMagic.run file ⟨0, true⟩ = (kMagic, c)) :
    (∃ d table, loadGraphBinBucketsStreamed mapped consume file = (true, [d]) ∧
        recordTables mapped file = [table] ∧ Matches d table) ∨
      (loadGraphBinBucketsStreamed mapped consume file = (false, []) ∧
        recordTables mapped file = []) := by
  have checked := yields_readSingle mapped file c
  obtain ⟨sameCursor, count, initializers⟩ := readSingle_table mapped file c
  rw [loadGraphBinBucketsStreamed, loadScan, recordTables, tablesScan, run_bind, run_bind,
    magic, if_pos rfl, if_pos rfl, run_bind, run_good_bind, run_bind,
    run_good_bind, sameCursor]
  by_cases ok : ((readSingleTable mapped).run file c).2.ok = true
  · rw [if_pos ok, if_pos ok]
    exact Or.inl ⟨_, _, rfl, rfl, checked (sameCursor ▸ ok), count, initializers⟩
  · rw [if_neg ok, if_neg ok]
    exact Or.inr ⟨rfl, rfl⟩

/-- A multi-graph file is walked behind an index that stays inside it, or not at all. -/
theorem load_pooled (mapped : Bool)
    (magic : readMagic.run file ⟨0, true⟩ = (kMagic4, c)) :
    ((∀ consume, loadGraphBinBucketsStreamed mapped consume file = (false, [])) ∧
        recordTables mapped file = []) ∨
      ∃ blobs nb c', (∀ blob ∈ blobs, blob.1 + blob.2 ≤ file.length) ∧
        (∀ consume, loadGraphBinBucketsStreamed mapped consume file =
          ((readBuckets mapped blobs consume nb nb 0 []).run file c').1) ∧
        recordTables mapped file = ((readTables file blobs nb).run file c').1 := by
  have notSingle : kMagic4 ≠ kMagic := by decide
  simp only [loadGraphBinBucketsStreamed, loadScan, recordTables, tablesScan, run_bind, magic,
    if_neg notSingle, if_true, run_whenRemaining]
  split
  · exact Or.inl ⟨fun _ => rfl, rfl⟩
  generalize (Reader.u32.run file c).1 = nb
  generalize (Reader.u32.run file (Reader.u32.run file c).2).1 = np
  generalize (Reader.u32.run file (Reader.u32.run file c).2).2 = start
  have inside := readBlobIndex_inside np file start
  generalize (readBlobIndex np).run file start = indexed at inside ⊢
  obtain ⟨blobs, pos, ok⟩ := indexed
  cases ok with
  | true => exact Or.inr ⟨blobs, nb, ⟨pos, true⟩, inside rfl, fun _ => rfl, rfl⟩
  | false =>
    left
    cases nb with
    | zero =>
      refine ⟨fun consume => ?_, rfl⟩
      rw [readBuckets, run_good_bind, run_pure]
    | succ nb =>
      refine ⟨fun consume => ?_, ?_⟩
      · rw [readBuckets, run_good_bind, if_neg Bool.false_ne_true, run_pure]
      · rw [readTables, run_good_bind, if_neg Bool.false_ne_true, run_pure]

theorem load_foreign (mapped : Bool) {word : Nat}
    (magic : readMagic.run file ⟨0, true⟩ = (word, c)) (notSingle : word ≠ kMagic)
    (notPooled : word ≠ kMagic4) :
    (∀ consume, loadGraphBinBucketsStreamed mapped consume file = (false, [])) ∧
      recordTables mapped file = [] := by
  simp only [loadGraphBinBucketsStreamed, loadScan, recordTables, tablesScan, run_bind, magic,
    if_neg notSingle, if_neg notPooled, run_pure, implies_true, and_self]

/-! ## Soundness -/

/-- **Every delivery matches its table**, whatever the consumer. -/
theorem load_prefixed (mapped : Bool) (consume : Consumer) (file : Bytes) :
    Prefixed Matches (loadGraphBinBucketsStreamed mapped consume file).2
      (recordTables mapped file) := by
  rcases magic : readMagic.run file ⟨0, true⟩ with ⟨word, c⟩
  by_cases single : word = kMagic
  · subst single
    rcases load_single mapped consume magic with ⟨d, table, load, tables, same⟩ | ⟨load, _⟩
    · rw [load, tables]
      exact Prefixed.cons same (prefixed_nil _ _)
    · rw [load]
      exact prefixed_nil _ _
  by_cases pooled : word = kMagic4
  · subst pooled
    rcases load_pooled mapped magic with ⟨load, _⟩ | ⟨blobs, nb, c', inside, load, tables⟩
    · rw [load]
      exact prefixed_nil _ _
    · obtain ⟨new, delivered, same⟩ := readBuckets_prefixed mapped inside consume nb nb 0 [] c'
      rw [load, tables, delivered]
      exact same
  · rw [(load_foreign mapped magic single pooled).1]
    exact prefixed_nil _ _

/-- **Every table is delivered by some accepted load.** -/
theorem load_reaches (mapped : Bool) (file : Bytes) (i : Nat)
    (small : i < (recordTables mapped file).length) :
    ∃ consume, (loadGraphBinBucketsStreamed mapped consume file).1 = true ∧
      i < (loadGraphBinBucketsStreamed mapped consume file).2.length := by
  rcases magic : readMagic.run file ⟨0, true⟩ with ⟨word, c⟩
  by_cases single : word = kMagic
  · subst single
    rcases load_single mapped (stopAfter i) magic with ⟨d, table, load, tables, _⟩ | ⟨_, tables⟩
    · rw [tables] at small
      exact ⟨stopAfter i, by rw [load], by rw [load]; exact small⟩
    · rw [tables] at small
      exact absurd small (Nat.not_lt_zero i)
  by_cases pooled : word = kMagic4
  · subst pooled
    rcases load_pooled mapped magic with ⟨_, tables⟩ | ⟨blobs, nb, c', inside, load, tables⟩
    · rw [tables] at small
      exact absurd small (Nat.not_lt_zero i)
    · rw [tables] at small
      obtain ⟨new, delivered, length⟩ := readBuckets_reaches mapped inside nb nb 0 [] c' i small
      rw [length_nil, Nat.zero_add] at delivered
      refine ⟨stopAfter i, ?_, ?_⟩
      · rw [load, delivered]
      · rw [load, delivered, nil_append, length]
        exact Nat.lt_succ_self i
  · rw [(load_foreign mapped magic single pooled).2] at small
    exact absurd small (Nat.not_lt_zero i)

/-- **A file is loaded soundly by every consumer exactly when the records of its tables are in
range.**  The ids of the structure are checked for every file; the records are not. -/
theorem sound_iff (mapped : Bool) (file : Bytes) :
    (∀ consume, Sound mapped consume file) ↔ RecordsInRange mapped file := by
  constructor
  · intro sound table mem
    obtain ⟨i, small, rfl⟩ := getElem_of_mem mem
    obtain ⟨consume, accepted, reached⟩ := load_reaches mapped file i small
    obtain ⟨found, atTable, wellFormed⟩ := sound consume accepted i _ (getElem?_eq_getElem reached)
    obtain ⟨matched, atMatched, same⟩ :=
      load_prefixed mapped consume file i _ (getElem?_eq_getElem reached)
    have here := getElem?_eq_getElem small
    obtain rfl := Option.some.inj (atTable.symm.trans here)
    obtain rfl := Option.some.inj (atMatched.symm.trans here)
    exact same.wellFormed_iff.mp wellFormed
  · intro inRange consume _ i d delivered
    obtain ⟨table, atTable, same⟩ := load_prefixed mapped consume file i d delivered
    refine ⟨table, atTable, same.wellFormed_iff.mpr ?_⟩
    exact inRange table (mem_of_getElem? atTable)

/-! ## A record that names no tensor -/

/-- A single-graph file with no tensors, no nodes, and one empty constant for tensor 5. -/
def strayConstantFile : Bytes :=
  emit [Writer.u32 kMagic, Writer.u32 0, Writer.u32 0, Writer.u32 0, Writer.u32 0, Writer.u32 1,
    Writer.i64 5, Writer.u32 0]

/-- **A file is accepted with a constant that names no tensor.** -/
theorem strayConstantFile_unsound : ¬ Sound true (fun _ _ => true) strayConstantFile := by
  intro sound
  have accepted : (loadGraphBinBucketsStreamed true (fun _ _ => true) strayConstantFile).1 = true := by
    decide +kernel
  have stray : (((loadGraphBinBucketsStreamed true (fun _ _ => true) strayConstantFile).2[0]?).map
      fun d => (d.graph.initializers[(5 : Int)]?, d.graph.tensors.length)) = some (some [], 0) := by
    decide +kernel
  obtain ⟨d, delivered, seen⟩ := Option.map_eq_some_iff.mp stray
  obtain ⟨held, none⟩ := Prod.mk.inj seen
  obtain ⟨table, _, wellFormed⟩ := sound accepted 0 d delivered
  have bound := (wellFormed.keys 5 [] held).2
  rw [none] at bound
  exact absurd bound (by decide)

end Vknn.ModelIo
