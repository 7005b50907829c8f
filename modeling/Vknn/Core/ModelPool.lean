import Vknn.Core.ModelRoundTrip

/-!
# The shared pool and the multi-graph container

Equal payloads of different graphs are stored once.  A payload is looked up by
its size and digest, but a slot is only reused when the bytes it holds are
compared equal, so a reference always leads back to the payload it was made
from, whatever the digests are.

The loader indexes the pool first and fetches payloads from it later.  What it
needs of the index is `PoolHolds`: each entry points at a run of bytes inside
the file that is the payload.
-/

namespace Vknn.ModelIo

open Wire List
open Writer (blob i64 u32)

/-! ## References lead back to their payloads -/

/-- A reference stands for a constant: same tensor, and a slot that holds its bytes. -/
structure Refers (payloads : List Bytes) (ref : TensorId × Nat) (kv : TensorId × HostBuffer) :
    Prop where
  tensor : ref.1 = kv.1
  slot : ref.2 < 2 ^ 32
  bytes : payloads[ref.2]? = some kv.2

theorem Refers.mono {payloads grown : List Bytes} (extends_ : payloads <+: grown)
    {ref : TensorId × Nat} {kv : TensorId × HostBuffer} (refers : Refers payloads ref kv) :
    Refers grown ref kv := by
  obtain ⟨more, rfl⟩ := extends_
  refine ⟨refers.tensor, refers.slot, ?_⟩
  have inside := (List.getElem?_eq_some_iff.mp refers.bytes).1
  rw [getElem?_append_left inside, refers.bytes]

/-- **A slot is reused only for equal bytes**: the slot returned for a payload holds exactly
that payload. -/
theorem internPayload_spec (pool : Pool) (bytes : Bytes) :
    pool.payloads <+: (internPayload pool bytes).1.payloads ∧
      ((internPayload pool bytes).1.payloads.length < 2 ^ 32 →
        (internPayload pool bytes).2 < 2 ^ 32 ∧
        (internPayload pool bytes).1.payloads[(internPayload pool bytes).2]? = some bytes) := by
  unfold internPayload
  dsimp only
  cases found : (pool.candidates (bytes.length, fnv1a bytes)).find?
      fun s => pool.payloads[s]? == some bytes with
  | some s =>
    have holds : pool.payloads[s]? = some bytes := by simpa using find?_some found
    have inside := (List.getElem?_eq_some_iff.mp holds).1
    exact ⟨prefix_refl _, fun small => ⟨inside.trans small, holds⟩⟩
  | none =>
    refine ⟨prefix_append _ _, fun small => ?_⟩
    rw [length_append] at small
    have fresh : pool.payloads.length < 2 ^ 32 := by omega
    rw [Nat.mod_eq_of_lt fresh]
    exact ⟨fresh, by simp⟩

theorem internPayload_mem (pool : Pool) (bytes : Bytes) :
    ∀ p ∈ (internPayload pool bytes).1.payloads, p ∈ pool.payloads ∨ p = bytes := by
  unfold internPayload
  dsimp only
  split
  · exact fun p mem => Or.inl mem
  · intro p mem
    rcases mem_append.mp mem with old | new
    · exact Or.inl old
    · exact Or.inr (mem_singleton.mp new)

theorem internInits_spec (pool : Pool) (entries : List (TensorId × HostBuffer)) :
    pool.payloads <+: (internInits pool entries).1.payloads ∧
      ((internInits pool entries).1.payloads.length < 2 ^ 32 →
        List.Forall₂ (Refers (internInits pool entries).1.payloads)
          (internInits pool entries).2 entries) := by
  induction entries generalizing pool with
  | nil => exact ⟨prefix_refl _, fun _ => .nil⟩
  | cons kv entries ih =>
    obtain ⟨grows, slot⟩ := internPayload_spec pool kv.2
    obtain ⟨growsTail, tail⟩ := ih (internPayload pool kv.2).1
    refine ⟨grows.trans growsTail, fun small => ?_⟩
    obtain ⟨fits, holds⟩ := slot (growsTail.length_le.trans_lt small)
    exact .cons (Refers.mono growsTail ⟨rfl, fits, holds⟩) (tail small)

theorem internInits_mem (pool : Pool) (entries : List (TensorId × HostBuffer)) :
    ∀ p ∈ (internInits pool entries).1.payloads,
      p ∈ pool.payloads ∨ ∃ kv ∈ entries, p = kv.2 := by
  induction entries generalizing pool with
  | nil => exact fun p mem => Or.inl mem
  | cons kv entries ih =>
    intro p mem
    rcases ih (internPayload pool kv.2).1 p mem with old | ⟨e, inside, rfl⟩
    · rcases internPayload_mem pool kv.2 p old with older | rfl
      · exact Or.inl older
      · exact Or.inr ⟨kv, mem_cons_self, rfl⟩
    · exact Or.inr ⟨e, mem_cons_of_mem _ inside, rfl⟩

/-- The references of every bucket lead back to its constants in the finished pool. -/
theorem internBuckets_spec (pool : Pool) (buckets : List Graph) :
    pool.payloads <+: (internBuckets pool buckets).1.payloads ∧
      ((internBuckets pool buckets).1.payloads.length < 2 ^ 32 →
        List.Forall₂ (fun refs (g : Graph) => List.Forall₂
          (Refers (internBuckets pool buckets).1.payloads) refs g.initializers.toList)
          (internBuckets pool buckets).2 buckets) := by
  induction buckets generalizing pool with
  | nil => exact ⟨prefix_refl _, fun _ => .nil⟩
  | cons g buckets ih =>
    obtain ⟨grows, refs⟩ := internInits_spec pool g.initializers.toList
    obtain ⟨growsTail, tail⟩ := ih (internInits pool g.initializers.toList).1
    refine ⟨grows.trans growsTail, fun small => ?_⟩
    have head := refs (growsTail.length_le.trans_lt small)
    exact .cons (head.imp fun _ _ refers => refers.mono growsTail) (tail small)

theorem internBuckets_mem (pool : Pool) (buckets : List Graph) :
    ∀ p ∈ (internBuckets pool buckets).1.payloads,
      p ∈ pool.payloads ∨ ∃ g ∈ buckets, ∃ kv ∈ g.initializers.toList, p = kv.2 := by
  induction buckets generalizing pool with
  | nil => exact fun p mem => Or.inl mem
  | cons g buckets ih =>
    intro p mem
    rcases ih (internInits pool g.initializers.toList).1 p mem with old | ⟨h, inside, stored⟩
    · rcases internInits_mem pool g.initializers.toList p old with older | stored
      · exact Or.inl older
      · exact Or.inr ⟨g, mem_cons_self, stored⟩
    · exact Or.inr ⟨h, mem_cons_of_mem _ inside, stored⟩

/-! ## Reading through the pool index -/

/-- A pool index entry points at a run of bytes inside the file that is the payload. -/
structure Points (file : Bytes) (blob : Nat × Nat) (payload : Bytes) : Prop where
  size : blob.2 = payload.length
  inside : blob.1 + blob.2 ≤ file.length
  bytes : (file.drop blob.1).take blob.2 = payload

/-- The pool index of a file holds the payloads. -/
abbrev PoolHolds (file : Bytes) (blobs : List (Nat × Nat)) (payloads : List Bytes) : Prop :=
  List.Forall₂ (Points file) blobs payloads

theorem readBlobIndex_spec {payloads : List Bytes} (short : ∀ p ∈ payloads, p.length < 2 ^ 32)
    {file : Bytes} {pos : Nat} {rest : Bytes}
    (split : file.drop pos = payloads.flatMap blob ++ rest) :
    ∃ blobs, (readBlobIndex payloads.length).run file ⟨pos, true⟩ =
        (blobs, ⟨pos + (payloads.flatMap blob).length, true⟩) ∧
      PoolHolds file blobs payloads := by
  induction payloads generalizing pos with
  | nil => exact ⟨[], rfl, .nil⟩
  | cons p payloads ih =>
    have unfoldBlob : blob p = u32 p.length ++ p := by simp [blob, emit]
    have size : (u32 p.length).length = 4 := length_leBytes 4 _
    rw [flatMap_cons, unfoldBlob, append_assoc, append_assoc] at split
    have sizeRead := reads_u32 (short p mem_cons_self) file pos _ split
    have here : file.drop (pos + 4) = p ++ (payloads.flatMap blob ++ rest) := by
      rw [← drop_drop, split, ← size, drop_left]
    have later : file.drop (pos + 4 + p.length) = payloads.flatMap blob ++ rest := by
      rw [← drop_drop, here, drop_left]
    have room : p.length ≤ file.length - (pos + 4) := by
      rw [← length_drop, here, length_append]
      omega
    obtain ⟨blobs, tailRead, holds⟩ := ih (fun q mem => short q (mem_cons_of_mem _ mem)) later
    refine ⟨(pos + 4, p.length) :: blobs, ?_, .cons ⟨rfl, ?_, ?_⟩ holds⟩
    · have passes : ¬ p.length > file.length - (pos + 4) := by omega
      simp only [length_cons, readBlobIndex, Scan.run_bind, Scan.run_good, if_true, sizeRead,
        size, Scan.run_whenRemaining, if_neg passes, Scan.run_tell, Scan.run_skip, tailRead,
        Scan.run_pure]
      simp only [flatMap_cons, unfoldBlob, length_append, size, Nat.add_assoc]
    · have whole := congrArg List.length split
      rw [length_drop, length_append, size] at whole
      omega
    · rw [here, take_left]

theorem pooledBlob_spec (mapped : Bool) {file : Bytes} {blob : Nat × Nat} {payload : Bytes}
    (points : Points file blob payload) (pos : Nat) :
    ∃ pos', (pooledBlob mapped blob.1 blob.2).run file ⟨pos, true⟩ = (payload, ⟨pos', true⟩) := by
  have split : file.drop blob.1 = payload ++ file.drop (blob.1 + blob.2) := by
    conv_lhs => rw [← take_append_drop blob.2 (file.drop blob.1)]
    rw [points.bytes, drop_drop]
  rw [pooledBlob, Scan.run_bind, Scan.run_ite, Scan.run_ite]
  simp only [Scan.run_size, Scan.run_peek, points.bytes]
  split
  · exact ⟨pos, rfl⟩
  · split
    case isTrue empty =>
      have none : payload = [] := length_eq_zero_iff.mp (points.size ▸ empty)
      exact ⟨pos, by rw [none, Scan.run_pure]⟩
    case isFalse _ =>
      have block := reads_block payload file blob.1 _ split
      refine ⟨blob.1 + payload.length, ?_⟩
      simp only [Scan.run_bind, Scan.run_seek, points.size, block]

theorem attachPayloads_spec (mapped : Bool) {file : Bytes} {blobs : List (Nat × Nat)}
    {payloads : List Bytes} (holds : PoolHolds file blobs payloads)
    {refs : List (TensorId × Nat)} {entries : List (TensorId × HostBuffer)}
    (refers : List.Forall₂ (Refers payloads) refs entries) (m : Initializers) (pos : Nat) :
    ∃ pos', (attachPayloads mapped blobs refs m).run file ⟨pos, true⟩ =
      (Entries.insertAll m entries, ⟨pos', true⟩) := by
  induction refers generalizing m pos with
  | nil => exact ⟨pos, rfl⟩
  | @cons ref kv refs entries head _ ih =>
    obtain ⟨inside, value⟩ := List.getElem?_eq_some_iff.mp head.bytes
    have blobInside : ref.2 < blobs.length := by rw [holds.length_eq]; exact inside
    have points : Points file blobs[ref.2] kv.2 := by
      rw [← value]
      exact forall₂_iff_get.mp holds |>.2 ref.2 blobInside inside
    obtain ⟨middle, fetched⟩ := pooledBlob_spec mapped points pos
    obtain ⟨pos', tail⟩ := ih (m.insert ref.1 kv.2) middle
    refine ⟨pos', ?_⟩
    simp only [attachPayloads, getElem?_eq_getElem blobInside, Scan.run_bind, fetched,
      Scan.run_good, if_true, tail]
    rw [head.tensor, Entries.insertAll_cons]

/-! ## Buckets -/

theorem reads_refs (refs : List (TensorId × Nat))
    (storable : ∀ ref ∈ refs, FitsSigned 4 ref.1 ∧ ref.2 < 2 ^ 32) :
    Reads (readRefs refs.length)
      (refs.flatMap fun ref => emit [i64 ref.1, u32 ref.2]) refs := by
  induction refs with
  | nil =>
    rw [length_nil, readRefs]
    exact reads_pure []
  | cons ref refs ih =>
    obtain ⟨key, slot⟩ := storable ref mem_cons_self
    have tail := ih fun r mem => storable r (mem_cons_of_mem _ mem)
    have item : emit [i64 ref.1, u32 ref.2] = i64 ref.1 ++ u32 ref.2 := by simp [emit]
    rw [flatMap_cons, length_cons, readRefs, item, append_assoc]
    refine reads_good ?_
    rw [if_pos rfl]
    exact (reads_narrowed key).bind ((reads_u32 slot).bind (tail.bind_nil (reads_pure _)))

/-- A bucket as the writer sees it. -/
structure BucketImage where
  name : Str
  graph : Graph
  refs : List (TensorId × Nat)

/-- A bucket that can be written against a pool, whatever its ids are. -/
structure ShortBucket (payloads : List Bytes) (image : BucketImage) : Prop where
  name : image.name.length < 2 ^ 32
  tables : ShortTables image.graph
  refers : List.Forall₂ (Refers payloads) image.refs image.graph.initializers.toList

def BucketImage.bytes (image : BucketImage) : Bytes := writeBucket image.name image.graph image.refs

/-- A bucket's reference table is read back, whatever is made of it. -/
theorem reads_refTable {payloads : List Bytes} {image : BucketImage} {α : Type}
    (short : ShortBucket payloads image) (f : List (TensorId × Nat) → α) :
    Reads (Reader.u32 >>= fun ni =>
        Scan.whenRemaining ni (Scan.fail >>= fun _ => pure []) (readRefs ni) >>= fun refs =>
          pure (f refs))
      (u32 image.refs.length ++ image.refs.flatMap fun ref => emit [i64 ref.1, u32 ref.2])
      (f image.refs) := by
  have refsFit : ∀ ref ∈ image.refs, FitsSigned 4 ref.1 ∧ ref.2 < 2 ^ 32 := by
    intro ref mem
    obtain ⟨i, small, rfl⟩ := getElem_of_mem mem
    have bound : i < image.graph.initializers.toList.length := short.refers.length_eq ▸ small
    have refers := (forall₂_iff_get.mp short.refers).2 i small bound
    have entry := short.tables.key _ (getElem_mem bound)
    refine ⟨?_, refers.slot⟩
    have tensor := refers.tensor
    simp only [get_eq_getElem] at tensor
    rw [tensor]
    exact entry
  have count : image.refs.length < 2 ^ 32 := by
    rw [short.refers.length_eq, Std.ExtTreeMap.length_toList]
    exact short.tables.initializers
  have enough := length_le_length_flatMap image.refs
    (fun ref => emit [i64 ref.1, u32 ref.2]) fun ref _ => by
      simp [emit, i64]
      omega
  refine (reads_u32 count).bind ?_
  exact (reads_whenRemaining enough (reads_refs image.refs refsFit)).bind_nil (reads_pure _)

/-- What a bucket's head is read back as. -/
def BucketImage.head (image : BucketImage) : BucketHead :=
  ⟨image.name, { storedGraph image.graph with initializers := ∅ }, image.refs⟩

theorem BucketImage.bytes_eq (image : BucketImage) :
    image.bytes = blob image.name ++ (writeGraphStructure image.graph ++ (u32 image.refs.length ++
        image.refs.flatMap fun ref => emit [i64 ref.1, u32 ref.2])) := by
  rw [BucketImage.bytes, writeBucket, emit, flatten_cons, flatten_cons,
    flatten_cons, flatten_cons, flatten_nil, append_nil]

theorem reads_bucketHead {payloads : List Bytes} {image : BucketImage}
    (short : ShortBucket payloads image) (valid : validIds image.graph = true) :
    Reads readBucketHead image.bytes image.head := by
  have structured := readsTo_graphStructure short.tables
  rw [valid] at structured
  rw [image.bytes_eq]
  exact (reads_str short.name).bind (Reads.bind structured (reads_refTable short _))

/-- The payloads of a bucket are those of its own constants, wherever its head was read. -/
theorem readBucket_of_head (mapped : Bool) {file : Bytes} {blobs : List (Nat × Nat)}
    {payloads : List Bytes} (holds : PoolHolds file blobs payloads) {image : BucketImage}
    (short : ShortBucket payloads image) {c : Cursor} {pos : Nat}
    (head : readBucketHead.run file c = (image.head, ⟨pos, true⟩)) :
    (readBucket mapped blobs).run file c =
      ((image.name, storedGraph image.graph), ⟨pos, true⟩) := by
  obtain ⟨pos', attached⟩ := attachPayloads_spec mapped holds short.refers ∅ pos
  rw [Entries.insertAll_toList] at attached
  simp only [readBucket, Scan.run_bind, head, BucketImage.head, Scan.run_good, if_true,
    Scan.run_tell, attached, Scan.run_seek, Scan.run_pure]
  rfl

theorem readBucket_spec (mapped : Bool) {file : Bytes} {blobs : List (Nat × Nat)}
    {payloads : List Bytes} (holds : PoolHolds file blobs payloads) {image : BucketImage}
    (short : ShortBucket payloads image) (valid : validIds image.graph = true) {pos : Nat}
    {rest : Bytes} (split : file.drop pos = image.bytes ++ rest) :
    (readBucket mapped blobs).run file ⟨pos, true⟩ =
      ((image.name, storedGraph image.graph), ⟨pos + image.bytes.length, true⟩) :=
  readBucket_of_head mapped holds short (reads_bucketHead short valid file pos rest split)

/-- What a list of buckets is delivered as, counted from `b`. -/
def deliveries (count : Nat) : Nat → List BucketImage → List Delivery
  | _, [] => []
  | b, image :: images =>
    ⟨storedGraph image.graph, image.name, b, count⟩ :: deliveries count (b + 1) images

/-- **Every bucket is delivered as stored, in order.** -/
theorem readBuckets_spec (mapped : Bool) {file : Bytes} {blobs : List (Nat × Nat)}
    {payloads : List Bytes} (holds : PoolHolds file blobs payloads) (count : Nat)
    (images : List BucketImage) (short : ∀ image ∈ images, ShortBucket payloads image)
    (valid : ∀ image ∈ images, validIds image.graph = true) (b : Nat) (seen : List Delivery)
    {pos : Nat} {rest : Bytes}
    (split : file.drop pos = images.flatMap BucketImage.bytes ++ rest) :
    ((readBuckets mapped blobs (fun _ _ => true) count images.length b seen).run file
      ⟨pos, true⟩).1 = (true, seen ++ deliveries count b images) := by
  induction images generalizing b seen pos with
  | nil => simp [readBuckets, deliveries]
  | cons image images ih =>
    rw [flatMap_cons, append_assoc] at split
    have here := readBucket_spec mapped holds (short image mem_cons_self)
      (valid image mem_cons_self) split
    have later : file.drop (pos + image.bytes.length) =
        images.flatMap BucketImage.bytes ++ rest := by
      rw [← drop_drop, split, drop_left]
    have tail := ih (fun i mem => short i (mem_cons_of_mem _ mem))
      (fun i mem => valid i (mem_cons_of_mem _ mem)) (b + 1)
      (seen ++ [⟨storedGraph image.graph, image.name, b, count⟩]) later
    simp only [length_cons, readBuckets, Scan.run_bind, Scan.run_good, if_true, here, tail,
      deliveries, append_assoc, singleton_append]

/-! ## The multi-graph container -/

/-- The images of a list of buckets under their names and references. -/
def images (names : List Str) (buckets : List Graph)
    (bucketInits : List (List (TensorId × Nat))) : List BucketImage :=
  (buckets.zip bucketInits).zipIdx.map fun entry =>
    ⟨bucketName names entry.2, entry.1.1, entry.1.2⟩

/-- A list of buckets that can be written: nameable, storable, and with a pool that fits. -/
@[mk_iff]
structure StorableBuckets (buckets : List Graph) (names : List Str) : Prop where
  nonempty : buckets ≠ []
  count : buckets.length < 2 ^ 32
  names : ∀ name ∈ names, name.length < 2 ^ 32
  graph : ∀ g ∈ buckets, StorableGraph g
  pool : (internBuckets {} buckets).1.payloads.length < 2 ^ 32

instance (buckets : List Graph) (names : List Str) : Decidable (StorableBuckets buckets names) :=
  decidable_of_iff' _ (storableBuckets_iff buckets names)

/-- Buckets whose names and tables are shorter than 2^32.  Nothing is asked of their ids or of
their payloads. -/
@[mk_iff]
structure ShortBuckets (buckets : List Graph) (names : List Str) : Prop where
  count : buckets.length < 2 ^ 32
  names : ∀ name ∈ names, name.length < 2 ^ 32
  tables : ∀ g ∈ buckets, ShortTables g
  pool : (internBuckets {} buckets).1.payloads.length < 2 ^ 32

instance (buckets : List Graph) (names : List Str) : Decidable (ShortBuckets buckets names) :=
  decidable_of_iff' _ (shortBuckets_iff buckets names)

theorem StorableBuckets.short {buckets : List Graph} {names : List Str}
    (storable : StorableBuckets buckets names) : ShortBuckets buckets names where
  count := storable.count
  names := storable.names
  tables g mem := (storable.graph g mem).tables
  pool := storable.pool

theorem length_images (names : List Str) {buckets : List Graph}
    {bucketInits : List (List (TensorId × Nat))} (same : bucketInits.length = buckets.length) :
    (images names buckets bucketInits).length = buckets.length := by
  simp [images, same]

theorem bucketName_short {names : List Str} (short : ∀ name ∈ names, name.length < 2 ^ 32)
    (b : Nat) : (bucketName names b).length < 2 ^ 32 := by
  unfold bucketName
  rw [getD_eq_getElem?_getD]
  cases named : names[b]? with
  | some name => exact short name (mem_of_getElem? named)
  | none => exact Nat.two_pow_pos 32

/-- An image is one of the buckets under one of the names, with references of its own. -/
theorem mem_images {buckets : List Graph} {names : List Str}
    (pool : (internBuckets {} buckets).1.payloads.length < 2 ^ 32) {image : BucketImage}
    (mem : image ∈ images names buckets (internBuckets {} buckets).2) :
    image.graph ∈ buckets ∧ (∃ b, image.name = bucketName names b) ∧
      List.Forall₂ (Refers (internBuckets {} buckets).1.payloads) image.refs
        image.graph.initializers.toList := by
  have refers := (internBuckets_spec {} buckets).2 pool
  obtain ⟨⟨⟨g, refs⟩, b⟩, inside, rfl⟩ := mem_map.mp mem
  obtain ⟨_, small, pair⟩ := mem_zipIdx inside
  have memberZip : (g, refs) ∈ buckets.zip (internBuckets {} buckets).2 := by
    rw [pair]
    exact getElem_mem _
  exact ⟨(of_mem_zip memberZip).1, ⟨b, rfl⟩, forall₂_zip refers.flip memberZip⟩

theorem shortBucket_images {buckets : List Graph} {names : List Str}
    (short : ShortBuckets buckets names) :
    ∀ image ∈ images names buckets (internBuckets {} buckets).2,
      ShortBucket (internBuckets {} buckets).1.payloads image := by
  intro image mem
  obtain ⟨inside, ⟨b, named⟩, refers⟩ := mem_images short.pool mem
  exact ⟨named ▸ bucketName_short short.names b, short.tables _ inside, refers⟩

theorem map_graph_deliveries (count b : Nat) (images : List BucketImage) :
    (deliveries count b images).map (·.graph) = (images.map (·.graph)).map storedGraph := by
  induction images generalizing b with
  | nil => rfl
  | cons image images ih => simp [deliveries, ih]

theorem map_name_deliveries (count b : Nat) (images : List BucketImage) :
    (deliveries count b images).map (·.name) = images.map (·.name) := by
  induction images generalizing b with
  | nil => rfl
  | cons image images ih => simp [deliveries, ih]

theorem map_graph_images {names : List Str} {buckets : List Graph}
    {bucketInits : List (List (TensorId × Nat))} (same : bucketInits.length = buckets.length) :
    (images names buckets bucketInits).map (·.graph) = buckets := by
  have firsts : ((buckets.zip bucketInits).zipIdx.map Prod.fst).map Prod.fst =
      (images names buckets bucketInits).map (·.graph) := by
    rw [images, map_map, map_map]
    rfl
  rw [← firsts, zipIdx_map_fst, map_fst_zip same.ge]

theorem map_name_images {names : List Str} {buckets : List Graph}
    {bucketInits : List (List (TensorId × Nat))} (same : bucketInits.length = buckets.length) :
    (images names buckets bucketInits).map (·.name) =
      (List.range buckets.length).map (bucketName names) := by
  have seconds : ((buckets.zip bucketInits).zipIdx.map Prod.snd).map (bucketName names) =
      (images names buckets bucketInits).map (·.name) := by
    rw [images, map_map, map_map]
    rfl
  have count : (buckets.zip bucketInits).length = buckets.length := by simp [same]
  rw [← seconds, zipIdx_map_snd, count, range_eq_range']

/-- A file of several buckets behind their pool. -/
def bucketsFile (content : QuantContent) (payloads : List Bytes) (images : List BucketImage) :
    Bytes :=
  emit [containerWords content kMagic4 kSubBodyVxm4, u32 images.length,
    u32 payloads.length, payloads.flatMap blob, images.flatMap BucketImage.bytes]

/-- The loader reaches the buckets of a file with the pool indexed behind it. -/
theorem loadScan_bucketsFile (mapped : Bool) (consume : Consumer) (content : QuantContent)
    {payloads : List Bytes} {images : List BucketImage} (count : images.length < 2 ^ 32)
    (pool : payloads.length < 2 ^ 32) (short : ∀ p ∈ payloads, p.length < 2 ^ 32) :
    ∃ blobs start, PoolHolds (bucketsFile content payloads images) blobs payloads ∧
      (bucketsFile content payloads images).drop start = images.flatMap BucketImage.bytes ++ [] ∧
      start + (images.flatMap BucketImage.bytes).length =
        (bucketsFile content payloads images).length ∧
      (loadScan mapped consume).run (bucketsFile content payloads images) ⟨0, true⟩ =
        (readBuckets mapped blobs consume images.length images.length 0 []).run
          (bucketsFile content payloads images) ⟨start, true⟩ := by
  have words := reads_magic content kMagic4 kSubBodyVxm4 (Or.inr ⟨rfl, rfl⟩)
  have enough := length_le_length_flatMap payloads blob fun p _ => one_le_length_blob p
  generalize whole : bucketsFile content payloads images = file
  have split0 : file.drop 0 = containerWords content kMagic4 kSubBodyVxm4 ++
      (u32 images.length ++ (u32 payloads.length ++
        (payloads.flatMap blob ++ (images.flatMap BucketImage.bytes ++ [])))) := by
    rw [drop_zero, ← whole]
    simp [bucketsFile, emit]
  have size := congrArg List.length split0
  simp only [drop_zero, length_append, length_nil] at size
  -- The three leading words, the pool behind them, and the buckets behind the pool.
  have magicRead := words file 0 _ split0
  have split1 := drop_add_of_drop split0
  have countRead := reads_u32 count file _ _ split1
  have split2 := drop_add_of_drop split1
  have poolRead := reads_u32 pool file _ _ split2
  have split3 := drop_add_of_drop split2
  obtain ⟨blobs, indexed, holds⟩ := readBlobIndex_spec short split3
  have split4 := drop_add_of_drop split3
  refine ⟨blobs, _, holds, split4, by omega, ?_⟩
  have room : ¬ payloads.length > file.length - (0 +
      (containerWords content kMagic4 kSubBodyVxm4).length + (u32 images.length).length +
      (u32 payloads.length).length) := by
    omega
  have notSingle : kMagic4 ≠ kMagic := by decide
  simp only [loadScan, Scan.run_bind, magicRead, if_neg notSingle, if_true, countRead, poolRead,
    Scan.run_whenRemaining, if_neg room, indexed]

/-- **A file of several buckets delivers each of them as stored.** -/
theorem load_images (mapped : Bool) (content : QuantContent) {payloads : List Bytes}
    {images : List BucketImage} (count : images.length < 2 ^ 32)
    (pool : payloads.length < 2 ^ 32) (small : ∀ p ∈ payloads, p.length < 2 ^ 32)
    (short : ∀ image ∈ images, ShortBucket payloads image)
    (valid : ∀ image ∈ images, validIds image.graph = true) :
    loadGraphBinBucketsStreamed mapped (fun _ _ => true) (bucketsFile content payloads images) =
      (true, deliveries images.length 0 images) := by
  obtain ⟨blobs, start, holds, split, -, reached⟩ :=
    loadScan_bucketsFile mapped (fun _ _ => true) content count pool small
  have delivered := readBuckets_spec mapped holds images.length images short valid 0 [] split
  rw [loadGraphBinBucketsStreamed, reached, delivered, nil_append]

/-! ## Saving and loading -/

theorem length_internBuckets (pool : Pool) (buckets : List Graph) :
    (internBuckets pool buckets).2.length = buckets.length := by
  induction buckets generalizing pool with
  | nil => rfl
  | cons g buckets ih => simp only [internBuckets, length_cons, ih]

/-- What is written for several buckets, as the images the loader reads back. -/
theorem saveGraphBinBuckets_several {buckets : List Graph} (names : List Str)
    (several : 1 < buckets.length) :
    ∃ content, saveGraphBinBuckets buckets names =
      some (bucketsFile content (internBuckets {} buckets).1.payloads
        (images names buckets (internBuckets {} buckets).2)) := by
  unfold bucketsFile
  rw [length_images names (length_internBuckets {} buckets)]
  match buckets, several with
  | g :: h :: rest, _ =>
    rw [images, flatMap_map]
    exact ⟨_, rfl⟩

theorem internBuckets_short {buckets : List Graph} (short : ∀ g ∈ buckets, ShortPayloads g) :
    ∀ p ∈ (internBuckets {} buckets).1.payloads, p.length < 2 ^ 32 := by
  intro p mem
  rcases internBuckets_mem {} buckets p mem with old | ⟨g, inside, kv, entry, rfl⟩
  · cases old
  · exact short g inside kv entry

/-- What comes back for a list of buckets with short payloads and valid ids: the buckets as
stored, under their names when there are several. -/
theorem load_saved (mapped : Bool) {buckets : List Graph} {names : List Str}
    (nonempty : buckets ≠ []) (short : ShortBuckets buckets names)
    (payloads : ∀ g ∈ buckets, ShortPayloads g) (valid : ∀ g ∈ buckets, validIds g = true) :
    ∃ file seen, saveGraphBinBuckets buckets names = some file ∧
      loadGraphBinBucketsStreamed mapped (fun _ _ => true) file = (true, seen) ∧
      seen.map (·.graph) = buckets.map storedGraph ∧
      (1 < buckets.length →
        seen.map (·.name) = (List.range buckets.length).map (bucketName names)) := by
  by_cases several : 1 < buckets.length
  · have sameLength := length_internBuckets {} buckets
    have sameCount := length_images names sameLength
    have loaded := fun content => load_images mapped content (sameCount ▸ short.count)
      short.pool (internBuckets_short payloads) (shortBucket_images short)
      fun image mem => valid _ (mem_images short.pool mem).1
    obtain ⟨content, saved⟩ := saveGraphBinBuckets_several names several
    refine ⟨_, _, saved, loaded content, ?_, fun _ => ?_⟩
    · rw [map_graph_deliveries, map_graph_images sameLength]
    · rw [map_name_deliveries, map_name_images sameLength]
  · match buckets, nonempty, several with
    | [], nonempty, _ => exact absurd rfl nonempty
    | [g], _, several =>
      have here : g ∈ [g] := mem_cons_self
      refine ⟨saveGraphBin g, [⟨storedGraph g, [], 0, 1⟩], rfl, ?_, rfl, fun more => ?_⟩
      · exact load_single_valid mapped _ (short.tables g here) (payloads g here) (valid g here)
      · exact absurd more several
    | _ :: _ :: _, _, several => exact absurd (by simp) several

theorem load_saveGraphBinBuckets (mapped : Bool) {buckets : List Graph} {names : List Str}
    (storable : StorableBuckets buckets names) :
    ∃ file seen, saveGraphBinBuckets buckets names = some file ∧
      loadGraphBinBucketsStreamed mapped (fun _ _ => true) file = (true, seen) ∧
      seen.map (·.graph) = buckets.map storedGraph ∧
      (1 < buckets.length →
        seen.map (·.name) = (List.range buckets.length).map (bucketName names)) :=
  load_saved mapped storable.nonempty storable.short
    (fun g mem => (storable.graph g mem).payloads)
    fun g mem => (storable.graph g mem).validIds

/-- Two tensors agree on what a model file is to keep. -/
structure SameTensor (t t' : TensorDesc) : Prop where
  name : t'.name = t.name
  shape : t'.shape = t.shape
  dtype : t'.dtype = t.dtype
  format : t'.format = t.format
  isInput : t'.isInput = t.isInput
  isOutput : t'.isOutput = t.isOutput
  isInitializer : t'.isInitializer = t.isInitializer

/-- Two graphs are the same model: tensors, nodes with everything they carry, inputs, outputs,
and the payload of every constant. -/
structure SameModel (g g' : Graph) : Prop where
  tensors : List.Forall₂ SameTensor g.tensors g'.tensors
  nodes : g'.nodes = g.nodes
  inputs : g'.inputs = g.inputs
  outputs : g'.outputs = g.outputs
  initializers : g'.initializers = g.initializers

/-- Writing buckets and reading the file back succeeds and returns the same models, under the
same names when there are several. -/
def RoundTrips (mapped : Bool) (buckets : List Graph) (names : List Str) : Prop :=
  ∃ file seen, saveGraphBinBuckets buckets names = some file ∧
    loadGraphBinBucketsStreamed mapped (fun _ _ => true) file = (true, seen) ∧
    List.Forall₂ SameModel buckets (seen.map (·.graph)) ∧
    (1 < buckets.length → seen.map (·.name) = (List.range buckets.length).map (bucketName names))

/-- No attribute of any node carries a tensor shape. -/
def NoAttrShapes (g : Graph) : Prop :=
  ∀ n ∈ g.nodes, ∀ (k : Str) (a : Attr), n.attr.map[k]? = some a → a.shape = []

theorem sameTensor_stored (t : TensorDesc) : SameTensor t (storedTensor t) :=
  ⟨rfl, rfl, rfl, rfl, rfl, rfl, rfl⟩

theorem storedNode_eq_iff (n : Node) :
    storedNode n = n ↔ ∀ (k : Str) (a : Attr), n.attr.map[k]? = some a → a.shape = [] := by
  have onlyMap : storedNode n = n ↔ n.attr.map.map (fun _ a => storedAttr a) = n.attr.map := by
    constructor
    · intro same
      exact congrArg (fun m : Node => m.attr.map) same
    · intro same
      unfold storedNode
      rw [same]
  rw [onlyMap]
  constructor
  · intro same k a held
    have stored : (n.attr.map.map fun _ a => storedAttr a)[k]? = some a := by rw [same, held]
    rw [Std.ExtTreeMap.getElem?_map, held, Option.map_some, Option.some.injEq] at stored
    rw [← stored]
    rfl
  · intro shapes
    refine Std.ExtTreeMap.ext_getElem? fun k => ?_
    rw [Std.ExtTreeMap.getElem?_map]
    cases held : n.attr.map[k]? with
    | none => rfl
    | some a =>
      have shapeless := shapes k a held
      cases a
      subst shapeless
      rfl

/-- A stored graph is the same model exactly when no attribute shape was dropped. -/
theorem sameModel_stored_iff (g : Graph) : SameModel g (storedGraph g) ↔ NoAttrShapes g := by
  have nodes : (storedGraph g).nodes = g.nodes ↔ NoAttrShapes g := by
    change g.nodes.map storedNode = g.nodes ↔ _
    unfold NoAttrShapes
    simp only [← storedNode_eq_iff]
    constructor
    · intro same n mem
      obtain ⟨i, small, rfl⟩ := getElem_of_mem mem
      have here := congrArg (fun nodes => nodes[i]?) same
      simpa [small] using here
    · intro same
      conv_rhs => rw [← map_id g.nodes]
      exact map_congr_left same
  constructor
  · exact fun same => nodes.mp same.nodes
  · intro shapes
    refine ⟨?_, nodes.mpr shapes, rfl, rfl, rfl⟩
    change List.Forall₂ SameTensor g.tensors (g.tensors.map storedTensor)
    rw [forall₂_map_right_iff]
    exact forall₂_same.mpr fun t _ => sameTensor_stored t

theorem sameModels_stored_iff {buckets : List Graph} {seen : List Delivery}
    (graphs : seen.map (·.graph) = buckets.map storedGraph) :
    List.Forall₂ SameModel buckets (seen.map (·.graph)) ↔ ∀ g ∈ buckets, NoAttrShapes g := by
  rw [graphs, forall₂_map_right_iff, forall₂_same]
  exact forall₂_congr fun g _ => sameModel_stored_iff g

/-- A round trip leaves no attribute shape behind. -/
theorem noAttrShapes_of_roundTrips (mapped : Bool) {buckets : List Graph} {names : List Str}
    (storable : StorableBuckets buckets names) (trips : RoundTrips mapped buckets names) :
    ∀ g ∈ buckets, NoAttrShapes g := by
  obtain ⟨file, seen, saved, loaded, graphs, _⟩ := load_saveGraphBinBuckets mapped storable
  obtain ⟨file', seen', saved', loaded', models, _⟩ := trips
  obtain rfl := Option.some.inj (saved.symm.trans saved')
  have sameSeen : seen' = seen := congrArg Prod.snd (loaded'.symm.trans loaded)
  rw [sameSeen] at models
  exact (sameModels_stored_iff graphs).mp models

/-- **A model file round-trips exactly when no node carries a tensor-valued attribute's shape.**
For every storable list of buckets the load succeeds and everything else comes back, including
each constant's own payload out of the shared pool. -/
theorem roundTrips_iff (mapped : Bool) {buckets : List Graph} {names : List Str}
    (storable : StorableBuckets buckets names) :
    RoundTrips mapped buckets names ↔ ∀ g ∈ buckets, NoAttrShapes g := by
  refine ⟨noAttrShapes_of_roundTrips mapped storable, fun shapeless => ?_⟩
  obtain ⟨file, seen, saved, loaded, graphs, named⟩ := load_saveGraphBinBuckets mapped storable
  exact ⟨file, seen, saved, loaded, (sameModels_stored_iff graphs).mpr shapeless, named⟩

/-! ## A constant loses its shape -/

/-- The value attribute of a constant node: two floats, and the shape of the tensor they fill. -/
def valueAttr (shape : Shape) : Attr :=
  { kind := .floats, floats := [⟨0x3f800000⟩, ⟨0x40000000⟩], shape }

def constantGraph (shape : Shape) : Graph where
  tensors := [{ name := str "y", shape := [1, 2], isOutput := true }]
  nodes := [{ type := .constant, outputs := [0],
              attr := ⟨(∅ : Std.ExtTreeMap Str Attr).insert (str "value") (valueAttr shape)⟩ }]
  outputs := [0]

/-- **A constant node saved with the shape of its value is loaded without it.** -/
theorem constantShape_lost : ¬ RoundTrips true [constantGraph [1, 2]] [] := by
  intro trips
  have shapeless := noAttrShapes_of_roundTrips true (by decide) trips
    (constantGraph [1, 2]) mem_cons_self _ mem_cons_self (str "value")
    (valueAttr [1, 2]) (by decide)
  cases shapeless

theorem roundTrips_constantList : RoundTrips true [constantGraph []] [] := by
  refine (roundTrips_iff true (by decide)).mpr fun g mem n inside k a held => ?_
  obtain rfl := mem_singleton.mp mem
  obtain rfl := mem_singleton.mp inside
  rw [Std.ExtTreeMap.getElem?_insert] at held
  split at held
  · rw [← Option.some.inj held]
    rfl
  · simp at held

end Vknn.ModelIo
