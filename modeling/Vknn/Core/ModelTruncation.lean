import Vknn.Core.ModelAcceptance

/-!
# Model files cut short

Every reader of a model file is steady: it never looks past the end of a file it
ends good on.  So a cut file that is accepted would be read the same way when the
rest is put back, and the cursor would stop before the rest.

On the whole file the cursor stops at the end, as long as every length the saver
writes is the length it means.  The saver narrows lengths to 32 bits while it
writes the bytes in full, so a constant of 2^32 bytes is announced as empty, and
the file that is cut off before its bytes is accepted without them.
-/

namespace Vknn.ModelIo

open Wire List Reader Std Scan Bool Nat Or Writer

/-! ## Fields, nodes and graph bodies -/

theorem steady_u32 : Steady u32 := (steady_block 4).bind fun _ => steady_pure _

theorem steady_i64 : Steady i64 := (steady_block 8).bind fun _ => steady_pure _

theorem steady_f32 : Steady f32 := (steady_block 4).bind fun _ => steady_pure _

theorem steady_narrowed : Steady narrowed := steady_i64.bind fun _ => steady_pure _

theorem steady_str : Steady Reader.str :=
  steady_u32.bind fun n => steady_whenRemaining (fails_fail []) (steady_block n)

theorem steady_vec {α : Type} (width : Nat) (elem : Bytes → α) : Steady (vec width elem) :=
  steady_u32.bind fun _ => steady_whenRemaining (fails_fail [])
    ((steady_block _).bind fun _ => steady_pure _)

theorem steady_readAttr : Steady readAttr := by
  unfold readAttr
  refine steady_u32.bind fun _ => steady_i64.bind fun _ => steady_f32.bind fun _ => ?_
  refine (steady_vec _ _).bind fun _ => (steady_vec _ _).bind fun _ => ?_
  exact steady_str.bind fun _ => steady_pure _

theorem steady_readTensor : Steady readTensor := by
  unfold readTensor
  refine steady_str.bind fun _ => (steady_vec _ _).bind fun _ => ?_
  exact steady_u32.bind fun _ => steady_u32.bind fun _ => steady_u32.bind fun _ => steady_pure _

theorem steady_readAttrs (n : Nat) (m : Std.ExtTreeMap Str Attr) : Steady (readAttrs n m) := by
  induction n generalizing m with
  | zero => exact steady_pure m
  | succ n ih =>
    refine steady_good.bind fun ok => ?_
    split
    · exact steady_str.bind fun _ => steady_readAttr.bind fun _ => ih _
    · exact steady_pure m

theorem steady_readNode : Steady readNode := by
  unfold readNode
  refine steady_u32.bind fun _ => steady_str.bind fun _ => ?_
  refine (steady_vec _ _).bind fun _ => (steady_vec _ _).bind fun _ => ?_
  refine steady_u32.bind fun _ => steady_f32.bind fun _ => steady_f32.bind fun _ => ?_
  refine steady_narrowed.bind fun _ => steady_narrowed.bind fun _ => steady_narrowed.bind fun _ => ?_
  refine steady_u32.bind fun na => steady_whenRemaining (fails_fail _) ?_
  exact (steady_readAttrs na ∅).bind fun _ => steady_pure _

theorem steady_readNodes (count : Nat) : Steady (readNodes count) := by
  induction count with
  | zero => exact steady_pure _
  | succ count ih =>
    refine steady_readNode.bind fun r => ?_
    dsimp only
    split
    · exact ih.bind fun _ => steady_pure _
    · exact steady_pure _

theorem steady_readGraphStructure : Steady readGraphStructure := by
  unfold readGraphStructure
  refine steady_u32.bind fun nt => steady_whenRemaining (fails_fail _) ?_
  refine (steady_times nt steady_readTensor).bind fun tensors => ?_
  refine steady_u32.bind fun nn => steady_whenRemaining (fails_fail _) ?_
  refine (steady_readNodes nn).bind fun r => ?_
  dsimp only
  split
  · refine (steady_vec _ _).bind fun inputs => (steady_vec _ _).bind fun outputs => ?_
    split
    · exact steady_pure _
    · exact steady_of_fails (fails_fail _)
  · exact steady_pure _

/-! ## Payloads -/

theorem run_inlineBlob (mapped : Bool) (n : Nat) (file : Bytes) (c : Cursor) :
    (inlineBlob mapped n).run file c = if mapped && c.pos + n ≤ file.length then
        ((file.drop c.pos).take n, { c with pos := c.pos + n })
      else (block n).run file c := by
  rw [inlineBlob, run_bind, run_bind, run_ite]
  simp only [run_bind, run_tell, run_size, run_peek, run_skip, run_pure]
  rfl

/-- A blob that is there in full is viewed in every longer file, and read in none of them only
when there is no mapping. -/
theorem steady_inlineBlob (mapped : Bool) (n : Nat) : Steady (inlineBlob mapped n) where
  sticky := sticky_inlineBlob mapped n
  same part c inside good := by
    rw [run_inlineBlob] at good ⊢
    split at good
    case isTrue view =>
      have room : c.pos + n ≤ part.length := by simp at view; exact view.2
      rw [if_pos view]
      refine ⟨fun rest => ?_, room⟩
      have longer : (mapped && decide (c.pos + n ≤ (part ++ rest).length)) = true := by
        simp only [and_eq_true, decide_eq_true_eq, length_append] at view ⊢
        exact ⟨view.1, by omega⟩
      rw [run_inlineBlob, if_pos longer, take_drop_append room]
    case isFalse unmapped =>
      obtain ⟨same, stays⟩ := (steady_block n).same part c inside good
      have ends := (block_full good).2.2
      rw [ends] at stays
      rw [if_neg unmapped]
      refine ⟨fun rest => ?_, by rw [ends]; exact stays⟩
      have never : mapped = false := by
        simpa [show c.pos + n ≤ part.length from stays] using unmapped
      rw [run_inlineBlob, never, Bool.false_and, if_neg Bool.false_ne_true, same rest]

theorem run_pooledBlob (mapped : Bool) (blobAt n : Nat) (file : Bytes) (c : Cursor) :
    (pooledBlob mapped blobAt n).run file c =
      if mapped && blobAt + n ≤ file.length then ((file.drop blobAt).take n, c)
      else if n = 0 then ([], c) else (block n).run file { c with pos := blobAt } := by
  rw [pooledBlob, run_bind, run_ite, run_ite]
  simp only [run_bind, run_size, run_peek, run_seek, run_pure]
  rfl

theorem steady_pooledBlob (mapped : Bool) (blobAt n : Nat) :
    Steady (pooledBlob mapped blobAt n) where
  sticky file c good := by
    rw [run_pooledBlob] at good
    split at good
    · exact good
    · split at good
      · exact good
      · exact sticky_block n file ⟨blobAt, c.ok⟩ good
  same part c inside good := by
    rw [run_pooledBlob] at good ⊢
    split at good
    case isTrue view =>
      have room : blobAt + n ≤ part.length := by simp at view; exact view.2
      rw [if_pos view]
      refine ⟨fun rest => ?_, inside⟩
      have longer : (mapped && decide (blobAt + n ≤ (part ++ rest).length)) = true := by
        simp only [and_eq_true, decide_eq_true_eq, length_append] at view ⊢
        exact ⟨view.1, by omega⟩
      rw [run_pooledBlob, if_pos longer, take_drop_append room]
    case isFalse unmapped =>
      rw [if_neg unmapped]
      split at good
      case isTrue empty =>
        rw [if_pos empty]
        refine ⟨fun rest => ?_, inside⟩
        rw [run_pooledBlob, if_pos empty, empty, take_zero, ite_self]
      case isFalse some_ =>
        rw [if_neg some_]
        have full := (block_full good).2.1
        simp only [length_take, length_drop] at full
        have room : blobAt + n ≤ part.length := by omega
        obtain ⟨same, stays⟩ := (steady_block n).same part ⟨blobAt, c.ok⟩
          (show blobAt ≤ part.length by omega) good
        refine ⟨fun rest => ?_, stays⟩
        have never : mapped = false := by simpa [room] using unmapped
        rw [run_pooledBlob, never, Bool.false_and, if_neg Bool.false_ne_true, if_neg some_, same rest]

theorem steady_readInlineInits (mapped : Bool) (n : Nat) (m : Initializers) :
    Steady (readInlineInits mapped n m) := by
  induction n generalizing m with
  | zero => exact steady_pure m
  | succ n ih =>
    refine steady_good.bind fun ok => ?_
    split
    · refine steady_narrowed.bind fun id => steady_u32.bind fun size => ?_
      refine steady_whenRemaining (fails_fail m) ?_
      exact (steady_inlineBlob mapped size).bind fun _ => ih _
    · exact steady_pure m

theorem steady_readSingle (mapped : Bool) : Steady (readSingle mapped) := by
  unfold readSingle
  refine steady_readGraphStructure.bind fun g => steady_u32.bind fun ni => ?_
  refine Steady.bind ?_ fun _ => steady_pure _
  exact steady_whenRemaining (fails_fail _) (steady_readInlineInits mapped ni ∅)

theorem steady_readBlobIndex (n : Nat) : Steady (readBlobIndex n) := by
  induction n with
  | zero => exact steady_pure []
  | succ n ih =>
    refine steady_good.bind fun ok => ?_
    split
    · refine steady_u32.bind fun size => ?_
      exact steady_pass (fails_fail _) fun pos => ih.bind fun _ => steady_pure _
    · exact steady_pure _

theorem steady_readRefs (n : Nat) : Steady (readRefs n) := by
  induction n with
  | zero => exact steady_pure []
  | succ n ih =>
    refine steady_good.bind fun ok => ?_
    split
    · exact steady_narrowed.bind fun _ => steady_u32.bind fun _ => ih.bind fun _ => steady_pure _
    · exact steady_pure _

theorem steady_attachPayloads (mapped : Bool) (blobs : List (Nat × Nat))
    (refs : List (TensorId × Nat)) (m : Initializers) :
    Steady (attachPayloads mapped blobs refs m) := by
  induction refs generalizing m with
  | nil => exact steady_pure m
  | cons ref refs ih =>
    have goesOn : ∀ hb : HostBuffer, Steady (good >>= fun ok =>
        if ok then attachPayloads mapped blobs refs (m.insert ref.1 hb) else pure m) := by
      refine fun hb => steady_good.bind fun ok => ?_
      split
      · exact ih _
      · exact steady_pure m
    rw [attachPayloads]
    split
    · exact (steady_pooledBlob mapped _ _).bind goesOn
    · exact (steady_pure []).bind goesOn

/-! ## Buckets -/

theorem steady_readBucketHead : Steady readBucketHead := by
  unfold readBucketHead
  refine steady_str.bind fun _ => steady_readGraphStructure.bind fun _ => ?_
  refine steady_u32.bind fun ni => Steady.bind ?_ fun _ => steady_pure _
  exact steady_whenRemaining (fails_fail _) (steady_readRefs ni)

theorem steady_readBucket (mapped : Bool) (blobs : List (Nat × Nat)) :
    Steady (readBucket mapped blobs) := by
  unfold readBucket
  refine steady_readBucketHead.bind fun head => steady_good.bind fun ok => ?_
  split
  · exact steady_return (steady_attachPayloads mapped blobs head.refs ∅) _
  · exact steady_pure _

theorem steady_readBuckets (mapped : Bool) (blobs : List (Nat × Nat)) (consume : Consumer)
    (nb left b : Nat) (seen : List Delivery) :
    Steady (readBuckets mapped blobs consume nb left b seen) := by
  induction left generalizing b seen with
  | zero => exact steady_good.bind fun _ => steady_pure _
  | succ left ih =>
    refine steady_good.bind fun ok => ?_
    split
    · refine (steady_readBucket mapped blobs).bind fun r => steady_good.bind fun ok => ?_
      dsimp only
      split
      · split
        · exact ih _ _
        · exact steady_pure _
      · exact steady_pure _
    · exact steady_pure _

theorem steady_readMagic : Steady readMagic := by
  refine steady_u32.bind fun magic => ?_
  split
  · exact steady_u32.bind fun _ => steady_pure _
  · exact steady_pure _

/-! ## An accepted load has ended good -/

theorem good_of_readBuckets (mapped : Bool) (blobs : List (Nat × Nat)) (consume : Consumer)
    (nb left b : Nat) (seen : List Delivery) (file : Bytes) (c : Cursor)
    (answer : ((readBuckets mapped blobs consume nb left b seen).run file c).1.1 = true) :
    ((readBuckets mapped blobs consume nb left b seen).run file c).2.ok = true := by
  induction left generalizing b seen c with
  | zero =>
    rw [readBuckets, run_good_bind] at answer ⊢
    exact answer
  | succ left ih =>
    rw [readBuckets, run_good_bind] at answer ⊢
    by_cases started : c.ok = true
    case neg =>
      rw [if_neg started] at answer
      exact absurd answer false_ne_true
    rw [if_pos started, run_bind] at answer ⊢
    dsimp only at answer ⊢
    rw [run_good_bind] at answer ⊢
    by_cases good : ((readBucket mapped blobs).run file c).2.ok = true
    case neg =>
      rw [if_neg good] at answer
      exact absurd answer false_ne_true
    rw [if_pos good] at answer ⊢
    split at answer
    case isTrue goesOn =>
      rw [if_pos goesOn]
      exact ih _ _ _ answer
    case isFalse stops =>
      rw [if_neg stops]
      exact good

/-- The loader behind the leading word of a single-graph file. -/
def singleScan (mapped : Bool) : Scan (Bool × List Delivery) := do
  let g ← readSingle mapped
  let ok ← good
  if ok then pure (true, [⟨g, [], 0, 1⟩]) else pure (false, [])

/-- The loader behind the leading word of a multi-graph file. -/
def pooledScan (mapped : Bool) (consume : Consumer) : Scan (Bool × List Delivery) := do
  let nb ← u32
  let np ← u32
  whenRemaining np (pure (false, [])) do
    let blobs ← readBlobIndex np
    readBuckets mapped blobs consume nb nb 0 []

theorem loadScan_eq (mapped : Bool) (consume : Consumer) :
    loadScan mapped consume = readMagic >>= fun magic =>
      if magic = kMagic then singleScan mapped
      else if magic = kMagic4 then pooledScan mapped consume else pure (false, []) :=
  rfl

theorem steady_singleScan (mapped : Bool) : Steady (singleScan mapped) := by
  refine (steady_readSingle mapped).bind fun g => steady_good.bind fun ok => ?_
  split
  · exact steady_pure _
  · exact steady_pure _

variable {file : Bytes} {g : Graph} {payloads : List Bytes} {blobs : List (Nat × Nat)}
  {names : List Str}

variable {c : Cursor} {part rest : Bytes} {image : BucketImage} {pos : Nat} {buckets : List Graph}
  {front : List (TensorId × HostBuffer)} {k : TensorId} {p : HostBuffer}

theorem good_of_singleScan (mapped : Bool)
    (answer : ((singleScan mapped).run file c).1.1 = true) :
    (singleScan mapped).run file c = ((true, [⟨((readSingle mapped).run file c).1, [], 0, 1⟩]),
          ((readSingle mapped).run file c).2) ∧
      ((readSingle mapped).run file c).2.ok = true := by
  rw [singleScan, run_bind, run_good_bind] at answer ⊢
  by_cases good : ((readSingle mapped).run file c).2.ok = true
  · rw [if_pos good]
    exact ⟨rfl, good⟩
  · rw [if_neg good] at answer
    exact absurd answer false_ne_true

theorem steady_indexed (mapped : Bool) (consume : Consumer) (nb np : Nat) :
    Steady (readBlobIndex np >>= fun blobs => readBuckets mapped blobs consume nb nb 0 []) :=
  (steady_readBlobIndex np).bind fun blobs => steady_readBuckets mapped blobs consume nb nb 0 []

theorem sticky_checked (mapped : Bool) (consume : Consumer) (nb np : Nat) :
    Sticky (whenRemaining np (pure (false, [])) (readBlobIndex np >>= fun blobs =>
      readBuckets mapped blobs consume nb nb 0 [])) :=
  sticky_whenRemaining np (sticky_pure _) (steady_indexed mapped consume nb np).sticky

theorem sticky_pooledScan (mapped : Bool) (consume : Consumer) :
    Sticky (pooledScan mapped consume) :=
  sticky_u32.bind fun nb => sticky_u32.bind fun np => sticky_checked mapped consume nb np

/-- A multi-graph file is accepted behind a credible pool count, by a good end of its buckets. -/
theorem good_of_pooledScan (mapped : Bool) (consume : Consumer)
    (answer : ((pooledScan mapped consume).run part c).1.1 = true) :
    ((pooledScan mapped consume).run part c).2.ok = true ∧
      (c.pos ≤ part.length → Steadily (pooledScan mapped consume) part c) := by
  have credible := answer
  rw [pooledScan, run_bind, run_bind, run_whenRemaining] at credible
  split at credible
  case isTrue short => exact absurd credible false_ne_true
  case isFalse enough =>
    refine ⟨?_, fun inside => ?_⟩
    · rw [pooledScan, run_bind, run_bind, run_whenRemaining, if_neg enough]
      rw [run_bind] at credible ⊢
      exact good_of_readBuckets _ _ _ _ _ _ _ _ _ credible
    · refine (steady_u32.same part c inside).bind
        (sticky_u32.bind fun np => sticky_checked mapped consume _ np) fun insideCount => ?_
      refine (steady_u32.same part _ insideCount).bind (sticky_checked mapped consume _ _)
        fun insidePool => ?_
      exact steadily_whenRemaining enough
        ((steady_indexed mapped consume _ _).same part _ insidePool)

/-- **The loader has looked at nothing behind the end of a file it accepts.** -/
theorem loadScan_steadily (mapped : Bool) (consume : Consumer)
    (answer : ((loadScan mapped consume).run part ⟨0, true⟩).1.1 = true) :
    ((loadScan mapped consume).run part ⟨0, true⟩).2.ok = true ∧
      Steadily (loadScan mapped consume) part ⟨0, true⟩ := by
  have magic := steady_readMagic.same part ⟨0, true⟩ (zero_le _)
  rw [loadScan_eq, run_bind] at answer ⊢
  by_cases single : (readMagic.run part ⟨0, true⟩).1 = kMagic
  · rw [if_pos single] at answer ⊢
    obtain ⟨run, good⟩ := good_of_singleScan mapped answer
    refine ⟨by rw [run]; exact good, magic.bind ?_ ?_⟩
    · rw [if_pos single]
      exact (steady_singleScan mapped).sticky
    · rw [if_pos single]
      exact (steady_singleScan mapped).same part _
  rw [if_neg single] at answer ⊢
  by_cases pooled : (readMagic.run part ⟨0, true⟩).1 = kMagic4
  · rw [if_pos pooled] at answer ⊢
    obtain ⟨good, steadily⟩ := good_of_pooledScan mapped consume answer
    refine ⟨good, magic.bind ?_ ?_⟩
    · rw [if_neg single, if_pos pooled]
      exact sticky_pooledScan mapped consume
    · rw [if_neg single, if_pos pooled]
      exact steadily
  · rw [if_neg pooled] at answer
    exact absurd answer false_ne_true

/-! ## Where the whole file ends -/

/-- The consumer has refused what it was handed last. -/
def Stopped (consume : Consumer) (seen : List Delivery) : Prop :=
  ∃ front last, seen = front ++ [last] ∧ consume front last = false

/-- What an accepted load of a whole file looks like: the consumer has ended it, or everything
was handed over and the cursor is at the end. -/
def EndsWith (consume : Consumer) (file : Bytes) (all : List Delivery)
    (run : (Bool × List Delivery) × Cursor) : Prop :=
  run.1.1 = true → Stopped consume run.1.2 ∨ run.1.2 = all ∧ run.2.pos = file.length

/-- A single-graph body is read back as stored, if it is read at all. -/
theorem lands_single (mapped : Bool) (tables : ShortTables g)
    (payloads : ShortPayloads g) :
    Lands (readSingle mapped) (writeSingle g) (storedGraph g) := by
  refine (readsTo_graphStructure tables).lands.bind (fun g => ?_)
    (reads_initTable mapped tables payloads fun initializers =>
      { storedGraph g with initializers }).lands
  refine sticky_u32.bind fun ni => Sticky.bind ?_ fun _ => sticky_pure _
  exact (steady_whenRemaining (fails_fail _) (steady_readInlineInits mapped ni ∅)).sticky

theorem endsWith_single (mapped : Bool) (consume : Consumer)
    (tables : ShortTables g) (payloads : ShortPayloads g) :
    EndsWith consume (saveGraphBin g) [⟨storedGraph g, [], 0, 1⟩]
      ((loadScan mapped consume).run (saveGraphBin g) ⟨0, true⟩) := by
  intro answer
  right
  generalize whole : saveGraphBin g = file at answer ⊢
  have split0 : file.drop 0 = containerWords (graphQuantContent g) kMagic kSubBodyVxm3 ++
      (writeSingle g ++ []) := by
    rw [drop_zero, ← whole, saveGraphBin_eq, append_nil]
  have size := congrArg List.length split0
  simp only [drop_zero, length_append, length_nil] at size
  have magicRead := reads_magic _ _ _ (inl ⟨rfl, rfl⟩) file 0 _ split0
  rw [loadScan_eq, run_bind, magicRead, if_pos rfl] at answer ⊢
  obtain ⟨run, good⟩ := good_of_singleScan mapped answer
  have landed := lands_single mapped tables payloads file _ [] (drop_add_of_drop split0) good
  rw [run, landed]
  refine ⟨rfl, ?_⟩
  dsimp only
  omega

/-- One bucket is read back as stored, if it is read at all. -/
theorem lands_bucketHead
    (short : ShortBucket payloads image) : Lands readBucketHead image.bytes image.head := by
  rw [image.bytes_eq]
  refine (reads_str short.name).lands.bind (fun name => ?_) ?_
  · refine steady_readGraphStructure.sticky.bind fun g => sticky_u32.bind fun ni => ?_
    refine Sticky.bind ?_ fun _ => sticky_pure _
    exact (steady_whenRemaining (fails_fail _) (steady_readRefs ni)).sticky
  refine (readsTo_graphStructure short.tables).lands.bind (fun g => ?_) ?_
  · refine sticky_u32.bind fun ni => Sticky.bind ?_ fun _ => sticky_pure _
    exact (steady_whenRemaining (fails_fail _) (steady_readRefs ni)).sticky
  · exact (reads_refTable short _).lands

theorem PoolHolds.inside
    (holds : PoolHolds file blobs payloads) :
    ∀ blob ∈ blobs, blob.1 + blob.2 ≤ file.length := by
  induction holds with
  | nil => simp
  | cons points _ ih =>
    intro blob mem
    rcases mem_cons.mp mem with rfl | later
    · exact points.inside
    · exact ih blob later

/-- A bucket that ends good is read back as stored. -/
theorem readBucket_lands (mapped : Bool)
    (holds : PoolHolds file blobs payloads)
    (short : ShortBucket payloads image)
    (split : file.drop pos = image.bytes ++ rest)
    (good : ((readBucket mapped blobs).run file ⟨pos, true⟩).2.ok = true) :
    (readBucket mapped blobs).run file ⟨pos, true⟩ =
      ((image.name, storedGraph image.graph), ⟨pos + image.bytes.length, true⟩) := by
  rw [(readBucket_inside mapped holds.inside _).1] at good
  exact readBucket_of_head mapped holds short
    (lands_bucketHead short file pos rest split good)

/-- **The buckets of a file are delivered as stored, up to where the consumer or an id ends
the load.** -/
theorem readBuckets_ends (mapped : Bool) (consume : Consumer)
    (holds : PoolHolds file blobs payloads)
    (count : Nat) (images : List BucketImage) (short : ∀ image ∈ images, ShortBucket payloads image)
    (b : Nat) (seen : List Delivery)
    (split : file.drop pos = images.flatMap BucketImage.bytes ++ rest)
    (answer : ((readBuckets mapped blobs consume count images.length b seen).run file
      ⟨pos, true⟩).1.1 = true) :
    Stopped consume ((readBuckets mapped blobs consume count images.length b seen).run file
        ⟨pos, true⟩).1.2 ∨
      ((readBuckets mapped blobs consume count images.length b seen).run file ⟨pos, true⟩).1.2 =
          seen ++ deliveries count b images ∧
        ((readBuckets mapped blobs consume count images.length b seen).run file ⟨pos, true⟩).2.pos =
          pos + (images.flatMap BucketImage.bytes).length := by
  induction images generalizing b seen pos with
  | nil => exact inr (by simp [readBuckets, deliveries])
  | cons image images ih =>
    rw [flatMap_cons, append_assoc] at split
    rw [length_cons, readBuckets, run_good_bind, if_pos rfl, run_bind] at answer ⊢
    dsimp only at answer ⊢
    rw [run_good_bind] at answer ⊢
    by_cases good : ((readBucket mapped blobs).run file ⟨pos, true⟩).2.ok = true
    case neg =>
      rw [if_neg good] at answer
      exact absurd answer false_ne_true
    have here := readBucket_lands mapped holds (short image mem_cons_self) split good
    have later : file.drop (pos + image.bytes.length) =
        images.flatMap BucketImage.bytes ++ rest := by
      rw [← drop_drop, split, drop_left]
    rw [here, if_pos rfl] at answer ⊢
    by_cases goesOn : consume seen ⟨storedGraph image.graph, image.name, b, count⟩ = true
    · rw [if_pos goesOn] at answer ⊢
      rcases ih (fun i mem => short i (mem_cons_of_mem _ mem)) (b + 1) _ later answer
        with stopped | ⟨delivered, ends⟩
      · exact inl stopped
      · refine inr ⟨?_, ?_⟩
        · rw [delivered, deliveries, append_assoc, singleton_append]
        · rw [ends, flatMap_cons, length_append, add_assoc]
    · rw [if_neg goesOn]
      exact inl ⟨seen, _, rfl, by simpa using goesOn⟩

/-! ## Saved files -/

/-- **An accepted load of a saved file has seen the end of it**, or its consumer stopped it. -/
theorem endsWith_saved (mapped : Bool) (consume : Consumer)
    (short : ShortBuckets buckets names)
    (payloads : ∀ g ∈ buckets, ShortPayloads g)
    (saved : saveGraphBinBuckets buckets names = some file) :
    ∃ all, all.map (·.graph) = buckets.map storedGraph ∧
      EndsWith consume file all ((loadScan mapped consume).run file ⟨0, true⟩) := by
  by_cases several : 1 < buckets.length
  · have sameLength := length_internBuckets {} buckets
    have sameCount := length_images names sameLength
    obtain ⟨content, written⟩ := saveGraphBinBuckets_several names several
    obtain rfl := Option.some.inj (written.symm.trans saved)
    obtain ⟨blobs, start, holds, split, ends, reached⟩ := loadScan_bucketsFile mapped consume
      content (sameCount.symm ▸ short.count) short.pool (internBuckets_short payloads)
    refine ⟨deliveries (images names buckets (internBuckets {} buckets).2).length 0
      (images names buckets (internBuckets {} buckets).2), ?_, ?_⟩
    · rw [map_graph_deliveries, map_graph_images sameLength]
    · intro answer
      rw [reached] at answer ⊢
      rcases readBuckets_ends mapped consume holds _ _ (shortBucket_images short) 0 [] split answer
        with stopped | ⟨delivered, atEnd⟩
      · exact inl stopped
      · exact inr ⟨delivered, atEnd.trans ends⟩
  · match buckets, several with
    | [], _ => exact absurd saved (by simp [saveGraphBinBuckets])
    | [g], _ =>
      obtain rfl := Option.some.inj saved
      exact ⟨_, rfl, endsWith_single mapped consume (short.tables g mem_cons_self)
        (payloads g mem_cons_self)⟩
    | _ :: _ :: _, several => exact absurd (by simp) several

/-- **A saved file that is cut short is refused**: on every strict prefix the loader answers
false, or the caller itself has ended the stream at a bucket that was handed over whole. -/
def RejectsPrefixes (mapped : Bool) (buckets : List Graph) (names : List Str) : Prop :=
  ∀ file, saveGraphBinBuckets buckets names = some file →
    ∀ part rest : Bytes, part ++ rest = file → rest ≠ [] → ∀ consume,
      (loadGraphBinBucketsStreamed mapped consume part).1 = false ∨
        Stopped consume (loadGraphBinBucketsStreamed mapped consume part).2

/-- **Cut files are refused when every length the saver writes fits its 32-bit word.** -/
theorem rejectsPrefixes_of_short (mapped : Bool)
    (short : ShortBuckets buckets names) (payloads : ∀ g ∈ buckets, ShortPayloads g) :
    RejectsPrefixes mapped buckets names := by
  intro file saved part rest joined cut consume
  obtain ⟨all, -, ends⟩ := endsWith_saved mapped consume short payloads saved
  cases answer : (loadGraphBinBucketsStreamed mapped consume part).1 with
  | false => exact inl rfl
  | true =>
    obtain ⟨good, steadily⟩ := loadScan_steadily mapped consume answer
    obtain ⟨same, inside⟩ := steadily good
    rw [← joined, EndsWith, same rest] at ends
    rcases ends answer with stopped | ⟨-, atEnd⟩
    · exact inr stopped
    · have longer := length_pos_iff.mpr cut
      rw [length_append] at atEnd
      omega

/-! ## A payload that does not fit its length word -/

/-- The graph whose payloads are as long as their length words say. -/
def announced (g : Graph) : Graph :=
  { g with initializers := g.initializers.map fun _ p => p.take (p.length % 2 ^ 32) }

theorem leBytes_mod (width n : Nat) : leBytes width (n % 256 ^ width) = leBytes width n := by
  induction width generalizing n with
  | zero => rfl
  | succ width ih =>
    have low : UInt8.ofNat (n % 256 ^ (width + 1)) = UInt8.ofNat n := by
      rw [← UInt8.toNat_inj, UInt8.toNat_ofNat', UInt8.toNat_ofNat', pow_succ']
      exact mod_mul_right_mod n 256 (256 ^ width)
    have high : n % 256 ^ (width + 1) / 256 = n / 256 % 256 ^ width := by
      rw [pow_succ', mod_mul_right_div_self]
    rw [leBytes, leBytes, low, high, ih]

/-- A blob is the blob its length word announces, and what is left of its bytes. -/
theorem blob_announced (p : Bytes) :
    blob p = blob (p.take (p.length % 2 ^ 32)) ++ p.drop (p.length % 2 ^ 32) := by
  have wrapped : (p.take (p.length % 2 ^ 32)).length = p.length % 2 ^ 32 := by
    rw [length_take]
    exact min_eq_left (mod_le _ _)
  have word : u32 (p.length % 2 ^ 32) = u32 p.length := leBytes_mod 4 p.length
  simp only [blob, emit, flatten_cons, flatten_nil, append_nil, wrapped, word,
    append_assoc, take_append_drop]

theorem tables_announced (tables : ShortTables g) : ShortTables (announced g) where
  tensors := tables.tensors
  tensor := tables.tensor
  nodes := tables.nodes
  node := tables.node
  inputs := tables.inputs
  outputs := tables.outputs
  initializers := by
    rw [announced, ExtTreeMap.size_map]
    exact tables.initializers
  key kv mem := by
    rw [announced, ExtTreeMap.toList_map] at mem
    obtain ⟨entry, inside, rfl⟩ := mem_map.mp mem
    exact tables.key entry inside

theorem payloads_announced (g : Graph) : ShortPayloads (announced g) := by
  intro kv mem
  rw [announced, ExtTreeMap.toList_map] at mem
  obtain ⟨entry, inside, rfl⟩ := mem_map.mp mem
  rw [length_take]
  exact (Nat.min_le_left _ _).trans_lt (Nat.mod_lt _ (Nat.two_pow_pos 32))

/-- A file whose last payload alone is long begins with the file that announces it cut. -/
theorem saveGraphBin_announced
    (last : g.initializers.toList = front ++ [(k, p)])
    (before : ∀ kv ∈ front, kv.2.length < 2 ^ 32) :
    saveGraphBin g = saveGraphBin (announced g) ++ p.drop (p.length % 2 ^ 32) := by
  have same : front.map (fun kv => (kv.1, kv.2.take (kv.2.length % 2 ^ 32))) = front := by
    conv_rhs => rw [← map_id front]
    refine map_congr_left fun kv mem => ?_
    rw [mod_eq_of_lt (before kv mem), take_length]
    rfl
  have entries : (announced g).initializers.toList =
      front ++ [(k, p.take (p.length % 2 ^ 32))] := by
    rw [announced, ExtTreeMap.toList_map, last, map_append, same]
    rfl
  have size : (announced g).initializers.size = g.initializers.size := ExtTreeMap.size_map
  have structure_ : writeGraphStructure (announced g) = writeGraphStructure g := rfl
  have content : graphQuantContent (announced g) = graphQuantContent g := rfl
  rw [saveGraphBin_eq, saveGraphBin_eq, writeSingle, writeSingle, structure_, content, size, last,
    entries]
  simp only [flatMap_append, flatMap_cons, flatMap_nil, append_nil, emit,
    flatten_cons, flatten_nil, append_assoc]
  rw [blob_announced p]

/-- **A long last payload is cut off unnoticed**: where every constant before the last is short,
cut files are refused only if the last one is short too. -/
theorem short_of_rejectsPrefixes (mapped : Bool)
    (tables : ShortTables g) (valid : validIds g = true)
    (last : g.initializers.toList = front ++ [(k, p)])
    (before : ∀ kv ∈ front, kv.2.length < 2 ^ 32) (rejects : RejectsPrefixes mapped [g] names) :
    p.length < 2 ^ 32 := by
  by_contra long
  have cut : p.drop (p.length % 2 ^ 32) ≠ [] := by
    have small := Nat.mod_lt p.length (Nat.two_pow_pos 32)
    rw [← length_pos_iff, length_drop]
    omega
  have loaded := load_single_valid mapped (fun _ _ => true) (tables_announced tables)
    (payloads_announced g) valid
  have joined := (saveGraphBin_announced last before).symm
  rcases rejects _ rfl _ _ joined cut fun _ _ => true with refused | ⟨front, final, -, stops⟩
  · rw [loaded] at refused
    exact false_ne_true refused.symm
  · exact false_ne_true stops.symm

/-- **A cut file is refused wherever every length fits its word, and the last word counts.**  With
short names and tables, payloads shorter than 2^32 are enough for any number of buckets.  For a
single graph with valid ids whose constants but the last are short, the last must be short too. -/
theorem rejectsPrefixes_of_fits (mapped : Bool) {buckets : List Graph} {names : List Str}
    (short : ShortBuckets buckets names) :
    ((∀ g ∈ buckets, ShortPayloads g) → RejectsPrefixes mapped buckets names) ∧
      ∀ (g : Graph) (front : List (TensorId × HostBuffer)) (k : TensorId) (p : HostBuffer),
        buckets = [g] → validIds g = true → g.initializers.toList = front ++ [(k, p)] →
          (∀ kv ∈ front, kv.2.length < 2 ^ 32) →
            (RejectsPrefixes mapped buckets names ↔ p.length < 2 ^ 32) := by
  refine ⟨rejectsPrefixes_of_short mapped short, ?_⟩
  rintro g front k p rfl valid last before
  refine ⟨short_of_rejectsPrefixes mapped (short.tables g mem_cons_self) valid last before,
    fun small => rejectsPrefixes_of_short mapped short fun h mem => ?_⟩
  obtain rfl := mem_singleton.mp mem
  intro kv entry
  rw [last] at entry
  rcases mem_append.mp entry with early | final
  · exact before kv early
  · rw [mem_singleton.mp final]
    exact small

def weightGraph (payload : HostBuffer) : Graph where
  tensors := [{ name := str "w", shape := [payload.length], dtype := .uint8, isInitializer := true }]
  outputs := [0]
  initializers := (∅ : Initializers).insert 0 payload

theorem rejectsPrefixes_weights : RejectsPrefixes true [weightGraph [1, 2, 3, 4], weightGraph [5]]
    [str "prefill", str "decode"] :=
  (rejectsPrefixes_of_fits true (by decide)).1 (by decide)

theorem weightGraph_entries (payload : HostBuffer) :
    (weightGraph payload).initializers.toList = [] ++ [(0, payload)] :=
  rfl

theorem tables_weightGraph {payload : HostBuffer} (fits : FitsSigned 8 payload.length) :
    ShortTables (weightGraph payload) where
  tensors := by simp [weightGraph]
  tensor t mem := by
    obtain rfl := mem_singleton.mp mem
    have name : (str "w").length < 2 ^ 32 := by decide
    have shape : ∀ v ∈ [(payload.length : Int)], FitsSigned 8 v := by simpa using fits
    exact ⟨name, by simp, shape, by simp [DType.code], by simp [TensorFormat.code]⟩
  nodes := by simp [weightGraph]
  node n mem := by cases mem
  inputs := ⟨by simp [weightGraph], by simp [weightGraph]⟩
  outputs := ⟨by simp [weightGraph], by simp [weightGraph, FitsSigned]⟩
  initializers := by
    rw [← ExtTreeMap.length_toList, weightGraph_entries]
    norm_num
  key kv mem := by
    rw [weightGraph_entries] at mem
    obtain rfl := mem_singleton.mp mem
    have zero : FitsSigned 4 0 := by decide
    exact zero

/-- **A model with a constant of 2^32 bytes loads without them** from a file that was cut off
before them. -/
theorem longWeight_cutOff :
    ¬ RejectsPrefixes true [weightGraph (List.replicate (2 ^ 32) 0)] [] := by
  intro rejects
  have tables : ShortTables (weightGraph (List.replicate (2 ^ 32) 0)) :=
    tables_weightGraph (by rw [length_replicate]; decide)
  have valid : validIds (weightGraph (List.replicate (2 ^ 32) 0)) = true := rfl
  have small := short_of_rejectsPrefixes true tables valid (weightGraph_entries _)
    (forall_mem_nil _) rejects
  rw [length_replicate] at small
  exact lt_irrefl _ small

end Vknn.ModelIo
