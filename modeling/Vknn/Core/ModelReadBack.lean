import Vknn.Core.ModelTruncation

/-!
# What the saver says it has written

The saver answers true for every graph it could open a file for.  Whether the
file can be read back is another matter.  The reader takes every payload's size
from a 32-bit word, so no payload of 2^32 bytes or more ever comes back, and it
refuses ids that the saver has not looked at.  Where names and tables are short
these are the only two ways to lose a saved model.
-/

namespace Vknn.ModelIo

open Wire List

/-! ## Loaded payloads are short -/

/-- Every payload of a table of constants is shorter than 2^32. -/
def ShortInits (m : Initializers) : Prop :=
  ∀ (id : TensorId) (hb : HostBuffer), m[id]? = some hb → hb.length < 2 ^ 32

theorem shortPayloads_iff (g : Graph) : ShortPayloads g ↔ ShortInits g.initializers := by
  constructor
  · exact fun short id hb held =>
      short (id, hb) (Std.ExtTreeMap.mem_toList_iff_getElem?_eq_some.mpr held)
  · exact fun short kv mem =>
      short kv.1 kv.2 (Std.ExtTreeMap.mem_toList_iff_getElem?_eq_some.mp mem)

theorem shortInits_empty : ShortInits ∅ := by
  intro id hb held
  simp at held

variable {m : Initializers} {blobs : List (Nat × Nat)} {buckets : List Graph}

theorem ShortInits.insert (short : ShortInits m) (id : TensorId)
    {hb : HostBuffer} (fits : hb.length < 2 ^ 32) : ShortInits (m.insert id hb) := by
  intro key payload held
  rw [Std.ExtTreeMap.getElem?_insert] at held
  split at held
  · rw [← Option.some.inj held]
    exact fits
  · exact short key payload held

theorem gives_u32 : Gives Reader.u32 fun n => n < 2 ^ 32 :=
  (gives_block 4).bind fun b four => gives_pure (by simpa [four] using leNat_lt b)

theorem gives_inlineBlob (mapped : Bool) (n : Nat) :
    Gives (inlineBlob mapped n) fun b => b.length ≤ n := by
  intro file c
  rw [run_inlineBlob]
  split
  · exact length_take_le n _
  · exact (gives_block n file c).le

theorem gives_pooledBlob (mapped : Bool) (blobAt n : Nat) :
    Gives (pooledBlob mapped blobAt n) fun b => b.length ≤ n := by
  intro file c
  rw [run_pooledBlob]
  split
  · exact length_take_le n _
  · split
    · exact Nat.zero_le n
    · exact (gives_block n file _).le

theorem gives_readInlineInits (mapped : Bool) (n : Nat) (short : ShortInits m) :
    Gives (readInlineInits mapped n m) ShortInits := by
  induction n generalizing m with
  | zero => exact gives_pure short
  | succ n ih =>
    refine gives_bind_of_forall fun ok => ?_
    split
    · refine gives_bind_of_forall fun id => gives_u32.bind fun size fits => ?_
      refine gives_whenRemaining (gives_bind_of_forall fun _ => gives_pure short) ?_
      exact (gives_inlineBlob mapped size).bind fun hb le =>
        ih (short.insert id (le.trans_lt fits))
    · exact gives_pure short

theorem gives_readSingle (mapped : Bool) :
    Gives (readSingle mapped) fun g => ShortInits g.initializers := by
  refine gives_bind_of_forall fun g => gives_bind_of_forall fun ni => ?_
  refine Gives.bind (gives_whenRemaining ?_ ?_) fun m short => gives_pure short
  · exact gives_bind_of_forall fun _ => gives_pure shortInits_empty
  · exact gives_readInlineInits mapped ni shortInits_empty

theorem gives_readBlobIndex (n : Nat) :
    Gives (readBlobIndex n) fun blobs => ∀ blob ∈ blobs, blob.2 < 2 ^ 32 := by
  have blank : ∀ n, ∀ blob ∈ List.replicate n ((0, 0) : Nat × Nat), blob.2 < 2 ^ 32 := by
    intro n blob mem
    rw [eq_of_mem_replicate mem]
    exact Nat.two_pow_pos 32
  induction n with
  | zero => exact gives_pure (forall_mem_nil _)
  | succ n ih =>
    refine gives_bind_of_forall fun ok => ?_
    split
    · refine gives_u32.bind fun size fits => gives_whenRemaining ?_ ?_
      · exact gives_bind_of_forall fun _ => gives_pure (blank _)
      · refine gives_bind_of_forall fun pos => gives_bind_of_forall fun _ => ?_
        exact ih.bind fun blobs short => gives_pure (forall_mem_cons.mpr ⟨fits, short⟩)
    · exact gives_pure (blank _)

theorem gives_attachPayloads (mapped : Bool)
    (sizes : ∀ blob ∈ blobs, blob.2 < 2 ^ 32) (refs : List (TensorId × Nat))
    (short : ShortInits m) : Gives (attachPayloads mapped blobs refs m) ShortInits := by
  induction refs generalizing m with
  | nil => exact gives_pure short
  | cons ref refs ih =>
    have goesOn : ∀ hb : HostBuffer, hb.length < 2 ^ 32 → Gives (Scan.good >>= fun ok =>
        if ok then attachPayloads mapped blobs refs (m.insert ref.1 hb) else pure m)
        ShortInits := by
      refine fun hb fits => gives_bind_of_forall fun ok => ?_
      split
      · exact ih (short.insert ref.1 fits)
      · exact gives_pure short
    rw [attachPayloads]
    split
    case h_1 blob found =>
      exact (gives_pooledBlob mapped _ _).bind fun hb le =>
        goesOn hb (le.trans_lt (sizes blob (mem_of_getElem? found)))
    case h_2 missing =>
      exact Gives.bind (gives_pure (Nat.two_pow_pos 32)) goesOn

theorem gives_readGraphStructure : Gives readGraphStructure fun g => g.initializers = ∅ := by
  refine gives_bind_of_forall fun nt => gives_whenRemaining ?_ ?_
  · exact gives_bind_of_forall fun _ => gives_pure rfl
  refine gives_bind_of_forall fun tensors => gives_bind_of_forall fun nn => ?_
  refine gives_whenRemaining (gives_bind_of_forall fun _ => gives_pure rfl) ?_
  refine gives_bind_of_forall fun r => ?_
  dsimp only
  split
  · refine gives_bind_of_forall fun inputs => gives_bind_of_forall fun outputs => ?_
    split
    · exact gives_pure rfl
    · exact gives_bind_of_forall fun _ => gives_pure rfl
  · exact gives_pure rfl

theorem gives_readBucketHead : Gives readBucketHead fun head => head.graph.initializers = ∅ :=
  gives_bind_of_forall fun _ => gives_readGraphStructure.bind fun _ bare =>
    gives_bind_of_forall fun _ => gives_bind_of_forall fun _ => gives_pure bare

theorem gives_readBucket (mapped : Bool)
    (sizes : ∀ blob ∈ blobs, blob.2 < 2 ^ 32) :
    Gives (readBucket mapped blobs) fun r => ShortInits r.2.initializers := by
  refine gives_readBucketHead.bind fun head bare => gives_bind_of_forall fun ok => ?_
  split
  · refine gives_bind_of_forall fun next => ?_
    refine (gives_attachPayloads mapped sizes head.refs shortInits_empty).bind fun m short => ?_
    exact gives_bind_of_forall fun _ => gives_pure short
  · refine gives_pure ?_
    dsimp only
    rw [bare]
    exact shortInits_empty

theorem gives_readBuckets (mapped : Bool)
    (sizes : ∀ blob ∈ blobs, blob.2 < 2 ^ 32) (consume : Consumer) (nb left b : Nat)
    {seen : List Delivery} (short : ∀ d ∈ seen, ShortInits d.graph.initializers) :
    Gives (readBuckets mapped blobs consume nb left b seen)
      fun r => ∀ d ∈ r.2, ShortInits d.graph.initializers := by
  induction left generalizing b seen with
  | zero => exact gives_bind_of_forall fun _ => gives_pure short
  | succ left ih =>
    refine gives_bind_of_forall fun ok => ?_
    split
    · refine (gives_readBucket mapped sizes).bind fun r bucket => ?_
      refine gives_bind_of_forall fun ok => ?_
      have grown : ∀ d ∈ seen ++ [(⟨r.2, r.1, b, nb⟩ : Delivery)],
          ShortInits d.graph.initializers := by
        intro d mem
        rcases mem_append.mp mem with old | new
        · exact short d old
        · rw [mem_singleton.mp new]
          exact bucket
      dsimp only
      split
      · split
        · exact ih _ grown
        · exact gives_pure grown
      · exact gives_pure short
    · exact gives_pure short

/-- **No load hands over a payload of 2^32 bytes or more.** -/
theorem gives_loadScan (mapped : Bool) (consume : Consumer) :
    Gives (loadScan mapped consume) fun r => ∀ d ∈ r.2, ShortInits d.graph.initializers := by
  rw [loadScan_eq]
  refine gives_bind_of_forall fun magic => ?_
  split
  · refine (gives_readSingle mapped).bind fun g short => gives_bind_of_forall fun ok => ?_
    split
    · refine gives_pure fun d mem => ?_
      rw [mem_singleton.mp mem]
      exact short
    · exact gives_pure (forall_mem_nil _)
  · split
    · refine gives_bind_of_forall fun nb => gives_bind_of_forall fun np => ?_
      refine gives_whenRemaining (gives_pure (forall_mem_nil _)) ?_
      exact (gives_readBlobIndex np).bind fun blobs sizes =>
        gives_readBuckets mapped sizes consume nb nb 0 (forall_mem_nil _)
    · exact gives_pure (forall_mem_nil _)

/-! ## Reading back -/

/-- Every constant of a graph is there, with its whole payload. -/
def FullPayloads (g g' : Graph) : Prop :=
  ∀ (id : TensorId) (hb : HostBuffer), g.initializers[id]? = some hb →
    g'.initializers[id]? = some hb

/-- **What is saved can be read back**: a file that the saver has reported loads, and every
bucket in it has the whole payload of each of its constants. -/
def ReadsBack (mapped : Bool) (buckets : List Graph) (names : List Str) : Prop :=
  ∀ file, saveGraphBinBuckets buckets names = some file →
    ∃ seen, loadGraphBinBucketsStreamed mapped (fun _ _ => true) file = (true, seen) ∧
      List.Forall₂ (fun g d => FullPayloads g d.graph) buckets seen

theorem saveGraphBinBuckets_isSome (names : List Str)
    (nonempty : buckets ≠ []) : ∃ file, saveGraphBinBuckets buckets names = some file := by
  match buckets, nonempty with
  | [g], _ => exact ⟨_, rfl⟩
  | _ :: _ :: _, _ => exact ⟨_, rfl⟩

theorem shortPayloads_of_readsBack (mapped : Bool) {names : List Str}
    (readsBack : ReadsBack mapped buckets names) : ∀ g ∈ buckets, ShortPayloads g := by
  intro g mem
  obtain ⟨file, saved⟩ := saveGraphBinBuckets_isSome names (ne_nil_of_mem mem)
  obtain ⟨seen, loaded, full⟩ := readsBack file saved
  have short := gives_loadScan mapped (fun _ _ => true) file ⟨0, true⟩
  rw [show ((loadScan mapped fun _ _ => true).run file ⟨0, true⟩).1 = (true, seen) from loaded]
    at short
  rw [shortPayloads_iff]
  intro id hb held
  obtain ⟨i, small, rfl⟩ := getElem_of_mem mem
  obtain ⟨same, each⟩ := forall₂_iff_get.mp full
  exact short _ (getElem_mem (same ▸ small)) id hb (each i small (same ▸ small) id hb held)

/-- A loaded bucket has passed the check of its ids. -/
theorem validIds_of_readsBack (mapped : Bool) {names : List Str}
    (short : ShortBuckets buckets names) (readsBack : ReadsBack mapped buckets names) :
    ∀ g ∈ buckets, validIds g = true := by
  intro g mem
  obtain ⟨file, saved⟩ := saveGraphBinBuckets_isSome names (ne_nil_of_mem mem)
  obtain ⟨seen, loaded, -⟩ := readsBack file saved
  have matched := load_prefixed mapped (fun _ _ => true) file
  obtain ⟨all, graphs, ends⟩ := endsWith_saved mapped (fun _ _ => true) short
    (shortPayloads_of_readsBack mapped readsBack) saved
  have run : ((loadScan mapped fun _ _ => true).run file ⟨0, true⟩).1 = (true, seen) := loaded
  rw [loaded] at matched
  rw [EndsWith, run] at ends
  rcases ends rfl with ⟨front, final, -, stops⟩ | ⟨rfl, -⟩
  · exact absurd stops.symm Bool.false_ne_true
  obtain ⟨i, small, rfl⟩ := getElem_of_mem mem
  have count : seen.length = buckets.length := by simpa using congrArg List.length graphs
  have inSeen : i < seen.length := count ▸ small
  obtain ⟨table, -, same⟩ := matched i seen[i] (getElem?_eq_getElem inSeen)
  have stored : seen[i].graph = storedGraph buckets[i] := by
    have here := congrArg (fun gs => gs[i]?) graphs
    simpa [inSeen, small] using here
  have valid := same.valid
  rw [stored] at valid
  rw [← valid]
  exact (validIds_stored buckets[i] buckets[i].initializers).symm

/-- **A saved model can be read back exactly when its payloads are short and its ids valid.**
Short payloads are needed for every graph there is; beyond them, where names and tables are
short, valid ids are all that is needed. -/
theorem readsBack_iff (mapped : Bool) (buckets : List Graph) (names : List Str) :
    (ReadsBack mapped buckets names → ∀ g ∈ buckets, ShortPayloads g) ∧
      (ShortBuckets buckets names → (ReadsBack mapped buckets names ↔
        (∀ g ∈ buckets, ShortPayloads g) ∧ ∀ g ∈ buckets, validIds g = true)) := by
  refine ⟨shortPayloads_of_readsBack mapped, fun short => ⟨fun readsBack => ?_, ?_⟩⟩
  · exact ⟨shortPayloads_of_readsBack mapped readsBack, validIds_of_readsBack mapped short readsBack⟩
  rintro ⟨payloads, valid⟩ file saved
  have nonempty : buckets ≠ [] := by
    rintro rfl
    simp [saveGraphBinBuckets] at saved
  obtain ⟨written, seen, same, loaded, graphs, -⟩ := load_saved mapped nonempty short payloads valid
  obtain rfl := Option.some.inj (same.symm.trans saved)
  refine ⟨seen, loaded, ?_⟩
  have stored : List.Forall₂ (fun g g' => FullPayloads g g') buckets (buckets.map storedGraph) := by
    rw [forall₂_map_right_iff]
    exact forall₂_same.mpr fun g _ id hb held => held
  rw [← graphs, forall₂_map_right_iff] at stored
  exact stored

theorem readsBack_weights : ReadsBack true [weightGraph [1, 2, 3, 4], weightGraph [5]]
    [str "prefill", str "decode"] :=
  ((readsBack_iff true _ _).2 (by decide)).mpr ⟨by decide, by decide⟩

/-- **A constant of 2^32 bytes is saved and does not come back.** -/
theorem longWeight_lost : ¬ ReadsBack true [weightGraph (List.replicate (2 ^ 32) 0)] [] := by
  intro readsBack
  have short := shortPayloads_of_readsBack true readsBack _ mem_cons_self
  have small := short (0, List.replicate (2 ^ 32) 0) (by
    rw [weightGraph_entries]
    exact mem_cons_self)
  simp only [length_replicate] at small
  exact lt_irrefl _ small

end Vknn.ModelIo
