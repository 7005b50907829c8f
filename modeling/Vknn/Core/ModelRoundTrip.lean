import Vknn.Core.ModelIo
import Vknn.Lib.Entries
import Vknn.Lib.Truncation

/-!
# What is written is what is read back

Reading follows writing field by field, so the round trip is assembled the same
way: one `Reads` lemma for each field, tensor, node and graph body, and then the
two containers.  The single-graph container composes to the end.  In the
multi-graph container a bucket's payloads are fetched from a pool that was
indexed earlier, so its last part is an induction along the buckets at a fixed
file whose pool is already known.

What comes back is the graph as stored: one member of an attribute, the shape of
a tensor-valued one, has no field in the file.
-/

namespace Vknn.ModelIo

open Wire List Reader Writer Nat Std Scan

/-! ## Values a file can hold -/

@[mk_iff]
structure StorableAttr (a : Attr) : Prop where
  kind : a.kind.code < 2 ^ 32
  i : FitsSigned 8 a.i
  ints : a.ints.length < 2 ^ 32
  each : ∀ v ∈ a.ints, FitsSigned 8 v
  floats : a.floats.length < 2 ^ 32
  str : a.str.length < 2 ^ 32

instance (a : Attr) : Decidable (StorableAttr a) := decidable_of_iff' _ (storableAttr_iff a)

@[mk_iff]
structure StorableTensor (t : TensorDesc) : Prop where
  name : t.name.length < 2 ^ 32
  shape : t.shape.length < 2 ^ 32
  each : ∀ v ∈ t.shape, FitsSigned 8 v
  dtype : t.dtype.code < 256
  format : t.format.code < 256

instance (t : TensorDesc) : Decidable (StorableTensor t) :=
  decidable_of_iff' _ (storableTensor_iff t)

/-- A list of tensor ids of the table's own width. -/
@[mk_iff]
structure StorableIds (v : List TensorId) : Prop where
  length : v.length < 2 ^ 32
  each : ∀ id ∈ v, FitsSigned 4 id

instance (v : List TensorId) : Decidable (StorableIds v) := decidable_of_iff' _ (storableIds_iff v)

@[mk_iff]
structure StorableNode (n : Node) : Prop where
  type : n.type.code < 2 ^ 32
  name : n.name.length < 2 ^ 32
  inputs : StorableIds n.inputs
  outputs : StorableIds n.outputs
  fusedAct : n.fusedAct.code < 2 ^ 32
  subOp : FitsSigned 4 n.subOp
  fusedResidual : FitsSigned 4 n.fusedResidual
  fusedBias : FitsSigned 4 n.fusedBias
  attrs : n.attr.map.size < 2 ^ 32
  attrName : ∀ kv ∈ n.attr.map.toList, kv.1.length < 2 ^ 32
  attr : ∀ kv ∈ n.attr.map.toList, StorableAttr kv.2

instance (n : Node) : Decidable (StorableNode n) := decidable_of_iff' _ (storableNode_iff n)

/-- A graph whose fields are values of the program's fixed-width types, whose strings, vectors
and payloads are shorter than 2^32, and whose tensor ids are in range. -/
@[mk_iff]
structure StorableGraph (g : Graph) : Prop where
  tensors : g.tensors.length < 2 ^ 32
  tensor : ∀ t ∈ g.tensors, StorableTensor t
  nodes : g.nodes.length < 2 ^ 32
  node : ∀ n ∈ g.nodes, StorableNode n
  inputs : StorableIds g.inputs
  outputs : StorableIds g.outputs
  validIds : validIds g = true
  initializers : g.initializers.size < 2 ^ 32
  initializer : ∀ kv ∈ g.initializers.toList,
    FitsSigned 4 kv.1 ∧ 0 ≤ kv.1 ∧ kv.1 < g.tensors.length ∧ kv.2.length < 2 ^ 32

instance (g : Graph) : Decidable (StorableGraph g) := decidable_of_iff' _ (storableGraph_iff g)

/-- A graph whose fields are values of the program's fixed-width types and whose strings, vectors
and tables are shorter than 2^32.  Nothing is asked of its ids or of its payloads. -/
@[mk_iff]
structure ShortTables (g : Graph) : Prop where
  tensors : g.tensors.length < 2 ^ 32
  tensor : ∀ t ∈ g.tensors, StorableTensor t
  nodes : g.nodes.length < 2 ^ 32
  node : ∀ n ∈ g.nodes, StorableNode n
  inputs : StorableIds g.inputs
  outputs : StorableIds g.outputs
  initializers : g.initializers.size < 2 ^ 32
  key : ∀ kv ∈ g.initializers.toList, FitsSigned 4 kv.1

instance (g : Graph) : Decidable (ShortTables g) := decidable_of_iff' _ (shortTables_iff g)

def ShortPayloads (g : Graph) : Prop := ∀ kv ∈ g.initializers.toList, kv.2.length < 2 ^ 32

instance (g : Graph) : Decidable (ShortPayloads g) := List.decidableBAll _ _

variable {g : Graph}

theorem StorableGraph.tables (storable : StorableGraph g) : ShortTables g where
  tensors := storable.tensors
  tensor := storable.tensor
  nodes := storable.nodes
  node := storable.node
  inputs := storable.inputs
  outputs := storable.outputs
  initializers := storable.initializers
  key kv mem := (storable.initializer kv mem).1

theorem StorableGraph.payloads (storable : StorableGraph g) : ShortPayloads g :=
  fun kv mem => (storable.initializer kv mem).2.2.2

/-! ## What the file keeps -/

def storedAttr (a : Attr) : Attr := { a with shape := [] }

/-- Compile-time dimension names and the two backend storage hints are not part of the file. -/
def storedTensor (t : TensorDesc) : TensorDesc :=
  { t with dimParams := [], gpuFlat := false, storeFp32 := false }

def storedNode (n : Node) : Node := { n with attr := ⟨n.attr.map.map fun _ a => storedAttr a⟩ }

def storedGraph (g : Graph) : Graph :=
  { g with
    tensors := g.tensors.map storedTensor
    nodes := g.nodes.map storedNode
    tensorByName := nameIndex (g.tensors.map storedTensor) }

/-! ## Fields -/

section Fields

theorem reads_u32 {v : Nat} (fits : v < 2 ^ 32) : Reads u32 (u32 v) v := by
  have block := (reads_block (leBytes 4 v)).map_pure leNat
  rwa [length_leBytes, leNat_leBytes_of_lt fits] at block

theorem reads_i64 {v : Int} (fits : FitsSigned 8 v) : Reads i64 (i64 v) v := by
  have block := (reads_block (leBytesInt 8 v)).map_pure (leInt 8)
  rwa [length_leBytesInt, leInt_leBytesInt fits] at block

theorem reads_f32 (v : Float32Bits) : Reads f32 (f32 v) v := by
  have block := (reads_block (leBytes 4 v.bits.toNat)).map_pure
    fun b => (⟨UInt32.ofNat (leNat b)⟩ : Float32Bits)
  have fits : v.bits.toNat < 256 ^ 4 := v.bits.toNat_lt
  rwa [length_leBytes, leNat_leBytes_of_lt fits, UInt32.ofNat_toNat] at block

/-- A 32-bit value stored in a 64-bit field is narrowed back to itself. -/
theorem reads_narrowed {v : Int} (fits : FitsSigned 4 v) : Reads narrowed (i64 v) v := by
  have wide : FitsSigned 8 v := by
    unfold FitsSigned at fits ⊢
    push_cast at fits ⊢
    omega
  have narrowed := (reads_i64 wide).map_pure fun v => v.bmod (2 ^ 32)
  rwa [show (2 : Nat) ^ 32 = 256 ^ 4 from rfl, bmod_eq_of_fitsSigned fits] at narrowed

theorem reads_str {s : Bytes} (short : s.length < 2 ^ 32) : Reads Reader.str (Writer.blob s) s := by
  simp only [Writer.blob, emit, flatten_cons, flatten_nil, append_nil]
  exact (reads_u32 short).bind (reads_whenRemaining le_rfl (reads_block s))

theorem words_flatMap {α : Type} (width : Nat) (elem : α → Bytes)
    (each : ∀ a, (elem a).length = width) (v : List α) :
    words width v.length (v.flatMap elem) = v.map elem := by
  induction v with
  | nil => rfl
  | cons a v ih =>
    have head : List.take width (elem a ++ v.flatMap elem) = elem a := by rw [← each a, take_left]
    have tail : List.drop width (elem a ++ v.flatMap elem) = v.flatMap elem := by
      rw [← each a, drop_left]
    simp only [length_cons, flatMap_cons, words, head, tail, ih, map_cons]

theorem length_flatMap_of_width {α : Type} (width : Nat) (elem : α → Bytes)
    (each : ∀ a, (elem a).length = width) (v : List α) :
    (v.flatMap elem).length = v.length * width := by
  induction v with
  | nil => simp
  | cons a v ih => rw [flatMap_cons, length_append, ih, each, length_cons, succ_mul, add_comm]

/-- A vector is read back when each of its elements is. -/
theorem reads_vec {α : Type} {width : Nat} {elem : α → Bytes} {parse : Bytes → α}
    (each : ∀ a, (elem a).length = width) {v : List α} (short : v.length < 2 ^ 32)
    (back : ∀ a ∈ v, parse (elem a) = a) :
    Reads (vec width parse) (vec elem v) v := by
  have size := length_flatMap_of_width width elem each v
  have body := (reads_block (v.flatMap elem)).map_pure
    fun b => (words width v.length b).map parse
  have same : (v.map elem).map parse = v := by
    rw [map_map]
    conv_rhs => rw [← map_id v]
    exact map_congr_left back
  rw [words_flatMap width elem each, same, size] at body
  simp only [Writer.vec, emit, flatten_cons, flatten_nil, append_nil]
  exact (reads_u32 short).bind (reads_whenRemaining size.ge body)

theorem reads_ints {v : List Int} (short : v.length < 2 ^ 32) (each : ∀ i ∈ v, FitsSigned 8 i) :
    Reads ints (vec i64 v) v :=
  reads_vec (fun a => length_leBytesInt 8 a) short fun i mem => leInt_leBytesInt (each i mem)

theorem reads_ids {v : List TensorId} (storable : StorableIds v) : Reads ids (vec i32 v) v :=
  reads_vec (fun a => length_leBytesInt 4 a) storable.length
    fun i mem => leInt_leBytesInt (storable.each i mem)

theorem reads_floats {v : List Float32Bits} (short : v.length < 2 ^ 32) :
    Reads floats (vec f32 v) v := by
  refine reads_vec (fun a => length_leBytes 4 a.bits.toNat) short fun a _ => ?_
  have fits : a.bits.toNat < 256 ^ 4 := a.bits.toNat_lt
  change (⟨UInt32.ofNat (leNat (leBytes 4 a.bits.toNat))⟩ : Float32Bits) = a
  rw [leNat_leBytes_of_lt fits, UInt32.ofNat_toNat]

end Fields

/-! ## Attributes, tensors and nodes -/

theorem reads_attr {a : Attr} (storable : StorableAttr a) :
    Reads readAttr (writeAttr a) (storedAttr a) := by
  simp only [writeAttr, emit, flatten_cons, flatten_nil]
  refine (reads_u32 storable.kind).bind ?_
  refine (reads_i64 storable.i).bind ?_
  refine (reads_f32 a.f).bind ?_
  refine (reads_ints storable.ints storable.each).bind ?_
  refine (reads_floats storable.floats).bind ?_
  refine (reads_str storable.str).bind ?_
  rw [AttrKind.ofCode_code]
  exact reads_pure _

theorem roleFlags_lt (t : TensorDesc) : roleFlags t < 2 ^ 32 := by
  unfold roleFlags
  split <;> split <;> split <;> norm_num

theorem roleFlags_testBit (t : TensorDesc) :
    (roleFlags t).testBit 0 = t.isInput ∧ (roleFlags t).testBit 1 = t.isOutput ∧
      (roleFlags t).testBit 2 = t.isInitializer := by
  unfold roleFlags
  cases t.isInput <;> cases t.isOutput <;> cases t.isInitializer <;> decide

theorem reads_tensor {t : TensorDesc} (storable : StorableTensor t) :
    Reads readTensor (writeTensor t) (storedTensor t) := by
  have dtype : t.dtype.code < 2 ^ 32 := storable.dtype.trans (by norm_num)
  have format : t.format.code < 2 ^ 32 := storable.format.trans (by norm_num)
  simp only [writeTensor, emit, flatten_cons, flatten_nil]
  refine (reads_str storable.name).bind ?_
  refine (reads_ints storable.shape storable.each).bind ?_
  refine (reads_u32 dtype).bind ?_
  refine (reads_u32 format).bind ?_
  refine (reads_u32 (roleFlags_lt t)).bind ?_
  obtain ⟨input, output, initializer⟩ := roleFlags_testBit t
  rw [input, output, initializer, mod_eq_of_lt storable.dtype,
    mod_eq_of_lt storable.format, DType.ofCode_code, TensorFormat.ofCode_code]
  exact reads_pure _

/-- The attribute list is read back into the map it extends. -/
theorem reads_attrs (entries : List (Str × Attr)) (m : ExtTreeMap Str Attr)
    (names : ∀ kv ∈ entries, kv.1.length < 2 ^ 32)
    (storable : ∀ kv ∈ entries, StorableAttr kv.2) :
    Reads (readAttrs entries.length m)
      (entries.flatMap fun kv => emit [blob kv.1, writeAttr kv.2])
      (Entries.insertAll m (entries.map fun kv => (kv.1, storedAttr kv.2))) := by
  induction entries generalizing m with
  | nil => exact reads_pure m
  | cons kv entries ih =>
    have head := names kv mem_cons_self
    have attr := storable kv mem_cons_self
    have tail := ih (m.insert kv.1 (storedAttr kv.2))
      (fun e mem => names e (mem_cons_of_mem _ mem))
      (fun e mem => storable e (mem_cons_of_mem _ mem))
    have item : emit [blob kv.1, writeAttr kv.2] = blob kv.1 ++ writeAttr kv.2 := by simp [emit]
    rw [flatMap_cons, length_cons, readAttrs, map_cons, Entries.insertAll_cons, item, append_assoc]
    refine reads_good ?_
    rw [if_pos rfl]
    exact (reads_str head).bind ((reads_attr attr).bind tail)

theorem insertAll_map_entries (m : ExtTreeMap Str Attr) (f : Attr → Attr) :
    Entries.insertAll ∅ (m.toList.map fun kv => (kv.1, f kv.2)) = m.map fun _ a => f a := by
  have entries : m.toList.map (fun kv => (kv.1, f kv.2)) = (m.map fun _ a => f a).toList := by
    rw [ExtTreeMap.toList_map]
  rw [entries, Entries.insertAll_toList]

theorem one_le_length_blob (s : Bytes) : 1 ≤ (Writer.blob s).length := by
  simp [Writer.blob, emit, Writer.u32]
  omega

theorem reads_node {n : Node} (storable : StorableNode n) :
    Reads readNode (writeNode n) (storedNode n, true) := by
  have attrs := reads_attrs n.attr.map.toList ∅ storable.attrName storable.attr
  rw [insertAll_map_entries, ExtTreeMap.length_toList] at attrs
  have enough : n.attr.map.size ≤
      (n.attr.map.toList.flatMap fun kv => emit [blob kv.1, writeAttr kv.2]).length := by
    rw [← ExtTreeMap.length_toList]
    refine length_le_length_flatMap _ _ fun kv _ => ?_
    have := one_le_length_blob kv.1
    simp only [emit, flatten_cons, length_append]
    omega
  simp only [writeNode, emit, flatten_cons, flatten_nil, append_nil] at attrs enough ⊢
  refine (reads_u32 storable.type).bind ?_
  refine (reads_str storable.name).bind ?_
  refine (reads_ids storable.inputs).bind ?_
  refine (reads_ids storable.outputs).bind ?_
  refine (reads_u32 storable.fusedAct).bind ?_
  refine (reads_f32 n.actLo).bind ?_
  refine (reads_f32 n.actHi).bind ?_
  refine (reads_narrowed storable.subOp).bind ?_
  refine (reads_narrowed storable.fusedResidual).bind ?_
  refine (reads_narrowed storable.fusedBias).bind ?_
  refine (reads_u32 storable.attrs).bind (reads_whenRemaining enough ?_)
  have done := attrs.map_pure fun map =>
    (({ n with attr := ⟨map⟩ } : Node), true)
  rw [OpType.ofCode_code, ActType.ofCode_code]
  exact done

theorem reads_nodes (nodes : List Node) (storable : ∀ n ∈ nodes, StorableNode n) :
    Reads (readNodes nodes.length) (nodes.flatMap writeNode) (nodes.map storedNode, true) := by
  induction nodes with
  | nil =>
    rw [length_nil, readNodes]
    exact reads_pure ([], true)
  | cons n nodes ih =>
    have tail := ih fun m mem => storable m (mem_cons_of_mem _ mem)
    rw [length_cons, readNodes, flatMap_cons, map_cons]
    refine (reads_node (storable n mem_cons_self)).bind ?_
    exact tail.bind_nil (reads_pure _)

/-! ## Graph bodies -/

theorem validIds_stored (g : Graph) (m : Initializers) :
    validIds { storedGraph g with initializers := m } = validIds g := by
  simp [validIds, storedGraph, storedNode, all_map, Function.comp_def]

theorem one_le_length_writeTensor (t : TensorDesc) : 1 ≤ (writeTensor t).length := by
  have := one_le_length_blob t.name
  simp only [writeTensor, emit, flatten_cons, length_append]
  omega

theorem one_le_length_writeNode (n : Node) : 1 ≤ (writeNode n).length := by
  have := one_le_length_blob n.name
  simp only [writeNode, emit, flatten_cons, length_append]
  omega

/-- **A graph body is read back as stored, and its ids are judged.** -/
theorem readsTo_graphStructure (short : ShortTables g) :
    ReadsTo readGraphStructure (writeGraphStructure g)
      { storedGraph g with initializers := ∅ } (validIds g) := by
  have tensorCount := length_le_length_flatMap g.tensors writeTensor
    fun t _ => one_le_length_writeTensor t
  have nodeCount := length_le_length_flatMap g.nodes writeNode
    fun n _ => one_le_length_writeNode n
  simp only [writeGraphStructure, emit, flatten_cons, flatten_nil]
  refine (reads_u32 short.tensors).bindTo (readsTo_whenRemaining ?_ ?_)
  · simp only [length_append]
    omega
  refine (reads_times g.tensors writeTensor storedTensor
    fun t mem => reads_tensor (short.tensor t mem)).bindTo ?_
  refine (reads_u32 short.nodes).bindTo (readsTo_whenRemaining ?_ ?_)
  · simp only [length_append]
    omega
  refine (reads_nodes g.nodes short.node).bindTo ?_
  simp only [if_true]
  refine (reads_ids short.inputs).bindTo ((reads_ids short.outputs).bindTo ?_)
  refine readsTo_check _ _ ?_
  rw [Bool.decide_eq_true]
  exact validIds_stored g ∅

/-! ## The single-graph container -/

theorem reads_inlineBlob (mapped : Bool) (bytes : Bytes) :
    Reads (inlineBlob mapped bytes.length) bytes bytes := by
  intro file pos rest split
  have block := reads_block bytes file pos rest split
  have view : (file.drop pos).take bytes.length = bytes := by rw [split, take_left]
  rw [inlineBlob, run_bind, run_bind, run_ite]
  simp only [run_bind, run_tell, run_size, run_peek, run_skip, run_pure, view, block, ite_self]

theorem reads_inlineInits (mapped : Bool) (entries : List (TensorId × HostBuffer))
    (m : Initializers)
    (storable : ∀ kv ∈ entries, FitsSigned 4 kv.1 ∧ kv.2.length < 2 ^ 32) :
    Reads (readInlineInits mapped entries.length m)
      (entries.flatMap fun kv => emit [i64 kv.1, blob kv.2])
      (Entries.insertAll m entries) := by
  induction entries generalizing m with
  | nil => exact reads_pure m
  | cons kv entries ih =>
    obtain ⟨key, short⟩ := storable kv mem_cons_self
    have tail := ih (m.insert kv.1 kv.2)
      fun e mem => storable e (mem_cons_of_mem _ mem)
    have item : emit [i64 kv.1, blob kv.2] = i64 kv.1 ++ (u32 kv.2.length ++ kv.2) := by
      simp [emit, blob]
    rw [flatMap_cons, length_cons, readInlineInits, Entries.insertAll_cons, item,
      append_assoc, append_assoc]
    refine reads_good ?_
    rw [if_pos rfl]
    refine (reads_narrowed key).bind ((reads_u32 short).bind (reads_whenRemaining ?_ ?_))
    · rw [length_append]
      omega
    · exact (reads_inlineBlob mapped kv.2).bind tail

/-- A word that is not a quantized wrapper is read as itself; a wrapper is read as its body. -/
theorem reads_magic (content : QuantContent) (plain sub : Nat)
    (body : plain = kMagic ∧ sub = kSubBodyVxm3 ∨ plain = kMagic4 ∧ sub = kSubBodyVxm4) :
    Reads readMagic (containerWords content plain sub) plain := by
  have small : plain < 2 ^ 32 ∧ sub < 2 ^ 32 ∧ plain ≠ kMagic5 ∧ plain ≠ kMagic6 ∧
      (if sub = kSubBodyVxm3 then kMagic else if sub = kSubBodyVxm4 then kMagic4 else 0) =
        plain := by
    rcases body with ⟨rfl, rfl⟩ | ⟨rfl, rfl⟩ <;> decide
  obtain ⟨plainFits, subFits, notFive, notSix, remapped⟩ := small
  unfold containerWords
  by_cases quantized : content.anyQuantized = true
  · rw [if_pos quantized]
    have wrapper : (if content.nonInt4 = true then kMagic6 else kMagic5) < 2 ^ 32 ∧
        ((if content.nonInt4 = true then kMagic6 else kMagic5) = kMagic5 ∨
          (if content.nonInt4 = true then kMagic6 else kMagic5) = kMagic6) := by
      cases content.nonInt4 <;> decide
    have tail := (reads_u32 subFits).map_pure fun sub =>
      if sub = kSubBodyVxm3 then kMagic else if sub = kSubBodyVxm4 then kMagic4 else 0
    rw [remapped] at tail
    simp only [emit, flatten_cons, flatten_nil, append_nil]
    refine (reads_u32 wrapper.1).bind ?_
    rw [if_pos wrapper.2]
    exact tail
  · rw [if_neg quantized]
    refine (reads_u32 plainFits).bind_nil ?_
    rw [if_neg (by simp [notFive, notSix])]
    exact reads_pure plain

/-- A graph's table of constants is read back, whatever is made of it. -/
theorem reads_initTable (mapped : Bool) {α : Type} (tables : ShortTables g)
    (payloads : ShortPayloads g) (f : Initializers → α) :
    Reads (u32 >>= fun ni =>
        whenRemaining ni (fail >>= fun _ => pure ∅) (readInlineInits mapped ni ∅) >>=
          fun initializers => pure (f initializers))
      (u32 g.initializers.size ++
        g.initializers.toList.flatMap fun kv => emit [i64 kv.1, blob kv.2])
      (f g.initializers) := by
  have inits := reads_inlineInits mapped g.initializers.toList ∅ fun kv mem =>
    ⟨tables.key kv mem, payloads kv mem⟩
  have enough := length_le_length_flatMap g.initializers.toList
    (fun kv => emit [Writer.i64 kv.1, Writer.blob kv.2]) fun kv _ => by
      simp [emit, Writer.i64]
      omega
  rw [Std.ExtTreeMap.length_toList] at inits enough
  rw [Entries.insertAll_toList] at inits
  exact (reads_u32 tables.initializers).bind ((reads_whenRemaining enough inits).map_pure f)

/-- The bytes of a graph behind its leading word. -/
def writeSingle (g : Graph) : Bytes :=
  writeGraphStructure g ++ (u32 g.initializers.size ++
    g.initializers.toList.flatMap fun kv => emit [i64 kv.1, blob kv.2])

theorem saveGraphBin_eq (g : Graph) :
    saveGraphBin g = containerWords (graphQuantContent g) kMagic kSubBodyVxm3 ++ writeSingle g := by
  rw [saveGraphBin, emit, flatten_cons, flatten_cons, flatten_cons,
    flatten_cons, flatten_nil, append_nil]
  rfl

theorem reads_single (mapped : Bool) (tables : ShortTables g)
    (payloads : ShortPayloads g) (valid : validIds g = true) :
    Reads (readSingle mapped) (writeSingle g) (storedGraph g) := by
  have structured := readsTo_graphStructure tables
  rw [valid] at structured
  exact Reads.bind structured (reads_initTable mapped tables payloads fun initializers =>
    { storedGraph g with initializers })

/-- A single-graph file with valid ids is loaded as stored. -/
theorem load_single_valid (mapped : Bool) (consume : Consumer) (tables : ShortTables g)
    (payloads : ShortPayloads g) (valid : validIds g = true) :
    loadGraphBinBucketsStreamed mapped consume (saveGraphBin g) =
      (true, [⟨storedGraph g, [], 0, 1⟩]) := by
  refine reads_whole ?_
  rw [saveGraphBin_eq]
  refine (reads_magic _ _ _ (Or.inl ⟨rfl, rfl⟩)).bind ?_
  rw [if_pos rfl]
  exact (reads_single mapped tables payloads valid).bind_nil (reads_good (reads_pure _))

end Vknn.ModelIo
