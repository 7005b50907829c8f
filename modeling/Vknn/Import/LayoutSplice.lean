import Vknn.Import.LayoutAssignment

/-!
# What the splicer makes

A conversion reads a tensor of the graph and writes a new one in the other layout.  Every read
that is routed leads back to the tensor it named, and it finds the layout its reader wants.
-/

namespace Vknn.Import.Layout

open List Int

/-- A tensor that is read for its data: there is one, and it is no constant. -/
def IsRead (g : Graph) (t : TensorId) : Prop := t ≠ kNoTensor ∧ g.isInitializer t = false

variable {g : Graph} {size : Nat} {out : TensorId}

theorem IsRead.of_initializers {g' : Graph} {t : TensorId} (read : IsRead g t)
    (same : g'.initializers = g.initializers) : IsRead g' t := by
  refine ⟨read.1, ?_⟩
  have still := read.2
  unfold Graph.isInitializer at still ⊢
  rwa [same]

/-- What the readers of a tensor see of its descriptor. -/
def plain (d : TensorDesc) : TensorDesc :=
  { d with name := [], isInput := false, isOutput := false, isInitializer := false }

theorem flat_of_plain {g' : Graph} {t : TensorId} (same : plain (g'.desc t) = plain (g.desc t)) :
    flat g' t = flat g t := by
  have layouts := congrArg TensorDesc.gpuFlat same
  exact layouts

/-- A node that converts a tensor of the graph into a new tensor of the other layout. -/
structure Conversion (g : Graph) (size : Nat) (c : Node) (t u : TensorId) : Prop where
  type : c.type = .convertLayout
  inputs : c.inputs = [t]
  outputs : c.outputs = [u]
  residual : c.fusedResidual = kNoTensor
  bias : c.fusedBias = kNoTensor
  source : IsRead g t
  old : t < (size : Int)
  new : (size : Int) ≤ u
  inside : u < (g.tensors.length : Int)
  source_flat : flat g t = decide (c.subOp ≠ 0)
  target_flat : flat g u = decide (c.subOp = 0)
  data : bareDesc (plain (g.desc u)) = bareDesc (plain (g.desc t))

/-- A read that leads back to a tensor of the graph, directly or through a conversion. -/
def Leads (converts : List Node) (size : Nat) (r ref : TensorId) : Prop :=
  (r = ref ∧ ref < (size : Int)) ∨ ∃ c ∈ converts, c.outputs = [r] ∧ c.inputs = [ref]

theorem Leads.mono {converts more : List Node} {r ref : TensorId}
    (leads : Leads converts size r ref) (subset : converts ⊆ more) : Leads more size r ref := by
  rcases leads with same | ⟨c, mem, outputs, inputs⟩
  · exact .inl same
  · exact .inr ⟨c, subset mem, outputs, inputs⟩

/-! ## The state of the splicer -/

/-- The state of the splicer over an assigned graph. -/
structure SpliceInv (a : Graph) (st : Splice) : Prop where
  size : a.tensors.length ≤ st.g.tensors.length
  initializers : st.g.initializers = a.initializers
  old : ∀ t : TensorId, t < a.tensors.length → plain (st.g.desc t) = plain (a.desc t)
  converts : ∀ c ∈ st.converts, ∃ t u, Conversion st.g a.tensors.length c t u
  apart : st.converts.Pairwise fun c d => c.outputs ≠ d.outputs
  cache : ∀ t w u, st.cache.lookup (t, w) = some u →
    flat st.g u = w ∧ ∃ c ∈ st.converts, c.outputs = [u] ∧ c.inputs = [t]

/-- A later state of the splicer. -/
structure Later (st st' : Splice) : Prop where
  size : st.g.tensors.length ≤ st'.g.tensors.length
  initializers : st'.g.initializers = st.g.initializers
  descs : ∀ t : TensorId, t < st.g.tensors.length → plain (st'.g.desc t) = plain (st.g.desc t)
  converts : st.converts ⊆ st'.converts

theorem Later.refl (st : Splice) : Later st st := ⟨le_rfl, rfl, fun _ _ => rfl, fun _ h => h⟩

theorem Later.trans {a b c : Splice} (one : Later a b) (two : Later b c) : Later a c where
  size := one.size.trans two.size
  initializers := two.initializers.trans one.initializers
  descs t inside :=
    (two.descs t (inside.trans_le (ofNat_le.mpr one.size))).trans (one.descs t inside)
  converts := fun _ mem => two.converts (one.converts mem)

variable {a : Graph} {st st' : Splice} {t u ref : TensorId}

theorem SpliceInv.start (a : Graph) : SpliceInv a { g := a } where
  size := le_rfl
  initializers := rfl
  old _ _ := rfl
  converts _ mem := absurd mem not_mem_nil
  apart := .nil
  cache _ _ _ found := by cases found

theorem SpliceInv.isInitializer (inv : SpliceInv a st) (t : TensorId) :
    st.g.isInitializer t = a.isInitializer t := by
  unfold Graph.isInitializer
  rw [inv.initializers]

theorem Later.sameFlat (later : Later st st') (inside : t < (st.g.tensors.length : Int)) :
    flat st'.g t = flat st.g t := flat_of_plain (later.descs t inside)

theorem SpliceInv.sameFlat (inv : SpliceInv a st) (old : t < (a.tensors.length : Int)) :
    flat st.g t = flat a t := flat_of_plain (inv.old t old)

theorem flat_addTensor (g : Graph) (d : TensorDesc) (t : TensorId) :
    flat (g.addTensor d).1 t = if t = (g.tensors.length : Int) then d.gpuFlat else flat g t := by
  unfold flat
  rw [Onnx.desc_addTensor]
  split <;> rfl

/-- The state with one more conversion. -/
def withConversion (st : Splice) (g : Graph) (cache : List ((TensorId × Bool) × TensorId))
    (c : Node) (d : TensorDesc) : Splice :=
  { g := (g.addTensor d).1, cache := cache, converts := st.converts ++ [c], n := st.n + 1 }

theorem SpliceInv.convert (inv : SpliceInv a st)
    (size : g.tensors.length = st.g.tensors.length) (initializers : g.initializers = a.initializers)
    (plains : ∀ t, plain (g.desc t) = plain (st.g.desc t)) {c : Node} {d : TensorDesc}
    (made : bareDesc (plain d) = bareDesc (plain (st.g.desc ref))) (type : c.type = .convertLayout)
    (inputs : c.inputs = [ref]) (outputs : c.outputs = [(g.tensors.length : Int)])
    (residual : c.fusedResidual = kNoTensor) (bias : c.fusedBias = kNoTensor)
    (source : IsRead a ref) (old : ref < (a.tensors.length : Int))
    (target : d.gpuFlat = decide (c.subOp = 0)) (flips : flat st.g ref ≠ d.gpuFlat)
    {cache : List ((TensorId × Bool) × TensorId)}
    (cached : cache = st.cache ∨ cache = ((ref, d.gpuFlat), (g.tensors.length : Int)) :: st.cache) :
    SpliceInv a (withConversion st g cache c d) ∧ Later st (withConversion st g cache c d) := by
  have grown : (g.addTensor d).1.tensors.length = st.g.tensors.length + 1 := by
    rw [← size]
    exact length_append
  have same {t : TensorId} (inside : t < (st.g.tensors.length : Int)) :
      plain ((g.addTensor d).1.desc t) = plain (st.g.desc t) := by
    rw [Onnx.desc_addTensor, if_neg (size ▸ inside.ne), plains]
  have within {t : TensorId} (inside : t < (a.tensors.length : Int)) :
      t < (st.g.tensors.length : Int) := inside.trans_le (ofNat_le.mpr inv.size)
  have fresh : flat (g.addTensor d).1 (g.tensors.length : Int) = d.gpuFlat := by
    rw [flat_addTensor, if_pos rfl]
  have later : Later st (withConversion st g cache c d) :=
    ⟨grown ▸ Nat.le_succ _, initializers.trans inv.initializers.symm, fun t inside => same inside,
      fun _ mem => mem_append_left _ mem⟩
  refine ⟨⟨inv.size.trans later.size, initializers, fun t inside => ?_, fun b mem => ?_, ?_,
    fun t w u found => ?_⟩, later⟩
  · exact (same (within inside)).trans (inv.old t inside)
  · rcases mem_append.mp mem with before | now
    · obtain ⟨x, y, conversion⟩ := inv.converts b before
      have x_in := within conversion.old
      exact ⟨x, y, { conversion with
        source := conversion.source.of_initializers later.initializers
        inside := conversion.inside.trans_le (ofNat_le.mpr later.size)
        source_flat := (later.sameFlat x_in).trans conversion.source_flat
        target_flat := (later.sameFlat conversion.inside).trans conversion.target_flat
        data := (congrArg bareDesc (same conversion.inside)).trans
          (conversion.data.trans (congrArg bareDesc (same x_in)).symm) }⟩
    · obtain rfl := mem_singleton.mp now
      refine ⟨ref, (g.tensors.length : Int), ⟨type, inputs, outputs, residual, bias,
        source.of_initializers initializers, old, ?_, ?_, ?_, ?_, ?_⟩⟩
      · rw [size]
        exact ofNat_le.mpr inv.size
      · change (g.tensors.length : Int) < ((g.addTensor d).1.tensors.length : Int)
        rw [grown, size]
        exact_mod_cast st.g.tensors.length.lt_succ_self
      · refine (later.sameFlat (within old)).trans ?_
        rw [target] at flips
        by_cases zero : b.subOp = 0 <;> simp_all
      · exact fresh.trans target
      · change bareDesc (plain ((g.addTensor d).1.desc _)) = bareDesc (plain ((g.addTensor d).1.desc ref))
        rw [same (within old), Onnx.desc_addTensor, if_pos rfl]
        exact made
  · refine pairwise_append.mpr ⟨inv.apart, pairwise_singleton _ _, fun b before e now => ?_⟩
    obtain ⟨x, y, conversion⟩ := inv.converts b before
    rw [mem_singleton.mp now, conversion.outputs, outputs]
    intro eq
    have at_end := head_eq_of_cons_eq eq
    have y_in := conversion.inside
    rw [at_end, size] at y_in
    exact absurd y_in (lt_irrefl _)
  · have olden (found : st.cache.lookup (t, w) = some u) :
        flat (g.addTensor d).1 u = w ∧ ∃ b ∈ st.converts ++ [c], b.outputs = [u] ∧ b.inputs = [t] := by
      obtain ⟨layout, b, mem, b_outputs, b_inputs⟩ := inv.cache t w u found
      obtain ⟨x, y, conversion⟩ := inv.converts b mem
      have y_in := conversion.inside
      rw [conversion.outputs] at b_outputs
      rw [head_eq_of_cons_eq b_outputs] at y_in
      exact ⟨(later.sameFlat y_in).trans layout, b, mem_append_left _ mem,
        conversion.outputs.trans b_outputs, b_inputs⟩
    rcases cached with rfl | rfl
    · exact olden found
    · change (((ref, d.gpuFlat), (g.tensors.length : Int)) :: st.cache).lookup (t, w) = some u at found
      rw [lookup_cons] at found
      split at found
      · rename_i hit
        have key := eq_of_beq hit
        obtain ⟨rfl, rfl⟩ := Prod.mk.inj key
        obtain rfl := Option.some.inj found
        exact ⟨fresh, c, mem_append_right _ (mem_singleton_self c), outputs, inputs⟩
      · exact olden found

/-! ## One read -/

/-- What routing a read gives. -/
structure Routed (st st' : Splice) (size : Nat) (ref : TensorId) (want : Bool) (r : TensorId) :
    Prop where
  later : Later st st'
  leads : Leads st'.converts size r ref
  inside : r < (st'.g.tensors.length : Int)
  finds : IsRead st'.g r → flat st'.g r = want

/-- **A routed read leads back to its tensor and finds the layout that is wanted.** -/
theorem convertRead_routed (inv : SpliceInv a st) (old : ref < (a.tensors.length : Int))
    (want : Bool) :
    SpliceInv a (convertRead st ref want).1 ∧
      Routed st (convertRead st ref want).1 a.tensors.length ref want
        (convertRead st ref want).2 := by
  have inside : ref < (st.g.tensors.length : Int) := old.trans_le (ofNat_le.mpr inv.size)
  unfold convertRead
  split
  · rename_i skipped
    refine ⟨inv, .refl st, .inl ⟨rfl, old⟩, inside, fun read => ?_⟩
    rcases skipped with absent | constant
    · exact absurd absent read.1
    · rw [read.2] at constant
      cases constant
  · rename_i routed
    rw [not_or, Bool.not_eq_true] at routed
    split
    · rename_i agrees
      exact ⟨inv, .refl st, .inl ⟨rfl, old⟩, inside, fun _ => agrees⟩
    · rename_i differs
      split
      · rename_i t2 hit
        obtain ⟨layout, c, mem, outputs, inputs⟩ := inv.cache _ _ _ hit
        obtain ⟨x, y, conversion⟩ := inv.converts c mem
        have y_in := conversion.inside
        have same := conversion.outputs.symm.trans outputs
        rw [head_eq_of_cons_eq same] at y_in
        exact ⟨inv, .refl st, .inr ⟨c, mem, outputs, inputs⟩, y_in, fun _ => layout⟩
      · have source : IsRead a ref := ⟨routed.1, by rw [← inv.isInitializer]; exact routed.2⟩
        obtain ⟨next, later⟩ := inv.convert rfl inv.initializers (fun _ => rfl)
          (c := { type := .convertLayout, name := str "convert" ++ decimal st.n,
                  subOp := if want then 0 else 1, inputs := [ref],
                  outputs := [(st.g.tensors.length : Int)] })
          (d := { st.g.desc ref with
            name := (st.g.desc ref).name ++ (if want then str "#flat" else str "#nc4") ++
              decimal st.n
            isInitializer := false
            isInput := false
            isOutput := false
            gpuFlat := want })
          rfl rfl rfl rfl rfl rfl source old (by cases want <;> rfl) differs (.inr rfl)
        refine ⟨next, later, .inr ⟨_, mem_append_right _ (mem_singleton_self _), rfl, rfl⟩,
          ?_, fun _ => ?_⟩
        · change (st.g.tensors.length : Int) < ((st.g.addTensor _).1.tensors.length : Int)
          rw [show (st.g.addTensor _).1.tensors.length = st.g.tensors.length + 1 from
            length_append]
          exact_mod_cast st.g.tensors.length.lt_succ_self
        · exact (flat_addTensor st.g _ _).trans (if_pos rfl)

theorem Routed.extend {st'' : Splice} {want : Bool} {r : TensorId}
    (routed : Routed st st' size ref want r) (later : Later st' st'') :
    Routed st st'' size ref want r where
  later := routed.later.trans later
  leads := routed.leads.mono later.converts
  inside := routed.inside.trans_le (ofNat_le.mpr later.size)
  finds read := by
    rw [later.sameFlat routed.inside]
    exact routed.finds (read.of_initializers later.initializers.symm)

/-! ## One node -/

/-- Every input is routed in the layout of its slot. -/
theorem convertInputs_routed (nd : Node) (needFlat : Bool) (refs : List TensorId) (k : Nat)
    (st : Splice) (inv : SpliceInv a st) (old : ∀ ref ∈ refs, ref < (a.tensors.length : Int)) :
    SpliceInv a (convertInputs nd needFlat k st refs).1 ∧
      Later st (convertInputs nd needFlat k st refs).1 ∧
      (convertInputs nd needFlat k st refs).2.length = refs.length ∧
      ∀ i r ref, (convertInputs nd needFlat k st refs).2[i]? = some r → refs[i]? = some ref →
        Routed st (convertInputs nd needFlat k st refs).1 a.tensors.length ref
          (if readsGrid nd (k + i) then true else needFlat) r := by
  induction refs generalizing k st with
  | nil => exact ⟨inv, .refl st, rfl, fun i r ref found => by cases found⟩
  | cons first rest ih =>
    obtain ⟨inv', routed⟩ := convertRead_routed inv (old first mem_cons_self)
      (if readsGrid nd k then true else needFlat)
    obtain ⟨inv'', later, length, each⟩ := ih (k + 1) _ inv'
      fun ref mem => old ref (mem_cons_of_mem _ mem)
    refine ⟨inv'', routed.later.trans later, congrArg (· + 1) length, fun i r ref found named => ?_⟩
    cases i with
    | zero =>
      obtain rfl := Option.some.inj found
      obtain rfl := Option.some.inj named
      exact routed.extend later
    | succ i =>
      have tail := each i r ref found named
      rw [show k + 1 + i = k + (i + 1) by omega] at tail
      exact { tail with later := routed.later.trans tail.later }

/-- What routing the reads of a node gives. -/
structure SplicedNode (st : Splice) (size : Nat) (nd nd' : Node) (needFlat : Bool) : Prop where
  same : { nd' with inputs := nd.inputs, fusedResidual := nd.fusedResidual, fusedBias := nd.fusedBias } = nd
  length : nd'.inputs.length = nd.inputs.length
  inputs : ∀ i r ref, nd'.inputs[i]? = some r → nd.inputs[i]? = some ref →
    Leads st.converts size r ref ∧ r < (st.g.tensors.length : Int) ∧
      (out0 nd ≠ kNoTensor → IsRead st.g r →
        flat st.g r = if readsGrid nd i then true else needFlat)
  residual : Leads st.converts size nd'.fusedResidual nd.fusedResidual ∧
    nd'.fusedResidual < (st.g.tensors.length : Int) ∧
    (out0 nd ≠ kNoTensor → IsRead st.g nd'.fusedResidual → flat st.g nd'.fusedResidual = needFlat)
  bias : Leads st.converts size nd'.fusedBias nd.fusedBias ∧
    nd'.fusedBias < (st.g.tensors.length : Int) ∧
    (out0 nd ≠ kNoTensor → IsRead st.g nd'.fusedBias → flat st.g nd'.fusedBias = needFlat)
  skipped : out0 nd = kNoTensor → nd' = nd

theorem spliceNode_spliced (inv : SpliceInv a st) {nd : Node}
    (old : ∀ ref ∈ nd.reads, ref < (a.tensors.length : Int))
    (written : out0 nd < (a.tensors.length : Int)) :
    SpliceInv a (spliceNode st nd).1 ∧ Later st (spliceNode st nd).1 ∧
      SplicedNode (spliceNode st nd).1 a.tensors.length nd (spliceNode st nd).2
        (flat a (out0 nd)) := by
  have within {ref : TensorId} (inside : ref < (a.tensors.length : Int)) :
      ref < (st.g.tensors.length : Int) := inside.trans_le (ofNat_le.mpr inv.size)
  have ins : ∀ ref ∈ nd.inputs, ref < (a.tensors.length : Int) :=
    fun ref mem => old ref (mem_append_left _ mem)
  have residual : nd.fusedResidual < (a.tensors.length : Int) := old _ (by simp [Node.reads])
  have bias : nd.fusedBias < (a.tensors.length : Int) := old _ (by simp [Node.reads])
  unfold spliceNode
  split
  · rename_i absent
    refine ⟨inv, .refl st, rfl, rfl, fun i r ref found named => ?_, ?_, ?_, fun _ => rfl⟩
    · obtain rfl := Option.some.inj (found.symm.trans named)
      have low := ins r (mem_of_getElem? named)
      exact ⟨.inl ⟨rfl, low⟩, within low, fun present => absurd absent present⟩
    · exact ⟨.inl ⟨rfl, residual⟩, within residual, fun present => absurd absent present⟩
    · exact ⟨.inl ⟨rfl, bias⟩, within bias, fun present => absurd absent present⟩
  · rename_i present
    have need : (st.g.desc (out0 nd)).gpuFlat = flat a (out0 nd) := inv.sameFlat written
    dsimp only
    rw [need]
    obtain ⟨inv₁, later₁, length, each⟩ := convertInputs_routed nd (flat a (out0 nd)) nd.inputs 0 st
      inv ins
    obtain ⟨inv₂, second⟩ := convertRead_routed inv₁ residual (flat a (out0 nd))
    obtain ⟨inv₃, third⟩ := convertRead_routed inv₂ bias (flat a (out0 nd))
    refine ⟨inv₃, later₁.trans (second.later.trans third.later), rfl, length,
      fun i r ref found named => ?_, ?_, ?_, fun absent => absurd absent present⟩
    · have routed := (each i r ref found named).extend (second.later.trans third.later)
      rw [Nat.zero_add] at routed
      exact ⟨routed.leads, routed.inside, fun _ => routed.finds⟩
    · have routed := second.extend third.later
      exact ⟨routed.leads, routed.inside, fun _ => routed.finds⟩
    · exact ⟨third.leads, third.inside, fun _ => third.finds⟩

/-- A later state of the splicer does not disturb a node. -/
theorem SplicedNode.extend {nd nd' : Node} {needFlat : Bool}
    (spliced : SplicedNode st size nd nd' needFlat) (later : Later st st') :
    SplicedNode st' size nd nd' needFlat := by
  have read {r : TensorId} {want : Bool} {ref : TensorId} {P : Prop}
      (here : Leads st.converts size r ref ∧ r < (st.g.tensors.length : Int) ∧
        (P → IsRead st.g r → flat st.g r = want)) :
      Leads st'.converts size r ref ∧ r < (st'.g.tensors.length : Int) ∧
        (P → IsRead st'.g r → flat st'.g r = want) := by
    refine ⟨here.1.mono later.converts, here.2.1.trans_le (ofNat_le.mpr later.size),
      fun p read => ?_⟩
    rw [later.sameFlat here.2.1]
    exact here.2.2 p (read.of_initializers later.initializers.symm)
  exact ⟨spliced.same, spliced.length, fun i r ref found named => read (spliced.inputs i r ref found named),
    read spliced.residual, read spliced.bias, spliced.skipped⟩

/-! ## All nodes -/

/-- **Every node is routed, and nothing else about it changes.** -/
theorem spliceNodes_spliced (nodes : List Node) (st : Splice) (inv : SpliceInv a st)
    (old : ∀ nd ∈ nodes, ∀ ref ∈ nd.reads, ref < (a.tensors.length : Int))
    (written : ∀ nd ∈ nodes, out0 nd < (a.tensors.length : Int)) :
    SpliceInv a (spliceNodes st nodes).1 ∧ Later st (spliceNodes st nodes).1 ∧
      List.Forall₂ (fun nd nd' => SplicedNode (spliceNodes st nodes).1 a.tensors.length nd nd'
        (flat a (out0 nd))) nodes (spliceNodes st nodes).2 := by
  induction nodes generalizing st with
  | nil => exact ⟨inv, .refl st, .nil⟩
  | cons nd rest ih =>
    obtain ⟨inv', later, spliced⟩ := spliceNode_spliced inv (old nd mem_cons_self)
      (written nd mem_cons_self)
    obtain ⟨inv'', further, others⟩ := ih _ inv'
      (fun b mem => old b (mem_cons_of_mem _ mem))
      fun b mem => written b (mem_cons_of_mem _ mem)
    exact ⟨inv'', later.trans further, .cons (spliced.extend further) others⟩

/-! ## The outputs -/

/-- A tensor that the splicer gives a flat copy where it is a graph output. -/
def Packed (a : Graph) (t : TensorId) : Prop := IsRead a t ∧ flat a t = false

/-- The graph in which a tensor has made room for its flat copy. -/
def renamed (g : Graph) (out : TensorId) : Graph :=
  g.updateDesc out fun d => { d with name := d.name ++ str "#nc4", isOutput := false }

theorem renamed_initializers (g : Graph) (out : TensorId) :
    (renamed g out).initializers = g.initializers := by
  unfold renamed Graph.updateDesc
  split <;> rfl

theorem desc_renamed_ne (apart : t ≠ out) :
    (renamed g out).desc t = g.desc t := Onnx.desc_updateDesc_ne apart g _

theorem desc_renamed_self (low : 0 ≤ out)
    (inside : out < (g.tensors.length : Int)) :
    (renamed g out).desc out =
      { g.desc out with name := (g.desc out).name ++ str "#nc4", isOutput := false } :=
  Onnx.desc_updateDesc_self low inside _

theorem plain_renamed (low : 0 ≤ out)
    (inside : out < (g.tensors.length : Int)) (t : TensorId) :
    plain ((renamed g out).desc t) = plain (g.desc t) := by
  by_cases same : t = out
  · rw [same, desc_renamed_self low inside]
    rfl
  · rw [desc_renamed_ne same]

def flatCopy (g : Graph) (out : TensorId) : TensorDesc :=
  { g.desc out with isInitializer := false, isInput := false, isOutput := true, gpuFlat := true }

def outputConversion (st : Splice) (out : TensorId) : Node :=
  { type := .convertLayout, name := str "convertout" ++ decimal st.n, subOp := 0, inputs := [out],
    outputs := [(st.g.tensors.length : Int)] }

theorem spliceOutput_packed (inv : SpliceInv a st) (packed : Packed a out)
    (old : out < (a.tensors.length : Int)) :
    spliceOutput st out =
      (withConversion st (renamed st.g out) st.cache (outputConversion st out) (flatCopy st.g out),
        (st.g.tensors.length : Int)) := by
  have stored : (st.g.desc out).gpuFlat = false := (inv.sameFlat old).trans packed.2
  have constant : st.g.isInitializer out = false := by
    rw [inv.isInitializer]
    exact packed.1.2
  have size : (renamed st.g out).tensors.length = st.g.tensors.length :=
    Onnx.updateDesc_length st.g out _
  unfold spliceOutput
  rw [if_neg (by rw [constant, stored]; simp [packed.1.1])]
  change ((_ : Splice), ((renamed st.g out).tensors.length : Int)) = _
  unfold withConversion outputConversion
  rw [← size]
  rfl

theorem spliceOutput_other (inv : SpliceInv a st) (other : ¬ Packed a out)
    (old : out < (a.tensors.length : Int)) : spliceOutput st out = (st, out) := by
  unfold spliceOutput
  rw [if_pos]
  rw [inv.isInitializer, show (st.g.desc out).gpuFlat = flat a out from inv.sameFlat old]
  unfold Packed IsRead at other
  by_cases absent : out = kNoTensor
  · exact .inl absent
  · refine .inr ?_
    cases constant : a.isInitializer out with
    | true => exact .inl rfl
    | false =>
      refine .inr ?_
      by_contra stored
      exact other ⟨⟨absent, constant⟩, Bool.not_eq_true _ ▸ stored⟩

/-- **An output leads back to the tensor it was, and is flat.** -/
theorem spliceOutput_routed (inv : SpliceInv a st)
    (old : out < (a.tensors.length : Int)) (low : out ≠ kNoTensor → 0 ≤ out) :
    SpliceInv a (spliceOutput st out).1 ∧
      Routed st (spliceOutput st out).1 a.tensors.length out true (spliceOutput st out).2 := by
  have inside : out < (st.g.tensors.length : Int) := old.trans_le (ofNat_le.mpr inv.size)
  by_cases packed : Packed a out
  · have size : (renamed st.g out).tensors.length = st.g.tensors.length :=
      Onnx.updateDesc_length st.g out _
    have plains := plain_renamed (low packed.1.1) inside
    rw [spliceOutput_packed inv packed old]
    obtain ⟨next, later⟩ := inv.convert size
      ((renamed_initializers st.g out).trans inv.initializers) plains
      (c := outputConversion st out) (d := flatCopy st.g out) rfl rfl rfl
      (by rw [size]; rfl) rfl rfl packed.1 old rfl
      (by rw [inv.sameFlat old, packed.2]; exact Bool.false_ne_true) (.inl rfl)
    refine ⟨next, later, .inr ⟨_, mem_append_right _ (mem_singleton_self _), rfl, rfl⟩,
      ?_, fun _ => ?_⟩
    · change (st.g.tensors.length : Int) < (((renamed st.g out).addTensor _).1.tensors.length : Int)
      rw [show ((renamed st.g out).addTensor _).1.tensors.length = st.g.tensors.length + 1 from
        length_append.trans (congrArg (· + 1) size)]
      exact_mod_cast st.g.tensors.length.lt_succ_self
    · refine (flat_addTensor (renamed st.g out) _ _).trans (if_pos ?_)
      rw [size]
  · rw [spliceOutput_other inv packed old]
    refine ⟨inv, .refl st, .inl ⟨rfl, old⟩, inside, fun read => ?_⟩
    by_contra stored
    refine packed ⟨⟨read.1, by rw [← inv.isInitializer]; exact read.2⟩, ?_⟩
    rw [← inv.sameFlat old]
    exact Bool.not_eq_true _ ▸ stored

theorem spliceOutputs_routed (outs : List TensorId) (st : Splice) (inv : SpliceInv a st)
    (old : ∀ out ∈ outs, out < (a.tensors.length : Int))
    (low : ∀ out ∈ outs, out ≠ kNoTensor → 0 ≤ out) :
    SpliceInv a (spliceOutputs st outs).1 ∧ Later st (spliceOutputs st outs).1 ∧
      List.Forall₂ (fun out r => Routed st (spliceOutputs st outs).1 a.tensors.length out true r)
        outs (spliceOutputs st outs).2 := by
  induction outs generalizing st with
  | nil => exact ⟨inv, .refl st, .nil⟩
  | cons out rest ih =>
    obtain ⟨inv', routed⟩ := spliceOutput_routed inv (old out mem_cons_self)
      (low out mem_cons_self)
    obtain ⟨inv'', later, others⟩ := ih _ inv'
      (fun b mem => old b (mem_cons_of_mem _ mem))
      fun b mem => low b (mem_cons_of_mem _ mem)
    refine ⟨inv'', routed.later.trans later, .cons (routed.extend later) ?_⟩
    exact others.imp fun b r there => { there with later := routed.later.trans there.later }

end Vknn.Import.Layout
