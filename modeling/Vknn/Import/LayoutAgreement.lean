import Mathlib.Tactic.IntervalCases
import Vknn.Import.LayoutNames

/-!
# Layouts agree

What the pass returns: every read finds the layout its reader operates in, the copying operators
left packed move nothing, and without the conversions the graph is the one that came in.  Two
things the splicer leaves undone.  It passes over a node without a first output, whose reads then
keep the layout they had.  And it renames a packed output when it makes the flat copy, also when
that output is an input of the graph, or is listed a second time and copied again under the
longer name.
-/

namespace Vknn.Import.Layout

open List

/-! ## Agreement -/

/-- A node that the pass has put in: it writes a tensor that was not there. -/
def inserted (size : Nat) (nd : Node) : Bool := nd.outputs.any fun u => (size : Int) ≤ u

/-- The tensor that a tensor stands for where a conversion is the identity. -/
def resolve (size : Nat) (g' : Graph) (t : TensorId) : TensorId :=
  match g'.nodes.find? fun nd => inserted size nd && decide (nd.outputs = [t]) with
  | some c => in0 c
  | none => t

/-- A node with other tensors in the place of those it reads. -/
def mapReads (f : TensorId → TensorId) (nd : Node) : Node :=
  { nd with
    inputs := nd.inputs.map f
    fusedResidual := f nd.fusedResidual
    fusedBias := f nd.fusedBias }

/-- What a caller sees of a graph input or output. -/
def external (g : Graph) (t : TensorId) : TensorDesc :=
  { bareDesc (g.desc t) with isInput := false, isOutput := false, isInitializer := false }

/-- The layouts of a graph agree, and but for conversions it is the graph that came in. -/
structure LayoutAgreement (g g' : Graph) : Prop where
  reads : ∀ nd ∈ g'.nodes, inserted g.tensors.length nd = false → ∀ (k : Nat) (t : TensorId),
    nd.inputs[k]? = some t → IsRead g' t → flat g' t = readerWantsFlat g' nd k
  edges : ∀ nd ∈ g'.nodes, inserted g.tensors.length nd = false → ∀ t : TensorId,
    t = nd.fusedResidual ∨ t = nd.fusedBias → IsRead g' t → flat g' t = operatesFlat g' nd
  conversions : ∀ c ∈ g'.nodes, inserted g.tensors.length c = true →
    ∃ t u, Conversion g' g.tensors.length c t u
  copies : ∀ nd ∈ g'.nodes, inserted g.tensors.length nd = false → layoutAgnostic nd = true →
    in0 nd ≠ kNoTensor → out0 nd ≠ kNoTensor → operatesFlat g' nd = false →
    Representable (g'.desc (in0 nd)).shape → Representable (g'.desc (out0 nd)).shape →
      SameNc4Storage (g'.desc (in0 nd)).shape (g'.desc (out0 nd)).shape
  inputs : g'.inputs = g.inputs
  inputsSeen : g'.inputs.map (external g') = g.inputs.map (external g)
  outputs : g'.outputs.map (resolve g.tensors.length g') = g.outputs
  outputsSeen : g'.outputs.map (external g') = g.outputs.map (external g)
  outputsFlat : ∀ t ∈ g'.outputs, IsRead g' t → flat g' t = true
  nodes : ((g'.nodes.filter fun nd => !inserted g.tensors.length nd).map fun nd =>
    bareNode (mapReads (resolve g.tensors.length g') nd)).Perm (g.nodes.map bareNode)
  tensors : ∀ t : TensorId, t < g.tensors.length →
    bareDesc (plain (g'.desc t)) = bareDesc (plain (g.desc t))
  initializers : g'.initializers = g.initializers

/-! ## When they do -/

/-- A node without a first output reads only tensors that are packed, and a grid that is flat. -/
def Covered (a : Graph) : Prop :=
  ∀ nd ∈ a.nodes, out0 nd = kNoTensor →
    (∀ (k : Nat) (t : TensorId), nd.inputs[k]? = some t → IsRead a t → flat a t = readsGrid nd k) ∧
      ∀ t : TensorId, t = nd.fusedResidual ∨ t = nd.fusedBias → IsRead a t → flat a t = false

/-- A packed output is listed once and is no input. -/
def OwnOutputs (a : Graph) : Prop :=
  ListedOnce a a.outputs ∧ ∀ t ∈ a.inputs, ¬ (Packed a t ∧ t ∈ a.outputs)

/-! ## What the pass returns -/

/-- What the pass returns from an assigned graph. -/
structure Result (a : Graph) (st : Splice) (nodes' : List Node) (g' : Graph) : Prop where
  made : SplicedFrom a st nodes'
  tensors : g'.tensors = st.g.tensors
  initializers : g'.initializers = a.initializers
  inputs : g'.inputs = a.inputs
  nodes : g'.nodes.Perm (nodes' ++ st.converts)
  outputs : List.Forall₂ (fun out r => Leads st.converts a.tensors.length r out ∧
    (IsRead g' r → flat g' r = true)) a.outputs g'.outputs
  outputNames : List.Forall₂ (fun out r => nameOf g' r = nameOf a out) a.outputs g'.outputs ↔
    ListedOnce a a.outputs
  inputNames : (∀ t ∈ a.inputs, nameOf g' t = nameOf a t) ↔
    ∀ t ∈ a.inputs, ¬ (Packed a t ∧ t ∈ a.outputs)

theorem desc_of_tensors {g g' : Graph} (same : g'.tensors = g.tensors) (t : TensorId) :
    g'.desc t = g.desc t := by
  unfold Graph.desc
  rw [same]

variable {g a g' : Graph} {st : Splice} {nodes' : List Node} {nd : Node} {t : TensorId}

theorem topoSort_ok {s : Graph} (acyclic : s.DependencyAcyclic) : ∃ nodes,
    s.topoSort = .ok { s with nodes } ∧ nodes.Perm s.nodes := by
  obtain ⟨positions, sorted, -, perm, -⟩ := s.topoSort_correct.1 acyclic
  exact ⟨_, sorted, perm⟩

/-- What the pass returns, given what the splicer made. -/
theorem insertLayoutConverts_ok (wired : Wired (globalLayoutAssign g))
    {st : Splice × List Node} {outs : Splice × List TensorId}
    (spliced : spliceNodes { g := globalLayoutAssign g } (globalLayoutAssign g).nodes = st)
    (copied : spliceOutputs st.1 (globalLayoutAssign g).outputs = outs)
    (made : SplicedFrom (globalLayoutAssign g) outs.1 st.2) : ∃ nodes,
    insertLayoutConverts g = .ok { outs.1.g with nodes, outputs := outs.2 } ∧
      nodes.Perm (st.2 ++ outs.1.converts) := by
  subst spliced copied
  unfold insertLayoutConverts
  dsimp only
  split
  · rename_i nothing
    rw [nothing, append_nil]
    exact ⟨_, rfl, .refl _⟩
  · exact topoSort_ok (made.acyclic wired rfl)

/-- **The pass returns a graph.** -/
theorem insertLayoutConverts_result (wired : Wired g) : ∃ st nodes' g',
    insertLayoutConverts g = .ok g' ∧ Result (globalLayoutAssign g) st nodes' g' := by
  have assigned := globalLayoutAssign_assigned wired.written
  have wired' := wired.of_layoutOnly assigned.only
  have ok := insertLayoutConverts_ok wired' rfl rfl
  generalize globalLayoutAssign g = a at assigned wired' ok ⊢
  obtain ⟨inv₁, -, routed⟩ := spliceNodes_spliced a.nodes { g := a } (.start a)
    (fun nd mem t read => (wired'.reads nd mem t read).lt)
    fun nd mem => by
      by_cases present : out0 nd = kNoTensor
      · rw [present]
        exact lt_of_lt_of_le (by decide : kNoTensor < 0) (Int.natCast_nonneg _)
      · exact (wired'.written.inside _ (mem_map_of_mem mem) _ (out0_mem present) present).2
  have adds := spliceNodes_adds a.nodes { g := a }
  generalize spliceNodes { g := a } a.nodes = st at *
  obtain ⟨inv₂, later, outs⟩ := spliceOutputs_routed a.outputs st.1 inv₁
    (fun out mem => (wired'.outputs out mem).lt)
    fun out mem present => (wired'.outputs out mem present).1
  have outputNames := names_results_iff a.outputs st.1 inv₁ wired'.outputs
  have old {t : TensorId} (inside : t < (a.tensors.length : Int)) :
      nameOf st.1.g t = nameOf a t := congrArg TensorDesc.name (adds.desc t inside)
  have inputs := (spliceOutputs_inputs a.outputs st.1).trans adds.inputs
  have inputNames (t : TensorId) (mem : t ∈ a.inputs) :
      nameOf (spliceOutputs st.1 a.outputs).1.g t = nameOf a t ↔
        ¬ (Packed a t ∧ t ∈ a.outputs) := by
    have inside := (wired'.inputs t mem).lt
    rw [← old inside]
    constructor
    · rintro same ⟨packed, listed⟩
      have longer := name_spliceOutputs_lt a.outputs _ inv₁ wired'.outputs packed listed
      rw [same] at longer
      exact absurd longer (lt_irrefl _)
    · exact name_spliceOutputs_kept a.outputs _ inv₁ wired'.outputs
        (inside.trans_le (Int.ofNat_le.mpr inv₁.size))
  -- the names of the outputs before the copies are those of the assigned graph
  rw [forall₂_iff_zip] at outputNames
  have sameNames (r u : TensorId) (pair : (u, r) ∈ a.outputs.zip (spliceOutputs st.1 a.outputs).2) :
      nameOf st.1.g u = nameOf a u := old (wired'.outputs u (of_mem_zip pair).1).lt
  have made : SplicedFrom a (spliceOutputs st.1 a.outputs).1 st.2 :=
    ⟨inv₂, routed.imp fun nd nd' here => here.extend later⟩
  obtain ⟨nodes, returned, perm⟩ := ok made
  refine ⟨(spliceOutputs st.1 a.outputs).1, st.2, _, returned,
    ⟨made, rfl, inv₂.initializers, inputs, perm, ?_, ?_, forall₂_congr inputNames⟩⟩
  · exact outs.imp fun out r here => ⟨here.leads, fun read => here.finds read⟩
  · rw [← outputNames, forall₂_iff_zip]
    refine and_congr_right fun _ => ?_
    exact ⟨fun each u r pair => (each pair).trans (sameNames r u pair).symm,
      fun each u r pair => (each pair).trans (sameNames r u pair)⟩

/-! ## The nodes of the result -/

theorem exists_of_forall₂ {α β : Type} {R : α → β → Prop} {xs : List α} {ys : List β}
    (related : List.Forall₂ R xs ys) {y : β} (mem : y ∈ ys) : ∃ x ∈ xs, R x y := by
  induction related with
  | nil => cases mem
  | cons first _ ih =>
    rcases mem_cons.mp mem with rfl | later
    · exact ⟨_, mem_cons_self, first⟩
    · obtain ⟨x, x_mem, holds⟩ := ih later
      exact ⟨x, mem_cons_of_mem _ x_mem, holds⟩

theorem exists_of_forall₂_left {α β : Type} {R : α → β → Prop} {xs : List α} {ys : List β}
    (related : List.Forall₂ R xs ys) {x : α} (mem : x ∈ xs) : ∃ y ∈ ys, R x y :=
  exists_of_forall₂ related.flip mem

theorem Result.desc (result : Result a st nodes' g') (t : TensorId) : g'.desc t = st.g.desc t :=
  desc_of_tensors result.tensors t

theorem Result.sameFlat (result : Result a st nodes' g') (old : t < (a.tensors.length : Int)) :
    flat g' t = flat a t := by
  have same := result.made.inv.sameFlat old
  unfold flat at same ⊢
  rwa [result.desc]

theorem Result.flat_eq (result : Result a st nodes' g') (t : TensorId) : flat g' t = flat st.g t := by
  unfold flat
  rw [result.desc]

theorem Result.isRead_iff (result : Result a st nodes' g') : IsRead g' t ↔ IsRead a t :=
  ⟨fun read => read.of_initializers result.initializers.symm,
    fun read => read.of_initializers result.initializers⟩

theorem Result.isRead_state (result : Result a st nodes' g') : IsRead g' t ↔ IsRead st.g t :=
  result.isRead_iff.trans ⟨fun read => read.of_initializers result.made.inv.initializers,
    fun read => read.of_initializers result.made.inv.initializers.symm⟩

/-- A conversion of the state is one of the result. -/
theorem Result.conversion (result : Result a st nodes' g') {c : Node} (mem : c ∈ st.converts) :
    ∃ t u, Conversion g' a.tensors.length c t u := by
  obtain ⟨t, u, conversion⟩ := result.made.inv.converts c mem
  refine ⟨t, u, { conversion with
    source := result.isRead_state.mpr conversion.source
    inside := result.tensors ▸ conversion.inside
    source_flat := (result.flat_eq t).trans conversion.source_flat
    target_flat := (result.flat_eq u).trans conversion.target_flat
    data := ?_ }⟩
  rw [result.desc, result.desc]
  exact conversion.data

variable {size : Nat} {old : Node} {needFlat : Bool} {r : TensorId}

theorem inserted_conversion {c : Node} {u : TensorId}
    (conversion : Conversion g size c t u) : inserted size c = true := by
  unfold inserted
  rw [conversion.outputs, any_cons, Bool.or_eq_true]
  exact .inl (decide_eq_true conversion.new)

theorem not_inserted_of_outputs (low : ∀ t ∈ nd.outputs, t < (size : Int)) :
    inserted size nd = false := by
  unfold inserted
  refine any_eq_false.mpr fun t mem => ?_
  rw [decide_eq_true_eq]
  exact not_le.mpr (low t mem)

theorem Wired.writes_lt (wired : Wired a) (mem : nd ∈ a.nodes) :
    ∀ t ∈ nd.outputs, t < (a.tensors.length : Int) := by
  intro t written
  by_cases present : t = kNoTensor
  · rw [present]
    exact lt_of_lt_of_le (by decide : kNoTensor < 0) (Int.natCast_nonneg _)
  · exact (wired.written.inside _ (mem_map_of_mem mem) t written present).2

theorem Result.not_inserted (result : Result a st nodes' g') (wired : Wired a)
    (mem : nd ∈ nodes') : inserted a.tensors.length nd = false := by
  obtain ⟨old, inside, spliced⟩ := exists_of_forall₂ result.made.nodes mem
  exact not_inserted_of_outputs (spliced.outputs ▸ wired.writes_lt inside)

theorem Result.mem_nodes (result : Result a st nodes' g') (mem : nd ∈ g'.nodes) :
    nd ∈ nodes' ∨ nd ∈ st.converts := mem_append.mp (result.nodes.mem_iff.mp mem)

/-- A node that was not put in comes from a node of the graph. -/
theorem Result.old_node (result : Result a st nodes' g') (mem : nd ∈ g'.nodes)
    (kept : inserted a.tensors.length nd = false) : ∃ old ∈ a.nodes,
      SplicedNode st a.tensors.length old nd (flat a (out0 old)) := by
  rcases result.mem_nodes mem with routed | conversion
  · exact exists_of_forall₂ result.made.nodes routed
  · obtain ⟨t, u, there⟩ := result.conversion conversion
    rw [inserted_conversion there] at kept
    cases kept

/-! ## Reads -/

theorem SplicedNode.out0_eq
    (spliced : SplicedNode st size old nd needFlat) : out0 nd = out0 old := by
  unfold out0
  rw [spliced.outputs]

theorem SplicedNode.readsGrid_eq
    (spliced : SplicedNode st size old nd needFlat) (k : Nat) : readsGrid nd k = readsGrid old k := by
  have type := congrArg Node.type spliced.same
  have attr := congrArg Node.attr spliced.same
  have type' : nd.type = old.type := type
  have attr' : nd.attr = old.attr := attr
  unfold readsGrid
  rw [type', attr']

/-- The layout a node of the result operates in was its own before. -/
theorem Result.operatesFlat_eq (result : Result a st nodes' g') (wired : Wired a)
    (inside : old ∈ a.nodes) (same : out0 nd = out0 old) :
    operatesFlat g' nd = if out0 old = kNoTensor then false else flat a (out0 old) := by
  unfold operatesFlat
  rw [same]
  split
  · rfl
  · rename_i present
    exact result.sameFlat (wired.writes_lt inside _ (out0_mem present))

/-- **Every read finds the layout its reader operates in, where the nodes without a first output
are covered.** -/
theorem Result.reads (result : Result a st nodes' g') (wired : Wired a) (covered : Covered a)
    (mem : nd ∈ g'.nodes) (kept : inserted a.tensors.length nd = false) :
    (∀ (k : Nat) (t : TensorId), nd.inputs[k]? = some t → IsRead g' t →
      flat g' t = readerWantsFlat g' nd k) ∧
    ∀ t : TensorId, t = nd.fusedResidual ∨ t = nd.fusedBias → IsRead g' t →
      flat g' t = operatesFlat g' nd := by
  obtain ⟨old, inside, spliced⟩ := result.old_node mem kept
  have operates := result.operatesFlat_eq wired inside spliced.out0_eq
  unfold readerWantsFlat
  by_cases absent : out0 old = kNoTensor
  · have same := spliced.skipped absent
    subst same
    obtain ⟨ins, edges⟩ := covered nd inside absent
    have low {t : TensorId} (read : t ∈ nd.reads) : flat g' t = flat a t :=
      result.sameFlat (wired.reads nd inside t read).lt
    rw [operates, if_pos absent]
    refine ⟨fun k t found read => ?_, fun t edge read => ?_⟩
    · rw [low (mem_append_left _ (mem_of_getElem? found)),
        ins k t found (result.isRead_iff.mp read)]
      cases readsGrid nd k <;> rfl
    · rw [low (by rcases edge with rfl | rfl <;> simp [Node.reads])]
      exact edges t edge (result.isRead_iff.mp read)
  · rw [operates, if_neg absent]
    refine ⟨fun k t found read => ?_, fun t edge read => ?_⟩
    · have k_in : k < old.inputs.length := by
        rw [← spliced.length]
        exact (List.getElem?_eq_some_iff.mp found).1
      have routed := (spliced.inputs k t _ found (getElem?_eq_getElem k_in)).2.2 absent
      rw [result.flat_eq, routed (result.isRead_state.mp read), spliced.readsGrid_eq]
    · rw [result.flat_eq]
      rcases edge with rfl | rfl
      · exact spliced.residual.2.2 absent (result.isRead_state.mp read)
      · exact spliced.bias.2.2 absent (result.isRead_state.mp read)

/-- Where every read finds its layout, the nodes without a first output are covered. -/
theorem Result.covered (result : Result a st nodes' g') (wired : Wired a)
    (reads : ∀ nd ∈ g'.nodes, inserted a.tensors.length nd = false → ∀ (k : Nat) (t : TensorId),
      nd.inputs[k]? = some t → IsRead g' t → flat g' t = readerWantsFlat g' nd k)
    (edges : ∀ nd ∈ g'.nodes, inserted a.tensors.length nd = false → ∀ t : TensorId,
      t = nd.fusedResidual ∨ t = nd.fusedBias → IsRead g' t → flat g' t = operatesFlat g' nd) :
    Covered a := by
  intro nd inside absent
  obtain ⟨nd', routed, spliced⟩ := exists_of_forall₂_left result.made.nodes inside
  have same := spliced.skipped absent
  subst same
  have mem : nd' ∈ g'.nodes := result.nodes.mem_iff.mpr (mem_append_left _ routed)
  have kept := result.not_inserted wired routed
  have low {t : TensorId} (read : t ∈ nd'.reads) : flat g' t = flat a t :=
    result.sameFlat (wired.reads nd' inside t read).lt
  have operates : operatesFlat g' nd' = false := by
    unfold operatesFlat
    rw [if_pos absent]
  refine ⟨fun k t found read => ?_, fun t edge read => ?_⟩
  · have finds := reads nd' mem kept k t found (result.isRead_iff.mpr read)
    rw [low (mem_append_left _ (mem_of_getElem? found)), readerWantsFlat, operates] at finds
    rw [finds]
    cases readsGrid nd' k <;> rfl
  · have finds := edges nd' mem kept t edge (result.isRead_iff.mpr read)
    rw [low (by rcases edge with rfl | rfl <;> simp [Node.reads]), operates] at finds
    exact finds

/-! ## The graph without the conversions -/

/-- A read of the result resolves to the tensor it leads to. -/
theorem Result.resolve_leads (result : Result a st nodes' g') (wired : Wired a) {ref : TensorId}
    (leads : Leads st.converts a.tensors.length r ref) : resolve a.tensors.length g' r = ref := by
  unfold resolve
  rcases leads with ⟨rfl, low⟩ | ⟨c, mem, outputs, inputs⟩
  · rw [find?_eq_none.mpr]
    intro nd nd_mem both
    rw [Bool.and_eq_true, decide_eq_true_eq] at both
    rw [not_inserted_of_outputs fun t written => by
      rw [both.2] at written
      rwa [mem_singleton.mp written]] at both
    cases both.1
  · obtain ⟨t, u, conversion⟩ := result.conversion mem
    have here : c ∈ g'.nodes := result.nodes.mem_iff.mpr (mem_append_right _ mem)
    have fits : (inserted a.tensors.length c && decide (c.outputs = [r])) = true := by
      rw [inserted_conversion conversion, outputs, decide_eq_true rfl]
      rfl
    cases found : g'.nodes.find? fun nd => inserted a.tensors.length nd && decide (nd.outputs = [r]) with
    | none => exact absurd fits (find?_eq_none.mp found c here)
    | some d =>
      have holds := find?_some found
      rw [Bool.and_eq_true, decide_eq_true_eq] at holds
      have d_mem : d ∈ st.converts := by
        refine (result.mem_nodes (mem_of_find?_eq_some found)).resolve_left fun routed => ?_
        rw [result.not_inserted wired routed] at holds
        cases holds.1
      have same := result.made.inv.conversion_unique d_mem mem (holds.2.trans outputs.symm)
      change in0 d = ref
      rw [same, in0, inputs]
      rfl

/-- A routed node is the node it was where its reads are resolved. -/
theorem Result.mapReads_spliced (result : Result a st nodes' g') (wired : Wired a)
    (spliced : SplicedNode st a.tensors.length old nd needFlat) :
    mapReads (resolve a.tensors.length g') nd = old := by
  have ins : nd.inputs.map (resolve a.tensors.length g') = old.inputs := by
    refine ext_getElem (by rw [length_map, spliced.length]) fun k k_in k_in' => ?_
    rw [length_map] at k_in
    rw [getElem_map]
    exact result.resolve_leads wired
      (spliced.inputs k _ _ (getElem?_eq_getElem k_in) (getElem?_eq_getElem k_in')).1
  have same := spliced.same
  unfold mapReads
  rw [ins, result.resolve_leads wired spliced.residual.1, result.resolve_leads wired spliced.bias.1]
  exact same

/-- **Without the conversions the nodes are those that came in.** -/
theorem Result.nodes_resolved (result : Result a st nodes' g') (wired : Wired a) :
    ((g'.nodes.filter fun nd => !inserted a.tensors.length nd).map fun nd =>
      bareNode (mapReads (resolve a.tensors.length g') nd)).Perm (a.nodes.map bareNode) := by
  have kept : (nodes' ++ st.converts).filter (fun nd => !inserted a.tensors.length nd) = nodes' := by
    rw [filter_append, filter_eq_self.mpr, filter_eq_nil_iff.mpr, append_nil]
    · intro c mem
      obtain ⟨t, u, conversion⟩ := result.conversion mem
      rw [inserted_conversion conversion]
      exact Bool.false_ne_true
    · intro nd mem
      rw [result.not_inserted wired mem]
      rfl
  have perm := (result.nodes.filter fun nd => !inserted a.tensors.length nd).map fun nd =>
    bareNode (mapReads (resolve a.tensors.length g') nd)
  rw [kept] at perm
  refine perm.trans (.of_eq (forall₂_eq_eq_eq ▸ ?_))
  refine forall₂_map_left_iff.mpr (forall₂_map_right_iff.mpr ?_)
  exact result.made.nodes.flip.imp fun nd old spliced =>
    congrArg bareNode (result.mapReads_spliced wired spliced)

/-! ## Copies and what callers see -/

/-- What a read of the result leads to has the same data. -/
theorem Result.data_leads (result : Result a st nodes' g') {ref : TensorId}
    (leads : Leads st.converts a.tensors.length r ref) :
    bareDesc (plain (g'.desc r)) = bareDesc (plain (a.desc ref)) := by
  have old {t : TensorId} (inside : t < (a.tensors.length : Int)) :
      bareDesc (plain (g'.desc t)) = bareDesc (plain (a.desc t)) := by
    rw [result.desc, result.made.inv.old t inside]
  rcases leads with ⟨rfl, low⟩ | ⟨c, mem, outputs, inputs⟩
  · exact old low
  · obtain ⟨t, u, conversion⟩ := result.conversion mem
    rw [← head_eq_of_cons_eq (conversion.outputs.symm.trans outputs),
      ← head_eq_of_cons_eq (conversion.inputs.symm.trans inputs), conversion.data]
    exact old conversion.old

theorem shape_of_data {d e : TensorDesc} (same : bareDesc (plain d) = bareDesc (plain e)) :
    d.shape = e.shape := by
  have shapes := congrArg TensorDesc.shape same
  exact shapes

theorem SplicedNode.in0_leads
    (spliced : SplicedNode st size old nd needFlat) : Leads st.converts size (in0 nd) (in0 old) := by
  unfold in0
  rcases ins : old.inputs with _ | ⟨first, rest⟩
  · have none : nd.inputs = [] := length_eq_zero_iff.mp (by rw [spliced.length, ins]; rfl)
    rw [none]
    exact .inl ⟨rfl, lt_of_lt_of_le (by decide : kNoTensor < 0) (Int.natCast_nonneg _)⟩
  · rcases ins' : nd.inputs with _ | ⟨first', rest'⟩
    · have length := spliced.length
      rw [ins, ins'] at length
      cases length
    · exact (spliced.inputs 0 first' first (by rw [ins']; rfl) (by rw [ins]; rfl)).1

/-- **A copying operator that is left packed moves nothing.** -/
theorem Result.copies (result : Result a st nodes' g') (wired : Wired a)
    (keeps : ∀ nd ∈ a.nodes, CopyKeeps a nd) (mem : nd ∈ g'.nodes)
    (kept : inserted a.tensors.length nd = false) (agnostic : layoutAgnostic nd = true)
    (reads : in0 nd ≠ kNoTensor) (writes : out0 nd ≠ kNoTensor)
    (packed : operatesFlat g' nd = false) (from_ok : Representable (g'.desc (in0 nd)).shape)
    (into_ok : Representable (g'.desc (out0 nd)).shape) :
    SameNc4Storage (g'.desc (in0 nd)).shape (g'.desc (out0 nd)).shape := by
  obtain ⟨old, inside, spliced⟩ := result.old_node mem kept
  have type := congrArg Node.type spliced.same
  have sameType : nd.type = old.type := type
  have leads := spliced.in0_leads
  have out_low := wired.writes_lt inside _ (out0_mem (spliced.out0_eq ▸ writes))
  have in_shape := shape_of_data (result.data_leads leads)
  have out_shape := shape_of_data (result.data_leads (r := out0 old) (.inl ⟨rfl, out_low⟩))
  rw [result.operatesFlat_eq wired inside spliced.out0_eq, ← spliced.out0_eq, if_neg writes,
    spliced.out0_eq] at packed
  rw [spliced.out0_eq] at writes into_ok ⊢
  have present : in0 old ≠ kNoTensor := by
    rcases leads with ⟨same, -⟩ | ⟨c, c_mem, -, inputs⟩
    · exact same ▸ reads
    · obtain ⟨t, u, conversion⟩ := result.conversion c_mem
      rw [← head_eq_of_cons_eq (conversion.inputs.symm.trans inputs)]
      exact conversion.source.1
  have identical := keeps old inside (by unfold layoutAgnostic at agnostic ⊢; rwa [← sameType])
    present writes packed
  rw [← in_shape, ← out_shape] at identical
  exact sameNc4Storage from_ok into_ok identical

theorem external_eq_iff {g g' : Graph} {t : TensorId} : external g' r = external g t ↔
      nameOf g' r = nameOf g t ∧ bareDesc (plain (g'.desc r)) = bareDesc (plain (g.desc t)) := by
  unfold external nameOf bareDesc plain
  generalize g'.desc r = d
  generalize g.desc t = e
  obtain ⟨n, s, ps, dt, f, i, o, c, fl, st⟩ := d
  obtain ⟨n', s', ps', dt', f', i', o', c', fl', st'⟩ := e
  simp only [TensorDesc.mk.injEq, true_and]

/-- **The outputs are seen as before if and only if the packed ones are listed once.** -/
theorem Result.outputsSeen_iff (result : Result a st nodes' g') :
    g'.outputs.map (external g') = a.outputs.map (external a) ↔ ListedOnce a a.outputs := by
  rw [← result.outputNames, eq_comm, ← forall₂_eq_eq_eq, forall₂_map_left_iff,
    forall₂_map_right_iff, forall₂_iff_zip, forall₂_iff_zip]
  refine and_congr_right fun _ => ?_
  have data {u r : TensorId} (pair : (u, r) ∈ a.outputs.zip g'.outputs) :
      bareDesc (plain (g'.desc r)) = bareDesc (plain (a.desc u)) :=
    result.data_leads ((forall₂_iff_zip.mp result.outputs).2 pair).1
  exact ⟨fun each u r pair => (external_eq_iff.mp (each pair).symm).1,
    fun each u r pair => (external_eq_iff.mpr ⟨each pair, data pair⟩).symm⟩

/-- **The inputs are seen as before if and only if none is a packed output.** -/
theorem Result.inputsSeen_iff (result : Result a st nodes' g') (wired : Wired a) :
    g'.inputs.map (external g') = a.inputs.map (external a) ↔
      ∀ t ∈ a.inputs, ¬ (Packed a t ∧ t ∈ a.outputs) := by
  rw [← result.inputNames, result.inputs, map_inj_left]
  refine forall₂_congr fun t mem => ?_
  rw [external_eq_iff]
  exact and_iff_left (result.data_leads (.inl ⟨rfl, (wired.inputs t mem).lt⟩))

theorem Result.outputs_resolved (result : Result a st nodes' g') (wired : Wired a) :
    g'.outputs.map (resolve a.tensors.length g') = a.outputs := by
  rw [← forall₂_eq_eq_eq, forall₂_map_left_iff]
  exact result.outputs.flip.imp fun r out here => result.resolve_leads wired here.1

/-- **Layouts agree with the assigned graph if and only if the nodes without a first output are
covered and the packed outputs are free to be renamed.** -/
theorem Result.agreement_iff (result : Result a st nodes' g') (wired : Wired a)
    (keeps : ∀ nd ∈ a.nodes, CopyKeeps a nd) :
    LayoutAgreement a g' ↔ Covered a ∧ OwnOutputs a := by
  constructor
  · intro agreement
    exact ⟨result.covered wired agreement.reads agreement.edges,
      result.outputsSeen_iff.mp agreement.outputsSeen,
      (result.inputsSeen_iff wired).mp agreement.inputsSeen⟩
  · rintro ⟨covered, once, own⟩
    exact {
      reads := fun nd mem kept => (result.reads wired covered mem kept).1
      edges := fun nd mem kept => (result.reads wired covered mem kept).2
      conversions := fun c mem put => by
        refine (result.mem_nodes mem).elim (fun routed => ?_) result.conversion
        rw [result.not_inserted wired routed] at put
        cases put
      copies := fun nd mem kept => result.copies wired keeps mem kept
      inputs := result.inputs
      inputsSeen := (result.inputsSeen_iff wired).mpr own
      outputs := result.outputs_resolved wired
      outputsSeen := result.outputsSeen_iff.mpr once
      outputsFlat := fun t mem => by
        obtain ⟨out, -, -, finds⟩ := exists_of_forall₂ result.outputs mem
        exact finds
      nodes := result.nodes_resolved wired
      tensors := fun t inside => result.data_leads (.inl ⟨rfl, inside⟩)
      initializers := result.initializers }

/-! ## The result -/

theorem LayoutOnly.symm (only : LayoutOnly g a) : LayoutOnly a g :=
  ⟨only.size.symm, fun t => (only.desc t).symm, only.nodes.symm, only.inputs.symm,
    only.outputs.symm, only.initializers.symm⟩

/-- Agreement does not look at the layouts a graph came in with. -/
theorem LayoutAgreement.of_layoutOnly (agreement : LayoutAgreement a g') (only : LayoutOnly a g) :
    LayoutAgreement g g' := by
  have seen : external g = external a := by
    funext t
    have same := only.desc t
    unfold external
    rw [same]
  obtain ⟨reads, edges, conversions, copies, inputs, inputsSeen, outputs, outputsSeen, outputsFlat,
    nodes, tensors, initializers⟩ := agreement
  rw [← only.size] at reads edges conversions copies outputs nodes tensors
  rw [← only.inputs] at inputs inputsSeen
  rw [← only.outputs] at outputs outputsSeen
  rw [← seen] at inputsSeen outputsSeen
  rw [← only.nodes] at nodes
  refine ⟨reads, edges, conversions, copies, inputs, inputsSeen, outputs, outputsSeen, outputsFlat,
    nodes, fun t inside => (tensors t inside).trans ?_, initializers.trans only.initializers.symm⟩
  have same := congrArg plain (only.desc t)
  exact same.symm

/-- A convolution, and a transposition that reads its packed result flat. -/
def packedThenFlat : Graph where
  tensors := [{ name := str "x", shape := [1, 4, 2, 2], isInput := true },
    { name := str "y", shape := [1, 4, 2, 2] },
    { name := str "z", shape := [1, 2, 2, 4], isOutput := true }]
  nodes := [{ type := .conv, inputs := [0], outputs := [1] },
    { type := .transpose, inputs := [1], outputs := [2] }]
  inputs := [0]
  outputs := [2]

theorem wired_packedThenFlat : Wired packedThenFlat where
  written := ⟨by decide, by decide⟩
  reads := by
    unfold InTable
    decide
  inputs := by
    unfold InTable
    decide
  outputs := by
    unfold InTable
    decide
  acyclic := packedThenFlat.length_order_eq_iff.mp (by decide)
  others := by
    unfold Graph.Writes
    intro i t read writes
    have inside : i < 2 := writes.1
    interval_cases i
    · exact absurd writes.2.2 ((by decide : ∀ t ∈ (packedThenFlat.node 0).reads,
        t ∉ (packedThenFlat.node 0).outputs) t read)
    · exact absurd writes.2.2 ((by decide : ∀ t ∈ (packedThenFlat.node 1).reads,
        t ∉ (packedThenFlat.node 1).outputs) t read)

def passThrough : Graph where
  tensors := [{ name := str "x", shape := [1, 4, 2, 2], isInput := true, isOutput := true }]
  inputs := [0]
  outputs := [0]

end Vknn.Import.Layout
