import Vknn.Import.LayoutSplice

/-!
# The spliced graph can be sorted

A conversion stands between the writer of a tensor and the readers it serves.  Where nodes and
tensors have levels that rise from what is read to what is written, the conversions of a tensor
fit in at its level.
-/

namespace Vknn.Import.Layout

open List Graph

/-! ## Graphs the pass receives -/

/-- A position of the tensor table, or none. -/
def InTable (g : Graph) (t : TensorId) : Prop :=
  t ≠ kNoTensor → 0 ≤ t ∧ t < (g.tensors.length : Int)

/-- A graph in order: what it names is in the table, no tensor is written twice, and nothing
depends on itself. -/
structure Wired (g : Graph) : Prop where
  written : Written g.tensors.length (g.nodes.map Node.outputs)
  reads : ∀ nd ∈ g.nodes, ∀ t ∈ nd.reads, InTable g t
  inputs : ∀ t ∈ g.inputs, InTable g t
  outputs : ∀ t ∈ g.outputs, InTable g t
  acyclic : g.DependencyAcyclic
  others : ∀ i, ∀ t ∈ (g.node i).reads, ¬ g.Writes i t

variable {g a : Graph} {st : Splice} {nodes' : List Node} {t : TensorId}

theorem InTable.lt (inside : InTable g t) : t < (g.tensors.length : Int) := by
  by_cases absent : t = kNoTensor
  · rw [absent]
    exact lt_of_lt_of_le (by decide : kNoTensor < 0) (Int.natCast_nonneg _)
  · exact (inside absent).2

variable {i : Nat} {g' s : Graph}

theorem node_mem (inside : i < g.nodes.length) : g.node i ∈ g.nodes := by
  unfold node
  rw [getD_eq_getElem _ _ inside]
  exact getElem_mem inside

theorem lt_of_read (mem : t ∈ (g.node i).reads) (present : t ≠ kNoTensor) : i < g.nodes.length := by
  by_contra beyond
  unfold Graph.node at mem
  rw [getD_eq_default _ _ (Nat.le_of_not_lt beyond)] at mem
  exact present (by simpa [Node.reads] using mem)

theorem Wired.writer_unique (wired : Wired g) {j : Nat} (one : g.Writes i t)
    (two : g.Writes j t) : i = j := by
  have apart := wired.written.apart
  rw [pairwise_map, pairwise_iff_getElem] at apart
  have never {i j : Nat} (one : g.Writes i t) (two : g.Writes j t) : ¬ i < j := by
    intro before
    obtain ⟨inside, present, mem⟩ := one
    obtain ⟨inside', -, mem'⟩ := two
    unfold node at mem mem'
    rw [getD_eq_getElem _ _ inside] at mem
    rw [getD_eq_getElem _ _ inside'] at mem'
    exact apart i j inside inside' before t mem present mem'
  exact Nat.le_antisymm (Nat.le_of_not_lt (never two one)) (Nat.le_of_not_lt (never one two))

/-- Levels of nodes and tensors: a node is above what it reads and below what it writes. -/
structure Levels (g : Graph) (rank : Nat → Nat) (level : TensorId → Nat) : Prop where
  writes : ∀ j t, g.Writes j t → rank j < level t
  reads : ∀ i, ∀ t ∈ (g.node i).reads, level t < rank i

open Classical in
/-- **A graph in order has levels.** -/
theorem Wired.exists_levels (wired : Wired g) :
    ∃ (rank : Nat → Nat) (level : TensorId → Nat), Levels g rank level := by
  obtain ⟨rank, raises⟩ := wired.acyclic.exists_rank
  refine ⟨fun i => 2 * rank i + 1,
    fun t => if known : ∃ j, g.Writes j t then 2 * rank known.choose + 2 else 0, ?_, ?_⟩
  · intro j t writes
    have known : ∃ j, g.Writes j t := ⟨j, writes⟩
    rw [dif_pos known, wired.writer_unique known.choose_spec writes]
    omega
  · intro i t read
    split
    · rename_i known
      have writes := known.choose_spec
      generalize known.choose = j at writes ⊢
      have other : j ≠ i := fun same => wired.others i t read (same ▸ writes)
      have lower := raises j i ⟨lt_of_read read writes.2.1, other, t, read, writes,
        fun k again => (wired.writer_unique again writes).le⟩
      omega
    · omega

/-! ## The assignment keeps a graph in order -/

theorem LayoutOnly.node_bare {g : Graph} (only : LayoutOnly g g') (i : Nat) :
    bareNode (g'.node i) = bareNode (g.node i) := by
  have there := congrArg (fun l : List Node => l[i]?) only.nodes
  rw [getElem?_map, getElem?_map] at there
  unfold Graph.node
  rw [getD_eq_getElem?_getD, getD_eq_getElem?_getD]
  cases one : g'.nodes[i]? with
  | none =>
    cases two : g.nodes[i]? with
    | none => rfl
    | some nd =>
      rw [one, two] at there
      cases there
  | some nd' =>
    cases two : g.nodes[i]? with
    | none =>
      rw [one, two] at there
      cases there
    | some nd =>
      rw [one, two] at there
      exact Option.some.inj there

theorem LayoutOnly.node_reads {g : Graph} (only : LayoutOnly g g') (i : Nat) :
    (g'.node i).reads = (g.node i).reads := by
  have same := congrArg Node.reads (only.node_bare i)
  exact same

theorem LayoutOnly.writes_iff {g : Graph} (only : LayoutOnly g g') (i : Nat) :
    g'.Writes i t ↔ g.Writes i t := by
  have same := congrArg Node.outputs (only.node_bare i)
  have outs : (g'.node i).outputs = (g.node i).outputs := same
  have length : g'.nodes.length = g.nodes.length := by
    have lengths := congrArg List.length only.nodes
    rwa [length_map, length_map] at lengths
  unfold Writes
  rw [outs, length]

theorem Wired.of_layoutOnly {g : Graph} (wired : Wired g) (only : LayoutOnly g g') : Wired g' where
  written := only.written wired.written
  reads nd mem t read := by
    obtain ⟨old, inside, same⟩ := only.node mem
    have reads := congrArg Node.reads same
    have was : old.reads = nd.reads := reads
    unfold InTable
    rw [only.size]
    exact wired.reads old inside t (was ▸ read)
  inputs t mem := by
    unfold InTable
    rw [only.size]
    exact wired.inputs t (only.inputs ▸ mem)
  outputs t mem := by
    unfold InTable
    rw [only.size]
    exact wired.outputs t (only.outputs ▸ mem)
  acyclic := by
    obtain ⟨rank, level, levels⟩ := wired.exists_levels
    refine dependencyAcyclic_of_rank rank fun x y depends => ?_
    obtain ⟨-, -, t, read, last⟩ := depends
    rw [only.node_reads] at read
    exact (levels.writes x t ((only.writes_iff x).mp last.1)).trans (levels.reads y t read)
  others i t read writes := by
    rw [only.node_reads] at read
    exact wired.others i t read ((only.writes_iff i).mp writes)

/-! ## The conversions fit in -/

/-- What the splicer has made of a graph: the state it ends in, and the nodes it routed. -/
structure SplicedFrom (a : Graph) (st : Splice) (nodes' : List Node) : Prop where
  inv : SpliceInv a st
  nodes : List.Forall₂ (fun nd nd' =>
    SplicedNode st a.tensors.length nd nd' (flat a (out0 nd))) a.nodes nodes'

variable {size : Nat} {nd nd' : Node} {needFlat : Bool}

/-- What a routed node reads leads to what the node read. -/
theorem SplicedNode.leads
    (spliced : SplicedNode st size nd nd' needFlat) {r : TensorId} (read : r ∈ nd'.reads) :
    ∃ ref ∈ nd.reads, Leads st.converts size r ref := by
  rcases mem_append.mp read with input | edge
  · obtain ⟨i, found⟩ := mem_iff_getElem?.mp input
    have inside : i < nd.inputs.length := by
      rw [← spliced.length]
      exact (List.getElem?_eq_some_iff.mp found).1
    exact ⟨nd.inputs[i], mem_append_left _ (getElem_mem inside),
      (spliced.inputs i r _ found (getElem?_eq_getElem inside)).1⟩
  · rcases mem_cons.mp edge with rfl | last
    · exact ⟨nd.fusedResidual, by simp [Node.reads], spliced.residual.1⟩
    · obtain rfl := mem_singleton.mp last
      exact ⟨nd.fusedBias, by simp [Node.reads], spliced.bias.1⟩

theorem SplicedNode.outputs
    (spliced : SplicedNode st size nd nd' needFlat) : nd'.outputs = nd.outputs := by
  have same := congrArg Node.outputs spliced.same
  exact same

theorem SplicedFrom.node_old (made : SplicedFrom a st nodes')
    (nodes : s.nodes = nodes' ++ st.converts) (old : i < a.nodes.length) :
    SplicedNode st a.tensors.length (a.node i) (s.node i) (flat a (out0 (a.node i))) := by
  have old' : i < nodes'.length := made.nodes.length_eq ▸ old
  have there := forall₂_iff_get.mp made.nodes |>.2 i old old'
  unfold node
  rw [nodes, getD_eq_getElem _ _ old, getD_append _ _ _ _ old', getD_eq_getElem _ _ old']
  exact there

theorem SplicedFrom.node_new (made : SplicedFrom a st nodes')
    (nodes : s.nodes = nodes' ++ st.converts) (new : a.nodes.length ≤ i)
    (inside : i < s.nodes.length) : s.node i ∈ st.converts := by
  have new' : nodes'.length ≤ i := made.nodes.length_eq ▸ new
  rw [nodes, length_append] at inside
  unfold node
  rw [nodes, getD_append_right _ _ _ _ new', getD_eq_getElem _ _ (by omega)]
  exact getElem_mem _

theorem SpliceInv.conversion_unique (inv : SpliceInv a st) {b c : Node} (one : b ∈ st.converts)
    (two : c ∈ st.converts) (same : b.outputs = c.outputs) : b = c := by
  have symmetric : Std.Symm fun b c : Node => b.outputs ≠ c.outputs := ⟨fun _ _ differ => differ.symm⟩
  by_contra other
  exact inv.apart.forall one two other same

/-- **The dependencies of the spliced graph have no cycle.** -/
theorem SplicedFrom.acyclic (made : SplicedFrom a st nodes') (wired : Wired a)
    (nodes : s.nodes = nodes' ++ st.converts) : s.DependencyAcyclic := by
  obtain ⟨rank, level, levels⟩ := wired.exists_levels
  -- a conversion stands at the level of the tensor it reads
  refine dependencyAcyclic_of_rank
    (fun i => if i < a.nodes.length then rank i else level (in0 (s.node i))) fun x y depends => ?_
  obtain ⟨inside, -, t, read, ⟨x_in, present, written⟩, -⟩ := depends
  by_cases x_old : x < a.nodes.length
  · have writes : a.Writes x t := ⟨x_old, present, (made.node_old nodes x_old).outputs ▸ written⟩
    have t_old : t < (a.tensors.length : Int) :=
      (wired.written.inside _ (mem_map_of_mem (node_mem x_old)) t writes.2.2 present).2
    rw [if_pos x_old]
    by_cases y_old : y < a.nodes.length
    · obtain ⟨ref, mem, leads⟩ := (made.node_old nodes y_old).leads read
      rw [if_pos y_old]
      rcases leads with ⟨rfl, -⟩ | ⟨c, c_mem, outputs, -⟩
      · exact (levels.writes x t writes).trans (levels.reads y t mem)
      · obtain ⟨u, v, conversion⟩ := made.inv.converts c c_mem
        have new := conversion.new
        rw [← head_eq_of_cons_eq (outputs.symm.trans conversion.outputs)] at new
        exact absurd t_old (not_lt.mpr new)
    · obtain ⟨u, v, conversion⟩ := made.inv.converts _
        (made.node_new nodes (Nat.le_of_not_lt y_old) inside)
      have from_t : t = u := by
        have reads := read
        unfold Node.reads at reads
        rw [conversion.inputs, conversion.residual, conversion.bias] at reads
        simpa [present] using reads
      rw [if_neg y_old, in0, conversion.inputs, headD_cons, ← from_t]
      exact levels.writes x t writes
  · have x_new := made.node_new nodes (Nat.le_of_not_lt x_old) x_in
    obtain ⟨u, v, conversion⟩ := made.inv.converts _ x_new
    have t_new : t = v := by
      rw [conversion.outputs] at written
      exact mem_singleton.mp written
    subst t_new
    rw [if_neg x_old, in0, conversion.inputs, headD_cons]
    by_cases y_old : y < a.nodes.length
    · obtain ⟨ref, mem, leads⟩ := (made.node_old nodes y_old).leads read
      rw [if_pos y_old]
      rcases leads with ⟨rfl, low⟩ | ⟨c, c_mem, outputs, inputs⟩
      · exact absurd low (not_lt.mpr conversion.new)
      · have same := made.inv.conversion_unique c_mem x_new (outputs.trans conversion.outputs.symm)
        rw [same, conversion.inputs] at inputs
        rw [head_eq_of_cons_eq inputs]
        exact levels.reads y ref mem
    · obtain ⟨u', v', other⟩ := made.inv.converts _
        (made.node_new nodes (Nat.le_of_not_lt y_old) inside)
      have from_t : t = u' := by
        have reads := read
        unfold Node.reads at reads
        rw [other.inputs, other.residual, other.bias] at reads
        simpa [present] using reads
      have old := other.old
      rw [← from_t] at old
      exact absurd old (not_lt.mpr conversion.new)

end Vknn.Import.Layout
