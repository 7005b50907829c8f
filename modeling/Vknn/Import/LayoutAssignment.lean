import Vknn.Import.InsertLayoutConverts
import Vknn.Import.OnnxWalk

/-!
# What the assignment decides

The assignment changes nothing but layouts: the flag of a tensor, and the attribute a fused
node's own layout stands in.  And whatever the votes, the inputs and the high ranks did, an
operator that only copies is left in the packed layout only where its two shapes are stored
alike: the seed sees to it, and every later rule either seeds again or only makes tensors flat.
-/

namespace Vknn.Import.Layout

open List Graph Std

/-! ## Nothing but layouts -/

def bareDesc (d : TensorDesc) : TensorDesc := { d with gpuFlat := false }

/-- A node without the attribute that holds a fused node's layout. -/
def bareNode (nd : Node) : Node := { nd with attr := { map := nd.attr.map.erase (str "pw_flat") } }

def flat (g : Graph) (t : TensorId) : Bool := (g.desc t).gpuFlat

/-- Two graphs that differ in layouts alone. -/
structure LayoutOnly (g g' : Graph) : Prop where
  size : g'.tensors.length = g.tensors.length
  desc : ∀ t, bareDesc (g'.desc t) = bareDesc (g.desc t)
  nodes : g'.nodes.map bareNode = g.nodes.map bareNode
  inputs : g'.inputs = g.inputs
  outputs : g'.outputs = g.outputs
  initializers : g'.initializers = g.initializers

variable {g g' g'' : Graph} {nd : Node} {t : TensorId}

theorem LayoutOnly.refl (g : Graph) : LayoutOnly g g := ⟨rfl, fun _ => rfl, rfl, rfl, rfl, rfl⟩

theorem LayoutOnly.trans (one : LayoutOnly g g') (two : LayoutOnly g' g'') : LayoutOnly g g'' where
  size := two.size.trans one.size
  desc t := (two.desc t).trans (one.desc t)
  nodes := two.nodes.trans one.nodes
  inputs := two.inputs.trans one.inputs
  outputs := two.outputs.trans one.outputs
  initializers := two.initializers.trans one.initializers

theorem LayoutOnly.shape (only : LayoutOnly g g') (t : TensorId) :
    (g'.desc t).shape = (g.desc t).shape := by
  have same := congrArg TensorDesc.shape (only.desc t)
  exact same

theorem LayoutOnly.node (only : LayoutOnly g g') (mem : nd ∈ g'.nodes) :
    ∃ old ∈ g.nodes, bareNode old = bareNode nd := by
  have inside : bareNode nd ∈ g.nodes.map bareNode := only.nodes ▸ mem_map_of_mem mem
  exact mem_map.mp inside

/-! ## Setting a layout -/

theorem flat_setFlat (g : Graph) (f : Bool) (o t : TensorId) : flat (setFlat g f o) t =
      if t = o ∧ 0 ≤ o ∧ o < (g.tensors.length : Int) then f else flat g t := by
  unfold setFlat flat
  by_cases absent : o = kNoTensor
  · rw [if_neg (not_not.mpr absent), if_neg]
    rintro ⟨-, low, -⟩
    rw [absent] at low
    exact absurd low (by decide)
  · rw [if_pos absent]
    by_cases same : t = o
    · subst same
      by_cases inside : 0 ≤ t ∧ t < (g.tensors.length : Int)
      · rw [if_pos ⟨rfl, inside⟩, Onnx.desc_updateDesc_self inside.1 inside.2]
      · rw [if_neg fun both => inside both.2]
        unfold updateDesc desc
        split
        · rename_i low
          have beyond : g.tensors.length ≤ t.toNat := by
            by_contra within
            exact inside ⟨low, (Int.toNat_lt low).mp (Nat.lt_of_not_le within)⟩
          dsimp only
          rw [getD_eq_getElem?_getD, getD_eq_getElem?_getD, getElem?_modify_eq,
            getElem?_eq_none beyond]
          rfl
        · rfl
    · rw [if_neg fun both => same both.1, Onnx.desc_updateDesc_ne same]

theorem layoutOnly_setFlat (g : Graph) (f : Bool) (o : TensorId) :
    LayoutOnly g (setFlat g f o) := by
  unfold setFlat
  split
  · refine ⟨Onnx.updateDesc_length g o _, fun t => ?_, ?_, ?_, Onnx.updateDesc_outputs g o _, ?_⟩
    · unfold updateDesc
      split
      · unfold desc
        split
        · dsimp only
          rw [getD_eq_getElem?_getD, getD_eq_getElem?_getD, getElem?_modify]
          cases g.tensors[t.toNat]? with
          | none => rfl
          | some d =>
            change bareDesc (if o.toNat = t.toNat then _ else d) = bareDesc d
            split <;> rfl
        · rfl
      · rfl
    · rw [Onnx.updateDesc_nodes]
    · unfold updateDesc
      split <;> rfl
    · unfold updateDesc
      split <;> rfl
  · exact .refl g

theorem setFlat_nodes (g : Graph) (f : Bool) (o : TensorId) : (setFlat g f o).nodes = g.nodes := by
  unfold setFlat
  split
  · exact Onnx.updateDesc_nodes g o _
  · rfl

/-! ## Seeding -/

section Outputs

variable (f : Bool) (outputs : List TensorId)

theorem foldl_setFlat_layoutOnly (g : Graph) :
    LayoutOnly g (outputs.foldl (fun h o => setFlat h f o) g) := by
  induction outputs generalizing g with
  | nil => exact .refl g
  | cons o rest ih => exact (layoutOnly_setFlat g f o).trans (ih _)

theorem foldl_setFlat_nodes (g : Graph) :
    (outputs.foldl (fun h o => setFlat h f o) g).nodes = g.nodes := by
  induction outputs generalizing g with
  | nil => rfl
  | cons o rest ih => exact (ih _).trans (setFlat_nodes g f o)

theorem foldl_setFlat_notMem (g : Graph) (other : t ∉ outputs) :
    flat (outputs.foldl (fun h o => setFlat h f o) g) t = flat g t := by
  induction outputs generalizing g with
  | nil => rfl
  | cons o rest ih =>
    rw [mem_cons, not_or] at other
    rw [foldl_cons, ih _ other.2, flat_setFlat, if_neg fun both => other.1 both.1]

theorem foldl_setFlat_mem (g : Graph) (mem : t ∈ outputs) (low : 0 ≤ t)
    (inside : t < (g.tensors.length : Int)) :
    flat (outputs.foldl (fun h o => setFlat h f o) g) t = f := by
  induction outputs generalizing g with
  | nil => cases mem
  | cons o rest ih =>
    have size := (layoutOnly_setFlat g f o).size
    rw [foldl_cons]
    by_cases later : t ∈ rest
    · exact ih _ later (size ▸ inside)
    · have here : t = o := (mem_cons.mp mem).resolve_right later
      rw [foldl_setFlat_notMem f rest _ later, flat_setFlat, if_pos ⟨here, here ▸ low, here ▸ inside⟩]

end Outputs

theorem seedNode_layoutOnly (g : Graph) (nd : Node) : LayoutOnly g (seedNode g nd) :=
  foldl_setFlat_layoutOnly _ _ g

theorem foldl_seedNode_layoutOnly (nodes : List Node) (g : Graph) :
    LayoutOnly g (nodes.foldl seedNode g) := by
  induction nodes generalizing g with
  | nil => exact .refl g
  | cons nd rest ih => exact (seedNode_layoutOnly g nd).trans (ih _)

theorem seedFromProducers_layoutOnly (g : Graph) : LayoutOnly g (seedFromProducers g) :=
  foldl_seedNode_layoutOnly g.nodes g

theorem seedFromProducers_nodes (g : Graph) : (seedFromProducers g).nodes = g.nodes := by
  unfold seedFromProducers
  have general : ∀ (nodes : List Node) (h : Graph), (nodes.foldl seedNode h).nodes = h.nodes := by
    intro nodes
    induction nodes with
    | nil => exact fun _ => rfl
    | cons nd rest ih => exact fun h => (ih _).trans (foldl_setFlat_nodes _ _ h)
  exact general g.nodes g

/-- No tensor is written by two nodes, and what is written is in the table. -/
structure Written (size : Nat) (outputs : List (List TensorId)) : Prop where
  apart : outputs.Pairwise fun a b => ∀ t ∈ a, t ≠ kNoTensor → t ∉ b
  inside : ∀ os ∈ outputs, ∀ t ∈ os, t ≠ kNoTensor → 0 ≤ t ∧ t < (size : Int)

/-- A copying operator in the packed layout has shapes that are stored alike. -/
def CopyKeeps (g : Graph) (nd : Node) : Prop :=
  layoutAgnostic nd = true → in0 nd ≠ kNoTensor → out0 nd ≠ kNoTensor → flat g (out0 nd) = false →
    nc4PackingIdentical (g.desc (in0 nd)).shape (g.desc (out0 nd)).shape = true

theorem CopyKeeps.mono (keeps : CopyKeeps g nd) (only : LayoutOnly g g')
    (down : ∀ t, flat g' t = false → flat g t = false) : CopyKeeps g' nd := by
  intro agnostic reads writes packed
  rw [only.shape, only.shape]
  exact keeps agnostic reads writes (down _ packed)

theorem out0_mem (present : out0 nd ≠ kNoTensor) : out0 nd ∈ nd.outputs := by
  unfold out0 at present ⊢
  cases outputs : nd.outputs with
  | nil =>
    rw [outputs] at present
    exact absurd rfl present
  | cons o rest => exact mem_cons_self

theorem copyKeeps_seedNode (written : Written g.tensors.length [nd.outputs]) :
    CopyKeeps (seedNode g nd) nd := by
  intro agnostic reads writes packed
  have mem := out0_mem writes
  obtain ⟨low, inside⟩ := written.inside nd.outputs (mem_singleton_self _) _ mem writes
  have only := seedNode_layoutOnly g nd
  have seeded : flat (seedNode g nd) (out0 nd) = seedLayout g nd :=
    foldl_setFlat_mem _ _ g mem low inside
  rw [seeded, seedLayout, if_pos ⟨agnostic, reads⟩, Bool.or_eq_false_iff, Bool.not_eq_false'] at packed
  have keeps := packed.2
  rw [agnosticKeepsNc4Packing, if_neg (not_or.mpr ⟨reads, writes⟩)] at keeps
  rw [only.shape, only.shape]
  exact keeps

theorem CopyKeeps.seed (keeps : CopyKeeps g nd) {other : Node}
    (apart : ∀ t ∈ nd.outputs, t ≠ kNoTensor → t ∉ other.outputs) :
    CopyKeeps (seedNode g other) nd := by
  intro agnostic reads writes packed
  have only := seedNode_layoutOnly g other
  have same : flat (seedNode g other) (out0 nd) = flat g (out0 nd) :=
    foldl_setFlat_notMem _ _ g (apart _ (out0_mem writes) writes)
  rw [only.shape, only.shape]
  exact keeps agnostic reads writes (same ▸ packed)

theorem CopyKeeps.seeds (rest : List Node) (keeps : CopyKeeps g nd)
    (apart : ∀ other ∈ rest, ∀ t ∈ nd.outputs, t ≠ kNoTensor → t ∉ other.outputs) :
    CopyKeeps (rest.foldl seedNode g) nd := by
  induction rest generalizing g with
  | nil => exact keeps
  | cons other rest ih =>
    exact ih (keeps.seed (apart other mem_cons_self))
      fun b mem => apart b (mem_cons_of_mem _ mem)

theorem copyKeeps_foldl (nodes : List Node) (g : Graph)
    (written : Written g.tensors.length (nodes.map Node.outputs)) :
    ∀ nd ∈ nodes, CopyKeeps (nodes.foldl seedNode g) nd := by
  induction nodes generalizing g with
  | nil => exact fun _ mem => absurd mem not_mem_nil
  | cons first rest ih =>
    obtain ⟨apart, inside⟩ := written
    rw [map_cons, pairwise_cons] at apart
    have size := (seedNode_layoutOnly g first).size
    have tail : Written (seedNode g first).tensors.length (rest.map Node.outputs) :=
      ⟨apart.2, fun os mem => size ▸ inside os (mem_cons_of_mem _ mem)⟩
    intro nd mem
    rcases mem_cons.mp mem with rfl | later
    · have one : CopyKeeps (seedNode g nd) nd :=
        copyKeeps_seedNode ⟨pairwise_singleton _ _, fun os single =>
          inside os (mem_singleton.mp single ▸ mem_cons_self)⟩
      exact one.seeds rest fun other inRest => apart.1 other.outputs (mem_map_of_mem inRest)
    · exact ih _ tail nd later

/-- **After a seed every copying operator in the packed layout has shapes stored alike.** -/
theorem copyKeeps_seeded (written : Written g.tensors.length (g.nodes.map Node.outputs)) :
    ∀ nd ∈ (seedFromProducers g).nodes, CopyKeeps (seedFromProducers g) nd := by
  rw [seedFromProducers_nodes]
  exact copyKeeps_foldl g.nodes g written

/-! ## The later rules -/

theorem bareNode_setRunsFlat (f : Bool) (nd : Node) : bareNode (setRunsFlat f nd) = bareNode nd := by
  unfold bareNode setRunsFlat
  congr 2
  refine ExtTreeMap.ext_getElem? fun k => ?_
  rw [ExtTreeMap.getElem?_erase, ExtTreeMap.getElem?_erase, ExtTreeMap.getElem?_insert]
  split <;> rfl

/-- What a graph keeps through the later rules: it differs in layouts alone, and every copying
operator in the packed layout has shapes that are stored alike. -/
structure Assigned (g g' : Graph) : Prop where
  only : LayoutOnly g g'
  copies : ∀ nd ∈ g'.nodes, CopyKeeps g' nd

theorem LayoutOnly.outputsMap (only : LayoutOnly g g') :
    g'.nodes.map Node.outputs = g.nodes.map Node.outputs := by
  have same := congrArg (List.map Node.outputs) only.nodes
  rw [map_map, map_map] at same
  exact same

theorem LayoutOnly.written (only : LayoutOnly g g')
    (written : Written g.tensors.length (g.nodes.map Node.outputs)) :
    Written g'.tensors.length (g'.nodes.map Node.outputs) := by
  rw [only.outputsMap, only.size]
  exact written

theorem assigned_seed (only : LayoutOnly g g')
    (written : Written g.tensors.length (g.nodes.map Node.outputs)) :
    Assigned g (seedFromProducers g') where
  only := only.trans (seedFromProducers_layoutOnly g')
  copies := copyKeeps_seeded (only.written written)

/-- Layout attributes and flat tensors do not undo an assignment. -/
theorem Assigned.mono (assigned : Assigned g g') (only : LayoutOnly g' g'')
    (down : ∀ t, flat g'' t = false → flat g' t = false) : Assigned g g'' where
  only := assigned.only.trans only
  copies nd mem := by
    obtain ⟨old, inside, same⟩ := only.node mem
    have keeps := (assigned.copies old inside).mono only down
    have type : nd.type = old.type := (congrArg Node.type same).symm
    have ins : nd.inputs = old.inputs := (congrArg Node.inputs same).symm
    have outs : nd.outputs = old.outputs := (congrArg Node.outputs same).symm
    unfold CopyKeeps layoutAgnostic in0 out0 at keeps ⊢
    rw [type, ins, outs]
    exact keeps

theorem voteNode_layoutOnly (flexible : List Nat) (state : Graph × Bool) (i : Nat) :
    LayoutOnly state.1 (voteNode flexible state i).1 ∧
      ∀ t, flat (voteNode flexible state i).1 t = flat state.1 t := by
  unfold voteNode
  dsimp only
  split
  · refine ⟨⟨rfl, fun _ => rfl, ?_, rfl, rfl, rfl⟩, fun _ => rfl⟩
    refine ext_getElem? fun j => ?_
    rw [getElem?_map, getElem?_map, getElem?_modify]
    cases state.1.nodes[j]? with
    | none => rfl
    | some nd =>
      change some (bareNode (if i = j then _ else nd)) = some (bareNode nd)
      split
      · rw [bareNode_setRunsFlat]
      · rfl
  · exact ⟨.refl _, fun _ => rfl⟩

theorem foldl_voteNode (flexible nodes : List Nat) (state : Graph × Bool) :
    LayoutOnly state.1 (nodes.foldl (voteNode flexible) state).1 ∧
      ∀ t, flat (nodes.foldl (voteNode flexible) state).1 t = flat state.1 t := by
  induction nodes generalizing state with
  | nil => exact ⟨.refl _, fun _ => rfl⟩
  | cons i rest ih =>
    have first := voteNode_layoutOnly flexible state i
    have later := ih (voteNode flexible state i)
    exact ⟨first.1.trans later.1, fun t => (later.2 t).trans (first.2 t)⟩

theorem voteRounds_assigned (flexible : List Nat) (rounds : Nat)
    (written : Written g.tensors.length (g.nodes.map Node.outputs)) (assigned : Assigned g g') :
    Assigned g (voteRounds flexible rounds g') := by
  induction rounds generalizing g' with
  | zero => exact assigned
  | succ rounds ih =>
    have voted := foldl_voteNode flexible flexible (g', false)
    unfold voteRounds
    dsimp only
    split
    · exact ih (assigned_seed (assigned.only.trans voted.1) written)
    · exact assigned.mono voted.1 fun t packed => (voted.2 t).symm.trans packed

theorem adoptRound_layoutOnly (g : Graph) :
    LayoutOnly g (adoptRound g).1 ∧ ∀ t, flat (adoptRound g).1 t = false → flat g t = false := by
  unfold adoptRound
  dsimp only
  generalize passThroughOutputReadsFlat g = through
  have general : ∀ (is : List Nat) (state : Graph × Bool), LayoutOnly g state.1 →
      (∀ t, flat state.1 t = false → flat g t = false) →
      let after := is.foldl (fun state (i : Nat) =>
        if state.1.isInitializer i || isProduced g i || (state.1.desc i).gpuFlat then state
        else if allReadsRunFlat state.1 through i then (setFlat state.1 true i, true)
        else state) state
      LayoutOnly g after.1 ∧ ∀ t, flat after.1 t = false → flat g t = false := by
    intro is
    induction is with
    | nil => exact fun state only down => ⟨only, down⟩
    | cons i rest ih =>
      intro state only down
      rw [foldl_cons]
      refine ih _ ?_ ?_
      · split
        · exact only
        · split
          · exact only.trans (layoutOnly_setFlat state.1 true i)
          · exact only
      · split
        · exact down
        · split
          · intro t packed
            rw [flat_setFlat] at packed
            split at packed
            · cases packed
            · exact down t packed
          · exact down
  exact general (List.range g.tensors.length) (g, false) (.refl g) fun _ packed => packed

theorem adoptInputs_assigned (rounds : Nat)
    (written : Written g.tensors.length (g.nodes.map Node.outputs)) (assigned : Assigned g g') :
    Assigned g (adoptInputs rounds g') := by
  induction rounds generalizing g' with
  | zero => exact assigned
  | succ rounds ih =>
    have adopted := adoptRound_layoutOnly g'
    unfold adoptInputs
    dsimp only
    split
    · exact ih (assigned_seed (assigned.only.trans adopted.1) written)
    · exact assigned.mono adopted.1 adopted.2

theorem flattenHighRanks_layoutOnly (g : Graph) : LayoutOnly g (flattenHighRanks g) ∧
      ∀ t, flat (flattenHighRanks g) t = false → flat g t = false := by
  have desc (t : TensorId) : (flattenHighRanks g).desc t =
      if 4 < (g.desc t).shape.length then { g.desc t with gpuFlat := true } else g.desc t := by
    unfold flattenHighRanks desc
    split
    · dsimp only
      rw [getD_eq_getElem?_getD, getElem?_map, getD_eq_getElem?_getD]
      cases g.tensors[t.toNat]? with
      | none => rfl
      | some d => rfl
    · rfl
  refine ⟨⟨length_map _, fun t => ?_, rfl, rfl, rfl, rfl⟩, fun t packed => ?_⟩
  · rw [desc]
    split <;> rfl
  · unfold flat at packed ⊢
    rw [desc] at packed
    split at packed
    · cases packed
    · exact packed

/-- **The assignment changes layouts alone, and leaves copying operators packed only where their
shapes are stored alike.** -/
theorem globalLayoutAssign_assigned
    (written : Written g.tensors.length (g.nodes.map Node.outputs)) :
    Assigned g (globalLayoutAssign g) := by
  have seeded := assigned_seed (.refl g) written
  have voted := voteRounds_assigned (flexibleNodes (seedFromProducers g)) 8 written seeded
  have adopted := adoptInputs_assigned 8 written voted
  have high := flattenHighRanks_layoutOnly
    (adoptInputs 8 (voteRounds (flexibleNodes (seedFromProducers g)) 8 (seedFromProducers g)))
  exact adopted.mono high.1 high.2

end Vknn.Import.Layout
