import Vknn.Core.TopoSort

/-!
# Segments and their boundaries

A session cuts its node list into maximal runs of nodes assigned to the same
backend.  Tensors cross from one run to another through host buffers, so each
segment carries two lists: the tensors it must read from outside before it runs,
and the tensors it must publish after.

The two lists are computed by separate scans.  The input scan looks at operands
and at fused residuals; the output scan looks at operands only.  The main result
states exactly for which graphs the two agree: every tensor that crosses a cut
must be visible to both scans.
-/

namespace Vknn.Partition

open List Option Std Or

/-! ## Maximal runs -/

/-- Append one node: to the last run when the backend is the same, else as a new run. -/
def place (nodeBackendIdx : Nat → Nat) (parts : List (List Nat)) (n : Nat) : List (List Nat) :=
  match parts.getLast? with
  | none => [[n]]
  | some last =>
    if nodeBackendIdx n ≠ nodeBackendIdx (last.headD 0) then parts ++ [[n]]
    else parts.dropLast ++ [last ++ [n]]

/-- The maximal same-backend runs of the first `count` nodes. -/
def parts (nodeBackendIdx : Nat → Nat) (count : Nat) : List (List Nat) :=
  (List.range count).foldl (place nodeBackendIdx) []

/-- What the runs are: they cover the nodes in order, each stays on one backend, and two
neighbouring runs differ in backend. -/
structure Runs (nodeBackendIdx : Nat → Nat) (count : Nat) (parts : List (List Nat)) : Prop where
  covers : parts.flatten = List.range count
  nonempty : ∀ part ∈ parts, part ≠ []
  uniform : ∀ part ∈ parts, ∀ n ∈ part, nodeBackendIdx n = nodeBackendIdx (part.headD 0)
  maximal : parts.IsChain fun part later =>
    nodeBackendIdx (later.headD 0) ≠ nodeBackendIdx (part.headD 0)

theorem runs_place {nodeBackendIdx : Nat → Nat} {count : Nat} {parts : List (List Nat)}
    (runs : Runs nodeBackendIdx count parts) :
    Runs nodeBackendIdx (count + 1) (place nodeBackendIdx parts count) := by
  rcases eq_nil_or_concat parts with rfl | ⟨front, last, rfl⟩
  · have none : count = 0 := by simpa using runs.covers.symm
    subst none
    refine ⟨by simp [place], ?_, ?_, ?_⟩ <;> simp [place]
  · rw [concat_eq_append] at runs ⊢
    have lastRun : (front ++ [last]).getLast? = some last := by simp
    by_cases differ : nodeBackendIdx count ≠ nodeBackendIdx (last.headD 0)
    · -- A change of backend opens a run.
      have placed : place nodeBackendIdx (front ++ [last]) count =
          front ++ [last] ++ [[count]] := by
        simp only [place, lastRun]
        exact if_pos differ
      rw [placed]
      refine ⟨?_, ?_, ?_, ?_⟩
      · rw [flatten_append, runs.covers, range_succ]
        simp
      · intro part mem
        rcases mem_append.mp mem with old | new
        · exact runs.nonempty part old
        · simp [mem_singleton.mp new]
      · intro part mem n inside
        rcases mem_append.mp mem with old | new
        · exact runs.uniform part old n inside
        · obtain rfl := mem_singleton.mp new
          simp [mem_singleton.mp inside]
      · refine isChain_append.mpr ⟨runs.maximal, isChain_singleton _, ?_⟩
        intro part isLast later isFirst
        simp only [getLast?_append, getLast?_singleton, some_or, mem_def,
          some.injEq, head?_cons] at isLast isFirst
        subst isLast isFirst
        simpa using differ
    · -- The last run grows; its first node, and with it its backend, stays.
      rw [ne_eq, not_not] at differ
      have placed : place nodeBackendIdx (front ++ [last]) count = front ++ [last ++ [count]] := by
        simp [place, lastRun, differ]
      have lastNonempty : last ≠ [] := runs.nonempty last (by simp)
      have sameHead : (last ++ [count]).headD 0 = last.headD 0 := by
        cases last with
        | nil => exact absurd rfl lastNonempty
        | cons n rest => rfl
      rw [placed]
      refine ⟨?_, ?_, ?_, ?_⟩
      · have covers := runs.covers
        simp only [flatten_append, flatten_cons, flatten_nil, append_nil] at covers ⊢
        rw [← append_assoc, covers, range_succ]
      · intro part mem
        rcases mem_append.mp mem with old | new
        · exact runs.nonempty part (mem_append_left _ old)
        · simp [mem_singleton.mp new]
      · intro part mem n inside
        rcases mem_append.mp mem with old | new
        · exact runs.uniform part (mem_append_left _ old) n inside
        · obtain rfl := mem_singleton.mp new
          rw [sameHead]
          rcases mem_append.mp inside with earlier | here
          · exact runs.uniform last (by simp) n earlier
          · rw [mem_singleton.mp here, differ]
      · obtain ⟨chainFront, _, joint⟩ := isChain_append.mp runs.maximal
        refine isChain_append.mpr ⟨chainFront, isChain_singleton _, ?_⟩
        intro part isLast later isFirst
        simp only [head?_cons, mem_def, some.injEq] at isFirst
        subst isFirst
        rw [sameHead]
        exact joint part isLast last rfl

/-- **The cut is into maximal same-backend runs.** -/
theorem runs_parts (nodeBackendIdx : Nat → Nat) (count : Nat) :
    Runs nodeBackendIdx count (parts nodeBackendIdx count) := by
  induction count with
  | zero => refine ⟨rfl, ?_, ?_, ?_⟩ <;> simp [parts]
  | succ count ih =>
    rw [parts, range_succ, foldl_append]
    exact runs_place ih

/-! ## Boundary lists -/

/-- One compiled run of nodes and the tensors that cross its border. -/
structure Segment where
  nodeIdx : List Nat
  boundaryInputs : List TensorId
  boundaryOutputs : List TensorId
deriving DecidableEq

/-- Insert a list of tensors into a sorted set. -/
def insertAll (s : ExtTreeSet TensorId) (ts : List TensorId) : ExtTreeSet TensorId :=
  ts.foldl (fun s t => s.insert t) s

def nodeToSeg (parts : List (List Nat)) (q : Nat) : Nat := parts.findIdx fun part => part.contains q

def internalOut (g : Graph) (part : List Nat) : ExtTreeSet TensorId :=
  insertAll ∅ (part.flatMap fun ni => (g.node ni).outputs)

/-- What one node adds to its segment's boundary inputs: operands, and a residual that is not a
constant, that the run does not write. -/
def inputsFrom (g : Graph) (inside : ExtTreeSet TensorId) (ni : Nat) : List TensorId :=
  let operands := (g.node ni).inputs.filter fun t => t ≠ kNoTensor ∧ ¬ inside.contains t
  let res := (g.node ni).fusedResidual
  if res ≠ kNoTensor ∧ ¬ g.isInitializer res ∧ ¬ inside.contains res then operands ++ [res]
  else operands

/-- Whether a tensor is a graph output or an operand of a node outside run `p`. -/
def external (g : Graph) (parts : List (List Nat)) (p : Nat) (o : TensorId) : Bool :=
  g.outputs.contains o ||
    (List.range g.nodes.length).any fun q =>
      nodeToSeg parts q != p && (g.node q).inputs.contains o

/-- What one node adds to its segment's boundary outputs. -/
def outputsFrom (g : Graph) (parts : List (List Nat)) (p ni : Nat) : List TensorId :=
  (g.node ni).outputs.filter fun o => o ≠ kNoTensor ∧ external g parts p o

def segmentOf (g : Graph) (parts : List (List Nat)) (p : Nat) (part : List Nat) : Segment where
  nodeIdx := part
  boundaryInputs := (insertAll ∅ (part.flatMap (inputsFrom g (internalOut g part)))).toList
  boundaryOutputs := (insertAll ∅ (part.flatMap (outputsFrom g parts p))).toList

/-- A graph's segments under an assignment of backends to nodes. -/
def segments (g : Graph) (nodeBackendIdx : Nat → Nat) : List Segment :=
  let parts := parts nodeBackendIdx g.nodes.length
  parts.mapIdx (segmentOf g parts)

/-! ## Membership in the boundary lists -/

theorem mem_insertAll (ts : List TensorId) (s : ExtTreeSet TensorId) (t : TensorId) :
    t ∈ insertAll s ts ↔ t ∈ s ∨ t ∈ ts := by
  induction ts generalizing s with
  | nil => simp [insertAll]
  | cons u ts ih =>
    rw [insertAll, foldl_cons]
    change t ∈ insertAll (s.insert u) ts ↔ _
    rw [ih, ExtTreeSet.mem_insert, mem_cons, LawfulEqCmp.compare_eq_iff_eq]
    constructor
    · rintro ((rfl | old) | later)
      · exact inr (inl rfl)
      · exact inl old
      · exact inr (inr later)
    · rintro (old | rfl | later)
      · exact inl (inr old)
      · exact inl (inl rfl)
      · exact inr later

theorem mem_toList_insertAll (ts : List TensorId) (t : TensorId) :
    t ∈ (insertAll ∅ ts).toList ↔ t ∈ ts := by
  rw [ExtTreeSet.mem_toList, mem_insertAll]
  simp

theorem mem_internalOut (g : Graph) (part : List Nat) (t : TensorId) :
    t ∈ internalOut g part ↔ ∃ c ∈ part, t ∈ (g.node c).outputs := by
  rw [internalOut, mem_insertAll, mem_flatMap]
  simp

/-- A tensor is a boundary input of a run when some node of the run reads it as an operand, or
as a residual that is not a constant, and no node of the run writes it. -/
theorem mem_boundaryInputs_iff (g : Graph) (parts : List (List Nat)) (s : Nat) (part : List Nat)
    {t : TensorId} (present : t ≠ kNoTensor) :
    t ∈ (segmentOf g parts s part).boundaryInputs ↔ (∀ c ∈ part, t ∉ (g.node c).outputs) ∧
      ∃ c ∈ part, t ∈ (g.node c).inputs ∨
        ((g.node c).fusedResidual = t ∧ g.isInitializer t = false) := by
  have each : ∀ c, t ∈ inputsFrom g (internalOut g part) c ↔
      t ∉ internalOut g part ∧ (t ∈ (g.node c).inputs ∨
        ((g.node c).fusedResidual = t ∧ g.isInitializer t = false)) := by
    intro c
    unfold inputsFrom
    dsimp only
    split
    case isTrue fused =>
      obtain ⟨_, notConstant, outside⟩ := fused
      simp only [mem_append, mem_filter, mem_singleton, decide_eq_true_eq,
        ExtTreeSet.contains_iff_mem] at notConstant outside ⊢
      constructor
      · rintro (⟨read, _, fresh⟩ | rfl)
        · exact ⟨fresh, inl read⟩
        · exact ⟨outside, inr ⟨rfl, by simpa using notConstant⟩⟩
      · rintro ⟨fresh, read | ⟨rfl, _⟩⟩
        · exact inl ⟨read, present, fresh⟩
        · exact inr rfl
    case isFalse plain =>
      simp only [mem_filter, decide_eq_true_eq, ExtTreeSet.contains_iff_mem]
      constructor
      · rintro ⟨read, _, fresh⟩
        exact ⟨fresh, inl read⟩
      · rintro ⟨fresh, read | ⟨rfl, notConstant⟩⟩
        · exact ⟨read, present, fresh⟩
        · exact absurd ⟨present, by simp [notConstant], by
            simpa [ExtTreeSet.contains_iff_mem] using fresh⟩ plain
  rw [segmentOf, mem_toList_insertAll, mem_flatMap]
  simp only [each, mem_internalOut, not_exists, not_and]
  constructor
  · rintro ⟨c, mem, fresh, read⟩
    exact ⟨fresh, c, mem, read⟩
  · rintro ⟨fresh, c, mem, read⟩
    exact ⟨c, mem, fresh, read⟩

theorem external_iff (g : Graph) (parts : List (List Nat)) (p : Nat) (o : TensorId) :
    external g parts p o = true ↔
      o ∈ g.outputs ∨ ∃ q < g.nodes.length, nodeToSeg parts q ≠ p ∧ o ∈ (g.node q).inputs := by
  simp [external]

/-- A tensor is a boundary output of a run when some node of the run writes it and it is a graph
output or an operand of a node outside the run. -/
theorem mem_boundaryOutputs_iff (g : Graph) (parts : List (List Nat)) (p : Nat)
    (part : List Nat) {t : TensorId} (present : t ≠ kNoTensor) :
    t ∈ (segmentOf g parts p part).boundaryOutputs ↔ (∃ c ∈ part, t ∈ (g.node c).outputs) ∧
      (t ∈ g.outputs ∨ ∃ q < g.nodes.length, nodeToSeg parts q ≠ p ∧ t ∈ (g.node q).inputs) := by
  rw [segmentOf, mem_toList_insertAll, mem_flatMap]
  simp only [outputsFrom, mem_filter, decide_eq_true_eq, external_iff]
  constructor
  · rintro ⟨c, mem, written, _, outside⟩
    exact ⟨⟨c, mem, written⟩, outside⟩
  · rintro ⟨⟨c, mem, written⟩, outside⟩
    exact ⟨c, mem, written, present, outside⟩

/-! ## Nodes and their runs -/

/-- A node lies in exactly the run its index names. -/
theorem nodeToSeg_eq_iff {nodeBackendIdx : Nat → Nat} {count : Nat} {parts : List (List Nat)}
    (runs : Runs nodeBackendIdx count parts) {p : Nat} {part : List Nat}
    (at_p : parts[p]? = some part) {q : Nat} (small : q < count) :
    nodeToSeg parts q = p ↔ q ∈ part := by
  obtain ⟨inRange, rfl⟩ := List.getElem?_eq_some_iff.mp at_p
  have exists_part : ∃ x ∈ parts, (fun part : List Nat => part.contains q) x = true := by
    have covered : q ∈ parts.flatten := by
      rw [runs.covers]
      exact mem_range.mpr small
    obtain ⟨part, mem, inside⟩ := mem_flatten.mp covered
    exact ⟨part, mem, by simpa using inside⟩
  have found : nodeToSeg parts q < parts.length := findIdx_lt_length.mpr exists_part
  have holds : q ∈ parts[nodeToSeg parts q] := by
    have contained : parts[nodeToSeg parts q].contains q = true := findIdx_getElem (w := found)
    simpa using contained
  constructor
  · rintro rfl
    exact holds
  · intro inside
    by_contra differ
    have distinct : parts.flatten.Nodup := runs.covers ▸ nodup_range
    have disjoint := (nodup_flatten.mp distinct).2
    rcases lt_or_gt_of_ne differ with less | more
    · exact pairwise_iff_getElem.mp disjoint _ _ found inRange less holds inside
    · exact pairwise_iff_getElem.mp disjoint _ _ inRange found more inside holds

/-! ## Completeness of the boundaries -/

section Completeness

variable (g : Graph) (nodeBackendIdx : Nat → Nat)

/-- Node `a` of run `p` writes `t`, and node `b` of a different run `s` reads it: as an input, a
residual or a bias. -/
structure CrossRead (p s : Nat) (a b : Nat) (t : TensorId) : Prop where
  present : t ≠ kNoTensor
  apart : p ≠ s
  producer : ∃ part, (parts nodeBackendIdx g.nodes.length)[p]? = some part ∧ a ∈ part
  reader : ∃ part, (parts nodeBackendIdx g.nodes.length)[s]? = some part ∧ b ∈ part
  writes : t ∈ (g.node a).outputs
  reads : t ∈ (g.node b).reads

/-- **The boundaries are complete**: a tensor that crosses from one segment to another is among
the outputs of the first and the inputs of the second, and a graph output is among the outputs
of the segment that produces it. -/
def BoundariesComplete : Prop :=
  (∀ p s a b t, CrossRead g nodeBackendIdx p s a b t →
    ∀ P S, (segments g nodeBackendIdx)[p]? = some P → (segments g nodeBackendIdx)[s]? = some S →
      t ∈ P.boundaryOutputs ∧ t ∈ S.boundaryInputs) ∧
  ∀ (p : Nat) (P : Segment), (segments g nodeBackendIdx)[p]? = some P → ∀ a ∈ P.nodeIdx, ∀ t ∈ (g.node a).outputs,
    t ≠ kNoTensor → t ∈ g.outputs → t ∈ P.boundaryOutputs

/-- Every crossing tensor is a graph output or a plain operand somewhere outside its run, is not
also written by the run that reads it, and is read by that run as a plain operand or as a
residual that is not a constant. -/
def CrossReadsVisible : Prop :=
  ∀ p s a b t, CrossRead g nodeBackendIdx p s a b t →
    ∀ part later, (parts nodeBackendIdx g.nodes.length)[p]? = some part →
      (parts nodeBackendIdx g.nodes.length)[s]? = some later →
      (t ∈ g.outputs ∨ ∃ q < g.nodes.length, q ∉ part ∧ t ∈ (g.node q).inputs) ∧
      (∀ c ∈ later, t ∉ (g.node c).outputs) ∧
      ∃ c ∈ later, t ∈ (g.node c).inputs ∨
        ((g.node c).fusedResidual = t ∧ g.isInitializer t = false)

variable {g} {nodeBackendIdx}

theorem segments_getElem? (p : Nat) :
    (segments g nodeBackendIdx)[p]? = ((parts nodeBackendIdx g.nodes.length)[p]?).map
      (segmentOf g (parts nodeBackendIdx g.nodes.length) p) := by
  simp [segments]

/-- Whether a tensor a run writes is published, with the run named by its nodes. -/
theorem mem_boundaryOutputs_of_part {p : Nat} {part : List Nat}
    (at_p : (parts nodeBackendIdx g.nodes.length)[p]? = some part) {a : Nat} (mem : a ∈ part)
    {t : TensorId} (writes : t ∈ (g.node a).outputs) (present : t ≠ kNoTensor) :
    t ∈ (segmentOf g (parts nodeBackendIdx g.nodes.length) p part).boundaryOutputs ↔
      t ∈ g.outputs ∨ ∃ q < g.nodes.length, q ∉ part ∧ t ∈ (g.node q).inputs := by
  rw [mem_boundaryOutputs_iff g _ p part present]
  have runs := runs_parts nodeBackendIdx g.nodes.length
  constructor
  · rintro ⟨_, output | ⟨q, small, outside, read⟩⟩
    · exact inl output
    · exact inr ⟨q, small, fun inside =>
        outside ((nodeToSeg_eq_iff runs at_p small).mpr inside), read⟩
  · rintro (output | ⟨q, small, outside, read⟩)
    · exact ⟨⟨a, mem, writes⟩, inl output⟩
    · exact ⟨⟨a, mem, writes⟩, inr ⟨q, small, fun inside =>
        outside ((nodeToSeg_eq_iff runs at_p small).mp inside), read⟩⟩

/-- **Boundaries are complete exactly when every crossing tensor is visible to both scans.** -/
theorem boundariesComplete_iff (g : Graph) (nodeBackendIdx : Nat → Nat) :
    BoundariesComplete g nodeBackendIdx ↔ CrossReadsVisible g nodeBackendIdx := by
  constructor
  · rintro ⟨crossing, _⟩ p s a b t cross part later at_p at_s
    obtain ⟨_, samePart, mem⟩ := cross.producer
    obtain rfl := some.inj (samePart.symm.trans at_p)
    obtain ⟨published, received⟩ := crossing p s a b t cross _ _
      (by rw [segments_getElem?, at_p, map_some])
      (by rw [segments_getElem?, at_s, map_some])
    rw [mem_boundaryOutputs_of_part at_p mem cross.writes cross.present] at published
    rw [mem_boundaryInputs_iff g _ s later cross.present] at received
    exact ⟨published, received⟩
  · intro visible
    refine ⟨?_, ?_⟩
    · intro p s a b t cross P S at_P at_S
      obtain ⟨part, at_p, mem⟩ := cross.producer
      obtain ⟨later, at_s, _⟩ := cross.reader
      rw [segments_getElem?, at_p, map_some, some.injEq] at at_P
      rw [segments_getElem?, at_s, map_some, some.injEq] at at_S
      subst at_P at_S
      obtain ⟨published, received⟩ := visible p s a b t cross part later at_p at_s
      exact ⟨(mem_boundaryOutputs_of_part at_p mem cross.writes cross.present).mpr published,
        (mem_boundaryInputs_iff g _ s later cross.present).mpr received⟩
    · intro p P at_P a mem t writes present output
      rw [segments_getElem?] at at_P
      cases at_p : (parts nodeBackendIdx g.nodes.length)[p]? with
      | none => simp [at_p] at at_P
      | some part =>
        rw [at_p, map_some, some.injEq] at at_P
        subst at_P
        exact (mem_boundaryOutputs_of_part at_p mem writes present).mpr (inl output)

end Completeness

/-! ## A residual across a cut -/

/-- A node of one backend produces tensor 1; a convolution of another reads it as its fused
residual only. -/
def residualAcrossCut : Graph where
  tensors := [{}, {}, {}]
  nodes := [{ type := .relu, inputs := [0], outputs := [1] },
    { type := .conv, inputs := [0], outputs := [2], fusedResidual := 1 }]
  inputs := [0]
  outputs := [2]

/-- **A residual that crosses a cut is not published**: the graph is already in dependency order,
the second segment asks for tensor 1, and the first does not offer it. -/
theorem residualAcrossCut_incomplete : residualAcrossCut.topoSort = .ok residualAcrossCut ∧
      ¬ BoundariesComplete residualAcrossCut (fun n => n) := by
  refine ⟨by decide, ?_⟩
  rintro ⟨crossing, _⟩
  have published := (crossing 0 1 0 1 1
    ⟨by decide, by decide, ⟨[0], by decide, by decide⟩, ⟨[1], by decide, by decide⟩,
      by decide, by decide⟩ ⟨[0], [0], []⟩ ⟨[1], [0, 1], [2]⟩ (by decide) (by decide)).1
  simp at published

end Vknn.Partition
