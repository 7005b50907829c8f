import Vknn.Ir.Status
import Vknn.Lib.Kahn

/-!
# Sorting a graph's nodes

`topoSort` reorders the node list so that every node follows the nodes it
depends on.  The dependency is through tensors: a node depends on the node that
writes a tensor it reads, where a tensor written several times belongs to its
last writer, and where the fused residual and the fused bias are reads like any
other.  A node that reads what it writes does not depend on itself.

The loop is Kahn's algorithm over node positions.  This module computes the
predecessor lists the way the source does, and takes the rest from the library.
-/

namespace Vknn

open List Std Option

namespace Graph

/-! ## The dependency relation -/

def node (g : Graph) (i : Nat) : Node := g.nodes.getD i {}

def Writes (g : Graph) (a : Nat) (t : TensorId) : Prop :=
  a < g.nodes.length ∧ t ≠ kNoTensor ∧ t ∈ (g.node a).outputs

/-- Node `a` is the last one in the list to write the tensor `t`. -/
def LastWriter (g : Graph) (t : TensorId) (a : Nat) : Prop :=
  g.Writes a t ∧ ∀ b, g.Writes b t → b ≤ a

/-- Node `b` reads, as an input, a residual or a bias, a tensor that another node `a` is the
last to write. -/
def DependsOn (g : Graph) (b a : Nat) : Prop :=
  b < g.nodes.length ∧ a ≠ b ∧ ∃ t ∈ (g.node b).reads, g.LastWriter t a

/-- No node depends on itself through any chain of dependencies. -/
def DependencyAcyclic (g : Graph) : Prop :=
  ∀ b, ¬ Relation.TransGen (fun a b => g.DependsOn b a) b b

/-! ## The sort -/

/-- Record one node as the producer of each tensor it writes. -/
def recordOutputs (producer : ExtTreeMap TensorId Nat) (i : Nat) (outputs : List TensorId) :
    ExtTreeMap TensorId Nat :=
  outputs.foldl (fun m o => if o ≠ kNoTensor then m.insert o i else m) producer

/-- The producer of each tensor; the later of two writers wins. -/
def producer (g : Graph) : ExtTreeMap TensorId Nat :=
  (List.range g.nodes.length).foldl (fun m i => recordOutputs m i (g.node i).outputs) ∅

/-- The distinct predecessors of a node: the producers of what it reads, without itself. -/
def preds (g : Graph) (i : Nat) : List Nat :=
  ((g.node i).reads.filterMap fun t =>
    match g.producer[t]? with
    | some p => if p ≠ i then some p else none
    | none => none).dedup

/-- The positions in the order Kahn's algorithm emits them.  A node's successors are visited in
node order, because the source appends node `i` to its predecessors' lists as `i` ascends. -/
def order (g : Graph) : List Nat := Kahn.emission (List.range g.nodes.length) g.preds

/-- Reorder the nodes so that every node follows the nodes it depends on. -/
def topoSort (g : Graph) : Except Error Graph :=
  let ordered := g.order.map g.node
  if ordered.length ≠ g.nodes.length then
    .error (.mk' .invalidArgument (str "graph has a cycle"))
  else
    .ok { g with nodes := ordered }

/-! ## The producer map holds the last writers -/

theorem recordOutputs_getElem? (m : ExtTreeMap TensorId Nat) (i : Nat)
    (outputs : List TensorId) (t : TensorId) :
    (recordOutputs m i outputs)[t]? = if t ≠ kNoTensor ∧ t ∈ outputs then some i else m[t]? := by
  induction outputs generalizing m with
  | nil => simp [recordOutputs]
  | cons o outputs ih =>
    rw [recordOutputs, foldl_cons]
    change (recordOutputs _ i outputs)[t]? = _
    rw [ih]
    by_cases written : t ≠ kNoTensor ∧ t ∈ outputs
    · simp [written]
    · by_cases here : o = t
      · by_cases absent : t = kNoTensor
        · simp [here, absent]
        · simp [here, absent]
      · by_cases absent : o = kNoTensor
        · simp [absent, Ne.symm (absent ▸ here)]
        · rw [if_neg written, if_pos absent, ExtTreeMap.getElem?_insert]
          have other : t ≠ o := fun h => here h.symm
          have stillNot : ¬(t ≠ kNoTensor ∧ t ∈ o :: outputs) := by simpa [other] using written
          rw [if_neg stillNot, if_neg (by simpa using here)]

/-- After the first `n` nodes the map holds the last writer among them. -/
theorem producer_prefix (g : Graph) (t : TensorId) (n : Nat) (bound : n ≤ g.nodes.length)
    (a : Nat) :
    ((List.range n).foldl (fun m i => recordOutputs m i (g.node i).outputs)
        (∅ : ExtTreeMap TensorId Nat))[t]? = some a ↔
      (a < n ∧ g.Writes a t ∧ ∀ b < n, g.Writes b t → b ≤ a) := by
  induction n with
  | zero => simp
  | succ n ih =>
    rw [range_succ, foldl_append, foldl_cons, foldl_nil, recordOutputs_getElem?]
    have inside : n < g.nodes.length := bound
    by_cases written : t ≠ kNoTensor ∧ t ∈ (g.node n).outputs
    · rw [if_pos written, some.injEq]
      constructor
      · rintro rfl
        exact ⟨Nat.lt_succ_self _, ⟨inside, written⟩, fun b small _ => Nat.lt_succ_iff.mp small⟩
      · rintro ⟨small, _, last⟩
        exact Nat.le_antisymm (last n (Nat.lt_succ_self n) ⟨inside, written⟩)
          (Nat.lt_succ_iff.mp small)
    · rw [if_neg written, ih (Nat.le_of_succ_le bound)]
      have notHere : ¬ g.Writes n t := fun writes => written writes.2
      constructor
      · rintro ⟨small, writes, last⟩
        refine ⟨Nat.lt_succ_of_lt small, writes, fun b below bWrites => ?_⟩
        rcases Nat.lt_succ_iff_lt_or_eq.mp below with earlier | rfl
        · exact last b earlier bWrites
        · exact absurd bWrites notHere
      · rintro ⟨small, writes, last⟩
        refine ⟨?_, writes, fun b below => last b (Nat.lt_succ_of_lt below)⟩
        rcases Nat.lt_succ_iff_lt_or_eq.mp small with earlier | rfl
        · exact earlier
        · exact absurd writes notHere

/-- **The producer map holds exactly the last writers.** -/
theorem producer_eq_some_iff (g : Graph) (t : TensorId) (a : Nat) :
    g.producer[t]? = some a ↔ g.LastWriter t a := by
  rw [producer, producer_prefix g t _ le_rfl]
  constructor
  · rintro ⟨_, writes, last⟩
    exact ⟨writes, fun b bWrites => last b bWrites.1 bWrites⟩
  · rintro ⟨writes, last⟩
    exact ⟨writes.1, writes, fun b _ bWrites => last b bWrites⟩

/-- The predecessor list is the dependency relation. -/
theorem mem_preds_iff (g : Graph) {b : Nat} (inside : b < g.nodes.length) (a : Nat) :
    a ∈ g.preds b ↔ g.DependsOn b a := by
  rw [preds, mem_dedup, mem_filterMap]
  constructor
  · rintro ⟨t, read, found⟩
    cases produced : g.producer[t]? with
    | none => simp [produced] at found
    | some p =>
      simp only [produced, ite_none_right_eq_some, some.injEq] at found
      obtain ⟨other, rfl⟩ := found
      exact ⟨inside, other, t, read, (g.producer_eq_some_iff t p).mp produced⟩
  · rintro ⟨_, other, t, read, last⟩
    refine ⟨t, read, ?_⟩
    simp [(g.producer_eq_some_iff t a).mpr last, other]

/-! ## Correctness -/

theorem nodup_preds (g : Graph) (i : Nat) : (g.preds i).Nodup := nodup_dedup _

theorem preds_lt (g : Graph) {b : Nat} (inside : b < g.nodes.length) :
    ∀ a ∈ g.preds b, a < g.nodes.length := by
  intro a isPred
  obtain ⟨_, _, t, _, last⟩ := (g.mem_preds_iff inside a).mp isPred
  exact last.1.1

/-- The edges Kahn's algorithm follows are the dependencies. -/
theorem edge_iff_dependsOn (g : Graph) (a b : Nat) :
    Kahn.Edge (List.range g.nodes.length) g.preds a b ↔ g.DependsOn b a := by
  rw [Kahn.Edge, mem_range]
  constructor
  · rintro ⟨inside, isPred⟩
    exact (g.mem_preds_iff inside a).mp isPred
  · intro depends
    exact ⟨depends.1, (g.mem_preds_iff depends.1 a).mpr depends⟩

theorem acyclic_iff (g : Graph) :
    Kahn.Acyclic (List.range g.nodes.length) g.preds ↔ g.DependencyAcyclic := by
  have same : Kahn.Edge (List.range g.nodes.length) g.preds = fun a b => g.DependsOn b a := by
    funext a b
    exact propext (g.edge_iff_dependsOn a b)
  rw [Kahn.Acyclic, same, DependencyAcyclic]

/-- The order is complete exactly when the dependencies have no cycle. -/
theorem length_order_eq_iff (g : Graph) :
    g.order.length = g.nodes.length ↔ g.DependencyAcyclic := by
  rw [← g.acyclic_iff]
  have complete := Kahn.length_emission_eq_iff 
    (fun v _ => g.nodup_preds v) nodup_range
    (fun v mem p isPred => by
      rw [mem_range] at mem ⊢
      exact g.preds_lt mem p isPred)
  rwa [length_range] at complete

/-- A complete order is a permutation of the positions. -/
theorem order_perm (g : Graph) (complete : g.order.length = g.nodes.length) :
    g.order.Perm (List.range g.nodes.length) := by
  have distinct : g.order.Nodup := Kahn.nodup_emission (fun v _ => g.nodup_preds v) nodup_range
  have known : g.order ⊆ List.range g.nodes.length :=
    Kahn.emission_subset (fun v _ => g.nodup_preds v) nodup_range
  refine (distinct.subperm known).perm_of_length_le ?_
  rw [length_range, complete]

theorem map_node_range (g : Graph) : (List.range g.nodes.length).map g.node = g.nodes := by
  refine ext_getElem (by simp) fun i small small' => ?_
  simp [node, getElem?_eq_getElem small']

/-- **`topoSort` is a correct topological sort.**  When the dependencies have no cycle it
returns the graph with its nodes permuted so that every node comes after each node it depends
on; when they have one it throws. -/
theorem topoSort_correct (g : Graph) : (g.DependencyAcyclic → ∃ positions : List Nat,
        g.topoSort = .ok { g with nodes := positions.map g.node } ∧
        positions.Perm (List.range g.nodes.length) ∧
        (positions.map g.node).Perm g.nodes ∧
        ∀ before b after, positions = before ++ b :: after → ∀ a, g.DependsOn b a → a ∈ before) ∧
    (¬ g.DependencyAcyclic →
      g.topoSort = .error (.mk' .invalidArgument (str "graph has a cycle"))) := by
  constructor
  · intro acyclic
    have complete := g.length_order_eq_iff.mpr acyclic
    have perm := g.order_perm complete
    refine ⟨g.order, ?_, perm, ?_, ?_⟩
    · simp [topoSort, complete]
    · simpa only [map_node_range] using perm.map g.node
    · intro before b after split a depends
      have scheduled : Kahn.Scheduled g.preds g.order :=
        Kahn.scheduled_emission (fun v _ => g.nodup_preds v) nodup_range
      exact scheduled before b after split a ((g.mem_preds_iff depends.1 a).mpr depends)
  · intro cyclic
    have incomplete : g.order.length ≠ g.nodes.length := fun complete =>
      cyclic (g.length_order_eq_iff.mp complete)
    simp [topoSort, incomplete]

/-- A graph whose dependencies lead from lower ranks to higher ones has no cycle. -/
theorem dependencyAcyclic_of_rank {g : Graph} (rank : Nat → Nat)
    (raises : ∀ a b, g.DependsOn b a → rank a < rank b) : g.DependencyAcyclic := by
  intro b cycle
  have climbs {a b : Nat} (path : Relation.TransGen (fun a b => g.DependsOn b a) a b) :
      rank a < rank b := by
    induction path with
    | single edge => exact raises _ _ edge
    | tail _ edge ih => exact ih.trans (raises _ _ edge)
  exact absurd (climbs cycle) (lt_irrefl _)

theorem DependencyAcyclic.exists_rank {g : Graph} (acyclic : g.DependencyAcyclic) :
    ∃ rank : Nat → Nat, ∀ a b, g.DependsOn b a → rank a < rank b := by
  obtain ⟨positions, -, perm, -, sorted⟩ := g.topoSort_correct.1 acyclic
  refine ⟨fun i => positions.idxOf i, fun a b depends => ?_⟩
  have mem : b ∈ positions := perm.mem_iff.mpr (mem_range.mpr depends.1)
  obtain ⟨before, after, split, first⟩ := eq_append_cons_of_mem mem
  have earlier := sorted before b after split a depends
  dsimp only
  rw [split, idxOf_append_of_mem earlier, idxOf_append_of_notMem first, idxOf_cons_self]
  exact Nat.lt_add_right 0 (idxOf_lt_length_of_mem earlier)

/-- A consumer listed before its producer. -/
def reversedPair : Graph where
  nodes := [{ inputs := [0], outputs := [1] }, { outputs := [0] }]

theorem topoSort_reversedPair : reversedPair.DependencyAcyclic ∧ ∃ positions : List Nat,
        reversedPair.topoSort = .ok { reversedPair with nodes := positions.map reversedPair.node } := by
  have acyclic : reversedPair.DependencyAcyclic := reversedPair.length_order_eq_iff.mp (by decide)
  obtain ⟨positions, sorted, _⟩ := reversedPair.topoSort_correct.1 acyclic
  exact ⟨acyclic, positions, sorted⟩

end Graph

end Vknn
