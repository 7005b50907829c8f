import Vknn.Core.TopoSort
import Vknn.Cpu.Operators

/-!
# Sorting before a run

A pass may leave its nodes in any order and sort them at the end.  If they could be run in
some order, the sort succeeds, and in the order it finds they compute the same.
-/

namespace Vknn.Cpu

open List Graph Option

variable {g : Graph} {nodes : List Node}

theorem node_getElem? {i : Nat} (inside : i < g.nodes.length) : g.nodes[i]? = some (g.node i) := by
  rw [node, getD_eq_getElem?_getD, getElem?_eq_getElem inside, getD_some]

/-- Nodes that can be run in some order have no cycle. -/
theorem acyclic_of_perm (ordered : signature.Ordered nodes) (perm : g.nodes.Perm nodes) :
    g.DependencyAcyclic := by
  refine dependencyAcyclic_of_rank (fun i => nodes.idxOf (g.node i)) fun a b depends => ?_
  obtain ⟨inside, -, t, read, ⟨insideA, present, written⟩, -⟩ := depends
  have place : ∀ {i}, i < g.nodes.length → nodes.idxOf (g.node i) < nodes.length ∧
      nodes[nodes.idxOf (g.node i)]? = some (g.node i) := by
    intro i small
    have mem := perm.mem_iff.mp (mem_of_getElem? (node_getElem? small))
    exact ⟨idxOf_lt_length_of_mem mem, getElem?_idxOf mem⟩
  obtain ⟨smallA, hereA⟩ := place insideA
  obtain ⟨smallB, hereB⟩ := place inside
  have reads : t ∈ signature.reads (g.node b) := mem_readsOf.mpr ⟨read, present⟩
  have writes : t ∈ signature.writes (g.node a) := mem_filter.mpr ⟨written, decide_eq_true present⟩
  rw [getElem?_eq_getElem smallA, some.injEq] at hereA
  rw [getElem?_eq_getElem smallB, some.injEq] at hereB
  rcases Nat.lt_trichotomy (nodes.idxOf (g.node a)) (nodes.idxOf (g.node b)) with
    before | same | after
  · exact before
  · have equal : g.node a = g.node b := by
      rw [← hereA, ← hereB]
      simp only [same]
    have mem := perm.mem_iff.mp (mem_of_getElem? (node_getElem? inside))
    exact absurd reads (ordered.self (g.node b) mem t (equal ▸ writes))
  · have apart := pairwise_iff_getElem.mp ordered.before _ _ smallB smallA after t
    rw [hereA, hereB] at apart
    exact absurd reads (apart writes).1

/-- No two nodes of the list write the same tensor. -/
theorem writes_apart (ordered : signature.Ordered nodes) (perm : g.nodes.Perm nodes) {i j : Nat}
    (inside : i < g.nodes.length) (inside' : j < g.nodes.length) (other : i ≠ j) {t : TensorId}
    (written : t ∈ signature.writes (g.node i)) : t ∉ signature.writes (g.node j) := by
  have single : g.nodes.Pairwise fun a b => ∀ t ∈ signature.writes b, t ∉ signature.writes a := by
    refine (perm.pairwise_iff fun {a b} apart t writtenA writtenB => ?_).mpr
      (ordered.before.imp fun apart t here => (apart t here).2)
    exact apart t writtenB writtenA
  have place : ∀ {k}, (small : k < g.nodes.length) → g.nodes[k] = g.node k := fun {k} small => by
    rw [node, getD_eq_getElem?_getD, getElem?_eq_getElem small, getD_some]
  have pairs := pairwise_iff_getElem.mp single
  rw [← place inside] at written
  rw [← place inside']
  intro again
  rcases Nat.lt_or_gt_of_ne other with before | after
  · exact pairs i j inside inside' before t again written
  · exact pairs j i inside' inside after t written again

/-- **The sort succeeds, and its nodes can be run in their order.** -/
theorem topoSort_ordered (ordered : signature.Ordered nodes) (perm : g.nodes.Perm nodes) :
    ∃ sorted, g.topoSort = .ok { g with nodes := sorted } ∧ sorted.Perm nodes ∧
      signature.Ordered sorted := by
  obtain ⟨positions, result, all, same, scheduled⟩ :=
    g.topoSort_correct.1 (acyclic_of_perm ordered perm)
  refine ⟨positions.map g.node, result, same.trans perm, pairwise_iff_getElem.mpr ?_, ?_⟩
  · intro i j small small' before t written
    rw [length_map] at small small'
    have distinct : positions.Nodup := all.nodup_iff.mpr nodup_range
    have known : ∀ k (inside : k < positions.length), positions[k] < g.nodes.length :=
      fun k inside => mem_range.mp (all.mem_iff.mp (getElem_mem inside))
    have other : positions[i] ≠ positions[j] := fun equal =>
      absurd (distinct.getElem_inj_iff.mp equal) (by omega)
    rw [getElem_map] at written ⊢
    obtain ⟨output, present⟩ := mem_filter.mp written
    refine ⟨fun read => ?_, writes_apart ordered perm (known j small') (known i small) other.symm
      written⟩
    -- The earlier node would depend on the later one.
    have last : g.LastWriter t positions[j] := by
      refine ⟨⟨known j small', of_decide_eq_true present, output⟩, fun k ⟨inside, there, writes⟩ => ?_⟩
      by_contra beyond
      exact writes_apart ordered perm (known j small') inside (by omega) written
        (mem_filter.mpr ⟨writes, decide_eq_true there⟩)
    have split : positions = positions.take i ++ positions[i] :: positions.drop (i + 1) := by
      rw [← drop_eq_getElem_cons small, take_append_drop]
    have earlier := scheduled _ _ _ split positions[j]
      ⟨known i small, other.symm, t, (mem_readsOf.mp read).1, last⟩
    obtain ⟨k, inTake, equal⟩ := getElem_of_mem earlier
    rw [getElem_take] at equal
    have place := distinct.getElem_inj_iff.mp equal
    rw [length_take] at inTake
    omega
  · intro n mem t written
    exact ordered.self n ((same.trans perm).mem_iff.mp mem) t written

/-- **Sorting keeps what nodes compute.**  If the nodes of a graph can be run in some order, whatever
order they are listed in, the sort finds one, and it makes no difference which. -/
theorem topoSort_perform {V : Type} (K : Operators V) (ordered : signature.Ordered nodes)
    (perm : g.nodes.Perm nodes) : ∃ sorted, g.topoSort = .ok { g with nodes := sorted } ∧
      signature.Ordered sorted ∧ ∀ e, perform K g sorted e = perform K g nodes e := by
  obtain ⟨sorted, result, same, runs⟩ := topoSort_ordered ordered perm
  refine ⟨sorted, result, runs, fun e => ?_⟩
  exact Dataflow.Machine.run_perm (M := operatorMachine K g) ordered runs (fun _ => same.mem_iff) e

/-- The consumer is listed first. -/
theorem topoSort_perform_reversedPair : ∃ sorted,
    reversedPair.topoSort = .ok { reversedPair with nodes := sorted } ∧ signature.Ordered sorted ∧
      ∀ e, perform ⟨0, fun _ _ _ _ => [1]⟩ reversedPair sorted e =
        perform ⟨0, fun _ _ _ _ => [1]⟩ reversedPair reversedPair.nodes.reverse e := by
  refine topoSort_perform _ ⟨?_, ?_⟩ (reverse_perm _).symm
  · simp [reversedPair, signature, readsOf, writesOf, Node.reads]
  · simp [reversedPair, signature, readsOf, writesOf, Node.reads]

end Vknn.Cpu
