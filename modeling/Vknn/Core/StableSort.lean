import Vknn.Core.TopoSort
import Vknn.Lib.KahnOrder

/-!
# Sorting a sorted graph

A node list may be in dependency order before it is sorted.  The sort is said to leave it as it is
then, but it does so only for some of these lists: a node whose last dependency stands further in
front is emitted first, wherever it is in the list.  So the list stays as it is exactly when the place
of the last dependency never goes back along it.

Nodes that are equal are never exchanged, because they wait for the same nodes; so it makes no
difference that a list with such nodes could be the same after an exchange.
-/

namespace Vknn.Graph

open List

/-! ## Sorted lists -/

/-- Every node stands behind the nodes it depends on. -/
def Ordered (g : Graph) : Prop := ∀ b a, g.DependsOn b a → a < b

/-- Along the list, the place of a node's last dependency never goes back; a node without one counts
as before all. -/
def LastDependencyForward (g : Graph) : Prop :=
  ∀ v w, v < w → w < g.nodes.length → ∀ a, g.DependsOn v a → ∃ b, g.DependsOn w b ∧ a ≤ b

variable {g : Graph}

theorem Ordered.acyclic (ordered : g.Ordered) : g.DependencyAcyclic :=
  dependencyAcyclic_of_rank id fun a b depends => ordered b a depends

theorem fair_order (g : Graph) : Kahn.Fair (List.range g.nodes.length) g.preds g.order :=
  Kahn.fair_emission (fun v _ => g.nodup_preds v) nodup_range

theorem nodup_order (g : Graph) : g.order.Nodup :=
  Kahn.nodup_emission (fun v _ => g.nodup_preds v) nodup_range

/-- The sort keeps the list exactly when the nodes at the emitted places are the list. -/
theorem topoSort_eq_self_iff (ordered : g.Ordered) :
    g.topoSort = .ok g ↔ g.order.map g.node = g.nodes := by
  have complete := g.length_order_eq_iff.mpr ordered.acyclic
  unfold topoSort
  dsimp only
  rw [if_neg (by rw [length_map, complete]; exact fun no => no rfl)]
  constructor
  · intro same
    exact congrArg Graph.nodes (Except.ok.inj same)
  · intro same
    rw [same]

/-! ## Where the order is the list's own -/

theorem pair_sublist_range {n v w : Nat} (before : v < w) (inside : w < n) :
    [v, w].Sublist (List.range n) := by
  obtain ⟨d, rfl⟩ := Nat.exists_eq_add_of_lt inside
  rw [Nat.add_assoc, range_add]
  refine (singleton_sublist.mpr (mem_range.mpr before)).append
    (singleton_sublist.mpr (mem_map.mpr ⟨0, ?_, Nat.add_zero w⟩))
  exact mem_range.mpr (Nat.succ_pos d)

theorem mem_of_prefix_range {front : List Nat} {k a b : Nat} (within : front <+: List.range k)
    (mem : b ∈ front) (bound : a ≤ b) : a ∈ front := by
  rw [prefix_iff_eq_take.mp within, take_range, mem_range] at mem ⊢
  omega

/-- The emitted order is the list's own, if no later node comes where an earlier one can. -/
theorem order_eq_range (ordered : g.Ordered)
    (tied : ∀ k w rest, g.order = List.range k ++ w :: rest → k < w →
      ∀ front, front <+: g.order → g.preds w ⊆ front → g.preds k ⊆ front) :
    g.order = List.range g.nodes.length := by
  have complete := g.length_order_eq_iff.mpr ordered.acyclic
  have perm := g.order_perm complete
  have distinct := g.nodup_order
  have start : ∀ k ≤ g.nodes.length, List.range k <+: g.order := by
    intro k bound
    induction k with
    | zero => exact nil_prefix
    | succ k ih =>
      obtain ⟨rest, split⟩ := ih (Nat.le_of_succ_le bound)
      cases rest with
      | nil =>
        rw [append_nil] at split
        rw [← split, length_range] at complete
        omega
      | cons w rest =>
        have placed : w ∈ g.order := split ▸ mem_append_right _ mem_cons_self
        have inside : w < g.nodes.length := mem_range.mp (perm.mem_iff.mp placed)
        have late : k ≤ w := by
          by_contra early
          rw [← split] at distinct
          exact (nodup_append.mp distinct).2.2 w (mem_range.mpr (not_le.mp early)) w
            mem_cons_self rfl
        rcases late.eq_or_lt with rfl | skipped
        · exact ⟨rest, by rw [range_succ, append_assoc]; exact split⟩
        · have pair := g.fair_order.tie k w (pair_sublist_range skipped inside) placed
            (tied k w rest split.symm skipped)
          rw [← split] at pair distinct
          exact absurd (mem_range.mp (Kahn.mem_of_pair_sublist distinct pair))
            (lt_irrefl k)
  have whole := start _ le_rfl
  exact (whole.eq_of_length (by rw [length_range, complete])).symm

/-- Where the last dependency never goes back, the order is the list's own. -/
theorem order_of_forward (ordered : g.Ordered) (forward : g.LastDependencyForward) :
    g.order = List.range g.nodes.length := by
  refine order_eq_range ordered fun k w rest split skipped front within ready a needed => ?_
  have scheduled : Kahn.Scheduled g.preds g.order :=
    Kahn.scheduled_emission (fun v _ => g.nodup_preds v) nodup_range
  have perm := g.order_perm (g.length_order_eq_iff.mpr ordered.acyclic)
  have inside : w < g.nodes.length := mem_range.mp (perm.mem_iff.mp
    (split ▸ mem_append_right _ mem_cons_self))
  have depends := (g.mem_preds_iff (skipped.trans inside) a).mp needed
  obtain ⟨b, needs, bound⟩ := forward k w skipped inside a depends
  have isPred := (g.mem_preds_iff inside b).mpr needs
  have here := ready isPred
  have early := mem_range.mp (scheduled _ w rest split b isPred)
  have listed : List.range k <+: g.order := split ▸ prefix_append _ _
  rcases prefix_or_prefix_of_prefix within listed with short | long
  · exact mem_of_prefix_range short here bound
  · exact long.subset (mem_range.mpr (by omega))

/-- Where the order is the list's own, the last dependency never goes back. -/
theorem forward_of_order (own : g.order = List.range g.nodes.length) : g.LastDependencyForward := by
  intro v w before inside a depends
  by_contra none
  push Not at none
  have early : g.preds w ⊆ List.range a := fun b needed =>
    mem_range.mpr (none b ((g.mem_preds_iff inside b).mp needed))
  have waiting : ¬ g.preds v ⊆ List.range a := fun ready =>
    absurd (mem_range.mp (ready ((g.mem_preds_iff (before.trans inside) a).mpr depends)))
      (lt_irrefl a)
  have fair := own ▸ g.fair_order
  have listed : List.range a <+: List.range g.nodes.length := by
    rw [prefix_iff_eq_take, length_range, take_range, min_eq_left]
    exact (depends.2.2.choose_spec.2.1.1).le
  have pair := fair.first v w (mem_range.mpr (before.trans inside)) (mem_range.mpr inside)
    (List.range a) listed early waiting
  have back := (pairwise_cons.mp (pairwise_lt_range.sublist pair)).1 v mem_cons_self
  exact absurd back (lt_asymm before)

theorem preds_subset_of_eq (ordered : g.Ordered) {k w : Nat} (before : k < w)
    (inside : w < g.nodes.length) (same : g.node k = g.node w) : g.preds k ⊆ g.preds w := by
  intro a needed
  obtain ⟨_, other, t, read, last⟩ := (g.mem_preds_iff (before.trans inside) a).mp needed
  have early := ordered k a ⟨before.trans inside, other, t, read, last⟩
  exact (g.mem_preds_iff inside a).mpr ⟨inside, by omega, t, same ▸ read, last⟩

/-- **A sorted list is left as it is exactly when the last dependency never goes back along it.** -/
theorem topoSort_stable_iff (ordered : g.Ordered) :
    g.topoSort = .ok g ↔ g.LastDependencyForward := by
  rw [topoSort_eq_self_iff ordered]
  constructor
  · intro same
    refine forward_of_order (order_eq_range ordered fun k w rest split skipped front _ ready => ?_)
    have perm := g.order_perm (g.length_order_eq_iff.mpr ordered.acyclic)
    have inside : w < g.nodes.length := mem_range.mp (perm.mem_iff.mp
      (split ▸ mem_append_right _ mem_cons_self))
    have equal : g.node k = g.node w := by
      have place := congrArg (fun nodes => nodes[k]?) same
      rw [split, map_append, map_cons, getElem?_append_right (by simp),
        length_map, length_range, Nat.sub_self, getElem?_cons_zero] at place
      unfold node
      rw [getD_eq_getElem?_getD, ← place]
      rfl
    exact List.Subset.trans (preds_subset_of_eq ordered skipped inside equal) ready
  · intro forward
    rw [order_of_forward ordered forward, map_node_range]

theorem ordered_of_preds (earlier : ∀ b < g.nodes.length, ∀ a ∈ g.preds b, a < b) : g.Ordered :=
  fun b a depends => earlier b depends.1 a ((g.mem_preds_iff depends.1 a).mpr depends)

theorem forward_of_preds (later : ∀ w < g.nodes.length, ∀ v < w, ∀ a ∈ g.preds v,
    ∃ b ∈ g.preds w, a ≤ b) : g.LastDependencyForward := by
  intro v w before inside a depends
  obtain ⟨b, isPred, bound⟩ := later w inside v before a
    ((g.mem_preds_iff (before.trans inside) a).mpr depends)
  exact ⟨b, (g.mem_preds_iff inside b).mp isPred, bound⟩

/-- Two nodes that depend on nothing, and one that depends on the first. -/
def sourcesFirst : Graph where
  nodes := [{ outputs := [0] }, { outputs := [2] }, { inputs := [0], outputs := [1] }]

/-- The same nodes, with the one that depends on the first right behind it. -/
def latecomer : Graph where
  nodes := [{ outputs := [0] }, { inputs := [0], outputs := [1] }, { outputs := [2] }]

theorem sourcesFirst_stable : sourcesFirst.topoSort = .ok sourcesFirst :=
  (topoSort_stable_iff (ordered_of_preds (by decide))).mpr
    (forward_of_preds (by decide))

/-- The last node is emitted before the second. -/
theorem latecomer_reordered : latecomer.Ordered ∧ latecomer.topoSort ≠ .ok latecomer := by
  have ordered : latecomer.Ordered := ordered_of_preds (by decide)
  refine ⟨ordered, fun same => ?_⟩
  have unchanged := (topoSort_eq_self_iff ordered).mp same
  have moved : latecomer.order.map latecomer.node ≠ latecomer.nodes := by decide
  exact moved unchanged

end Vknn.Graph
