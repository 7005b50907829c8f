import Vknn.Ir.Graph
import Vknn.Lib.Contraction

/-!
# Nodes that are kept

A pass that removes nodes marks their positions, and drops the marked nodes when it is
done.  What is left, and how a list splits at a position, is the same for all such passes.
-/

namespace Vknn.Import

open List

/-- The nodes whose positions are not among the dead ones; the first is at `k`. -/
def keptFrom (dead : List Nat) (k : Nat) (nodes : List Node) : List Node :=
  ((nodes.zipIdx k).filter fun nd => nd.2 ∉ dead).map Prod.fst

theorem keptFrom_append (dead : List Nat) (k : Nat) (nodes later : List Node) :
    keptFrom dead k (nodes ++ later) =
      keptFrom dead k nodes ++ keptFrom dead (k + nodes.length) later := by
  simp [keptFrom, zipIdx_append, filter_append]

variable {dead : List Nat} {i k : Nat} {nodes : List Node}

theorem keptFrom_cons_of_mem (gone : k ∈ dead) (n : Node)
    (nodes : List Node) : keptFrom dead k (n :: nodes) = keptFrom dead (k + 1) nodes := by
  simp [keptFrom, gone]

theorem keptFrom_cons_of_not_mem (live : k ∉ dead) (n : Node)
    (nodes : List Node) : keptFrom dead k (n :: nodes) = n :: keptFrom dead (k + 1) nodes := by
  simp [keptFrom, live]

/-- A dead position outside a stretch of nodes does not matter to it. -/
theorem keptFrom_cons_dead
    (outside : i < k ∨ k + nodes.length ≤ i) : keptFrom (i :: dead) k nodes = keptFrom dead k nodes := by
  induction nodes generalizing k with
  | nil => rfl
  | cons n nodes ih =>
    rw [length_cons] at outside
    have rest := ih (k := k + 1) (by omega)
    have away : k ≠ i := by omega
    by_cases gone : k ∈ dead
    · rw [keptFrom_cons_of_mem gone, keptFrom_cons_of_mem (mem_cons_of_mem _ gone), rest]
    · have live : k ∉ i :: dead := by simp [away, gone]
      rw [keptFrom_cons_of_not_mem gone, keptFrom_cons_of_not_mem live, rest]

@[simp] theorem keptFrom_nil (k : Nat) (nodes : List Node) : keptFrom [] k nodes = nodes := by
  simp [keptFrom]

theorem exists_split {j : Nat} {a b : Node} (before : i < j)
    (first : nodes[i]? = some a) (second : nodes[j]? = some b) :
    ∃ front between back, nodes = front ++ a :: (between ++ b :: back) ∧ front.length = i ∧
      i + 1 + between.length = j := by
  obtain ⟨small, atFirst⟩ := List.getElem?_eq_some_iff.mp first
  obtain ⟨small', atSecond⟩ := List.getElem?_eq_some_iff.mp second
  refine ⟨nodes.take i, (nodes.drop (i + 1)).take (j - (i + 1)), nodes.drop (j + 1), ?_, ?_, ?_⟩
  · have tail : nodes.drop (i + 1) = (nodes.drop (i + 1)).take (j - (i + 1)) ++ nodes.drop j := by
      have rejoin := take_append_drop (j - (i + 1)) (nodes.drop (i + 1))
      rw [drop_drop, Nat.add_sub_cancel' before] at rejoin
      exact rejoin.symm
    rw [← atSecond, ← drop_eq_getElem_cons small', ← tail, ← atFirst,
      ← drop_eq_getElem_cons small, take_append_drop]
  · rw [length_take]
    omega
  · rw [length_take, length_drop]
    omega

/-- Nodes that are rewritten in place are kept where they were. -/
theorem keptFrom_map (dead : List Nat) (k : Nat) (nodes : List Node) (f : Node → Node) :
    keptFrom dead k (nodes.map f) = (keptFrom dead k nodes).map f := by
  induction nodes generalizing k with
  | nil => rfl
  | cons n nodes ih =>
    rw [map_cons]
    by_cases gone : k ∈ dead
    · rw [keptFrom_cons_of_mem gone, keptFrom_cons_of_mem gone, ih]
    · rw [keptFrom_cons_of_not_mem gone, keptFrom_cons_of_not_mem gone, ih, map_cons]

theorem split_at {nd : Node} (here : nodes[i]? = some nd) :
    nodes = nodes.take i ++ nd :: nodes.drop (i + 1) ∧ (nodes.take i).length = i := by
  obtain ⟨small, same⟩ := List.getElem?_eq_some_iff.mp here
  refine ⟨?_, by rw [length_take]; omega⟩
  conv_lhs => rw [← take_append_drop i nodes]
  rw [drop_eq_getElem_cons small, same]

/-- A node at a position that is not dead is kept. -/
theorem mem_keptFrom {n : Node} :
    n ∈ keptFrom dead 0 nodes ↔ ∃ j, nodes[j]? = some n ∧ j ∉ dead := by
  simp only [keptFrom, mem_map, mem_filter, Prod.exists, decide_eq_true_eq]
  constructor
  · rintro ⟨n', j, ⟨mem, live⟩, rfl⟩
    exact ⟨j, mem_zipIdx_iff_getElem?.mp mem, live⟩
  · rintro ⟨j, here, live⟩
    exact ⟨n, j, ⟨mem_zipIdx_iff_getElem?.mpr here, live⟩, rfl⟩

/-- The nodes that are kept, position by position. -/
theorem keptFrom_eq_contracted (dead : List Nat) (nodes : List Node) : keptFrom dead 0 nodes =
    Dataflow.contracted nodes.length fun j => if j ∈ dead then none else nodes[j]? := by
  have shifted : ∀ k, keptFrom dead k nodes =
      (List.range nodes.length).filterMap fun j => if k + j ∈ dead then none else nodes[j]? := by
    induction nodes with
    | nil => exact fun k => rfl
    | cons n nodes ih =>
      intro k
      have later : ((fun j => if k + j ∈ dead then none else (n :: nodes)[j]?) ∘ Nat.succ) =
          fun j => if k + 1 + j ∈ dead then none else nodes[j]? := by
        funext j
        rw [Function.comp_apply, Nat.add_right_comm, Nat.add_assoc k j 1]
        rfl
      rw [length_cons, range_succ_eq_map]
      by_cases gone : k ∈ dead
      · rw [keptFrom_cons_of_mem gone, filterMap_cons_none (by simp [gone]),
          filterMap_map, later, ih]
      · rw [keptFrom_cons_of_not_mem gone, filterMap_cons_some (b := n) (by simp [gone]),
          filterMap_map, later, ih]
  have whole := shifted 0
  simp only [Nat.zero_add] at whole
  exact whole

/-- What holds between nodes at two positions that are not dead holds between the nodes that are
kept. -/
theorem pairwise_keptFrom {R : Node → Node → Prop}
    (holds : ∀ (i j : Nat) (a b : Node), i < j → nodes[i]? = some a → nodes[j]? = some b →
      i ∉ dead → j ∉ dead → R a b) : (keptFrom dead 0 nodes).Pairwise R := by
  rw [keptFrom, pairwise_map, pairwise_filter, pairwise_iff_getElem]
  intro i j small small' before live live'
  rw [length_zipIdx] at small small'
  rw [getElem_zipIdx, decide_eq_true_eq, Nat.zero_add] at live live'
  rw [getElem_zipIdx, getElem_zipIdx]
  exact holds i j _ _ before (getElem?_eq_getElem small) (getElem?_eq_getElem small')
    live live'

theorem keptFrom_congr {nodes' : List Node}
    (length : nodes'.length = nodes.length)
    (same : ∀ j : Nat, k + j ∉ dead → nodes'[j]? = nodes[j]?) :
    keptFrom dead k nodes' = keptFrom dead k nodes := by
  induction nodes generalizing nodes' k with
  | nil => rw [length_eq_zero_iff.mp length]
  | cons n nodes ih =>
    cases nodes' with
    | nil => cases length
    | cons n' nodes' =>
      have rest := ih (k := k + 1) (Nat.succ.inj length) fun j live => by
        have next := same (j + 1) (by rwa [Nat.add_comm j, ← Nat.add_assoc])
        rwa [getElem?_cons_succ, getElem?_cons_succ] at next
      by_cases gone : k ∈ dead
      · rw [keptFrom_cons_of_mem gone, keptFrom_cons_of_mem gone, rest]
      · have here := same 0 gone
        rw [getElem?_cons_zero, getElem?_cons_zero] at here
        rw [keptFrom_cons_of_not_mem gone, keptFrom_cons_of_not_mem gone, rest,
          Option.some.inj here]

/-- The nodes that are kept of two lists correspond when those do that are at the same positions. -/
theorem forall₂_keptFrom_iff {R : Node → Node → Prop}
    {nodes' : List Node} (length : nodes'.length = nodes.length) :
    List.Forall₂ R (keptFrom dead k nodes) (keptFrom dead k nodes') ↔
      ∀ (j : Nat) (a b : Node), nodes[j]? = some a → nodes'[j]? = some b → k + j ∉ dead → R a b := by
  induction nodes generalizing nodes' k with
  | nil =>
    rw [length_eq_zero_iff.mp length]
    exact iff_of_true .nil fun j a b here => nomatch here
  | cons n nodes ih =>
    cases nodes' with
    | nil => cases length
    | cons n' nodes' =>
      have rest := ih (k := k + 1) (Nat.succ.inj length)
      have split : (∀ (j : Nat) (a b : Node), (n :: nodes)[j]? = some a →
          (n' :: nodes')[j]? = some b → k + j ∉ dead → R a b) ↔ (k ∉ dead → R n n') ∧
          ∀ (j : Nat) (a b : Node), nodes[j]? = some a → nodes'[j]? = some b →
            k + 1 + j ∉ dead → R a b := by
        constructor
        · intro all
          refine ⟨all 0 n n' rfl rfl, fun j a b here there live => ?_⟩
          exact all (j + 1) a b here there (by rwa [Nat.add_comm j, ← Nat.add_assoc])
        · rintro ⟨first, others⟩ j a b here there live
          cases j with
          | zero =>
            obtain rfl := Option.some.inj here
            obtain rfl := Option.some.inj there
            exact first live
          | succ j => exact others j a b here there (by rwa [Nat.add_assoc, Nat.add_comm 1])
      rw [split, ← rest]
      by_cases gone : k ∈ dead
      · rw [keptFrom_cons_of_mem gone, keptFrom_cons_of_mem gone]
        exact (and_iff_right (absurd gone)).symm
      · rw [keptFrom_cons_of_not_mem gone, keptFrom_cons_of_not_mem gone, forall₂_cons]
        exact and_congr_left fun _ => ⟨fun same _ => same, fun same => same gone⟩

theorem keptFrom_drop {nd : Node}
    (here : nodes[i]? = some nd) (live : i ∉ dead) : ∃ front back,
      keptFrom dead 0 nodes = front ++ nd :: back ∧
      keptFrom (i :: dead) 0 nodes = front ++ back := by
  obtain ⟨split, length⟩ := split_at here
  refine ⟨keptFrom dead 0 (nodes.take i), keptFrom dead (i + 1) (nodes.drop (i + 1)), ?_, ?_⟩
  · conv_lhs => rw [split]
    rw [keptFrom_append, Nat.zero_add, length, keptFrom_cons_of_not_mem live]
  · conv_lhs => rw [split]
    rw [keptFrom_append, Nat.zero_add, length, keptFrom_cons_of_mem mem_cons_self,
      keptFrom_cons_dead (Or.inr (by omega)), keptFrom_cons_dead (Or.inl (by omega))]

end Vknn.Import
