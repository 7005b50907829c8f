import Vknn.Core.TopoSort
import Vknn.Import.FloatCastRemoval
import Vknn.Import.PassesUtil

/-!
# Nodes that their producers absorb

Two passes let a node do the work of the one node that reads its result.  The reader goes,
and whoever read its result reads the result of the other node.  Which pairs there are can
be told from the graph that the pass is given: what a pair leaves behind is no pair again.

What is left is ordered whatever the pairs compute, and a tensor that was there and is the
result of no reader that went is there still.
-/

namespace Vknn.Import

open List
open Cpu (mem_writesOf plainIdentity readsOf signature writesOf)

/-! ## Producers -/

/-- In order, the table names the node that writes a tensor. -/
theorem producer_iff {g : Graph} (ordered : signature.Ordered g.nodes) {t : TensorId} {p : Nat} :
    g.producer[t]? = some p ↔ ∃ P, g.nodes[p]? = some P ∧ t ∈ writesOf P := by
  have writes : ∀ q, q < g.nodes.length ∧ t ≠ kNoTensor ∧ t ∈ (g.node q).outputs ↔
      ∃ Q, g.nodes[q]? = some Q ∧ t ∈ writesOf Q := by
    intro q
    rw [Graph.node, getD_eq_getElem?_getD]
    constructor
    · rintro ⟨small, present, listed⟩
      have here : g.nodes[q]? = some g.nodes[q] := getElem?_eq_getElem small
      rw [here, Option.getD_some] at listed
      exact ⟨_, here, mem_writesOf.mpr ⟨listed, present⟩⟩
    · rintro ⟨Q, here, written⟩
      obtain ⟨listed, present⟩ := mem_writesOf.mp written
      rw [here]
      exact ⟨(List.getElem?_eq_some_iff.mp here).1, present, listed⟩
  rw [Graph.producer_eq_some_iff]
  constructor
  · rintro ⟨here, -⟩
    exact (writes p).mp here
  · rintro ⟨P, here, written⟩
    refine ⟨(writes p).mpr ⟨P, here, written⟩, fun q also => ?_⟩
    obtain ⟨Q, there, again⟩ := (writes q).mp also
    by_contra later
    exact ordered.once here there (by omega) written again

/-! ## Pairs -/

/-- A node that goes, and the node that takes its work over: their positions, and the nodes. -/
abbrev Pairs := Nat → Nat → Node → Node → Prop

/-- Pairs of a graph: each node that goes is the only one with the result of the other among its
operands. -/
structure Absorptions (g : Graph) (Pair : Pairs) : Prop where
  ordered : signature.Ordered g.nodes
  consumer : ∀ {i p c P}, Pair i p c P → g.nodes[i]? = some c
  producer : ∀ {i p c P}, Pair i p c P → g.nodes[p]? = some P
  makes : ∀ {i p c P}, Pair i p c P → writesOf P = [P.outputs.headD kNoTensor]
  results : ∀ {i p c P}, Pair i p c P → writesOf c = [c.outputs.headD kNoTensor]
  reads : ∀ {i p c P}, Pair i p c P → P.outputs.headD kNoTensor ∈ c.inputs
  only : ∀ {i p c P}, Pair i p c P → ∀ {k : Nat} {n : Node}, g.nodes[k]? = some n →
    P.outputs.headD kNoTensor ∈ n.inputs → k = i
  apart : ∀ {i p c P q d Q}, Pair i p c P → ¬ Pair p q d Q
  onto : ∀ {i p c P q d Q}, Pair i p c P → Pair i q d Q → p = q

variable {g : Graph} {Pair : Pairs} {i p : Nat} {c P : Node}

def Gone (Pair : Pairs) (t : TensorId) : Prop := ∃ i p c P, Pair i p c P ∧ t = c.outputs.headD kNoTensor

namespace Absorptions

variable (pairs : Absorptions g Pair) (pair : Pair i p c P)
include pairs pair

theorem made : P.outputs.headD kNoTensor ∈ writesOf P := by
  rw [pairs.makes pair]
  exact mem_singleton_self _

theorem result : c.outputs.headD kNoTensor ∈ writesOf c := by
  rw [pairs.results pair]
  exact mem_singleton_self _

theorem present : P.outputs.headD kNoTensor ≠ kNoTensor := (mem_writesOf.mp (pairs.made pair)).2

theorem present' : c.outputs.headD kNoTensor ≠ kNoTensor := (mem_writesOf.mp (pairs.result pair)).2

theorem read : P.outputs.headD kNoTensor ∈ readsOf c :=
  Cpu.mem_readsOf_of_input (pairs.reads pair) (pairs.present pair)

theorem before : p < i := by
  obtain ⟨small, first⟩ := List.getElem?_eq_some_iff.mp (pairs.producer pair)
  obtain ⟨small', second⟩ := List.getElem?_eq_some_iff.mp (pairs.consumer pair)
  have written := pairs.made pair
  have read := pairs.read pair
  rcases Nat.lt_trichotomy p i with less | same | more
  · exact less
  · subst same
    obtain rfl := first.symm.trans second
    exact absurd read (pairs.ordered.self P (mem_of_getElem? (pairs.producer pair)) _ written)
  · have apart := pairwise_iff_getElem.mp pairs.ordered.before i p small' small more
    rw [first, second] at apart
    exact absurd read (apart _ written).1

variable {i' p' : Nat} {P' c' : Node}

theorem unique (pair' : Pair i' p' c' P')
    (same : P.outputs.headD kNoTensor = P'.outputs.headD kNoTensor) :
    i = i' ∧ p = p' ∧ c = c' ∧ P = P' := by
  obtain rfl := pairs.only pair' (pairs.consumer pair) (same ▸ pairs.reads pair)
  obtain rfl := Option.some.inj ((pairs.consumer pair).symm.trans (pairs.consumer pair'))
  have position : p = p' := by
    by_contra apart
    exact pairs.ordered.once (pairs.producer pair) (pairs.producer pair') apart (pairs.made pair)
      (same ▸ pairs.made pair')
  subst position
  exact ⟨rfl, rfl, rfl, Option.some.inj ((pairs.producer pair).symm.trans (pairs.producer pair'))⟩

theorem unique_producer (pair' : Pair i' p c' P') : i = i' ∧ c = c' ∧ P = P' := by
  obtain rfl := Option.some.inj ((pairs.producer pair).symm.trans (pairs.producer pair'))
  obtain ⟨position, -, node, same⟩ := pairs.unique pair pair' rfl
  exact ⟨position, node, same⟩

theorem unique_gone (pair' : Pair i' p' c' P')
    (same : c.outputs.headD kNoTensor = c'.outputs.headD kNoTensor) : i = i' := by
  by_contra apart
  exact pairs.ordered.once (pairs.consumer pair) (pairs.consumer pair') apart (pairs.result pair)
    (same ▸ pairs.result pair')

theorem not_gone : ¬ Gone Pair (P.outputs.headD kNoTensor) := by
  rintro ⟨i', p', c', P', pair', same⟩
  have apart : p ≠ i' := by
    rintro rfl
    exact pairs.apart pair pair'
  exact pairs.ordered.once (pairs.producer pair) (pairs.consumer pair') apart (pairs.made pair)
    (same ▸ pairs.result pair')

end Absorptions

/-! ## Reading past what goes -/

/-- Names after some of the pairs: a result that went becomes the other result of its pair. -/
structure Renamed (Pair : Pairs) (σ : TensorId → TensorId) : Prop where
  gone : ∀ {i p c P}, Pair i p c P → σ (c.outputs.headD kNoTensor) = P.outputs.headD kNoTensor
  kept : ∀ {t}, ¬ Gone Pair t → σ t = t

namespace Renamed

variable {σ : TensorId → TensorId} (names : Renamed Pair σ)
include names

/-- The result of a node that stays, but takes no work over, is its own name. -/
theorem alone {t : TensorId} (stays : ¬ Gone Pair t)
    (other : ∀ i p c P, Pair i p c P → t ≠ P.outputs.headD kNoTensor) (s : TensorId) :
    σ s = t ↔ s = t := by
  constructor
  · intro same
    by_cases goes : Gone Pair s
    · obtain ⟨i, p, c, P, pair, rfl⟩ := goes
      exact absurd (same.symm.trans (names.gone pair)) (other i p c P pair)
    · exact (names.kept goes).symm.trans same
  · rintro rfl
    exact names.kept stays

variable (pairs : Absorptions g Pair)
include pairs

theorem absent (t : TensorId) : σ t = kNoTensor ↔ t = kNoTensor := by
  by_cases goes : Gone Pair t
  · obtain ⟨i, p, c, P, pair, rfl⟩ := goes
    rw [names.gone pair]
    exact iff_of_false (pairs.present pair) (pairs.present' pair)
  · rw [names.kept goes]

end Renamed

/-! ## One pair after another -/

/-- The pairs whose first position comes before a position. -/
def UpTo (Pair : Pairs) (n : Nat) : Pairs := fun i p c P => i < n ∧ Pair i p c P

section UpTo

variable {σ : TensorId → TensorId} {n : Nat} (pairs : Absorptions g Pair)

theorem Absorptions.upTo (pairs : Absorptions g Pair) (n : Nat) : Absorptions g (UpTo Pair n) where
  ordered := pairs.ordered
  consumer pair := pairs.consumer pair.2
  producer pair := pairs.producer pair.2
  makes pair := pairs.makes pair.2
  results pair := pairs.results pair.2
  reads pair := pairs.reads pair.2
  only pair := pairs.only pair.2
  apart pair pair' := pairs.apart pair.2 pair'.2
  onto pair pair' := pairs.onto pair.2 pair'.2

theorem upTo_zero : ¬ UpTo Pair 0 i p c P := fun pair => Nat.not_lt_zero _ pair.1

theorem UpTo.mono (pair : UpTo Pair n i p c P) : UpTo Pair (n + 1) i p c P :=
  ⟨Nat.lt_succ_of_lt pair.1, pair.2⟩

theorem upTo_succ : UpTo Pair (n + 1) i p c P ↔ UpTo Pair n i p c P ∨ (i = n ∧ Pair i p c P) := by
  unfold UpTo
  rw [Nat.lt_succ_iff_lt_or_eq]
  tauto

theorem upTo_succ_of_none (none_ : ∀ p c P, ¬ Pair n p c P) : UpTo Pair (n + 1) = UpTo Pair n := by
  funext i p c P
  refine propext (upTo_succ.trans (or_iff_left ?_))
  rintro ⟨rfl, pair⟩
  exact none_ p c P pair

theorem upTo_length (pairs : Absorptions g Pair) : UpTo Pair g.nodes.length = Pair := by
  funext i p c P
  refine propext (and_iff_right_of_imp fun pair => ?_)
  exact (List.getElem?_eq_some_iff.mp (pairs.consumer pair)).1

theorem renamed_start : Renamed (UpTo Pair 0) id where
  gone pair := absurd pair upTo_zero
  kept _ := rfl

include pairs

theorem Renamed.step (names : Renamed (UpTo Pair n) σ) (pair : Pair n p c P) :
    Renamed (UpTo Pair (n + 1)) fun t =>
      Dataflow.redirect (c.outputs.headD kNoTensor) (P.outputs.headD kNoTensor) (σ t) where
  gone {i q d Q} pair' := by
    rcases upTo_succ.mp pair' with earlier | ⟨rfl, here⟩
    · rw [names.gone earlier]
      refine Dataflow.redirect_of_ne fun same => pairs.not_gone earlier.2 ?_
      exact ⟨n, p, c, P, pair, same⟩
    · obtain rfl := Option.some.inj ((pairs.consumer here).symm.trans (pairs.consumer pair))
      have fresh : ¬ Gone (UpTo Pair i) (d.outputs.headD kNoTensor) := by
        rintro ⟨j, q', d', Q', earlier, same⟩
        have position := pairs.unique_gone pair earlier.2 same
        exact absurd earlier.1 (by omega)
      rw [names.kept fresh, Dataflow.redirect_gone]
      obtain rfl := pairs.onto pair here
      rw [Option.some.inj ((pairs.producer pair).symm.trans (pairs.producer here))]
  kept {t} stays := by
    have before : ¬ Gone (UpTo Pair n) t := by
      rintro ⟨j, q, d, Q, earlier, same⟩
      exact stays ⟨j, q, d, Q, earlier.mono, same⟩
    rw [names.kept before]
    refine Dataflow.redirect_of_ne fun same => stays ?_
    exact ⟨n, p, c, P, ⟨Nat.lt_succ_self n, pair⟩, same⟩

end UpTo

/-! ## What is left -/

/-- What is left of the nodes of a graph: at every position that stays is a node that writes what the
node there wrote, and that reads what it read, read past what goes, besides what nobody writes. -/
structure Leaves (g : Graph) (Pair : Pairs) (σ : TensorId → TensorId) (dead : List Nat)
    (nodes : List Node) : Prop where
  length : nodes.length = g.nodes.length
  dead : ∀ j, j ∈ dead ↔ ∃ p c P, Pair j p c P
  writes : ∀ {k : Nat} {n' n : Node}, nodes[k]? = some n' → g.nodes[k]? = some n →
    writesOf n' = writesOf n
  reads : ∀ {k : Nat} {n' n : Node}, nodes[k]? = some n' → g.nodes[k]? = some n → ∀ t ∈ readsOf n',
    (∃ s ∈ readsOf n, t = s ∨ t = σ s) ∨ ∀ m ∈ g.nodes, t ∉ writesOf m

namespace Leaves

variable {σ : TensorId → TensorId} {dead : List Nat} {nodes : List Node}
  (left : Leaves g Pair σ dead nodes)
include left

variable {k : Nat} {t : TensorId}

theorem place {n' : Node} (found : nodes[k]? = some n') : ∃ n, g.nodes[k]? = some n := by
  obtain ⟨small, -⟩ := List.getElem?_eq_some_iff.mp found
  exact ⟨_, getElem?_eq_getElem (left.length ▸ small)⟩

theorem place' {n : Node} (found : g.nodes[k]? = some n) : ∃ n', nodes[k]? = some n' := by
  obtain ⟨small, -⟩ := List.getElem?_eq_some_iff.mp found
  exact ⟨_, getElem?_eq_getElem (left.length.symm ▸ small)⟩

/-- **What is left is ordered.** -/
theorem ordered (pairs : Absorptions g Pair) (names : Renamed Pair σ) :
    signature.Ordered (keptFrom dead 0 nodes) := by
  -- What a node reads afterwards is written before it, or by nobody.
  have early : ∀ {k k' : Nat} {n' m' : Node}, k ≤ k' → nodes[k]? = some n' → nodes[k']? = some m' →
      ∀ t ∈ writesOf m', t ∉ readsOf n' := by
    intro k k' n' m' late found found' t written read
    obtain ⟨n, here⟩ := left.place found
    obtain ⟨m, there⟩ := left.place found'
    rw [left.writes found' there] at written
    have unread : ∀ {j : Nat} {d : Node}, g.nodes[j]? = some d → j ≤ k' →
        ∀ s ∈ writesOf m, s ∉ readsOf d := by
      intro j d at_ less s wrote used
      obtain ⟨small, rfl⟩ := List.getElem?_eq_some_iff.mp at_
      obtain ⟨small', rfl⟩ := List.getElem?_eq_some_iff.mp there
      rcases Nat.lt_or_eq_of_le less with earlier | rfl
      · exact (pairwise_iff_getElem.mp pairs.ordered.before j k' small small' earlier s wrote).1
          used
      · exact pairs.ordered.self _ (getElem_mem small) s wrote used
    rcases left.reads found here t read with ⟨s, used, same⟩ | nobody
    · by_cases goes : Gone Pair s
      · obtain ⟨i, p, c, P, pair, rfl⟩ := goes
        rcases same with rfl | rfl
        · exact unread here late _ written used
        · -- The reader of a result that went comes after the pair.
          rw [names.gone pair] at written
          have position : p = k' := by
            by_contra apart
            exact pairs.ordered.once (pairs.producer pair) there apart (pairs.made pair) written
          subst position
          have after : i < k := by
            by_contra early
            obtain ⟨small, rfl⟩ := List.getElem?_eq_some_iff.mp here
            obtain ⟨small', rfl⟩ := List.getElem?_eq_some_iff.mp (pairs.consumer pair)
            rcases Nat.lt_or_eq_of_le (Nat.le_of_not_lt early) with earlier | rfl
            · exact (pairwise_iff_getElem.mp pairs.ordered.before k i small small' earlier _
                (pairs.result pair)).1 used
            · exact pairs.ordered.self _ (getElem_mem small) _ (pairs.result pair) used
          exact absurd (pairs.before pair) (by omega)
      · rw [names.kept goes, or_self] at same
        subst same
        exact unread here late t written used
    · exact nobody m (mem_of_getElem? there) written
  refine ⟨pairwise_keptFrom fun k k' n' m' before found found' live live' t written => ?_, ?_⟩
  · refine ⟨early (Nat.le_of_lt before) found found' t written, ?_⟩
    obtain ⟨n, here⟩ := left.place found
    obtain ⟨m, there⟩ := left.place found'
    change t ∈ writesOf m' at written
    change t ∉ writesOf n'
    rw [left.writes found' there] at written
    rw [left.writes found here]
    exact pairs.ordered.once there here (Nat.ne_of_gt before) written
  · intro n' mem t written
    obtain ⟨k, found, -⟩ := mem_keptFrom.mp mem
    exact early le_rfl found found t written

/-- **A tensor that was there is there still**, unless it went. -/
theorem available (pairs : Absorptions g Pair) (stays : ¬ Gone Pair t)
    (there : ∃ n ∈ g.nodes, t ∈ writesOf n) :
    ∃ n' ∈ keptFrom dead 0 nodes, t ∈ writesOf n' := by
  obtain ⟨n, mem, written⟩ := there
  obtain ⟨k, here⟩ := mem_iff_getElem?.mp mem
  obtain ⟨n', found⟩ := left.place' here
  refine ⟨n', mem_keptFrom.mpr ⟨k, found, fun gone => stays ?_⟩, left.writes found here ▸ written⟩
  obtain ⟨p, c, P, pair⟩ := (left.dead k).mp gone
  obtain rfl := Option.some.inj (here.symm.trans (pairs.consumer pair))
  rw [pairs.results pair, mem_singleton] at written
  exact ⟨k, p, n, P, pair, written⟩

/-- **So is what is read for it.** -/
theorem available_names (pairs : Absorptions g Pair) (names : Renamed Pair σ)
    (there : Available g g.nodes t) : Available g (keptFrom dead 0 nodes) (σ t) := by
  by_cases goes : Gone Pair t
  · obtain ⟨i, p, c, P, pair, rfl⟩ := goes
    rw [names.gone pair]
    exact Or.inr (left.available pairs (pairs.not_gone pair)
      ⟨P, mem_of_getElem? (pairs.producer pair), pairs.made pair⟩)
  · rw [names.kept goes]
    exact there.imp_right (left.available pairs goes)

theorem lost (pairs : Absorptions g Pair) (goes : Gone Pair t) :
    ∀ n' ∈ keptFrom dead 0 nodes, t ∉ writesOf n' := by
  obtain ⟨i, p, c, P, pair, rfl⟩ := goes
  intro n' mem written
  obtain ⟨k, found, live⟩ := mem_keptFrom.mp mem
  obtain ⟨n, here⟩ := left.place found
  rw [left.writes found here] at written
  have apart : i ≠ k := by
    rintro rfl
    exact live ((left.dead i).mpr ⟨p, c, P, pair⟩)
  exact pairs.ordered.once (pairs.consumer pair) here apart (pairs.result pair) written

end Leaves

/-! ## What is read -/

/-- A tensor before and after a pass: both are absent, or the one afterwards is there and holds what
the other held. -/
structure Carried {V : Type} (E E' : TensorId → V) (there' : TensorId → Prop) (t t' : TensorId) :
    Prop where
  absent : t' = kNoTensor ↔ t = kNoTensor
  there : t ≠ kNoTensor → there' t'
  value : t ≠ kNoTensor → E' t' = E t

theorem Carried.tensorOf {V : Type} {E E' : TensorId → V} {there' : TensorId → Prop}
    {t t' : TensorId} (same : Carried E E' there' t t') :
    Cpu.tensorOf E' t' = Cpu.tensorOf E t := by
  unfold Cpu.tensorOf
  by_cases absent : t = kNoTensor
  · rw [if_pos absent, if_pos (same.absent.mpr absent)]
  · rw [if_neg absent, if_neg (mt same.absent.mp absent), same.value absent]

theorem forall₂_reads_iff {R : TensorId → TensorId → Prop} {σ : TensorId → TensorId}
    {ts us : List TensorId} : List.Forall₂ R (ts ++ us) (ts.map σ ++ us) ↔
      (∀ t ∈ ts, R t (σ t)) ∧ ∀ t ∈ us, R t t := by
  induction ts with
  | nil => simp [forall₂_same]
  | cons t ts ih => simp [ih, and_assoc]

/-- **A node computes what it computed** when its operands, under other names, hold what they held. -/
theorem runOperator_readThrough {V : Type} {K : Cpu.Operators V} {g : Graph}
    {σ : TensorId → TensorId} {E E' : TensorId → V} {nd : Node}
    (absent : ∀ t, σ t = kNoTensor ↔ t = kNoTensor)
    (operands : ∀ t ∈ nd.inputs, Cpu.tensorOf E' (σ t) = Cpu.tensorOf E t)
    (fused : ∀ t ∈ [nd.fusedResidual, nd.fusedBias], Cpu.tensorOf E' t = Cpu.tensorOf E t) :
    Cpu.runOperator K g (readThrough σ nd) E' = Cpu.runOperator K g nd E := by
  have plain : plainIdentity (readThrough σ nd) = plainIdentity nd := by
    cases shape : nd.inputs with
    | nil => simp [plainIdentity, readThrough, shape]
    | cons t rest => simp [plainIdentity, readThrough, shape, absent]
  have inputs : (readThrough σ nd).inputs.map (Cpu.tensorOf E') = nd.inputs.map (Cpu.tensorOf E) := by
    change (nd.inputs.map σ).map (Cpu.tensorOf E') = _
    rw [map_map]
    exact map_congr_left operands
  unfold Cpu.runOperator
  rw [plain, inputs]
  split
  · rename_i identity
    simp only [plainIdentity, Bool.and_eq_true, decide_eq_true_eq] at identity
    have present := identity.1.2
    have head := operands _ (Cpu.headD_mem present)
    change [E' ((nd.inputs.map σ).headD kNoTensor)] = _
    rw [headD_map ((absent _).mpr rfl)]
    rw [Cpu.tensorOf, if_neg (mt (absent _).mp present), Cpu.tensorOf, if_neg present] at head
    rw [Option.some.inj head]
  · change K.apply _ _ (Cpu.tensorOf E' nd.fusedResidual) (Cpu.tensorOf E' nd.fusedBias) = _
    rw [fused _ mem_cons_self, fused _ (mem_cons_of_mem _ mem_cons_self)]
    rfl

end Vknn.Import
