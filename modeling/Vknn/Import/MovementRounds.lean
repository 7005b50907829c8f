import Vknn.Import.MovementFold

/-!
# Rounds of folds

A round visits the nodes in order, folds where it can, and marks the producers that
go; they are taken out at its end.  Since a producer stands before its consumer, the
nodes that are still there at any time form the program of some folds.

The main result is about the whole pass: it keeps every graph output and the supply
of every tensor that is read, provided that no tensor between two foldable movers is
attached to a node by a fusion, and that their parameters are constant.  Without the
first of these, a reader is left with nothing to read.
-/

namespace Vknn.Import

open List Option Bool Cpu Nat Or

variable {floatInts : FloatInts} {g : Graph} {fp32Pins : Str}

/-! ## What a site is -/

/-- What the pass has checked when it folds at a position. -/
structure Site (floatInts : FloatInts) (g : Graph) (fp32Pins : Str) (nodes : List Node)
    (st : FoldState) (i pi : Nat) (nd P : Node) (pm fm m : MovementMap) : Prop where
  atConsumer : st.nodes[i]? = some nd
  eligible : movementEligible nd = true
  plain : nd.attr.has (str "view_stride") = false
  writer : producerOf g nodes (nd.inputs.headD kNoTensor) = some pi
  live : pi ∉ st.dead
  atProducer : st.nodes[pi]? = some P
  eligibleP : movementEligible P = true
  single : consumers nodes (nd.inputs.headD kNoTensor) = 1
  inner : nd.inputs.headD kNoTensor ∉ g.outputs
  free : pinned g fp32Pins (nd.inputs.headD kNoTensor) = false
  foundP : movementMapOf floatInts g P = some pm
  found : movementMapOf floatInts g nd = some fm
  rankP : pm.stride.length = (g.desc (nd.inputs.headD kNoTensor)).shape.length
  rank : fm.stride.length = (g.desc (nd.inputs.headD kNoTensor)).shape.length
  composed : throughNode floatInts g nd (g.desc (nd.inputs.headD kNoTensor)).shape pm = some m

/-- **The pass folds at a position exactly where there is a site.** -/
theorem foldSite_eq_some_iff {nodes : List Node} {st : FoldState} {i pi : Nat} {direct : Node} :
    foldSite floatInts g fp32Pins nodes st i = some (pi, direct) ↔
      ∃ nd P pm fm m, Site floatInts g fp32Pins nodes st i pi nd P pm fm m ∧
        direct = stamp nd (P.inputs.headD kNoTensor) m := by
  unfold foldSite
  simp only [bind, bind_eq_some_iff, guard_eq_some', pure, some.injEq,
    Prod.mk.injEq, and_eq_true, not_eq_true', decide_eq_true_eq]
  constructor
  · rintro ⟨nd, atConsumer, -, ⟨eligible, plain⟩, pi', writer, -, live, P, atProducer, -,
      ⟨⟨eligibleP, single⟩, inner⟩, -, free, pm, foundP, fm, found, -, ⟨rankP, rank⟩, m, composed,
      rfl, rfl⟩
    exact ⟨nd, P, pm, fm, m, ⟨atConsumer, eligible, plain, writer, live, atProducer, eligibleP,
      single, inner, free, foundP, found, rankP, rank, composed⟩, rfl⟩
  · rintro ⟨nd, P, pm, fm, m, site, rfl⟩
    exact ⟨nd, site.atConsumer, (), ⟨site.eligible, site.plain⟩, pi, site.writer, (), site.live, P,
      site.atProducer, (), ⟨⟨site.eligibleP, site.single⟩, site.inner⟩, (), site.free, pm,
      site.foundP, fm, site.found, (), ⟨site.rankP, site.rank⟩, m, site.composed, rfl, rfl⟩

/-! ## A round -/

/-- What holds in a round before a position is visited: the nodes from there on are as they were,
outputs have not changed, the dead are behind, and the rest is the program of some folds. -/
structure RoundInv (floatInts : FloatInts) (g : Graph) (fp32Pins : Str) (nodes : List Node)
    (st : FoldState) (i : Nat) : Prop where
  ahead : ∀ j, i ≤ j → st.nodes[j]? = nodes[j]?
  outputs : ∀ j : Nat, st.nodes[j]?.map (·.outputs) = nodes[j]?.map (·.outputs)
  behind : ∀ j ∈ st.dead, j < i
  folds : FoldsTo floatInts g fp32Pins nodes (keptFrom st.dead 0 st.nodes)

variable {nodes : List Node} {st : FoldState} {i pi : Nat} {nd P : Node} {pm fm m : MovementMap}

/-- The producer of a site writes the tensor between, and stands before the consumer. -/
theorem RoundInv.producer_before (inv : RoundInv floatInts g fp32Pins nodes st i)
    (wellFormed : WellFormed floatInts g nodes)
    (site : Site floatInts g fp32Pins nodes st i pi nd P pm fm m) :
    P.outputs.headD kNoTensor = nd.inputs.headD kNoTensor ∧ pi < i := by
  have mover := mover_of_eligible site.eligible
  obtain ⟨n, before, written⟩ := writes_of_producerOf site.writer
  refine ⟨?_, ?_⟩
  · have same := inv.outputs pi
    rw [site.atProducer, before] at same
    have listed := (mem_writesOf.mp written).1
    have outputs : P.outputs = n.outputs := some.inj same
    rw [← outputs, (mover_of_eligible site.eligibleP).outputs] at listed
    exact (mem_singleton.mp listed).symm
  · have reader := inv.ahead i le_rfl
    rw [site.atConsumer] at reader
    exact written_before wellFormed.ordered before written reader.symm
      (mem_readsOf_of_input (headD_mem mover.sourcePresent) mover.sourcePresent)

/-- **A site is a fold of the program that is left.** -/
theorem RoundInv.fold (inv : RoundInv floatInts g fp32Pins nodes st i)
    (wellFormed : WellFormed floatInts g nodes)
    (site : Site floatInts g fp32Pins nodes st i pi nd P pm fm m) :
    FoldsTo floatInts g fp32Pins nodes (keptFrom (pi :: st.dead) 0
      (st.nodes.set i (stamp nd (P.inputs.headD kNoTensor) m))) := by
  obtain ⟨meet, before⟩ := inv.producer_before wellFormed site
  obtain ⟨front, between, back, split, frontLength, betweenLength⟩ :=
    exists_split before site.atProducer site.atConsumer
  have alive : i ∉ st.dead := fun gone => lt_irrefl i (inv.behind i gone)
  -- The program before and after, from the parts of the list.
  have programBefore : keptFrom st.dead 0 st.nodes =
      Before (keptFrom st.dead 0 front) (keptFrom st.dead (pi + 1) between)
        (keptFrom st.dead (i + 1) back) P nd := by
    rw [split, keptFrom_append, zero_add, frontLength, keptFrom_cons_of_not_mem site.live,
      keptFrom_append, betweenLength, keptFrom_cons_of_not_mem alive]
  have programAfter : keptFrom (pi :: st.dead) 0
        (st.nodes.set i (stamp nd (P.inputs.headD kNoTensor) m)) =
      After (keptFrom st.dead 0 front) (keptFrom st.dead (pi + 1) between)
        (keptFrom st.dead (i + 1) back) (stamp nd (P.inputs.headD kNoTensor) m) := by
    have replaced : st.nodes.set i (stamp nd (P.inputs.headD kNoTensor) m) =
        front ++ P :: (between ++ stamp nd (P.inputs.headD kNoTensor) m :: back) := by
      obtain ⟨k, rfl⟩ := Nat.exists_eq_add_of_le (Nat.succ_le_of_lt before)
      have length : between.length = k := by omega
      rw [split, set_append_right _ _ (by omega), frontLength]
      have offset : pi.succ + k - pi = k + 1 := by omega
      rw [offset, set_cons_succ, set_append_right _ _ length.le, length, Nat.sub_self,
        set_cons_zero]
    have stillAlive : i ∉ pi :: st.dead := by
      intro gone
      rcases mem_cons.mp gone with same | gone
      · omega
      · exact alive gone
    rw [replaced, keptFrom_append, zero_add, frontLength,
      keptFrom_cons_of_mem mem_cons_self, keptFrom_append, betweenLength,
      keptFrom_cons_of_not_mem stillAlive,
      keptFrom_cons_dead (inr (by omega)), keptFrom_cons_dead (inl (by omega)),
      keptFrom_cons_dead (inl (by omega))]
  have mover := mover_of_eligible site.eligible
  have moverP := mover_of_eligible site.eligibleP
  have written : nd.inputs.headD kNoTensor ∈ writesOf P := by
    rw [← meet]
    exact mem_writesOf.mpr ⟨headD_mem moverP.outputPresent, moverP.outputPresent⟩
  have folds := inv.folds
  rw [programBefore] at folds
  have producerIn : P ∈ Before (keptFrom st.dead 0 front) (keptFrom st.dead (pi + 1) between)
      (keptFrom st.dead (i + 1) back) P nd := by simp
  have foldable : Foldable floatInts g fp32Pins
      (Before (keptFrom st.dead 0 front) (keptFrom st.dead (pi + 1) between)
        (keptFrom st.dead (i + 1) back) P nd) P nd :=
    { producer := producerIn
      consumer := by simp
      eligibleP := site.eligibleP
      eligible := site.eligible
      plain := site.plain
      meet
      single := by
        rw [folds.readers _ mover.sourcePresent
          (folds.wellFormed.computed P producerIn _ written) ⟨P, producerIn, written⟩]
        exact site.single
      inner := site.inner
      free := site.free
      mapP := by rw [site.foundP]; rfl
      map := by rw [site.found]; rfl }
  rw [programAfter]
  exact folds.trans (foldable.foldsTo folds.wellFormed folds.unattached folds.static site.foundP
    site.rankP site.composed)

theorem RoundInv.step (inv : RoundInv floatInts g fp32Pins nodes st i)
    (wellFormed : WellFormed floatInts g nodes) :
    RoundInv floatInts g fp32Pins nodes (foldStep floatInts g fp32Pins nodes st i) (i + 1) := by
  unfold foldStep
  split
  · rename_i pi direct found
    obtain ⟨nd, P, pm, fm, m, site, rfl⟩ := foldSite_eq_some_iff.mp found
    refine ⟨fun j after => ?_, fun j => ?_, fun j mem => ?_, inv.fold wellFormed site⟩
    · rw [getElem?_set_ne (by omega)]
      exact inv.ahead j (by omega)
    · rw [← inv.outputs j, getElem?_set]
      split
      · rename_i same
        subst same
        obtain ⟨small, -⟩ := List.getElem?_eq_some_iff.mp site.atConsumer
        rw [if_pos small, site.atConsumer]
        rfl
      · rfl
    · rcases mem_cons.mp mem with rfl | gone
      · exact lt_succ_of_lt (inv.producer_before wellFormed site).2
      · exact lt_succ_of_lt (inv.behind j gone)
  · exact ⟨fun j after => inv.ahead j (by omega), inv.outputs,
      fun j gone => lt_succ_of_lt (inv.behind j gone), inv.folds⟩

/-- **What holds in a round, after any number of positions.** -/
theorem roundInv (wellFormed : WellFormed floatInts g nodes)
    (unattached : Unattached floatInts g fp32Pins nodes)
    (static : StaticPairs floatInts g fp32Pins nodes) (n : Nat) :
    RoundInv floatInts g fp32Pins nodes
      ((List.range n).foldl (foldStep floatInts g fp32Pins nodes) { nodes }) n := by
  induction n with
  | zero =>
    refine ⟨fun _ _ => rfl, fun _ => rfl, fun j gone => (not_mem_nil gone).elim, ?_⟩
    rw [range_zero, foldl_nil, keptFrom_nil]
    exact .refl wellFormed unattached static
  | succ n ih =>
    rw [range_succ, foldl_append]
    exact ih.step wellFormed

theorem foldsTo_foldRounds (wellFormed : WellFormed floatInts g nodes)
    (unattached : Unattached floatInts g fp32Pins nodes)
    (static : StaticPairs floatInts g fp32Pins nodes) (rounds : Nat) :
    FoldsTo floatInts g fp32Pins nodes (foldRounds floatInts g fp32Pins rounds nodes).1 := by
  induction rounds generalizing nodes with
  | zero => exact .refl wellFormed unattached static
  | succ rounds ih =>
    have round := (roundInv wellFormed unattached static nodes.length).folds
    rw [foldRounds]
    dsimp only
    split
    · exact .refl wellFormed unattached static
    · exact round.trans (ih round.wellFormed round.unattached round.static)

/-! ## A reader the pass does not count -/

/-- What a round leaves of a node, folded or not. -/
structure Same (floatInts : FloatInts) (g : Graph) (n n' : Node) : Prop where
  outputs : n'.outputs = n.outputs
  residual : n'.fusedResidual = n.fusedResidual
  bias : n'.fusedBias = n.fusedBias
  eligible : movementEligible n' = movementEligible n
  map : (movementMapOf floatInts g n).isSome → (movementMapOf floatInts g n').isSome

theorem Same.refl (n : Node) : Same floatInts g n n := ⟨rfl, rfl, rfl, rfl, fun found => found⟩

/-- The consumer of a site, and what takes its place. -/
theorem Site.same (site : Site floatInts g fp32Pins nodes st i pi nd P pm fm m)
    (meet : P.outputs.headD kNoTensor = nd.inputs.headD kNoTensor) :
    Same floatInts g nd (stamp nd (P.inputs.headD kNoTensor) m) := by
  have moverP := mover_of_eligible site.eligibleP
  obtain ⟨rest, inputs⟩ := (mover_of_eligible site.eligible).inputs
  refine ⟨rfl, rfl, rfl, ?_, fun _ => ?_⟩
  · rw [site.eligible]
    exact movementEligible_stamp site.eligible moverP.sourcePresent m
  · obtain ⟨⟨axesP, rankP, someP, -⟩, -⟩ := movementMapOf_eq_some_iff.mp site.foundP
    obtain ⟨⟨-, rank, -, some⟩, -⟩ := movementMapOf_eq_some_iff.mp site.found
    have input : (stamp nd (P.inputs.headD kNoTensor) m).inputs.headD kNoTensor =
        P.inputs.headD kNoTensor := by
      rw [stamp, inputs]
      rfl
    have stamped := stamp_has_stride nd (P.inputs.headD kNoTensor) m
    rw [← meet] at rank
    refine isSome_iff_exists.mpr ⟨_, movementMapOf_eq_some_iff.mpr ⟨?_, inl
      ⟨stamped, rfl, ?_⟩⟩⟩
    · rw [input]
      exact ⟨axesP, rank.trans rankP, someP, some⟩
    · rw [input, stamp_stride, length_throughNode site.composed site.rankP, ← meet, rankP]

/-- What holds in a round of any program before a position is visited.  A dead node is a mover, and
a node that was visited read its output. -/
structure RoundShape (floatInts : FloatInts) (g : Graph) (nodes : List Node) (st : FoldState)
    (i : Nat) : Prop where
  length : st.nodes.length = nodes.length
  ahead : ∀ j, i ≤ j → st.nodes[j]? = nodes[j]?
  same : ∀ (j : Nat) (n n' : Node), nodes[j]? = some n → st.nodes[j]? = some n' →
    Same floatInts g n n'
  dead : ∀ j ∈ st.dead, ∃ n, nodes[j]? = some n ∧ movementEligible n = true ∧
    ∃ k < i, ∃ c, nodes[k]? = some c ∧ c.inputs.head? = n.outputs.head?
  count : st.folded = st.dead.length

/-- The producer and the consumer of a site, in the nodes the round started with. -/
theorem RoundShape.site (shape : RoundShape floatInts g nodes st i)
    (site : Site floatInts g fp32Pins nodes st i pi nd P pm fm m) :
    nodes[i]? = some nd ∧ P.outputs.headD kNoTensor = nd.inputs.headD kNoTensor ∧
      ∃ n, nodes[pi]? = some n ∧ Same floatInts g n P := by
  obtain ⟨n, before, written⟩ := writes_of_producerOf site.writer
  have same := shape.same pi n P before site.atProducer
  refine ⟨(shape.ahead i le_rfl).symm.trans site.atConsumer, ?_, n, before, same⟩
  have listed := (mem_writesOf.mp written).1
  rw [← same.outputs, (mover_of_eligible site.eligibleP).outputs] at listed
  exact (mem_singleton.mp listed).symm

theorem RoundShape.step (shape : RoundShape floatInts g nodes st i) :
    RoundShape floatInts g nodes (foldStep floatInts g fp32Pins nodes st i) (i + 1) := by
  unfold foldStep
  split
  · rename_i pi direct found
    obtain ⟨nd, P, pm, fm, m, site, rfl⟩ := foldSite_eq_some_iff.mp found
    obtain ⟨consumer, meet, n, producer, same⟩ := shape.site site
    refine ⟨?_, fun j after => ?_, fun j n₀ n' before now => ?_, fun j mem => ?_, ?_⟩
    · rw [length_set]
      exact shape.length
    · rw [getElem?_set_ne (by omega)]
      exact shape.ahead j (by omega)
    · rw [getElem?_set] at now
      split at now
      · rename_i here
        subst here
        split at now
        · obtain rfl := some.inj (consumer.symm.trans before)
          rw [← some.inj now]
          exact site.same meet
        · cases now
      · exact shape.same j n₀ n' before now
    · rcases mem_cons.mp mem with rfl | gone
      · refine ⟨n, producer, same.eligible ▸ site.eligibleP, i, lt_succ_self i, nd, consumer, ?_⟩
        obtain ⟨rest, inputs⟩ := (mover_of_eligible site.eligible).inputs
        rw [← same.outputs, (mover_of_eligible site.eligibleP).outputs, inputs, meet]
        rfl
      · obtain ⟨n₀, before, eligible, k, earlier, rest⟩ := shape.dead j gone
        exact ⟨n₀, before, eligible, k, lt_succ_of_lt earlier, rest⟩
    · rw [length_cons, ← shape.count]
  · refine ⟨shape.length, fun j after => shape.ahead j (by omega), shape.same, fun j gone => ?_,
      shape.count⟩
    obtain ⟨n₀, before, eligible, k, earlier, rest⟩ := shape.dead j gone
    exact ⟨n₀, before, eligible, k, lt_succ_of_lt earlier, rest⟩

/-- What holds in a round of any program, after any number of positions. -/
theorem roundShape (floatInts : FloatInts) (g : Graph) (fp32Pins : Str) (nodes : List Node)
    (n : Nat) :
    RoundShape floatInts g nodes
      ((List.range n).foldl (foldStep floatInts g fp32Pins nodes) { nodes }) n := by
  induction n with
  | zero =>
    refine ⟨rfl, fun _ _ => rfl, fun j n n' before now => ?_,
      fun j gone => (not_mem_nil gone).elim, rfl⟩
    obtain rfl := some.inj (before.symm.trans now)
    exact .refl n
  | succ n ih =>
    rw [range_succ, foldl_append]
    exact ih.step

variable {j : Nat} {n : Node} {t : TensorId}

/-- In an ordered program the table names the writer of a tensor. -/
theorem producerOf_of_writes (wellFormed : WellFormed floatInts g nodes)
    (here : nodes[j]? = some n) (written : t ∈ writesOf n) :
    producerOf g nodes t = some j := by
  obtain ⟨small, at'⟩ := List.getElem?_eq_some_iff.mp here
  obtain ⟨listed, present⟩ := mem_writesOf.mp written
  have nodeAt : ∀ k (inside : k < nodes.length), ({ g with nodes } : Graph).node k = nodes[k] := by
    intro k inside
    change nodes.getD k {} = _
    rw [getD_eq_getElem?_getD, getElem?_eq_getElem inside, getD_some]
  rw [producerOf, if_pos (wellFormed.inTable n (mem_of_getElem? here) t written)]
  refine (Graph.producer_eq_some_iff _ t j).mpr ⟨⟨small, present, ?_⟩, ?_⟩
  · rw [nodeAt j small, at']
    exact listed
  · rintro k ⟨inside, -, also⟩
    rw [nodeAt k inside] at also
    by_contra later
    have apart := pairwise_iff_getElem.mp wellFormed.ordered.before j k small inside
      (not_le.mp later) t (mem_writesOf.mpr ⟨also, present⟩)
    rw [at'] at apart
    exact apart.2 written

/-- **A foldable pair is folded** when the round comes to its consumer. -/
theorem RoundShape.exists_site (shape : RoundShape floatInts g nodes st i)
    (wellFormed : WellFormed floatInts g nodes)
    (foldable : Foldable floatInts g fp32Pins nodes P nd) (consumer : nodes[i]? = some nd) :
    ∃ pi direct, foldSite floatInts g fp32Pins nodes st i = some (pi, direct) ∧
      nodes[pi]? = some P := by
  have mover := mover_of_eligible foldable.eligible
  have moverP := mover_of_eligible foldable.eligibleP
  obtain ⟨pi, small, atProducer⟩ := getElem_of_mem foldable.producer
  have producer : nodes[pi]? = some P := by rw [getElem?_eq_getElem small, atProducer]
  have written : nd.inputs.headD kNoTensor ∈ writesOf P := by
    rw [← foldable.meet]
    exact mem_writesOf.mpr ⟨headD_mem moverP.outputPresent, moverP.outputPresent⟩
  have live : pi ∉ st.dead := by
    intro gone
    obtain ⟨n, here, -, k, earlier, c, at', feeds⟩ := shape.dead pi gone
    obtain rfl := some.inj (producer.symm.trans here)
    have read : nd.inputs.headD kNoTensor ∈ c.inputs := by
      rw [moverP.outputs, foldable.meet] at feeds
      exact mem_of_mem_head? feeds
    have two := two_le_consumers earlier at' consumer read (headD_mem mover.sourcePresent)
    rw [foldable.single] at two
    omega
  obtain ⟨P', now⟩ : ∃ P', st.nodes[pi]? = some P' :=
    ⟨_, getElem?_eq_getElem (by rw [shape.length]; exact small)⟩
  have same := shape.same pi P P' producer now
  obtain ⟨pm, foundP⟩ := isSome_iff_exists.mp (same.map foldable.mapP)
  obtain ⟨fm, found⟩ := isSome_iff_exists.mp foldable.map
  have rankP : pm.stride.length = (g.desc (nd.inputs.headD kNoTensor)).shape.length := by
    rw [length_movementMapOf foundP, ← (movementMapOf_eq_some_iff.mp foundP).1.2.1, same.outputs,
      foldable.meet]
  obtain ⟨m, composed⟩ : ∃ m, throughNode floatInts g nd
      (g.desc (nd.inputs.headD kNoTensor)).shape pm = some m := by
    refine isSome_iff_exists.mp ?_
    obtain ⟨-, ⟨carried, -⟩ | ⟨-, own⟩⟩ := movementMapOf_eq_some_iff.mp found
    · exact absurd (foldable.plain.symm.trans carried) false_ne_true
    · exact throughNode_isSome pm (by rw [own]; rfl)
  exact ⟨pi, stamp nd (P'.inputs.headD kNoTensor) m, foldSite_eq_some_iff.mpr ⟨nd, P', pm, fm, m,
    { atConsumer := (shape.ahead i le_rfl).trans consumer
      eligible := foldable.eligible
      plain := foldable.plain
      writer := producerOf_of_writes wellFormed producer written
      live
      atProducer := now
      eligibleP := same.eligible.trans foldable.eligibleP
      single := foldable.single
      inner := foldable.inner
      free := foldable.free
      foundP
      found
      rankP
      rank := length_movementMapOf found
      composed }, rfl⟩, producer⟩

theorem mem_dead_foldl {positions : List Nat} (gone : j ∈ st.dead) :
    j ∈ (positions.foldl (foldStep floatInts g fp32Pins nodes) st).dead := by
  induction positions generalizing st with
  | nil => exact gone
  | cons i positions ih =>
    refine ih ?_
    unfold foldStep
    split
    · exact mem_cons_of_mem _ gone
    · exact gone

/-- A tensor that a node with fused work reads, and that nobody writes. -/
structure Starved (nodes : List Node) (t : TensorId) : Prop where
  reader : ∃ n ∈ nodes, movementEligible n = false ∧ (n.fusedResidual = t ∨ n.fusedBias = t)
  unwritten : ∀ n ∈ nodes, t ∉ writesOf n

theorem same_of_mem_foldRound {n' : Node}
    (mem : n' ∈ (foldRound floatInts g fp32Pins nodes).1) :
    ∃ j n, nodes[j]? = some n ∧ Same floatInts g n n' ∧
      j ∉ ((List.range nodes.length).foldl (foldStep floatInts g fp32Pins nodes) { nodes }).dead := by
  obtain ⟨j, now, live⟩ := mem_keptFrom.mp mem
  have shape := roundShape floatInts g fp32Pins nodes nodes.length
  obtain ⟨small, -⟩ := List.getElem?_eq_some_iff.mp now
  rw [shape.length] at small
  exact ⟨j, nodes[j], getElem?_eq_getElem small,
    shape.same j _ n' (getElem?_eq_getElem small) now, live⟩

theorem reader_foldRound (floatInts : FloatInts) (g : Graph) (fp32Pins : Str)
    (mem : n ∈ nodes) (fixed : movementEligible n = false) :
    ∃ n' ∈ (foldRound floatInts g fp32Pins nodes).1, Same floatInts g n n' := by
  obtain ⟨j, small, at'⟩ := getElem_of_mem mem
  have here : nodes[j]? = some n := by rw [getElem?_eq_getElem small, at']
  have shape := roundShape floatInts g fp32Pins nodes nodes.length
  have inside : j < ((List.range nodes.length).foldl (foldStep floatInts g fp32Pins nodes)
      { nodes }).nodes.length := by
    rw [shape.length]
    exact small
  have now := getElem?_eq_getElem inside
  refine ⟨_, mem_keptFrom.mpr ⟨j, now, fun gone => ?_⟩, shape.same j n _ here now⟩
  obtain ⟨n₀, before, eligible, -⟩ := shape.dead j gone
  obtain rfl := some.inj (here.symm.trans before)
  rw [fixed] at eligible
  exact false_ne_true eligible

theorem Starved.foldRound (starved : Starved nodes t) :
    Starved (Import.foldRound floatInts g fp32Pins nodes).1 t := by
  obtain ⟨⟨n, mem, fixed, attached⟩, unwritten⟩ := starved
  refine ⟨?_, fun n' mem' written => ?_⟩
  · obtain ⟨n', mem', same⟩ := reader_foldRound floatInts g fp32Pins mem fixed
    refine ⟨n', mem', same.eligible.trans fixed, ?_⟩
    rw [same.residual, same.bias]
    exact attached
  · obtain ⟨j, n₀, here, same, -⟩ := same_of_mem_foldRound mem'
    refine unwritten n₀ (mem_of_getElem? here) ?_
    rw [writesOf, ← same.outputs]
    exact written

theorem Starved.foldRounds (starved : Starved nodes t) (rounds : Nat) :
    Starved (Import.foldRounds floatInts g fp32Pins rounds nodes).1 t := by
  induction rounds generalizing nodes with
  | zero => exact starved
  | succ rounds ih =>
    rw [Import.foldRounds]
    dsimp only
    split
    · exact starved
    · exact ih starved.foldRound

/-- **A tensor between two foldable movers that a fusion attached to a node is starved.** -/
theorem starved_of_attached (wellFormed : WellFormed floatInts g nodes)
    (foldable : Foldable floatInts g fp32Pins nodes P nd)
    (attached : Attached nodes (nd.inputs.headD kNoTensor)) (rounds : Nat) :
    Starved (Import.foldRounds floatInts g fp32Pins (rounds + 1) nodes).1
      (nd.inputs.headD kNoTensor) := by
  have mover := mover_of_eligible foldable.eligible
  obtain ⟨i, small, atConsumer⟩ := getElem_of_mem foldable.consumer
  have consumer : nodes[i]? = some nd := by rw [getElem?_eq_getElem small, atConsumer]
  obtain ⟨pi, direct, found, producer⟩ :=
    (roundShape floatInts g fp32Pins nodes i).exists_site wellFormed foldable consumer
  -- The producer is marked at the consumer, and stays so.
  have gone : pi ∈ ((List.range nodes.length).foldl (foldStep floatInts g fp32Pins nodes)
      { nodes }).dead := by
    obtain ⟨k, length⟩ := Nat.exists_eq_add_of_le (Nat.succ_le_of_lt small)
    rw [length, Nat.succ_eq_add_one, range_add, foldl_append, range_succ, foldl_append]
    refine mem_dead_foldl ?_
    rw [foldl_cons, foldl_nil, foldStep, found]
    exact mem_cons_self
  have shape := roundShape floatInts g fp32Pins nodes nodes.length
  have folded : (foldRound floatInts g fp32Pins nodes).2 ≠ 0 := by
    intro none
    have count : (foldRound floatInts g fp32Pins nodes).2 = _ := shape.count
    rw [none] at count
    rw [length_eq_zero_iff.mp count.symm] at gone
    exact not_mem_nil gone
  rw [foldRounds]
  dsimp only
  rw [if_neg folded]
  refine Starved.foldRounds ⟨?_, fun n' mem written => ?_⟩ rounds
  · obtain ⟨n, mem, reads⟩ := attached
    have fixed : movementEligible n = false := by
      by_contra eligible
      have eligible : movementEligible n = true := by simpa using eligible
      rcases reads with residual | bias
      · exact mover.sourcePresent (residual.symm.trans (mover_of_eligible eligible).residual)
      · exact mover.sourcePresent (bias.symm.trans (wellFormed.unbiased n mem eligible))
    obtain ⟨n', mem', same⟩ := reader_foldRound floatInts g fp32Pins mem fixed
    refine ⟨n', mem', same.eligible.trans fixed, ?_⟩
    rw [same.residual, same.bias]
    exact reads
  · obtain ⟨j, n₀, here, same, live⟩ := same_of_mem_foldRound mem
    have written₀ : nd.inputs.headD kNoTensor ∈ writesOf n₀ := by
      rw [writesOf, ← same.outputs]
      exact written
    have writtenP : nd.inputs.headD kNoTensor ∈ writesOf P := by
      have moverP := mover_of_eligible foldable.eligibleP
      rw [← foldable.meet]
      exact mem_writesOf.mpr ⟨headD_mem moverP.outputPresent, moverP.outputPresent⟩
    have first := producerOf_of_writes wellFormed here written₀
    have second := producerOf_of_writes wellFormed producer writtenP
    exact live (some.inj (first.symm.trans second) ▸ gone)

/-! ## The pass -/

/-- A graph computes what another one did: it gives every output the same elements, and every
tensor that one of its nodes reads, and that was computed, is still computed. -/
structure Preserves (g g' : Graph) : Prop where
  outputs : ∀ {α : Type} (K : Kernels α) e, Loaded K g e → ∀ t ∈ g.outputs,
    execute K g' g'.nodes e t = execute K g g.nodes e t
  supplied : signature.Fed (fun t => ∃ p ∈ g.nodes, t ∈ writesOf p) g'.nodes

/-- **Folding movement chains preserves a graph** whose foldable movers have constant parameters,
when no fusion attached the tensor between two of them to a node; and only then. -/
theorem foldMovementChains_preserves (floatInts : FloatInts) (g : Graph) (fp32Pins : Str)
    (wellFormed : WellFormed floatInts g g.nodes) :
    (Unattached floatInts g fp32Pins g.nodes ∧ StaticPairs floatInts g fp32Pins g.nodes →
      Preserves g (foldMovementChains floatInts g fp32Pins).1) ∧
    (Preserves g (foldMovementChains floatInts g fp32Pins).1 →
      Unattached floatInts g fp32Pins g.nodes) := by
  refine ⟨?_, ?_⟩
  · rintro ⟨unattached, static⟩
    have folds := foldsTo_foldRounds wellFormed unattached static kMovementFoldMaxRounds
    exact ⟨fun K e loaded t output => folds.run K e loaded t output,
      folds.fed _ fun n mem t _ computed => computed⟩
  · intro preserves P nd foldable attached
    obtain ⟨⟨n, mem, fixed, reads⟩, unwritten⟩ :=
      starved_of_attached wellFormed foldable attached 255
    have mover := mover_of_eligible foldable.eligible
    have moverP := mover_of_eligible foldable.eligibleP
    have written : nd.inputs.headD kNoTensor ∈ writesOf P := by
      rw [← foldable.meet]
      exact mem_writesOf.mpr ⟨headD_mem moverP.outputPresent, moverP.outputPresent⟩
    have read : nd.inputs.headD kNoTensor ∈ readsOf n := by
      refine mem_readsOf.mpr ⟨mem_append_right _ ?_, mover.sourcePresent⟩
      rcases reads with residual | bias
      · rw [residual]
        exact mem_cons_self
      · rw [bias]
        exact mem_cons_of_mem _ mem_cons_self
    obtain ⟨p, kept, writes⟩ := preserves.supplied n mem _ read ⟨P, foldable.producer, written⟩
    exact unwritten p kept writes

/-- A matrix is transposed and transposed back.  A node may be attached to the tensor between. -/
def twoTransposes (attached : TensorId) : Graph where
  tensors := [{ name := str "x", shape := [2, 3], isInput := true },
    { name := str "mid", shape := [3, 2] }, { name := str "y", shape := [2, 3] },
    { name := str "z", shape := [2, 3], isOutput := true }]
  nodes := [{ type := .transpose, inputs := [0], outputs := [1] },
    { type := .transpose, inputs := [1], outputs := [2] },
    { type := .relu, inputs := [2], outputs := [3], fusedResidual := attached }]
  inputs := [0]
  outputs := [3]

theorem wellFormed_twoTransposes (floatInts : FloatInts) {attached : TensorId}
    (allowed : attached = kNoTensor ∨ attached = 1) :
    WellFormed floatInts (twoTransposes attached) (twoTransposes attached).nodes := by
  have before : (twoTransposes attached).nodes.Pairwise fun a b => ∀ t ∈ writesOf b,
      t ∉ readsOf a ∧ t ∉ writesOf a := by
    rcases allowed with rfl | rfl <;> decide
  have self : ∀ nd ∈ (twoTransposes attached).nodes, ∀ t ∈ writesOf nd,
      t ∉ readsOf nd := by
    rcases allowed with rfl | rfl <;> decide
  have kinds : ∀ nd ∈ (twoTransposes attached).nodes, nd.type ≠ .slice ∧
      nd.fusedBias = kNoTensor ∧ (nd.type = .transpose →
        Permutes (transposePerm (nd.attr.getints (str "perm"))
          ((twoTransposes attached).desc (nd.inputs.headD kNoTensor)).shape.length) ∧
        ((twoTransposes attached).desc (nd.outputs.headD kNoTensor)).shape =
          transposeShape (nd.attr.getints (str "perm"))
            ((twoTransposes attached).desc (nd.inputs.headD kNoTensor)).shape) := by
    unfold Permutes
    rcases allowed with rfl | rfl <;> decide
  refine ⟨sized_of_tensors ?_, ⟨before, self⟩, ?_, fun nd mem _ _ => ⟨(kinds nd mem).2.2,
    fun slice => absurd slice (kinds nd mem).1⟩, fun nd mem _ => (kinds nd mem).2.1, ?_⟩
  · rcases allowed with rfl | rfl <;> decide
  · rcases allowed with rfl | rfl <;> decide
  · rcases allowed with rfl | rfl <;> decide

/-- Nothing is attached to the tensor between: the two transpositions fold into one, and every
output is kept. -/
theorem preserves_twoTransposes :
    (foldMovementChains (fun _ _ => []) (twoTransposes kNoTensor) []).2 = 1 ∧
      Preserves (twoTransposes kNoTensor)
        (foldMovementChains (fun _ _ => []) (twoTransposes kNoTensor) []).1 := by
  refine ⟨by decide, (foldMovementChains_preserves _ _ _
    (wellFormed_twoTransposes _ (inl rfl))).1 ⟨?_, ?_⟩⟩
  · rintro P nd foldable ⟨n, mem, reads⟩
    have none : ∀ n ∈ (twoTransposes kNoTensor).nodes,
        n.fusedResidual = kNoTensor ∧ n.fusedBias = kNoTensor := by decide
    obtain ⟨residual, bias⟩ := none n mem
    rcases reads with same | same
    · exact (mover_of_eligible foldable.eligible).sourcePresent (same.symm.trans residual)
    · exact (mover_of_eligible foldable.eligible).sourcePresent (same.symm.trans bias)
  · intro P nd foldable
    have only : ∀ n ∈ (twoTransposes kNoTensor).nodes, n.inputs.tail = [] := by decide
    refine ⟨fun t mem => ?_, fun t mem => ?_⟩
    · rw [only P foldable.producer] at mem
      cases mem
    · rw [only nd foldable.consumer] at mem
      cases mem

/-- **A residual attached to the tensor between is left with nothing to read.** -/
theorem residual_starved : ¬ ∀ (floatInts : FloatInts) (g : Graph) (fp32Pins : Str),
    WellFormed floatInts g g.nodes → Preserves g (foldMovementChains floatInts g fp32Pins).1 := by
  intro always
  have supplied := (always (fun _ _ => []) (twoTransposes 1) []
    (wellFormed_twoTransposes _ (inr rfl))).supplied
  have read : ∃ n ∈ (foldMovementChains (fun _ _ => []) (twoTransposes 1) []).1.nodes,
      (1 : TensorId) ∈ readsOf n := by
    decide
  have computed : ∃ p ∈ (twoTransposes 1).nodes, (1 : TensorId) ∈ writesOf p := by decide
  have unwritten : ¬ ∃ p ∈ (foldMovementChains (fun _ _ => []) (twoTransposes 1) []).1.nodes,
      (1 : TensorId) ∈ writesOf p := by
    decide
  obtain ⟨n, mem, reads⟩ := read
  exact unwritten (supplied n mem 1 reads computed)

end Vknn.Import
