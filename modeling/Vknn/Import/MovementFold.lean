import Vknn.Import.MovementMaps

/-!
# One fold

A fold takes a producer and its one consumer, and lets the consumer read the
producer's input.  What a graph must satisfy for a fold to be sound is kept by the
fold, so that folds can be chained.

The pass counts operands, and so misses a reader that a fusion attached: a residual
or a bias.  The condition that no such reader exists is stated over the pairs the
pass can fold.
-/

namespace Vknn.Import

open List Cpu Or Bool

variable (floatInts : FloatInts) (g : Graph)

/-- A node list as the passes before leave it: in order, with constants that nobody writes, shapes
that are inferred, no bias on a mover, and outputs in the tensor table. -/
structure WellFormed (nodes : List Node) : Prop where
  sized : Sized g
  ordered : signature.Ordered nodes
  computed : ∀ nd ∈ nodes, ∀ t ∈ writesOf nd, g.isInitializer t = false
  shaped : ∀ nd ∈ nodes, movementEligible nd = true → nd.attr.has (str "view_stride") = false →
    Shaped floatInts g nd
  unbiased : ∀ nd ∈ nodes, movementEligible nd = true → nd.fusedBias = kNoTensor
  inTable : ∀ nd ∈ nodes, ∀ t ∈ writesOf nd, t < g.tensors.length

/-- Two movers that the pass can fold: the first feeds the second, which is not folded yet, and
nothing the pass looks at forbids it. -/
structure Foldable (fp32Pins : Str) (nodes : List Node) (P nd : Node) : Prop where
  producer : P ∈ nodes
  consumer : nd ∈ nodes
  eligibleP : movementEligible P = true
  eligible : movementEligible nd = true
  plain : nd.attr.has (str "view_stride") = false
  meet : P.outputs.headD kNoTensor = nd.inputs.headD kNoTensor
  single : consumers nodes (nd.inputs.headD kNoTensor) = 1
  inner : nd.inputs.headD kNoTensor ∉ g.outputs
  free : pinned g fp32Pins (nd.inputs.headD kNoTensor) = false
  mapP : (movementMapOf floatInts g P).isSome
  map : (movementMapOf floatInts g nd).isSome

/-- A fusion attached the tensor to a node. -/
def Attached (nodes : List Node) (t : TensorId) : Prop :=
  ∃ n ∈ nodes, n.fusedResidual = t ∨ n.fusedBias = t

/-- No tensor between two foldable movers is attached to a node. -/
def Unattached (fp32Pins : Str) (nodes : List Node) : Prop :=
  ∀ P nd, Foldable floatInts g fp32Pins nodes P nd → ¬ Attached nodes (nd.inputs.headD kNoTensor)

/-- The parameters of foldable movers are constant. -/
def StaticPairs (fp32Pins : Str) (nodes : List Node) : Prop :=
  ∀ P nd, Foldable floatInts g fp32Pins nodes P nd → StaticParams g P ∧ StaticParams g nd

/-! ## Around a foldable pair -/

variable {floatInts g} {fp32Pins : Str} {front between back : List Node} {P nd : Node}

/-! ## A fold as a bypass -/

/-- The program before a fold, with its producer and consumer. -/
abbrev Before (front between back : List Node) (P nd : Node) : List Node :=
  front ++ P :: (between ++ nd :: back)

/-- The program after a fold. -/
abbrev After (front between back : List Node) (direct : Node) : List Node :=
  front ++ (between ++ direct :: back)

/-- The one read of the tensor between is the consumer's first operand. -/
theorem Foldable.only_consumer
    (foldable : Foldable floatInts g fp32Pins (Before front between back P nd) P nd) :
    consumers (front ++ (between ++ back)) (nd.inputs.headD kNoTensor) = 0 ∧
      nd.inputs.headD kNoTensor ∉ P.inputs ∧
      ∀ rest, nd.inputs = nd.inputs.headD kNoTensor :: rest → nd.inputs.headD kNoTensor ∉ rest := by
  obtain ⟨rest, inputs⟩ := (mover_of_eligible foldable.eligible).inputs
  have single := foldable.single
  generalize nd.inputs.headD kNoTensor = mid at *
  simp only [Before, consumers_append, consumers_cons, inputs, count_cons_self] at single ⊢
  refine ⟨by omega, ?_, ?_⟩
  · refine count_eq_zero.mp ?_
    omega
  · intro rest' same
    obtain rfl := tail_eq_of_cons_eq same
    refine count_eq_zero.mp ?_
    omega

theorem Foldable.unread
    (foldable : Foldable floatInts g fp32Pins (Before front between back P nd) P nd)
    (unattached : ¬ Attached (Before front between back P nd) (nd.inputs.headD kNoTensor)) :
    ∀ n ∈ front ++ (between ++ back), nd.inputs.headD kNoTensor ∉ readsOf n := by
  intro n mem read
  have here : n ∈ Before front between back P nd := by
    simp only [Before, mem_append, mem_cons] at mem ⊢
    tauto
  rcases mem_append.mp (mem_readsOf.mp read).1 with operand | fused
  · exact not_mem_inputs_of_consumers foldable.only_consumer.1 mem operand
  · rcases mem_cons.mp fused with residual | fused
    · exact unattached ⟨n, here, inl residual.symm⟩
    · exact unattached ⟨n, here, inr (mem_singleton.mp fused).symm⟩

/-- **A fold is a bypass**: the consumer reads the source in place of the tensor between. -/
theorem Foldable.bypass
    (foldable : Foldable floatInts g fp32Pins (Before front between back P nd) P nd)
    (wellFormed : WellFormed floatInts g (Before front between back P nd)) (m : MovementMap) :
    signature.Bypass (nd.inputs.headD kNoTensor) P nd
      (stamp nd (P.inputs.headD kNoTensor) m) := by
  obtain ⟨rest, inputs⟩ := (mover_of_eligible foldable.eligible).inputs
  have mover := mover_of_eligible foldable.eligible
  have moverP := mover_of_eligible foldable.eligibleP
  have bias := wellFormed.unbiased nd foldable.consumer foldable.eligible
  have newInputs : (stamp nd (P.inputs.headD kNoTensor) m).inputs =
      P.inputs.headD kNoTensor :: rest := by
    rw [stamp, inputs]
    rfl
  have sourceRead : P.inputs.headD kNoTensor ∈ readsOf P :=
    mem_readsOf_of_input (headD_mem moverP.sourcePresent) moverP.sourcePresent
  have writes : writesOf P = [nd.inputs.headD kNoTensor] := by
    rw [writesOf, moverP.outputs, foldable.meet]
    simpa using mover.sourcePresent
  -- What the stamped node reads: the source, and the other operands.
  have split : ∀ t ∈ readsOf (stamp nd (P.inputs.headD kNoTensor) m),
      t = P.inputs.headD kNoTensor ∨ t ∈ rest := by
    intro t read
    obtain ⟨mem, present⟩ := mem_readsOf.mp read
    rcases mem_append.mp mem with operand | fused
    · rw [newInputs] at operand
      exact mem_cons.mp operand
    · rcases mem_cons.mp fused with residual | fused
      · exact absurd (residual.trans mover.residual) present
      · exact absurd ((mem_singleton.mp fused).trans bias) present
  refine ⟨writes, rfl, fun t read => ?_, fun read => ?_⟩
  · rcases split t read with rfl | other
    · exact inr sourceRead
    · refine inl (mem_readsOf_of_input ?_ (mem_readsOf.mp read).2)
      rw [inputs]
      exact mem_cons_of_mem _ other
  · rcases split _ read with same | other
    · have self := wellFormed.ordered.self P foldable.producer (nd.inputs.headD kNoTensor)
        (show _ ∈ writesOf P by rw [writes]; exact mem_cons_self)
      exact self (same ▸ sourceRead)
    · exact foldable.only_consumer.2.2 rest inputs other

/-! ## What a fold keeps -/

variable {n : Node} {m pm : MovementMap} {t : TensorId} {nodes : List Node}

/-- A run keeps the data of the constants, since nobody writes them. -/
theorem loaded_step {α : Type} {K : Kernels α}
    (computed : ∀ t ∈ writesOf n, g.isInitializer t = false) {e : TensorId → List α}
    (loaded : Loaded K g e) : Loaded K g ((machine K g).step e n) := by
  intro t hb held wide
  rw [(machine K g).step_frame]
  · exact loaded t hb held wide
  · intro written
    have isConst : g.isInitializer t = true := by
      rw [Graph.isInitializer, Std.ExtTreeMap.contains_eq_isSome_getElem?, held]
      rfl
    rw [computed t written] at isConst
    exact false_ne_true isConst

theorem value_mover {α : Type} {K : Kernels α}
    (eligible : movementEligible n = true) (e : TensorId → List α) :
    (machine K g).value n e (n.outputs.headD kNoTensor) = runMover K g n e := by
  have outputs := (mover_of_eligible eligible).outputs
  change (runNode K g n e).getD (n.outputs.idxOf _) [] = _
  rw [runNode, if_pos (movementEligible_eq n ▸ eligible), outputs]
  simp

/-- **A fold changes no tensor but the one between.** -/
theorem Foldable.run {α : Type} (K : Kernels α)
    (foldable : Foldable floatInts g fp32Pins (Before front between back P nd) P nd)
    (wellFormed : WellFormed floatInts g (Before front between back P nd))
    (unattached : ¬ Attached (Before front between back P nd) (nd.inputs.headD kNoTensor))
    (static : StaticParams g P ∧ StaticParams g nd)
    (foundP : movementMapOf floatInts g P = some pm)
    (rank : pm.stride.length = (g.desc (nd.inputs.headD kNoTensor)).shape.length)
    (composed : throughNode floatInts g nd (g.desc (nd.inputs.headD kNoTensor)).shape pm = some m)
    {e : TensorId → List α} (loaded : Loaded K g e)
    (other : t ≠ nd.inputs.headD kNoTensor) :
    execute K g (Before front between back P nd) e t =
      execute K g (After front between back (stamp nd (P.inputs.headD kNoTensor) m)) e t := by
  have unread := foldable.unread unattached
  obtain ⟨fm, found⟩ := Option.isSome_iff_exists.mp foldable.map
  have moverP := mover_of_eligible foldable.eligibleP
  have newEligible := movementEligible_stamp foldable.eligible moverP.sourcePresent m
  refine Dataflow.Machine.run_bypass (M := machine K g)
    (foldable.bypass wellFormed m) wellFormed.ordered (fun n mem => unread n ?_)
    (fun n mem e => loaded_step (wellFormed.computed n ?_)) (fun e loaded made t written => ?_)
    loaded t other
  · exact mem_append_right _ mem
  · simp only [Before, mem_append, mem_cons] at mem ⊢
    tauto
  · have outputs := (mover_of_eligible foldable.eligible).outputs
    have only : t = nd.outputs.headD kNoTensor := by
      have listed : t ∈ nd.outputs := (mem_writesOf.mp written).1
      rw [outputs] at listed
      exact mem_singleton.mp listed
    rw [← foldable.meet, value_mover foldable.eligibleP, foldable.meet] at made
    rw [only, value_mover foldable.eligible]
    refine Eq.trans ?_ (value_mover newEligible e).symm
    exact (runMover_stamp wellFormed.sized foldable.eligibleP foldable.eligible foldable.plain
      foldable.meet (wellFormed.shaped P foldable.producer foldable.eligibleP)
      (wellFormed.shaped nd foldable.consumer foldable.eligible foldable.plain) static.1 static.2
      foundP found rank composed loaded made).symm

theorem Foldable.wellFormed
    (foldable : Foldable floatInts g fp32Pins (Before front between back P nd) P nd)
    (wellFormed : WellFormed floatInts g (Before front between back P nd)) (m : MovementMap) :
    WellFormed floatInts g
      (After front between back (stamp nd (P.inputs.headD kNoTensor) m)) := by
  have old : ∀ n ∈ After front between back (stamp nd (P.inputs.headD kNoTensor) m),
      n = stamp nd (P.inputs.headD kNoTensor) m ∨ n ∈ Before front between back P nd := by
    intro n mem
    simp only [Before, After, mem_append, mem_cons] at mem ⊢
    tauto
  refine ⟨wellFormed.sized, wellFormed.ordered.bypass (foldable.bypass wellFormed m), ?_, ?_, ?_, ?_⟩
  · intro n mem
    rcases old n mem with rfl | before
    · exact wellFormed.computed nd foldable.consumer
    · exact wellFormed.computed n before
  · intro n mem eligible plain
    rcases old n mem with rfl | before
    · rw [stamp_has_stride] at plain
      exact absurd plain.symm false_ne_true
    · exact wellFormed.shaped n before eligible plain
  · intro n mem eligible
    rcases old n mem with rfl | before
    · exact wellFormed.unbiased nd foldable.consumer foldable.eligible
    · exact wellFormed.unbiased n before eligible
  · intro n mem
    rcases old n mem with rfl | before
    · exact wellFormed.inTable nd foldable.consumer
    · exact wellFormed.inTable n before

/-- A fold keeps the readers of every tensor but the one between, constants apart. -/
theorem Foldable.consumers_eq
    (foldable : Foldable floatInts g fp32Pins (Before front between back P nd) P nd)
    (static : StaticParams g P) (m : MovementMap)
    (other : t ≠ nd.inputs.headD kNoTensor) (present : t ≠ kNoTensor)
    (computed : g.isInitializer t = false) :
    consumers (After front between back (stamp nd (P.inputs.headD kNoTensor) m)) t =
      consumers (Before front between back P nd) t := by
  obtain ⟨rest, inputs⟩ := (mover_of_eligible foldable.eligible).inputs
  obtain ⟨restP, inputsP⟩ := (mover_of_eligible foldable.eligibleP).inputs
  have newInputs : (stamp nd (P.inputs.headD kNoTensor) m).inputs =
      P.inputs.headD kNoTensor :: rest := by
    rw [stamp, inputs]
    rfl
  have params : restP.count t = 0 := by
    refine count_eq_zero.mpr fun mem => ?_
    rcases static t (by rw [inputsP]; exact mem) with absent | ⟨isConst, -⟩
    · exact present absent
    · rw [computed] at isConst
      exact false_ne_true isConst
  have away : nd.inputs.headD kNoTensor ≠ t := fun same => other same.symm
  simp only [Before, After, consumers_append, consumers_cons]
  rw [newInputs, inputs, inputsP]
  simp only [count_cons, headD_cons]
  rw [params, beq_eq_false_iff_ne.mpr away]
  simp only [false_eq_true, if_false]
  omega

/-! ## Folds after one another -/

/-- A pair that can be folded after a fold could be folded before it. -/
theorem Foldable.earlier
    (foldable : Foldable floatInts g fp32Pins (Before front between back P nd) P nd)
    (wellFormed : WellFormed floatInts g (Before front between back P nd))
    (unattached : ¬ Attached (Before front between back P nd) (nd.inputs.headD kNoTensor))
    (static : StaticParams g P) {P' nd' : Node}
    (later : Foldable floatInts g fp32Pins
      (After front between back (stamp nd (P.inputs.headD kNoTensor) m)) P' nd') :
    ∃ P₀, Foldable floatInts g fp32Pins (Before front between back P nd) P₀ nd' ∧
      P'.inputs.tail = P₀.inputs.tail := by
  have rest : nd' ∈ front ++ (between ++ back) := by
    have mem := later.consumer
    have other : nd' ≠ stamp nd (P.inputs.headD kNoTensor) m := by
      rintro rfl
      exact absurd (later.plain.symm.trans (stamp_has_stride _ _ _)) false_ne_true
    simp only [After, mem_append, mem_cons] at mem ⊢
    tauto
  have here : ∀ n ∈ front ++ (between ++ back), n ∈ Before front between back P nd := by
    intro n mem
    simp only [Before, mem_append, mem_cons] at mem ⊢
    tauto
  have mover := mover_of_eligible later.eligible
  have away : nd'.inputs.headD kNoTensor ≠ nd.inputs.headD kNoTensor := fun same =>
    foldable.unread unattached nd' rest
      (same ▸ mem_readsOf_of_input (headD_mem mover.sourcePresent) mover.sourcePresent)
  -- The producer is an old node, or the stamped consumer.
  obtain ⟨P₀, mem, eligible, outputs, map, tail⟩ : ∃ P₀ ∈ Before front between back P nd,
      movementEligible P₀ = true ∧ P'.outputs = P₀.outputs ∧
        (movementMapOf floatInts g P₀).isSome ∧ P'.inputs.tail = P₀.inputs.tail := by
    by_cases stamped : P' = stamp nd (P.inputs.headD kNoTensor) m
    · obtain ⟨rest, inputs⟩ := (mover_of_eligible foldable.eligible).inputs
      refine ⟨nd, foldable.consumer, foldable.eligible, by rw [stamped]; rfl, foldable.map, ?_⟩
      rw [stamped, stamp, inputs]
      rfl
    · have mem := later.producer
      refine ⟨P', here P' ?_, later.eligibleP, rfl, later.mapP, rfl⟩
      simp only [After, mem_append, mem_cons] at mem ⊢
      tauto
  have meet : P₀.outputs.headD kNoTensor = nd'.inputs.headD kNoTensor := by
    rw [← outputs]
    exact later.meet
  have written : nd'.inputs.headD kNoTensor ∈ writesOf P₀ := by
    have mover₀ := mover_of_eligible eligible
    rw [← meet]
    exact mem_writesOf.mpr ⟨headD_mem mover₀.outputPresent, mover₀.outputPresent⟩
  refine ⟨P₀, ⟨mem, here nd' rest, eligible, later.eligible, later.plain, meet, ?_, later.inner,
    later.free, map, later.map⟩, tail⟩
  rw [← foldable.consumers_eq static m away mover.sourcePresent
    (wellFormed.computed P₀ mem _ written)]
  exact later.single

/-- What one or more folds make of a program. -/
structure FoldsTo (floatInts : FloatInts) (g : Graph) (fp32Pins : Str) (nodes kept : List Node) :
    Prop where
  wellFormed : WellFormed floatInts g kept
  unattached : Unattached floatInts g fp32Pins kept
  static : StaticPairs floatInts g fp32Pins kept
  run : ∀ {α : Type} (K : Kernels α) e, Loaded K g e → ∀ t ∈ g.outputs,
    execute K g kept e t = execute K g nodes e t
  fed : ∀ computed, signature.Fed computed nodes → signature.Fed computed kept
  readers : ∀ t ≠ kNoTensor, g.isInitializer t = false → (∃ n ∈ kept, t ∈ writesOf n) →
    consumers kept t = consumers nodes t
  writers : ∀ n ∈ kept, ∃ n₀ ∈ nodes, n.outputs = n₀.outputs

theorem FoldsTo.refl (wellFormed : WellFormed floatInts g nodes)
    (unattached : Unattached floatInts g fp32Pins nodes)
    (static : StaticPairs floatInts g fp32Pins nodes) :
    FoldsTo floatInts g fp32Pins nodes nodes :=
  ⟨wellFormed, unattached, static, fun _ _ _ _ _ => rfl, fun _ fed => fed, fun _ _ _ _ => rfl,
    fun n mem => ⟨n, mem, rfl⟩⟩

theorem FoldsTo.trans {kept last : List Node}
    (first : FoldsTo floatInts g fp32Pins nodes kept)
    (second : FoldsTo floatInts g fp32Pins kept last) :
    FoldsTo floatInts g fp32Pins nodes last where
  wellFormed := second.wellFormed
  unattached := second.unattached
  static := second.static
  run K e loaded t output := (second.run K e loaded t output).trans (first.run K e loaded t output)
  fed computed fed := second.fed computed (first.fed computed fed)
  readers t present computed := by
    rintro ⟨n, mem, written⟩
    obtain ⟨n₀, before, outputs⟩ := second.writers n mem
    rw [second.readers t present computed ⟨n, mem, written⟩]
    refine first.readers t present computed ⟨n₀, before, ?_⟩
    rw [writesOf, ← outputs]
    exact written
  writers n mem := by
    obtain ⟨n₁, middle, outputs⟩ := second.writers n mem
    obtain ⟨n₀, before, outputs'⟩ := first.writers n₁ middle
    exact ⟨n₀, before, outputs.trans outputs'⟩

/-- **A fold keeps the outputs, the supply of what is read, and the condition for more folds.** -/
theorem Foldable.foldsTo
    (foldable : Foldable floatInts g fp32Pins (Before front between back P nd) P nd)
    (wellFormed : WellFormed floatInts g (Before front between back P nd))
    (unattached : Unattached floatInts g fp32Pins (Before front between back P nd))
    (static : StaticPairs floatInts g fp32Pins (Before front between back P nd))
    (foundP : movementMapOf floatInts g P = some pm)
    (rank : pm.stride.length = (g.desc (nd.inputs.headD kNoTensor)).shape.length)
    (composed : throughNode floatInts g nd (g.desc (nd.inputs.headD kNoTensor)).shape pm = some m) :
    FoldsTo floatInts g fp32Pins (Before front between back P nd)
      (After front between back (stamp nd (P.inputs.headD kNoTensor) m)) := by
  have apart := unattached P nd foldable
  have params := static P nd foldable
  have bypass := foldable.bypass wellFormed m
  have old : ∀ n ∈ After front between back (stamp nd (P.inputs.headD kNoTensor) m),
      ∃ n₀ ∈ Before front between back P nd, n.outputs = n₀.outputs ∧
        n.fusedResidual = n₀.fusedResidual ∧ n.fusedBias = n₀.fusedBias := by
    intro n mem
    simp only [Before, After, mem_append, mem_cons] at mem ⊢
    rcases mem with inFront | inBetween | rfl | inBack
    · exact ⟨n, inl inFront, rfl, rfl, rfl⟩
    · exact ⟨n, inr (inr (inl inBetween)), rfl, rfl, rfl⟩
    · exact ⟨nd, inr (inr (inr (inl rfl))), rfl, rfl, rfl⟩
    · exact ⟨n, inr (inr (inr (inr inBack))), rfl, rfl, rfl⟩
  refine ⟨foldable.wellFormed wellFormed m, ?_, ?_, ?_, ?_, ?_, ?_⟩
  · rintro P' nd' later ⟨n, mem, fused⟩
    obtain ⟨P₀, earlier, -⟩ := foldable.earlier wellFormed apart params.1 later
    obtain ⟨n₀, before, -, residual, bias⟩ := old n mem
    rw [residual, bias] at fused
    exact unattached P₀ nd' earlier ⟨n₀, before, fused⟩
  · intro P' nd' later
    obtain ⟨P₀, earlier, tail⟩ := foldable.earlier wellFormed apart params.1 later
    obtain ⟨staticP, staticC⟩ := static P₀ nd' earlier
    refine ⟨?_, staticC⟩
    rw [StaticParams, tail]
    exact staticP
  · intro α K e loaded t output
    exact (foldable.run K wellFormed apart params foundP rank composed loaded
      fun same => foldable.inner (same ▸ output)).symm
  · intro computed fed
    exact fed.bypass bypass wellFormed.ordered (foldable.unread apart)
  · rintro t present computed ⟨n, mem, written⟩
    refine foldable.consumers_eq params.1 m (fun same => ?_) present computed
    -- The tensor between has no writer left.
    have before := wellFormed.ordered.before
    rw [pairwise_append, pairwise_cons] at before
    obtain ⟨-, ⟨ahead, -⟩, behind⟩ := before
    have mine : t ∈ signature.writes P := by
      rw [bypass.writes, same]
      exact mem_cons_self
    simp only [After, mem_append, mem_cons] at mem
    rcases mem with inFront | inBetween | rfl | inBack
    · exact (behind n inFront P mem_cons_self t mine).2 written
    · exact (ahead n (by simp [inBetween]) t written).2 mine
    · exact (ahead nd (by simp) t written).2 mine
    · exact (ahead n (by simp [inBack]) t written).2 mine
  · intro n mem
    obtain ⟨n₀, before, outputs, -⟩ := old n mem
    exact ⟨n₀, before, outputs⟩

end Vknn.Import
