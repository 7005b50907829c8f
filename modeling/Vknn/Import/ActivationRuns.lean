import Vknn.Import.FuseActivations

/-!
# When fusing activations is sound

The pass fuses the pairs of the graph it is given, all of them, and what is left is ordered.
The node that has recorded an activation makes the activated tensor under the name that the
tensor had before it was activated.

So a graph output may lose its name, a residual or a bias may see the activated tensor, or
one that nobody makes any more, and a clamp may be to other bounds than its own.  Where
none of this happens, nothing changes.
-/

namespace Vknn.Import

open List
open Cpu (HostActivations Lanes floatEqual hostActivations kSix operation operatorMachine
  plainIdentity runOperator tensorOf writesOf)

variable {g : Graph} {i p : Nat} {act prod : Node} {σ : TensorId → TensorId}

/-! ## What is left -/

/-- What the pass leaves: names, nodes, outputs, and the positions of the removed nodes. -/
structure FuseResult (g : Graph) (σ : TensorId → TensorId) : Prop where
  names : Renamed (FusedPair g) σ
  length : (fuseRun g).nodes.length = g.nodes.length
  recorded : ∀ {i p act prod}, FusedPair g i p act prod →
    (fuseRun g).nodes[p]? = some (readThrough σ (recordAct g act prod))
  rest : ∀ {k : Nat} {nd : Node}, g.nodes[k]? = some nd → (∀ i act prod, ¬ FusedPair g i k act prod) →
    (fuseRun g).nodes[k]? = some (readThrough σ nd)
  outputs : (fuseActivations g).outputs = g.outputs.map σ
  remove : ∀ j, j ∈ (fuseRun g).remove ↔ ∃ p act prod, FusedPair g j p act prod

theorem exists_fuseResult (input : ActivationInput g) : ∃ σ, FuseResult g σ := by
  have all := upTo_length (absorptions_fusedPair input)
  obtain ⟨σ, inv⟩ := fuseInv_run input
  have names := inv.names
  have recorded := @FuseInv.recorded _ _ _ _ inv
  have rest := @FuseInv.rest _ _ _ _ inv
  have remove := inv.remove
  rw [all] at names recorded rest remove
  exact ⟨σ, names, inv.length, recorded, rest, inv.outputs, remove⟩

theorem recordAct_reads (act prod : Node) : (recordAct g act prod).inputs = prod.inputs ∧
    (recordAct g act prod).fusedResidual = prod.fusedResidual ∧
    (recordAct g act prod).fusedBias = prod.fusedBias := by
  unfold recordAct
  split <;> exact ⟨rfl, rfl, rfl⟩

/-- A node that is left, and the node that was at its place: the activation that it has recorded. -/
inductive FusedAt (g : Graph) (σ : TensorId → TensorId) (k : Nat) (nd : Node) : Node → Prop where
  | same (alone : ∀ i act prod, ¬ FusedPair g i k act prod) : FusedAt g σ k nd (readThrough σ nd)
  | recorded {i : Nat} {act : Node} (pair : FusedPair g i k act nd) :
      FusedAt g σ k nd (readThrough σ (recordAct g act nd))

namespace FuseResult

variable (result : FuseResult g σ)
include result

theorem fusedAt {k : Nat} {nd nd' : Node} (here : g.nodes[k]? = some nd)
    (found : (fuseRun g).nodes[k]? = some nd') : FusedAt g σ k nd nd' := by
  by_cases paired : ∃ i act prod, FusedPair g i k act prod
  · obtain ⟨i, act, prod, pair⟩ := paired
    obtain rfl := Option.some.inj (here.symm.trans pair.there)
    obtain rfl := Option.some.inj (found.symm.trans (result.recorded pair))
    exact .recorded pair
  · have alone : ∀ i act prod, ¬ FusedPair g i k act prod :=
      fun i act prod pair => paired ⟨i, act, prod, pair⟩
    obtain rfl := Option.some.inj (found.symm.trans (result.rest here alone))
    exact .same alone

end FuseResult

theorem FusedAt.edges {k : Nat} {nd nd' : Node} (left : FusedAt g σ k nd nd') :
    nd'.reads = nd.inputs.map σ ++ [nd.fusedResidual, nd.fusedBias] ∧ nd'.outputs = nd.outputs := by
  cases left with
  | same => exact ⟨rfl, rfl⟩
  | @recorded i act pair =>
    obtain ⟨inputs, residual, bias⟩ := recordAct_reads (g := g) act nd
    refine ⟨?_, recordAct_outputs act nd⟩
    change (recordAct g act nd).inputs.map σ ++ [(recordAct g act nd).fusedResidual,
      (recordAct g act nd).fusedBias] = _
    rw [inputs, residual, bias]

theorem FuseResult.leaves (result : FuseResult g σ) (input : ActivationInput g) :
    Leaves g (FusedPair g) σ (fuseRun g).remove (fuseRun g).nodes where
  length := result.length
  dead := result.remove
  writes {k nd' nd} found here := by
    change nd'.outputs.filter _ = nd.outputs.filter _
    rw [(result.fusedAt here found).edges.2]
  reads {k nd' nd} found here t read := by
    obtain ⟨listed, present⟩ := Cpu.mem_readsOf.mp read
    rw [(result.fusedAt here found).edges.1] at listed
    rcases mem_append.mp listed with operand | fused
    · obtain ⟨s, own, rfl⟩ := mem_map.mp operand
      have there := mt (result.names.absent (absorptions_fusedPair input) s).mpr present
      exact .inl ⟨s, Cpu.mem_readsOf_of_input own there, .inr rfl⟩
    · exact .inl ⟨t, Cpu.mem_readsOf.mpr ⟨mem_append_right _ fused, present⟩, .inl rfl⟩

/-! ## What it is to be sound -/

variable (K : Cpu.LaneOperators Float32Bits) (past : Float32Bits)
  (smooth : ActType → Float32Bits → Float32Bits) (g : Graph) (e : TensorId → Lanes Float32Bits)

/-- A tensor before and after the pass. -/
abbrev SameAfterFusion (t t' : TensorId) : Prop :=
  Carried (ran K g e) (ran K (fuseActivations g) e) (Available g (fuseActivations g).nodes) t t'

/-- What it is for the pass to be sound, in one run: every graph output keeps its name and what it
holds, and so does every operand, residual and bias of a node that is left keep what it holds. -/
structure FusionSound : Prop where
  outputs : List.Forall₂ (fun t t' => SameAfterFusion K g e t t' ∧
      ((fuseActivations g).desc t').name = (g.desc t).name)
    g.outputs (fuseActivations g).outputs
  edges : List.Forall₂ (fun nd nd' => List.Forall₂ (SameAfterFusion K g e) nd.reads nd'.reads)
    (keptFrom (fuseRun g).remove 0 g.nodes) (fuseActivations g).nodes

/-- A node that is no activation that is fused. -/
def StaysAfterFusion (n : Node) : Prop :=
  ∃ k, g.nodes[k]? = some n ∧ ∀ p act prod, ¬ FusedPair g k p act prod

/-- A tensor that is a graph output, or an operand of a node that stays. -/
def NeededAfterFusion (t : TensorId) : Prop := t ∈ g.outputs ∨ ∃ n, StaysAfterFusion g n ∧ t ∈ n.inputs

/-- What a node does to one number that has recorded an activation. -/
def recordedLane (act prod : Node) : Float32Bits → Float32Bits :=
  Cpu.actLane smooth (recordAct g act prod).fusedAct (recordAct g act prod).actLo
    (recordAct g act prod).actHi

/-- What an activation itself does to one number. -/
def ownLane (act : Node) (e : TensorId → Lanes Float32Bits) : Float32Bits → Float32Bits :=
  if act.type = .relu then Cpu.reluLane
  else Cpu.clipLane past act.attr (act.inputs.map (tensorOf e)).tail

/-- Where an activation that is fused makes a graph output, the name is that of the tensor that it
reads.  No residual and no bias is what it makes; if one is what it reads, what is recorded leaves
that as it is.  And if what it makes is needed, it reads numbers, and what is recorded does to each of
them what the activation does. -/
structure FusionHarmless : Prop where
  named : ∀ i p act prod, FusedPair g i p act prod → act.outputs.headD kNoTensor ∈ g.outputs →
    (g.desc (prod.outputs.headD kNoTensor)).name = (g.desc (act.outputs.headD kNoTensor)).name
  detached : ∀ i p act prod, FusedPair g i p act prod → ∀ n, StaysAfterFusion g n →
    act.outputs.headD kNoTensor ∉ [n.fusedResidual, n.fusedBias]
  unchanged : ∀ i p act prod, FusedPair g i p act prod → ∀ n, StaysAfterFusion g n →
    prod.outputs.headD kNoTensor ∈ [n.fusedResidual, n.fusedBias] →
    (ran K g e (prod.outputs.headD kNoTensor)).isInt = false →
    ∀ v ∈ (ran K g e (prod.outputs.headD kNoTensor)).words, recordedLane smooth g act prod v = v
  clamps : ∀ i p act prod, FusedPair g i p act prod →
    NeededAfterFusion g (act.outputs.headD kNoTensor) →
    (ran K g e (prod.outputs.headD kNoTensor)).isInt = false ∧
    ∀ v ∈ (ran K g e (prod.outputs.headD kNoTensor)).words,
      recordedLane smooth g act prod v = ownLane past act (ran K g e) v

variable {K past smooth g e}

/-! ## Values -/

section Values

variable (hosts : HostActivations K past smooth) (input : ActivationInput g)
  (pair : FusedPair g i p act prod)
include hosts input pair

/-- **What an activation computes.** -/
theorem ran_act : ran K g e (act.outputs.headD kNoTensor) =
    (ran K g e (prod.outputs.headD kNoTensor)).mapNumbers (ownLane past act (ran K g e)) := by
  have pairs := absorptions_fusedPair input
  obtain ⟨single, -, bare⟩ := input.single act pair.act_mem (.inl pair.activation)
  have solved := Dataflow.Machine.solved_run (M := operatorMachine K.toOperators g) input.ordered e
    act pair.act_mem _ (pairs.result pair)
  have kind : act.type = .clip ∨ act.type = .relu := by
    have activation := pair.activation
    simpa [isActivation] using activation
  have other : plainIdentity act = false := by
    rcases kind with type | type <;> simp [plainIdentity, type]
  refine solved.trans ?_
  change (runOperator K.toOperators g act (ran K g e)).getD
    (act.outputs.idxOf (act.outputs.headD kNoTensor)) K.unset = _
  have first : act.outputs.idxOf (act.outputs.headD kNoTensor) = 0 := by
    rw [single]
    exact idxOf_cons_self
  rw [first, runOperator, if_neg (by rw [other]; exact Bool.false_ne_true)]
  have head := pair.operand input
  have there : act.inputs.headD kNoTensor ≠ kNoTensor := input.operand act pair.act_mem pair.activation
  cases operands : act.inputs with
  | nil =>
    rw [operands] at there
    exact absurd rfl there
  | cons t rest =>
    rw [operands] at head there
    have same : t = prod.outputs.headD kNoTensor := head
    have operand : tensorOf (ran K g e) t = some (ran K g e t) := if_neg there
    rw [map_cons, operand, ownLane, operands, map_cons, tail_cons]
    rcases kind with type | type
    · rw [hosts.clip (operation g act) _ _ _ _ type bare, same, if_neg (by rw [type]; decide)]
      rfl
    · rw [hosts.relu (operation g act) _ _ _ _ type bare, same, if_pos type]
      rfl

/-- **What a node computes that has recorded an activation**, from the operands it had. -/
theorem value_recorded {E E' : TensorId → Lanes Float32Bits}
    (operands : ∀ t ∈ prod.inputs, tensorOf E' (σ t) = tensorOf E t)
    (fused : ∀ t ∈ [prod.fusedResidual, prod.fusedBias], tensorOf E' t = tensorOf E t) :
    (operatorMachine K.toOperators g).value (readThrough σ (recordAct g act prod)) E'
        (prod.outputs.headD kNoTensor) =
      ((operatorMachine K.toOperators g).value prod E (prod.outputs.headD kNoTensor)).applyAct
        (recordedLane smooth g act prod) := by
  obtain ⟨single, -, bare⟩ := input.single prod pair.prod_mem (.inr pair.ends)
  obtain ⟨inputs, residual, bias⟩ := recordAct_reads (g := g) act prod
  have ends := pair.ends
  have none_ : prod.fusedAct = .none := by
    have records := pair.records
    simp only [recordsAct, Bool.and_eq_true, decide_eq_true_eq] at records
    exact records.2
  have first : prod.outputs.idxOf (prod.outputs.headD kNoTensor) = 0 := by
    rw [single]
    exact idxOf_cons_self
  -- The two differ in what they record only.
  have fields : (recordAct g act prod).type = prod.type ∧ (recordAct g act prod).attr = prod.attr ∧
      (operation g (readThrough σ (recordAct g act prod))).withoutAct =
        (operation g prod).withoutAct := by
    unfold recordAct
    split <;> exact ⟨rfl, rfl, rfl⟩
  have other : ∀ nd : Node, nd.type = prod.type → plainIdentity nd = false := by
    intro nd same
    simp only [Cpu.endsWithAct, Bool.or_eq_true, decide_eq_true_eq] at ends
    rcases ends with (type | type) | type <;> simp [plainIdentity, same, type]
  have read : (readThrough σ (recordAct g act prod)).inputs.map (tensorOf E') =
      prod.inputs.map (tensorOf E) := by
    change ((recordAct g act prod).inputs.map σ).map (tensorOf E') = _
    rw [inputs, map_map]
    exact map_congr_left operands
  obtain ⟨y, raw, before⟩ := hosts.epilogue (operation g prod) (prod.inputs.map (tensorOf E))
    (tensorOf E prod.fusedResidual) (tensorOf E prod.fusedBias) ends bare
  obtain ⟨y', raw', after⟩ := hosts.epilogue
    (operation g (readThrough σ (recordAct g act prod))) (prod.inputs.map (tensorOf E))
    (tensorOf E prod.fusedResidual) (tensorOf E prod.fusedBias)
    ((congrArg Cpu.endsWithAct fields.1).trans ends) (by
      change (recordAct g act prod).attr.has _ = false
      rw [fields.2.1]
      exact bare)
  rw [fields.2.2, raw] at raw'
  obtain rfl := (List.cons.inj raw').1
  have still : y.applyAct ((operation g prod).lane smooth) = y := by
    refine (Lanes.applyAct_eq_self_iff _ _).mpr fun _ v _ => ?_
    change Cpu.actLane smooth prod.fusedAct prod.actLo prod.actHi v = v
    rw [none_]
    rfl
  have whole : (operatorMachine K.toOperators g).value prod E (prod.outputs.headD kNoTensor) =
      y := by
    change (runOperator K.toOperators g prod E).getD
      (prod.outputs.idxOf (prod.outputs.headD kNoTensor)) K.unset = _
    rw [first, runOperator, if_neg (by rw [other prod rfl]; exact Bool.false_ne_true), before, still]
    rfl
  rw [whole]
  change (runOperator K.toOperators g (readThrough σ (recordAct g act prod)) E').getD
    ((recordAct g act prod).outputs.idxOf (prod.outputs.headD kNoTensor)) K.unset = _
  rw [recordAct_outputs, first, runOperator,
    if_neg (by rw [other (readThrough σ (recordAct g act prod)) fields.1]; exact Bool.false_ne_true),
    read]
  change (K.apply _ _ (tensorOf E' (recordAct g act prod).fusedResidual)
    (tensorOf E' (recordAct g act prod).fusedBias)).getD 0 K.unset = _
  rw [residual, bias, fused _ mem_cons_self, fused _ (mem_cons_of_mem _ mem_cons_self), after]
  rfl

end Values

/-! ## Bounds -/

theorem getf_of_has {attr : Attributes} {key : Str} (has : attr.has key = true)
    (d d' : Float32Bits) : attr.getf key d = attr.getf key d' := by
  unfold Attributes.getf
  rw [Attributes.has, Std.ExtTreeMap.contains_eq_isSome_getElem?] at has
  obtain ⟨a, found⟩ := Option.isSome_iff_exists.mp has
  rw [found]

/-- A bound that is an attribute, or a constant that holds in the run what it is. -/
def BoundGiven (past : Float32Bits) (g : Graph) (E : TensorId → Lanes Float32Bits) (act : Node)
    (key : Str) (k : Nat) : Prop :=
  act.attr.has key = true ∨
    constantBound g act k = some ((E (act.inputs.getD k kNoTensor)).firstNumber past)

variable {E : TensorId → Lanes Float32Bits}

theorem recordedBound_of_given {key : Str} {k : Nat}
    (given : BoundGiven past g E act key (k + 1)) (default_ unbounded : Float32Bits) :
    recordedBound g act key (k + 1) default_ =
      Cpu.clipBound past act.attr key unbounded ((act.inputs.map (tensorOf E)).tail.getD k none) := by
  unfold recordedBound Cpu.clipBound
  dsimp only
  rcases given with has | constant
  · rw [if_pos has, if_pos has]
    exact getf_of_has has _ _
  · have there : k + 1 < act.inputs.length ∧ act.inputs.getD (k + 1) kNoTensor ≠ kNoTensor := by
      by_contra absent
      rw [constantBound, if_neg absent] at constant
      cases constant
    have operand : (act.inputs.map (tensorOf E)).tail.getD k none =
        some (E (act.inputs.getD (k + 1) kNoTensor)) := by
      have inside : act.inputs[k + 1]? = some (act.inputs.getD (k + 1) kNoTensor) := by
        rw [getD_eq_getElem?_getD, getElem?_eq_getElem there.1]
        rfl
      rw [getD_eq_getElem?_getD, getElem?_tail, getElem?_map, inside]
      exact if_neg there.2
    rw [constant, operand]
    rfl

theorem eq_of_floatEqual {x : Float32Bits} : (floatEqual x kSix = true → x = kSix) ∧
    (floatEqual x ⟨0⟩ = true → x = ⟨0⟩ ∨ x = ⟨0x80000000⟩) := by
  obtain ⟨bits⟩ := x
  have pattern : ∀ n : UInt32, bits.toNat = n.toNat → (⟨bits⟩ : Float32Bits) = ⟨n⟩ :=
    fun n same => congrArg Float32Bits.mk (UInt32.toNat_inj.mp same)
  simp only [floatEqual, Bool.and_eq_true, decide_eq_true_eq, floatKey]
  refine ⟨?_, ?_⟩
  · rintro ⟨-, same⟩
    refine pattern 0x40C00000 ?_
    change (if bits.toNat < 0x80000000 then (bits.toNat : Int) else 0x80000000 - (bits.toNat : Int)) =
      0x40C00000 at same
    change bits.toNat = 0x40C00000
    split at same <;> omega
  · rintro ⟨-, same⟩
    change (if bits.toNat < 0x80000000 then (bits.toNat : Int) else 0x80000000 - (bits.toNat : Int)) =
      0 at same
    split at same
    · exact .inl (pattern 0 (by change bits.toNat = 0; omega))
    · exact .inr (pattern 0x80000000 (by change bits.toNat = 0x80000000; omega))

/-- **A clamp whose bounds are both given is recorded as it is**, unless its lower bound is the negative
zero. -/
theorem recordedLane_of_given (type : act.type = .clip)
    (low : BoundGiven past g E act (str "min") 1) (high : BoundGiven past g E act (str "max") 2)
    (positive : recordedBound g act (str "min") 1 ⟨0⟩ ≠ ⟨0x80000000⟩) (v : Float32Bits) :
    recordedLane smooth g act prod v = ownLane past act E v := by
  have lo := recordedBound_of_given low ⟨0⟩ Cpu.kMinusInfinity
  have hi := recordedBound_of_given high kSix Cpu.kInfinity
  have other : act.type ≠ .relu := by
    rw [type]
    decide
  rw [ownLane, if_neg other, Cpu.clipLane, ← lo, ← hi, recordedLane, recordAct, if_neg other]
  dsimp only
  split
  · rename_i standard
    rw [Bool.and_eq_true] at standard
    rw [eq_of_floatEqual.1 standard.2, (eq_of_floatEqual.2 standard.1).resolve_right positive]
    rfl
  · rfl

/-- **So is a rectifier.** -/
theorem recordedLane_of_relu (type : act.type = .relu)
    (v : Float32Bits) : recordedLane smooth g act prod v = ownLane past act E v := by
  rw [ownLane, if_pos type, recordedLane, recordAct, if_pos type]
  rfl

/-! ## Harmless pairs -/

theorem FusedPair.not_output (input : ActivationInput g) (pair : FusedPair g i p act prod) :
    prod.outputs.headD kNoTensor ∉ g.outputs := by
  intro output
  have once := pair.once
  have consumed := count_pos_iff.mpr output
  have read := consumers_pos pair.here (pair.listed input)
  omega

/-- Values after the pass, as they should be: what a node makes that has recorded an activation is
activated, and what activations made is what it was before the run. -/
structure FusedValues (smooth : ActType → Float32Bits → Float32Bits) (g : Graph)
    (e E E' : TensorId → Lanes Float32Bits) : Prop where
  activated : ∀ {i p act prod}, FusedPair g i p act prod → E' (prod.outputs.headD kNoTensor) =
    (E (prod.outputs.headD kNoTensor)).applyAct (recordedLane smooth g act prod)
  gone : ∀ {t}, Gone (FusedPair g) t → E' t = e t
  others : ∀ {t}, ¬ Gone (FusedPair g) t →
    (∀ i p act prod, FusedPair g i p act prod → t ≠ prod.outputs.headD kNoTensor) → E' t = E t

theorem exists_fusedValues (smooth : ActType → Float32Bits → Float32Bits)
    (e : TensorId → Lanes Float32Bits) (input : ActivationInput g)
    (E : TensorId → Lanes Float32Bits) : ∃ E', FusedValues smooth g e E E' := by
  classical
  have pairs := absorptions_fusedPair input
  let makes (t : TensorId) : Prop :=
    ∃ x : Node × Node, ∃ i p, FusedPair g i p x.1 x.2 ∧ t = x.2.outputs.headD kNoTensor
  refine ⟨fun t => if made : makes t then (E t).applyAct (recordedLane smooth g made.choose.1
    made.choose.2) else if Gone (FusedPair g) t then e t else E t, ?_, ?_, ?_⟩
  · intro i p act prod pair
    have made : makes (prod.outputs.headD kNoTensor) := ⟨(act, prod), i, p, pair, rfl⟩
    obtain ⟨i', p', pair', same⟩ := made.choose_spec
    obtain ⟨-, -, acts, prods⟩ := pairs.unique pair pair' same
    rw [dif_pos made, ← acts, ← prods]
  · intro t goes
    have none_ : ¬ makes t := by
      rintro ⟨x, i, p, pair, rfl⟩
      exact pairs.not_gone pair goes
    rw [dif_neg none_, if_pos goes]
  · intro t stays other
    have none_ : ¬ makes t := by
      rintro ⟨x, i, p, pair, same⟩
      exact other i p x.1 x.2 pair same
    rw [dif_neg none_, if_neg stays]

section Sound

variable (hosts : HostActivations K past smooth) (input : ActivationInput g)
  (harmless : FusionHarmless K past smooth g e) (result : FuseResult g σ)
include hosts input harmless result

variable {E' : TensorId → Lanes Float32Bits} {t : TensorId}

theorem FusedValues.needed
    (values : FusedValues smooth g e (ran K g e) E') (needed : NeededAfterFusion g t) :
    E' (σ t) = ran K g e t := by
  have pairs := absorptions_fusedPair input
  by_cases goes : Gone (FusedPair g) t
  · obtain ⟨i, p, act, prod, pair, rfl⟩ := goes
    rw [result.names.gone pair, values.activated pair, ran_act hosts input pair]
    exact (Lanes.applyAct_eq_mapNumbers_iff _ _ _).mpr (harmless.clamps i p act prod pair needed)
  · rw [result.names.kept goes]
    refine values.others goes ?_
    rintro i p act prod pair rfl
    rcases needed with output | ⟨n, ⟨k, here, stays⟩, listed⟩
    · exact pair.not_output input output
    · obtain rfl := pairs.only pair here listed
      obtain rfl := Option.some.inj (here.symm.trans pair.here)
      exact stays p n prod pair

omit hosts input result in
theorem FusedValues.fused
    (values : FusedValues smooth g e (ran K g e) E') {n : Node} (stays : StaysAfterFusion g n)
    (listed : t ∈ [n.fusedResidual, n.fusedBias]) : E' t = ran K g e t := by
  have kept : ¬ Gone (FusedPair g) t := by
    rintro ⟨i, p, act, prod, pair, rfl⟩
    exact harmless.detached i p act prod pair n stays listed
  by_cases made : ∃ i p act prod, FusedPair g i p act prod ∧ t = prod.outputs.headD kNoTensor
  · obtain ⟨i, p, act, prod, pair, rfl⟩ := made
    rw [values.activated pair]
    exact (Lanes.applyAct_eq_self_iff _ _).mpr (harmless.unchanged i p act prod pair n stays listed)
  · exact values.others kept fun i p act prod pair same => made ⟨i, p, act, prod, pair, same⟩

omit result in
/-- **Harmless pairs leave the values that they should.** -/
theorem ran_fuse (result : FuseResult g σ) :
    FusedValues smooth g e (ran K g e) (ran K (fuseActivations g) e) := by
  have pairs := absorptions_fusedPair input
  have left := result.leaves input
  have absent := result.names.absent pairs
  obtain ⟨E', values⟩ := exists_fusedValues smooth e input (ran K g e)
  have solved := Dataflow.Machine.solved_run (M := operatorMachine K.toOperators g) input.ordered e
  have whole : ran K (fuseActivations g) e = E' := by
    refine Dataflow.Machine.run_unique (M := operatorMachine K.toOperators g)
      (left.ordered pairs result.names) (fun nd' mem t written => ?_) fun t untouched => ?_
    · obtain ⟨k, found, live⟩ := mem_keptFrom.mp mem
      obtain ⟨nd, here⟩ := left.place found
      have stays : StaysAfterFusion g nd :=
        ⟨k, here, fun p act prod pair => live ((result.remove k).mpr ⟨p, act, prod, pair⟩)⟩
      have operands : ∀ t ∈ nd.inputs, tensorOf E' (σ t) = tensorOf (ran K g e) t := by
        intro t listed
        unfold tensorOf
        simp only [absent, values.needed hosts input harmless result (.inr ⟨nd, stays, listed⟩)]
      have fused : ∀ t ∈ [nd.fusedResidual, nd.fusedBias],
          tensorOf E' t = tensorOf (ran K g e) t := by
        intro t listed
        unfold tensorOf
        rw [values.fused harmless stays listed]
      change t ∈ writesOf nd' at written
      rw [left.writes found here] at written
      cases result.fusedAt here found with
      | same alone =>
        have value := runOperator_readThrough (K := K.toOperators) (g := g) absent operands fused
        refine (values.others ?_ ?_).trans ((solved nd (mem_of_getElem? here) t written).trans
          (congrArg (fun l => l.getD (nd.outputs.idxOf t) K.unset) value).symm)
        · rintro ⟨i, p, act, prod, pair, rfl⟩
          have apart : k ≠ i := by
            rintro rfl
            exact live ((result.remove k).mpr ⟨p, act, prod, pair⟩)
          exact input.ordered.once here pair.here apart written (pairs.result pair)
        · rintro i p act prod pair rfl
          have apart : k ≠ p := by
            rintro rfl
            exact alone i act prod pair
          exact input.ordered.once here pair.there apart written (pairs.made pair)
      | @recorded i act pair =>
        rw [pairs.makes pair, mem_singleton] at written
        subst written
        rw [values.activated pair]
        refine Eq.trans ?_ (value_recorded hosts input pair operands fused).symm
        exact congrArg (Lanes.applyAct _) (solved nd pair.prod_mem _ (pairs.made pair))
    · by_cases goes : Gone (FusedPair g) t
      · exact (values.gone goes).symm
      · have unwritten : ∀ n ∈ g.nodes, t ∉ writesOf n := by
          intro n mem written
          obtain ⟨n', left', again⟩ := left.available pairs goes ⟨n, mem, written⟩
          exact untouched n' left' again
        rw [values.others goes]
        · exact ((operatorMachine K.toOperators g).run_frame unwritten e).symm
        · rintro i p act prod pair rfl
          exact unwritten prod pair.prod_mem (pairs.made pair)
  rw [whole]
  exact values

end Sound

/-! ## The pass -/

/-- **Harmless pairs are fused soundly.** -/
theorem fusionSound_of_harmless (hosts : HostActivations K past smooth) (input : ActivationInput g)
    (harmless : FusionHarmless K past smooth g e) : FusionSound K g e := by
  have pairs := absorptions_fusedPair input
  obtain ⟨σ, result⟩ := exists_fuseResult input
  have left := result.leaves input
  have values := ran_fuse hosts input harmless result
  have absent := result.names.absent pairs
  constructor
  · rw [result.outputs, forall₂_map_right_iff, forall₂_same]
    intro t output
    refine ⟨⟨absent t, fun present => ?_, fun _ => ?_⟩, ?_⟩
    · exact left.available_names pairs result.names (input.outputs t output present)
    · exact values.needed hosts input harmless result (.inl output)
    · change (g.desc (σ t)).name = (g.desc t).name
      by_cases goes : Gone (FusedPair g) t
      · obtain ⟨i, p, act, prod, pair, rfl⟩ := goes
        rw [result.names.gone pair]
        exact harmless.named i p act prod pair output
      · rw [result.names.kept goes]
  · refine (forall₂_keptFrom_iff result.length).mpr fun k nd nd' here found live => ?_
    have mem := mem_of_getElem? here
    have stays : StaysAfterFusion g nd := by
      refine ⟨k, here, fun p act prod pair => live ?_⟩
      rw [Nat.zero_add]
      exact (result.remove k).mpr ⟨p, act, prod, pair⟩
    have there : ∀ t ∈ nd.reads, t ≠ kNoTensor → Available g g.nodes t := by
      intro t listed present
      by_cases outside : External g t
      · exact Or.inl outside
      · exact Or.inr (input.fed nd mem t (Cpu.mem_readsOf.mpr ⟨listed, present⟩) outside)
    rw [(result.fusedAt here found).edges.1]
    refine forall₂_reads_iff.mpr ⟨fun t listed => ⟨absent t, fun present => ?_, fun _ => ?_⟩,
      fun t listed => ⟨Iff.rfl, fun present => ?_, fun _ => ?_⟩⟩
    · exact left.available_names pairs result.names (there t (mem_append_left _ listed) present)
    · exact values.needed hosts input harmless result (.inr ⟨nd, stays, listed⟩)
    · have kept : ¬ Gone (FusedPair g) t := by
        rintro ⟨i, p, act, prod, pair, rfl⟩
        exact harmless.detached i p act prod pair nd stays listed
      exact (there t (mem_append_right _ listed) present).imp_right (left.available pairs kept)
    · exact values.fused harmless stays listed

/-- **What is fused soundly is harmless.** -/
theorem fusionHarmless_of_sound (hosts : HostActivations K past smooth) (input : ActivationInput g)
    (sound : FusionSound K g e) : FusionHarmless K past smooth g e := by
  have pairs := absorptions_fusedPair input
  obtain ⟨σ, result⟩ := exists_fuseResult input
  have left := result.leaves input
  have outputs := sound.outputs
  rw [result.outputs, forall₂_map_right_iff, forall₂_same] at outputs
  have edges : ∀ n, StaysAfterFusion g n → (∀ t ∈ n.inputs, SameAfterFusion K g e t (σ t)) ∧
      ∀ t ∈ [n.fusedResidual, n.fusedBias], SameAfterFusion K g e t t := by
    rintro n ⟨k, here, stays⟩
    obtain ⟨n', found⟩ := left.place' here
    have live : 0 + k ∉ (fuseRun g).remove := by
      rw [Nat.zero_add, result.remove]
      rintro ⟨p, act, prod, pair⟩
      exact stays p act prod pair
    have both := (forall₂_keptFrom_iff result.length).mp sound.edges k n n' here found live
    rw [(result.fusedAt here found).edges.1] at both
    exact forall₂_reads_iff.mp both
  -- A node that has recorded an activation reads what it read, so its result is activated.
  have activated : ∀ i p act prod, FusedPair g i p act prod →
      ran K (fuseActivations g) e (prod.outputs.headD kNoTensor) =
        (ran K g e (prod.outputs.headD kNoTensor)).applyAct (recordedLane smooth g act prod) := by
    intro i p act prod pair
    have stays : StaysAfterFusion g prod := ⟨p, pair.there, fun q d Q => pairs.apart pair⟩
    have among : readThrough σ (recordAct g act prod) ∈ (fuseActivations g).nodes := by
      refine mem_keptFrom.mpr ⟨p, result.recorded pair, fun gone => ?_⟩
      obtain ⟨q, d, Q, again⟩ := (result.remove p).mp gone
      exact pairs.apart pair again
    have written : prod.outputs.headD kNoTensor ∈
        writesOf (readThrough σ (recordAct g act prod)) := by
      rw [left.writes (result.recorded pair) pair.there]
      exact pairs.made pair
    have now := Dataflow.Machine.solved_run (M := operatorMachine K.toOperators g)
      (left.ordered pairs result.names) e _ among _ written
    have before := Dataflow.Machine.solved_run (M := operatorMachine K.toOperators g) input.ordered
      e prod pair.prod_mem _ (pairs.made pair)
    refine now.trans ((value_recorded hosts input pair (E := ran K g e) (fun t listed => ?_)
      fun t listed => ?_).trans (congrArg (Lanes.applyAct _) before.symm))
    · exact ((edges prod stays).1 t listed).tensorOf
    · exact ((edges prod stays).2 t listed).tensorOf
  refine ⟨fun i p act prod pair output => ?_, fun i p act prod pair n stays listed => ?_,
    fun i p act prod pair n stays listed => ?_, fun i p act prod pair needed => ?_⟩
  · have name := (outputs _ output).2
    rwa [result.names.gone pair] at name
  · rcases ((edges n stays).2 _ listed).there (pairs.present' pair) with outside | ⟨n', mem, written⟩
    · exact input.made act pair.act_mem _ (pairs.result pair) outside
    · exact left.lost pairs ⟨i, p, act, prod, pair, rfl⟩ n' mem written
  · have same := ((edges n stays).2 _ listed).value (pairs.present pair)
    rw [activated i p act prod pair] at same
    exact (Lanes.applyAct_eq_self_iff _ _).mp same
  · have same : ran K (fuseActivations g) e (σ (act.outputs.headD kNoTensor)) =
        ran K g e (act.outputs.headD kNoTensor) := by
      rcases needed with output | ⟨n, stays, listed⟩
      · exact (outputs _ output).1.value (pairs.present' pair)
      · exact ((edges n stays).1 _ listed).value (pairs.present' pair)
    rw [result.names.gone pair, activated i p act prod pair, ran_act hosts input pair] at same
    exact (Lanes.applyAct_eq_mapNumbers_iff _ _ _).mp same

/-! ## Sums that are activated -/

def floatAttr (bits : UInt32) : Attr := { kind := .float, f := ⟨bits⟩ }

/-- A sum, a clamp to zero and six, and another sum; and a sum and a rectifier beside them. -/
def clampedSums : Graph where
  tensors := [{ name := str "x", shape := [2], isInput := true },
    { name := str "z", shape := [2], isInput := true }, { name := str "s", shape := [2] },
    { name := str "c", shape := [2] }, { name := str "y", shape := [2], isOutput := true },
    { name := str "six", shape := [], isInitializer := true }, { name := str "t", shape := [2] },
    { name := str "r", shape := [2] }, { name := str "w", shape := [2], isOutput := true }]
  nodes := [{ type := .add, inputs := [0, 1], outputs := [2] },
    { type := .clip, inputs := [2, kNoTensor, 5], outputs := [3],
      attr := ⟨(∅ : Std.ExtTreeMap Str Attr).insert (str "min") (floatAttr 0)⟩ },
    { type := .add, inputs := [3, 1], outputs := [4] },
    { type := .add, inputs := [0, 1], outputs := [6] },
    { type := .relu, inputs := [6], outputs := [7] },
    { type := .add, inputs := [7, 1], outputs := [8] }]
  inputs := [0, 1]
  outputs := [4, 8]
  initializers := (∅ : Std.ExtTreeMap TensorId HostBuffer).insert 5 [0, 0, 0xC0, 0x40]

/-- Minus one and seven, and zeros to add to them. -/
def sumOperands (t : TensorId) : Lanes Float32Bits :=
  if t = 0 then .floats [2] [⟨0xBF800000⟩, ⟨0x40E00000⟩]
  else if t = 5 then .floats [] [⟨0x40C00000⟩]
  else .floats [2] [⟨0⟩, ⟨0⟩]

theorem recordedLane_of_given_clampedSums : let g := clampedSums
    recordedLane (fun _ v => v) g (g.node 1) (g.node 0) ⟨0x40E00000⟩ =
      ownLane ⟨0⟩ (g.node 1) sumOperands ⟨0x40E00000⟩ :=
  recordedLane_of_given (by decide) (.inl (by decide)) (.inr (by decide)) (by decide) _

theorem activationInput_clampedSums : ActivationInput clampedSums :=
  ⟨by decide, by decide, by decide, by decide, by decide,
    by decide⟩

/-- A clamp without an upper bound, between two sums. -/
def uncappedSum : Graph where
  tensors := [{ name := str "x", shape := [2], isInput := true },
    { name := str "z", shape := [2], isInput := true }, { name := str "s", shape := [2] },
    { name := str "c", shape := [2] }, { name := str "y", shape := [2], isOutput := true }]
  nodes := [{ type := .add, inputs := [0, 1], outputs := [2] },
    { type := .clip, inputs := [2], outputs := [3],
      attr := ⟨(∅ : Std.ExtTreeMap Str Attr).insert (str "min") (floatAttr 0)⟩ },
    { type := .add, inputs := [3, 1], outputs := [4] }]
  inputs := [0, 1]
  outputs := [4]

/-- A rectifier that makes a graph output. -/
def rectifiedOutput : Graph where
  tensors := [{ name := str "x", shape := [2], isInput := true },
    { name := str "z", shape := [2], isInput := true }, { name := str "s", shape := [2] },
    { name := str "y", shape := [2], isOutput := true }]
  nodes := [{ type := .add, inputs := [0, 1], outputs := [2] },
    { type := .relu, inputs := [2], outputs := [3] }]
  inputs := [0, 1]
  outputs := [3]

/-- A rectifier whose operand is a residual, too. -/
def rectifiedResidual : Graph where
  tensors := [{ name := str "x", shape := [2], isInput := true },
    { name := str "z", shape := [2], isInput := true }, { name := str "s", shape := [2] },
    { name := str "r", shape := [2] }, { name := str "y", shape := [2], isOutput := true }]
  nodes := [{ type := .add, inputs := [0, 1], outputs := [2] },
    { type := .relu, inputs := [2], outputs := [3] },
    { type := .conv, inputs := [3, 1], outputs := [4], fusedResidual := 2 }]
  inputs := [0, 1]
  outputs := [4]

end Vknn.Import
