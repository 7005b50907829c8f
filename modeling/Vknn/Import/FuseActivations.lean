import Vknn.Cpu.Activation
import Vknn.Import.Absorption

/-!
# Fusing activations

A rectifier or a clamp goes when a convolution, a product or a sum makes what it reads and
nothing else reads that: the other node records the activation, and whoever read the result
of the activation reads the other node's result.  Operands and graph outputs are counted and
rewired; a residual and a bias are not.

The bounds of a clamp are looked for in the attributes and in constant operands.
-/

namespace Vknn.Import

open List

variable (g : Graph)

/-! ## The pass -/

def firstFloat (bytes : HostBuffer) : Float32Bits := ⟨.ofNat (Wire.leNat (bytes.take 4))⟩

/-- A bound that is a constant with elements. -/
def constantBound (act : Node) (k : Nat) : Option Float32Bits :=
  let t := act.inputs.getD k kNoTensor
  if k < act.inputs.length ∧ t ≠ kNoTensor then
    match g.initializers[t]? with
    | some bytes => if bytes.isEmpty then none else some (firstFloat bytes)
    | none => none
  else none

/-- A bound as the pass finds it: the attribute, or else the constant, or else a default. -/
def recordedBound (act : Node) (key : Str) (k : Nat) (default_ : Float32Bits) : Float32Bits :=
  let bound := (constantBound g act k).getD default_
  if act.attr.has key then act.attr.getf key bound else bound

/-- Record an activation on the node that makes what it reads. -/
def recordAct (act prod : Node) : Node :=
  if act.type = .relu then { prod with fusedAct := .relu }
  else
    let lo := recordedBound g act (str "min") 1 ⟨0⟩
    let hi := recordedBound g act (str "max") 2 Cpu.kSix
    { prod with
      fusedAct := if Cpu.floatEqual lo ⟨0⟩ && Cpu.floatEqual hi Cpu.kSix then .relu6 else .clip
      actLo := lo
      actHi := hi }

def isActivation (nd : Node) : Bool := nd.type = .clip || nd.type = .relu

def recordsAct (nd : Node) : Bool := Cpu.endsWithAct nd.type && nd.fusedAct = .none

/-- The nodes and the graph outputs during the pass, and the positions of the removed nodes. -/
structure FuseState where
  nodes : List Node
  outputs : List TensorId
  remove : List Nat := []

/-- The node that an activation is fused into, with its position. -/
def fusionPartner (st : FuseState) (act : Node) : Option (Nat × Node) :=
  if !isActivation act then none
  else match g.producer[act.inputs.headD kNoTensor]? with
    | none => none
    | some p => match st.nodes[p]? with
      | none => none
      | some prod =>
        let prodOut := prod.outputs.headD kNoTensor
        if recordsAct prod && consumers st.nodes prodOut + st.outputs.count prodOut = 1 then
          some (p, prod)
        else none

def fuseStep (st : FuseState) (i : Nat) : FuseState :=
  match st.nodes[i]? with
  | none => st
  | some act => match fusionPartner g st act with
    | none => st
    | some (p, prod) =>
      let actOut := act.outputs.headD kNoTensor
      let prodOut := prod.outputs.headD kNoTensor
      { nodes := (st.nodes.set p (recordAct g act prod)).map (rewireInputs actOut prodOut)
        outputs := st.outputs.map (Dataflow.redirect actOut prodOut)
        remove := i :: st.remove }

def fuseRun : FuseState :=
  (List.range g.nodes.length).foldl (fuseStep g) { nodes := g.nodes, outputs := g.outputs }

def fuseActivations : Graph :=
  { g with
    nodes := keptFrom (fuseRun g).remove 0 (fuseRun g).nodes
    outputs := (fuseRun g).outputs }

/-! ## Pairs -/

/-- An activation that is fused, and the node that it is fused into. -/
structure FusedPair (i p : Nat) (act prod : Node) : Prop where
  here : g.nodes[i]? = some act
  activation : isActivation act = true
  there : g.nodes[p]? = some prod
  reads : act.inputs.headD kNoTensor ∈ Cpu.writesOf prod
  records : recordsAct prod = true
  once : consumers g.nodes (prod.outputs.headD kNoTensor) +
    g.outputs.count (prod.outputs.headD kNoTensor) = 1

/-- A graph the pass is run on: the nodes are in order and what they read is there; they write no
constant and no graph input.  Activations, and the nodes that may record one, have one result and no
epilogue yet, and an activation has an operand. -/
structure ActivationInput (g : Graph) : Prop where
  ordered : Cpu.signature.Ordered g.nodes
  fed : Cpu.signature.Fed (fun t => ¬ External g t) g.nodes
  made : ∀ nd ∈ g.nodes, ∀ t ∈ Cpu.writesOf nd, ¬ External g t
  single : ∀ nd ∈ g.nodes, isActivation nd = true ∨ Cpu.endsWithAct nd.type = true →
    nd.outputs = [nd.outputs.headD kNoTensor] ∧ nd.outputs.headD kNoTensor ≠ kNoTensor ∧
    nd.attr.has (str "pw_steps") = false
  operand : ∀ nd ∈ g.nodes, isActivation nd = true → nd.inputs.headD kNoTensor ≠ kNoTensor
  outputs : ∀ t ∈ g.outputs, t ≠ kNoTensor → Available g g.nodes t

variable {g} {i p : Nat} {act prod : Node}

theorem not_activation_of_records (records : Cpu.endsWithAct prod.type = true) :
    isActivation prod = false := by
  simp only [Cpu.endsWithAct, Bool.or_eq_true, decide_eq_true_eq] at records
  rcases records with (type | type) | type <;> simp [isActivation, type]

theorem FusedPair.ends (pair : FusedPair g i p act prod) : Cpu.endsWithAct prod.type = true := by
  have records := pair.records
  simp only [recordsAct, Bool.and_eq_true] at records
  exact records.1

theorem FusedPair.act_mem (pair : FusedPair g i p act prod) : act ∈ g.nodes :=
  mem_of_getElem? pair.here

theorem FusedPair.prod_mem (pair : FusedPair g i p act prod) : prod ∈ g.nodes :=
  mem_of_getElem? pair.there

theorem FusedPair.operand (input : ActivationInput g) (pair : FusedPair g i p act prod) :
    act.inputs.headD kNoTensor = prod.outputs.headD kNoTensor := by
  have listed := (Cpu.mem_writesOf.mp pair.reads).1
  have single := (input.single prod pair.prod_mem (.inr pair.ends)).1
  rw [single] at listed
  exact mem_singleton.mp listed

theorem FusedPair.listed (input : ActivationInput g) (pair : FusedPair g i p act prod) :
    prod.outputs.headD kNoTensor ∈ act.inputs := by
  rw [← pair.operand input]
  exact Cpu.headD_mem (input.operand act pair.act_mem pair.activation)

theorem writesOf_single {nd : Node} (single : nd.outputs = [nd.outputs.headD kNoTensor])
    (present : nd.outputs.headD kNoTensor ≠ kNoTensor) :
    Cpu.writesOf nd = [nd.outputs.headD kNoTensor] := by
  rw [Cpu.writesOf, single]
  exact filter_eq_self.mpr (by simpa using present)

/-- **The pairs are those of nodes that are absorbed.** -/
theorem absorptions_fusedPair (input : ActivationInput g) : Absorptions g (FusedPair g) where
  ordered := input.ordered
  consumer pair := pair.here
  producer pair := pair.there
  makes pair := by
    obtain ⟨single, present, -⟩ := input.single _ pair.prod_mem (.inr pair.ends)
    exact writesOf_single single present
  results pair := by
    obtain ⟨single, present, -⟩ := input.single _ pair.act_mem (.inl pair.activation)
    exact writesOf_single single present
  reads pair := pair.listed input
  only {i p c P} pair {k n} here listed := by
    have once := pair.once
    exact consumer_unique (by omega) here listed pair.here (pair.listed input)
  apart {i p c P q d Q} pair pair' := by
    obtain rfl := Option.some.inj (pair.there.symm.trans pair'.here)
    have other := not_activation_of_records pair.ends
    rw [pair'.activation] at other
    cases other
  onto {i p c P q d Q} pair pair' := by
    obtain rfl := Option.some.inj (pair.here.symm.trans pair'.here)
    by_contra apart
    exact input.ordered.once pair.there pair'.there apart pair.reads pair'.reads

/-! ## What the pass does -/

/-- What holds before a position is visited: the pairs whose activations come earlier are fused. -/
structure FuseInv (g : Graph) (σ : TensorId → TensorId) (st : FuseState) (n : Nat) : Prop where
  names : Renamed (UpTo (FusedPair g) n) σ
  length : st.nodes.length = g.nodes.length
  recorded : ∀ {i p act prod}, UpTo (FusedPair g) n i p act prod →
    st.nodes[p]? = some (readThrough σ (recordAct g act prod))
  rest : ∀ {k : Nat} {nd : Node}, g.nodes[k]? = some nd →
    (∀ i act prod, ¬ UpTo (FusedPair g) n i k act prod) → st.nodes[k]? = some (readThrough σ nd)
  outputs : st.outputs = g.outputs.map σ
  remove : ∀ j, j ∈ st.remove ↔ ∃ p act prod, UpTo (FusedPair g) n j p act prod

section Step

variable {σ : TensorId → TensorId} {st : FuseState} {n : Nat}

theorem recordAct_outputs (act prod : Node) : (recordAct g act prod).outputs = prod.outputs := by
  unfold recordAct
  split <;> rfl

/-- A node with a recorded activation records no other. -/
theorem recordsAct_recordAct (act prod : Node) : recordsAct (recordAct g act prod) = false := by
  have taken : (recordAct g act prod).fusedAct ≠ .none := by
    unfold recordAct
    dsimp only
    split
    · exact ActType.noConfusion
    · split <;> exact ActType.noConfusion
  simp [recordsAct, taken]

theorem getD_map {σ : TensorId → TensorId} (absent : σ kNoTensor = kNoTensor) (ts : List TensorId)
    (k : Nat) : (ts.map σ).getD k kNoTensor = σ (ts.getD k kNoTensor) := by
  rw [getD_eq_getElem?_getD, getD_eq_getElem?_getD, getElem?_map]
  cases ts[k]? with
  | none => exact absent.symm
  | some t => rfl

theorem initializer_of_written (input : ActivationInput g) {nd : Node} (mem : nd ∈ g.nodes)
    {t : TensorId} (written : t ∈ Cpu.writesOf nd) : g.initializers[t]? = none := by
  have outside := input.made nd mem t written
  rw [External, not_or, Graph.isInitializer] at outside
  exact Std.ExtTreeMap.getElem?_eq_none outside.2

variable (input : ActivationInput g) (names : Renamed (UpTo (FusedPair g) n) σ)
include input names

theorem initializer_names (t : TensorId) : g.initializers[σ t]? = g.initializers[t]? := by
  have pairs := (absorptions_fusedPair input).upTo n
  by_cases goes : Gone (UpTo (FusedPair g) n) t
  · obtain ⟨i, p, c, P, pair, rfl⟩ := goes
    rw [names.gone pair, initializer_of_written input pair.2.prod_mem (pairs.made pair),
      initializer_of_written input pair.2.act_mem (pairs.result pair)]
  · rw [names.kept goes]

/-- Reading past others does not change what is recorded. -/
theorem recordAct_readThrough (act prod : Node) :
    recordAct g (readThrough σ act) (readThrough σ prod) = readThrough σ (recordAct g act prod) := by
  have pairs := (absorptions_fusedPair input).upTo n
  have absent := names.absent pairs
  have bound : ∀ k, constantBound g (readThrough σ act) k = constantBound g act k := by
    intro k
    unfold constantBound
    change (if k < (act.inputs.map σ).length ∧ (act.inputs.map σ).getD k kNoTensor ≠ kNoTensor then
      match g.initializers[(act.inputs.map σ).getD k kNoTensor]? with
      | some bytes => if bytes.isEmpty then none else some (firstFloat bytes)
      | none => none else none) = _
    rw [getD_map ((absent _).mpr rfl), length_map, initializer_names input names]
    simp only [ne_eq, absent]
  have recorded : ∀ key k default_,
      recordedBound g (readThrough σ act) key k default_ = recordedBound g act key k default_ := by
    intro key k default_
    unfold recordedBound
    rw [bound]
    rfl
  unfold recordAct
  rw [recorded, recorded]
  change (if act.type = .relu then _ else _) = _
  split <;> rfl

end Step

section Run

variable {σ : TensorId → TensorId} {st : FuseState} {n : Nat}

/-- A node that may record an activation is in no pair yet, or it has recorded one. -/
theorem FuseInv.recordable (inv : FuseInv g σ st n) {k : Nat} {nd prod : Node}
    (here : g.nodes[k]? = some nd) (there : st.nodes[k]? = some prod) (records : recordsAct prod = true) :
    (∀ i act q, ¬ UpTo (FusedPair g) n i k act q) ∧ prod = readThrough σ nd := by
  have free : ∀ i act q, ¬ UpTo (FusedPair g) n i k act q := by
    intro i act q pair
    obtain rfl := Option.some.inj (there.symm.trans (inv.recorded pair))
    exact Bool.false_ne_true ((recordsAct_recordAct act q).symm.trans records)
  exact ⟨free, Option.some.inj (there.symm.trans (inv.rest here free))⟩

variable (input : ActivationInput g)
include input

/-- The result of a node that has recorded nothing is read as often as before. -/
theorem FuseInv.counts (inv : FuseInv g σ st n) {k : Nat} {nd : Node} (here : g.nodes[k]? = some nd)
    (ends : Cpu.endsWithAct nd.type = true) (free : ∀ i act q, ¬ UpTo (FusedPair g) n i k act q) :
    consumers st.nodes (nd.outputs.headD kNoTensor) + st.outputs.count (nd.outputs.headD kNoTensor) =
      consumers g.nodes (nd.outputs.headD kNoTensor) +
        g.outputs.count (nd.outputs.headD kNoTensor) := by
  have pairs := (absorptions_fusedPair input).upTo n
  obtain ⟨single, present, -⟩ := input.single nd (mem_of_getElem? here) (.inr ends)
  have written : nd.outputs.headD kNoTensor ∈ Cpu.writesOf nd := by
    rw [writesOf_single single present]
    exact mem_singleton_self _
  have alone := inv.names.alone (t := nd.outputs.headD kNoTensor) ?_ ?_
  · have inputs : st.nodes.map (·.inputs) = g.nodes.map fun n => n.inputs.map σ := by
      refine ext_getElem? fun j => ?_
      rw [getElem?_map, getElem?_map]
      cases found : g.nodes[j]? with
      | none =>
        rw [getElem?_eq_none (inv.length.symm ▸ List.getElem?_eq_none_iff.mp found)]
        rfl
      | some m =>
        by_cases paired : ∃ i act q, UpTo (FusedPair g) n i j act q
        · obtain ⟨i, act, q, pair⟩ := paired
          obtain rfl := Option.some.inj (found.symm.trans (pairs.producer pair))
          rw [inv.recorded pair]
          simp only [Option.map_some, readThrough, recordAct]
          split <;> rfl
        · rw [inv.rest found fun i act q pair => paired ⟨i, act, q, pair⟩]
          rfl
    rw [consumers_of_alone alone inputs, inv.outputs, count_map_of_alone alone]
  · rintro ⟨i, p, c, P, pair, same⟩
    have apart : k ≠ i := by
      rintro rfl
      obtain rfl := Option.some.inj (here.symm.trans (pairs.consumer pair))
      have other := not_activation_of_records ends
      rw [pair.2.activation] at other
      cases other
    exact pairs.ordered.once here (pairs.consumer pair) apart written (same ▸ pairs.result pair)
  · intro i p c P pair same
    have apart : k ≠ p := by
      rintro rfl
      exact free i c P pair
    exact pairs.ordered.once here (pairs.producer pair) apart written (same ▸ pairs.made pair)

/-- **The pass finds the pair of an activation**, and nothing else. -/
theorem FuseInv.partner_iff (inv : FuseInv g σ st n) (here : g.nodes[n]? = some act) {prod' : Node} :
    fusionPartner g st (readThrough σ act) = some (p, prod') ↔
      ∃ prod, FusedPair g n p act prod ∧ prod' = readThrough σ prod := by
  have pairs := absorptions_fusedPair input
  have pairs' := pairs.upTo n
  have head := headD_map ((inv.names.absent pairs' kNoTensor).mpr rfl) act.inputs
  have kind : isActivation (readThrough σ act) = isActivation act := rfl
  unfold fusionPartner
  rw [kind]
  change (if (!isActivation act) = true then none else
    match g.producer[(act.inputs.map σ).headD kNoTensor]? with
    | none => none
    | some p => match st.nodes[p]? with
      | none => none
      | some prod =>
        if recordsAct prod && consumers st.nodes (prod.outputs.headD kNoTensor) +
            st.outputs.count (prod.outputs.headD kNoTensor) = 1 then
          some (p, prod)
        else none) = _ ↔ _
  rw [head]
  constructor
  · intro found
    cases activation : isActivation act with
    | false =>
      rw [activation] at found
      cases found
    | true =>
      rw [activation, if_neg (by simp)] at found
      cases producer : g.producer[σ (act.inputs.headD kNoTensor)]? with
      | none =>
        rw [producer] at found
        cases found
      | some q =>
        rw [producer] at found
        dsimp only at found
        obtain ⟨nd, there, written⟩ := (producer_iff input.ordered).mp producer
        cases current : st.nodes[q]? with
        | none =>
          rw [current] at found
          cases found
        | some m =>
          rw [current] at found
          dsimp only at found
          split at found
          · rename_i test
            obtain ⟨rfl, rfl⟩ := Prod.mk.inj (Option.some.inj found)
            simp only [Bool.and_eq_true, decide_eq_true_eq] at test
            obtain ⟨records, once⟩ := test
            obtain ⟨free, rfl⟩ := inv.recordable there current records
            have records' : recordsAct nd = true := records
            have ends : Cpu.endsWithAct nd.type = true := by
              simp only [recordsAct, Bool.and_eq_true] at records'
              exact records'.1
            -- What the activation reads has not been renamed.
            have same : σ (act.inputs.headD kNoTensor) = act.inputs.headD kNoTensor := by
              refine inv.names.kept ?_
              rintro ⟨i, p', c, P, pair, same⟩
              rw [same, inv.names.gone pair] at written
              have position : q = p' := by
                by_contra apart
                exact input.ordered.once there (pairs'.producer pair) apart written
                  (pairs'.made pair)
              subst position
              exact free i c P pair
            rw [same] at written
            have counts := inv.counts input there ends free
            exact ⟨nd, ⟨here, activation, there, written, records', counts ▸ once⟩, rfl⟩
          · cases found
  · rintro ⟨prod, pair, rfl⟩
    have free : ∀ i act' q, ¬ UpTo (FusedPair g) n i p act' q := by
      intro i act' q pair'
      obtain ⟨rfl, -⟩ := pairs.unique_producer pair'.2 pair
      exact Nat.lt_irrefl _ pair'.1
    have same : σ (act.inputs.headD kNoTensor) = act.inputs.headD kNoTensor := by
      rw [pair.operand input]
      refine inv.names.kept ?_
      rintro ⟨i, p', c, P, pair', same⟩
      exact pairs.not_gone pair ⟨i, p', c, P, pair'.2, same⟩
    have producer := (producer_iff input.ordered).mpr ⟨prod, pair.there, pair.reads⟩
    have test : (recordsAct (readThrough σ prod) &&
        consumers st.nodes ((readThrough σ prod).outputs.headD kNoTensor) +
          st.outputs.count ((readThrough σ prod).outputs.headD kNoTensor) = 1) = true := by
      simp only [Bool.and_eq_true, decide_eq_true_eq]
      exact ⟨pair.records, (inv.counts input pair.there pair.ends free).trans pair.once⟩
    rw [pair.activation, if_neg (by simp), same, producer]
    dsimp only
    rw [inv.rest pair.there free]
    dsimp only
    rw [if_pos test]

/-- **Visiting a position fuses the activation there**, if it is one of a pair. -/
theorem fuseInv_step (inv : FuseInv g σ st n) (small : n < g.nodes.length) :
    ∃ σ', FuseInv g σ' (fuseStep g st n) (n + 1) := by
  have pairs := absorptions_fusedPair input
  have here : g.nodes[n]? = some g.nodes[n] := getElem?_eq_getElem small
  generalize g.nodes[n] = act at here
  -- A node that has recorded an activation comes before the activation.
  have there : st.nodes[n]? = some (readThrough σ act) := by
    refine inv.rest here fun i c q pair => ?_
    exact Nat.lt_asymm pair.1 (pairs.before pair.2)
  unfold fuseStep
  rw [there]
  dsimp only
  cases found : fusionPartner g st (readThrough σ act) with
  | none =>
    have none_ : ∀ p c P, ¬ FusedPair g n p c P := by
      intro p c P pair
      obtain rfl := Option.some.inj (here.symm.trans pair.here)
      have partner := (inv.partner_iff input here).mpr ⟨P, pair, rfl⟩
      rw [found] at partner
      cases partner
    have same := upTo_succ_of_none none_
    refine ⟨σ, ?_⟩
    exact ⟨same ▸ inv.names, inv.length, fun pair => inv.recorded (same ▸ pair),
      fun at_ free => inv.rest at_ (same ▸ free), inv.outputs, same ▸ inv.remove⟩
  | some partner =>
    obtain ⟨p, prod'⟩ := partner
    obtain ⟨prod, pair, rfl⟩ := (inv.partner_iff input here).mp found
    dsimp only
    rw [recordAct_readThrough input inv.names]
    have new : UpTo (FusedPair g) (n + 1) n p act prod := ⟨Nat.lt_succ_self n, pair⟩
    -- Where the rewiring is done, the node reads through the new names.
    have rewired : ∀ nd : Node, rewireInputs (act.outputs.headD kNoTensor)
        (prod.outputs.headD kNoTensor) (readThrough σ nd) = readThrough (fun t =>
          Dataflow.redirect (act.outputs.headD kNoTensor) (prod.outputs.headD kNoTensor) (σ t)) nd :=
      fun nd => rewireInputs_readThrough _ _ σ nd
    have elsewhere : ∀ k, k ≠ p → ∀ nd, st.nodes[k]? = some (readThrough σ nd) →
        ((st.nodes.set p (readThrough σ (recordAct g act prod))).map
          (rewireInputs (act.outputs.headD kNoTensor) (prod.outputs.headD kNoTensor)))[k]? =
        some (readThrough (fun t => Dataflow.redirect (act.outputs.headD kNoTensor)
          (prod.outputs.headD kNoTensor) (σ t)) nd) := by
      intro k other nd found
      rw [getElem?_map, getElem?_set_ne (Ne.symm other), found, Option.map_some, rewired]
    refine ⟨_, inv.names.step pairs pair, ?_, fun {i q c P} pair' => ?_, fun {k nd} at_ free => ?_,
      ?_, fun j => ?_⟩
    · rw [length_map, length_set]
      exact inv.length
    · rcases upTo_succ.mp pair' with earlier | ⟨rfl, now⟩
      · refine elsewhere q (fun same => ?_) _ (inv.recorded earlier)
        subst same
        obtain ⟨rfl, -⟩ := pairs.unique_producer earlier.2 pair
        exact Nat.lt_irrefl _ earlier.1
      · obtain rfl := pairs.onto pair now
        obtain ⟨-, rfl, rfl⟩ := pairs.unique_producer pair now
        have inside : p < st.nodes.length := by
          rw [inv.length]
          exact (List.getElem?_eq_some_iff.mp pair.there).1
        rw [getElem?_map, getElem?_set_self inside, Option.map_some]
        exact congrArg some (rewired _)
    · refine elsewhere k (fun same => ?_) nd (inv.rest at_ fun i c P pair' => free i c P pair'.mono)
      subst same
      exact free n act prod new
    · rw [inv.outputs, map_map]
      rfl
    · rw [mem_cons, inv.remove]
      constructor
      · rintro (rfl | ⟨q, c, P, earlier⟩)
        · exact ⟨p, act, prod, new⟩
        · exact ⟨q, c, P, earlier.mono⟩
      · rintro ⟨q, c, P, pair'⟩
        rcases upTo_succ.mp pair' with earlier | ⟨rfl, -⟩
        · exact .inr ⟨q, c, P, earlier⟩
        · exact .inl rfl

/-- **The pass fuses the pairs of the graph it is given.** -/
theorem fuseInv_run : ∃ σ, FuseInv g σ (fuseRun g) g.nodes.length := by
  have upTo : ∀ n ≤ g.nodes.length, ∃ σ,
      FuseInv g σ ((List.range n).foldl (fuseStep g) { nodes := g.nodes, outputs := g.outputs }) n := by
    intro n
    induction n with
    | zero =>
      refine fun _ => ⟨id, renamed_start, rfl, fun pair => absurd pair upTo_zero,
        fun {k nd} here _ => ?_, (map_id _).symm, fun j => ?_⟩
      · change g.nodes[k]? = _
        rw [here, readThrough, map_id]
      · simp only [foldl_nil, range_zero, not_mem_nil, false_iff]
        rintro ⟨p, c, P, pair⟩
        exact upTo_zero pair
    | succ n ih =>
      intro small
      obtain ⟨σ, inv⟩ := ih (Nat.le_of_succ_le small)
      rw [range_succ, foldl_append, foldl_cons, foldl_nil]
      exact fuseInv_step input inv small
  exact upTo g.nodes.length le_rfl

end Run

end Vknn.Import
