import Vknn.Cpu.Operators
import Vknn.Import.EliminateDeadNodes
import Vknn.Import.QuantizeWeights

/-!
# Removing dead nodes and dead constants

A node is needed when a graph output depends on it, through operands, residuals and
biases.  The marking sweeps find the needed nodes and no others.

The payload of a constant is then dropped unless something names the constant: what is
left of the nodes, a graph output, or a graph input.  A node names constants in its
attributes, too: the tensors beside a packed weight.
-/

namespace Vknn.Import

open List Cpu Std Graph Option Dataflow

open Quantize (kWqScales kWqOidx kWqOval kWqLut)

/-! ## The pass -/

/-- The keys of the attributes that name tensors beside a packed weight. -/
def sideAttributes : List Str := [kWqScales, kWqOidx, kWqOval, kWqLut]

/-- The tensors that a node's attributes name. -/
def sideTensors (nd : Node) : List TensorId :=
  if nd.attr.has Quantize.kWq then
    (sideAttributes.map fun key => wrap32 (nd.attr.geti key kNoTensor)).filter (· ≠ kNoTensor)
  else []

/-- The tensors whose payloads are kept. -/
def referenced (g : Graph) : List TensorId :=
  g.outputs ++ g.inputs ++ g.nodes.flatMap fun nd => readsOf nd ++ sideTensors nd

/-- Whether the payload of a tensor is dropped. -/
def dropped (g : Graph) (t : TensorId) : Bool := g.isInitializer t && !(referenced g).contains t

/-- Drop the payloads of constants that nothing names. -/
def pruneDeadInitializers (g : Graph) : Graph :=
  { g with
    initializers := g.initializers.filter fun t _ => (referenced g).contains t
    tensors := g.tensors.mapIdx fun k d => if dropped g k then { d with isInitializer := false } else d }

variable {g : Graph}

theorem initializers_prune (g : Graph) (t : TensorId) : (pruneDeadInitializers g).initializers[t]? =
      if t ∈ referenced g then g.initializers[t]? else none := by
  rw [pruneDeadInitializers, ExtTreeMap.getElem?_filter']
  cases found : g.initializers[t]? with
  | none => simp
  | some payload => by_cases kept : t ∈ referenced g <;> simp [kept]

/-- A descriptor loses no more than the mark of a constant. -/
theorem desc_prune (g : Graph) (t : TensorId) : (pruneDeadInitializers g).desc t =
    if dropped g t ∧ 0 ≤ t then { g.desc t with isInitializer := false } else g.desc t := by
  unfold desc pruneDeadInitializers
  by_cases inside : 0 ≤ t
  · rw [if_pos inside, if_pos inside, getD_eq_getElem?_getD, getD_eq_getElem?_getD,
      getElem?_mapIdx, Int.toNat_of_nonneg inside]
    cases g.tensors[t.toNat]? with
    | none =>
      simp only [map_none, getD_none, inside, and_true]
      split <;> rfl
    | some d => simp only [map_some, getD_some, inside, and_true]
  · rw [if_neg inside, if_neg inside, if_neg fun both => inside both.2]

/-! ## What outputs need -/

/-- A tensor that a graph output depends on. -/
inductive Needed (g : Graph) : TensorId → Prop where
  | output {t : TensorId} (listed : t ∈ g.outputs) : Needed g t
  | read {n : Node} {o t : TensorId} (mem : n ∈ g.nodes) (written : o ∈ writesOf n)
      (needed : Needed g o) (read : t ∈ readsOf n) : Needed g t

def NodeNeeded (g : Graph) (n : Node) : Prop := ∃ o ∈ writesOf n, Needed g o

theorem needed_foldl_markLive {ts live : List TensorId}
    (reads : ∀ s ∈ ts, s ≠ kNoTensor → Needed g s) (needed : ∀ t ∈ live, Needed g t) :
    ∀ t ∈ ts.foldl markLive live, Needed g t := by
  induction ts generalizing live with
  | nil => exact needed
  | cons r ts ih =>
    refine ih (fun s mem => reads s (mem_cons_of_mem _ mem)) fun s inside => ?_
    unfold markLive at inside
    split at inside
    · rename_i new
      rcases mem_cons.mp inside with rfl | old
      · exact reads s mem_cons_self new.1
      · exact needed s old
    · exact needed s inside

theorem needed_sweepLive {nodes : List Node} (among : ∀ n ∈ nodes, n ∈ g.nodes)
    {live : List TensorId} (needed : ∀ t ∈ live, Needed g t) :
    ∀ t ∈ sweepLive nodes live, Needed g t := by
  induction nodes generalizing live with
  | nil => exact needed
  | cons nd nodes ih =>
    refine ih (fun n mem => among n (mem_cons_of_mem _ mem)) fun t mem => ?_
    unfold markReads at mem
    split at mem
    · rename_i alive
      obtain ⟨o, written, marked⟩ := nodeLive_iff.mp alive
      refine needed_foldl_markLive (fun s listed present => ?_) needed t mem
      exact .read (among nd mem_cons_self) written (needed o marked)
        (mem_readsOf.mpr ⟨listed, present⟩)
    · exact needed t mem

/-- **The marked tensors are the needed ones.** -/
theorem mem_liveTensors_iff {t : TensorId} : t ∈ liveTensors g ↔ Needed g t := by
  constructor
  · have all : ∀ fuel live, (∀ t ∈ live, Needed g t) → ∀ t ∈ liveFrom g.nodes fuel live, Needed g t := by
      intro fuel
      induction fuel with
      | zero => exact fun _ needed => needed
      | succ fuel ih =>
        intro live needed
        rw [liveFrom]
        split
        · exact needed
        · exact ih _ (needed_sweepLive (fun _ mem => mem) needed)
    exact all _ _ (fun t listed => .output listed) t
  · obtain ⟨closed, outputs⟩ := closed_liveTensors g
    intro needed
    induction needed with
    | output listed => exact outputs _ listed
    | read mem written _ read ih => exact closed _ mem (nodeLive_iff.mpr ⟨_, written, ih⟩) _ read

theorem nodeLive_liveTensors_iff {n : Node} :
    nodeLive (liveTensors g) n = true ↔ NodeNeeded g n := by
  simp only [nodeLive_iff, mem_liveTensors_iff, NodeNeeded]

/-! ## Values -/

section Values

variable {V : Type} (K : List (Option HostBuffer) → Operators V)
  (decode : Shape → DType → HostBuffer → V) (bound : TensorId → V)

/-- The payloads of the tensors that a node's attributes name, as a kernel finds them. -/
def sidePayloads (g : Graph) (nd : Node) : List (Option HostBuffer) :=
  sideAttributes.map fun key =>
    let side := wrap32 (nd.attr.geti key kNoTensor)
    if nd.attr.has Quantize.kWq ∧ side ≠ kNoTensor then g.initializers[side]? else none

/-- Nodes as instructions whose kernels see those payloads. -/
def weightMachine (g : Graph) : Machine Node TensorId V where
  toSignature := signature
  value nd := (operatorMachine (K (sidePayloads g nd)) g).value nd
  depends nd := (operatorMachine (K (sidePayloads g nd)) g).depends nd

/-- What the tensors hold before a run: constants their payloads, and the others what they are bound
to. -/
def loaded (g : Graph) (t : TensorId) : V :=
  match g.initializers[t]? with
  | some payload => decode (g.desc t).shape (g.desc t).dtype payload
  | none => bound t

def ranLoaded (g : Graph) : TensorId → V := (weightMachine K g).run g.nodes (loaded decode bound g)

variable {K decode bound}

variable {t : TensorId} {n : Node}

/-- **Removing dead nodes changes no needed tensor.** -/
theorem ranLoaded_eliminateDeadNodes (needed : Needed g t) :
    ranLoaded K decode bound (eliminateDeadNodes g) t = ranLoaded K decode bound g t := by
  have live := mem_liveTensors_iff.mpr needed
  have start : Machine.Agree (fun t => t ∈ liveTensors g) (loaded decode bound g)
      (loaded decode bound g) := fun _ _ => rfl
  refine (start.run_filter (M := weightMachine K g) (nodeLive (liveTensors g))
    (fun n mem alive => ?_) (fun n mem dead t written => ?_) t live).symm
  · exact (closed_liveTensors g).1 n mem alive
  · intro marked
    rw [nodeLive_iff.mpr ⟨t, written, marked⟩] at dead
    cases dead

theorem mem_referenced_of_node (mem : n ∈ g.nodes)
    (named : t ∈ readsOf n ∨ t ∈ sideTensors n) : t ∈ referenced g := by
  refine mem_append_right _ (mem_flatMap.mpr ⟨n, mem, ?_⟩)
  exact mem_append.mpr named

/-- A kernel finds the same payloads beside a packed weight. -/
theorem sidePayloads_prune (mem : n ∈ g.nodes) :
    sidePayloads (pruneDeadInitializers g) n = sidePayloads g n := by
  refine map_congr_left fun key listed => ?_
  dsimp only
  split
  · rename_i named
    rw [initializers_prune, if_pos]
    refine mem_referenced_of_node mem (Or.inr ?_)
    rw [sideTensors, if_pos named.1]
    exact mem_filter.mpr ⟨mem_map_of_mem listed, decide_eq_true named.2⟩
  · rfl

theorem desc_prune_shape (g : Graph) (t : TensorId) :
    ((pruneDeadInitializers g).desc t).shape = (g.desc t).shape ∧
    ((pruneDeadInitializers g).desc t).dtype = (g.desc t).dtype ∧
    ((pruneDeadInitializers g).desc t).name = (g.desc t).name := by
  rw [desc_prune]
  split
  · exact ⟨rfl, rfl, rfl⟩
  · exact ⟨rfl, rfl, rfl⟩

/-- **Dropping payloads changes no tensor that keeps its own.** -/
theorem ranLoaded_prune (kept : dropped g t = false) :
    ranLoaded K decode bound (pruneDeadInitializers g) t = ranLoaded K decode bound g t := by
  have alike : (weightMachine K (pruneDeadInitializers g)).run g.nodes
      (loaded decode bound (pruneDeadInitializers g)) =
      (weightMachine K g).run g.nodes (loaded decode bound (pruneDeadInitializers g)) := by
    suffices value : ∀ n ∈ g.nodes, ∀ e, (weightMachine K (pruneDeadInitializers g)).value n e =
        (weightMachine K g).value n e from
      @Machine.run_congr Node TensorId V _ (weightMachine K (pruneDeadInitializers g))
        (weightMachine K g) g.nodes (fun _ _ => rfl) value _
    intro n mem e
    have operation : operation (pruneDeadInitializers g) n = operation g n := by
      obtain ⟨shape, dtype, -⟩ := desc_prune_shape g (n.outputs.headD kNoTensor)
      unfold operation
      rw [shape, dtype]
    funext t
    change (runOperator (K (sidePayloads (pruneDeadInitializers g) n)) (pruneDeadInitializers g) n
      e).getD _ _ = (runOperator (K (sidePayloads g n)) g n e).getD _ _
    unfold runOperator
    rw [sidePayloads_prune mem, operation]
  change (weightMachine K (pruneDeadInitializers g)).run g.nodes _ t = _
  rw [alike]
  have start : Machine.Agree (fun t => dropped g t = false)
      (loaded decode bound (pruneDeadInitializers g)) (loaded decode bound g) := by
    intro t kept
    obtain ⟨shape, dtype, -⟩ := desc_prune_shape g t
    unfold loaded
    rw [initializers_prune, shape, dtype]
    by_cases named : t ∈ referenced g
    · rw [if_pos named]
    · have absent : g.initializers[t]? = none := by
        simp only [dropped, Bool.and_eq_false_iff, Bool.not_eq_false', contains_eq_mem,
          decide_eq_true_eq] at kept
        have unset := kept.resolve_right named
        rw [isInitializer] at unset
        exact ExtTreeMap.getElem?_eq_none_of_contains_eq_false unset
      rw [if_neg named, absent]
  refine start.run (M := weightMachine K g) (fun n mem t read => ?_) t kept
  have named := mem_referenced_of_node mem (Or.inl read)
  simp [dropped, named]

end Values

/-! ## Both passes -/

def withoutDead (g : Graph) : Graph := pruneDeadInitializers (eliminateDeadNodes g)

/-- A node of a graph, or a graph output, uses a tensor. -/
def Used (g : Graph) (t : TensorId) : Prop :=
  (∃ n ∈ g.nodes, t ∈ readsOf n ∨ t ∈ sideTensors n) ∨ t ∈ g.outputs

theorem mem_referenced_iff {t : TensorId} : t ∈ referenced g ↔ Used g t ∨ t ∈ g.inputs := by
  simp only [referenced, mem_append, mem_flatMap, Used]
  constructor
  · rintro ((output | input) | node)
    · exact .inl (.inr output)
    · exact .inr input
    · exact .inl (.inl node)
  · rintro ((node | output) | input)
    · exact .inr node
    · exact .inl (.inl output)
    · exact .inl (.inr input)

/-- What is left after both passes: the needed nodes, in their order; the constants that are used or
are graph inputs, with their payloads; and the graph outputs, with their names and values. -/
structure KeepsNeeded {V : Type} (K : List (Option HostBuffer) → Operators V)
    (decode : Shape → DType → HostBuffer → V) (bound : TensorId → V) (g : Graph) : Prop where
  nodes : ∃ keep : Node → Bool, (withoutDead g).nodes = g.nodes.filter keep ∧
    ∀ n ∈ g.nodes, keep n = true ↔ NodeNeeded g n
  initializers : ∀ t, (withoutDead g).isInitializer t = true ↔
    g.isInitializer t = true ∧ (Used (withoutDead g) t ∨ t ∈ g.inputs)
  payloads : ∀ (t : TensorId) (payload : HostBuffer), (withoutDead g).initializers[t]? = some payload →
    g.initializers[t]? = some payload
  outputs : (withoutDead g).outputs = g.outputs ∧ ∀ t, ((withoutDead g).desc t).name = (g.desc t).name
  values : ∀ t ∈ g.outputs, ranLoaded K decode bound (withoutDead g) t = ranLoaded K decode bound g t

/-- **What is left is what outputs need, and the graph inputs that are constants.** -/
theorem withoutDead_keepsNeeded {V : Type} (K : List (Option HostBuffer) → Operators V)
    (decode : Shape → DType → HostBuffer → V) (bound : TensorId → V) (g : Graph) :
    KeepsNeeded K decode bound g where
  nodes := ⟨_, rfl, fun _ _ => nodeLive_liveTensors_iff⟩
  initializers t := by
    have same : (withoutDead g).initializers[t]? = if t ∈ referenced (eliminateDeadNodes g) then
        g.initializers[t]? else none := initializers_prune (eliminateDeadNodes g) t
    have named : t ∈ referenced (eliminateDeadNodes g) ↔ Used (withoutDead g) t ∨ t ∈ g.inputs :=
      mem_referenced_iff
    have present : ∀ h : Graph, h.isInitializer t = true ↔ h.initializers[t]?.isSome := by
      intro h
      rw [isInitializer, ← ExtTreeMap.isSome_getElem?_eq_contains]
    rw [present, present, same, ← named]
    split
    · rename_i kept
      exact ⟨fun some_ => ⟨some_, kept⟩, fun both => both.1⟩
    · rename_i gone
      exact ⟨nofun, fun both => absurd both.2 gone⟩
  payloads t payload found := by
    have same := initializers_prune (eliminateDeadNodes g) t
    rw [withoutDead, same] at found
    split at found
    · exact found
    · cases found
  outputs := ⟨rfl, fun t => (desc_prune_shape (eliminateDeadNodes g) t).2.2⟩
  values t listed := by
    refine Eq.trans (ranLoaded_prune ?_) (ranLoaded_eliminateDeadNodes (.output listed))
    have named : t ∈ referenced (eliminateDeadNodes g) := mem_referenced_iff.mpr (.inl (.inr listed))
    simp [dropped, named]

/-! ## Once is enough -/

/-- What is needed is still needed when the nodes that are not are gone. -/
theorem Needed.withoutDead {t : TensorId} (needed : Needed g t) : Needed (withoutDead g) t := by
  induction needed with
  | output listed => exact .output listed
  | @read n o t mem written needed read ih =>
    have kept : n ∈ (Vknn.Import.withoutDead g).nodes :=
      mem_filter.mpr ⟨mem, nodeLive_liveTensors_iff.mpr ⟨o, written, needed⟩⟩
    exact .read kept written ih read

/-- **A second removal finds nothing**: neither a node nor a payload. -/
theorem withoutDead_withoutDead (g : Graph) : withoutDead (withoutDead g) = withoutDead g := by
  have nodes : eliminateDeadNodes (withoutDead g) = withoutDead g := by
    have all : ∀ n ∈ (withoutDead g).nodes, nodeLive (liveTensors (withoutDead g)) n = true := by
      intro n mem
      obtain ⟨o, written, needed⟩ := nodeLive_liveTensors_iff.mp (mem_filter.mp mem).2
      exact nodeLive_liveTensors_iff.mpr ⟨o, written, needed.withoutDead⟩
    rw [eliminateDeadNodes, filter_eq_self.mpr all]
  have gone : ∀ t ∉ referenced (withoutDead g), (withoutDead g).initializers[t]? = none := by
    intro t unnamed
    have named : t ∉ referenced (eliminateDeadNodes g) := unnamed
    exact (initializers_prune (eliminateDeadNodes g) t).trans (if_neg named)
  have kept : ∀ t, dropped (withoutDead g) t = false := by
    intro t
    by_cases named : t ∈ referenced (withoutDead g)
    · simp [dropped, named]
    · simp [dropped, isInitializer, ← ExtTreeMap.isSome_getElem?_eq_contains, gone t named]
  have payloads : (pruneDeadInitializers (withoutDead g)).initializers =
      (withoutDead g).initializers := by
    refine ExtTreeMap.ext_getElem? fun t => (initializers_prune (withoutDead g) t).trans ?_
    split
    · rfl
    · rename_i unnamed
      exact (gone t unnamed).symm
  have marks : (pruneDeadInitializers (withoutDead g)).tensors = (withoutDead g).tensors := by
    simp only [pruneDeadInitializers, kept, Bool.false_eq_true, if_false]
    exact mapIdx_eq_iff.mpr fun _ => by simp
  calc withoutDead (withoutDead g) = pruneDeadInitializers (withoutDead g) := by
        rw [withoutDead, nodes]
    _ = { withoutDead g with
          initializers := (pruneDeadInitializers (withoutDead g)).initializers
          tensors := (pruneDeadInitializers (withoutDead g)).tensors } := rfl
    _ = withoutDead g := by rw [payloads, marks]

/-- A constant that is a graph input, and that nothing uses. -/
def boundConstant : Graph where
  tensors := [{ name := str "w", shape := [1], isInput := true, isInitializer := true },
    { name := str "x", shape := [1], isInput := true }, { name := str "y", shape := [1], isOutput := true }]
  nodes := [{ type := .relu, inputs := [1], outputs := [2] }]
  inputs := [0, 1]
  outputs := [2]
  initializers := (∅ : ExtTreeMap TensorId HostBuffer).insert 0 [0, 0, 128, 63]

/-- **A constant that nothing uses is left**, when it is a graph input. -/
theorem boundConstant_left :
    (withoutDead boundConstant).isInitializer 0 = true ∧ ¬ Used (withoutDead boundConstant) 0 := by
  refine ⟨by decide +kernel, ?_⟩
  have none_ : (∀ n ∈ (withoutDead boundConstant).nodes, ¬ (0 ∈ readsOf n ∨ 0 ∈ sideTensors n)) ∧
      0 ∉ (withoutDead boundConstant).outputs := by
    decide
  rintro (⟨n, mem, uses⟩ | output)
  · exact none_.1 n mem uses
  · exact none_.2 output

end Vknn.Import
