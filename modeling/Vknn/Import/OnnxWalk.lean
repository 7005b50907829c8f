import Vknn.Import.OnnxGraphBuilder
import Mathlib.Data.List.GetD

/-!
# What each phase of the graph builder does

A graph grows while it is built: tensors are added at the end of the table and keep their
names.  Collecting the fields and materializing the initializers leave every declared tensor
under its name.  The walk over the nodes then reads names through the table of latest
definitions and gives every output a new tensor, which is the last entry for its name in the
table and in the name index.
-/

namespace Vknn.Onnx

open Builder Entries List
open Graph (addTensor desc findOrAdd updateDesc)

/-! ## What a model declares -/

namespace GraphField

def rawNode : GraphField → Option RawNode
  | node n ins outs => some ⟨n, ins, outs⟩
  | _ => none

def inputName : GraphField → Option Str
  | input name _ _ _ => some name
  | _ => none

def outputName : GraphField → Option Str
  | output name _ _ => some name
  | _ => none

def initializer? : GraphField → Option TensorProto
  | initializer tp => some tp
  | _ => none

end GraphField

/-- The nodes of a model, and what it declares. -/
def rawNodes (fields : List GraphField) : List RawNode := fields.filterMap GraphField.rawNode
def inputNames (fields : List GraphField) : List Str := fields.filterMap GraphField.inputName
def outputNames (fields : List GraphField) : List Str := fields.filterMap GraphField.outputName
def initializersOf (fields : List GraphField) : List TensorProto :=
  fields.filterMap GraphField.initializer?

/-! ## Tensors with names -/

/-- A graph that has only grown: new tensors at the end, and the old ones keep their names. -/
structure Grown (g g' : Graph) : Prop where
  size : g.tensors.length ≤ g'.tensors.length
  names : ∀ id : Int, id < g.tensors.length → (g'.desc id).name = (g.desc id).name
  inputs : g'.inputs = g.inputs
  outputs : g'.outputs = g.outputs
  initializers : g'.initializers = g.initializers
  /-- The index stays without an entry for the empty name. -/
  unnamed : g.tensorByName[([] : Str)]? = none → g'.tensorByName[([] : Str)]? = none

theorem Grown.refl (g : Graph) : Grown g g := ⟨le_rfl, fun _ _ => rfl, rfl, rfl, rfl, fun none => none⟩

variable {g g' : Graph} {f : TensorDesc → TensorDesc} {s : Str} {id : Int}

theorem Grown.trans {g'' : Graph} (first : Grown g g') (second : Grown g' g'') : Grown g g'' where
  size := first.size.trans second.size
  names id inside := (second.names id (by have := first.size; omega)).trans (first.names id inside)
  inputs := second.inputs.trans first.inputs
  outputs := second.outputs.trans first.outputs
  initializers := second.initializers.trans first.initializers
  unnamed none := second.unnamed (first.unnamed none)

/-- A tensor with a name. -/
structure Known (g : Graph) (s : Str) (id : Int) : Prop where
  low : 0 ≤ id
  high : id < g.tensors.length
  name : (g.desc id).name = s
  index : s ≠ [] → g.tensorByName[s]? = some id

/-- The name index holds tensors with the names they are under. -/
def Sound (g : Graph) : Prop := ∀ s id, g.tensorByName[s]? = some id → s ≠ [] ∧ Known g s id

theorem desc_addTensor (g : Graph) (d : TensorDesc) (id : Int) : (g.addTensor d).1.desc id =
      if id = (g.tensors.length : Int) then d else g.desc id := by
  unfold addTensor desc
  dsimp only
  split
  · rename_i low
    obtain ⟨n, rfl⟩ := Int.eq_ofNat_of_zero_le low
    rw [Int.toNat_natCast, getD_eq_getElem?_getD, getElem?_append, getD_eq_getElem?_getD]
    by_cases here : (n : Int) = g.tensors.length
    · have same : n = g.tensors.length := by omega
      rw [if_pos here, if_neg (by omega), same, Nat.sub_self]
      rfl
    · rw [if_neg here]
      split
      · rfl
      · rename_i beyond
        have past : [d].length ≤ n - g.tensors.length := by
          rw [length_singleton]
          omega
        have none : g.tensors.length ≤ n := Nat.not_lt.mp beyond
        rw [getElem?_eq_none past, getElem?_eq_none none]
  · rename_i negative
    have below : ¬ (0 : Int) ≤ id := negative
    rw [if_neg (by omega)]

theorem addTensor_grown (g : Graph) (d : TensorDesc) : Grown g (g.addTensor d).1 where
  size := by
    unfold addTensor
    rw [length_append]
    omega
  names id inside := by rw [desc_addTensor, if_neg (by omega)]
  inputs := rfl
  outputs := rfl
  initializers := rfl
  unnamed none := by
    unfold addTensor
    dsimp only
    split
    · exact none
    · rename_i named
      rwa [Std.ExtTreeMap.getElem?_insert, if_neg]
      rwa [Std.LawfulEqCmp.compare_eq_iff_eq]

theorem desc_updateDesc (g : Graph) (id : TensorId)
    (keeps : ∀ d, (f d).name = d.name) (other : TensorId) :
    ((g.updateDesc id f).desc other).name = (g.desc other).name := by
  unfold updateDesc
  split
  · unfold desc
    split
    · dsimp only
      rw [getD_eq_getElem?_getD, getD_eq_getElem?_getD, getElem?_modify]
      split
      · cases g.tensors[other.toNat]? with
        | none => rfl
        | some d => exact keeps d
      · cases g.tensors[other.toNat]? with
        | none => rfl
        | some d => rfl
    · rfl
  · rfl

theorem toNat_ne {a b : Int} (a_low : 0 ≤ a) (b_low : 0 ≤ b) (apart : a ≠ b) :
    a.toNat ≠ b.toNat := by
  omega

theorem desc_updateDesc_ne {t u : TensorId} (apart : u ≠ t) (g : Graph)
    (f : TensorDesc → TensorDesc) : (g.updateDesc t f).desc u = g.desc u := by
  unfold updateDesc
  split
  · rename_i t_low
    unfold desc
    split
    · rename_i u_low
      dsimp only
      rw [getD_eq_getElem?_getD, getD_eq_getElem?_getD,
        getElem?_modify_ne _ _ (toNat_ne t_low u_low apart.symm)]
    · rfl
  · rfl

theorem desc_updateDesc_self {t : TensorId} (low : 0 ≤ t)
    (inside : t < (g.tensors.length : Int)) (f : TensorDesc → TensorDesc) :
    (g.updateDesc t f).desc t = f (g.desc t) := by
  unfold updateDesc desc
  rw [if_pos low, if_pos low]
  have below : t.toNat < g.tensors.length := (Int.toNat_lt low).mpr inside
  rw [if_pos low, getD_eq_getElem?_getD, getD_eq_getElem?_getD, getElem?_modify_eq,
    getElem?_eq_getElem below]
  rfl

theorem updateDesc_nodes (g : Graph) (t : TensorId) (f : TensorDesc → TensorDesc) :
    (g.updateDesc t f).nodes = g.nodes := by
  unfold updateDesc
  split <;> rfl

theorem updateDesc_outputs (g : Graph) (t : TensorId) (f : TensorDesc → TensorDesc) :
    (g.updateDesc t f).outputs = g.outputs := by
  unfold updateDesc
  split <;> rfl

theorem updateDesc_length (g : Graph) (id : TensorId) (f : TensorDesc → TensorDesc) :
    (g.updateDesc id f).tensors.length = g.tensors.length := by
  unfold updateDesc
  split
  · exact length_modify _ _ _
  · rfl

theorem updateDesc_tensorByName (g : Graph) (id : TensorId) (f : TensorDesc → TensorDesc) :
    (g.updateDesc id f).tensorByName = g.tensorByName := by
  unfold updateDesc
  split
  · rfl
  · rfl

theorem updateDesc_grown (g : Graph) (id : TensorId)
    (keeps : ∀ d, (f d).name = d.name) : Grown g (g.updateDesc id f) where
  size := (updateDesc_length g id f).ge
  names other _ := desc_updateDesc g id keeps other
  inputs := by unfold updateDesc; split <;> rfl
  outputs := by unfold updateDesc; split <;> rfl
  initializers := by unfold updateDesc; split <;> rfl
  unnamed none := by rwa [updateDesc_tensorByName]

/-- A known tensor stays known while its place in the index stays. -/
theorem Known.grown (known : Known g s id)
    (grown : Grown g g')
    (index : s ≠ [] → g.tensorByName[s]? = some id → g'.tensorByName[s]? = some id) :
    Known g' s id where
  low := known.low
  high := lt_of_lt_of_le known.high (by exact_mod_cast grown.size)
  name := (grown.names id known.high).trans known.name
  index named := index named (known.index named)

theorem addTensor_index {d : TensorDesc} (named : d.name ≠ []) :
    (g.addTensor d).1.tensorByName = g.tensorByName.insert d.name (g.tensors.length : Int) := by
  unfold addTensor
  exact if_neg named

theorem addTensor_known (g : Graph) (d : TensorDesc) :
    Known (g.addTensor d).1 d.name (g.tensors.length : Int) where
  low := Int.natCast_nonneg _
  high := by
    unfold addTensor
    rw [length_append, length_singleton]
    omega
  name := by rw [desc_addTensor, if_pos rfl]
  index named := by rw [addTensor_index named, Std.ExtTreeMap.getElem?_insert_self]

/-- **A tensor found by name or made**: the graph has grown, and the tensor is the known one. -/
structure Found (g : Graph) (s : Str) (g' : Graph) (id : Int) : Prop where
  grown : Grown g g'
  known : Known g' s id
  sound : Sound g'
  keeps : ∀ t other, Known g t other → Known g' t other
  index : ∀ (t : Str) (other : Int), g.tensorByName[t]? = some other → g'.tensorByName[t]? = some other
  /-- A tensor with another name, or without one, is another tensor. -/
  apart : ∀ t other, Known g t other → other = id → t = s ∧ s ≠ []

theorem findOrAdd_grown (g : Graph) (s : Str) : Grown g (g.findOrAdd s).1 := by
  unfold findOrAdd
  split
  · exact Grown.refl g
  · exact addTensor_grown g _

theorem findOrAdd_index (g : Graph) (s t : Str) {other : Int}
    (here : g.tensorByName[t]? = some other) : (g.findOrAdd s).1.tensorByName[t]? = some other := by
  unfold findOrAdd
  split
  · exact here
  · rename_i absent
    by_cases named : s = []
    · unfold addTensor
      dsimp only
      rw [if_pos named, here]
    · have different : s ≠ t := by
        rintro rfl
        rw [absent] at here
        cases here
      rw [addTensor_index named, Std.ExtTreeMap.getElem?_insert, if_neg, here]
      rwa [Std.LawfulEqCmp.compare_eq_iff_eq]

theorem findOrAdd_found (sound : Sound g) (s : Str) :
    Found g s (g.findOrAdd s).1 (g.findOrAdd s).2 := by
  have grown := findOrAdd_grown g s
  have index : ∀ (t : Str) (other : Int), g.tensorByName[t]? = some other →
      (g.findOrAdd s).1.tensorByName[t]? = some other := fun t _ here => findOrAdd_index g s t here
  have keeps : ∀ t other, Known g t other → Known (g.findOrAdd s).1 t other :=
    fun t other before => before.grown grown fun _ here => index t other here
  cases here : g.tensorByName[s]? with
  | some id =>
    have step : g.findOrAdd s = (g, id) := by
      unfold findOrAdd
      rw [here]
    obtain ⟨named, known⟩ := sound s id here
    rw [step]
    refine ⟨Grown.refl g, known, sound, fun _ _ known => known, fun _ _ here => here, ?_⟩
    rintro t other other_known rfl
    exact ⟨other_known.name.symm.trans known.name, named⟩
  | none =>
    have step : g.findOrAdd s = g.addTensor { name := s } := by
      unfold findOrAdd
      rw [here]
    have known := addTensor_known g { name := s }
    rw [step] at grown index keeps ⊢
    refine ⟨grown, known, ?_, keeps, index, ?_⟩
    · intro t id here
      by_cases named : s = []
      · unfold addTensor at here
        dsimp only at here
        rw [if_pos named] at here
        exact ⟨(sound t id here).1, keeps t id (sound t id here).2⟩
      · rw [addTensor_index named, Std.ExtTreeMap.getElem?_insert] at here
        split at here
        · rename_i same
          rw [Std.LawfulEqCmp.compare_eq_iff_eq] at same
          subst same
          obtain rfl := Option.some.inj here
          exact ⟨named, known⟩
        · exact ⟨(sound t id here).1, keeps t id (sound t id here).2⟩
    · rintro t other before rfl
      exact absurd before.high (lt_irrefl _)

theorem updateDesc_known {id : TensorId}
    (keeps : ∀ d, (f d).name = d.name) {other : Int} (known : Known g s other) :
    Known (g.updateDesc id f) s other :=
  known.grown (updateDesc_grown g id keeps) fun _ here => by rwa [updateDesc_tensorByName]

theorem updateDesc_sound {id : TensorId}
    (keeps : ∀ d, (f d).name = d.name) (sound : Sound g) : Sound (g.updateDesc id f) := by
  intro s other here
  rw [updateDesc_tensorByName] at here
  exact ⟨(sound s other here).1, updateDesc_known keeps (sound s other here).2⟩

theorem Found.updateDesc (found : Found g s g' id)
    (keeps : ∀ d, (f d).name = d.name) :
    Found g s (g'.updateDesc id f) id where
  grown := found.grown.trans (updateDesc_grown g' id keeps)
  known := updateDesc_known keeps found.known
  sound := updateDesc_sound keeps found.sound
  keeps t other before := updateDesc_known keeps (found.keeps t other before)
  index t other here := by
    rw [updateDesc_tensorByName]
    exact found.index t other here
  apart := found.apart

/-- Lists of inputs, outputs and constants do not matter for what is known. -/
theorem Known.of_same (known : Known g s id)
    (tensors : g'.tensors = g.tensors) (index : g'.tensorByName = g.tensorByName) : Known g' s id where
  low := known.low
  high := tensors ▸ known.high
  name := by
    have name := known.name
    unfold desc at name ⊢
    rwa [tensors]
  index named := index ▸ known.index named

theorem Sound.of_same (sound : Sound g) (tensors : g'.tensors = g.tensors)
    (index : g'.tensorByName = g.tensorByName) : Sound g' := by
  intro s id here
  rw [index] at here
  exact ⟨(sound s id here).1, (sound s id here).2.of_same tensors index⟩

/-! ## After the fields are collected -/

/-- What is known once some fields are collected. -/
structure Collected (b : Builder) (fields : List GraphField) : Prop where
  nodes : b.nodes = rawNodes fields
  inits : b.inits = initializersOf fields
  sound : Sound b.g
  inputs : List.Forall₂ (Known b.g) (inputNames fields) b.g.inputs
  outputs : List.Forall₂ (Known b.g) (outputNames fields) b.g.outputs
  initializers : b.g.initializers = ∅

theorem collectField_collected {b : Builder} {fields : List GraphField} (collected : Collected b fields)
    (field : GraphField) : Collected (b.collectField field) (fields ++ [field]) := by
  obtain ⟨nodes, inits, sound, inputs, outputs, initializers⟩ := collected
  have same : ∀ {α : Type} (f : GraphField → Option α), f field = none →
      (fields ++ [field]).filterMap f = fields.filterMap f := by
    intro α f none
    rw [filterMap_append, filterMap_cons_none none, filterMap_nil, append_nil]
  have more : ∀ {α : Type} (f : GraphField → Option α) {a : α}, f field = some a →
      (fields ++ [field]).filterMap f = fields.filterMap f ++ [a] := by
    intro α f a some
    rw [filterMap_append, filterMap_cons_some some, filterMap_nil]
  have declared : ∀ {names : List Str} {g : Graph} {ids : List TensorId},
      (∀ t other, Known b.g t other → Known g t other) → List.Forall₂ (Known b.g) names ids →
      List.Forall₂ (Known g) names ids :=
    fun keeps before => before.imp fun t other => keeps t other
  cases field with
  | node n ins outs =>
    refine ⟨?_, inits.trans (same _ rfl).symm, sound, ?_, ?_, initializers⟩
    · exact (congrArg (fun l => l ++ [_]) nodes).trans (more GraphField.rawNode rfl).symm
    · rw [inputNames, same _ rfl]
      exact inputs
    · rw [outputNames, same _ rfl]
      exact outputs
  | initializer tp =>
    refine ⟨nodes.trans (same _ rfl).symm, ?_, sound, ?_, ?_, initializers⟩
    · exact (congrArg (fun l => l ++ [_]) inits).trans (more GraphField.initializer? rfl).symm
    · rw [inputNames, same _ rfl]
      exact inputs
    · rw [outputNames, same _ rfl]
      exact outputs
  | valueInfo name shape elem =>
    refine ⟨nodes.trans (same _ rfl).symm, inits.trans (same _ rfl).symm, sound, ?_, ?_,
      initializers⟩
    · rw [inputNames, same _ rfl]
      exact inputs
    · rw [outputNames, same _ rfl]
      exact outputs
  | input name shape elem params =>
    have found := (findOrAdd_found sound name).updateDesc
      (f := fun d => { d with
        shape := shape, dimParams := params, dtype := dtypeFromElem elem, isInput := true })
      fun _ => rfl
    have keeps : ∀ t other, Known b.g t other →
        Known (b.collectField (.input name shape elem params)).g t other :=
      fun t other before => (found.keeps t other before).of_same rfl rfl
    refine ⟨nodes.trans (same _ rfl).symm, inits.trans (same _ rfl).symm,
      found.sound.of_same rfl rfl, ?_, ?_, found.grown.initializers.trans initializers⟩
    · have ids : (b.collectField (.input name shape elem params)).g.inputs =
          b.g.inputs ++ [(b.g.findOrAdd name).2] :=
        congrArg (fun l => l ++ [_]) found.grown.inputs
      rw [inputNames, more GraphField.inputName rfl, ids]
      exact rel_append (declared keeps inputs) (.cons (found.known.of_same rfl rfl) .nil)
    · rw [outputNames, same _ rfl]
      refine declared keeps ?_
      rw [← found.grown.outputs] at outputs
      exact outputs
  | output name shape elem =>
    have found := (findOrAdd_found sound name).updateDesc
      (f := fun d => { d with
        shape := if fullyStatic shape then shape else d.shape
        dtype := dtypeFromElem elem
        isOutput := true })
      fun _ => rfl
    have keeps : ∀ t other, Known b.g t other →
        Known (b.collectField (.output name shape elem)).g t other :=
      fun t other before => (found.keeps t other before).of_same rfl rfl
    refine ⟨nodes.trans (same _ rfl).symm, inits.trans (same _ rfl).symm,
      found.sound.of_same rfl rfl, ?_, ?_, found.grown.initializers.trans initializers⟩
    · rw [inputNames, same _ rfl]
      refine declared keeps ?_
      rw [← found.grown.inputs] at inputs
      exact inputs
    · have ids : (b.collectField (.output name shape elem)).g.outputs =
          b.g.outputs ++ [(b.g.findOrAdd name).2] :=
        congrArg (fun l => l ++ [_]) found.grown.outputs
      rw [outputNames, more GraphField.outputName rfl, ids]
      exact rel_append (declared keeps outputs) (.cons (found.known.of_same rfl rfl) .nil)

theorem collect_collected (fields : List GraphField) : Collected (collect fields) fields := by
  induction fields using List.reverseRecOn with
  | nil =>
    refine ⟨rfl, rfl, ?_, .nil, .nil, rfl⟩
    intro s id here
    rw [show (collect []).g.tensorByName = ∅ from rfl] at here
    rw [Std.ExtTreeMap.getElem?_empty] at here
    cases here
  | append_singleton fields field ih =>
    rw [collect, foldl_append]
    exact collectField_collected ih field

/-! ## After the initializers -/

section Initializers

variable (fill : TensorProto → Int → HostBuffer)

/-- **What the initializers leave**: what was known is known, and a known tensor is constant when an
initializer has its name. -/
structure Materialized (b b' : Builder) (tps : List TensorProto) : Prop where
  nodes : b'.nodes = b.nodes
  inits : b'.inits = b.inits
  inputs : b'.g.inputs = b.g.inputs
  outputs : b'.g.outputs = b.g.outputs
  sound : Sound b'.g
  keeps : ∀ t other, Known b.g t other → Known b'.g t other
  constant : ∀ t other, Known b.g t other → (b'.g.isInitializer other = true ↔
      b.g.isInitializer other = true ∨ t ≠ [] ∧ t ∈ tps.map TensorProto.name)
  kept : ∀ t other, Known b.g t other → t ∉ tps.map TensorProto.name →
    b'.g.initializers[other]? = b.g.initializers[other]?
  present : ∀ tp ∈ tps, ∃ id, Known b'.g tp.name id
  data : ∀ t other, Known b'.g t other → t ≠ [] → ∀ tp : TensorProto,
    lastOf (tps.map fun tp => (tp.name, tp)) t = some tp →
    b'.g.initializers[other]? = some (fill tp (tp.dims.foldl (fun n x => n * x) 1))

theorem materialize_materialized {b : Builder} (sound : Sound b.g) (tps : List TensorProto) :
    Materialized fill b (tps.foldl (materialize fill) b) tps := by
  induction tps generalizing b with
  | nil =>
    refine ⟨rfl, rfl, rfl, rfl, sound, fun _ _ known => known, fun t other _ => ?_,
      fun _ _ _ _ => rfl, fun tp mem => (nomatch mem), fun t other _ _ tp last => (nomatch last)⟩
    simp
  | cons tp tps ih =>
    have found := (findOrAdd_found sound tp.name).updateDesc
      (f := fun d => { d with
        isInitializer := true, shape := tp.dims, dtype := storageType tp.dataType })
      fun _ => rfl
    have keeps : ∀ t other, Known b.g t other → Known (materialize fill b tp).g t other :=
      fun t other before => (found.keeps t other before).of_same rfl rfl
    have rest := ih (b := materialize fill b tp) (found.sound.of_same rfl rfl)
    have map : (materialize fill b tp).g.initializers =
        b.g.initializers.insert (b.g.findOrAdd tp.name).2
          (fill tp (tp.dims.foldl (fun n x => n * x) 1)) := by
      rw [← found.grown.initializers]
      rfl
    have known₁ : Known (materialize fill b tp).g tp.name (b.g.findOrAdd tp.name).2 :=
      found.known.of_same rfl rfl
    -- Among the known tensors, the initializer's is the one with its name.
    have tensor : ∀ t other, Known b.g t other →
        ((b.g.findOrAdd tp.name).2 = other ↔ t ≠ [] ∧ t = tp.name) := by
      intro t other known
      refine ⟨fun same => ?_, fun ⟨present, same⟩ => ?_⟩
      · obtain ⟨same_name, present⟩ := found.apart t other known same.symm
        exact ⟨same_name ▸ present, same_name⟩
      · subst same
        have first := found.known.index present
        rw [(found.keeps tp.name other known).index present] at first
        exact (Option.some.inj first).symm
    rw [foldl_cons]
    refine ⟨rest.nodes, rest.inits, rest.inputs.trans found.grown.inputs,
      rest.outputs.trans found.grown.outputs, rest.sound,
      fun t other known => rest.keeps t other (keeps t other known), fun t other known => ?_,
      fun t other known absent => ?_, fun tp' mem => ?_,
      fun t other known present last found_last => ?_⟩
    · have here : (materialize fill b tp).g.isInitializer other = true ↔
          b.g.isInitializer other = true ∨ t ≠ [] ∧ t = tp.name := by
        rw [← tensor t other known, Graph.isInitializer, map, Std.ExtTreeMap.contains_insert,
          Bool.or_eq_true, beq_iff_eq, Std.LawfulEqCmp.compare_eq_iff_eq, or_comm]
        rfl
      rw [rest.constant t other (keeps t other known), here, map_cons, mem_cons]
      tauto
    · rw [map_cons, mem_cons, not_or] at absent
      rw [rest.kept t other (keeps t other known) absent.2, map, Std.ExtTreeMap.getElem?_insert,
        if_neg]
      rw [Std.LawfulEqCmp.compare_eq_iff_eq, tensor t other known]
      exact fun both => absent.1 both.2
    · rcases mem_cons.mp mem with rfl | later
      · exact ⟨_, rest.keeps _ _ known₁⟩
      · exact rest.present tp' later
    · rw [map_cons, lastOf_cons] at found_last
      cases later : lastOf (tps.map fun tp => (tp.name, tp)) t with
      | some tp' =>
        rw [later] at found_last
        obtain rfl := Option.some.inj found_last
        exact rest.data t other known present tp' later
      | none =>
        rw [later, Option.none_or] at found_last
        split at found_last
        · rename_i same
          obtain rfl := Option.some.inj found_last
          dsimp only at same
          subst same
          have index := (rest.keeps _ _ known₁).index present
          rw [known.index present] at index
          obtain rfl := Option.some.inj index
          have absent : tp.name ∉ tps.map TensorProto.name := by
            intro mem
            obtain ⟨tp', among, name⟩ := mem_map.mp mem
            have some := (lastOf_isSome_iff (tps.map fun tp => (tp.name, tp)) tp.name).mpr
              ⟨tp', mem_map.mpr ⟨tp', among, by rw [name]⟩⟩
            rw [later] at some
            cases some
          rw [rest.kept tp.name _ known₁ absent, map, Std.ExtTreeMap.getElem?_insert_self]
        · cases found_last

end Initializers

/-! ## The walk over the nodes -/

/-- Names with their tensors, without the empty ones. -/
def named (outs : List Str) (ids : List TensorId) : List (Str × TensorId) :=
  (outs.zip ids).filter fun e => e.1 ≠ []

theorem named_cons (some : s ≠ []) (outs : List Str) (id : TensorId) (ids : List TensorId) :
    named (s :: outs) (id :: ids) = (s, id) :: named outs ids := by
  unfold named
  rw [zip_cons_cons, filter_cons_of_pos (by simpa using some)]

/-- **What reading the inputs of a node does**: nothing to the table; a name in the table is its
tensor. -/
structure ReadInputs (w : Walk) (ins : List Str) (w' : Walk) (ids : List TensorId) : Prop where
  grown : Grown w.g w'.g
  latest : w'.latest = w.latest
  index : ∀ (s : Str) (id : Int), w.g.tensorByName[s]? = some id → w'.g.tensorByName[s]? = some id
  inputs : ∀ (p : Nat) (s : Str) (id : Int), ins[p]? = some s → s ≠ [] → w.latest[s]? = some id →
    ids[p]? = some id

/-- One more name in front: the rest of the walk starts from a graph that has grown. -/
theorem ReadInputs.cons {w w₁ w' : Walk} {s : Str} {ins : List Str} {id : TensorId}
    {ids : List TensorId} (read : ReadInputs w₁ ins w' ids) (grown : Grown w.g w₁.g)
    (latest : w₁.latest = w.latest)
    (index : ∀ (t : Str) (id : Int), w.g.tensorByName[t]? = some id → w₁.g.tensorByName[t]? = some id)
    (here : ∀ found, s ≠ [] → w.latest[s]? = some found → id = found) :
    ReadInputs w (s :: ins) w' (id :: ids) where
  grown := grown.trans read.grown
  latest := read.latest.trans latest
  index t other before := read.index t other (index t other before)
  inputs p t other name some found := by
    cases p with
    | zero =>
      obtain rfl := Option.some.inj name
      rw [getElem?_cons_zero, here other some found]
    | succ p => exact read.inputs p t other name some (by rwa [latest])

theorem resolveInputs_read (w : Walk) (ins : List Str) :
    ReadInputs w ins (resolveInputs w ins).1 (resolveInputs w ins).2 := by
  induction ins generalizing w with
  | nil => exact ⟨Grown.refl _, rfl, fun _ _ here => here, fun p s id here => by cases here⟩
  | cons s ins ih =>
    unfold resolveInputs
    split
    · rename_i empty
      exact (ih w).cons (Grown.refl _) rfl (fun _ _ here => here) fun _ some => absurd empty some
    split
    · rename_i id found
      refine (ih w).cons (Grown.refl _) rfl (fun _ _ here => here) fun other _ same => ?_
      rw [found] at same
      exact Option.some.inj same
    · rename_i absent
      refine (ih { w with g := (w.g.findOrAdd s).1 }).cons (findOrAdd_grown w.g s) rfl
        (fun t _ here => findOrAdd_index w.g s t here) fun other _ same => ?_
      rw [absent] at same
      cases same

/-- **What writing the outputs of a node does**: every name gets a new tensor, which the table and the
name index then hold. -/
structure WroteOutputs (w : Walk) (outs : List Str) (w' : Walk) (ids : List TensorId) : Prop where
  grown : Grown w.g w'.g
  length : ids.length = outs.length
  latest : w'.latest = insertAll w.latest (named outs ids)
  index : w'.g.tensorByName = insertAll w.g.tensorByName (named outs ids)
  low : ∀ e ∈ named outs ids, (w.g.tensors.length : Int) ≤ e.2
  high : ∀ e ∈ named outs ids, e.2 < (w'.g.tensors.length : Int)
  distinct : ((named outs ids).map Prod.snd).Nodup

theorem WroteOutputs.cons {w w' : Walk} {d : TensorDesc} {types : Std.ExtTreeMap TensorId Int}
    {outs : List Str} {ids : List TensorId} (some : d.name ≠ [])
    (wrote : WroteOutputs ⟨(w.g.addTensor d).1, w.latest.insert d.name (w.g.tensors.length : Int), types⟩
      outs w' ids) :
    WroteOutputs w (d.name :: outs) w' ((w.g.tensors.length : Int) :: ids) := by
  have size : ((w.g.addTensor d).1.tensors.length : Int) = w.g.tensors.length + 1 := by
    unfold addTensor
    rw [length_append, length_singleton]
    omega
  have later : ∀ e ∈ named outs ids, (w.g.tensors.length : Int) < e.2 := by
    intro e mem
    have low := wrote.low e mem
    dsimp only at low
    omega
  have grows : (w.g.tensors.length : Int) < w'.g.tensors.length := by
    have grown := wrote.grown.size
    dsimp only at grown
    omega
  constructor
  · exact (addTensor_grown w.g d).trans wrote.grown
  · exact congrArg Nat.succ wrote.length
  · rw [named_cons some, insertAll_cons]
    exact wrote.latest
  · rw [named_cons some, insertAll_cons, wrote.index]
    exact congrArg (fun m => insertAll m _) (addTensor_index some)
  · rw [named_cons some]
    exact forall_mem_cons.mpr ⟨le_refl (w.g.tensors.length : Int), fun e mem =>
      (later e mem).le⟩
  · rw [named_cons some]
    exact forall_mem_cons.mpr ⟨grows, wrote.high⟩
  · rw [named_cons some, map_cons, nodup_cons]
    refine ⟨fun again => ?_, wrote.distinct⟩
    obtain ⟨e, mem, same⟩ := mem_map.mp again
    exact absurd (later e mem) (by rw [same]; exact lt_irrefl _)

theorem defineOutputs_wrote (b : Builder) (w : Walk) (outs : List Str) :
    WroteOutputs w outs (defineOutputs b w outs).1 (defineOutputs b w outs).2 := by
  induction outs generalizing w with
  | nil =>
    refine ⟨Grown.refl _, rfl, rfl, rfl, ?_, ?_, nodup_nil⟩
    · exact fun e mem => nomatch mem
    · exact fun e mem => nomatch mem
  | cons s outs ih =>
    unfold defineOutputs
    split
    · rename_i empty
      subst empty
      have rest := ih w
      exact ⟨rest.grown, congrArg Nat.succ rest.length, rest.latest, rest.index, rest.low, rest.high,
        rest.distinct⟩
    · rename_i some
      exact (ih _).cons (d := outputDesc b s) some

/-- The names that some nodes write, with their tensors. -/
def produced (raws : List RawNode) (nodes : List Node) : List (Str × TensorId) :=
  (raws.zip nodes).flatMap fun e => named e.1.outs e.2.outputs

theorem produced_cons (raw : RawNode) (raws : List RawNode) (node : Node) (nodes : List Node) :
    produced (raw :: raws) (node :: nodes) = named raw.outs node.outputs ++ produced raws nodes := by
  rw [produced, zip_cons_cons, flatMap_cons, ← produced]

theorem insertAll_append (m : Std.ExtTreeMap Str TensorId) (first later : List (Str × TensorId)) :
    insertAll m (first ++ later) = insertAll (insertAll m first) later := foldl_append

/-- **What the walk over the nodes does.** -/
structure Resolved (w : Walk) (raws : List RawNode) (w' : Walk) (nodes : List Node) : Prop where
  grown : Grown w.g w'.g
  length : nodes.length = raws.length
  latest : w'.latest = insertAll w.latest (produced raws nodes)
  index : ∀ (s : Str) (id : Int), (insertAll w.g.tensorByName (produced raws nodes))[s]? = some id →
    w'.g.tensorByName[s]? = some id
  inputs : ∀ (i : Nat) (raw : RawNode) (node : Node), raws[i]? = some raw → nodes[i]? = some node →
    ∀ (p : Nat) (s : Str) (id : Int), raw.ins[p]? = some s → s ≠ [] →
      (insertAll w.latest (produced (raws.take i) nodes))[s]? = some id → node.inputs[p]? = some id
  outputs : ∀ (i : Nat) (raw : RawNode) (node : Node), raws[i]? = some raw → nodes[i]? = some node →
    node.outputs.length = raw.outs.length
  low : ∀ e ∈ produced raws nodes, (w.g.tensors.length : Int) ≤ e.2
  high : ∀ e ∈ produced raws nodes, e.2 < (w'.g.tensors.length : Int)
  distinct : ((produced raws nodes).map Prod.snd).Nodup

theorem Resolved.cons {w w₁ w₂ w' : Walk} {raw : RawNode} {raws : List RawNode} {node : Node}
    {nodes : List Node} (read : ReadInputs w raw.ins w₁ node.inputs)
    (wrote : WroteOutputs w₁ raw.outs w₂ node.outputs) (rest : Resolved w₂ raws w' nodes) :
    Resolved w (raw :: raws) w' (node :: nodes) := by
  have before := read.grown.trans wrote.grown
  have size : (w.g.tensors.length : Int) ≤ w₁.g.tensors.length := by exact_mod_cast read.grown.size
  have size' : (w₂.g.tensors.length : Int) ≤ w'.g.tensors.length := by exact_mod_cast rest.grown.size
  have table : w₂.latest = insertAll w.latest (named raw.outs node.outputs) := by
    rw [wrote.latest, read.latest]
  constructor
  · exact before.trans rest.grown
  · exact congrArg Nat.succ rest.length
  · rw [produced_cons, insertAll_append, ← table]
    exact rest.latest
  · intro s id here
    rw [produced_cons, insertAll_append] at here
    refine rest.index s id ?_
    rw [wrote.index, getElem?_insertAll, getElem?_insertAll]
    rw [getElem?_insertAll, getElem?_insertAll] at here
    cases later : lastOf (produced raws nodes) s with
    | some found =>
      rw [later] at here
      exact here
    | none =>
      rw [later, Option.none_or] at here
      rw [Option.none_or]
      cases first : lastOf (named raw.outs node.outputs) s with
      | some found =>
        rw [first] at here
        exact here
      | none =>
        rw [first, Option.none_or] at here
        rw [Option.none_or]
        exact read.index s id here
  · intro i raw' node' raw_here node_here p s id name some found
    cases i with
    | zero =>
      obtain rfl := Option.some.inj raw_here
      obtain rfl := Option.some.inj node_here
      exact read.inputs p s id name some found
    | succ i =>
      refine rest.inputs i raw' node' raw_here node_here p s id name some ?_
      rw [take_succ_cons, produced_cons, insertAll_append, ← table] at found
      exact found
  · intro i raw' node' raw_here node_here
    cases i with
    | zero =>
      obtain rfl := Option.some.inj raw_here
      obtain rfl := Option.some.inj node_here
      exact wrote.length
    | succ i => exact rest.outputs i raw' node' raw_here node_here
  · intro e mem
    rw [produced_cons] at mem
    rcases mem_append.mp mem with here | later
    · exact size.trans (wrote.low e here)
    · have grown : (w₁.g.tensors.length : Int) ≤ w₂.g.tensors.length := by
        exact_mod_cast wrote.grown.size
      exact size.trans (grown.trans (rest.low e later))
  · intro e mem
    rw [produced_cons] at mem
    rcases mem_append.mp mem with here | later
    · exact lt_of_lt_of_le (wrote.high e here) size'
    · exact rest.high e later
  · rw [produced_cons, map_append, nodup_append']
    refine ⟨wrote.distinct, rest.distinct, ?_⟩
    intro id first second
    obtain ⟨e, here, rfl⟩ := mem_map.mp first
    obtain ⟨e', later, same⟩ := mem_map.mp second
    have high := wrote.high e here
    have low := rest.low e' later
    rw [same] at low
    exact absurd (lt_of_lt_of_le high low) (lt_irrefl _)

theorem resolveNodes_resolved (b : Builder) (w : Walk) (i : Nat) (raws : List RawNode) :
    Resolved w raws (resolveNodes b w i raws).1 (resolveNodes b w i raws).2 := by
  induction raws generalizing w i with
  | nil =>
    refine ⟨Grown.refl _, rfl, rfl, fun _ _ here => here, ?_, ?_, ?_, ?_, nodup_nil⟩
    · intro i raw node here
      cases here
    · intro i raw node here
      cases here
    · exact fun e mem => nomatch mem
    · exact fun e mem => nomatch mem
  | cons raw raws ih =>
    unfold resolveNodes
    exact Resolved.cons (resolveInputs_read w raw.ins) (defineOutputs_wrote b _ raw.outs) (ih _ _)

/-! ## The outputs -/

theorem repoint_spec (w : Walk) (oid : TensorId) :
    Grown w.g (repoint w oid).1.g ∧ (repoint w oid).1.latest = w.latest ∧
      (repoint w oid).1.g.tensorByName = w.g.tensorByName ∧
      (repoint w oid).2 = (w.latest[(w.g.desc oid).name]?).getD oid := by
  unfold repoint
  split
  · rename_i id found
    rw [found]
    split
    · rename_i same
      exact ⟨Grown.refl _, rfl, rfl, same.symm⟩
    · exact ⟨updateDesc_grown _ _ fun _ => rfl, rfl, updateDesc_tensorByName _ _ _, rfl⟩
  · rename_i absent
    rw [absent]
    exact ⟨Grown.refl _, rfl, rfl, rfl⟩

/-- **Every output is pointed at the last definition of its name.** -/
theorem repointAll_spec (w : Walk) (oids : List TensorId) :
    Grown w.g (repointAll w oids).1.g ∧ (repointAll w oids).1.g.tensorByName = w.g.tensorByName ∧
      ∀ (o : Nat) (oid : Int), oids[o]? = some oid → oid < w.g.tensors.length →
        (repointAll w oids).2[o]? = some ((w.latest[(w.g.desc oid).name]?).getD oid) := by
  induction oids generalizing w with
  | nil => exact ⟨Grown.refl _, rfl, fun o oid here => by cases here⟩
  | cons first oids ih =>
    obtain ⟨grown, latest, index, here⟩ := repoint_spec w first
    obtain ⟨grown', index', rest⟩ := ih (repoint w first).1
    unfold repointAll
    refine ⟨grown.trans grown', index'.trans index, fun o oid found inside => ?_⟩
    cases o with
    | zero =>
      obtain rfl := Option.some.inj found
      exact congrArg some here
    | succ o =>
      have size : (w.g.tensors.length : Int) ≤ (repoint w first).1.g.tensors.length := by
        exact_mod_cast grown.size
      have later := rest o oid found (by omega)
      rw [latest, grown.names oid inside] at later
      exact later

end Vknn.Onnx
