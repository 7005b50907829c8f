import Vknn.Import.OnnxWalk

/-!
# What the names of a model resolve to

A name means its nearest preceding definition: a node output, else an initializer, else a
graph input.  The walk over the nodes keeps a table that holds just that, so node inputs and
graph outputs get the right tensors, and every node output gets one of its own.

The name index of the graph is another matter.  A run binds a graph input by looking its name
up there, and a node output of the same name has taken the place.
-/

namespace Vknn.Onnx

open Builder Entries List
open Session (resolve)

/-! ## Definitions -/

/-- Where a name is defined. -/
inductive Origin where
  | input (i : Nat)
  | initializer (i : Nat)
  | output (i k : Nat)
deriving DecidableEq

/-- The definitions in front of node `n`, in order.  An empty name defines nothing. -/
def definitions (fields : List GraphField) (n : Nat) : List (Str × Origin) :=
  ((inputNames fields).zipIdx.map fun e => (e.1, .input e.2)) ++
    ((initializersOf fields).zipIdx.map fun e => (e.1.name, .initializer e.2)) ++
    ((rawNodes fields).take n).zipIdx.flatMap fun e =>
      (e.1.outs.zipIdx.filter fun o => o.1 ≠ []).map fun o => (o.1, .output e.2 o.2)

/-- The nearest definition of a name in front of node `n`. -/
def nearest (fields : List GraphField) (n : Nat) (s : Str) : Option Origin :=
  lastOf (definitions fields n) s

section Meaning

variable (fill : TensorProto → Int → HostBuffer) (widths : List Node → Node → Attributes)
  (fields : List GraphField)

def tensorOf : Origin → TensorId
  | .input i => (collect fields).g.inputs.getD i kNoTensor
  | .initializer i =>
    (materializeInitializers fill (collect fields)).g.find ((initializersOf fields).getD i {}).name
  | .output i k => ((build fill widths fields).nodes.getD i {}).outputs.getD k kNoTensor

/-- Every name of a model resolves to what it means. -/
structure ResolvesAsMeant : Prop where
  /-- A node input is the tensor of the nearest definition in front of the node. -/
  inputs : ∀ (i : Nat) (raw : RawNode) (node : Node), (rawNodes fields)[i]? = some raw →
    (build fill widths fields).nodes[i]? = some node →
    ∀ (p : Nat) (s : Str) (origin : Origin), raw.ins[p]? = some s → s ≠ [] → nearest fields i s = some origin →
      node.inputs[p]? = some (tensorOf fill widths fields origin)
  /-- No other node output has the tensor of a node output. -/
  outputs : ∀ (i k : Nat) (raw : RawNode) (node : Node), (rawNodes fields)[i]? = some raw →
    (build fill widths fields).nodes[i]? = some node →
    ∀ (i' k' : Nat) (raw' : RawNode) (node' : Node), (rawNodes fields)[i']? = some raw' →
    (build fill widths fields).nodes[i']? = some node' →
    ∀ s s' : Str, raw.outs[k]? = some s → s ≠ [] → raw'.outs[k']? = some s' → s' ≠ [] →
      node.outputs[k]? = node'.outputs[k']? → i = i' ∧ k = k'
  /-- A graph output is the tensor of the last definition of its name. -/
  results : ∀ (o : Nat) (s : Str) (origin : Origin), (outputNames fields)[o]? = some s →
    nearest fields (rawNodes fields).length s = some origin →
    (build fill widths fields).outputs[o]? = some (tensorOf fill widths fields origin)
  /-- The tensor of an initializer holds the data of the last one with its name. -/
  constants : ∀ (i : Nat) (tp last : TensorProto), (initializersOf fields)[i]? = some tp → tp.name ≠ [] →
    lastOf ((initializersOf fields).map fun tp => (tp.name, tp)) tp.name = some last →
    (build fill widths fields).initializers[tensorOf fill widths fields (.initializer i)]? =
      some (fill last (last.dims.foldl (fun n x => n * x) 1))
  /-- A graph input is bound to its own tensor. -/
  bound : ∀ id ∈ (build fill widths fields).inputs,
    resolve (build fill widths fields) ((build fill widths fields).desc id).name = some id

/-- The graph inputs that no initializer stands for. -/
def remainingInputs : List Str :=
  (inputNames fields).filter fun s => s = [] ∨ s ∉ (initializersOf fields).map TensorProto.name

/-- No node output takes the name of a graph input; an input without a name is the only one. -/
def Unshadowed : Prop :=
  ∀ s ∈ remainingInputs fields,
    if s = [] then (remainingInputs fields).length = 1
    else s ∉ (rawNodes fields).flatMap RawNode.outs

end Meaning

/-! ## Definitions and their tensors -/

theorem zipIdx_map_getD {α β : Type} {xs : List α} {ys : List β} (enough : xs.length ≤ ys.length)
    (dflt : β) : (xs.zipIdx.map fun e => (e.1, ys.getD e.2 dflt)) = xs.zip ys := by
  refine ext_getElem (by simp; omega) fun i here there => ?_
  rw [length_map, length_zipIdx] at here
  rw [getElem_map, getElem_zipIdx, getElem_zip, Nat.zero_add, getD_eq_getElem _ _ (by omega)]

theorem forall₂_getElem? {α β : Type} {R : α → β → Prop} {xs : List α} {ys : List β}
    (related : List.Forall₂ R xs ys) {i : Nat} {x : α} (here : xs[i]? = some x) :
    ∃ y, ys[i]? = some y ∧ R x y := by
  induction related generalizing i with
  | nil => cases here
  | cons first _ ih =>
    cases i with
    | zero =>
      obtain rfl := Option.some.inj here
      exact ⟨_, rfl, first⟩
    | succ i => exact ih here

section Build

variable (fill : TensorProto → Int → HostBuffer) (widths : List Node → Node → Attributes)
  (fields : List GraphField)

def ready : Builder := materializeInitializers fill (collect fields)

/-- The walk, and what it makes of the nodes. -/
def walked : Walk × List Node :=
  resolveNodes (ready fill fields)
    ⟨(ready fill fields).g, insertAll ∅ (firstDefinitions (ready fill fields)),
      (ready fill fields).declaredElemTypes⟩ 0 (ready fill fields).nodes

theorem ready_materialized :
    Materialized fill (collect fields) (ready fill fields) (initializersOf fields) := by
  have collected := collect_collected fields
  have done := materialize_materialized fill collected.sound (collect fields).inits
  rw [collected.inits] at done
  rw [ready, materializeInitializers, collected.inits]
  exact done

theorem ready_nodes : (ready fill fields).nodes = rawNodes fields :=
  (ready_materialized fill fields).nodes.trans (collect_collected fields).nodes

theorem ready_inputs : List.Forall₂ (Known (ready fill fields).g) (inputNames fields)
    (ready fill fields).g.inputs := by
  rw [(ready_materialized fill fields).inputs]
  exact (collect_collected fields).inputs.imp fun t id => (ready_materialized fill fields).keeps t id

theorem ready_outputs : List.Forall₂ (Known (ready fill fields).g) (outputNames fields)
    (ready fill fields).g.outputs := by
  rw [(ready_materialized fill fields).outputs]
  exact (collect_collected fields).outputs.imp fun t id => (ready_materialized fill fields).keeps t id

theorem walked_resolved : Resolved
    ⟨(ready fill fields).g, insertAll ∅ (firstDefinitions (ready fill fields)),
      (ready fill fields).declaredElemTypes⟩
    (rawNodes fields) (walked fill fields).1 (walked fill fields).2 := by
  rw [← ready_nodes fill fields]
  exact resolveNodes_resolved _ _ 0 _

theorem build_nodes : (build fill widths fields).nodes =
    (walked fill fields).2.map fun n => { n with attr := widths (walked fill fields).2 n } := rfl

theorem build_outputs : (build fill widths fields).outputs =
    (repointAll (walked fill fields).1 (walked fill fields).1.g.outputs).2 := rfl

theorem firstDefinitions_eq : firstDefinitions (ready fill fields) =
    (inputNames fields).zip (ready fill fields).g.inputs ++
      (initializersOf fields).map fun tp => (tp.name, (ready fill fields).g.find tp.name) := by
  rw [firstDefinitions, (ready_materialized fill fields).inits, (collect_collected fields).inits]
  congr 1
  have known := ready_inputs fill fields
  generalize (ready fill fields).g.inputs = ids, inputNames fields = names at known
  induction known with
  | nil => rfl
  | cons here _ ih => rw [map_cons, zip_cons_cons, here.name, ih]

/-- **The definitions in front of a node, with the tensors they have made.** -/
theorem definitions_tensors (n : Nat) :
    ((definitions fields n).map fun e => (e.1, tensorOf fill widths fields e.2)) =
      firstDefinitions (ready fill fields) ++
        produced ((rawNodes fields).take n) (walked fill fields).2 := by
  have resolved := walked_resolved fill fields
  rw [firstDefinitions_eq, definitions, map_append, map_append]
  congr 1
  · congr 1
    · have length := (ready_inputs fill fields).length_eq
      rw [(ready_materialized fill fields).inputs] at length ⊢
      rw [map_map, ← zipIdx_map_getD length.le kNoTensor]
      rfl
    · rw [map_map]
      refine ext_getElem (by simp) fun i here there => ?_
      rw [length_map] at there
      rw [getElem_map, getElem_zipIdx, getElem_map, Nat.zero_add]
      simp only [Function.comp_apply, tensorOf, getD_eq_getElem _ _ there]
      rfl
  · have nodes : ∀ i : Nat, i < (rawNodes fields).length →
        ((build fill widths fields).nodes.getD i {}).outputs =
          ((walked fill fields).2.getD i {}).outputs := by
      intro i inside
      rw [← resolved.length] at inside
      rw [build_nodes, getD_eq_getElem _ _ (by simpa using inside), getElem_map,
        getD_eq_getElem _ _ inside]
    have length : ((rawNodes fields).take n).length ≤ (walked fill fields).2.length := by
      rw [resolved.length]
      exact length_take_le' _ _
    rw [map_flatMap, produced, ← zipIdx_map_getD length {}, flatMap_map]
    refine flatMap_congr fun e mem => ?_
    obtain ⟨inside, raw⟩ := mem_zipIdx' mem
    have inside' : e.2 < (rawNodes fields).length := lt_of_lt_of_le inside (length_take_le' _ _)
    have raw_here : (rawNodes fields)[e.2]? = some e.1 := by
      rw [getElem?_eq_getElem inside', raw, getElem_take]
    have node_here : (walked fill fields).2[e.2]? = some ((walked fill fields).2.getD e.2 {}) := by
      have inside'' : e.2 < (walked fill fields).2.length := by rwa [resolved.length]
      rw [getElem?_eq_getElem inside'', getD_eq_getElem _ _ inside'']
    have outs := resolved.outputs e.2 e.1 _ raw_here node_here
    rw [named, ← zipIdx_map_getD outs.ge kNoTensor, filter_map, map_map, ← nodes e.2 inside']
    rfl

theorem latest_nearest (n : Nat) (s : Str) :
    (insertAll (insertAll ∅ (firstDefinitions (ready fill fields)))
      (produced ((rawNodes fields).take n) (walked fill fields).2))[s]? =
        (nearest fields n s).map (tensorOf fill widths fields) := by
  rw [← insertAll_append, ← definitions_tensors fill widths, getElem?_insertAll, lastOf_map,
    Std.ExtTreeMap.getElem?_empty, Option.or_none]
  rfl

/-! ## What holds of every model -/

variable {i k : Nat} {node : Node} {s : Str} {id : TensorId}

theorem walked_of_built (here : (build fill widths fields).nodes[i]? = some node) :
    ∃ resolved, (walked fill fields).2[i]? = some resolved ∧ node.inputs = resolved.inputs ∧
      node.outputs = resolved.outputs := by
  rw [build_nodes, getElem?_map, Option.map_eq_some_iff] at here
  obtain ⟨resolved, found, rfl⟩ := here
  exact ⟨resolved, found, rfl, rfl⟩

theorem build_resolves_inputs (i : Nat) (raw : RawNode) (node : Node)
    (raw_here : (rawNodes fields)[i]? = some raw)
    (node_here : (build fill widths fields).nodes[i]? = some node) (p : Nat) (s : Str)
    (origin : Origin) (name : raw.ins[p]? = some s) (present : s ≠ [])
    (meant : nearest fields i s = some origin) :
    node.inputs[p]? = some (tensorOf fill widths fields origin) := by
  obtain ⟨resolved, found, inputs, -⟩ := walked_of_built fill widths fields node_here
  rw [inputs]
  refine (walked_resolved fill fields).inputs i raw resolved raw_here found p s _ name present ?_
  rw [latest_nearest fill widths, meant]
  rfl

variable {outs : List Str} {ids : List TensorId} {raws : List RawNode} {nodes : List Node}
  {raw : RawNode} {k' : Nat} {s' : Str}

theorem mem_named
    (name : outs[k]? = some s) (present : s ≠ []) (tensor : ids[k]? = some id) :
    (s, id) ∈ named outs ids := by
  refine mem_filter.mpr ⟨?_, by simpa using present⟩
  exact mem_of_getElem? (getElem?_zip_eq_some.mpr ⟨name, tensor⟩)

theorem mem_produced
    (raw_here : raws[i]? = some raw) (node_here : nodes[i]? = some node) {e : Str × TensorId}
    (mem : e ∈ named raw.outs node.outputs) : e ∈ produced raws nodes := by
  refine mem_flatMap.mpr ⟨(raw, node), ?_, mem⟩
  exact mem_of_getElem? (getElem?_zip_eq_some.mpr ⟨raw_here, node_here⟩)

theorem tensor_mem {entries : List (Str × TensorId)}
    (mem : (s, id) ∈ entries) : id ∈ entries.map Prod.snd :=
  mem_map.mpr ⟨(s, id), mem, rfl⟩

/-- The outputs of one node are different tensors. -/
theorem named_injective
    (distinct : ((named outs ids).map Prod.snd).Nodup)
    (name : outs[k]? = some s) (present : s ≠ []) (name' : outs[k']? = some s') (present' : s' ≠ [])
    (tensor : ids[k]? = some id) (tensor' : ids[k']? = some id) : k = k' := by
  induction outs generalizing ids k k' with
  | nil => cases name
  | cons t outs ih =>
    cases ids with
    | nil => cases tensor
    | cons other ids =>
      have later : ((named outs ids).map Prod.snd).Nodup := by
        by_cases empty : t = []
        · subst empty
          exact distinct
        · rw [named_cons empty, map_cons, nodup_cons] at distinct
          exact distinct.2
      have apart : t ≠ [] → other ∉ (named outs ids).map Prod.snd := by
        intro empty
        rw [named_cons empty, map_cons, nodup_cons] at distinct
        exact distinct.1
      cases k with
      | zero =>
        obtain rfl := Option.some.inj name
        obtain rfl := Option.some.inj tensor
        cases k' with
        | zero => rfl
        | succ k' =>
          have behind : outs[k']? = some s' := name'
          exact absurd (tensor_mem (mem_named behind present' tensor')) (apart present)
      | succ k =>
        cases k' with
        | zero =>
          obtain rfl := Option.some.inj name'
          obtain rfl := Option.some.inj tensor'
          have behind : outs[k]? = some s := name
          exact absurd (tensor_mem (mem_named behind present tensor)) (apart present')
        | succ k' => rw [ih later name name' tensor tensor']

/-- **The outputs of all nodes are different tensors.** -/
theorem produced_injective
    (distinct : ((produced raws nodes).map Prod.snd).Nodup) {i' : Nat} {raw' : RawNode}
    {node' : Node} (raw_here : raws[i]? = some raw) (node_here : nodes[i]? = some node)
    (raw_there : raws[i']? = some raw') (node_there : nodes[i']? = some node')
    (name : raw.outs[k]? = some s) (present : s ≠ []) (name' : raw'.outs[k']? = some s')
    (present' : s' ≠ []) (tensor : node.outputs[k]? = some id)
    (tensor' : node'.outputs[k']? = some id) : i = i' ∧ k = k' := by
  induction raws generalizing nodes i i' with
  | nil => cases raw_here
  | cons first raws ih =>
    cases nodes with
    | nil => cases node_here
    | cons head nodes =>
      rw [produced_cons, map_append, nodup_append'] at distinct
      obtain ⟨own, later, apart⟩ := distinct
      cases i with
      | zero =>
        obtain rfl := Option.some.inj raw_here
        obtain rfl := Option.some.inj node_here
        cases i' with
        | zero =>
          obtain rfl := Option.some.inj raw_there
          obtain rfl := Option.some.inj node_there
          exact ⟨rfl, named_injective own name present name' present' tensor tensor'⟩
        | succ i' =>
          have behind : raws[i']? = some raw' := raw_there
          exact (apart (tensor_mem (mem_named name present tensor)) (tensor_mem
            (mem_produced behind node_there (mem_named name' present' tensor')))).elim
      | succ i =>
        cases i' with
        | zero =>
          obtain rfl := Option.some.inj raw_there
          obtain rfl := Option.some.inj node_there
          have behind : raws[i]? = some raw := raw_here
          exact (apart (tensor_mem (mem_named name' present' tensor')) (tensor_mem
            (mem_produced behind node_here (mem_named name present tensor)))).elim
        | succ i' =>
          obtain ⟨same, same'⟩ := ih later raw_here node_here raw_there node_there
          exact ⟨congrArg Nat.succ same, same'⟩

theorem build_outputs_apart (i k : Nat) (raw : RawNode) (node : Node)
    (raw_here : (rawNodes fields)[i]? = some raw)
    (node_here : (build fill widths fields).nodes[i]? = some node) (i' k' : Nat) (raw' : RawNode)
    (node' : Node) (raw_there : (rawNodes fields)[i']? = some raw')
    (node_there : (build fill widths fields).nodes[i']? = some node') (s s' : Str)
    (name : raw.outs[k]? = some s) (present : s ≠ []) (name' : raw'.outs[k']? = some s')
    (present' : s' ≠ []) (same : node.outputs[k]? = node'.outputs[k']?) : i = i' ∧ k = k' := by
  obtain ⟨resolved, found, -, outputs⟩ := walked_of_built fill widths fields node_here
  obtain ⟨resolved', found', -, outputs'⟩ := walked_of_built fill widths fields node_there
  have walk := walked_resolved fill fields
  have inside : k < resolved.outputs.length := by
    rw [walk.outputs i raw resolved raw_here found]
    exact (List.getElem?_eq_some_iff.mp name).1
  rw [outputs, outputs'] at same
  have tensor := getElem?_eq_getElem inside
  exact produced_injective walk.distinct raw_here found raw_there found' name present name' present'
    tensor (same ▸ tensor)

theorem build_results (o : Nat) (s : Str) (origin : Origin) (name : (outputNames fields)[o]? = some s)
    (meant : nearest fields (rawNodes fields).length s = some origin) :
    (build fill widths fields).outputs[o]? = some (tensorOf fill widths fields origin) := by
  have walk := walked_resolved fill fields
  have known := ready_outputs fill fields
  obtain ⟨oid, here, of_name⟩ : ∃ oid : Int, (ready fill fields).g.outputs[o]? = some oid ∧
      Known (ready fill fields).g s oid := forall₂_getElem? known name
  have last := latest_nearest fill widths fields (rawNodes fields).length s
  rw [take_length, ← walk.latest, meant] at last
  rw [build_outputs, (repointAll_spec (walked fill fields).1 (walked fill fields).1.g.outputs).2.2 o oid
    (by rw [walk.grown.outputs]; exact here) (lt_of_lt_of_le of_name.high (by exact_mod_cast walk.grown.size)),
    walk.grown.names oid of_name.high, of_name.name, last]
  rfl

theorem build_constants (i : Nat) (tp last : TensorProto) (here : (initializersOf fields)[i]? = some tp)
    (present : tp.name ≠ [])
    (found : lastOf ((initializersOf fields).map fun tp => (tp.name, tp)) tp.name = some last) :
    (build fill widths fields).initializers[tensorOf fill widths fields (.initializer i)]? =
      some (fill last (last.dims.foldl (fun n x => n * x) 1)) := by
  have materialized := ready_materialized fill fields
  obtain ⟨id, known⟩ := materialized.present tp (mem_of_getElem? here)
  have tensor : tensorOf fill widths fields (.initializer i) = id := by
    have name : (initializersOf fields).getD i {} = tp := by
      rw [getD_eq_getElem?_getD, here]
      rfl
    rw [tensorOf, name]
    change (ready fill fields).g.find tp.name = id
    rw [Graph.find, known.index present]
    rfl
  rw [tensor, ← materialized.data tp.name id known present last found]
  obtain ⟨grown, -, -⟩ := repointAll_spec (walked fill fields).1 (walked fill fields).1.g.outputs
  exact congrArg (fun m : Std.ExtTreeMap TensorId HostBuffer => m[id]?)
    ((walked_resolved fill fields).grown.trans grown).initializers

/-! ## Binding -/

/-- What the walk has grown from, and what the last phases add to it. -/
theorem build_grown : (ready fill fields).g.tensors.length ≤ (build fill widths fields).tensors.length ∧
    (∀ id : Int, id < (ready fill fields).g.tensors.length →
      ((build fill widths fields).desc id).name = ((ready fill fields).g.desc id).name) ∧
    ((build fill widths fields).tensorByName = (walked fill fields).1.g.tensorByName) := by
  have walk := walked_resolved fill fields
  obtain ⟨grown, index, -⟩ :=
    repointAll_spec (walked fill fields).1 (walked fill fields).1.g.outputs
  exact ⟨(walk.grown.trans grown).size, (walk.grown.trans grown).names, index⟩

/-- The graph inputs that stay have the names that stay. -/
theorem build_inputs : List.Forall₂ (Known (ready fill fields).g) (remainingInputs fields)
    (build fill widths fields).inputs := by
  have walk := walked_resolved fill fields
  obtain ⟨grown, -, -⟩ := repointAll_spec (walked fill fields).1 (walked fill fields).1.g.outputs
  have whole := walk.grown.trans grown
  have inputs : (build fill widths fields).inputs =
      (collect fields).g.inputs.filter fun id => !(ready fill fields).g.isInitializer id := by
    rw [← (ready_materialized fill fields).inputs, ← whole.inputs]
    unfold Graph.isInitializer
    rw [← whole.initializers]
    rfl
  rw [inputs]
  refine (rel_filter ?_ (collect_collected fields).inputs).imp
    fun t id => (ready_materialized fill fields).keeps t id
  intro s id known
  have constant := (ready_materialized fill fields).constant s id known
  have fresh : (collect fields).g.isInitializer id = false := by
    rw [Graph.isInitializer, (collect_collected fields).initializers, Std.ExtTreeMap.contains_empty]
  rw [fresh] at constant
  dsimp only
  rw [Bool.not_eq_true', ← Bool.not_eq_true, constant, decide_eq_true_eq]
  simp only [Bool.false_eq_true, false_or, not_and]
  tauto

/-- A name is written by a node exactly when the walk has made a tensor for it. -/
theorem produced_isSome (present : s ≠ []) :
    (lastOf (produced (rawNodes fields) (walked fill fields).2) s).isSome ↔
      s ∈ (rawNodes fields).flatMap RawNode.outs := by
  have walk := walked_resolved fill fields
  rw [lastOf_isSome_iff, mem_flatMap]
  constructor
  · rintro ⟨id, mem⟩
    obtain ⟨⟨raw, node⟩, pair, entry⟩ := mem_flatMap.mp mem
    exact ⟨raw, (of_mem_zip pair).1, (of_mem_zip (mem_filter.mp entry).1).1⟩
  · rintro ⟨raw, mem, name⟩
    obtain ⟨i, inside, rfl⟩ := getElem_of_mem mem
    obtain ⟨k, inside', rfl⟩ := getElem_of_mem name
    have raw_here := getElem?_eq_getElem inside
    obtain ⟨node, node_here⟩ : ∃ node, (walked fill fields).2[i]? = some node :=
      ⟨_, getElem?_eq_getElem (by rwa [walk.length])⟩
    obtain ⟨id, tensor⟩ : ∃ id, node.outputs[k]? = some id :=
      ⟨_, getElem?_eq_getElem (by rwa [walk.outputs i _ node raw_here node_here])⟩
    exact ⟨id, mem_produced raw_here node_here
      (mem_named (getElem?_eq_getElem inside') present tensor)⟩

/-- **The tensor a graph input is bound to**: its own, unless a node output has its name. -/
theorem resolve_input {id : Int} (present : s ≠ []) (known : Known (ready fill fields).g s id) :
    resolve (build fill widths fields) s = some id ↔
      s ∉ (rawNodes fields).flatMap RawNode.outs := by
  have walk := walked_resolved fill fields
  have resolve : ∀ other : Int, 0 ≤ other → (insertAll (ready fill fields).g.tensorByName
      (produced (rawNodes fields) (walked fill fields).2))[s]? = some other →
      resolve (build fill widths fields) s = some other := by
    intro other low held
    have find : (build fill widths fields).find s = other := by
      rw [Graph.find, (build_grown fill widths fields).2.2, walk.index s other held]
      rfl
    have some : other ≠ kNoTensor := by
      rintro rfl
      exact absurd low (by decide)
    rw [resolve, find, if_pos some]
  have written := produced_isSome fill fields present
  rw [← written]
  cases last : lastOf (produced (rawNodes fields) (walked fill fields).2) s with
  | none =>
    simp only [Option.isSome_none, Bool.false_eq_true, not_false_eq_true, iff_true]
    refine resolve id known.low ?_
    rw [getElem?_insertAll, last, Option.none_or]
    exact known.index present
  | some other =>
    simp only [Option.isSome_some, not_true_eq_false, iff_false]
    obtain ⟨e, found, rfl⟩ := Option.map_eq_some_iff.mp last
    have mem := mem_reverse.mp (mem_of_find?_eq_some found)
    have low := walk.low e mem
    have high := lt_of_lt_of_le known.high low
    rw [resolve e.2 (known.low.trans high.le)]
    · rintro same
      exact absurd high (by rw [Option.some.inj same]; exact lt_irrefl _)
    · rw [getElem?_insertAll, last]
      rfl

/-- An input without a name is bound only when it is the only input. -/
theorem resolve_unnamed (mem : id ∈ (build fill widths fields).inputs) :
    resolve (build fill widths fields) [] = some id ↔
      (build fill widths fields).inputs.length = 1 := by
  have walk := walked_resolved fill fields
  have fresh : (ready fill fields).g.tensorByName[([] : Str)]? = none := by
    cases held : (ready fill fields).g.tensorByName[([] : Str)]? with
    | none => rfl
    | some other => exact absurd rfl ((ready_materialized fill fields).sound [] other held).1
  have find : (build fill widths fields).find [] = kNoTensor := by
    rw [Graph.find, (build_grown fill widths fields).2.2, walk.grown.unnamed fresh]
    rfl
  rw [resolve, find, if_neg (by decide)]
  generalize (build fill widths fields).inputs = ids at mem
  match ids, mem with
  | [only], mem =>
    rw [mem_singleton.mp mem]
    exact ⟨fun _ => rfl, fun _ => rfl⟩
  | _ :: _ :: _, _ => simp

theorem bound_iff : (∀ id ∈ (build fill widths fields).inputs,
      resolve (build fill widths fields) ((build fill widths fields).desc id).name = some id) ↔
    Unshadowed fields := by
  have known := build_inputs fill widths fields
  have each : ∀ s id, id ∈ (build fill widths fields).inputs → Known (ready fill fields).g s id →
      (resolve (build fill widths fields) ((build fill widths fields).desc id).name = some id ↔
        if s = [] then (remainingInputs fields).length = 1
        else s ∉ (rawNodes fields).flatMap RawNode.outs) := by
    intro s id mem here
    rw [(build_grown fill widths fields).2.1 id here.high, here.name]
    split
    · rename_i empty
      rw [empty, resolve_unnamed fill widths fields mem, known.length_eq]
    · rename_i present
      exact resolve_input fill widths fields present here
  unfold Unshadowed
  constructor
  · intro bound s mem
    obtain ⟨i, inside, rfl⟩ := getElem_of_mem mem
    obtain ⟨id, found, here⟩ := forall₂_getElem? known (getElem?_eq_getElem inside)
    have among := mem_of_getElem? found
    exact (each _ id among here).mp (bound id among)
  · intro unshadowed id mem
    obtain ⟨i, inside, rfl⟩ := getElem_of_mem mem
    obtain ⟨s, found, here⟩ := forall₂_getElem? known.flip (getElem?_eq_getElem inside)
    exact (each s _ mem here).mpr (unshadowed s (mem_of_getElem? found))

/-- **When every name of a model resolves to what it means**: no node output takes the name of a graph
input. -/
theorem resolvesAsMeant_iff : ResolvesAsMeant fill widths fields ↔ Unshadowed fields := by
  rw [← bound_iff fill widths fields]
  constructor
  · exact fun meant => meant.bound
  · intro bound
    exact ⟨build_resolves_inputs fill widths fields, build_outputs_apart fill widths fields,
      build_results fill widths fields, build_constants fill widths fields, bound⟩

end Build

/-- A graph input whose name a node writes again. -/
def shadowedInput : List GraphField := [
  .node { type := .relu } [str "x"] [str "x"],
  .node { type := .relu } [str "x"] [str "y"],
  .input (str "x") [4] 1 [],
  .output (str "y") [4] 1]

/-- A run binds the data of such an input to the wrong tensor. -/
theorem shadowedInput_not_meant :
    ¬ ∀ (fill : TensorProto → Int → HostBuffer) (widths : List Node → Node → Attributes)
      (fields : List GraphField), ResolvesAsMeant fill widths fields := by
  intro all
  have bound := (all (fun _ _ => []) (fun _ n => n.attr) shadowedInput).bound 0
  revert bound
  decide

end Vknn.Onnx
