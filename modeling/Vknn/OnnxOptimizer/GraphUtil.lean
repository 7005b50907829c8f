import Mathlib.Data.List.Nodup
import Mathlib.Data.List.Perm.Subperm
import Vknn.Ir.Shape

/-!
# Models of the ONNX optimizer

The optimizer edits a model in place through a few helpers.  A name that a subgraph mentions is
protected: no edit renames or removes it.  An initializer that is also a graph input can be
overridden at run time and is no constant.  The nodes are sorted again after every pass that
reports changes.

A node keeps what the helpers read of it: the names, the attributes of a convolution and a batch
normalization, and of its subgraphs the names that occur there.  All else is a list of bytes.
-/

namespace Vknn.OnnxOptimizer

/-! ## Protos -/

/-- A numpy array: its dtype, its shape and its raw bytes. -/
structure NdArray where
  dtype : Str := []
  shape : List Int := []
  bytes : List UInt8 := []
deriving DecidableEq

structure NodeProto where
  opType : Str := []
  name : Str := []
  inputs : List Str := []
  outputs : List Str := []
  /-- The attribute `group`, if there is one. -/
  group : Option Int := none
  /-- The attribute `epsilon`, if there is one. -/
  epsilon : Option UInt32 := none
  /-- The value of a constant node, where it is an array. -/
  value : Option NdArray := none
  /-- The names its subgraphs read. -/
  bodyReads : List Str := []
  /-- The names that occur anywhere inside its subgraphs. -/
  bodyNames : List Str := []
  other : List UInt8 := []
deriving DecidableEq

structure ValueInfo where
  name : Str
  type : List UInt8 := []
deriving DecidableEq

structure GraphProto where
  nodes : List NodeProto := []
  inputs : List ValueInfo := []
  outputs : List ValueInfo := []
  valueInfo : List ValueInfo := []
  initializers : List (Str × NdArray) := []
deriving DecidableEq

structure ModelProto where
  graph : GraphProto := {}
  other : List UInt8 := []
deriving DecidableEq

namespace GraphProto

/-! ## Looking at a graph -/

def inputNames (g : GraphProto) : List Str := g.inputs.map ValueInfo.name

def outputNames (g : GraphProto) : List Str := g.outputs.map ValueInfo.name

def initializerNames (g : GraphProto) : List Str := g.initializers.map Prod.fst

def subgraphRefNames (g : GraphProto) : List Str := g.nodes.flatMap NodeProto.bodyNames

/-- How many node inputs name a tensor. -/
def useCount (g : GraphProto) (name : Str) : Nat :=
  (g.nodes.flatMap NodeProto.inputs).countP fun x => x ≠ [] && x = name

/-- The position of the last node that writes a tensor. -/
def producer (g : GraphProto) (name : Str) : Option Nat :=
  ((List.range g.nodes.length).filter fun i =>
    name ≠ [] && name ∈ (g.nodes.getD i {}).outputs).getLast?

/-- A constant array: an initializer that no input overrides, or a constant node's output. -/
def constArray (g : GraphProto) (name : Str) : Option NdArray :=
  if name = [] then none
  else
    match g.initializers.lookup name with
    | some array => if name ∈ g.inputNames then none else some array
    | none =>
      match g.nodes.find? fun n => n.opType = str "Constant" && name ∈ n.outputs with
      | some n => n.value
      | none => none

def taken (g : GraphProto) : List Str :=
  g.inputNames ++ g.outputNames ++ g.valueInfo.map ValueInfo.name ++ g.initializerNames ++
    (g.nodes.flatMap fun n => n.name :: (n.inputs ++ n.outputs)) ++ g.subgraphRefNames

/-- A name that collides with nothing.  One of the first candidates is free: there are more of
them than names in use. -/
def uniqueName (g : GraphProto) (base : Str) : Str :=
  if base ∉ g.taken then base
  else
    let candidates := (List.range (g.taken.length + 1)).map fun k => base ++ str "_" ++ str (toString k)
    (candidates.find? fun name => name ∉ g.taken).getD base

/-! ## Editing a graph -/

def removeValueInfo (g : GraphProto) (name : Str) : GraphProto :=
  { g with valueInfo := g.valueInfo.eraseP fun vi => vi.name = name }

/-- Rename what every node but one reads. -/
def renameInputs (g : GraphProto) (i : Nat) (old new : Str) : GraphProto :=
  { g with nodes := g.nodes.mapIdx fun j n =>
      if j = i then n else { n with inputs := n.inputs.map fun x => if x = old then new else x } }

/-- Rename what every node but one writes. -/
def renameOutputs (g : GraphProto) (i : Nat) (old new : Str) : GraphProto :=
  { g with nodes := g.nodes.mapIdx fun j n =>
      if j = i then n else { n with outputs := n.outputs.map fun x => if x = old then new else x } }

/-- Remove a node that does nothing; nothing happens where that is not safe. -/
def tryBypass (g : GraphProto) (i : Nat) (isProtected : List Str) : Option GraphProto :=
  let node := g.nodes.getD i {}
  let inName := node.inputs.headD []
  let out := node.outputs.headD []
  if inName = [] ∨ out = [] ∨ inName = out then none
  else if out ∈ isProtected then none
  else if out ∈ g.outputNames then
    if inName ∈ g.inputNames ∨ inName ∈ g.initializerNames ∨ inName ∈ g.outputNames ∨
        inName ∈ isProtected then none
    else
      let h := ((g.renameInputs i inName out).renameOutputs i inName out).removeValueInfo inName
      some { h with nodes := h.nodes.eraseIdx i }
  else
    let h := (g.renameInputs i out inName).removeValueInfo out
    some { h with nodes := h.nodes.eraseIdx i }

/-! ## Sorting -/

/-- The other nodes whose outputs a node reads, itself or in its subgraphs. -/
def dependencies (g : GraphProto) (i : Nat) : List Nat :=
  let n := g.nodes.getD i {}
  ((n.inputs.filter fun x => x ≠ []) ++ n.bodyReads).filterMap fun d =>
    match g.producer d with
    | some j => if j ≠ i then some j else none
    | none => none

/-- The order in which the nodes get ready, the first of the ready ones first. -/
def emit (g : GraphProto) : Nat → List Nat → List Nat
  | 0, order => order
  | fuel + 1, order =>
    match (List.range g.nodes.length).find? fun i =>
        i ∉ order && (g.dependencies i).all fun j => j ∈ order with
    | none => order
    | some i => g.emit fuel (order ++ [i])

/-- Sort the nodes; raises on a cycle. -/
def toposort (g : GraphProto) : Except Str GraphProto :=
  let order := g.emit g.nodes.length []
  if order.length ≠ g.nodes.length then
    .error (str "graph contains a cycle; cannot topologically sort")
  else .ok { g with nodes := order.map fun i => g.nodes.getD i {} }

open List

variable {g : GraphProto}

/-- An order of all nodes in which no node reads from a later one. -/
structure Arranged (g : GraphProto) (order : List Nat) : Prop where
  all : order.Perm (range g.nodes.length)
  before : order.Pairwise fun i j => j ∉ g.dependencies i

theorem dependencies_spec {i j : Nat} (mem : j ∈ g.dependencies i) :
    j < g.nodes.length ∧ j ≠ i := by
  obtain ⟨x, -, found⟩ := mem_filterMap.mp mem
  split at found
  · rename_i k producer
    split_ifs at found with other
    obtain rfl := Option.some.inj found
    obtain ⟨inside, -⟩ := mem_filter.mp (mem_of_getLast? producer)
    exact ⟨mem_range.mp inside, other⟩
  · cases found

/-- What is emitted is emitted once, and after all that it reads from. -/
structure Emitted (g : GraphProto) (order : List Nat) : Prop where
  once : order.Nodup
  inside : order ⊆ range g.nodes.length
  closed : ∀ i ∈ order, g.dependencies i ⊆ order
  before : order.Pairwise fun i j => j ∉ g.dependencies i

theorem find_ready {order : List Nat} {i : Nat} (found : (range g.nodes.length).find? (fun i =>
      i ∉ order && (g.dependencies i).all fun j => j ∈ order) = some i) :
    i < g.nodes.length ∧ (i ∉ order ∧ g.dependencies i ⊆ order) ∧
      ∀ k < i, ¬(k ∉ order ∧ g.dependencies k ⊆ order) := by
  obtain ⟨ready, inside, first⟩ := find?_range_eq_some.mp found
  simp only [Bool.and_eq_true, decide_eq_true_eq, all_eq_true] at ready
  refine ⟨mem_range.mp inside, ready, fun k below => ?_⟩
  have passed := first k below
  simp only [Bool.not_eq_true', ← Bool.not_eq_true, Bool.and_eq_true, decide_eq_true_eq,
    all_eq_true] at passed
  exact passed

theorem emitted_emit {fuel : Nat} {order : List Nat} (emitted : g.Emitted order) :
    g.Emitted (g.emit fuel order) := by
  induction fuel generalizing order with
  | zero => exact emitted
  | succ fuel ih =>
    rw [emit]
    split
    · exact emitted
    · rename_i i found
      obtain ⟨inside, ⟨new, reads⟩, -⟩ := find_ready found
      refine ih ⟨?_, ?_, ?_, ?_⟩
      · refine nodup_append.mpr ⟨emitted.once, nodup_singleton i, fun a mem b here same => ?_⟩
        exact new (mem_singleton.mp here ▸ same ▸ mem)
      · exact append_subset.mpr ⟨emitted.inside, by simpa using inside⟩
      · intro k mem
        rcases mem_append.mp mem with old | here
        · exact subset_append_of_subset_left _ (emitted.closed k old)
        · rw [mem_singleton.mp here]
          exact subset_append_of_subset_left _ reads
      · refine pairwise_append.mpr ⟨emitted.before, pairwise_singleton .., fun a mem b here => ?_⟩
        rw [mem_singleton.mp here]
        exact fun read => new (emitted.closed a mem read)

/-- **The least ready node comes first**: from a beginning of an order, what follows is as long as the
rest of the order, and not greater. -/
theorem emit_least {order rest : List Nat} (arranged : g.Arranged (order ++ rest)) :
    ∃ out, g.emit rest.length order = order ++ out ∧ out.length = rest.length ∧
      (out = rest ∨ List.Lex (· < ·) out rest) := by
  generalize size : rest.length = fuel
  induction fuel generalizing order rest with
  | zero => exact ⟨[], (append_nil _).symm, rfl, .inl (length_eq_zero_iff.mp size).symm⟩
  | succ fuel ih =>
    obtain ⟨k, rest, rfl⟩ := exists_cons_of_length_eq_add_one size
    have listed : ∀ {i}, i < g.nodes.length → i ∈ order ++ k :: rest := fun inside =>
      arranged.all.mem_iff.mpr (mem_range.mpr inside)
    obtain ⟨-, once, apart⟩ := nodup_append.mp (arranged.all.nodup_iff.mpr nodup_range)
    obtain ⟨beginning, own, across⟩ := pairwise_append.mp arranged.before
    have ready : k ∉ order ∧ g.dependencies k ⊆ order := by
      refine ⟨fun mem => apart k mem k mem_cons_self rfl, fun j read => ?_⟩
      obtain ⟨inside, other⟩ := dependencies_spec read
      refine (mem_append.mp (listed inside)).resolve_right fun later => ?_
      exact rel_of_pairwise_cons own ((mem_cons.mp later).resolve_left other) read
    have small : k < g.nodes.length :=
      mem_range.mp (arranged.all.mem_iff.mp (mem_append_right _ mem_cons_self))
    rw [emit]
    split
    · rename_i none_
      have passed := find?_eq_none.mp none_ k (mem_range.mpr small)
      simp only [Bool.and_eq_true, decide_eq_true_eq, all_eq_true] at passed
      exact absurd ready passed
    rename_i i found
    obtain ⟨inside, ⟨new, reads⟩, least⟩ := find_ready found
    have later : i ∈ k :: rest := (mem_append.mp (listed inside)).resolve_left new
    -- the ready node may be moved to the front
    have moved : g.Arranged ((order ++ [i]) ++ (k :: rest).erase i) := by
      rw [append_assoc]
      refine ⟨((perm_cons_erase later).symm.append_left order).trans arranged.all,
        pairwise_append.mpr ⟨beginning, pairwise_cons.mpr ⟨fun b mem read => ?_, ?_⟩, ?_⟩⟩
      · exact apart b (reads read) b (mem_of_mem_erase mem) rfl
      · exact own.sublist erase_sublist
      · intro a mem b here
        rcases mem_cons.mp here with rfl | here
        · exact across a mem b later
        · exact across a mem b (mem_of_mem_erase here)
    have length : ((k :: rest).erase i).length = fuel := by
      rw [length_erase_of_mem later, size, Nat.add_sub_cancel]
    obtain ⟨out, result, same, order_⟩ := ih moved length
    refine ⟨i :: out, by rw [result, append_assoc, singleton_append], by simp [same], ?_⟩
    rcases Nat.lt_trichotomy i k with below | rfl | above
    · exact .inr (.rel below)
    · rw [erase_cons_head] at order_
      exact order_.imp (congrArg _) .cons
    · exact absurd ready (least k above)

/-- **The sort finds the least order there is**, compared position by position, and raises where there
is none. -/
theorem toposort_spec (g : GraphProto) :
    (∃ order, g.Arranged order ∧ (∀ other, g.Arranged other → order = other ∨
        List.Lex (· < ·) order other) ∧
        g.toposort = .ok { g with nodes := order.map fun i => g.nodes.getD i {} }) ∨
      (∀ order, ¬g.Arranged order) ∧
        g.toposort = .error (str "graph contains a cycle; cannot topologically sort") := by
  have emitted : g.Emitted (g.emit g.nodes.length []) :=
    emitted_emit ⟨nodup_nil, nil_subset _, fun _ => nofun, .nil⟩
  have found : ∀ other, g.Arranged other → (g.emit g.nodes.length []).length = g.nodes.length ∧
      (g.emit g.nodes.length [] = other ∨ List.Lex (· < ·) (g.emit g.nodes.length []) other) := by
    intro other arranged
    have size : other.length = g.nodes.length := by
      rw [arranged.all.length_eq, length_range]
    obtain ⟨out, result, same, least⟩ := @emit_least g [] other arranged
    rw [size, nil_append] at result
    rw [result]
    exact ⟨same.trans size, least⟩
  unfold toposort
  dsimp only
  split_ifs with short
  · exact .inr ⟨fun order arranged => short (found order arranged).1, rfl⟩
  · refine .inl ⟨_, ⟨?_, emitted.before⟩, fun other arranged => (found other arranged).2, rfl⟩
    refine (subperm_of_subset emitted.once emitted.inside).perm_of_length_le ?_
    rw [length_range, not_not.mp short]

/-! ## New names -/

end GraphProto

end Vknn.OnnxOptimizer
