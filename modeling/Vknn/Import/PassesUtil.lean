import Vknn.Import.KeptNodes
import Vknn.Lib.Wire

/-!
# What the passes share

Reading an integer parameter that a node carries either as an attribute or as a
constant operand, matching a tensor's name against a list of patterns, and counting
the readers of a tensor.

A constant that is not 64-bit is decoded through floating point; that decoding is a
parameter.
-/

namespace Vknn.Import

open List

/-- The 64-bit integers a buffer holds. -/
def hostInts (hb : HostBuffer) : List Int :=
  (List.range (hb.length / 8)).map fun (k : Nat) => Wire.leInt 8 ((hb.drop (8 * k)).take 8)

/-- How a constant of another element type is read as integers. -/
abbrev FloatInts := TensorDesc → HostBuffer → List Int

/-- Read a parameter: the attribute if it is there, else the operand if it is constant. -/
def readI64Param (floatInts : FloatInts) (g : Graph) (nd : Node) (attrName : Str)
    (inputIdx : Nat) : List Int :=
  let av := nd.attr.getints attrName
  if !av.isEmpty then av
  else
    let t := nd.inputs.getD inputIdx kNoTensor
    if inputIdx < nd.pwCoreInputs ∧ t ≠ kNoTensor then
      match g.initializers[t]? with
      | some hb => if (g.desc t).dtype = .int64 then hostInts hb else floatInts (g.desc t) hb
      | none => []
    else []

/-- Whether a string occurs in another. -/
def occursIn (s nm : Str) : Bool :=
  (List.range (nm.length + 1)).any fun i => s.isPrefixOf (nm.drop i)

/-- Whether a name matches a comma list of substrings; one after a minus sign excludes. -/
def fp32NameMatch (nm substrs : Str) : Bool :=
  if nm.isEmpty || substrs.isEmpty then false
  else
    let entries := (substrs.splitOn 44).filter fun s => !s.isEmpty
    let excl := (entries.filter fun s => s.headD 0 = 45).map fun s => s.drop 1
    let incl := entries.filter fun s => s.headD 0 ≠ 45
    if excl.any fun s => occursIn s nm then false
    else incl.any fun s => occursIn s nm

/-- How many operands of the nodes a tensor is. -/
def consumers (nodes : List Node) (t : TensorId) : Nat :=
  (nodes.map fun nd => nd.inputs.count t).sum

/-- The positions of the nodes that read a tensor, once for each operand. -/
def readersOf (g : Graph) (t : TensorId) : List Nat :=
  g.nodes.zipIdx.flatMap fun nd => (nd.1.inputs.filter (· = t)).map fun _ => nd.2

/-! ## Counting readers -/

variable {t : TensorId} {n : Node} {nodes : List Node}

variable {i j k : Nat} {a b : Node} {σ : TensorId → TensorId}

theorem mem_readersOf {g : Graph} (here : g.nodes[k]? = some n)
    (listed : t ∈ n.inputs) : k ∈ readersOf g t := by
  refine mem_flatMap.mpr ⟨(n, k), mem_zipIdx_iff_getElem?.mpr here, ?_⟩
  exact mem_map.mpr ⟨t, mem_filter.mpr ⟨listed, by simp⟩, rfl⟩

theorem consumers_append (nodes later : List Node) (t : TensorId) :
    consumers (nodes ++ later) t = consumers nodes t + consumers later t := by
  simp [consumers]

theorem consumers_cons (nd : Node) (nodes : List Node) (t : TensorId) :
    consumers (nd :: nodes) t = nd.inputs.count t + consumers nodes t := by
  simp [consumers]

theorem not_mem_inputs_of_consumers
    (none : consumers nodes t = 0) (mem : n ∈ nodes) : t ∉ n.inputs := by
  intro read
  have zero := sum_eq_zero_iff.mp none (n.inputs.count t) (mem_map_of_mem mem)
  exact count_eq_zero.mp zero read

theorem consumers_pos
    (here : nodes[i]? = some n) (listed : t ∈ n.inputs) : 0 < consumers nodes t :=
  Nat.pos_of_ne_zero fun zero =>
    not_mem_inputs_of_consumers zero (mem_of_getElem? here) listed

/-- A tensor that two nodes read as operands has two readers. -/
theorem two_le_consumers (before : j < k)
    (first : nodes[j]? = some a) (second : nodes[k]? = some b) (read : t ∈ a.inputs)
    (read' : t ∈ b.inputs) : 2 ≤ consumers nodes t := by
  obtain ⟨front, between, back, rfl, -, -⟩ := exists_split before first second
  have one := count_pos_iff.mpr read
  have one' := count_pos_iff.mpr read'
  simp only [consumers_append, consumers_cons]
  omega

/-- What is consumed once is an operand of one node. -/
theorem consumer_unique (once : consumers nodes t ≤ 1)
    (here : nodes[i]? = some a) (listed : t ∈ a.inputs) (there : nodes[j]? = some b)
    (listed' : t ∈ b.inputs) : i = j := by
  rcases Nat.lt_trichotomy i j with less | same | more
  · have two := two_le_consumers less here there listed listed'
    omega
  · exact same
  · have two := two_le_consumers more there here listed' listed
    omega

theorem count_map_of_alone (alone : ∀ s, σ s = t ↔ s = t)
    (ts : List TensorId) : (ts.map σ).count t = ts.count t := by
  rw [count_eq_countP, count_eq_countP, countP_map]
  refine countP_congr fun s _ => ?_
  simp only [Function.comp_apply, beq_iff_eq, alone]

theorem consumers_of_alone (alone : ∀ s, σ s = t ↔ s = t)
    {nodes' : List Node}
    (inputs : nodes'.map (·.inputs) = nodes.map fun n => n.inputs.map σ) :
    consumers nodes' t = consumers nodes t := by
  have each : ∀ ns : List Node,
      consumers ns t = ((ns.map (·.inputs)).map fun l => l.count t).sum := by
    intro ns
    rw [consumers, map_map]
    rfl
  rw [each, each, inputs, map_map, map_map]
  refine congrArg List.sum (map_congr_left fun n _ => ?_)
  exact count_map_of_alone alone n.inputs

end Vknn.Import
