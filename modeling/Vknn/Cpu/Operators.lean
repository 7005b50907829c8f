import Vknn.Cpu.Execution
import Vknn.Lib.Renaming

/-!
# Running operators on tensors

Here a tensor has any values at all: a shape, an element type and elements, say.  A kernel
sees its node without the tensors that the node names, the shape and the element type in the
descriptor of the first output, and what the operands hold.  So a node computes the same
under other names.  An identity copies its input, bytes, shape and element type.
-/

namespace Vknn.Cpu

open List Dataflow

/-- What a kernel sees of a node. -/
structure Operation where
  type : OpType
  name : Str
  attr : Attributes
  fusedAct : ActType
  actLo : Float32Bits
  actHi : Float32Bits
  subOp : Int
  wanted : List Bool
  outShape : Shape
  outType : DType
deriving DecidableEq

/-- The kernels on tensors, and a tensor that nobody computed. -/
structure Operators (V : Type) where
  unset : V
  apply : Operation → List (Option V) → Option V → Option V → List V

def operation (g : Graph) (nd : Node) : Operation where
  type := nd.type
  name := nd.name
  attr := nd.attr
  fusedAct := nd.fusedAct
  actLo := nd.actLo
  actHi := nd.actHi
  subOp := nd.subOp
  wanted := nd.outputs.map fun o => o ≠ kNoTensor
  outShape := (g.desc (nd.outputs.headD kNoTensor)).shape
  outType := (g.desc (nd.outputs.headD kNoTensor)).dtype

/-- An identity with an input, and without an epilogue. -/
def plainIdentity (nd : Node) : Bool :=
  nd.type = .identity && !nd.inputs.isEmpty && nd.inputs.headD kNoTensor ≠ kNoTensor &&
    !nd.attr.has (str "pw_steps")

variable {V : Type} (K : Operators V) (g : Graph)

def tensorOf (e : TensorId → V) (t : TensorId) : Option V := if t = kNoTensor then none else some (e t)

variable {e : TensorId → V} {t : TensorId} {nd : Node}

theorem tensorOf_present (present : t ≠ kNoTensor) : tensorOf e t = some (e t) := if_neg present

/-- What a node computes, one tensor for each output. -/
def runOperator (nd : Node) (e : TensorId → V) : List V :=
  if plainIdentity nd then [e (nd.inputs.headD kNoTensor)]
  else
    K.apply (operation g nd) (nd.inputs.map (tensorOf e)) (tensorOf e nd.fusedResidual)
      (tensorOf e nd.fusedBias)

variable {K g}

variable {e' : TensorId → V} {n : Node} {o : TensorId}

theorem tensorOf_congr (agree : ∀ t ∈ readsOf nd, e t = e' t)
    (mem : t ∈ nd.reads) : tensorOf e t = tensorOf e' t := by
  unfold tensorOf
  split
  · rfl
  · rename_i present
    rw [agree t (mem_readsOf.mpr ⟨mem, present⟩)]

theorem runOperator_congr
    (agree : ∀ t ∈ readsOf nd, e t = e' t) : runOperator K g nd e = runOperator K g nd e' := by
  unfold runOperator
  split
  · rename_i plain
    simp only [plainIdentity, Bool.and_eq_true, decide_eq_true_eq] at plain
    have present := plain.1.2
    rw [agree _ (mem_readsOf_of_input (headD_mem present) present)]
  · have operands : nd.inputs.map (tensorOf e) = nd.inputs.map (tensorOf e') :=
      map_congr_left fun t mem => tensorOf_congr agree (mem_append_left _ mem)
    rw [operands, tensorOf_congr agree (mem_append_right _ mem_cons_self),
      tensorOf_congr agree (mem_append_right _ (mem_cons_of_mem _ mem_cons_self))]

variable (K g)

/-- Nodes as instructions that compute tensors. -/
def operatorMachine : Machine Node TensorId V where
  toSignature := signature
  value nd e t := (runOperator K g nd e).getD (nd.outputs.idxOf t) K.unset
  depends nd e e' agree t _ := by rw [runOperator_congr agree]

def perform (nodes : List Node) (e : TensorId → V) : TensorId → V :=
  (operatorMachine K g).run nodes e

variable {K g}

theorem writes_single (outputs : n.outputs = [o]) (written : t ∈ writesOf n) : t = o := by
  have mem := (mem_filter.mp written).1
  rwa [outputs, mem_singleton] at mem

theorem value_single {E : TensorId → V}
    (outputs : n.outputs = [o]) (other : n.type ≠ .identity) :
    (operatorMachine K g).value n E o = (K.apply (operation g n) (n.inputs.map (tensorOf E))
      (tensorOf E n.fusedResidual) (tensorOf E n.fusedBias)).getD 0 K.unset := by
  have plain : plainIdentity n = false := by simp [plainIdentity, other]
  change (runOperator K g n E).getD (n.outputs.idxOf o) K.unset = _
  rw [runOperator, plain, if_neg Bool.false_ne_true, outputs, idxOf_cons_self]

variable (K g)

/-! ## Other names -/

/-- A node that uses one name for two. -/
def renameNode (gone kept : TensorId) (nd : Node) : Node :=
  { nd with
    inputs := nd.inputs.map (redirect gone kept)
    outputs := nd.outputs.map (redirect gone kept)
    fusedResidual := redirect gone kept nd.fusedResidual
    fusedBias := redirect gone kept nd.fusedBias }

/-- Two tensors with descriptors of the same shape and element type. -/
def SameType (s t : TensorId) : Prop :=
  (g.desc s).shape = (g.desc t).shape ∧ (g.desc s).dtype = (g.desc t).dtype

variable {K g} {gone kept : TensorId}

theorem redirect_ne_none (present : gone ≠ kNoTensor) (present' : kept ≠ kNoTensor) (t : TensorId) :
    redirect gone kept t ≠ kNoTensor ↔ t ≠ kNoTensor := by
  unfold redirect
  split
  · rename_i goes
    subst goes
    exact iff_of_true present' present
  · exact Iff.rfl

theorem filter_map_redirect (present : gone ≠ kNoTensor) (present' : kept ≠ kNoTensor)
    (ts : List TensorId) :
    (ts.map (redirect gone kept)).filter (· ≠ kNoTensor) =
      (ts.filter (· ≠ kNoTensor)).map (redirect gone kept) := by
  rw [filter_map]
  congr 1
  refine filter_congr fun t _ => ?_
  exact decide_eq_decide.mpr (redirect_ne_none present present' t)

theorem renames_renameNode (present : gone ≠ kNoTensor) (present' : kept ≠ kNoTensor) (nd : Node) :
    signature.Renames (redirect gone kept) nd (renameNode gone kept nd) := by
  refine ⟨?_, filter_map_redirect present present' nd.outputs⟩
  change ((renameNode gone kept nd).reads).filter (· ≠ kNoTensor) = _
  have reads : (renameNode gone kept nd).reads = nd.reads.map (redirect gone kept) := by
    rw [Node.reads, Node.reads, map_append]
    rfl
  rw [reads]
  exact filter_map_redirect present present' nd.reads

theorem tensorOf_redirect (present : gone ≠ kNoTensor) (present' : kept ≠ kNoTensor)
    (e : TensorId → V) (t : TensorId) :
    tensorOf e (redirect gone kept t) = tensorOf (fun s => e (redirect gone kept s)) t := by
  have same := redirect_ne_none present present' t
  unfold tensorOf
  split
  · rename_i absent
    rw [if_pos (by_contra fun there => same.mpr there absent)]
  · rename_i there
    rw [if_neg (same.mp there)]

theorem operation_renameNode (present : gone ≠ kNoTensor) (present' : kept ≠ kNoTensor)
    (same : SameType g gone kept ∨ gone ∉ nd.outputs) :
    operation g (renameNode gone kept nd) = operation g nd := by
  have wanted : (nd.outputs.map (redirect gone kept)).map (fun o => decide (o ≠ kNoTensor)) =
      nd.outputs.map fun o => decide (o ≠ kNoTensor) := by
    rw [map_map]
    refine map_congr_left fun t _ => ?_
    exact decide_eq_decide.mpr (redirect_ne_none present present' t)
  have head : SameType g ((nd.outputs.map (redirect gone kept)).headD kNoTensor)
      (nd.outputs.headD kNoTensor) := by
    cases shape : nd.outputs with
    | nil => exact ⟨rfl, rfl⟩
    | cons o rest =>
      change SameType g (redirect gone kept o) o
      unfold redirect
      split
      · rename_i goes
        rcases same with types | absent
        · rw [goes]
          exact ⟨types.1.symm, types.2.symm⟩
        · rw [shape, ← goes] at absent
          exact absurd mem_cons_self absent
      · exact ⟨rfl, rfl⟩
  unfold operation
  rw [Operation.mk.injEq]
  exact ⟨rfl, rfl, rfl, rfl, rfl, rfl, rfl, wanted, head.1, head.2⟩

/-- **A node computes the same under other names.** -/
theorem runOperator_renameNode (present : gone ≠ kNoTensor) (present' : kept ≠ kNoTensor)
    (same : SameType g gone kept ∨ gone ∉ nd.outputs) (e : TensorId → V) :
    runOperator K g (renameNode gone kept nd) e =
      runOperator K g nd fun s => e (redirect gone kept s) := by
  have operands : (renameNode gone kept nd).inputs.map (tensorOf e) =
      nd.inputs.map (tensorOf fun s => e (redirect gone kept s)) := by
    change (nd.inputs.map (redirect gone kept)).map (tensorOf e) = _
    rw [map_map]
    exact map_congr_left fun t _ => tensorOf_redirect present present' e t
  have plain : plainIdentity (renameNode gone kept nd) = plainIdentity nd := by
    cases shape : nd.inputs with
    | nil => simp [plainIdentity, renameNode, shape]
    | cons t rest =>
      have there := redirect_ne_none present present' t
      simp [plainIdentity, renameNode, shape, not_iff_not.mp there]
  unfold runOperator
  rw [plain, operands, operation_renameNode present present' same]
  change (if plainIdentity nd = true then
    [e ((nd.inputs.map (redirect gone kept)).headD kNoTensor)] else
      K.apply (operation g nd) _ (tensorOf e (redirect gone kept nd.fusedResidual))
        (tensorOf e (redirect gone kept nd.fusedBias))) = _
  rw [tensorOf_redirect present present', tensorOf_redirect present present']
  split
  · rename_i identity
    cases shape : nd.inputs with
    | nil => simp [plainIdentity, shape] at identity
    | cons t rest => rfl
  · rfl

end Vknn.Cpu
