import Vknn.Cpu.Operators
import Vknn.Import.KeptNodes

/-!
# Removing identities

An identity whose result is no graph output goes: its readers read its input.  A graph
output keeps its own tensor.  When such an identity copies a tensor that a node has made,
that node writes the output instead, and the other readers of the tensor read the output.
When it copies a graph input, a constant or another graph output, the identity stays, as
the copy.

The nodes are rewired one identity at a time, the removed ones included; they are dropped
at the end.
-/

namespace Vknn.Import

open Dataflow

/-! ## The pass -/

def rewireReads (nodes : List Node) (gone kept : TensorId) : List Node :=
  nodes.map fun nn =>
    { nn with
      inputs := nn.inputs.map (redirect gone kept)
      fusedResidual := redirect gone kept nn.fusedResidual
      fusedBias := redirect gone kept nn.fusedBias }

def rewireWrites (gone kept : TensorId) (nn : Node) : Node :=
  { nn with outputs := nn.outputs.map (redirect gone kept) }

/-- The nodes during the pass, and the positions of the removed ones. -/
structure IdentityState where
  nodes : List Node
  remove : List Nat := []

/-- The first other node that writes a tensor. -/
def otherWriter (nodes : List Node) (i : Nat) (t : TensorId) : Option Nat :=
  (List.range nodes.length).find? fun p => p ≠ i && (nodes.getD p {}).outputs.contains t

/-- An identity with both an input and an output. -/
def wholeIdentity (id : Node) : Bool :=
  id.type = .identity && !id.inputs.isEmpty && !id.outputs.isEmpty &&
    id.inputs.headD kNoTensor ≠ kNoTensor && id.outputs.headD kNoTensor ≠ kNoTensor

variable (g : Graph)

/-- Whether a tensor comes from outside, or is a graph output. -/
def fixedTensor (t : TensorId) : Bool :=
  g.isInitializer t || (g.desc t).isInput || g.inputs.contains t || g.outputs.contains t

def identityStep (st : IdentityState) (i : Nat) : IdentityState :=
  match st.nodes[i]? with
  | none => st
  | some id =>
    if !wholeIdentity id then st
    else
      let input := id.inputs.headD kNoTensor
      let out := id.outputs.headD kNoTensor
      if !g.outputs.contains out then
        { nodes := rewireReads st.nodes out input, remove := i :: st.remove }
      else
        match otherWriter st.nodes i input with
        | none => st
        | some p =>
          if fixedTensor g input then st
          else
            { nodes := rewireReads (st.nodes.modify p (rewireWrites input out)) input out
              remove := i :: st.remove }

/-- Remove the identities that need no copy. -/
def eliminateIdentity : Graph :=
  let st := (List.range g.nodes.length).foldl (identityStep g) { nodes := g.nodes }
  { g with nodes := keptFrom st.remove 0 st.nodes }

end Vknn.Import
