import Vknn.OnnxOptimizer.GraphUtil

/-!
# Folding a batch normalization into the convolution before it

The pass writes the folded weights and bias into the convolution first, and removes the batch
normalization afterwards, if that is safe.  It counts the removals.  Where the removal is refused
the convolution has been rewritten all the same, and the count does not show it.

The arithmetic is a parameter: it takes the four parameters of the normalization, the weights, the
bias and the epsilon, and raises where numpy does.
-/

namespace Vknn.OnnxOptimizer.FoldConvBatchnorm

/-- The folded weights and bias. -/
abbrev Arithmetic := (params : List NdArray) → (weights : NdArray) → (bias : Option NdArray) →
  (epsilon : Option UInt32) → Except Str (NdArray × NdArray)

/-- What the pass finds out about a batch normalization. -/
structure Site where
  conv : Nat
  params : List NdArray
  weights : NdArray
  bias : Option NdArray

/-- The conditions on a batch normalization, and the convolution before it. -/
def site (g : GraphProto) (isProtected : List Str) (node : NodeProto) : Option Site :=
  if 1 < node.outputs.length ∧ node.outputs.tail.any (fun o => o ≠ []) then none
  else
    match g.producer (node.inputs.headD []) with
    | none => none
    | some c =>
      let conv := g.nodes.getD c {}
      let between := conv.outputs.headD []
      if conv.opType ≠ str "Conv" ∨ conv.group.getD 1 ≠ 1 then none
      else if g.useCount between ≠ 1 ∨ between ∈ g.outputNames ∨ between ∈ isProtected then none
      else if node.inputs.length < 5 then none
      else
        let bias :=
          if 2 < conv.inputs.length ∧ conv.inputs.getD 2 [] ≠ [] then
            g.constArray (conv.inputs.getD 2 [])
          else none
        match g.constArray (conv.inputs.getD 1 []),
            ((node.inputs.drop 1).take 4).mapM g.constArray with
        | some weights, some params => some ⟨c, params, weights, bias⟩
        | _, _ => none

/-- Write the folded weights and bias into the convolution. -/
def rewriteConv (g : GraphProto) (c : Nat) (folded : NdArray × NdArray) : GraphProto :=
  let conv := g.nodes.getD c {}
  let wName := g.uniqueName (conv.inputs.getD 1 [] ++ str "_bnfold")
  let bName := g.uniqueName (conv.outputs.headD [] ++ str "_bnfold_bias")
  let inputs := conv.inputs.set 1 wName
  { g with
    initializers := g.initializers ++ [(wName, folded.1), (bName, folded.2)]
    nodes := g.nodes.set c
      { conv with inputs := if 2 < inputs.length then inputs.set 2 bName else inputs ++ [bName] } }

/-- Fold the batch normalizations from a position on. -/
def foldFrom (arithmetic : Arithmetic) (isProtected : List Str) :
    Nat → Nat → GraphProto → Int → Except (Str × GraphProto) (Int × GraphProto)
  | 0, _, g, changes => .ok (changes, g)
  | fuel + 1, i, g, changes =>
    let node := g.nodes.getD i {}
    if node.opType ≠ str "BatchNormalization" then
      foldFrom arithmetic isProtected fuel (i + 1) g changes
    else
      match site g isProtected node with
      | none => foldFrom arithmetic isProtected fuel (i + 1) g changes
      | some s =>
        match arithmetic s.params s.weights s.bias node.epsilon with
        | .error e => .error (e, g)
        | .ok folded =>
          let rewritten := rewriteConv g s.conv folded
          match rewritten.tryBypass i isProtected with
          | some h => foldFrom arithmetic isProtected fuel i h (changes + 1)
          | none => foldFrom arithmetic isProtected fuel (i + 1) rewritten changes

/-- The pass: the count of removed normalizations and the model, or what it raised and the model it
left. -/
def run (arithmetic : Arithmetic) (m : ModelProto) : Except (Str × ModelProto) (Int × ModelProto) :=
  match foldFrom arithmetic m.graph.subgraphRefNames m.graph.nodes.length 0 m.graph 0 with
  | .ok (changes, g) => .ok (changes, { m with graph := g })
  | .error (e, g) => .error (e, { m with graph := g })

end Vknn.OnnxOptimizer.FoldConvBatchnorm
