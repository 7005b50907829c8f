import Vknn.Import.MatMulViewReads

/-!
# Folded products compute what they computed

Each node is looked at once, and a product that can be folded is replaced in place.  A
fold looks only at nodes that are no products, so all folds can be described by the
nodes the pass started with.

A folded product reads the sources of its chains.  It computes what it computed exactly
when its views follow its chains.  They do not when a chain begins at a tensor whose
shape is still unknown: the descriptor has no dimensions then, the composed view does not
move, and every coordinate reads the first element.
-/

namespace Vknn.Import

open List
open Or (inl inr)
open Cpu (Kernels epilogueSources execute finish matrixProduct readAt readsOf runNode writesOf)

variable {α : Type} {K : Kernels α} {g r : Graph} {fp32Pins : Str}

/-! ## All folds at once -/

def foldNode (g : Graph) (fp32Pins : Str) (nd : Node) : Node :=
  match foldOperands g fp32Pins g.nodes nd with
  | some (a, b, v) => stampView nd a.source b.source v
  | none => nd

/-- Lists of nodes that differ in products only. -/
def SameChains (nodes nodes' : List Node) : Prop :=
  ∀ p : Nat, nodes'[p]? = nodes[p]? ∨
    ∃ n n', nodes[p]? = some n ∧ nodes'[p]? = some n' ∧ n.type = .matMul ∧ n'.type = .matMul

variable {nodes nodes' : List Node} {nd : Node} {a b found : OperandView} {v : MatMulView}
  {operand : TensorId} {shape : Shape}

theorem chainNode_congr (same : SameChains nodes nodes')
    (src : TensorId) : chainNode g fp32Pins nodes' src = chainNode g fp32Pins nodes src := by
  unfold chainNode
  cases producerOf g g.nodes src with
  | none => rfl
  | some p =>
    rcases same p with equal | ⟨n, n', here, here', type, type'⟩
    · simp only [bind, Option.bind_some, equal]
    · have out : chainOp n.type = false := by rw [type]; rfl
      have out' : chainOp n'.type = false := by rw [type']; rfl
      simp [bind, here, here', out, out']

theorem walkChain_congr (same : SameChains nodes nodes') (fuel : Nat)
    (src : TensorId) : walkChain g fp32Pins nodes' fuel src = walkChain g fp32Pins nodes fuel src := by
  induction fuel generalizing src with
  | zero => rfl
  | succ fuel ih =>
    rw [walkChain, walkChain, chainNode_congr same]
    cases chainNode g fp32Pins nodes src with
    | none => rfl
    | some nd =>
      dsimp only
      rw [ih]

theorem foldOperands_congr (same : SameChains nodes nodes') (nd : Node) :
    foldOperands g fp32Pins nodes' nd = foldOperands g fp32Pins nodes nd := by
  have resolved : ∀ t, resolveOperand g fp32Pins nodes' t = resolveOperand g fp32Pins nodes t := by
    intro t
    unfold resolveOperand
    rw [walkChain_congr same]
  unfold foldOperands
  simp only [resolved]

theorem type_of_foldOperands {fold : OperandView × OperandView × MatMulView}
    (found : foldOperands g fp32Pins g.nodes nd = some fold) : nd.type = .matMul := by
  unfold foldOperands at found
  simp only [bind, Option.bind_eq_some_iff, Option.guard_eq_some', Bool.and_eq_true,
    decide_eq_true_eq] at found
  obtain ⟨-, ⟨⟨type, -⟩, -⟩, -⟩ := found
  exact type

theorem foldNode_cases (nd : Node) : foldNode g fp32Pins nd = nd ∨
    nd.type = .matMul ∧ (foldNode g fp32Pins nd).type = .matMul := by
  unfold foldNode
  split
  · rename_i a b v found
    have type := type_of_foldOperands found
    exact inr ⟨type, type⟩
  · exact inl rfl

/-- **The pass folds every node by itself.** -/
theorem nodes_viewStep (fp32Pins : Str) (n : Nat) (small : n ≤ g.nodes.length) :
    ((List.range n).foldl (viewStep g fp32Pins) { nodes := g.nodes }).nodes =
      (g.nodes.take n).map (foldNode g fp32Pins) ++ g.nodes.drop n := by
  induction n with
  | zero => rfl
  | succ n ih =>
    have before := ih (Nat.le_of_succ_le small)
    rw [range_succ, foldl_append, foldl_cons, foldl_nil]
    generalize (List.range n).foldl (viewStep g fp32Pins) { nodes := g.nodes } = st at before ⊢
    have inside : n < g.nodes.length := small
    have length : ((g.nodes.take n).map (foldNode g fp32Pins)).length = n := by
      rw [length_map, length_take, Nat.min_eq_left inside.le]
    have here : st.nodes[n]? = some g.nodes[n] := by
      rw [before, getElem?_append_right length.le, length, Nat.sub_self, getElem?_drop,
        Nat.add_zero, getElem?_eq_getElem inside]
    have same : SameChains g.nodes st.nodes := by
      intro p
      by_cases done : p < n
      · have there : p < g.nodes.length := done.trans inside
        have folded : st.nodes[p]? = some (foldNode g fp32Pins g.nodes[p]) := by
          rw [before, getElem?_append_left (length.symm ▸ done), getElem?_map,
            getElem?_take_of_lt done, getElem?_eq_getElem there]
          rfl
        rw [folded, getElem?_eq_getElem there]
        rcases foldNode_cases (g := g) g.nodes[p] with kept | ⟨type, type'⟩
        · rw [kept]
          exact inl rfl
        · exact inr ⟨_, _, rfl, rfl, type, type'⟩
      · refine inl ?_
        rw [before, getElem?_append_right (by omega), length, getElem?_drop,
          Nat.add_sub_cancel' (by omega)]
    have stepped : (viewStep g fp32Pins st n).nodes =
        st.nodes.set n (foldNode g fp32Pins g.nodes[n]) := by
      unfold viewStep foldNode
      rw [here]
      dsimp only
      rw [foldOperands_congr same]
      cases foldOperands g fp32Pins g.nodes g.nodes[n] with
      | none =>
        obtain ⟨inSt, atSt⟩ := List.getElem?_eq_some_iff.mp here
        dsimp only
        rw [← atSt, set_getElem_self]
      | some fold => rfl
    rw [stepped, before, set_append_right _ _ length.le, length, Nat.sub_self,
      drop_eq_getElem_cons inside, set_cons_zero, take_succ_eq_append_getElem inside,
      map_append, append_assoc]
    rfl

/-- The graph before the removal of dead nodes. -/
def foldedGraph (g : Graph) (fp32Pins : Str) : Graph :=
  { g with nodes := g.nodes.map (foldNode g fp32Pins) }

theorem foldMatMulViews_eq (g : Graph) (fp32Pins : Str) :
    foldMatMulViews g fp32Pins = foldedGraph g fp32Pins ∨
      foldMatMulViews g fp32Pins = eliminateDeadNodes (foldedGraph g fp32Pins) := by
  have nodes := nodes_viewStep fp32Pins g.nodes.length (Nat.le_refl _)
  rw [take_length, drop_length, append_nil] at nodes
  unfold foldMatMulViews foldedGraph
  dsimp only
  rw [nodes]
  split
  · exact inl rfl
  · exact inr rfl

/-! ## What the pass and the run rely on -/

/-- A graph the pass is run on: its nodes are in order, nodes that only move elements have an operand
to move and nothing folded into them yet, and the epilogue of a product names appended operands. -/
structure ViewReady (g : Graph) : Prop where
  ordered : Cpu.signature.Ordered g.nodes
  movers : ∀ nd ∈ g.nodes, chainOp nd.type = true → bareChainNode nd = true →
    dataOf nd ≠ kNoTensor ∧ nd.attr.has (str "view_stride") = false ∧
      nd.attr.has (str "pw_outs") = false
  epilogues : ∀ nd ∈ g.nodes, nd.type = .matMul → ∀ i, some i ∈ epilogueSources nd → 2 ≤ i

/-- The operands of a product can be multiplied, and the output has the shape of the product. -/
structure ProductFits (r : Graph) (nd : Node) : Prop where
  inner : Cpu.dimFromEnd (shapeIn r (nd.inputs.getD 0 kNoTensor)) 1 =
    Cpu.dimFromEnd (shapeIn r (nd.inputs.getD 1 kNoTensor)) 2
  batch : ∀ br, br + 2 = max (shapeIn r (nd.inputs.getD 0 kNoTensor)).length
      (shapeIn r (nd.inputs.getD 1 kNoTensor)).length →
    List.Forall₂ Broadcasts (Cpu.batchDims br (shapeIn r (nd.inputs.getD 0 kNoTensor)))
      (Cpu.batchDims br (shapeIn r (nd.inputs.getD 1 kNoTensor)))
  output : shapeIn r (nd.outputs.headD kNoTensor) =
    Cpu.matmulShape (shapeIn r (nd.inputs.getD 0 kNoTensor))
      (shapeIn r (nd.inputs.getD 1 kNoTensor))

/-- A run of the graph: tensors have the shapes their operators give them, which are those the plan
has resolved. -/
structure ViewRun (K : Kernels α) (g r : Graph) (e : TensorId → List α) : Prop where
  resolves : Resolves g r
  sized : Sized r
  moves : ∀ nd ∈ g.nodes, chainOp nd.type = true → bareChainNode nd = true →
    MoveFits K r nd (execute K r g.nodes e)
  products : ∀ nd ∈ g.nodes, nd.type = .matMul →
    2 ≤ (shapeIn r (nd.inputs.getD 0 kNoTensor)).length →
    2 ≤ (shapeIn r (nd.inputs.getD 1 kNoTensor)).length → ProductFits r nd

/-! ## Chains of operands -/

/-- The chain an operand is folded along; none where the operand stays. -/
def foldedChain (g : Graph) (fp32Pins : Str) (operand : TensorId) : List Node :=
  if (resolveOperand g fp32Pins g.nodes operand).folded then
    (walkChain g fp32Pins g.nodes kMaxChain operand).1
  else []

theorem chainNode_eq_some {src : TensorId}
    (found : chainNode g fp32Pins g.nodes src = some nd) :
    ∃ p : Nat, g.nodes[p]? = some nd ∧ src ∈ writesOf nd ∧ chainOp nd.type = true ∧
      bareChainNode nd = true := by
  unfold chainNode at found
  simp only [bind, Option.bind_eq_some_iff, Option.guard_eq_some', pure, Option.some.injEq,
    Bool.and_eq_true] at found
  obtain ⟨p, writer, n, here, -, ⟨⟨type, -⟩, bare⟩, -, -, rfl⟩ := found
  obtain ⟨n', here', written⟩ := writes_of_producerOf writer
  obtain rfl := Option.some.inj (here'.symm.trans here)
  exact ⟨p, here, written, type, bare⟩

theorem resultOf_of_bare (bare : bareChainNode nd = true) {t : TensorId}
    (written : t ∈ writesOf nd) : resultOf nd = t := by
  simp only [bareChainNode, Bool.and_eq_true, decide_eq_true_eq] at bare
  obtain ⟨o, only⟩ := length_eq_one_iff.mp bare.2
  obtain ⟨mem, -⟩ := Cpu.mem_writesOf.mp written
  rw [only, mem_singleton] at mem
  rw [resultOf, only, mem]
  rfl

/-- **A walk finds a chain** of nodes that move elements, each before the reader of what it made. -/
theorem walkChain_made (ready : ViewReady g) (fp32Pins : Str) (fuel : Nat) (src : TensorId) :
    Chain src (walkChain g fp32Pins g.nodes fuel src).1 (walkChain g fp32Pins g.nodes fuel src).2 ∧
      (∀ nd ∈ (walkChain g fp32Pins g.nodes fuel src).1, nd ∈ g.nodes ∧ ChainNode nd) ∧
      ∀ (j : Nat) (n : Node), g.nodes[j]? = some n → src ∈ readsOf n →
        (walkChain g fp32Pins g.nodes fuel src).2 ∈ readsOf n ∨ ∃ i < j, ∃ p, g.nodes[i]? = some p ∧
            (walkChain g fp32Pins g.nodes fuel src).2 ∈ readsOf p := by
  induction fuel generalizing src with
  | zero => exact ⟨.nil src, fun nd mem => (nomatch mem), fun j n _ read => inl read⟩
  | succ fuel ih =>
    rw [walkChain]
    cases found : chainNode g fp32Pins g.nodes src with
    | none => exact ⟨.nil src, fun nd mem => (nomatch mem), fun j n _ read => inl read⟩
    | some nd =>
      obtain ⟨p, here, written, type, bare⟩ := chainNode_eq_some found
      have mem := mem_of_getElem? here
      obtain ⟨data, unfolded, single⟩ := ready.movers nd mem type bare
      obtain rfl := resultOf_of_bare bare written
      have node : ChainNode nd :=
        ⟨type, bare, data, (Cpu.mem_writesOf.mp written).2, unfolded, single⟩
      obtain ⟨made, nodes, earlier⟩ := ih (nd.inputs.headD kNoTensor)
      refine ⟨.cons made, forall_mem_cons.mpr ⟨⟨mem, node⟩, nodes⟩, ?_⟩
      intro j n reader read
      refine inr ?_
      have before := written_before ready.ordered here written reader read
      have operand : nd.inputs.headD kNoTensor ∈ readsOf nd :=
        Cpu.mem_readsOf_of_input (Cpu.headD_mem data) data
      rcases earlier p nd here operand with own | ⟨i, small, q, there, other⟩
      · exact ⟨p, before, nd, here, own⟩
      · exact ⟨i, small.trans before, q, there, other⟩

/-- What an operand is resolved to. -/
structure Resolved (g : Graph) (fp32Pins : Str) (operand : TensorId) (found : OperandView) : Prop where
  made : Chain operand (foldedChain g fp32Pins operand) found.source
  composed : composeChain g found.source (foldedChain g fp32Pins operand) = some found.view
  nodes : ∀ nd ∈ foldedChain g fp32Pins operand, nd ∈ g.nodes ∧ ChainNode nd
  still : found.folded = false → found.source = operand
  earlier : ∀ (j : Nat) (n : Node), g.nodes[j]? = some n → operand ∈ readsOf n →
    found.source ∈ readsOf n ∨ ∃ i < j, ∃ p, g.nodes[i]? = some p ∧ found.source ∈ readsOf p

theorem resolveOperand_resolved (ready : ViewReady g) (fp32Pins : Str) (operand : TensorId) :
    Resolved g fp32Pins operand (resolveOperand g fp32Pins g.nodes operand) := by
  obtain ⟨made, nodes, earlier⟩ := walkChain_made ready fp32Pins kMaxChain operand
  -- An operand that stays has no chain.
  have stays : ∀ found : OperandView, resolveOperand g fp32Pins g.nodes operand = found →
      found = ⟨denseView (g.desc operand).shape, operand, false⟩ →
      Resolved g fp32Pins operand found := by
    rintro found resolved rfl
    have none : foldedChain g fp32Pins operand = [] := by
      unfold foldedChain
      rw [resolved]
      rfl
    refine ⟨none ▸ .nil operand, none ▸ rfl, ?_, fun _ => rfl, fun j n _ read => inl read⟩
    rw [none]
    exact fun nd mem => nomatch mem
  by_cases worth : ((walkChain g fp32Pins g.nodes kMaxChain operand).1.isEmpty ||
      !(walkChain g fp32Pins g.nodes kMaxChain operand).1.any fun nd => moverOp nd.type) = true
  · refine stays _ rfl ?_
    unfold resolveOperand
    dsimp only
    rw [if_pos worth]
  · cases composed : composeChain g (walkChain g fp32Pins g.nodes kMaxChain operand).2
        (walkChain g fp32Pins g.nodes kMaxChain operand).1 with
    | none =>
      refine stays _ rfl ?_
      unfold resolveOperand
      dsimp only
      rw [if_neg worth, composed]
    | some view =>
      have resolved : resolveOperand g fp32Pins g.nodes operand =
          ⟨view, (walkChain g fp32Pins g.nodes kMaxChain operand).2, true⟩ := by
        unfold resolveOperand
        dsimp only
        rw [if_neg worth, composed]
      have chain : foldedChain g fp32Pins operand =
          (walkChain g fp32Pins g.nodes kMaxChain operand).1 := by
        unfold foldedChain
        rw [resolved]
        rfl
      rw [resolved]
      refine ⟨chain ▸ made, chain ▸ composed, chain ▸ nodes, fun no => (nomatch no), earlier⟩

/-! ## A fold in a run -/

/-- What the pass has checked when it folds a product. -/
structure Folds (g : Graph) (fp32Pins : Str) (nd : Node) (a b : OperandView) (v : MatMulView) :
    Prop where
  type : nd.type = .matMul
  dense : nd.attr.has Cpu.kMmView = false
  two : 2 ≤ nd.inputs.length
  twoA : 2 ≤ (shapeIn g (nd.inputs.getD 0 kNoTensor)).length
  twoB : 2 ≤ (shapeIn g (nd.inputs.getD 1 kNoTensor)).length
  positiveA : ∀ d ∈ shapeIn g (nd.inputs.getD 0 kNoTensor), 0 < d
  positiveB : ∀ d ∈ shapeIn g (nd.inputs.getD 1 kNoTensor), 0 < d
  output : shapeIn g (nd.outputs.headD kNoTensor) ≠ []
  first : a = resolveOperand g fp32Pins g.nodes (nd.inputs.getD 0 kNoTensor)
  second : b = resolveOperand g fp32Pins g.nodes (nd.inputs.getD 1 kNoTensor)
  composed : composeMatMulView (shapeIn g (nd.inputs.getD 0 kNoTensor))
    (shapeIn g (nd.inputs.getD 1 kNoTensor)) (shapeIn g (nd.outputs.headD kNoTensor)) a.view b.view =
      some v

theorem folds_of_foldOperands
    (found : foldOperands g fp32Pins g.nodes nd = some (a, b, v)) :
    Folds g fp32Pins nd a b v := by
  unfold foldOperands at found
  simp only [bind, Option.bind_eq_some_iff, Option.guard_eq_some', pure, Option.some.injEq,
    Prod.mk.injEq, Bool.and_eq_true, decide_eq_true_eq, Bool.not_eq_true', staticShape,
    all_eq_true] at found
  obtain ⟨-, ⟨⟨type, -⟩, dense⟩, -, ⟨two, -⟩, -, ⟨⟨twoA, twoB⟩, -⟩, -,
    ⟨⟨⟨positiveA, -⟩, positiveB, -⟩, -, output⟩, -, -, -, -, v, composed, rfl, rfl, rfl⟩ := found
  have axes : shapeIn g (nd.outputs.headD kNoTensor) ≠ [] := by
    intro empty
    rw [shapeIn] at empty
    rw [empty] at output
    cases output
  exact ⟨type, dense, two, twoA, twoB, positiveA, positiveB, axes, rfl, rfl, composed⟩

theorem present_of_shape {t : TensorId} (shape : shapeIn g t ≠ []) : t ≠ kNoTensor := by
  rintro rfl
  exact shape rfl

variable {e : TensorId → List α}

theorem Resolved.fits (run : ViewRun K g r e)
    (resolved : Resolved g fp32Pins operand found) :
    ChainFits K r (foldedChain g fp32Pins operand) (execute K r g.nodes e) := by
  intro nd mem
  obtain ⟨inside, node⟩ := resolved.nodes nd mem
  exact ⟨node, run.moves nd inside node.type node.bare⟩

/-- The operand holds what the chain has copied from the source. -/
theorem Resolved.readAt (ready : ViewReady g) (run : ViewRun K g r e)
    (resolved : Resolved g fp32Pins operand found) {i : Int} (low : 0 ≤ i)
    (high : i < sizeIn r operand) :
    readAt K.zero (execute K r g.nodes e operand) i =
      readAt K.zero (execute K r g.nodes e found.source)
        (chainIndex r (foldedChain g fp32Pins operand) i) := by
  refine resolved.made.readAt run.sized (resolved.fits run) (fun nd mem => ?_) low high
  obtain ⟨inside, node⟩ := resolved.nodes nd mem
  refine Dataflow.Machine.solved_run (M := Cpu.machine K r) ready.ordered e nd inside _ ?_
  refine Cpu.mem_writesOf.mpr ⟨?_, node.result⟩
  rw [node.outputs]
  exact mem_singleton_self _

/-- A source whose shape is known, or that holds one element. -/
def SettledSource (g r : Graph) (found : OperandView) : Prop :=
  found.folded = true → shapeIn g found.source ≠ [] ∨ sizeIn r found.source = 1

/-- The view of an operand follows its chain, from a settled source. -/
theorem Resolved.follows (run : ViewRun K g r e)
    (resolved : Resolved g fp32Pins operand found) (shape : shapeIn g operand ≠ [])
    (some : 0 < sizeIn r operand) (settled : SettledSource g r found) :
    Follows r found.view operand (chainIndex r (foldedChain g fp32Pins operand)) := by
  refine resolved.made.follows run.sized run.resolves (resolved.fits run) some resolved.composed ?_
  cases folded : found.folded with
  | true => exact settled folded
  | false =>
    rw [resolved.still folded]
    exact inl shape

/-- **A view from a source that is not settled does not move**, though the chain reads every element
of the source. -/
theorem Resolved.unsettled (run : ViewRun K g r e)
    (resolved : Resolved g fp32Pins operand found) (some : 0 < sizeIn r operand)
    (unsettled : ¬ SettledSource g r found) : Still found.view ∧ ∃ i, 0 ≤ i ∧ i < sizeIn r operand ∧
        chainIndex r (foldedChain g fp32Pins operand) i = 1 := by
  simp only [SettledSource, Classical.not_imp, not_or, not_not] at unsettled
  obtain ⟨-, unresolved, many⟩ := unsettled
  have fits := resolved.fits run
  have source := resolved.made.source_some run.sized fits some
  refine ⟨still_composeChain unresolved resolved.composed, ?_⟩
  exact (resolved.made.inside run.sized fits some).2 1 Int.one_nonneg (by omega)

theorem Folds.multiplies (run : ViewRun K g r e)
    (mem : nd ∈ g.nodes) (folds : Folds g fp32Pins nd a b v) : ∃ br,
      Multiplies (shapeIn r (nd.inputs.getD 0 kNoTensor)) (shapeIn r (nd.inputs.getD 1 kNoTensor)) br ∧
      composeMatMulView (shapeIn r (nd.inputs.getD 0 kNoTensor))
        (shapeIn r (nd.inputs.getD 1 kNoTensor))
        (Cpu.matmulShape (shapeIn r (nd.inputs.getD 0 kNoTensor))
          (shapeIn r (nd.inputs.getD 1 kNoTensor))) a.view b.view = some v ∧
      ProductFits r nd := by
  have axes : ∀ {s : Shape}, 2 ≤ s.length → s ≠ [] := by
    rintro s two rfl
    exact absurd two (by decide)
  have shapeA := run.resolves _ (axes folds.twoA)
  have shapeB := run.resolves _ (axes folds.twoB)
  have fits := run.products nd mem folds.type (shapeA ▸ folds.twoA) (shapeB ▸ folds.twoB)
  have twoA := folds.twoA
  refine ⟨max (shapeIn r (nd.inputs.getD 0 kNoTensor)).length
    (shapeIn r (nd.inputs.getD 1 kNoTensor)).length - 2, ?_, ?_, fits⟩
  · have rank : max (shapeIn r (nd.inputs.getD 0 kNoTensor)).length
        (shapeIn r (nd.inputs.getD 1 kNoTensor)).length - 2 + 2 =
          max (shapeIn r (nd.inputs.getD 0 kNoTensor)).length
            (shapeIn r (nd.inputs.getD 1 kNoTensor)).length := by
      rw [shapeA]
      omega
    exact ⟨rank, shapeA ▸ folds.twoA, shapeB ▸ folds.twoB, shapeA ▸ folds.positiveA,
      shapeB ▸ folds.positiveB, fits.inner, fits.batch _ rank⟩
  · rw [← fits.output, shapeA, shapeB, run.resolves _ folds.output]
    exact folds.composed

/-- What a folded product is to read: the elements that its chains have copied, position for
position. -/
structure FoldReads (K : Kernels α) (g r : Graph) (fp32Pins : Str) (E : TensorId → List α)
    (nd : Node) (a b : OperandView) (v : MatMulView) : Prop where
  copiedA : ∀ i, 0 ≤ i → i < sizeIn r (nd.inputs.getD 0 kNoTensor) →
    readAt K.zero (E (nd.inputs.getD 0 kNoTensor)) i = readAt K.zero (E a.source)
      (chainIndex r (foldedChain g fp32Pins (nd.inputs.getD 0 kNoTensor)) i)
  copiedB : ∀ i, 0 ≤ i → i < sizeIn r (nd.inputs.getD 1 kNoTensor) →
    readAt K.zero (E (nd.inputs.getD 1 kNoTensor)) i = readAt K.zero (E b.source)
      (chainIndex r (foldedChain g fp32Pins (nd.inputs.getD 1 kNoTensor)) i)
  reads : (Cpu.denseGeometry (shapeIn r (nd.inputs.getD 0 kNoTensor))
      (shapeIn r (nd.inputs.getD 1 kNoTensor))).SameReads
    (Cpu.viewGeometry (stampView nd a.source b.source v))
    (chainIndex r (foldedChain g fp32Pins (nd.inputs.getD 0 kNoTensor)))
    (chainIndex r (foldedChain g fp32Pins (nd.inputs.getD 1 kNoTensor)))

/-- **A folded product reads what the chains have copied** exactly when both sources are settled. -/
theorem Folds.reads_iff (ready : ViewReady g) (run : ViewRun K g r e)
    (mem : nd ∈ g.nodes)
    (folds : Folds g fp32Pins nd a b v) :
    FoldReads K g r fp32Pins (execute K r g.nodes e) nd a b v ↔
      SettledSource g r a ∧ SettledSource g r b := by
  obtain ⟨br, multiplies, composed, -⟩ := folds.multiplies run mem
  have resolvedA := folds.first ▸ resolveOperand_resolved ready fp32Pins
    (nd.inputs.getD 0 kNoTensor)
  have resolvedB := folds.second ▸ resolveOperand_resolved ready fp32Pins
    (nd.inputs.getD 1 kNoTensor)
  have someA : 0 < sizeIn r (nd.inputs.getD 0 kNoTensor) := RowMajor.size_pos multiplies.positiveA
  have someB : 0 < sizeIn r (nd.inputs.getD 1 kNoTensor) := RowMajor.size_pos multiplies.positiveB
  constructor
  · intro foldReads
    obtain ⟨stillA, stillB⟩ := reads_still composed nd a.source b.source
    refine ⟨?_, ?_⟩
    · by_contra unsettled
      obtain ⟨still, i, low, high, position⟩ := resolvedA.unsettled run someA unsettled
      obtain ⟨row, k, lowRow, highRow, lowK, highK, rfl⟩ := multiplies.reads_all_a low high
      have reads := foldReads.reads.a row k lowRow highRow lowK highK
      rw [stillA still, position] at reads
      exact absurd reads (by decide)
    · by_contra unsettled
      obtain ⟨still, i, low, high, position⟩ := resolvedB.unsettled run someB unsettled
      obtain ⟨row, n, k, lowRow, highRow, lowN, highN, lowK, highK, rfl⟩ :=
        multiplies.reads_all_b low high
      have reads := foldReads.reads.b row n k lowRow highRow lowN highN lowK highK
      rw [stillB still, position] at reads
      exact absurd reads (by decide)
  · rintro ⟨settledA, settledB⟩
    have axes : ∀ {s : Shape}, 2 ≤ s.length → s ≠ [] := by
      rintro s two rfl
      exact absurd two (by decide)
    exact ⟨fun i low high => resolvedA.readAt ready run low high,
      fun i low high => resolvedB.readAt ready run low high,
      sameReads_of_follows run.sized multiplies
        (resolvedA.follows run (axes folds.twoA) someA settledA)
        (resolvedB.follows run (axes folds.twoB) someB settledB) composed nd a.source b.source⟩

/-! ## What a stamped product computes -/

theorem has_eq_isSome (attr : Attributes) (k : Str) : attr.has k = attr.map[k]?.isSome :=
  Std.ExtTreeMap.contains_eq_isSome_getElem?

theorem stampView_attr (nd : Node) (x y : TensorId) (v : MatMulView) {k : Str}
    (epilogue : k ∈ [str "pw_steps", str "pw_params", str "pw_outs"]) :
    (stampView nd x y v).attr.map[k]? = nd.attr.map[k]? := by
  simp only [mem_cons, not_mem_nil, or_false] at epilogue
  unfold stampView
  dsimp only
  simp only [Std.ExtTreeMap.getElem?_insert]
  rcases epilogue with rfl | rfl | rfl <;> simp +decide

/-- The epilogue of a stamped product is that of the product, on operands that the stamp leaves. -/
theorem finish_stampView (x y : TensorId) (v : MatMulView)
    (appended : ∀ i, some i ∈ epilogueSources nd → 2 ≤ i) (E : TensorId → List α)
    (Y : Shape × List α) :
    finish K r (stampView nd x y v) E Y = finish K r nd E Y := by
  have steps := stampView_attr nd x y v (k := str "pw_steps") (by decide)
  have params := stampView_attr nd x y v (k := str "pw_params") (by decide)
  have outs := stampView_attr nd x y v (k := str "pw_outs") (by decide)
  have sources : epilogueSources (stampView nd x y v) = epilogueSources nd := by
    unfold epilogueSources Attributes.getints
    rw [steps]
  unfold finish Cpu.applyPwEpilogue
  rw [has_eq_isSome, has_eq_isSome, sources]
  unfold Attributes.getints Attributes.getfloats
  rw [steps, params, outs]
  congr 2
  refine map_congr_left fun source mem => ?_
  cases source with
  | none => rfl
  | some i =>
    have later := appended i mem
    have same : (stampView nd x y v).inputs.getD i kNoTensor = nd.inputs.getD i kNoTensor := by
      change ((nd.inputs.set 0 x).set 1 y).getD i kNoTensor = _
      rw [getD_eq_getElem?_getD, getElem?_set_ne (by omega),
        getElem?_set_ne (by omega), getD_eq_getElem?_getD]
    dsimp only [Option.bind_some]
    rw [same]

theorem Resolved.present
    (resolved : Resolved g fp32Pins operand found) (present : operand ≠ kNoTensor) :
    found.source ≠ kNoTensor := by
  have made := resolved.made
  have nodes : ∀ nd ∈ foldedChain g fp32Pins operand, ChainNode nd :=
    fun nd mem => (resolved.nodes nd mem).2
  clear resolved
  generalize foldedChain g fp32Pins operand = chain at made nodes
  generalize found.source = source at made
  induction made with
  | nil => exact present
  | cons _ ih =>
    exact ih (nodes _ mem_cons_self).data fun nd mem =>
      nodes nd (mem_cons_of_mem _ mem)

/-- **A folded product computes what the product computed**, when both sources are settled. -/
theorem runNode_stampView (ready : ViewReady g) (run : ViewRun K g r e)
    (mem : nd ∈ g.nodes)
    (folds : Folds g fp32Pins nd a b v) (settledA : SettledSource g r a)
    (settledB : SettledSource g r b) :
    runNode K r (stampView nd a.source b.source v) (execute K r g.nodes e) =
      runNode K r nd (execute K r g.nodes e) := by
  obtain ⟨br, multiplies, composed, fits⟩ := folds.multiplies run mem
  have foldReads := (folds.reads_iff ready run mem).mpr ⟨settledA, settledB⟩
  have axes : ∀ {s : Shape}, 2 ≤ s.length → s ≠ [] := by
    rintro s two rfl
    exact absurd two (by decide)
  have presentA := present_of_shape (axes folds.twoA)
  have presentB := present_of_shape (axes folds.twoB)
  have sourceA := (folds.first ▸ resolveOperand_resolved ready fp32Pins
    (nd.inputs.getD 0 kNoTensor)).present presentA
  have sourceB := (folds.second ▸ resolveOperand_resolved ready fp32Pins
    (nd.inputs.getD 1 kNoTensor)).present presentB
  have two := folds.two
  have input0 : (stampView nd a.source b.source v).inputs.getD 0 kNoTensor = a.source := by
    change ((nd.inputs.set 0 a.source).set 1 b.source).getD 0 kNoTensor = _
    rw [getD_eq_getElem?_getD, getElem?_set_ne (by omega), getElem?_set_self (by omega)]
    rfl
  have input1 : (stampView nd a.source b.source v).inputs.getD 1 kNoTensor = b.source := by
    change ((nd.inputs.set 0 a.source).set 1 b.source).getD 1 kNoTensor = _
    rw [getD_eq_getElem?_getD, getElem?_set_self (by rw [length_set]; omega)]
    rfl
  have type' : (stampView nd a.source b.source v).type = .matMul := folds.type
  have length' : (stampView nd a.source b.source v).inputs.length = nd.inputs.length := by
    change ((nd.inputs.set 0 a.source).set 1 b.source).length = _
    rw [length_set, length_set]
  have product : matrixProduct nd = true := by
    simp [-getD_eq_getElem?_getD, matrixProduct, folds.type, two, presentA, presentB]
  have product' : matrixProduct (stampView nd a.source b.source v) = true := by
    simp [-getD_eq_getElem?_getD, matrixProduct, type', length', two, input0, input1,
      sourceA, sourceB]
  have dispatch : ∀ n : Node, n.type = .matMul → matrixProduct n = true →
      runNode K r n (execute K r g.nodes e) = finish K r n (execute K r g.nodes e)
          (Cpu.runMatMul K r n (execute K r g.nodes e)) := by
    intro n type product
    have moves : Cpu.plainMover n = false := by simp [Cpu.plainMover, type]
    have copies : Cpu.plainCopy n = false := by simp [Cpu.plainCopy, type]
    unfold runNode
    rw [moves, copies, product]
    rfl
  rw [dispatch _ type' product', dispatch _ folds.type product,
    finish_stampView _ _ _ (ready.epilogues nd mem folds.type)]
  congr 1
  have stamped : (stampView nd a.source b.source v).attr.has Cpu.kMmView = true := by
    rw [has_eq_isSome]
    unfold stampView
    dsimp only
    simp only [Std.ExtTreeMap.getElem?_insert]
    simp +decide
  unfold Cpu.runMatMul
  dsimp only
  rw [stamped, if_pos rfl, folds.dense, if_neg Bool.false_ne_true, input0, input1]
  refine Prod.ext fits.output ?_
  exact Cpu.matmulRows_congr K.toArith foldReads.reads multiplies.within
    (fun i low high => (foldReads.copiedA i low high).symm)
    (fun i low high => (foldReads.copiedB i low high).symm) _

/-! ## The pass preserves meaning -/

/-- Every folded chain begins at a tensor whose shape is known, or that holds one element. -/
def Settled (g r : Graph) (fp32Pins : Str) : Prop :=
  ∀ nd ∈ g.nodes, ∀ a b v, foldOperands g fp32Pins g.nodes nd = some (a, b, v) →
    SettledSource g r a ∧ SettledSource g r b

/-- What it is to preserve meaning in a run: folded products read what their chains have copied,
graph outputs are what they were, and so is whatever a remaining node reads, which is still
written if it was. -/
structure PreservesViews (K : Kernels α) (g r : Graph) (fp32Pins : Str) (e : TensorId → List α) :
    Prop where
  folds : ∀ nd ∈ g.nodes, ∀ a b v, foldOperands g fp32Pins g.nodes nd = some (a, b, v) →
    FoldReads K g r fp32Pins (execute K r g.nodes e) nd a b v
  outputs : ∀ t ∈ g.outputs,
    execute K r (foldMatMulViews g fp32Pins).nodes e t = execute K r g.nodes e t
  readers : ∀ n ∈ (foldMatMulViews g fp32Pins).nodes, ∀ t ∈ readsOf n,
    execute K r (foldMatMulViews g fp32Pins).nodes e t = execute K r g.nodes e t ∧
    ∀ p ∈ g.nodes, t ∈ writesOf p → ∃ p' ∈ (foldMatMulViews g fp32Pins).nodes, t ∈ writesOf p'

theorem writesOf_foldNode (nd : Node) : writesOf (foldNode g fp32Pins nd) = writesOf nd := by
  unfold foldNode
  split <;> rfl

/-- What a folded node reads was read by it, or before it. -/
theorem ordered_foldNode (ready : ViewReady g) (fp32Pins : Str) :
    Cpu.signature.Ordered (g.nodes.map (foldNode g fp32Pins)) := by
  refine ready.ordered.rewrite writesOf_foldNode fun j n here t read => ?_
  change t ∈ readsOf (foldNode g fp32Pins n) at read
  unfold foldNode at read
  split at read
  · rename_i a b v found
    have folds := folds_of_foldOperands found
    have axes : ∀ {s : Shape}, 2 ≤ s.length → s ≠ [] := by
      rintro s two rfl
      exact absurd two (by decide)
    obtain ⟨listed, present⟩ := Cpu.mem_readsOf.mp read
    -- An operand in place of another comes from a chain that begins before the node.
    have operand : ∀ i found, (nd_i : n.inputs.getD i kNoTensor ≠ kNoTensor) →
        Resolved g fp32Pins (n.inputs.getD i kNoTensor) found → t = found.source →
        t ∈ readsOf n ∨ ∃ i < j, ∃ p, g.nodes[i]? = some p ∧ t ∈ readsOf p := by
      rintro i found nd_i resolved rfl
      exact resolved.earlier j n here (Cpu.mem_readsOf_of_input (Cpu.getD_mem nd_i) nd_i)
    rcases mem_append.mp listed with input | fused
    · change t ∈ (n.inputs.set 0 a.source).set 1 b.source at input
      rcases mem_or_eq_of_mem_set input with first | rfl
      · rcases mem_or_eq_of_mem_set first with own | rfl
        · exact inl (Cpu.mem_readsOf_of_input own present)
        · exact operand 0 a (present_of_shape (axes folds.twoA))
            (folds.first ▸ resolveOperand_resolved ready fp32Pins _) rfl
      · exact operand 1 b (present_of_shape (axes folds.twoB))
          (folds.second ▸ resolveOperand_resolved ready fp32Pins _) rfl
    · exact inl (Cpu.mem_readsOf.mpr ⟨mem_append_right _ fused, present⟩)
  · exact inl read

/-- **From settled sources, the folded nodes compute every tensor as before.** -/
theorem execute_foldNode (ready : ViewReady g) (run : ViewRun K g r e)
    (settled : Settled g r fp32Pins) :
    execute K r (g.nodes.map (foldNode g fp32Pins)) e = execute K r g.nodes e := by
  refine Dataflow.Machine.run_rewrite (M := Cpu.machine K r) ready.ordered
    (ordered_foldNode ready fp32Pins) writesOf_foldNode fun n mem t _ => ?_
  unfold foldNode
  split
  · rename_i a b v found
    obtain ⟨settledA, settledB⟩ := settled n mem a b v found
    have same := runNode_stampView ready run mem (folds_of_foldOperands found) settledA settledB
    change (runNode K r (stampView n a.source b.source v)
      (execute K r g.nodes e)).getD _ [] = _
    rw [same]
    rfl
  · rfl

/-- **Folding views into products preserves meaning** exactly when every folded chain begins at a
tensor whose shape is known, or that holds one element. -/
theorem foldMatMulViews_preserves (ready : ViewReady g) (run : ViewRun K g r e) :
    PreservesViews K g r fp32Pins e ↔ Settled g r fp32Pins := by
  constructor
  · intro preserves nd mem a b v found
    exact ((folds_of_foldOperands found).reads_iff ready run mem).mp
      (preserves.folds nd mem a b v found)
  · intro settled
    have same := execute_foldNode ready run settled
    have folds : ∀ nd ∈ g.nodes, ∀ a b v, foldOperands g fp32Pins g.nodes nd = some (a, b, v) →
        FoldReads K g r fp32Pins (execute K r g.nodes e) nd a b v :=
      fun nd mem a b v found => ((folds_of_foldOperands found).reads_iff ready run mem).mpr
        (settled nd mem a b v found)
    have written : ∀ p ∈ g.nodes, ∀ t ∈ writesOf p,
        foldNode g fp32Pins p ∈ (foldedGraph g fp32Pins).nodes ∧
          t ∈ writesOf (foldNode g fp32Pins p) := fun p inside t here =>
      ⟨mem_map_of_mem inside, by rwa [writesOf_foldNode]⟩
    rcases foldMatMulViews_eq g fp32Pins with kept | removed
    · refine ⟨folds, fun t _ => ?_, fun n _ t _ => ⟨?_, fun p inside here => ?_⟩⟩
      · rw [kept]
        exact congrFun same t
      · rw [kept]
        exact congrFun same t
      · rw [kept]
        exact ⟨_, written p inside t here⟩
    · refine ⟨folds, fun t output => ?_, fun n kept t read => ?_⟩
      · rw [removed, execute_eliminateDeadNodes K r (foldedGraph g fp32Pins) e
          ((closed_liveTensors _).2 t output)]
        exact congrFun same t
      · rw [removed] at kept ⊢
        obtain ⟨live, writers⟩ := fed_eliminateDeadNodes _ kept read
        refine ⟨?_, fun p inside here => ?_⟩
        · rw [execute_eliminateDeadNodes K r _ e live]
          exact congrFun same t
        · obtain ⟨mem, again⟩ := written p inside t here
          exact ⟨_, writers _ mem again, again⟩

/-! ## A slice that is repeated -/

/-- A row of a matrix is cut out at bounds known in the run only, repeated, and multiplied.  The shape
is what the plan knows of the row. -/
def repeatedRow (shape : Shape) : Graph where
  tensors := [{ name := str "x", shape := [2, 3], isInput := true },
    { name := str "starts", shape := [1], dtype := .int64, isInput := true },
    { name := str "ends", shape := [1], dtype := .int64, isInput := true },
    { name := str "row", shape },
    { name := str "target", shape := [2], dtype := .int64 },
    { name := str "rows", shape := [2, 3] },
    { name := str "w", shape := [3, 2], isInput := true },
    { name := str "y", shape := [2, 2], isOutput := true }]
  nodes := [{ type := .slice, inputs := [0, 1, 2], outputs := [3] },
    { type := .expand, inputs := [3, 4], outputs := [5] },
    { type := .matMul, inputs := [5, 6], outputs := [7] }]
  inputs := [0, 1, 2, 6]
  outputs := [7]

def integerKernels : Kernels Int where
  zero := 0
  mul := (· * ·)
  add := (· + ·)
  ints := id
  epilogue _ _ Y _ := [Y]
  other _ _ _ _ := []

/-- The first row of a matrix is cut out. -/
def rowRun (t : TensorId) : List Int :=
  if t = 0 then [1, 2, 3, 4, 5, 6]
  else if t = 1 then [0]
  else if t = 2 then [1]
  else if t = 4 then [2, 3]
  else if t = 6 then [1, 0, 0, 1, 1, 1]
  else []

theorem viewReady_repeatedRow (known : shape = [] ∨ shape = [1, 3]) :
    ViewReady (repeatedRow shape) := by
  have before : (repeatedRow shape).nodes.Pairwise fun a b => ∀ t ∈ writesOf b,
      t ∉ readsOf a ∧ t ∉ writesOf a := by
    rcases known with rfl | rfl <;> decide
  have self : ∀ nd ∈ (repeatedRow shape).nodes, ∀ t ∈ writesOf nd, t ∉ readsOf nd := by
    rcases known with rfl | rfl <;> decide
  have bare : ∀ nd ∈ (repeatedRow shape).nodes, dataOf nd ≠ kNoTensor ∧
      nd.attr.has (str "view_stride") = false ∧ nd.attr.has (str "pw_outs") = false ∧
        epilogueSources nd = [] := by
    rcases known with rfl | rfl <;> decide
  refine ⟨⟨before, self⟩, fun nd mem _ _ => ?_, fun nd mem _ i named => ?_⟩
  · obtain ⟨data, unfolded, single, -⟩ := bare nd mem
    exact ⟨data, unfolded, single⟩
  · obtain ⟨-, -, -, none⟩ := bare nd mem
    rw [none] at named
    cases named

theorem resolves_repeatedRow (known : shape = [] ∨ shape = [1, 3]) :
    Resolves (repeatedRow shape) (repeatedRow [1, 3]) := by
  rcases known with rfl | rfl
  · intro t resolved
    have tensors : (repeatedRow []).tensors =
        (repeatedRow [1, 3]).tensors.set 3 { name := str "row" } := rfl
    unfold shapeIn Graph.desc at resolved ⊢
    split at resolved
    · rename_i low
      rw [if_pos low, if_pos low]
      rw [tensors] at resolved ⊢
      by_cases row : t.toNat = 3
      · rw [row] at resolved
        exact absurd rfl resolved
      · rw [getD_eq_getElem?_getD, getD_eq_getElem?_getD, getElem?_set_ne (Ne.symm row)]
    · exact absurd rfl resolved
  · exact fun t _ => rfl

theorem viewRun_repeatedRow (known : shape = [] ∨ shape = [1, 3]) :
    ViewRun integerKernels (repeatedRow shape) (repeatedRow [1, 3]) rowRun := by
  have nodes : (repeatedRow shape).nodes = (repeatedRow [1, 3]).nodes := rfl
  refine ⟨resolves_repeatedRow known, sized_of_tensors (by decide), ?_, ?_⟩
  · rw [nodes]
    have expands : ∀ nd ∈ (repeatedRow [1, 3]).nodes, chainOp nd.type = true →
        nd.type = .expand ∧ shapeIn (repeatedRow [1, 3]) (resultOf nd) = moveShape integerKernels
          (repeatedRow [1, 3]) nd (execute integerKernels (repeatedRow [1, 3])
            (repeatedRow [1, 3]).nodes rowRun) ∧
        shapeIn (repeatedRow [1, 3]) (resultOf nd) ≠ [] ∧
        sizeIn (repeatedRow [1, 3]) (dataOf nd) ≠ 0 := by
      decide
    intro nd mem type _
    obtain ⟨expand, shape, axes, some⟩ := expands nd mem type
    refine ⟨shape, axes, fun transpose => ?_, fun _ other => absurd expand other,
      fun _ none => absurd none some⟩
    rw [expand] at transpose
    cases transpose
  · rw [nodes]
    have products : ∀ nd ∈ (repeatedRow [1, 3]).nodes, nd.type = .matMul →
        nd.inputs.getD 0 kNoTensor = 5 ∧ nd.inputs.getD 1 kNoTensor = 6 ∧
          nd.outputs.headD kNoTensor = 7 := by
      decide
    intro nd mem type _ _
    obtain ⟨a, b, y⟩ := products nd mem type
    refine ⟨?_, fun br rank => ?_, ?_⟩
    · rw [a, b]
      decide
    · rw [a, b] at rank ⊢
      obtain rfl : br = 0 := Nat.add_right_cancel (m := 2) rank
      exact .nil
    · rw [a, b, y]
      decide

/-- The plan knows the shape of the row: the repetition is folded into the product, and every output
is kept. -/
theorem preservesViews_repeatedRow : (foldMatMulViews (repeatedRow [1, 3]) []).nodes.length = 2 ∧
      PreservesViews integerKernels (repeatedRow [1, 3]) (repeatedRow [1, 3]) [] rowRun := by
  refine ⟨by decide, (foldMatMulViews_preserves (viewReady_repeatedRow (inr rfl))
    (viewRun_repeatedRow (inr rfl))).mpr fun nd mem a b v found => ?_⟩
  have known : ∀ nd ∈ (repeatedRow [1, 3]).nodes,
      (foldOperands (repeatedRow [1, 3]) [] (repeatedRow [1, 3]).nodes nd).all (fun fold =>
        shapeIn (repeatedRow [1, 3]) fold.1.source ≠ [] ∧
          shapeIn (repeatedRow [1, 3]) fold.2.1.source ≠ []) = true := by
    decide
  have here := known nd mem
  rw [found, Option.all_some, decide_eq_true_eq] at here
  exact ⟨fun _ => inl here.1, fun _ => inl here.2⟩

/-- **A row whose shape the plan does not know is read as one element.** -/
theorem row_read_as_element : ¬ ∀ (K : Kernels Int) (g r : Graph) (fp32Pins : Str)
    (e : TensorId → List Int), ViewReady g → ViewRun K g r e → PreservesViews K g r fp32Pins e := by
  intro always
  have kept := (always integerKernels (repeatedRow []) (repeatedRow [1, 3]) [] rowRun
    (viewReady_repeatedRow (inl rfl)) (viewRun_repeatedRow (inl rfl))).outputs 7
      mem_cons_self
  have before : execute integerKernels (repeatedRow [1, 3]) (repeatedRow []).nodes rowRun 7 =
      [4, 5, 4, 5] := by
    decide
  have after : execute integerKernels (repeatedRow [1, 3])
      (foldMatMulViews (repeatedRow []) []).nodes rowRun 7 = [2, 2, 2, 2] := by
    decide
  rw [before, after] at kept
  cases kept

end Vknn.Import
