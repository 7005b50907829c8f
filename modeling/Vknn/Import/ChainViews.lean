import Vknn.Import.ChainReads

/-!
# Composed views follow chains

A view follows a tensor when its coordinates lead to the source positions the tensor's
elements were copied from.  Each node of a chain keeps this, and so a composed view
follows the whole chain.

A source whose shape is not resolved has a view without axes.  Such a view reads one
position whatever the coordinates are, which is right only when there is one element.
-/

namespace Vknn.Import

open List RowMajor
open Strided (pick reaches_units total_flatten units)

open Strided (total dims Spans Reaches Recasts)

variable {α : Type} {K : Cpu.Kernels α} {g r : Graph} {nd : Node} {e : TensorId → List α}

/-- The run has the shapes the plan has resolved. -/
def Resolves (g r : Graph) : Prop := ∀ t, shapeIn g t ≠ [] → shapeIn r t = shapeIn g t

/-- A view leads to the source positions that the elements of a tensor were copied from: at its
coordinates, or, where the view has no axes, at all positions alike. -/
def Follows (r : Graph) (view : View) (t : TensorId) (index : Int → Int) : Prop :=
  (dims view = shapeIn r t ∧ ∀ cs, RowMajor.Inside cs (shapeIn r t) →
    Reaches view cs (index (RowMajor.flat (shapeIn r t) cs))) ∨
  (view = [] ∧ ∀ i, 0 ≤ i → i < sizeIn r t → index i = 0)

variable {view view' : View} {index : Int → Int}

theorem Follows.positive {t : TensorId} (sized : Sized r)
    (some : 0 < sizeIn r t) (follows : Follows r view t index) :
    ∀ axis ∈ view, Positive axis := by
  rcases follows with ⟨-, leads⟩ | ⟨rfl, -⟩
  · exact (leads _ (inside_zeros (positive_dims sized some))).positive
  · exact fun axis mem => nomatch mem

/-- A view that follows a tensor leads the first position nowhere. -/
theorem Follows.first {t : TensorId} (sized : Sized r)
    (some : 0 < sizeIn r t) (follows : Follows r view t index) : index 0 = 0 := by
  rcases follows with ⟨extents, leads⟩ | ⟨-, still⟩
  · have here := leads _ (inside_zeros (positive_dims sized some))
    have spans := here.flatten
    rw [flat_zeros, flat_zeros] at spans
    exact spans.zero
  · exact still 0 le_rfl some

/-! ## Each kind of node -/

theorem Follows.transpose (sized : Sized r)
    (type : nd.type = .transpose) (fits : MoveFits K r nd e) (some : 0 < sizeIn r (resultOf nd))
    (follows : Follows r view (dataOf nd) index)
    (found : transposeView view (nd.attr.getints (str "perm")) = .some view') :
    Follows r view' (resultOf nd) (fun i => index (moveIndex r nd i)) := by
  obtain ⟨-, rfl⟩ := transposeView_eq_some found
  rcases follows with ⟨extents, leads⟩ | ⟨rfl, still⟩
  · refine Or.inl ⟨?_, fun cs inside => ?_⟩
    all_goals
      have reads := moveIndex_transpose type fits
      obtain ⟨permutation, -⟩ := fits.permutes type
      have rank : view.length = (shapeIn r (dataOf nd)).length := by
        rw [← extents, dims, length_map]
      rw [Cpu.length_transposePerm] at permutation
    · have out : shapeIn r (resultOf nd) =
          Cpu.transposeShape (nd.attr.getints (str "perm")) (shapeIn r (dataOf nd)) := by
        rw [fits.shape, moveShape]
        exact if_pos type
      rw [out, Cpu.transposeShape, rank, ← extents, dims, dims, pick, map_map, map_map, length_map]
      refine map_congr_left fun p mem => ?_
      rw [← rank] at permutation
      have small : p.toNat < view.length :=
        mem_range.mp (permutation.mem_iff.mp (mem_map_of_mem mem))
      simp [getD_eq_getElem?_getD, small]
    · refine Reaches.pick (by rwa [rank]) ?_ ?_
      · rw [inside.length_eq, length_map, Cpu.length_transposePerm, rank, fits.shape,
          moveShape, if_pos type, Cpu.length_transposeShape]
      · have here := leads _ (reads.inside cs inside)
        rw [← reads.index cs inside] at here
        rw [rank]
        exact here
  · refine Or.inr ⟨?_, fun i low high => ?_⟩
    · refine eq_nil_of_length_eq_zero ?_
      rw [pick, length_map, length_map, Cpu.length_transposePerm]
      rfl
    · have bound := (moveIndex_inside sized fits some).1 i low high
      exact still _ bound.1 bound.2

theorem Follows.reshape (sized : Sized r)
    (resolves : Resolves g r) (transposes : nd.type ≠ .transpose) (expands : nd.type ≠ .expand)
    (fits : MoveFits K r nd e) (some : 0 < sizeIn r (resultOf nd))
    (follows : Follows r view (dataOf nd) index)
    (found : reshapeView view (shapeIn g (resultOf nd)) = .some view') :
    Follows r view' (resultOf nd) (fun i => index (moveIndex r nd i)) := by
  have someIn := input_some sized fits some
  have count := fits.count transposes expands
  have same : ∀ i, moveIndex r nd i = i := by
    intro i
    rw [moveIndex, if_neg transposes, if_neg expands]
  obtain ⟨extents', recasts⟩ := recasts_reshapeView (follows.positive sized someIn) found
  have first := follows.first sized someIn
  by_cases resolved : shapeIn g (resultOf nd) = []
  · -- The output has no axes to the plan, so the view holds one position.
    rw [resolved] at extents'
    obtain rfl : view' = [] := map_eq_nil_iff.mp extents'
    refine Or.inr ⟨rfl, fun i low high => ?_⟩
    dsimp only
    rw [same]
    rcases follows with ⟨extents, leads⟩ | ⟨rfl, still⟩
    · have single : sizeIn r (resultOf nd) = 1 := by
        rw [count, sizeIn, ← extents, ← total_flatten, recasts.total]
        rfl
      obtain rfl : i = 0 := by omega
      exact first
    · exact still i low (by omega)
  · have out := resolves _ resolved
    refine Or.inl ⟨extents'.trans out.symm, fun cs inside => ?_⟩
    dsimp only
    rw [same]
    have within : RowMajor.Inside cs (dims view') := by rwa [extents', ← out]
    have bound := flat_inside inside
    have bound' : RowMajor.flat (shapeIn r (resultOf nd)) cs < sizeIn r (dataOf nd) := by
      rw [← count]
      exact bound.2
    rcases follows with ⟨extents, leads⟩ | ⟨rfl, still⟩
    · obtain ⟨xs, insideX, position⟩ :=
        exists_coords (positive_dims sized someIn) bound.1 bound'
      rw [← position]
      refine (leads xs insideX).reshape recasts within ?_
      rw [extents', ← out, extents, position]
    · have single : total view'.flatten = 1 := recasts.total.symm
      rw [still _ bound.1 bound']
      refine .of_flatten within ?_
      have start : RowMajor.flat (dims view') cs = 0 := by
        have small := flat_inside within
        rw [← total_flatten, single] at small
        omega
      rw [start]
      exact recasts.spans .nil

theorem Follows.expand (sized : Sized r)
    (resolves : Resolves g r) (type : nd.type = .expand) (fits : MoveFits K r nd e)
    (some : 0 < sizeIn r (resultOf nd)) (follows : Follows r view (dataOf nd) index)
    (found : expandView view (shapeIn g (resultOf nd)) = .some view') :
    Follows r view' (resultOf nd) (fun i => index (moveIndex r nd i)) := by
  have someIn := input_some sized fits some
  have first := follows.first sized someIn
  obtain ⟨fills, reads⟩ := moveIndex_expand sized type fits someIn
  have inner := (moveIndex_inside sized fits some).1
  unfold expandView at found
  split at found
  · cases found
  rename_i rank
  have length : (units ((shapeIn g (resultOf nd)).length - view.length) ++ view).length =
      (shapeIn g (resultOf nd)).length := by
    rw [length_append, units, length_replicate]
    omega
  by_cases resolved : shapeIn g (resultOf nd) = []
  · rw [resolved] at found rank
    obtain rfl : view = [] := eq_nil_of_length_eq_zero (by simpa using rank)
    obtain rfl := Option.some.inj found
    refine Or.inr ⟨rfl, fun i low high => ?_⟩
    have bound := inner i low high
    rcases follows with ⟨extents, -⟩ | ⟨-, still⟩
    · have single : sizeIn r (dataOf nd) = 1 := by
        rw [sizeIn, ← extents]
        rfl
      have start : moveIndex r nd i = 0 := by omega
      dsimp only
      rw [start]
      exact first
    · exact still _ bound.1 bound.2
  · have out := resolves _ resolved
    rw [← out] at found length
    refine Or.inl ⟨dims_expandAxes length found, fun cs inside => ?_⟩
    have bounds := flat_inside inside
    have bound := inner _ bounds.1 bounds.2
    refine reaches_expandAxes length found inside ?_
    dsimp only
    rcases follows with ⟨extents, leads⟩ | ⟨rfl, still⟩
    · have rankX : view.length = (shapeIn r (dataOf nd)).length := by
        rw [← extents, dims, length_map]
      have pins : dims (units ((shapeIn r (resultOf nd)).length - view.length) ++ view) =
          pinShape r nd := by
        rw [dims, map_append, ← dims, ← dims, extents, pinShape, Cpu.padLeft, rankX,
          units, dims, map_replicate]
        rfl
      obtain ⟨xs, split, within, position⟩ := inside_padded (reads.inside cs inside)
      have moved : moveIndex r nd (RowMajor.flat (shapeIn r (resultOf nd)) cs) =
          RowMajor.flat (shapeIn r (dataOf nd)) xs := (reads.index cs inside).trans position
      have joined := (reaches_units
        ((shapeIn r (resultOf nd)).length - view.length)).append (leads xs within)
      rw [Int.zero_add] at joined
      rw [pins, moved, split, ← rankX]
      exact joined
    · have pins : dims (units ((shapeIn r (resultOf nd)).length - ([] : View).length) ++ []) =
          List.replicate (shapeIn r (resultOf nd)).length 1 := by
        rw [append_nil, units, dims, map_replicate]
        rfl
      have ones : Cpu.Fills (shapeIn r (resultOf nd))
          (List.replicate (shapeIn r (resultOf nd)).length 1) := by
        have positive := positive_dims sized some
        generalize shapeIn r (resultOf nd) = out at positive
        induction out with
        | nil => exact .nil
        | cons d out ih =>
          exact .cons ⟨Int.one_pos, positive d mem_cons_self⟩
            (ih fun d mem => positive d (mem_cons_of_mem _ mem))
      have source := (Cpu.leads_expand ones).inside cs inside
      rw [← append_nil (List.replicate _ 1)] at source
      obtain ⟨xs, split, within, -⟩ := inside_padded source
      cases within
      rw [append_nil, append_nil] at split
      rw [pins, split, still _ bound.1 bound.2, append_nil]
      exact reaches_units _

/-- **A node of a chain keeps what a view follows.** -/
theorem Follows.step (sized : Sized r)
    (resolves : Resolves g r) (chain : ChainNode nd) (fits : MoveFits K r nd e)
    (some : 0 < sizeIn r (resultOf nd)) (follows : Follows r view (dataOf nd) index)
    (found : applyChainOp g nd view = .some view') :
    Follows r view' (resultOf nd) (fun i => index (moveIndex r nd i)) := by
  have type := chain.type
  simp only [chainOp, Bool.or_eq_true, decide_eq_true_eq] at type
  unfold applyChainOp at found
  dsimp only at found
  by_cases transposes : nd.type = .transpose
  · rw [if_pos transposes] at found
    exact follows.transpose sized transposes fits some found
  rw [if_neg transposes] at found
  by_cases expands : nd.type = .expand
  · rw [if_neg (by rw [expands]; decide), if_pos expands] at found
    exact follows.expand sized resolves expands fits some found
  · have copies : nd.type = .reshape ∨ nd.type = .unsqueeze ∨ nd.type = .squeeze := by tauto
    rw [if_pos copies] at found
    exact follows.reshape sized resolves transposes expands fits some found

/-! ## Chains -/

/-- The nodes that made a tensor from a source, last node first. -/
inductive Chain : TensorId → List Node → TensorId → Prop
  | nil (t : TensorId) : Chain t [] t
  | cons {nd : Node} {chain : List Node} {source : TensorId}
      (rest : Chain (dataOf nd) chain source) : Chain (resultOf nd) (nd :: chain) source

/-- The source position that an element was copied from. -/
def chainIndex (r : Graph) (chain : List Node) (i : Int) : Int :=
  chain.foldl (fun i nd => moveIndex r nd i) i

def ChainFits (K : Cpu.Kernels α) (r : Graph) (chain : List Node) (e : TensorId → List α) : Prop :=
  ∀ nd ∈ chain, ChainNode nd ∧ MoveFits K r nd e

theorem ChainFits.tail {chain : List Node} (fits : ChainFits K r (nd :: chain) e) :
    ChainFits K r chain e :=
  fun n mem => fits n (mem_cons_of_mem _ mem)

variable {chain : List Node} {t source : TensorId}

theorem Chain.source_some (sized : Sized r) (made : Chain t chain source)
    (fits : ChainFits K r chain e) (some : 0 < sizeIn r t) : 0 < sizeIn r source := by
  induction made with
  | nil => exact some
  | @cons nd chain source _ ih =>
    exact ih fits.tail (input_some sized (fits nd mem_cons_self).2 some)

/-- **A chain copies every element from its source, and leaves no source element out.** -/
theorem Chain.inside (sized : Sized r) (made : Chain t chain source)
    (fits : ChainFits K r chain e) (some : 0 < sizeIn r t) :
    (∀ oi, 0 ≤ oi → oi < sizeIn r t →
      0 ≤ chainIndex r chain oi ∧ chainIndex r chain oi < sizeIn r source) ∧
    ∀ i, 0 ≤ i → i < sizeIn r source →
      ∃ oi, 0 ≤ oi ∧ oi < sizeIn r t ∧ chainIndex r chain oi = i := by
  induction made with
  | nil => exact ⟨fun oi low high => ⟨low, high⟩, fun i low high => ⟨i, low, high, rfl⟩⟩
  | @cons nd chain source _ ih =>
    have here := (fits nd mem_cons_self).2
    obtain ⟨into, onto⟩ := moveIndex_inside sized here some
    obtain ⟨into', onto'⟩ := ih fits.tail (input_some sized here some)
    refine ⟨fun oi low high => ?_, fun i low high => ?_⟩
    · obtain ⟨low', high'⟩ := into oi low high
      exact into' _ low' high'
    · obtain ⟨j, lowJ, highJ, rfl⟩ := onto' i low high
      obtain ⟨oi, lowO, highO, rfl⟩ := onto j lowJ highJ
      exact ⟨oi, lowO, highO, rfl⟩

/-- **The elements of a tensor are those of the source at the positions of the chain.** -/
theorem Chain.readAt (sized : Sized r) (made : Chain t chain source)
    (fits : ChainFits K r chain e)
    (computed : ∀ nd ∈ chain, e (resultOf nd) = (Cpu.machine K r).value nd e (resultOf nd)) {oi : Int}
    (low : 0 ≤ oi) (high : oi < sizeIn r t) :
    Cpu.readAt K.zero (e t) oi = Cpu.readAt K.zero (e source) (chainIndex r chain oi) := by
  induction made generalizing oi with
  | nil => rfl
  | @cons nd chain source _ ih =>
    obtain ⟨node, here⟩ := fits nd mem_cons_self
    obtain ⟨low', high'⟩ := (moveIndex_inside sized here (low.trans_lt high)).1 oi low high
    rw [computed nd mem_cons_self, readAt_value sized node here low high,
      ih fits.tail (fun n mem => computed n (mem_cons_of_mem _ mem)) low' high']
    rfl

/-- **The view of a chain follows the chain**, when the shape of its source is resolved, or the
source holds one element. -/
theorem Chain.follows (sized : Sized r) (resolves : Resolves g r) (made : Chain t chain source)
    (fits : ChainFits K r chain e) (some : 0 < sizeIn r t)
    (found : composeChain g source chain = .some view)
    (settled : shapeIn g source ≠ [] ∨ sizeIn r source = 1) :
    Follows r view t (chainIndex r chain) := by
  induction made generalizing view with
  | nil t =>
    obtain rfl := Option.some.inj found
    by_cases resolved : shapeIn g t = []
    · refine Or.inr ⟨by rw [denseView, ← shapeIn, resolved]; rfl, fun i low high => ?_⟩
      have single := settled.resolve_left (not_not.mpr resolved)
      change i = 0
      omega
    · have shapes := resolves _ resolved
      refine Or.inl ⟨by rw [denseView, Strided.dims_dense, shapes]; rfl, fun cs inside => ?_⟩
      rw [shapes] at inside ⊢
      exact Strided.reaches_dense inside
  | @cons nd chain source _ ih =>
    rw [composeChain] at found
    simp only [bind, Option.bind_eq_some_iff] at found
    obtain ⟨before, composed, applied⟩ := found
    obtain ⟨node, here⟩ := fits nd mem_cons_self
    exact (ih fits.tail (input_some sized here some) composed settled).step sized resolves node
      here some applied

/-! ## Views of nothing known -/

def Still (view : View) : Prop := ∀ axis ∈ view, ∀ s ∈ axis, s.stride = 0

theorem still_canonicalAxis {axis : ViewAxis} (still : ∀ s ∈ axis, s.stride = 0) :
    ∀ s ∈ canonicalAxis axis, s.stride = 0 := by
  have step : ∀ (out : ViewAxis) (s : SubDim), (∀ b ∈ out, b.stride = 0) → s.stride = 0 →
      ∀ b ∈ canonicalStep out s, b.stride = 0 := by
    intro out s held zero
    unfold canonicalStep
    split
    · exact held
    · split
      · rename_i back last
        obtain ⟨init, rfl⟩ := getLast?_eq_some_iff.mp last
        split
        · rw [dropLast_concat]
          intro b mem
          rcases mem_append.mp mem with inInit | merged
          · exact held b (mem_append_left _ inInit)
          · rwa [mem_singleton.mp merged]
        · intro b mem
          rcases mem_append.mp mem with old | new
          · exact held b old
          · rwa [mem_singleton.mp new]
      · intro b mem
        rwa [mem_singleton.mp mem]
  have folded : ∀ out : ViewAxis, (∀ b ∈ out, b.stride = 0) →
      ∀ b ∈ axis.foldl canonicalStep out, b.stride = 0 := by
    induction axis with
    | nil => exact fun out held => held
    | cons s axis ih =>
      intro out held
      exact ih (fun b mem => still b (mem_cons_of_mem _ mem)) _
        (step out s held (still s mem_cons_self))
  unfold canonicalAxis
  dsimp only
  split
  · intro b mem
    rw [mem_singleton.mp mem]
  · exact folded [] fun b mem => nomatch mem

theorem still_takeBlocks {flat axis rest : List SubDim} {need : Int}
    (still : ∀ s ∈ flat, s.stride = 0) (taken : takeBlocks flat need = some (axis, rest)) :
    (∀ s ∈ axis, s.stride = 0) ∧ ∀ s ∈ rest, s.stride = 0 := by
  induction flat generalizing need axis with
  | nil =>
    rw [takeBlocks] at taken
    split at taken
    · obtain ⟨rfl, rfl⟩ := Prod.mk.inj (Option.some.inj taken)
      exact ⟨still, still⟩
    · cases taken
  | cons s flat ih =>
    have first := still s mem_cons_self
    have later : ∀ b ∈ flat, b.stride = 0 := fun b mem =>
      still b (mem_cons_of_mem _ mem)
    rw [takeBlocks] at taken
    split at taken
    · obtain ⟨rfl, rfl⟩ := Prod.mk.inj (Option.some.inj taken)
      exact ⟨forall_mem_nil _, still⟩
    split at taken
    · split at taken
      · cases taken
      obtain ⟨⟨more, left⟩, found, same⟩ := Option.map_eq_some_iff.mp taken
      cases same
      obtain ⟨inMore, inRest⟩ := ih later found
      refine ⟨fun b mem => ?_, inRest⟩
      rcases mem_cons.mp mem with rfl | inside
      · exact first
      · exact inMore b inside
    · split at taken
      · cases taken
      obtain ⟨rfl, rfl⟩ := Prod.mk.inj (Option.some.inj taken)
      refine ⟨fun b mem => ?_, fun b mem => ?_⟩
      · rw [mem_singleton.mp mem]
        exact (congrArg (· * _) first).trans (Int.zero_mul _)
      · rcases mem_cons.mp mem with rfl | inside
        · exact first
        · exact later b inside

theorem still_reshapeAxes {target : Shape} {flat : List SubDim}
    (still : ∀ s ∈ flat, s.stride = 0) (found : reshapeAxes target flat = some view) :
    Still view := by
  induction target generalizing flat view with
  | nil =>
    rw [reshapeAxes] at found
    split at found
    · obtain rfl := Option.some.inj found
      exact forall_mem_nil _
    · cases found
  | cons t target ih =>
    rw [reshapeAxes] at found
    split at found
    · cases found
    simp only [bind, Option.bind_eq_some_iff, pure, Option.some.injEq] at found
    obtain ⟨⟨axis, rest⟩, taken, out, later, rfl⟩ := found
    obtain ⟨inAxis, inRest⟩ := still_takeBlocks still taken
    intro axis' mem
    rcases mem_cons.mp mem with rfl | inside
    · exact still_canonicalAxis inAxis
    · exact ih inRest later axis' inside

theorem still_expandAxes {target : Shape} (still : Still view)
    (found : expandAxes view target = some view') : Still view' := by
  induction view generalizing target view' with
  | nil =>
    obtain rfl := Option.some.inj found
    exact fun axis mem => nomatch mem
  | cons axis view ih =>
    cases target with
    | nil =>
      obtain rfl := Option.some.inj found
      exact fun axis mem => nomatch mem
    | cons t target =>
      rw [expandAxes] at found
      simp only [bind, Option.bind_eq_some_iff] at found
      obtain ⟨out, later, found⟩ := found
      have rest := ih (fun axis mem => still axis (mem_cons_of_mem _ mem)) later
      intro axis' mem
      split at found
      · obtain rfl := Option.some.inj found
        rcases mem_cons.mp mem with rfl | inside
        · exact still _ mem_cons_self
        · exact rest axis' inside
      · split at found
        · cases found
        obtain rfl := Option.some.inj found
        rcases mem_cons.mp mem with rfl | inside
        · intro s only
          rw [mem_singleton.mp only]
        · exact rest axis' inside

theorem still_units (n : Nat) : Still (units n) := by
  intro axis mem s inside
  rw [eq_of_mem_replicate mem] at inside
  rw [mem_singleton.mp inside]

theorem still_append (first : Still view) (second : Still view') : Still (view ++ view') := by
  intro axis mem
  rcases mem_append.mp mem with inFirst | inSecond
  · exact first axis inFirst
  · exact second axis inSecond

/-- **A chain from a source whose shape is not resolved has a view that does not move.** -/
theorem still_composeChain (unresolved : shapeIn g source = [])
    (found : composeChain g source chain = .some view) : Still view := by
  induction chain generalizing view with
  | nil =>
    obtain rfl := Option.some.inj found
    rw [denseView, ← shapeIn, unresolved]
    exact fun axis mem => nomatch mem
  | cons nd chain ih =>
    rw [composeChain] at found
    simp only [bind, Option.bind_eq_some_iff] at found
    obtain ⟨before, composed, applied⟩ := found
    have still := ih composed
    unfold applyChainOp at applied
    dsimp only at applied
    split at applied
    · obtain ⟨-, rfl⟩ := transposeView_eq_some applied
      intro axis mem
      obtain ⟨p, -, rfl⟩ := mem_map.mp mem
      rw [getD_eq_getElem?_getD]
      cases found : before[p]? with
      | none => exact fun s inside => nomatch inside
      | some axis => exact still axis (mem_of_getElem? found)
    split at applied
    · refine still_reshapeAxes (fun s mem => ?_) applied
      obtain ⟨axis, inside, here⟩ := mem_flatten.mp (mem_of_mem_filter mem)
      exact still axis inside s here
    split at applied
    · unfold expandView at applied
      split at applied
      · cases applied
      exact still_expandAxes (still_append (still_units _) still) applied
    · cases applied

end Vknn.Import
