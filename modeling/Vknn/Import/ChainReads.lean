import Vknn.Import.MovementMaps
import Vknn.Import.ViewOffsets

/-!
# What chains read

A run has its own shapes.  They are those of the descriptors wherever the plan has
resolved them; a descriptor without dimensions leaves the shape to the run.

Every node of a chain copies each output element from one input position.  Following a
chain back gives the position of its source that a tensor's element was copied from.
A composed view leads to that position, provided that the source has a resolved shape,
or holds a single element.
-/

namespace Vknn.Import

open List RowMajor Cpu Int Nat Bool

open Strided (total dims Spans Reaches Recasts)

variable {α : Type}

def shapeIn (r : Graph) (t : TensorId) : Shape := (r.desc t).shape

/-- The number of elements of a tensor in a run; one for a scalar. -/
def sizeIn (r : Graph) (t : TensorId) : Int := RowMajor.size (shapeIn r t)

def dataOf (nd : Node) : TensorId := nd.inputs.headD kNoTensor

def resultOf (nd : Node) : TensorId := nd.outputs.headD kNoTensor

/-! ## One node -/

/-- The output shape a node of a chain computes. -/
def moveShape (K : Kernels α) (r : Graph) (nd : Node) (e : TensorId → List α) : Shape :=
  let shape := shapeIn r (dataOf nd)
  if nd.type = .transpose then transposeShape (nd.attr.getints (str "perm")) shape
  else if nd.type = .reshape then reshapeShape (reshapeTarget K nd e) shape
  else if nd.type = .squeeze then
    squeezeShape (readParamList K nd e (str "axes") 1) shape
  else if nd.type = .unsqueeze then
    unsqueezeShape (readParamList K nd e (str "axes") 1) shape
  else expandShape (readParamList K nd e (str "shape") 1) shape

/-- The input position a node of a chain copies to an output position. -/
def moveIndex (r : Graph) (nd : Node) (oi : Int) : Int :=
  let shape := shapeIn r (dataOf nd)
  let out := shapeIn r (resultOf nd)
  if nd.type = .transpose then
    RowMajor.walk (rowStridesOf out)
      ((transposePerm (nd.attr.getints (str "perm")) shape.length).map fun p c =>
        c * (rowStridesOf shape).getD p.toNat 0) oi 0
  else if nd.type = .expand then
    RowMajor.walk (rowStridesOf out) (expandTerms out (padLeft out.length shape)) oi 0
  else oi

/-- The shapes on both sides of a chain node are such as its operator is defined for. -/
structure MoveFits (K : Kernels α) (r : Graph) (nd : Node) (e : TensorId → List α) : Prop where
  shape : shapeIn r (resultOf nd) = moveShape K r nd e
  axes : shapeIn r (resultOf nd) ≠ []
  permutes : nd.type = .transpose → Permutes
    (transposePerm (nd.attr.getints (str "perm")) (shapeIn r (dataOf nd)).length)
  count : nd.type ≠ .transpose → nd.type ≠ .expand → sizeIn r (resultOf nd) = sizeIn r (dataOf nd)
  repeats : nd.type = .expand → sizeIn r (dataOf nd) = 0 → sizeIn r (resultOf nd) = 0

/-- How a node of a chain reads its input: output coordinates, input coordinates, and the positions
that belong together. -/
structure MoveReads (r : Graph) (nd : Node) (shape : Shape) (source : List Int → List Int) :
    Prop where
  size : RowMajor.size shape = sizeIn r (dataOf nd)
  inside : ∀ cs, RowMajor.Inside cs (shapeIn r (resultOf nd)) → RowMajor.Inside (source cs) shape
  index : ∀ cs, RowMajor.Inside cs (shapeIn r (resultOf nd)) →
    moveIndex r nd (flat (shapeIn r (resultOf nd)) cs) = flat shape (source cs)
  onto : ∀ xs, RowMajor.Inside xs shape →
    ∃ cs, RowMajor.Inside cs (shapeIn r (resultOf nd)) ∧ source cs = xs

variable {K : Kernels α} {g r : Graph} {nd : Node} {e : TensorId → List α}

theorem moveIndex_transpose (type : nd.type = .transpose) (fits : MoveFits K r nd e) :
    MoveReads r nd (shapeIn r (dataOf nd)) (transposeSource (nd.attr.getints (str "perm"))
      (shapeIn r (dataOf nd)).length) := by
  have permutes := fits.permutes type
  have leads := leads_transpose permutes
  have out : shapeIn r (resultOf nd) =
      transposeShape (nd.attr.getints (str "perm")) (shapeIn r (dataOf nd)) := by
    rw [fits.shape, moveShape]
    exact if_pos type
  rw [← out] at leads
  refine ⟨rfl, leads.inside, fun cs inside => ?_, fun xs inside => ?_⟩
  · rw [moveIndex]
    rw [if_pos type, rowStridesOf, walk_flat inside, zero_add]
    exact leads.position cs inside
  · obtain ⟨permutation, -⟩ := permutes
    rw [length_transposePerm] at permutation
    have permutes : ((Cpu.transposePerm (nd.attr.getints (str "perm"))
        (shapeIn r (dataOf nd)).length).map Int.toNat).Perm (List.range xs.length) := by
      rwa [inside.length_eq]
    refine ⟨_, ?_, unpermute_map permutes⟩
    have permuted := inside_permute inside permutation
    rw [out]
    rw [map_map, map_map] at permuted
    rw [map_map]
    exact permuted

theorem length_expandShape (target : List Int) (X : Shape) :
    (expandShape target X).length = max X.length target.length := by
  unfold expandShape
  dsimp only
  rw [length_zipWith, length_padLeft (le_max_left ..), length_padLeft (le_max_right ..), min_self]

/-- An expanded shape is filled by a shape that has elements. -/
theorem fills_expandShape (target : List Int) {X : Shape} (positive : ∀ d ∈ X, 0 < d) :
    Fills (expandShape target X)
      (padLeft (expandShape target X).length X) := by
  rw [length_expandShape]
  unfold expandShape
  dsimp only
  have same : (padLeft (max X.length target.length) X).length =
      (padLeft (max X.length target.length) target).length := by
    rw [length_padLeft (le_max_left ..), length_padLeft (le_max_right ..)]
  have padded : ∀ d ∈ padLeft (max X.length target.length) X, 0 < d := by
    intro d mem
    rcases mem_append.mp mem with unit | inX
    · rw [eq_of_mem_replicate unit]
      exact one_pos
    · exact positive d inX
  generalize padLeft (max X.length target.length) X = pin at same padded ⊢
  generalize padLeft (max X.length target.length) target = tgt at same
  induction pin generalizing tgt with
  | nil => exact .nil
  | cons p pin ih =>
    cases tgt with
    | nil => cases same
    | cons t tgt =>
      refine .cons ⟨padded p mem_cons_self, le_max_left ..⟩ ?_
      exact ih (fun d mem => padded d (mem_cons_of_mem _ mem)) tgt
        (succ.inj same)

theorem positive_dims (sized : Sized r) {t : TensorId} (some : 0 < sizeIn r t) :
    ∀ d ∈ shapeIn r t, 0 < d :=
  positive_of_size_pos (sized t) some

theorem sizeIn_nonneg (sized : Sized r) (t : TensorId) : 0 ≤ sizeIn r t := size_nonneg (sized t)

/-- The shape an expansion aligns its input to. -/
def pinShape (r : Graph) (nd : Node) : Shape :=
  padLeft (shapeIn r (resultOf nd)).length (shapeIn r (dataOf nd))

theorem moveIndex_expand (sized : Sized r) (type : nd.type = .expand) (fits : MoveFits K r nd e)
    (some : 0 < sizeIn r (dataOf nd)) :
    Fills (shapeIn r (resultOf nd)) (pinShape r nd) ∧
    MoveReads r nd (pinShape r nd) (expandSource (shapeIn r (resultOf nd)) (pinShape r nd)) := by
  have other : nd.type ≠ .transpose := by rw [type]; decide
  have out : shapeIn r (resultOf nd) =
      expandShape (readParamList K nd e (str "shape") 1) (shapeIn r (dataOf nd)) := by
    rw [fits.shape, moveShape]
    rw [if_neg other, if_neg (by rw [type]; decide), if_neg (by rw [type]; decide),
      if_neg (by rw [type]; decide)]
  have fills : Fills (shapeIn r (resultOf nd)) (pinShape r nd) := by
    rw [pinShape, out]
    exact fills_expandShape _ (positive_dims sized some)
  have leads := leads_expand fills
  refine ⟨fills, size_padLeft .., leads.inside, fun cs inside => ?_, fun xs inside => ?_⟩
  · rw [moveIndex]
    rw [if_neg other, if_pos type, rowStridesOf, walk_flat inside, zero_add]
    exact leads.position cs inside
  · exact exists_expandSource fills inside

/-- A chain node with elements on its output has elements on its input. -/
theorem input_some (sized : Sized r) (fits : MoveFits K r nd e)
    (some : 0 < sizeIn r (resultOf nd)) : 0 < sizeIn r (dataOf nd) := by
  by_cases transposes : nd.type = .transpose
  · have reads := moveIndex_transpose transposes fits
    have here := reads.inside _ (inside_zeros (positive_dims sized some))
    have bound := flat_inside here
    exact bound.1.trans_lt bound.2
  · by_cases expands : nd.type = .expand
    · by_contra none
      have empty := fits.repeats expands (by have := sizeIn_nonneg sized (dataOf nd); omega)
      omega
    · rw [← fits.count transposes expands]
      exact some

/-- **The position read is inside the input**, and every position is read. -/
theorem moveIndex_inside (sized : Sized r) (fits : MoveFits K r nd e)
    (some : 0 < sizeIn r (resultOf nd)) :
    (∀ oi, 0 ≤ oi → oi < sizeIn r (resultOf nd) →
      0 ≤ moveIndex r nd oi ∧ moveIndex r nd oi < sizeIn r (dataOf nd)) ∧
    ∀ i, 0 ≤ i → i < sizeIn r (dataOf nd) →
      ∃ oi, 0 ≤ oi ∧ oi < sizeIn r (resultOf nd) ∧ moveIndex r nd oi = i := by
  have positive := positive_dims sized some
  have someIn := input_some sized fits some
  have reading : ∀ (shape : Shape) source, MoveReads r nd shape source → (∀ d ∈ shape, 0 < d) →
      (∀ oi, 0 ≤ oi → oi < sizeIn r (resultOf nd) →
        0 ≤ moveIndex r nd oi ∧ moveIndex r nd oi < sizeIn r (dataOf nd)) ∧
      ∀ i, 0 ≤ i → i < sizeIn r (dataOf nd) →
        ∃ oi, 0 ≤ oi ∧ oi < sizeIn r (resultOf nd) ∧ moveIndex r nd oi = i := by
    intro shape source reads positiveIn
    refine ⟨fun oi low high => ?_, fun i low high => ?_⟩
    · obtain ⟨cs, inside, rfl⟩ := exists_coords positive low high
      rw [reads.index cs inside, ← reads.size]
      exact flat_inside (reads.inside cs inside)
    · rw [← reads.size] at high
      obtain ⟨xs, inside, rfl⟩ := exists_coords positiveIn low high
      obtain ⟨cs, within, rfl⟩ := reads.onto xs inside
      have bounds := flat_inside within
      exact ⟨_, bounds.1, bounds.2, reads.index cs within⟩
  by_cases transposes : nd.type = .transpose
  · exact reading _ _ (moveIndex_transpose transposes fits) (positive_dims sized someIn)
  · by_cases expands : nd.type = .expand
    · obtain ⟨fills, reads⟩ := moveIndex_expand sized expands fits someIn
      refine reading _ _ reads fun d mem => ?_
      obtain ⟨i, small, rfl⟩ := getElem_of_mem mem
      obtain ⟨length, each⟩ := forall₂_iff_get.mp fills
      exact (each i (by omega) small).1
    · have same : ∀ oi, moveIndex r nd oi = oi := by
        intro oi
        rw [moveIndex]
        rw [if_neg transposes, if_neg expands]
      rw [fits.count transposes expands]
      exact ⟨fun oi low high => by rw [same]; exact ⟨low, high⟩,
        fun i low high => ⟨i, low, high, same i⟩⟩

/-- A node of a chain, as the kernels see it: it moves elements and does nothing else. -/
structure ChainNode (nd : Node) : Prop where
  type : chainOp nd.type = true
  bare : bareChainNode nd = true
  data : dataOf nd ≠ kNoTensor
  result : resultOf nd ≠ kNoTensor
  unfolded : nd.attr.has (str "view_stride") = false
  single : nd.attr.has (str "pw_outs") = false

theorem ChainNode.facts (chain : ChainNode nd) : nd.outputs.length = 1 ∧
    nd.inputs.isEmpty = false ∧ nd.attr.has (str "pw_steps") = false ∧
    nd.fusedBias = kNoTensor ∧ nd.fusedResidual = kNoTensor := by
  have bare := chain.bare
  simp only [bareChainNode, and_eq_true, not_eq_true', decide_eq_true_eq] at bare
  obtain ⟨⟨⟨⟨steps, -⟩, bias⟩, residual⟩, outputs⟩ := bare
  refine ⟨outputs, ?_, steps, bias, residual⟩
  cases shape : nd.inputs with
  | nil =>
    have data := chain.data
    rw [dataOf, shape] at data
    exact absurd rfl data
  | cons a rest => rfl

theorem ChainNode.outputs (chain : ChainNode nd) : nd.outputs = [resultOf nd] := by
  obtain ⟨a, only⟩ := length_eq_one_iff.mp chain.facts.1
  rw [resultOf, only]
  rfl

/-- **A chain node copies the elements its index names.** -/
theorem readAt_value (sized : Sized r) (chain : ChainNode nd) (fits : MoveFits K r nd e) {oi : Int}
    (low : 0 ≤ oi) (high : oi < sizeIn r (resultOf nd)) :
    readAt K.zero ((machine K r).value nd e (resultOf nd)) oi =
      readAt K.zero (e (dataOf nd)) (moveIndex r nd oi) := by
  obtain ⟨outputs, inputs, steps, -, residual⟩ := chain.facts
  have some : 0 < sizeIn r (resultOf nd) := low.trans_lt high
  have solid : Solid (shapeIn r (resultOf nd)) := ⟨fits.axes, positive_dims sized some⟩
  have position : nd.outputs.idxOf (resultOf nd) = 0 := by
    rw [chain.outputs]
    simp
  change readAt K.zero ((runNode K r nd e).getD (nd.outputs.idxOf (resultOf nd)) []) oi = _
  rw [position]
  have type := chain.type
  simp only [chainOp, or_eq_true, decide_eq_true_eq] at type
  -- A gather reads what the walk of the position leads to.
  have gathered : ∀ fs : List (Int → Int),
      readAt K.zero (gather K.zero (shapeIn r (resultOf nd)) fs 0 (e (dataOf nd))) oi =
        readAt K.zero (e (dataOf nd))
          (RowMajor.walk (rowStridesOf (shapeIn r (resultOf nd))) fs oi 0) := by
    intro fs
    obtain ⟨cs, inside, rfl⟩ := exists_coords solid.positive low high
    rw [readAt_gather K.zero solid fs 0 _ inside, rowStridesOf, walk_flat inside]
  by_cases transposes : nd.type = .transpose
  · have plain : plainMover nd = true := by
      have result := chain.result
      have data := chain.data
      unfold resultOf at result
      unfold dataOf at data
      simp [-headD_eq_head?_getD, plainMover, transposes, outputs, result, inputs, data,
        steps, chain.single, residual]
    have out : shapeIn r (resultOf nd) =
        transposeShape (nd.attr.getints (str "perm")) (shapeIn r (dataOf nd)) := by
      rw [fits.shape, moveShape]
      exact if_pos transposes
    rw [Cpu.runNode, if_pos plain, Cpu.runMover]
    rw [chain.unfolded, if_neg Bool.false_ne_true, if_pos transposes, moveIndex]
    rw [if_pos transposes, ← gathered, out]
    rfl
  · have copies : plainCopy nd = true := by
      have data := chain.data
      unfold dataOf at data
      rcases type with (((here | here) | here) | here) | here
      · exact absurd here transposes
      all_goals simp [-headD_eq_head?_getD, plainCopy, here, outputs, inputs, data, steps]
    have moves : plainMover nd = false := by
      rcases type with (((here | here) | here) | here) | here
      · exact absurd here transposes
      all_goals simp [plainMover, here]
    have copied : ∀ shape, shapeIn r (resultOf nd) = shape →
        readAt K.zero (copyAs K.zero shape (e (dataOf nd))) oi =
          readAt K.zero (e (dataOf nd)) oi := by
      rintro shape rfl
      refine readAt_copyAs K.zero _ low ?_
      rw [numElements_eq_size fits.axes]
      exact high
    have shape := fits.shape
    rw [runNode, if_neg (by rw [moves]; exact false_ne_true), if_pos copies, runCopy, moveIndex]
    rw [moveShape] at shape
    rw [if_neg transposes] at shape ⊢
    by_cases expands : nd.type = .expand
    · have reshapes : nd.type ≠ .reshape := by rw [expands]; decide
      have squeezes : nd.type ≠ .squeeze := by rw [expands]; decide
      have unsqueezes : nd.type ≠ .unsqueeze := by rw [expands]; decide
      rw [if_neg reshapes, if_neg squeezes, if_neg unsqueezes] at shape ⊢
      rw [if_pos expands, ← gathered, shape]
      rfl
    · rw [if_neg expands]
      by_cases reshapes : nd.type = .reshape
      · rw [if_pos reshapes] at shape ⊢
        exact copied _ shape
      rw [if_neg reshapes] at shape ⊢
      by_cases squeezes : nd.type = .squeeze
      · rw [if_pos squeezes] at shape ⊢
        exact copied _ shape
      rw [if_neg squeezes] at shape ⊢
      have unsqueezes : nd.type = .unsqueeze := by
        rcases type with (((here | here) | here) | here) | here
        · exact absurd here transposes
        · exact absurd here reshapes
        · exact here
        · exact absurd here squeezes
        · exact absurd here expands
      rw [if_pos unsqueezes] at shape ⊢
      exact copied _ shape

end Vknn.Import
