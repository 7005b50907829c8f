import Mathlib.Algebra.BigOperators.Field
import Mathlib.Algebra.BigOperators.Intervals
import Mathlib.Tactic.FieldSimp
import Mathlib.Tactic.LinearCombination
import Vknn.Import.QuantSteps
import Vknn.Ir.FloatCasts

/-!
# What a corrected bias keeps

Rounding a weight shifts the mean of an output by the errors of its column, each times the mean
of the input that it multiplies.  The correction takes this shift out of the bias.

It is added up over the columns that are rounded to the grid; the others are taken to be exact.
It is worked out as if nothing stood between the product, the bias and the output, where a Gemm
has a factor on each; and as if every group of a convolution read the average of all groups.

The arithmetic is exact here: the numbers are rationals, and the bias is not rounded.
-/

namespace Vknn.Import.Quantize

open Finset Function Int

/-! ## The correction -/

/-- The first moments of an activation: a sum for each channel, and how many rows it is over. -/
structure Moments where
  sum : List ℚ := []
  count : Int := 0

/-- The mean that each column of a site is weighed with; none where nothing fitting is known. -/
def columnMeans (s : QuantSite) (st : Moments) : Option (Nat → ℚ) :=
  if st.count ≤ 0 then none
  else if s.convChannels = false then
    if (st.sum.length : Int) ≠ s.k then none
    else some fun k => st.sum.getD k 0 / st.count
  else
    let Cg := s.actChannels
    let taps := s.k.tdiv (max Cg 1)
    if (st.sum.length : Int) < Cg then none
    else
      let groups := min (max ((st.sum.length : Int).tdiv Cg) 1) s.convGroups
      some fun k =>
        (∑ gp ∈ range groups.toNat, st.sum.getD (gp * Cg.toNat + k / taps.toNat) 0) /
          (groups * max st.count 1 : Int)

/-- A packed weight, as numbers: the codes with a scale for each group and output, a codebook
where the codes are indices, and the columns that are kept. -/
structure Grid where
  group : Nat
  isOut : Nat → Bool
  q : Nat → Nat → Int
  scale : Nat → Nat → ℚ
  codebook : Option (Nat → ℚ)
  oval : Nat → Nat → ℚ

namespace Grid

variable (grid : Grid) (w : Nat → Nat → ℚ)

/-- The number that a code stands for. -/
def gridValue (gp k n : Nat) : ℚ :=
  match grid.codebook with
  | none => grid.q k n * grid.scale gp n
  | some entries => entries (grid.q k n % 256).toNat * grid.scale gp n

def dequantized (k n : Nat) : ℚ :=
  if grid.isOut k then grid.oval k n else grid.gridValue (k / grid.group) k n

/-- The shift of an output: the errors of the columns on the grid, group by group. -/
def delta (K : Nat) (mean : Nat → ℚ) (n : Nat) : ℚ :=
  ∑ gp ∈ range ((K + grid.group - 1) / grid.group),
    ∑ k ∈ Ico (gp * grid.group) (min K (gp * grid.group + grid.group)),
      if grid.isOut k then 0 else (grid.gridValue gp k n - w k n) * mean k

end Grid

abbrev Numbers := TensorId → Nat → ℚ

/-- Whether the correction of a site's bias goes ahead: the bias is a constant that nobody else
uses, with an element for each output, or there is room for a new one. -/
def Correctable (g : Graph) (s : QuantSite) : Prop :=
  let nd := g.nodes.getD s.nodeIdx {}
  if biasOf nd ≠ kNoTensor then
    ¬ (¬ g.isInitializer (biasOf nd) ∨ tensorUses g (biasOf nd) ≠ 1 ∨
        elemCount (g.desc (biasOf nd)).shape ≠ s.n) ∧
      ((g.desc (biasOf nd)).dtype = .float16 ∨ (g.desc (biasOf nd)).dtype = .float32)
  else nd.type = .matMul ∨ ¬ nd.attr.has (str "pw_steps") ∧ nd.inputs.length = 2

instance (g : Graph) (s : QuantSite) : Decidable (Correctable g s) := by
  unfold Correctable
  infer_instance

/-- The numbers after the correction: of the bias, or of a new one behind the other tensors. -/
def correctedNumbers (g : Graph) (num : Numbers) (s : QuantSite) (delta : Nat → ℚ) : Numbers :=
  let biasId := biasOf (g.nodes.getD s.nodeIdx {})
  if Correctable g s then
    if biasId ≠ kNoTensor then update num biasId fun n => num biasId n - delta n
    else update num (g.tensors.length : Int) fun n => -delta n
  else num

/-! ## The mean of an output -/

/-- The factors of a node on its product and on its bias. -/
def factors (nd : Node) : ℚ × ℚ :=
  if nd.type = .gemm then
    (floatValue (nd.attr.getf (str "alpha") ⟨0x3F800000⟩),
      floatValue (nd.attr.getf (str "beta") ⟨0x3F800000⟩))
  else (1, 1)

/-- The bias of an output; a node without a bias has 0. -/
def biasNumber (num : Numbers) (nd : Node) (n : Nat) : ℚ :=
  if biasOf nd = kNoTensor then 0 else num (biasOf nd) n

/-- The mean of what a column of an output multiplies.  An output of a convolution reads the
channels of its own group; every tap of a channel sees the mean of the channel. -/
def inputMean (s : QuantSite) (st : Moments) (n k : Nat) : ℚ :=
  if s.convChannels then
    let taps := s.k.toNat / s.actChannels.toNat
    let outCg := s.n.toNat / s.convGroups.toNat
    st.sum.getD (n / outCg * s.actChannels.toNat + k / taps) 0 / st.count
  else st.sum.getD k 0 / st.count

/-- The mean of an output of a node, in front of its activation. -/
def meanOutput (nd : Node) (s : QuantSite) (st : Moments) (w : Nat → Nat → ℚ) (bias : Nat → ℚ)
    (n : Nat) : ℚ :=
  (factors nd).1 * (∑ k ∈ range s.k.toNat, w k n * inputMean s st n k) + (factors nd).2 * bias n

/-- Moments that fit a site: one channel for each that its groups read. -/
structure Covers (s : QuantSite) (st : Moments) : Prop where
  some : 0 < st.count
  channels : (st.sum.length : Int) = s.actChannels * s.convGroups

/-- A site whose columns are the taps of its channels, and whose outputs are shared out evenly to
its groups. -/
structure SiteShaped (s : QuantSite) (C taps G M : Nat) : Prop where
  channels : s.actChannels = C ∧ 0 < C
  columns : s.k = (C * taps : Nat) ∧ 0 < taps
  groups : s.convGroups = G ∧ 0 < G
  outputs : s.n = (G * M : Nat) ∧ 0 < M
  flat : s.convChannels = false → taps = 1 ∧ G = 1

/-! ## Sums -/

theorem sum_groups (f : Nat → ℚ) {group : Nat} (some_ : 0 < group) (K : Nat) :
    (∑ gp ∈ range ((K + group - 1) / group),
      ∑ k ∈ Ico (gp * group) (min K (gp * group + group)), f k) = ∑ k ∈ range K, f k := by
  have upTo : ∀ j, (∑ gp ∈ range j,
      ∑ k ∈ Ico (gp * group) (min K (gp * group + group)), f k) =
        ∑ k ∈ range (min K (j * group)), f k := by
    intro j
    induction j with
    | zero => simp
    | succ j ih =>
      rw [sum_range_succ, ih, Nat.succ_mul, range_eq_Ico, range_eq_Ico]
      rcases le_total K (j * group) with full | more
      · rw [min_eq_left full, min_eq_left (full.trans (Nat.le_add_right _ _)),
          Ico_eq_empty_of_le full, sum_empty, add_zero]
      · rw [min_eq_right more]
        exact sum_Ico_consecutive f (Nat.zero_le _) (by omega)
  have enough : K ≤ (K + group - 1) / group * group := by
    have rest := Nat.div_add_mod (K + group - 1) group
    have small := Nat.mod_lt (K + group - 1) some_
    rw [Nat.mul_comm]
    omega
  rw [upTo, min_eq_left enough]

theorem sum_channels (f h : Nat → ℚ) (C taps : Nat) : (∑ k ∈ range (C * taps), f k * h (k / taps)) =
      ∑ c ∈ range C, (∑ k ∈ Ico (c * taps) (c * taps + taps), f k) * h c := by
  induction C with
  | zero => simp
  | succ C ih =>
    rw [sum_range_succ, ← ih, Nat.succ_mul, range_eq_Ico, range_eq_Ico,
      ← sum_Ico_consecutive _ (Nat.zero_le _) (Nat.le_add_right (C * taps) taps), sum_mul]
    refine congrArg _ (sum_congr rfl fun k inside => ?_)
    obtain ⟨low, high⟩ := mem_Ico.mp inside
    rw [Nat.div_eq_of_lt_le (by omega) (by rw [Nat.succ_mul]; omega)]

/-- **Two weighted means agree for all means exactly when** the weights do: with one group the
weights of each channel are equal; with several, of which the second mean is an average, they are
both 0. -/
theorem means_iff {C G g : Nat} (own : g < G) (a b : Nat → ℚ) :
    (∀ m : Nat → ℚ, (∑ c ∈ range C, a c * m (g * C + c)) =
        ∑ c ∈ range C, b c * ((∑ gp ∈ range G, m (gp * C + c)) / G)) ↔
      ∀ c < C, a c = (if G = 1 then b c else 0) ∧ (G ≠ 1 → b c = 0) := by
  have place : ∀ {gp gp' c c' : Nat}, c < C → c' < C → (gp * C + c = gp' * C + c' ↔
      gp = gp' ∧ c = c') := by
    intro gp gp' c c' small small'
    refine ⟨fun same => ?_, fun same => by rw [same.1, same.2]⟩
    have groups : gp = gp' := by
      have here := congrArg (· / C) same
      simpa [Nat.mul_comm _ C, Nat.mul_add_div (Nat.zero_lt_of_lt small),
        Nat.div_eq_of_lt small, Nat.div_eq_of_lt small'] using here
    subst groups
    exact ⟨rfl, Nat.add_left_cancel same⟩
  have count : (G : ℚ) ≠ 0 := by
    rw [Nat.cast_ne_zero]
    omega
  constructor
  · intro all c small
    -- the mean that is 1 in one channel of one group
    have left : ∀ {gp : Nat}, (∑ c' ∈ range C, a c' *
        (if g * C + c' = gp * C + c then (1 : ℚ) else 0)) = if g = gp then a c else 0 := by
      intro gp
      rw [sum_eq_single_of_mem c (mem_range.mpr small) fun c' inside other => by
        rw [if_neg fun same => other ((place (mem_range.mp inside) small).mp same).2, mul_zero]]
      by_cases same : g = gp
      · rw [if_pos (by rw [same]), if_pos same, mul_one]
      · rw [if_neg fun here => same ((place small small).mp here).1, if_neg same, mul_zero]
    have right : ∀ {gp : Nat}, gp < G → (∑ c' ∈ range C, b c' *
        ((∑ gp' ∈ range G, if gp' * C + c' = gp * C + c then (1 : ℚ) else 0) / G)) = b c / G := by
      intro gp inside
      rw [sum_eq_single_of_mem c (mem_range.mpr small) fun c' inside other => by
        rw [sum_eq_zero fun gp' _ => if_neg fun same =>
          other ((place (mem_range.mp inside) small).mp same).2, zero_div, mul_zero]]
      rw [sum_eq_single_of_mem gp (mem_range.mpr inside) fun gp' _ other =>
        if_neg fun same => other ((place small small).mp same).1, if_pos rfl, mul_one_div]
    have here := all fun j => if j = g * C + c then 1 else 0
    rw [left, right own, if_pos rfl] at here
    by_cases single : G = 1
    · rw [if_pos single]
      exact ⟨by rw [here, single, Nat.cast_one, div_one], fun several => absurd single several⟩
    · obtain ⟨gp, inside, other⟩ : ∃ gp, gp < G ∧ g ≠ gp := by
        by_cases first : g = 0
        · exact ⟨1, by omega, by omega⟩
        · exact ⟨0, by omega, first⟩
      have there := all fun j => if j = gp * C + c then 1 else 0
      rw [left, right inside, if_neg other] at there
      rw [if_neg single, here, ← there]
      refine ⟨rfl, fun _ => ?_⟩
      rcases div_eq_zero_iff.mp there.symm with none | none
      · exact none
      · exact absurd none count
  · intro weights m
    refine sum_congr rfl fun c inside => ?_
    obtain ⟨own_, others⟩ := weights c (mem_range.mp inside)
    by_cases single : G = 1
    · subst single
      obtain rfl : g = 0 := by omega
      rw [own_, if_pos rfl, sum_range_one, Nat.cast_one, div_one]
    · rw [own_, if_neg single, others single, zero_mul, zero_mul]

/-! ## The bias after the correction -/

section Corrected

variable {g : Graph} {s : QuantSite} {nd : Node} (arith : Arithmetic)

/-- A correction that does not go ahead changes nothing. -/
theorem applyBiasCorrection_refused (refused : ¬ Correctable g s) (d : List DoubleBits)
    (weightName biasSuffix : Str) :
    applyBiasCorrection arith g s d weightName biasSuffix = g := by
  unfold Correctable at refused
  unfold applyBiasCorrection
  dsimp only at refused ⊢
  by_cases present : biasOf (g.nodes.getD s.nodeIdx {}) ≠ kNoTensor
  · rw [if_pos present] at refused ⊢
    split_ifs with unusable usual
    · rfl
    · exact absurd ⟨unusable, usual⟩ refused
    · rfl
  · rw [if_neg present, not_or] at refused
    rw [if_neg present, if_neg refused.1, if_neg refused.2]

theorem applyBiasCorrection_held (correct : Correctable g s)
    (present : biasOf (g.nodes.getD s.nodeIdx {}) ≠ kNoTensor) (d : List DoubleBits)
    (weightName biasSuffix : Str) :
    (applyBiasCorrection arith g s d weightName biasSuffix).nodes = g.nodes := by
  unfold Correctable at correct
  unfold applyBiasCorrection
  dsimp only at correct ⊢
  rw [if_pos present] at correct ⊢
  rw [if_neg correct.1, if_pos correct.2]
  rfl

/-- A new bias is the last tensor, and the node's own. -/
theorem applyBiasCorrection_new (node : g.nodes[s.nodeIdx]? = some nd) (correct : Correctable g s)
    (absent : biasOf nd = kNoTensor) (d : List DoubleBits) (weightName biasSuffix : Str) :
    ∃ nd', (applyBiasCorrection arith g s d weightName biasSuffix).nodes[s.nodeIdx]? = some nd' ∧
      nd'.type = nd.type ∧ nd'.attr = nd.attr ∧ biasOf nd' = (g.tensors.length : Int) := by
  obtain rfl := getD_of_node node
  unfold Correctable at correct
  unfold applyBiasCorrection
  dsimp only at correct ⊢
  rw [if_neg (not_not.mpr absent)] at correct ⊢
  have replaced : ∀ f : Node → Node, (modifyNode (addConstant g
      { name := weightName ++ biasSuffix, shape := [s.n], isInitializer := true }
        (arith.correction d)).1 s.nodeIdx f).nodes[s.nodeIdx]? =
          some (f (g.nodes.getD s.nodeIdx {})) := by
    intro f
    rw [getElem?_modifyNode, if_pos rfl]
    exact congrArg (Option.map f) node
  by_cases product : (g.nodes.getD s.nodeIdx {}).type = .matMul
  · rw [if_pos product, replaced]
    exact ⟨_, rfl, rfl, rfl, if_pos product⟩
  · have room := correct.resolve_left product
    rw [if_neg product, if_pos room, replaced]
    refine ⟨_, rfl, rfl, rfl, ?_⟩
    have count : ∀ t, ({ g.nodes.getD s.nodeIdx {} with
        inputs := (g.nodes.getD s.nodeIdx {}).inputs ++ [t] } : Node).pwCoreInputs = 3 := by
      intro t
      rw [Node.pwCoreInputs, if_neg room.1, List.length_append, room.2]
      rfl
    rw [biasOf, if_neg product, if_pos (count _).ge, List.getD_eq_getElem?_getD,
      List.getElem?_append_right room.2.le, room.2]
    rfl

/-- The node of a site after the correction, and the number that its bias has lost. -/
theorem biasNumber_corrected (node : g.nodes[s.nodeIdx]? = some nd) (d : List DoubleBits)
    (weightName biasSuffix : Str) :
    ∃ nd', (applyBiasCorrection arith g s d weightName biasSuffix).nodes[s.nodeIdx]? = some nd' ∧
      nd'.type = nd.type ∧ nd'.attr = nd.attr ∧ ∀ (num : Numbers) (delta : Nat → ℚ) (n : Nat),
        biasNumber (correctedNumbers g num s delta) nd' n =
          biasNumber num nd n - if Correctable g s then delta n else 0 := by
  have fresh : ((g.tensors.length : Nat) : Int) ≠ kNoTensor := by
    unfold kNoTensor
    omega
  unfold correctedNumbers
  dsimp only
  rw [getD_of_node node]
  by_cases correct : Correctable g s
  · simp only [if_pos correct]
    by_cases absent : biasOf nd = kNoTensor
    · obtain ⟨nd', node', type, attr, bias⟩ :=
        applyBiasCorrection_new arith node correct absent d weightName biasSuffix
      refine ⟨nd', node', type, attr, fun num delta n => ?_⟩
      rw [if_neg (not_not.mpr absent), biasNumber, biasNumber, if_pos absent, bias, if_neg fresh,
        update_self, zero_sub]
    · have same := applyBiasCorrection_held arith correct (by rwa [getD_of_node node]) d weightName
        biasSuffix
      refine ⟨nd, by rw [same, node], rfl, rfl, fun num delta n => ?_⟩
      rw [if_pos absent, biasNumber, biasNumber, if_neg absent, if_neg absent, update_self]
  · simp only [if_neg correct, sub_zero]
    rw [applyBiasCorrection_refused arith correct]
    exact ⟨nd, node, rfl, rfl, fun num delta n => rfl⟩

end Corrected

/-! ## The means -/

section Means

variable {g : Graph} {s : QuantSite} {nd : Node} {C taps G M : Nat} {st : Moments}

def Moments.mean (st : Moments) (j : Nat) : ℚ := st.sum.getD j 0 / st.count

/-- The columns are weighed with the average over the groups. -/
theorem columnMeans_eq (shaped : SiteShaped s C taps G M) (covers : Covers s st) :
    ∃ mean, columnMeans s st = some mean ∧ ∀ k,
      mean k = (∑ gp ∈ range G, st.mean (gp * C + k / taps)) / G := by
  obtain ⟨channels, channel⟩ := shaped.channels
  obtain ⟨columns, tap⟩ := shaped.columns
  obtain ⟨groups, group⟩ := shaped.groups
  have count := covers.some
  have length := covers.channels
  rw [channels, groups] at length
  rw [columnMeans, if_neg (not_le.mpr count)]
  cases conv : s.convChannels with
  | false =>
    obtain ⟨rfl, rfl⟩ := shaped.flat conv
    rw [if_pos rfl, if_neg (by rw [length, columns]; simp)]
    refine ⟨_, rfl, fun k => ?_⟩
    rw [sum_range_one, Nat.zero_mul, Nat.zero_add, Nat.div_one, Nat.cast_one, div_one, Moments.mean]
  | true =>
    have many : ((st.sum.length : Int).tdiv C) = G := by
      rw [length, Int.mul_comm, mul_tdiv_cancel _ (by omega)]
    have wide : (C * taps : Int).tdiv C = taps := by rw [Int.mul_comm, mul_tdiv_cancel _ (by omega)]
    rw [if_neg (by simp), channels, columns, groups]
    dsimp only
    rw [max_eq_left (by omega : (1 : Int) ≤ C), many, Nat.cast_mul, wide, max_eq_left (by omega),
      min_self, max_eq_left (by omega : (1 : Int) ≤ st.count), if_neg]
    · refine ⟨_, rfl, fun k => ?_⟩
      rw [toNat_natCast, toNat_natCast, toNat_natCast]
      simp only [Moments.mean]
      rw [← sum_div, div_div, mul_comm (st.count : ℚ)]
      push_cast
      rfl
    · rw [length, not_lt]
      exact le_mul_of_one_le_right (by omega) (by omega)

theorem inputMean_eq (shaped : SiteShaped s C taps G M) {n : Nat} (output : n < s.n.toNat)
    (k : Nat) : inputMean s st n k = st.mean (n / M * C + k / taps) := by
  obtain ⟨channels, channel⟩ := shaped.channels
  obtain ⟨columns, -⟩ := shaped.columns
  obtain ⟨groups, group⟩ := shaped.groups
  obtain ⟨outputs, -⟩ := shaped.outputs
  rw [outputs, toNat_natCast] at output
  unfold inputMean
  cases conv : s.convChannels with
  | false =>
    obtain ⟨rfl, rfl⟩ := shaped.flat conv
    rw [if_neg (by simp), Nat.div_eq_of_lt (by omega), Nat.zero_mul, Nat.zero_add, Nat.div_one,
      Moments.mean]
  | true =>
    rw [if_pos rfl, channels, columns, groups, outputs]
    dsimp only
    rw [toNat_natCast, toNat_natCast, toNat_natCast, toNat_natCast,
      Nat.mul_div_cancel_left _ channel, Nat.mul_div_cancel_left _ group, Moments.mean]

theorem delta_eq {grid : Grid} (some_ : 0 < grid.group) (w : Nat → Nat → ℚ) (K : Nat)
    (mean : Nat → ℚ) (n : Nat) : grid.delta w K mean n = ∑ k ∈ range K,
      (if grid.isOut k then 0 else grid.dequantized k n - w k n) * mean k := by
  rw [← sum_groups _ some_, Grid.delta]
  refine sum_congr rfl fun gp _ => sum_congr rfl fun k inside => ?_
  obtain ⟨low, high⟩ := mem_Ico.mp inside
  have place : k / grid.group = gp := Nat.div_eq_of_lt_le (by omega) (by
    rw [Nat.succ_mul]
    omega)
  by_cases out : grid.isOut k = true
  · rw [if_pos out, if_pos out, zero_mul]
  · rw [if_neg out, if_neg out, Grid.dequantized, if_neg out, place]

theorem mean_range (m : Nat → ℚ) {gp c : Nat} (inGroup : gp < G) (inChannel : c < C) :
    Moments.mean ⟨(List.range (C * G)).map m, 1⟩ (gp * C + c) = m (gp * C + c) := by
  have inside : gp * C + c < C * G := by
    have next := Nat.mul_le_mul_right C (Nat.succ_le_of_lt inGroup)
    rw [Nat.succ_mul] at next
    rw [Nat.mul_comm C G]
    omega
  rw [Moments.mean, List.getD_eq_getElem?_getD, List.getElem?_map, List.getElem?_range inside]
  simp

/-- The error of the columns of a channel in an output. -/
def channelError (grid : Grid) (w : Nat → Nat → ℚ) (taps c n : Nat) : ℚ :=
  ∑ k ∈ Ico (c * taps) (c * taps + taps), (grid.dequantized k n - w k n)

/-- The error of those columns of a channel that the correction counts. -/
def countedError (grid : Grid) (w : Nat → Nat → ℚ) (taps c n : Nat) : ℚ :=
  ∑ k ∈ Ico (c * taps) (c * taps + taps),
    if grid.isOut k then 0 else grid.dequantized k n - w k n

/-- For each output and channel, the error times the factor of the product is what the correction
counts times the factor of the bias; with several groups both are 0. -/
def MeanSuited (g : Graph) (s : QuantSite) (nd : Node) (grid : Grid) (w : Nat → Nat → ℚ) : Prop :=
  let taps := s.k.toNat / s.actChannels.toNat
  ∀ n < s.n.toNat, ∀ c < s.actChannels.toNat,
    let counted := if Correctable g s then (factors nd).2 * countedError grid w taps c n else 0
    (factors nd).1 * channelError grid w taps c n = (if s.convGroups = 1 then counted else 0) ∧
      (s.convGroups ≠ 1 → counted = 0)

/-- **The mean of every output is kept, whatever the means of the inputs, exactly when** the errors
of each channel cancel against what is taken out of the bias. -/
theorem meanOutput_kept_iff (arith : Arithmetic) (node : g.nodes[s.nodeIdx]? = some nd)
    (shaped : SiteShaped s C taps G M) {grid : Grid} (some_ : 0 < grid.group)
    (w : Nat → Nat → ℚ) (num : Numbers) (d : List DoubleBits) (weightName biasSuffix : Str) :
    ∃ nd', (applyBiasCorrection arith g s d weightName biasSuffix).nodes[s.nodeIdx]? = some nd' ∧
      ((∀ st, Covers s st → ∃ mean, columnMeans s st = some mean ∧ ∀ n < s.n.toNat,
          meanOutput nd' s st grid.dequantized
              (biasNumber (correctedNumbers g num s (grid.delta w s.k.toNat mean)) nd') n =
            meanOutput nd s st w (biasNumber num nd) n) ↔
        MeanSuited g s nd grid w) := by
  obtain ⟨nd', node', type, attr, bias⟩ := biasNumber_corrected arith node d weightName biasSuffix
  refine ⟨nd', node', ?_⟩
  obtain ⟨channels, channel⟩ := shaped.channels
  obtain ⟨columns, tap⟩ := shaped.columns
  obtain ⟨groups, group⟩ := shaped.groups
  obtain ⟨outputs, output⟩ := shaped.outputs
  have same : factors nd' = factors nd := by rw [factors, factors, type, attr]
  have wide : s.k.toNat = C * taps := by rw [columns, toNat_natCast]
  -- the two outputs differ by the error of each channel, less what the bias has lost
  have kept_iff : ∀ {st : Moments} {mean : Nat → ℚ} {n : Nat}, n < s.n.toNat →
      (∀ k, mean k = (∑ gp ∈ range G, st.mean (gp * C + k / taps)) / G) →
      (meanOutput nd' s st grid.dequantized
          (biasNumber (correctedNumbers g num s (grid.delta w s.k.toNat mean)) nd') n =
        meanOutput nd s st w (biasNumber num nd) n ↔
      (∑ c ∈ range C, (factors nd).1 * channelError grid w taps c n * st.mean (n / M * C + c)) =
        ∑ c ∈ range C, (if Correctable g s then (factors nd).2 * countedError grid w taps c n
          else 0) * ((∑ gp ∈ range G, st.mean (gp * C + c)) / G)) := by
    intro st mean n small means
    have product : (∑ k ∈ range s.k.toNat, grid.dequantized k n * inputMean s st n k) -
        (∑ k ∈ range s.k.toNat, w k n * inputMean s st n k) =
          ∑ c ∈ range C, channelError grid w taps c n * st.mean (n / M * C + c) := by
      rw [← sum_sub_distrib, wide]
      simp only [← sub_mul, inputMean_eq shaped small]
      exact sum_channels _ (fun c => st.mean (n / M * C + c)) C taps
    have shift : grid.delta w s.k.toNat mean n = ∑ c ∈ range C, countedError grid w taps c n *
        ((∑ gp ∈ range G, st.mean (gp * C + c)) / G) := by
      rw [delta_eq some_, wide]
      simp only [means]
      exact sum_channels _ (fun c => (∑ gp ∈ range G, st.mean (gp * C + c)) / G) C taps
    have scaled : (∑ c ∈ range C, (factors nd).1 * channelError grid w taps c n *
        st.mean (n / M * C + c)) = (factors nd).1 * ∑ c ∈ range C, channelError grid w taps c n *
          st.mean (n / M * C + c) := by
      rw [mul_sum]
      exact sum_congr rfl fun c _ => mul_assoc _ _ _
    have taken : (∑ c ∈ range C, (if Correctable g s then
        (factors nd).2 * countedError grid w taps c n else 0) *
          ((∑ gp ∈ range G, st.mean (gp * C + c)) / G)) =
        (factors nd).2 * if Correctable g s then grid.delta w s.k.toNat mean n else 0 := by
      split_ifs
      · rw [shift, mul_sum]
        exact sum_congr rfl fun c _ => mul_assoc _ _ _
      · simp
    rw [scaled, taken, ← product, meanOutput, meanOutput, same, bias]
    constructor
    · intro kept
      linear_combination kept
    · intro kept
      linear_combination kept
  simp only [wide] at kept_iff
  unfold MeanSuited
  dsimp only
  rw [channels, toNat_natCast, wide, Nat.mul_div_cancel_left _ channel, groups]
  have own : ∀ {n : Nat}, n < s.n.toNat → n / M < G := fun {n} small => by
    rw [outputs, toNat_natCast] at small
    exact (Nat.div_lt_iff_lt_mul output).mpr small
  have single : ((G : Int) = 1 ↔ G = 1) := by omega
  constructor
  · intro kept n small
    simp only [single, ne_eq]
    refine (means_iff (own small) _ _).mp fun m => ?_
    -- moments of one row, with the given means
    have covers : Covers s ⟨(List.range (C * G)).map m, 1⟩ :=
      ⟨Int.one_pos, by rw [List.length_map, List.length_range, channels, groups, Nat.cast_mul]⟩
    obtain ⟨mean, found, equal⟩ := kept _ covers
    obtain ⟨mean', found', means⟩ := columnMeans_eq shaped covers
    obtain rfl := Option.some.inj (found.symm.trans found')
    have sums := (kept_iff small means).mp (equal n small)
    calc _ = ∑ c ∈ range C, (factors nd).1 * channelError grid w taps c n *
          Moments.mean ⟨(List.range (C * G)).map m, 1⟩ (n / M * C + c) :=
        sum_congr rfl fun c inside => by rw [mean_range m (own small) (mem_range.mp inside)]
      _ = _ := sums
      _ = _ := sum_congr rfl fun c inside => by
        rw [sum_congr rfl fun gp inGroup => mean_range m (mem_range.mp inGroup) (mem_range.mp inside)]
  · intro suited st covers
    obtain ⟨mean, found, means⟩ := columnMeans_eq shaped covers
    refine ⟨mean, found, fun n small => (kept_iff small means).mpr ?_⟩
    refine (means_iff (own small) _ _).mpr (fun c inside => ?_) st.mean
    have here := suited n small c inside
    simpa only [single, ne_eq] using here

theorem siteAt_geometry {opt : QuantOptions} {i : Nat} (found : siteAt g opt i nd = some s) :
    ∃ base : QuantSite, base.convChannels = false ∧ base.convGroups = 1 ∧
      siteGeometry nd (g.desc s.weight) base = some s := by
  unfold siteAt at found
  dsimp only at found
  split at found
  · cases found
  split at found
  · cases found
  split at found
  · cases found
  split at found
  · cases found
  split at found
  · cases found
  rename_i r geometry
  split at found
  · cases found
  obtain rfl := Option.some.inj found
  have weight := (siteGeometry_spec geometry).2.1
  dsimp only at weight
  refine ⟨{ nodeIdx := i, weight := nd.inputs.getD 1 kNoTensor, act := nd.inputs.getD 0 kNoTensor },
    rfl, rfl, ?_⟩
  rw [weight]
  exact geometry

/-- The sites of the quantizer are shaped well, where the weight has elements, fewer than 2^63, and
the groups divide the outputs. -/
theorem exists_siteShaped {opt : QuantOptions} {i : Nat} (found : siteAt g opt i nd = some s)
    (positive : ∀ d ∈ (g.desc s.weight).shape, 0 < d)
    (fits : numElements (g.desc s.weight).shape < 2 ^ 63) (shared : s.convGroups ∣ s.n) :
    ∃ C taps G M, SiteShaped s C taps G M := by
  obtain ⟨base, flat, one, geometry⟩ := siteAt_geometry found
  generalize g.desc s.weight = wd at positive fits geometry
  have matrix : ∀ {k n : Int}, 0 < k → 0 < n → s.actChannels = k → s.k = k → s.n = n →
      s.convGroups = 1 → ∃ C taps G M, SiteShaped s C taps G M := by
    intro k n some_ outputs channels columns rows groups
    refine ⟨k.toNat, 1, 1, n.toNat, ⟨by omega, by omega⟩, ⟨by omega, by omega⟩,
      ⟨groups, by omega⟩, ⟨by omega, by omega⟩, fun _ => ⟨rfl, rfl⟩⟩
  unfold siteGeometry at geometry
  split at geometry
  · rename_i rows cols _ shape
    rw [shape] at positive
    obtain rfl := Option.some.inj geometry
    exact matrix (positive rows (by simp)) (positive cols (by simp)) rfl rfl rfl one
  · rename_i rows cols _ shape
    rw [shape] at positive
    split at geometry
    · cases geometry
    · split at geometry <;> obtain rfl := Option.some.inj geometry
      · exact matrix (positive cols (by simp)) (positive rows (by simp)) rfl rfl rfl one
      · exact matrix (positive rows (by simp)) (positive cols (by simp)) rfl rfl rfl one
  · rename_i cout cin kh kw _ shape
    rw [shape] at positive fits
    obtain rfl := Option.some.inj geometry
    dsimp only at shared ⊢
    obtain ⟨M, outputs⟩ := shared
    have channel := positive cin (by simp)
    have output := positive cout (by simp)
    have tap := Int.mul_pos (positive kh (by simp)) (positive kw (by simp))
    have whole : wrap64 (cin * kh * kw) = cin * (kh * kw) := by
      rw [Int.mul_assoc]
      have size : numElements [cout, cin, kh, kw] = cout * (cin * (kh * kw)) := by
        simp [numElements, Int.mul_assoc]
      have least : cin * (kh * kw) ≤ cout * (cin * (kh * kw)) :=
        le_mul_of_one_le_left (Int.mul_nonneg channel.le tap.le) output
      have nonneg := Int.mul_nonneg channel.le tap.le
      exact wrap64_of_fits (by omega) (by omega)
    have groups : 0 < max (nd.attr.geti (str "group") 1) 1 := by omega
    generalize max (nd.attr.geti (str "group") 1) 1 = G at groups outputs
    have mem : 0 < M := by
      by_contra none
      have nonpos := Int.mul_nonpos_of_nonneg_of_nonpos groups.le (not_lt.mp none)
      omega
    refine ⟨cin.toNat, (kh * kw).toNat, G.toNat, M.toNat, ⟨?_, by omega⟩, ⟨?_, by omega⟩,
      ⟨?_, by omega⟩, ⟨?_, by omega⟩, nofun⟩
    · exact (toNat_of_nonneg channel.le).symm
    · dsimp only
      rw [whole, Nat.cast_mul, toNat_of_nonneg channel.le, toNat_of_nonneg tap.le]
    · exact (toNat_of_nonneg groups.le).symm
    · dsimp only
      rw [outputs, Nat.cast_mul, toNat_of_nonneg groups.le, toNat_of_nonneg mem.le]
  · cases geometry

end Means

/-! ## A Gemm with a factor -/

/-- A Gemm of two columns and one output, without a bias. -/
def scaledGemm (alpha : Float32Bits) : Graph where
  tensors := [{ name := str "x" }, { name := str "w", shape := [2, 1] }, { name := str "y" }]
  nodes := [{
    type := .gemm
    inputs := [0, 1]
    outputs := [2]
    attr := ⟨(∅ : Std.ExtTreeMap Str Attr).insert (str "alpha")
      ({ kind := .float, f := alpha } : Attr)⟩ }]
  inputs := [0]
  outputs := [2]
  initializers := (∅ : Std.ExtTreeMap TensorId HostBuffer).insert 1 []

def gemmSite : QuantSite := { weight := 1, act := 0, k := 2, n := 1, actChannels := 2 }

/-- Both weights are rounded to 1/2, the one up, the other down. -/
def gemmGrid : Grid where
  group := 2
  isOut := fun _ => false
  q := fun _ _ => 1
  scale := fun _ _ => 1 / 2
  codebook := none
  oval := fun _ _ => 0

def gemmWeight (k _ : Nat) : ℚ := if k = 0 then 1 / 4 else 3 / 4

def noArithmetic : Arithmetic := ⟨fun _ _ => .keptFp16, fun _ payload _ => payload, fun _ => []⟩

/-- A factor of 1 on the product: the errors of 1/4 each are taken out of the new bias. -/
theorem scaledGemm_right : ∃ nd', (applyBiasCorrection noArithmetic (scaledGemm ⟨0x3F800000⟩)
      gemmSite [] [] []).nodes[0]? = some nd' ∧
    ∀ st, Covers gemmSite st → ∃ mean, columnMeans gemmSite st = some mean ∧ ∀ n < 1,
      meanOutput nd' gemmSite st gemmGrid.dequantized (biasNumber (correctedNumbers
          (scaledGemm ⟨0x3F800000⟩) (fun _ _ => 0) gemmSite (gemmGrid.delta gemmWeight 2 mean))
            nd') n =
        meanOutput ((scaledGemm ⟨0x3F800000⟩).nodes.getD 0 {}) gemmSite st gemmWeight
          (biasNumber (fun _ _ => 0) ((scaledGemm ⟨0x3F800000⟩).nodes.getD 0 {})) n := by
  have shaped : SiteShaped gemmSite 2 1 1 1 :=
    ⟨by decide, by decide, by decide, by decide, fun _ => by decide⟩
  have suited : MeanSuited (scaledGemm ⟨0x3F800000⟩) gemmSite
      ((scaledGemm ⟨0x3F800000⟩).nodes.getD 0 {}) gemmGrid gemmWeight := by
    unfold MeanSuited
    decide +kernel
  obtain ⟨nd', node, kept⟩ := meanOutput_kept_iff (g := scaledGemm ⟨0x3F800000⟩)
    noArithmetic rfl shaped (by decide : 0 < gemmGrid.group) gemmWeight (fun _ _ => 0) [] [] []
  exact ⟨nd', node, kept.mpr suited⟩

/-- A factor of 2 on the product: the output rises by twice the error, and only the error is
taken out of the bias. -/
theorem scaledGemm_astray : ∃ nd' mean, (applyBiasCorrection noArithmetic
      (scaledGemm ⟨0x40000000⟩) gemmSite [] [] []).nodes[0]? = some nd' ∧
    Covers gemmSite ⟨[1, 0], 1⟩ ∧ columnMeans gemmSite ⟨[1, 0], 1⟩ = some mean ∧
      meanOutput nd' gemmSite ⟨[1, 0], 1⟩ gemmGrid.dequantized (biasNumber (correctedNumbers
          (scaledGemm ⟨0x40000000⟩) (fun _ _ => 0) gemmSite (gemmGrid.delta gemmWeight 2 mean))
            nd') 0 = 3 / 4 ∧
        meanOutput ((scaledGemm ⟨0x40000000⟩).nodes.getD 0 {}) gemmSite ⟨[1, 0], 1⟩ gemmWeight
          (biasNumber (fun _ _ => 0) ((scaledGemm ⟨0x40000000⟩).nodes.getD 0 {})) 0 = 1 / 2 := by
  refine ⟨{ (scaledGemm ⟨0x40000000⟩).nodes.getD 0 {} with inputs := [0, 1, 3] },
    fun k => [1, 0].getD k 0 / (1 : Int), by decide, ⟨by decide, by decide⟩, rfl,
    by decide +kernel, by decide +kernel⟩
end Vknn.Import.Quantize
