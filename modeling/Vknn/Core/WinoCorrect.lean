import Vknn.Core.WinoConstruct
import Mathlib.Data.List.GetD

/-!
# The Winograd matrices correlate

The lists of the construction hold the interpolation matrices, up to the sign of the first
row, which the filter and the data share.  So a transformed line is the correlation, a
transformed tile is the correlation in two dimensions, and the convolution by tiles is the
direct one.
-/

namespace Vknn.Wino

open Polynomial Finset CookToom Nat Or
open List (foldl_cons getD_cons_zero length_map length_set zipWith)

/-! ## Lists as coefficients -/

theorem getD_zipWith_add {a b : List ℚ} (same : a.length = b.length) (j : Nat) :
    (zipWith (fun x y => x + y) a b).getD j 0 = a.getD j 0 + b.getD j 0 := by
  induction a generalizing b j with
  | nil =>
    obtain rfl := List.length_eq_zero_iff.mp same.symm
    exact (add_zero (0 : ℚ)).symm
  | cons x a ih =>
    cases b with
    | nil => cases same
    | cons y b =>
      cases j with
      | zero => rfl
      | succ j => exact ih (succ.inj same) j

theorem getD_append_zero (a : List ℚ) (j : Nat) : (a ++ [0]).getD j 0 = a.getD j 0 := by
  induction a generalizing j with
  | nil => cases j <;> rfl
  | cons x a ih =>
    cases j with
    | zero => rfl
    | succ j => exact ih j

theorem getD_map_zero {β : Type} (f : β → ℚ) {dflt : β} (zero : f dflt = 0) (a : List β) (j : Nat) :
    (a.map f).getD j 0 = f (a.getD j dflt) := by
  rw [← zero, List.getD_map]

/-- **The coefficients of a product of linear factors.** -/
theorem getD_winoPolyFromRoots (roots : List ℚ) (j : Nat) :
    (winoPolyFromRoots roots).getD j 0 = ((roots.map fun root => X - C root).prod : ℚ[X]).coeff j := by
  induction roots using List.reverseRecOn generalizing j with
  | nil =>
    rw [List.map_nil, List.prod_nil, coeff_one]
    cases j <;> rfl
  | append_singleton roots root ih =>
    have step : winoPolyFromRoots (roots ++ [root]) = zipWith (fun a b => a + b)
          (((winoPolyFromRoots roots).map fun c => -(root * c)) ++ [0])
          (0 :: winoPolyFromRoots roots) := by
      rw [winoPolyFromRoots, List.foldl_append]
      rfl
    have zero : -(root * 0) = 0 := by rw [mul_zero, neg_zero]
    rw [step, getD_zipWith_add (by simp), getD_append_zero,
      getD_map_zero (fun c => -(root * c)) zero, ih,
      List.map_append, List.prod_append, List.map_singleton, List.prod_singleton]
    cases j with
    | zero =>
      rw [getD_cons_zero, mul_coeff_zero, coeff_sub, coeff_X_zero, coeff_C_zero]
      ring
    | succ j =>
      rw [List.getD_cons_succ, ih, coeff_mul_X_sub_C]
      ring

theorem getD_powersFrom (p power : ℚ) {n t : Nat} (inside : t < n) :
    (powersFrom p power n).getD t 0 = power * p ^ t := by
  induction n generalizing power t with
  | zero => cases inside
  | succ n ih =>
    cases t with
    | zero => rw [powersFrom, getD_cons_zero, pow_zero, mul_one]
    | succ t =>
      rw [powersFrom, List.getD_cons_succ, ih _ (lt_of_succ_lt_succ inside), pow_succ]
      ring

/-! ## The points -/

theorem prod_others (points : List ℚ) (i : Nat) {M : Type} [CommMonoid M] (f : ℚ → M) :
    ((others points i).map f).prod = ∏ j ∈ (range points.length).erase i, f (point points j) := by
  have indices : ((List.range points.length).filter fun j => j ≠ i).toFinset =
      (range points.length).erase i := by
    ext j
    simp [and_comm]
  rw [others, List.map_map, ← indices, List.prod_toFinset _ (List.nodup_range.filter _)]
  rfl

theorem scale_eq (points : List ℚ) (i : Nat) :
    scale points i = ∏ j ∈ (range points.length).erase i, (point points i - point points j) := by
  have fold : ∀ (l : List ℚ) (a : ℚ),
      l.foldl (fun scale q => scale * (point points i - q)) a =
        a * (l.map fun q => point points i - q).prod := by
    intro l
    induction l with
    | nil => exact fun a => (mul_one a).symm
    | cons q l ih =>
      intro a
      rw [foldl_cons, ih, List.map_cons, List.prod_cons, mul_assoc]
  rw [scale, fold, one_mul, prod_others]

theorem coeff_others (points : List ℚ) (i j : Nat) :
    (winoPolyFromRoots (others points i)).getD j 0 =
      (Lagrange.nodal ((range points.length).erase i) (point points)).coeff j := by
  rw [getD_winoPolyFromRoots, prod_others, Lagrange.nodal_eq]

theorem coeff_points (points : List ℚ) (j : Nat) : (winoPolyFromRoots points).getD j 0 =
      (Lagrange.nodal (range points.length) (point points)).coeff j := by
  have all : points = (List.range points.length).map (point points) := by
    refine List.ext_getElem (by simp) fun i inside _ => ?_
    rw [List.getElem_map, List.getElem_range, point, List.getD_eq_getElem _ _ inside]
  have indices : (List.range points.length).toFinset = range points.length := by
    ext i
    simp
  rw [getD_winoPolyFromRoots, Lagrange.nodal_eq, ← indices, List.prod_toFinset _ List.nodup_range]
  conv_lhs => rw [all, List.map_map]
  rfl

theorem point_injOn {points : List ℚ} (distinct : points.Nodup) :
    Set.InjOn (point points) (range points.length : Finset ℕ) := by
  intro i first j second same
  have first' : i < points.length := mem_range.mp first
  have second' : j < points.length := mem_range.mp second
  rw [point, point, List.getD_eq_getElem _ _ first', List.getD_eq_getElem _ _ second'] at same
  exact (List.Nodup.getElem_inj_iff distinct).mp same

/-! ## The matrices -/

theorem getD_rows {β : Type} (f : Nat → β) (n : Nat) (last dflt : β) (i : Nat) (inside : i < n + 1) :
    ((List.range n).map f ++ [last]).getD i dflt = if i = n then last else f i := by
  split
  · rename_i same
    subst same
    rw [List.getD_append_right _ _ _ _ (by simp)]
    simp
  · rename_i other
    have below : i < n := by omega
    rw [List.getD_append _ _ _ _ (by simpa using below), List.getD_eq_getElem _ _ (by simpa using below),
      List.getElem_map, List.getElem_range]

theorem getD_range_map {β : Type} (f : Nat → β) {n i : Nat} (dflt : β) (inside : i < n) :
    ((List.range n).map f).getD i dflt = f i := by
  rw [List.getD_eq_getElem _ _ (by simpa using inside), List.getElem_map, List.getElem_range]

section Built

variable {points : List ℚ} {r m : Nat}

theorem entry_filterRows {i k : Nat} (row : i < points.length + 1) (tap : k < r) :
    entry (filterRows r points) i k = filterOf (point points) points.length r i k := by
  rw [entry, filterRows, getD_rows _ _ _ _ _ row, filterOf]
  split
  · exact getD_range_map _ _ tap
  · rw [getD_map_zero (fun power => power / scale points i) (zero_div _),
      getD_powersFrom _ _ tap, one_mul, scale_eq]

theorem entry_inputRows {i j : Nat} (row : i < points.length + 1) :
    entry (inputRows points) i j = dataOf (point points) points.length i j := by
  rw [entry, inputRows, getD_rows _ _ _ _ _ row, dataOf]
  split
  · exact coeff_points points j
  · rw [getD_append_zero, coeff_others]

theorem entry_outputRows {t i : Nat} (row : t < m) (column : i < points.length + 1) :
    entry (outputRows m points) t i = outputOf (point points) points.length m t i := by
  rw [entry, outputRows, getD_range_map _ _ row, getD_rows _ _ _ _ _ column, outputOf]
  split
  · rfl
  · rw [getD_powersFrom _ _ row, one_mul]

def sign (negative : Prop) [Decidable negative] (i : Nat) : ℚ := if negative ∧ i = 0 then -1 else 1

theorem sign_mul_self (negative : Prop) [Decidable negative] (i : Nat) :
    sign negative i * sign negative i = 1 := by
  unfold sign
  split
  · norm_num
  · norm_num

theorem entry_flip (negative : Prop) [Decidable negative] (M : List (List ℚ)) (i j : Nat) :
    entry (if negative then flipFirst M else M) i j = sign negative i * entry M i j := by
  have flips : ∀ v, flip v = -v := by
    intro v
    unfold flip
    split
    · rename_i zero
      rw [zero, neg_zero]
    · rfl
  unfold sign
  by_cases flipped : negative
  · rw [if_pos flipped]
    cases M with
    | nil => simp [flipFirst, entry]
    | cons row rows =>
      cases i with
      | zero =>
        rw [if_pos ⟨flipped, rfl⟩, flipFirst, entry, entry, getD_cons_zero,
          getD_cons_zero, getD_map_zero flip (if_pos rfl), flips, neg_one_mul]
      | succ i =>
        rw [if_neg (fun both => succ_ne_zero i both.2), one_mul]
        rfl
  · rw [if_neg flipped, if_neg (fun both => flipped both.1), one_mul]

/-- **The matrices that are built correlate.** -/
theorem built_correlates (count : points.length + 2 = m + r) (distinct : points.Nodup) :
    Correlates (entry (buildWinoMatrices r m points).outputAt)
      (entry (buildWinoMatrices r m points).filterG) (entry (buildWinoMatrices r m points).inputBt)
      m r (points.length + 1) := by
  have correlates := correlates_points (point_injOn distinct) count
  unfold buildWinoMatrices
  dsimp only
  rw [if_neg (not_not.mpr count)]
  refine (correlates.signed (sign_mul_self (entry (filterRows r points) 0 0 < 0))).congr ?_ ?_ ?_
  · exact fun t row i column => entry_outputRows row column
  · intro i row k tap
    dsimp only
    rw [entry_flip, entry_filterRows row tap]
  · intro i row j
    dsimp only
    rw [entry_flip, entry_inputRows row]

example : (buildWinoMatrices 3 2 [0, 1, -1]).filterG =
    [[1, 0, 0], [1 / 2, 1 / 2, 1 / 2], [1 / 2, -1 / 2, 1 / 2], [0, 0, 1]] := by decide +kernel

theorem built_outTile (count : points.length + 2 = m + r) :
    (buildWinoMatrices r m points).outTile = m := by
  unfold buildWinoMatrices
  dsimp only
  rw [if_neg (not_not.mpr count)]

theorem built_alpha (count : points.length + 2 = m + r) :
    (buildWinoMatrices r m points).alpha = points.length + 1 := by
  unfold buildWinoMatrices
  dsimp only
  rw [if_neg (not_not.mpr count)]
  dsimp only
  omega

end Built

/-! ## Lines and squares -/

theorem sumTo_eq (n : Nat) (f : Nat → ℚ) : sumTo n f = ∑ k ∈ range n, f k := by
  unfold sumTo
  induction n with
  | zero => rfl
  | succ n ih => rw [List.range_succ, List.foldl_append, ih, foldl_cons, List.foldl_nil, sum_range_succ]

/-- The product of two lists, as a sum over positions. -/
theorem sum_zipWith_mul {x y : List ℚ} {n : Nat} (enough : x.length ≤ n ∨ y.length ≤ n) :
    (zipWith (fun a b => a * b) x y).sum = ∑ i ∈ range n, x.getD i 0 * y.getD i 0 := by
  induction x generalizing y n with
  | nil => simp
  | cons a x ih =>
    cases y with
    | nil => simp
    | cons b y =>
      cases n with
      | zero => rcases enough with h | h <;> cases h
      | succ n =>
        rw [List.zipWith_cons_cons, List.sum_cons, sum_range_succ',
          ih (n := n) (by simpa using enough), add_comm]
        rfl

theorem getD_zipWith_mul (a b : List ℚ) (j : Nat) :
    (zipWith (fun x y => x * y) a b).getD j 0 = a.getD j 0 * b.getD j 0 := by
  induction a generalizing b j with
  | nil => exact (zero_mul _).symm
  | cons x a ih =>
    cases b with
    | nil => exact (mul_zero _).symm
    | cons y b =>
      cases j with
      | zero => rfl
      | succ j => exact ih b j

theorem getD_matVec (M : List (List ℚ)) {x : List ℚ} {n : Nat} (enough : x.length ≤ n) (i : Nat) :
    (matVec M x).getD i 0 = ∑ j ∈ range n, entry M i j * x.getD j 0 := by
  have zero : (zipWith (fun a b => a * b) ([] : List ℚ) x).sum = 0 := by simp
  rw [matVec, getD_map_zero (fun row => (zipWith (fun a b => a * b) row x).sum) zero]
  exact sum_zipWith_mul (inr enough)

section Built

variable {points : List ℚ} {r m : Nat}

theorem length_built (count : points.length + 2 = m + r) :
    (buildWinoMatrices r m points).outputAt.length = m ∧
      (buildWinoMatrices r m points).filterG.length = points.length + 1 := by
  have flipped : ∀ M, (flipFirst M).length = M.length := by
    intro M
    cases M with
    | nil => rfl
    | cons row rows => rfl
  unfold buildWinoMatrices
  dsimp only
  rw [if_neg (not_not.mpr count)]
  refine ⟨by simp [outputRows], ?_⟩
  dsimp only
  split
  · rw [flipped]
    simp [filterRows]
  · simp [filterRows]

/-- **A transformed line is the correlation.** -/
theorem winograd_eq (count : points.length + 2 = m + r) (distinct : points.Nodup) {g d : List ℚ}
    (taps : g.length = r) (tile : d.length = points.length + 1) :
    winograd (buildWinoMatrices r m points) g d = correlation g d := by
  have correlates := built_correlates count distinct
  obtain ⟨rows, middle⟩ := length_built count
  refine List.ext_getElem ?_ fun t here there => ?_
  · rw [winograd, matVec, correlation, length_map, length_map, List.length_range, rows]
    omega
  · have inside : t < m := by
      rw [winograd, matVec, length_map, rows] at here
      exact here
    rw [← List.getD_eq_getElem _ 0 here, ← List.getD_eq_getElem _ 0 there, winograd, correlation,
      getD_range_map _ _ (by omega), sum_zipWith_mul (inl taps.le)]
    have length : (zipWith (fun a b => a * b) (matVec (buildWinoMatrices r m points).filterG g)
        (matVec (buildWinoMatrices r m points).inputBt d)).length ≤ points.length + 1 := by
      rw [List.length_zipWith, matVec, length_map, middle]
      exact min_le_left _ _
    rw [getD_matVec _ length]
    refine Eq.trans ?_ ((correlates.line count.ge inside (fun k => g.getD k 0)
      (fun j => d.getD j 0)).trans ?_)
    · refine sum_congr rfl fun i _ => ?_
      rw [getD_zipWith_mul, getD_matVec _ taps.le, getD_matVec _ tile.le]
    · refine sum_congr rfl fun k _ => ?_
      simp [List.getElem?_drop]

/-- **A transformed square is the correlation in two dimensions.** -/
theorem winoOutput_eq (count : points.length + 2 = m + r) (distinct : points.Nodup) {t s : Nat}
    (row : t < m) (column : s < m) (g d : Nat → Nat → ℚ) :
    winoOutput (buildWinoMatrices r m points)
        (fun i j => winoData (buildWinoMatrices r m points) d i j *
          winoFilter r (buildWinoMatrices r m points) g i j) t s =
      ∑ a ∈ range r, ∑ b ∈ range r, g a b * d (t + a) (s + b) := by
  have square := (built_correlates count distinct).square count.ge row column g d
  rw [← square]
  simp only [winoOutput, winoData, winoFilter, sumTo_eq, built_alpha count]

theorem winoOutput_sum (w : WinoMatrices) (n : Nat) (M : Nat → Nat → Nat → ℚ) (k j : Nat) :
    winoOutput w (fun i c => sumTo n fun ic => M ic i c) k j =
      ∑ ic ∈ range n, winoOutput w (M ic) k j := by
  simp only [winoOutput, sumTo_eq]
  rw [sum_comm]
  refine sum_congr rfl fun c _ => ?_
  rw [← sum_mul]
  refine congrArg (fun x => x * entry w.outputAt j c) ?_
  simp only [mul_sum]
  exact sum_comm

end Built

/-! ## Arrays that are written -/

theorem length_written (size : Nat) (writes : List (Nat × ℚ)) : (written size writes).length = size := by
  have keep : ∀ (writes : List (Nat × ℚ)) (out : List ℚ),
      (writes.foldl (fun out e => out.set e.1 e.2) out).length = out.length := by
    intro writes
    induction writes with
    | nil => exact fun out => rfl
    | cons e writes ih => exact fun out => (ih _).trans length_set
  rw [written, keep, List.length_replicate]

/-- **An array whose every position is written with the value it should have.** -/
theorem written_eq {size : Nat} {writes : List (Nat × ℚ)} {f : Nat → ℚ}
    (right : ∀ e ∈ writes, e.2 = f e.1) (covered : ∀ i < size, ∃ e ∈ writes, e.1 = i) :
    written size writes = (List.range size).map f := by
  have keep : ∀ (writes : List (Nat × ℚ)) (out : List ℚ) (i : Nat), i < out.length →
      (∀ e ∈ writes, e.2 = f e.1) → (out.getD i 0 = f i ∨ ∃ e ∈ writes, e.1 = i) →
      (writes.foldl (fun out e => out.set e.1 e.2) out).getD i 0 = f i := by
    intro writes
    induction writes with
    | nil =>
      rintro out i - - (already | ⟨e, mem, -⟩)
      · exact already
      · cases mem
    | cons e writes ih =>
      intro out i inside right reached
      rw [foldl_cons]
      refine ih _ i (by rwa [length_set]) (fun e mem => right e (List.mem_cons_of_mem _ mem)) ?_
      have now : (out.set e.1 e.2).getD i 0 = if e.1 = i then f i else out.getD i 0 := by
        split
        · rename_i here
          rw [← here] at inside ⊢
          rw [List.getD_eq_getElem _ _ (by rwa [length_set]), List.getElem_set_self,
            right e List.mem_cons_self]
        · rename_i other
          rw [List.getD_eq_getElem _ _ (by rwa [length_set]), List.getElem_set_ne other,
            List.getD_eq_getElem _ _ inside]
      rcases reached with already | ⟨e', mem, same⟩
      · left
        rw [now, already, ite_self]
      · rcases List.mem_cons.mp mem with rfl | later
        · left
          rw [now, if_pos same]
        · exact inr ⟨e', later, same⟩
  refine List.ext_getElem (by rw [length_written, length_map, List.length_range])
    fun i here there => ?_
  have inside : i < size := by rwa [length_written] at here
  rw [List.getElem_map, List.getElem_range, ← List.getD_eq_getElem _ 0 here]
  exact keep writes _ i (by rwa [List.length_replicate]) right (inr (covered i inside))

/-! ## The convolution -/

theorem exists_position {cout height width o : Nat} (inside : o < cout * height * width) :
    ∃ oc < cout, ∃ oy < height, ∃ ox < width, o = (oc * height + oy) * width + ox := by
  have columns : 0 < width := Nat.pos_of_ne_zero fun none => by
    rw [none, Nat.mul_zero] at inside
    cases inside
  have rows : 0 < height := Nat.pos_of_ne_zero fun none => by
    rw [none, Nat.mul_zero, Nat.zero_mul] at inside
    cases inside
  refine ⟨o / width / height, ?_, o / width % height, mod_lt _ rows, o % width,
    mod_lt _ columns, ?_⟩
  · rw [Nat.div_lt_iff_lt_mul rows, Nat.div_lt_iff_lt_mul columns]
    exact inside
  · rw [div_add_mod', div_add_mod']

section Convolution

variable (input : List ℚ) (cin height width : Nat) (weights : List ℚ) (cout : Nat)

/-- The direct sum at a position of the output array. -/
def directAt (o : Nat) : ℚ :=
  directSum input cin height width weights (o / width / height) (o / width % height) (o % width)

theorem directAt_index {oc oy ox : Nat} (row : oy < height) (column : ox < width) :
    directAt input cin height width weights ((oc * height + oy) * width + ox) =
      directSum input cin height width weights oc oy ox := by
  have outer : ((oc * height + oy) * width + ox) / width = oc * height + oy := by
    rw [Nat.add_div_of_dvd_right (Dvd.intro_left _ rfl), Nat.mul_div_cancel _ (by omega),
      div_eq_of_lt column, Nat.add_zero]
  have inner : (oc * height + oy) / height = oc := by
    rw [Nat.add_div_of_dvd_right (Dvd.intro_left _ rfl), Nat.mul_div_cancel _ (by omega),
      div_eq_of_lt row, Nat.add_zero]
  rw [directAt, outer, inner, mul_add_mod_of_lt row, mul_add_mod_of_lt column]

theorem directConv3x3Fp64_eq : directConv3x3Fp64 input cin height width weights cout =
    (List.range (cout * height * width)).map (directAt input cin height width weights) := by
  refine written_eq ?_ ?_
  · simp only [List.mem_flatMap, List.mem_map, List.mem_range]
    rintro _ ⟨oc, -, oy, row, ox, column, rfl⟩
    exact (directAt_index input cin height width weights row column).symm
  · intro o inside
    obtain ⟨oc, channel, oy, row, ox, column, rfl⟩ := exists_position inside
    refine ⟨(_, directSum input cin height width weights oc oy ox), ?_, rfl⟩
    simp only [List.mem_flatMap, List.mem_map, List.mem_range]
    exact ⟨oc, channel, oy, row, ox, column, rfl⟩

/-- **A tile of the convolution**: what is written at a position is the direct sum there. -/
theorem winoTile_eq {m : Nat} {points : List ℚ} (count : points.length + 2 = m + kWinoKernelTaps)
    (distinct : points.Nodup) (ty tx oc : Nat) {k j : Nat} (row : k < m) (column : j < m) :
    winoOutput (buildWinoMatrices kWinoKernelTaps m points)
        (winoTile input cin height width weights (buildWinoMatrices kWinoKernelTaps m points) ty tx oc)
        k j =
      directSum input cin height width weights oc (ty * m + k) (tx * m + j) := by
  have channels := winoOutput_sum (buildWinoMatrices kWinoKernelTaps m points) cin
    (fun ic i j => winoData (buildWinoMatrices kWinoKernelTaps m points)
        (fun r c => padded input height width ic ((ty * m : Nat) - 1 + r) ((tx * m : Nat) - 1 + c)) i j *
      winoFilter kWinoKernelTaps (buildWinoMatrices kWinoKernelTaps m points)
        (tap cin weights oc ic) i j) k j
  have tile : winoTile input cin height width weights (buildWinoMatrices kWinoKernelTaps m points) ty tx oc =
      fun i c => sumTo cin fun ic => winoData (buildWinoMatrices kWinoKernelTaps m points)
        (fun r c => padded input height width ic ((ty * m : Nat) - 1 + r) ((tx * m : Nat) - 1 + c)) i c *
      winoFilter kWinoKernelTaps (buildWinoMatrices kWinoKernelTaps m points)
        (tap cin weights oc ic) i c := by
    funext i c
    rw [winoTile, built_outTile count]
  rw [tile, channels, directSum, sumTo_eq]
  refine sum_congr rfl fun ic _ => ?_
  rw [winoOutput_eq count distinct row column, sumTo_eq]
  refine sum_congr rfl fun a _ => ?_
  rw [sumTo_eq]
  refine sum_congr rfl fun b _ => ?_
  rw [mul_comm]
  congr 2
  · push_cast
    ring
  · push_cast
    ring

/-- **The convolution by tiles is the direct one.** -/
theorem winoConv2dFp64_eq {m : Nat} (some : 0 < m) {points : List ℚ}
    (count : points.length + 2 = m + kWinoKernelTaps) (distinct : points.Nodup) :
    winoConv2dFp64 input cin height width weights cout (buildWinoMatrices kWinoKernelTaps m points) =
      directConv3x3Fp64 input cin height width weights cout := by
  rw [directConv3x3Fp64_eq]
  refine written_eq ?_ ?_
  · rintro ⟨o, y⟩ mem
    simp only [winoWrites, List.mem_flatMap, List.mem_range, built_outTile count] at mem
    obtain ⟨ty, -, tx, -, oc, -, k, row, j, column, here⟩ := mem
    split at here
    · rename_i inside
      obtain ⟨rfl, rfl⟩ := Prod.mk.inj (List.mem_singleton.mp here)
      rw [winoTile_eq input cin height width weights count distinct ty tx oc row column,
        directAt_index input cin height width weights inside.1 inside.2]
    · cases here
  · intro o inside
    obtain ⟨oc, channel, oy, row, ox, column, rfl⟩ := exists_position inside
    have tiles : ∀ {x n : Nat}, x < n → x / m < (n + m - 1) / m := by
      intro x n below
      rw [Nat.lt_div_iff_mul_lt some, div_mul_self_eq_mod_sub_self]
      omega
    refine ⟨(_, winoOutput (buildWinoMatrices kWinoKernelTaps m points)
      (winoTile input cin height width weights (buildWinoMatrices kWinoKernelTaps m points)
        (oy / m) (ox / m) oc) (oy % m) (ox % m)), ?_, rfl⟩
    simp only [winoWrites, List.mem_flatMap, List.mem_range, built_outTile count]
    refine ⟨oy / m, tiles row, ox / m, tiles column, oc, channel, oy % m, mod_lt _ some, ox % m,
      mod_lt _ some, ?_⟩
    rw [if_pos ⟨by rwa [div_add_mod'], by rwa [div_add_mod']⟩, div_add_mod', div_add_mod']
    exact List.mem_singleton.mpr rfl

end Convolution

/-- **The Winograd construction is correct**, for every tile size, filter size and list of distinct
points: on lines, on squares, and in the padded convolution by tiles. -/
theorem buildWinoMatrices_correct (r m : Nat) (points : List ℚ) (count : points.length + 2 = m + r)
    (distinct : points.Nodup) :
    (∀ g d : List ℚ, g.length = r → d.length = (buildWinoMatrices r m points).alpha →
      winograd (buildWinoMatrices r m points) g d = correlation g d) ∧
    (∀ (g d : Nat → Nat → ℚ) (t s : Nat), t < m → s < m → winoOutput (buildWinoMatrices r m points)
          (fun i j => winoData (buildWinoMatrices r m points) d i j *
            winoFilter r (buildWinoMatrices r m points) g i j) t s =
        ∑ a ∈ range r, ∑ b ∈ range r, g a b * d (t + a) (s + b)) ∧
    (r = kWinoKernelTaps → 0 < m → ∀ (input : List ℚ) (cin height width : Nat) (weights : List ℚ)
      (cout : Nat),
      winoConv2dFp64 input cin height width weights cout (buildWinoMatrices r m points) =
        directConv3x3Fp64 input cin height width weights cout) := by
  refine ⟨?_, ?_, ?_⟩
  · intro g d taps tile
    exact winograd_eq count distinct taps (tile.trans (built_alpha count))
  · intro g d t s row column
    exact winoOutput_eq count distinct row column g d
  · rintro rfl some input cin height width weights cout
    exact winoConv2dFp64_eq input cin height width weights cout some count distinct

/-- The smallest tile of a filter with three taps. -/
theorem buildWinoMatrices_correct_two :
    winograd (buildWinoMatrices 3 2 [0, 1, -1]) [1, 2, 3] [1, 1, 2, 5] = [9, 20] :=
  ((buildWinoMatrices_correct 3 2 [0, 1, -1] rfl (by decide)).1 [1, 2, 3] [1, 1, 2, 5] rfl
    rfl).trans (by decide +kernel)

end Vknn.Wino
