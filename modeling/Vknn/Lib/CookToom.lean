import Mathlib.LinearAlgebra.Lagrange
import Mathlib.Tactic.LinearCombination

/-!
# Correlation by interpolation

Three matrices correlate when, summed over the transform points, their products pick out one
entry of the data for each output and each tap.  Then the pointwise product of the
transformed filter and the transformed data, transformed back, is the correlation; and the
same holds in two dimensions, with each matrix used on both sides.

Interpolation at distinct points, with one more point at infinity, gives such matrices.
-/

namespace Vknn.CookToom

open Polynomial Finset

/-! ## Matrices that correlate -/

section Correlates

variable {K : Type*} [CommRing K]

/-- The products of three matrices, summed over the points, pick out one entry of the data. -/
def Correlates (A G B : ℕ → ℕ → K) (m r α : ℕ) : Prop :=
  ∀ t < m, ∀ k < r, ∀ j < α, ∑ i ∈ range α, A t i * G i k * B i j = if j = t + k then 1 else 0

variable {A G B : ℕ → ℕ → K} {m r α : ℕ}

theorem Correlates.signed (correlates : Correlates A G B m r α) {σ : ℕ → K}
    (sign : ∀ i, σ i * σ i = 1) :
    Correlates A (fun i k => σ i * G i k) (fun i j => σ i * B i j) m r α := by
  intro t inside k tap j entry
  rw [← correlates t inside k tap j entry]
  refine sum_congr rfl fun i _ => ?_
  linear_combination A t i * G i k * B i j * sign i

theorem Correlates.congr (correlates : Correlates A G B m r α) {A' G' B' : ℕ → ℕ → K}
    (output : ∀ t < m, ∀ i < α, A' t i = A t i) (filter : ∀ i < α, ∀ k < r, G' i k = G i k)
    (data : ∀ i < α, ∀ j, B' i j = B i j) : Correlates A' G' B' m r α := by
  intro t row k tap j column
  rw [← correlates t row k tap j column]
  refine sum_congr rfl fun i mem => ?_
  have inside := mem_range.mp mem
  rw [output t row i inside, filter i inside k tap, data i inside j]

/-- **The correlation of a line.** -/
theorem Correlates.line (correlates : Correlates A G B m r α) (fits : m + r ≤ α + 1) {t : ℕ}
    (inside : t < m) (g d : ℕ → K) :
    ∑ i ∈ range α, A t i * ((∑ k ∈ range r, G i k * g k) * ∑ j ∈ range α, B i j * d j) =
      ∑ k ∈ range r, g k * d (t + k) := by
  calc ∑ i ∈ range α, A t i * ((∑ k ∈ range r, G i k * g k) * ∑ j ∈ range α, B i j * d j)
      = ∑ i ∈ range α, ∑ k ∈ range r, ∑ j ∈ range α, g k * d j * (A t i * G i k * B i j) := by
        refine sum_congr rfl fun i _ => ?_
        rw [sum_mul_sum, mul_sum]
        refine sum_congr rfl fun k _ => ?_
        rw [mul_sum]
        refine sum_congr rfl fun j _ => ?_
        ring
    _ = ∑ k ∈ range r, ∑ j ∈ range α, g k * d j * ∑ i ∈ range α, A t i * G i k * B i j := by
        rw [sum_comm]
        refine sum_congr rfl fun k _ => ?_
        rw [sum_comm]
        refine sum_congr rfl fun j _ => ?_
        rw [mul_sum]
    _ = ∑ k ∈ range r, g k * d (t + k) := by
        refine sum_congr rfl fun k tap => ?_
        have here : t + k ∈ range α := by
          rw [mem_range] at tap ⊢
          omega
        rw [sum_eq_single_of_mem (t + k) here]
        · rw [correlates t inside k (mem_range.mp tap) _ (mem_range.mp here), if_pos rfl, mul_one]
        · intro j entry other
          rw [correlates t inside k (mem_range.mp tap) j (mem_range.mp entry), if_neg other, mul_zero]

/-- **The correlation of a square**, each matrix used on both sides. -/
theorem Correlates.square (correlates : Correlates A G B m r α) (fits : m + r ≤ α + 1) {t s : ℕ}
    (row : t < m) (column : s < m) (g d : ℕ → ℕ → K) :
    ∑ c ∈ range α, (∑ i ∈ range α, A t i *
        ((∑ q ∈ range α, (∑ p ∈ range α, B i p * d p q) * B c q) *
          ∑ b ∈ range r, (∑ a ∈ range r, G i a * g a b) * G c b)) * A s c =
      ∑ a ∈ range r, ∑ b ∈ range r, g a b * d (t + a) (s + b) := by
  have sides : ∀ (n : ℕ) (M : ℕ → ℕ → K) (N : ℕ → K) (x : ℕ → ℕ → K) (i : ℕ),
      ∑ q ∈ range n, (∑ p ∈ range n, M i p * x p q) * N q =
        ∑ p ∈ range n, M i p * ∑ q ∈ range n, N q * x p q := by
    intro n M N x i
    simp only [sum_mul, mul_sum]
    rw [sum_comm]
    refine sum_congr rfl fun p _ => sum_congr rfl fun q _ => ?_
    ring
  calc ∑ c ∈ range α, (∑ i ∈ range α, A t i *
        ((∑ q ∈ range α, (∑ p ∈ range α, B i p * d p q) * B c q) *
          ∑ b ∈ range r, (∑ a ∈ range r, G i a * g a b) * G c b)) * A s c
      = ∑ c ∈ range α, (∑ a ∈ range r, (∑ b ∈ range r, G c b * g a b) *
          ∑ q ∈ range α, B c q * d (t + a) q) * A s c := by
        refine sum_congr rfl fun c _ => ?_
        have line := correlates.line fits row (fun a => ∑ b ∈ range r, G c b * g a b)
          (fun p => ∑ q ∈ range α, B c q * d p q)
        rw [← line]
        refine congrArg (· * A s c) (sum_congr rfl fun i _ => ?_)
        rw [sides α B (B c) d i, sides r G (G c) g i]
        ring
    _ = ∑ a ∈ range r, ∑ c ∈ range α, A s c * ((∑ b ∈ range r, G c b * g a b) *
          ∑ q ∈ range α, B c q * d (t + a) q) := by
        rw [sum_comm]
        refine sum_congr rfl fun c _ => ?_
        rw [sum_mul]
        refine sum_congr rfl fun a _ => ?_
        ring
    _ = ∑ a ∈ range r, ∑ b ∈ range r, g a b * d (t + a) (s + b) :=
        sum_congr rfl fun a _ => correlates.line fits column (fun b => g a b) (fun q => d (t + a) q)

end Correlates

/-! ## Interpolation -/

section Points

variable {K : Type*} [Field K] {v : ℕ → K} {n m r : ℕ}

/-- **A power is interpolated at the points**, up to the node polynomial where its degree is the
number of points. -/
theorem interpolate_pow (distinct : Set.InjOn v (range n : Finset ℕ)) {s : ℕ} (low : s ≤ n) :
    ∑ i ∈ range n, C (v i ^ s / ∏ j ∈ (range n).erase i, (v i - v j)) *
        Lagrange.nodal ((range n).erase i) v +
      (if s = n then Lagrange.nodal (range n) v else 0) = X ^ s := by
  have terms : ∑ i ∈ range n, C (v i ^ s / ∏ j ∈ (range n).erase i, (v i - v j)) *
      Lagrange.nodal ((range n).erase i) v = Lagrange.interpolate (range n) v (fun i => v i ^ s) := by
    rw [Lagrange.interpolate_apply]
    refine sum_congr rfl fun i mem => ?_
    rw [Lagrange.basis_eq_prod_sub_inv_mul_nodal_div mem, ← Lagrange.nodal_erase_eq_nodal_div mem,
      ← mul_assoc, ← C_mul, Lagrange.nodalWeight, prod_inv_distrib, div_eq_mul_inv]
  rw [terms]
  split
  · rename_i top
    have degree : (X ^ s - Lagrange.nodal (range n) v : K[X]).degree < #(range n) := by
      have monic := Lagrange.nodal_monic (s := range n) (v := v)
      have degrees : (X ^ s : K[X]).degree = (Lagrange.nodal (range n) v).degree := by
        rw [degree_X_pow, Lagrange.degree_nodal, card_range, top]
      refine (degree_sub_lt_left degrees (monic_X_pow s).ne_zero ?_).trans_eq ?_
      · rw [(monic_X_pow s).leadingCoeff, monic.leadingCoeff]
      · rw [degree_X_pow, card_range, top]
    rw [← Lagrange.eq_interpolate_of_eval_eq _ distinct degree, sub_add_cancel]
    intro i mem
    rw [eval_sub, Lagrange.eval_nodal_at_node mem, eval_pow, eval_X, sub_zero]
  · rename_i below
    have degree : (X ^ s : K[X]).degree < #(range n) := by
      rw [degree_X_pow, card_range]
      exact_mod_cast lt_of_le_of_ne low below
    rw [← Lagrange.eq_interpolate_of_eval_eq _ distinct degree, add_zero]
    intro i mem
    rw [eval_pow, eval_X]

/-- The output matrix of some points and the point at infinity. -/
def outputOf (v : ℕ → K) (n m : ℕ) (t i : ℕ) : K :=
  if i = n then (if t + 1 = m then 1 else 0) else v i ^ t

def filterOf (v : ℕ → K) (n r : ℕ) (i k : ℕ) : K :=
  if i = n then (if k + 1 = r then 1 else 0)
  else v i ^ k / ∏ j ∈ (range n).erase i, (v i - v j)

/-- The data matrix. -/
noncomputable def dataOf (v : ℕ → K) (n : ℕ) (i j : ℕ) : K :=
  if i = n then (Lagrange.nodal (range n) v).coeff j
  else (Lagrange.nodal ((range n).erase i) v).coeff j

/-- **The matrices of distinct points correlate.** -/
theorem correlates_points (distinct : Set.InjOn v (range n : Finset ℕ)) (size : n + 2 = m + r) :
    Correlates (outputOf v n m) (filterOf v n r) (dataOf v n) m r (n + 1) := by
  intro t inside k tap j _
  have power := congrArg (fun p => p.coeff j) (interpolate_pow distinct (s := t + k) (by omega))
  simp only [coeff_add, finsetSum_coeff, coeff_C_mul, coeff_X_pow] at power
  rw [← power, sum_range_succ]
  congr 1
  · refine sum_congr rfl fun i mem => ?_
    have finite : i ≠ n := (mem_range.mp mem).ne
    rw [outputOf, filterOf, dataOf, if_neg finite, if_neg finite, if_neg finite, pow_add]
    ring
  · rw [outputOf, filterOf, dataOf, if_pos rfl, if_pos rfl, if_pos rfl]
    by_cases top : t + k = n
    · rw [if_pos (by omega), if_pos (by omega), if_pos top, one_mul, one_mul]
    · rw [if_neg top, coeff_zero]
      by_cases last : t + 1 = m
      · rw [if_neg (show k + 1 ≠ r by omega), mul_zero, zero_mul]
      · rw [if_neg last, zero_mul, zero_mul]

end Points

end Vknn.CookToom
