import Mathlib.Data.Nat.Dist
import Mathlib.Data.Nat.Log
import Mathlib.Tactic.Linarith
import Mathlib.Tactic.Ring

/-!
# Rounding to a grid

The numbers a format can hold are a strictly increasing sequence, and a pattern of
bits is a place in it.  A quotient is rounded to the nearest place, and if it lies
halfway between two neighbours to the even one.  What is nearest is decided by the
two neighbours alone.

The grid of a binary floating-point format with `p` stored bits of significand has
blocks of `2 ^ p` places; the distance between neighbours doubles from one block to
the next, save for the first two.
-/

namespace GridRounding

open Nat

/-! ## Nearest places -/

section Nearest

variable {g : Nat → Nat} {n d t h : Nat}

/-- The place nearest to `n / d`; of two that are equally near, the even one. -/
def NearestEven (g : Nat → Nat) (n d h : Nat) : Prop :=
  ∀ other, other ≠ h → Nat.dist (d * g h) n < Nat.dist (d * g other) n ∨
    Nat.dist (d * g h) n = Nat.dist (d * g other) n ∧ h % 2 = 0

/-- The quotient lies between a place and the next. -/
structure Between (g : Nat → Nat) (n d t : Nat) : Prop where
  low : d * g t ≤ n
  high : n < d * g (t + 1)

/-- The quotient is halfway between a place and the next. -/
def Tie (g : Nat → Nat) (n d t : Nat) : Prop := 2 * n = d * (g t + g (t + 1))

instance : Decidable (Tie g n d t) := inferInstanceAs (Decidable (2 * n = _))

/-- Round from the place below, a tie to the even neighbour. -/
def toEven (g : Nat → Nat) (n d t : Nat) : Nat :=
  if 2 * n < d * (g t + g (t + 1)) ∨ Tie g n d t ∧ t % 2 = 0 then t else t + 1

/-- Round from the place below, a tie upwards. -/
def upward (g : Nat → Nat) (n d t : Nat) : Nat := if 2 * n < d * (g t + g (t + 1)) then t else t + 1

theorem toEven_cases (g : Nat → Nat) (n d t : Nat) :
    toEven g n d t = t ∧ (2 * n < d * g t + d * g (t + 1) ∨
        2 * n = d * g t + d * g (t + 1) ∧ t % 2 = 0) ∨
      toEven g n d t = t + 1 ∧ (d * g t + d * g (t + 1) < 2 * n ∨
        2 * n = d * g t + d * g (t + 1) ∧ t % 2 = 1) := by
  rw [← Nat.mul_add]
  by_cases down : 2 * n < d * (g t + g (t + 1)) ∨ Tie g n d t ∧ t % 2 = 0
  · exact .inl ⟨if_pos down, down⟩
  · refine .inr ⟨if_neg down, ?_⟩
    unfold Tie at down
    omega

/-- Places below the lower neighbour, or above the upper one, are farther away. -/
theorem dist_outside (mono : StrictMono g) (positive : 0 < d) (between : Between g n d t)
    {other : Nat} (low : other ≠ t) (high : other ≠ t + 1) :
    Nat.dist (d * g t) n < Nat.dist (d * g other) n ∧ other < t ∨
      Nat.dist (d * g (t + 1)) n < Nat.dist (d * g other) n ∧ t + 1 < other := by
  obtain ⟨below, above⟩ := between
  unfold Nat.dist
  rcases Nat.lt_or_ge other t with less | more
  · have farther : d * g other < d * g t := Nat.mul_lt_mul_of_pos_left (mono less) positive
    exact .inl ⟨by omega, less⟩
  · have beyond : t + 1 < other := by omega
    have farther : d * g (t + 1) < d * g other := Nat.mul_lt_mul_of_pos_left (mono beyond) positive
    exact .inr ⟨by omega, beyond⟩

/-- **Rounding from the place below gives the nearest place.** -/
theorem nearestEven_toEven (mono : StrictMono g) (positive : 0 < d) (between : Between g n d t) :
    NearestEven g n d (toEven g n d t) := by
  have below := between.low
  have above := between.high
  intro other apart
  by_cases low : other = t
  · subst low
    rcases toEven_cases g n d other with ⟨taken, -⟩ | ⟨taken, why⟩
    · exact absurd taken.symm apart
    · rw [taken]
      unfold Nat.dist
      omega
  by_cases high : other = t + 1
  · subst high
    rcases toEven_cases g n d t with ⟨taken, why⟩ | ⟨taken, -⟩
    · rw [taken]
      unfold Nat.dist
      omega
    · exact absurd taken.symm apart
  have outside := dist_outside mono positive between low high
  rcases toEven_cases g n d t with ⟨taken, why⟩ | ⟨taken, why⟩
  · rw [taken]
    unfold Nat.dist at outside ⊢
    omega
  · rw [taken]
    unfold Nat.dist at outside ⊢
    omega

/-- **There is one nearest place.** -/
theorem NearestEven.unique (mono : StrictMono g) (positive : 0 < d) {h₁ h₂ : Nat}
    (first : NearestEven g n d h₁) (second : NearestEven g n d h₂) : h₁ = h₂ := by
  by_contra apart
  wlog less : h₁ < h₂ generalizing h₁ h₂
  · exact this second first (Ne.symm apart) (by omega)
  have one := first h₂ (Ne.symm apart)
  have two := second h₁ apart
  -- both are even, so that there is a place between them, which is nearer
  have between : h₁ + 1 < h₂ := by omega
  have middle := first (h₁ + 1) (by omega)
  have left : d * g h₁ < d * g (h₁ + 1) :=
    Nat.mul_lt_mul_of_pos_left (mono (lt_succ_self h₁)) positive
  have right : d * g (h₁ + 1) < d * g h₂ := Nat.mul_lt_mul_of_pos_left (mono between) positive
  unfold Nat.dist at one two middle
  omega

theorem NearestEven.eq_of_exact (mono : StrictMono g) (positive : 0 < d)
    (nearest : NearestEven g n d h) {b : Nat} (exactly : d * g b = n) : h = b := by
  by_contra apart
  have farther := nearest b (Ne.symm apart)
  have zero : Nat.dist (d * g b) n = 0 := by
    unfold Nat.dist
    omega
  have same : d * g h = n := by
    unfold Nat.dist at farther zero
    omega
  exact apart (mono.injective (Nat.eq_of_mul_eq_mul_left positive (same.trans exactly.symm)))

/-- **Rounding ties upwards gives the nearest place except on a tie above an even one.** -/
theorem upward_nearestEven_iff (mono : StrictMono g) (positive : 0 < d)
    (between : Between g n d t) :
    NearestEven g n d (upward g n d t) ↔ ¬ (Tie g n d t ∧ t % 2 = 0) := by
  have even := nearestEven_toEven mono positive between
  constructor
  · rintro nearest ⟨tie, parity⟩
    have same := nearest.unique mono positive even
    have up : upward g n d t = t + 1 := if_neg (by rw [tie]; exact lt_irrefl _)
    have stays : toEven g n d t = t := if_pos (.inr ⟨tie, parity⟩)
    omega
  · intro no_tie
    have same : upward g n d t = toEven g n d t := by
      unfold upward toEven
      refine if_congr ?_ rfl rfl
      exact ⟨.inl, fun either => either.resolve_right no_tie⟩
    rwa [same]

/-- Where numerator and neighbours are whole multiples of one number, what is left of the numerator
decides. -/
theorem of_remainder {M D half S : Nat} (scale : 0 < S) (even : D = 2 * half) (some_ : 0 < half)
    (numerator : n = M * S) (here : d * g t = M / D * D * S)
    (next : d * g (t + 1) = (M / D + 1) * D * S) :
    Between g n d t ∧ upward g n d t = (if M % D < half then t else t + 1) ∧ toEven g n d t =
        if M % D < half ∨ M % D = half ∧ t % 2 = 0 then t else t + 1 := by
  have parts : M / D * D + M % D = M := div_add_mod' M D
  have rest : M % D < D := mod_lt M (by omega)
  have low : d * g t ≤ n := by
    rw [here, numerator]
    exact Nat.mul_le_mul_right S (by omega)
  have high : n < d * g (t + 1) := by
    rw [next, numerator]
    refine Nat.mul_lt_mul_of_pos_right ?_ scale
    rw [succ_mul]
    omega
  have sum : d * (g t + g (t + 1)) = (2 * (M / D * D) + D) * S := by
    rw [Nat.mul_add, here, next]
    ring
  have twice : 2 * n = 2 * M * S := by
    rw [numerator]
    ring
  have less : 2 * n < d * (g t + g (t + 1)) ↔ M % D < half := by
    rw [sum, twice, Nat.mul_lt_mul_right scale]
    omega
  have tie : Tie g n d t ↔ M % D = half := by
    unfold Tie
    rw [sum, twice, Nat.mul_left_inj scale.ne']
    omega
  refine ⟨⟨low, high⟩, if_congr less rfl rfl, ?_⟩
  exact if_congr (or_congr less (and_congr_left fun _ => tie)) rfl rfl

theorem place_unique (mono : StrictMono g) {t₁ t₂ : Nat} (first : Between g n d t₁)
    (second : Between g n d t₂) : t₁ = t₂ := by
  have early : t₁ < t₂ + 1 := mono.lt_iff_lt.mp
    (Nat.lt_of_mul_lt_mul_left (first.low.trans_lt second.high))
  have late : t₂ < t₁ + 1 := mono.lt_iff_lt.mp
    (Nat.lt_of_mul_lt_mul_left (second.low.trans_lt first.high))
  omega

theorem between_of_tie (mono : StrictMono g) (positive : 0 < d) (tie : Tie g n d t) :
    Between g n d t := by
  have apart : d * g t < d * g (t + 1) :=
    Nat.mul_lt_mul_of_pos_left (mono (lt_succ_self t)) positive
  unfold Tie at tie
  rw [Nat.mul_add] at tie
  exact ⟨by omega, by omega⟩

/-- A nearest place is off by half a step at most, of the step that the number lies in. -/
theorem NearestEven.half_step (mono : StrictMono g) (zero : g 0 = 0) (nearest : NearestEven g n 1 h) :
    ∃ t, g t ≤ n ∧ n < g (t + 1) ∧ 2 * Nat.dist (g h) n ≤ g (t + 1) - g t := by
  have above := nearest (h + 1) (by omega)
  have next : g h < g (h + 1) := mono (lt_succ_self h)
  rw [Nat.one_mul, Nat.one_mul] at above
  rcases Nat.lt_or_ge n (g h) with less | more
  · have some_ : h ≠ 0 := by
      rintro rfl
      omega
    have below := nearest (h - 1) (by omega)
    have step := mono (show h - 1 < h by omega)
    rw [Nat.one_mul, Nat.one_mul] at below
    refine ⟨h - 1, ?_, ?_, ?_⟩
    · unfold Nat.dist at below
      omega
    · rwa [Nat.sub_add_cancel (by omega)]
    · rw [Nat.sub_add_cancel (by omega)]
      unfold Nat.dist at below ⊢
      omega
  · refine ⟨h, more, ?_, ?_⟩
    · unfold Nat.dist at above
      omega
    · unfold Nat.dist at above ⊢
      omega

theorem NearestEven.le_of_le (mono : StrictMono g) (positive : 0 < d) (nearest : NearestEven g n d h)
    {b : Nat} (behind : d * g b ≤ n) : b ≤ h := by
  by_contra less
  have closer := nearest b (by omega)
  have apart : d * g h < d * g b := Nat.mul_lt_mul_of_pos_left (mono (by omega)) positive
  unfold Nat.dist at closer
  omega

theorem NearestEven.ge_of_ge (mono : StrictMono g) (positive : 0 < d) (nearest : NearestEven g n d h)
    {b : Nat} (before : n ≤ d * g b) : h ≤ b := by
  by_contra more
  have closer := nearest b (by omega)
  have apart : d * g b < d * g h := Nat.mul_lt_mul_of_pos_left (mono (by omega)) positive
  unfold Nat.dist at closer
  omega

/-- **A number is between the middles to the two neighbours of its nearest place.** -/
theorem NearestEven.middles (mono : StrictMono g) (positive : 0 < d) (nearest : NearestEven g n d h) :
    2 * n ≤ d * (g h + g (h + 1)) ∧ ∀ b, b + 1 = h → d * (g b + g h) ≤ 2 * n := by
  constructor
  · have above := nearest (h + 1) (by omega)
    have apart : d * g h < d * g (h + 1) :=
      Nat.mul_lt_mul_of_pos_left (mono (lt_succ_self h)) positive
    rw [Nat.mul_add]
    unfold Nat.dist at above
    omega
  · rintro b rfl
    have below := nearest b (by omega)
    have apart : d * g b < d * g (b + 1) :=
      Nat.mul_lt_mul_of_pos_left (mono (lt_succ_self b)) positive
    rw [Nat.mul_add]
    unfold Nat.dist at below
    omega

/-- A place is the nearest to the numbers strictly between its two middles. -/
theorem nearestEven_of_middles (mono : StrictMono g) (positive : 0 < d)
    (above : 2 * n < d * (g h + g (h + 1))) (below : ∀ b, b + 1 = h → d * (g b + g h) < 2 * n) :
    NearestEven g n d h := by
  intro other apart
  left
  unfold Nat.dist
  rw [Nat.mul_add] at above
  rcases Nat.lt_or_ge other h with less | more
  · obtain ⟨b, rfl⟩ : ∃ b, h = b + 1 := ⟨h - 1, by omega⟩
    have lower := below b rfl
    have farther : d * g other ≤ d * g b :=
      Nat.mul_le_mul_left d (mono.monotone (show other ≤ b by omega))
    have here : d * g b < d * g (b + 1) :=
      Nat.mul_lt_mul_of_pos_left (mono (lt_succ_self b)) positive
    rw [Nat.mul_add] at lower
    omega
  · have farther : d * g (h + 1) ≤ d * g other :=
      Nat.mul_le_mul_left d (mono.monotone (show h + 1 ≤ other by omega))
    have here : d * g h < d * g (h + 1) :=
      Nat.mul_lt_mul_of_pos_left (mono (lt_succ_self h)) positive
    omega

/-- Multiples of one number that differ by less are the same. -/
theorem eq_of_near {a b m : Nat} (a_multiple : m ∣ a) (b_multiple : m ∣ b) (a_lt : a < b + m)
    (b_lt : b < a + m) : a = b := by
  obtain ⟨x, rfl⟩ := a_multiple
  obtain ⟨y, rfl⟩ := b_multiple
  rw [← mul_succ] at a_lt b_lt
  have early := Nat.lt_of_mul_lt_mul_left a_lt
  have late := Nat.lt_of_mul_lt_mul_left b_lt
  rw [show x = y by omega]

theorem NearestEven.lt_of_lt (mono : StrictMono g) (nearest : NearestEven g n 1 h) {b : Nat}
    (less : b < h) : g b < n := by
  have farther := nearest b (Nat.ne_of_lt less)
  have step := mono less
  rw [Nat.one_mul, Nat.one_mul] at farther
  unfold Nat.dist at farther
  omega

theorem nearestEven_scale {c : Nat} (positive : 0 < c) :
    NearestEven g (n * c) (d * c) h ↔ NearestEven g n d h := by
  have scaled : ∀ place, Nat.dist (d * c * g place) (n * c) = Nat.dist (d * g place) n * c := by
    intro place
    rw [Nat.mul_right_comm, Nat.dist_mul_right]
  unfold NearestEven
  refine forall₂_congr fun other _ => ?_
  rw [scaled, scaled, Nat.mul_lt_mul_right positive, Nat.mul_left_inj positive.ne']

end Nearest

/-! ## Floating-point grids -/

section Grid

variable {p : Nat}

/-- The number at a place, in units of the distance between the first two. -/
def grid (p b : Nat) : Nat := (b % 2 ^ p + if b / 2 ^ p = 0 then 0 else 2 ^ p) * 2 ^ (b / 2 ^ p - 1)

theorem grid_parts {e m : Nat} (small : m < 2 ^ p) :
    grid p (e * 2 ^ p + m) = (m + if e = 0 then 0 else 2 ^ p) * 2 ^ (e - 1) := by
  have block : (e * 2 ^ p + m) / 2 ^ p = e := by
    rw [Nat.mul_comm, mul_add_div (by positivity), div_eq_of_lt small, Nat.add_zero]
  have place : (e * 2 ^ p + m) % 2 ^ p = m := by rw [Nat.mul_comm, mul_add_mod, mod_eq_of_lt small]
  rw [grid, block, place]

/-- The numbers of a block, and the first of the next one. -/
theorem grid_scaled {k c : Nat} (normal : 2 ^ p ≤ c ∨ k = 0) (small : c ≤ 2 ^ (p + 1)) :
    grid p (k * 2 ^ p + c) = c * 2 ^ k := by
  have double : 2 ^ (p + 1) = 2 * 2 ^ p := by rw [Nat.pow_succ, Nat.mul_comm]
  have some_ : 0 < 2 ^ p := by positivity
  rcases Nat.lt_or_ge c (2 ^ p) with less | more
  · obtain rfl : k = 0 := normal.resolve_left (by omega)
    rw [grid_parts less, if_pos rfl, Nat.add_zero]
  rcases Nat.lt_or_ge c (2 ^ (p + 1)) with inside | last
  · have place : k * 2 ^ p + c = (k + 1) * 2 ^ p + (c - 2 ^ p) := by
      rw [succ_mul]
      omega
    rw [place, grid_parts (by omega), if_neg (succ_ne_zero k), Nat.add_sub_cancel,
      Nat.sub_add_cancel more]
  · obtain rfl : c = 2 ^ (p + 1) := le_antisymm small last
    have place : k * 2 ^ p + 2 ^ (p + 1) = (k + 2) * 2 ^ p + 0 := by rw [double]; ring
    rw [place, grid_parts some_, if_neg (by omega), Nat.zero_add, double]
    have power : k + 2 - 1 = k + 1 := by omega
    rw [power, Nat.pow_succ]
    ring

theorem grid_form (p b : Nat) : ∃ c k, b = k * 2 ^ p + c ∧ c < 2 ^ (p + 1) ∧ (2 ^ p ≤ c ∨ k = 0) ∧
    grid p b = c * 2 ^ k ∧ grid p (b + 1) = (c + 1) * 2 ^ k := by
  have some_ : 0 < 2 ^ p := by positivity
  have double : 2 ^ (p + 1) = 2 * 2 ^ p := by rw [Nat.pow_succ, Nat.mul_comm]
  have parts : b / 2 ^ p * 2 ^ p + b % 2 ^ p = b := div_add_mod' b (2 ^ p)
  have place : b % 2 ^ p < 2 ^ p := mod_lt b some_
  have shape : ∃ c k, b = k * 2 ^ p + c ∧ c < 2 ^ (p + 1) ∧ (2 ^ p ≤ c ∨ k = 0) := by
    by_cases first : b / 2 ^ p = 0
    · exact ⟨b % 2 ^ p, 0, by rw [first] at parts; omega, by omega, .inr rfl⟩
    · obtain ⟨k, block⟩ := exists_eq_succ_of_ne_zero first
      refine ⟨2 ^ p + b % 2 ^ p, k, ?_, by omega, .inl (by omega)⟩
      rw [block, succ_mul] at parts
      omega
  obtain ⟨c, k, rfl, small, normal⟩ := shape
  refine ⟨c, k, rfl, small, normal, grid_scaled normal small.le, ?_⟩
  rw [Nat.add_assoc, grid_scaled (normal.imp (fun low => by omega) id) small]

theorem strictMono_grid (p : Nat) : StrictMono (grid p) := by
  refine strictMono_nat_of_lt_succ fun b => ?_
  obtain ⟨c, k, -, -, -, here, next⟩ := grid_form p b
  rw [here, next, succ_mul]
  have step : 0 < 2 ^ k := by positivity
  omega

/-- A significand with a bit more than the stored ones is on the grid at every scale. -/
theorem exists_grid {c : Nat} (k : Nat) (small : c < 2 ^ (p + 1)) : ∃ b, grid p b = c * 2 ^ k := by
  induction k generalizing c with
  | zero => exact ⟨0 * 2 ^ p + c, grid_scaled (.inr rfl) small.le⟩
  | succ k ih =>
    have double : 2 ^ (p + 1) = 2 * 2 ^ p := by rw [Nat.pow_succ, Nat.mul_comm]
    rcases Nat.lt_or_ge c (2 ^ p) with less | more
    · obtain ⟨b, held⟩ := @ih (2 * c) (by omega)
      exact ⟨b, by rw [held, Nat.pow_succ]; ring⟩
    · exact ⟨(k + 1) * 2 ^ p + c, grid_scaled (.inl more) small.le⟩

/-- **A small multiple of a number on the grid is rounded by less than half the number.** -/
theorem product_error {k b h : Nat} (small : k < 2 ^ p) (positive : 0 < grid p b)
    (nearest : NearestEven (grid p) (k * grid p b) 1 h) :
    2 * Nat.dist (grid p h) (k * grid p b) < grid p b := by
  have zero : grid p 0 = 0 := by simp [grid]
  obtain ⟨t, low, high, close⟩ := nearest.half_step (strictMono_grid p) zero
  obtain ⟨c, j, -, -, normal, here, next⟩ := grid_form p t
  have step : grid p (t + 1) - grid p t = 2 ^ j := by
    rw [next, here, succ_mul, Nat.add_sub_cancel_left]
  rw [step] at close
  rcases normal with large | rfl
  · have below : 2 ^ p * 2 ^ j ≤ k * grid p b := (Nat.mul_le_mul_right _ large).trans (here ▸ low)
    have above : k * grid p b < 2 ^ p * grid p b := Nat.mul_lt_mul_of_pos_right small positive
    have := Nat.lt_of_mul_lt_mul_left (below.trans_lt above)
    omega
  · unfold Nat.dist at close ⊢
    omega

/-! ## Rounding a quotient -/

/-- The integer nearest to a quotient, of two the even one. -/
def nearestQuotient (n d : Nat) : Nat :=
  if 2 * (n % d) < d ∨ 2 * (n % d) = d ∧ n / d % 2 = 0 then n / d else n / d + 1

theorem nearestQuotient_bounds {n d : Nat} (positive : 0 < d) :
    2 * n ≤ 2 * (nearestQuotient n d * d) + d ∧ 2 * (nearestQuotient n d * d) ≤ 2 * n + d := by
  have parts : n / d * d + n % d = n := div_add_mod' n d
  have rest : n % d < d := mod_lt n positive
  unfold nearestQuotient
  split
  · omega
  · rw [Nat.add_one_mul (n / d) d]
    omega

/-- The place nearest to a quotient: the scale is chosen by the leading bit. -/
def roundQuotient (p n d : Nat) : Nat :=
  (log2 (n / d) - p) * 2 ^ p + nearestQuotient n (d * 2 ^ (log2 (n / d) - p))

/-- The significand below a quotient fits at the chosen scale. -/
theorem significand_bounds {n d k : Nat} (scale : k = log2 (n / d) - p) :
    n / (d * 2 ^ k) < 2 ^ (p + 1) ∧ (2 ^ p ≤ n / (d * 2 ^ k) ∨ k = 0) := by
  have above : n / d < 2 ^ (log2 (n / d) + 1) := lt_log2_self
  rw [← Nat.div_div_eq_div_mul]
  constructor
  · rw [Nat.div_lt_iff_lt_mul (by positivity), ← Nat.pow_add]
    exact above.trans_le (Nat.pow_le_pow_right (by omega) (by omega))
  · by_cases first : k = 0
    · exact .inr first
    · have nonzero : n / d ≠ 0 := by
        intro zero
        rw [zero, log2_zero] at scale
        omega
      have below : 2 ^ log2 (n / d) ≤ n / d := log2_self_le nonzero
      refine .inl ((Nat.le_div_iff_mul_le (by positivity)).mpr ?_)
      rw [← Nat.pow_add]
      exact (Nat.pow_le_pow_right (by omega) (by omega)).trans below

/-- **The rounded quotient is the nearest place.** -/
theorem nearestEven_roundQuotient {n d : Nat} (stored : 0 < p) (positive : 0 < d) :
    NearestEven (grid p) n d (roundQuotient p n d) := by
  obtain ⟨k, scale⟩ : ∃ k, k = log2 (n / d) - p := ⟨_, rfl⟩
  obtain ⟨small, normal⟩ := significand_bounds scale
  rw [roundQuotient, ← scale]
  generalize quotient : n / (d * 2 ^ k) = c at small normal
  have parts : d * 2 ^ k * c + n % (d * 2 ^ k) = n := quotient ▸ div_add_mod n (d * 2 ^ k)
  have rest : n % (d * 2 ^ k) < d * 2 ^ k := mod_lt n (by positivity)
  have here := grid_scaled normal small.le
  have next : grid p (k * 2 ^ p + c + 1) = (c + 1) * 2 ^ k := by
    rw [Nat.add_assoc, grid_scaled (normal.imp (fun low => by omega) id) small]
  have low : d * grid p (k * 2 ^ p + c) = d * 2 ^ k * c := by rw [here]; ring
  have high : d * grid p (k * 2 ^ p + c + 1) = d * 2 ^ k * c + d * 2 ^ k := by rw [next]; ring
  have between : Between (grid p) n d (k * 2 ^ p + c) := ⟨by omega, by omega⟩
  have block : k * 2 ^ p % 2 = 0 := by
    obtain ⟨q, rfl⟩ := exists_eq_succ_of_ne_zero stored.ne'
    rw [Nat.pow_succ, ← Nat.mul_assoc, mul_mod_left]
  have same : k * 2 ^ p + nearestQuotient n (d * 2 ^ k) = toEven (grid p) n d (k * 2 ^ p + c) := by
    rw [nearestQuotient, quotient]
    have taken := toEven_cases (grid p) n d (k * 2 ^ p + c)
    rw [low, high] at taken
    split <;> omega
  rw [same]
  exact nearestEven_toEven (strictMono_grid p) positive between

end Grid

end GridRounding
