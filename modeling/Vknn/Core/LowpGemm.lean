import Vknn.Ir.FloatCasts

/-!
# An eight-bit float

A sign, four bits of exponent and three of significand; the pattern of all ones is the only
NaN, and there is no infinity.  The numbers it holds without their sign are the places of a
grid whose unit is `2 ^ -9`, up to 448.

Encoding rounds to the nearest of them, a tie to the even significand, in a branch for the
subnormal numbers and one for the others.  Before both, small numbers become zero: all those
below one unit, where half a unit is what the rounding would ask for.  Everything here is
exact in single precision, and is computed in units of its smallest number.
-/

namespace Vknn.LowpGemm

open GridRounding Nat

/-- The smallest of the eight-bit numbers, and the largest. -/
def kFp8Unit : Nat := 2 ^ 140
def kFp8Max : Nat := 448 * kFp32Unit

def encodeFp8E4M3 (value : Float32Bits) : Nat :=
  if isNan value.bits.toNat then 0x7F
  else
    let sign := if floatLess value.bits.toNat 0 then 0x80 else 0
    let mag := min (singleUnits (magnitude value)) kFp8Max
    if mag < kFp8Unit then sign
    else
      let exponent : Int := (log2 mag : Int) - kFp32Exponent
      let biased := exponent + 7
      if biased < 1 then
        let m := nearestQuotient mag kFp8Unit
        if 7 < m then sign ||| 0x08 else sign ||| m
      else
        let m := nearestQuotient (8 * (mag - 2 ^ log2 mag)) (2 ^ log2 mag)
        let carried := if m = 8 then biased + 1 else biased
        let m := if m = 8 then 0 else m
        if 15 < carried ∨ carried = 15 ∧ 6 < m then sign ||| 0x7E
        else sign ||| carried.toNat <<< 3 ||| m

/-- Decoding: whether there is a sign, and how many units; nothing for a NaN. -/
def decodeFp8E4M3 (bits : Nat) : Option (Bool × Nat) :=
  let sign := decide (bits &&& 0x80 ≠ 0)
  let exponent := (bits >>> 3) &&& 0xF
  let mantissa := bits &&& 7
  if exponent = 0xF ∧ mantissa = 7 then none
  else if exponent = 0 then some (sign, mantissa)
  else some (sign, (8 + mantissa) * 2 ^ (exponent - 1))

/-- A code decodes to the value nearest to a number among those of its sign; of two that are equally
near, to the one with the even significand. -/
def NearestCode (value : Float32Bits) (code : Nat) : Prop :=
  let u := singleUnits (magnitude value)
  ∃ near, decodeFp8E4M3 code = some (floatLess value.bits.toNat 0, near) ∧
    ∀ d other, decodeFp8E4M3 d = some (floatLess value.bits.toNat 0, other) → other ≠ near →
      Nat.dist (kFp8Unit * near) u < Nat.dist (kFp8Unit * other) u ∨
        Nat.dist (kFp8Unit * near) u = Nat.dist (kFp8Unit * other) u ∧ code % 2 = 0

/-! ## Codes as places -/

variable {s : Bool} {h m u v : Nat}

theorem decode_eq (d : Nat) : decodeFp8E4M3 d =
    if d % 128 = 127 then none else some (decide (d / 128 % 2 = 1), grid 3 (d % 128)) := by
  have sign := and_bit d 7
  have exponent := and_mask (d / 2 ^ 3) 4
  have mantissa := and_mask d 3
  rw [← shiftRight_eq_div_pow] at exponent
  norm_num at sign exponent mantissa
  unfold decodeFp8E4M3 grid
  dsimp only
  rw [sign, exponent, mantissa, shiftRight_eq_div_pow]
  have high : d % 128 / 8 = d / 8 % 16 := by omega
  have first : d % 128 < 8 ↔ d / 8 % 16 = 0 := by omega
  have nan : d % 128 = 127 ↔ d / 8 % 16 = 15 ∧ d % 8 = 7 := by omega
  norm_num
  rw [high]
  simp only [first, nan]
  split_ifs with last zero
  · rfl
  · rw [zero, Nat.add_zero, Nat.zero_sub, Nat.pow_zero, Nat.mul_one]
  · rw [Nat.add_comm]

theorem decode_code (s : Bool) (inside : h < 127) :
    decodeFp8E4M3 (((if s then 0x80 else 0) : Nat) ||| h) = some (s, grid 3 h) := by
  have joined : ((if s then 0x80 else 0) : Nat) ||| h = (if s then 128 else 0) + h := by
    cases s
    · exact (zero_or h).trans (Nat.zero_add h).symm
    · exact (two_pow_add_eq_or_of_lt (i := 7) (by omega) 1).symm
  rw [joined, decode_eq]
  cases s
  · rw [if_neg (by simp; omega)]
    simp [mod_eq_of_lt (show h < 128 by omega), div_eq_of_lt (show h < 128 by omega)]
  · rw [if_neg (by simp; omega)]
    simp [mod_eq_of_lt (show h < 128 by omega), div_eq_of_lt (show h < 128 by omega)]

theorem nearestCode_iff {value : Float32Bits} (inside : h < 127) :
    NearestCode value (((if floatLess value.bits.toNat 0 then 0x80 else 0) : Nat) ||| h) ↔
      let u := singleUnits (magnitude value)
      ∀ b < 127, b ≠ h → Nat.dist (kFp8Unit * grid 3 h) u < Nat.dist (kFp8Unit * grid 3 b) u ∨
        Nat.dist (kFp8Unit * grid 3 h) u = Nat.dist (kFp8Unit * grid 3 b) u ∧ h % 2 = 0 := by
  have even : ∀ s : Bool, (((if s then 0x80 else 0) : Nat) ||| h) % 2 = h % 2 := by
    intro s
    have bit := or_mod_two_pow (a := if s then 0x80 else 0) (b := h) (n := 1)
    rw [Nat.pow_one] at bit
    rw [bit]
    cases s <;> simp
  dsimp only
  unfold NearestCode
  rw [decode_code _ inside, even]
  constructor
  · rintro ⟨near, held, nearest⟩ b small apart
    cases held
    exact nearest _ _ (decode_code _ small) fun same => apart ((strictMono_grid 3).injective same)
  · intro nearest
    refine ⟨_, rfl, fun d other decoded apart => ?_⟩
    rw [decode_eq] at decoded
    split_ifs at decoded with nan
    obtain ⟨-, rfl⟩ := Prod.mk.inj (Option.some.inj decoded)
    exact nearest _ (by omega) fun same => apart (by rw [same])

/-! ## Rounding -/

theorem nearestQuotient_add {n d : Nat} (positive : 0 < d) :
    nearestQuotient (n + 8 * d) d = nearestQuotient n d + 8 := by
  unfold nearestQuotient
  rw [add_mul_mod_self_right, add_mul_div_right _ _ positive]
  have parity : (n / d + 8) % 2 = n / d % 2 := by omega
  rw [parity]
  split_ifs <;> rfl

theorem nearestQuotient_mul {n d c : Nat} (positive : 0 < c) :
    nearestQuotient (c * n) (c * d) = nearestQuotient n d := by
  unfold nearestQuotient
  rw [mul_mod_mul_left, Nat.mul_div_mul_left _ _ positive]
  have half : 2 * (c * (n % d)) < c * d ↔ 2 * (n % d) < d := by
    rw [Nat.mul_left_comm, Nat.mul_lt_mul_left positive]
  have tie : 2 * (c * (n % d)) = c * d ↔ 2 * (n % d) = d := by
    rw [Nat.mul_left_comm, Nat.mul_right_inj positive.ne']
  simp only [half, tie]

/-- **From one unit on, the code is the sign and the nearest place.** -/
theorem encode_eq {value : Float32Bits} (number : isNan value.bits.toNat = false)
    (scaled : v = min (singleUnits (magnitude value)) kFp8Max) (large : kFp8Unit ≤ v) :
    encodeFp8E4M3 value =
        ((if floatLess value.bits.toNat 0 then 0x80 else 0) : Nat) ||| roundQuotient 3 v kFp8Unit ∧
      roundQuotient 3 v kFp8Unit < 127 := by
  have nearest := nearestEven_roundQuotient (p := 3) (n := v) (d := kFp8Unit) (by decide) (by decide)
  have bound : roundQuotient 3 v kFp8Unit ≤ 126 :=
    nearest.ge_of_ge (strictMono_grid 3) (by decide) (by
      rw [scaled]
      exact (Nat.min_le_right _ _).trans (by decide))
  refine ⟨?_, by omega⟩
  have nonzero : v ≠ 0 := by
    rintro rfl
    exact absurd large (by decide)
  obtain ⟨below, above⟩ := (log2_eq_iff nonzero).mp rfl
  have log : 140 ≤ log2 v := (le_log2 nonzero).mpr large
  obtain ⟨L, leading⟩ : ∃ L, log2 v = L := ⟨_, rfl⟩
  rw [leading] at below above log
  have quotient : log2 (v / kFp8Unit) = L - 140 := by
    have some_ : 0 < v / kFp8Unit := Nat.div_pos large (by decide)
    refine (log2_eq_iff some_.ne').mpr ⟨(Nat.le_div_iff_mul_le (by decide)).mpr ?_,
      (Nat.div_lt_iff_lt_mul (by decide)).mpr ?_⟩
    · rwa [kFp8Unit, ← Nat.pow_add, Nat.sub_add_cancel log]
    · rwa [kFp8Unit, ← Nat.pow_add, (by omega : L - 140 + 1 + 140 = L + 1)]
  unfold encodeFp8E4M3
  rw [number, if_neg (by simp)]
  dsimp only
  rw [← scaled, if_neg (Nat.not_lt.mpr large), leading]
  generalize ((if floatLess value.bits.toNat 0 then 0x80 else 0) : Nat) = sign
  rw [roundQuotient, quotient] at bound ⊢
  rcases Nat.lt_or_ge L 143 with subnormal | normal
  · have first : L - 140 - 3 = 0 := by omega
    rw [first, Nat.zero_mul, Nat.zero_add, Nat.pow_zero, Nat.mul_one, if_pos (by rw [kFp32Exponent]; omega)]
    have small : v < 8 * kFp8Unit := above.trans_le (by
      rw [kFp8Unit, ← Nat.pow_add 2 3 140]
      exact Nat.pow_le_pow_right (by decide) (by omega))
    have top : nearestQuotient v kFp8Unit ≤ 8 := by
      have less := Nat.div_lt_of_lt_mul (Nat.mul_comm .. ▸ small)
      unfold nearestQuotient
      split_ifs <;> omega
    split_ifs with carry
    · rw [(by omega : nearestQuotient v kFp8Unit = 8)]
    · rfl
  · obtain ⟨k, rfl⟩ := Nat.exists_eq_add_of_le normal
    have block : 143 + k - 140 - 3 = k := by omega
    have step : kFp8Unit * 2 ^ k = 2 ^ (140 + k) := by rw [kFp8Unit, ← Nat.pow_add]
    have lead : 2 ^ (143 + k) = 8 * 2 ^ (140 + k) := by
      rw [show 143 + k = 3 + (140 + k) by omega, Nat.pow_add]
    rw [block, step] at bound ⊢
    obtain ⟨n, rfl⟩ := Nat.exists_eq_add_of_le' below
    rw [lead] at bound above ⊢
    rw [Nat.add_sub_cancel, nearestQuotient_mul (by decide), if_neg (by rw [kFp32Exponent]; omega)]
    rw [nearestQuotient_add (by positivity)] at bound ⊢
    have top : nearestQuotient n (2 ^ (140 + k)) ≤ 8 := by
      rw [Nat.pow_succ, lead] at above
      have less : n / 2 ^ (140 + k) < 8 := Nat.div_lt_of_lt_mul (by omega)
      unfold nearestQuotient
      split_ifs <;> omega
    generalize nearestQuotient n (2 ^ (140 + k)) = m at top bound
    have biased : ((143 + k : Nat) : Int) - kFp32Exponent + 7 = (k + 1 : Nat) := by
      rw [kFp32Exponent]
      omega
    have joined : ∀ c m, m < 8 → c <<< 3 ||| m = c * 8 + m := fun c m small => by
      rw [← shiftLeft_add_eq_or_of_lt small, shiftLeft_eq]
    rw [biased]
    clear above below lead
    by_cases carry : m = 8
    · rw [if_pos carry, if_pos carry, if_neg (by omega), Nat.or_assoc, joined _ 0 (by decide)]
      exact congrArg (sign ||| ·) (by omega)
    · rw [if_neg carry, if_neg carry, if_neg (by omega), Nat.or_assoc, joined _ m (by omega)]
      exact congrArg (sign ||| ·) (by omega)

/-- **Encoding rounds to the nearest value** exactly outside of the upper half of the first unit. -/
theorem encode_nearest_iff {value : Float32Bits} (finite : FiniteFloat value) :
    NearestCode value (encodeFp8E4M3 value) ↔
      ¬ (kFp8Unit < 2 * singleUnits (magnitude value) ∧ singleUnits (magnitude value) < kFp8Unit) := by
  have number : isNan value.bits.toNat = false := by
    have mask := and_mask value.bits.toNat 31
    norm_num at mask
    rw [isNan, mask]
    exact decide_eq_false (Nat.not_lt.mpr (Nat.le_of_lt finite))
  have room : kFp8Unit ≤ kFp8Max := by decide
  have top : kFp8Unit * grid 3 126 = kFp8Max := by decide
  have mono := strictMono_grid 3
  obtain ⟨u, units⟩ : ∃ u, u = singleUnits (magnitude value) := ⟨_, rfl⟩
  rcases Nat.lt_or_ge u kFp8Unit with small | large
  · have zero : encodeFp8E4M3 value =
        ((if floatLess value.bits.toNat 0 then 0x80 else 0) : Nat) ||| 0 := by
      unfold encodeFp8E4M3
      dsimp only
      rw [number, if_neg (by simp), ← units, Nat.min_eq_left (small.le.trans room), if_pos small,
        or_zero]
    rw [zero, nearestCode_iff (by decide), ← units]
    have first : grid 3 0 = 0 ∧ grid 3 1 = 1 := by decide
    dsimp only
    rw [first.1, Nat.mul_zero]
    constructor
    · rintro nearest ⟨half, -⟩
      have one := nearest 1 (by decide) (by decide)
      rw [first.2] at one
      unfold Nat.dist at one
      omega
    · intro low b _ apart
      have step := mono (Nat.pos_of_ne_zero apart)
      have unit := Nat.mul_le_mul_left kFp8Unit (show 1 ≤ grid 3 b by omega)
      unfold Nat.dist
      omega
  · obtain ⟨v, scaled⟩ : ∃ v, v = min u kFp8Max := ⟨_, rfl⟩
    obtain ⟨code, inside⟩ := encode_eq number (units ▸ scaled) (by omega)
    have nearest := nearestEven_roundQuotient (p := 3) (n := v) (d := kFp8Unit) (by decide) (by decide)
    rw [code, nearestCode_iff inside, ← units]
    refine ⟨fun _ => by omega, fun _ b small apart => ?_⟩
    rcases Nat.le_total u kFp8Max with fits | past
    · rw [Nat.min_eq_left fits] at scaled
      exact scaled ▸ nearest b apart
    · have last := nearest.eq_of_exact mono (by decide) (b := 126) (by omega)
      rw [last] at apart ⊢
      have step := Nat.mul_lt_mul_of_pos_left (mono (show b < 126 by omega)) (show 0 < kFp8Unit by decide)
      left
      unfold Nat.dist
      omega

/-- One is encoded as it is. -/
theorem encode_one : NearestCode ⟨0x3F800000⟩ (encodeFp8E4M3 ⟨0x3F800000⟩) :=
  (encode_nearest_iff (by decide)).mpr (by decide)

/-- Three quarters of a unit become zero; one unit is nearer. -/
theorem encode_flushed : ¬ NearestCode ⟨0x3AC00000⟩ (encodeFp8E4M3 ⟨0x3AC00000⟩) := by
  rintro ⟨near, decoded, nearest⟩
  have code : encodeFp8E4M3 ⟨0x3AC00000⟩ = 0 := by decide
  rw [code] at decoded
  have zero : near = 0 := by
    have here : decodeFp8E4M3 0 = some (false, 0) := by decide
    rw [here] at decoded
    exact (Prod.mk.inj (Option.some.inj decoded)).2.symm
  subst zero
  have one := nearest 1 1 (by decide) (by decide)
  revert one
  decide

end Vknn.LowpGemm
