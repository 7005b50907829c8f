import Mathlib.Tactic.Linarith

/-!
# Signed arithmetic that must not overflow

Sums, differences and products of 64-bit signed integers are exact or have no meaning.  An operation
gives nothing where the exact result does not fit, so a computation that gives something has met no
overflow on its way.
-/

namespace CheckedInt

def Fits (n : Int) : Prop := -2 ^ 63 ≤ n ∧ n < 2 ^ 63

instance (n : Int) : Decidable (Fits n) := inferInstanceAs (Decidable (_ ∧ _))

def value (n : Int) : Option Int := if Fits n then some n else none

def add (a b : Int) : Option Int := value (a + b)
def sub (a b : Int) : Option Int := value (a - b)
def mul (a b : Int) : Option Int := value (a * b)
def neg (a : Int) : Option Int := value (-a)

def div (a b : Int) : Option Int := if b = 0 then none else value (a.tdiv b)

theorem value_of_fits {n : Int} (fits : Fits n) : value n = some n := if_pos fits

theorem value_eq_some_iff {n m : Int} : value n = some m ↔ Fits n ∧ n = m := by
  unfold value
  split
  · rename_i fits
    rw [Option.some.injEq]
    exact ⟨fun same => ⟨fits, same⟩, And.right⟩
  · rename_i beyond
    exact ⟨fun h => absurd h (Option.some_ne_none m).symm, fun both => absurd both.1 beyond⟩

theorem fits_tdiv {a b : Int} (fits : Fits a) (positive : 0 < b) : Fits (a.tdiv b) := by
  obtain ⟨low, high⟩ := fits
  rcases le_total 0 a with nonneg | nonpos
  · have quotient := Int.tdiv_eq_ediv_of_nonneg (b := b) nonneg
    have bounded := Int.ediv_le_self b nonneg
    have := Int.ediv_nonneg nonneg positive.le
    rw [quotient]
    constructor <;> omega
  · have quotient : a.tdiv b = -(-a / b) := by
      rw [← Int.tdiv_eq_ediv_of_nonneg (by omega), Int.neg_tdiv, Int.neg_neg]
    have bounded := Int.ediv_le_self b (show 0 ≤ -a by omega)
    have := Int.ediv_nonneg (show 0 ≤ -a by omega) positive.le
    rw [quotient]
    constructor <;> omega

end CheckedInt
