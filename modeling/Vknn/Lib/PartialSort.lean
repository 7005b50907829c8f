import Mathlib.Data.Fin.Tuple.Sort
import Mathlib.Data.Set.Card

/-!
# Sorting the first few entries

A partial sort with a comparator rearranges the entries so that none behind one of the first
few is before it.  It promises so where the comparator is a strict weak order.  Where the
comparator orders the entries by a key and then by their place, it leaves no choice: the
first few are those of the stable sort by that key.
-/

namespace PartialSort

variable {n k : Nat} {lt : Fin n → Fin n → Prop} {idx : Fin n → Fin n}

/-- The entries in an order in which the first few are sorted, and before all others. -/
structure Sorted (lt : Fin n → Fin n → Prop) (k : Nat) (idx : Fin n → Fin n) : Prop where
  bijective : idx.Bijective
  ordered : ∀ i j : Fin n, i < j → (i : Nat) < k → ¬ lt (idx j) (idx i)

/-- What a partial sort promises: nothing, if the comparator is no strict weak order. -/
def Allowed (lt : Fin n → Fin n → Prop) (k : Nat) (idx : Fin n → Fin n) : Prop :=
  IsStrictWeakOrder (Fin n) lt → Sorted lt k idx

/-- The entries can be sorted, by how many are before each. -/
theorem exists_sorted (order : IsStrictWeakOrder (Fin n) lt) (k : Nat) :
    ∃ idx, Sorted lt k idx := by
  let before (a : Fin n) : Nat := {b | lt b a}.ncard
  have fewer : ∀ {a b}, lt a b → before a < before b := fun {a b} less =>
    Set.ncard_lt_ncard ⟨fun c earlier => trans earlier less, fun same => irrefl a (same less)⟩
      (Set.toFinite _)
  refine ⟨Tuple.sort before, (Tuple.sort before).bijective, fun i j later _ less => ?_⟩
  exact absurd (Tuple.monotone_sort before later.le) (Nat.not_le.mpr (fewer less))

theorem exists_allowed (lt : Fin n → Fin n → Prop) (k : Nat) : ∃ idx, Allowed lt k idx := by
  by_cases order : IsStrictWeakOrder (Fin n) lt
  · obtain ⟨idx, sorted⟩ := exists_sorted order k
    exact ⟨idx, fun _ => sorted⟩
  · exact ⟨id, fun strict => absurd strict order⟩

section ByKey

variable {β : Type} [LinearOrder β] {f : Fin n → β}

/-- A comparator by a key and then by the place is a strict weak order. -/
theorem strictWeak_of_key (rule : ∀ a b, lt a b ↔ toLex (f a, a) < toLex (f b, b)) :
    IsStrictWeakOrder (Fin n) lt := by
  have equal : ∀ {a b}, ¬ lt a b ∧ ¬ lt b a → a = b := by
    intro a b apart
    rw [rule, rule] at apart
    exact congrArg (fun p : β ×ₗ Fin n => (ofLex p).2)
      (le_antisymm (not_lt.mp apart.2) (not_lt.mp apart.1))
  refine @IsStrictWeakOrder.mk _ _ (@IsStrictOrder.mk _ _ ⟨fun a less => ?_⟩ ⟨?_⟩) ?_
  · exact lt_irrefl _ ((rule a a).mp less)
  · exact fun a b c first second => (rule a c).mpr (((rule a b).mp first).trans ((rule b c).mp second))
  · intro a b c left right
    obtain rfl := equal left
    exact right

/-- **The first entries of a partial sort** by a key and then by the place are those of the
stable sort. -/
theorem Sorted.eq_sort (rule : ∀ a b, lt a b ↔ toLex (f a, a) < toLex (f b, b))
    (sorted : Sorted lt k idx) (j : Fin n) (small : (j : Nat) < k) : idx j = Tuple.sort f j := by
  set order := Tuple.sort f with named
  obtain ⟨grows, ties⟩ := Tuple.eq_sort_iff.mp named
  have increasing : ∀ {a b : Fin n}, a < b → lt (order a) (order b) := by
    intro a b less
    rw [rule, Prod.Lex.toLex_lt_toLex']
    exact ⟨grows less.le, ties a b less⟩
  have asymm : ∀ {a b}, lt a b → ¬ lt b a := fun less back =>
    lt_asymm ((rule _ _).mp less) ((rule _ _).mp back)
  induction j using WellFoundedLT.induction with
  | ind j ih =>
    -- Neither entry can be among the earlier ones, which agree.
    have ours : j ≤ order.symm (idx j) := by
      by_contra early
      have early := lt_of_not_ge early
      have back := ih _ early (by omega)
      rw [Equiv.apply_symm_apply] at back
      exact early.ne (sorted.bijective.injective back)
    obtain ⟨p, place⟩ := sorted.bijective.surjective (order j)
    have theirs : j ≤ p := by
      by_contra early
      have early := lt_of_not_ge early
      rw [ih p early (by omega)] at place
      exact early.ne (order.injective place)
    rcases theirs.eq_or_lt with rfl | later
    · exact place
    · rcases ours.eq_or_lt with here | behind
      · rw [here, Equiv.apply_symm_apply, ← here]
      · have first := increasing behind
        rw [Equiv.apply_symm_apply, ← place] at first
        exact absurd first (sorted.ordered j p later small)

end ByKey

end PartialSort
