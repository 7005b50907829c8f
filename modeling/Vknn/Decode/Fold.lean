import Vknn.Session.State
import Vknn.Lib.RowStore

/-!
# Folding rows into a cache

A decoder's cache holds one row of keys and one of values for every position.  A
forward pass produces the rows of the tokens it was fed, and the caller names the
element ranges that put them into the cache before the next pass: one range for
each head, since the rows of one head lie together.

The rules that compute the ranges are here, and the fact they are for: applying
them writes exactly the named rows at the named slots.  Keys and values are folded
by the same ranges; an element below stands for one of each.
-/

namespace Vknn.Decode

open RowStore

/-- The ranges that copy consecutive rows of a present output into consecutive slots of a past
input. -/
def kvFoldRowRanges (kvHeads presentRows cacheSlots headDim sourceRow slot rows : Int) :
    List LinkRange :=
  if slot < 0 ∨ rows ≤ 0 then []
  else
    (List.range kvHeads.toNat).map fun (head : Nat) =>
      ⟨(head * presentRows + sourceRow) * headDim, (head * cacheSlots + slot) * headDim,
        rows * headDim⟩

/-- The ranges that fold the accepted rows of a verification pass, and only those. -/
def specVerifyFoldRanges (kvHeads presentRows cacheSlots headDim verifyTokens slot rows : Int) :
    List LinkRange :=
  kvFoldRowRanges kvHeads presentRows cacheSlots headDim (presentRows - verifyTokens)
    (if rows > 0 then slot else -1) rows

variable {α : Type}

/-- Copy ranges of elements, in order. -/
def copyLinkRanges (src : Nat → α) (ranges : List LinkRange) (dst : Nat → α) : Nat → α :=
  ranges.foldl (fun dst r =>
    copyRun src r.sourceElem.toNat r.destElem.toNat r.count.toNat dst) dst

/-- **A row-block fold copies the rows of every head.** -/
theorem copyLinkRanges_kvFoldRowRanges (src dst : Nat → α)
    (heads presentRows cacheSlots width source slot rows : Nat) :
    copyLinkRanges src
      (kvFoldRowRanges heads presentRows cacheSlots width source slot rows) dst =
    if rows = 0 then dst
    else copyRows heads presentRows cacheSlots width src source slot rows dst := by
  unfold kvFoldRowRanges
  rcases Nat.eq_zero_or_pos rows with rfl | positive
  · simp [copyLinkRanges]
  · rw [if_neg (by omega), if_neg (by omega)]
    have start : ∀ h n r : Nat, (((h : Int) * n + r) * width).toNat = (h * n + r) * width := by
      intro h n r
      exact_mod_cast Int.toNat_natCast ((h * n + r) * width)
    have count : ((rows : Int) * width).toNat = rows * width := by
      exact_mod_cast Int.toNat_natCast (rows * width)
    unfold copyLinkRanges copyRows
    rw [List.foldl_map, Int.toNat_natCast]
    simp only [start, count]

/-- The ranges of a verification pass copy its accepted rows, counted from the first produced
one. -/
theorem copyLinkRanges_specVerifyFoldRanges (src dst : Nat → α)
    {heads presentRows cacheSlots width window slot rows : Nat} (wide : window ≤ presentRows) :
    copyLinkRanges src
      (specVerifyFoldRanges heads presentRows cacheSlots width window slot rows) dst =
    if rows = 0 then dst
    else copyRows heads presentRows cacheSlots width src (presentRows - window) slot rows dst := by
  rw [← copyLinkRanges_kvFoldRowRanges, Nat.cast_sub wide]
  unfold specVerifyFoldRanges
  rcases Nat.eq_zero_or_pos rows with rfl | positive
  · simp [kvFoldRowRanges]
  · rw [if_pos (by omega)]

theorem copyLinkRanges_specVerifyFoldRanges_none (src dst : Nat → α)
    (kvHeads presentRows cacheSlots headDim verifyTokens slot : Int) :
    copyLinkRanges src
      (specVerifyFoldRanges kvHeads presentRows cacheSlots headDim verifyTokens slot 0) dst =
    dst := by
  simp [specVerifyFoldRanges, kvFoldRowRanges, copyLinkRanges]

end Vknn.Decode
