import Mathlib.Data.List.Basic
import Mathlib.Tactic.Ring

/-!
# Rows of a head-major store

A store keeps `heads` blocks of `slots` rows of `width` elements each, one after
the other.  A row of the store is the same row of every block.  Writing a list of
rows at a slot is the abstract operation here: it puts the rows at that slot and
the ones after it, in every block, and nothing anywhere else.  Copying one run of
elements for each block, which is how a flat memory is written, does the same.
-/

namespace RowStore

open List Nat

variable {α : Type} {heads slots width : Nat}

abbrev Row (heads width : Nat) (α : Type) := Fin heads → Fin width → α

/-- A row of a store whose blocks have `slots` rows. -/
def rowAt (heads slots width : Nat) (s : Nat → α) (r : Nat) : Row heads width α :=
  fun h d => s ((h * slots + r) * width + d)

def rows (heads slots width : Nat) (s : Nat → α) (n : Nat) : List (Row heads width α) :=
  (List.range n).map (rowAt heads slots width s)

@[simp] theorem length_rows (s : Nat → α) (n : Nat) : (rows heads slots width s n).length = n := by
  simp [rows]

/-- A position lies in one of `count` rows from `slot` on, in one of the blocks. -/
def InRows (heads slots width slot count i : Nat) : Prop :=
  i / width / slots < heads ∧ i % width < width ∧ i / width % slots < slots ∧
    slot ≤ i / width % slots ∧ i / width % slots - slot < count

instance (heads slots width slot count i : Nat) :
    Decidable (InRows heads slots width slot count i) :=
  inferInstanceAs (Decidable (_ ∧ _ ∧ _ ∧ _ ∧ _))

/-- Put rows at a slot and the slots after it. -/
def write (slots : Nat) (s : Nat → α) (slot : Nat) (new : List (Row heads width α)) : Nat → α :=
  fun i =>
    if hit : InRows heads slots width slot new.length i then
      new.get ⟨i / width % slots - slot, hit.2.2.2.2⟩ ⟨i / width / slots, hit.1⟩
        ⟨i % width, hit.2.1⟩
    else s i

/-! ## Positions -/

variable {count d h : Nat}

theorem position_div_width (slots h r : Nat) (small : d < width) :
    ((h * slots + r) * width + d) / width = h * slots + r := by
  rw [Nat.mul_comm, mul_add_div (zero_lt_of_lt small), div_eq_of_lt small, Nat.add_zero]

theorem position_mod_width (slots h r : Nat) (small : d < width) :
    ((h * slots + r) * width + d) % width = d := by
  rw [Nat.mul_comm, mul_add_mod, mod_eq_of_lt small]

variable {r slot : Nat} {new : List (Row heads width α)} {s : Nat → α}

theorem block_div (small : r < slots) : (h * slots + r) / slots = h := by
  rw [Nat.mul_comm, mul_add_div (zero_lt_of_lt small), div_eq_of_lt small, Nat.add_zero]

theorem block_mod (small : r < slots) : (h * slots + r) % slots = r := by
  rw [Nat.mul_comm, mul_add_mod, mod_eq_of_lt small]

/-- A position lies in a run of rows of a block exactly when its block and its row do. -/
theorem inRun_iff (width h i : Nat) (fits : slot + count ≤ slots) :
    ((h * slots + slot) * width ≤ i ∧ i < (h * slots + slot + count) * width) ↔
      0 < width ∧ i / width / slots = h ∧ slot ≤ i / width % slots ∧
        i / width % slots < slot + count := by
  rcases Nat.eq_zero_or_pos width with rfl | positive
  · simp
  rw [← Nat.le_div_iff_mul_le positive, ← Nat.div_lt_iff_lt_mul positive]
  generalize i / width = q
  constructor
  · rintro ⟨low, high⟩
    obtain ⟨r, rfl⟩ := Nat.exists_eq_add_of_le (Nat.le_trans (Nat.le_add_right _ slot) low)
    have small : r < slots := by omega
    rw [block_div small, block_mod small]
    exact ⟨positive, rfl, by omega, by omega⟩
  · rintro ⟨_, rfl, low, high⟩
    have split := div_add_mod q slots
    rw [Nat.mul_comm] at split
    omega

theorem position_eq (slots width i : Nat) :
    (i / width / slots * slots + i / width % slots) * width + i % width = i := by
  rw [Nat.mul_comm (i / width / slots), div_add_mod, Nat.mul_comm, div_add_mod]

/-! ## Reading what was written -/

theorem write_hit (s : Nat → α) (new : List (Row heads width α))
    (small : r < slots) (low : slot ≤ r) (high : r - slot < new.length) (h : Fin heads)
    (d : Fin width) : write slots s slot new ((h * slots + r) * width + d) = new[r - slot] h d := by
  have column := position_div_width slots h r d.isLt
  have lane := position_mod_width slots h r d.isLt
  have block := block_div (h := h) small
  have row := block_mod (h := h) small
  have same : ∀ (r' : Nat) (h' : Fin heads) (d' : Fin width) (inside : r' - slot < new.length),
      r' = r → h' = h → d' = d → new.get ⟨r' - slot, inside⟩ h' d' = new[r - slot] h d := by
    rintro _ _ _ _ rfl rfl rfl
    rfl
  have hit : InRows heads slots width slot new.length ((h * slots + r) * width + d) := by
    unfold InRows
    rw [column, lane, block, row]
    exact ⟨h.isLt, d.isLt, small, low, high⟩
  rw [write, dif_pos hit]
  have rowEq : ((h * slots + r) * width + d) / width % slots = r := by rw [column, row]
  have blockEq : ((h * slots + r) * width + d) / width / slots = h := by rw [column, block]
  exact same _ _ _ _ rowEq (Fin.ext blockEq) (Fin.ext lane)

theorem write_miss (s : Nat → α) {i : Nat}
    (miss : ¬ InRows heads slots width slot new.length i) : write slots s slot new i = s i :=
  dif_neg miss

theorem rowAt_write_inside
    (small : r < slots) (low : slot ≤ r) (high : r - slot < new.length) :
    rowAt heads slots width (write slots s slot new) r = new[r - slot] := by
  funext h d
  exact write_hit s new small low high h d

theorem rowAt_write_outside
    (small : r < slots) (outside : r < slot ∨ slot + new.length ≤ r) :
    rowAt heads slots width (write slots s slot new) r = rowAt heads slots width s r := by
  funext h d
  refine write_miss s ?_
  unfold InRows
  rw [position_div_width _ _ _ d.isLt, block_mod small]
  omega

/-- **The rows after writing at their end are the old rows and the new ones.** -/
theorem rows_write (s : Nat → α) (slot : Nat) (new : List (Row heads width α))
    (fits : slot + new.length ≤ slots) :
    rows heads slots width (write slots s slot new) (slot + new.length) =
      rows heads slots width s slot ++ new := by
  refine ext_getElem (by simp) fun r left right => ?_
  have bound : r < slot + new.length := by simpa using left
  rw [getElem_append]
  simp only [rows, getElem_map, getElem_range, length_map, length_range]
  split
  · rename_i old
    exact rowAt_write_outside (by omega) (Or.inl old)
  · rename_i fresh
    exact rowAt_write_inside (by omega) (by omega) (by omega)

@[simp] theorem write_nil (s : Nat → α) (slot : Nat) :
    write slots s slot ([] : List (Row heads width α)) = s := by
  funext i
  refine write_miss s ?_
  unfold InRows
  simp

/-- **Writing twice in a row is writing once.** -/
theorem write_write {later : List (Row heads width α)} :
    write slots (write slots s slot new) (slot + new.length) later =
      write slots s slot (new ++ later) := by
  funext i
  by_cases hit : InRows heads slots width slot (new ++ later).length i
  · obtain ⟨block, lane, small, low, high⟩ := hit
    rw [length_append] at high
    have position := position_eq slots width i
    generalize i / width / slots = h at *
    generalize i / width % slots = r at *
    generalize i % width = d at *
    subst position
    have both := write_hit s (new ++ later) small low (by rw [length_append]; exact high)
      ⟨h, block⟩ ⟨d, lane⟩
    rw [both]
    by_cases inNew : r - slot < new.length
    · rw [getElem_append_left inNew, write_miss, write_hit s new small low inNew
        ⟨h, block⟩ ⟨d, lane⟩]
      unfold InRows
      rw [position_div_width _ _ _ lane, block_mod small]
      omega
    · have after : slot + new.length ≤ r := by omega
      have beyond : r - (slot + new.length) < later.length := by omega
      rw [getElem_append_right (not_lt.mp inNew)]
      refine (write_hit _ later small after beyond ⟨h, block⟩ ⟨d, lane⟩).trans ?_
      have offset : r - (slot + new.length) = r - slot - new.length := by omega
      exact congrFun (congrFun (getElem_congr_idx offset) _) _
  · unfold InRows at hit
    rw [length_append] at hit
    rw [write_miss, write_miss, write_miss]
    · unfold InRows
      rw [length_append]
      exact hit
    · unfold InRows
      omega
    · unfold InRows
      omega

/-! ## Copying runs of elements -/

/-- Copy `count` elements from one position to another. -/
def copyRun (src : Nat → α) (source target count : Nat) (dst : Nat → α) : Nat → α :=
  fun i => if target ≤ i ∧ i < target + count then src (source + (i - target)) else dst i

/-- Copy a run of `count` rows of every block: from row `source` of blocks of `srcSlots` rows to
row `slot` of blocks of `slots` rows. -/
def copyRows (heads srcSlots slots width : Nat) (src : Nat → α) (source slot count : Nat)
    (dst : Nat → α) : Nat → α :=
  (List.range heads).foldl (fun dst h =>
    copyRun src ((h * srcSlots + source) * width) ((h * slots + slot) * width) (count * width) dst)
    dst

/-- **Copying a run of every block writes the rows of the source.** -/
theorem copyRows_eq_write {srcSlots : Nat} {src dst : Nat → α} {source : Nat}
    (fits : slot + count ≤ slots) :
    copyRows heads srcSlots slots width src source slot count dst = write slots dst slot
        ((List.range count).map fun j => rowAt heads srcSlots width src (source + j)) := by
  have partway : ∀ n, (List.range n).foldl (fun dst h =>
      copyRun src ((h * srcSlots + source) * width) ((h * slots + slot) * width) (count * width)
        dst) dst = fun i =>
      if 0 < width ∧ i / width / slots < n ∧ slot ≤ i / width % slots ∧
          i / width % slots < slot + count then
        src ((i / width / slots * srcSlots + source + (i / width % slots - slot)) * width +
          i % width)
      else dst i := by
    intro n
    induction n with
    | zero => funext i; simp
    | succ n ih =>
      rw [range_succ, foldl_append, ih]
      funext i
      have span : (n * slots + slot) * width + count * width =
          (n * slots + slot + count) * width := by ring
      have run := inRun_iff width n i fits
      simp only [foldl_cons, foldl_nil, copyRun, span, run]
      by_cases here : 0 < width ∧ i / width / slots = n ∧ slot ≤ i / width % slots ∧
          i / width % slots < slot + count
      · rw [if_pos here, if_pos ⟨here.1, by omega, here.2.2⟩]
        obtain ⟨positive, block, low, high⟩ := here
        congr 1
        have column := div_add_mod (i / width) slots
        have lane := div_add_mod i width
        rw [block] at column ⊢
        obtain ⟨j, inRow⟩ := Nat.exists_eq_add_of_le low
        rw [inRow] at column ⊢
        have start : i = (n * slots + slot) * width + (j * width + i % width) := by
          calc i = width * (i / width) + i % width := lane.symm
            _ = width * (slots * n + (slot + j)) + i % width := by rw [column]
            _ = _ := by ring
        have offset : i - (n * slots + slot) * width = j * width + i % width := by omega
        rw [offset, Nat.add_sub_cancel_left]
        ring
      · rw [if_neg here]
        by_cases before : 0 < width ∧ i / width / slots < n ∧ slot ≤ i / width % slots ∧
            i / width % slots < slot + count
        · rw [if_pos before, if_pos ⟨before.1, by omega, before.2.2⟩]
        · rw [if_neg before, if_neg]
          rintro ⟨positive, block, inRow⟩
          rcases Nat.lt_succ_iff_lt_or_eq.mp block with earlier | now
          · exact before ⟨positive, earlier, inRow⟩
          · exact here ⟨positive, now, inRow⟩
  rw [copyRows, partway heads]
  funext i
  by_cases hit : InRows heads slots width slot count i
  · obtain ⟨block, lane, small, low, high⟩ := hit
    have within : i / width % slots < slot + count := by omega
    rw [if_pos ⟨zero_lt_of_lt lane, block, low, within⟩]
    have position := position_eq slots width i
    have new := write_hit dst ((List.range count).map fun j =>
      rowAt heads srcSlots width src (source + j)) small low (by simpa using high) ⟨_, block⟩
        ⟨_, lane⟩
    rw [position] at new
    rw [new]
    simp only [getElem_map, getElem_range, rowAt, Nat.add_assoc]
  · rw [if_neg, write_miss]
    · rw [length_map, length_range]
      exact hit
    · rintro ⟨positive, block, low, high⟩
      exact hit ⟨block, mod_lt i positive, by omega, low, by omega⟩

end RowStore
