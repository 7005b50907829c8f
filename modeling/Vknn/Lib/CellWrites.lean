import Mathlib.Data.List.Basic
import Mathlib.Tactic.Linarith

/-!
# Loops that change one cell at a time

A loop over an array often does nothing but change one cell in each of its
steps.  Written out, such a loop is a list of changes, and nested loops are the
same list as the plain ones they unfold to.  What ends up in a cell is then
decided by the changes made at that cell alone, in their order: the others do
not matter, however the loops are nested.  Steps at different cells may even be
interleaved.
-/

namespace CellWrites

open List

variable {α ι : Type}

/-- One step of a loop: the cell it changes, and how. -/
structure Write (α : Type) where
  cell : Nat
  change : α → α

def Write.put (cell : Nat) (a : α) : Write α := ⟨cell, fun _ => a⟩

@[simp] theorem Write.put_cell (cell : Nat) (a : α) : (Write.put cell a).cell = cell := rfl
@[simp] theorem Write.put_change (cell : Nat) (a b : α) : (Write.put cell a).change b = a := rfl

def run (ws : List (Write α)) (xs : List α) : List α :=
  ws.foldl (fun xs w => xs.modify w.cell w.change) xs

/-- What the steps make of the content of one cell. -/
def settled (ws : List (Write α)) (cell : Nat) (a : α) : α :=
  (ws.filter fun w => w.cell = cell).foldl (fun a w => w.change a) a

/-! ## Loops as lists of steps -/

@[simp] theorem run_nil (xs : List α) : run [] xs = xs := rfl

theorem run_cons (w : Write α) (ws : List (Write α)) (xs : List α) :
    run (w :: ws) xs = run ws (xs.modify w.cell w.change) := rfl

theorem run_append (ws later : List (Write α)) (xs : List α) :
    run (ws ++ later) xs = run later (run ws xs) := by
  simp only [run, foldl_append]

@[simp] theorem length_run (ws : List (Write α)) (xs : List α) :
    (run ws xs).length = xs.length := by
  induction ws generalizing xs with
  | nil => rfl
  | cons w ws ih => rw [run_cons, ih, length_modify]

theorem foldl_modify (is : List ι) (cell : ι → Nat) (change : ι → α → α) (xs : List α) :
    is.foldl (fun xs i => xs.modify (cell i) (change i)) xs =
      run (is.map fun i => ⟨cell i, change i⟩) xs := by
  rw [run, foldl_map]

theorem foldl_set (is : List ι) (cell : ι → Nat) (value : ι → α) (xs : List α) :
    is.foldl (fun xs i => xs.set (cell i) (value i)) xs =
      run (is.map fun i => Write.put (cell i) (value i)) xs := by
  rw [run, foldl_map]
  refine congrArg (fun step => is.foldl step xs) ?_
  funext xs i
  exact set_eq_modify (value i) (cell i) xs

theorem foldl_run (is : List ι) (body : ι → List (Write α)) (xs : List α) :
    is.foldl (fun xs i => run (body i) xs) xs = run (is.flatMap body) xs := by
  induction is generalizing xs with
  | nil => rfl
  | cons i is ih => rw [foldl_cons, ih, flatMap_cons, run_append]

/-! ## What a cell ends up with -/

@[simp] theorem settled_nil (cell : Nat) (a : α) : settled [] cell a = a := rfl

theorem settled_append (ws later : List (Write α)) (cell : Nat) (a : α) :
    settled (ws ++ later) cell a = settled later cell (settled ws cell a) := by
  simp only [settled, filter_append, foldl_append]

variable {cell k : Nat} {ws : List (Write α)}

theorem settled_here {w : Write α} (here : w.cell = cell) (a : α) :
    settled [w] cell a = w.change a := by
  simp [settled, here]

theorem settled_elsewhere
    (elsewhere : ∀ w ∈ ws, w.cell ≠ cell) (a : α) : settled ws cell a = a := by
  have none_left : (ws.filter fun w => w.cell = cell) = [] := by
    rw [filter_eq_nil_iff]
    exact fun w listed => by simpa using elsewhere w listed
  rw [settled, none_left, foldl_nil]

/-- **A cell ends up with what the steps at that cell make of it.** -/
theorem getElem?_run (ws : List (Write α)) (xs : List α) (i : Nat) :
    (run ws xs)[i]? = xs[i]?.map (settled ws i) := by
  induction ws generalizing xs with
  | nil => exact Option.map_id'.symm
  | cons w ws ih =>
    rw [run_cons, ih, getElem?_modify, Option.map_eq_map, Option.map_map]
    refine congrArg (fun f => Option.map f xs[i]?) ?_
    funext a
    have split : settled (w :: ws) i a = settled ws i (settled [w] i a) := settled_append [w] ws i a
    rw [Function.comp_apply, split]
    by_cases here : w.cell = i
    · rw [if_pos here, settled_here here]
    · have untouched : settled [w] i a = a :=
        settled_elsewhere (fun v listed => mem_singleton.mp listed ▸ here) a
      rw [if_neg here, untouched]

/-- A loop over consecutive cells leaves in each the value stored for it. -/
theorem settled_puts (base M c : Nat) (value : Nat → α) (a : α) :
    settled ((List.range M).map fun n => Write.put (base + n) (value n)) (base + c) a =
      if c < M then value c else a := by
  induction M with
  | zero => rfl
  | succ M ih =>
    rw [range_succ, map_append, settled_append, ih, map_singleton]
    by_cases last : M = c
    · subst last
      rw [settled_here (Write.put_cell _ _), Write.put_change, if_pos (Nat.lt_succ_self M)]
    · have same : c < M + 1 ↔ c < M := by omega
      rw [settled_elsewhere (by simpa using last)]
      simp only [same]

/-- Where the cell belongs to one round of the outer loop, that round decides it. -/
theorem settled_round {body : Nat → List (Write α)} {rounds : Nat} (inside : k < rounds)
    (apart : ∀ y < rounds, y ≠ k → ∀ w ∈ body y, w.cell ≠ cell) (a : α) :
    settled ((List.range rounds).flatMap body) cell a = settled (body k) cell a := by
  induction rounds with
  | zero => exact absurd inside (Nat.not_lt_zero k)
  | succ rounds ih =>
    rw [range_succ, flatMap_append, flatMap_singleton, settled_append]
    by_cases last : k = rounds
    · subst last
      have earlier : ∀ w ∈ (List.range k).flatMap body, w.cell ≠ cell := by
        intro w listed
        obtain ⟨y, early, of_y⟩ := mem_flatMap.mp listed
        have before : y < k := mem_range.mp early
        exact apart y (by omega) (by omega) w of_y
      rw [settled_elsewhere earlier]
    · rw [settled_elsewhere (apart rounds (by omega) (Ne.symm last))]
      exact ih (by omega) fun y below => apart y (by omega)

/-- One row of a grid laid out row after row holds what its own steps put there. -/
theorem settled_row {row : Nat → List (Write α)} {rows pitch c : Nat} (inside : k < rows)
    (column : c < pitch) (within : ∀ y < rows, ∀ w ∈ row y, w.cell < pitch) (a : α) :
    settled ((List.range rows).flatMap fun y =>
        (row y).map fun w => ⟨y * pitch + w.cell, w.change⟩) (k * pitch + c) a =
      settled (row k) c a := by
  rw [settled_round inside]
  · have same : ((row k).map fun w => (⟨k * pitch + w.cell, w.change⟩ : Write α)).filter
          (fun w => w.cell = k * pitch + c) =
        ((row k).filter fun w => w.cell = c).map fun w => ⟨k * pitch + w.cell, w.change⟩ := by
      rw [filter_map]
      refine congrArg _ (filter_congr fun w _ => ?_)
      simp
    rw [settled, same, foldl_map, settled]
  · intro y below other w listed here
    obtain ⟨v, of_row, rfl⟩ := mem_map.mp listed
    have small := within y below v of_row
    have here : y * pitch + v.cell = k * pitch + c := here
    have row_y : (y * pitch + v.cell) / pitch = y := by
      rw [Nat.mul_comm, Nat.mul_add_div (by omega), Nat.div_eq_of_lt small, Nat.add_zero]
    have row_k : (k * pitch + c) / pitch = k := by
      rw [Nat.mul_comm, Nat.mul_add_div (by omega), Nat.div_eq_of_lt column, Nat.add_zero]
    exact other (by rw [← row_y, here, row_k])

/-! ## Steps at different cells -/

/-- **Loops over the columns and then the rows of a grid** fill every place of it. -/
theorem getElem?_columns (rows cols : Nat) (value : Nat → Nat → α) {xs : List α}
    (room : xs.length = rows * cols) {n : Nat} (row : k < rows) (column : n < cols) :
    (run ((List.range cols).flatMap fun n =>
        (List.range rows).map fun k => Write.put (k * cols + n) (value k n)) xs)[k * cols + n]? =
      some (value k n) := by
  have inside : k * cols + n < xs.length := by
    rw [room]
    calc k * cols + n < (k + 1) * cols := by rw [Nat.succ_mul]; omega
      _ ≤ rows * cols := Nat.mul_le_mul_right _ row
  have column_of : ∀ y < cols, ∀ i : Nat, (i * cols + y) % cols = y := fun y small i => by
    rw [Nat.mul_comm, Nat.mul_add_mod, Nat.mod_eq_of_lt small]
  rw [getElem?_run, getElem?_eq_getElem inside, Option.map_some, settled_round column,
    map_eq_flatMap, settled_round row, settled_here (Write.put_cell _ _), Write.put_change]
  · intro y _ other w listed
    obtain rfl := mem_singleton.mp listed
    intro here
    exact other (Nat.eq_of_mul_eq_mul_right (by omega) (Nat.add_right_cancel here))
  · intro y small other w listed
    obtain ⟨i, -, rfl⟩ := mem_map.mp listed
    intro here
    have same := congrArg (· % cols) here
    simp only [Write.put_cell, column_of y small, column_of n column] at same
    exact other same

/-- A cell that one step changes ends up with what that step makes of it. -/
theorem settled_alone (apart : (ws.map Write.cell).Nodup) {w : Write α}
    (listed : w ∈ ws) (a : α) : settled ws w.cell a = w.change a := by
  induction ws with
  | nil => cases listed
  | cons v ws ih =>
    obtain ⟨fresh, apart⟩ := nodup_cons.mp apart
    have split : settled (v :: ws) w.cell a = settled ws w.cell (settled [v] w.cell a) :=
      settled_append [v] ws w.cell a
    rw [split]
    rcases mem_cons.mp listed with rfl | later
    · have elsewhere : ∀ u ∈ ws, u.cell ≠ w.cell :=
        fun u listed same => fresh (same ▸ mem_map_of_mem listed)
      rw [settled_elsewhere elsewhere, settled_here rfl]
    · have other : v.cell ≠ w.cell := fun same => fresh (same ▸ mem_map_of_mem later)
      have untouched : settled [v] w.cell a = a :=
        settled_elsewhere (fun u listed => mem_singleton.mp listed ▸ other) a
      rw [untouched, ih apart later]

/-- **Steps at different cells may run in any order**, so in any interleaving of several threads. -/
theorem run_perm {ws' : List (Write α)} (perm : ws.Perm ws')
    (apart : (ws'.map Write.cell).Nodup) (xs : List α) : run ws xs = run ws' xs := by
  have apart_too : (ws.map Write.cell).Nodup := (perm.map Write.cell).nodup_iff.mpr apart
  apply ext_getElem?
  intro i
  rw [getElem?_run, getElem?_run]
  refine congrArg (fun f => Option.map f xs[i]?) ?_
  funext a
  by_cases some_ : ∃ w ∈ ws, w.cell = i
  · obtain ⟨w, listed, rfl⟩ := some_
    rw [settled_alone apart_too listed, settled_alone apart (perm.mem_iff.mp listed)]
  · have elsewhere : ∀ w ∈ ws, w.cell ≠ i := fun w listed here => some_ ⟨w, listed, here⟩
    rw [settled_elsewhere elsewhere,
      settled_elsewhere fun w listed => elsewhere w (perm.mem_iff.mpr listed)]

/-- Two nested loops over consecutive numbers are one. -/
theorem flatMap_range_map {β : Type} (a b : Nat) (f : Nat → β) :
    ((List.range a).flatMap fun i => (List.range b).map fun j => f (i * b + j)) =
      (List.range (a * b)).map f := by
  induction a with
  | zero => simp
  | succ a ih =>
    rw [range_succ, flatMap_append, ih, flatMap_singleton, Nat.succ_mul,
      range_add, map_append, map_map]
    rfl

/-- A loop that stores to every cell, one after the other. -/
theorem run_puts (M : Nat) (value : Nat → α) (xs : List α) (room : xs.length = M) :
    run ((List.range M).map fun p => Write.put p (value p)) xs = (List.range M).map value := by
  apply ext_getElem?
  intro i
  have puts := settled_puts 0 M i value
  simp only [Nat.zero_add] at puts
  rw [getElem?_run, getElem?_map]
  by_cases inside : i < M
  · rw [getElem?_eq_getElem (by omega), getElem?_range inside, Option.map_some, puts,
      if_pos inside, Option.map_some]
  · rw [getElem?_eq_none (by omega),
      getElem?_eq_none (by rw [length_range]; omega), Option.map_none, Option.map_none]

theorem cells_puts (M : Nat) (value : Nat → α) :
    (((List.range M).map fun p => Write.put p (value p)).map Write.cell).Nodup := by
  have cells : ((List.range M).map fun p => Write.put p (value p)).map Write.cell =
      List.range M := by
    rw [map_map]
    exact map_id _
  rw [cells]
  exact nodup_range

end CellWrites
