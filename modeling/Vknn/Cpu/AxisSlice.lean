import Vknn.Cpu.Split

/-!
# Slices of one axis

A slice that is given for one axis alone, with step 1, copies the rows from a place on, as
many as it is long: its output is a piece of the input.
-/

namespace Vknn.Cpu

open AxisPieces List RowMajor Int

variable {α : Type}

/-- The lists of a slice of one axis, from a place on. -/
def axisSlice (axis start size : Nat) : SliceParams where
  starts := [(start : Int)]
  ends := [((start + size : Nat) : Int)]
  axes := [(axis : Int)]
  steps := []

/-! ## What is walked -/

theorem entries_single (s t a : Int) (rank : Nat) {k : Nat} (word : toInt32 a = (k : Int))
    (inside : k < rank) : (SliceParams.mk [s] [t] [a] []).entries rank = [⟨k, s, t, 1⟩] := by
  have low : ¬ (k : Int) < 0 := by omega
  have high : ¬ ((k : Int) < 0 ∨ (rank : Int) ≤ k) := by omega
  have one : List.range (min [s].length [t].length) = [0] := rfl
  have pick : (if [a].isEmpty = true ∨ [a].length ≤ 0 then ((0 : Nat) : Int) else [a].getD 0 0) = a :=
    if_neg (by simp)
  rw [SliceParams.entries]
  dsimp only
  rw [one, filterMap_cons, filterMap_nil, pick, word, if_neg low, if_neg high, toNat_natCast]
  rfl

section Around

variable {pre post : Shape} {e start size : Nat}

theorem resolveSliceAxis_inside (room : start + size ≤ e) :
    (resolveSliceAxis e start ((start + size : Nat) : Int) 1) = ⟨start, size⟩ := by
  unfold resolveSliceAxis
  by_cases empty : e = 0
  · rw [if_pos (by omega), (by omega : start = 0), (by omega : size = 0)]
    rfl
  · rw [if_neg (by omega)]
    dsimp only
    rw [if_pos (by decide), if_neg (by omega), if_neg (by omega), Int.tdiv_one]
    exact congrArg₂ SliceAxisBounds.mk (by omega) (by omega)

theorem sliceWalks_axis (word : toInt32 pre.length = pre.length) (room : start + size ≤ e) :
    sliceWalks (axisSlice pre.length start size) (pre ++ (e : Int) :: post) =
      (pre.map fun d => ⟨0, 1, d⟩) ++ ⟨start, 1, size⟩ :: post.map fun d => ⟨0, 1, d⟩ := by
  rw [sliceWalks, axisSlice, entries_single _ _ _ _ word (by simp), foldl_cons, foldl_nil]
  dsimp only
  rw [getD_around, resolveSliceAxis_inside room, map_append, map_cons,
    ← @List.length_map _ _ pre fun d => (⟨0, 1, d⟩ : SliceWalk),
    set_append_right _ _ le_rfl, Nat.sub_self, set_cons_zero]

/-! ## What is read -/

theorem stepped_whole {cs dims : List Int} (same : cs.length = dims.length) :
    stepped ((dims.map fun d => (⟨0, 1, d⟩ : SliceWalk)).map fun w => (w.start, w.step)) cs =
      cs := by
  induction cs generalizing dims with
  | nil => cases dims <;> rfl
  | cons c cs ih =>
    cases dims with
    | nil => cases same
    | cons d dims =>
      have rest := ih (Nat.succ.inj same)
      rw [stepped] at rest ⊢
      rw [map_cons, map_cons, zipWith_cons_cons, rest, zero_add, mul_one]

theorem sliceSource_around {first last : List Int} (front : first.length = pre.length)
    (back : last.length = post.length) (c : Int) :
    sliceSource ((pre.map fun d => ⟨0, 1, d⟩) ++ ⟨start, 1, size⟩ :: post.map fun d => ⟨0, 1, d⟩)
      (first ++ c :: last) = first ++ (c + (start : Int)) :: last := by
  have lead := stepped_whole front
  have rest := stepped_whole back
  rw [stepped] at lead rest
  rw [sliceSource, stepped, map_append, map_cons,
    zipWith_append (by simp [front]), zipWith_cons_cons, lead, rest, mul_one,
    add_comm]

theorem getElem?_of_readAt (zero : α) {X : List α} {i : Int} (low : 0 ≤ i) (high : i < X.length) :
    X[i.toNat]? = some (readAt zero X i) := by
  rw [readAt, if_pos low, getD_eq_getElem?_getD, getElem?_eq_getElem (by omega), Option.getD_some]

/-- **A slice of one axis is a piece.** -/
theorem slice_piece (zero : α) (front : ∀ d ∈ pre, 0 ≤ d) (back : ∀ d ∈ post, 0 ≤ d)
    (word : toInt32 pre.length = pre.length) (room : start + size ≤ e) {X : List α}
    (counted : X.length = (RowMajor.size pre).toNat * e * (RowMajor.size post).toNat) :
    IsPiece pre.length start size (pre ++ (e : Int) :: post) X
      (sliceShape (axisSlice pre.length start size) (pre ++ (e : Int) :: post),
        slice zero (axisSlice pre.length start size) (pre ++ (e : Int) :: post) X) := by
  have walks := @sliceWalks_axis pre post e start size word room
  have shape : sliceShape (axisSlice pre.length start size) (pre ++ (e : Int) :: post) =
      pre ++ (size : Int) :: post := by
    rw [sliceShape, walks]
    simp [Function.comp_def]
  have sizes : 0 ≤ RowMajor.size (pre ++ (size : Int) :: post) := by
    refine size_nonneg fun d listed => ?_
    rcases mem_append.mp listed with inPre | rest
    · exact front d inPre
    · rcases mem_cons.mp rest with rfl | inPost
      · exact natCast_nonneg size
      · exact back d inPost
  have length : (slice zero (axisSlice pre.length start size) (pre ++ (e : Int) :: post) X).length =
      (RowMajor.size (pre ++ (size : Int) :: post)).toNat := by
    rw [slice, shape, gather, length_map, length_range, numElements_eq_size (by simp)]
  refine ⟨by rw [set_around, shape], by rw [set_around]; dsimp only; omega, fun cs inside => ?_⟩
  rw [set_around] at inside ⊢
  obtain ⟨first, c, last, rfl, inFirst, here, inLast⟩ := forall₂_split inside
  have positive : ∀ d ∈ pre ++ (e : Int) :: post, 0 < d := by
    have some_ : ∀ {cs ds : List Int}, RowMajor.Inside cs ds → ∀ d ∈ ds, 0 < d := by
      intro cs ds all d listed
      obtain ⟨k, small, rfl⟩ := getElem_of_mem listed
      have pair := (forall₂_iff_get.mp all).2 k (by rw [all.length_eq]; exact small) small
      simp only [get_eq_getElem] at pair
      omega
    intro d listed
    rcases mem_append.mp listed with inPre | rest
    · exact some_ inFirst d inPre
    · rcases mem_cons.mp rest with rfl | inPost
      · omega
      · exact some_ inLast d inPost
  have solid : Solid (pre ++ (size : Int) :: post) := by
    refine ⟨by simp, fun d listed => ?_⟩
    rcases mem_append.mp listed with inPre | rest
    · exact positive d (mem_append_left _ inPre)
    · rcases mem_cons.mp rest with rfl | inPost
      · omega
      · exact positive d (mem_append_right _ (mem_cons_of_mem _ inPost))
  have stays := stays_sliceWalks (p := axisSlice pre.length start size) positive
    (by
      rw [axisSlice, entries_single _ _ _ _ word (by simp)]
      simp)
  have leads := leads_slice stays
  rw [← sliceShape, shape] at leads
  have read := readAt_gather zero solid
    ((sliceWalks (axisSlice pre.length start size) (pre ++ (e : Int) :: post)).zipWith
      (fun w s c => (w.start + c * w.step) * s) (rowStridesOf (pre ++ (e : Int) :: post))) 0 X inside
  rw [← shape, ← slice, shape] at read
  have source : sliceSource (sliceWalks (axisSlice pre.length start size) (pre ++ (e : Int) :: post))
      (first ++ c :: last) = (first ++ c :: last).modify pre.length (· + (start : Int)) := by
    rw [modify_around _ _ inFirst.length_eq, walks, sliceSource_around inFirst.length_eq
      inLast.length_eq]
  have inX := leads.inside _ inside
  rw [leads.position _ inside, zero_add, source] at read
  rw [source] at inX
  have low := flat_inside inX
  have high := flat_inside inside
  have total := (@counted_around pre post e front back X.length).mpr counted
  have bound : flat (pre ++ (size : Int) :: post) (first ++ c :: last) <
      (slice zero (axisSlice pre.length start size) (pre ++ (e : Int) :: post) X).length := by
    rw [length, toNat_of_nonneg sizes]
    exact high.2
  have here := getElem?_of_readAt zero high.1 bound
  have there := getElem?_of_readAt zero (X := X) low.1 (by
    rw [total]
    exact low.2)
  rw [here, read, there]

end Around

end Vknn.Cpu
