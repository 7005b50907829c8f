import Vknn.Import.FoldMatMulViews

/-!
# What composed views lead to

Every operation the pass applies to a view keeps the offsets that coordinates lead to.
Canonical axes, reshapes and common refinements recast blocks; an expansion repeats axes
of one position; a transposition permutes.
-/

namespace Vknn.Import

open List Int
open Strided (pick recasts_nil recasts_split recasts_unit spans_singleton_iff total_eq_size)
open RowMajor (Inside flat size)

open Strided (total dims Spans Reaches Recasts)

def Positive (axis : ViewAxis) : Prop := ∀ s ∈ axis, 0 < s.size

theorem Positive.cons {s : SubDim} {axis : ViewAxis} (positive : Positive (s :: axis)) :
    0 < s.size ∧ Positive axis :=
  ⟨positive s mem_cons_self, fun b mem => positive b (mem_cons_of_mem _ mem)⟩

variable {axis : ViewAxis} {target : Shape} {view view' : View}

theorem positive_cons {s : SubDim} (first : 0 < s.size)
    (rest : Positive axis) : Positive (s :: axis) := by
  intro b mem
  rcases mem_cons.mp mem with rfl | later
  · exact first
  · exact rest b later

/-! ## Canonical axes -/

theorem recasts_canonicalStep (out : ViewAxis) (s : SubDim) :
    Recasts (out ++ [s]) (canonicalStep out s) := by
  unfold canonicalStep
  split
  · rename_i single
    have gone := (Recasts.refl out).append (recasts_unit s.stride)
    rw [append_nil, ← single] at gone
    exact gone
  · split
    · rename_i back last
      obtain ⟨init, rfl⟩ := getLast?_eq_some_iff.mp last
      split
      · rename_i dense
        have merged := (Recasts.refl init).append
          (Strided.recasts_merge back.size s.size s.stride)
        rw [← dense] at merged
        rw [dropLast_concat, append_assoc]
        exact merged
      · exact .refl _
    · rename_i last
      obtain rfl := getLast?_eq_none_iff.mp last
      exact .refl _

theorem recasts_foldl_canonicalStep (out axis : ViewAxis) :
    Recasts (out ++ axis) (axis.foldl canonicalStep out) := by
  induction axis generalizing out with
  | nil =>
    rw [append_nil]
    exact .refl _
  | cons s axis ih =>
    have first := (recasts_canonicalStep out s).append (.refl axis)
    rw [append_assoc] at first
    exact first.trans (ih _)

/-- **A canonical axis leads where the axis led.** -/
theorem recasts_canonicalAxis (axis : ViewAxis) : Recasts axis (canonicalAxis axis) := by
  have folded := recasts_foldl_canonicalStep [] axis
  rw [nil_append] at folded
  unfold canonicalAxis
  dsimp only
  split
  · rename_i empty
    rw [List.isEmpty_iff.mp empty] at folded
    exact folded.trans (recasts_nil 0)
  · exact folded

/-- The stride of an axis is what each position moves by. -/
theorem spans_singleStride {v : Int} (single : singleStride axis = some v)
    {c o : Int} (spans : Spans axis c o) : o = c * v := by
  unfold singleStride at single
  split at single
  · rename_i s canonical
    obtain rfl := Option.some.inj single
    have here := (recasts_canonicalAxis axis).spans spans
    rw [canonical] at here
    exact (spans_singleton_iff.mp here).2.2
  · cases single

/-! ## Reshapes -/

/-- **Blocks taken for an axis make it up**, and nothing is lost. -/
theorem recasts_takeBlocks {flat axis rest : List SubDim} {need : Int} (positive : Positive flat)
    (some' : 0 < need) (taken : takeBlocks flat need = some (axis, rest)) :
    total axis = need ∧ Recasts flat (axis ++ rest) ∧ Positive rest := by
  induction flat generalizing need axis with
  | nil =>
    rw [takeBlocks] at taken
    split at taken
    · rename_i small
      obtain ⟨rfl, rfl⟩ := Prod.mk.inj (Option.some.inj taken)
      obtain rfl : need = 1 := by omega
      exact ⟨rfl, .refl _, positive⟩
    · cases taken
  | cons s flat ih =>
    obtain ⟨first, later⟩ := positive.cons
    rw [takeBlocks] at taken
    split at taken
    · obtain ⟨rfl, rfl⟩ := Prod.mk.inj (Option.some.inj taken)
      obtain rfl : need = 1 := by omega
      exact ⟨rfl, .refl _, positive⟩
    rename_i large
    split at taken
    · rename_i whole
      split at taken
      · cases taken
      rename_i divides
      obtain ⟨⟨more, left⟩, found, same⟩ := Option.map_eq_some_iff.mp taken
      obtain ⟨rfl, rfl⟩ := Prod.mk.inj same
      have product : s.size * (need / s.size) = need :=
        Int.mul_ediv_cancel' (dvd_of_emod_eq_zero (not_not.mp divides))
      have quotient : 0 < need / s.size := by
        by_contra none
        have small := Int.mul_nonpos_of_nonneg_of_nonpos first.le (not_lt.mp none)
        omega
      obtain ⟨extent, recasts, rest⟩ := ih later quotient found
      refine ⟨by rw [total, extent, product], ?_, rest⟩
      exact (Recasts.refl [s]).append recasts
    · split at taken
      · cases taken
      rename_i divides
      obtain ⟨rfl, rfl⟩ := Prod.mk.inj (Option.some.inj taken)
      have product : need * (s.size / need) = s.size :=
        Int.mul_ediv_cancel' (dvd_of_emod_eq_zero (not_not.mp divides))
      have quotient : 0 < s.size / need := by
        by_contra none
        have small := Int.mul_nonpos_of_nonneg_of_nonpos some'.le (not_lt.mp none)
        omega
      refine ⟨by rw [total, total, Int.mul_one], ?_, positive_cons quotient later⟩
      have split := (recasts_split some' (s.size / need) s.stride).append (.refl flat)
      rw [product, Int.mul_comm (s.size / need)] at split
      exact split

theorem recasts_reshapeAxes {flat : List SubDim}
    (positive : Positive flat) (found : reshapeAxes target flat = some view) :
    dims view = target ∧ Recasts flat view.flatten := by
  induction target generalizing flat view with
  | nil =>
    rw [reshapeAxes] at found
    split at found
    · rename_i empty
      obtain rfl := List.isEmpty_iff.mp empty
      obtain rfl := Option.some.inj found
      exact ⟨rfl, .refl _⟩
    · cases found
  | cons t target ih =>
    rw [reshapeAxes] at found
    split at found
    · cases found
    rename_i some
    simp only [bind, Option.bind_eq_some_iff, pure, Option.some.injEq] at found
    obtain ⟨⟨axis, rest⟩, taken, out, later, rfl⟩ := found
    obtain ⟨extent, recasts, positive⟩ := recasts_takeBlocks positive (not_le.mp some) taken
    obtain ⟨extents, more⟩ := ih positive later
    have canonical := recasts_canonicalAxis axis
    refine ⟨?_, recasts.trans (canonical.append more)⟩
    change total _ :: dims out = _
    rw [← canonical.total, extent, extents]

theorem recasts_filter (axis : ViewAxis) : Recasts axis (axis.filter fun s => s.size ≠ 1) := by
  induction axis with
  | nil => exact .refl _
  | cons s axis ih =>
    by_cases single : s.size = 1
    · rw [filter_cons_of_neg (by simp [single])]
      cases s with
      | mk size stride =>
        dsimp only at single
        subst single
        exact (recasts_unit stride).append ih
    · rw [filter_cons_of_pos (by simp [single])]
      exact (Recasts.refl [s]).append ih

/-- **A reshaped view has the target extents, over the same blocks.** -/
theorem recasts_reshapeView
    (positive : ∀ axis ∈ view, Positive axis) (found : reshapeView view target = some view') :
    dims view' = target ∧ Recasts view.flatten view'.flatten := by
  have flat : Positive (view.flatten.filter fun s => s.size ≠ 1) := by
    intro s mem
    obtain ⟨axis, inside, here⟩ := mem_flatten.mp (mem_of_mem_filter mem)
    exact positive axis inside s here
  obtain ⟨extents, recasts⟩ := recasts_reshapeAxes flat found
  exact ⟨extents, (recasts_filter _).trans recasts⟩

/-! ## Expansions -/

theorem dims_expandAxes (same : view.length = target.length)
    (found : expandAxes view target = some view') : dims view' = target := by
  induction view generalizing target view' with
  | nil =>
    obtain rfl := length_eq_zero_iff.mp same.symm
    obtain rfl := Option.some.inj found
    rfl
  | cons axis view ih =>
    cases target with
    | nil => cases same
    | cons t target =>
      rw [expandAxes] at found
      simp only [bind, Option.bind_eq_some_iff] at found
      obtain ⟨out, later, found⟩ := found
      have rest := ih (Nat.succ.inj same) later
      split at found
      · rename_i extent
        obtain rfl := Option.some.inj found
        exact congrArg₂ List.cons extent rest
      · split at found
        · cases found
        obtain rfl := Option.some.inj found
        exact congrArg₂ List.cons (by rw [total, total, Int.mul_one]) rest

/-- **An expanded view leads where the expanded coordinates led.** -/
theorem reaches_expandAxes
    (same : view.length = target.length) (found : expandAxes view target = some view') {cs : List Int}
    (inside : Inside cs target) {o : Int} 
    (reaches : Reaches view (Cpu.expandSource target (dims view) cs) o) : Reaches view' cs o := by
  induction view generalizing target view' cs o with
  | nil =>
    cases inside with
    | nil =>
      obtain rfl := Option.some.inj found
      exact reaches
    | cons here rest => cases same
  | cons axis view ih =>
    cases inside with
    | nil => cases reaches
    | @cons c t cs target here rest =>
      rw [expandAxes] at found
      simp only [bind, Option.bind_eq_some_iff] at found
      obtain ⟨out, later, found⟩ := found
      cases reaches with
      | cons first more =>
        have tail := ih (Nat.succ.inj same) later rest more
        dsimp only at first
        split at found
        · rename_i extent
          obtain rfl := Option.some.inj found
          have index : min (max (c - (t - total axis)) 0) (max (total axis - 1) 0) = c := by omega
          rw [index] at first
          exact .cons first tail
        · split at found
          · cases found
          rename_i single
          obtain rfl := Option.some.inj found
          have index : min (max (c - (t - total axis)) 0) (max (total axis - 1) 0) = 0 := by omega
          rw [index] at first
          have still := first.zero
          subst still
          refine .cons (spans_singleton_iff.mpr ⟨here.1, here.2, ?_⟩) tail
          exact (Int.mul_zero c).symm

/-! ## Transpositions -/

/-- What a transposed view is, and the permutation it was made with. -/
theorem transposeView_eq_some {perm : List Int}
    (found : transposeView view perm = some view') :
    Cpu.transposePerm perm view.length = (if perm.isEmpty then
        (List.range view.length).reverse.map fun (i : Nat) => (i : Int) else perm) ∧
      view' = pick ((Cpu.transposePerm perm view.length).map toNat) view := by
  unfold transposeView at found
  dsimp only at found
  have chosen : perm.isEmpty = false → perm.length = view.length →
      (if perm.length = view.length then perm else
        (List.range view.length).reverse.map fun (i : Nat) => (i : Int)) = perm :=
    fun _ length => if_pos length
  have reversed : perm.isEmpty = true → (if perm.length = view.length then perm else
        (List.range view.length).reverse.map fun (i : Nat) => (i : Int)) =
        (List.range view.length).reverse.map fun (i : Nat) => (i : Int) := by
    intro empty
    split
    · rename_i length
      obtain rfl := List.isEmpty_iff.mp empty
      rw [← length]
      rfl
    · rfl
  have picked : (if perm.length = view.length then perm else
        (List.range view.length).reverse.map fun (i : Nat) => (i : Int)) =
        (if perm.isEmpty then (List.range view.length).reverse.map fun (i : Nat) => (i : Int)
          else perm) ∨
      (if perm.isEmpty then (List.range view.length).reverse.map fun (i : Nat) => (i : Int)
          else perm).length ≠ view.length := by
    cases empty : perm.isEmpty with
    | true => exact Or.inl (by rw [reversed empty, if_pos rfl])
    | false =>
      by_cases length : perm.length = view.length
      · exact Or.inl (by rw [chosen empty length, if_neg Bool.false_ne_true])
      · exact Or.inr (by rwa [if_neg Bool.false_ne_true])
  generalize (if perm.isEmpty then (List.range view.length).reverse.map fun (i : Nat) => (i : Int)
    else perm) = final at found picked ⊢
  by_cases rank : final.length ≠ view.length
  · rw [if_pos rank] at found
    cases found
  rw [if_neg rank] at found
  by_cases range : (final.all fun p => decide (0 ≤ p ∧ p < view.length)) = true
  · rw [if_pos range] at found
    have same : Cpu.transposePerm perm view.length = final := by
      unfold Cpu.transposePerm
      rw [picked.resolve_right rank]
      refine (map_congr_left fun p mem => ?_).trans (map_id _)
      have bounds := all_eq_true.mp range p mem
      simp only [decide_eq_true_eq] at bounds
      rw [if_neg (by omega), id]
    refine ⟨same, ?_⟩
    rw [same, pick, map_map]
    exact (Option.some.inj found).symm
  · rw [if_neg range] at found
    cases found

/-! ## Common blocks -/

/-- The blocks of one operand in a common refinement. -/
def partA (out : List RefinedBlock) : ViewAxis := out.map fun r => ⟨r.size, r.aStride⟩

def partB (out : List RefinedBlock) : ViewAxis := out.map fun r => ⟨r.size, r.bStride⟩

theorem partA_append (out later : List RefinedBlock) :
    partA (out ++ later) = partA out ++ partA later := map_append

theorem partB_append (out later : List RefinedBlock) :
    partB (out ++ later) = partB out ++ partB later := map_append

theorem recasts_front {x : SubDim} {n : Int} (positive : 0 < n) (divides : x.size % n = 0)
    (out pa : ViewAxis) :
    Recasts (out ++ x :: pa) (out ++ [⟨n, x.stride * (x.size / n)⟩] ++ ⟨x.size / n, x.stride⟩ :: pa) := by
  have product : n * (x.size / n) = x.size := Int.mul_ediv_cancel' (dvd_of_emod_eq_zero divides)
  have split := (recasts_split positive (x.size / n) x.stride).within out pa
  rw [product, Int.mul_comm (x.size / n)] at split
  simpa using split

/-- **Both operands lead through the common blocks where they led through their own.** -/
theorem recasts_refineBlocks {fuel : Nat} {pa pb : List SubDim} {out blocks : List RefinedBlock}
    (positiveA : Positive pa) (positiveB : Positive pb)
    (found : refineBlocks fuel pa pb out = some blocks) :
    Recasts (partA out ++ pa) (partA blocks) ∧ Recasts (partB out ++ pb) (partB blocks) := by
  induction fuel generalizing pa pb out with
  | zero =>
    cases pa with
    | nil =>
      cases pb with
      | nil =>
        obtain rfl := Option.some.inj found
        rw [append_nil, append_nil]
        exact ⟨.refl _, .refl _⟩
      | cons y pb => cases found
    | cons x pa => cases pb <;> cases found
  | succ fuel ih =>
    cases pa with
    | nil =>
      cases pb with
      | nil =>
        obtain rfl := Option.some.inj found
        rw [append_nil, append_nil]
        exact ⟨.refl _, .refl _⟩
      | cons y pb => cases found
    | cons x pa =>
      cases pb with
      | nil => cases found
      | cons y pb =>
        obtain ⟨someA, restA⟩ := positiveA.cons
        obtain ⟨someB, restB⟩ := positiveB.cons
        rw [refineBlocks] at found
        split at found
        · rename_i units
          obtain ⟨a, b⟩ := ih restA restB found
          have goneA := (recasts_unit x.stride).within (partA out) pa
          have goneB := (recasts_unit y.stride).within (partB out) pb
          rw [← units.1, append_nil, append_assoc] at goneA
          rw [← units.2, append_nil, append_assoc] at goneB
          split at a
          · rename_i empty
            obtain rfl := List.isEmpty_iff.mp empty
            rw [if_pos isEmpty_nil] at b
            refine ⟨goneA.trans (((recasts_nil 0).append (.refl pa)).trans a),
              goneB.trans (((recasts_nil 0).append (.refl pb)).trans b)⟩
          · rename_i some
            rw [if_neg some] at b
            exact ⟨goneA.trans a, goneB.trans b⟩
        split at found
        · rename_i equal
          obtain ⟨a, b⟩ := ih restA restB found
          rw [partA_append, append_assoc] at a
          rw [partB_append, append_assoc, equal] at b
          exact ⟨a, b⟩
        split at found
        · rename_i larger
          split at found
          · cases found
          rename_i divides
          have quotient : 0 < x.size / y.size :=
            ediv_pos_of_pos_of_dvd someA someB.le
              (dvd_of_emod_eq_zero (not_not.mp divides))
          obtain ⟨a, b⟩ := ih (positive_cons quotient restA) restB found
          rw [partA_append] at a
          rw [partB_append, append_assoc] at b
          exact ⟨(recasts_front someB (not_not.mp divides) (partA out) pa).trans a, b⟩
        · split at found
          · cases found
          rename_i divides
          have quotient : 0 < y.size / x.size :=
            ediv_pos_of_pos_of_dvd someB someA.le
              (dvd_of_emod_eq_zero (not_not.mp divides))
          obtain ⟨a, b⟩ := ih restA (positive_cons quotient restB) found
          rw [partA_append, append_assoc] at a
          rw [partB_append] at b
          exact ⟨a, (recasts_front someA (not_not.mp divides) (partB out) pb).trans b⟩

/-- A canonical axis has positions when the axis has. -/
theorem positive_canonicalAxis (positive : Positive axis) : Positive (canonicalAxis axis) := by
  have step : ∀ out s, Positive out → 0 < s.size → Positive (canonicalStep out s) := by
    intro out s held some
    unfold canonicalStep
    split
    · exact held
    · split
      · rename_i back last
        obtain ⟨init, rfl⟩ := getLast?_eq_some_iff.mp last
        have backSome := held back (by simp)
        split
        · rw [dropLast_concat]
          intro b mem
          rcases mem_append.mp mem with inInit | merged
          · exact held b (mem_append_left _ inInit)
          · rw [mem_singleton.mp merged]
            exact Int.mul_pos backSome some
        · intro b mem
          rcases mem_append.mp mem with old | new
          · exact held b old
          · rwa [mem_singleton.mp new]
      · intro b mem
        rwa [mem_singleton.mp mem]
  have folded : ∀ out, Positive out → Positive (axis.foldl canonicalStep out) := by
    induction axis with
    | nil => exact fun out held => held
    | cons s axis ih =>
      intro out held
      obtain ⟨first, rest⟩ := positive.cons
      exact ih rest _ (step out s held first)
  unfold canonicalAxis
  dsimp only
  split
  · intro b mem
    rw [mem_singleton.mp mem]
    exact Int.one_pos
  · exact folded [] fun b mem => nomatch mem

/-! ## Batch axes -/

/-- The coordinate a batch axis is read at: a repeated axis is read at its one position. -/
def squash (axis : ViewAxis) (c : Int) : Int := if total axis = 1 then 0 else c

/-- A batch axis leads where the operand's axis led. -/
theorem spans_batchAxis {axis' : ViewAxis} {want : Int}
    (found : batchAxis axis want = some axis') : total axis' = want ∧
      (Positive axis → 0 < want → Positive axis') ∧
      ∀ c o, 0 ≤ c → c < want → Spans axis (squash axis c) o → Spans axis' c o := by
  unfold batchAxis at found
  split at found
  · rename_i extent
    obtain rfl := Option.some.inj found
    have canonical := recasts_canonicalAxis axis
    refine ⟨by rw [← canonical.total, extent], fun positive _ => positive_canonicalAxis positive,
      fun c o low high spans => canonical.spans ?_⟩
    unfold squash at spans
    split at spans
    · obtain rfl : c = 0 := by omega
      exact spans
    · exact spans
  · split at found
    · rename_i single
      obtain rfl := Option.some.inj found
      refine ⟨by rw [total, total, Int.mul_one], fun _ some => ?_, fun c o low high spans => ?_⟩
      · intro b mem
        rwa [mem_singleton.mp mem]
      · rw [squash, if_pos single] at spans
        rw [spans.zero]
        exact spans_singleton_iff.mpr ⟨low, high, (Int.mul_zero c).symm⟩
    · cases found

/-- **The common batch blocks lead where both operands led.** -/
theorem spans_batchBlocks {va vb : View} {out : Shape} {blocks : List RefinedBlock}
    (sameA : va.length = out.length) (sameB : vb.length = out.length)
    (positiveA : ∀ axis ∈ va, Positive axis) (positiveB : ∀ axis ∈ vb, Positive axis)
    (positive : ∀ d ∈ out, 0 < d) (found : batchBlocks va vb out = some blocks) :
    size (blocks.map (·.size)) = size out ∧
    (∀ cs o, Inside cs out → Reaches va (va.zipWith squash cs) o →
      Spans (partA blocks) (flat out cs) o) ∧
    (∀ cs o, Inside cs out → Reaches vb (vb.zipWith squash cs) o →
      Spans (partB blocks) (flat out cs) o) := by
  induction out generalizing va vb blocks with
  | nil =>
    obtain rfl := length_eq_zero_iff.mp sameA
    obtain rfl := length_eq_zero_iff.mp sameB
    obtain rfl := Option.some.inj found
    refine ⟨rfl, fun cs o inside reaches => ?_, fun cs o inside reaches => ?_⟩ <;>
    · cases inside
      cases reaches
      exact .nil
  | cons want out ih =>
    cases va with
    | nil => cases sameA
    | cons a va =>
      cases vb with
      | nil => cases sameB
      | cons b vb =>
        rw [batchBlocks] at found
        simp only [bind, Option.bind_eq_some_iff, pure, Option.some.injEq] at found
        obtain ⟨axA, foundA, axB, foundB, refined, common, rest, later, rfl⟩ := found
        obtain ⟨extentA, someA, spansA⟩ := spans_batchAxis foundA
        obtain ⟨extentB, someB, spansB⟩ := spans_batchAxis foundB
        have first := positive want mem_cons_self
        obtain ⟨recastA, recastB⟩ := recasts_refineBlocks
          (someA (positiveA a mem_cons_self) first)
          (someB (positiveB b mem_cons_self) first) common
        obtain ⟨extent, laterA, laterB⟩ := ih (Nat.succ.inj sameA) (Nat.succ.inj sameB)
          (fun axis mem => positiveA axis (mem_cons_of_mem _ mem))
          (fun axis mem => positiveB axis (mem_cons_of_mem _ mem))
          (fun d mem => positive d (mem_cons_of_mem _ mem)) later
        have sizes : total (partA rest) = size out ∧ total (partB rest) = size out := by
          rw [total_eq_size, total_eq_size, partA, partB, map_map, map_map]
          exact ⟨extent, extent⟩
        refine ⟨?_, fun cs o inside reaches => ?_, fun cs o inside reaches => ?_⟩
        · have here : size (refined.map (·.size)) = want := by
            rw [← extentA, show axA = partA [] ++ axA from rfl, recastA.total,
              total_eq_size, partA, map_map]
            rfl
          rw [map_append, RowMajor.size_append, here, extent, size]
        · cases inside with
          | @cons c _ cs _ bounds within =>
            cases reaches with
            | cons head tail =>
              have joined := (recastA.spans (spansA c _ bounds.1 bounds.2 head)).append
                (laterA cs _ within tail)
              rw [sizes.1, ← partA_append] at joined
              exact joined
        · cases inside with
          | @cons c _ cs _ bounds within =>
            cases reaches with
            | cons head tail =>
              have joined := (recastB.spans (spansB c _ bounds.1 bounds.2 head)).append
                (laterB cs _ within tail)
              rw [sizes.2, ← partB_append] at joined
              exact joined

end Vknn.Import
