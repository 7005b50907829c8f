import Vknn.Lib.CheckedInt
import Vknn.Session.Links

/-!
# The ranges of a link

A list of ranges is safe if each of them has elements and lies in both tensors, and no two of them
meet in the input.  The check compares the end of each range with the element counts, and then the
spans in the input with their neighbours in sorted order.

The end of a range is a 64-bit sum of what the caller has given, and nothing bounds it before it is
computed.  So the check decides safety exactly, without a sum that wraps, for the lists in which the
first range that is not in both tensors, if there is one, is found out by sums that fit.
-/

namespace Vknn.Session

open CheckedInt List

/-! ## Safety -/

section Safety

variable (srcElems dstElems : Int)

/-- A range has elements and lies in both tensors. -/
structure Within (r : LinkRange) : Prop where
  nonempty : 0 < r.count
  source : 0 ≤ r.sourceElem
  sourceEnd : r.sourceElem + r.count ≤ srcElems
  dest : 0 ≤ r.destElem
  destEnd : r.destElem + r.count ≤ dstElems

/-- Two ranges do not meet in the input. -/
def Apart (r q : LinkRange) : Prop :=
  r.destElem + r.count ≤ q.destElem ∨ q.destElem + q.count ≤ r.destElem

/-- Every range lies in both tensors, and no two of them meet in the input. -/
structure SafeRanges (ranges : List LinkRange) : Prop where
  within : ∀ r ∈ ranges, Within srcElems dstElems r
  apart : ranges.Pairwise Apart

/-- The sums that the bounds check computes, up to the first range that it refuses. -/
def sumsComputed : List LinkRange → List Int
  | [] => []
  | r :: rest =>
    if r.count ≤ 0 ∨ r.sourceElem < 0 ∨ r.destElem < 0 then []
    else if srcElems < wrap64 (r.sourceElem + r.count) then [r.sourceElem + r.count]
    else [r.sourceElem + r.count, r.destElem + r.count] ++
      if dstElems < wrap64 (r.destElem + r.count) then [] else sumsComputed rest

/-- The first range that does not lie in both tensors is empty or begins below zero, or the sums that
show it stay in 64 bits. -/
def SumsFit (ranges : List LinkRange) : Prop :=
  ∀ front r back, ranges = front ++ r :: back → (∀ q ∈ front, Within srcElems dstElems q) →
    0 < r.count → 0 ≤ r.sourceElem → 0 ≤ r.destElem → Fits (r.sourceElem + r.count) ∧
        (r.sourceElem + r.count ≤ srcElems → Fits (r.destElem + r.count))

end Safety

/-- **Exactly the safe lists are accepted**, and no sum wraps. -/
def AcceptsExactlySafe (g : Graph) (outId inId : TensorId) (ranges : List LinkRange) : Prop :=
  let srcElems := elemCount (g.desc outId).shape
  let dstElems := elemCount (g.desc inId).shape
  (validateLinkRanges g outId inId ranges = .ok ↔ SafeRanges srcElems dstElems ranges) ∧
    ∀ n ∈ sumsComputed srcElems dstElems ranges, Fits n

/-! ## Bounds -/

section Bounds

variable {srcElems dstElems : Int}

theorem fits_elemCount (s : Shape) : Fits (elemCount s) := by
  unfold elemCount wrap64 Fits
  have low := @Int.le_bmod (numElements s) (2 ^ 64) (by norm_num)
  have high := @Int.bmod_lt (numElements s) (2 ^ 64) (by norm_num)
  norm_num at low high ⊢
  exact ⟨low, high⟩

theorem wrap64_of_sum {n : Int} (fits : Fits n) : wrap64 n = n := wrap64_of_fits fits.1 fits.2

variable {r : LinkRange}

theorem Within.fits (within : Within srcElems dstElems r) (src : Fits srcElems)
    (dst : Fits dstElems) : Fits (r.sourceElem + r.count) ∧ Fits (r.destElem + r.count) := by
  obtain ⟨nonempty, source, sourceEnd, dest, destEnd⟩ := within
  obtain ⟨-, high⟩ := src
  obtain ⟨-, high'⟩ := dst
  exact ⟨⟨by omega, by omega⟩, by omega, by omega⟩

/-- A range whose sums fit is refused exactly when it is not in both tensors. -/
theorem rangeOutside_eq_false_iff
    (fits : 0 < r.count → 0 ≤ r.sourceElem → 0 ≤ r.destElem → Fits (r.sourceElem + r.count) ∧
      (r.sourceElem + r.count ≤ srcElems → Fits (r.destElem + r.count))) :
    rangeOutside srcElems dstElems r = false ↔ Within srcElems dstElems r := by
  unfold rangeOutside
  simp only [Bool.or_eq_false_iff, decide_eq_false_iff_not, not_le, not_lt, gt_iff_lt]
  constructor
  · rintro ⟨⟨⟨⟨nonempty, source⟩, dest⟩, sourceEnd⟩, destEnd⟩
    obtain ⟨first, second⟩ := fits nonempty source dest
    rw [wrap64_of_sum first] at sourceEnd
    rw [wrap64_of_sum (second sourceEnd)] at destEnd
    exact ⟨nonempty, source, sourceEnd, dest, destEnd⟩
  · rintro ⟨nonempty, source, sourceEnd, dest, destEnd⟩
    obtain ⟨first, second⟩ := fits nonempty source dest
    rw [wrap64_of_sum first, wrap64_of_sum (second sourceEnd)]
    exact ⟨⟨⟨⟨nonempty, source⟩, dest⟩, sourceEnd⟩, destEnd⟩

variable {ranges rest : List LinkRange}

theorem SumsFit.head
    (fit : SumsFit srcElems dstElems (r :: rest)) :
    0 < r.count → 0 ≤ r.sourceElem → 0 ≤ r.destElem → Fits (r.sourceElem + r.count) ∧
      (r.sourceElem + r.count ≤ srcElems → Fits (r.destElem + r.count)) :=
  fit [] r rest rfl fun _ absent => absurd absent not_mem_nil

theorem SumsFit.tail
    (fit : SumsFit srcElems dstElems (r :: rest)) (within : Within srcElems dstElems r) :
    SumsFit srcElems dstElems rest := by
  intro front q back split earlier
  exact fit (r :: front) q back (congrArg (r :: ·) split)
    (forall_mem_cons.mpr ⟨within, earlier⟩)

/-- The bounds check accepts exactly the lists of ranges that are in both tensors. -/
theorem any_rangeOutside_iff (fit : SumsFit srcElems dstElems ranges) :
    ranges.any (rangeOutside srcElems dstElems) = false ↔
      ∀ r ∈ ranges, Within srcElems dstElems r := by
  induction ranges with
  | nil => exact ⟨fun _ _ absent => absurd absent not_mem_nil, fun _ => rfl⟩
  | cons r rest ih =>
    rw [any_cons, Bool.or_eq_false_iff, rangeOutside_eq_false_iff fit.head, forall_mem_cons]
    exact and_congr_right fun within => ih (fit.tail within)

/-- The sums that are computed fit exactly when those of the first range that is not in both tensors
do. -/
theorem sumsComputed_fit_iff (src : Fits srcElems) (dst : Fits dstElems) (ranges : List LinkRange) :
    (∀ n ∈ sumsComputed srcElems dstElems ranges, Fits n) ↔ SumsFit srcElems dstElems ranges := by
  induction ranges with
  | nil =>
    refine ⟨fun _ front r back split => ?_, fun _ n absent => absurd absent not_mem_nil⟩
    exact absurd split.symm (by simp)
  | cons r rest ih =>
    unfold sumsComputed
    split
    · rename_i refused
      refine ⟨fun _ front q back split earlier => ?_, fun _ n absent => absurd absent not_mem_nil⟩
      cases front with
      | nil =>
        obtain ⟨rfl, -⟩ := List.cons.inj split
        omega
      | cons first front =>
        obtain ⟨rfl, -⟩ := List.cons.inj split
        obtain ⟨nonempty, source, -, dest, -⟩ := earlier _ mem_cons_self
        omega
    · rename_i begins
      push Not at begins
      obtain ⟨nonempty, source, dest⟩ := begins
      constructor
      · intro sums front q back split earlier _ _ _
        have sourceFits : Fits (r.sourceElem + r.count) := sums _ (by split <;> simp)
        cases front with
        | nil =>
          obtain ⟨rfl, -⟩ := List.cons.inj split
          refine ⟨sourceFits, fun inside => sums _ ?_⟩
          rw [wrap64_of_sum sourceFits, if_neg (not_lt.mpr inside)]
          simp
        | cons first front =>
          obtain ⟨rfl, rest_⟩ := List.cons.inj split
          have within := earlier _ mem_cons_self
          obtain ⟨-, destFits⟩ := within.fits src dst
          rw [wrap64_of_sum sourceFits, wrap64_of_sum destFits,
            if_neg (not_lt.mpr within.sourceEnd), if_neg (not_lt.mpr within.destEnd)] at sums
          exact ih.mp (fun n mem => sums n (mem_append_right _ mem)) front q back rest_
            (fun p mem => earlier p (mem_cons_of_mem _ mem)) ‹_› ‹_› ‹_›
      · intro fit
        obtain ⟨sourceFits, destFits⟩ := fit.head nonempty source dest
        rw [wrap64_of_sum sourceFits]
        split
        · exact fun n mem => mem_singleton.mp mem ▸ sourceFits
        · rename_i inside
          have destFits := destFits (not_lt.mp inside)
          intro n mem
          rcases mem_append.mp mem with ends | later
          · simp only [mem_cons, not_mem_nil, or_false] at ends
            rcases ends with rfl | rfl
            · exact sourceFits
            · exact destFits
          · rw [wrap64_of_sum destFits] at later
            split at later
            · exact absurd later not_mem_nil
            · rename_i inside'
              exact ih.mpr (fit.tail ⟨nonempty, source, not_lt.mp inside, dest, not_lt.mp inside'⟩)
                n later

/-! ## Overlap -/

theorem spanLe_iff (a b : Int × Int) : spanLe a b = true ↔ a.1 < b.1 ∨ a.1 = b.1 ∧ a.2 ≤ b.2 := by
  unfold spanLe
  simp

/-- In sorted order it is enough to compare neighbours. -/
theorem spansOverlap_eq_false_iff {spans : List (Int × Int)} (nonempty : ∀ a ∈ spans, a.1 < a.2)
    (sorted : spans.Pairwise fun a b => spanLe a b = true) :
    spansOverlap spans = false ↔ spans.Pairwise fun a b => a.2 ≤ b.1 ∨ b.2 ≤ a.1 := by
  induction spans with
  | nil => exact ⟨fun _ => List.Pairwise.nil, fun _ => rfl⟩
  | cons a rest ih =>
    obtain ⟨first, sortedRest⟩ := pairwise_cons.mp sorted
    obtain ⟨long, longRest⟩ := forall_mem_cons.mp nonempty
    have rest_iff := ih longRest sortedRest
    cases rest with
    | nil => exact ⟨fun _ => pairwise_singleton _ _, fun _ => rfl⟩
    | cons b rest =>
      unfold spansOverlap
      rw [Bool.or_eq_false_iff, decide_eq_false_iff_not, not_lt, rest_iff]
      refine Iff.trans (and_congr_left fun _ => ?_) pairwise_cons.symm
      constructor
      · intro short c mem
        left
        rcases mem_cons.mp mem with rfl | later
        · exact short
        · have order := (spanLe_iff b c).mp ((pairwise_cons.mp sortedRest).1 c later)
          omega
      · intro apart
        have order := (spanLe_iff a b).mp (first b mem_cons_self)
        have longB := longRest b mem_cons_self
        rcases apart b mem_cons_self with short | behind
        · exact short
        · omega

/-- The overlap check accepts exactly the lists of ranges that do not meet. -/
theorem spansOverlap_spans_iff {srcElems dstElems : Int} (dst : Fits dstElems) (src : Fits srcElems)
    (within : ∀ r ∈ ranges, Within srcElems dstElems r) :
    spansOverlap ((ranges.map fun r =>
      (r.destElem, wrap64 (r.destElem + r.count))).mergeSort spanLe) = false ↔
        ranges.Pairwise Apart := by
  have spans : (ranges.map fun r => (r.destElem, wrap64 (r.destElem + r.count))) =
      ranges.map fun r => (r.destElem, r.destElem + r.count) :=
    map_congr_left fun r mem => by rw [wrap64_of_sum ((within r mem).fits src dst).2]
  rw [spans]
  have perm := mergeSort_perm (ranges.map fun r => (r.destElem, r.destElem + r.count)) spanLe
  have transitive : ∀ a b c, spanLe a b = true → spanLe b c = true → spanLe a c = true := by
    intro a b c first second
    rw [spanLe_iff] at first second ⊢
    omega
  have total : ∀ a b, (spanLe a b || spanLe b a) = true := by
    intro a b
    rw [Bool.or_eq_true, spanLe_iff, spanLe_iff]
    omega
  have sorted := pairwise_mergeSort transitive total
    (ranges.map fun r => (r.destElem, r.destElem + r.count))
  rw [spansOverlap_eq_false_iff ?_ sorted, perm.pairwise_iff fun h => h.symm, pairwise_map]
  · rfl
  · intro a mem
    obtain ⟨r, among, rfl⟩ := mem_map.mp (perm.mem_iff.mp mem)
    have := (within r among).nonempty
    dsimp only
    omega

/-! ## The check -/

/-- **The check accepts exactly the safe lists, without a sum that wraps, exactly when the first range
that is not in both tensors is found out by sums that fit.** -/
theorem acceptsExactlySafe_iff (g : Graph) (outId inId : TensorId) (ranges : List LinkRange) :
    AcceptsExactlySafe g outId inId ranges ↔
      SumsFit (elemCount (g.desc outId).shape) (elemCount (g.desc inId).shape) ranges := by
  have src := fits_elemCount (g.desc outId).shape
  have dst := fits_elemCount (g.desc inId).shape
  unfold AcceptsExactlySafe
  dsimp only
  rw [sumsComputed_fit_iff src dst, and_iff_right_iff_imp]
  intro fit
  unfold validateLinkRanges
  dsimp only
  by_cases within : ∀ r ∈ ranges,
      Within (elemCount (g.desc outId).shape) (elemCount (g.desc inId).shape) r
  · rw [(any_rangeOutside_iff fit).mpr within, if_neg Bool.false_ne_true]
    have overlap := spansOverlap_spans_iff dst src within
    split
    · rename_i meet
      rw [meet] at overlap
      refine ⟨nofun, fun safe => ?_⟩
      exact absurd (overlap.mpr safe.apart) (by simp)
    · rename_i clear
      rw [Bool.not_eq_true] at clear
      exact ⟨fun _ => ⟨within, overlap.mp clear⟩, fun _ => rfl⟩
  · have refused : ranges.any (rangeOutside (elemCount (g.desc outId).shape)
        (elemCount (g.desc inId).shape)) = true := by
      rw [← Bool.not_eq_false]
      exact fun accepted => within ((any_rangeOutside_iff fit).mp accepted)
    rw [refused, if_pos rfl]
    exact ⟨nofun, fun safe => absurd safe.within within⟩

/-- A graph of two tensors with four elements. -/
def fourElements : Graph where
  tensors := [{ shape := [4] }, { shape := [4] }]

/-- A range whose end wraps is accepted. -/
theorem wrappedRange_accepted : validateLinkRanges fourElements 0 1 [⟨1, 1, 2 ^ 63 - 1⟩] = .ok ∧
      ¬ AcceptsExactlySafe fourElements 0 1 [⟨1, 1, 2 ^ 63 - 1⟩] := by
  have accepted : validateLinkRanges fourElements 0 1 [⟨1, 1, 2 ^ 63 - 1⟩] = .ok := by
    decide +kernel
  refine ⟨accepted, ?_⟩
  rintro ⟨exactly, -⟩
  have inside := ((exactly.mp accepted).within _ mem_cons_self).sourceEnd
  exact absurd inside (by decide)

end Bounds

end Vknn.Session
