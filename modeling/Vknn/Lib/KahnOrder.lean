import Vknn.Lib.Kahn

/-!
# The order of Kahn's algorithm

Which of the legal orders does the algorithm emit?  The queue is first in, first out, and a step
appends what it releases in vertex order.  So a vertex comes before another one when it is ready
earlier, and the vertex order decides only between vertices that get ready together.

That one element comes before another in a list is said by a sublist of the two.
-/

namespace Kahn

open List

variable {ι : Type}

/-- In a list without repetitions, what comes before an element is in front of it. -/
theorem mem_of_pair_sublist {before after : List ι} {v w : ι}
    (distinct : (before ++ w :: after).Nodup) (pair : [v, w].Sublist (before ++ w :: after)) :
    v ∈ before := by
  obtain ⟨front, back, split, left, right⟩ := sublist_append_iff.mp pair
  cases front with
  | nil =>
    rw [nil_append] at split
    subst split
    have later : w ∈ after := by
      cases right with
      | cons _ rest => exact rest.subset (mem_cons_of_mem _ mem_cons_self)
      | cons_cons _ rest => exact rest.subset mem_cons_self
    exact absurd later (nodup_cons.mp distinct.of_append_right).1
  | cons x front =>
    obtain rfl : v = x := (List.cons.inj split).1
    exact left.subset mem_cons_self

theorem pair_sublist_filter {l : List ι} {v w : ι} (keep : ι → Bool) (pair : [v, w].Sublist l)
    (first : keep v = true) (second : keep w = true) : [v, w].Sublist (l.filter keep) := by
  have filtered := pair.filter keep
  rwa [filter_cons_of_pos first, filter_cons_of_pos second] at filtered

variable [DecidableEq ι]

section Order

variable (vertices : List ι) (preds : ι → List ι)

/-- **First come, first out**: a vertex that is ready whenever another one is comes before it, if it
does so in the vertex order, and one that is ready while another is not comes before that. -/
structure Fair (order : List ι) : Prop where
  tie : ∀ v w, [v, w].Sublist vertices → w ∈ order →
    (∀ front, front <+: order → preds w ⊆ front → preds v ⊆ front) → [v, w].Sublist order
  first : ∀ v w, v ∈ order → w ∈ vertices → ∀ front, front <+: order → preds w ⊆ front →
    ¬ preds v ⊆ front → [w, v].Sublist order

variable {vertices preds}

theorem Balanced.mem_iff {s : State ι} (balanced : Balanced vertices preds s) {v : ι}
    (mem : v ∈ vertices) : v ∈ s.emitted ++ s.queue ↔ preds v ⊆ s.emitted := by
  rw [balanced.ready v mem, balanced.indeg_eq_zero_iff mem]
  rfl

omit [DecidableEq ι] in
theorem fair_start : Fair vertices preds (start vertices preds).queue := by
  have source : ∀ v ∈ vertices, preds v ⊆ [] → v ∈ (start vertices preds).queue := by
    intro v mem none
    refine mem_filter.mpr ⟨mem, ?_⟩
    rw [subset_nil.mp none]
    rfl
  have ready : ∀ v ∈ (start vertices preds).queue, preds v = [] := by
    intro v mem
    simpa [start] using (mem_filter.mp mem).2
  refine ⟨?_, ?_⟩
  · intro v w pair mem sooner
    have early := sooner [] nil_prefix (by rw [ready w mem]; exact nil_subset _)
    have kept := source v (pair.subset mem_cons_self) early
    exact pair_sublist_filter _ pair (mem_filter.mp kept).2 (mem_filter.mp mem).2
  · intro v w mem _ front _ _ waiting
    rw [ready v mem] at waiting
    exact absurd (nil_subset _) waiting

/-- **One step keeps the order fair.** -/
theorem Fair.step (distinctPreds : ∀ v ∈ vertices, (preds v).Nodup)
    (distinctVertices : vertices.Nodup) {s : State ι} (balanced : Balanced vertices preds s)
    (fair : Fair vertices preds (s.emitted ++ s.queue)) :
    Fair vertices preds ((Kahn.step (succOf vertices preds) s).emitted ++
      (Kahn.step (succOf vertices preds) s).queue) := by
  cases shape : s.queue with
  | nil => rwa [step_nil shape]
  | cons u queue =>
    have after := balanced_step distinctPreds distinctVertices balanced
    have emitted := @emitted_step _ _ (succOf vertices preds) _ _ _ shape
    have joined := @joined_step _ _ _ preds distinctVertices _ _ _ shape
    obtain ⟨next, stepped⟩ : ∃ next, next = Kahn.step (succOf vertices preds) s := ⟨_, rfl⟩
    rw [← stepped] at after emitted joined ⊢
    obtain ⟨extra, new⟩ : ∃ extra,
      extra = (succOf vertices preds u).filter fun v => s.indeg v = 1 := ⟨_, rfl⟩
    rw [← new] at joined
    have grown : s.emitted ++ s.queue <+: next.emitted ++ next.queue := joined ▸ prefix_append _ _
    have done : next.emitted <+: next.emitted ++ next.queue := prefix_append _ _
    refine ⟨?_, ?_⟩
    · intro v w pair mem sooner
      rw [joined] at mem
      rcases mem_append.mp mem with old | fresh
      · exact (fair.tie v w pair old fun front within => sooner front (within.trans grown)).trans
          grown.sublist
      · have inV := pair.subset (mem_cons_self (a := v))
        have inW : w ∈ vertices := pair.subset (mem_cons_of_mem _ mem_cons_self)
        have early := sooner next.emitted done
          ((after.mem_iff inW).mp (joined ▸ mem_append_right _ fresh))
        have here := (after.mem_iff inV).mpr early
        rw [joined] at here ⊢
        rcases mem_append.mp here with old | both
        · exact (singleton_sublist.mpr old).append (singleton_sublist.mpr fresh)
        · refine List.Sublist.trans ?_ (sublist_append_right _ _)
          rw [new] at both fresh ⊢
          obtain ⟨succV, oneV⟩ := mem_filter.mp both
          obtain ⟨succW, oneW⟩ := mem_filter.mp fresh
          exact pair_sublist_filter _ (pair_sublist_filter _ pair (mem_filter.mp succV).2
            (mem_filter.mp succW).2) oneV oneW
    · intro v w mem inW front within ready waiting
      rw [joined] at mem
      rcases mem_append.mp mem with old | fresh
      · have inV := balanced.known v old
        have earlier : front <+: s.emitted := by
          rcases prefix_or_prefix_of_prefix within
            ((prefix_append s.emitted s.queue).trans grown) with short | long
          · exact short
          · exact absurd (List.Subset.trans ((balanced.mem_iff inV).mp old) long.subset) waiting
        exact (fair.first v w old inW front (earlier.trans (prefix_append _ _)) ready
          waiting).trans grown.sublist
      · have inV := after.known v (joined ▸ mem_append_right _ fresh)
        have needs := (after.mem_iff inV).mp (joined ▸ mem_append_right _ fresh)
        have earlier : front <+: s.emitted := by
          rcases prefix_or_prefix_of_prefix within done with short | long
          · rw [emitted] at short
            rcases prefix_concat_iff.mp short with whole | short
            · exact absurd (by rw [whole, ← emitted]; exact needs) waiting
            · exact short
          · exact absurd (List.Subset.trans needs long.subset) waiting
        have here := (balanced.mem_iff inW).mpr (List.Subset.trans ready earlier.subset)
        rw [joined]
        exact (singleton_sublist.mpr here).append (singleton_sublist.mpr fresh)

theorem fair_drain (distinctPreds : ∀ v ∈ vertices, (preds v).Nodup)
    (distinctVertices : vertices.Nodup) (fuel : Nat) {s : State ι}
    (balanced : Balanced vertices preds s) (fair : Fair vertices preds (s.emitted ++ s.queue)) :
    Fair vertices preds ((drain (succOf vertices preds) fuel s).emitted ++
      (drain (succOf vertices preds) fuel s).queue) := by
  induction fuel generalizing s with
  | zero => exact fair
  | succ fuel ih =>
    exact ih (balanced_step distinctPreds distinctVertices balanced)
      (fair.step distinctPreds distinctVertices balanced)

/-- **The emission is fair.** -/
theorem fair_emission (distinctPreds : ∀ v ∈ vertices, (preds v).Nodup)
    (distinctVertices : vertices.Nodup) : Fair vertices preds (emission vertices preds) := by
  have fair := fair_drain distinctPreds distinctVertices vertices.length
    (balanced_start distinctVertices) fair_start
  rwa [drain_queue_nil distinctPreds distinctVertices, append_nil] at fair

end Order

end Kahn
