import Mathlib.Order.WellFoundedSet
import Mathlib.Tactic.Linarith

/-!
# Kahn's algorithm with in-degree counters

The algorithm keeps, for every vertex, the number of predecessors that have not
been emitted, and a queue of the vertices whose counter has reached zero.  A step
emits the vertex at the head of the queue and decrements the counter of each of
its successors, appending those that reach zero.

Everything rests on one invariant, `Balanced`: a counter is exactly the number
of predecessors not yet emitted, and the emitted and queued vertices are exactly
those whose counter is zero.  From it follow the order of emission, the fact that
as many steps as there are vertices empty the queue, and the fact that a vertex
is left over exactly when the relation has a cycle.
-/

namespace Kahn

open List Function

variable {ι : Type} [DecidableEq ι]

/-- The counters, the vertices waiting to be emitted, and the vertices emitted so far. -/
structure State (ι : Type) where
  indeg : ι → Int
  queue : List ι
  emitted : List ι

/-- Decrement one counter, and enqueue its vertex if the counter has reached zero. -/
def release (s : State ι) (v : ι) : State ι :=
  let indeg := update s.indeg v (s.indeg v - 1)
  if indeg v = 0 then { s with indeg := indeg, queue := s.queue ++ [v] }
  else { s with indeg := indeg }

/-- Emit the head of the queue and release its successors. -/
def step (succ : ι → List ι) (s : State ι) : State ι :=
  match s.queue with
  | [] => s
  | u :: queue => (succ u).foldl release { s with queue := queue, emitted := s.emitted ++ [u] }

def drain (succ : ι → List ι) : Nat → State ι → State ι
  | 0, s => s
  | fuel + 1, s => drain succ fuel (step succ s)

/-- The counters at the start, and the vertices that have no predecessor, in vertex order. -/
def start (vertices : List ι) (preds : ι → List ι) : State ι where
  indeg v := (preds v).length
  queue := vertices.filter fun v => ((preds v).length : Int) = 0
  emitted := []

/-! ## What releasing a list of vertices does -/

theorem release_emitted (s : State ι) (v : ι) : (release s v).emitted = s.emitted := by
  unfold release
  dsimp only
  split <;> rfl

theorem foldl_release_emitted (vs : List ι) (s : State ι) :
    (vs.foldl release s).emitted = s.emitted := by
  induction vs generalizing s with
  | nil => rfl
  | cons v vs ih => rw [foldl_cons, ih, release_emitted]

theorem release_indeg (s : State ι) (v : ι) :
    (release s v).indeg = update s.indeg v (s.indeg v - 1) := by
  unfold release
  dsimp only
  split <;> rfl

theorem release_queue (s : State ι) (v : ι) :
    (release s v).queue = s.queue ++ if s.indeg v = 1 then [v] else [] := by
  have reaches : s.indeg v - 1 = 0 ↔ s.indeg v = 1 := by omega
  by_cases one : s.indeg v = 1
  · simp [release, one]
  · simp [release, one, reaches]

/-- Each counter drops by one exactly at the released vertices. -/
theorem foldl_release_indeg {vs : List ι} (distinct : vs.Nodup) (s : State ι) (w : ι) :
    (vs.foldl release s).indeg w = s.indeg w - if w ∈ vs then 1 else 0 := by
  induction vs generalizing s with
  | nil => simp
  | cons v vs ih =>
    obtain ⟨fresh, distinctTail⟩ := nodup_cons.mp distinct
    rw [foldl_cons, ih distinctTail, release_indeg]
    by_cases same : w = v
    · subst same
      simp [fresh]
    · simp [same]

/-- The queue grows by the released vertices whose counter was one. -/
theorem foldl_release_queue {vs : List ι} (distinct : vs.Nodup) (s : State ι) :
    (vs.foldl release s).queue = s.queue ++ vs.filter fun v => s.indeg v = 1 := by
  induction vs generalizing s with
  | nil => simp
  | cons v vs ih =>
    obtain ⟨fresh, distinctTail⟩ := nodup_cons.mp distinct
    have unchanged : vs.filter (fun w => (release s v).indeg w = 1) =
        vs.filter fun w => s.indeg w = 1 := by
      refine filter_congr fun w mem => ?_
      have apart : w ≠ v := fun same => fresh (same ▸ mem)
      rw [release_indeg, update_of_ne apart]
    rw [foldl_cons, ih distinctTail, unchanged, release_queue, append_assoc]
    by_cases one : s.indeg v = 1
    · simp [one]
    · simp [one]

/-! ## The invariant -/

section Invariant

variable (vertices : List ι) (preds : ι → List ι)

/-- Successors listed in vertex order: the vertices that have `u` as a predecessor. -/
def succOf (u : ι) : List ι := vertices.filter fun v => u ∈ preds v

/-- Every listed element comes after all of its predecessors. -/
def Scheduled (order : List ι) : Prop :=
  ∀ before v after, order = before ++ v :: after → ∀ p ∈ preds v, p ∈ before

/-- **The counters are balanced**: each counts the predecessors still to be emitted, and a
vertex has been emitted or queued exactly when its counter is zero. -/
structure Balanced (s : State ι) : Prop where
  distinct : (s.emitted ++ s.queue).Nodup
  known : ∀ v ∈ s.emitted ++ s.queue, v ∈ vertices
  counts : ∀ v ∈ vertices, s.indeg v = ((preds v).filter fun p => p ∉ s.emitted).length
  ready : ∀ v ∈ vertices, v ∈ s.emitted ++ s.queue ↔ s.indeg v = 0
  scheduled : Scheduled preds (s.emitted ++ s.queue)

variable {vertices} {preds}

variable {s : State ι}

theorem Balanced.indeg_eq_zero_iff (balanced : Balanced vertices preds s) {v : ι}
    (mem : v ∈ vertices) : s.indeg v = 0 ↔ ∀ p ∈ preds v, p ∈ s.emitted := by
  rw [balanced.counts v mem, Nat.cast_eq_zero, length_eq_zero_iff, filter_eq_nil_iff]
  simp

omit [DecidableEq ι] in
/-- Appending elements whose predecessors all stand before keeps a schedule. -/
theorem Scheduled.append {order extra : List ι} (scheduled : Scheduled preds order)
    (ready : ∀ v ∈ extra, ∀ p ∈ preds v, p ∈ order) : Scheduled preds (order ++ extra) := by
  intro before v after split p isPred
  rcases append_eq_append_iff.mp split with ⟨mid, rfl, rest⟩ | ⟨mid, whole, rest⟩
  · have mem : v ∈ extra := by rw [rest]; simp
    exact mem_append_left _ (ready v mem p isPred)
  · cases mid with
    | nil =>
      have mem : v ∈ extra := by
        rw [nil_append] at rest
        rw [← rest]
        exact mem_cons_self
      rw [append_nil] at whole
      exact whole ▸ ready v mem p isPred
    | cons w mid =>
      obtain ⟨rfl, rfl⟩ : v = w ∧ after = mid ++ extra := by simpa using rest
      exact scheduled before v mid whole p isPred

theorem balanced_start (distinct : vertices.Nodup) : Balanced vertices preds (start vertices preds) where
  distinct := by simpa [start] using distinct.filter _
  known v mem := by
    simp only [start, nil_append, mem_filter] at mem
    exact mem.1
  counts v _ := by simp [start]
  ready v mem := by simp [start, mem]
  scheduled := by
    have sources : ∀ v ∈ (start vertices preds).queue, ∀ p ∈ preds v, p ∈ ([] : List ι) := by
      intro v mem p isPred
      simp only [start, mem_filter, decide_eq_true_eq, Nat.cast_eq_zero, length_eq_zero_iff] at mem
      simp [mem.2] at isPred
    refine Scheduled.append ?_ sources
    intro before v after split
    simp [start] at split

/-- Emitting `u` lowers the number of missing predecessors by one exactly at its successors. -/
theorem length_filter_emit {emitted ps : List ι} (distinct : ps.Nodup) {u : ι}
    (fresh : u ∉ emitted) :
    ((ps.filter fun p => p ∉ emitted ++ [u]).length : Int) =
      ((ps.filter fun p => p ∉ emitted).length : Int) - if u ∈ ps then 1 else 0 := by
  have split : (ps.filter fun p => p ∉ emitted ++ [u]) =
      (ps.filter fun p => p ∉ emitted).erase u := by
    rw [(distinct.filter _).erase_eq_filter, filter_filter]
    refine filter_congr fun p _ => ?_
    simp [and_comm, bne]
    rfl
  rw [split]
  by_cases mem : u ∈ ps
  · have kept : u ∈ ps.filter fun p => p ∉ emitted := by simp [mem, fresh]
    have positive := length_pos_of_mem kept
    rw [length_erase_of_mem kept, if_pos mem]
    omega
  · have absent : u ∉ ps.filter fun p => p ∉ emitted := fun kept =>
      mem (mem_filter.mp kept).1
    rw [erase_of_not_mem absent, if_neg mem, sub_zero]

theorem emitted_step {succ : ι → List ι} {s : State ι} {u : ι} {queue : List ι}
    (shape : s.queue = u :: queue) : (step succ s).emitted = s.emitted ++ [u] := by
  simp [step, shape, foldl_release_emitted]

/-- A step appends the successors that have been waiting for the head alone. -/
theorem joined_step (distinctVertices : vertices.Nodup) {s : State ι} {u : ι} {queue : List ι}
    (shape : s.queue = u :: queue) :
    (step (succOf vertices preds) s).emitted ++ (step (succOf vertices preds) s).queue =
      (s.emitted ++ s.queue) ++ (succOf vertices preds u).filter fun v => s.indeg v = 1 := by
  have distinctSucc : (succOf vertices preds u).Nodup := distinctVertices.filter _
  have queued : (step (succOf vertices preds) s).queue =
      queue ++ (succOf vertices preds u).filter fun v => s.indeg v = 1 := by
    simp [step, shape, foldl_release_queue distinctSucc]
  rw [emitted_step shape, queued, shape]
  simp

/-- **One step keeps the counters balanced.** -/
theorem balanced_step (distinctPreds : ∀ v ∈ vertices, (preds v).Nodup)
    (distinctVertices : vertices.Nodup) (balanced : Balanced vertices preds s) :
    Balanced vertices preds (step (succOf vertices preds) s) := by
  cases shape : s.queue with
  | nil =>
    have still : step (succOf vertices preds) s = s := by simp [step, shape]
    rwa [still]
  | cons u queue =>
    have distinctAll := balanced.distinct
    rw [shape] at distinctAll
    have fresh : u ∉ s.emitted := fun mem =>
      (nodup_append.mp distinctAll).2.2 u mem u mem_cons_self rfl
    have distinctSucc : (succOf vertices preds u).Nodup := distinctVertices.filter _
    -- The three components of the state after the step.
    have emitted := @emitted_step _ _ (succOf vertices preds) _ _ _ shape
    have indeg : ∀ v, (step (succOf vertices preds) s).indeg v =
        s.indeg v - if v ∈ succOf vertices preds u then 1 else 0 := by
      intro v
      simp [step, shape, foldl_release_indeg distinctSucc]
    have joined := @joined_step _ _ _ preds distinctVertices _ _ _ shape
    have counts : ∀ v ∈ vertices, (step (succOf vertices preds) s).indeg v =
        ((preds v).filter fun p => p ∉ (step (succOf vertices preds) s).emitted).length := by
      intro v mem
      rw [emitted, indeg, length_filter_emit (distinctPreds v mem) fresh, balanced.counts v mem]
      simp [succOf, mem]
    have newlyReady : ∀ v ∈ (succOf vertices preds u).filter (fun v => s.indeg v = 1),
        v ∈ vertices ∧ (step (succOf vertices preds) s).indeg v = 0 := by
      intro v mem
      obtain ⟨isSucc, one⟩ := mem_filter.mp mem
      refine ⟨(mem_filter.mp isSucc).1, ?_⟩
      rw [indeg, if_pos isSucc, of_decide_eq_true one, sub_self]
    refine ⟨?_, ?_, counts, ?_, ?_⟩
    · rw [joined]
      refine nodup_append.mpr ⟨balanced.distinct, distinctSucc.filter _, ?_⟩
      rintro v old w new rfl
      obtain ⟨isSucc, one⟩ := mem_filter.mp new
      have zero := (balanced.ready v (balanced.known v old)).mp old
      rw [of_decide_eq_true one] at zero
      exact one_ne_zero zero
    · rw [joined]
      intro v mem
      rcases mem_append.mp mem with old | new
      · exact balanced.known v old
      · exact (newlyReady v new).1
    · intro v mem
      rw [joined, mem_append, balanced.ready v mem, indeg]
      by_cases isSucc : v ∈ succOf vertices preds u
      · -- A released vertex was waiting for `u`, so its counter was not yet zero.
        have waiting : s.indeg v ≠ 0 := fun zero =>
          fresh ((balanced.indeg_eq_zero_iff mem).mp zero u
            (of_decide_eq_true (mem_filter.mp isSucc).2))
        simp only [mem_filter, isSucc, true_and, decide_eq_true_eq, waiting, false_or, if_true]
        omega
      · simp [isSucc]
    · rw [joined]
      refine balanced.scheduled.append fun v new p isPred => ?_
      obtain ⟨mem, zero⟩ := newlyReady v new
      rw [counts v mem, Nat.cast_eq_zero, length_eq_zero_iff, filter_eq_nil_iff] at zero
      have done : p ∈ s.emitted ++ [u] := by
        have := zero p isPred
        rw [emitted, decide_eq_true_eq, not_not] at this
        exact this
      rw [shape]
      rcases mem_append.mp done with old | last
      · exact mem_append_left _ old
      · exact mem_append_right _ (mem_singleton.mp last ▸ mem_cons_self)

/-! ## Whole runs -/

theorem balanced_drain (distinctPreds : ∀ v ∈ vertices, (preds v).Nodup)
    (distinctVertices : vertices.Nodup) (fuel : Nat)
    (balanced : Balanced vertices preds s) :
    Balanced vertices preds (drain (succOf vertices preds) fuel s) := by
  induction fuel generalizing s with
  | zero => exact balanced
  | succ fuel ih => exact ih (balanced_step distinctPreds distinctVertices balanced)

theorem step_nil {succ : ι → List ι} (empty : s.queue = []) : step succ s = s := by
  simp [step, empty]

theorem drain_nil {succ : ι → List ι} (fuel : Nat) (empty : s.queue = []) :
    drain succ fuel s = s := by
  induction fuel with
  | zero => rfl
  | succ fuel ih => rw [drain, step_nil empty, ih]

/-- A run either has emptied its queue or has emitted one vertex a step. -/
theorem drain_queue_nil_or_length (succ : ι → List ι) (fuel : Nat) (s : State ι) :
    (drain succ fuel s).queue = [] ∨
      (drain succ fuel s).emitted.length = s.emitted.length + fuel := by
  induction fuel generalizing s with
  | zero => exact Or.inr rfl
  | succ fuel ih =>
    cases shape : s.queue with
    | nil =>
      left
      rw [drain_nil _ shape, shape]
    | cons u queue =>
      have grown : (step succ s).emitted.length = s.emitted.length + 1 := by
        simp [step, shape, foldl_release_emitted]
      rcases ih (step succ s) with empty | length
      · exact Or.inl empty
      · right
        rw [drain, length, grown]
        omega

/-- **As many steps as there are vertices empty the queue.** -/
theorem drain_queue_nil (distinctPreds : ∀ v ∈ vertices, (preds v).Nodup)
    (distinctVertices : vertices.Nodup) :
    (drain (succOf vertices preds) vertices.length (start vertices preds)).queue = [] := by
  have balanced := balanced_drain distinctPreds distinctVertices vertices.length
    (balanced_start distinctVertices)
  rcases drain_queue_nil_or_length (succOf vertices preds) vertices.length
    (start vertices preds) with empty | length
  · exact empty
  · have bound := (balanced.distinct.subperm balanced.known).length_le
    have none : (start vertices preds).emitted.length = 0 := rfl
    rw [length_append, length, none] at bound
    exact length_eq_zero_iff.mp (by omega)

/-- The dependency relation among the vertices. -/
def Edge (vertices : List ι) (preds : ι → List ι) (p v : ι) : Prop := v ∈ vertices ∧ p ∈ preds v

/-- No vertex depends on itself through any number of edges. -/
def Acyclic (vertices : List ι) (preds : ι → List ι) : Prop :=
  ∀ v, ¬ Relation.TransGen (Edge vertices preds) v v

def emission (vertices : List ι) (preds : ι → List ι) : List ι :=
  (drain (succOf vertices preds) vertices.length (start vertices preds)).emitted

section Emission

variable (distinctPreds : ∀ v ∈ vertices, (preds v).Nodup) (distinctVertices : vertices.Nodup)
include distinctPreds distinctVertices

theorem balanced_emission : Balanced vertices preds ⟨(drain (succOf vertices preds) vertices.length
      (start vertices preds)).indeg, [], emission vertices preds⟩ := by
  have balanced := balanced_drain distinctPreds distinctVertices vertices.length
    (balanced_start distinctVertices)
  have empty := drain_queue_nil distinctPreds distinctVertices
  unfold emission
  rw [← empty]
  exact balanced

theorem nodup_emission : (emission vertices preds).Nodup := by
  simpa using (balanced_emission distinctPreds distinctVertices).distinct

theorem emission_subset : ∀ v ∈ emission vertices preds, v ∈ vertices := by
  simpa using (balanced_emission distinctPreds distinctVertices).known

/-- **Every emitted vertex comes after all of its predecessors.** -/
theorem scheduled_emission : Scheduled preds (emission vertices preds) := by
  simpa using (balanced_emission distinctPreds distinctVertices).scheduled

theorem mem_emission_iff {v : ι} (mem : v ∈ vertices) :
    v ∈ emission vertices preds ↔ ∀ p ∈ preds v, p ∈ emission vertices preds := by
  have balanced := balanced_emission distinctPreds distinctVertices
  have ready := balanced.ready v mem
  rw [balanced.indeg_eq_zero_iff mem, append_nil] at ready
  exact ready

/-- **The emission is complete exactly when the relation has no cycle.** -/
theorem length_emission_eq_iff (closed : ∀ v ∈ vertices, ∀ p ∈ preds v, p ∈ vertices) :
    (emission vertices preds).length = vertices.length ↔ Acyclic vertices preds := by
  have distinct := nodup_emission distinctPreds distinctVertices
  have subset := emission_subset distinctPreds distinctVertices
  have scheduled := scheduled_emission distinctPreds distinctVertices
  constructor
  · -- Along an edge the place of emission strictly grows, so no path returns.
    intro complete v cycle
    have all : ∀ w ∈ vertices, w ∈ emission vertices preds := by
      have perm := (distinct.subperm subset).perm_of_length_le complete.ge
      exact fun w mem => perm.mem_iff.mpr mem
    have grows : ∀ {a b : ι}, Relation.TransGen (Edge vertices preds) a b →
        (emission vertices preds).idxOf a < (emission vertices preds).idxOf b := by
      have single : ∀ {a b : ι}, Edge vertices preds a b →
          (emission vertices preds).idxOf a < (emission vertices preds).idxOf b := by
        rintro a b ⟨mem, isPred⟩
        obtain ⟨before, after, split⟩ := append_of_mem (all b mem)
        have earlier := scheduled before b after split a isPred
        have notBefore : b ∉ before := by
          rw [split] at distinct
          exact fun inside => (nodup_append.mp distinct).2.2 b inside b
            mem_cons_self rfl
        rw [split, idxOf_append_of_mem earlier, idxOf_append_of_notMem notBefore]
        have := idxOf_lt_length_of_mem earlier
        omega
      intro a b path
      induction path with
      | single edge => exact single edge
      | tail _ edge ih => exact ih.trans (single edge)
    exact lt_irrefl _ (grows cycle)
  · -- Induction along the edges: once every predecessor is emitted, so is the vertex.
    intro acyclic
    have order : IsStrictOrder ι (Relation.TransGen (Edge vertices preds)) :=
      { irrefl := acyclic, trans := fun _ _ _ => Relation.TransGen.trans }
    have wellFounded : {v | v ∈ vertices}.WellFoundedOn
        (Relation.TransGen (Edge vertices preds)) :=
      (finite_toSet vertices).wellFoundedOn
    have all : ∀ v ∈ vertices, v ∈ emission vertices preds := by
      intro v mem
      refine wellFounded.induction mem fun w inside ih => ?_
      rw [mem_emission_iff distinctPreds distinctVertices inside]
      exact fun p isPred => ih p (closed w inside p isPred) (.single ⟨inside, isPred⟩)
    have perm := (subperm_of_subset distinctVertices all).antisymm (distinct.subperm subset)
    exact perm.length_eq.symm

end Emission

end Invariant

end Kahn
