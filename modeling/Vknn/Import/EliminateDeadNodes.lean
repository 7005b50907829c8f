import Mathlib.Data.List.Dedup
import Mathlib.Data.List.Perm.Subperm
import Vknn.Cpu.Execution

/-!
# Removing dead nodes

A tensor is live when it is a graph output or a live node reads it, as an operand or
through a fused residual or bias; a node is live when it writes a live tensor.  The pass
marks live tensors in sweeps over the nodes until a sweep marks nothing, and keeps the
live nodes in their order.

The marked set is closed under what live nodes read.  That is why the graph that is left
computes every graph output as before, and every tensor a node of it reads.
-/

namespace Vknn.Import

open List Cpu

/-! ## The pass -/

/-- Whether a node writes a live tensor. -/
def nodeLive (live : List TensorId) (nd : Node) : Bool :=
  nd.outputs.any fun o => o ≠ kNoTensor && live.contains o

def markLive (live : List TensorId) (t : TensorId) : List TensorId :=
  if t ≠ kNoTensor ∧ t ∉ live then t :: live else live

/-- Mark what a node reads, if it is live. -/
def markReads (live : List TensorId) (nd : Node) : List TensorId :=
  if nodeLive live nd then nd.reads.foldl markLive live else live

/-- Mark what the live nodes read, in one sweep over the nodes. -/
def sweepLive (nodes : List Node) (live : List TensorId) : List TensorId :=
  nodes.foldl markReads live

/-- Sweep until nothing is marked, at most a number of times. -/
def liveFrom (nodes : List Node) : Nat → List TensorId → List TensorId
  | 0, live => live
  | fuel + 1, live =>
    let swept := sweepLive nodes live
    if swept.length = live.length then live else liveFrom nodes fuel swept

/-- The operands and fused operands of all nodes. -/
def allReads (nodes : List Node) : List TensorId := nodes.flatMap (·.reads)

/-- The live tensors of a graph.  Every sweep but the last marks a tensor that is read, so there
are no more sweeps than reads, and one. -/
def liveTensors (g : Graph) : List TensorId :=
  liveFrom g.nodes ((allReads g.nodes).length + 1) g.outputs

/-- Keep the nodes that a graph output depends on. -/
def eliminateDeadNodes (g : Graph) : Graph :=
  { g with nodes := g.nodes.filter (nodeLive (liveTensors g)) }

/-! ## Marking -/

variable {live reads swept : List TensorId} {t : TensorId}

theorem nodeLive_iff {nd : Node} : nodeLive live nd = true ↔ ∃ t ∈ writesOf nd, t ∈ live := by
  simp [nodeLive, mem_writesOf, and_assoc]

/-- What marking adds: tensors that are read, each once. -/
structure Marks (reads live swept : List TensorId) : Prop where
  marked : ∃ added, swept = added ++ live ∧ added.Nodup ∧ (∀ t ∈ added, t ∈ reads) ∧
    ∀ t ∈ added, t ∉ live

theorem Marks.refl (reads live : List TensorId) : Marks reads live live :=
  ⟨[], rfl, nodup_nil, fun _ mem => absurd mem not_mem_nil,
    fun _ mem => absurd mem not_mem_nil⟩

theorem Marks.trans {later : List TensorId} (first : Marks reads live swept)
    (second : Marks reads swept later) : Marks reads live later := by
  obtain ⟨added, rfl, distinct, read, new⟩ := first
  obtain ⟨more, rfl, distinct', read', new'⟩ := second
  refine ⟨more ++ added, (append_assoc ..).symm, ?_, fun t mem => ?_, fun t mem => ?_⟩
  · refine nodup_append.mpr ⟨distinct', distinct, fun a inMore b inAdded same => ?_⟩
    exact new' a inMore (mem_append_left _ (same ▸ inAdded))
  · rcases mem_append.mp mem with inMore | inAdded
    · exact read' t inMore
    · exact read t inAdded
  · rcases mem_append.mp mem with inMore | inAdded
    · exact fun old => new' t inMore (mem_append_right _ old)
    · exact new t inAdded

theorem Marks.subset (marks : Marks reads live swept)
    (mem : t ∈ live) : t ∈ swept := by
  obtain ⟨added, rfl, -⟩ := marks
  exact mem_append_right _ mem

theorem Marks.eq_of_length (marks : Marks reads live swept)
    (same : swept.length = live.length) : swept = live := by
  obtain ⟨added, rfl, -⟩ := marks
  rw [length_append] at same
  obtain rfl := length_eq_zero_iff.mp (by omega : added.length = 0)
  rfl

theorem marks_markLive (live : List TensorId)
    (read : t ∈ reads) : Marks reads live (markLive live t) := by
  unfold markLive
  split
  · rename_i new
    refine ⟨[t], rfl, nodup_singleton t, fun s mem => ?_, fun s mem => ?_⟩
    · rwa [mem_singleton.mp mem]
    · rw [mem_singleton.mp mem]
      exact new.2
  · exact .refl reads live

theorem marks_foldl (ts live : List TensorId) (read : ∀ t ∈ ts, t ∈ reads) :
    Marks reads live (ts.foldl markLive live) := by
  induction ts generalizing live with
  | nil => exact .refl reads live
  | cons t ts ih =>
    exact (marks_markLive live (read t mem_cons_self)).trans
      (ih _ fun s mem => read s (mem_cons_of_mem _ mem))

theorem marks_markReads (reads live : List TensorId) (nd : Node)
    (read : ∀ t ∈ nd.reads, t ∈ reads) : Marks reads live (markReads live nd) := by
  unfold markReads
  split
  · exact marks_foldl nd.reads live read
  · exact .refl reads live

theorem marks_sweepLive (reads : List TensorId) (nodes : List Node) (live : List TensorId)
    (read : ∀ nd ∈ nodes, ∀ t ∈ nd.reads, t ∈ reads) :
    Marks reads live (sweepLive nodes live) := by
  induction nodes generalizing live with
  | nil => exact .refl reads live
  | cons nd nodes ih =>
    exact (marks_markReads reads live nd (read nd mem_cons_self)).trans
      (ih _ fun n mem => read n (mem_cons_of_mem _ mem))

theorem mem_foldl_markLive {ts : List TensorId} (mem : t ∈ ts)
    (present : t ≠ kNoTensor) : t ∈ ts.foldl markLive live := by
  induction ts generalizing live with
  | nil => cases mem
  | cons s ts ih =>
    rw [foldl_cons]
    rcases mem_cons.mp mem with rfl | later
    · refine (marks_foldl ts _ fun _ inside => inside).subset ?_
      unfold markLive
      split
      · exact mem_cons_self
      · rename_i old
        by_contra absent
        exact old ⟨present, absent⟩
    · exact ih later

/-! ## A closed set -/

/-- Every tensor that a live node reads is live. -/
def Closed (nodes : List Node) (live : List TensorId) : Prop :=
  ∀ nd ∈ nodes, nodeLive live nd = true → ∀ t ∈ readsOf nd, t ∈ live

/-- A sweep that marks nothing found a closed set. -/
theorem closed_of_sweepLive {nodes : List Node}
    (still : sweepLive nodes live = live) : Closed nodes live := by
  induction nodes with
  | nil => exact fun nd mem => nomatch mem
  | cons nd nodes ih =>
    have first := marks_markReads (allReads (nd :: nodes)) live nd
      fun t read => mem_flatMap.mpr ⟨nd, mem_cons_self, read⟩
    have rest := marks_sweepLive (allReads (nd :: nodes)) nodes (markReads live nd)
      fun n mem t read => mem_flatMap.mpr ⟨n, mem_cons_of_mem _ mem, read⟩
    -- The first node marked nothing, or else the whole sweep would have marked something.
    have same : markReads live nd = live := by
      refine first.eq_of_length ?_
      obtain ⟨added, split, -⟩ := first
      obtain ⟨more, split', -⟩ := rest
      have whole : sweepLive (nd :: nodes) live = more ++ markReads live nd := split'
      rw [still, split] at whole
      have lengths := congrArg List.length whole
      rw [split]
      simp only [length_append] at lengths ⊢
      omega
    have later : sweepLive nodes live = live := by
      rw [sweepLive, foldl_cons, same] at still
      exact still
    intro n mem alive t read
    rcases mem_cons.mp mem with rfl | inside
    · rw [markReads, if_pos alive] at same
      rw [← same]
      obtain ⟨listed, present⟩ := mem_readsOf.mp read
      exact mem_foldl_markLive listed present
    · exact ih later n inside alive t read

/-- **Sweeping long enough marks a closed set.** -/
theorem closed_liveFrom {nodes : List Node} {roots : List TensorId} (added : List TensorId)
    (distinct : added.Nodup) (read : ∀ t ∈ added, t ∈ allReads nodes) {fuel : Nat}
    (enough : (allReads nodes).length + 1 ≤ fuel + added.length) :
    Closed nodes (liveFrom nodes fuel (added ++ roots)) := by
  have bound := (distinct.subperm read).length_le
  induction fuel generalizing added with
  | zero => omega
  | succ fuel ih =>
    rw [liveFrom]
    have marks := marks_sweepLive (allReads nodes) nodes (added ++ roots)
      fun n mem t listed => mem_flatMap.mpr ⟨n, mem, listed⟩
    split
    · rename_i same
      exact closed_of_sweepLive (marks.eq_of_length same)
    · rename_i grown
      obtain ⟨more, split, distinct', read', new⟩ := marks
      rw [split, ← append_assoc]
      have joined : (more ++ added).Nodup :=
        nodup_append.mpr ⟨distinct', distinct, fun a inMore b inAdded same =>
          new a inMore (mem_append_left _ (same ▸ inAdded))⟩
      have known : ∀ t ∈ more ++ added, t ∈ allReads nodes := fun t mem =>
        (mem_append.mp mem).elim (read' t) (read t)
      have some : 0 < more.length := by
        rw [split, length_append] at grown
        omega
      refine ih _ joined known ?_ (joined.subperm known).length_le
      rw [length_append]
      omega

theorem subset_liveFrom (nodes : List Node) (fuel : Nat) (live : List TensorId)
    (mem : t ∈ live) : t ∈ liveFrom nodes fuel live := by
  induction fuel generalizing live with
  | zero => exact mem
  | succ fuel ih =>
    rw [liveFrom]
    split
    · exact mem
    · have marks := marks_sweepLive (allReads nodes) nodes live
        fun n inside t listed => mem_flatMap.mpr ⟨n, inside, listed⟩
      exact ih _ (marks.subset mem)

/-- **The live tensors are closed, and the graph outputs are live.** -/
theorem closed_liveTensors (g : Graph) :
    Closed g.nodes (liveTensors g) ∧ ∀ t ∈ g.outputs, t ∈ liveTensors g := by
  refine ⟨?_, fun t mem => subset_liveFrom g.nodes _ g.outputs mem⟩
  exact closed_liveFrom [] nodup_nil
    (fun _ mem => absurd mem not_mem_nil) le_rfl

/-! ## What removal keeps -/

/-- **Removing dead nodes changes no live tensor**, in a run with any shapes. -/
theorem execute_eliminateDeadNodes {α : Type} (K : Kernels α) (r g : Graph)
    (e : TensorId → List α) (live : t ∈ liveTensors g) :
    execute K r (eliminateDeadNodes g).nodes e t = execute K r g.nodes e t := by
  have agree : Dataflow.Machine.Agree (fun t => t ∈ liveTensors g)
      (execute K r g.nodes e) (execute K r (eliminateDeadNodes g).nodes e) := by
    refine Dataflow.Machine.Agree.run_filter (M := machine K r) (fun _ _ => rfl)
      (nodeLive (liveTensors g)) (fun n mem alive => ?_) fun n mem dead t written => ?_
    · exact (closed_liveTensors g).1 n mem alive
    · intro needed
      have alive := nodeLive_iff.mpr ⟨t, written, needed⟩
      rw [dead] at alive
      cases alive
  exact (agree t live).symm

theorem fed_eliminateDeadNodes (g : Graph) {n : Node} (kept : n ∈ (eliminateDeadNodes g).nodes)
    (read : t ∈ readsOf n) :
    t ∈ liveTensors g ∧ ∀ p ∈ g.nodes, t ∈ writesOf p → p ∈ (eliminateDeadNodes g).nodes := by
  obtain ⟨mem, alive⟩ := mem_filter.mp kept
  have live := (closed_liveTensors g).1 n mem alive t read
  exact ⟨live, fun p inside written =>
    mem_filter.mpr ⟨inside, nodeLive_iff.mpr ⟨t, written, live⟩⟩⟩

end Vknn.Import
