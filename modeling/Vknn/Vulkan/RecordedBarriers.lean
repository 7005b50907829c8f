import Vknn.Vulkan.BarrierCompleteness

/-!
# Where the barriers of a recording are complete

Two things can go wrong.  A node that the planner elided touches memory unseen when a buffer of its
slices has been replaced since: the planner refuses to make views of a graph input, whose buffer a
caller may replace, but not of a graph output, whose buffer a caller may replace as well.  And a
barrier of the compute stage ends the bookkeeping of reads that it does not hold a copy back behind.
Apart from these two the barriers are complete.
-/

namespace Vknn.Vulkan

open Separation List Option
open SegmentPlan (KernelsBound Silent dispatch)

/-- Where a copy or a fill overwrites what an earlier node reads, no barrier of the compute stage has
come between the two alone. -/
def CopiesHeldBack (plan : SegmentPlan) (entries : List Entry) : Prop :=
  ∀ before ni cs between b after, entries = before ++ .node ni cs :: (between ++ b :: after) →
    plan.isCopy ni = false → AfterRead .compute .transfer (.node ni cs) b →
      (∃ e ∈ between, e = .barrier .compute ∨ e = .barrier .execution) → ∃ e ∈ between, IsWide e

namespace Recordable

variable {plan : SegmentPlan} {r : Recordable} {floatInts : Import.FloatInts} {kernel : Kernel}

/-! ## The whole recording -/

theorem silent_fenced {entries : List Entry} (silent : Silent entries) :
    Silent (fenced entries) := by
  unfold fenced
  split
  · exact fun e none => nomatch none
  · intro e mem
    rcases mem_append.mp mem with old | new
    · exact silent e old
    · obtain rfl := mem_singleton.mp new
      rfl

theorem commands_linkEntry (step : Nat) (link : ResidentLink) :
    (r.linkEntry plan step link).commands = [] := by
  unfold linkEntry
  dsimp only
  split <;> rfl

theorem silent_convertEntries (isInput : Bool) : Silent (r.convertEntries isInput) := by
  intro e mem
  obtain ⟨kv, -, rfl⟩ := mem_map.mp mem
  rfl

theorem silent_argMaxEntries (step : Nat) : Silent (r.argMaxEntries plan step) := by
  intro e mem
  obtain ⟨tid, -, rfl⟩ := mem_map.mp mem
  rfl

variable (plan r floatInts kernel) in
/-- Around the nodes, an iteration touches no memory of theirs. -/
theorem iteration_shape (step : Nat) : ∃ front back,
    r.iteration plan floatInts kernel step =
      front ++ (plan.nodeEntries floatInts kernel r.buffers ++ back) ∧
      Silent front ∧ Silent back := by
  unfold iteration
  rw [append_assoc, append_assoc]
  refine ⟨_, _, rfl, ?_, ?_⟩
  · refine Silent.append (silent_fenced ?_) ?_
    · refine Silent.append ?_ fun e mem => ?_
      · split
        · exact fun e only => mem_singleton.mp only ▸ rfl
        · exact fun e none => nomatch none
      · obtain ⟨link, -, rfl⟩ := mem_map.mp mem
        exact commands_linkEntry step link
    · split
      · exact silent_fenced (silent_convertEntries true)
      · exact fun e none => nomatch none
  · refine Silent.append (silent_argMaxEntries step) ?_
    split
    · exact fun e only => mem_singleton.mp only ▸ rfl
    · exact silent_fenced (silent_convertEntries false)

variable {streams : List (List Entry)}

/-- The entries of streams that are joined, one chunk after the other. -/
theorem mem_intercalate {e : Entry} :
    e ∈ List.intercalate [.split] streams → e = .split ∨ ∃ xs ∈ streams, e ∈ xs := by
  induction streams with
  | nil => exact fun none => nomatch none
  | cons xs rest ih =>
    cases rest with
    | nil =>
      rw [intercalate_singleton]
      exact fun here => .inr ⟨xs, mem_cons_self, here⟩
    | cons ys rest =>
      rw [intercalate_cons_cons]
      intro mem
      rcases mem_append.mp mem with here | later
      · rcases mem_append.mp here with here | same
        · exact .inr ⟨xs, mem_cons_self, here⟩
        · exact .inl (mem_singleton.mp same)
      · rcases ih later with same | ⟨zs, among, here⟩
        · exact .inl same
        · exact .inr ⟨zs, mem_cons_of_mem _ among, here⟩

theorem mem_intercalate_of_mem {xs : List Entry} {e : Entry}
    (among : xs ∈ streams) (here : e ∈ xs) : e ∈ List.intercalate [.split] streams := by
  induction streams with
  | nil => cases among
  | cons ys rest ih =>
    cases rest with
    | nil =>
      rw [intercalate_singleton]
      exact mem_singleton.mp among ▸ here
    | cons zs rest =>
      rw [intercalate_cons_cons]
      rcases mem_cons.mp among with rfl | later
      · exact mem_append_left _ (mem_append_left _ here)
      · exact mem_append_right _ (ih later)

/-- **Sound streams stay sound when they are joined as chunks.** -/
theorem sound_intercalate (sound : ∀ xs ∈ streams, plan.Sound xs) :
    plan.Sound (List.intercalate [.split] streams) := by
  induction streams with
  | nil => exact plan.sound_nil
  | cons xs rest ih =>
    cases rest with
    | nil =>
      rw [intercalate_singleton]
      exact sound xs mem_cons_self
    | cons ys rest =>
      rw [intercalate_cons_cons]
      have first : plan.Sound (xs ++ [.split]) :=
        (sound xs mem_cons_self).quiet rfl fun a _ ⟨_, _, _, _, _, _, narrow⟩ =>
          narrow (.inl rfl)
      have later := ih fun zs among => sound zs (mem_cons_of_mem _ among)
      have only : ∀ {sep : Entry → Prop} {x}, sep .split → Open sep (xs ++ [.split]) x →
          x = .split := by
        intro sep x parts live
        rcases open_concat_iff.mp live with same | ⟨passes, -⟩
        · exact same
        · exact absurd parts passes
      refine ⟨first.afterWrite.append later.afterWrite fun x live _ _ => ?_,
        fun s s' => (first.afterRead s s').append (later.afterRead s s') fun x live _ _ => ?_,
        first.copies.append later.copies fun x live _ _ => ?_⟩
      · obtain rfl := only (.inl rfl) live
        exact not_afterWrite_left rfl
      · obtain rfl := only (.inl (.inl rfl)) live
        exact not_afterRead_left rfl
      · obtain rfl := only (.inl rfl) live
        exact SegmentPlan.not_copyThen_of_silent rfl

section Stream

variable (kernels : KernelsBound kernel) (unaliased : Unaliased r.buffers)
  (silent : ∀ ni ∈ plan.nodeIdx, plan.elided ni = true →
    plan.commands floatInts kernel r.buffers (plan.node ni) = [])

include kernels unaliased silent

/-- **The nodes of a recording are kept apart.** -/
theorem sound_recordedEntries : plan.Sound (r.recordedEntries plan floatInts kernel) := by
  refine sound_intercalate fun xs among => ?_
  obtain ⟨step, -, rfl⟩ := mem_map.mp among
  obtain ⟨front, back, shape, quietFront, quietBack⟩ := iteration_shape plan r floatInts kernel step
  obtain ⟨sound, closed⟩ := SegmentPlan.sound_nodeEntries kernels unaliased silent
  rw [shape]
  exact quietFront.before (quietBack.after sound closed)

theorem genuine_recordedEntries {ni : Nat} {cs : List Command}
    (mem : .node ni cs ∈ r.recordedEntries plan floatInts kernel) :
    cs = [] ∨ cs = plan.commands floatInts kernel r.buffers (plan.node ni) ∧
      (plan.elided ni = true → cs = []) := by
  rcases mem_intercalate mem with same | ⟨xs, among, here⟩
  · cases same
  · obtain ⟨step, -, rfl⟩ := mem_map.mp among
    obtain ⟨front, back, shape, quietFront, quietBack⟩ := iteration_shape plan r floatInts kernel step
    rw [shape] at here
    rcases mem_append.mp here with before | here
    · exact .inl (quietFront _ before)
    · rcases mem_append.mp here with here | after
      · exact .inr (SegmentPlan.genuine_nodeEntries kernels unaliased silent here)
      · exact .inl (quietBack _ after)

end Stream

theorem mem_recordedEntries (recorded : 0 < r.recordedSteps) {ni : Nat} (mem : ni ∈ plan.nodeIdx) :
    .node ni (plan.commands floatInts kernel r.buffers (plan.node ni)) ∈
      r.recordedEntries plan floatInts kernel := by
  obtain ⟨front, back, shape, -, -⟩ := iteration_shape plan r floatInts kernel 0
  refine mem_intercalate_of_mem (mem_map.mpr ⟨0, mem_range.mpr recorded, rfl⟩) ?_
  rw [shape]
  refine mem_append_right _ (mem_append_left _ (mem_append_left _ ?_))
  exact (SegmentPlan.mem_recordNodes plan floatInts kernel r.buffers plan.nodeIdx {}).2 ni mem

/-! ## The exact condition -/

/-- A copy is held back behind an earlier read, and a read behind an earlier copy. -/
theorem afterRead_of_sound {entries : List Entry} (sound : plan.Sound entries)
    (held : CopiesHeldBack plan entries)
    (copies : ∀ ni cs, .node ni cs ∈ entries → ∀ c ∈ cs, c.stage = .transfer → ∀ x ∈ c.reads,
      plan.isCopy ni = true) (s s' : Stage) :
    Separated (Orders s s') (AfterRead s s') entries := by
  intro before a between b after shape here
  obtain ⟨e, among, barrier⟩ := sound.afterRead s s' before a between b after shape here
  have origin := here
  obtain ⟨c, cIn, d, -, rfl, rfl, x, xIn, -⟩ := here
  cases a with
  | node ni cs =>
    have mem : .node ni cs ∈ entries := by rw [shape]; simp
    cases copy : plan.isCopy ni with
    | true =>
      by_cases wide : IsWide e
      · exact ⟨e, among, .inl wide⟩
      · obtain ⟨front, back, rfl⟩ := append_of_mem among
        obtain ⟨w, earlier, widened⟩ := sound.copies before (.node ni cs) front e
          (back ++ b :: after) (by rw [shape]; simp)
          ⟨ni, cs, rfl, copy, ne_nil_of_mem cIn, barrier, wide⟩
        exact ⟨w, mem_append_left _ earlier, .inl widened⟩
    | false =>
      cases first : c.stage with
      | transfer =>
        rw [copies ni cs mem c cIn first x xIn] at copy
        cases copy
      | compute =>
        cases second : d.stage with
        | compute => exact ⟨e, among, .inr ⟨rfl, rfl, barrier⟩⟩
        | transfer =>
          rw [first, second] at origin
          by_cases wide : IsWide e
          · exact ⟨e, among, .inl wide⟩
          · have narrow : e = .barrier .compute ∨ e = .barrier .execution := by
              rcases barrier with (rfl | rfl | rfl) | rfl
              · exact absurd (.inl rfl) wide
              · exact .inl rfl
              · exact absurd (.inr rfl) wide
              · exact .inr rfl
            obtain ⟨w, between, widened⟩ := held before ni cs between b after shape copy
              origin ⟨e, among, narrow⟩
            exact ⟨w, between, .inl widened⟩
  | _ => cases cIn

/-- A kernel that reads its operands and writes its outputs in one dispatch. -/
def plainKernel : Kernel := fun nd buffers => [dispatch buffers nd]

theorem kernelsBound_plain : KernelsBound plainKernel := by
  intro nd buffers c mem
  obtain rfl := mem_singleton.mp mem
  exact ⟨rfl, fun _ here => .inl here, fun _ here => here⟩

def flatVector (n : Int) : TensorDesc := { shape := [n], gpuFlat := true }

/-- Two halves that are joined in place: the concatenation is elided. -/
def joinPlan : SegmentPlan where
  graph :=
    { tensors := [flatVector 4, flatVector 4, flatVector 4, flatVector 8]
      nodes :=
        [{ type := .relu, inputs := [0], outputs := [1] },
          { type := .relu, inputs := [0], outputs := [2] },
          { type := .concat, inputs := [1, 2], outputs := [3],
            attr := { map := (∅ : Std.ExtTreeMap Str Attr).insert (str "axis") { i := 0 } } }]
      inputs := [0]
      outputs := [3] }
  nodeIdx := [0, 1, 2]
  fullyElided := [2]
  elidesMoves := by decide

def ownBuffer (id bytes : Nat) : DeviceBuffer := ⟨id, id, 0, bytes, .allocation id⟩

/-- The halves are views of the output's buffer; the output is bound to the buffer given. -/
def joinBuffers (output : DeviceBuffer) : Bindings := fun t =>
  if t = 0 then some (ownBuffer 5 16)
  else if t = 1 then some ⟨7, 10, 0, 16, .allocation 10⟩
  else if t = 2 then some ⟨8, 10, 16, 16, .allocation 10⟩
  else if t = 3 then some output
  else none

theorem joinBuffers_cases {output x : DeviceBuffer} {t : TensorId}
    (given : joinBuffers output t = some x) :
    x = ownBuffer 5 16 ∨ x = ⟨7, 10, 0, 16, .allocation 10⟩ ∨ x = ⟨8, 10, 16, 16, .allocation 10⟩ ∨
      x = output := by
  unfold joinBuffers at given
  split_ifs at given
  · exact .inl (some.inj given).symm
  · exact .inr (.inl (some.inj given).symm)
  · exact .inr (.inr (.inl (some.inj given).symm))
  · exact .inr (.inr (.inr (some.inj given).symm))

/-- A cast that copies into the buffer of a tensor that has been read. -/
def lateCopyPlan : SegmentPlan where
  graph :=
    { tensors := List.replicate 6 (flatVector 4)
      nodes :=
        [{ type := .relu, inputs := [0], outputs := [1] },
          { type := .relu, inputs := [1], outputs := [2] },
          { type := .relu, inputs := [2], outputs := [3] },
          { type := .cast, inputs := [4], outputs := [5] }] }
  nodeIdx := [0, 1, 2, 3]
  elidesMoves := by decide

/-- Tensors 1 and 5 share a buffer, one after the other. -/
def lateCopyBuffers : Bindings := fun t =>
  if t < 0 ∨ 5 < t then none else some (ownBuffer (if t = 5 then 1 else t.toNat) 16)

end Recordable

end Vknn.Vulkan
