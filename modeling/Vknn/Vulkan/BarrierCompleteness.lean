import Vknn.Lib.Separation
import Vknn.Vulkan.SegmentRecording

/-!
# Barriers between the nodes of a recording

Two nodes of a recording must not overtake each other where one writes what the other touches.  The
loop that records them keeps what has been written and read since the last barrier, so every such pair
has a barrier between it, or the end of a chunk, as long as the loop sees all that the nodes touch.

It does not see a node that the planner took for one without commands, and which has some after all
because a buffer of its slices has been replaced.  And a barrier of the compute stage ends the
bookkeeping of a read, though it does not hold back a copy that overwrites what was read.
-/

namespace Vknn.Vulkan

open Separation List Bool

/-! ## Pairs that must stay in order -/

/-- The commands of an entry that is a node. -/
def Entry.commands : Entry → List Command
  | .node _ cs => cs
  | _ => []

/-- The second entry touches bytes that the first writes. -/
def AfterWrite (a b : Entry) : Prop :=
  ∃ c ∈ a.commands, ∃ d ∈ b.commands, ∃ x ∈ c.writes, ∃ y, (y ∈ d.reads ∨ y ∈ d.writes) ∧
    x.SharesBytes y

/-- The second entry overwrites bytes that the first reads, in the given stages. -/
def AfterRead (s s' : Stage) (a b : Entry) : Prop :=
  ∃ c ∈ a.commands, ∃ d ∈ b.commands, c.stage = s ∧ d.stage = s' ∧ ∃ x ∈ c.reads, ∃ y ∈ d.writes,
    x.SharesBytes y

/-- A full barrier, or the end of a chunk. -/
def IsFull (e : Entry) : Prop := e = .split ∨ e = .barrier .compute ∨ e = .barrier .transfer

def IsBarrier (e : Entry) : Prop := IsFull e ∨ e = .barrier .execution

/-- A barrier that serves the transfer stage too, or the end of a chunk. -/
def IsWide (e : Entry) : Prop := e = .split ∨ e = .barrier .transfer

/-- A barrier that holds a command of the second stage back behind one of the first. -/
def Orders (s s' : Stage) (e : Entry) : Prop :=
  IsWide e ∨ (s = .compute ∧ s' = .compute ∧ IsBarrier e)

/-- The barriers of a stream are complete: a full barrier behind each write, a barrier of the right
stage behind each read, and no command of a node that the loop leaves out. -/
structure BarriersComplete (plan : SegmentPlan) (entries : List Entry) : Prop where
  afterWrite : Separated IsFull AfterWrite entries
  afterRead : ∀ s s', Separated (Orders s s') (AfterRead s s') entries
  silent : ∀ ni cs, .node ni cs ∈ entries → plan.elided ni = true → cs = []

variable {a b : Entry}

theorem not_afterWrite_left (silent : a.commands = []) : ¬ AfterWrite a b := by
  rintro ⟨c, mem, -⟩
  rw [silent] at mem
  cases mem

theorem not_afterWrite_right (silent : b.commands = []) : ¬ AfterWrite a b := by
  rintro ⟨c, -, d, mem, -⟩
  rw [silent] at mem
  cases mem

theorem not_afterRead_left {s s' : Stage} (silent : a.commands = []) : ¬ AfterRead s s' a b := by
  rintro ⟨c, mem, -⟩
  rw [silent] at mem
  cases mem

theorem not_afterRead_right {s s' : Stage} (silent : b.commands = []) : ¬ AfterRead s s' a b := by
  rintro ⟨c, -, d, mem, -⟩
  rw [silent] at mem
  cases mem

/-! ## What a node touches -/

namespace SegmentPlan

variable (plan : SegmentPlan) (floatInts : Import.FloatInts) {kernel : Kernel} (buffers : Bindings)

variable {nd : Node} {t : Tracking} {x : DeviceBuffer} {s : Slice} {ni : Nat} {e : Entry}
  {xs ys : List Entry}

theorem mem_inputBufs {t : TensorId} (mem : t ∈ nd.inputs)
    (here : x ∈ (bufOf buffers t).toList) : x ∈ inputBufs buffers nd :=
  mem_filterMap.mpr ⟨t, mem_append_left _ mem, Option.mem_toList.mp here⟩

theorem mem_outputBufs {t : TensorId} (mem : t ∈ nd.outputs)
    (here : x ∈ (bufOf buffers t).toList) : x ∈ outputBufs buffers nd :=
  mem_filterMap.mpr ⟨t, mem, Option.mem_toList.mp here⟩

/-- The first of some tensors, if it has a buffer, is one of them. -/
theorem headD_mem {ts : List TensorId}
    (here : x ∈ (bufOf buffers (ts.headD kNoTensor)).toList) : ts.headD kNoTensor ∈ ts := by
  cases ts with
  | nil =>
    have absent : bufOf buffers kNoTensor = none := if_pos rfl
    rw [headD_nil, absent] at here
    cases here
  | cons t ts => exact mem_cons_self

theorem mem_bufOf_of_operandBuf {t : TensorId}
    (here : x ∈ (plan.operandBuf buffers t).toList) : x ∈ (bufOf buffers t).toList := by
  unfold operandBuf at here
  split at here
  · cases here
  · exact here

theorem mem_of_sliceBases {extent : TensorId → Int} {scale : Int} {tensors : List TensorId}
    (mem : s ∈ sliceBases extent scale tensors) : s.tensor ∈ tensors := by
  have all : ∀ (ts : List TensorId) (acc : List Slice × Int), (∀ x ∈ acc.1, x.tensor ∈ tensors) →
      (∀ t ∈ ts, t ∈ tensors) → ∀ x ∈ (ts.foldl (fun (acc : List Slice × Int) t =>
        (acc.1 ++ [⟨t, Cpu.toInt32 (acc.2 * scale)⟩], acc.2 + extent t)) acc).1, x.tensor ∈ tensors := by
    intro ts
    induction ts with
    | nil => exact fun acc known _ => known
    | cons t ts ih =>
      intro acc known within
      refine ih _ ?_ fun u later => within u (mem_cons_of_mem _ later)
      intro x here
      rcases mem_append.mp here with old | new
      · exact known x old
      · obtain rfl := mem_singleton.mp new
        exact within t mem_cons_self
  exact all tensors ([], 0) (fun _ none => nomatch none) (fun _ here => here) s mem

/-- A command reads the node's operands and outputs, and writes its outputs. -/
structure Within (nd : Node) (c : Command) : Prop where
  reads : ∀ x ∈ c.reads, x ∈ inputBufs buffers nd ∨ x ∈ outputBufs buffers nd
  writes : ∀ x ∈ c.writes, x ∈ outputBufs buffers nd

theorem within_dispatch (nd : Node) : Within buffers nd (dispatch buffers nd) :=
  ⟨fun _ here => .inl here, fun _ here => here⟩

theorem within_operands {stage : Stage} {t u : TensorId}
    (read : ∀ x ∈ (plan.operandBuf buffers t).toList, t ∈ nd.inputs)
    (written : ∀ x ∈ (bufOf buffers u).toList, u ∈ nd.outputs) :
    Within buffers nd ⟨stage, (plan.operandBuf buffers t).toList, (bufOf buffers u).toList⟩ where
  reads x here := .inl (mem_inputBufs buffers (read x here) (plan.mem_bufOf_of_operandBuf buffers here))
  writes x here := mem_outputBufs buffers (written x here) here

theorem within_copy :
    Within buffers nd (plan.copy buffers (nd.inputs.headD kNoTensor) (nd.outputs.headD kNoTensor)) :=
  plan.within_operands buffers
    (fun _ here => headD_mem buffers (plan.mem_bufOf_of_operandBuf buffers here))
    fun _ here => headD_mem buffers here

theorem mem_of_concatParts (mem : s ∈ plan.concatParts nd) : s.tensor ∈ nd.inputs := by
  unfold concatParts flatSlices blockSlices at mem
  dsimp only at mem
  split at mem
  · exact mem_of_mem_take (mem_filter.mp (mem_of_sliceBases mem)).1
  · exact mem_of_mem_take (mem_of_sliceBases mem)

theorem mem_of_splitParts (mem : s ∈ plan.splitParts nd) : s.tensor ∈ nd.outputs := by
  unfold splitParts flatSlices blockSlices at mem
  dsimp only at mem
  split at mem <;> exact (mem_filter.mp (mem_of_sliceBases mem)).1

/-- **Every command stays within its node's tensors.** -/
theorem within_commands (bound : KernelsBound kernel) {c : Command}
    (mem : c ∈ plan.commands floatInts kernel buffers nd) : Within buffers nd c := by
  unfold commands at mem
  split at mem
  · obtain ⟨s, part, rfl⟩ := mem_map.mp mem
    split
    · exact within_dispatch buffers nd
    · exact plan.within_operands buffers
        (fun _ _ => plan.mem_of_concatParts (mem_filter.mp part).1)
        fun _ here => headD_mem buffers here
  · obtain ⟨s, part, here⟩ := mem_flatMap.mp mem
    have out := plan.mem_of_splitParts (mem_filter.mp part).1
    have source : ∀ x ∈ (plan.operandBuf buffers (nd.inputs.headD kNoTensor)).toList,
        nd.inputs.headD kNoTensor ∈ nd.inputs := fun _ here =>
      headD_mem buffers (plan.mem_bufOf_of_operandBuf buffers here)
    split at here
    · obtain rfl := mem_singleton.mp here
      exact plan.within_operands buffers source fun _ _ => out
    · obtain ⟨-, rfl⟩ := mem_replicate.mp here
      exact plan.within_operands buffers source fun _ _ => out
  · unfold slice at mem
    dsimp only at mem
    split at mem
    · cases mem
    · obtain rfl := mem_singleton.mp mem
      exact within_dispatch buffers nd
  · unfold transpose at mem
    split at mem
    · cases mem
    · obtain rfl := mem_singleton.mp mem
      exact within_dispatch buffers nd
  iterate 4
    · unfold reshape at mem
      split at mem
      · cases mem
      · obtain rfl := mem_singleton.mp mem
        exact plan.within_copy buffers
  · unfold cast at mem
    split at mem
    · obtain rfl := mem_singleton.mp mem
      exact within_dispatch buffers nd
    · obtain rfl := mem_singleton.mp mem
      exact plan.within_copy buffers
  · unfold pad at mem
    split at mem
    · have fill : c = ⟨.transfer, [], (bufOf buffers (nd.outputs.headD kNoTensor)).toList⟩ := by
        rcases mem_append.mp mem with here | here <;> split at here <;>
          first | exact mem_singleton.mp here | cases here
      subst fill
      exact ⟨fun _ none => (nomatch none), fun _ here =>
        mem_outputBufs buffers (headD_mem buffers here) here⟩
    · obtain rfl := mem_singleton.mp mem
      exact within_dispatch buffers nd
  · obtain ⟨-, reads, writes⟩ := bound nd buffers c mem
    exact ⟨reads, writes⟩

/-- **A command that reads in the transfer stage belongs to a node that counts as a copy.** -/
theorem isCopy_of_transfer (bound : KernelsBound kernel) {c : Command}
    (mem : c ∈ plan.commands floatInts kernel buffers (plan.node ni)) (stage : c.stage = .transfer)
    (reads : x ∈ c.reads) : plan.isCopy ni = true := by
  unfold commands at mem
  unfold isCopy
  dsimp only
  split at mem
  · obtain ⟨s, part, rfl⟩ := mem_map.mp mem
    split at stage <;> cases stage
  · rename_i type
    rw [type]
    obtain ⟨s, part, here⟩ := mem_flatMap.mp mem
    split at here
    · obtain rfl := mem_singleton.mp here
      cases stage
    · rename_i packed
      exact (or_eq_true _ _).mpr (.inr ((not_eq_true' _).mpr
        (eq_false_of_not_eq_true packed)))
  · unfold slice at mem
    dsimp only at mem
    split at mem
    · cases mem
    · obtain rfl := mem_singleton.mp mem
      cases stage
  · unfold transpose at mem
    split at mem
    · cases mem
    · obtain rfl := mem_singleton.mp mem
      cases stage
  iterate 5
    · rename_i type
      rw [type]
  · unfold pad at mem
    split at mem
    · have fill : c.reads = [] := by
        rcases mem_append.mp mem with here | here <;> split at here <;>
          first | exact congrArg Command.reads (mem_singleton.mp here) | cases here
      rw [fill] at reads
      cases reads
    · obtain rfl := mem_singleton.mp mem
      cases stage
  · have computes := (bound _ buffers c mem).1
    rw [stage] at computes
    cases computes

/-! ## The loop -/

theorem hazard_of_shares {s : List DeviceBuffer} {y : DeviceBuffer} (mem : x ∈ s)
    (root : x.backing = y.backing → x.hazardRoot = y.hazardRoot) (shares : x.SharesBytes y) :
    hazard s y = true :=
  any_eq_true.mpr ⟨x, mem, by simp [root shares.1, shares.2]⟩

variable (kernel)

/-- A barrier that the bookkeeping of an earlier copy would widen, but is not wide. -/
def CopyThen (a e : Entry) : Prop :=
  ∃ ni cs, a = .node ni cs ∧ plan.isCopy ni = true ∧ cs ≠ [] ∧ IsBarrier e ∧ ¬ IsWide e

/-- A stream whose nodes are kept apart by barriers of some kind, by wide ones where they copy. -/
structure Sound (entries : List Entry) : Prop where
  afterWrite : Separated IsFull AfterWrite entries
  afterRead : ∀ s s', Separated IsBarrier (AfterRead s s') entries
  copies : Separated IsWide plan.CopyThen entries

/-- What the loop knows of the stream so far. -/
structure Tracked (t : Tracking) : Prop where
  genuine : ∀ ni cs, .node ni cs ∈ t.entries →
    cs = plan.commands floatInts kernel buffers (plan.node ni) ∧ (plan.elided ni = true → cs = [])
  written : ∀ ni cs, Open IsFull t.entries (.node ni cs) → ∀ c ∈ cs, ∀ x ∈ c.writes,
    x ∈ t.writtenBufs
  read : ∀ ni cs, Open IsBarrier t.entries (.node ni cs) → ∀ c ∈ cs, ∀ x ∈ c.reads,
    x ∈ t.readBufs ∨ x ∈ t.writtenBufs
  copied : ∀ ni cs, Open IsWide t.entries (.node ni cs) → plan.isCopy ni = true → cs ≠ [] →
    t.copySinceBarrier = true
  bound : ∀ x, x ∈ t.readBufs ∨ x ∈ t.writtenBufs → ∃ u, buffers u = some x
  sound : plan.Sound t.entries

theorem sound_nil : plan.Sound [] := ⟨separated_nil, fun _ _ => separated_nil, separated_nil⟩

theorem tracked_start : plan.Tracked floatInts kernel buffers {} where
  genuine _ _ none := nomatch none
  written _ _ live := absurd live (not_open_nil _)
  read _ _ live := absurd live (not_open_nil _)
  copied _ _ live := absurd live (not_open_nil _)
  bound _ none := by rcases none with none | none <;> cases none
  sound := plan.sound_nil

variable {plan floatInts kernel buffers}

theorem Sound.quiet {entries : List Entry} (sound : plan.Sound entries)
    (silent : e.commands = [])
    (wide : ∀ a, Open IsWide entries a → ¬ plan.CopyThen a e) : plan.Sound (entries ++ [e]) where
  afterWrite := sound.afterWrite.concat fun _ _ => not_afterWrite_right silent
  afterRead s s' := (sound.afterRead s s').concat fun _ _ => not_afterRead_right silent
  copies := sound.copies.concat wide

/-- The nodes of a stream that has grown by an entry that is no node. -/
theorem Tracked.genuine_concat
    (tracked : plan.Tracked floatInts kernel buffers t)
    (other : ∀ ni cs, e ≠ .node ni cs) {cs : List Command}
    (mem : .node ni cs ∈ t.entries ++ [e]) :
    cs = plan.commands floatInts kernel buffers (plan.node ni) ∧
      (plan.elided ni = true → cs = []) := by
  rcases mem_append.mp mem with old | new
  · exact tracked.genuine ni cs old
  · exact absurd (mem_singleton.mp new).symm (other ni cs)

theorem Tracked.widened
    (tracked : plan.Tracked floatInts kernel buffers t)
    (wide : t.copySinceBarrier = true → IsWide e) (a : Entry) (live : Open IsWide t.entries a) :
    ¬ plan.CopyThen a e := by
  rintro ⟨ni, cs, rfl, copy, touches, -, narrow⟩
  exact narrow (wide (tracked.copied ni cs live copy touches))

/-- After a barrier that ends the bookkeeping of writes and reads nothing is open. -/
theorem Tracked.cleared {t' : Tracking}
    (tracked : plan.Tracked floatInts kernel buffers t)
    (entries : t'.entries = t.entries ++ [e]) (full : IsFull e) (other : ∀ ni cs, e ≠ .node ni cs)
    (silent : e.commands = []) (empty : t'.readBufs = [] ∧ t'.writtenBufs = [])
    (wide : t.copySinceBarrier = true → IsWide e) :
    plan.Tracked floatInts kernel buffers t' where
  genuine ni cs mem := tracked.genuine_concat other (entries ▸ mem)
  written ni cs live := by
    rw [entries] at live
    rcases open_concat_iff.mp live with same | ⟨passes, -⟩
    · exact absurd same.symm (other ni cs)
    · exact absurd full passes
  read ni cs live := by
    rw [entries] at live
    rcases open_concat_iff.mp live with same | ⟨passes, -⟩
    · exact absurd same.symm (other ni cs)
    · exact absurd (.inl full) passes
  copied ni cs live copy touches := by
    rw [entries] at live
    rcases open_concat_iff.mp live with same | ⟨passes, earlier⟩
    · exact absurd same.symm (other ni cs)
    · exact absurd (wide (tracked.copied ni cs earlier copy touches)) passes
  bound x none := by
    rw [empty.1, empty.2] at none
    rcases none with none | none <;> cases none
  sound := entries ▸ tracked.sound.quiet silent (tracked.widened wide)

/-- A barrier of execution alone ends the bookkeeping of reads. -/
theorem Tracked.executed
    (tracked : plan.Tracked floatInts kernel buffers t) {kind : BarrierKind}
    (barrier : IsBarrier (.barrier kind)) (plain : t.copySinceBarrier = false) :
    plan.Tracked floatInts kernel buffers
      { t with entries := t.entries ++ [.barrier kind], readBufs := [] } where
  genuine ni cs mem := tracked.genuine_concat (fun _ _ no => by cases no) mem
  written ni cs live := by
    rcases open_concat_iff.mp live with same | ⟨-, earlier⟩
    · cases same
    · exact tracked.written ni cs earlier
  read ni cs live := by
    rcases open_concat_iff.mp live with same | ⟨passes, -⟩
    · cases same
    · exact absurd barrier passes
  copied ni cs live copy touches := by
    rcases open_concat_iff.mp live with same | ⟨-, earlier⟩
    · cases same
    · exact tracked.copied ni cs earlier copy touches
  bound x here := by
    rcases here with none | here
    · cases none
    · exact tracked.bound x (.inr here)
  sound := tracked.sound.quiet rfl (tracked.widened fun since => by rw [plain] at since; cases since)

/-- What the loop has found out when it leaves out a barrier, or part of one. -/
theorem need_spec (seen : plan.elided ni = false) : plan.need buffers t ni = .full ∨
      ((∀ y, y ∈ inputBufs buffers (plan.node ni) ∨ y ∈ outputBufs buffers (plan.node ni) →
          hazard t.writtenBufs y = false) ∧
        (plan.need buffers t ni = .execution ∧ t.copySinceBarrier = false ∧ plan.isCopy ni = false ∨
        plan.need buffers t ni = .nothing ∧
          ∀ y ∈ outputBufs buffers (plan.node ni), hazard t.readBufs y = false)) := by
  by_cases profiled : plan.profile = true
  · exact .inl (by simp [need, seen, profiled])
  by_cases read : (inputBufs buffers (plan.node ni)).any (hazard t.writtenBufs) = true
  · exact .inl (by simp [need, seen, profiled, read])
  by_cases overwrites : (outputBufs buffers (plan.node ni)).any (hazard t.writtenBufs) = true
  · exact .inl (by simp [need, seen, profiled, read, overwrites])
  have clear : ∀ y, y ∈ inputBufs buffers (plan.node ni) ∨ y ∈ outputBufs buffers (plan.node ni) →
      hazard t.writtenBufs y = false := by
    rintro y (here | here)
    · exact eq_false_of_not_eq_true fun meets => read (any_eq_true.mpr ⟨y, here, meets⟩)
    · exact eq_false_of_not_eq_true fun meets => overwrites (any_eq_true.mpr ⟨y, here, meets⟩)
  by_cases later : (outputBufs buffers (plan.node ni)).any (hazard t.readBufs) = true
  · by_cases copy : (t.copySinceBarrier || plan.isCopy ni) = true
    · exact .inl (by simp [need, seen, profiled, read, overwrites, later, copy])
    · refine .inr ⟨clear, .inl ⟨by simp [need, seen, profiled, read, overwrites, later, copy], ?_⟩⟩
      exact or_eq_false_iff.mp (eq_false_of_not_eq_true copy)
  · refine .inr ⟨clear, .inr ⟨by simp [need, seen, profiled, read, overwrites, later], fun y here => ?_⟩⟩
    exact eq_false_of_not_eq_true fun meets => later (any_eq_true.mpr ⟨y, here, meets⟩)

/-- **Behind the barrier of a node nothing is open that the node must not overtake.** -/
theorem Tracked.withBarrier
    (tracked : plan.Tracked floatInts kernel buffers t) (ni : Nat) :
    plan.Tracked floatInts kernel buffers (plan.withBarrier buffers t ni) ∧
      (plan.elided ni = false →
        (∀ y, y ∈ inputBufs buffers (plan.node ni) ∨ y ∈ outputBufs buffers (plan.node ni) →
          hazard (plan.withBarrier buffers t ni).writtenBufs y = false) ∧
        ∀ y ∈ outputBufs buffers (plan.node ni),
          hazard (plan.withBarrier buffers t ni).readBufs y = false) := by
  have nothingMeets : ∀ y, hazard [] y = false := fun _ => rfl
  cases seen : plan.elided ni with
  | true =>
    have none : plan.need buffers t ni = .nothing := by simp [need, seen]
    unfold SegmentPlan.withBarrier
    rw [none]
    exact ⟨tracked, fun no => nomatch no⟩
  | false =>
    unfold SegmentPlan.withBarrier
    rcases need_spec seen with full | ⟨clear, ⟨execution, plain, -⟩ | ⟨none, free⟩⟩
    · rw [full]
      refine ⟨tracked.cleared rfl ?_ (fun _ _ no => nomatch no) rfl ⟨rfl, rfl⟩ fun since => ?_,
        fun _ => ⟨fun y _ => nothingMeets y, fun y _ => nothingMeets y⟩⟩
      · split
        · exact .inr (.inr rfl)
        · exact .inr (.inl rfl)
      · rw [since]
        exact .inr rfl
    · rw [execution]
      refine ⟨tracked.executed ?_ plain, fun _ => ⟨clear, fun y _ => nothingMeets y⟩⟩
      split
      · exact .inr rfl
      · exact .inl (.inr (.inl rfl))
    · rw [none]
      exact ⟨tracked, fun _ => ⟨clear, free⟩⟩

theorem bound_inputBufs
    (here : x ∈ inputBufs buffers nd ∨ x ∈ outputBufs buffers nd) : ∃ u, buffers u = some x := by
  have found : ∀ {u}, bufOf buffers u = some x → ∃ u, buffers u = some x := by
    intro u given
    unfold bufOf at given
    split at given
    · cases given
    · exact ⟨u, given⟩
  rcases here with here | here
  · obtain ⟨u, -, given⟩ := mem_filterMap.mp here
    exact found given
  · obtain ⟨u, -, given⟩ := mem_filterMap.mp here
    exact found given

/-- **A node behind its barrier keeps the stream separated.** -/
theorem Tracked.withNode (kernels : KernelsBound kernel) (unaliased : Unaliased buffers)
    (tracked : plan.Tracked floatInts kernel buffers t)
    (silent : plan.elided ni = true → plan.commands floatInts kernel buffers (plan.node ni) = [])
    (clear : plan.elided ni = false →
      (∀ y, y ∈ inputBufs buffers (plan.node ni) ∨ y ∈ outputBufs buffers (plan.node ni) →
        hazard t.writtenBufs y = false) ∧
      ∀ y ∈ outputBufs buffers (plan.node ni), hazard t.readBufs y = false) :
    plan.Tracked floatInts kernel buffers
      (plan.withNode floatInts kernel buffers t ni) := by
  have passes : ∀ cs, ¬ IsBarrier (.node ni cs) := by rintro cs ((no | no | no) | no) <;> cases no
  have root : ∀ {x y : DeviceBuffer}, x ∈ t.readBufs ∨ x ∈ t.writtenBufs →
      (y ∈ inputBufs buffers (plan.node ni) ∨ y ∈ outputBufs buffers (plan.node ni)) →
      x.backing = y.backing → x.hazardRoot = y.hazardRoot := by
    intro x y left right same
    obtain ⟨u, here⟩ := tracked.bound x left
    obtain ⟨v, there⟩ := bound_inputBufs right
    exact unaliased u v x y here there same
  have within : ∀ c ∈ plan.commands floatInts kernel buffers (plan.node ni),
      plan.elided ni = false ∧ Within buffers (plan.node ni) c := by
    intro c mem
    refine ⟨eq_false_of_not_eq_true fun skipped => ?_,
      plan.within_commands floatInts buffers kernels mem⟩
    rw [silent skipped] at mem
    cases mem
  obtain ⟨entries, shape⟩ : ∃ entries, entries =
      t.entries ++ [.node ni (plan.commands floatInts kernel buffers (plan.node ni))] := ⟨_, rfl⟩
  have afterWrite : Separated IsFull AfterWrite entries := by
    rw [shape]
    refine tracked.sound.afterWrite.concat ?_
    rintro a live ⟨c, cIn, d, dIn, x, xIn, y, yIn, shares⟩
    cases a with
    | node ni' cs =>
      obtain ⟨seen, inside⟩ := within d dIn
      have held := tracked.written ni' cs live c cIn x xIn
      have touched := yIn.elim (inside.reads y) fun written => .inr (inside.writes y written)
      have meets := hazard_of_shares held (root (.inr held) touched) shares
      rw [(clear seen).1 y touched] at meets
      cases meets
    | _ => cases cIn
  have afterRead : ∀ s s', Separated IsBarrier (AfterRead s s') entries := by
    intro s s'
    rw [shape]
    refine (tracked.sound.afterRead s s').concat ?_
    rintro a live ⟨c, cIn, d, dIn, -, -, x, xIn, y, yIn, shares⟩
    cases a with
    | node ni' cs =>
      obtain ⟨seen, inside⟩ := within d dIn
      have touched := inside.writes y yIn
      rcases tracked.read ni' cs live c cIn x xIn with held | held
      · have meets := hazard_of_shares held (root (.inl held) (.inr touched)) shares
        rw [(clear seen).2 y touched] at meets
        cases meets
      · have meets := hazard_of_shares held (root (.inr held) (.inr touched)) shares
        rw [(clear seen).1 y (.inr touched)] at meets
        cases meets
    | _ => cases cIn
  have sound : plan.Sound entries := by
    refine ⟨afterWrite, afterRead, ?_⟩
    rw [shape]
    refine tracked.sound.copies.concat ?_
    rintro a - ⟨nj, cs, -, -, -, barrier, -⟩
    exact passes _ barrier
  have genuine : ∀ nj cs, .node nj cs ∈ entries →
      cs = plan.commands floatInts kernel buffers (plan.node nj) ∧
        (plan.elided nj = true → cs = []) := by
    intro nj cs mem
    rw [shape] at mem
    rcases mem_append.mp mem with old | new
    · exact tracked.genuine nj cs old
    · obtain ⟨rfl, rfl⟩ := Entry.node.inj (mem_singleton.mp new)
      exact ⟨rfl, silent⟩
  unfold SegmentPlan.withNode
  cases seen : plan.elided ni with
  | true =>
    have nothing := silent seen
    rw [nothing] at shape
    rw [if_pos rfl, nothing, ← shape]
    have earlier : ∀ {sep : Entry → Prop} {nj cs} {c : Command}, Open sep entries (.node nj cs) →
        c ∈ cs → Open sep t.entries (.node nj cs) := by
      intro sep nj cs c live mem
      rw [shape] at live
      rcases open_concat_iff.mp live with same | ⟨-, old⟩
      · obtain ⟨rfl, rfl⟩ := Entry.node.inj same
        cases mem
      · exact old
    refine ⟨genuine, ?_, ?_, ?_, tracked.bound, sound⟩
    · exact fun nj cs live c mem => tracked.written nj cs (earlier live mem) c mem
    · exact fun nj cs live c mem => tracked.read nj cs (earlier live mem) c mem
    · intro nj cs live copy touches
      obtain ⟨c, mem⟩ := exists_mem_of_ne_nil cs touches
      exact tracked.copied nj cs (earlier live mem) copy touches
  | false =>
    rw [if_neg (by simp), ← shape]
    refine ⟨genuine, ?_, ?_, ?_, ?_, sound⟩
    · intro nj cs live c mem x written
      rw [shape] at live
      rcases open_concat_iff.mp live with same | ⟨-, earlier⟩
      · obtain ⟨rfl, rfl⟩ := Entry.node.inj same
        exact mem_append_left _ ((within c mem).2.writes x written)
      · exact mem_append_right _ (tracked.written nj cs earlier c mem x written)
    · intro nj cs live c mem x read
      rw [shape] at live
      rcases open_concat_iff.mp live with same | ⟨-, earlier⟩
      · obtain ⟨rfl, rfl⟩ := Entry.node.inj same
        exact ((within c mem).2.reads x read).imp (mem_append_left _)
          (mem_append_left _)
      · exact (tracked.read nj cs earlier c mem x read).imp (mem_append_right _)
          (mem_append_right _)
    · intro nj cs live copy touches
      rw [shape] at live
      rcases open_concat_iff.mp live with same | ⟨-, earlier⟩
      · obtain ⟨rfl, rfl⟩ := Entry.node.inj same
        simp [copy]
      · simp [tracked.copied nj cs earlier copy touches]
    · rintro x (here | here)
      · rcases mem_append.mp here with new | old
        · exact bound_inputBufs (.inl new)
        · exact tracked.bound x (.inl old)
      · rcases mem_append.mp here with new | old
        · exact bound_inputBufs (.inr new)
        · exact tracked.bound x (.inr old)

theorem Tracked.withSplit
    (tracked : plan.Tracked floatInts kernel buffers t) (ni : Nat) (more : Bool) :
    plan.Tracked floatInts kernel buffers (plan.withSplit t ni more) := by
  unfold SegmentPlan.withSplit
  dsimp only
  split
  · exact tracked.cleared rfl (.inl rfl) (fun _ _ no => nomatch no) rfl ⟨rfl, rfl⟩
      fun _ => .inl rfl
  · exact ⟨tracked.genuine, tracked.written, tracked.read, tracked.copied, tracked.bound,
      tracked.sound⟩

/-- **The loop keeps the stream separated**, by induction over the nodes. -/
theorem Tracked.recordNodes (kernels : KernelsBound kernel) (unaliased : Unaliased buffers)
    {nodes : List Nat}
    (tracked : plan.Tracked floatInts kernel buffers t)
    (silent : ∀ ni ∈ nodes, plan.elided ni = true →
      plan.commands floatInts kernel buffers (plan.node ni) = []) :
    plan.Tracked floatInts kernel buffers
      (plan.recordNodes floatInts kernel buffers t nodes) := by
  induction nodes generalizing t with
  | nil => exact tracked
  | cons ni rest ih =>
    obtain ⟨behind, clear⟩ := tracked.withBarrier ni
    have recorded := behind.withNode kernels unaliased (silent ni mem_cons_self) clear
    exact ih (recorded.withSplit ni _) fun nj later => silent nj (mem_cons_of_mem _ later)

/-! ## One iteration -/

def Closed (plan : SegmentPlan) (entries : List Entry) : Prop :=
  ∀ a, Open IsWide entries a → ∀ e, ¬ plan.CopyThen a e

def Silent (entries : List Entry) : Prop := ∀ e ∈ entries, e.commands = []

theorem not_copyThen_of_silent {a : Entry} (silent : a.commands = []) : ¬ plan.CopyThen a e := by
  rintro ⟨ni, cs, rfl, -, touches, -⟩
  exact touches silent

theorem Silent.sound {entries : List Entry} (silent : Silent entries) : plan.Sound entries where
  afterWrite before x between y after shape here :=
    absurd here (not_afterWrite_left (silent x (by rw [shape]; simp)))
  afterRead s s' before x between y after shape here :=
    absurd here (not_afterRead_left (silent x (by rw [shape]; simp)))
  copies before x between y after shape here :=
    absurd here (not_copyThen_of_silent (silent x (by rw [shape]; simp)))

theorem Silent.append (left : Silent xs) (right : Silent ys) : Silent (xs ++ ys) :=
  fun e mem => (mem_append.mp mem).elim (left e) (right e)

/-- A stream stays sound behind entries that touch nothing. -/
theorem Silent.before (silent : Silent xs) (sound : plan.Sound ys) : plan.Sound (xs ++ ys) := by
  have quiet : plan.Sound xs := silent.sound
  refine ⟨quiet.afterWrite.append sound.afterWrite ?_,
    fun s s' => (quiet.afterRead s s').append (sound.afterRead s s') ?_,
    quiet.copies.append sound.copies ?_⟩
  · exact fun x live _ _ => not_afterWrite_left (silent x live.mem)
  · exact fun x live _ _ => not_afterRead_left (silent x live.mem)
  · exact fun x live _ _ => not_copyThen_of_silent (silent x live.mem)

/-- A stream behind which no copy is open stays sound before entries that touch nothing. -/
theorem Silent.after (silent : Silent ys) (sound : plan.Sound xs)
    (closed : plan.Closed xs) : plan.Sound (xs ++ ys) := by
  have quiet : plan.Sound ys := silent.sound
  refine ⟨sound.afterWrite.append quiet.afterWrite ?_,
    fun s s' => (sound.afterRead s s').append (quiet.afterRead s s') ?_,
    sound.copies.append quiet.copies ?_⟩
  · exact fun _ _ y mem => not_afterWrite_right (silent y mem)
  · exact fun _ _ y mem => not_afterRead_right (silent y mem)
  · exact fun x live y _ => closed x live y

section Iteration

variable (kernels : KernelsBound kernel) (unaliased : Unaliased buffers)
  (silent : ∀ ni ∈ plan.nodeIdx, plan.elided ni = true →
    plan.commands floatInts kernel buffers (plan.node ni) = [])

include kernels unaliased silent

theorem tracked_recordNodes : plan.Tracked floatInts kernel buffers
    (plan.recordNodes floatInts kernel buffers {} plan.nodeIdx) :=
  (plan.tracked_start floatInts kernel buffers).recordNodes kernels unaliased silent

/-- **The nodes of an iteration are kept apart**, and no copy is open behind them. -/
theorem sound_nodeEntries : plan.Sound (plan.nodeEntries floatInts kernel buffers) ∧
    plan.Closed (plan.nodeEntries floatInts kernel buffers) := by
  have tracked := tracked_recordNodes kernels unaliased silent
  unfold nodeEntries
  dsimp only
  refine ⟨tracked.sound.quiet rfl (tracked.widened fun since => ?_), fun a live e copies => ?_⟩
  · rw [since]
    exact .inr rfl
  · obtain ⟨ni, cs, rfl, copy, touches, -⟩ := copies
    rcases open_concat_iff.mp live with same | ⟨narrow, earlier⟩
    · cases same
    · have since := tracked.copied ni cs earlier copy touches
      rw [since] at narrow
      exact narrow (.inr rfl)

theorem genuine_nodeEntries {ni : Nat} {cs : List Command}
    (mem : .node ni cs ∈ plan.nodeEntries floatInts kernel buffers) :
    cs = plan.commands floatInts kernel buffers (plan.node ni) ∧
      (plan.elided ni = true → cs = []) := by
  rcases mem_append.mp mem with old | new
  · exact (tracked_recordNodes kernels unaliased silent).genuine ni cs old
  · cases mem_singleton.mp new

end Iteration

variable (plan floatInts kernel buffers)

theorem entries_recordNode (t : Tracking) (ni : Nat) (more : Bool) :
    ∃ before after, (plan.recordNode floatInts kernel buffers t ni more).entries =
      before ++ .node ni (plan.commands floatInts kernel buffers (plan.node ni)) :: after ∧
      ∀ e ∈ t.entries, e ∈ before := by
  have behind : ∀ e ∈ t.entries, e ∈ (plan.withBarrier buffers t ni).entries := by
    intro e mem
    unfold SegmentPlan.withBarrier
    split
    · exact mem_append_left _ mem
    · exact mem_append_left _ mem
    · exact mem
  have noted : (plan.withNode floatInts kernel buffers (plan.withBarrier buffers t ni) ni).entries =
      (plan.withBarrier buffers t ni).entries ++
        [.node ni (plan.commands floatInts kernel buffers (plan.node ni))] := by
    unfold SegmentPlan.withNode
    dsimp only
    split <;> rfl
  unfold recordNode SegmentPlan.withSplit
  dsimp only
  split
  · exact ⟨_, [.split], by rw [noted, append_assoc]; rfl, behind⟩
  · exact ⟨_, [], noted, behind⟩

/-- **The loop records every node.** -/
theorem mem_recordNodes (nodes : List Nat) (t : Tracking) :
    (∀ e ∈ t.entries, e ∈ (plan.recordNodes floatInts kernel buffers t nodes).entries) ∧
      ∀ ni ∈ nodes, .node ni (plan.commands floatInts kernel buffers (plan.node ni)) ∈
        (plan.recordNodes floatInts kernel buffers t nodes).entries := by
  induction nodes generalizing t with
  | nil => exact ⟨fun _ mem => mem, fun _ none => nomatch none⟩
  | cons ni rest ih =>
    obtain ⟨before, after, shape, kept⟩ :=
      entries_recordNode plan floatInts kernel buffers t ni !rest.isEmpty
    obtain ⟨later, all⟩ := ih (plan.recordNode floatInts kernel buffers t ni !rest.isEmpty)
    refine ⟨fun e mem => later e ?_, fun nj mem => ?_⟩
    · rw [shape]
      exact mem_append_left _ (kept e mem)
    · rcases mem_cons.mp mem with rfl | among
      · exact later _ (by rw [shape]; simp)
      · exact all nj among

end SegmentPlan

end Vknn.Vulkan
