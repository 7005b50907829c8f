import Vknn.Vulkan.SegmentRun

/-!
# A submitted recording is never stale

A recording encodes the buffers, conversions, links, reductions and the chain that a segment has when
it is made.  As long as no flag says that one of them has changed, the recording is that of the
present state; a run that finds a flag set records anew, and the flag stays set until a recording has
been completed, wherever the run fails.

Two kinds of failure break this.  A chain of several iterations refuses a converted output only while
it records, after bindings have changed.  And a call whose allocation fails has already changed what
the recording should encode, but has not set its flag.
-/

namespace Vknn.Vulkan.SegmentState

open List Function Std Option

variable (plan : SegmentPlan) (floatInts : Import.FloatInts) (kernel : Kernel)

/-! ## What should be submitted -/

/-- The chunks of the active iterations, recorded against the present state. -/
def activeChunks (s : SegmentState) : List Chunk :=
  (List.range s.chainActiveSteps.toNat).flatMap (s.iterationChunks plan floatInts kernel)

/-- An ending keeps to the rules: a refused run leaves the bindings, and what is submitted is the
chunks of the active iterations, or the first of them where the run fails. -/
def EndsCurrent (s s' : SegmentState) : Ending → Prop
  | .refused => s'.buffers = s.buffers
  | .done chunks => chunks = s'.activeChunks plan floatInts kernel
  | .failed chunks => chunks <+: s'.activeChunks plan floatInts kernel
  | .returned _ => True

def StepCurrent (s : SegmentState) (call : SegmentCall) : Prop :=
  EndsCurrent plan floatInts kernel s (s.step plan floatInts kernel call).1
    (s.step plan floatInts kernel call).2

/-! ## What is excluded -/

/-- Whether a held import serves, or a new one succeeds. -/
def Importable (rt : TensorId → BoundTensor) (w : RunWorld) (s : SegmentState) (tid : TensorId) :
    Prop :=
  importStale w (boundDmaBufFd plan rt tid)
      (declaredBytes plan rt (rt tid).dmaBufFormat (rt tid).dmaBufDtype tid) (s.imported tid) = true →
    w.imports tid = .imported

/-- A run gets a file for a tensor that the device must convert. -/
structure Converts (rt : TensorId → BoundTensor) (w : RunWorld) (s : SegmentState) (tid : TensorId) :
    Prop where
  bound : (s.buffers tid).isSome = true
  declared : 0 ≤ boundDmaBufFd plan rt tid
  differs : direct plan rt tid = false
  holds : 0 < declaredBytes plan rt (rt tid).dmaBufFormat (rt tid).dmaBufDtype tid
  importable : Importable plan rt w s tid

/-- Whether a link call asks for a larger ranges buffer. -/
def growsLink (s : SegmentState) (src dst : TensorId) (rangeSets : List (List LinkRange)) : Prop :=
  ∃ i link, s.findLink src dst = some i ∧ s.residentLinks[i]? = some link ∧
    growsRanges plan link rangeSets = true

/-- The steps that keep the recording in step: no output is converted while a chain of several
iterations is configured, and no allocation fails for a larger ranges buffer, a new reduction or a
first chain. -/
def Permitted (s : SegmentState) : SegmentCall → Prop
  | .run rt w => ¬ (1 < s.recordedSteps ∧ ∃ tid ∈ plan.boundaryOutputs, Converts plan rt w s tid)
  | .setResidentLinkRangeSets src dst rangeSets allocFails =>
    ¬ (allocFails = true ∧ growsLink plan s src dst rangeSets)
  | .setOutputArgMax output allocFails =>
    ¬ (allocFails = true ∧ registersArgMax plan s output = true)
  | .configureDecodeChain chain steps allocFails =>
    ¬ (allocFails = true ∧ chainRefusal plan s chain steps = none ∧ s.chainStateBuf = none)
  | _ => True

/-! ## The invariant -/

/-- The recording is that of the state's buffers, links, reductions and chain, and of the conversions
that it was made with. -/
structure Encodes (s : SegmentState) : Prop where
  chunks : s.cmds = Recordable.recordedChunks plan
    { s.toRecordable with convert := s.recordedConvert } floatInts kernel
  positions : s.iterationFirstChunk = (List.range s.recordedSteps).map
    (Recordable.firstChunk plan { s.toRecordable with convert := s.recordedConvert } floatInts kernel)

/-- No flag is set. -/
structure Settled (s : SegmentState) : Prop where
  recording : s.recordingStale = false
  links : s.linksChanged = false
  argMax : s.argMaxChanged = false
  chain : s.chainChanged = false

/-- **The invariant**: where no flag is set the recording encodes the state. -/
structure Fresh (s : SegmentState) : Prop where
  encodes : Settled s → Encodes plan floatInts kernel s
  active : 1 ≤ s.chainActiveSteps
  within : s.chainActiveSteps ≤ s.recordedSteps

variable {plan floatInts kernel}

theorem fresh_start (buffers : Bindings) (nextHandle : Nat) :
    Fresh plan floatInts kernel (start buffers nextHandle) where
  encodes settled := by cases settled.recording
  active := le_rfl
  within := le_rfl

theorem take_flatMap_range {α : Type} (f : Nat → List α) {k n : Nat} (le : k ≤ n) :
    ((List.range n).flatMap f).take ((List.range k).flatMap f).length = (List.range k).flatMap f := by
  obtain ⟨m, rfl⟩ := Nat.exists_eq_add_of_le le
  rw [range_add, flatMap_append, take_left]

variable {s s' : SegmentState} {t : TensorId} {allocFails : Bool}

/-- **The chunks of the active iterations are the first of the recording.** -/
theorem take_chunksForActiveSteps (encodes : Encodes plan floatInts kernel s)
    (same : s.convert = s.recordedConvert) (active : 1 ≤ s.chainActiveSteps)
    (within : s.chainActiveSteps ≤ s.recordedSteps) :
    s.cmds.take s.chunksForActiveSteps = s.activeChunks plan floatInts kernel := by
  obtain ⟨chunks, positions⟩ := encodes
  rw [← same] at chunks positions
  have steps : s.chainActiveSteps.toNat ≤ s.recordedSteps := by omega
  unfold chunksForActiveSteps activeChunks
  split
  · rename_i whole
    have full : s.recordedSteps = s.chainActiveSteps.toNat := by
      rcases whole with high | short
      · omega
      · rw [positions, length_map, length_range] at short
        exact absurd short (lt_irrefl _)
    rw [take_length, chunks, ← full]
    rfl
  · rename_i part
    have lower : s.chainActiveSteps.toNat < s.recordedSteps := by
      by_contra high
      exact part (.inl (by omega))
    rw [positions, getD_eq_getElem?_getD, getElem?_map, getElem?_range lower, chunks]
    exact take_flatMap_range _ steps

/-- What a run submits from a recording of its state. -/
theorem submit_current (encodes : Encodes plan floatInts kernel s)
    (same : s.convert = s.recordedConvert) (active : 1 ≤ s.chainActiveSteps)
    (within : s.chainActiveSteps ≤ s.recordedSteps) (w : RunWorld) :
    (∃ chunks, s.submit w = .failed chunks ∧ chunks <+: s.activeChunks plan floatInts kernel) ∨
      s.submit w = .done (s.activeChunks plan floatInts kernel) := by
  have taken := take_chunksForActiveSteps encodes same active within
  unfold submit
  dsimp only
  rw [taken]
  split
  · exact .inl ⟨[], rfl, nil_prefix⟩
  · split
    · exact .inl ⟨_, rfl, take_prefix _ _⟩
    · exact .inr rfl

/-! ## The phases of a run -/

theorem sameConvert_eq {a b : ExtTreeMap TensorId ConvertBinding} (same : sameConvert a b = true) :
    a = b := by
  unfold sameConvert at same
  obtain ⟨size, within⟩ := Bool.and_eq_true_iff.mp same
  exact Entries.eq_of_entries (of_decide_eq_true size) fun e mem =>
    of_decide_eq_true (all_eq_true.mp within e mem)

variable {rt : TensorId → BoundTensor} {w : RunWorld}

/-- What binding and staging do to a state: the recording and what it encodes beside the bindings
stay; where a binding changes the flag is set; and conversions of outputs come from files that are
declared for outputs. -/
structure Rebound (plan : SegmentPlan) (rt : TensorId → BoundTensor) (w : RunWorld)
    (s s' : SegmentState) : Prop where
  shape : ∃ buffers orig imported staging convert next stale, s' = { s with
    buffers := buffers
    origBoundary := orig
    imported := imported
    stagingIn := staging
    convert := convert
    nextHandle := next
    recordingStale := stale }
  calm : s'.recordingStale = false → s.recordingStale = false ∧ s'.buffers = s.buffers
  held : ∀ t, (s'.buffers t).isSome = true → (s.buffers t).isSome = true
  imports : ∀ t, Importable plan rt w s' t → Importable plan rt w s t
  outputs : ∀ (t : TensorId) (b : ConvertBinding), s'.convert[t]? = some b → b.isInput = false →
    s.convert[t]? = some b ∨ (t ∈ plan.boundaryOutputs ∧ Converts plan rt w s t)

theorem Rebound.refl (s : SegmentState) : Rebound plan rt w s s where
  shape := ⟨_, _, _, _, _, _, _, rfl⟩
  calm stale := ⟨stale, rfl⟩
  held _ here := here
  imports _ here := here
  outputs _ _ here _ := .inl here

theorem Converts.of_rebound (bound : Rebound plan rt w s s')
    (converts : Converts plan rt w s' t) : Converts plan rt w s t where
  bound := bound.held t converts.bound
  declared := converts.declared
  differs := converts.differs
  holds := converts.holds
  importable := bound.imports t converts.importable

theorem Rebound.trans {s'' : SegmentState} (first : Rebound plan rt w s s')
    (second : Rebound plan rt w s' s'') : Rebound plan rt w s s'' where
  shape := by
    obtain ⟨_, _, _, _, _, _, _, rfl⟩ := first.shape
    obtain ⟨_, _, _, _, _, _, _, rfl⟩ := second.shape
    exact ⟨_, _, _, _, _, _, _, rfl⟩
  calm stale := by
    obtain ⟨before, same⟩ := second.calm stale
    obtain ⟨earlier, same'⟩ := first.calm before
    exact ⟨earlier, same.trans same'⟩
  held t here := first.held t (second.held t here)
  imports t here := first.imports t (second.imports t here)
  outputs t b here output := by
    rcases second.outputs t b here output with before | ⟨among, converts⟩
    · exact first.outputs t b before output
    · exact .inr ⟨among, converts.of_rebound first⟩

theorem rebound_bindBuffer (s : SegmentState) (here : (s.buffers t).isSome = true)
    (want : Option DeviceBuffer) : Rebound plan rt w s (s.bindBuffer t want) := by
  unfold bindBuffer
  split
  · exact .refl s
  · refine ⟨⟨_, _, _, _, _, _, _, rfl⟩, fun no => (nomatch no), fun u there => ?_, fun _ kept => kept,
      fun _ _ kept _ => .inl kept⟩
    by_cases same : u = t
    · exact same ▸ here
    · dsimp only at there
      rwa [update_of_ne same] at there

theorem rebound_snapshot (s : SegmentState) (t : TensorId) : Rebound plan rt w s (s.snapshot t) := by
  unfold snapshot
  split
  · exact .refl s
  · exact ⟨⟨_, _, _, _, _, _, _, rfl⟩, fun stale => ⟨stale, rfl⟩, fun _ there => there,
      fun _ kept => kept, fun _ _ kept _ => .inl kept⟩

variable {needB : Nat} {chain : DecodeChain} {steps : Int}

/-- A refreshed import serves only where one could be had before; the import that there is then can be
had again. -/
theorem rebound_refreshImport
    (refreshed : s.refreshImport w t (boundDmaBufFd plan rt t) needB = some s') :
    Rebound plan rt w s s' ∧ ((s'.imported t).buf.isSome = true →
      needB = declaredBytes plan rt (rt t).dmaBufFormat (rt t).dmaBufDtype t →
        Importable plan rt w s' t) := by
  unfold refreshImport at refreshed
  split at refreshed
  · split at refreshed
    · cases refreshed
    · rename_i ends
      obtain rfl := some.inj refreshed
      refine ⟨⟨⟨_, _, _, _, _, _, _, rfl⟩, fun stale => ⟨stale, rfl⟩, fun _ there => there,
        fun u kept => ?_, fun _ _ kept _ => .inl kept⟩, fun none => ?_⟩
      · by_cases same : u = t
        · subst same
          have imported := kept (by simp [importStale, update_self])
          rw [ends] at imported
          cases imported
        · intro stale
          refine kept ?_
          dsimp only
          rwa [update_of_ne same]
      · dsimp only at none
        rw [update_self] at none
        cases none
    · rename_i ends
      obtain rfl := some.inj refreshed
      refine ⟨⟨⟨_, _, _, _, _, _, _, rfl⟩, fun stale => ⟨stale, rfl⟩, fun _ there => there,
        fun u kept => ?_, fun _ _ kept _ => .inl kept⟩, fun _ _ _ => ends⟩
      by_cases same : u = t
      · exact fun _ => same ▸ ends
      · intro stale
        refine kept ?_
        dsimp only
        rwa [update_of_ne same]
  · rename_i serves
    obtain rfl := some.inj refreshed
    exact ⟨.refl s, fun _ size stale => absurd (size ▸ stale) serves⟩

/-- A new conversion, of an input or of an output whose file is declared for it. -/
theorem rebound_convert (s : SegmentState) (t : TensorId) (b : ConvertBinding)
    (output : b.isInput = false → t ∈ plan.boundaryOutputs ∧ Converts plan rt w s t) :
    Rebound plan rt w s { s with convert := s.convert.insert t b } := by
  refine ⟨⟨_, _, _, _, _, _, _, rfl⟩, fun stale => ⟨stale, rfl⟩, fun _ there => there,
    fun _ kept => kept, fun u b' there isOutput => ?_⟩
  rw [ExtTreeMap.getElem?_insert] at there
  split at there
  · rename_i same
    obtain rfl := LawfulEqCmp.compare_eq_iff_eq.mp same
    obtain rfl := some.inj there
    exact .inr (output isOutput)
  · exact .inl there

theorem mem_boundary_output (mem : (t, false) ∈ boundary plan) : t ∈ plan.boundaryOutputs := by
  rcases mem_append.mp mem with here | here
  · obtain ⟨_, _, no⟩ := mem_map.mp here
    cases no
  · obtain ⟨u, among, same⟩ := mem_map.mp here
    obtain rfl : u = t := congrArg Prod.fst same
    exact among

theorem buffers_snapshot (s : SegmentState) (t : TensorId) : (s.snapshot t).buffers = s.buffers := by
  unfold snapshot
  split <;> rfl

theorem buffers_refreshImport {fd : Int}
    (refreshed : s.refreshImport w t fd needB = some s') : s'.buffers = s.buffers := by
  unfold refreshImport at refreshed
  split at refreshed
  · split at refreshed
    · cases refreshed
    · exact some.inj refreshed ▸ rfl
    · exact some.inj refreshed ▸ rfl
  · exact some.inj refreshed ▸ rfl

/-- **Rebinding one tensor.** -/
theorem rebound_rebind (s : SegmentState) {isInput : Bool}
    (mem : (t, isInput) ∈ boundary plan) :
    Rebound plan rt w s (rebind plan rt w s t isInput).1 := by
  unfold rebind
  split
  · exact .refl s
  · rename_i there
    have here : ((s.snapshot t).buffers t).isSome = true := by
      rw [buffers_snapshot]
      cases held : s.buffers t with
      | none => exact absurd (by rw [held]; rfl) there
      | some x => rfl
    have first : Rebound plan rt w s (s.snapshot t) := rebound_snapshot s t
    dsimp only
    split
    · rename_i given
      split
      · exact first
      · rename_i s' refreshed
        obtain ⟨second, importable⟩ := rebound_refreshImport refreshed
        have here' : (s'.buffers t).isSome = true := buffers_refreshImport refreshed ▸ here
        refine first.trans (second.trans ?_)
        split
        · exact rebound_bindBuffer s' here' _
        · rename_i buf imported
          split
          · exact rebound_bindBuffer s' here' _
          · rename_i differs
            have size : (s.snapshot t).neededBytes plan rt t =
                declaredBytes plan rt (rt t).dmaBufFormat (rt t).dmaBufDtype t := if_neg differs
            obtain ⟨b, made⟩ : ∃ b, b = convertBinding plan rt t isInput buf (rt t).dmaBufFormat
              (rt t).dmaBufDtype := ⟨_, rfl⟩
            have converted : Rebound plan rt w s' { s' with convert := s'.convert.insert t b } := by
              refine rebound_convert s' t b fun output => ?_
              rw [made] at output
              obtain rfl : isInput = false := output
              exact ⟨mem_boundary_output mem, here', given.1,
                Bool.eq_false_of_not_eq_true differs, size ▸ given.2,
                importable (by rw [imported]; rfl) size⟩
            rw [← made]
            exact converted.trans (rebound_bindBuffer { s' with convert := s'.convert.insert t b }
              here' _)
    · exact first.trans (rebound_bindBuffer _ here _)

theorem rebound_rebindAll {bs : List (TensorId × Bool)} (within : ∀ b ∈ bs, b ∈ boundary plan)
    (s : SegmentState) : Rebound plan rt w s (rebindAll plan rt w bs s).1 := by
  induction bs generalizing s with
  | nil => exact .refl s
  | cons b rest ih =>
    have first : Rebound plan rt w s (rebind plan rt w s b.1 b.2).1 :=
      rebound_rebind s (within b mem_cons_self)
    unfold rebindAll
    split
    · rename_i s' ended
      rw [ended] at first
      exact first
    · rename_i s' goes
      rw [goes] at first
      exact first.trans (ih (fun c later => within c (mem_cons_of_mem _ later)) s')

/-- **Staging one input.** -/
theorem rebound_stage (s : SegmentState) (t : TensorId) :
    Rebound plan rt w s (stage plan rt w s t).1 := by
  unfold stage
  split
  · dsimp only
    split
    · exact rebound_convert s t _ fun no => nomatch no
    · split
      · exact .refl s
      · obtain ⟨st, made⟩ : ∃ st, st = s.allocate (declaredBytes plan rt .nchw (rt t).dtype t) :=
          ⟨_, rfl⟩
        rw [← made]
        have staged : Rebound plan rt w s { s with
            stagingIn := update s.stagingIn t (some st)
            nextHandle := s.nextHandle + 1 } :=
          ⟨⟨_, _, _, _, _, _, _, rfl⟩, fun stale => ⟨stale, rfl⟩, fun _ there => there,
            fun _ kept => kept, fun _ _ kept _ => .inl kept⟩
        exact staged.trans (rebound_convert { s with
          stagingIn := update s.stagingIn t (some st)
          nextHandle := s.nextHandle + 1 } t _ fun no => nomatch no)
  · exact .refl s

theorem rebound_stageAll (ts : List TensorId) (s : SegmentState) :
    Rebound plan rt w s (stageAll plan rt w ts s).1 := by
  induction ts generalizing s with
  | nil => exact .refl s
  | cons t rest ih =>
    have first : Rebound plan rt w s (stage plan rt w s t).1 := rebound_stage s t
    unfold stageAll
    split
    · rename_i s' ended
      rw [ended] at first
      exact first
    · rename_i s' goes
      rw [goes] at first
      exact first.trans (ih s')

/-- **What a run has bound when it fails or comes to the recording.** -/
theorem Rebound.fresh (bound : Rebound plan rt w s s')
    (fresh : Fresh plan floatInts kernel s) : Fresh plan floatInts kernel s' := by
  obtain ⟨_, _, _, _, _, _, _, rfl⟩ := bound.shape
  refine ⟨fun settled => ?_, fresh.active, fresh.within⟩
  obtain ⟨stale, same⟩ := bound.calm settled.recording
  obtain ⟨chunks, positions⟩ := fresh.encodes ⟨stale, settled.links, settled.argMax, settled.chain⟩
  dsimp only at same
  subst same
  exact ⟨chunks, positions⟩

/-- A chain of several iterations with a converted output, which is refused late. -/
def RefusedLate (s : SegmentState) : Prop :=
  1 < s.recordedSteps ∧ s.convert.toList.any (fun kv => !kv.2.isInput) = true

theorem record_failed (early : ¬ RefusedLate s) {pushed : Nat}
    {positions : List Nat} (fails : w.recordFails = some (pushed, positions)) :
    s.record plan w floatInts kernel = ({ s with
      cmds := (s.recordedChunks plan floatInts kernel).take pushed
      iterationFirstChunk := positions }, some (.failed [])) := by
  unfold RefusedLate at early
  unfold record
  rw [if_neg early, fails]

theorem record_completed (early : ¬ RefusedLate s)
    (completes : w.recordFails = none) :
    s.record plan w floatInts kernel = ({ s with
      cmds := s.recordedChunks plan floatInts kernel
      iterationFirstChunk := (List.range s.recordedSteps).map (s.firstChunk plan floatInts kernel)
      recordedConvert := s.convert
      recordingStale := false }, none) := by
  unfold RefusedLate at early
  unfold record
  rw [if_neg early, completes]

/-- **Recording and submitting.** -/
theorem current_recordAndSubmit (fresh : Fresh plan floatInts kernel s)
    (early : ¬ (1 < s.recordedSteps ∧ ∃ (t : TensorId) (b : ConvertBinding),
      s.convert[t]? = some b ∧ b.isInput = false))
    (s₀ : SegmentState) :
    Fresh plan floatInts kernel (s.noteChanges.recordAndSubmit plan w floatInts kernel).1 ∧
      EndsCurrent plan floatInts kernel s₀ (s.noteChanges.recordAndSubmit plan w floatInts kernel).1
        (s.noteChanges.recordAndSubmit plan w floatInts kernel).2 := by
  have ends : ∀ {s' : SegmentState}, Encodes plan floatInts kernel s' →
      s'.convert = s'.recordedConvert → 1 ≤ s'.chainActiveSteps →
      s'.chainActiveSteps ≤ s'.recordedSteps →
      EndsCurrent plan floatInts kernel s₀ s' (s'.submit w) := by
    intro s' encodes same active within
    rcases submit_current encodes same active within w with ⟨chunks, failed, first⟩ | done
    · rw [failed]
      exact first
    · rw [done]
      rfl
  unfold recordAndSubmit
  split
  · rename_i stale
    have quiet : ¬ RefusedLate { s.noteChanges with cmds := [] } := by
      rintro ⟨several, some⟩
      obtain ⟨kv, mem, output⟩ := any_eq_true.mp some
      exact early ⟨several, kv.1, kv.2, ExtTreeMap.mem_toList_iff_getElem?_eq_some.mp mem,
        (Bool.not_eq_true' _).mp output⟩
    cases fails : w.recordFails with
    | some left =>
      rw [record_failed quiet fails]
      exact ⟨⟨fun settled => absurd (stale.symm.trans settled.recording) (by decide),
        fresh.active, fresh.within⟩, nil_prefix⟩
    | none =>
      rw [record_completed quiet fails]
      refine ⟨⟨fun _ => ⟨rfl, rfl⟩, fresh.active, fresh.within⟩, ?_⟩
      exact ends ⟨rfl, rfl⟩ rfl fresh.active fresh.within
  · rename_i settled
    have still : s.recordingStale = false ∧ sameConvert s.convert s.recordedConvert = true ∧
        s.linksChanged = false ∧ s.argMaxChanged = false ∧ s.chainChanged = false := by
      simpa [noteChanges, and_assoc] using settled
    obtain ⟨recording, same, links, argMax, chain⟩ := still
    have encodes := fresh.encodes ⟨recording, links, argMax, chain⟩
    have encodes' : Encodes plan floatInts kernel s.noteChanges := ⟨encodes.chunks, encodes.positions⟩
    exact ⟨⟨fun _ => encodes', fresh.active, fresh.within⟩,
      ends encodes' (sameConvert_eq same) fresh.active fresh.within⟩

/-- **A run keeps the invariant, and submits what it should.** -/
theorem current_run (fresh : Fresh plan floatInts kernel s)
    (permitted : Permitted plan s (.run rt w)) :
    Fresh plan floatInts kernel (s.run plan rt w floatInts kernel).1 ∧
      EndsCurrent plan floatInts kernel s (s.run plan rt w floatInts kernel).1
        (s.run plan rt w floatInts kernel).2 := by
  obtain ⟨s₀, cleared⟩ : ∃ s₀, s₀ = { s with convert := (∅ : ExtTreeMap TensorId ConvertBinding) } :=
    ⟨_, rfl⟩
  have fresh₀ : Fresh plan floatInts kernel s₀ := by
    subst cleared
    refine ⟨fun settled => ?_, fresh.active, fresh.within⟩
    obtain ⟨chunks, positions⟩ :=
      fresh.encodes ⟨settled.recording, settled.links, settled.argMax, settled.chain⟩
    exact ⟨chunks, positions⟩
  have early : ∀ {s' : SegmentState}, Rebound plan rt w s₀ s' →
      ¬ (1 < s'.recordedSteps ∧ ∃ (t : TensorId) (b : ConvertBinding),
        s'.convert[t]? = some b ∧ b.isInput = false) := by
    rintro s' bound ⟨several, t, b, there, output⟩
    obtain ⟨_, _, _, _, _, _, _, same⟩ := bound.shape
    rcases bound.outputs t b there output with before | ⟨among, converts⟩
    · rw [cleared] at before
      simp at before
    · refine permitted ⟨?_, t, among, ?_⟩
      · subst same cleared
        exact several
      · subst cleared
        exact ⟨converts.bound, converts.declared, converts.differs, converts.holds,
          converts.importable⟩
  unfold run
  dsimp only
  rw [← cleared]
  split
  · exact ⟨fresh₀, by subst cleared; rfl⟩
  · have first : Rebound plan rt w s₀ (rebindAll plan rt w (boundary plan) s₀).1 :=
      rebound_rebindAll (fun _ here => here) s₀
    split
    · rename_i s' ended
      rw [ended] at first
      exact ⟨first.fresh fresh₀, nil_prefix⟩
    · rename_i s' goes
      rw [goes] at first
      have second : Rebound plan rt w s' (if plan.ioGpuConvert then
          stageAll plan rt w plan.boundaryInputs s' else (s', false)).1 := by
        split
        · exact rebound_stageAll _ s'
        · exact .refl s'
      split
      · rename_i s'' ended
        rw [ended] at second
        exact ⟨(first.trans second).fresh fresh₀, nil_prefix⟩
      · rename_i s'' goes'
        rw [goes'] at second
        have bound := first.trans second
        exact current_recordAndSubmit (bound.fresh fresh₀) (early bound) s

/-! ## Calls -/

/-- A state whose flag says that its links, reductions or chain have changed. -/
theorem fresh_of_changed (active : 1 ≤ s.chainActiveSteps)
    (within : s.chainActiveSteps ≤ s.recordedSteps)
    (changed : s.linksChanged = true ∨ s.argMaxChanged = true ∨ s.chainChanged = true) :
    Fresh plan floatInts kernel s := by
  refine ⟨fun settled => ?_, active, within⟩
  rcases changed with links | argMax | chain
  · exact absurd (links.symm.trans settled.links) (by decide)
  · exact absurd (argMax.symm.trans settled.argMax) (by decide)
  · exact absurd (chain.symm.trans settled.chain) (by decide)

theorem current_addResidentLink (fresh : Fresh plan floatInts kernel s)
    (src dst : TensorId) (allocFails : Bool) :
    Fresh plan floatInts kernel (s.addResidentLink plan src dst allocFails).1 ∧
      EndsCurrent plan floatInts kernel s (s.addResidentLink plan src dst allocFails).1
        (s.addResidentLink plan src dst allocFails).2 := by
  unfold addResidentLink
  dsimp only
  split
  · split_ifs
    · exact ⟨fresh, trivial⟩
    · exact ⟨fresh, trivial⟩
    · exact ⟨fresh, trivial⟩
    · exact ⟨fresh, trivial⟩
    · exact ⟨fresh, nil_prefix⟩
    · exact ⟨fresh_of_changed fresh.active fresh.within (.inl rfl), trivial⟩
  · exact ⟨fresh, trivial⟩

theorem current_setResidentLinkRangeSets (fresh : Fresh plan floatInts kernel s)
    {src dst : TensorId} {rangeSets : List (List LinkRange)}
    (permitted : Permitted plan s (.setResidentLinkRangeSets src dst rangeSets allocFails)) :
    Fresh plan floatInts kernel (s.setResidentLinkRangeSets plan src dst rangeSets allocFails).1 ∧
      EndsCurrent plan floatInts kernel s
        (s.setResidentLinkRangeSets plan src dst rangeSets allocFails).1
        (s.setResidentLinkRangeSets plan src dst rangeSets allocFails).2 := by
  unfold setResidentLinkRangeSets
  split
  · exact ⟨fresh, trivial⟩
  · rename_i i found
    split
    · exact ⟨fresh, trivial⟩
    · rename_i link there
      split
      · exact ⟨fresh, nil_prefix⟩
      · split
        · rename_i grows
          dsimp only
          split
          · rename_i fails
            exact absurd ⟨fails, i, link, found, there, grows⟩ permitted
          · exact ⟨fresh_of_changed fresh.active fresh.within (.inl rfl), trivial⟩
        · exact ⟨fresh, trivial⟩

theorem current_clearResidentLinks (fresh : Fresh plan floatInts kernel s) :
    Fresh plan floatInts kernel s.clearResidentLinks.1 ∧
      EndsCurrent plan floatInts kernel s s.clearResidentLinks.1 s.clearResidentLinks.2 := by
  unfold clearResidentLinks
  split
  · exact ⟨fresh, trivial⟩
  · exact ⟨fresh_of_changed fresh.active fresh.within (.inl rfl), trivial⟩

theorem current_setOutputArgMax (fresh : Fresh plan floatInts kernel s)
    {output : TensorId}
    (permitted : Permitted plan s (.setOutputArgMax output allocFails)) :
    Fresh plan floatInts kernel (s.setOutputArgMax plan output allocFails).1 ∧
      EndsCurrent plan floatInts kernel s (s.setOutputArgMax plan output allocFails).1
        (s.setOutputArgMax plan output allocFails).2 := by
  unfold setOutputArgMax
  split
  · exact ⟨fresh, trivial⟩
  · split
    · exact ⟨fresh, trivial⟩
    · split
      · rename_i registers
        split
        · rename_i fails
          exact absurd ⟨fails, registers⟩ permitted
        · exact ⟨fresh_of_changed fresh.active fresh.within (.inr (.inl rfl)), trivial⟩
      · exact ⟨fresh, trivial⟩

theorem one_le_of_chainRefusal
    (accepted : chainRefusal plan s chain steps = none) : 1 ≤ steps := by
  unfold chainRefusal at accepted
  dsimp only at accepted
  split at accepted
  · cases accepted
  · omega

theorem current_configureDecodeChain (fresh : Fresh plan floatInts kernel s)
    (permitted : Permitted plan s (.configureDecodeChain chain steps allocFails)) :
    Fresh plan floatInts kernel (s.configureDecodeChain plan chain steps allocFails).1 ∧
      EndsCurrent plan floatInts kernel s (s.configureDecodeChain plan chain steps allocFails).1
        (s.configureDecodeChain plan chain steps allocFails).2 := by
  unfold configureDecodeChain
  split
  · exact ⟨fresh, trivial⟩
  · rename_i accepted
    have positive := one_le_of_chainRefusal accepted
    have within : (1 : Int) ≤ steps.toNat := by omega
    dsimp only
    split
    · exact ⟨fresh_of_changed le_rfl within (.inr (.inr rfl)), trivial⟩
    · rename_i unallocated
      split
      · rename_i fails
        refine absurd ⟨fails, accepted, ?_⟩ permitted
        cases held : s.chainStateBuf with
        | none => rfl
        | some _ => exact absurd (by rw [held]; rfl) unallocated
      · exact ⟨fresh_of_changed le_rfl within (.inr (.inr rfl)), trivial⟩

theorem current_setDecodeChainWindow (fresh : Fresh plan floatInts kernel s)
    (basePosition activeSteps : Int) :
    Fresh plan floatInts kernel (s.setDecodeChainWindow basePosition activeSteps).1 ∧
      EndsCurrent plan floatInts kernel s (s.setDecodeChainWindow basePosition activeSteps).1
        (s.setDecodeChainWindow basePosition activeSteps).2 := by
  unfold setDecodeChainWindow
  split_ifs with configured outside
  · exact ⟨fresh, trivial⟩
  · exact ⟨fresh, trivial⟩
  · exact ⟨fresh, trivial⟩
  · refine ⟨⟨fun settled => ?_, by dsimp only; omega, ?_⟩, trivial⟩
    · obtain ⟨chunks, positions⟩ :=
        fresh.encodes ⟨settled.recording, settled.links, settled.argMax, settled.chain⟩
      exact ⟨chunks, positions⟩
    · have chained : s.chainConfigured = true := by simpa using configured
      change activeSteps ≤ (s.recordedSteps : Int)
      rw [Recordable.recordedSteps, if_pos chained]
      omega

/-! ## All runs -/

/-- **One step keeps the invariant and the rules.** -/
theorem current_step (fresh : Fresh plan floatInts kernel s) (call : SegmentCall)
    (permitted : Permitted plan s call) :
    Fresh plan floatInts kernel (s.step plan floatInts kernel call).1 ∧
      StepCurrent plan floatInts kernel s call := by
  cases call with
  | run rt w => exact current_run fresh permitted
  | addResidentLink src dst allocFails => exact current_addResidentLink fresh src dst allocFails
  | setResidentLinkRangeSets => exact current_setResidentLinkRangeSets fresh permitted
  | clearResidentLinks => exact current_clearResidentLinks fresh
  | setOutputArgMax => exact current_setOutputArgMax fresh permitted
  | configureDecodeChain => exact current_configureDecodeChain fresh permitted
  | setDecodeChainWindow base active => exact current_setDecodeChainWindow fresh base active

theorem after_concat (s : SegmentState) (calls : List SegmentCall) (call : SegmentCall) :
    s.after plan floatInts kernel (calls ++ [call]) =
      ((s.after plan floatInts kernel calls).step plan floatInts kernel call).1 := by
  unfold after
  rw [foldl_append]
  rfl

/-- **A submitted recording is never stale**, and a refused run changes no binding: in every sequence
of permitted steps, whichever of them fail. -/
theorem recordings_current (buffers : Bindings) (nextHandle : Nat) (calls : List SegmentCall)
    (permitted : ∀ before call rest, calls = before ++ call :: rest →
      Permitted plan ((start buffers nextHandle).after plan floatInts kernel before) call) :
    ∀ before call rest, calls = before ++ call :: rest → StepCurrent plan floatInts kernel
        ((start buffers nextHandle).after plan floatInts kernel before) call := by
  have fresh : ∀ before rest, calls = before ++ rest →
      Fresh plan floatInts kernel ((start buffers nextHandle).after plan floatInts kernel before) := by
    intro before
    induction before using List.reverseRecOn with
    | nil => exact fun _ _ => fresh_start buffers nextHandle
    | append_singleton earlier call ih =>
      intro rest shape
      have split : calls = earlier ++ call :: rest := by rw [shape]; simp
      rw [after_concat]
      exact (current_step (ih (call :: rest) split) call (permitted earlier call rest split)).1
  intro before call rest shape
  exact (current_step (fresh before (call :: rest) shape) call (permitted before call rest shape)).2

/-- A decode step: token, position and mask go in, logits come out. -/
def decodePlan : SegmentPlan where
  graph :=
    { tensors :=
        [{ shape := [1], gpuFlat := true }, { shape := [1], gpuFlat := true },
          { shape := [4], gpuFlat := true }, { shape := [8], gpuFlat := true }]
      nodes := [{ type := .matMul, inputs := [0, 1, 2], outputs := [3] }]
      inputs := [0, 1, 2]
      outputs := [3] }
  nodeIdx := [0]
  boundaryInputs := [0, 1, 2]
  boundaryOutputs := [3]
  chainStepsMax := 2
  elidesMoves := by decide

def decodeBuffers : Bindings := fun t =>
  if 0 ≤ t ∧ t < 4 then some ⟨t.toNat, t.toNat, 0, 32, .allocation t.toNat⟩ else none

def oneDispatch : Kernel := fun nd buffers => [SegmentPlan.dispatch buffers nd]

def twoIterations : List SegmentCall :=
  [.setOutputArgMax 3 false, .configureDecodeChain ⟨0, 1, 2, 3⟩ 2 false]

/-- The state after some calls on a new segment. -/
def decodeAfter (calls : List SegmentCall) : SegmentState :=
  (start decodeBuffers 4).after decodePlan (fun _ _ => []) oneDispatch calls

/-- A run that shares a file for the token, as it is stored, and one for the logits. -/
def sharedRun (logits : DType) : SegmentCall :=
  .run (fun t =>
    if t = 0 then { dmaBufFd := 7 }
    else if t = 3 then { dmaBufFd := 8, dmaBufFormat := .nchw, dmaBufDtype := logits }
    else {}) {}

theorem recordings_current_decode :
    StepCurrent decodePlan (fun _ _ => []) oneDispatch (decodeAfter twoIterations)
      (sharedRun .float32) := by
  refine recordings_current decodeBuffers 4 (twoIterations ++ [sharedRun .float32]) ?_ twoIterations
    (sharedRun .float32) [] rfl
  intro before call rest shape
  match before, shape with
  | [], shape =>
    obtain ⟨rfl, -⟩ := List.cons.inj shape
    exact fun no => nomatch no.1
  | [_], shape =>
    obtain ⟨rfl, -⟩ := List.cons.inj (List.cons.inj shape).2
    exact fun no => nomatch no.1
  | [_, _], shape =>
    obtain ⟨rfl, -⟩ := List.cons.inj (List.cons.inj (List.cons.inj shape).2).2
    rintro ⟨-, t, output, converts⟩
    obtain rfl := mem_singleton.mp output
    exact absurd converts.differs (by decide)
  | _ :: _ :: _ :: _, shape =>
    have tail := (List.cons.inj (List.cons.inj (List.cons.inj shape).2).2).2
    exact absurd tail (by simp)

/-- **A refused run leaves the token bound to its file**, as its logits would have to be converted in
a recording of two iterations.  And after a reduction's allocation has failed a run submits the
recording that was made without the reduction. -/
theorem recordings_not_current :
    ¬ StepCurrent decodePlan (fun _ _ => []) oneDispatch (decodeAfter twoIterations)
        (sharedRun .float16) ∧
      ¬ StepCurrent decodePlan (fun _ _ => []) oneDispatch
        (decodeAfter [sharedRun .float32, .setOutputArgMax 3 true]) (sharedRun .float32) := by
  constructor
  · intro current
    have refused : ((decodeAfter twoIterations).step decodePlan (fun _ _ => []) oneDispatch
        (sharedRun .float16)).2 = .refused := by decide
    unfold StepCurrent at current
    rw [refused] at current
    have bound := congrFun current 0
    revert bound
    decide
  · intro current
    have submits : ((decodeAfter [sharedRun .float32, .setOutputArgMax 3 true]).step decodePlan
        (fun _ _ => []) oneDispatch (sharedRun .float32)).2 =
          .done (decodeAfter [sharedRun .float32]).cmds := by decide
    unfold StepCurrent at current
    rw [submits] at current
    revert current
    unfold EndsCurrent
    decide

end Vknn.Vulkan.SegmentState
