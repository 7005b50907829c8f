import Vknn.Session.HandOff

/-!
# The hand-off is faithful

What a segment hands over stays in place until it is read: in host storage, which only the producer
of a tensor writes, or in a file that no other tensor has.  A device segment that reads a tensor
uploads it, as the buffer that is valid for it is that of an earlier segment.

What fails is the download.  A row-major graph output is downloaded for the caller, in its declared
half precision, as one row or not at all, though the graph may read it again; a tensor bound to a
file is not transferred at all; and of a row-major tensor of rank 0 no element is copied.
-/

namespace Vknn.HandOff

open Session Vulkan List Function Option

variable {decode : DType → List UInt8 → Float32Bits} {floatToHalfSat : Float32Bits → UInt16}
variable {k : Kernels} {g : Graph} {useFp16 : Bool} {r : Setting}

/-! ## The invariant -/

/-- A buffer that is valid for a tensor is that of an earlier segment. -/
def Elsewhere (p : Nat) (s : State) (t : TensorId) : Prop :=
  (s.device t).valid = true → ∃ q < p, (s.device t).buffer = some (.own q t)

/-- A tensor with a file that no other tensor has. -/
def Alone (r : Setting) (fd : TensorId → Int) (t : TensorId) (id : Nat) : Prop :=
  ∀ u, 0 ≤ fd u → (r.files u).id = some id → u = t

/-- The value of a tensor is in place. -/
def HandedOver (decode : DType → List UInt8 → Float32Bits) (floatToHalfSat : Float32Bits → UInt16)
    (g : Graph) (useFp16 : Bool) (r : Setting) (p : Nat) (s : State) (t : TensorId) (m : Made) :
    Prop :=
  match m.producer.backend with
  | .cpu => (s.pool t).operand = m.value ∧ m.value.hostValid = true ∧
      ((s.pool t).dmaBufFd < 0 → Elsewhere p s t)
  | .vulkan => ∃ buf, m.value =
        deviceOperand decode buf (s.pool t).shape (deviceFp16 g useFp16 t) (flat g t) ∧
      (t ∈ m.producer.boundaryOutputs → r.argMax t = false → (s.pool t).dmaBufFd < 0 →
        Elsewhere p s t ∧ ∃ rt : RtTensor, rt.shape = (s.pool t).shape ∧
          (s.pool t).operand = (downloadOutput decode floatToHalfSat buf rt (deviceFp16 g useFp16 t)
            (flat g t) (g.outputs.contains t) (g.desc t).dtype (r.rows t)).operand) ∧
      ∀ id, 0 ≤ (s.pool t).dmaBufFd → r.files t = .direct id →
        Alone r (fun u => (s.pool u).dmaBufFd) t id → s.memory (.file id) = buf

/-- **The invariant**: all values are in place. -/
def InPlace (decode : DType → List UInt8 → Float32Bits) (floatToHalfSat : Float32Bits → UInt16)
    (g : Graph) (useFp16 : Bool) (r : Setting) (p : Nat) (made : TensorId → Option Made) (s : State) :
    Prop :=
  ∀ t m, made t = some m → t ≠ kNoTensor ∧ HandedOver decode floatToHalfSat g useFp16 r p s t m

variable {s' : State} {m : Made} {id : Nat} {made : TensorId → Option Made}

/-- What is in place stays there, while host storage, the files of the tensor and the residency
allow it. -/
theorem HandedOver.frame {p q : Nat} {s : State} {t : TensorId}
    (held : HandedOver decode floatToHalfSat g useFp16 r p s t m)
    (host : (s'.pool t).operand = (s.pool t).operand)
    (fds : ∀ u, (s'.pool u).dmaBufFd = (s.pool u).dmaBufFd)
    (device : (s.pool t).dmaBufFd < 0 → Elsewhere p s t → Elsewhere q s' t)
    (files : ∀ id, 0 ≤ (s.pool t).dmaBufFd → r.files t = .direct id →
      Alone r (fun u => (s.pool u).dmaBufFd) t id → s'.memory (.file id) = s.memory (.file id)) :
    HandedOver decode floatToHalfSat g useFp16 r q s' t m := by
  have sameFds : (fun u => (s'.pool u).dmaBufFd) = fun u => (s.pool u).dmaBufFd := funext fds
  have shape : (s'.pool t).shape = (s.pool t).shape := congrArg Operand.shape host
  unfold HandedOver at held ⊢
  cases backend : m.producer.backend with
  | cpu =>
    rw [backend] at held
    obtain ⟨here, valid, elsewhere⟩ := held
    refine ⟨host.trans here, valid, fun unbound => ?_⟩
    rw [fds t] at unbound
    exact device unbound (elsewhere unbound)
  | vulkan =>
    rw [backend] at held
    obtain ⟨buf, value, published, shared⟩ := held
    dsimp only
    rw [sameFds, fds t, shape]
    refine ⟨buf, value, fun output whole unbound => ?_, fun id bound direct alone => ?_⟩
    · obtain ⟨elsewhere, rt, same, down⟩ := published output whole unbound
      exact ⟨device unbound elsewhere, rt, same, host.trans down⟩
    · exact (files id bound direct alone).trans (shared id bound direct alone)

theorem Elsewhere.mono {p q : Nat} {s : State} {t : TensorId} (elsewhere : Elsewhere p s t)
    (le : p ≤ q) : Elsewhere q s t := by
  intro valid
  obtain ⟨segment, early, buffer⟩ := elsewhere valid
  exact ⟨segment, lt_of_lt_of_le early le, buffer⟩

/-! ## Device segments -/

variable {p : Nat} {seg : CompiledSegment} {s : State} {t : TensorId}

theorem bound_of_unbound (unbound : (s.pool t).dmaBufFd < 0) : bound r s p t = .own p t :=
  if_neg (not_le.mpr unbound)

theorem bound_of_direct (declared : 0 ≤ (s.pool t).dmaBufFd)
    (direct : r.files t = .direct id) : bound r s p t = .file id := by
  unfold bound
  rw [if_pos declared, direct]

/-- A buffer that is a file belongs to a tensor that has it. -/
theorem id_of_bound {u : TensorId} (file : bound r s p u = .file id) :
    0 ≤ (s.pool u).dmaBufFd ∧ (r.files u).id = some id := by
  unfold bound at file
  split at file
  · rename_i declared
    split at file
    · rename_i same
      rw [same]
      exact ⟨declared, congrArg some (BufferId.file.inj file)⟩
    · cases file
  · cases file

theorem elsewhere_received (unbound : (s.pool t).dmaBufFd < 0) (elsewhere : Elsewhere p s t) :
    Elsewhere (p + 1) (received decode floatToHalfSat k g useFp16 r p seg s) t := by
  by_cases input : t ∈ deviceInputs g seg
  · intro _
    refine ⟨p, Nat.lt_succ_self p, ?_⟩
    change (if t ∈ deviceInputs g seg then _ else s.device t : DeviceStorage).buffer = _
    rw [if_pos input]
    exact congrArg some (bound_of_unbound unbound)
  · have same : (received decode floatToHalfSat k g useFp16 r p seg s).device t = s.device t :=
      if_neg input
    unfold Elsewhere
    rw [same]
    exact elsewhere.mono (Nat.le_succ p)

theorem HandedOver.received (held : HandedOver decode floatToHalfSat g useFp16 r p s t m) :
    HandedOver decode floatToHalfSat g useFp16 r (p + 1)
      (received decode floatToHalfSat k g useFp16 r p seg s) t m :=
  held.frame rfl (fun _ => rfl) elsewhere_received fun _ _ _ _ => rfl

/-- Writing buffers leaves a file that belongs to none of the tensors. -/
theorem writeBuffers_file {results : TensorId → DeviceBytes} {ts : List TensorId}
    (alone : Alone r (fun u => (s.pool u).dmaBufFd) t id) (other : t ∉ ts) :
    writeBuffers r s p results ts (.file id) = s.memory (.file id) := by
  unfold writeBuffers
  generalize s.memory = memory
  induction ts generalizing memory with
  | nil => rfl
  | cons u rest ih =>
    rw [mem_cons, not_or] at other
    rw [foldl_cons, ih other.2]
    refine Function.update_of_ne (fun same => ?_) _ _
    obtain ⟨declared, file⟩ := id_of_bound same.symm
    exact other.1 (alone u declared file).symm

theorem convertOutputs_file {ts : List TensorId} (memory : BufferId → DeviceBytes)
    (alone : Alone r (fun u => (s.pool u).dmaBufFd) t id) (other : t ∉ ts) :
    convertOutputs k r p s ts memory (.file id) = memory (.file id) := by
  unfold convertOutputs
  induction ts generalizing memory with
  | nil => rfl
  | cons u rest ih =>
    rw [mem_cons, not_or] at other
    rw [foldl_cons, ih _ other.2]
    split
    · rename_i declared
      cases use : r.files u with
      | converted file =>
        refine update_of_ne (fun same => ?_) _ _
        obtain rfl := BufferId.file.inj same
        exact other.1 (alone u declared (by rw [use]; rfl)).symm
      | direct => rfl
      | unavailable => rfl
    · rfl

theorem fd_downloadOutput (buf : DeviceBytes) (rt : RtTensor) (fp16 isFlat graphOut : Bool)
    (declared : DType) (row : Option Int) :
    (downloadOutput decode floatToHalfSat buf rt fp16 isFlat graphOut declared row).dmaBufFd =
      rt.dmaBufFd := by
  unfold downloadOutput
  split
  · split <;> rfl
  · rfl

theorem shape_downloadOutput (buf : DeviceBytes) (rt : RtTensor) (fp16 isFlat graphOut : Bool)
    (declared : DType) (row : Option Int) :
    (downloadOutput decode floatToHalfSat buf rt fp16 isFlat graphOut declared row).shape =
      rt.shape := by
  unfold downloadOutput
  split
  · split <;> rfl
  · rfl

/-- A download changes neither the file of a tensor nor its shape. -/
theorem fd_download (t : TensorId) :
    ((download decode floatToHalfSat g useFp16 r p seg s).pool t).dmaBufFd =
      (s.pool t).dmaBufFd := by
  change (if t ∈ seg.boundaryOutputs then _ else _ : RtTensor).dmaBufFd = _
  split
  · unfold downloaded
    dsimp only
    split
    · rfl
    · split
      · exact fd_downloadOutput _ _ _ _ _ _ _
      · rfl
  · rfl

theorem shape_download (t : TensorId) :
    ((download decode floatToHalfSat g useFp16 r p seg s).pool t).shape = (s.pool t).shape := by
  change (if t ∈ seg.boundaryOutputs then _ else _ : RtTensor).shape = _
  split
  · unfold downloaded
    dsimp only
    split
    · rfl
    · split
      · exact shape_downloadOutput _ _ _ _ _ _ _
      · rfl
  · rfl

/-- The state that a segment's kernels leave. -/
def computed (k : Kernels) (g : Graph) (r : Setting) (p : Nat) (seg : CompiledSegment) (s : State)
    (results : TensorId → DeviceBytes) : State :=
  { s with
    memory := convertOutputs k r p s seg.boundaryOutputs
      (writeBuffers r s p results (produced g seg)) }

/-- **How a device segment ends that succeeds.** -/
theorem runDevice_eq
    (ran : runDevice decode floatToHalfSat k g useFp16 r p seg s = (true, s')) :
    ∃ results, s' = download decode floatToHalfSat g useFp16 r p seg
      (computed k g r p seg (received decode floatToHalfSat k g useFp16 r p seg s) results) := by
  unfold runDevice at ran
  dsimp only at ran
  split at ran
  · cases (Prod.mk.inj ran).1
  · rename_i s'' dispatched
    obtain ⟨results, -, rfl⟩ := map_eq_some_iff.mp dispatched
    exact ⟨results, (Prod.mk.inj ran).2.symm⟩

/-- What a device segment does not produce stays in place. -/
theorem HandedOver.computed (held : HandedOver decode floatToHalfSat g useFp16 r p s t m)
    (outputs : ∀ u ∈ seg.boundaryOutputs, u ∈ produced g seg) (other : t ∉ produced g seg)
    (results : TensorId → DeviceBytes) (position : Nat) :
    HandedOver decode floatToHalfSat g useFp16 r p (download decode floatToHalfSat g useFp16 r position
      seg (computed k g r position seg s results)) t m := by
  have unpublished : t ∉ seg.boundaryOutputs := fun here => other (outputs t here)
  refine held.frame ?_ fd_download (fun _ elsewhere => ?_) fun id _ _ alone => ?_
  · exact congrArg RtTensor.operand (if_neg unpublished)
  · have same : (download decode floatToHalfSat g useFp16 r position seg
        (HandOff.computed k g r position seg s results)).device t = s.device t := if_neg unpublished
    unfold Elsewhere
    rw [same]
    exact elsewhere
  · exact (convertOutputs_file _ alone unpublished).trans (writeBuffers_file alone other)

variable (decode floatToHalfSat) in
/-- **What a device segment produces is in place.** -/
theorem handedOver_download (output : t ∈ produced g seg) (device : seg.backend = .vulkan)
    (made : TensorId → Option Made) :
    ∃ m, note decode g useFp16 r p seg made
        (download decode floatToHalfSat g useFp16 r p seg s) t = some m ∧
      HandedOver decode floatToHalfSat g useFp16 r (p + 1)
        (download decode floatToHalfSat g useFp16 r p seg s) t m := by
  obtain ⟨s', downloads⟩ : ∃ s', s' = download decode floatToHalfSat g useFp16 r p seg s := ⟨_, rfl⟩
  refine ⟨_, if_pos output, ?_⟩
  unfold HandedOver
  dsimp only
  rw [device]
  dsimp only
  rw [← downloads]
  refine ⟨s'.memory (bound r s' p t), rfl, fun published whole unbound => ⟨fun _ => ?_, s.pool t, ?_⟩,
    fun id declared direct _ => ?_⟩
  · refine ⟨p, Nat.lt_succ_self p, ?_⟩
    rw [downloads] at unbound ⊢
    change (if t ∈ seg.boundaryOutputs then _ else _ : DeviceStorage).buffer = _
    rw [if_pos published]
    exact congrArg some (bound_of_unbound ((fd_download t).symm.trans_lt unbound))
  · rw [bound_of_unbound unbound]
    subst downloads
    have free : (s.pool t).dmaBufFd < 0 := (fd_download t).symm.trans_lt unbound
    refine ⟨(shape_download t).symm, ?_⟩
    have down : (download decode floatToHalfSat g useFp16 r p seg s).pool t =
        downloadOutput decode floatToHalfSat (s.memory (.own p t)) (s.pool t) (deviceFp16 g useFp16 t)
          (flat g t) (g.outputs.contains t) (g.desc t).dtype (r.rows t) := by
      change (if t ∈ seg.boundaryOutputs then _ else _ : RtTensor) = _
      rw [if_pos published]
      unfold downloaded
      rw [if_neg (by rw [whole]; decide), if_pos free]
    rw [down]
    rfl
  · rw [bound_of_direct declared direct]

/-! ## Segments on the CPU -/

variable {nd : Node} {nodes : List Node}

theorem runCpuNode_frame (other : t ∉ nd.outputs) :
    (runCpuNode k nd s).2.pool t = s.pool t ∧ (runCpuNode k nd s).2.device t = s.device t :=
  ⟨writeOutputs_of_notMem _ _ _ _ other, if_neg other⟩

theorem runCpuNode_fd (t : TensorId) :
    ((runCpuNode k nd s).2.pool t).dmaBufFd = (s.pool t).dmaBufFd :=
  writeOutputs_fd _ _ _ _ t

theorem runCpu_frame (other : ∀ nd ∈ nodes, t ∉ nd.outputs) :
    (runCpu k nodes s).2.pool t = s.pool t ∧ (runCpu k nodes s).2.device t = s.device t := by
  induction nodes generalizing s with
  | nil => exact ⟨rfl, rfl⟩
  | cons nd rest ih =>
    have one : (runCpuNode k nd s).2.pool t = s.pool t ∧
        (runCpuNode k nd s).2.device t = s.device t := runCpuNode_frame (other nd (by simp))
    unfold runCpu
    split
    · rename_i s' ran
      rw [ran] at one
      obtain ⟨pool, device⟩ := ih fun nd mem => other nd (mem_cons_of_mem _ mem)
      exact ⟨pool.trans one.1, device.trans one.2⟩
    · rename_i s' ran
      rw [ran] at one
      exact one

theorem runCpu_fd (t : TensorId) : ((runCpu k nodes s).2.pool t).dmaBufFd = (s.pool t).dmaBufFd ∧
      (runCpu k nodes s).2.memory = s.memory := by
  induction nodes generalizing s with
  | nil => exact ⟨rfl, rfl⟩
  | cons nd rest ih =>
    have one : ((runCpuNode k nd s).2.pool t).dmaBufFd = (s.pool t).dmaBufFd ∧
        (runCpuNode k nd s).2.memory = s.memory := ⟨runCpuNode_fd t, rfl⟩
    unfold runCpu
    split
    · rename_i s' ran
      rw [ran] at one
      exact ⟨ih.1.trans one.1, ih.2.trans one.2⟩
    · rename_i s' ran
      rw [ran] at one
      exact one

/-- A node on the CPU reads what the nodes before it do not write as the segment found it. -/
theorem cpuReads_frame {x : State × List TensorId} (mem : x ∈ cpuReads k nodes s)
    (other : ∀ nd ∈ nodes, t ∉ nd.outputs) : x.1.pool t = s.pool t := by
  induction nodes generalizing s with
  | nil => cases mem
  | cons nd rest ih =>
    have one : (runCpuNode k nd s).2.pool t = s.pool t := (runCpuNode_frame (other nd (by simp))).1
    rcases mem_cons.mp mem with rfl | later
    · rfl
    · split at later
      · rename_i s' ran
        rw [ran] at one
        exact (ih later fun nd mem => other nd (mem_cons_of_mem _ mem)).trans one
      · cases later

/-- A tensor as a kernel on the CPU leaves it: valid on the host only. -/
def OnHost (s : State) (t : TensorId) : Prop :=
  (s.pool t).hostValid = true ∧ (s.device t).valid = false

theorem hostValid_writeOutputs {results : Nat → Operand} (valid : ∀ i, (results i).hostValid = true)
    {outs : List TensorId} (written : t ∈ outs) (present : t ≠ kNoTensor) (i : Nat) (P : Pool) :
    (writeOutputs results i outs P t).hostValid = true := by
  induction outs generalizing i P with
  | nil => cases written
  | cons o rest ih =>
    unfold writeOutputs
    by_cases later : t ∈ rest
    · split
      · exact ih later _ _
      · exact ih later _ _
    · obtain rfl := (mem_cons.mp written).resolve_right later
      rw [if_neg present, writeOutputs_of_notMem _ _ _ _ later, update_self]
      exact valid i

theorem onHost_of_written (publishes : Publishes k.cpu) (written : t ∈ nd.outputs)
    (present : t ≠ kNoTensor) : OnHost (runCpuNode k nd s).2 t := by
  refine ⟨hostValid_writeOutputs (fun i => publishes nd _ i) written present 0 _, ?_⟩
  change (if t ∈ nd.outputs then _ else _ : DeviceStorage).valid = false
  rw [if_pos written]

theorem OnHost.runCpuNode (publishes : Publishes k.cpu) (present : t ≠ kNoTensor)
    (host : OnHost s t) (nd : Node) : OnHost (runCpuNode k nd s).2 t := by
  by_cases written : t ∈ nd.outputs
  · exact onHost_of_written publishes written present
  · obtain ⟨pool, device⟩ : _ ∧ _ := runCpuNode_frame (k := k) (s := s) written
    unfold OnHost
    rw [pool, device]
    exact host

theorem OnHost.runCpu (publishes : Publishes k.cpu) (present : t ≠ kNoTensor) (host : OnHost s t)
    (nodes : List Node) : OnHost (runCpu k nodes s).2 t := by
  induction nodes generalizing s with
  | nil => exact host
  | cons nd rest ih =>
    have one : OnHost (HandOff.runCpuNode k nd s).2 t := host.runCpuNode publishes present nd
    unfold HandOff.runCpu
    split
    · rename_i s' ran
      rw [ran] at one
      exact ih one
    · rename_i s' ran
      rw [ran] at one
      exact one

/-- **What a segment on the CPU writes is on the host when it has succeeded.** -/
theorem onHost_runCpu (publishes : Publishes k.cpu) (present : t ≠ kNoTensor)
    (written : ∃ nd ∈ nodes, t ∈ nd.outputs) (ran : runCpu k nodes s = (true, s')) :
    OnHost s' t := by
  induction nodes generalizing s with
  | nil =>
    obtain ⟨_, none, _⟩ := written
    cases none
  | cons nd rest ih =>
    unfold runCpu at ran
    split at ran
    · rename_i s₁ first
      by_cases here : t ∈ nd.outputs
      · have one : OnHost (runCpuNode k nd s).2 t := onHost_of_written publishes here present
        rw [first] at one
        have last := one.runCpu publishes present rest
        rw [ran] at last
        exact last
      · obtain ⟨nd', mem, writes⟩ := written
        rcases mem_cons.mp mem with rfl | later
        · exact absurd writes here
        · exact ih ⟨nd', later, writes⟩ ran
    · cases (Prod.mk.inj ran).1

/-! ## One segment -/

theorem mem_produced_iff :
    t ∈ produced g seg ↔ t ≠ kNoTensor ∧ ∃ nd ∈ seg.nodeIdx.map g.node, t ∈ nd.outputs := by
  unfold produced
  rw [mem_filter, decide_eq_true_eq, mem_flatMap]
  constructor
  · rintro ⟨⟨ni, mem, writes⟩, present⟩
    exact ⟨present, g.node ni, mem_map_of_mem mem, writes⟩
  · rintro ⟨present, nd, mem, writes⟩
    obtain ⟨ni, among, rfl⟩ := mem_map.mp mem
    exact ⟨⟨ni, among, writes⟩, present⟩

theorem notMem_outputs (present : t ≠ kNoTensor) (other : t ∉ produced g seg) :
    ∀ nd ∈ seg.nodeIdx.map g.node, t ∉ nd.outputs :=
  fun nd mem writes => other (mem_produced_iff.mpr ⟨present, nd, mem, writes⟩)

/-- **A segment that succeeds keeps the invariant.** -/
theorem InPlace.runSegment (publishes : Publishes k.cpu)
    (inPlace : InPlace decode floatToHalfSat g useFp16 r p made s)
    (outputs : ∀ u ∈ seg.boundaryOutputs, u ∈ produced g seg)
    (ran : runSegment decode floatToHalfSat k g useFp16 r p seg s = (true, s')) :
    InPlace decode floatToHalfSat g useFp16 r (p + 1) (note decode g useFp16 r p seg made s') s' := by
  intro t m here
  unfold HandOff.runSegment at ran
  by_cases output : t ∈ produced g seg
  · have present : t ≠ kNoTensor := (mem_produced_iff.mp output).1
    refine ⟨present, ?_⟩
    cases backend : seg.backend with
    | cpu =>
      rw [backend] at ran
      have host : OnHost s' t := onHost_runCpu publishes present (mem_produced_iff.mp output).2 ran
      obtain rfl := some.inj ((if_pos output).symm.trans here)
      unfold HandedOver
      dsimp only
      rw [backend]
      exact ⟨rfl, host.1, fun _ valid => absurd (host.2.symm.trans valid) (by decide)⟩
    | vulkan =>
      rw [backend] at ran
      obtain ⟨results, rfl⟩ := runDevice_eq ran
      obtain ⟨m', noted, held⟩ := handedOver_download decode floatToHalfSat output backend made
      obtain rfl := some.inj (noted.symm.trans here)
      exact held
  · obtain ⟨present, held⟩ := inPlace t m ((if_neg output).symm.trans here)
    refine ⟨present, ?_⟩
    cases backend : seg.backend with
    | cpu =>
      rw [backend] at ran
      obtain rfl : (runCpu k (seg.nodeIdx.map g.node) s).2 = s' := congrArg Prod.snd ran
      obtain ⟨pool, device⟩ : _ ∧ _ := runCpu_frame (notMem_outputs present output)
      refine held.frame (congrArg RtTensor.operand pool) (fun u => (runCpu_fd u).1)
        (fun _ elsewhere => ?_) fun id _ _ _ => congrFun (runCpu_fd t).2 _
      unfold Elsewhere
      rw [device]
      exact elsewhere.mono (Nat.le_succ p)
    | vulkan =>
      rw [backend] at ran
      obtain ⟨results, rfl⟩ := runDevice_eq ran
      exact held.received.computed outputs output results p

/-! ## Reads -/

/-- A kernel on the CPU reads the value where the transfers serve it. -/
theorem receives_cpu {x : Reading} (cpu : x.seg.backend = .cpu)
    (held : HandedOver decode floatToHalfSat g useFp16 r p s t m)
    (untouched : x.state.pool t = s.pool t) (crosses : Crosses g useFp16 r x t m) :
    Receives decode floatToHalfSat g useFp16 r x t m := by
  unfold Receives
  rw [cpu]
  dsimp only
  rw [untouched]
  unfold HandedOver at held
  unfold Crosses at crosses
  rw [cpu] at crosses
  cases backend : m.producer.backend with
  | cpu =>
    rw [backend] at held
    exact held.1
  | vulkan =>
    rw [backend] at held crosses
    obtain ⟨buf, value, published, -⟩ := held
    obtain ⟨⟨output, whole, unbound⟩, ranked, undiminished⟩ := crosses
    rw [untouched] at unbound
    obtain ⟨-, rt, shape, down⟩ := published output whole unbound
    have sameShape : m.value.shape = rt.shape := by
      rw [value, shape]
      rfl
    rw [sameShape] at ranked undiminished
    rw [down, operand_downloadOutput ranked undiminished buf, value, shape]

/-- A boundary input that is valid on the host and whose device buffer is elsewhere is uploaded. -/
theorem uploads_of_elsewhere (unbound : (s.pool t).dmaBufFd < 0) (valid : (s.pool t).hostValid = true)
    (elsewhere : Elsewhere p s t) : uploads s p t = true := by
  unfold uploads
  rw [decide_eq_true unbound, valid, Bool.true_and, Bool.true_and, Bool.not_eq_true',
    Bool.and_eq_false_imp]
  intro deviceValid
  obtain ⟨q, early, buffer⟩ := elsewhere deviceValid
  rw [buffer, decide_eq_false_iff_not]
  intro same
  exact absurd (BufferId.own.inj (some.inj same)).1 (ne_of_lt early)

/-- What a device segment finds in the buffer of an uploaded boundary input. -/
theorem memory_received (unbound : (s.pool t).dmaBufFd < 0) (input : t ∈ deviceInputs g seg)
    (uploaded : uploads s p t = true) :
    (received decode floatToHalfSat k g useFp16 r p seg s).memory (.own p t) =
      uploadInput decode floatToHalfSat (s.pool t) (deviceFp16 g useFp16 t) (flat g t)
        (s.memory (.own p t)) := by
  have unconverted : (received decode floatToHalfSat k g useFp16 r p seg s).memory (.own p t) =
      (upload decode floatToHalfSat g useFp16 r p seg s).memory (.own p t) :=
    if_neg fun declared => absurd declared.2.2 (not_le.mpr unbound)
  rw [unconverted]
  exact if_pos ⟨rfl, input, uploaded⟩

/-- **A device segment reads the value where the transfers serve it.** -/
theorem receives_device {reads : List TensorId}
    (device : seg.backend = .vulkan) (held : HandedOver decode floatToHalfSat g useFp16 r p s t m)
    (crosses : Crosses g useFp16 r
      ⟨p, seg, made, received decode floatToHalfSat k g useFp16 r p seg s, reads⟩ t m) :
    Receives decode floatToHalfSat g useFp16 r
      ⟨p, seg, made, received decode floatToHalfSat k g useFp16 r p seg s, reads⟩ t m := by
  unfold Receives
  dsimp only
  rw [device]
  dsimp only
  unfold HandedOver at held
  unfold Crosses at crosses
  dsimp only at crosses
  rw [device] at crosses
  cases backend : m.producer.backend with
  | cpu =>
    rw [backend] at held crosses
    obtain ⟨value, valid, elsewhere⟩ := held
    obtain ⟨input, unbound, whole⟩ := crosses
    have unbound : (s.pool t).dmaBufFd < 0 := unbound
    have hostValid : (s.pool t).hostValid = true := (congrArg Operand.hostValid value).trans valid
    rw [bound_of_unbound (show ((received decode floatToHalfSat k g useFp16 r p seg s).pool
        t).dmaBufFd < 0 from unbound),
      memory_received unbound input (uploads_of_elsewhere unbound hostValid (elsewhere unbound))]
    rw [← value] at whole ⊢
    exact .inr ⟨_, uploadInput_eq _ whole⟩
  | vulkan =>
    rw [backend] at held crosses
    obtain ⟨buf, value, published, shared⟩ := held
    obtain ⟨input, ⟨declared, id, direct, alone⟩ | ⟨⟨output, whole, unbound⟩, undiminished⟩⟩ := crosses
    · have declared : 0 ≤ (s.pool t).dmaBufFd := declared
      have file : (received decode floatToHalfSat k g useFp16 r p seg s).memory (.file id) = buf :=
        shared id declared direct alone
      rw [bound_of_direct (show 0 ≤ ((received decode floatToHalfSat k g useFp16 r p seg s).pool
        t).dmaBufFd from declared) direct, file, value]
      exact .inl ⟨rfl, rfl⟩
    · have unbound : (s.pool t).dmaBufFd < 0 := unbound
      obtain ⟨elsewhere, rt, shape, down⟩ := published output whole unbound
      have sameShape : m.value.shape = rt.shape := by
        rw [value, shape]
        rfl
      obtain ⟨ranked, whole⟩ := undiminished
      rw [sameShape] at ranked whole
      have hostValid : (s.pool t).hostValid = true := by
        refine (congrArg Operand.hostValid down).trans ?_
        unfold downloadOutput
        split
        · split <;> rfl
        · rfl
      rw [bound_of_unbound (show ((received decode floatToHalfSat k g useFp16 r p seg s).pool
          t).dmaBufFd < 0 from unbound),
        memory_received unbound input (uploads_of_elsewhere unbound hostValid elsewhere), value,
        ← shape]
      exact carries_uploadInput_downloadOutput ranked whole buf _ down

/-! ## Runs -/

/-- Each read of a run finds the values that the transfers serve. -/
theorem receives_of_mem_readings (publishes : Publishes k.cpu) {segs : List CompiledSegment}
    (outputs : ∀ seg ∈ segs, ∀ u ∈ seg.boundaryOutputs, u ∈ produced g seg)
    (inPlace : InPlace decode floatToHalfSat g useFp16 r p made s) {x : Reading}
    (mem : x ∈ readings decode floatToHalfSat k g useFp16 r p segs made s)
    (other : t ∉ produced g x.seg) (here : x.made t = some m)
    (crosses : Crosses g useFp16 r x t m) : Receives decode floatToHalfSat g useFp16 r x t m := by
  induction segs generalizing p made s with
  | nil => cases mem
  | cons seg rest ih =>
    unfold readings at mem
    rcases mem_append.mp mem with now | later
    · obtain ⟨y, read, rfl⟩ := mem_map.mp now
      obtain ⟨present, held⟩ := inPlace t m here
      unfold readsOf at read
      cases backend : seg.backend with
      | cpu =>
        rw [backend] at read
        exact receives_cpu backend held
          (cpuReads_frame read (notMem_outputs present other)) crosses
      | vulkan =>
        rw [backend] at read
        obtain rfl := mem_singleton.mp read
        exact receives_device backend held crosses
    · split at later
      · rename_i s' ran
        exact ih (fun seg among => outputs seg (mem_cons_of_mem _ among))
          (inPlace.runSegment publishes (outputs seg (by simp)) ran) later
      · cases later

/-- The boundary outputs of a segment are among what it writes. -/
theorem produced_of_boundaryOutputs (g : Graph) (backendOf : Nat → BackendKind) :
    ∀ seg ∈ segments g backendOf, ∀ u ∈ seg.boundaryOutputs, u ∈ produced g seg := by
  intro seg mem u output
  obtain ⟨cut, among, rfl⟩ := mem_map.mp mem
  obtain ⟨p, at_p⟩ := mem_iff_getElem?.mp among
  rw [Partition.segments_getElem?] at at_p
  obtain ⟨part, -, rfl⟩ := map_eq_some_iff.mp at_p
  change u ∈ (Partition.segmentOf g _ p part).boundaryOutputs at output
  have present : u ≠ kNoTensor := by
    unfold Partition.segmentOf at output
    dsimp only at output
    rw [Partition.mem_toList_insertAll, mem_flatMap] at output
    obtain ⟨ni, -, written⟩ := output
    exact (of_decide_eq_true (mem_filter.mp written).2).1
  obtain ⟨⟨ni, inside, writes⟩, -⟩ := (Partition.mem_boundaryOutputs_iff g _ p part present).mp output
  exact mem_produced_iff.mpr ⟨present, g.node ni, mem_map_of_mem inside, writes⟩

/-- The device computes scores, which are a graph output; the CPU reads them again. -/
def scoresGraph (declared : DType) : Graph where
  tensors := [{ shape := [2, 1], gpuFlat := true }, { shape := [2, 1], gpuFlat := true, dtype := declared },
    { shape := [2, 1] }]
  nodes := [{ type := .matMul, inputs := [0], outputs := [1] },
    { type := .topK, inputs := [1], outputs := [2] }]
  inputs := [0]
  outputs := [1, 2]

def scoresBackend (n : Nat) : BackendKind := if n = 1 then .cpu else .vulkan

/-- Kernels that copy their operand, and leave files alone. -/
def copyKernels : Kernels where
  cpu _ operands := (true, fun _ => { (operands.headD none).getD {} with hostValid := true })
  gpu _ contents := some fun _ => contents 0
  convertIn _ content := content
  convertOut _ content := content

def scoresRun (setting : Setting) : Run where
  bind s := { s with pool := fun t =>
    if t = 0 then { shape := [2, 1], host := [1, 2, 3, 4, 5, 6, 7, 8], hostValid := true }
    else { shape := [2, 1] } }
  setting := setting

def scoresReadings (declared : DType) (setting : Setting) : List Reading :=
  readingsAfter (fun _ _ => ⟨0⟩) (fun _ => 0) copyKernels (scoresGraph declared) false
    (segments (scoresGraph declared) scoresBackend) ⟨fun _ => {}, fun _ => {}, fun _ _ => 0⟩ []
    (scoresRun setting)

theorem length_scoresReadings (declared : DType) (setting : Setting) :
    1 < (scoresReadings declared setting).length := Nat.lt_add_one 1

def scoresRead (declared : DType) (setting : Setting) : Reading :=
  (scoresReadings declared setting).get ⟨1, length_scoresReadings declared setting⟩

/-- The value of the scores as the device has left it. -/
def madeScores : Made where
  producer := ⟨⟨[0], [0], [1]⟩, .vulkan⟩
  value := ⟨[2, 1], .float32, [1, 2, 3, 4, 5, 6, 7, 8], true⟩

theorem scores_lost {declared : DType} {setting : Setting}
    (cpu : (scoresRead declared setting).seg.backend = .cpu)
    (read : (1 : TensorId) ∈ (scoresRead declared setting).reads)
    (other : (1 : TensorId) ∉ produced (scoresGraph declared) (scoresRead declared setting).seg)
    (made : (scoresRead declared setting).made 1 = some madeScores)
    (differs : ((scoresRead declared setting).state.pool 1).operand ≠ madeScores.value) :
    ¬ Faithful (fun _ _ => ⟨0⟩) (fun _ => 0) (scoresGraph declared) false setting
      (scoresRead declared setting) := by
  intro faithful
  have received := faithful 1 read other madeScores made
  unfold Receives at received
  rw [cpu] at received
  exact differs received

end Vknn.HandOff
