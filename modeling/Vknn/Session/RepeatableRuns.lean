import Vknn.Session.CpuPlan

/-!
# Runs on the CPU are repeatable

A run returns what the graph computes from the inputs bound last, as long as the storage of those
inputs and of the constants is still there.  Reading an output out in its declared type takes its
storage away.  That is harmless for what a node writes again on every run; it loses a constant, an
input that the next run does not bind again, and a second output that names the same tensor.
-/

namespace Vknn.Session

open List Function

/-! ## Graphs in order -/

/-- A graph that can be run: what its nodes read and what it returns are inputs, constants, or what
an earlier node has written, and no node writes an input or a constant. -/
structure Runnable (g : Graph) : Prop where
  reads : ∀ front nd back, g.nodes = front ++ nd :: back → ∀ t ∈ nd.reads, t ≠ kNoTensor →
    t ∈ g.inputs ∨ g.isInitializer t = true ∨ ∃ p ∈ front, t ∈ p.outputs
  writes : ∀ nd ∈ g.nodes, ∀ t ∈ nd.outputs, t ∉ g.inputs ∧ g.isInitializer t = false
  inputs : ∀ t ∈ g.inputs, t ≠ kNoTensor ∧ g.isInitializer t = false
  outputs : ∀ t ∈ g.outputs, t ≠ kNoTensor ∧
    (t ∈ g.inputs ∨ g.isInitializer t = true ∨ ∃ nd ∈ g.nodes, t ∈ nd.outputs)

/-! ## Running nodes -/

section Nodes

variable (ops : CpuOps) {P Q : Pool} {t : TensorId}

/-- Two pools hold the same where a condition holds. -/
def Agree (D : TensorId → Prop) (P Q : Pool) : Prop := ∀ t, D t → (P t).operand = (Q t).operand

theorem writeOutputs_of_notMem (results : Nat → Operand) (k : Nat) (outs : List TensorId) (P : Pool)
    (other : t ∉ outs) : writeOutputs results k outs P t = P t := by
  induction outs generalizing k P with
  | nil => rfl
  | cons o rest ih =>
    rw [mem_cons, not_or] at other
    rw [writeOutputs]
    split
    · exact ih _ _ other.2
    · rw [ih _ _ other.2, update_of_ne other.1]

theorem writeOutputs_fd (results : Nat → Operand) (k : Nat) (outs : List TensorId) (P : Pool)
    (t : TensorId) : (writeOutputs results k outs P t).dmaBufFd = (P t).dmaBufFd := by
  induction outs generalizing k P with
  | nil => rfl
  | cons o rest ih =>
    rw [writeOutputs]
    split
    · exact ih _ _
    · rw [ih]
      by_cases same : t = o
      · rw [same, update_self, RtTensor.dmaBufFd_withOperand]
      · rw [update_of_ne same]

/-- Writing the same results keeps what agreed, and the outputs agree. -/
theorem Agree.writeOutputs {D : TensorId → Prop} (agree : Agree D P Q) (results : Nat → Operand)
    (k : Nat) (outs : List TensorId) :
    Agree (fun t => D t ∨ t ≠ kNoTensor ∧ t ∈ outs) (writeOutputs results k outs P)
      (writeOutputs results k outs Q) := by
  induction outs generalizing D k P Q with
  | nil =>
    intro t here
    exact agree t (here.resolve_right fun no => not_mem_nil no.2)
  | cons o rest ih =>
    rw [Session.writeOutputs, Session.writeOutputs]
    split
    · rename_i absent
      intro t here
      refine ih agree _ t (here.imp id fun written => ⟨written.1, ?_⟩)
      exact (mem_cons.mp written.2).resolve_left fun same => written.1 (same.trans absent)
    · have first : Agree (fun t => D t ∨ t = o)
          (update P o ((P o).withOperand (results k)))
          (update Q o ((Q o).withOperand (results k))) := by
        intro t here
        by_cases same : t = o
        · rw [same, update_self, update_self, RtTensor.operand_withOperand,
            RtTensor.operand_withOperand]
        · rw [update_of_ne same, update_of_ne same]
          exact agree t (here.resolve_right same)
      intro t here
      refine ih first _ t ?_
      rcases here with defined | ⟨present, mem⟩
      · exact .inl (.inl defined)
      · exact (mem_cons.mp mem).elim (fun same => .inl (.inr same))
          fun later => .inr ⟨present, later⟩

/-- **Nodes that read only what agrees, or what earlier ones write, do the same in both pools.** -/
theorem runNodes_agree (nodes : List Node) {D : TensorId → Prop} (agree : Agree D P Q)
    (fed : ∀ front nd back, nodes = front ++ nd :: back → ∀ t ∈ nd.reads, t ≠ kNoTensor →
      D t ∨ ∃ p ∈ front, t ∈ p.outputs) :
    (runNodes ops nodes P).1 = (runNodes ops nodes Q).1 ∧ ((runNodes ops nodes P).1 = true →
        Agree (fun t => D t ∨ t ≠ kNoTensor ∧ ∃ nd ∈ nodes, t ∈ nd.outputs) (runNodes ops nodes P).2
          (runNodes ops nodes Q).2) := by
  induction nodes generalizing D P Q with
  | nil =>
    refine ⟨rfl, fun _ t here => agree t (here.resolve_right ?_)⟩
    rintro ⟨-, nd, mem, -⟩
    cases mem
  | cons nd rest ih =>
    have operands : operandsOf nd P = operandsOf nd Q := by
      refine map_congr_left fun t read => ?_
      split
      · rfl
      · rename_i present
        rw [agree t ((fed [] nd rest rfl t read present).resolve_right (by simp))]
    rw [runNodes, runNodes, operands]
    generalize ops nd (operandsOf nd Q) = result
    split
    · have next := agree.writeOutputs result.2 0 nd.outputs
      obtain ⟨same, further⟩ := ih next fun front other back split t read present => by
        rcases fed (nd :: front) other back (by rw [split]; rfl) t read present with
          defined | ⟨p, mem, written⟩
        · exact .inl (.inl defined)
        · rcases mem_cons.mp mem with rfl | inFront
          · exact .inl (.inr ⟨present, written⟩)
          · exact .inr ⟨p, inFront, written⟩
      refine ⟨same, fun ran t here => further ran t ?_⟩
      rcases here with defined | ⟨present, p, mem, written⟩
      · exact .inl (.inl defined)
      · rcases mem_cons.mp mem with rfl | inRest
        · exact .inl (.inr ⟨present, written⟩)
        · exact .inr ⟨present, p, inRest, written⟩
    · exact ⟨rfl, fun no => absurd no Bool.false_ne_true⟩

theorem runNodes_of_notMem (nodes : List Node) (P : Pool)
    (other : ∀ nd ∈ nodes, t ∉ nd.outputs) : (runNodes ops nodes P).2 t = P t := by
  induction nodes generalizing P with
  | nil => rfl
  | cons nd rest ih =>
    have here := writeOutputs_of_notMem (ops nd (operandsOf nd P)).2 0 nd.outputs P
      (other nd mem_cons_self)
    rw [runNodes]
    split
    · rw [ih _ fun p mem => other p (mem_cons_of_mem _ mem), here]
    · exact here

theorem runNodes_fd (nodes : List Node) (P : Pool) (t : TensorId) :
    ((runNodes ops nodes P).2 t).dmaBufFd = (P t).dmaBufFd := by
  induction nodes generalizing P with
  | nil => rfl
  | cons nd rest ih =>
    rw [runNodes]
    split
    · rw [ih, writeOutputs_fd]
    · exact writeOutputs_fd _ _ _ _ _

end Nodes

/-! ## What has been bound -/

section Bound

variable (decode : DType → List UInt8 → Float32Bits)

/-- What the last entry bound to each tensor of a plan left there, if one was bound. -/
abbrev Bound := TensorId → Option RtTensor

/-- The entries of a run, up to one that the run refuses; an index tensor is bound before its
indices are looked at. -/
def boundBy (b : PlanBucket) : List IOTensor → Bound → Bound
  | [], bound => bound
  | io :: rest, bound =>
    match resolve b.graph io.name with
    | none => bound
    | some id =>
      match validateInputShape b id io.shape with
      | .ok =>
        let rt := bindTensor decode b (fun _ => false) id io {}
        let bound := update bound id (some rt)
        if indicesInRange b id rt then boundBy b rest bound else bound
      | _ => bound

/-- The tensors a run of the graph starts from: those bound, and the constants. -/
def startPool (g : Graph) (bound : Bound) : Pool :=
  fun id => (bound id).getD ((builtPlan decode g).pool id)

/-- The value of a graph on what is bound, tensor by tensor. -/
def graphValue (ops : CpuOps) (g : Graph) (bound : Bound) : Pool :=
  (runNodes ops g.nodes (startPool decode g bound)).2

def seen (io : IOTensor) : Str × Shape × DType × List UInt8 := (io.name, io.shape, io.dtype, io.data)

/-- The outputs of a graph on what is bound, in their declared types. -/
def graphOutputs (encode : DType → RtTensor → Int → List UInt8) (ops : CpuOps) (g : Graph)
    (bound : Bound) : List (Str × Shape × DType × List UInt8) :=
  g.outputs.map fun oid =>
    let rt := { graphValue decode ops g bound oid with dmaBufFd := -1 }
    ((g.desc oid).name, rt.shape, (g.desc oid).dtype,
      (readbackOutput encode (g.desc oid).dtype rt (storedElems rt.shape)).1)

/-! ## Sequences of runs -/

/-- The tensors a caller passes to a run. -/
structure RunCall where
  inputs : List IOTensor := []
  outputs : List IOTensor := []

/-- What a run binds, in the plan it selects. -/
def boundAfter (s : Session) (call : RunCall) (bound : Nat → Bound) : Nat → Bound :=
  match selectBucket s call.inputs with
  | none => bound
  | some i =>
    match s.buckets[i]? with
    | none => bound
    | some b => update bound i (boundBy decode b call.inputs (bound i))

variable (encode : DType → RtTensor → Int → List UInt8) (ops : CpuOps)

def cpuRun (s : Session) (call : RunCall) : RunResult :=
  run decode encode (runCpuPlan ops) s call.inputs call.outputs

/-- The session after a sequence of runs, and what they have bound. -/
def runAll (s : Session) (bound : Nat → Bound) : List RunCall → Session × (Nat → Bound)
  | [] => (s, bound)
  | call :: rest =>
    runAll (cpuRun decode encode ops s call).session (boundAfter decode s call bound) rest

/-! ## The storage that a run relies on -/

/-- A tensor is stored in its declared type, so that reading it out takes the storage. -/
def StoredAsDeclared (d : TensorDesc) (rt : RtTensor) : Prop :=
  d.dtype = rt.dtype ∧ (rt.host.length : Int) = storedElems rt.shape * d.dtype.dtypeSize % 2 ^ 64

/-- Before a run, on its plan: no file descriptors, every input bound now or still held, every
constant still held, and no output listed twice that is stored in its declared type. -/
structure Ready (b : PlanBucket) (bound : Bound) (call : RunCall) : Prop where
  inputFds : ∀ io ∈ call.inputs, io.dmaBufFd < 0
  outputFds : ∀ io ∈ call.outputs, 0 ≤ io.dmaBufFd → ∀ id, resolveOutput b.graph io.name = some id →
    id ∉ b.graph.outputs
  inputs : ∀ id ∈ b.graph.inputs, (b.pool id).hostValid = true ∨
    ∃ io ∈ call.inputs, resolve b.graph io.name = some id
  constants : ∀ id ∈ hostNeeded b.graph, (b.pool id).hostValid = true
  once : b.graph.outputs.Pairwise fun t u => t = u →
    ¬ StoredAsDeclared (b.graph.desc t) (graphValue decode ops b.graph bound t)

/-! ## Storage that is kept -/

section Kept

variable {decode encode ops} {D : TensorId → Prop} {P Q R : Pool}

/-- Where a condition holds, a tensor has lost its storage or has what it had. -/
def KeptOn (D : TensorId → Prop) (P Q : Pool) : Prop :=
  ∀ t, D t → (Q t).hostValid = true → (Q t).operand = (P t).operand

theorem KeptOn.trans (first : KeptOn D P Q) (second : KeptOn D Q R) : KeptOn D P R := by
  intro t inside valid
  have same := second t inside valid
  have before : (Q t).hostValid = true := by
    rw [← valid]
    exact congrArg Operand.hostValid same.symm
  exact same.trans (first t inside before)

theorem KeptOn.of_operand (same : ∀ t, D t → (Q t).operand = (P t).operand) : KeptOn D P Q :=
  fun t inside _ => same t inside

/-- One tensor changes, and if it holds storage then it is what it was. -/
theorem KeptOn.update (P : Pool) (t : TensorId) (rt : RtTensor)
    (kept : D t → rt.hostValid = true → rt.operand = (P t).operand) :
    KeptOn D P (update P t rt) := by
  intro u inside valid
  by_cases same : u = t
  · subst same
    rw [update_self] at valid ⊢
    exact kept inside valid
  · rw [update_of_ne same]

theorem operand_clearFds (ids : List TensorId) (P : Pool) (t : TensorId) :
    (clearFds ids P t).operand = (P t).operand := by
  unfold clearFds
  split
  · rfl
  · rfl

theorem operand_bindOutputFds (g : Graph) (outputs : List IOTensor) (P : Pool) (t : TensorId) :
    (bindOutputFds g outputs P t).operand = (P t).operand := by
  induction outputs generalizing P with
  | nil => rfl
  | cons io rest ih =>
    rw [bindOutputFds]
    split
    · exact ih P
    cases resolveOutput g io.name with
    | none => exact ih P
    | some id =>
      rw [ih]
      by_cases same : t = id
      · rw [same, update_self]
        rfl
      · rw [update_of_ne same]

/-- **Storage is only taken back by a tensor that has none.** -/
theorem reclaim_kept (g : Graph) (outputs : List IOTensor) (ids : List TensorId) (P : Pool)
    (t : TensorId) (valid : (P t).hostValid = true) : (reclaim g outputs ids P).2 t = P t := by
  induction outputs generalizing ids P with
  | nil => rfl
  | cons io rest ih =>
    cases ids with
    | nil => rfl
    | cons oid oids =>
      rw [reclaim]
      split
      · rename_i taken
        have apart : t ≠ oid := by
          rintro rfl
          simp [reclaims, valid] at taken
        have here : update P oid { P oid with host := io.data } t = P t := update_of_ne apart _ _
        dsimp only
        rw [ih oids _ (by rw [here]; exact valid), here]
      · exact ih oids P valid

theorem hostValid_reclaim (g : Graph) (outputs : List IOTensor) (ids : List TensorId) (P : Pool)
    (t : TensorId) : ((reclaim g outputs ids P).2 t).hostValid = (P t).hostValid := by
  induction outputs generalizing ids P with
  | nil => rfl
  | cons io rest ih =>
    cases ids with
    | nil => rfl
    | cons oid oids =>
      rw [reclaim]
      split
      · dsimp only
        rw [ih]
        by_cases same : t = oid
        · rw [same, update_self]
        · rw [update_of_ne same]
      · exact ih oids P

theorem fd_reclaim (g : Graph) (outputs : List IOTensor) (ids : List TensorId) (P : Pool)
    (t : TensorId) : ((reclaim g outputs ids P).2 t).dmaBufFd = (P t).dmaBufFd := by
  induction outputs generalizing ids P with
  | nil => rfl
  | cons io rest ih =>
    cases ids with
    | nil => rfl
    | cons oid oids =>
      rw [reclaim]
      split
      · dsimp only
        rw [ih]
        by_cases same : t = oid
        · rw [same, update_self]
        · rw [update_of_ne same]
      · exact ih oids P

theorem takeOutputs_kept (g : Graph) (outputs : List IOTensor) (P : Pool) :
    KeptOn D P (takeOutputs g outputs P).2 := by
  have before : ∀ t, (bindOutputFds g outputs (clearFds g.outputs P) t).operand = (P t).operand :=
    fun t => (operand_bindOutputFds _ _ _ _).trans (operand_clearFds _ _ _)
  intro t _ valid
  rw [takeOutputs, hostValid_reclaim] at valid
  rw [takeOutputs, reclaim_kept _ _ _ _ _ valid]
  exact before t

theorem hostValid_takeOutputs (g : Graph) (outputs : List IOTensor) (P : Pool) (t : TensorId) :
    ((takeOutputs g outputs P).2 t).hostValid = (P t).hostValid := by
  rw [takeOutputs, hostValid_reclaim]
  exact congrArg Operand.hostValid
    ((operand_bindOutputFds _ _ _ _).trans (operand_clearFds _ _ _))

theorem readbackOutput_kept (dst : DType) (rt : RtTensor) (elems : Int)
    (valid : (readbackOutput encode dst rt elems).2.hostValid = true) :
    (readbackOutput encode dst rt elems).2 = rt := by
  unfold readbackOutput at valid ⊢
  split at valid
  · cases valid
  · rename_i converted
    rw [if_neg converted]

/-- **Collecting outputs takes storage away or leaves it.** -/
theorem collectOutputs_kept (g : Graph) (linkedOutput : TensorId → Bool) (ids : List TensorId)
    (P : Pool) : KeptOn D P (collectOutputs encode g linkedOutput ids P).2 := by
  induction ids generalizing P with
  | nil => exact KeptOn.of_operand fun t _ => rfl
  | cons oid rest ih =>
    rw [collectOutputs]
    refine KeptOn.trans (KeptOn.update P oid _ fun _ valid => ?_) (ih _)
    split at valid
    · rename_i stays
      rw [if_pos stays]
      rfl
    · rename_i read
      rw [if_neg read]
      have same := congrArg RtTensor.operand (readbackOutput_kept _ _ _ valid)
      exact same

end Kept

/-! ## Binding -/

section Binding

variable {decode} {b : PlanBucket} {linked : TensorId → Bool}

/-- **A tensor bound without a file descriptor is what the entry brought**, whatever was there. -/
theorem bindTensor_eq (onHost : b.ioGpuConvert = false) (id : TensorId) {io : IOTensor}
    (noFd : io.dmaBufFd < 0) (rt rt' : RtTensor) :
    bindTensor decode b linked id io rt = bindTensor decode b (fun _ => false) id io rt' := by
  unfold bindTensor
  simp only [if_neg (not_le.mpr noFd), onHost, Bool.false_and, Bool.false_eq_true, if_false]
  rfl

theorem noFd_of_hostValid (id : TensorId) {io : IOTensor} {rt : RtTensor}
    (valid : (bindTensor decode b linked id io rt).hostValid = true) : io.dmaBufFd < 0 := by
  refine lt_of_not_ge fun fd => ?_
  rw [bindTensor, if_pos fd] at valid
  cases valid

theorem hostValid_bindTensor (onHost : b.ioGpuConvert = false) (id : TensorId) {io : IOTensor}
    (rt : RtTensor) (noFd : io.dmaBufFd < 0) :
    (bindTensor decode b linked id io rt).hostValid = true := by
  unfold bindTensor
  rw [if_neg (not_le.mpr noFd), onHost, Bool.false_and, Bool.false_and, if_neg Bool.false_ne_true]
  rfl

/-- Whether the indices an entry brought are in range does not depend on what was there. -/
theorem indicesInRange_bindTensor (onHost : b.ioGpuConvert = false) (id : TensorId) (io : IOTensor)
    (rt rt' : RtTensor) :
    indicesInRange b id (bindTensor decode b linked id io rt) =
      indicesInRange b id (bindTensor decode b (fun _ => false) id io rt') := by
  by_cases noFd : io.dmaBufFd < 0
  · rw [bindTensor_eq onHost id noFd rt rt']
  · rw [bindTensor, bindTensor, if_pos (not_lt.mp noFd), if_pos (not_lt.mp noFd)]
    simp only [indicesInRange, Bool.false_and, Bool.false_eq_true, if_false]

/-- A pool and what has been bound in its plan: an input or a constant has lost its storage, or
holds what was bound last or what the plan was built with. -/
def Current (decode : DType → List UInt8 → Float32Bits) (g : Graph) (P : Pool) (bound : Bound) :
    Prop :=
  KeptOn (fun t => t ∈ g.inputs ∨ g.isInitializer t = true) (startPool decode g bound) P

/-- **Binding inputs keeps a pool current.** -/
theorem Current.bindInputs (onHost : b.ioGpuConvert = false) (linked : TensorId → Bool)
    (inputs : List IOTensor) {P : Pool} {bound : Bound} (current : Current decode b.graph P bound) :
    Current decode b.graph (Session.bindInputs decode b linked inputs P).2
      (boundBy decode b inputs bound) := by
  induction inputs generalizing P bound with
  | nil => exact current
  | cons io rest ih =>
    rw [Session.bindInputs, boundBy]
    cases resolved : resolve b.graph io.name with
    | none => exact current
    | some id =>
      dsimp only
      cases validateInputShape b id io.shape with
      | ok =>
        dsimp only
        rw [indicesInRange_bindTensor onHost id io (P id) {}]
        have next : Current decode b.graph
            (update P id (bindTensor decode b linked id io (P id)))
            (update bound id
              (some (bindTensor decode b (fun _ => false) id io {}))) := by
          intro t inside valid
          by_cases same : t = id
          · subst same
            rw [update_self] at valid ⊢
            rw [startPool, update_self, Option.getD_some]
            rw [bindTensor_eq onHost t (noFd_of_hostValid t valid) (P t) {}]
          · rw [update_of_ne same] at valid ⊢
            rw [startPool, update_of_ne same]
            exact current t inside valid
        split
        · exact ih next
        · exact next
      | _ => exact current

/-- A tensor that holds storage, or that is bound, holds storage after binding. -/
theorem hostValid_bindInputs (onHost : b.ioGpuConvert = false) (id : TensorId)
    {inputs : List IOTensor} (noFds : ∀ io ∈ inputs, io.dmaBufFd < 0) (P : Pool)
    (bound : (Session.bindInputs decode b linked inputs P).1 = .ok)
    (held : (P id).hostValid = true ∨ ∃ io ∈ inputs, resolve b.graph io.name = some id) :
    ((Session.bindInputs decode b linked inputs P).2 id).hostValid = true := by
  induction inputs generalizing P with
  | nil => exact held.resolve_right fun ⟨io, mem, _⟩ => absurd mem not_mem_nil
  | cons io rest ih =>
    obtain ⟨other, resolved, -, next⟩ := bindInputs_cons_ok decode bound
    rw [next] at bound ⊢
    refine ih (fun io mem => noFds io (mem_cons_of_mem _ mem)) _ bound ?_
    by_cases same : id = other
    · rw [same, update_self]
      exact .inl (hostValid_bindTensor onHost other _ (noFds io mem_cons_self))
    · rw [update_of_ne same]
      rcases held with valid | ⟨entry, mem, here⟩
      · exact .inl valid
      · rcases mem_cons.mp mem with rfl | later
        · exact absurd (Option.some.inj (here.symm.trans resolved)) same
        · exact .inr ⟨entry, later, here⟩

end Binding

/-! ## A session across its runs -/

section Runs

variable {decode encode ops} {g : Graph}

/-- A plan of a session on the CPU: only the runtime tensors have changed since it was built, and
they are current for what has been bound. -/
structure ServedPlan (decode : DType → List UInt8 → Float32Bits) (b : PlanBucket) (bound : Bound) :
    Prop where
  segments : b.segments = cpuSegments b.graph
  onHost : b.ioGpuConvert = false
  current : Current decode b.graph b.pool bound

/-- A session on the CPU on which some runs have been made, and what they have bound in each plan. -/
structure Served (decode : DType → List UInt8 → Float32Bits) (graphs : List Graph) (s : Session)
    (bound : Nat → Bound) : Prop where
  links : s.links = []
  plans : ∀ i b, s.buckets[i]? = some b → b.graph ∈ graphs ∧ ServedPlan decode b (bound i)

/-- Nothing has been bound in a session that has just been opened. -/
theorem served_cpuSession (collectGatherIndexAxisSizes : Graph → List (TensorId × Int))
    (graphs : List Graph) :
    Served decode graphs (cpuSession decode collectGatherIndexAxisSizes graphs)
      fun _ _ => none where
  links := rfl
  plans := by
    intro i b here
    rw [cpuSession, opened, getElem?_map] at here
    obtain ⟨g, at_i, rfl⟩ := Option.map_eq_some_iff.mp here
    exact ⟨mem_of_getElem? at_i, rfl, rfl, fun _ _ _ => rfl⟩

variable {s : Session} {bound : Bound}

/-- A run of the segments, on a session without links. -/
theorem runBucket_unlinked (exec : Pool → Bool × Pool) (links : s.links = [])
    (i : Nat) (b : PlanBucket) (inputs outputs : List IOTensor) :
    runBucket decode encode exec s i b inputs outputs =
      match bindInputs decode b (fun _ => false) inputs (clearFds b.graph.inputs b.pool) with
      | (.ok, pool) =>
        let taken := takeOutputs b.graph outputs pool
        match exec taken.2 with
        | (true, pool) =>
          let collected := collectOutputs encode b.graph (fun _ => false) b.graph.outputs pool
          ⟨.ok, s.setPool i b collected.2, collected.1, []⟩
        | (false, pool) => ⟨.runtimeError, s.setPool i b pool, taken.1, []⟩
      | (failure, pool) => ⟨failure, s.setPool i b pool, outputs, []⟩ := by
  obtain ⟨cfg, buckets, table, registrations⟩ := s
  obtain rfl : table = [] := links
  rfl

/-- The nodes of a graph that can be run keep its inputs and constants. -/
theorem Runnable.runNodes_kept (runnable : Runnable g) (ops : CpuOps) (P : Pool) :
    KeptOn (fun t => t ∈ g.inputs ∨ g.isInitializer t = true) P (runNodes ops g.nodes P).2 := by
  refine KeptOn.of_operand fun t inside => ?_
  rw [runNodes_of_notMem]
  intro nd mem written
  obtain ⟨notInput, notConstant⟩ := runnable.writes nd mem t written
  rcases inside with input | constant
  · exact notInput input
  · rw [constant] at notConstant
    cases notConstant

theorem mem_hostNeeded {t : TensorId} (present : t ≠ kNoTensor) (constant : g.isInitializer t = true)
    (needed : (∃ nd ∈ g.nodes, t ∈ nd.reads) ∨ t ∈ g.outputs) : t ∈ hostNeeded g := by
  refine mem_filter.mpr ⟨mem_append.mpr (needed.imp_left fun read => ?_), ?_⟩
  · obtain ⟨nd, mem, reads⟩ := read
    exact mem_flatMap.mpr ⟨nd, mem, reads⟩
  · rw [constant, Bool.and_true]
    exact decide_eq_true present

/-- What a node reads is an input, a constant that the host needs, or written before. -/
theorem Runnable.fed (runnable : Runnable g) (front : List Node) (nd : Node) (back : List Node)
    (split : g.nodes = front ++ nd :: back) (t : TensorId) (read : t ∈ nd.reads)
    (present : t ≠ kNoTensor) :
    (t ∈ g.inputs ∨ t ∈ hostNeeded g) ∨ ∃ p ∈ front, t ∈ p.outputs := by
  rcases runnable.reads front nd back split t read present with input | constant | written
  · exact .inl (.inl input)
  · have mem : nd ∈ g.nodes := split ▸ mem_append_right _ mem_cons_self
    exact .inl (.inr (mem_hostNeeded present constant (.inl ⟨nd, mem, read⟩)))
  · exact .inr written

theorem Runnable.returned (runnable : Runnable g) {t : TensorId} (output : t ∈ g.outputs) :
    (t ∈ g.inputs ∨ t ∈ hostNeeded g) ∨ t ≠ kNoTensor ∧ ∃ nd ∈ g.nodes, t ∈ nd.outputs := by
  obtain ⟨present, input | constant | written⟩ := runnable.outputs t output
  · exact .inl (.inl input)
  · exact .inl (.inr (mem_hostNeeded present constant (.inr output)))
  · exact .inr ⟨present, written⟩

/-- **What one run on the CPU leaves**: in its plan, a pool that is current for what it bound. -/
theorem ServedPlan.runBucket {b : PlanBucket} (served : ServedPlan decode b bound)
    (encode : DType → RtTensor → Int → List UInt8) (ops : CpuOps) (runnable : Runnable b.graph)
    (links : s.links = []) (i : Nat) (inputs outputs : List IOTensor) :
    ∃ pool, (Session.runBucket decode encode (runCpuPlan ops b) s i b inputs outputs).session =
        s.setPool i b pool ∧
      Current decode b.graph pool (boundBy decode b inputs bound) := by
  have cleared : Current decode b.graph (clearFds b.graph.inputs b.pool) bound :=
    KeptOn.trans served.current (KeptOn.of_operand fun t _ => operand_clearFds _ _ t)
  have bind := cleared.bindInputs served.onHost (fun _ => false) inputs
  rw [runBucket_unlinked _ links]
  generalize bindInputs decode b (fun _ => false) inputs (clearFds b.graph.inputs b.pool) = result
    at bind ⊢
  obtain ⟨status, pool⟩ := result
  cases status with
  | ok =>
    have ran := KeptOn.trans (KeptOn.trans bind (takeOutputs_kept b.graph outputs pool))
      (runnable.runNodes_kept ops _)
    dsimp only
    rw [runCpuPlan_eq ops served.segments]
    generalize runNodes ops b.graph.nodes (takeOutputs b.graph outputs pool).2 = after at ran ⊢
    obtain ⟨succeeded, pool'⟩ := after
    cases succeeded with
    | true => exact ⟨_, rfl, KeptOn.trans ran (collectOutputs_kept _ _ _ _)⟩
    | false => exact ⟨_, rfl, ran⟩
  | _ => exact ⟨pool, rfl, bind⟩

/-- **Every run keeps a session served**, whatever it binds and whether or not it succeeds. -/
theorem Served.run {graphs : List Graph} (encode : DType → RtTensor → Int → List UInt8) (ops : CpuOps)
    (runnable : ∀ g ∈ graphs, Runnable g) {bound : Nat → Bound} (served : Served decode graphs s bound) (call : RunCall) :
    Served decode graphs (cpuRun decode encode ops s call).session
      (boundAfter decode s call bound) := by
  rw [cpuRun, Session.run, boundAfter]
  cases selectBucket s call.inputs with
  | none => exact served
  | some i =>
    dsimp only
    cases here : s.buckets[i]? with
    | none => exact served
    | some b =>
      obtain ⟨mem, plan⟩ := served.plans i b here
      obtain ⟨pool, after, current⟩ := plan.runBucket encode ops
        (runnable b.graph mem) served.links i call.inputs call.outputs
      dsimp only
      rw [after]
      refine ⟨served.links, fun j b' there => ?_⟩
      rw [setPool, getElem?_set] at there
      by_cases same : i = j
      · subst same
        rw [if_pos rfl] at there
        split at there
        · obtain rfl := Option.some.inj there
          rw [update_self]
          exact ⟨mem, plan.segments, plan.onHost, current⟩
        · cases there
      · rw [if_neg same] at there
        rw [update_of_ne (Ne.symm same)]
        exact served.plans j b' there

/-- A session is served after any sequence of runs. -/
theorem Served.runAll {graphs : List Graph} (encode : DType → RtTensor → Int → List UInt8)
    (ops : CpuOps) (runnable : ∀ g ∈ graphs, Runnable g) (calls : List RunCall) {bound : Nat → Bound}
    (served : Served decode graphs s bound) :
    Served decode graphs (Session.runAll decode encode ops s bound calls).1
      (Session.runAll decode encode ops s bound calls).2 := by
  induction calls generalizing s bound with
  | nil => exact served
  | cons call rest ih => exact ih (served.run encode ops runnable call)

/-! ## Reading the outputs out -/

theorem hostValid_clearFds (ids : List TensorId) (P : Pool) (t : TensorId) :
    (clearFds ids P t).hostValid = (P t).hostValid :=
  congrArg Operand.hostValid (operand_clearFds ids P t)

theorem fd_bindOutputFds (g : Graph) (outputs : List IOTensor) (P : Pool) (t : TensorId)
    (unbound : ∀ io ∈ outputs, 0 ≤ io.dmaBufFd → ∀ id, resolveOutput g io.name = some id → id ≠ t) :
    (bindOutputFds g outputs P t).dmaBufFd = (P t).dmaBufFd := by
  induction outputs generalizing P with
  | nil => rfl
  | cons io rest ih =>
    have later := fun P => ih P fun io mem => unbound io (mem_cons_of_mem _ mem)
    rw [bindOutputFds]
    split
    · exact later P
    rename_i fd
    cases resolved : resolveOutput g io.name with
    | none => exact later P
    | some id =>
      have apart := unbound io mem_cons_self (not_lt.mp fd) id resolved
      dsimp only
      rw [later, update_of_ne apart.symm]

/-- An output to which no file descriptor is bound has none. -/
theorem fd_takeOutputs (g : Graph) (outputs : List IOTensor) (P : Pool) {t : TensorId}
    (output : t ∈ g.outputs)
    (unbound : ∀ io ∈ outputs, 0 ≤ io.dmaBufFd → ∀ id, resolveOutput g io.name = some id →
      id ∉ g.outputs) :
    ((takeOutputs g outputs P).2 t).dmaBufFd = -1 := by
  rw [takeOutputs, fd_reclaim, fd_bindOutputFds]
  · rw [clearFds, if_pos output]
  · rintro io mem fd id resolved rfl
    exact unbound io mem fd id resolved output

/-- A tensor without a file descriptor is known by its content. -/
theorem eq_of_operand {rt value : RtTensor} (same : rt.operand = value.operand)
    (noFd : rt.dmaBufFd = -1) : rt = { value with dmaBufFd := -1 } := by
  obtain ⟨shape, dtype, host, hostValid, fd⟩ := rt
  obtain ⟨shape', dtype', host', hostValid', fd'⟩ := value
  simp only [RtTensor.operand, Operand.mk.injEq] at same
  obtain ⟨rfl, rfl, rfl, rfl⟩ := same
  obtain rfl : fd = -1 := noFd
  rfl

/-- An output without a file descriptor or a link is read out. -/
theorem collectOutputs_cons (g : Graph) (oid : TensorId) (rest : List TensorId) {P : Pool}
    (noFd : (P oid).dmaBufFd = -1) :
    collectOutputs encode g (fun _ => false) (oid :: rest) P =
      let read := readbackOutput encode (g.desc oid).dtype (P oid) (storedElems (P oid).shape)
      let after := collectOutputs encode g (fun _ => false) rest
        (update P oid { read.2 with dmaBufFd := -1 })
      ({ name := (g.desc oid).name, shape := (P oid).shape, dmaBufFd := -1,
         dtype := (g.desc oid).dtype, data := read.1 } :: after.1, after.2) := by
  rw [collectOutputs, noFd]
  rfl

/-- **Outputs that hold their values are returned**, when a tensor listed twice keeps its storage. -/
theorem collectOutputs_seen (g : Graph) (value : Pool) (ids : List TensorId) {P : Pool}
    (held : ∀ t ∈ ids, (P t).operand = (value t).operand ∧ (P t).dmaBufFd = -1)
    (once : ids.Pairwise fun t u => t = u → ¬ StoredAsDeclared (g.desc t) (value t)) :
    (collectOutputs encode g (fun _ => false) ids P).1.map seen = ids.map fun oid =>
      let rt := { value oid with dmaBufFd := -1 }
      ((g.desc oid).name, rt.shape, (g.desc oid).dtype,
        (readbackOutput encode (g.desc oid).dtype rt (storedElems rt.shape)).1) := by
  induction ids generalizing P with
  | nil => rfl
  | cons oid rest ih =>
    obtain ⟨notAgain, onceRest⟩ := pairwise_cons.mp once
    obtain ⟨same, noFd⟩ := held oid mem_cons_self
    have here := eq_of_operand same noFd
    rw [collectOutputs_cons g oid rest noFd]
    dsimp only
    rw [map_cons, map_cons, ih _ onceRest]
    · rw [here]
      rfl
    · intro t mem
      by_cases again : t = oid
      · subst again
        have stays : (readbackOutput encode (g.desc t).dtype (P t) (storedElems (P t).shape)).2 =
            P t := by
          have notStored := notAgain t mem rfl
          rw [here, readbackOutput]
          exact congrArg Prod.snd (if_neg notStored)
        rw [update_self, stays]
        exact ⟨same, rfl⟩
      · rw [update_of_ne again]
        exact held t (mem_cons_of_mem _ mem)

theorem Current.agree {P : Pool} (current : Current decode g P bound)
    (held : ∀ t, t ∈ g.inputs ∨ t ∈ hostNeeded g → (P t).hostValid = true) :
    Agree (fun t => t ∈ g.inputs ∨ t ∈ hostNeeded g) P (startPool decode g bound) := by
  intro t inside
  refine current t (inside.imp id fun needed => ?_) (held t inside)
  exact ((Bool.and_eq_true _ _).mp (mem_filter.mp needed).2).2

/-- **A run that is ready returns the values of the graph.** -/
theorem ServedPlan.outputs {b : PlanBucket} (served : ServedPlan decode b bound)
    (runnable : Runnable b.graph) (links : s.links = []) (i : Nat) (call : RunCall)
    (ok : (Session.runBucket decode encode (runCpuPlan ops b) s i b call.inputs
      call.outputs).status = .ok)
    (ready : Ready decode ops b (boundBy decode b call.inputs bound) call) :
    (Session.runBucket decode encode (runCpuPlan ops b) s i b call.inputs
      call.outputs).outputs.map seen =
        graphOutputs decode encode ops b.graph (boundBy decode b call.inputs bound) := by
  have cleared : Current decode b.graph (clearFds b.graph.inputs b.pool) bound :=
    KeptOn.trans served.current (KeptOn.of_operand fun t _ => operand_clearFds _ _ t)
  have bind := cleared.bindInputs served.onHost (fun _ => false) call.inputs
  have valid : ∀ t, (bindInputs decode b (fun _ => false) call.inputs
      (clearFds b.graph.inputs b.pool)).1 = .ok → _ → _ :=
    fun t => hostValid_bindInputs served.onHost t ready.inputFds _
  rw [runBucket_unlinked _ links] at ok ⊢
  generalize bindInputs decode b (fun _ => false) call.inputs (clearFds b.graph.inputs b.pool) =
    result at bind valid ok ⊢
  obtain ⟨status, pool⟩ := result
  cases status with
  | ok =>
    dsimp only at bind valid ok ⊢
    have held : ∀ t, t ∈ b.graph.inputs ∨ t ∈ hostNeeded b.graph →
        ((takeOutputs b.graph call.outputs pool).2 t).hostValid = true := by
      intro t inside
      rw [hostValid_takeOutputs]
      refine valid t rfl ?_
      rw [hostValid_clearFds]
      rcases inside with input | constant
      · exact ready.inputs t input
      · exact .inl (ready.constants t constant)
    have start := Current.agree (KeptOn.trans bind (takeOutputs_kept b.graph call.outputs pool)) held
    rw [runCpuPlan_eq ops served.segments] at ok ⊢
    obtain ⟨-, agree⟩ := runNodes_agree ops b.graph.nodes start runnable.fed
    have noFds := fun t => runNodes_fd ops b.graph.nodes
      (takeOutputs b.graph call.outputs pool).2 t
    generalize runNodes ops b.graph.nodes (takeOutputs b.graph call.outputs pool).2 = after
      at agree noFds ok ⊢
    obtain ⟨succeeded, pool'⟩ := after
    cases succeeded with
    | true =>
      refine collectOutputs_seen b.graph (graphValue decode ops b.graph _) b.graph.outputs ?_
        ready.once
      intro t output
      exact ⟨agree rfl t (runnable.returned output),
        (noFds t).trans (fd_takeOutputs _ _ _ output ready.outputFds)⟩
    | false => cases ok
  | _ => cases ok

end Runs

/-- Every run after any sequence of runs returns the values of the graph. -/
def RunsRepeatable (collectGatherIndexAxisSizes : Graph → List (TensorId × Int))
    (graphs : List Graph) : Prop :=
  ∀ (calls : List RunCall) (s : Session) (bound : Nat → Bound),
    runAll decode encode ops (cpuSession decode collectGatherIndexAxisSizes graphs)
      (fun _ _ => none) calls = (s, bound) →
    ∀ (call : RunCall) (i : Nat) (b : PlanBucket), selectBucket s call.inputs = some i →
      s.buckets[i]? = some b → (cpuRun decode encode ops s call).status = .ok →
      (cpuRun decode encode ops s call).outputs.map seen =
        graphOutputs decode encode ops b.graph (boundAfter decode s call bound i)

end Bound

/-! ## A constant among the outputs -/

def plainLanes (_ : DType) (lane : List UInt8) : Float32Bits := ⟨UInt32.ofNat (Wire.leNat lane)⟩

def plainBytes (_ : DType) (_ : RtTensor) (_ : Int) : List UInt8 := []

/-- A kernel that passes on what its node reads first. -/
def passOn : CpuOps := fun _ operands => (true, fun _ => (operands.headD none).getD {})

/-- A graph with an input, what a node makes of it, and a constant. -/
def relay (outputs : List TensorId) : Graph where
  tensors := [{ name := str "x", shape := [1], isInput := true }, { name := str "y", shape := [1] },
    { name := str "c", shape := [1], isInitializer := true }]
  nodes := [{ type := .relu, inputs := [0], outputs := [1] }]
  tensorByName := (((∅ : Std.ExtTreeMap Str TensorId).insert (str "x") 0).insert (str "y") 1).insert
    (str "c") 2
  inputs := [0]
  outputs
  initializers := (∅ : Std.ExtTreeMap TensorId HostBuffer).insert 2 [0, 0, 128, 63]

theorem runnable_relay {outputs : List TensorId} (listed : ∀ t ∈ outputs, t = 1 ∨ t = 2) :
    Runnable (relay outputs) where
  reads := by
    intro front nd back split t read present
    cases front with
    | nil =>
      obtain ⟨rfl, -⟩ := List.cons.inj split
      have first : t = 0 := by
        simp only [Node.reads, cons_append, nil_append, mem_cons,
          not_mem_nil, or_false, or_self] at read
        exact read.resolve_right present
      exact .inl (first ▸ mem_cons_self)
    | cons p rest => exact absurd (congrArg List.length split) (by simp [relay])
  writes := by
    intro nd mem t written
    obtain rfl := mem_singleton.mp mem
    obtain rfl := mem_singleton.mp written
    exact ⟨by simp [relay], rfl⟩
  inputs := by
    intro t input
    obtain rfl := mem_singleton.mp input
    exact ⟨by decide, rfl⟩
  outputs := by
    intro t output
    rcases listed t output with rfl | rfl
    · exact ⟨by decide, .inr (.inr ⟨_, mem_cons_self, mem_cons_self⟩)⟩
    · exact ⟨by decide, .inr (.inl rfl)⟩

/-- A run that binds `x`, and passes the outputs of an earlier one. -/
def bindX (outputs : List IOTensor) : RunCall where
  inputs := [{ name := str "x", shape := [1], data := [0, 0, 0, 64] }]
  outputs

/-- A session on which one run has bound `x`. -/
def servedOnce (outputs : List TensorId) : Session × (Nat → Bound) :=
  runAll plainLanes plainBytes passOn (cpuSession plainLanes (fun _ => []) [relay outputs])
    (fun _ _ => none) [bindX []]

def servedPlan (outputs : List TensorId) : PlanBucket :=
  (servedOnce outputs).1.buckets.headD { graph := {} }

/-- The output vector of the first run, with the bytes of the constant overwritten. -/
def reusedOutputs : List IOTensor :=
  [{ name := str "y" }, { name := str "c", shape := [1], data := [9, 9, 9, 9] }]

end Vknn.Session
