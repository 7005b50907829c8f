import Vknn.Vulkan.HostWeights

/-!
# What releasing host weights leaves readable

A read of an initializer resolves to a copy of its value as long as the payload is there, neither
released nor erased; and beyond that only where the read looks for a copy before it looks at the
payload: a raw upload that the segment remembers, an operand that the kernel holds, a constant that
has been filled in, or a read by truth that finds the shared copy.

A flat upload checks the size of the payload first.  A second reader of a released initializer is
refused, although the copy it wants is remembered.
-/

namespace Vknn.Vulkan

open List Function Option Except Bool

section Release

variable (decode : DType → List UInt8 → Float32Bits) (toHalf : HostBuffer → HostBuffer)
variable (plan : WeightPlan)

/-! ## The value of a read -/

/-- The single-precision lanes of an initializer with a payload. -/
def initLanes (t : TensorId) (payload : HostBuffer) : HostBuffer :=
  let d := plan.graph.desc t
  flatLanes decode d.dtype (uploadInitElemCount d.shape d.dtype payload.length) payload

/-- A copy holds the value that a read of a payload is after. -/
def HoldsValue (fp16 : Bool) (payload copy : HostBuffer) : Read → Prop
  | .init t | .operand t _ => copy = flatInit decode toHalf plan t payload fp16
  | .raw _ _ => copy = payload
  | .floats t | .fill t => copy = initLanes decode plan t payload
  | .chainOperand t _ flatWorld =>
    copy = if flatWorld then flatInit decode toHalf plan t payload fp16
      else initLanes decode plan t payload
  | .truth t =>
    let d := plan.graph.desc t
    copy = uploadWeight toHalf
        (canonicalConstantOperand (flatElementCount d.shape) (initLanes decode plan t payload)) fp16 ∨
      (fp16 = true → fp16StoreKeepsTruth d.dtype = true) ∧
        copy = flatInit decode toHalf plan t payload fp16

/-- A read has resolved to a copy of the value of its initializer. -/
def Resolution.Holds (x : Resolution) : Prop :=
  ∀ payload, plan.payload x.read.tensor = some payload → ∃ copy, x.result = .ok copy ∧
      HoldsValue decode toHalf plan (plan.nodeStoresFp16 (plan.graph.node x.node)) payload copy x.read

/-- **Releasing host weights is invisible**: every read of the plan, while its segments are built and
whenever they are recorded again, resolves to a copy of the value. -/
def ReleaseInvisible (kernels : Kernels) : Prop :=
  ∀ recordings : List Nat, ∀ x ∈ plan.start.run plan decode toHalf (planSteps plan kernels recordings),
    x.Holds decode toHalf plan

/-! ## Where a read finds its value -/

/-- A payload is large enough for a flat upload. -/
def CoversFlat (t : TensorId) (payload : HostBuffer) : Prop :=
  let d := plan.graph.desc t
  uploadInitPayloadBytesNeeded (uploadInitElemCount d.shape d.dtype payload.length) d.dtype ≤
    payload.length

instance (t : TensorId) (payload : HostBuffer) : Decidable (CoversFlat plan t payload) :=
  inferInstanceAs (Decidable (_ ≤ _))

/-- A read finds its value before a step: the payload is there, or the copy that it looks for first. -/
def Found (st : WeightState) (seg node : Nat) (payload : HostBuffer) : Read → Prop
  | .init t => st.initializers t = some payload ∧ CoversFlat plan t payload
  | .raw t _ =>
    st.initializers t = some payload ∨ st.initializers t ≠ none ∧ st.memo seg (t, .rawBytes) ≠ none
  | .floats t => st.initializers t = some payload
  | .operand t slot =>
    st.initializers t ≠ none ∧ st.holds (seg, node, .operand t slot) ≠ none ∨
      st.initializers t = some payload ∧ CoversFlat plan t payload
  | .chainOperand t slot flatWorld =>
    st.initializers t ≠ none ∧ st.holds (seg, node, .chainOperand t slot flatWorld) ≠ none ∨
      st.initializers t = some payload ∧ payload ≠ [] ∧
        (flatWorld = true → CoversFlat plan t payload)
  | .truth t =>
    let d := plan.graph.desc t
    let fp16 := plan.nodeStoresFp16 (plan.graph.node node)
    st.initializers t = some payload ∧ truthBytesNeeded d ≤ payload.length ∨
      st.initializers t = some [] ∧ 0 < truthBytesNeeded d ∧
        ∃ shared, st.memo seg (t, flatInitializerStore fp16) = some shared ∧
          sharesTruth d fp16 shared = true
  | .fill t => st.initializers t ≠ none ∧ st.buffers seg t ≠ none ∨ st.initializers t = some payload

def WeightStep.Finds (st : WeightState) : WeightStep → Prop
  | .read seg node r =>
    ∀ payload, plan.payload r.tensor = some payload → Found plan st seg node payload r
  | _ => True

/-- Every step of a sequence reads only what it finds. -/
def AllFind (st : WeightState) : List WeightStep → Prop
  | [] => True
  | s :: rest => s.Finds plan st ∧ AllFind (st.step plan decode toHalf s).1 rest

/-! ## The invariant -/

/-- A copy in the pool was made from a payload with the digest of its key. -/
def CopyOf (payloads : HostBuffer → Prop) (key : CopyKey) (copy : HostBuffer) : Prop :=
  match key with
  | .flat dtype count digest fp16 =>
    ∃ payload, payloads payload ∧ contentDigest payload = digest ∧
      copy = flatCopy decode toHalf dtype count payload fp16
  | .raw _ digest _ => ∃ payload, payloads payload ∧ contentDigest payload = digest ∧ copy = payload

/-- The copy that a segment remembers for a store. -/
def storedCopy (t : TensorId) (payload : HostBuffer) : InitializerDeviceStore → HostBuffer
  | .flatFp16 => flatInit decode toHalf plan t payload true
  | .flatFp32 => flatInit decode toHalf plan t payload false
  | .rawBytes => payload

theorem storedCopy_flat (t : TensorId) (payload : HostBuffer) (fp16 : Bool) :
    storedCopy decode toHalf plan t payload (flatInitializerStore fp16) =
      flatInit decode toHalf plan t payload fp16 := by
  cases fp16 with
  | _ => rfl

/-- A payload is what the graph had or has been released, and every copy holds its value. -/
structure Faithful (payloads : HostBuffer → Prop) (st : WeightState) : Prop where
  initializers : ∀ t hb, st.initializers t = some hb →
    ∃ payload, plan.payload t = some payload ∧ (hb = payload ∨ hb = [])
  memo : ∀ seg t store copy, st.memo seg (t, store) = some copy →
    ∃ payload, plan.payload t = some payload ∧ copy = storedCopy decode toHalf plan t payload store
  pool : Memo.From (CopyOf decode toHalf payloads) st.pool
  buffers : ∀ seg t copy, st.buffers seg t = some copy →
    ∃ payload, plan.payload t = some payload ∧ copy = initLanes decode plan t payload
  holds : ∀ seg node r copy, st.holds (seg, node, r) = some copy →
    ∃ payload, plan.payload r.tensor = some payload ∧
      HoldsValue decode toHalf plan (plan.nodeStoresFp16 (plan.graph.node node)) payload copy r

/-- The payloads of the plans that share a backend: those of this plan are among them, and no two
have one digest. -/
structure Digested (payloads : HostBuffer → Prop) : Prop where
  own : ∀ t payload, plan.payload t = some payload → payloads payload
  apart : ∀ payload payload', payloads payload → payloads payload' →
    contentDigest payload = contentDigest payload' → payload = payload'

section Steps

variable {decode toHalf plan} {payloads : HostBuffer → Prop} {st : WeightState}

/-- What a read finds at the start of an update of a table with two keys. -/
theorem update₂_cases {α β γ : Type} [DecidableEq α] [DecidableEq β] {f : α → β → Option γ} {a a' : α}
    {b b' : β} {new : Option γ} {c : γ}
    (here : Function.update f a (Function.update (f a) b new) a' b' = some c) :
    a' = a ∧ b' = b ∧ new = some c ∨ f a' b' = some c := by
  by_cases sameOuter : a' = a
  · subst sameOuter
    rw [update_self] at here
    by_cases sameInner : b' = b
    · subst sameInner
      rw [update_self] at here
      exact .inl ⟨rfl, rfl, here⟩
    · rw [update_of_ne sameInner] at here
      exact .inr here
  · rw [update_of_ne sameOuter] at here
    exact .inr here

theorem Faithful.releaseInitializer (faithful : Faithful decode toHalf plan payloads st) (seg : Nat)
    (t : TensorId) : Faithful decode toHalf plan payloads (releaseInitializer plan seg t st) := by
  unfold Vulkan.releaseInitializer
  split
  · exact faithful
  rename_i hb held
  split
  · exact faithful
  refine { faithful with initializers := fun u hb' here => ?_ }
  dsimp only at here
  by_cases same : u = t
  · subst same
    rw [update_self] at here
    obtain ⟨payload, given, -⟩ := faithful.initializers u hb held
    exact ⟨payload, given, .inr (some.inj here).symm⟩
  · rw [update_of_ne same] at here
    exact faithful.initializers u hb' here

variable {payload : HostBuffer} {r : Read}

theorem Faithful.rememberFlatWeight (faithful : Faithful decode toHalf plan payloads st) (seg : Nat)
    {t : TensorId} (given : plan.payload t = some payload)
    (store : InitializerDeviceStore) :
    Faithful decode toHalf plan payloads
      (rememberFlatWeight seg (t, store) (storedCopy decode toHalf plan t payload store) st) := by
  refine { faithful with memo := fun seg' u store' copy here => ?_ }
  rcases update₂_cases here with ⟨-, same, new⟩ | before
  · obtain ⟨rfl, rfl⟩ := Prod.mk.inj same
    exact ⟨payload, given, (some.inj new).symm⟩
  · exact faithful.memo seg' u store' copy before

/-- **A shared copy is the copy of this payload**, when no other payload has its key. -/
theorem Faithful.shareCopy (faithful : Faithful decode toHalf plan payloads st) (seg : Nat)
    {t : TensorId} (given : plan.payload t = some payload)
    (store : InitializerDeviceStore) (key : CopyKey) (make : HostBuffer)
    (made : CopyOf decode toHalf payloads key make)
    (only : ∀ copy, CopyOf decode toHalf payloads key copy →
      copy = storedCopy decode toHalf plan t payload store) :
    let shared := shareCopy plan seg t store key make payload st
    shared.1 = storedCopy decode toHalf plan t payload store ∧
      Faithful decode toHalf plan payloads shared.2 := by
  obtain ⟨served, pool⟩ := faithful.pool.acquire made
  have copy := only _ served
  have pooled : Faithful decode toHalf plan payloads
      { st with pool := (Memo.acquire st.pool key make).2 } :=
    ⟨faithful.initializers, faithful.memo, pool, faithful.buffers, faithful.holds⟩
  have remembered : Faithful decode toHalf plan payloads
      (Vulkan.rememberFlatWeight seg (t, store) (Memo.acquire st.pool key make).1
        { st with pool := (Memo.acquire st.pool key make).2 }) := by
    rw [copy]
    exact pooled.rememberFlatWeight seg given store
  refine ⟨copy, ?_⟩
  unfold Vulkan.shareCopy
  dsimp only
  split
  · exact remembered.releaseInitializer seg t
  · exact remembered

/-! ## The reads -/

/-- **A flat upload of a payload that is there** gives its flat copy. -/
theorem Faithful.uploadInit (digested : Digested plan payloads)
    (faithful : Faithful decode toHalf plan payloads st) (seg : Nat) (fp16 : Bool) {t : TensorId}
    (given : plan.payload t = some payload)
    (there : st.initializers t = some payload) (covers : CoversFlat plan t payload) :
    let read := uploadInit decode toHalf plan seg fp16 t st
    read.1 = .ok (flatInit decode toHalf plan t payload fp16) ∧
      Faithful decode toHalf plan payloads read.2 := by
  have flat := storedCopy_flat decode toHalf plan t payload fp16
  unfold Vulkan.uploadInit
  rw [there]
  dsimp only
  rw [if_neg (not_lt.mpr covers)]
  split
  · rename_i memo remembered
    obtain ⟨payload', given', copy⟩ := faithful.memo seg t _ memo remembered
    obtain rfl := some.inj (given'.symm.trans given)
    exact ⟨congrArg ok (copy.trans flat), faithful⟩
  · let key : CopyKey := .flat (plan.graph.desc t).dtype
      (uploadInitElemCount (plan.graph.desc t).shape (plan.graph.desc t).dtype payload.length)
      (contentDigest payload) fp16
    have made : CopyOf decode toHalf payloads key (flatInit decode toHalf plan t payload fp16) :=
      ⟨payload, digested.own t payload given, rfl, rfl⟩
    have only : ∀ copy, CopyOf decode toHalf payloads key copy →
        copy = storedCopy decode toHalf plan t payload (flatInitializerStore fp16) := by
      rintro copy ⟨payload', shared, digest, rfl⟩
      rw [digested.apart payload' payload shared (digested.own t payload given) digest, flat]
      rfl
    obtain ⟨copy, after⟩ := faithful.shareCopy seg given (flatInitializerStore fp16) key _ made only
    exact ⟨congrArg ok (copy.trans flat), after⟩

/-- **A raw upload** gives the payload, when that is there or the segment remembers it. -/
theorem Faithful.uploadInitRaw (digested : Digested plan payloads)
    (faithful : Faithful decode toHalf plan payloads st) (seg : Nat) (fp16 : Bool) {t : TensorId}
    (tag : Str) (given : plan.payload t = some payload)
    (found : st.initializers t = some payload ∨
      st.initializers t ≠ none ∧ st.memo seg (t, .rawBytes) ≠ none) :
    let read := uploadInitRaw plan seg fp16 t tag st
    read.1 = .ok payload ∧ Faithful decode toHalf plan payloads read.2 := by
  unfold Vulkan.uploadInitRaw
  cases held : st.initializers t with
  | none => exact absurd found (by simp [held])
  | some hb =>
    dsimp only
    split
    · rename_i memo remembered
      obtain ⟨payload', given', copy⟩ := faithful.memo seg t _ memo remembered
      obtain rfl := some.inj (given'.symm.trans given)
      exact ⟨congrArg ok copy, faithful⟩
    · rename_i absent
      have there := found.resolve_right fun memo => memo.2 absent
      obtain rfl := some.inj (held.symm.trans there)
      have made : CopyOf decode toHalf payloads (.raw tag (contentDigest hb) fp16) hb :=
        ⟨hb, digested.own t hb given, rfl, rfl⟩
      have only : ∀ copy, CopyOf decode toHalf payloads (.raw tag (contentDigest hb) fp16) copy →
          copy = storedCopy decode toHalf plan t hb .rawBytes := by
        rintro copy ⟨payload', shared, digest, rfl⟩
        exact digested.apart _ _ shared (digested.own t hb given) digest
      obtain ⟨copy, after⟩ := faithful.shareCopy seg given .rawBytes _ hb made only
      exact ⟨congrArg ok copy, after⟩

theorem initFloats_of_there {t : TensorId}
    (there : st.initializers t = some payload) :
    initFloats decode plan t st = .ok (initLanes decode plan t payload) := by
  unfold initFloats
  rw [there]
  rfl

/-- **A read by truth** finds the payload, or the shared copy of a released one. -/
theorem Faithful.uploadTruth (faithful : Faithful decode toHalf plan payloads st) (seg : Nat)
    (fp16 : Bool) {t : TensorId} (given : plan.payload t = some payload)
    (found : st.initializers t = some payload ∧
        truthBytesNeeded (plan.graph.desc t) ≤ payload.length ∨
      st.initializers t = some [] ∧ 0 < truthBytesNeeded (plan.graph.desc t) ∧
        ∃ shared, st.memo seg (t, flatInitializerStore fp16) = some shared ∧
          sharesTruth (plan.graph.desc t) fp16 shared = true) :
    ∃ copy, uploadTruth decode toHalf plan seg fp16 t st = .ok copy ∧
      HoldsValue decode toHalf plan fp16 payload copy (.truth t) := by
  unfold Vulkan.uploadTruth
  rcases found with ⟨there, covers⟩ | ⟨released, needed, shared, remembered, shares⟩
  · rw [there]
    dsimp only
    rw [if_pos covers, initFloats_of_there there]
    exact ⟨_, rfl, .inl rfl⟩
  · obtain ⟨payload', given', copy⟩ := faithful.memo seg t _ shared remembered
    obtain rfl := some.inj (given'.symm.trans given)
    rw [released]
    dsimp only
    rw [length_nil, if_neg (not_le.mpr needed), remembered]
    dsimp only
    rw [isEmpty_nil, Bool.true_and, if_pos shares]
    refine ⟨shared, rfl, .inr ⟨fun half => ?_, copy.trans (storedCopy_flat _ _ _ _ _ _)⟩⟩
    subst half
    exact ((and_eq_true _ _).mp shares).2

theorem Faithful.hold (seg node : Nat)
    (given : plan.payload r.tensor = some payload)
    (result : Except ReadFault HostBuffer × WeightState) {copy : HostBuffer}
    (ok : result.1 = .ok copy) (faithful : Faithful decode toHalf plan payloads result.2)
    (value : HoldsValue decode toHalf plan (plan.nodeStoresFp16 (plan.graph.node node)) payload copy r) :
    (hold (seg, node, r) result).1 = .ok copy ∧
      Faithful decode toHalf plan payloads (hold (seg, node, r) result).2 := by
  obtain ⟨outcome, after⟩ := result
  obtain rfl := ok
  refine ⟨rfl, { faithful with holds := fun seg' node' r' copy' here => ?_ }⟩
  dsimp only [Vulkan.hold] at here
  by_cases same : (seg', node', r') = (seg, node, r)
  · obtain ⟨rfl, rfl, rfl⟩ := same
    rw [update_self] at here
    obtain rfl := some.inj here
    exact ⟨payload, given, value⟩
  · rw [update_of_ne same] at here
    exact faithful.holds seg' node' r' copy' here

/-- A read of what is no initializer changes nothing. -/
theorem read_of_absent (seg node : Nat) (absent : st.initializers r.tensor = none) :
    (read decode toHalf plan seg node r st).2 = st := by
  cases r with
  | init t => simp only [Vulkan.read, Vulkan.uploadInit, show st.initializers t = none from absent]
  | raw t tag =>
    simp only [Vulkan.read, Vulkan.uploadInitRaw, show st.initializers t = none from absent]
  | floats t => rfl
  | truth t => rfl
  | operand t slot => simp only [Vulkan.read, show st.initializers t = none from absent]
  | chainOperand t slot flatWorld =>
    simp only [Vulkan.read, show st.initializers t = none from absent]
  | fill t => simp only [Vulkan.read, show st.initializers t = none from absent]

/-- **A read that finds its value resolves to it.** -/
theorem Faithful.read (digested : Digested plan payloads)
    (faithful : Faithful decode toHalf plan payloads st) (seg node : Nat)
    (given : plan.payload r.tensor = some payload)
    (found : Found plan st seg node payload r) :
    (∃ copy, (read decode toHalf plan seg node r st).1 = .ok copy ∧
      HoldsValue decode toHalf plan (plan.nodeStoresFp16 (plan.graph.node node)) payload copy r) ∧
      Faithful decode toHalf plan payloads (read decode toHalf plan seg node r st).2 := by
  cases r with
  | init t =>
    obtain ⟨ok, after⟩ := faithful.uploadInit digested seg
      (plan.nodeStoresFp16 (plan.graph.node node)) given found.1 found.2
    exact ⟨⟨_, ok, rfl⟩, after⟩
  | raw t tag =>
    obtain ⟨ok, after⟩ := faithful.uploadInitRaw digested seg
      (plan.nodeStoresFp16 (plan.graph.node node)) tag given found
    exact ⟨⟨_, ok, rfl⟩, after⟩
  | floats t => exact ⟨⟨_, initFloats_of_there found, rfl⟩, faithful⟩
  | truth t =>
    exact ⟨faithful.uploadTruth seg (plan.nodeStoresFp16 (plan.graph.node node)) given found,
      faithful⟩
  | operand t slot =>
    dsimp only [Vulkan.read]
    cases held : st.initializers t with
    | none => exact absurd found (by simp [Found, held])
    | some hb =>
      cases slots : st.holds (seg, node, .operand t slot) with
      | some copy =>
        obtain ⟨payload', given', value⟩ := faithful.holds seg node _ copy slots
        obtain rfl := some.inj (given'.symm.trans given)
        exact ⟨⟨copy, rfl, value⟩, faithful⟩
      | none =>
        obtain ⟨there, covers⟩ := found.resolve_left fun no => no.2 slots
        obtain ⟨ok, after⟩ := faithful.uploadInit digested seg
          (plan.nodeStoresFp16 (plan.graph.node node)) given there covers
        obtain ⟨same, kept⟩ := Faithful.hold seg node (r := .operand t slot) given _ ok after rfl
        exact ⟨⟨_, same, rfl⟩, kept⟩
  | chainOperand t slot flatWorld =>
    dsimp only [Vulkan.read]
    cases held : st.initializers t with
    | none => exact absurd found (by simp [Found, held])
    | some hb =>
      cases slots : st.holds (seg, node, .chainOperand t slot flatWorld) with
      | some copy =>
        obtain ⟨payload', given', value⟩ := faithful.holds seg node _ copy slots
        obtain rfl := some.inj (given'.symm.trans given)
        exact ⟨⟨copy, rfl, value⟩, faithful⟩
      | none =>
        obtain ⟨there, nonempty, covers⟩ := found.resolve_left fun no => no.2 slots
        obtain rfl := some.inj (held.symm.trans there)
        dsimp only
        rw [if_neg (by simpa using nonempty)]
        cases flatWorld with
        | true =>
          obtain ⟨ok, after⟩ := faithful.uploadInit digested seg
            (plan.nodeStoresFp16 (plan.graph.node node)) given there (covers rfl)
          obtain ⟨same, kept⟩ := Faithful.hold seg node (r := .chainOperand t slot true) given _
            ok after rfl
          exact ⟨⟨_, same, rfl⟩, kept⟩
        | false =>
          obtain ⟨same, kept⟩ := Faithful.hold seg node (r := .chainOperand t slot false) given
            (initFloats decode plan t st, st) (initFloats_of_there there) faithful rfl
          exact ⟨⟨_, same, rfl⟩, kept⟩
  | fill t =>
    dsimp only [Vulkan.read]
    cases held : st.initializers t with
    | none => exact absurd found (by simp [Found, held])
    | some hb =>
      cases filled : st.buffers seg t with
      | some copy =>
        obtain ⟨payload', given', value⟩ := faithful.buffers seg t copy filled
        obtain rfl := some.inj (given'.symm.trans given)
        exact ⟨⟨copy, rfl, value⟩, faithful⟩
      | none =>
        have there := found.resolve_left fun no => no.2 filled
        dsimp only
        rw [initFloats_of_there there]
        refine ⟨⟨_, rfl, rfl⟩, { faithful with buffers := fun seg' t' copy here => ?_ }⟩
        rcases update₂_cases here with ⟨-, rfl, new⟩ | before
        · exact ⟨payload, given, (some.inj new).symm⟩
        · exact faithful.buffers seg' t' copy before

/-! ## Steps and runs -/

/-- **A step that finds what it reads keeps every copy faithful**, and its read resolves. -/
theorem Faithful.step (digested : Digested plan payloads)
    (faithful : Faithful decode toHalf plan payloads st) {s : WeightStep} (finds : s.Finds plan st) :
    Faithful decode toHalf plan payloads (st.step plan decode toHalf s).1 ∧
      ∀ x ∈ (st.step plan decode toHalf s).2, x.Holds decode toHalf plan := by
  have nothing : ∀ x ∈ ([] : List Resolution), x.Holds decode toHalf plan := fun x no => nomatch no
  cases s with
  | build seg =>
    refine ⟨{ faithful with memo := fun seg' t store copy here => ?_ }, nothing⟩
    dsimp only [WeightState.step] at here
    by_cases same : seg' = seg
    · rw [same, update_self] at here
      cases here
    · rw [update_of_ne same] at here
      exact faithful.memo seg' t store copy here
  | read seg node r =>
    cases given : plan.payload r.tensor with
    | none =>
      have absent : st.initializers r.tensor = none := by
        cases held : st.initializers r.tensor with
        | none => rfl
        | some hb =>
          obtain ⟨payload, given', -⟩ := faithful.initializers _ hb held
          cases given.symm.trans given'
      refine ⟨?_, fun x mem payload given' => ?_⟩
      · dsimp only [WeightState.step]
        rw [read_of_absent seg node absent]
        exact faithful
      · obtain rfl := mem_singleton.mp mem
        cases given.symm.trans given'
    | some payload =>
      obtain ⟨resolved, after⟩ := faithful.read digested seg node given (finds payload given)
      refine ⟨after, fun x mem payload' given' => ?_⟩
      obtain rfl := mem_singleton.mp mem
      obtain rfl := some.inj (given.symm.trans given')
      exact resolved
  | expire key => exact ⟨{ faithful with pool := faithful.pool.erase key }, nothing⟩
  | forget seg key =>
    refine ⟨{ faithful with memo := fun seg' t store copy here => ?_ }, nothing⟩
    rcases update₂_cases here with ⟨-, -, no⟩ | before
    · cases no
    · exact faithful.memo seg' t store copy before
  | erase =>
    refine ⟨{ faithful with initializers := fun t hb here => ?_ }, nothing⟩
    dsimp only [WeightState.step] at here
    split at here
    · cases here
    · exact faithful.initializers t hb here

theorem faithful_start {pool : CopyKey → Option HostBuffer}
    (pooled : Memo.From (CopyOf decode toHalf payloads) pool) :
    Faithful decode toHalf plan payloads { plan.start with pool } where
  initializers := fun _ hb here => ⟨hb, here, .inl rfl⟩
  memo := fun _ _ _ _ no => nomatch no
  pool := pooled
  buffers := fun _ _ _ no => nomatch no
  holds := fun _ _ _ _ no => nomatch no

/-- Whatever a sequence of steps reads resolves, when every step finds what it reads. -/
theorem Faithful.run (digested : Digested plan payloads) (steps : List WeightStep)
    (faithful : Faithful decode toHalf plan payloads st)
    (finds : AllFind decode toHalf plan st steps) :
    ∀ x ∈ st.run plan decode toHalf steps, x.Holds decode toHalf plan := by
  induction steps generalizing st with
  | nil => exact fun x no => nomatch no
  | cons s rest ih =>
    obtain ⟨after, here⟩ := faithful.step digested finds.1
    intro x mem
    rcases mem_append.mp mem with now | later
    · exact here x now
    · exact ih after finds.2 x later

end Steps

section Refused

variable {st : WeightState} (seg : Nat) (fp16 : Bool) {t : TensorId}

theorem initializers_releaseInitializer {payload : HostBuffer}
    (there : st.initializers t = some payload) (notKept : (st.kept seg).contains t = false)
    (owned : plan.viewed t = false) :
    (releaseInitializer plan seg t st).initializers t = some [] := by
  unfold releaseInitializer
  simp only [there, notKept, owned, Bool.or_self, Bool.false_eq_true, if_false, update_self]

/-- The first flat upload of a large payload releases it. -/
theorem released_uploadInit {payload : HostBuffer} (there : st.initializers t = some payload)
    (covers : CoversFlat plan t payload) (first : st.memo seg (t, flatInitializerStore fp16) = none)
    (large : kReleaseThresholdBytes ≤ payload.length) (notKept : (st.kept seg).contains t = false)
    (owned : plan.viewed t = false) :
    (uploadInit decode toHalf plan seg fp16 t st).2.initializers t = some [] := by
  unfold uploadInit
  rw [there]
  dsimp only
  rw [if_neg (not_lt.mpr covers), first]
  dsimp only [shareCopy]
  rw [if_pos large]
  exact initializers_releaseInitializer plan seg there notKept owned

/-- **A flat upload of a released initializer is refused**, whatever the segment remembers. -/
theorem uploadInit_refused (released : st.initializers t = some [])
    (needed : ¬ CoversFlat plan t []) :
    (uploadInit decode toHalf plan seg fp16 t st).1 = .error .shortPayload := by
  unfold uploadInit
  rw [released]
  dsimp only
  rw [if_pos (not_le.mp needed)]

end Refused

end Release

/-! ## Two products with one weight -/

/-- The plain kernels of a matrix product: constant operands are uploaded flat when it is prepared. -/
def matMulKernels : Kernels where
  prepare g nd :=
    if nd.type = .matMul then ((nd.inputs.take 2).filter g.isInitializer).map .init else []
  record _ _ := []
  segmentFilledConstantOperandEnd _ _ := 0

/-- A plan of two products with the same square weight, in one segment. -/
def tiedPlan (size : Int) (payload : HostBuffer) : WeightPlan where
  graph := {
    tensors := [{ name := str "x", shape := [1, size] },
      { name := str "w", shape := [size, size], isInitializer := true },
      { name := str "h", shape := [1, size] }, { name := str "y", shape := [1, size] }]
    nodes := [{ type := .matMul, inputs := [0, 1], outputs := [2] },
      { type := .matMul, inputs := [2, 1], outputs := [3] }]
    inputs := [0]
    outputs := [3]
    initializers := (∅ : Std.ExtTreeMap TensorId HostBuffer).insert 1 payload }
  segments := [[0, 1]]

theorem planSteps_tiedPlan (size : Int) (payload : HostBuffer) :
    planSteps (tiedPlan size payload) matMulKernels [] =
      [.build 0, .read 0 0 (.init 1), .read 0 1 (.init 1), .erase] := rfl

theorem coversFlat_tiedPlan (payload bytes : HostBuffer) :
    CoversFlat (tiedPlan 512 payload) 1 bytes ↔ 2 ^ 20 ≤ bytes.length := by
  have count : uploadInitElemCount [512, 512] .float32 bytes.length = 262144 := by
    unfold uploadInitElemCount
    rw [show numElements [512, 512] = 262144 from rfl]
    exact if_pos (by decide)
  have needed : uploadInitPayloadBytesNeeded 262144 .float32 = 2 ^ 20 := by decide
  change uploadInitPayloadBytesNeeded (uploadInitElemCount [512, 512] .float32 bytes.length) .float32 ≤
    bytes.length ↔ _
  rw [count, needed]

/-- The second product is refused its weight, after the first has released it. -/
theorem tiedPlan_refused (decode : DType → List UInt8 → Float32Bits)
    (toHalf : HostBuffer → HostBuffer) {payload : HostBuffer} (size : payload.length = 2 ^ 20) :
    ⟨1, .init 1, .error .shortPayload⟩ ∈ (tiedPlan 512 payload).start.run (tiedPlan 512 payload) decode toHalf
      (planSteps (tiedPlan 512 payload) matMulKernels []) := by
  obtain ⟨built, step0⟩ : ∃ built, built =
    ((tiedPlan 512 payload).start.step (tiedPlan 512 payload) decode toHalf (.build 0)).1 := ⟨_, rfl⟩
  obtain ⟨first, step1⟩ : ∃ first, first =
    (built.step (tiedPlan 512 payload) decode toHalf (.read 0 0 (.init 1))).1 := ⟨_, rfl⟩
  have there : built.initializers 1 = some payload := by rw [step0]; rfl
  have unmade : built.memo 0 (1, flatInitializerStore false) = none := by rw [step0]; rfl
  have notKept : (built.kept 0).contains 1 = false := by rw [step0]; rfl
  have covers : CoversFlat (tiedPlan 512 payload) 1 payload :=
    (coversFlat_tiedPlan payload payload).mpr size.ge
  have large : kReleaseThresholdBytes ≤ payload.length := by rw [size, kReleaseThresholdBytes]
  have released : first.initializers 1 = some [] := by
    rw [step1]
    exact released_uploadInit decode toHalf (tiedPlan 512 payload) 0 false there covers unmade large
      notKept rfl
  have small : ¬ CoversFlat (tiedPlan 512 payload) 1 [] := fun covers =>
    absurd ((coversFlat_tiedPlan payload []).mp covers) (by decide)
  have refused := uploadInit_refused decode toHalf (tiedPlan 512 payload) 0 false released small
  rw [planSteps_tiedPlan, WeightState.run, WeightState.run, WeightState.run, ← step0, ← step1]
  refine mem_append_right _ (mem_append_right _ (mem_append_left _ ?_))
  have second : (first.step (tiedPlan 512 payload) decode toHalf (.read 0 1 (.init 1))).2 =
      [⟨1, .init 1, .error .shortPayload⟩] :=
    congrArg (fun result => [Resolution.mk 1 (.init 1) result]) refused
  rw [second]
  exact mem_cons_self

end Vknn.Vulkan
