import Vknn.Session.Run

/-!
# The copies of linked runs

The ranges of a link are checked once, against the planned shapes of the two
tensors.  They are applied at every later run, to whatever storage the two
tensors then have.  The copies stay inside as long as that storage is never
smaller than planned, which is the invariant here: `Roomy` for one tensor,
`RoomyPool` for the inputs and outputs of a plan.

Linking, clearing and applying links keep the invariant, and so does everything a
run does by itself.  What can break it is an entry that binds a smaller shape
under the loose check of a host plan, or a segment that leaves an output smaller
than planned; and a range whose end does not fit its 64-bit word passes the check
of the ranges.
-/

namespace Vknn.Session

open List Function Int

/-! ## Room -/

/-- A copy reads inside its source and writes inside its destination. -/
structure RangeCopy.Inside (c : RangeCopy) : Prop where
  source : 0 ≤ c.range.sourceElem
  dest : 0 ≤ c.range.destElem
  count : 0 ≤ c.range.count
  read : (c.range.sourceElem + c.range.count) * c.elemBytes ≤ c.srcBytes
  written : (c.range.destElem + c.range.count) * c.elemBytes ≤ c.dstBytes

/-- An element count that covers a planned one and whose bytes can be counted. -/
def Covers (planned elems : Int) : Prop := planned ≤ elems ∧ elems < 2 ^ 60

/-- A tensor has at least the storage it was planned with, or would be given it. -/
structure Roomy (d : TensorDesc) (rt : RtTensor) : Prop where
  small : elemCount d.shape < 2 ^ 60
  storage : rt.hostValid = true → rt.host ≠ [] →
    elemCount d.shape * rt.dtype.dtypeSize ≤ rt.host.length
  shape : rt.shape = [] ∨ Covers (elemCount d.shape) (elemCount rt.shape)

/-- The inputs and outputs of a plan are roomy. -/
def RoomyPool (g : Graph) (pool : Pool) : Prop :=
  ∀ id, id ∈ g.inputs ∨ id ∈ g.outputs → Roomy (g.desc id) (pool id)

theorem dtypeSize_le (dt : DType) : dt.dtypeSize ≤ 8 := by
  cases dt with
  | _ => simp [DType.dtypeSize]

/-- Storage for a covering element count has room for the planned one. -/
theorem room_of_covers {planned elems : Int} (covers : Covers planned elems) (dt : DType) :
    planned * dt.dtypeSize ≤ wantBytes elems dt := by
  obtain ⟨enough, small⟩ := covers
  have size := dtypeSize_le dt
  unfold wantBytes
  split
  · rename_i positive
    obtain ⟨n, rfl⟩ := eq_ofNat_of_zero_le positive.le
    have fits : n * dt.dtypeSize < 2 ^ 64 := by
      have countable : n < 2 ^ 60 := by exact_mod_cast small
      calc n * dt.dtypeSize ≤ n * 8 := Nat.mul_le_mul_left n size
        _ < 2 ^ 64 := by omega
    rw [toNat_natCast, Nat.mod_eq_of_lt fits, Nat.cast_mul]
    exact mul_le_mul_of_nonneg_right enough (by positivity)
  · rename_i negative
    have none : planned ≤ 0 := by omega
    exact_mod_cast mul_nonpos_of_nonpos_of_nonneg none (by positivity)

variable {shape : Shape} {dstElems srcElems : Int} {r : LinkRange} {dst : HostBuffer} {s' : Session}

/-- A given shape that covers the planned one, or the planned one in its place, is stored with
enough elements. -/
theorem covers_chosen {planned : Shape} (small : elemCount planned < 2 ^ 60)
    (fits : shape = [] ∨ Covers (elemCount planned) (elemCount shape)) :
    Covers (elemCount planned)
      (storedElems (if shape.isEmpty then planned else shape)) := by
  cases shape with
  | nil =>
    rw [isEmpty_nil, if_pos rfl]
    unfold storedElems
    cases planned with
    | nil => exact ⟨by decide, by decide⟩
    | cons d planned => exact ⟨le_rfl, small⟩
  | cons d shape =>
    rcases fits with empty | covers
    · cases empty
    · exact covers

/-! ## Storage of a linked tensor -/

variable {d : TensorDesc} {g : Graph} {rt : RtTensor} {elemBytes : Nat} {src : HostBuffer}
  {pool : Pool}

theorem Roomy.shape_of_chosen
    (small : elemCount d.shape < 2 ^ 60)
    (fits : shape = [] ∨ Covers (elemCount d.shape) (elemCount shape)) :
    (if shape.isEmpty then d.shape else shape) = [] ∨
      Covers (elemCount d.shape) (elemCount (if shape.isEmpty then d.shape else shape)) := by
  cases shape with
  | nil =>
    rw [isEmpty_nil, if_pos rfl]
    exact Or.inr ⟨le_rfl, small⟩
  | cons e shape => exact fits

/-- **A linked tensor has at least its planned storage once it is made resident.** -/
theorem roomy_ensureResidentHostStorage {id : TensorId}
    (roomy : Roomy (g.desc id) rt) :
    Roomy (g.desc id) (ensureResidentHostStorage g id rt) ∧
      elemCount (g.desc id).shape * (ensureResidentHostStorage g id rt).dtype.dtypeSize ≤
        (ensureResidentHostStorage g id rt).host.length := by
  unfold ensureResidentHostStorage
  split
  · rename_i resident
    rw [Bool.and_eq_true, Bool.not_eq_true', isEmpty_eq_false_iff] at resident
    exact ⟨roomy, roomy.storage resident.1 resident.2⟩
  · have room := room_of_covers (covers_chosen roomy.small roomy.shape)
      (internalStorageDtype (g.desc id).dtype)
    simp only [length_replicate]
    refine ⟨⟨roomy.small, fun _ _ => ?_, Roomy.shape_of_chosen roomy.small roomy.shape⟩, room⟩
    rw [length_replicate]
    exact room

/-! ## Copying ranges -/

/-- A range inside two tensors of the given element counts. -/
structure Fits (srcElems dstElems : Int) (r : LinkRange) : Prop where
  source : 0 ≤ r.sourceElem
  dest : 0 ≤ r.destElem
  count : 0 < r.count
  read : r.sourceElem + r.count ≤ srcElems
  written : r.destElem + r.count ≤ dstElems

theorem Fits.inside
    (fits : Fits srcElems dstElems r)
    (srcRoom : srcElems * elemBytes ≤ src.length) (dstRoom : dstElems * elemBytes ≤ dst.length) :
    RangeCopy.Inside ⟨r, elemBytes, src.length, dst.length⟩ where
  source := fits.source
  dest := fits.dest
  count := fits.count.le
  read := (mul_le_mul_of_nonneg_right fits.read (by positivity)).trans srcRoom
  written := (mul_le_mul_of_nonneg_right fits.written (by positivity)).trans dstRoom

/-- A copy that stays inside leaves the size of its destination as it was. -/
theorem RangeCopy.Inside.length_memcpyRange
    (inside : RangeCopy.Inside ⟨r, elemBytes, src.length, dst.length⟩) :
    (memcpyRange elemBytes src dst r).length = dst.length := by
  obtain ⟨source, dest, count, read, written⟩ := inside
  obtain ⟨sourceElem, destElem, count'⟩ := r
  simp only at source dest count read written
  obtain ⟨start, rfl⟩ := eq_ofNat_of_zero_le source
  obtain ⟨target, rfl⟩ := eq_ofNat_of_zero_le dest
  obtain ⟨n, rfl⟩ := eq_ofNat_of_zero_le count
  have readNat : start * elemBytes + n * elemBytes ≤ src.length := by
    rw [← Nat.add_mul]
    exact_mod_cast read
  have writtenNat : target * elemBytes + n * elemBytes ≤ dst.length := by
    rw [← Nat.add_mul]
    exact_mod_cast written
  simp only [memcpyRange, toNat_natCast, length_append, length_take, length_drop]
  omega

/-- **Ranges that fit are copied inside both buffers.** -/
theorem copyRanges_inside
    {ranges : List LinkRange} (fits : ∀ r ∈ ranges, Fits srcElems dstElems r)
    (srcRoom : srcElems * elemBytes ≤ src.length) (dst : HostBuffer)
    (dstRoom : dstElems * elemBytes ≤ dst.length) :
    (∀ c ∈ (copyRanges elemBytes src ranges dst).2, c.Inside) ∧
      (copyRanges elemBytes src ranges dst).1.length = dst.length := by
  induction ranges generalizing dst with
  | nil => exact ⟨fun c mem => (not_mem_nil mem).elim, rfl⟩
  | cons r rest ih =>
    have here := (fits r mem_cons_self).inside srcRoom dstRoom
    have size := here.length_memcpyRange
    obtain ⟨later, length⟩ := ih (fun r mem => fits r (mem_cons_of_mem _ mem))
      (memcpyRange elemBytes src dst r) (by rw [size]; exact dstRoom)
    refine ⟨fun c mem => ?_, ?_⟩
    · rcases mem_cons.mp mem with rfl | inLater
      · exact here
      · exact later c inLater
    · rw [copyRanges, length, size]

/-! ## Applying the links -/

/-- A link of a plan whose ranges fit the planned shapes of its two ends. -/
structure LinkFits (g : Graph) (link : ResidentLink) : Prop where
  output : link.outId ∈ g.outputs
  input : link.inId ∈ g.inputs
  apart : link.outId ≠ link.inId
  ranges : ∀ ranges ∈ link.rangeSets, ∀ r ∈ ranges,
    Fits (elemCount (g.desc link.outId).shape) (elemCount (g.desc link.inId).shape) r

theorem RoomyPool.update (roomy : RoomyPool g pool) (id : TensorId)
    (rt : RtTensor) (new : id ∈ g.inputs ∨ id ∈ g.outputs → Roomy (g.desc id) rt) :
    RoomyPool g (update pool id rt) := by
  intro other boundary
  by_cases same : other = id
  · subst same
    rw [update_self]
    exact new boundary
  · rw [update_of_ne same]
    exact roomy other boundary

theorem Roomy.withHost (roomy : Roomy d rt) (host : HostBuffer)
    (room : elemCount d.shape * rt.dtype.dtypeSize ≤ host.length) :
    Roomy d { rt with host } :=
  ⟨roomy.small, fun _ _ => room, roomy.shape⟩

/-- **Applying links that fit to a roomy pool copies inside and leaves it roomy.** -/
theorem applyResidentLinks_inside (bucketIndex : Nat) (links : List ResidentLink)
    (fits : ∀ link ∈ links, link.bucket = bucketIndex → LinkFits g link)
    (roomy : RoomyPool g pool) :
    (∀ c ∈ (applyResidentLinks bucketIndex g links pool).copies, c.Inside) ∧
      RoomyPool g (applyResidentLinks bucketIndex g links pool).pool := by
  have none : ∀ c ∈ ([] : List RangeCopy), c.Inside := fun c mem =>
    (not_mem_nil mem).elim
  induction links generalizing pool with
  | nil => exact ⟨none, roomy⟩
  | cons link rest ih =>
    have fitsRest : ∀ link ∈ rest, link.bucket = bucketIndex → LinkFits g link :=
      fun link mem => fits link (mem_cons_of_mem _ mem)
    unfold applyResidentLinks
    split
    · exact ih fitsRest roomy
    rename_i here
    rw [not_not] at here
    have linkFits := fits link mem_cons_self here
    split
    · exact ⟨none, roomy⟩
    split
    · exact ih fitsRest roomy
    obtain ⟨srcRoomy, srcRoom⟩ := roomy_ensureResidentHostStorage
      (roomy link.outId (Or.inr linkFits.output))
    simp only [update_of_ne linkFits.apart.symm]
    obtain ⟨dstRoomy, dstRoom⟩ := roomy_ensureResidentHostStorage
      (roomy link.inId (Or.inl linkFits.input))
    generalize ensureResidentHostStorage g link.outId (pool link.outId) = src
      at srcRoomy srcRoom ⊢
    generalize ensureResidentHostStorage g link.inId (pool link.inId) = dst
      at dstRoomy dstRoom ⊢
    have resident : RoomyPool g
        (update (update pool link.outId src) link.inId dst) :=
      (roomy.update _ _ fun _ => srcRoomy).update _ _ fun _ => dstRoomy
    split
    · exact ⟨none, resident⟩
    rename_i sameType
    rw [not_not] at sameType
    have rangesFit : ∀ r ∈ link.rangeSets.headD [],
        Fits (elemCount (g.desc link.outId).shape) (elemCount (g.desc link.inId).shape) r := by
      cases sets : link.rangeSets with
      | nil => exact fun r mem => (not_mem_nil mem).elim
      | cons ranges more =>
        intro r mem
        exact linkFits.ranges ranges (by rw [sets]; exact mem_cons_self) r mem
    rw [← sameType] at dstRoom
    obtain ⟨copied, length⟩ := copyRanges_inside rangesFit srcRoom _ dstRoom
    have kept := dstRoomy.withHost ((copyRanges src.dtype.dtypeSize src.host
      (link.rangeSets.headD []) dst.host).1) (by rw [length, ← sameType]; exact dstRoom)
    obtain ⟨later, after⟩ := ih fitsRest (resident.update _ _ fun _ => kept)
    refine ⟨fun c mem => ?_, after⟩
    rcases mem_append.mp mem with inHere | inLater
    · exact copied c inHere
    · exact later c inLater

/-! ## The rest of a run -/

/-- An entry that gives a tensor no shape, or one that covers the planned shape. -/
def EntryFits (d : TensorDesc) (io : IOTensor) : Prop :=
  io.shape = [] ∨ Covers (elemCount d.shape) (elemCount io.shape)

section Bind

variable (decode : DType → List UInt8 → Float32Bits)

theorem length_decodeHostLanesToFloat32 (dtype : DType) (bytes : List UInt8) (count : Nat) :
    (decodeHostLanesToFloat32 decode dtype bytes count).length = 4 * count := by
  rw [decodeHostLanesToFloat32, length_flatMap]
  simp only [Wire.length_leBytes, map_const', sum_replicate_nat, length_range, Nat.mul_comm]

theorem length_boundBytes (src : DType) (input : List UInt8) (elems : Int) :
    (boundBytes decode src input elems).length =
      wantBytes elems (if src = .int64 then .int64 else .float32) := by
  have want : ∀ dt, wantBytes elems dt ≤ elems.toNat * dt.dtypeSize := by
    intro dt
    unfold wantBytes
    split
    · exact Nat.mod_le _ _
    · exact Nat.zero_le _
  have wantWide := want .int64
  have wantSingle := want .float32
  simp only [DType.dtypeSize] at wantWide wantSingle
  unfold boundBytes
  split
  · simp only [length_take, length_append, length_replicate]
    omega
  · simp only [length_take, length_append, length_replicate, length_decodeHostLanesToFloat32]
    omega

/-- **An entry that fits leaves a roomy tensor.** -/
theorem Roomy.bindTensor {b : PlanBucket} {linked : TensorId → Bool} {id : TensorId}
    {io : IOTensor} {rt : RtTensor} (roomy : Roomy (b.graph.desc id) rt)
    (onHost : b.ioGpuConvert = false) (fits : EntryFits (b.graph.desc id) io) :
    Roomy (b.graph.desc id) (Session.bindTensor decode b linked id io rt) := by
  have shape := Roomy.shape_of_chosen roomy.small fits
  unfold Session.bindTensor
  split
  · refine ⟨roomy.small, fun valid => ?_, shape⟩
    cases valid
  rw [onHost, Bool.false_and, Bool.false_and, if_neg Bool.false_ne_true]
  refine ⟨roomy.small, fun _ _ => ?_, shape⟩
  have room := room_of_covers (covers_chosen roomy.small fits)
    (if io.dtype = .int64 then .int64 else .float32)
  rw [bindInput, length_boundBytes]
  exact room

theorem RoomyPool.bindInputs {b : PlanBucket} {pool : Pool} (roomy : RoomyPool b.graph pool)
    (linked : TensorId → Bool) {inputs : List IOTensor}
    (onHost : b.ioGpuConvert = false)
    (fits : ∀ io ∈ inputs, ∀ id, resolve b.graph io.name = some id →
      id ∈ b.graph.inputs ∨ id ∈ b.graph.outputs → EntryFits (b.graph.desc id) io) :
    RoomyPool b.graph (Session.bindInputs decode b linked inputs pool).2 := by
  induction inputs generalizing pool with
  | nil => exact roomy
  | cons io rest ih =>
    have fitsRest := fun io mem => fits io (mem_cons_of_mem _ mem)
    unfold Session.bindInputs
    cases resolved : resolve b.graph io.name with
    | none => exact roomy
    | some id =>
      have bound := roomy.update id (Session.bindTensor decode b linked id io
        (pool id)) fun boundary =>
          (roomy id boundary).bindTensor decode onHost
            (fits io mem_cons_self id resolved boundary)
      simp only
      split
      · split
        · exact ih bound fitsRest
        · exact bound
      · exact roomy

end Bind

theorem Roomy.withFd (roomy : Roomy d rt) (dmaBufFd : Int) : Roomy d { rt with dmaBufFd } :=
  ⟨roomy.small, roomy.storage, roomy.shape⟩

theorem RoomyPool.clearFds (roomy : RoomyPool g pool)
    (ids : List TensorId) : RoomyPool g (clearFds ids pool) := by
  intro id boundary
  unfold Session.clearFds
  split
  · exact (roomy id boundary).withFd _
  · exact roomy id boundary

theorem RoomyPool.bindOutputFds (roomy : RoomyPool g pool)
    (outputs : List IOTensor) : RoomyPool g (bindOutputFds g outputs pool) := by
  induction outputs generalizing pool with
  | nil => exact roomy
  | cons io rest ih =>
    unfold Session.bindOutputFds
    split
    · exact ih roomy
    split
    · exact ih (roomy.update _ _ fun boundary => (roomy _ boundary).withFd _)
    · exact ih roomy

theorem RoomyPool.reclaim (roomy : RoomyPool g pool)
    (outputs : List IOTensor) (ids : List TensorId) :
    RoomyPool g (reclaim g outputs ids pool).2 := by
  induction outputs generalizing pool ids with
  | nil => exact roomy
  | cons io outputs ih =>
    cases ids with
    | nil => exact roomy
    | cons oid ids =>
      unfold Session.reclaim
      split
      · rename_i taken
        have refilled : oid ∈ g.inputs ∨ oid ∈ g.outputs →
            Roomy (g.desc oid) { pool oid with host := io.data } := by
          refine fun boundary => ⟨(roomy oid boundary).small, fun valid => ?_,
            (roomy oid boundary).shape⟩
          -- Storage is only taken back while the tensor holds no values.
          have holds : (pool oid).hostValid = true := valid
          simp [reclaims, holds] at taken
        exact ih (roomy.update _ _ refilled) ids
      · exact ih roomy ids

theorem RoomyPool.takeOutputs (roomy : RoomyPool g pool)
    (outputs : List IOTensor) : RoomyPool g (takeOutputs g outputs pool).2 :=
  ((roomy.clearFds g.outputs).bindOutputFds outputs).reclaim outputs g.outputs

theorem Roomy.readbackOutput (roomy : Roomy d rt)
    (encode : DType → RtTensor → Int → List UInt8) (dst : DType) (elems : Int) :
    Roomy d (readbackOutput encode dst rt elems).2 := by
  unfold Session.readbackOutput
  split
  · refine ⟨roomy.small, fun valid => ?_, roomy.shape⟩
    cases valid
  · exact roomy

theorem RoomyPool.collectOutputs (roomy : RoomyPool g pool)
    (encode : DType → RtTensor → Int → List UInt8) (linkedOutput : TensorId → Bool)
    (ids : List TensorId) :
    RoomyPool g (collectOutputs encode g linkedOutput ids pool).2 := by
  induction ids generalizing pool with
  | nil => exact roomy
  | cons oid rest ih =>
    refine ih (roomy.update _ _ fun boundary => Roomy.withFd ?_ _)
    split
    · exact roomy oid boundary
    · exact (roomy oid boundary).readbackOutput encode _ _

/-! ## The link table across runs -/

/-- A link without the mark that its ranges have changed. -/
def clean (link : ResidentLink) : ResidentLink := { link with rangesDirty := false }

/-- What a link is checked against in a plan. -/
def compiled (b : PlanBucket) : Graph × List CompiledSegment := (b.graph, b.segments)

theorem Endpoints.refresh {s : Session} {link link' : ResidentLink} {b b' : PlanBucket}
    (cfg : s'.cfg = s.cfg) (plan : s'.buckets[link.bucket]? = some b')
    (same : compiled b' = compiled b) (links : clean link' = clean link)
    (joined : Endpoints s link b) : Endpoints s' link' b' := by
  obtain ⟨key, graph, segments, pool, raw, axes⟩ := b
  obtain ⟨key', graph', segments', pool', raw', axes'⟩ := b'
  obtain ⟨rfl, rfl⟩ := Prod.mk.inj same
  obtain ⟨bucket, outputName, inputName, outId, inId, device, rangeSets, dirty⟩ := link
  obtain ⟨bucket', outputName', inputName', outId', inId', device', rangeSets', dirty'⟩ := link'
  simp only [clean, ResidentLink.mk.injEq] at links
  obtain ⟨rfl, rfl, rfl, rfl, rfl, rfl, rfl, -⟩ := links
  exact { joined with
    plan := plan
    few := by rw [maxRangeSets, cfg]; exact joined.few
    placed := by rw [cfg]; exact joined.placed }

/-- **The invariant of the table only looks at settings, graphs, segments and links**, and at no
mark of changed ranges. -/
theorem LinkTable.refresh {s : Session} (table : LinkTable s) (cfg : s'.cfg = s.cfg)
    (plans : s'.buckets.map compiled = s.buckets.map compiled)
    (links : s'.links.map clean = s.links.map clean)
    (registrations : s'.registrations = s.registrations) : LinkTable s' where
  oneSource := by
    have cleaned := fun l : List ResidentLink => pairwise_map (f := clean)
      (R := fun a b => a.bucket = b.bucket → a.inId ≠ b.inId) (l := l)
    refine (cleaned s'.links).mp ?_
    rw [links]
    exact (cleaned s.links).mpr table.oneSource
  endpoints := by
    intro link' mem'
    have inside := mem_map_of_mem (f := clean) mem'
    rw [links] at inside
    obtain ⟨link, mem, same⟩ := mem_map.mp inside
    obtain ⟨b, joined⟩ := table.endpoints link mem
    have here := congrArg (fun l => l[link.bucket]?) plans
    simp only [getElem?_map, joined.plan, Option.map_some] at here
    obtain ⟨b', plan, alike⟩ := Option.map_eq_some_iff.mp here
    exact ⟨b', joined.refresh cfg plan alike same.symm⟩
  registered := by
    intro entry
    have endsOf : ∀ l : List ResidentLink, l.map ends = (l.map clean).map ends := by
      intro l
      rw [map_map]
      rfl
    rw [registrations, endsOf, links, ← endsOf]
    exact table.registered entry

/-- Applying links changes no more of them than the mark of changed ranges. -/
theorem clean_applyResidentLinks (bucketIndex : Nat) (g : Graph) (links : List ResidentLink)
    (pool : Pool) :
    (applyResidentLinks bucketIndex g links pool).links.map clean = links.map clean := by
  induction links generalizing pool with
  | nil => rfl
  | cons link rest ih =>
    unfold applyResidentLinks
    split
    · simp only [map_cons, ih]
    split
    · rfl
    split
    · simp only [map_cons, ih]
      rfl
    dsimp only
    split
    · rfl
    · simp only [map_cons, ih]

/-- Links that are all on the device are applied without a host copy. -/
theorem copies_applyResidentLinks (bucketIndex : Nat) (g : Graph) (links : List ResidentLink)
    (device : ∀ link ∈ links, link.deviceSegment ≠ none) (pool : Pool) :
    (applyResidentLinks bucketIndex g links pool).copies = [] := by
  induction links generalizing pool with
  | nil => rfl
  | cons link rest ih =>
    have deviceRest := fun l mem => device l (mem_cons_of_mem _ mem)
    unfold applyResidentLinks
    split
    · exact ih deviceRest pool
    split
    · rfl
    split
    · exact ih deviceRest pool
    · rename_i host
      exact absurd (Option.isNone_iff_eq_none.mp (Option.not_isSome_iff_eq_none.mp host ▸ rfl))
        (device link mem_cons_self)

/-! ## What a run does -/

section Run

variable (decode : DType → List UInt8 → Float32Bits)
variable (encode : DType → RtTensor → Int → List UInt8)

/-- What a run on a host plan must meet: every entry bound to an input or output fits, and the
segments leave a roomy pool. -/
structure CarefulRun (b : PlanBucket) (exec : Pool → Bool × Pool) (inputs : List IOTensor) :
    Prop where
  entries : ∀ io ∈ inputs, ∀ id, resolve b.graph io.name = some id →
    id ∈ b.graph.inputs ∨ id ∈ b.graph.outputs → EntryFits (b.graph.desc id) io
  segments : ∀ pool, RoomyPool b.graph pool → RoomyPool b.graph (exec pool).2

/-- **What a run leaves**: other runtime tensors in its plan, and links that differ in marks
only.  On a roomy host plan a careful run leaves a roomy plan and copies inside; links on the
device make no host copy. -/
theorem runBucket_spec (exec : Pool → Bool × Pool) (s : Session) (i : Nat) (b : PlanBucket)
    (inputs outputs : List IOTensor) :
    ∃ links pool,
      (runBucket decode encode exec s i b inputs outputs).session =
        ({ s with links }).setPool i b pool ∧
      links.map clean = s.links.map clean ∧
      (b.ioGpuConvert = false → RoomyPool b.graph b.pool → CarefulRun b exec inputs →
        (∀ link ∈ s.links, link.bucket = i → LinkFits b.graph link) →
        RoomyPool b.graph pool ∧
          ∀ c ∈ (runBucket decode encode exec s i b inputs outputs).copies, c.Inside) ∧
      ((∀ link ∈ s.links, link.deviceSegment ≠ none) →
        (runBucket decode encode exec s i b inputs outputs).copies = []) := by
  have none : ∀ c ∈ ([] : List RangeCopy), c.Inside := fun c mem =>
    (not_mem_nil mem).elim
  unfold runBucket
  have boundRoomy := fun (onHost : b.ioGpuConvert = false) (roomy : RoomyPool b.graph b.pool)
      (careful : CarefulRun b exec inputs) =>
    (roomy.clearFds b.graph.inputs).bindInputs decode (s.linkedInput i) onHost
      careful.entries
  generalize bindInputs decode b (s.linkedInput i) inputs (clearFds b.graph.inputs b.pool) = bound
    at boundRoomy ⊢
  obtain ⟨status, pool⟩ := bound
  split
  · rename_i bound
    obtain ⟨rfl, rfl⟩ := Prod.mk.inj bound
    have cleaned := clean_applyResidentLinks i b.graph s.links
      (takeOutputs b.graph outputs pool).2
    have noCopies := fun device => copies_applyResidentLinks i b.graph s.links device
      (takeOutputs b.graph outputs pool).2
    have applied := fun onHost roomy careful fits => applyResidentLinks_inside i s.links fits
      ((boundRoomy onHost roomy careful).takeOutputs outputs)
    dsimp only
    generalize applyResidentLinks i b.graph s.links (takeOutputs b.graph outputs pool).2 = after
      at cleaned noCopies applied ⊢
    split
    · split
      · rename_i ran
        refine ⟨_, _, rfl, cleaned, fun onHost roomy careful fits => ?_, noCopies⟩
        obtain ⟨inside, left⟩ := applied onHost roomy careful fits
        have segments := careful.segments _ left
        rw [ran] at segments
        exact ⟨segments.collectOutputs encode _ _, inside⟩
      · rename_i ran
        refine ⟨_, _, rfl, cleaned, fun onHost roomy careful fits => ?_, noCopies⟩
        obtain ⟨inside, left⟩ := applied onHost roomy careful fits
        have segments := careful.segments _ left
        rw [ran] at segments
        exact ⟨segments, inside⟩
    · refine ⟨_, _, rfl, cleaned, fun onHost roomy careful fits => ?_, noCopies⟩
      obtain ⟨inside, left⟩ := applied onHost roomy careful fits
      exact ⟨left, inside⟩
  · rename_i bound
    obtain ⟨rfl, rfl⟩ := Prod.mk.inj bound
    exact ⟨s.links, _, rfl, rfl,
      fun onHost roomy careful _ => ⟨boundRoomy onHost roomy careful, none⟩, fun _ => rfl⟩

/-! ## Sessions -/

/-- A range whose two ends fit their 64-bit words. -/
def NoOverflow (r : LinkRange) : Prop :=
  r.sourceElem + r.count < 2 ^ 63 ∧ r.destElem + r.count < 2 ^ 63

/-- **Ranges that pass their check and do not overflow fit the planned shapes.** -/
theorem fits_of_validateLinkRanges {g : Graph} {outId inId : TensorId} {ranges : List LinkRange}
    (valid : validateLinkRanges g outId inId ranges = .ok)
    (noOverflow : ∀ r ∈ ranges, NoOverflow r) :
    ∀ r ∈ ranges, Fits (elemCount (g.desc outId).shape) (elemCount (g.desc inId).shape) r := by
  intro r mem
  unfold validateLinkRanges at valid
  dsimp only at valid
  split at valid
  · cases valid
  rename_i inside
  rw [any_eq_true] at inside
  have here : ¬ rangeOutside (elemCount (g.desc outId).shape) (elemCount (g.desc inId).shape) r =
      true := fun outside => inside ⟨r, mem, outside⟩
  simp only [rangeOutside, Bool.or_eq_true, decide_eq_true_eq, not_or, not_le, not_lt, gt_iff_lt]
    at here
  obtain ⟨⟨⟨⟨count, source⟩, dest⟩, read⟩, written⟩ := here
  obtain ⟨readEnd, writtenEnd⟩ := noOverflow r mem
  rw [wrap64_of_fits (by omega) readEnd] at read
  rw [wrap64_of_fits (by omega) writtenEnd] at written
  exact ⟨source, dest, count, read, written⟩

variable {s : Session}

theorem Endpoints.linkFits {link : ResidentLink} {b : PlanBucket}
    (joined : Endpoints s link b)
    (noOverflow : ∀ ranges ∈ link.rangeSets, ∀ r ∈ ranges, NoOverflow r) :
    LinkFits b.graph link where
  output := joined.output
  input := joined.input
  apart := by
    intro same
    apply joined.sourceOnly
    rw [same]
    exact joined.input
  ranges := fun ranges mem => fits_of_validateLinkRanges
    ((validateRangeSets_ok_iff _ _ _ _).mp joined.ranges ranges mem) (noOverflow ranges mem)

/-- The state of a session between calls: a sound link table and, on the host, ranges that do not
overflow and roomy plans. -/
structure Resident (s : Session) : Prop where
  table : LinkTable s
  noOverflow : s.cfg.backend = .cpu →
    ∀ link ∈ s.links, ∀ ranges ∈ link.rangeSets, ∀ r ∈ ranges, NoOverflow r
  onHost : s.cfg.backend = .cpu → ∀ b ∈ s.buckets, b.ioGpuConvert = false
  roomy : s.cfg.backend = .cpu → ∀ b ∈ s.buckets, RoomyPool b.graph b.pool

/-- A call on a session: a call of the link table, with the answer the device would give, or a
run, with what running the segments does. -/
inductive Step where
  | link (answer : Registration → Status) (c : LinkCall)
  | run (exec : PlanBucket → Pool → Bool × Pool) (inputs outputs : List IOTensor)

/-- What a step leaves, and the copies it makes. -/
def step (s : Session) : Step → Session × List RangeCopy
  | .link answer c => ((s.call answer c).2, [])
  | .run exec inputs outputs =>
    let result := run decode encode exec s inputs outputs
    (result.session, result.copies)

/-- What a sequence of steps leaves, and all copies it makes. -/
def steps (s : Session) : List Step → Session × List RangeCopy
  | [] => (s, [])
  | now :: later =>
    let here := step decode encode s now
    let rest := steps here.1 later
    (rest.1, here.2 ++ rest.2)

/-- What a step on a host session must meet: its ranges do not overflow, and its run is
careful. -/
def CarefulStep (s : Session) : Step → Prop
  | .link _ c => ∀ r ∈ c.ranges, NoOverflow r
  | .run exec inputs _ => ∀ i b, selectBucket s inputs = some i → s.buckets[i]? = some b →
      CarefulRun b (exec b) inputs

/-- Every step meets its condition in the session it is taken in. -/
def CarefulSteps (s : Session) : List Step → Prop
  | [] => True
  | now :: later => CarefulStep s now ∧ CarefulSteps (step decode encode s now).1 later

theorem Resident.link (resident : Resident s) (answer : Registration → Status)
    (c : LinkCall) (careful : s.cfg.backend = .cpu → ∀ r ∈ c.ranges, NoOverflow r) :
    Resident (s.call answer c).2 := by
  obtain ⟨cfg, buckets⟩ := call_frame answer s c
  refine ⟨resident.table.call answer c, fun cpu link mem ranges inSets r inRanges => ?_, ?_, ?_⟩
  · rw [cfg] at cpu
    rcases rangeSets_call answer s c mem with ⟨old, before, same⟩ | brought
    · rw [same] at inSets
      exact resident.noOverflow cpu old before ranges inSets r inRanges
    · refine careful cpu r ?_
      rw [← brought]
      exact mem_flatten.mpr ⟨ranges, inSets, inRanges⟩
  · rw [cfg, buckets]
    exact resident.onHost
  · rw [cfg, buckets]
    exact resident.roomy

theorem Resident.setPool (resident : Resident s) {links : List ResidentLink}
    {i : Nat} {b : PlanBucket} {pool : Pool} (plan : s.buckets[i]? = some b)
    (marks : links.map clean = s.links.map clean)
    (roomy : s.cfg.backend = .cpu → RoomyPool b.graph pool) :
    Resident (({ s with links }).setPool i b pool) := by
  obtain ⟨small, here⟩ := List.getElem?_eq_some_iff.mp plan
  have plans : (s.buckets.set i { b with pool }).map compiled = s.buckets.map compiled := by
    have inside : i < (s.buckets.map compiled).length := by rwa [length_map]
    have kept : compiled { b with pool } = (s.buckets.map compiled)[i] := by
      rw [getElem_map, here]
      rfl
    rw [map_set, kept, set_getElem_self]
  refine ⟨resident.table.refresh rfl plans marks rfl, fun cpu link mem => ?_,
    fun cpu other mem => ?_, fun cpu other mem => ?_⟩
  · have inside : clean link ∈ links.map clean := mem_map_of_mem mem
    rw [marks] at inside
    obtain ⟨old, before, same⟩ := mem_map.mp inside
    have sets : (clean link).rangeSets = old.rangeSets := by rw [← same, clean]
    change ∀ ranges ∈ (clean link).rangeSets, ∀ r ∈ ranges, NoOverflow r
    rw [sets]
    exact resident.noOverflow cpu old before
  · rcases mem_or_eq_of_mem_set mem with old | rfl
    · exact resident.onHost cpu other old
    · exact resident.onHost cpu b (mem_of_getElem? plan)
  · rcases mem_or_eq_of_mem_set mem with old | rfl
    · exact resident.roomy cpu other old
    · exact roomy cpu

/-- **A careful run copies inside and keeps the session resident.** -/
theorem Resident.run (resident : Resident s)
    (exec : PlanBucket → Pool → Bool × Pool) (inputs outputs : List IOTensor)
    (careful : s.cfg.backend = .cpu → CarefulStep s (.run exec inputs outputs)) :
    (∀ c ∈ (Session.run decode encode exec s inputs outputs).copies, c.Inside) ∧
      Resident (Session.run decode encode exec s inputs outputs).session := by
  have none : ∀ c ∈ ([] : List RangeCopy), c.Inside := fun c mem =>
    (not_mem_nil mem).elim
  unfold Session.run
  cases selected : selectBucket s inputs with
  | none => exact ⟨none, resident⟩
  | some i =>
    dsimp only
    cases plan : s.buckets[i]? with
    | none => exact ⟨none, resident⟩
    | some b =>
      obtain ⟨links, pool, left, marks, host, device⟩ :=
        runBucket_spec decode encode (exec b) s i b inputs outputs
      have mem := mem_of_getElem? plan
      dsimp only
      rw [left]
      by_cases cpu : s.cfg.backend = .cpu
      · have fits : ∀ link ∈ s.links, link.bucket = i → LinkFits b.graph link := by
          intro link inside same
          obtain ⟨p, joined⟩ := resident.table.endpoints link inside
          have plans : some p = some b := by rw [← joined.plan, same, plan]
          obtain rfl := Option.some.inj plans
          exact joined.linkFits (resident.noOverflow cpu link inside)
        obtain ⟨roomy, inside⟩ := host (resident.onHost cpu b mem)
          (resident.roomy cpu b mem) (careful cpu i b selected plan) fits
        exact ⟨inside, resident.setPool plan marks fun _ => roomy⟩
      · have onDevice : ∀ link ∈ s.links, link.deviceSegment ≠ Option.none := by
          intro link inside hosted
          obtain ⟨p, joined⟩ := resident.table.endpoints link inside
          exact cpu (joined.placed.mp hosted)
        rw [device onDevice]
        exact ⟨none, resident.setPool plan marks fun host => absurd host cpu⟩

/-- **One careful step copies inside and keeps the session resident.** -/
theorem Resident.step (resident : Resident s) (now : Step)
    (careful : s.cfg.backend = .cpu → CarefulStep s now) :
    (∀ c ∈ (Session.step decode encode s now).2, c.Inside) ∧
      Resident (Session.step decode encode s now).1 := by
  cases now with
  | link answer c => exact ⟨fun c mem => (not_mem_nil mem).elim, resident.link answer c careful⟩
  | run exec inputs outputs => exact resident.run decode encode exec inputs outputs careful

theorem cfg_step (s : Session) (now : Step) : (step decode encode s now).1.cfg = s.cfg := by
  cases now with
  | link answer c => exact (call_frame answer s c).1
  | run exec inputs outputs =>
    change (run decode encode exec s inputs outputs).session.cfg = s.cfg
    unfold run
    cases selectBucket s inputs with
    | none => rfl
    | some i =>
      dsimp only
      cases s.buckets[i]? with
      | none => rfl
      | some b =>
        obtain ⟨links, pool, left, _⟩ := runBucket_spec decode encode (exec b) s i b inputs outputs
        dsimp only
        rw [left]
        rfl

theorem Resident.steps (resident : Resident s) (sequence : List Step)
    (careful : s.cfg.backend = .cpu → CarefulSteps decode encode s sequence) :
    ∀ c ∈ (Session.steps decode encode s sequence).2, c.Inside := by
  induction sequence generalizing s with
  | nil => exact fun c mem => (not_mem_nil mem).elim
  | cons now later ih =>
    obtain ⟨inside, next⟩ := resident.step decode encode now fun cpu => (careful cpu).1
    have rest := ih next fun cpu => (careful (by rwa [cfg_step] at cpu)).2
    intro c mem
    rcases mem_append.mp mem with here | there
    · exact inside c here
    · exact rest c there

/-! ## Opened sessions -/

/-- What a plan is built from. -/
structure PlanSource where
  graph : Graph
  segments : List CompiledSegment
  constants : Std.ExtTreeMap TensorId (DType × HostBuffer) := ∅

/-- A session opened on freshly built plans. -/
def openPlans (cfg : Config) (plans : List PlanSource) : Session :=
  opened cfg (plans.map fun p => buildBucket cfg p.graph p.segments p.constants)

/-- Freshly built plans are roomy: no input or output is too large to count its bytes, or a
constant shorter than its shape. -/
def RoomyPlans (cfg : Config) (plans : List PlanSource) : Prop :=
  ∀ p ∈ plans, RoomyPool p.graph (buildBucket cfg p.graph p.segments p.constants).pool

theorem resident_openPlans {cfg : Config} {plans : List PlanSource}
    (roomy : cfg.backend = .cpu → RoomyPlans cfg plans) : Resident (openPlans cfg plans) where
  table := linkTable_opened cfg _
  noOverflow := fun _ link mem => (not_mem_nil mem).elim
  onHost := by
    intro cpu b mem
    obtain ⟨p, _, rfl⟩ := mem_map.mp mem
    have host : cfg.backend = .cpu := cpu
    simp [buildBucket, host]
  roomy := by
    intro cpu b mem
    obtain ⟨p, inside, rfl⟩ := mem_map.mp mem
    exact roomy cpu p inside

/-- **On a host session whose plans are roomy and whose steps are careful, every copy of every
run stays inside its buffers**; on a device session, always. -/
theorem copies_inside_of_careful (cfg : Config) (plans : List PlanSource) (sequence : List Step)
    (careful : cfg.backend = .cpu → RoomyPlans cfg plans ∧
      CarefulSteps decode encode (openPlans cfg plans) sequence) :
    ∀ c ∈ (steps decode encode (openPlans cfg plans) sequence).2, c.Inside :=
  (resident_openPlans fun cpu => (careful cpu).1).steps decode encode sequence
    fun cpu => (careful cpu).2

end Run

/-! ## A run that binds a smaller tensor -/

/-- Copies one tensor to another: `present` is a copy of `past`, four channels of one row of
two. -/
def pastPresent : Graph where
  tensors := [{ name := str "past", shape := [1, 4, 1, 2], isInput := true },
    { name := str "present", shape := [1, 4, 1, 2], isOutput := true }]
  nodes := [{ type := .identity, inputs := [0], outputs := [1] }]
  tensorByName := ((∅ : Std.ExtTreeMap Str TensorId).insert (str "past") 0).insert
    (str "present") 1
  inputs := [0]
  outputs := [1]

/-- The session that runs it on the host. -/
def pastPresentPlans : List PlanSource :=
  [{ graph := pastPresent
     segments := [{ nodeIdx := [0], boundaryInputs := [0], boundaryOutputs := [1] }] }]

/-- Link the whole of `present` into `past`, then run once with the given entries. -/
def linkThenRun (inputs : List IOTensor) : List Step :=
  [.link (fun _ => .unsupported) (.linkOutputToInput (str "present") (str "past") [⟨0, 0, 8⟩]),
    .run (fun _ pool => (true, pool)) inputs []]

theorem copies_inside_pastPresent :
    (⟨⟨0, 0, 8⟩, 4, 32, 32⟩ : RangeCopy) ∈ (steps (fun _ _ => ⟨0⟩) (fun _ _ _ => [])
        (openPlans onHost pastPresentPlans) (linkThenRun [])).2 ∧
      ∀ c ∈ (steps (fun _ _ => ⟨0⟩) (fun _ _ _ => []) (openPlans onHost pastPresentPlans)
        (linkThenRun [])).2, c.Inside := by
  refine ⟨by decide +kernel, copies_inside_of_careful _ _ onHost pastPresentPlans (linkThenRun [])
    fun _ => ⟨?_, ?_⟩⟩
  · intro p mem id boundary
    obtain rfl := mem_singleton.mp mem
    have two : id = 0 ∨ id = 1 :=
      boundary.imp (fun input => mem_singleton.mp input) fun output =>
        mem_singleton.mp output
    rcases two with rfl | rfl
    · refine ⟨by decide, fun valid => ?_, Or.inr ⟨by decide, by decide⟩⟩
      exact absurd valid (by decide)
    · refine ⟨by decide, fun valid => ?_, Or.inr ⟨by decide, by decide⟩⟩
      exact absurd valid (by decide)
  · refine ⟨fun r mem => ?_, fun i b _ _ => ⟨fun io mem => ?_, fun pool roomy => roomy⟩, trivial⟩
    · obtain rfl := mem_singleton.mp mem
      exact ⟨by decide, by decide⟩
    · cases mem

/-- **Binding one channel where four were planned makes the copy overrun the input**: both shapes
take the same padded storage, and so pass the check. -/
theorem smallerPast_overruns : ¬ ∀ sequence, ∀ c ∈ (steps (fun _ _ => ⟨0⟩) (fun _ _ _ => [])
      (openPlans onHost pastPresentPlans) sequence).2, c.Inside := by
  intro inside
  have copied : (⟨⟨0, 0, 8⟩, 4, 32, 8⟩ : RangeCopy) ∈ (steps (fun _ _ => ⟨0⟩) (fun _ _ _ => [])
      (openPlans onHost pastPresentPlans)
      (linkThenRun [{ name := str "past", shape := [1, 1, 1, 2] }])).2 := by
    decide +kernel
  have written := (inside _ _ copied).written
  exact absurd written (by decide)

end Vknn.Session
