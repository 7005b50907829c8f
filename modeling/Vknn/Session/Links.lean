import Vknn.Session.State

/-!
# Linking outputs to inputs

A link says that a graph output feeds a graph input on the next run.  Three entry
points fill the table: one finds the plan by the two names, one takes it, and one
gives a range set for every step of a decode chain.  They all end in the third.

A link is checked against the graph, against the settings and against the links
that exist; on a device session a segment must own both ends and agree to apply
the copies.  The answer of that segment, which knows its own buffers, is the
parameter `answer`.

The invariant of the table holds after every sequence of calls, and a call that
fails leaves the session as it was.
-/

namespace Vknn.Session

open List
open Or (inl inr)

/-! ## Ranges -/

/-- The class a linked tensor is stored in on the host. -/
def internalStorageDtype (declared : DType) : DType :=
  if declared = .int64 then .int64 else .float32

/-- Whether a range leaves one of the two tensors. -/
def rangeOutside (srcElems dstElems : Int) (r : LinkRange) : Bool :=
  decide (r.count ≤ 0) || decide (r.sourceElem < 0) || decide (r.destElem < 0) ||
    decide (wrap64 (r.sourceElem + r.count) > srcElems) ||
    decide (wrap64 (r.destElem + r.count) > dstElems)

def spanLe (a b : Int × Int) : Bool := a.1 < b.1 || (a.1 = b.1 && a.2 ≤ b.2)

/-- Whether two neighbours of a sorted list of spans overlap. -/
def spansOverlap : List (Int × Int) → Bool
  | [] => false
  | [_] => false
  | a :: b :: rest => b.1 < a.2 || spansOverlap (b :: rest)

/-- Bounds and overlap check of a range set against the planned shapes of both tensors. -/
def validateLinkRanges (g : Graph) (outId inId : TensorId) (ranges : List LinkRange) : Status :=
  let srcElems := elemCount (g.desc outId).shape
  let dstElems := elemCount (g.desc inId).shape
  if ranges.any (rangeOutside srcElems dstElems) then .invalidArgument
  else
    let spans := ranges.map fun r => (r.destElem, wrap64 (r.destElem + r.count))
    if spansOverlap (spans.mergeSort spanLe) then .invalidArgument else .ok

/-- The first failure among the range sets. -/
def validateRangeSets (g : Graph) (outId inId : TensorId) : List (List LinkRange) → Status
  | [] => .ok
  | ranges :: rest =>
    match validateLinkRanges g outId inId ranges with
    | .ok => validateRangeSets g outId inId rest
    | failure => failure

theorem validateRangeSets_ok_iff (g : Graph) (outId inId : TensorId)
    (rangeSets : List (List LinkRange)) :
    validateRangeSets g outId inId rangeSets = .ok ↔
      ∀ ranges ∈ rangeSets, validateLinkRanges g outId inId ranges = .ok := by
  induction rangeSets with
  | nil => simp [validateRangeSets]
  | cons ranges rest ih =>
    rw [validateRangeSets, forall_mem_cons, ← ih]
    cases validateLinkRanges g outId inId ranges <;> simp

/-! ## The entry points -/

def maxRangeSets (s : Session) : Int := max 1 s.cfg.decodeChainSteps

/-- Whether a link is the one between two names of a plan. -/
def ResidentLink.joins (bucket : Nat) (outputName inputName : Str) (link : ResidentLink) : Bool :=
  decide (link.bucket = bucket ∧ link.outputName = outputName ∧ link.inputName = inputName)

/-- Replace the ranges of the first link between two names. -/
def replaceRanges (bucket : Nat) (outputName inputName : Str)
    (rangeSets : List (List LinkRange)) : List ResidentLink → List ResidentLink
  | [] => []
  | link :: rest =>
    if ResidentLink.joins bucket outputName inputName link then
      { link with rangeSets, rangesDirty := true } :: rest
    else link :: replaceRanges bucket outputName inputName rangeSets rest

/-- Whether a segment produces the output and consumes the input. -/
def owns (outId inId : TensorId) (seg : CompiledSegment) : Bool :=
  seg.boundaryOutputs.contains outId && seg.boundaryInputs.contains inId

/-- Whether a node outside the segment reads one of the two tensors. -/
def readOutside (g : Graph) (owner : CompiledSegment) (outId inId : TensorId) : Bool :=
  g.nodes.zipIdx.any fun (n, i) =>
    !owner.nodeIdx.contains i &&
      (n.inputs.any (fun t => t = inId || t = outId) ||
        decide (n.fusedResidual = inId ∨ n.fusedResidual = outId))

/-- Enter a pair in a device segment's table, unless it is there or the device refuses. -/
def addResidentLink (answer : Registration → Status) (s : Session) (entry : Registration) :
    Status × Session :=
  match answer entry with
  | .ok =>
    if entry ∈ s.registrations then (.ok, s)
    else (.ok, { s with registrations := s.registrations ++ [entry] })
  | failure => (failure, s)

/-- Enter a new link, on the device where the session runs on one. -/
def appendLink (answer : Registration → Status) (s : Session) (b : PlanBucket)
    (link : ResidentLink) : Status × Session :=
  if s.cfg.backend = .cpu then
    if link.rangeSets.length > 1 then (.invalidArgument, s)
    else (.ok, { s with links := s.links ++ [link] })
  else
    match b.segments.findIdx? (owns link.outId link.inId) with
    | none => (.unsupported, s)
    | some owner =>
      if (b.segments[owner]?).any fun seg =>
          readOutside b.graph seg link.outId link.inId then (.unsupported, s)
      else
        match addResidentLink answer s ⟨link.bucket, owner, link.outId, link.inId⟩ with
        | (.ok, s') =>
          (.ok, { s' with links := s'.links ++ [{ link with deviceSegment := some owner }] })
        | (failure, _) => (failure, s)

/-- Link an output to an input of a plan, with one range set for every step of a chain. -/
def linkOutputToInputChain (answer : Registration → Status) (s : Session) (bucket : Nat)
    (outputName inputName : Str) (rangeSets : List (List LinkRange)) : Status × Session :=
  match s.buckets[bucket]? with
  | none => (.invalidArgument, s)
  | some b =>
    let g := b.graph
    let outId := g.find outputName
    let inId := g.find inputName
    if outId = kNoTensor ∨ outId ∉ g.outputs then (.notFound, s)
    else if inId = kNoTensor ∨ inId ∉ g.inputs then (.notFound, s)
    else if outId = inId ∨ outId ∈ g.inputs ∨ inId ∈ g.outputs then (.invalidArgument, s)
    else if internalStorageDtype (g.desc outId).dtype ≠ internalStorageDtype (g.desc inId).dtype
    then (.invalidArgument, s)
    else if rangeSets = [] ∨ (rangeSets.length : Int) > s.maxRangeSets then (.invalidArgument, s)
    else
      match validateRangeSets g outId inId rangeSets with
      | .ok =>
        match s.links.find? (ResidentLink.joins bucket outputName inputName) with
        | some existing =>
          if rangeSets.length > 1 ∧ existing.deviceSegment = none then (.invalidArgument, s)
          else (.ok,
            { s with links := replaceRanges bucket outputName inputName rangeSets s.links })
        | none =>
          if s.links.any fun existing => existing.bucket = bucket && existing.inId = inId
          then (.invalidArgument, s)
          else appendLink answer s b
            { bucket, outputName, inputName, outId, inId, rangeSets, rangesDirty := true }
      | failure => (failure, s)

/-- Link an output to an input of a plan. -/
def linkOutputToInputIn (answer : Registration → Status) (s : Session) (bucket : Nat)
    (outputName inputName : Str) (ranges : List LinkRange) : Status × Session :=
  linkOutputToInputChain answer s bucket outputName inputName [ranges]

/-- Whether a plan exposes both names. -/
def exposes (outputName inputName : Str) (b : PlanBucket) : Bool :=
  let out := b.graph.find outputName
  let input := b.graph.find inputName
  decide (out ≠ kNoTensor ∧ input ≠ kNoTensor ∧ out ∈ b.graph.outputs ∧ input ∈ b.graph.inputs)

/-- Link an output to an input of the one plan that exposes both. -/
def linkOutputToInput (answer : Registration → Status) (s : Session) (outputName inputName : Str)
    (ranges : List LinkRange) : Status × Session :=
  match s.buckets.findIdxs (exposes outputName inputName) with
  | [] => (.notFound, s)
  | [bucket] => linkOutputToInputIn answer s bucket outputName inputName ranges
  | _ => (.invalidArgument, s)

/-- Whether a link is applied by the device segment that holds an entry. -/
def ResidentLink.onSegmentOf (entry : Registration) (link : ResidentLink) : Bool :=
  decide (link.bucket = entry.bucket ∧ link.deviceSegment = some entry.segment)

/-- Drop every link, and the tables of the segments that applied one. -/
def clearLinks (s : Session) : Session :=
  { s with
    links := []
    registrations := s.registrations.filter fun entry =>
      !s.links.any (ResidentLink.onSegmentOf entry) }

/-- A call that reads or writes the link table. -/
inductive LinkCall where
  | linkOutputToInput (outputName inputName : Str) (ranges : List LinkRange)
  | linkOutputToInputIn (bucket : Nat) (outputName inputName : Str) (ranges : List LinkRange)
  | linkOutputToInputChain (bucket : Nat) (outputName inputName : Str)
      (rangeSets : List (List LinkRange))
  | clearLinks

def LinkCall.ranges : LinkCall → List LinkRange
  | .linkOutputToInput _ _ ranges => ranges
  | .linkOutputToInputIn _ _ _ ranges => ranges
  | .linkOutputToInputChain _ _ _ rangeSets => rangeSets.flatten
  | .clearLinks => []

def call (answer : Registration → Status) (s : Session) : LinkCall → Status × Session
  | .linkOutputToInput outputName inputName ranges =>
    s.linkOutputToInput answer outputName inputName ranges
  | .linkOutputToInputIn bucket outputName inputName ranges =>
    s.linkOutputToInputIn answer bucket outputName inputName ranges
  | .linkOutputToInputChain bucket outputName inputName rangeSets =>
    s.linkOutputToInputChain answer bucket outputName inputName rangeSets
  | .clearLinks => (.ok, s.clearLinks)

/-! ## What a call can do -/

/-- The checks a link passes before the table is looked at. -/
structure Checked (s : Session) (bucket : Nat) (outputName inputName : Str)
    (rangeSets : List (List LinkRange)) (b : PlanBucket) : Prop where
  plan : s.buckets[bucket]? = some b
  output : b.graph.find outputName ∈ b.graph.outputs
  input : b.graph.find inputName ∈ b.graph.inputs
  sourceOnly : b.graph.find outputName ∉ b.graph.inputs
  sinkOnly : b.graph.find inputName ∉ b.graph.outputs
  storage : internalStorageDtype (b.graph.desc (b.graph.find outputName)).dtype =
    internalStorageDtype (b.graph.desc (b.graph.find inputName)).dtype
  nonempty : rangeSets ≠ []
  few : (rangeSets.length : Int) ≤ s.maxRangeSets
  ranges : validateRangeSets b.graph (b.graph.find outputName) (b.graph.find inputName)
    rangeSets = .ok

/-- The link a successful call would enter. -/
def newLink (b : PlanBucket) (bucket : Nat) (outputName inputName : Str)
    (rangeSets : List (List LinkRange)) : ResidentLink :=
  { bucket, outputName, inputName, outId := b.graph.find outputName,
    inId := b.graph.find inputName, rangeSets, rangesDirty := true }

def Refused (s : Session) (result : Status × Session) : Prop :=
  ∃ failure, failure ≠ .ok ∧ result = (failure, s)

/-- **What a link call can do**: refuse, replace the ranges of the link between the two names, or
try to enter a new link into an input that none feeds. -/
theorem linkOutputToInputChain_cases (answer : Registration → Status) (s : Session) (bucket : Nat)
    (outputName inputName : Str) (rangeSets : List (List LinkRange)) :
    Refused s (s.linkOutputToInputChain answer bucket outputName inputName rangeSets) ∨
    ∃ b, Checked s bucket outputName inputName rangeSets b ∧ ((∃ existing,
          s.links.find? (ResidentLink.joins bucket outputName inputName) = some existing ∧
          (existing.deviceSegment = none → rangeSets.length ≤ 1) ∧
          s.linkOutputToInputChain answer bucket outputName inputName rangeSets = (.ok,
            { s with links := replaceRanges bucket outputName inputName rangeSets s.links })) ∨
        ((∀ existing ∈ s.links, existing.bucket = bucket → existing.inId ≠ b.graph.find inputName) ∧
          s.linkOutputToInputChain answer bucket outputName inputName rangeSets =
            appendLink answer s b (newLink b bucket outputName inputName rangeSets))) := by
  unfold linkOutputToInputChain
  cases plan : s.buckets[bucket]? with
  | none => exact inl ⟨_, by decide, rfl⟩
  | some b =>
    simp only
    split
    · exact inl ⟨_, by decide, rfl⟩
    rename_i outFound
    split
    · exact inl ⟨_, by decide, rfl⟩
    rename_i inFound
    split
    · exact inl ⟨_, by decide, rfl⟩
    rename_i apart
    split
    · exact inl ⟨_, by decide, rfl⟩
    rename_i storage
    split
    · exact inl ⟨_, by decide, rfl⟩
    rename_i count
    split
    · rename_i ranges
      push Not at outFound inFound apart storage count
      have checked : Checked s bucket outputName inputName rangeSets b :=
        ⟨plan, outFound.2, inFound.2, apart.2.1, apart.2.2, storage, count.1, count.2, ranges⟩
      cases found : s.links.find? (ResidentLink.joins bucket outputName inputName) with
      | some existing =>
        simp only
        split
        · exact inl ⟨_, by decide, rfl⟩
        · rename_i single
          refine inr ⟨b, checked, inl ⟨existing, rfl, fun host => ?_, rfl⟩⟩
          by_contra many
          exact single ⟨not_le.mp many, host⟩
      | none =>
        simp only
        split
        · exact inl ⟨_, by decide, rfl⟩
        · rename_i free
          refine inr ⟨b, checked, inr ⟨fun existing mem same fed => ?_, rfl⟩⟩
          apply free
          rw [any_eq_true]
          exact ⟨existing, mem, by simp [same, fed]⟩
    · rename_i failed
      exact inl ⟨_, failed, rfl⟩

/-- A device segment refuses a pair, or has it in its table afterwards. -/
theorem addResidentLink_cases (answer : Registration → Status) (s : Session)
    (entry : Registration) :
    Refused s (addResidentLink answer s entry) ∨
    ∃ registrations, addResidentLink answer s entry = (.ok, { s with registrations }) ∧
      ∀ e, e ∈ registrations ↔ e ∈ s.registrations ∨ e = entry := by
  unfold addResidentLink
  split
  · split
    · rename_i known
      refine inr ⟨s.registrations, rfl, fun e => ⟨inl, ?_⟩⟩
      rintro (old | rfl)
      · exact old
      · exact known
    · refine inr ⟨_, rfl, fun e => ?_⟩
      rw [mem_append, mem_singleton]
  · rename_i failed
    exact inl ⟨_, failed, rfl⟩

/-- **What entering a link can do**: refuse, enter it as a host link on a host session, or enter
it on a segment that owns both ends and has it in its own table. -/
theorem appendLink_cases (answer : Registration → Status) (s : Session) (b : PlanBucket)
    (link : ResidentLink) :
    Refused s (appendLink answer s b link) ∨
    (s.cfg.backend = .cpu ∧ link.rangeSets.length ≤ 1 ∧
      appendLink answer s b link = (.ok, { s with links := s.links ++ [link] })) ∨
    ∃ owner seg registrations, s.cfg.backend ≠ .cpu ∧ b.segments[owner]? = some seg ∧
      owns link.outId link.inId seg = true ∧
      appendLink answer s b link = (.ok,
        { s with
          links := s.links ++ [{ link with deviceSegment := some owner }]
          registrations }) ∧
      ∀ e, e ∈ registrations ↔
        e ∈ s.registrations ∨ e = ⟨link.bucket, owner, link.outId, link.inId⟩ := by
  unfold appendLink
  split
  · rename_i host
    split
    · exact inl ⟨_, by decide, rfl⟩
    · rename_i single
      exact inr (inl ⟨host, not_lt.mp single, rfl⟩)
  rename_i device
  cases found : b.segments.findIdx? (owns link.outId link.inId) with
  | none => exact inl ⟨_, by decide, rfl⟩
  | some owner =>
    obtain ⟨small, owned, _⟩ := findIdx?_eq_some_iff_getElem.mp found
    simp only
    split
    · exact inl ⟨_, by decide, rfl⟩
    rcases addResidentLink_cases answer s ⟨link.bucket, owner, link.outId, link.inId⟩ with
      ⟨failure, failed, refused⟩ | ⟨registrations, added, entries⟩
    · rw [refused]
      refine inl ⟨failure, failed, ?_⟩
      cases failure with
      | ok => exact absurd rfl failed
      | _ => rfl
    · rw [added]
      exact inr (inr ⟨owner, b.segments[owner], registrations, device,
        getElem?_eq_getElem small, owned, rfl, entries⟩)

/-- The single-set entry points are the chain entry point, or refuse. -/
theorem linkOutputToInput_cases (answer : Registration → Status) (s : Session)
    (outputName inputName : Str) (ranges : List LinkRange) :
    Refused s (s.linkOutputToInput answer outputName inputName ranges) ∨
    ∃ bucket, s.linkOutputToInput answer outputName inputName ranges =
      s.linkOutputToInputChain answer bucket outputName inputName [ranges] := by
  unfold linkOutputToInput
  split
  · exact inl ⟨_, by decide, rfl⟩
  · rename_i bucket _
    exact inr ⟨bucket, rfl⟩
  · exact inl ⟨_, by decide, rfl⟩

/-- **A call refuses, clears the table, or is a call of the chain entry point** with the ranges it
brings. -/
theorem call_cases (answer : Registration → Status) (s : Session) (c : LinkCall) :
    Refused s (s.call answer c) ∨ s.call answer c = (.ok, s.clearLinks) ∨
    ∃ bucket outputName inputName rangeSets, rangeSets.flatten = c.ranges ∧ s.call answer c =
        s.linkOutputToInputChain answer bucket outputName inputName rangeSets := by
  have single : ∀ ranges : List LinkRange, [ranges].flatten = ranges := by simp
  cases c with
  | linkOutputToInput outputName inputName ranges =>
    rcases linkOutputToInput_cases answer s outputName inputName ranges with refused | ⟨b, same⟩
    · exact inl refused
    · exact inr (inr ⟨b, outputName, inputName, [ranges], single ranges, same⟩)
  | linkOutputToInputIn bucket outputName inputName ranges =>
    exact inr (inr ⟨bucket, outputName, inputName, [ranges], single ranges, rfl⟩)
  | linkOutputToInputChain bucket outputName inputName rangeSets =>
    exact inr (inr ⟨bucket, outputName, inputName, rangeSets, rfl, rfl⟩)
  | clearLinks => exact inr (inl rfl)

/-! ## The invariant -/

/-- What a link of the table joins: a plan, an output that is no input, and an input that is no
output, of one storage class; its ranges fit; it lies on the host exactly on a host session. -/
structure Endpoints (s : Session) (link : ResidentLink) (b : PlanBucket) : Prop where
  plan : s.buckets[link.bucket]? = some b
  source : b.graph.find link.outputName = link.outId
  sink : b.graph.find link.inputName = link.inId
  output : link.outId ∈ b.graph.outputs
  input : link.inId ∈ b.graph.inputs
  sourceOnly : link.outId ∉ b.graph.inputs
  sinkOnly : link.inId ∉ b.graph.outputs
  storage : internalStorageDtype (b.graph.desc link.outId).dtype =
    internalStorageDtype (b.graph.desc link.inId).dtype
  nonempty : link.rangeSets ≠ []
  few : (link.rangeSets.length : Int) ≤ s.maxRangeSets
  ranges : validateRangeSets b.graph link.outId link.inId link.rangeSets = .ok
  hosted : link.deviceSegment = none → link.rangeSets.length ≤ 1
  placed : link.deviceSegment = none ↔ s.cfg.backend = .cpu
  owned : ∀ owner, link.deviceSegment = some owner →
    ∃ seg, b.segments[owner]? = some seg ∧ owns link.outId link.inId seg = true

/-- What a link joins, without its ranges. -/
def ends (link : ResidentLink) : Nat × TensorId × TensorId × Option Nat :=
  (link.bucket, link.outId, link.inId, link.deviceSegment)

/-- **The invariant of the table.**  An input of a plan is fed by one link at most, every link
joins real endpoints, and the tables of the device segments hold exactly the links on them. -/
structure LinkTable (s : Session) : Prop where
  oneSource : s.links.Pairwise fun a b => a.bucket = b.bucket → a.inId ≠ b.inId
  endpoints : ∀ link ∈ s.links, ∃ b, Endpoints s link b
  registered : ∀ entry, entry ∈ s.registrations ↔
    (entry.bucket, entry.src, entry.dst, some entry.segment) ∈ s.links.map ends

variable {s : Session} {link : ResidentLink} {b : PlanBucket} {bucket : Nat}
  {inputName outputName : Str} {rangeSets : List (List LinkRange)}

/-- **No tensor is the source of one link and the sink of another.** -/
theorem LinkTable.unchained (table : LinkTable s) :
    ∀ a ∈ s.links, ∀ b ∈ s.links, a.bucket = b.bucket → a.outId ≠ b.inId := by
  intro a aMember b bMember same chained
  obtain ⟨p, source⟩ := table.endpoints a aMember
  obtain ⟨q, sink⟩ := table.endpoints b bMember
  have plans : some p = some q := by rw [← source.plan, ← sink.plan, same]
  obtain rfl := Option.some.inj plans
  apply source.sourceOnly
  rw [chained]
  exact sink.input

theorem Endpoints.congr {s' : Session}
    (cfg : s'.cfg = s.cfg) (buckets : s'.buckets = s.buckets) (joined : Endpoints s link b) :
    Endpoints s' link b where
  plan := by rw [buckets]; exact joined.plan
  source := joined.source
  sink := joined.sink
  output := joined.output
  input := joined.input
  sourceOnly := joined.sourceOnly
  sinkOnly := joined.sinkOnly
  storage := joined.storage
  nonempty := joined.nonempty
  few := by rw [maxRangeSets, cfg]; exact joined.few
  ranges := joined.ranges
  hosted := joined.hosted
  placed := by rw [cfg]; exact joined.placed
  owned := joined.owned

/-! ### Replacing ranges -/

theorem map_ends_replaceRanges (bucket : Nat) (outputName inputName : Str)
    (rangeSets : List (List LinkRange)) (links : List ResidentLink) :
    (replaceRanges bucket outputName inputName rangeSets links).map ends = links.map ends := by
  induction links with
  | nil => rfl
  | cons link rest ih =>
    rw [replaceRanges]
    split
    · rfl
    · rw [map_cons, map_cons, ih]

theorem mem_replaceRanges
    {links : List ResidentLink}
    (mem : link ∈ replaceRanges bucket outputName inputName rangeSets links) :
    link ∈ links ∨ ∃ existing,
      links.find? (ResidentLink.joins bucket outputName inputName) = some existing ∧
      link = { existing with rangeSets, rangesDirty := true } := by
  induction links with
  | nil => exact inl mem
  | cons head rest ih =>
    rw [replaceRanges] at mem
    split at mem
    · rename_i joins
      rcases mem_cons.mp mem with rfl | tail
      · exact inr ⟨head, find?_cons_of_pos joins, rfl⟩
      · exact inl (mem_cons_of_mem _ tail)
    · rename_i other
      rcases mem_cons.mp mem with rfl | tail
      · exact inl mem_cons_self
      rcases ih tail with old | ⟨existing, found, same⟩
      · exact inl (mem_cons_of_mem _ old)
      · exact inr ⟨existing, by rw [find?_cons_of_neg other, found], same⟩

theorem LinkTable.relink
    {existing : ResidentLink}
    (table : LinkTable s) (checked : Checked s bucket outputName inputName rangeSets b)
    (found : s.links.find? (ResidentLink.joins bucket outputName inputName) = some existing)
    (hosted : existing.deviceSegment = none → rangeSets.length ≤ 1) :
    LinkTable { s with links := replaceRanges bucket outputName inputName rangeSets s.links } where
  oneSource := by
    have sources := pairwise_map (f := ends)
      (R := fun a b => a.1 = b.1 → a.2.2.1 ≠ b.2.2.1) (l := s.links)
    have replaced := pairwise_map (f := ends)
      (R := fun a b => a.1 = b.1 → a.2.2.1 ≠ b.2.2.1)
      (l := replaceRanges bucket outputName inputName rangeSets s.links)
    rw [map_ends_replaceRanges] at replaced
    exact replaced.mp (sources.mpr table.oneSource)
  endpoints := by
    intro link mem
    rcases mem_replaceRanges mem with old | ⟨head, atHead, rfl⟩
    · obtain ⟨p, joined⟩ := table.endpoints link old
      exact ⟨p, Endpoints.congr (s := s) rfl rfl joined⟩
    · obtain rfl := Option.some.inj (atHead.symm.trans found)
      obtain ⟨p, joined⟩ := table.endpoints head (mem_of_find?_eq_some found)
      have joins := find?_some found
      rw [ResidentLink.joins, decide_eq_true_eq] at joins
      obtain ⟨rfl, rfl, rfl⟩ := joins
      obtain rfl := Option.some.inj (joined.plan.symm.trans checked.plan)
      refine ⟨p, { Endpoints.congr (s := s) rfl rfl joined with
        nonempty := checked.nonempty
        few := checked.few
        ranges := ?_
        hosted := hosted }⟩
      rw [← joined.source, ← joined.sink]
      exact checked.ranges
  registered := by
    intro entry
    rw [map_ends_replaceRanges]
    exact table.registered entry

/-! ### Entering and clearing -/

theorem LinkTable.append {registrations : List Registration}
    (table : LinkTable s)
    (free : ∀ existing ∈ s.links, existing.bucket = link.bucket → existing.inId ≠ link.inId)
    (joined : Endpoints s link b)
    (entries : ∀ e, e ∈ registrations ↔ e ∈ s.registrations ∨
      (e.bucket, e.src, e.dst, some e.segment) = ends link) :
    LinkTable { s with links := s.links ++ [link], registrations } where
  oneSource := by
    refine pairwise_append.mpr ⟨table.oneSource, pairwise_singleton _ _, ?_⟩
    intro existing mem new atNew
    obtain rfl := mem_singleton.mp atNew
    exact free existing mem
  endpoints := by
    intro other mem
    rcases mem_append.mp mem with old | new
    · obtain ⟨p, ends⟩ := table.endpoints other old
      exact ⟨p, Endpoints.congr (s := s) rfl rfl ends⟩
    · obtain rfl := mem_singleton.mp new
      exact ⟨b, Endpoints.congr (s := s) rfl rfl joined⟩
  registered := by
    intro entry
    rw [entries, table.registered, map_append, mem_append]
    simp

theorem endpoints_newLink
    (deviceSegment : Option Nat)
    (checked : Checked s bucket outputName inputName rangeSets b)
    (hosted : deviceSegment = none → rangeSets.length ≤ 1)
    (placed : deviceSegment = none ↔ s.cfg.backend = .cpu)
    (owned : ∀ owner, deviceSegment = some owner → ∃ seg, b.segments[owner]? = some seg ∧
      owns (b.graph.find outputName) (b.graph.find inputName) seg = true) :
    Endpoints s { newLink b bucket outputName inputName rangeSets with deviceSegment } b where
  plan := checked.plan
  source := rfl
  sink := rfl
  output := checked.output
  input := checked.input
  sourceOnly := checked.sourceOnly
  sinkOnly := checked.sinkOnly
  storage := checked.storage
  nonempty := checked.nonempty
  few := checked.few
  ranges := checked.ranges
  hosted := hosted
  placed := placed
  owned := owned

theorem LinkTable.appendLink
    (answer : Registration → Status)
    (table : LinkTable s) (checked : Checked s bucket outputName inputName rangeSets b)
    (free : ∀ existing ∈ s.links, existing.bucket = bucket →
      existing.inId ≠ b.graph.find inputName) :
    LinkTable
      (Session.appendLink answer s b (newLink b bucket outputName inputName rangeSets)).2 := by
  rcases appendLink_cases answer s b (newLink b bucket outputName inputName rangeSets) with
    ⟨_, _, refused⟩ | ⟨host, single, added⟩ |
      ⟨owner, seg, registrations, device, atOwner, owned, added, entries⟩
  · rw [refused]
    exact table
  · rw [added]
    refine table.append free (endpoints_newLink none checked (fun _ => single)
      ⟨fun _ => host, fun _ => rfl⟩ fun owner placed => by cases placed) fun e => ?_
    simp [ends, newLink]
  · rw [added]
    refine table.append free (endpoints_newLink (some owner) checked
      (fun none => by cases none) ⟨(fun none => by cases none), fun host => absurd host device⟩
      fun other same => ?_) fun e => ?_
    · obtain rfl := Option.some.inj same
      exact ⟨seg, atOwner, owned⟩
    · rw [entries]
      apply or_congr_right
      cases e
      simp only [ends, newLink, Registration.mk.injEq, Prod.mk.injEq, Option.some.injEq]
      tauto

theorem LinkTable.clearLinks (table : LinkTable s) : LinkTable s.clearLinks where
  oneSource := List.Pairwise.nil
  endpoints := by
    intro link mem
    cases mem
  registered := by
    intro entry
    have dropped : entry ∉ s.clearLinks.registrations := by
      intro mem
      obtain ⟨held, unlinked⟩ := mem_filter.mp mem
      obtain ⟨link, inside, same⟩ := mem_map.mp ((table.registered entry).mp held)
      simp only [ends, Prod.mk.injEq] at same
      have linked : s.links.any (ResidentLink.onSegmentOf entry) = true :=
        any_eq_true.mpr ⟨link, inside, decide_eq_true ⟨same.1, same.2.2.2⟩⟩
      rw [linked] at unlinked
      cases unlinked
    exact iff_of_false dropped not_mem_nil

/-! ## Runs of calls -/

/-- **One call keeps the invariant.** -/
theorem LinkTable.call (table : LinkTable s) (answer : Registration → Status)
    (c : LinkCall) : LinkTable (s.call answer c).2 := by
  rcases call_cases answer s c with
    ⟨_, _, refused⟩ | cleared | ⟨bucket, outputName, inputName, rangeSets, _, same⟩
  · rw [refused]
    exact table
  · rw [cleared]
    exact table.clearLinks
  · rw [same]
    rcases linkOutputToInputChain_cases answer s bucket outputName inputName rangeSets with
      ⟨_, _, refused⟩ | ⟨b, checked, ⟨existing, found, hosted, replaced⟩ | ⟨free, appended⟩⟩
    · rw [refused]
      exact table
    · rw [replaced]
      exact table.relink checked found hosted
    · rw [appended]
      exact table.appendLink answer checked free

/-- **A call leaves the session, or succeeds** and changes nothing but the links, whose ranges are
those of a link before it, or the call brought them. -/
theorem call_effect (answer : Registration → Status) (s : Session) (c : LinkCall) :
    (s.call answer c).2 = s ∨ (s.call answer c).1 = .ok ∧
      ((s.call answer c).2.cfg = s.cfg ∧ (s.call answer c).2.buckets = s.buckets) ∧
      ∀ link ∈ (s.call answer c).2.links,
        (∃ old ∈ s.links, link.rangeSets = old.rangeSets) ∨ link.rangeSets.flatten = c.ranges := by
  rcases call_cases answer s c with
    ⟨_, _, refused⟩ | cleared | ⟨bucket, outputName, inputName, rangeSets, brought, same⟩
  · rw [refused]
    exact .inl rfl
  · rw [cleared]
    exact .inr ⟨rfl, ⟨rfl, rfl⟩, forall_mem_nil _⟩
  · rw [same]
    rcases linkOutputToInputChain_cases answer s bucket outputName inputName rangeSets with
      ⟨_, _, refused⟩ | ⟨b, _, ⟨_, _, _, replaced⟩ | ⟨_, appended⟩⟩
    · rw [refused]
      exact .inl rfl
    · rw [replaced]
      refine .inr ⟨rfl, ⟨rfl, rfl⟩, fun link mem => ?_⟩
      rcases mem_replaceRanges mem with old | ⟨existing, _, rfl⟩
      · exact .inl ⟨link, old, rfl⟩
      · exact .inr brought
    · rw [appended]
      rcases appendLink_cases answer s b (newLink b bucket outputName inputName rangeSets) with
        ⟨_, _, refused⟩ | ⟨_, _, added⟩ | ⟨_, _, _, _, _, _, added, _⟩
      · rw [refused]
        exact .inl rfl
      · rw [added]
        refine .inr ⟨rfl, ⟨rfl, rfl⟩, fun link mem => ?_⟩
        rcases mem_append.mp mem with old | new
        · exact .inl ⟨link, old, rfl⟩
        · obtain rfl := mem_singleton.mp new
          exact .inr brought
      · rw [added]
        refine .inr ⟨rfl, ⟨rfl, rfl⟩, fun link mem => ?_⟩
        rcases mem_append.mp mem with old | new
        · exact .inl ⟨link, old, rfl⟩
        · obtain rfl := mem_singleton.mp new
          exact .inr brought

/-- **A call that fails leaves the session as it was.** -/
theorem call_of_failure (answer : Registration → Status) (s : Session) (c : LinkCall)
    (failed : (s.call answer c).1 ≠ .ok) : (s.call answer c).2 = s :=
  (call_effect answer s c).resolve_right fun effect => failed effect.1

/-- A call changes neither the settings nor the plans. -/
theorem call_frame (answer : Registration → Status) (s : Session) (c : LinkCall) :
    (s.call answer c).2.cfg = s.cfg ∧ (s.call answer c).2.buckets = s.buckets := by
  rcases call_effect answer s c with same | ⟨-, frame, -⟩
  · rw [same]
    exact ⟨rfl, rfl⟩
  · exact frame

/-- The ranges of a link after a call are those of a link before it, or the call brought them. -/
theorem rangeSets_call (answer : Registration → Status) (s : Session) (c : LinkCall)
    (mem : link ∈ (s.call answer c).2.links) :
    (∃ old ∈ s.links, link.rangeSets = old.rangeSets) ∨ link.rangeSets.flatten = c.ranges := by
  rcases call_effect answer s c with same | ⟨-, -, ranges⟩
  · rw [same] at mem
    exact .inl ⟨link, mem, rfl⟩
  · exact ranges link mem

/-- A sequence of calls, each with the answer the device would give to it. -/
def calls (s : Session) (sequence : List ((Registration → Status) × LinkCall)) : Session :=
  sequence.foldl (fun s step => (s.call step.1 step.2).2) s

theorem linkTable_opened (cfg : Config) (buckets : List PlanBucket) :
    LinkTable (opened cfg buckets) where
  oneSource := List.Pairwise.nil
  endpoints := by
    intro link mem
    cases mem
  registered := fun _ => iff_of_false not_mem_nil not_mem_nil

theorem LinkTable.calls (table : LinkTable s)
    (sequence : List ((Registration → Status) × LinkCall)) : LinkTable (s.calls sequence) := by
  induction sequence generalizing s with
  | nil => exact table
  | cons step rest ih => exact ih (table.call step.1 step.2)

/-- **The link table is sound after every sequence of calls**: the invariant holds, no tensor is
both a source and a sink, and the next call changes nothing if it fails. -/
theorem linkTable_calls (cfg : Config) (buckets : List PlanBucket)
    (sequence : List ((Registration → Status) × LinkCall)) :
    let s := (opened cfg buckets).calls sequence
    LinkTable s ∧ (∀ a ∈ s.links, ∀ b ∈ s.links, a.bucket = b.bucket → a.outId ≠ b.inId) ∧
      ∀ (answer : Registration → Status) (c : LinkCall),
        (s.call answer c).1 ≠ .ok → (s.call answer c).2 = s := by
  have table := (linkTable_opened cfg buckets).calls sequence
  exact ⟨table, table.unchained, fun answer c => call_of_failure answer _ c⟩

end Vknn.Session
