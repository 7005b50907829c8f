import Vknn.Lib.SlotPool
import Vknn.Vulkan.NodeCommands

/-!
# The buffers of a segment

A segment plans where its tensors live before it is recorded.  A node that only renames its operand
shares the operand's buffer.  The parts of a concatenation, the outputs of a split, a run of elements
that a slice takes and the data of a padding become views of the whole, where they are laid out one
after the other in it: a group of tensors that is in one arena moves into a larger one as a whole.
What no one outside reads gets a slot of a pool, in which slots are used again after the last use.

A part of an arena may be moved though it brings bytes along that the larger one does not ask for, if
all that live there have been read before others write there.

How positions with the same first use are ordered, and which views the device refuses, is not known
here.  Counts of bytes are taken to be below two to the sixty-fourth.
-/

namespace Vknn.Vulkan

open List (range)

/-! ## What is planned -/

/-- What the buffers of a segment are planned from: the graph, the positions of the segment's nodes,
its precision, padded rows, tensors that are kept in eight bits, tensors that are kept apart to be
looked at, and the views that the device refuses. -/
structure PlanInput where
  graph : Graph
  idx : List Nat
  useFp16 : Bool := false
  rowPad : TensorId → Option Int := fun _ => none
  kvqCaches : TensorId → Bool := fun _ => false
  dumped : TensorId → Bool := fun _ => false
  refused : TensorId → Bool := fun _ => false

namespace PlanInput

variable (inp : PlanInput)

def node (ni : Nat) : Node := inp.graph.nodes.getD ni {}

def desc (t : TensorId) : TensorDesc := inp.graph.desc t

def elemSize : Int := if inp.useFp16 then 2 else 4

/-- Whether a node of the segment writes a tensor. -/
def producedHere (t : TensorId) : Bool :=
  t ≠ kNoTensor && inp.idx.any fun ni => (inp.node ni).outputs.contains t

/-- Whether the host reads a tensor after the segment: it is a graph output, or an operand of a node
of another segment. -/
def readBack (t : TensorId) : Bool :=
  inp.graph.outputs.contains t || inp.dumped t ||
    (inp.producedHere t && (range inp.graph.nodes.length).any fun q =>
      !inp.idx.contains q && (inp.node q).inputs.contains t)

/-- The tensors of the segment that are not constants. -/
def acts : List TensorId :=
  inp.idx.flatMap fun ni =>
    let nd := inp.node ni
    ((nd.inputs ++ [nd.fusedResidual]).filter fun t =>
      t ≠ kNoTensor && !inp.graph.isInitializer t) ++ nd.outputs.filter fun t => t ≠ kNoTensor

def actBytes (t : TensorId) : Nat :=
  let d := inp.desc t
  let elems := if d.gpuFlat then numElements d.shape else formatElems .nc4hw4 (.ofShape d.shape)
  let elems := match inp.rowPad t with
    | some padded => elems.tdiv (d.shape.getLastD 0) * padded
    | none => elems
  if inp.kvqCaches t then elems.toNat
  else
    let b := (elems * (if d.storeFp32 then 4 else inp.elemSize)).toNat
    if b = 0 then (inp.elemSize * 4).toNat else b

/-! ## Renamed operands -/

variable (floatInts : Import.FloatInts)

/-- Whether a transposition moves nothing. -/
def identityTranspose (nd : Node) : Bool :=
  let perm := nd.attr.getints (str "perm")
  nd.type = .transpose && nd.inputs.headD kNoTensor ≠ kNoTensor && !nd.attr.has (str "view_stride") &&
    if perm.isEmpty then (inp.desc (nd.inputs.headD kNoTensor)).shape.length ≤ 1
    else perm = (range perm.length).map fun (d : Nat) => (d : Int)

/-- Whether a slice begins at the origin and takes single steps. -/
def identitySlice (nd : Node) : Bool :=
  let starts := Import.readI64Param floatInts inp.graph nd (str "starts") 1
  let steps := Import.readI64Param floatInts inp.graph nd (str "steps") 4
  nd.type = .slice && !nd.attr.has (str "view_stride") && !starts.isEmpty &&
    starts.all (fun s => s = 0) && steps.all fun s => s = 1

/-- Whether a node only renames its operand. -/
def pureCopy (nd : Node) : Bool :=
  !nd.attr.has (str "pw_steps") &&
    (nd.type = .reshape || nd.type = .flatten || nd.type = .squeeze || nd.type = .unsqueeze ||
      inp.identitySlice floatInts nd || inp.identityTranspose nd)

/-- The tensors that share another one's buffer. -/
abbrev Aliases := Std.ExtTreeMap TensorId TensorId

def followAlias (aliases : Aliases) : Nat → TensorId → TensorId
  | 0, t => t
  | hops + 1, t =>
    match aliases[t]? with
    | some root => followAlias aliases hops root
    | none => t

def resolveAlias (aliases : Aliases) (t : TensorId) : TensorId := followAlias aliases 64 t

/-- Whether a node's output may share its operand's buffer: it stays in the segment, and the two have
the same bytes. -/
def renames (nd : Node) : Bool :=
  let src := nd.inputs.headD kNoTensor
  let out := nd.outputs.headD kNoTensor
  inp.pureCopy floatInts nd && src ≠ kNoTensor && out ≠ kNoTensor && !inp.graph.isInitializer src &&
    inp.producedHere out && !inp.readBack out && !(inp.desc out).storeFp32 &&
    !(inp.desc src).storeFp32 && inp.actBytes src = inp.actBytes out &&
    (inp.desc src).gpuFlat = (inp.desc out).gpuFlat

def aliasNode (aliases : Aliases) (ni : Nat) : Aliases :=
  let nd := inp.node ni
  if inp.renames floatInts nd then
    aliases.insert (nd.outputs.headD kNoTensor)
      (resolveAlias aliases (nd.inputs.headD kNoTensor))
  else aliases

def aliasRoot : Aliases := inp.idx.foldl (inp.aliasNode floatInts) ∅

def rootOf (t : TensorId) : TensorId := resolveAlias (inp.aliasRoot floatInts) t

/-! ## Views -/

/-- The views that are planned: the tensor that each lies in and the byte it begins at; the byte ranges
of each arena that are written; the paddings that fill around their data, and the nodes that have
nothing left to do. -/
structure Views where
  viewOf : Std.ExtTreeMap TensorId (TensorId × Nat) := ∅
  writeClaims : TensorId → List (Nat × Nat) := fun _ => []
  transferFillNodes : List Nat := []
  fullyElided : List Nat := []

/-- Follow views for some hops, adding up the offsets; a longer chain has no root. -/
def followView (viewOf : Std.ExtTreeMap TensorId (TensorId × Nat)) :
    Nat → TensorId → Nat → TensorId × Nat
  | 0, _, _ => (kNoTensor, 0)
  | hops + 1, t, offset =>
    match viewOf[t]? with
    | some (parent, base) => followView viewOf hops parent (offset + base)
    | none => (t, offset)

def kViewChainMaxHops : Nat := 4096

def resolveView (v : Views) (t : TensorId) : TensorId × Nat :=
  followView v.viewOf kViewChainMaxHops t 0

/-- Claim a byte range of an arena for writing. -/
def claimWrite (v : Views) (parent : TensorId) (first last : Nat) : Option Views :=
  if (v.writeClaims parent).any fun c => first < c.2 && c.1 < last then none
  else some { v with
    writeClaims := Function.update v.writeClaims parent (v.writeClaims parent ++ [(first, last)]) }

/-- Whether a tensor may be a view: it is written here, stays here, and has the layout that is
wanted. -/
def memberOk (t : TensorId) (wantFlat : Bool) : Bool :=
  t ≠ kNoTensor && !inp.graph.isInitializer t && inp.producedHere t && !inp.readBack t &&
    !(inp.desc t).storeFp32 && (inp.desc t).gpuFlat = wantFlat

/-- The last position at which a node reads a tensor. -/
def lastReadPos (t : TensorId) : Option Nat :=
  ((range inp.idx.length).filter fun p =>
    let nd := inp.node (inp.idx.getD p 0)
    nd.inputs.contains t || nd.fusedResidual = t).getLast?

/-- The last position at which a node writes a tensor. -/
def producerPos (t : TensorId) : Option Nat :=
  ((range inp.idx.length).filter fun p =>
    (inp.node (inp.idx.getD p 0)).outputs.contains t).getLast?

/-! ### Padding -/

/-- A padding along one axis: its data, its output, and the bytes before the data, of the data and of
the output. -/
structure PadLink where
  data : TensorId
  out : TensorId
  offBytes : Nat
  dataBytes : Nat
  outBytes : Nat

/-- A padding by a known constant along one axis, with nothing but ones before it. -/
def padLink (nd : Node) : Option PadLink :=
  let data := nd.inputs.headD kNoTensor
  let out := nd.outputs.headD kNoTensor
  let value := nd.inputs.getD 2 kNoTensor
  let shape := (inp.desc data).shape
  let outShape := (inp.desc out).shape
  let rank := outShape.length
  let pads := Import.readI64Param floatInts inp.graph nd (str "pads") 1
  let padded := (range rank).filter fun d => pads.getD d 0 > 0 ∨ pads.getD (rank + d) 0 > 0
  if nd.attr.has (str "pw_steps") || nd.fusedResidual ≠ kNoTensor || nd.inputs.isEmpty ||
      nd.outputs.length ≠ 1 then none
  else if data = kNoTensor || out = kNoTensor || inp.graph.isInitializer data ||
      (inp.desc out).storeFp32 || !(inp.desc out).gpuFlat || !inp.memberOk data true then none
  else if nd.attr.gets (str "mode") (str "constant") ≠ str "constant" then none
  else if value ≠ kNoTensor && !inp.graph.isInitializer value then none
  else if shape.length ≠ rank || rank = 0 || numElements shape ≤ 0 || numElements outShape ≤ 0 then
    none
  else if pads.length < 2 * rank || (pads.take (2 * rank)).any fun b => b < 0 then none
  else
    match padded with
    | [axis] =>
      let stride := (outShape.drop (axis + 1)).foldl (fun n d => n * d) 1
      let offBytes := (pads.getD axis 0 * stride * inp.elemSize).toNat
      let dataBytes := (numElements shape * inp.elemSize).toNat
      let outBytes := (numElements outShape * inp.elemSize).toNat
      if SegmentPlan.outer outShape axis ≠ 1 || offBytes % 4 ≠ 0 || (offBytes + dataBytes) % 4 ≠ 0 ||
          outBytes % 4 ≠ 0 then none
      else some ⟨data, out, offBytes, dataBytes, outBytes⟩
    | _ => none

/-- Whether a padding's data fills the buffer that it is in, and that buffer fits into the output. -/
def padFits (l : PadLink) : Bool :=
  let dataRoot := inp.rootOf floatInts l.data
  inp.actBytes dataRoot = l.dataBytes && dataRoot ≠ l.out &&
    l.offBytes + l.dataBytes ≤ inp.actBytes l.out

/-- Let the data of a padding be a view of the output, if it is in no arena. -/
def linkPad (v : Views) (ni : Nat) : Views :=
  match inp.padLink floatInts (inp.node ni) with
  | none => v
  | some l =>
    let dataRoot := inp.rootOf floatInts l.data
    if resolveView v dataRoot ≠ (dataRoot, 0) || !inp.padFits floatInts l then v
    else
      match claimWrite v l.out 0 l.outBytes with
      | none => v
      | some v =>
        { v with
          viewOf := v.viewOf.insert dataRoot (l.out, l.offBytes)
          transferFillNodes := v.transferFillNodes ++ [ni] }

/-! ### Slices -/

/-- The starts and steps of a slice's axes. -/
def sliceBox (nd : Node) (shape : Shape) : List (Int × Int) :=
  let param := Import.readI64Param floatInts inp.graph nd
  let starts := param (str "starts") 1
  let axes := param (str "axes") 3
  let steps := param (str "steps") 4
  (range starts.length).foldl (fun (box : List (Int × Int)) (a : Nat) =>
      let ax := axes.getD a 0
      let ax := Cpu.toInt32 (if axes.isEmpty then a else if ax < 0 then ax + shape.length else ax)
      if ax < 0 ∨ (shape.length : Int) ≤ ax then box
      else
        let dim := shape.getD ax.toNat 0
        let start := starts.getD a 0
        let start := if start < 0 then start + dim else start
        box.set ax.toNat (max 0 (min start dim), steps.getD a 1))
    (shape.map fun _ => (0, 1))

/-- The element at which a slice begins that takes a run of elements, and not all of them. -/
def sliceRun (nd : Node) (shape out : Shape) : Option Nat :=
  let box := inp.sliceBox floatInts nd shape
  let start := fun (d : Nat) => (box.getD d (0, 1)).1
  let whole := fun (d : Nat) => decide (start d = 0 ∧ out.getD d 0 = shape.getD d 0)
  let axes := range shape.length
  if axes.all fun d => (box.getD d (0, 1)).2 = 1 ∧ start d + out.getD d 0 ≤ shape.getD d 0 then
    match (axes.filter fun d => !whole d).getLast? with
    | none => none
    | some partial_ =>
      if axes.all fun d => (partial_ ≤ d || out.getD d 0 = 1) && (d ≤ partial_ || whole d) then
        some ((axes.map fun d => start d * (Cpu.rowStridesOf shape).getD d 0).sum.toNat)
      else none
  else none

/-- Let the output of a slice be a view of its operand. -/
def linkSlice (v : Views) (ni : Nat) : Views :=
  let nd := inp.node ni
  let src := nd.inputs.headD kNoTensor
  let out := nd.outputs.headD kNoTensor
  let shape := (inp.desc src).shape
  let outShape := (inp.desc out).shape
  if nd.attr.has (str "pw_steps") || nd.attr.has (str "view_stride") ||
      nd.fusedResidual ≠ kNoTensor || nd.inputs.isEmpty || nd.outputs.length ≠ 1 then v
  else if src = kNoTensor || out = kNoTensor || inp.graph.isInitializer src ||
      (inp.desc src).storeFp32 || !(inp.desc src).gpuFlat || !inp.memberOk out true then v
  else if outShape.length ≠ shape.length || shape.isEmpty || numElements outShape ≤ 0 ||
      numElements shape ≤ 0 ||
      (Import.readI64Param floatInts inp.graph nd (str "starts") 1).isEmpty then v
  else
    match inp.sliceRun floatInts nd shape outShape with
    | none => v
    | some offElems =>
      let parent := inp.rootOf floatInts src
      let offBytes := offElems * inp.elemSize.toNat
      if v.viewOf.contains out || (resolveView v parent).1 = out ||
          inp.graph.inputs.contains parent ||
          inp.actBytes parent < offBytes + inp.actBytes out then v
      else
        { v with
          viewOf := v.viewOf.insert out (parent, offBytes)
          fullyElided := v.fullyElided ++ [ni] }

/-! ### Concatenations and splits -/

/-- Slices of a whole, one after the other: their byte offsets and sizes. -/
structure SliceLayout where
  whole : TensorId
  slices : List TensorId
  offs : List Nat
  sizes : List Nat
  flat : Bool

/-- Whether a tensor is a slice of a shape along an axis. -/
def sliceFits (ws : Shape) (axis : Nat) (flat : Bool) (t : TensorId) : Bool :=
  let ss := (inp.desc t).shape
  t ≠ kNoTensor && ss.length = ws.length && decide (0 < numElements ss) &&
    ((range ws.length).all fun d =>
      if d = axis then decide (1 ≤ ss.getD d 0) else decide (ss.getD d 0 = ws.getD d 0)) &&
    (flat || (ss.getD 1 0).tmod kNC4Block = 0)

/-- How a concatenation or a split is laid out, where its slices follow one another in memory. -/
def sliceLayout (nd : Node) : Option SliceLayout :=
  let isConcat := nd.type = .concat
  let whole := if isConcat then nd.outputs.headD kNoTensor else nd.inputs.headD kNoTensor
  let slices := if isConcat then nd.inputs else nd.outputs
  let ws := (inp.desc whole).shape
  let flat := (inp.desc whole).gpuFlat
  let axis := Import.Layout.axisOf nd (if isConcat then 1 else 0) ws.length
  if nd.attr.has (str "pw_steps") || nd.fusedResidual ≠ kNoTensor || nd.inputs.isEmpty ||
      nd.outputs.isEmpty || (decide isConcat && nd.outputs.length ≠ 1) then none
  else if whole = kNoTensor || inp.graph.isInitializer whole || (inp.desc whole).storeFp32 then none
  else if axis < 0 || (ws.length : Int) ≤ axis || numElements ws ≤ 0 then none
  else if if flat then SegmentPlan.outer ws axis ≠ 1
      else ws.length ≠ 4 || ws.getD 0 0 ≠ 1 || axis ≠ 1 then none
  else if !slices.all (inp.sliceFits ws axis.toNat flat) then none
  else
    let sizes := slices.map fun t =>
      let ss := (inp.desc t).shape
      ((if flat then numElements ss else formatElems .nc4hw4 (.ofShape ss)) * inp.elemSize).toNat
    if (slices.map fun t => (inp.desc t).shape.getD axis.toNat 0).sum ≠ ws.getD axis.toNat 0 then none
    else
      some ⟨whole, slices, (range slices.length).map fun si => (sizes.take si).sum, sizes, flat⟩

/-- A slice in the arena of its root: where it begins there, its size, how far the arena moves to put
it in place, and its number. -/
structure SliceRef where
  off : Nat
  bytes : Nat
  delta : Nat
  sliceIdx : Nat

/-- The slices of a concatenation, by the arena that each is in. -/
def byRoot (v : Views) (l : SliceLayout) : Std.ExtTreeMap TensorId (List SliceRef) :=
  let wholeRoot := (resolveView v (inp.rootOf floatInts l.whole)).1
  (range l.slices.length).foldl (fun refs si =>
      let ro := resolveView v (inp.rootOf floatInts (l.slices.getD si kNoTensor))
      let off := l.offs.getD si 0
      if ro.1 = kNoTensor || ro.1 = wholeRoot || ro.1 = l.whole || !inp.memberOk ro.1 l.flat ||
          off < ro.2 then refs
      else
        refs.insert ro.1 (refs.getD ro.1 [] ++ [⟨ro.2, l.sizes.getD si 0, off - ro.2, si⟩])) ∅

/-- The ranges of an arena that tiles leave. -/
def uncovered (tiles : List SliceRef) (extent : Nat) : List (Nat × Nat) :=
  let gaps := tiles.foldl (fun (acc : List (Nat × Nat) × Nat) s =>
      (if acc.2 < s.off then acc.1 ++ [(acc.2, s.off)] else acc.1, s.off + s.bytes)) ([], 0)
  if gaps.2 < extent then gaps.1 ++ [(gaps.2, extent)] else gaps.1

/-- The tensors that live in an arena, and their ranges. -/
def groupMembers (v : Views) (r : TensorId) : List (TensorId × Nat × Nat) :=
  (r, 0, inp.actBytes r) :: v.viewOf.toList.filterMap fun link =>
    let ro := resolveView v link.1
    if ro.1 = r then some (link.1, ro.2, ro.2 + inp.actBytes link.1) else none

/-- The first position at which a slice that is not a tile writes into a range of the whole. -/
def earliestWriter (l : SliceLayout) (tiles : List SliceRef) (first last : Nat) : Nat :=
  (range l.slices.length).foldl (fun earliest sj =>
      if tiles.any (fun s => s.sliceIdx = sj) || last ≤ l.offs.getD sj 0 ||
          l.offs.getD sj 0 + l.sizes.getD sj 0 ≤ first then earliest
      else min earliest ((inp.producerPos (l.slices.getD sj kNoTensor)).getD inp.idx.length))
    inp.idx.length

/-- Whether all that live in the ranges that tiles leave have been read before others write there. -/
def rescued (v : Views) (l : SliceLayout) (r : TensorId) (tiles : List SliceRef) (delta : Nat) : Bool :=
  (inp.groupMembers v r).all fun m =>
    match inp.lastReadPos m.1 with
    | none => true
    | some read =>
      !((uncovered tiles (inp.actBytes r)).any fun u => m.2.1 < u.2 && u.1 < m.2.2) ||
        decide (read < inp.earliestWriter l tiles (delta + m.2.1) (delta + m.2.2))

/-- Whether tiles follow one another without overlap, where they end, and whether they leave no
gap. -/
def tileScan (tiles : List SliceRef) : Bool × Nat × Bool :=
  tiles.foldl (fun (acc : Bool × Nat × Bool) s =>
      (acc.1 && decide (acc.2.1 ≤ s.off), s.off + s.bytes, acc.2.2 && decide (s.off = acc.2.1)))
    (true, 0, true)

/-- Claim the ranges of tiles, one after the other. -/
def claimTiles (whole : TensorId) (delta : Nat) : List SliceRef → Views → Bool × Views
  | [], v => (true, v)
  | s :: rest, v =>
    match claimWrite v whole (delta + s.off) (delta + s.off + s.bytes) with
    | none => (false, v)
    | some v => claimTiles whole delta rest v

/-- Move an arena into the whole, and count its slices. -/
def linkRoot (l : SliceLayout) (acc : Views × Nat) (root : TensorId × List SliceRef) : Views × Nat :=
  let v := acc.1
  let delta := (root.2.map SliceRef.delta).headD 0
  let tiles := root.2.mergeSort fun a b => a.off ≤ b.off
  let scan := tileScan tiles
  let extent := inp.actBytes root.1
  let fullTile := scan.2.2 && scan.2.1 = extent
  if root.2.all (fun s => s.delta = delta) && scan.1 && scan.2.1 ≤ extent &&
      delta + extent ≤ inp.actBytes l.whole && (fullTile || inp.rescued v l root.1 tiles delta) then
    match claimTiles l.whole delta tiles v with
    | (true, v) => ({ v with viewOf := v.viewOf.insert root.1 (l.whole, delta) }, acc.2 + tiles.length)
    | (false, v) => (v, acc.2)
  else acc

/-- Let an output of a split be a view of the operand, and count it. -/
def linkOutput (l : SliceLayout) (wholeRoot : TensorId) (acc : Views × Nat) (si : Nat) :
    Views × Nat :=
  let out := l.slices.getD si kNoTensor
  let parent := inp.rootOf floatInts l.whole
  if !inp.memberOk out l.flat || acc.1.viewOf.contains out || out = wholeRoot ||
      inp.graph.inputs.contains parent ||
      inp.actBytes parent < l.offs.getD si 0 + inp.actBytes out then acc
  else ({ acc.1 with viewOf := acc.1.viewOf.insert out (parent, l.offs.getD si 0) }, acc.2 + 1)

/-- Let the slices of a concatenation or a split be views of the whole. -/
def linkSlices (v : Views) (ni : Nat) : Views :=
  let nd := inp.node ni
  match inp.sliceLayout nd with
  | none => v
  | some l =>
    let wholeRoot := (resolveView v (inp.rootOf floatInts l.whole)).1
    let linked := if nd.type = .concat then
        (inp.byRoot floatInts v l).toList.foldl (inp.linkRoot l) (v, 0)
      else (range l.slices.length).foldl (inp.linkOutput floatInts l wholeRoot) (v, 0)
    if 0 < linked.2 ∧ linked.2 = l.slices.length then
      { linked.1 with fullyElided := linked.1.fullyElided ++ [ni] }
    else linked.1

def linkNode (v : Views) (ni : Nat) : Views :=
  match (inp.node ni).type with
  | .pad => inp.linkPad floatInts v ni
  | .slice => inp.linkSlice floatInts v ni
  | .concat | .split => inp.linkSlices floatInts v ni
  | _ => v

def views : Views := inp.idx.foldl (inp.linkNode floatInts) {}

/-! ## The pool -/

def home (t : TensorId) : TensorId := (resolveView (inp.views floatInts) (inp.rootOf floatInts t)).1

/-- Whether a tensor can be in the pool. -/
def poolable (t : TensorId) : Bool :=
  t ≠ kNoTensor && inp.producedHere t && !inp.readBack t && !(inp.desc t).storeFp32

def touches (p : Nat) : List TensorId :=
  let nd := inp.node (inp.idx.getD p 0)
  nd.inputs ++ [nd.fusedResidual] ++ nd.outputs

/-- The arenas of the pool that a position uses. -/
def touched (p : Nat) : List TensorId :=
  ((inp.touches p).map (inp.home floatInts)).filter inp.poolable

/-- The positions at which an arena of the pool is used. -/
def uses (t : TensorId) : List Nat :=
  (range inp.idx.length).filter fun p => (inp.touched floatInts p).contains t

def firstPos (t : TensorId) : Nat := (inp.uses floatInts t).headD 0

def lastPos (t : TensorId) : Nat := (inp.uses floatInts t).getLastD 0

/-- An order in which arenas get their slots: by their first use. -/
structure PoolOrder (order : List TensorId) : Prop where
  nodup : order.Nodup
  complete : ∀ t, t ∈ order ↔ ∃ p < inp.idx.length, t ∈ inp.touched floatInts p
  sorted : order.Pairwise fun a b => inp.firstPos floatInts a ≤ inp.firstPos floatInts b

/-- The room of a slot: its bytes, and whether views of it can be had. -/
structure Room where
  cap : Nat
  viewable : Bool

/-- Whether views lie in a tensor's buffer. -/
def hostsViews (t : TensorId) : Bool :=
  (inp.views floatInts).viewOf.toList.any fun link =>
    (resolveView (inp.views floatInts) link.1).1 = t

/-- The smallest free slot that an arena fits into. -/
def bestFit (t : TensorId) (free : List (SlotPool.Slot Room)) : Option Nat :=
  let room : Nat → Room := fun i => ((free[i]?).map SlotPool.Slot.room).getD ⟨0, false⟩
  (range free.length).foldl (fun best i =>
      if (!inp.hostsViews floatInts t || (room i).viewable) && inp.actBytes t ≤ (room i).cap &&
          best.all (fun b => (room i).cap < (room b).cap) then some i else best) none

def slots (order : List TensorId) : List (TensorId × SlotPool.Slot Room) :=
  SlotPool.assign (inp.firstPos floatInts) (inp.lastPos floatInts) (inp.bestFit floatInts)
    (fun t => ⟨inp.actBytes t, inp.hostsViews floatInts t⟩) order {}

/-! ## Buffers -/

/-- The memory of a buffer: an allocation for one tensor, a slot of the pool, or an allocation for a
view that the device has refused. -/
inductive Memory where
  | dedicated (t : TensorId)
  | slot (id : Nat)
  | fallback (t : TensorId)
deriving DecidableEq

/-- A planned buffer. -/
structure Placed where
  memory : Memory
  offset : Nat := 0
  bytes : Nat
deriving DecidableEq

/-- Whether a tensor gets an allocation of its own. -/
def dedicated (t : TensorId) : Bool :=
  inp.acts.contains t &&
    !(inp.producedHere t && !inp.readBack t && !(inp.desc t).storeFp32) &&
    !(inp.views floatInts).viewOf.contains t

variable (order : List TensorId)

/-- The buffer of a tensor that is neither a view nor renamed. -/
def baseBuffer (t : TensorId) : Option Placed :=
  if inp.dedicated floatInts t then some ⟨.dedicated t, 0, inp.actBytes t⟩
  else ((inp.slots floatInts order).find? fun s => s.1 = t).map fun s =>
    ⟨.slot s.2.id, 0, s.2.room.cap⟩

/-- The buffer of a tensor that is not renamed. -/
def viewBuffer (t : TensorId) : Option Placed :=
  if (inp.views floatInts).viewOf.contains t then
    let ro := resolveView (inp.views floatInts) t
    match inp.baseBuffer floatInts order ro.1 with
    | some b =>
      if ro.1 ≠ kNoTensor && !inp.refused t then some ⟨b.memory, b.offset + ro.2, inp.actBytes t⟩
      else some ⟨.fallback t, 0, inp.actBytes t⟩
    | none => some ⟨.fallback t, 0, inp.actBytes t⟩
  else inp.baseBuffer floatInts order t

def buffer (t : TensorId) : Option Placed :=
  match (inp.aliasRoot floatInts)[t]? with
  | some root => (inp.viewBuffer floatInts order (resolveAlias (inp.aliasRoot floatInts) root)).or
      (inp.viewBuffer floatInts order t)
  | none => inp.viewBuffer floatInts order t

end PlanInput

end Vknn.Vulkan
