import Vknn.Cpu.Convolution
import Vknn.Cpu.SortedRuns
import Vknn.Import.QuantRecords
import Vknn.Lib.Expansion

/-!
# Grouped convolutions

A convolution with groups is taken apart: each group slices its input channels out, convolves
them with its own rows of the weight and the bias, and the outputs are joined along the
channels.  The nodes go to the end of the list, and the list is sorted.

Only constant weights and biases are cut, and only where the channels can be dealt out
evenly; a convolution with one channel in each group is left as it is.  An activation goes
with each part.  Pointwise units are attached to convolutions by a later pass, so that none
is there yet.
-/

namespace Vknn.Import.GroupedConv

open Cpu Quantize Attributes List Int
open RowMajor (size)
open Dataflow (Machine Signature)
open Cpu.Gemm (Held)

/-! ## The pass -/

def intsAttr (v : List Int) : Attr := { kind := .ints, ints := v }
def intAttr (v : Int) : Attr := { kind := .int, i := v }

/-- What is read of a convolution before anything is added to the graph. -/
structure Captured where
  group : Int
  x : TensorId
  w : TensorId
  b : TensorId
  y : TensorId
  xs : Shape
  ws : Shape
  os : Shape
  base : Str
  wdt : DType
  bdt : DType
  xdt : DType
  odt : DType
  wsrc : HostBuffer
  bsrc : HostBuffer
deriving DecidableEq

/-- A convolution that is taken apart, and what is read of it. -/
def captured (g : Graph) (c : Node) : Option Captured :=
  let group := c.attr.geti (str "group") 1
  let x := c.inputs.getD 0 kNoTensor
  let w := c.inputs.getD 1 kNoTensor
  let b := c.inputs.getD 2 kNoTensor
  let y := c.outputs.headD kNoTensor
  let xs := (g.desc x).shape
  let ws := (g.desc w).shape
  let os := (g.desc y).shape
  if c.type ≠ .conv ∨ c.fusedResidual ≠ kNoTensor then none
  else if group ≤ 1 then none
  else if x = kNoTensor ∨ w = kNoTensor ∨ !g.isInitializer w then none
  else if xs.length ≠ 4 ∨ ws.length ≠ 4 ∨ os.length ≠ 4 then none
  else if xs.getD 1 0 ≠ group * ws.getD 1 0 ∨ (ws.getD 0 0).tmod group ≠ 0 then none
  else if group = xs.getD 1 0 ∧ group = ws.getD 0 0 ∧ ws.getD 1 0 = 1 then none
  else if b ≠ kNoTensor ∧ !g.isInitializer b then none
  else some {
    group, x, w, b, y, xs, ws, os
    base := (g.desc y).name
    wdt := (g.desc w).dtype
    bdt := if b ≠ kNoTensor then (g.desc b).dtype else .float32
    xdt := (g.desc x).dtype
    odt := (g.desc y).dtype
    wsrc := bytesOf g w
    bsrc := if b ≠ kNoTensor then bytesOf g b else [] }

namespace Captured

variable (p : Captured)

def inCg : Int := p.ws.getD 1 0
def outCg : Int := (p.ws.getD 0 0).tdiv p.group

/-- Bytes of one output channel of the weight. -/
def wRowBytes : Int := p.inCg * p.ws.getD 2 0 * p.ws.getD 3 0 * p.wdt.dtypeSize

/-- The prefix of the names of a group's tensors. -/
def tag (gi : Nat) : Str := p.base ++ str "#g" ++ decimal gi

def weightDesc (gi : Nat) : TensorDesc where
  name := p.tag gi ++ str "_w"
  shape := [p.outCg, p.inCg, p.ws.getD 2 0, p.ws.getD 3 0]
  dtype := p.wdt
  isInitializer := true

def weightBytes (gi : Nat) : HostBuffer :=
  (p.wsrc.drop (gi * p.outCg * p.wRowBytes).toNat).take (p.outCg * p.wRowBytes).toNat

def biasDesc (gi : Nat) : TensorDesc where
  name := p.tag gi ++ str "_b"
  shape := [p.outCg]
  dtype := p.bdt
  isInitializer := true

def biasBytes (gi : Nat) : HostBuffer :=
  (p.bsrc.drop (gi * p.outCg * p.bdt.dtypeSize).toNat).take (p.outCg * p.bdt.dtypeSize).toNat

def sliceDesc (gi : Nat) : TensorDesc where
  name := p.tag gi ++ str "_x"
  shape := [p.xs.getD 0 0, p.inCg, p.xs.getD 2 0, p.xs.getD 3 0]
  dtype := p.xdt

def outDesc (gi : Nat) : TensorDesc where
  name := p.tag gi ++ str "_y"
  shape := [p.os.getD 0 0, p.outCg, p.os.getD 2 0, p.os.getD 3 0]
  dtype := p.odt

def sliceNode (gi : Nat) (s : TensorId) : Node where
  type := .slice
  name := p.base ++ str "_g" ++ decimal gi ++ str "_slice"
  inputs := [p.x]
  outputs := [s]
  attr := ⟨(((∅ : Std.ExtTreeMap Str Attr).insert (str "starts") (intsAttr [gi * p.inCg])).insert
    (str "ends") (intsAttr [(gi + 1) * p.inCg])).insert (str "axes") (intsAttr [1])⟩

/-- The attributes of a convolution without groups. -/
def partAttr (c : Node) : Attributes := ⟨c.attr.map.insert (str "group") (intAttr 1)⟩

/-- The convolution of a group; its bias is left out where there is none. -/
def convNode (c : Node) (gi : Nat) (s wg bg o : TensorId) : Node where
  type := .conv
  name := p.base ++ str "_g" ++ decimal gi ++ str "_conv"
  inputs := if p.b ≠ kNoTensor then [s, wg, bg] else [s, wg]
  outputs := [o]
  attr := partAttr c
  fusedAct := c.fusedAct
  actLo := c.actLo
  actHi := c.actHi

def concatNode (partOuts : List TensorId) : Node where
  type := .concat
  name := p.base ++ str "_concat"
  inputs := partOuts
  outputs := [p.y]
  attr := ⟨(∅ : Std.ExtTreeMap Str Attr).insert (str "axis") (intAttr 1)⟩

end Captured

/-- The graph with what has been added for some groups, their nodes and their outputs. -/
structure Parts where
  g : Graph
  add : List Node := []
  partOuts : List TensorId := []

/-- The bias of a group, if there is one. -/
def addBias (p : Captured) (g : Graph) (gi : Nat) : Graph × TensorId :=
  if p.b ≠ kNoTensor then addConstant g (p.biasDesc gi) (p.biasBytes gi) else (g, kNoTensor)

def lowerGroup (c : Node) (p : Captured) (st : Parts) (gi : Nat) : Parts :=
  let wg := addConstant st.g (p.weightDesc gi) (p.weightBytes gi)
  let bg := addBias p wg.1 gi
  let s := bg.1.addTensor (p.sliceDesc gi)
  let o := s.1.addTensor (p.outDesc gi)
  { g := o.1
    add := st.add ++ [p.sliceNode gi s.2, p.convNode c gi s.2 wg.2 bg.2 o.2]
    partOuts := st.partOuts ++ [o.2] }

/-- The graph as it has grown, the nodes that stay and those that are added. -/
structure Lowering where
  g : Graph
  kept : List Node := []
  add : List Node := []

def lowerNode (st : Lowering) (c : Node) : Lowering :=
  match captured st.g c with
  | none => { st with kept := st.kept ++ [c] }
  | some p =>
    let parts := (List.range p.group.toNat).foldl (lowerGroup c p) { g := st.g }
    { st with g := parts.g, add := st.add ++ (parts.add ++ [p.concatNode parts.partOuts]) }

/-- Take the convolutions apart; the graph stays as it is where there are none to take apart. -/
def lowerGroupedConv (g : Graph) : Except Error Graph :=
  let st := g.nodes.foldl lowerNode { g := g }
  if st.add = [] then .ok g else Graph.topoSort { st.g with nodes := st.kept ++ st.add }

/-! ## A graph that has grown -/

/-- More tensors and constants behind those of a graph. -/
structure Extends (g g' : Graph) : Prop where
  size : g.tensors.length ≤ g'.tensors.length
  desc : ∀ t : TensorId, t < g.tensors.length → g'.desc t = g.desc t
  constants : ∀ t : TensorId, t < g.tensors.length → g'.initializers[t]? = g.initializers[t]?
  inputs : g'.inputs = g.inputs
  outputs : g'.outputs = g.outputs

/-- A tensor is a constant of a shape and a type. -/
structure IsConstant (g : Graph) (t : TensorId) (shape : Shape) (dt : DType) (hb : HostBuffer) :
    Prop where
  bytes : g.initializers[t]? = some hb
  shape : (g.desc t).shape = shape
  type : (g.desc t).dtype = dt

variable {g g' g'' : Graph} {t : TensorId}

theorem Extends.refl (g : Graph) : Extends g g := ⟨le_rfl, fun _ _ => rfl, fun _ _ => rfl, rfl, rfl⟩

theorem Extends.low (more : Extends g g') (low : t < g.tensors.length) : t < g'.tensors.length :=
  lt_of_lt_of_le low (ofNat_le.mpr more.size)

theorem Extends.trans (first : Extends g g') (second : Extends g' g'') : Extends g g'' where
  size := first.size.trans second.size
  desc t low := (second.desc t (first.low low)).trans (first.desc t low)
  constants t low := (second.constants t (first.low low)).trans (first.constants t low)
  inputs := second.inputs.trans first.inputs
  outputs := second.outputs.trans first.outputs

theorem IsConstant.mono {shape : Shape} {dt : DType} {hb : HostBuffer}
    (constant : IsConstant g t shape dt hb) (more : Extends g g') (low : t < g.tensors.length) :
    IsConstant g' t shape dt hb where
  bytes := (more.constants t low).trans constant.bytes
  shape := (congrArg TensorDesc.shape (more.desc t low)).trans constant.shape
  type := (congrArg TensorDesc.dtype (more.desc t low)).trans constant.type

theorem extends_addTensor (g : Graph) (d : TensorDesc) : Extends g (g.addTensor d).1 where
  size := by
    rw [Graph.addTensor, length_append]
    exact Nat.le_add_right _ _
  desc t low := by rw [Onnx.desc_addTensor, if_neg low.ne]
  constants _ _ := rfl
  inputs := rfl
  outputs := rfl

theorem extends_addConstant (g : Graph) (d : TensorDesc) (hb : HostBuffer) :
    Extends g (addConstant g d hb).1 where
  size := by
    rw [length_addConstant]
    exact Nat.le_succ _
  desc t low := by rw [desc_addConstant, if_neg low.ne]
  constants t low := by
    rw [addConstant_eq, setPayload, Std.ExtTreeMap.getElem?_insert,
      if_neg fun same => low.ne (Std.LawfulEqCmp.compare_eq_iff_eq.mp same).symm]
    rfl
  inputs := rfl
  outputs := rfl

theorem isConstant_addConstant (g : Graph) (d : TensorDesc) (hb : HostBuffer) :
    IsConstant (addConstant g d hb).1 (g.tensors.length : Int) d.shape d.dtype hb where
  bytes := by
    rw [addConstant_eq, setPayload]
    exact Std.ExtTreeMap.getElem?_insert_self
  shape := by rw [desc_addConstant, if_pos rfl]
  type := by rw [desc_addConstant, if_pos rfl]

/-! ## What one convolution adds -/

namespace Captured

variable (p : Captured)

def stride : Nat := if p.b ≠ kNoTensor then 4 else 3

def slot (base gi i : Nat) : TensorId := (base + gi * p.stride + i : Nat)

def weightSlot (base gi : Nat) : TensorId := p.slot base gi 0
def biasSlot (base gi : Nat) : TensorId := if p.b ≠ kNoTensor then p.slot base gi 1 else kNoTensor
def sliceSlot (base gi : Nat) : TensorId := p.slot base gi (p.stride - 2)
def outSlot (base gi : Nat) : TensorId := p.slot base gi (p.stride - 1)

def groupNodes (c : Node) (base gi : Nat) : List Node :=
  [p.sliceNode gi (p.sliceSlot base gi),
    p.convNode c gi (p.sliceSlot base gi) (p.weightSlot base gi) (p.biasSlot base gi)
      (p.outSlot base gi)]

def block (c : Node) (base : Nat) : List Node :=
  (List.range p.group.toNat).flatMap (p.groupNodes c base) ++
    [p.concatNode ((List.range p.group.toNat).map (p.outSlot base))]

/-- The constants of a group. -/
structure GroupConstants (g : Graph) (base gi : Nat) : Prop where
  weight : IsConstant g (p.weightSlot base gi)
    [p.outCg, p.inCg, p.ws.getD 2 0, p.ws.getD 3 0] p.wdt (p.weightBytes gi)
  bias : p.b ≠ kNoTensor → IsConstant g (p.biasSlot base gi) [p.outCg] p.bdt (p.biasBytes gi)

end Captured

variable {c : Node} {p : Captured} {k : Nat}

theorem stride_pos (p : Captured) : 3 ≤ p.stride := by
  unfold Captured.stride
  split <;> decide

theorem slot_lt {base gi gi' i j : Nat} (before : gi < gi') (inside : i < p.stride) :
    p.slot base gi i < p.slot base gi' j := by
  have next := Nat.mul_le_mul_right p.stride (Nat.succ_le_of_lt before)
  rw [Nat.succ_mul] at next
  exact ofNat_lt.mpr (by omega)

theorem Captured.GroupConstants.mono {base gi : Nat} (constants : p.GroupConstants g base gi)
    (more : Extends g g') (room : base + (gi + 1) * p.stride ≤ g.tensors.length) :
    p.GroupConstants g' base gi where
  weight := constants.weight.mono more (ofNat_lt.mpr (by
    have wide := stride_pos p
    rw [Nat.add_one_mul] at room
    omega))
  bias present := (constants.bias present).mono more (by
    have wide := stride_pos p
    rw [Nat.add_one_mul] at room
    rw [Captured.biasSlot, if_pos present]
    exact ofNat_lt.mpr (by omega))

/-- A graph after some groups of a convolution. -/
structure After (g : Graph) (c : Node) (p : Captured) (k : Nat) (st : Parts) : Prop where
  more : Extends g st.g
  size : st.g.tensors.length = g.tensors.length + k * p.stride
  add : st.add = (List.range k).flatMap (p.groupNodes c g.tensors.length)
  partOuts : st.partOuts = (List.range k).map (p.outSlot g.tensors.length)
  constants : ∀ gi < k, p.GroupConstants st.g g.tensors.length gi

/-- What adding a bias does. -/
structure AddedBias (p : Captured) (g : Graph) (gi : Nat) (added : Graph × TensorId) : Prop where
  more : Extends g added.1
  size : added.1.tensors.length = g.tensors.length + (p.stride - 3)
  id : added.2 = if p.b ≠ kNoTensor then (g.tensors.length : Int) else kNoTensor
  constant : p.b ≠ kNoTensor → IsConstant added.1 added.2 [p.outCg] p.bdt (p.biasBytes gi)

theorem addedBias (p : Captured) (g : Graph) (gi : Nat) : AddedBias p g gi (addBias p g gi) := by
  unfold addBias
  by_cases present : p.b ≠ kNoTensor
  · have four : p.stride = 4 := if_pos present
    rw [if_pos present]
    exact ⟨extends_addConstant _ _ _, by rw [length_addConstant, four], (if_pos present).symm,
      fun _ => isConstant_addConstant g (p.biasDesc gi) (p.biasBytes gi)⟩
  · have three : p.stride = 3 := if_neg present
    rw [if_neg present]
    exact ⟨Extends.refl g, by rw [three]; rfl, (if_neg present).symm, fun here => absurd here present⟩

/-- **One group.** -/
theorem After.step {st : Parts} (after : After g c p k st) :
    After g c p (k + 1) (lowerGroup c p st k) := by
  have wide := stride_pos p
  have first := extends_addConstant st.g (p.weightDesc k) (p.weightBytes k)
  have weight := isConstant_addConstant st.g (p.weightDesc k) (p.weightBytes k)
  have length := length_addConstant st.g (p.weightDesc k) (p.weightBytes k)
  have id : (addConstant st.g (p.weightDesc k) (p.weightBytes k)).2 = p.weightSlot g.tensors.length k :=
    congrArg ofNat after.size
  rw [lowerGroup]
  generalize addConstant st.g (p.weightDesc k) (p.weightBytes k) = wg at first weight length id ⊢
  have bias := addedBias p wg.1 k
  generalize addBias p wg.1 k = bg at bias ⊢
  have size : bg.1.tensors.length = g.tensors.length + k * p.stride + (p.stride - 2) := by
    rw [bias.size, length, after.size]
    omega
  have third := extends_addTensor bg.1 (p.sliceDesc k)
  have slice : (bg.1.addTensor (p.sliceDesc k)).2 = p.sliceSlot g.tensors.length k :=
    congrArg ofNat size
  have sliceSize : (bg.1.addTensor (p.sliceDesc k)).1.tensors.length =
      g.tensors.length + k * p.stride + (p.stride - 1) := by
    rw [Graph.addTensor, length_append, size, length_singleton]
    omega
  generalize bg.1.addTensor (p.sliceDesc k) = s at third slice sliceSize ⊢
  have fourth := extends_addTensor s.1 (p.outDesc k)
  have out : (s.1.addTensor (p.outDesc k)).2 = p.outSlot g.tensors.length k :=
    congrArg ofNat sliceSize
  have outSize : (s.1.addTensor (p.outDesc k)).1.tensors.length =
      g.tensors.length + (k + 1) * p.stride := by
    rw [Graph.addTensor, length_append, sliceSize, length_singleton, Nat.add_one_mul]
    omega
  generalize s.1.addTensor (p.outDesc k) = o at fourth out outSize ⊢
  have biasId : bg.2 = p.biasSlot g.tensors.length k := by
    rw [bias.id, Captured.biasSlot]
    split
    · rw [length, after.size]
      rfl
    · rfl
  have all := first.trans (bias.more.trans (third.trans fourth))
  refine ⟨after.more.trans all, outSize, ?_, ?_, fun gi low => ?_⟩
  · rw [after.add, range_succ, flatMap_append, flatMap_singleton, id, slice, out, biasId]
    rfl
  · rw [after.partOuts, range_succ, map_append, out]
    rfl
  · rcases Nat.lt_succ_iff_lt_or_eq.mp low with earlier | rfl
    · refine (after.constants gi earlier).mono all ?_
      have rows := Nat.mul_le_mul_right p.stride (Nat.succ_le_of_lt earlier)
      rw [after.size]
      exact Nat.add_le_add_left rows _
    · have low : (st.g.tensors.length : Int) < wg.1.tensors.length := by
        rw [length]
        exact ofNat_lt.mpr (Nat.lt_succ_self _)
      have place : p.weightSlot g.tensors.length gi = (st.g.tensors.length : Int) :=
        (congrArg ofNat after.size).symm
      refine ⟨?_, fun present => ?_⟩
      · rw [place]
        exact weight.mono (bias.more.trans (third.trans fourth)) low
      · have there : bg.2 < bg.1.tensors.length := by
          rw [bias.id, if_pos present, bias.size]
          have four : p.stride = 4 := if_pos present
          exact ofNat_lt.mpr (by omega)
        rw [← biasId]
        exact (bias.constant present).mono (third.trans fourth) there

/-- **A convolution.** -/
theorem after_groups (g : Graph) (c : Node) (p : Captured) (k : Nat) :
    After g c p k ((List.range k).foldl (lowerGroup c p) { g := g }) := by
  induction k with
  | zero => exact ⟨Extends.refl g, by simp, rfl, rfl, fun gi low => absurd low (Nat.not_lt_zero gi)⟩
  | succ k ih =>
    rw [range_succ, foldl_append]
    exact ih.step

/-! ## The block of a convolution -/

section Block

variable {base gi : Nat} {m : Node}

theorem slot_le {i j : Nat} (order : i ≤ j) : p.slot base gi i ≤ p.slot base gi j :=
  ofNat_le.mpr (Nat.add_le_add_left order _)

theorem slot_inside {i : Nat} (inside : i < p.stride) :
    p.slot base gi 0 ≤ p.slot base gi i ∧ p.slot base gi i < p.slot base (gi + 1) 0 :=
  ⟨slot_le (Nat.zero_le i), slot_lt (Nat.lt_succ_self gi) inside⟩

theorem reads_sliceNode {s : TensorId} (read : t ∈ readsOf (p.sliceNode gi s)) : t = p.x := by
  obtain ⟨mem, present⟩ := mem_readsOf.mp read
  simpa [Node.reads, Captured.sliceNode, present] using mem

theorem reads_convNode {s wg bg o : TensorId} (read : t ∈ readsOf (p.convNode c gi s wg bg o)) :
    t = s ∨ t = wg ∨ p.b ≠ kNoTensor ∧ t = bg := by
  obtain ⟨mem, present⟩ := mem_readsOf.mp read
  rw [Node.reads, Captured.convNode] at mem
  dsimp only at mem
  split at mem
  · rename_i bias
    simpa [present, bias] using mem
  · rename_i none_
    have : t = s ∨ t = wg := by simpa [present] using mem
    exact this.imp_right .inl

theorem reads_concatNode {outs : List TensorId} (read : t ∈ readsOf (p.concatNode outs)) :
    t ∈ outs := by
  obtain ⟨mem, present⟩ := mem_readsOf.mp read
  simpa [Node.reads, Captured.concatNode, present] using mem

/-- The names of a group: the input, and what is between its slots and the next. -/
theorem names_group (mem : m ∈ p.groupNodes c base gi) :
    (∀ t ∈ readsOf m, t = p.x ∨ p.slot base gi 0 ≤ t ∧ t < p.slot base (gi + 1) 0) ∧
      ∀ t ∈ writesOf m, p.slot base gi 0 ≤ t ∧ t < p.slot base (gi + 1) 0 := by
  have wide := stride_pos p
  have slice := @slot_inside p base gi (p.stride - 2) (by omega)
  have out := @slot_inside p base gi (p.stride - 1) (by omega)
  rw [Captured.groupNodes, mem_cons, mem_singleton] at mem
  rcases mem with rfl | rfl
  · exact ⟨fun t read => .inl (reads_sliceNode read), fun t written =>
      writes_single rfl written ▸ slice⟩
  · refine ⟨fun t read => .inr ?_, fun t written => writes_single rfl written ▸ out⟩
    rcases reads_convNode read with rfl | rfl | ⟨present, rfl⟩
    · exact slice
    · exact slot_inside (by omega)
    · rw [Captured.biasSlot, if_pos present]
      exact slot_inside (by omega)

theorem ordered_group (below : p.x < base) : signature.Ordered (p.groupNodes c base gi) := by
  have wide := stride_pos p
  have start : (base : Int) ≤ p.slot base gi 0 := ofNat_le.mpr (by omega)
  have input : ∀ {i}, p.x ≠ p.slot base gi i := fun {i} same =>
    absurd (lt_of_lt_of_le below (start.trans (slot_le (Nat.zero_le i)))) (same ▸ lt_irrefl _)
  have apart : ∀ {i j}, i < j → p.slot base gi i ≠ p.slot base gi j := fun {i j} less same =>
    absurd (ofNat_inj.mp same) (by omega)
  refine ⟨pairwise_pair.mpr fun t written => ?_, fun n mem t written read => ?_⟩
  · obtain rfl := writes_single rfl written
    refine ⟨fun read => input (reads_sliceNode read).symm, fun again => ?_⟩
    exact apart (by omega) (writes_single rfl again).symm
  · rw [Captured.groupNodes, mem_cons, mem_singleton] at mem
    rcases mem with rfl | rfl
    · obtain rfl := writes_single rfl written
      exact input (reads_sliceNode read).symm
    · obtain rfl := writes_single rfl written
      rcases reads_convNode read with same | same | ⟨present, same⟩
      · exact apart (by omega) same.symm
      · exact apart (by omega) same.symm
      · rw [Captured.biasSlot, if_pos present] at same
        have four : p.stride = 4 := if_pos present
        exact apart (by omega) same.symm

theorem ordered_groups (below : p.x < base) (k : Nat) :
    signature.Ordered ((List.range k).flatMap (p.groupNodes c base)) := by
  induction k with
  | zero => exact ⟨.nil, fun _ mem => absurd mem not_mem_nil⟩
  | succ k ih =>
    have last := @ordered_group c p base k below
    rw [range_succ, flatMap_append, flatMap_singleton]
    refine ⟨pairwise_append.mpr ⟨ih.before, last.before, fun a earlier b here t written => ?_⟩,
      fun n mem => ?_⟩
    · obtain ⟨gi, low, inGroup⟩ := mem_flatMap.mp earlier
      have names := names_group inGroup
      have from_ := ((names_group here).2 t written).1
      have behind : p.slot base (gi + 1) 0 ≤ t := by
        refine le_trans (ofNat_le.mpr ?_) from_
        have rows := Nat.mul_le_mul_right p.stride (Nat.succ_le_of_lt (mem_range.mp low))
        exact Nat.add_le_add_right (Nat.add_le_add_left rows _) _
      have start : (base : Int) ≤ t := le_trans (ofNat_le.mpr (by omega)) from_
      refine ⟨fun read => ?_, fun again => absurd (names.2 t again).2 (not_lt.mpr behind)⟩
      rcases names.1 t read with rfl | inside
      · exact absurd below (not_lt.mpr start)
      · exact absurd inside.2 (not_lt.mpr behind)
    · rcases mem_append.mp mem with earlier | here
      · exact ih.self n earlier
      · exact last.self n here

/-- What the block of a convolution may name: what the convolution reads and writes itself, and slots
of its own. -/
theorem block_sound (below : p.x < base) (result : p.y < base) (self : p.y ≠ p.x)
    (read : p.x ∈ readsOf c) (written : p.y ∈ writesOf c) :
    signature.Block (base : Int) (base + p.group.toNat * p.stride : Nat) c (p.block c base) := by
  have wide := stride_pos p
  have inside : ∀ {gi}, gi < p.group.toNat → p.slot base (gi + 1) 0 ≤
      ((base + p.group.toNat * p.stride : Nat) : Int) := by
    intro gi low
    have rows := Nat.mul_le_mul_right p.stride (Nat.succ_le_of_lt low)
    exact ofNat_le.mpr (Nat.add_le_add_left rows base)
  have start : ∀ {gi i}, (base : Int) ≤ p.slot base gi i := fun {gi i} =>
    ofNat_le.mpr (by omega)
  have groups := @ordered_groups c p base below p.group.toNat
  have outs : ∀ t ∈ (List.range p.group.toNat).map (p.outSlot base),
      (base : Int) ≤ t ∧ t < (base + p.group.toNat * p.stride : Nat) := by
    intro t listed
    obtain ⟨gi, low, rfl⟩ := mem_map.mp listed
    have out := @slot_inside p base gi (p.stride - 1) (by omega)
    exact ⟨start, lt_of_lt_of_le out.2 (inside (mem_range.mp low))⟩
  refine ⟨⟨pairwise_append.mpr ⟨groups.before, pairwise_singleton _ _, ?_⟩, ?_⟩, ?_, ?_⟩
  · intro a inGroups b last t writes
    obtain rfl := mem_singleton.mp last
    obtain rfl := writes_single rfl writes
    obtain ⟨gi, -, inGroup⟩ := mem_flatMap.mp inGroups
    have names := names_group inGroup
    refine ⟨fun reads => ?_, fun again => ?_⟩
    · exact (names.1 _ reads).elim self fun own => absurd result (not_lt.mpr (start.trans own.1))
    · exact absurd result (not_lt.mpr (start.trans (names.2 _ again).1))
  · intro n mem t writes reads
    rcases mem_append.mp mem with inGroups | last
    · exact groups.self n inGroups t writes reads
    · obtain rfl := mem_singleton.mp last
      obtain rfl := writes_single rfl writes
      exact absurd result (not_lt.mpr (outs _ (reads_concatNode reads)).1)
  · intro n mem t reads
    rcases mem_append.mp mem with inGroups | last
    · obtain ⟨gi, low, inGroup⟩ := mem_flatMap.mp inGroups
      refine ((names_group inGroup).1 t reads).imp (fun (same : t = p.x) => same ▸ read) fun own =>
        ⟨start.trans own.1, lt_of_lt_of_le own.2 (inside (mem_range.mp low))⟩
    · obtain rfl := mem_singleton.mp last
      exact .inr (outs t (reads_concatNode reads))
  · intro n mem t writes
    rcases mem_append.mp mem with inGroups | last
    · obtain ⟨gi, low, inGroup⟩ := mem_flatMap.mp inGroups
      have own := (names_group inGroup).2 t writes
      exact .inr ⟨start.trans own.1, lt_of_lt_of_le own.2 (inside (mem_range.mp low))⟩
    · obtain rfl := mem_singleton.mp last
      exact .inl (writes_single rfl writes ▸ written)

end Block

/-! ## The whole pass -/

/-- What stands in the place of a node: itself, or the nodes for a convolution. -/
inductive Replaced (g gEnd : Graph) : TensorId → TensorId → Node → List Node → Prop
  | kept {n : Node} {lo : TensorId} (none_ : captured g n = none) : Replaced g gEnd lo lo n [n]
  | lowered {n : Node} {p : Captured} {base : Nat} (accepted : captured g n = some p)
      (constants : ∀ gi < p.group.toNat, p.GroupConstants gEnd base gi) :
      Replaced g gEnd (base : Int) (base + p.group.toNat * p.stride : Nat) n (p.block n base)

theorem Replaced.mono {lo hi : TensorId} {n : Node} {block : List Node}
    (replaced : Replaced g g' lo hi n block) (more : Extends g' g'')
    (low : hi ≤ g'.tensors.length) : Replaced g g'' lo hi n block := by
  cases replaced with
  | kept none_ => exact .kept none_
  | @lowered n p base accepted constants =>
    refine .lowered accepted fun gi inside => (constants gi inside).mono more ?_
    have rows := Nat.mul_le_mul_right p.stride (Nat.succ_le_of_lt inside)
    exact (Nat.add_le_add_left rows _).trans (ofNat_le.mp low)

/-- A node that names tensors of a graph. -/
def Known (g : Graph) (n : Node) : Prop :=
  ∀ t, (t ∈ n.reads ∨ t ∈ n.outputs) → t < (g.tensors.length : Int)

theorem none_lt (g : Graph) : kNoTensor < (g.tensors.length : Int) :=
  lt_of_lt_of_le (by decide : (-1 : Int) < 0) (natCast_nonneg _)

theorem Known.input (known : Known g c) (i : Nat) :
    c.inputs.getD i kNoTensor < (g.tensors.length : Int) := by
  rw [getD_eq_getElem?_getD]
  cases here : c.inputs[i]? with
  | none => exact none_lt g
  | some t => exact known t (.inl (mem_append_left _ (mem_of_getElem? here)))

theorem Known.output (known : Known g c) :
    c.outputs.headD kNoTensor < (g.tensors.length : Int) := by
  cases here : c.outputs with
  | nil => exact none_lt g
  | cons t ts => exact known t (.inr (here ▸ mem_cons_self))

/-- What is read of a convolution is as it was when the graph has grown. -/
theorem captured_extends (more : Extends g g') (known : Known g c) :
    captured g' c = captured g c := by
  have constant : ∀ i, g'.isInitializer (c.inputs.getD i kNoTensor) =
      g.isInitializer (c.inputs.getD i kNoTensor) := by
    intro i
    rw [Graph.isInitializer, Graph.isInitializer, Std.ExtTreeMap.contains_eq_isSome_getElem?,
      Std.ExtTreeMap.contains_eq_isSome_getElem?, more.constants _ (known.input i)]
  have bytes : ∀ i, bytesOf g' (c.inputs.getD i kNoTensor) =
      bytesOf g (c.inputs.getD i kNoTensor) := by
    intro i
    rw [bytesOf, bytesOf, more.constants _ (known.input i)]
  rw [captured, captured, more.desc _ (known.input 0), more.desc _ (known.input 1), more.desc _ (known.input 2),
    more.desc _ known.output, constant 1, constant 2, bytes 1, bytes 2]

/-- **The nodes that stay and those that are added are the blocks of all nodes.** -/
theorem lowered_nodes {nodes : List Node} (known : ∀ n ∈ nodes, Known g n) {st : Lowering}
    (more : Extends g st.g) : Extends st.g (nodes.foldl lowerNode st).g ∧ ∃ blocks,
      Signature.Blocks (Replaced g (nodes.foldl lowerNode st).g)
        (st.g.tensors.length : Int) nodes blocks
        ((nodes.foldl lowerNode st).g.tensors.length : Int) ∧
      ((nodes.foldl lowerNode st).kept ++ (nodes.foldl lowerNode st).add).Perm
        (st.kept ++ st.add ++ blocks.flatten) := by
  induction nodes generalizing st with
  | nil => exact ⟨Extends.refl _, [], .nil _, by simp⟩
  | cons n nodes ih =>
    have same := captured_extends more (known n mem_cons_self)
    have rest : ∀ n ∈ nodes, Known g n := fun m mem => known m (mem_cons_of_mem n mem)
    rw [foldl_cons]
    cases accepted : captured g n with
    | none =>
      have step : lowerNode st n = { st with kept := st.kept ++ [n] } := by
        rw [lowerNode, same, accepted]
      obtain ⟨grown, blocks, made, perm⟩ := @ih rest { st with kept := st.kept ++ [n] } more
      rw [step]
      refine ⟨grown, [n] :: blocks, .cons le_rfl (.kept accepted) made, perm.trans ?_⟩
      rw [flatten_cons]
      simp only [append_assoc]
      exact (perm_append_comm_assoc [n] st.add blocks.flatten).append_left st.kept
    | some p =>
      have after := after_groups st.g n p p.group.toNat
      have step : lowerNode st n = { st with
          g := ((List.range p.group.toNat).foldl (lowerGroup n p) { g := st.g }).g
          add := st.add ++ p.block n st.g.tensors.length } := by
        rw [lowerNode, same, accepted]
        dsimp only
        rw [after.add, after.partOuts]
        rfl
      generalize ((List.range p.group.toNat).foldl (lowerGroup n p) { g := st.g }) = parts
        at after step
      obtain ⟨grown, blocks, made, perm⟩ := @ih rest
        { st with g := parts.g, add := st.add ++ p.block n st.g.tensors.length }
        (more.trans after.more)
      have size : (parts.g.tensors.length : Int) =
          (st.g.tensors.length + p.group.toNat * p.stride : Nat) := congrArg ofNat after.size
      have block : Replaced g parts.g (st.g.tensors.length : Int) parts.g.tensors.length n
          (p.block n st.g.tensors.length) := by
        rw [size]
        exact .lowered accepted after.constants
      rw [step]
      refine ⟨after.more.trans grown, p.block n st.g.tensors.length :: blocks,
        .cons (ofNat_le.mpr after.more.size) (block.mono grown le_rfl) made, perm.trans ?_⟩
      rw [flatten_cons]
      simp only [append_assoc]
      exact .refl _

/-! ## What the new nodes compute -/

theorem slice_lookup (p : Captured) (gi : Nat) (s : TensorId) (k : Str) :
    (p.sliceNode gi s).attr.map[k]? = if k = str "axes" then some (intsAttr [1])
      else if k = str "ends" then some (intsAttr [(gi + 1) * p.inCg])
      else if k = str "starts" then some (intsAttr [gi * p.inCg]) else none := by
  rw [Captured.sliceNode, lookup_insert, lookup_insert, lookup_insert]
  rfl

theorem partAttr_lookup (c : Node) (k : Str) : (Captured.partAttr c).map[k]? =
    if k = str "group" then some (intAttr 1) else c.attr.map[k]? :=
  lookup_insert _ _ _ _

theorem ungrouped_partAttr (c : Node) : Ungrouped c.attr (Captured.partAttr c) := by
  refine ⟨fun k other => ?_, ?_, ?_⟩
  · rw [Attributes.getints, partAttr_lookup, if_neg other]
    rfl
  · rw [Attributes.gets, partAttr_lookup, if_neg (by decide)]
    rfl
  · rw [Attributes.geti, partAttr_lookup, if_pos rfl]
    rfl

/-- What a bias is to a convolution that has one or not. -/
def biasOperand {R : Type} (E : TensorId → Option (Held R)) (b : TensorId) : Option (Option (Held R)) :=
  if b ≠ kNoTensor then (E b).map some else some none

theorem optionalOperand_tensorOf {R : Type} (E : TensorId → Option (Held R)) (b : TensorId) :
    optionalOperand (tensorOf E b) = biasOperand E b := by
  rw [tensorOf, biasOperand]
  by_cases absent : b = kNoTensor
  · rw [if_pos absent, if_neg (not_not_intro absent)]
    rfl
  · rw [if_neg absent, if_pos absent]
    rfl

theorem mapM_join_tensorOf {R : Type} (E : TensorId → Option (Held R)) {outs : List TensorId}
    (present : ∀ o ∈ outs, o ≠ kNoTensor) :
    (outs.map (tensorOf E)).mapM (fun part => Option.join part) = outs.mapM E := by
  induction outs with
  | nil => rfl
  | cons o outs ih =>
    have here : tensorOf E o = some (E o) := if_neg (present o mem_cons_self)
    rw [map_cons, mapM_cons, mapM_cons, here, ih fun t mem => present t (mem_cons_of_mem o mem)]
    rfl

section Values

variable {R : Type} [CommSemiring R] (act : ActType → Float32Bits → Float32Bits → R → R)
  (rest : Operators (Option (Held R))) {E : TensorId → Option (Held R)}

theorem value_slice {inCg gi : Nat} {s : TensorId} (present : p.x ≠ kNoTensor)
    (channels : p.inCg = inCg) :
    (operatorMachine (exactOperators act rest) g).value (p.sliceNode gi s) E s =
      (E p.x).map (groupChannels inCg gi) := by
  have none_ : (p.sliceNode gi s).attr.has (str "pw_steps") = false := by
    rw [has_eq, slice_lookup]
    rfl
  have noView : (p.sliceNode gi s).attr.has (str "view_stride") = false := by
    rw [has_eq, slice_lookup]
    rfl
  have lists : sliced (R := R) (p.sliceNode gi s).attr = groupChannels inCg gi := by
    have starts : (p.sliceNode gi s).attr.getints (str "starts") = [((gi * inCg : Nat) : Int)] := by
      rw [Attributes.getints, slice_lookup, if_neg (by decide), if_neg (by decide), if_pos rfl,
        channels]
      exact congrArg (fun n : Int => [n]) (Nat.cast_mul gi inCg).symm
    have ends : (p.sliceNode gi s).attr.getints (str "ends") =
        [((gi * inCg + inCg : Nat) : Int)] := by
      rw [Attributes.getints, slice_lookup, if_neg (by decide), if_pos rfl, channels]
      refine congrArg (fun n : Int => [n]) ?_
      push_cast
      ring
    have axes : (p.sliceNode gi s).attr.getints (str "axes") = [((1 : Nat) : Int)] := by
      rw [Attributes.getints, slice_lookup, if_pos rfl]
      rfl
    have steps : (p.sliceNode gi s).attr.getints (str "steps") = [] := by
      rw [Attributes.getints, slice_lookup, if_neg (by decide), if_neg (by decide),
        if_neg (by decide)]
    funext X
    rw [sliced, groupChannels, starts, ends, axes, steps]
    rfl
  have input : tensorOf E p.x = some (E p.x) := if_neg present
  rw [value_single rfl (by decide : OpType.slice ≠ .identity), ← lists]
  change ((exactOperators act rest).apply _ [tensorOf E p.x] _ _).getD 0 _ = _
  rw [input, apply_slice act rest rfl none_ noView]
  rfl

/-- What a convolution without residual and pointwise unit computes. -/
theorem value_conv {n : Node} {x w b y : TensorId} {more : List TensorId} (type : n.type = .conv)
    (plain : n.attr.has (str "pw_steps") = false) (residual : n.fusedResidual = kNoTensor)
    (outputs : n.outputs = [y]) (inputs : n.inputs = x :: w :: more)
    (bias : more.headD kNoTensor = b) (hasX : x ≠ kNoTensor) (hasW : w ≠ kNoTensor) :
    (operatorMachine (exactOperators act rest) g).value n E y = (E x).bind fun X =>
      (E w).bind fun W => (biasOperand E b).bind fun B =>
        convolve (act n.fusedAct n.actLo n.actHi) n.attr X W B := by
  have inputX : tensorOf E x = some (E x) := if_neg hasX
  have inputW : tensorOf E w = some (E w) := if_neg hasW
  have none_ : tensorOf E kNoTensor = none := if_pos rfl
  have third : (more.map (tensorOf E)).headD none = tensorOf E b := by
    rw [← bias]
    cases more with
    | nil => exact none_.symm
    | cons t ts => rfl
  rw [value_single outputs (by rw [type]; decide), inputs, residual, none_, map_cons,
    map_cons, inputX, inputW, apply_conv act rest type plain, third, optionalOperand_tensorOf]
  rfl

theorem value_concat {outs : List TensorId} (present : ∀ o ∈ outs, o ≠ kNoTensor) :
    (operatorMachine (exactOperators act rest) g).value (p.concatNode outs) E p.y =
      (outs.mapM E).map (joined 1) := by
  have none_ : (p.concatNode outs).attr.has (str "pw_steps") = false := by
    rw [has_eq, Captured.concatNode, lookup_insert, if_neg (by decide)]
    rfl
  have axis : (p.concatNode outs).attr.geti (str "axis") 0 = 1 := by
    rw [Attributes.geti, Captured.concatNode, lookup_insert, if_pos rfl]
    rfl
  have parts := mapM_join_tensorOf E present
  rw [value_single rfl (by decide : OpType.concat ≠ .identity), apply_concat act rest rfl none_]
  change ((((outs.map (tensorOf E)).mapM fun part => Option.join part).map
    (joined ((p.concatNode outs).attr.geti (str "axis") 0)))) = _
  rw [axis, parts]

end Values

/-! ## A convolution that is taken apart -/

/-- What is known of a convolution that is taken apart. -/
structure Accepted (g : Graph) (c : Node) (p : Captured) : Prop where
  type : c.type = .conv
  residual : c.fusedResidual = kNoTensor
  group : c.attr.geti (str "group") 1 = p.group
  many : 1 < p.group
  x : c.inputs.getD 0 kNoTensor = p.x
  w : c.inputs.getD 1 kNoTensor = p.w
  b : c.inputs.getD 2 kNoTensor = p.b
  y : c.outputs.headD kNoTensor = p.y
  hasX : p.x ≠ kNoTensor
  hasW : p.w ≠ kNoTensor
  constant : g.isInitializer p.w
  biasConstant : p.b ≠ kNoTensor → g.isInitializer p.b
  rankX : (g.desc p.x).shape.length = 4
  ranks : p.ws.length = 4
  channels : (g.desc p.x).shape.getD 1 0 = p.group * p.inCg
  even : (p.ws.getD 0 0).tmod p.group = 0
  ws : p.ws = (g.desc p.w).shape
  wdt : p.wdt = (g.desc p.w).dtype
  bdt : p.b ≠ kNoTensor → p.bdt = (g.desc p.b).dtype
  wsrc : p.wsrc = bytesOf g p.w
  bsrc : p.b ≠ kNoTensor → p.bsrc = bytesOf g p.b

theorem accepted_of_captured (found : captured g c = some p) : Accepted g c p := by
  have peel : ∀ {P : Prop} [Decidable P] {rest : Option Captured},
      (if P then none else rest) = some p → ¬ P ∧ rest = some p := by
    intro P _ rest found
    split at found
    · cases found
    · exact ⟨‹_›, found⟩
  unfold captured at found
  obtain ⟨other, found⟩ := peel found
  obtain ⟨few, found⟩ := peel found
  obtain ⟨absent, found⟩ := peel found
  obtain ⟨ranks, found⟩ := peel found
  obtain ⟨uneven, found⟩ := peel found
  obtain ⟨depthwise, found⟩ := peel found
  obtain ⟨running, found⟩ := peel found
  cases found
  rw [not_or, not_not, not_not] at other
  rw [not_or, not_or, Bool.not_eq_true', Bool.not_eq_false] at absent
  rw [not_or, not_or, not_not, not_not, not_not] at ranks
  rw [not_or, not_not, not_not] at uneven
  refine ⟨other.1, other.2, rfl, not_le.mp few, rfl, rfl, rfl, rfl, absent.1, absent.2.1,
    absent.2.2, fun present => ?_, ranks.1, ranks.2.1, uneven.1, uneven.2, rfl, rfl,
    fun present => if_pos present, rfl, fun present => if_pos present⟩
  by_contra there
  exact running ⟨present, Bool.not_eq_true' _ ▸ Bool.eq_false_iff.mpr there⟩

/-! ## Constants cut -/

section Lanes

variable {R : Type} (lane : DType → HostBuffer → R)

/-- The elements that bytes hold, lane by lane. -/
def lanes (dt : DType) (hb : HostBuffer) : List R :=
  (ModelIo.Reader.words dt.dtypeSize (hb.length / dt.dtypeSize) hb).map (lane dt)

theorem getElem?_words (width n : Nat) (hb : HostBuffer) (i : Nat) :
    (ModelIo.Reader.words width n hb)[i]? =
      if i < n then some ((hb.drop (i * width)).take width) else none := by
  induction n generalizing hb i with
  | zero => rfl
  | succ n ih =>
    rw [ModelIo.Reader.words]
    cases i with
    | zero => simp
    | succ i =>
      rw [getElem?_cons_succ, ih, drop_drop, Nat.add_one_mul, Nat.add_comm width]
      by_cases inside : i < n
      · rw [if_pos inside, if_pos (Nat.succ_lt_succ inside)]
      · rw [if_neg inside, if_neg fun low => inside (Nat.lt_of_succ_lt_succ low)]

/-- **Whole lanes cut out of bytes** are the lanes at their place. -/
theorem lanes_cut {dt : DType} {hb : HostBuffer} {total start count : Nat}
    (size : hb.length = total * dt.dtypeSize) (room : start + count ≤ total) :
    lanes lane dt ((hb.drop (start * dt.dtypeSize)).take (count * dt.dtypeSize)) =
      ((lanes lane dt hb).drop start).take count := by
  rcases Nat.eq_zero_or_pos dt.dtypeSize with none_ | wide
  · simp [lanes, none_, ModelIo.Reader.words]
  · have whole : hb.length / dt.dtypeSize = total := by rw [size, Nat.mul_div_cancel _ wide]
    have cut : ((hb.drop (start * dt.dtypeSize)).take (count * dt.dtypeSize)).length /
        dt.dtypeSize = count := by
      have rows := Nat.mul_le_mul_right dt.dtypeSize room
      rw [Nat.add_mul] at rows
      rw [length_take, length_drop, size, Nat.min_eq_left (by omega), Nat.mul_div_cancel _ wide]
    apply ext_getElem?
    intro i
    rw [lanes, cut, lanes, whole, getElem?_map, getElem?_words]
    by_cases inside : i < count
    · have rows := Nat.mul_le_mul_right dt.dtypeSize (Nat.succ_le_of_lt inside)
      rw [Nat.succ_mul] at rows
      rw [if_pos inside, getElem?_take_of_lt inside, getElem?_drop, getElem?_map,
        getElem?_words, if_pos (by omega), drop_take, drop_drop, take_take,
        Nat.min_eq_left (by omega), Nat.add_mul]
    · rw [if_neg inside, getElem?_eq_none (by
        rw [length_take]
        omega)]
      rfl

end Lanes
/-- A convolution as a graph of the importer has it: one output, no pointwise unit yet, and as many
bytes in its constants as their elements take. -/
structure Cuttable (c : Node) (p : Captured) : Prop where
  outputs : c.outputs = [p.y]
  result : p.y ≠ kNoTensor
  plain : c.attr.has (str "pw_steps") = false
  dims : ∀ d ∈ p.ws, 0 ≤ d
  weight : (p.wsrc.length : Int) = size p.ws * p.wdt.dtypeSize
  bias : p.b ≠ kNoTensor → (p.bsrc.length : Int) = p.ws.getD 0 0 * p.bdt.dtypeSize

/-- The extents of a convolution that is taken apart. -/
structure Extents (p : Captured) (group inCg outCg kh kw : Nat) : Prop where
  groups : p.group = group
  many : 1 < group
  ws : p.ws = [((group * outCg : Nat) : Int), inCg, kh, kw]

theorem Accepted.extents (accepted : Accepted g c p) (cuttable : Cuttable c p) :
    ∃ group inCg outCg kh kw, Extents p group inCg outCg kh kw := by
  obtain ⟨a, i, h, w, four⟩ : ∃ a i h w, p.ws = [a, i, h, w] := by
    have rank := accepted.ranks
    match p.ws, rank with
    | [a, i, h, w], _ => exact ⟨a, i, h, w, rfl⟩
  have dims := cuttable.dims
  rw [four] at dims
  have even := accepted.even
  rw [four, getD_cons_zero] at even
  have many := accepted.many
  obtain ⟨group, sameGroup⟩ := eq_ofNat_of_zero_le (by omega : 0 ≤ p.group)
  obtain ⟨a, rfl⟩ := eq_ofNat_of_zero_le (dims a (by simp))
  obtain ⟨i, rfl⟩ := eq_ofNat_of_zero_le (dims i (by simp))
  obtain ⟨h, rfl⟩ := eq_ofNat_of_zero_le (dims h (by simp))
  obtain ⟨w, rfl⟩ := eq_ofNat_of_zero_le (dims w (by simp))
  rw [sameGroup] at even many
  have rest : a % group = 0 := by
    rw [← ofNat_tmod] at even
    exact ofNat_inj.mp even
  refine ⟨group, i, a / group, h, w, sameGroup, ofNat_lt.mp many, ?_⟩
  rw [Nat.mul_div_cancel' (Nat.dvd_of_mod_eq_zero rest)]
  exact four

section Rows

variable {group inCg outCg kh kw : Nat} (extents : Extents p group inCg outCg kh kw)
include extents

theorem Extents.inCg_eq : p.inCg = inCg := by
  rw [Captured.inCg, extents.ws]
  rfl

theorem Extents.outCg_eq : p.outCg = outCg := by
  have many := extents.many
  rw [Captured.outCg, extents.ws, extents.groups, getD_cons_zero, ← ofNat_tdiv,
    Nat.mul_div_cancel_left _ (by omega)]

theorem Extents.weightBytes (gi : Nat) : p.weightBytes gi =
    (p.wsrc.drop (gi * (outCg * inCg * (kh * kw)) * p.wdt.dtypeSize)).take
      (outCg * inCg * (kh * kw) * p.wdt.dtypeSize) := by
  have row : p.wRowBytes = ((inCg * kh * kw * p.wdt.dtypeSize : Nat) : Int) := by
    rw [Captured.wRowBytes, extents.inCg_eq, extents.ws]
    push_cast
    rfl
  rw [Captured.weightBytes, row, extents.outCg_eq]
  refine congrArg₂ (fun a b => (p.wsrc.drop a).take b) ?_ ?_
  · rw [← Nat.cast_mul, ← Nat.cast_mul, toNat_natCast]
    ring
  · rw [← Nat.cast_mul, toNat_natCast]
    ring

theorem Extents.biasBytes (gi : Nat) : p.biasBytes gi =
    (p.bsrc.drop (gi * outCg * p.bdt.dtypeSize)).take (outCg * p.bdt.dtypeSize) := by
  rw [Captured.biasBytes, extents.outCg_eq, ← Nat.cast_mul, ← Nat.cast_mul, ← Nat.cast_mul,
    toNat_natCast, toNat_natCast]

variable {R : Type} (lane : DType → HostBuffer → R)

/-- **The constants of a group are its rows.** -/
theorem Extents.rows (cuttable : Cuttable c p) {gi : Nat} (inside : gi < group) (shape : Shape) :
    (⟨[p.outCg, p.inCg, p.ws.getD 2 0, p.ws.getD 3 0], lanes lane p.wdt (p.weightBytes gi)⟩ :
      Held R) = groupRows [(outCg : Int), inCg, kh, kw] (outCg * inCg * (kh * kw)) gi
        ⟨shape, lanes lane p.wdt p.wsrc⟩ := by
  have size : p.wsrc.length = group * (outCg * inCg * (kh * kw)) * p.wdt.dtypeSize := by
    have count := cuttable.weight
    rw [extents.ws, size, size, size, size, size] at count
    have cast : (p.wsrc.length : Int) =
        ((group * (outCg * inCg * (kh * kw)) * p.wdt.dtypeSize : Nat) : Int) := by
      rw [count]
      push_cast
      ring
    exact ofNat_inj.mp cast
  have room := Nat.mul_le_mul_right (outCg * inCg * (kh * kw)) (Nat.succ_le_of_lt inside)
  rw [Nat.succ_mul] at room
  rw [groupRows, extents.weightBytes, lanes_cut lane size room, extents.outCg_eq, extents.inCg_eq,
    extents.ws]
  rfl

theorem Extents.biasRows (cuttable : Cuttable c p) (present : p.b ≠ kNoTensor) {gi : Nat}
    (inside : gi < group) (shape : Shape) :
    (⟨[p.outCg], lanes lane p.bdt (p.biasBytes gi)⟩ : Held R) =
      groupRows [(outCg : Int)] outCg gi ⟨shape, lanes lane p.bdt p.bsrc⟩ := by
  have size : p.bsrc.length = group * outCg * p.bdt.dtypeSize := by
    have count := cuttable.bias present
    rw [extents.ws, getD_cons_zero, ← Nat.cast_mul] at count
    exact ofNat_inj.mp count
  have room := Nat.mul_le_mul_right outCg (Nat.succ_le_of_lt inside)
  rw [Nat.succ_mul] at room
  rw [groupRows, extents.biasBytes, lanes_cut lane size room, extents.outCg_eq]

end Rows

/-! ## What a block computes -/

theorem mapM_congr {α β : Type} {f h : α → Option β} {xs : List α} (same : ∀ x ∈ xs, f x = h x) :
    xs.mapM f = xs.mapM h := by
  induction xs with
  | nil => rfl
  | cons x xs ih =>
    rw [mapM_cons, mapM_cons, same x mem_cons_self, ih fun y mem => same y (mem_cons_of_mem x mem)]


section Run

variable {R : Type} (lane : DType → HostBuffer → R)

/-- A tensor that fits its descriptor: it has the rank and the channels, dimensions of 64 bits, and as
many elements as they say. -/
structure Fits (d : TensorDesc) (X : Held R) : Prop where
  dims : ∀ n ∈ X.shape, 0 ≤ n ∧ n < 2 ^ 63
  count : (X.elems.length : Int) = size X.shape
  rank : X.shape.length = d.shape.length
  channels : X.shape.getD 1 0 = d.shape.getD 1 0

def weightOf (p : Captured) : Held R := ⟨p.ws, lanes lane p.wdt p.wsrc⟩

/-- The bias of a convolution, if it has one. -/
def biasOf (g : Graph) (p : Captured) : Option (Held R) :=
  if p.b ≠ kNoTensor then some ⟨(g.desc p.b).shape, lanes lane p.bdt p.bsrc⟩ else none

theorem Fits.whole {X : Held R} (accepted : Accepted g c p) (fits : Fits (g.desc p.x) X)
    {group inCg outCg kh kw : Nat} (extents : Extents p group inCg outCg kh kw) :
    ∃ n h w, Whole n h w kh kw group inCg outCg X (weightOf lane p) := by
  obtain ⟨n, ch, h, w, four⟩ : ∃ n ch h w, X.shape = [n, ch, h, w] := by
    have rank := fits.rank.trans accepted.rankX
    match X.shape, rank with
    | [n, ch, h, w], _ => exact ⟨n, ch, h, w, rfl⟩
  have dims := fits.dims
  have channels := fits.channels.trans accepted.channels
  have count := fits.count
  rw [four] at dims channels count
  rw [extents.groups, extents.inCg_eq, ← Nat.cast_mul] at channels
  obtain rfl : ch = ((group * inCg : Nat) : Int) := channels
  obtain ⟨n, rfl⟩ := eq_ofNat_of_zero_le (dims n (by simp)).1
  obtain ⟨h, rfl⟩ := eq_ofNat_of_zero_le (dims h (by simp)).1
  obtain ⟨w, rfl⟩ := eq_ofNat_of_zero_le (dims w (by simp)).1
  refine ⟨n, h, w, four, ?_, ?_, extents.ws⟩
  · have small := (dims n (by simp)).2
    exact_mod_cast small
  · rw [size, size, size, size, size] at count
    have cast : (X.elems.length : Int) = ((n * (group * inCg) * (h * w) : Nat) : Int) := by
      rw [count]
      push_cast
      ring
    exact ofNat_inj.mp cast

variable {gEnd : Graph} {base : Nat} {E : TensorId → Option (Held R)}

/-- The constants of all groups are where the nodes of a block look for them. -/
structure HoldsGroups (p : Captured) (base : Nat) (E : TensorId → Option (Held R)) : Prop where
  weight : ∀ gi < p.group.toNat, E (p.weightSlot base gi) =
    some ⟨[p.outCg, p.inCg, p.ws.getD 2 0, p.ws.getD 3 0], lanes lane p.wdt (p.weightBytes gi)⟩
  bias : p.b ≠ kNoTensor → ∀ gi < p.group.toNat, E (p.biasSlot base gi) =
    some ⟨[p.outCg], lanes lane p.bdt (p.biasBytes gi)⟩

theorem slot_ne_none (p : Captured) (base gi i : Nat) : p.slot base gi i ≠ kNoTensor := by
  intro same
  have low : (0 : Int) ≤ p.slot base gi i := natCast_nonneg _
  rw [same] at low
  exact absurd low (by decide)

/-- The bias of a group, as its convolution finds it. -/
theorem biasOperand_group {group inCg outCg kh kw gi : Nat} (cuttable : Cuttable c p)
    (extents : Extents p group inCg outCg kh kw) (held : HoldsGroups lane p base E)
    (low : gi < group) : biasOperand E (p.biasSlot base gi) =
      some ((biasOf lane g p).map (groupRows [(outCg : Int)] outCg gi)) := by
  have many : p.group.toNat = group := by rw [extents.groups, toNat_natCast]
  rw [biasOperand, biasOf]
  by_cases present : p.b ≠ kNoTensor
  · have slot : p.biasSlot base gi ≠ kNoTensor := by
      rw [Captured.biasSlot, if_pos present]
      exact slot_ne_none p base gi 1
    rw [if_pos slot, if_pos present, held.bias present gi (many ▸ low),
      extents.biasRows lane cuttable present low]
    rfl
  · have slot : ¬ p.biasSlot base gi ≠ kNoTensor := by
      rw [Captured.biasSlot, if_neg present]
      exact not_not_intro rfl
    rw [if_neg slot, if_neg present]
    rfl

variable [CommSemiring R] (act : ActType → Float32Bits → Float32Bits → R → R)
  (rest : Operators (Option (Held R)))

theorem part_value {group inCg outCg kh kw gi : Nat} (cuttable : Cuttable c p)
    (extents : Extents p group inCg outCg kh kw) (held : HoldsGroups lane p base E)
    (low : gi < group) {m : Node} (part : m = p.convNode c gi (p.sliceSlot base gi)
      (p.weightSlot base gi) (p.biasSlot base gi) (p.outSlot base gi)) :
    (operatorMachine (exactOperators act rest) gEnd).value m E (p.outSlot base gi) =
      (E (p.sliceSlot base gi)).bind fun X => convolve (act c.fusedAct c.actLo c.actHi) (Captured.partAttr c) X
        (groupRows [(outCg : Int), inCg, kh, kw] (outCg * inCg * (kh * kw)) gi (weightOf lane p))
        ((biasOf lane g p).map (groupRows [(outCg : Int)] outCg gi)) := by
  have many : p.group.toNat = group := by rw [extents.groups, toNat_natCast]
  have bias : (if p.b ≠ kNoTensor then [p.biasSlot base gi] else []).headD kNoTensor =
      p.biasSlot base gi := by
    rw [Captured.biasSlot]
    split <;> rfl
  have inputs : m.inputs = p.sliceSlot base gi :: p.weightSlot base gi ::
      if p.b ≠ kNoTensor then [p.biasSlot base gi] else [] := by
    rw [part, Captured.convNode]
    dsimp only
    split <;> rfl
  have attr : m.attr = Captured.partAttr c := by
    rw [part]
    rfl
  have plain : m.attr.has (str "pw_steps") = false := by
    rw [attr, has_eq, partAttr_lookup, if_neg (by decide), ← has_eq]
    exact cuttable.plain
  have activation : m.fusedAct = c.fusedAct ∧ m.actLo = c.actLo ∧ m.actHi = c.actHi := by
    rw [part]
    exact ⟨rfl, rfl, rfl⟩
  have weight := held.weight gi (many ▸ low)
  rw [extents.rows lane cuttable low p.ws] at weight
  rw [value_conv act rest (by rw [part]; rfl) plain (by rw [part]; rfl) (by rw [part]; rfl) inputs
    bias (slot_ne_none p base gi _) (slot_ne_none p base gi _), weight,
    @biasOperand_group g c p R lane base E group inCg outCg kh kw gi cuttable extents held low,
    activation.1, activation.2.1, activation.2.2, attr]
  rfl

/-- **A block computes the convolution.** -/
theorem block_value (accepted : Accepted g c p) (cuttable : Cuttable c p)
    (solved : (operatorMachine (exactOperators act rest) gEnd).Solved (p.block c base) E)
    (held : HoldsGroups lane p base E)
    (fits : ∀ X, E p.x = some X → Fits (g.desc p.x) X)
    (proper : ∀ X Y, E p.x = some X → convolve (act c.fusedAct c.actLo c.actHi) c.attr X
      (weightOf lane p) (biasOf lane g p) = some Y → ∀ d ∈ Y.shape, 0 ≤ d) :
    E p.y = (E p.x).bind fun X => convolve (act c.fusedAct c.actLo c.actHi) c.attr X
      (weightOf lane p) (biasOf lane g p) := by
  obtain ⟨group, inCg, outCg, kh, kw, extents⟩ := accepted.extents cuttable
  have many : p.group.toNat = group := by rw [extents.groups, toNat_natCast]
  have written : ∀ {m : Node} {o : TensorId}, m.outputs = [o] → o ≠ kNoTensor → o ∈ writesOf m :=
    fun outputs present => mem_filter.mpr
      ⟨outputs ▸ mem_singleton_self _, decide_eq_true present⟩
  have inBlock : ∀ {gi m}, gi < group → m ∈ p.groupNodes c base gi → m ∈ p.block c base :=
    fun low mem => mem_append_left _ (mem_flatMap.mpr
      ⟨_, mem_range.mpr (many ▸ low), mem⟩)
  have outs : ∀ gi ∈ List.range group, E (p.outSlot base gi) =
      ((E p.x).map (groupChannels inCg gi)).bind fun X =>
        convolve (act c.fusedAct c.actLo c.actHi) (Captured.partAttr c) X
          (groupRows [(outCg : Int), inCg, kh, kw] (outCg * inCg * (kh * kw)) gi (weightOf lane p))
          ((biasOf lane g p).map (groupRows [(outCg : Int)] outCg gi)) := by
    intro gi listed
    have low := mem_range.mp listed
    have slice := solved _ (inBlock low mem_cons_self) (p.sliceSlot base gi)
      (written rfl (slot_ne_none p base gi _))
    rw [value_slice act rest accepted.hasX extents.inCg_eq] at slice
    have out := solved _ (inBlock low (mem_cons_of_mem _ mem_cons_self))
      (p.outSlot base gi) (written rfl (slot_ne_none p base gi _))
    rw [@part_value g c p R lane gEnd base E _ act rest group inCg outCg kh kw gi cuttable extents
      held low _ rfl, slice] at out
    exact out
  have result := solved _ (mem_append_right _ (mem_singleton_self _)) p.y
    (written rfl cuttable.result)
  rw [value_concat act rest (by
    intro o listed
    obtain ⟨gi, -, rfl⟩ := mem_map.mp listed
    exact slot_ne_none p base gi _), mapM_map, many] at result
  have parts := result.trans (congrArg (Option.map (joined 1)) (mapM_congr outs))
  rw [parts]
  cases input : E p.x with
  | none =>
    obtain ⟨more, rfl⟩ := Nat.exists_eq_add_of_lt extents.many
    rw [range_succ_eq_map, mapM_cons]
    rfl
  | some X =>
    obtain ⟨n, h, w, whole⟩ := (fits X input).whole lane accepted extents
    have groups : c.attr.geti (str "group") 1 = group := accepted.group.trans extents.groups
    exact whole.joined_eq groups (Nat.zero_lt_of_lt extents.many) (ungrouped_partAttr c) _ _
      fun Y made => proper X Y input made

end Run

/-! ## The lowered graph -/

section Exact

variable {R : Type} (lane : DType → HostBuffer → R)

/-- What a tensor table holds of a graph's constants. -/
def Constants (g : Graph) (e : TensorId → Option (Held R)) : Prop :=
  ∀ (t : TensorId) hb, g.initializers[t]? = some hb →
    e t = some ⟨(g.desc t).shape, lanes lane (g.desc t).dtype hb⟩

/-- A graph as the importer has it: its nodes can be run in their order and name tensors of the
graph, no node writes a constant, and its convolutions can be cut. -/
structure Standing (g : Graph) : Prop where
  ordered : signature.Ordered g.nodes
  known : ∀ n ∈ g.nodes, Known g n
  constants : ∀ n ∈ g.nodes, ∀ t ∈ writesOf n, ¬ g.isInitializer t
  convs : ∀ c ∈ g.nodes, ∀ p, captured g c = some p → Cuttable c p

/-- The shapes of a run: what a convolution that is taken apart reads fits its descriptor, and what
it computes has no extent below zero. -/
structure Shaped (K : Operators (Option (Held R))) (g : Graph) (e : TensorId → Option (Held R)) :
    Prop where
  input : ∀ c ∈ g.nodes, ∀ p, captured g c = some p →
    ∀ X, perform K g g.nodes e p.x = some X → Fits (g.desc p.x) X
  output : ∀ c ∈ g.nodes, ∀ p, captured g c = some p →
    ∀ Y, perform K g g.nodes e p.y = some Y → ∀ d ∈ Y.shape, 0 ≤ d

/-- The inputs of a convolution that is taken apart. -/
theorem Accepted.inputs (accepted : Accepted g c p) :
    ∃ more, c.inputs = p.x :: p.w :: more ∧ more.headD kNoTensor = p.b := by
  have x := accepted.x
  have w := accepted.w
  have b := accepted.b
  match here : c.inputs with
  | [] =>
    rw [here] at x
    exact absurd x.symm accepted.hasX
  | [t] =>
    rw [here] at w
    exact absurd w.symm accepted.hasW
  | t :: u :: more =>
    rw [here] at x w b
    obtain rfl : t = p.x := x
    obtain rfl : u = p.w := w
    refine ⟨more, rfl, ?_⟩
    cases more <;> exact b

theorem bytesOf_constant {t : TensorId} (constant : g.isInitializer t) :
    g.initializers[t]? = some (bytesOf g t) := by
  rw [Graph.isInitializer, Std.ExtTreeMap.contains_eq_isSome_getElem?] at constant
  obtain ⟨hb, here⟩ := Option.isSome_iff_exists.mp constant
  rw [bytesOf, here, Option.getD_some]

variable {E' F e e' : TensorId → Option (Held R)} {n : Node}

theorem Accepted.operands (accepted : Accepted g c p)
    (held : Constants lane g e) :
    e p.w = some (weightOf lane p) ∧ biasOperand e p.b = some (biasOf lane g p) := by
  refine ⟨?_, ?_⟩
  · rw [held p.w _ (bytesOf_constant accepted.constant), weightOf, accepted.ws, accepted.wdt,
      accepted.wsrc]
  · rw [biasOperand, biasOf]
    by_cases present : p.b ≠ kNoTensor
    · rw [if_pos present, if_pos present, held p.b _ (bytesOf_constant (accepted.biasConstant present)),
        accepted.bdt present, accepted.bsrc present]
      rfl
    · rw [if_neg present, if_neg present]

variable {gEnd : Graph} {base : Nat}

theorem holdsGroups
    (constants : ∀ gi < p.group.toNat, p.GroupConstants gEnd base gi) (held : Constants lane gEnd e')
    (same : ∀ gi i, i + 2 < p.stride → F (p.slot base gi i) = e' (p.slot base gi i)) :
    HoldsGroups lane p base F := by
  have constant : ∀ {t shape dt hb}, IsConstant gEnd t shape dt hb →
      e' t = some ⟨shape, lanes lane dt hb⟩ := by
    intro t shape dt hb is
    rw [held t hb is.bytes, is.shape, is.type]
  refine ⟨fun gi low => ?_, fun present gi low => ?_⟩
  · exact (same gi 0 (stride_pos p)).trans (constant (constants gi low).weight)
  · have four : p.stride = 4 := if_pos present
    have place : p.biasSlot base gi = p.slot base gi 1 := if_pos present
    have value := constant ((constants gi low).bias present)
    rw [place] at value ⊢
    exact (same gi 1 (by omega)).trans value

variable [CommSemiring R] (act : ActType → Float32Bits → Float32Bits → R → R)
  (rest : Operators (Option (Held R)))

/-- What a convolution computes where its constants are. -/
theorem conv_value (accepted : Accepted g c p) (cuttable : Cuttable c p)
    (weight : F p.w = some (weightOf lane p))
    (bias : biasOperand F p.b = some (biasOf lane g p)) :
    (operatorMachine (exactOperators act rest) g).value c F p.y = (F p.x).bind fun X =>
      convolve (act c.fusedAct c.actLo c.actHi) c.attr X (weightOf lane p) (biasOf lane g p) := by
  obtain ⟨more, inputs, third⟩ := accepted.inputs
  rw [value_conv act rest accepted.type cuttable.plain accepted.residual cuttable.outputs inputs
    third accepted.hasX accepted.hasW, weight, bias]
  rfl

/-- What a block writes: the result, and the last two slots of each group. -/
theorem writes_block {m : Node} {t : TensorId} (mem : m ∈ p.block c base)
    (written : t ∈ writesOf m) :
    t = p.y ∨ ∃ gi i, i < p.stride ∧ p.stride ≤ i + 2 ∧ t = p.slot base gi i := by
  have wide := stride_pos p
  rcases mem_append.mp mem with inGroups | last
  · obtain ⟨gi, -, inGroup⟩ := mem_flatMap.mp inGroups
    rw [Captured.groupNodes, mem_cons, mem_singleton] at inGroup
    refine .inr ?_
    rcases inGroup with rfl | rfl
    · exact ⟨gi, p.stride - 2, by omega, by omega, writes_single rfl written⟩
    · exact ⟨gi, p.stride - 1, by omega, by omega, writes_single rfl written⟩
  · obtain rfl := mem_singleton.mp last
    exact .inl (writes_single rfl written)

theorem slot_inj {gi gi' i j : Nat} (first : i < p.stride) (second : j < p.stride)
    (same : p.slot base gi i = p.slot base gi' j) : i = j := by
  rcases Nat.lt_trichotomy gi gi' with before | rfl | after
  · exact absurd (same ▸ slot_lt before first) (lt_irrefl _)
  · exact Nat.add_left_cancel (ofNat_inj.mp same)
  · exact absurd (same ▸ slot_lt after second) (lt_irrefl _)

/-- The names of a convolution that is taken apart. -/
structure Names (g : Graph) (c : Node) (p : Captured) : Prop where
  oldX : p.x < (g.tensors.length : Int)
  oldY : p.y < (g.tensors.length : Int)
  readX : p.x ∈ readsOf c
  writeY : p.y ∈ writesOf c
  self : p.y ≠ p.x

theorem Standing.names {g : Graph} (standing : Standing g) (mem : c ∈ g.nodes)
    (accepted : Accepted g c p) (cuttable : Cuttable c p) : Names g c p := by
  obtain ⟨more, inputs, -⟩ := accepted.inputs
  have known := standing.known c mem
  have readX : p.x ∈ readsOf c := mem_readsOf.mpr
    ⟨mem_append_left _ (inputs ▸ mem_cons_self), accepted.hasX⟩
  have writeY : p.y ∈ writesOf c := mem_filter.mpr
    ⟨cuttable.outputs ▸ mem_singleton_self _, decide_eq_true cuttable.result⟩
  exact ⟨accepted.x ▸ known.input 0, accepted.y ▸ known.output, readX, writeY,
    fun same => standing.ordered.self c mem p.y writeY (same ▸ readX)⟩

theorem Names.sound (names : Names g c p) (behind : g.tensors.length ≤ base) :
    signature.Block (base : Int) (base + p.group.toNat * p.stride : Nat) c (p.block c base) :=
  block_sound (lt_of_lt_of_le names.oldX (ofNat_le.mpr behind))
    (lt_of_lt_of_le names.oldY (ofNat_le.mpr behind)) names.self names.readX names.writeY

/-- **A block stands for its convolution** among values that agree on the old tensors. -/
theorem block_agrees {K : Operators (Option (Held R))} (kernels : K = exactOperators act rest)
    (accepted : Accepted g c p) (cuttable : Cuttable c p)
    (names : Names g c p) (behind : g.tensors.length ≤ base)
    {E : TensorId → Option (Held R)}
    (constants : ∀ gi < p.group.toNat, p.GroupConstants gEnd base gi)
    (held : Constants lane gEnd E')
    (weights : e p.w = some (weightOf lane p) ∧ biasOperand e p.b = some (biasOf lane g p))
    (fits : ∀ X, E p.x = some X → Fits (g.desc p.x) X)
    (proper : ∀ Y, (operatorMachine K g).value c e p.y = some Y → ∀ d ∈ Y.shape, 0 ≤ d)
    (agree : Machine.Agree (fun t : TensorId => t < g.tensors.length) e e')
    (reads : ∀ t ∈ readsOf c, e t = E t) (new : ∀ t : TensorId, (base : Int) ≤ t → e' t = E' t) :
    Machine.Agree (fun t : TensorId => t < g.tensors.length)
      ((operatorMachine K g).step e c) ((operatorMachine K gEnd).run (p.block c base) e') := by
  subst kernels
  have start : (g.tensors.length : Int) ≤ base := ofNat_le.mpr behind
  have slots : ∀ {gi i}, (base : Int) ≤ p.slot base gi i := fun {gi i} =>
    ofNat_le.mpr (by omega)
  obtain ⟨oldX, oldY, readX, writeY, self⟩ := id names
  have sound := names.sound behind
  have untouched : ∀ {t : TensorId}, t < g.tensors.length → t ≠ p.y → ∀ m ∈ p.block c base,
      t ∉ writesOf m := by
    intro t old other m mem written
    rcases writes_block mem written with same | ⟨gi, i, -, -, rfl⟩
    · exact other same
    · exact absurd old (not_lt.mpr (start.trans slots))
  have frame := fun {t} (free : ∀ m ∈ p.block c base, t ∉ writesOf m) =>
    (operatorMachine (exactOperators act rest) gEnd).run_frame free e'
  have groups : HoldsGroups lane p base
      ((operatorMachine (exactOperators act rest) gEnd).run (p.block c base) e') := by
    refine holdsGroups lane constants held fun gi i early => ?_
    rw [frame fun m mem written => ?_, new _ slots]
    rcases writes_block mem written with same | ⟨gi', j, inside, late, same⟩
    · exact absurd oldY (not_lt.mpr (same ▸ start.trans slots))
    · have := slot_inj (by omega) inside same
      omega
  have x : (operatorMachine (exactOperators act rest) gEnd).run (p.block c base) e' p.x = e p.x := by
    rw [frame (untouched oldX self.symm), agree p.x oldX]
  have value := conv_value lane act rest (g := g) accepted cuttable weights.1 weights.2
  intro t old
  by_cases result : t = p.y
  · subst result
    have stepped : (operatorMachine (exactOperators act rest) g).step e c p.y =
        (operatorMachine (exactOperators act rest) g).value c e p.y := if_pos writeY
    rw [stepped, value,
      block_value lane act rest accepted cuttable (Machine.solved_run sound.ordered e')
        groups (fun X here => fits X (by rw [← reads p.x readX, ← x, here])) fun X Y here made => ?_, x]
    refine proper Y ?_
    rw [value, ← x, here]
    exact made
  · rw [(operatorMachine (exactOperators act rest) g).step_frame (fun written =>
      result (writes_single cuttable.outputs written)), frame (untouched old result), agree t old]

theorem runOperator_extends {V : Type} {K : Operators V} (more : Extends g g')
    (known : Known g n) : runOperator K g' n = runOperator K g n := by
  have operation : operation g' n = operation g n := by
    rw [operation, operation, more.desc _ known.output]
  funext e
  rw [runOperator, runOperator, operation]

/-- What stands in the place of a node of the graph, with new names behind those of the graph. -/
def Placed (g gEnd : Graph) (lo hi : TensorId) (n : Node) (block : List Node) : Prop :=
  Replaced g gEnd lo hi n block ∧ n ∈ g.nodes ∧ (g.tensors.length : Int) ≤ lo

theorem Standing.sound {g : Graph} (standing : Standing g) {lo hi : TensorId} {n : Node}
    {block : List Node} (placed : Placed g gEnd lo hi n block) : signature.Block lo hi n block := by
  obtain ⟨here, mem, behind⟩ := placed
  cases here with
  | kept none_ => exact Signature.block_self (standing.ordered.self n mem)
  | lowered found constants =>
    exact (standing.names mem (accepted_of_captured found)
      (standing.convs n mem _ found)).sound (ofNat_le.mp behind)

/-- **What stands in the place of a node computes what it did.** -/
theorem Standing.computes {g : Graph} (standing : Standing g)
    (constants : Constants lane g e)
    (shaped : Shaped (exactOperators act rest) g e) (held : Constants lane gEnd E')
    (more : Extends g gEnd) {lo hi : TensorId} {block : List Node}
    (placed : Placed g gEnd lo hi n block) {e₁ e₂ : TensorId → Option (Held R)}
    (agree : Machine.Agree (fun t : TensorId => t < g.tensors.length) e₁ e₂)
    (reads : ∀ t ∈ readsOf n, e₁ t = perform (exactOperators act rest) g g.nodes e t)
    (new : ∀ t : TensorId, lo ≤ t → e₂ t = E' t) :
    Machine.Agree (fun t : TensorId => t < g.tensors.length)
      ((operatorMachine (exactOperators act rest) g).step e₁ n)
      ((operatorMachine (exactOperators act rest) gEnd).run block e₂) := by
  obtain ⟨here, mem, behind⟩ := placed
  have known := standing.known n mem
  cases here with
  | kept none_ =>
    intro t old
    have same : (operatorMachine (exactOperators act rest) gEnd).step e₂ n t =
        (operatorMachine (exactOperators act rest) g).step e₂ n t := by
      unfold Machine.step operatorMachine
      dsimp only
      rw [runOperator_extends more known]
    refine Eq.trans ?_ same.symm
    exact agree.step (fun r read => known r (.inl (mem_readsOf.mp read).1)) t old
  | @lowered n p base found groups =>
    have accepted := accepted_of_captured found
    have cuttable := standing.convs n mem p found
    have names := standing.names mem accepted cuttable
    have solved : (operatorMachine (exactOperators act rest) g).Solved g.nodes
        (perform (exactOperators act rest) g g.nodes e) :=
      Machine.solved_run standing.ordered e
    have kept : Constants lane g (perform (exactOperators act rest) g g.nodes e) := by
      intro t hb here
      refine Eq.trans ((operatorMachine (exactOperators act rest) g).run_frame
        (fun m inside written => standing.constants m inside t written ?_) e) (constants t hb here)
      rw [Graph.isInitializer, Std.ExtTreeMap.contains_eq_isSome_getElem?, here]
      rfl
    obtain ⟨more', inputs, third⟩ := accepted.inputs
    have readW : p.w ∈ readsOf n := mem_readsOf.mpr ⟨mem_append_left _
      (inputs ▸ mem_cons_of_mem _ mem_cons_self), accepted.hasW⟩
    have bias : biasOperand e₁ p.b =
        biasOperand (perform (exactOperators act rest) g g.nodes e) p.b := by
      rw [biasOperand, biasOperand]
      by_cases present : p.b ≠ kNoTensor
      · rw [if_pos present, if_pos present, reads p.b (mem_readsOf.mpr ⟨mem_append_left _ ?_,
          present⟩)]
        rw [inputs]
        refine mem_cons_of_mem _ (mem_cons_of_mem _ ?_)
        rw [← third] at present ⊢
        exact headD_mem present
      · rw [if_neg present, if_neg present]
    refine block_agrees lane act rest rfl accepted cuttable names (ofNat_le.mp behind) groups held
      ?_ (shaped.input n mem p found) (fun Y made => ?_) agree reads new
    · rw [reads p.w readW, bias]
      exact accepted.operands lane kept
    · refine shaped.output n mem p found Y ?_
      rw [solved n mem p.y names.writeY, ← made]
      exact ((operatorMachine (exactOperators act rest) g).depends n _ _ reads p.y
        names.writeY).symm

end Exact

/-- A convolution of two groups, each with one channel in and two channels out. -/
def twoGroups : Graph where
  tensors := [{ name := str "x", shape := [1, 2, 1, 1] },
    { name := str "w", shape := [4, 1, 1, 1], dtype := .int8, isInitializer := true },
    { name := str "y", shape := [1, 4, 1, 1] }]
  nodes := [conv]
  inputs := [0]
  outputs := [2]
  initializers := (∅ : Std.ExtTreeMap TensorId HostBuffer).insert 1 [1, 2, 3, 4]
where
  /-- The convolution. -/
  conv : Node :=
    { type := .conv, inputs := [0, 1], outputs := [2],
      attr := ⟨(∅ : Std.ExtTreeMap Str Attr).insert (str "group") (intAttr 2)⟩ }

def twoGroupsEnv (t : TensorId) : Option (Held Int) :=
  if t = 0 then some ⟨[1, 2, 1, 1], [5, 7]⟩
  else if t = 1 then some ⟨[4, 1, 1, 1], [1, 2, 3, 4]⟩
  else none

def byteLane (_ : DType) (hb : HostBuffer) : Int := (hb.headD 0).toNat

def noRest : Operators (Option (Held Int)) := ⟨none, fun _ _ _ _ => []⟩

def twoGroupsConv : Captured where
  group := 2
  x := 0
  w := 1
  b := kNoTensor
  y := 2
  xs := [1, 2, 1, 1]
  ws := [4, 1, 1, 1]
  os := [1, 4, 1, 1]
  base := str "y"
  wdt := .int8
  bdt := .float32
  xdt := .float32
  odt := .float32
  wsrc := [1, 2, 3, 4]
  bsrc := []

theorem captured_twoGroups : captured twoGroups twoGroups.conv = some twoGroupsConv := by
  decide

theorem twoGroups_standing : Standing twoGroups := by
  refine ⟨by decide, fun n mem t named => ?_, by decide, fun c mem p found => ?_⟩
  · obtain rfl := mem_singleton.mp mem
    have listed : t ∈ ([0, 1, kNoTensor, kNoTensor, 2] : List TensorId) := by
      rcases named with read | output
      · exact mem_append_left [2] read
      · exact mem_append_right [0, 1, kNoTensor, kNoTensor] output
    exact (by decide : ∀ t ∈ ([0, 1, kNoTensor, kNoTensor, 2] : List TensorId), t < 3) t listed
  · obtain rfl := mem_singleton.mp mem
    obtain rfl := Option.some.inj (captured_twoGroups.symm.trans found)
    exact ⟨rfl, by decide, by decide, by decide, by decide, fun has => absurd rfl has⟩

theorem twoGroups_constants : Constants byteLane twoGroups twoGroupsEnv := by
  intro t hb here
  rw [twoGroups, Std.ExtTreeMap.getElem?_insert] at here
  split at here
  · rename_i same
    obtain rfl := Std.LawfulEqCmp.compare_eq_iff_eq.mp same
    obtain rfl := Option.some.inj here
    rfl
  · cases here

theorem twoGroups_shaped :
    Shaped (exactOperators (fun _ _ _ v => v) noRest) twoGroups twoGroupsEnv := by
  refine ⟨fun c mem p found X held => ?_, fun c mem p found Y held => ?_⟩
  · obtain rfl := mem_singleton.mp mem
    obtain rfl := Option.some.inj (captured_twoGroups.symm.trans found)
    obtain rfl : (⟨[1, 2, 1, 1], [5, 7]⟩ : Held Int) = X := Option.some.inj held
    exact ⟨by decide, by decide, by decide, by decide⟩
  · obtain rfl := mem_singleton.mp mem
    obtain rfl := Option.some.inj (captured_twoGroups.symm.trans found)
    have run : perform (exactOperators (fun _ _ _ v => v) noRest) twoGroups twoGroups.nodes
        twoGroupsEnv 2 = some ⟨[1, 4, 1, 1], [5, 10, 21, 28]⟩ := rfl
    obtain rfl := Option.some.inj (run.symm.trans held)
    decide

end Vknn.Import.GroupedConv
