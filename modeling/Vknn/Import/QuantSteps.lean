import Vknn.Import.QuantRecords

/-!
# What one site changes

Quantizing a weight changes the node of the site, the weight, the bias of the node where nobody
else uses it, and tensors made for it.
-/

namespace Vknn.Import.Quantize

open List

variable {g g' : Graph} {s : QuantSite} {nd : Node}

/-! ## The parts of a graph that change -/

theorem getElem?_modifyNode (g : Graph) (i j : Nat) (f : Node → Node) :
    (modifyNode g i f).nodes[j]? = if i = j then g.nodes[j]?.map f else g.nodes[j]? := by
  unfold modifyNode
  rw [getElem?_modify]
  split
  · rfl
  · cases g.nodes[j]? <;> rfl

theorem updateDesc_bytes (g : Graph) (t u : TensorId) (f : TensorDesc → TensorDesc) :
    bytesOf (g.updateDesc t f) u = bytesOf g u := by
  unfold Graph.updateDesc
  split <;> rfl

theorem tensorUses_congr (nodes : g'.nodes.map Node.reads = g.nodes.map Node.reads)
    (outputs : g'.outputs = g.outputs) (t : TensorId) : tensorUses g' t = tensorUses g t := by
  have counts := congrArg (List.map (List.count t)) nodes
  rw [map_map, map_map] at counts
  unfold tensorUses
  rw [outputs]
  exact congrArg (· + _) (congrArg List.sum counts)

/-! ## Emitting a packed weight -/

/-- The attributes that describe a packed weight. -/
def described (s : QuantSite) (format group nOut : Int) (made : List (Str × TensorId)) :
    List (Str × Int) :=
  [(kWq, format), (kWqK, s.k), (kWqN, s.n), (kWqGroup, group), (kWqNOut, nOut),
    (kWqLayout, s.layout)] ++ made

/-- A node with the description of its packed weight. -/
def withRecord (nd : Node) (s : QuantSite) (format group nOut : Int)
    (made : List (Str × TensorId)) : Node :=
  { nd with attr := setInts nd.attr (described s format group nOut made) }

section Emit

variable {format group nOut : Int} {payload : HostBuffer} {sides : List Side}

variable {made : List (Str × TensorId)}

theorem described_nodup (s : QuantSite) (group : Int)
    (keys : made.map Prod.fst = sideKeys format nOut) :
    ((described s format group nOut made).map Prod.fst).Nodup := by
  unfold described
  rw [map_append, keys]
  exact keys_nodup format nOut

theorem withRecord_attr (nd : Node) (made : List (Str × TensorId)) :
    (withRecord nd s format group nOut made).attr =
      setInts nd.attr (described s format group nOut made) := by
  simp only [withRecord]

/-- The described node answers with what it was given. -/
theorem geti_withRecord {e : Str × Int}
    (keys : made.map Prod.fst = sideKeys format nOut)
    (mem : e ∈ described s format group nOut made) (d : Int) :
    (withRecord nd s format group nOut made).attr.geti e.1 d = e.2 := by
  have apart := described_nodup s group keys
  have answer := geti_setInts apart mem nd.attr d
  rw [withRecord_attr]
  exact answer

theorem has_withRecord
    (keys : made.map Prod.fst = sideKeys format nOut) :
    (withRecord nd s format group nOut made).attr.has kWq = true := by
  have apart := described_nodup s group keys
  have inside : (kWq, format) ∈ described s format group nOut made := by simp [described]
  have answer := has_setInts apart inside nd.attr
  rw [withRecord_attr]
  exact answer

theorem sideIds_withRecord
    (keys : made.map Prod.fst = sideKeys format nOut) :
    sideIds (withRecord nd s format group nOut made) = made.map Prod.snd := by
  unfold sideIds
  rw [geti_withRecord (e := (kWq, format)) keys (by simp [described]),
    geti_withRecord (e := (kWqNOut, nOut)) keys (by simp [described]), ← keys, map_map]
  refine map_congr_left fun e mem => ?_
  exact geti_withRecord keys (mem_append_right _ mem) kNoTensor

theorem emit_eq (g : Graph) (s : QuantSite) (format group nOut : Int) (payload : HostBuffer)
    (sides : List Side) :
    emit g s format group nOut payload sides = (modifyNode
        ((setPayload (addSides g sides).1 s.weight payload).updateDesc s.weight fun d =>
          { d with dtype := .float16 })
        s.nodeIdx (withRecord · s format group nOut (addSides g sides).2), (addSides g sides).2) := by
  unfold withRecord described
  rfl

theorem emit_node (g : Graph) (i : Nat) : (emit g s format group nOut payload sides).1.nodes[i]? =
      if s.nodeIdx = i then
        g.nodes[i]?.map (withRecord · s format group nOut (addSides g sides).2)
      else g.nodes[i]? := by
  rw [emit_eq]
  refine (getElem?_modifyNode _ s.nodeIdx i _).trans ?_
  rw [Onnx.updateDesc_nodes]
  change (if s.nodeIdx = i then (addSides g sides).1.nodes[i]?.map _
    else (addSides g sides).1.nodes[i]?) = _
  rw [(madeSides g sides).nodes]

theorem emit_reads (g : Graph) :
    (emit g s format group nOut payload sides).1.nodes.map Node.reads = g.nodes.map Node.reads := by
  refine ext_getElem? fun i => ?_
  rw [getElem?_map, emit_node, getElem?_map]
  split
  · cases g.nodes[i]? <;> rfl
  · rfl

theorem emit_size (g : Graph) : (emit g s format group nOut payload sides).1.tensors.length =
      g.tensors.length + sides.length := by
  rw [emit_eq]
  exact (Onnx.updateDesc_length _ _ _).trans (madeSides g sides).size

theorem emit_outputs (g : Graph) :
    (emit g s format group nOut payload sides).1.outputs = g.outputs := by
  rw [emit_eq]
  exact (Onnx.updateDesc_outputs _ _ _).trans (madeSides g sides).outputs

theorem emit_bytes (g : Graph) (t : TensorId) :
    bytesOf (emit g s format group nOut payload sides).1 t =
      if t = s.weight then payload else bytesOf (addSides g sides).1 t := by
  rw [emit_eq]
  exact (updateDesc_bytes _ s.weight t _).trans (bytesOf_insert _ s.weight t payload)

theorem emit_desc (g : Graph) {t : TensorId} (inside : t < (g.tensors.length : Int))
    (apart : t ≠ s.weight) : (emit g s format group nOut payload sides).1.desc t = g.desc t := by
  rw [emit_eq]
  exact (Onnx.desc_updateDesc_ne apart _ _).trans ((madeSides g sides).desc t inside)

theorem emit_dtype (g : Graph) (low : 0 ≤ s.weight)
    (inside : s.weight < (g.tensors.length : Int)) :
    ((emit g s format group nOut payload sides).1.desc s.weight).dtype = .float16 := by
  rw [emit_eq]
  have below : s.weight < ((addSides g sides).1.tensors.length : Int) := by
    rw [(madeSides g sides).size]
    push_cast
    linarith [Int.natCast_nonneg sides.length]
  exact congrArg TensorDesc.dtype
    (Onnx.desc_updateDesc_self (g := setPayload (addSides g sides).1 s.weight payload) low below _)

def recordFor (s : QuantSite) (format group nOut : Int) (payload : HostBuffer)
    (sides : List HostBuffer) : QuantRecord :=
  { format := format, k := s.k, n := s.n, group := group, nOut := nOut, layout := s.layout
    dtype := .float16, payload := payload, sides := sides }

/-- A packed weight is on record, and the tensors beside it are new. -/
structure OnRecord (g : Graph) (s : QuantSite) (start : Nat) (r : QuantRecord) : Prop where
  record : record g s.nodeIdx s.weight = some r
  fresh : ∀ t ∈ sideIds (g.nodes.getD s.nodeIdx {}),
    (start : Int) ≤ t ∧ t < (g.tensors.length : Int)

/-- **What is emitted is on record.** -/
theorem emit_onRecord (node : g.nodes[s.nodeIdx]? = some nd) (low : 0 ≤ s.weight)
    (inside : s.weight < (g.tensors.length : Int))
    (keys : sides.map Prod.fst = sideKeys format nOut) :
    OnRecord (emit g s format group nOut payload sides).1 s g.tensors.length
      (recordFor s format group nOut payload (sides.map fun side => side.2.2)) := by
  have made := madeSides g sides
  have names := made.keys.trans keys
  have here : (emit g s format group nOut payload sides).1.nodes.getD s.nodeIdx {} =
      withRecord nd s format group nOut (addSides g sides).2 :=
    getD_of_node ((emit_node g s.nodeIdx).trans (by rw [if_pos rfl, node, Option.map_some]))
  have fresh : ∀ t ∈ (addSides g sides).2.map Prod.snd, (g.tensors.length : Int) ≤ t ∧
      t < ((addSides g sides).1.tensors.length : Int) := by
    intro t mem
    obtain ⟨e, inMade, rfl⟩ := mem_map.mp mem
    exact made.fresh e inMade
  refine ⟨?_, ?_⟩
  · unfold record
    dsimp only
    rw [here, if_pos (has_withRecord names), sideIds_withRecord names, map_map]
    refine congrArg some (QuantRecord.ext ?_ ?_ ?_ ?_ ?_ ?_ ?_ ?_ ?_)
    · exact geti_withRecord (e := (kWq, format)) names (by simp [described]) 0
    · exact geti_withRecord (e := (kWqK, s.k)) names (by simp [described]) 0
    · exact geti_withRecord (e := (kWqN, s.n)) names (by simp [described]) 0
    · exact geti_withRecord (e := (kWqGroup, group)) names (by simp [described]) 1
    · exact geti_withRecord (e := (kWqNOut, nOut)) names (by simp [described]) 0
    · exact geti_withRecord (e := (kWqLayout, s.layout)) names (by simp [described]) 0
    · exact emit_dtype g low inside
    · exact (emit_bytes g s.weight).trans (if_pos rfl)
    · rw [← made.bytes]
      refine map_congr_left fun e mem => ?_
      have new := (made.fresh e mem).1
      rw [Function.comp_apply, emit_bytes, if_neg]
      exact fun same => absurd (same ▸ new) (not_le.mpr inside)
  · rw [here, sideIds_withRecord names, emit_size, ← made.size]
    exact fresh

end Emit

/-! ## Correcting a bias -/

/-- A bias of a node that nobody else uses. -/
def OwnBias (g : Graph) (nd : Node) (t : TensorId) : Prop :=
  biasOf nd = t ∧ t ≠ kNoTensor ∧ tensorUses g t = 1

/-- What correcting the bias of a site leaves as it was. -/
structure BiasKeeps (g : Graph) (s : QuantSite) (nd : Node) (g' : Graph) : Prop where
  size : g.tensors.length ≤ g'.tensors.length
  others : ∀ i, s.nodeIdx ≠ i → g'.nodes[i]? = g.nodes[i]?
  own : ∃ nd', g'.nodes[s.nodeIdx]? = some nd' ∧ nd.inputs <+: nd'.inputs ∧ nd'.attr = nd.attr
  bytes : ∀ t : TensorId, t < g.tensors.length → ¬ OwnBias g nd t → bytesOf g' t = bytesOf g t
  desc : ∀ t : TensorId, t < g.tensors.length → g'.desc t = g.desc t

theorem BiasKeeps.refl (node : g.nodes[s.nodeIdx]? = some nd) : BiasKeeps g s nd g :=
  ⟨le_rfl, fun _ _ => rfl, ⟨nd, node, prefix_rfl, rfl⟩, fun _ _ _ => rfl, fun _ _ => rfl⟩

/-- A new bias is a new tensor, named by the node alone. -/
theorem biasKeeps_new (node : g.nodes[s.nodeIdx]? = some nd) (d : TensorDesc) (hb : HostBuffer)
    {f : Node → Node} (inputs : nd.inputs <+: (f nd).inputs) (attr : (f nd).attr = nd.attr) :
    BiasKeeps g s nd (modifyNode (addConstant g d hb).1 s.nodeIdx f) where
  size := by
    change g.tensors.length ≤ (addConstant g d hb).1.tensors.length
    rw [length_addConstant]
    exact Nat.le_succ _
  others i apart := (getElem?_modifyNode _ s.nodeIdx i f).trans (if_neg apart)
  own := by
    refine ⟨f nd, (getElem?_modifyNode _ s.nodeIdx s.nodeIdx f).trans ?_, inputs, attr⟩
    rw [if_pos rfl]
    exact congrArg (Option.map f) node
  bytes t inside _ := (bytesOf_addConstant g d hb t).trans (if_neg inside.ne)
  desc t inside := (desc_addConstant g d hb t).trans (if_neg inside.ne)

theorem biasKeeps (arith : Arithmetic) (node : g.nodes[s.nodeIdx]? = some nd)
    (delta : List DoubleBits) (weightName biasSuffix : Str) :
    BiasKeeps g s nd (applyBiasCorrection arith g s delta weightName biasSuffix) := by
  unfold applyBiasCorrection
  dsimp only
  rw [getD_of_node node]
  split
  · rename_i present
    split
    · exact .refl node
    · rename_i usable
      rw [not_or, not_or, not_not, not_not, not_not] at usable
      split
      · refine ⟨le_rfl, fun _ _ => rfl, ⟨nd, node, prefix_rfl, rfl⟩, fun t _ other => ?_,
          fun _ _ => rfl⟩
        rw [bytesOf_insert, if_neg]
        rintro rfl
        exact other ⟨rfl, present, usable.2.1⟩
      · exact .refl node
  · split
    · exact biasKeeps_new node _ _ prefix_rfl rfl
    · split
      · exact biasKeeps_new node _ _ (prefix_append _ _) rfl
      · exact .refl node

/-- A record stays where the bias is neither the weight nor a tensor beside it. -/
theorem BiasKeeps.onRecord (keeps : BiasKeeps g s nd g') {start : Nat} {r : QuantRecord}
    (node : g.nodes[s.nodeIdx]? = some nd) (known : OnRecord g s start r)
    (inside : s.weight < (g.tensors.length : Int)) (weight : ¬ OwnBias g nd s.weight)
    (bias : biasOf nd < start) : OnRecord g' s start r := by
  obtain ⟨nd', node', -, attr⟩ := keeps.own
  have ids : sideIds nd' = sideIds nd := by
    unfold sideIds
    rw [attr]
  have fresh := known.fresh
  rw [getD_of_node node] at fresh
  refine ⟨?_, ?_⟩
  · rw [← known.record]
    unfold record
    dsimp only
    rw [getD_of_node node, getD_of_node node', attr, ids, keeps.desc _ inside,
      keeps.bytes _ inside weight]
    have sides : (sideIds nd).map (bytesOf g') = (sideIds nd).map (bytesOf g) := by
      refine map_congr_left fun t mem => keeps.bytes t (fresh t mem).2 ?_
      rintro ⟨same, -⟩
      exact absurd (same ▸ bias) (not_lt.mpr (fresh t mem).1)
    rw [sides]
  · rw [getD_of_node node', ids]
    intro t mem
    have both := fresh t mem
    exact ⟨both.1, both.2.trans_le (Int.ofNat_le.mpr keeps.size)⟩

end Vknn.Import.Quantize
