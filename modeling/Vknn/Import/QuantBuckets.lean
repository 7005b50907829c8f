import Vknn.Import.QuantSteps

/-!
# What one bucket holds afterwards

Each site of a bucket ends with its own outcome on record, whatever the sites before and after
it did: a site changes its node, its weight, its own bias and new tensors, and none of these
belongs to another site.  What the bucket publishes under a key is what the first site with the
key has found.
-/

namespace Vknn.Import.Quantize

open List Int Nat Prod Attributes Option

/-- Operands and constants are in the tensor table. -/
structure Owned (g : Graph) : Prop where
  operands : ∀ nd ∈ g.nodes, ∀ t ∈ nd.reads, t < (g.tensors.length : Int)
  constants : ∀ t, g.isInitializer t = true → 0 ≤ t ∧ t < (g.tensors.length : Int)

variable {g g₀ g' : Graph} {s : QuantSite} {nd : Node} {opt : QuantOptions} {arith : Arithmetic}

theorem Owned.bias_lt (owned : Owned g) (node : g.nodes[s.nodeIdx]? = some nd)
    (operands : 2 ≤ nd.inputs.length) : biasOf nd < (g.tensors.length : Int) := by
  by_cases present : biasOf nd = kNoTensor
  · rw [present]
    exact (show (-1 : Int) < 0 by decide).trans_le (natCast_nonneg _)
  · have behind := (biasOf_mem_reads present).resolve_right (not_lt.mpr operands)
    exact owned.operands nd (mem_of_getElem? node) _ (mem_of_mem_drop behind)

/-! ## One site -/

/-- What a site leaves as it was. -/
structure Touches (g : Graph) (s : QuantSite) (nd : Node) (g' : Graph) : Prop where
  size : g.tensors.length ≤ g'.tensors.length
  others : ∀ i, s.nodeIdx ≠ i → g'.nodes[i]? = g.nodes[i]?
  own : ∃ nd', g'.nodes[s.nodeIdx]? = some nd' ∧ nd.inputs <+: nd'.inputs
  bytes : ∀ t : TensorId, t < g.tensors.length → t ≠ s.weight → ¬ OwnBias g nd t →
    bytesOf g' t = bytesOf g t
  desc : ∀ t : TensorId, t < g.tensors.length → t ≠ s.weight → g'.desc t = g.desc t

section Install

variable {format group nOut : Int} {payload : HostBuffer} {sides : List Side}

/-- The description of a packed weight does not say where a bias is. -/
theorem biasOf_withRecord {made : List (Str × TensorId)}
    (keys : made.map fst = sideKeys format nOut) :
    biasOf (withRecord nd s format group nOut made) = biasOf nd := by
  have absent {key : Str} (other : ∀ f n, key ∉
      [kWq, kWqK, kWqN, kWqGroup, kWqNOut, kWqLayout] ++ sideKeys f n) :
      (withRecord nd s format group nOut made).attr.map[key]? = nd.attr.map[key]? := by
    rw [withRecord_attr]
    refine getElem?_setInts_of_notMem ?_ nd.attr
    unfold described
    rw [map_append, keys]
    exact other format nOut
  have steps : (withRecord nd s format group nOut made).attr.has (str "pw_steps") =
      nd.attr.has (str "pw_steps") := by
    rw [has, has, Std.ExtTreeMap.contains_eq_isSome_getElem?,
      Std.ExtTreeMap.contains_eq_isSome_getElem?, absent]
    intro f n
    unfold sideKeys
    split <;> split <;> decide
  have base (d : Int) : (withRecord nd s format group nOut made).attr.geti (str "pw_opbase") d =
      nd.attr.geti (str "pw_opbase") d := by
    rw [geti, geti, absent]
    intro f n
    unfold sideKeys
    split <;> split <;> decide
  have core : (withRecord nd s format group nOut made).pwCoreInputs = nd.pwCoreInputs := by
    unfold Node.pwCoreInputs
    rw [steps, base]
    rfl
  unfold biasOf
  rw [core]
  rfl

/-- The graph after a weight has been emitted, and possibly its bias corrected. -/
inductive Installs (arith : Arithmetic) (s : QuantSite) (e : Graph) : Graph → Prop where
  | plain : Installs arith s e e
  | corrected (delta : List DoubleBits) (weightName biasSuffix : Str) :
      Installs arith s e (applyBiasCorrection arith e s delta weightName biasSuffix)

theorem Installs.of_delta {e : Graph} (delta : Option (List DoubleBits))
    (weightName biasSuffix : Str) :
    Installs arith s e (match delta with
      | some delta => applyBiasCorrection arith e s delta weightName biasSuffix
      | none => e) := by
  cases delta with
  | none => exact .plain
  | some delta => exact .corrected delta weightName biasSuffix

theorem Installs.keeps {e : Graph} (installs : Installs arith s e g')
    (node : e.nodes[s.nodeIdx]? = some nd) : BiasKeeps e s nd g' := by
  cases installs with
  | plain => exact .refl node
  | corrected delta weightName biasSuffix => exact biasKeeps arith node delta weightName biasSuffix

/-- **Installing a packed weight puts it on record and touches nothing else.** -/
theorem install (node : g.nodes[s.nodeIdx]? = some nd) (low : 0 ≤ s.weight)
    (inside : s.weight < (g.tensors.length : Int)) (weight : ¬ OwnBias g nd s.weight)
    (bias : biasOf nd < (g.tensors.length : Int))
    (keys : sides.map fst = sideKeys format nOut)
    (installs : Installs arith s (emit g s format group nOut payload sides).1 g') :
    Touches g s nd g' ∧ OnRecord g' s g.tensors.length
        (recordFor s format group nOut payload (sides.map fun side => side.2.2)) ∧
      sideIds (g'.nodes.getD s.nodeIdx {}) =
        (emit g s format group nOut payload sides).2.map snd := by
  have made := madeSides g sides
  have names := made.keys.trans keys
  have size : (emit g s format group nOut payload sides).1.tensors.length =
      g.tensors.length + sides.length := emit_size g
  have node' : (emit g s format group nOut payload sides).1.nodes[s.nodeIdx]? =
      some (withRecord nd s format group nOut (addSides g sides).2) :=
    (emit_node g s.nodeIdx).trans (by rw [if_pos rfl, node, map_some])
  have own (t : TensorId) : OwnBias (emit g s format group nOut payload sides).1
      (withRecord nd s format group nOut (addSides g sides).2) t ↔ OwnBias g nd t := by
    unfold OwnBias
    rw [biasOf_withRecord names, tensorUses_congr (emit_reads g) (emit_outputs g)]
  have keeps := installs.keeps node'
  have later {t : TensorId} (before : t < (g.tensors.length : Int)) :
      t < ((emit g s format group nOut payload sides).1.tensors.length : Int) :=
    before.trans_le (Int.ofNat_le.mpr (size ▸ Nat.le_add_right _ _))
  refine ⟨⟨?_, ?_, ?_, ?_, ?_⟩, ?_, ?_⟩
  · exact (size ▸ Nat.le_add_right _ _).trans keeps.size
  · intro i apart
    rw [keeps.others i apart, emit_node, if_neg apart]
  · obtain ⟨nd', there, inputs, -⟩ := keeps.own
    exact ⟨nd', there, inputs⟩
  · intro t before apart other
    rw [keeps.bytes t (later before) (fun mine => other ((own t).mp mine)), emit_bytes,
      if_neg apart, made.kept t before]
  · intro t before apart
    rw [keeps.desc t (later before), emit_desc g before apart]
  · refine keeps.onRecord node' (emit_onRecord node low inside keys) (later inside) ?_ ?_
    · exact fun mine => weight ((own _).mp mine)
    · rw [biasOf_withRecord names]
      exact bias
  · obtain ⟨nd', there, -, attr⟩ := keeps.own
    rw [getD_of_node there]
    have same : sideIds nd' = sideIds (withRecord nd s format group nOut (addSides g sides).2) := by
      unfold sideIds
      rw [attr]
    exact same.trans (sideIds_withRecord names)

end Install

/-! ## The outcome of a site -/

def sideBytes (opt : QuantOptions) (found : Packed) : List HostBuffer :=
  [found.scales] ++ (if found.oidx = [] then [] else [oidxBytes found.oidx, found.oval]) ++
    (if opt.lut4 then [found.codebook] else [])

theorem sidesOf_bytes (g : Graph) (s : QuantSite) (opt : QuantOptions) (group : Int)
    (found : Packed) : (sidesOf g s opt group found).map (fun side => side.2.2) =
      sideBytes opt found := by
  unfold sidesOf sideBytes
  by_cases none : found.oidx = [] <;> by_cases lut : opt.lut4 <;> simp [none, lut]

theorem sidesOf_keys (g : Graph) (s : QuantSite) (opt : QuantOptions) (group : Int)
    (found : Packed) : (sidesOf g s opt group found).map fst =
      sideKeys opt.format found.oidx.length := by
  have outliers : 0 < found.oidx.length ↔ found.oidx ≠ [] := length_pos_iff
  have format : opt.format = kWqFormatLut4 ↔ opt.lut4 = true := by
    unfold QuantOptions.format
    cases opt.lut4 <;> simp [kWqFormatLut4, kWqFormatInt8, kWqFormatInt4]
    split <;> decide
  unfold sidesOf sideKeys
  by_cases none : found.oidx = [] <;> by_cases lut : opt.lut4 <;>
    simp [none, lut, outliers, format]

def ownRecord (opt : QuantOptions) (type : OpType) (s : QuantSite) : Verdict → Option QuantRecord
  | .keptFp16 => none
  | .packed found =>
    some (recordFor s opt.format (groupFor opt type s.k) found.oidx.length found.payload
      (sideBytes opt found))

/-- The record of a published source, replayed at a site. -/
def sourceRecord (opt : QuantOptions) (s : QuantSite) (entry : Graph × QuantSource) :
    Option QuantRecord :=
  if entry.2.keptFp16 then none
  else
    some (recordFor s opt.format entry.2.group entry.2.nOut (bytesOf entry.1 entry.2.weight)
      (entry.2.sides.map fun side => bytesOf entry.1 side.2))

/-- A published source names the side tensors under the attributes they are read by. -/
def Named (opt : QuantOptions) (src : QuantSource) : Prop :=
  src.keptFp16 = false → src.sides.map fst = sideKeys opt.format src.nOut

/-- What a site ends with: the published source replayed, else the verdict of its own bucket. -/
def outcome (arith : Arithmetic) (opt : QuantOptions) (g : Graph)
    (actStats : TensorId → Option ActStats) (shared : QuantCache) (s : QuantSite) :
    Option QuantRecord :=
  match cachedFor g opt shared s with
  | some entry => sourceRecord opt s entry
  | none =>
    ownRecord opt (g.nodes.getD s.nodeIdx {}).type s (arith.grid opt (evidence g s actStats))

/-! ## The sites of a bucket in order -/

/-- The state of a bucket after some of its sites, against the graph it started from. -/
structure BucketInv (g₀ : Graph) (out : QuantSite → Option QuantRecord) (done : List QuantSite)
    (g : Graph) : Prop where
  size : g₀.tensors.length ≤ g.tensors.length
  untouched : ∀ i : Nat, (∀ d ∈ done, d.nodeIdx ≠ i) → g.nodes[i]? = g₀.nodes[i]?
  inputs : ∀ (i : Nat) (nd : Node), g₀.nodes[i]? = some nd →
    ∃ nd' : Node, g.nodes[i]? = some nd' ∧ nd.inputs <+: nd'.inputs
  waiting : ∀ s nd, SiteOf g₀ s nd → (∀ d ∈ done, d.nodeIdx ≠ s.nodeIdx) →
    bytesOf g s.weight = bytesOf g₀ s.weight ∧ g.desc s.weight = g₀.desc s.weight
  absent : ∀ d ∈ done, out d = none → record g d.nodeIdx d.weight = none
  present : ∀ d ∈ done, ∀ r, out d = some r → OnRecord g d g₀.tensors.length r

theorem BucketInv.start (g₀ : Graph) (out : QuantSite → Option QuantRecord) : BucketInv g₀ out [] g₀ where
  size := le_rfl
  untouched _ _ := rfl
  inputs _ nd node := ⟨nd, node, prefix_rfl⟩
  waiting _ _ _ _ := ⟨rfl, rfl⟩
  absent _ mem := absurd mem not_mem_nil
  present _ mem := absurd mem not_mem_nil

theorem Weighs.mono {a b : Node} {w : TensorId} (weighs : Weighs a w)
    (inputs : a.inputs <+: b.inputs) : Weighs b w := by
  obtain ⟨x, rest, eq⟩ := weighs
  obtain ⟨more, longer⟩ := inputs
  exact ⟨x, rest ++ more, by rw [← longer, eq]; rfl⟩

theorem Weighs.two_le {w : TensorId} (weighs : Weighs nd w) : 2 ≤ nd.inputs.length := by
  obtain ⟨x, rest, eq⟩ := weighs
  rw [eq]
  exact le_add_left _ _

section Steps

variable {out : QuantSite → Option QuantRecord} {done : List QuantSite}

/-- The bias of a site that is not done is no weight of the bucket. -/
theorem BucketInv.not_ownBias (inv : BucketInv g₀ out done g) (site : SiteOf g₀ s nd)
    (new : ∀ d ∈ done, d.nodeIdx ≠ s.nodeIdx) {t : QuantSite} {b : Node} (other : SiteOf g₀ t b) :
    ¬ OwnBias g nd t.weight := by
  rintro ⟨same, present, once⟩
  obtain ⟨b', there, inputs⟩ := inv.inputs t.nodeIdx b other.node
  have here : g.nodes[s.nodeIdx]? = some nd := (inv.untouched s.nodeIdx new).trans site.node
  rw [← same] at present once
  exact biasOf_ne_weight here there (other.weighs.mono inputs) site.weighs.two_le present once same

/-- A site that stays as it is has nothing on record. -/
theorem BucketInv.keep (inv : BucketInv g₀ out done g) (site : SiteOf g₀ s nd)
    (new : ∀ d ∈ done, d.nodeIdx ≠ s.nodeIdx) (none : out s = none) :
    BucketInv g₀ out (done ++ [s]) g where
  size := inv.size
  untouched i apart := inv.untouched i fun d mem => apart d (mem_append_left _ mem)
  inputs := inv.inputs
  waiting t b other apart := inv.waiting t b other fun d mem => apart d (mem_append_left _ mem)
  absent d mem unpacked := by
    rcases mem_append.mp mem with before | now
    · exact inv.absent d before unpacked
    · obtain rfl := mem_singleton.mp now
      unfold record
      dsimp only
      rw [getD_of_node ((inv.untouched d.nodeIdx new).trans site.node), site.fresh]
      rfl
  present d mem r packed := by
    rcases mem_append.mp mem with before | now
    · exact inv.present d before r packed
    · obtain rfl := mem_singleton.mp now
      rw [none] at packed
      cases packed

/-- **A site that is packed leaves the other sites as they are.** -/
theorem BucketInv.pack (inv : BucketInv g₀ out done g) (owned : Owned g₀) (site : SiteOf g₀ s nd)
    (sites : ∀ d ∈ done, ∃ b, SiteOf g₀ d b) (new : ∀ d ∈ done, d.nodeIdx ≠ s.nodeIdx)
    (touches : Touches g s nd g') {r : QuantRecord} (packed : out s = some r)
    (known : OnRecord g' s g₀.tensors.length r) : BucketInv g₀ out (done ++ [s]) g' := by
  have weights {t : QuantSite} {b : Node} (other : SiteOf g₀ t b) :
      t.weight < (g₀.tensors.length : Int) := (owned.constants _ other.constant).2
  have later {t : TensorId} (before : t < (g₀.tensors.length : Int)) :
      t < (g.tensors.length : Int) := before.trans_le (Int.ofNat_le.mpr inv.size)
  have bias := owned.bias_lt site.node site.weighs.two_le
  have weightBytes {t : QuantSite} {b : Node} (other : SiteOf g₀ t b)
      (apart : t.nodeIdx ≠ s.nodeIdx) : bytesOf g' t.weight = bytesOf g t.weight :=
    touches.bytes _ (later (weights other)) (other.weight_ne site apart)
      (inv.not_ownBias site new other)
  have weightDesc {t : QuantSite} {b : Node} (other : SiteOf g₀ t b)
      (apart : t.nodeIdx ≠ s.nodeIdx) : g'.desc t.weight = g.desc t.weight :=
    touches.desc _ (later (weights other)) (other.weight_ne site apart)
  have nodes {d : QuantSite} (mem : d ∈ done) : g'.nodes[d.nodeIdx]? = g.nodes[d.nodeIdx]? :=
    touches.others _ (new d mem).symm
  refine ⟨inv.size.trans touches.size, ?_, ?_, ?_, ?_, ?_⟩
  · intro i apart
    rw [touches.others i (apart s (mem_append_right _ (mem_singleton_self s)))]
    exact inv.untouched i fun d mem => apart d (mem_append_left _ mem)
  · intro i b there
    obtain ⟨b', now, inputs⟩ := inv.inputs i b there
    by_cases mine : s.nodeIdx = i
    · subst mine
      obtain ⟨nd', after, longer⟩ := touches.own
      rw [site.node] at there
      obtain rfl := some.inj there
      exact ⟨nd', after, longer⟩
    · exact ⟨b', (touches.others i mine).trans now, inputs⟩
  · intro t b other apart
    have mine := apart s (mem_append_right _ (mem_singleton_self s))
    have before := inv.waiting t b other fun d mem => apart d (mem_append_left _ mem)
    exact ⟨(weightBytes other mine.symm).trans before.1, (weightDesc other mine.symm).trans before.2⟩
  · intro d mem unpacked
    rcases mem_append.mp mem with before | now
    · have old := inv.absent d before unpacked
      unfold record at old ⊢
      dsimp only at old ⊢
      rw [getD_eq_getElem?_getD, nodes before, ← getD_eq_getElem?_getD]
      revert old
      split
      · intro some
        cases some
      · exact fun _ => rfl
    · obtain rfl := mem_singleton.mp now
      rw [packed] at unpacked
      cases unpacked
  · intro d mem r' also
    rcases mem_append.mp mem with before | now
    · obtain ⟨b, other⟩ := sites d before
      have old := inv.present d before r' also
      have same : g'.nodes.getD d.nodeIdx {} = g.nodes.getD d.nodeIdx {} := by
        rw [getD_eq_getElem?_getD, nodes before, getD_eq_getElem?_getD]
      refine ⟨?_, ?_⟩
      · rw [← old.record]
        refine record_congr (nodes before) (congrArg _ (weightDesc other (new d before)))
          (weightBytes other (new d before)) fun t side => ?_
        have both := old.fresh t side
        refine touches.bytes t both.2 ?_ ?_
        · rintro rfl
          exact absurd (weights site) (not_lt.mpr both.1)
        · rintro ⟨rfl, -⟩
          exact absurd bias (not_lt.mpr both.1)
      · rw [same]
        exact fun t side =>
          ⟨(old.fresh t side).1, (old.fresh t side).2.trans_le (Int.ofNat_le.mpr touches.size)⟩
    · obtain rfl := mem_singleton.mp now
      obtain rfl : r = r' := Option.some.inj (packed.symm.trans also)
      exact known

end Steps

end Vknn.Import.Quantize
