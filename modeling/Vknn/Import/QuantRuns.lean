import Vknn.Import.QuantBuckets

/-!
# A bucket from start to end

After the last site every site of the bucket has its outcome on record, and a key that nobody
had published before is found with the outcome of the first site under it.
-/

namespace Vknn.Import.Quantize

open List

/-! ## What a bucket finds -/

theorem lookup_emplace (produced : Produced) (key κ : WeightKey) (src : QuantSource) :
    (emplace produced key src).lookup κ =
      (produced.lookup κ).or (if κ = key then some src else none) := by
  unfold emplace
  by_cases same : κ = key
  · subst same
    rw [if_pos rfl]
    cases present : produced.lookup κ with
    | some old => exact present
    | none =>
      dsimp only
      rw [lookup_append, present, lookup_cons_self]
  · rw [if_neg same, Option.or_none]
    cases produced.lookup key with
    | some old => rfl
    | none =>
      dsimp only
      rw [lookup_append, lookup_cons, beq_false_of_ne same, lookup_nil, Option.or_none]

/-- A source tells where a site of a graph has its outcome. -/
def Describes (g : Graph) (s : QuantSite) (src : QuantSource) : Option QuantRecord → Prop
  | none => src.keptFp16 = true
  | some r =>
    src.keptFp16 = false ∧ src.weight = s.weight ∧ src.group = r.group ∧ src.nOut = r.nOut ∧
      src.sides.map Prod.fst = sideKeys r.format r.nOut ∧
      src.sides.map Prod.snd = sideIds (g.nodes.getD s.nodeIdx {})

/-- What is found under a key, after the first site with the key. -/
def Found (g : Graph) (out : QuantSite → Option QuantRecord) (produced : Produced)
    (κ : WeightKey) : Option QuantSite → Prop
  | none => produced.lookup κ = none
  | some s => ∃ src, produced.lookup κ = some src ∧ Describes g s src (out s)

variable {g g' g₀ : Graph} {out : QuantSite → Option QuantRecord} {done : List QuantSite}
  {produced : Produced} {key : QuantSite → Option WeightKey} {κ : WeightKey} {s : QuantSite}

theorem Describes.of_node {src : QuantSource} {r : Option QuantRecord}
    (known : Describes g s src r) (node : g'.nodes[s.nodeIdx]? = g.nodes[s.nodeIdx]?) :
    Describes g' s src r := by
  have same : g'.nodes.getD s.nodeIdx {} = g.nodes.getD s.nodeIdx {} := by
    rw [getD_eq_getElem?_getD, node, getD_eq_getElem?_getD]
  cases r with
  | none => exact known
  | some r =>
    unfold Describes at known ⊢
    rw [same]
    exact known

/-- The first of some sites under a key. -/
def firstOf (key : QuantSite → Option WeightKey) (κ : WeightKey) (sites : List QuantSite) :
    Option QuantSite := sites.find? fun s => key s = some κ

theorem firstOf_concat (key : QuantSite → Option WeightKey) (κ : WeightKey)
    (sites : List QuantSite) (s : QuantSite) :
    firstOf key κ (sites ++ [s]) =
      (firstOf key κ sites).or (if key s = some κ then some s else none) := by
  unfold firstOf
  rw [find?_append, find?_singleton]
  by_cases under : key s = some κ <;> simp [under]

/-- What is found stays found where no node of a done site changes. -/
theorem Found.mono (found : Found g out produced κ (firstOf key κ done))
    (nodes : ∀ d ∈ done, g'.nodes[d.nodeIdx]? = g.nodes[d.nodeIdx]?) :
    Found g' out produced κ (firstOf key κ done) := by
  cases first : firstOf key κ done with
  | none =>
    rw [first] at found
    exact found
  | some d =>
    rw [first] at found
    obtain ⟨src, present, described⟩ := found
    exact ⟨src, present, described.of_node (nodes d (mem_of_find?_eq_some first))⟩

theorem Found.skip (found : Found g out produced κ (firstOf key κ done)) (other : key s ≠ some κ) :
    Found g out produced κ (firstOf key κ (done ++ [s])) := by
  rwa [firstOf_concat, if_neg other, Option.or_none]

/-- What a site finds is recorded where it is the first. -/
theorem Found.add (found : Found g out produced κ (firstOf key κ done)) {κ' : WeightKey}
    (under : key s = some κ') {src : QuantSource} (described : Describes g s src (out s)) :
    Found g out (emplace produced κ' src) κ (firstOf key κ (done ++ [s])) := by
  rw [firstOf_concat, under]
  cases first : firstOf key κ done with
  | some d =>
    rw [first] at found
    obtain ⟨old, present, known⟩ := found
    exact ⟨old, by rw [lookup_emplace, present, Option.some_or], known⟩
  | none =>
    rw [first] at found
    have absent : produced.lookup κ = none := found
    rw [Option.none_or]
    by_cases same : κ' = κ
    · subst same
      rw [if_pos rfl]
      exact ⟨src, by rw [lookup_emplace, absent, if_pos rfl, Option.none_or], described⟩
    · rw [if_neg fun eq => same (Option.some.inj eq)]
      change (emplace produced κ' src).lookup κ = none
      rw [lookup_emplace, absent, if_neg (Ne.symm same), Option.none_or]

/-! ## The steps of a bucket -/

section Run

variable {arith : Arithmetic} {opt : QuantOptions} {actStats : TensorId → Option ActStats}
  {shared : QuantCache} {nd : Node}

/-- The state of a bucket in the middle of its run. -/
structure Running (arith : Arithmetic) (opt : QuantOptions) (g₀ : Graph)
    (actStats : TensorId → Option ActStats) (shared : QuantCache) (done : List QuantSite)
    (now : Progress) : Prop where
  graph : BucketInv g₀ (outcome arith opt g₀ actStats shared) done now.g
  found : ∀ κ, shared.lookup κ = none →
    Found now.g (outcome arith opt g₀ actStats shared) now.produced κ
      (firstOf (fun s => weightKeyFor g₀ s opt) κ done)

/-- What the loop reads about a site that is not done is what its graph started with. -/
theorem BucketInv.evidence_eq (inv : BucketInv g₀ out done g) (site : SiteOf g₀ s nd)
    (new : ∀ d ∈ done, d.nodeIdx ≠ s.nodeIdx) (actStats : TensorId → Option ActStats) :
    evidence g s actStats = evidence g₀ s actStats := by
  obtain ⟨bytes, desc⟩ := inv.waiting s nd site new
  have node : g.nodes.getD s.nodeIdx {} = g₀.nodes.getD s.nodeIdx {} := by
    rw [getD_eq_getElem?_getD, inv.untouched s.nodeIdx new, getD_eq_getElem?_getD]
  have payload : g.initializers[s.weight]?.getD [] = g₀.initializers[s.weight]?.getD [] := bytes
  unfold evidence
  rw [node, desc, payload]

theorem cachedFor_of_key (under : weightKeyFor g₀ s opt = some κ) :
    cachedFor g₀ opt shared s = shared.lookup κ := by
  unfold cachedFor
  rw [under]

variable {entry : Graph × QuantSource} {now : Progress}

theorem key_ne_of_cached (cached : cachedFor g₀ opt shared s = some entry)
    (unknown : shared.lookup κ = none) : weightKeyFor g₀ s opt ≠ some κ := by
  intro under
  rw [cachedFor_of_key under, unknown] at cached
  cases cached

theorem installs_shared (arith : Arithmetic) (g : Graph) (s : QuantSite) («from» : Graph)
    (src : QuantSource) (opt : QuantOptions) :
    Installs arith s
      (emit g s opt.format src.group src.nOut (bytesOf «from» src.weight)
        (src.sides.map fun side => (side.1, copyInitializer «from» side.2))).1
      (applySharedQuant arith g s «from» src opt) := by
  unfold applySharedQuant
  dsimp only
  split
  · exact .corrected _ _ _
  · exact .plain

/-- Published sources name their side tensors as they are read. -/
def AllNamed (opt : QuantOptions) (shared : QuantCache) : Prop :=
  ∀ κ entry, shared.lookup κ = some entry → Named opt entry.2

theorem cachedFor_named (named : AllNamed opt shared)
    (cached : cachedFor g₀ opt shared s = some entry) : Named opt entry.2 := by
  unfold cachedFor at cached
  split at cached
  · exact named _ entry cached
  · cases cached

theorem Running.replay (running : Running arith opt g₀ actStats shared done now)
    (owned : Owned g₀) (site : SiteOf g₀ s nd) (sites : ∀ d ∈ done, ∃ b, SiteOf g₀ d b)
    (new : ∀ d ∈ done, d.nodeIdx ≠ s.nodeIdx) (named : AllNamed opt shared)
    (cached : cachedFor g₀ opt shared s = some entry) :
    Running arith opt g₀ actStats shared (done ++ [s])
      (quantizeSite arith opt actStats now s (weightKeyFor g₀ s opt) (some entry)) := by
  have result : outcome arith opt g₀ actStats shared s = sourceRecord opt s entry := by
    unfold outcome
    rw [cached]
  unfold quantizeSite
  dsimp only
  split
  · rename_i kept
    refine ⟨running.graph.keep site new ?_, fun κ unknown => ?_⟩
    · rw [result, sourceRecord, if_pos kept]
    · exact (running.found κ unknown).skip (key_ne_of_cached cached unknown)
  · rename_i packed
    have fresh := owned.constants _ site.constant
    have here := (running.graph.untouched s.nodeIdx new).trans site.node
    have size : (g₀.tensors.length : Int) ≤ now.g.tensors.length :=
      Int.ofNat_le.mpr running.graph.size
    obtain ⟨touches, known, -⟩ := install here fresh.1 (fresh.2.trans_le size)
      (running.graph.not_ownBias site new site)
      ((owned.bias_lt site.node site.weighs.two_le).trans_le size)
      (by
        rw [map_map]
        exact cachedFor_named named cached (Bool.not_eq_true _ ▸ packed))
      (installs_shared arith now.g s entry.1 entry.2 opt)
    rw [map_map] at known
    have answer := result.trans (if_neg packed)
    refine ⟨running.graph.pack owned site sites new touches answer ⟨known.record, fun t side => ?_⟩,
      fun κ unknown => ?_⟩
    · exact ⟨size.trans (known.fresh t side).1, (known.fresh t side).2⟩
    · exact ((running.found κ unknown).mono fun d mem =>
        touches.others _ (new d mem).symm).skip (key_ne_of_cached cached unknown)

/-- What a site finds is recorded under its key, if it has one. -/
theorem found_record (running : Running arith opt g₀ actStats shared done now)
    (nodes : ∀ d ∈ done, g'.nodes[d.nodeIdx]? = now.g.nodes[d.nodeIdx]?) {src : QuantSource}
    (described : Describes g' s src (outcome arith opt g₀ actStats shared s)) (κ : WeightKey)
    (unknown : shared.lookup κ = none) :
    Found g' (outcome arith opt g₀ actStats shared)
      (match weightKeyFor g₀ s opt with
        | some key => emplace now.produced key src
        | none => now.produced) κ (firstOf (fun s => weightKeyFor g₀ s opt) κ (done ++ [s])) := by
  have before := (running.found κ unknown).mono nodes
  cases under : weightKeyFor g₀ s opt with
  | none => exact before.skip (by rw [under]; exact Option.some_ne_none κ |>.symm)
  | some key => exact before.add under described

theorem Running.quantize (running : Running arith opt g₀ actStats shared done now)
    (owned : Owned g₀) (site : SiteOf g₀ s nd) (sites : ∀ d ∈ done, ∃ b, SiteOf g₀ d b)
    (new : ∀ d ∈ done, d.nodeIdx ≠ s.nodeIdx) (cached : cachedFor g₀ opt shared s = none) :
    Running arith opt g₀ actStats shared (done ++ [s])
      (quantizeSite arith opt actStats now s (weightKeyFor g₀ s opt) none) := by
  have here := (running.graph.untouched s.nodeIdx new).trans site.node
  have result : outcome arith opt g₀ actStats shared s =
      ownRecord opt nd.type s (arith.grid opt (evidence g₀ s actStats)) := by
    unfold outcome
    rw [cached, getD_of_node site.node]
  unfold quantizeSite
  dsimp only
  rw [running.graph.evidence_eq site new actStats, getD_of_node here]
  cases verdict : arith.grid opt (evidence g₀ s actStats) with
  | keptFp16 =>
    rw [verdict] at result
    refine ⟨running.graph.keep site new result, fun κ unknown => ?_⟩
    refine found_record running (fun _ _ => rfl) ?_ κ unknown
    rw [result]
    rfl
  | packed found =>
    rw [verdict] at result
    dsimp only
    have fresh := owned.constants _ site.constant
    have size : (g₀.tensors.length : Int) ≤ now.g.tensors.length :=
      Int.ofNat_le.mpr running.graph.size
    have keys := sidesOf_keys now.g s opt (groupFor opt nd.type s.k) found
    obtain ⟨touches, known, ids⟩ := install here fresh.1 (fresh.2.trans_le size)
      (running.graph.not_ownBias site new site)
      ((owned.bias_lt site.node site.weighs.two_le).trans_le size) keys
      (.of_delta found.delta (sideName now.g s) opt.biasSuffix)
    rw [sidesOf_bytes] at known
    refine ⟨running.graph.pack owned site sites new touches result
      ⟨known.record, fun t side => ?_⟩, fun κ unknown => ?_⟩
    · exact ⟨size.trans (known.fresh t side).1, (known.fresh t side).2⟩
    · refine found_record running (fun d mem => touches.others _ (new d mem).symm) ?_ κ
        unknown
      rw [result]
      refine ⟨rfl, rfl, rfl, rfl, ?_, ids.symm⟩
      exact (madeSides now.g _).keys.trans keys

theorem Running.run (owned : Owned g₀) (named : AllNamed opt shared) :
    ∀ (rest done : List QuantSite) (now : Progress),
      (done ++ rest).Pairwise (fun s t => s.nodeIdx ≠ t.nodeIdx) →
      (∀ d ∈ done ++ rest, ∃ b, SiteOf g₀ d b) →
      Running arith opt g₀ actStats shared done now →
      Running arith opt g₀ actStats shared (done ++ rest)
        (rest.foldl (fun now s => quantizeSite arith opt actStats now s (weightKeyFor g₀ s opt)
          (cachedFor g₀ opt shared s)) now)
  | [], done, now, _, _, running => by rwa [append_nil, foldl_nil]
  | s :: rest, done, now, apart, sites, running => by
    have split : done ++ s :: rest = (done ++ [s]) ++ rest := by simp
    obtain ⟨b, site⟩ := sites s (mem_append_right _ mem_cons_self)
    have earlier : ∀ d ∈ done, ∃ b, SiteOf g₀ d b := fun d mem => sites d (mem_append_left _ mem)
    have new : ∀ d ∈ done, d.nodeIdx ≠ s.nodeIdx := fun d mem =>
      (pairwise_append.mp apart).2.2 d mem s mem_cons_self
    rw [split] at apart sites ⊢
    refine Running.run owned named rest (done ++ [s]) _ apart sites ?_
    dsimp only
    cases cached : cachedFor g₀ opt shared s with
    | none => exact running.quantize owned site earlier new cached
    | some entry => exact running.replay owned site earlier new named cached

/-- **The run over the sites of a bucket.** -/
theorem quantizeSites_running (arith : Arithmetic) (owned : Owned g₀)
    (named : AllNamed opt shared) (calibrate : Calibrate) :
    Running arith opt g₀ (statistics calibrate g₀ opt shared).2 shared (collectSites g₀ opt)
      (quantizeSites arith calibrate opt g₀ shared) :=
  Running.run owned named (collectSites g₀ opt) [] _ (collectSites_apart g₀ opt)
    (fun _ mem => mem_collectSites mem) ⟨.start g₀ _, fun _ _ => rfl⟩

/-! ## What a bucket leaves -/

/-- **Every site of the bucket has its outcome on record.** -/
theorem quantizeSites_record (arith : Arithmetic) (owned : Owned g₀)
    (named : AllNamed opt shared) (calibrate : Calibrate) {s : QuantSite} (mem : s ∈ collectSites g₀ opt) :
    record (quantizeSites arith calibrate opt g₀ shared).g s.nodeIdx s.weight =
      outcome arith opt g₀ (statistics calibrate g₀ opt shared).2 shared s := by
  have running := quantizeSites_running arith owned named calibrate
  cases result : outcome arith opt g₀ (statistics calibrate g₀ opt shared).2 shared s with
  | none => exact running.graph.absent s mem result
  | some r => exact (running.graph.present s mem r result).record

/-- An outcome has the format of the options and the geometry of its site. -/
theorem outcome_shape {r : QuantRecord}
    (result : outcome arith opt g₀ actStats shared s = some r) :
    r = recordFor s opt.format r.group r.nOut r.payload r.sides := by
  unfold outcome at result
  split at result
  · unfold sourceRecord at result
    split at result
    · cases result
    · obtain rfl := Option.some.inj result
      rfl
  · unfold ownRecord at result
    split at result
    · cases result
    · obtain rfl := Option.some.inj result
      rfl

/-- **What is published under a key is the outcome of the first site with the key.** -/
theorem quantizeSites_published (arith : Arithmetic) (owned : Owned g₀)
    (named : AllNamed opt shared) (calibrate : Calibrate) {κ : WeightKey} (unknown : shared.lookup κ = none) :
    match firstOf (fun s => weightKeyFor g₀ s opt) κ (collectSites g₀ opt) with
    | none => (quantizeSites arith calibrate opt g₀ shared).produced.lookup κ = none
    | some s => ∃ src, (quantizeSites arith calibrate opt g₀ shared).produced.lookup κ = some src ∧
        Named opt src ∧
        sourceRecord opt s ((quantizeSites arith calibrate opt g₀ shared).g, src) =
          outcome arith opt g₀ (statistics calibrate g₀ opt shared).2 shared s := by
  have running := quantizeSites_running arith owned named calibrate
  have found := running.found κ unknown
  split
  · rename_i nobody
    rwa [nobody] at found
  · rename_i s first
    rw [first] at found
    obtain ⟨src, present, described⟩ := found
    have mem : s ∈ collectSites g₀ opt := mem_of_find?_eq_some first
    have known := quantizeSites_record arith owned named calibrate mem
    refine ⟨src, present, ?_⟩
    cases result : outcome arith opt g₀ (statistics calibrate g₀ opt shared).2 shared s with
    | none =>
      rw [result] at described
      have kept : src.keptFp16 = true := described
      exact ⟨fun packed => absurd (kept.symm.trans packed) (by decide), if_pos kept⟩
    | some r =>
      rw [result] at described known
      obtain ⟨packed, weight, group, nOut, keys, ids⟩ := described
      have shape := outcome_shape result
      have format : r.format = opt.format := by
        rw [shape]
        rfl
      rw [format, ← nOut] at keys
      refine ⟨fun _ => keys, ?_⟩
      have read := known
      unfold record at read
      dsimp only at read
      split at read
      · have fields := Option.some.inj read
        have payload := congrArg QuantRecord.payload fields
        have sides := congrArg QuantRecord.sides fields
        dsimp only at payload sides
        rw [← ids, map_map] at sides
        rw [sourceRecord, if_neg (by rw [packed]; exact Bool.false_ne_true), group, nOut, weight,
          payload, shape]
        refine congrArg (fun bytes => some (recordFor s opt.format r.group r.nOut r.payload bytes))
          sides
      · cases read

end Run

end Vknn.Import.Quantize
