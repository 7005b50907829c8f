import Vknn.Import.QuantRuns
import Vknn.Lib.Replay

/-!
# One weight, one quantization

Buckets are visited one after another, and a weight's key is published by the first bucket that
holds it.  A later bucket replays what is published.  So two buckets differ about a weight only
where the first holder is not of one mind: it has two sites under one key, quantizes each on its
own, and publishes what the first has found.
-/

namespace Vknn.Import.Quantize

open List

/-! ## The visits -/

/-- What a visit leaves, where the options fit together. -/
def visited (arith : Arithmetic) (calibrate : Calibrate) (opt : QuantOptions) (state : Shared)
    (b : Nat) : Shared :=
  let g := state.buckets.getD b {}
  let now := quantizeSites arith calibrate opt g state.shared
  { buckets := state.buckets.set b now.g
    stats := state.stats.set b
      { now.stats with
        bytesAfter := initializerBytes now.g
        sites := (collectSites g opt).length
        calibrated := (statistics calibrate g opt state.shared).1 }
    shared := publish state.shared now.g now.produced }

variable {arith : Arithmetic} {calibrate : Calibrate} {opt : QuantOptions} {buckets : List Graph}

theorem visit_eq (accepted : opt.refusal = none) (state : Shared) (b : Nat) :
    visit arith calibrate opt state b = .ok (visited arith calibrate opt state b) := by
  unfold visit quantizeBucket
  rw [accepted]
  rfl

theorem foldlM_visit (accepted : opt.refusal = none) (order : List Nat) (state : Shared) :
    order.foldlM (visit arith calibrate opt) state =
      .ok (order.foldl (visited arith calibrate opt) state) := by
  induction order generalizing state with
  | nil => rfl
  | cons b rest ih =>
    rw [foldlM_cons, visit_eq accepted]
    exact ih _

def start (buckets : List Graph) : Shared :=
  { buckets := buckets, stats := List.replicate buckets.length {} }

/-- The state after a number of visits. -/
def stateAt (arith : Arithmetic) (calibrate : Calibrate) (opt : QuantOptions)
    (buckets : List Graph) (p : Nat) : Shared :=
  ((visitOrder opt buckets).take p).foldl (visited arith calibrate opt) (start buckets)

/-- What the pass leaves of the buckets; a refusal comes before the first change. -/
def left (arith : Arithmetic) (calibrate : Calibrate) (opt : QuantOptions)
    (buckets : List Graph) : List Graph :=
  match quantizeWeightsShared arith calibrate opt buckets with
  | .ok result => result.1
  | .error _ => buckets

/-! ## The order of the visits -/

theorem visitOrder_perm (opt : QuantOptions) (buckets : List Graph) :
    (visitOrder opt buckets).Perm (List.range buckets.length) := by
  unfold visitOrder
  refine ((perm_insertionSort _ _).map Prod.snd).trans ?_
  rw [map_map]
  exact .of_eq (map_id _)

theorem length_visitOrder (opt : QuantOptions) (buckets : List Graph) :
    (visitOrder opt buckets).length = buckets.length := by
  rw [(visitOrder_perm opt buckets).length_eq, length_range]

theorem nodup_visitOrder (opt : QuantOptions) (buckets : List Graph) :
    (visitOrder opt buckets).Nodup :=
  (visitOrder_perm opt buckets).nodup_iff.mpr nodup_range

/-- The bucket at a position of the order. -/
def bucketAt (opt : QuantOptions) (buckets : List Graph) (p : Nat) : Nat :=
  (visitOrder opt buckets).getD p 0

def graphAt (opt : QuantOptions) (buckets : List Graph) (p : Nat) : Graph :=
  buckets.getD (bucketAt opt buckets p) {}

variable {p q : Nat} {t : QuantSite}

theorem bucketAt_lt (below : p < buckets.length) : bucketAt opt buckets p < buckets.length := by
  have inside : p < (visitOrder opt buckets).length := by rwa [length_visitOrder]
  have mem := getElem_mem inside
  rw [(visitOrder_perm opt buckets).mem_iff, mem_range] at mem
  unfold bucketAt
  rwa [getD_eq_getElem _ _ inside]

theorem bucketAt_injective (p_lt : p < buckets.length) (q_lt : q < buckets.length)
    (same : bucketAt opt buckets p = bucketAt opt buckets q) : p = q := by
  rw [← length_visitOrder opt buckets] at p_lt q_lt
  unfold bucketAt at same
  rw [getD_eq_getElem _ _ p_lt, getD_eq_getElem _ _ q_lt] at same
  exact ((nodup_visitOrder opt buckets).getElem_inj_iff).mp same

theorem exists_bucketAt (opt : QuantOptions) {b : Nat} (below : b < buckets.length) :
    ∃ p < buckets.length, bucketAt opt buckets p = b := by
  have mem : b ∈ visitOrder opt buckets := by rwa [(visitOrder_perm opt buckets).mem_iff, mem_range]
  obtain ⟨p, inside, here⟩ := getElem_of_mem mem
  refine ⟨p, by rwa [length_visitOrder] at inside, ?_⟩
  unfold bucketAt
  rw [getD_eq_getElem _ _ inside, here]

theorem stateAt_succ (below : p < buckets.length) : stateAt arith calibrate opt buckets (p + 1) =
      visited arith calibrate opt (stateAt arith calibrate opt buckets p)
        (bucketAt opt buckets p) := by
  have inside : p < (visitOrder opt buckets).length := by rwa [length_visitOrder]
  unfold stateAt bucketAt
  rw [take_add_one, getElem?_eq_getElem inside, Option.toList_some, foldl_append,
    getD_eq_getElem _ _ inside]
  rfl

theorem left_eq (accepted : opt.refusal = none) : left arith calibrate opt buckets =
      (stateAt arith calibrate opt buckets buckets.length).buckets := by
  unfold left quantizeWeightsShared
  rw [foldlM_visit accepted]
  unfold stateAt start
  rw [take_of_length_le (length_visitOrder opt buckets).le]
  rfl

theorem left_refused (refused : opt.refusal ≠ none) :
    left arith calibrate opt buckets = buckets := by
  obtain ⟨error, is⟩ := Option.ne_none_iff_exists'.mp refused
  have size := length_visitOrder opt buckets
  unfold left quantizeWeightsShared
  cases order : visitOrder opt buckets with
  | nil =>
    rw [order] at size
    rfl
  | cons b rest =>
    have first (state : Shared) : visit arith calibrate opt state b = .error error := by
      unfold visit quantizeBucket
      rw [is]
    rw [foldlM_cons, first]
    rfl

theorem stateAt_waiting (p_le : p ≤ q) (q_lt : q < buckets.length) :
    (stateAt arith calibrate opt buckets p).buckets.getD (bucketAt opt buckets q) {} =
      graphAt opt buckets q := by
  induction p with
  | zero => rfl
  | succ p ih =>
    have apart : bucketAt opt buckets p ≠ bucketAt opt buckets q := fun same =>
      absurd (bucketAt_injective (by omega) q_lt same) (by omega)
    rw [stateAt_succ (by omega), ← ih (by omega)]
    unfold visited
    dsimp only
    rw [getD_eq_getElem?_getD, getElem?_set_ne apart, getD_eq_getElem?_getD]

theorem stateAt_length (p : Nat) (le : p ≤ buckets.length) :
    (stateAt arith calibrate opt buckets p).buckets.length = buckets.length := by
  induction p with
  | zero => rfl
  | succ p ih =>
    rw [stateAt_succ (by omega)]
    exact length_set.trans (ih (by omega))

theorem stateAt_done (lt : p < q) (le : q ≤ buckets.length) :
    (stateAt arith calibrate opt buckets q).buckets.getD (bucketAt opt buckets p) {} =
      (quantizeSites arith calibrate opt (graphAt opt buckets p)
        (stateAt arith calibrate opt buckets p).shared).g := by
  induction q with
  | zero => omega
  | succ q ih =>
    rw [stateAt_succ (by omega)]
    unfold visited
    dsimp only
    rcases Nat.lt_succ_iff_lt_or_eq.mp lt with before | rfl
    · have apart : bucketAt opt buckets q ≠ bucketAt opt buckets p := fun same =>
        absurd (bucketAt_injective (by omega) (by omega) same) (by omega)
      rw [getD_eq_getElem?_getD, getElem?_set_ne apart, ← getD_eq_getElem?_getD]
      exact ih before (by omega)
    · have inside : bucketAt opt buckets p < (stateAt arith calibrate opt buckets p).buckets.length := by
        rw [stateAt_length p (by omega)]
        exact bucketAt_lt (by omega)
      rw [getD_eq_getElem?_getD, getElem?_set_self inside, Option.getD_some,
        stateAt_waiting le_rfl (by omega)]

/-! ## Visits as rounds -/

/-- The statistics that a bucket quantizes with. -/
def statsAt (arith : Arithmetic) (calibrate : Calibrate) (opt : QuantOptions)
    (buckets : List Graph) (p : Nat) : TensorId → Option ActStats :=
  (statistics calibrate (graphAt opt buckets p) opt
    (stateAt arith calibrate opt buckets p).shared).2

/-- What a site asks under, and what its own bucket would answer. -/
def client (arith : Arithmetic) (opt : QuantOptions) (g : Graph)
    (actStats : TensorId → Option ActStats) (s : QuantSite) :
    Replay.Client WeightKey (Option QuantRecord) where
  key := weightKeyFor g s opt
  own := ownRecord opt (g.nodes.getD s.nodeIdx {}).type s (arith.grid opt (evidence g s actStats))

/-- The sites of the bucket at a position. -/
def round (arith : Arithmetic) (calibrate : Calibrate) (opt : QuantOptions)
    (buckets : List Graph) (p : Nat) : List (Replay.Client WeightKey (Option QuantRecord)) :=
  (collectSites (graphAt opt buckets p) opt).map
    (client arith opt (graphAt opt buckets p) (statsAt arith calibrate opt buckets p))

theorem weightKeyFor_spec {g : Graph} {s : QuantSite} {κ : WeightKey}
    (under : weightKeyFor g s opt = some κ) :
    s.k = κ.k ∧ s.n = κ.n ∧ s.layout = κ.layout ∧ (g.desc s.weight).dtype = κ.dtype ∧
      (g.nodes.getD s.nodeIdx {}).type = κ.opClass := by
  unfold weightKeyFor at under
  split at under
  · cases under
  · split at under
    · cases under
    · obtain rfl := Option.some.inj under
      exact ⟨rfl, rfl, rfl, rfl, rfl⟩

theorem recordFor_congr {s : QuantSite} (k : s.k = t.k) (n : s.n = t.n)
    (layout : s.layout = t.layout) (format group nOut : Int) (payload : HostBuffer)
    (sides : List HostBuffer) :
    recordFor s format group nOut payload sides = recordFor t format group nOut payload sides := by
  unfold recordFor
  rw [k, n, layout]

theorem sourceRecord_congr {s : QuantSite} (k : s.k = t.k) (n : s.n = t.n)
    (layout : s.layout = t.layout) (entry : Graph × QuantSource) :
    sourceRecord opt s entry = sourceRecord opt t entry := by
  unfold sourceRecord
  rw [recordFor_congr k n layout]

/-- A published entry gives one record to all sites under its key. -/
def Answers (opt : QuantOptions) (κ : WeightKey) (entry : Graph × QuantSource)
    (a : Option QuantRecord) : Prop :=
  Named opt entry.2 ∧ ∀ s : QuantSite, s.k = κ.k → s.n = κ.n → s.layout = κ.layout →
    sourceRecord opt s entry = a

/-- The cache holds what the rounds so far have published. -/
def Follows (opt : QuantOptions) (shared : QuantCache)
    (known : WeightKey → Option (Option QuantRecord)) : Prop :=
  ∀ κ, match known κ with
    | none => shared.lookup κ = none
    | some a => ∃ entry, shared.lookup κ = some entry ∧ Answers opt κ entry a

variable {shared : QuantCache} {known : WeightKey → Option (Option QuantRecord)} {g : Graph}
  {s : QuantSite} {κ : WeightKey}

theorem Follows.none_iff (follows : Follows opt shared known) :
    shared.lookup κ = none ↔ known κ = none := by
  have here := follows κ
  cases published : known κ with
  | none =>
    rw [published] at here
    exact ⟨fun _ => rfl, fun _ => here⟩
  | some a =>
    rw [published] at here
    obtain ⟨entry, present, -⟩ := here
    rw [present]
    exact ⟨(nomatch ·), (nomatch ·)⟩

theorem Follows.named (follows : Follows opt shared known) : AllNamed opt shared := by
  intro κ entry present
  have here := follows κ
  cases published : known κ with
  | none =>
    rw [published] at here
    rw [show shared.lookup κ = none from here] at present
    cases present
  | some a =>
    rw [published] at here
    obtain ⟨other, also, answers⟩ := here
    obtain rfl : other = entry := Option.some.inj (also.symm.trans present)
    exact answers.1

theorem Follows.outcome_eq (follows : Follows opt shared known)
    (under : weightKeyFor g s opt = some κ) (actStats : TensorId → Option ActStats) :
    outcome arith opt g actStats shared s =
      Replay.answer known (client arith opt g actStats s) := by
  have asks : (client arith opt g actStats s).key = some κ := under
  unfold outcome
  rw [cachedFor_of_key under]
  have here := follows κ
  cases published : known κ with
  | none =>
    rw [published] at here
    rw [show shared.lookup κ = none from here, Replay.answer_unknown asks published]
    rfl
  | some a =>
    rw [published] at here
    obtain ⟨entry, present, answers⟩ := here
    obtain ⟨k, n, layout, -⟩ := weightKeyFor_spec under
    rw [present, Replay.answer_known asks published]
    exact answers.2 s k n layout

theorem lookup_publish (shared : QuantCache) (g : Graph) (produced : Produced) (κ : WeightKey) :
    (publish shared g produced).lookup κ =
      (shared.lookup κ).or ((produced.lookup κ).map fun src => (g, src)) := by
  unfold publish
  rw [lookup_append]
  congr 1
  induction produced with
  | nil => rfl
  | cons entry rest ih =>
    rw [map_cons, lookup_cons, lookup_cons]
    cases κ == entry.1 with
    | true => rfl
    | false => exact ih

theorem first_round (sites : List QuantSite) (actStats : TensorId → Option ActStats) :
    Replay.first (sites.map (client arith opt g actStats)) κ =
      (firstOf (fun s => weightKeyFor g s opt) κ sites).map
        fun s => (client arith opt g actStats s).own := by
  unfold Replay.first firstOf
  rw [find?_map, Option.map_map]
  rfl

/-- **The cache follows the rounds.** -/
theorem follows_stateAt (owned : ∀ g ∈ buckets, Owned g) (p : Nat) (le : p ≤ buckets.length) :
    Follows opt (stateAt arith calibrate opt buckets p).shared
      (Replay.published (round arith calibrate opt buckets) p) := by
  induction p with
  | zero => exact fun κ => rfl
  | succ p ih =>
    have before := ih (by omega)
    have here : Owned (graphAt opt buckets p) := by
      unfold graphAt
      rw [getD_eq_getElem _ _ (bucketAt_lt (by omega))]
      exact owned _ (getElem_mem _)
    intro κ
    rw [stateAt_succ (by omega)]
    unfold visited
    dsimp only
    rw [lookup_publish, stateAt_waiting le_rfl (by omega), Replay.published]
    have known := before κ
    cases published : Replay.published (round arith calibrate opt buckets) p κ with
    | some a =>
      rw [published] at known
      obtain ⟨entry, present, answers⟩ := known
      rw [Option.some_or]
      exact ⟨entry, by rw [present, Option.some_or], answers⟩
    | none =>
      rw [published] at known
      have unknown : (stateAt arith calibrate opt buckets p).shared.lookup κ = none := known
      have found := quantizeSites_published arith here before.named calibrate unknown
      rw [Option.none_or, unknown, Option.none_or]
      unfold round
      rw [first_round]
      cases first : firstOf (fun s => weightKeyFor (graphAt opt buckets p) s opt) κ
          (collectSites (graphAt opt buckets p) opt) with
      | none =>
        rw [first] at found
        change Option.map _ _ = none
        rw [found]
        rfl
      | some s =>
        rw [first] at found
        obtain ⟨src, present, named, same⟩ := found
        have under : weightKeyFor (graphAt opt buckets p) s opt = some κ := by
          simpa using find?_some first
        obtain ⟨k, n, layout, -⟩ := weightKeyFor_spec under
        refine ⟨_, by rw [present]; rfl, named, fun t t_k t_n t_layout => ?_⟩
        rw [sourceRecord_congr (t_k.trans k.symm) (t_n.trans n.symm)
          (t_layout.trans layout.symm), same, before.outcome_eq under]
        exact Replay.answer_unknown (k := κ) under published

/-- **A site of a visited bucket ends with what its client is answered.** -/
theorem record_left (owned : ∀ g ∈ buckets, Owned g) (lt : p < buckets.length)
    (accepted : opt.refusal = none) {s : QuantSite}
    (mem : s ∈ collectSites (graphAt opt buckets p) opt)
    (under : weightKeyFor (graphAt opt buckets p) s opt = some κ) :
    record ((left arith calibrate opt buckets).getD (bucketAt opt buckets p) {}) s.nodeIdx
        s.weight =
      Replay.answer (Replay.published (round arith calibrate opt buckets) p)
        (client arith opt (graphAt opt buckets p) (statsAt arith calibrate opt buckets p) s) := by
  have here : Owned (graphAt opt buckets p) := by
    unfold graphAt
    rw [getD_eq_getElem _ _ (bucketAt_lt lt)]
    exact owned _ (getElem_mem _)
  have follows : Follows opt (stateAt arith calibrate opt buckets p).shared
      (Replay.published (round arith calibrate opt buckets) p) := follows_stateAt owned p lt.le
  rw [left_eq accepted, stateAt_done lt le_rfl,
    quantizeSites_record arith here follows.named calibrate mem, follows.outcome_eq under]
  rfl

/-! ## When the buckets agree -/

/-- Two buckets that hold a weight under one key end with one record of it: byte for byte the same
payload, scales, outlier columns, codebook and attributes, or none of them. -/
def SharedAlike (opt : QuantOptions) (buckets after : List Graph) : Prop :=
  ∀ i j, i < buckets.length → j < buckets.length → i ≠ j →
    ∀ s ∈ collectSites (buckets.getD i {}) opt, ∀ t ∈ collectSites (buckets.getD j {}) opt, ∀ κ,
      weightKeyFor (buckets.getD i {}) s opt = some κ →
      weightKeyFor (buckets.getD j {}) t opt = some κ →
      record (after.getD i {}) s.nodeIdx s.weight = record (after.getD j {}) t.nodeIdx t.weight

/-- Whether a graph holds a weight under a key. -/
def HoldsKey (opt : QuantOptions) (g : Graph) (κ : WeightKey) : Prop :=
  ∃ s ∈ collectSites g opt, weightKeyFor g s opt = some κ

/-- All that two sites under one key can still differ in: the payload, the channels of a
convolution, and the activation. -/
def SameSite (g : Graph) (s t : QuantSite) : Prop :=
  bytesOf g s.weight = bytesOf g t.weight ∧ s.act = t.act ∧ s.actChannels = t.actChannels ∧
    s.convGroups = t.convGroups

/-- Where another bucket holds a key, the sites of its first holder under it are alike. -/
def FirstHolderAlike (opt : QuantOptions) (buckets : List Graph) : Prop :=
  ∀ p q, p < buckets.length → q < buckets.length → p ≠ q → ∀ κ,
    (∀ r < p, ¬ HoldsKey opt (graphAt opt buckets r) κ) → HoldsKey opt (graphAt opt buckets q) κ →
    ∀ s ∈ collectSites (graphAt opt buckets p) opt,
      ∀ t ∈ collectSites (graphAt opt buckets p) opt,
        weightKeyFor (graphAt opt buckets p) s opt = some κ →
        weightKeyFor (graphAt opt buckets p) t opt = some κ →
        SameSite (graphAt opt buckets p) s t

theorem holds_round_iff : Replay.Holds (round arith calibrate opt buckets) p κ ↔
      HoldsKey opt (graphAt opt buckets p) κ := by
  refine ⟨fun ⟨c, mem, asks⟩ => ?_, fun ⟨s, mem, asks⟩ => ?_⟩
  · obtain ⟨s, inside, rfl⟩ := mem_map.mp mem
    exact ⟨s, inside, asks⟩
  · exact ⟨_, mem_map_of_mem mem, asks⟩

theorem sharedAlike_iff_consistent (owned : ∀ g ∈ buckets, Owned g)
    (accepted : opt.refusal = none) :
    SharedAlike opt buckets (left arith calibrate opt buckets) ↔
      Replay.Consistent (round arith calibrate opt buckets) buckets.length := by
  refine ⟨fun alike => ?_, fun consistent => ?_⟩
  · intro p q p_lt q_lt apart c c_mem d d_mem κ c_asks d_asks
    obtain ⟨s, s_mem, rfl⟩ := mem_map.mp c_mem
    obtain ⟨t, t_mem, rfl⟩ := mem_map.mp d_mem
    rw [← record_left owned p_lt accepted s_mem c_asks,
      ← record_left owned q_lt accepted t_mem d_asks]
    exact alike _ _ (bucketAt_lt p_lt) (bucketAt_lt q_lt)
      (fun same => apart (bucketAt_injective p_lt q_lt same)) s s_mem t t_mem κ c_asks d_asks
  · intro i j i_lt j_lt apart s s_mem t t_mem κ s_asks t_asks
    obtain ⟨p, p_lt, rfl⟩ := exists_bucketAt opt i_lt
    obtain ⟨q, q_lt, rfl⟩ := exists_bucketAt opt j_lt
    rw [record_left owned p_lt accepted s_mem s_asks, record_left owned q_lt accepted t_mem t_asks]
    exact consistent p q p_lt q_lt (fun same => apart (congrArg _ same)) _
      (mem_map_of_mem s_mem) _ (mem_map_of_mem t_mem) κ s_asks t_asks

/-- Two sites under one key that are alike are the same evidence. -/
theorem evidence_congr {a b : Node} (here : SiteOf g s a) (there : SiteOf g t b)
    (s_asks : weightKeyFor g s opt = some κ) (t_asks : weightKeyFor g t opt = some κ)
    (alike : SameSite g s t) (actStats : TensorId → Option ActStats) :
    evidence g s actStats = evidence g t actStats := by
  obtain ⟨payload, act, channels, groups⟩ := alike
  obtain ⟨s_k, s_n, s_layout, s_dtype, s_type⟩ := weightKeyFor_spec s_asks
  obtain ⟨t_k, t_n, t_layout, t_dtype, t_type⟩ := weightKeyFor_spec t_asks
  have type := s_type.trans t_type.symm
  have conv : s.convChannels = t.convChannels := by
    rw [getD_of_node here.node, getD_of_node there.node] at type
    rw [here.channels, there.channels, type]
  unfold bytesOf at payload
  unfold evidence
  rw [type, s_dtype, t_dtype, payload, s_k, t_k, s_n, t_n, s_layout, t_layout, conv, channels,
    groups, act]

/-- The same evidence gives sites under one key the same record. -/
theorem own_congr {actStats : TensorId → Option ActStats}
    (s_asks : weightKeyFor g s opt = some κ) (t_asks : weightKeyFor g t opt = some κ)
    (same : evidence g s actStats = evidence g t actStats) :
    (client arith opt g actStats s).own = (client arith opt g actStats t).own := by
  obtain ⟨s_k, s_n, s_layout, -, s_type⟩ := weightKeyFor_spec s_asks
  obtain ⟨t_k, t_n, t_layout, -, t_type⟩ := weightKeyFor_spec t_asks
  unfold client
  dsimp only
  rw [same, s_type, t_type]
  cases arith.grid opt (evidence g t actStats) with
  | keptFp16 => rfl
  | packed found =>
    unfold ownRecord
    dsimp only
    rw [recordFor_congr (s_k.trans t_k.symm) (s_n.trans t_n.symm) (s_layout.trans t_layout.symm),
      s_k, t_k]

theorem firstAgrees_of_alike (alike : FirstHolderAlike opt buckets) :
    Replay.FirstAgrees (round arith calibrate opt buckets) buckets.length := by
  intro p q p_lt q_lt apart κ nobody holds c c_mem d d_mem c_asks d_asks
  obtain ⟨s, s_mem, rfl⟩ := mem_map.mp c_mem
  obtain ⟨t, t_mem, rfl⟩ := mem_map.mp d_mem
  obtain ⟨a, here⟩ := mem_collectSites s_mem
  obtain ⟨b, there⟩ := mem_collectSites t_mem
  have same := alike p q p_lt q_lt apart κ (fun r lt => fun held => nobody r lt (holds_round_iff.mpr held))
    (holds_round_iff.mp holds) s s_mem t t_mem c_asks d_asks
  exact own_congr c_asks d_asks (evidence_congr here there c_asks d_asks same _)

/-- The arithmetic that keeps a weight on one evidence and packs it on any other. -/
def keeping (e : Evidence) : Arithmetic where
  grid _ other := if other = e then .keptFp16 else .packed {}
  corrected _ hb _ := hb
  correction _ := []

/-- The calibration that tells all activations apart. -/
def telling : Calibrate := fun _ _ _ => (true, fun t => some { count := t })

theorem statistics_telling (unpublished : s ∈ uncachedSites g opt shared) :
    (statistics telling g opt shared).2 = fun t => some { count := t } := by
  unfold statistics
  rw [if_neg (ne_nil_of_mem unpublished)]
  rfl

theorem own_keeping_eq_none {e : Evidence} {actStats : TensorId → Option ActStats} :
    (client (keeping e) opt g actStats s).own = none ↔ evidence g s actStats = e := by
  unfold client ownRecord keeping
  dsimp only
  by_cases same : evidence g s actStats = e
  · rw [if_pos same]
    exact ⟨fun _ => same, fun _ => rfl⟩
  · rw [if_neg same]
    exact ⟨(nomatch ·), fun eq => absurd eq same⟩

/-- Sites that differ are told apart by some arithmetic and some calibration. -/
theorem alike_of_firstAgrees (owned : ∀ g ∈ buckets, Owned g)
    (agrees : ∀ arith, Replay.FirstAgrees (round arith telling opt buckets) buckets.length) :
    FirstHolderAlike opt buckets := by
  intro p q p_lt q_lt apart κ nobody holds s s_mem t t_mem s_asks t_asks
  let e : Evidence := evidence (graphAt opt buckets p) s fun t => some { count := t }
  have unknown : Replay.published (round (keeping e) telling opt buckets) p κ = none :=
    (Replay.published_eq_none_iff p).mpr fun r lt held => nobody r lt (holds_round_iff.mp held)
  have follows : Follows opt (stateAt (keeping e) telling opt buckets p).shared
      (Replay.published (round (keeping e) telling opt buckets) p) := follows_stateAt owned p p_lt.le
  have stats : statsAt (keeping e) telling opt buckets p = fun t => some { count := t } := by
    refine statistics_telling (mem_filter.mpr ⟨s_mem, ?_⟩)
    rw [cachedFor_of_key s_asks, follows.none_iff.mpr unknown]
    rfl
  have own := agrees (keeping e) p q p_lt q_lt apart κ
    (fun r lt held => nobody r lt (holds_round_iff.mp held)) (holds_round_iff.mpr holds) _
    (mem_map_of_mem s_mem) _ (mem_map_of_mem t_mem) s_asks t_asks
  rw [stats, own_keeping_eq_none.mpr rfl] at own
  have same : evidence (graphAt opt buckets p) t (fun t => some { count := t }) = e :=
    own_keeping_eq_none.mp own.symm
  refine ⟨(congrArg Evidence.payload same).symm, ?_, (congrArg Evidence.actChannels same).symm,
    (congrArg Evidence.convGroups same).symm⟩
  have stat := congrArg Evidence.stats same
  exact (congrArg ActStats.count (Option.some.inj stat)).symm

theorem sharedAlike_refused (refused : opt.refusal ≠ none) :
    SharedAlike opt buckets (left arith calibrate opt buckets) := by
  have bare (g : Graph) {s : QuantSite} (mem : s ∈ collectSites g opt) :
      record g s.nodeIdx s.weight = none := by
    obtain ⟨nd, site⟩ := mem_collectSites mem
    unfold record
    dsimp only
    rw [getD_of_node site.node, site.fresh]
    rfl
  intro i j _ _ _ s s_mem t t_mem κ _ _
  rw [left_refused refused, bare _ s_mem, bare _ t_mem]

/-- Options under which small weights are packed too. -/
def smallOptions : QuantOptions := { minElems := 1, minK := 1 }

/-- Two products in a row, each with a weight of its own, both named `w` and both the number
one. -/
def doubledWeight : Graph where
  tensors :=
    [{ name := str "x", shape := [1, 1] }, { name := str "w", shape := [1, 1] },
      { name := str "h", shape := [1, 1] }, { name := str "w", shape := [1, 1] },
      { name := str "y", shape := [1, 1] }]
  nodes :=
    [{ type := .matMul, inputs := [0, 1], outputs := [2] },
      { type := .matMul, inputs := [2, 3], outputs := [4] }]
  inputs := [0]
  outputs := [4]
  initializers :=
    ((∅ : Std.ExtTreeMap TensorId HostBuffer).insert 1 [0, 0, 128, 63]).insert 3 [0, 0, 128, 63]

def singleWeight : Graph where
  tensors :=
    [{ name := str "x", shape := [1, 1] }, { name := str "w", shape := [1, 1] },
      { name := str "y", shape := [1, 1] }]
  nodes := [{ type := .matMul, inputs := [0, 1], outputs := [2] }]
  inputs := [0]
  outputs := [2]
  initializers := (∅ : Std.ExtTreeMap TensorId HostBuffer).insert 1 [0, 0, 128, 63]

theorem doubledWeight_owned : Owned doubledWeight where
  operands := by decide
  constants t constant := by
    change (((∅ : Std.ExtTreeMap TensorId HostBuffer).insert 1 _).insert 3 _).contains t = true
      at constant
    rw [Std.ExtTreeMap.contains_insert, Std.ExtTreeMap.contains_insert] at constant
    have keys : 3 = t ∨ 1 = t := by simpa using constant
    rcases keys with rfl | rfl <;> decide

theorem singleWeight_owned : Owned singleWeight where
  operands := by decide
  constants t constant := by
    change ((∅ : Std.ExtTreeMap TensorId HostBuffer).insert 1 _).contains t = true at constant
    rw [Std.ExtTreeMap.contains_insert] at constant
    have key : 1 = t := by simpa using constant
    rw [← key]
    decide

theorem both_owned : ∀ g ∈ [doubledWeight, singleWeight], Owned g := by
  intro g mem
  rcases mem_cons.mp mem with rfl | last
  · exact doubledWeight_owned
  · rw [mem_singleton.mp last]
    exact singleWeight_owned

/-- The second product of the first bucket. -/
def secondSite : QuantSite :=
  { nodeIdx := 1, weight := 3, act := 2, k := 1, n := 1, actChannels := 1 }

def onlySite : QuantSite :=
  { nodeIdx := 0, weight := 1, act := 0, k := 1, n := 1, actChannels := 1 }

/-- What is read about the second product, where calibration tells the activations apart. -/
def secondEvidence : Evidence := evidence doubledWeight secondSite fun t => some { count := t }

end Vknn.Import.Quantize
