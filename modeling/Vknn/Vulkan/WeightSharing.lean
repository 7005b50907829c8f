import Vknn.Vulkan.WeightCache

/-!
# When the weight cache is transparent

A prepacked weight is served from wherever its key is found, so the cache is transparent exactly
when keys determine what is packed.  The part of the key that stands for the model is a hash of the
names and operator types of its nodes, and of nothing else: models that differ in their weights
alone have the same keys.
-/

namespace Vknn.Vulkan

open List Function Std Option

/-! ## Sessions that share files and backends -/

/-- One request for a prepacked weight: the model, the name the operator chooses, the precision,
and what the compute function gives for this model. -/
structure Upload where
  graph : Graph
  rawKey : Str
  useFp16 : Bool
  computed : HostBuffer

def Upload.key (u : Upload) : Str := weightKey (modelTag u.graph) u.rawKey

/-- A device buffer that something else than a prepacked weight asks the pool for. -/
structure PooledBuffer where
  poolKey : Str
  bytes : HostBuffer

/-- What sessions do to caches.  A backend is given by its number; `release` is the last user of a
buffer dropping it, and `close` the end of the session that owns a backend. -/
inductive Step where
  | load (backend : Nat) (device : Device) (cfg : CacheConfig) (model : Graph)
  | upload (backend : Nat) (u : Upload)
  | acquire (backend : Nat) (a : PooledBuffer)
  | setTuned (backend : Nat) (sig : Str) (val level : Int)
  | release (backend : Nat) (poolKey : Str)
  | save (backend : Nat) (pipeline : List UInt8) (written : Bool)
  | close (backend : Nat)

/-- The cache files and the backends. -/
structure World (F : Type) where
  files : Files F := fun _ => none
  backends : Nat → Backend F := fun _ => {}

section Sharing

variable {F : Type} (codec : CacheCodec F) (toHalf : HostBuffer → HostBuffer)

/-- The device bytes that the compute function of a request gives. -/
def Upload.bytes (u : Upload) : HostBuffer := uploadWeight toHalf u.computed u.useFp16

def World.setBackend (w : World F) (i : Nat) (b : Backend F) : World F :=
  { w with backends := update w.backends i b }

/-- One step, and the weight it serves. -/
def World.step [DecidableEq F] (w : World F) : Step → World F × List (Upload × HostBuffer)
  | .load i device cfg model =>
    (w.setBackend i (loadCache codec w.files device cfg (modelTag model) (w.backends i)), [])
  | .upload i u =>
    let served := uploadCached toHalf (modelTag u.graph) u.rawKey u.useFp16 u.computed
      (w.backends i)
    (w.setBackend i served.2, [(u, served.1)])
  | .acquire i a =>
    let weightPool := (Memo.acquire (w.backends i).weightPool a.poolKey a.bytes).2
    (w.setBackend i { w.backends i with weightPool }, [])
  | .setTuned i sig val level =>
    let wcache := (w.backends i).wcache.map fun c => c.setTuned sig val level
    (w.setBackend i { w.backends i with wcache }, [])
  | .release i key =>
    let weightPool := update (w.backends i).weightPool key none
    (w.setBackend i { w.backends i with weightPool }, [])
  | .save i pipeline written =>
    let saved := saveCaches codec pipeline written (w.backends i) w.files
    ({ w with files := saved.2 }.setBackend i saved.1, [])
  | .close i => (w.setBackend i {}, [])

/-- The weights that a sequence of steps serves. -/
def World.run [DecidableEq F] (w : World F) : List Step → List (Upload × HostBuffer)
  | [] => []
  | s :: rest => (w.step codec toHalf s).2 ++ World.run (w.step codec toHalf s).1 rest

/-- The requests of a step are among given ones. -/
def Step.Within (uploads : Upload → Prop) (others : PooledBuffer → Prop) : Step → Prop
  | .upload _ u => uploads u
  | .acquire _ a => others a
  | _ => True

variable (uploads : Upload → Prop) (others : PooledBuffer → Prop)

/-- **Transparency**: whatever the sessions do, every request is served what its compute function
gives. -/
def Transparent [DecidableEq F] : Prop :=
  ∀ steps : List Step, (∀ s ∈ steps, s.Within uploads others) →
    ∀ served ∈ World.run codec toHalf {} steps, served.2 = served.1.bytes toHalf

/-- Keys determine what is packed: requests with one key pack the same at the precision of each,
and no other buffer has the key of a prepacked weight. -/
structure KeysDetermine : Prop where
  packed : ∀ u u', uploads u → uploads u' → u'.key = u.key →
    uploadWeight toHalf u'.computed u.useFp16 = u.bytes toHalf
  apart : ∀ u a, uploads u → others a → a.poolKey = poolKey u.key u.useFp16 →
    a.bytes = u.bytes toHalf

/-! ## Where entries come from -/

section Entries

variable {uploads others}

/-- An entry of a weight cache was computed for a request with its key. -/
def Cached (uploads : Upload → Prop) (key : Str) (v : HostBuffer) : Prop :=
  ∃ u, uploads u ∧ u.key = key ∧ u.computed = v

/-- A buffer of the pool was made for a request with its key, from an entry of the cache. -/
def Pooled (uploads : Upload → Prop) (others : PooledBuffer → Prop) (key : Str) (v : HostBuffer) :
    Prop :=
  (∃ u data, uploads u ∧ Cached uploads u.key data ∧ key = poolKey u.key u.useFp16 ∧
    v = uploadWeight toHalf data u.useFp16) ∨
  ∃ a, others a ∧ a.poolKey = key ∧ a.bytes = v

def WeightsFrom (uploads : Upload → Prop) (weights : Weights) : Prop :=
  Memo.From (Cached uploads) fun key => weights[key]?

def DocFrom (uploads : Upload → Prop) (doc : CacheDoc) : Prop :=
  ∀ v ∈ doc.variants, WeightsFrom uploads v.weights

/-- The entries of a backend. -/
structure BackendFrom (uploads : Upload → Prop) (others : PooledBuffer → Prop) (b : Backend F) :
    Prop where
  doc : DocFrom uploads b.cacheDoc
  cache : ∀ c, b.wcache = some c → WeightsFrom uploads c.weights
  pool : Memo.From (Pooled toHalf uploads others) b.weightPool

/-- The entries of the files and of all backends. -/
structure WorldFrom (uploads : Upload → Prop) (others : PooledBuffer → Prop) (w : World F) :
    Prop where
  files : ∀ f x doc, w.files f = some x → codec.cacheDecode x = some doc → DocFrom uploads doc
  backends : ∀ i, BackendFrom toHalf uploads others (w.backends i)

theorem weightsFrom_empty : WeightsFrom uploads ∅ := by
  intro key v here
  simp only [ExtTreeMap.getElem?_empty] at here
  cases here

variable {key : Str} {doc : CacheDoc} {v : CacheVariant} {files : Files F} {u u' : Upload}
  {w : World F}

theorem WeightsFrom.insert {weights : Weights} (entries : WeightsFrom uploads weights)
    {v : HostBuffer} (new : Cached uploads key v) : WeightsFrom uploads (weights.insert key v) := by
  intro other x here
  simp only [ExtTreeMap.getElem?_insert] at here
  split at here
  · rename_i same
    rw [← LawfulEqCmp.eq_of_compare same, ← some.inj here]
    exact new
  · exact entries other x here

theorem weightsFrom_reset (enabled : Bool) :
    WeightsFrom uploads (WeightCache.reset enabled).weights := weightsFrom_empty

theorem docFrom_nil (empty : doc.variants = []) : DocFrom uploads doc := by
  intro v mem
  rw [empty] at mem
  cases mem

theorem backendFrom_new : BackendFrom toHalf uploads others ({} : Backend F) where
  doc := docFrom_nil rfl
  cache := fun _ no => nomatch no
  pool := Memo.From.empty

theorem worldFrom_new : WorldFrom codec toHalf uploads others {} where
  files := fun _ _ _ no => nomatch no
  backends := fun _ => backendFrom_new toHalf

variable {codec toHalf} {b : Backend F}

theorem DocFrom.findVariant (entries : DocFrom uploads doc) {k : CacheVariant}
    (found : doc.findVariant k = some v) : WeightsFrom uploads v.weights :=
  entries v (mem_of_find?_eq_some found)

/-- **Loading takes entries from a file, or none.** -/
theorem BackendFrom.loadCache (entries : BackendFrom toHalf uploads others b)
    (stored : ∀ f x doc, files f = some x → codec.cacheDecode x = some doc → DocFrom uploads doc)
    (device : Device) (cfg : CacheConfig) (modelHash : Str) :
    BackendFrom toHalf uploads others (loadCache codec files device cfg modelHash b) := by
  have fresh : ∀ enabled, ∀ c, some (WeightCache.reset enabled) = some c →
      WeightsFrom uploads c.weights := by
    rintro enabled c ⟨⟩
    exact weightsFrom_reset enabled
  unfold Vulkan.loadCache
  split
  · exact entries
  dsimp only
  split
  · rename_i bytes loaded read decoded
    split
    · have here : DocFrom uploads loaded := by
        split at read
        · rw [if_pos ‹_›, read, bind_some] at decoded
          exact stored _ _ _ read decoded
        · cases read
      refine ⟨here, fun c held => ?_, entries.pool⟩
      dsimp only at held
      split at held
      · rename_i matched found
        obtain rfl := some.inj held
        exact here.findVariant found
      · exact fresh _ c held
    · exact ⟨docFrom_nil rfl, fresh _, entries.pool⟩
  · exact ⟨docFrom_nil rfl, fresh _, entries.pool⟩

/-- What a request takes from the host cache was computed for its key. -/
theorem BackendFrom.prepacked (entries : BackendFrom toHalf uploads others b)
    {compute : HostBuffer} (new : Cached uploads key compute) :
    Cached uploads key (prepacked key compute b).1 ∧
      BackendFrom toHalf uploads others (prepacked key compute b).2 := by
  unfold Vulkan.prepacked
  split
  · exact ⟨new, entries⟩
  rename_i wcache held
  have weights := entries.cache wcache held
  split
  · rename_i v here
    exact ⟨weights key v here, entries⟩
  split
  · refine ⟨new, entries.doc, fun c put => ?_, entries.pool⟩
    obtain rfl := some.inj put
    exact weights.insert new
  · exact ⟨new, entries⟩

/-- **A request is served from an entry with its key.** -/
theorem BackendFrom.uploadCached (entries : BackendFrom toHalf uploads others b)
    (given : uploads u) :
    let served := uploadCached toHalf (modelTag u.graph) u.rawKey u.useFp16 u.computed b
    Pooled toHalf uploads others (poolKey u.key u.useFp16) served.1 ∧
      BackendFrom toHalf uploads others served.2 := by
  have new : Cached uploads u.key u.computed := ⟨u, given, rfl, rfl⟩
  unfold Vulkan.uploadCached
  dsimp only
  split
  · rename_i bytes here
    exact ⟨entries.pool _ bytes here, entries⟩
  · obtain ⟨cached, after⟩ := entries.prepacked new
    have made : Pooled toHalf uploads others (poolKey u.key u.useFp16)
        (uploadWeight toHalf (Vulkan.prepacked u.key u.computed b).1 u.useFp16) :=
      .inl ⟨u, _, given, cached, rfl, rfl⟩
    exact ⟨made, after.doc, after.cache, entries.pool.insert made⟩

theorem mem_replaceVariant {v' : CacheVariant} {variants : List CacheVariant}
    (mem : v' ∈ replaceVariant v variants) : v' = v ∨ v' ∈ variants := by
  induction variants with
  | nil => exact .inl (mem_singleton.mp mem)
  | cons e rest ih =>
    rw [replaceVariant] at mem
    split at mem
    · exact (mem_cons.mp mem).imp_right (mem_cons_of_mem _)
    · rcases mem_cons.mp mem with rfl | later
      · exact .inr mem_cons_self
      · exact (ih later).imp_right (mem_cons_of_mem _)

/-- **A file is written from the entries of a backend.** -/
theorem BackendFrom.saveCaches [DecidableEq F] (entries : BackendFrom toHalf uploads others b)
    (stored : ∀ f x doc, files f = some x → codec.cacheDecode x = some doc → DocFrom uploads doc)
    (pipeline : List UInt8) (written : Bool) :
    BackendFrom toHalf uploads others (saveCaches codec pipeline written b files).1 ∧
      ∀ f x doc, (saveCaches codec pipeline written b files).2 f = some x →
        codec.cacheDecode x = some doc → DocFrom uploads doc := by
  unfold Vulkan.saveCaches
  split
  · exact ⟨entries, stored⟩
  rename_i wcache held
  split
  · exact ⟨entries, stored⟩
  dsimp only
  have weights := entries.cache wcache held
  have doc : DocFrom uploads { b.cacheDoc with
      variants := replaceVariant (wcache.writeInto { b.curKey with pipeline })
        b.cacheDoc.variants } := by
    intro v mem
    rcases mem_replaceVariant mem with rfl | earlier
    · exact weights
    · exact entries.doc v earlier
  have saved : ∀ c, some { wcache with dirty := false } = some c → WeightsFrom uploads c.weights := by
    rintro c ⟨⟩
    exact weights
  split
  · exact ⟨⟨doc, saved, entries.pool⟩, stored⟩
  split
  · refine ⟨⟨doc, saved, entries.pool⟩, fun f x read here decoded => ?_⟩
    dsimp only at here
    by_cases same : f = b.cacheFile
    · subst same
      rw [update_self] at here
      obtain rfl := some.inj here
      rw [codec.roundTrip] at decoded
      obtain rfl := some.inj decoded
      exact doc
    · rw [update_of_ne same] at here
      exact stored f x read here decoded
  · exact ⟨⟨doc, entries.cache, entries.pool⟩, stored⟩

theorem backends_setBackend_self (w : World F) (i : Nat) (b : Backend F) :
    (w.setBackend i b).backends i = b := update_self _ _ _

theorem backends_setBackend_of_ne {i j : Nat} (other : j ≠ i) (w : World F) (b : Backend F) :
    (w.setBackend i b).backends j = w.backends j := update_of_ne other _ _

theorem files_setBackend (w : World F) (i : Nat) (b : Backend F) :
    (w.setBackend i b).files = w.files := rfl

/-- **Every step keeps where entries come from, and serves such an entry.** -/
theorem WorldFrom.step [DecidableEq F]
    (entries : WorldFrom codec toHalf uploads others w) {s : Step}
    (within : s.Within uploads others) :
    WorldFrom codec toHalf uploads others (w.step codec toHalf s).1 ∧
      ∀ served ∈ (w.step codec toHalf s).2, uploads served.1 ∧
        Pooled toHalf uploads others (poolKey served.1.key served.1.useFp16) served.2 := by
  have put : ∀ i b, BackendFrom toHalf uploads others b →
      WorldFrom codec toHalf uploads others (w.setBackend i b) := by
    refine fun i b new => ⟨entries.files, fun j => ?_⟩
    by_cases same : j = i
    · rw [same, backends_setBackend_self]
      exact new
    · rw [backends_setBackend_of_ne same]
      exact entries.backends j
  have nothing : ∀ served ∈ ([] : List (Upload × HostBuffer)), uploads served.1 ∧
      Pooled toHalf uploads others (poolKey served.1.key served.1.useFp16) served.2 :=
    fun served no => nomatch no
  cases s with
  | load i device cfg model =>
    exact ⟨put i _ ((entries.backends i).loadCache entries.files device cfg _), nothing⟩
  | upload i u =>
    obtain ⟨made, after⟩ := (entries.backends i).uploadCached within
    refine ⟨put i _ after, fun served mem => ?_⟩
    obtain rfl := mem_singleton.mp mem
    exact ⟨within, made⟩
  | acquire i a =>
    have here := entries.backends i
    have pool := here.pool.acquire (.inr ⟨a, within, rfl, rfl⟩)
    exact ⟨put i _ ⟨here.doc, here.cache, pool.2⟩, nothing⟩
  | setTuned i sig val level =>
    have here := entries.backends i
    refine ⟨put i _ ⟨here.doc, fun c tuned => ?_, here.pool⟩, nothing⟩
    obtain ⟨before, held, rfl⟩ := map_eq_some_iff.mp tuned
    exact here.cache before held
  | release i key =>
    have here := entries.backends i
    exact ⟨put i _ ⟨here.doc, here.cache, here.pool.erase key⟩, nothing⟩
  | save i pipeline written =>
    obtain ⟨after, stored⟩ := (entries.backends i).saveCaches entries.files pipeline written
    exact ⟨⟨stored, (put i _ after).backends⟩, nothing⟩
  | close i => exact ⟨put i _ (backendFrom_new toHalf), nothing⟩

/-- Whatever a sequence of steps serves was made for the key it is served under. -/
theorem WorldFrom.run [DecidableEq F] (steps : List Step)
    (within : ∀ s ∈ steps, s.Within uploads others)
    (entries : WorldFrom codec toHalf uploads others w) :
    ∀ served ∈ w.run codec toHalf steps, uploads served.1 ∧
      Pooled toHalf uploads others (poolKey served.1.key served.1.useFp16) served.2 := by
  induction steps generalizing w with
  | nil => exact fun served no => nomatch no
  | cons s rest ih =>
    obtain ⟨after, here⟩ := entries.step (within s mem_cons_self)
    intro served mem
    rcases mem_append.mp mem with now | later
    · exact here served now
    · exact ih (fun s inRest => within s (mem_cons_of_mem _ inRest)) after served later

/-! ## Keys -/

theorem length_poolSuffix (fp16 : Bool) : (if fp16 then str "|h" else str "|f").length = 2 := by
  cases fp16 with
  | _ => rfl

theorem poolKey_injective {key' : Str} {fp16 fp16' : Bool}
    (same : poolKey key fp16 = poolKey key' fp16') : key = key' ∧ fp16 = fp16' := by
  obtain ⟨keys, suffixes⟩ := append_inj' same
    ((length_poolSuffix fp16).trans (length_poolSuffix fp16').symm)
  refine ⟨keys, ?_⟩
  cases fp16 with
  | false =>
    cases fp16' with
    | false => rfl
    | true => exact absurd suffixes (by decide)
  | true =>
    cases fp16' with
    | false => exact absurd suffixes (by decide)
    | true => rfl

theorem length_modelTag (g : Graph) : (modelTag g).length = 16 := by
  rw [modelTag, hexDigits, length_map, length_range]

theorem weightKey_modelTag (g : Graph) (rawKey : Str) :
    weightKey (modelTag g) rawKey = modelTag g ++ str "/" ++ rawKey := by
  have full : (modelTag g).isEmpty = false := by
    rw [isEmpty_eq_false_iff, ← length_pos_iff, length_modelTag]
    decide
  rw [weightKey, full]
  rfl

theorem modelTag_eq_of_key (same : u.key = u'.key) : modelTag u.graph = modelTag u'.graph := by
  rw [Upload.key, Upload.key, weightKey_modelTag, weightKey_modelTag, append_assoc,
    append_assoc] at same
  exact (append_inj same ((length_modelTag _).trans (length_modelTag _).symm)).1

/-- **The tag of a model only depends on the names and operator types of its nodes.** -/
theorem modelTag_eq_of_nodes {g g' : Graph}
    (same : g.nodes.map (fun nd => (nd.name, nd.type)) =
      g'.nodes.map fun nd => (nd.name, nd.type)) : modelTag g = modelTag g' := by
  have folded : ∀ nodes : List Node, ∀ h : UInt64,
      nodes.foldl (fun h nd => mix (mix h nd.name) (opTypeName nd.type)) h =
        (nodes.map fun nd => (nd.name, nd.type)).foldl
          (fun h key => mix (mix h key.1) (opTypeName key.2)) h := by
    intro nodes h
    rw [foldl_map]
  have count : g.nodes.length = g'.nodes.length := by
    simpa only [length_map] using congrArg List.length same
  rw [modelTag, modelTag, folded, folded, same, count]

/-! ## Two sessions on one file -/

/-- The settings of a session with a cache file. -/
def onFile : CacheConfig := { cacheFile := str "cache" }

/-- A backend that has loaded nothing from its cache file. -/
def coldBackend (F : Type) (tag : Str) : Backend F where
  cacheLoaded := true
  cacheFile := str "cache"
  cacheDoc := { model := tag }
  wcache := some (WeightCache.reset true)

def oneWeight (key : Str) (data : HostBuffer) : WeightCache := (WeightCache.reset true).put key data

def oneWeightDoc (tag key : Str) (data : HostBuffer) : CacheDoc :=
  { model := tag, variants := [(oneWeight key data).writeInto {}] }

theorem loadCache_cold (codec : CacheCodec F) (tag : Str) :
    loadCache codec (fun _ => none) {} onFile tag {} = coldBackend F tag := rfl

theorem uploadCached_cold (u : Upload) :
    uploadCached toHalf (modelTag u.graph) u.rawKey u.useFp16 u.computed
        (coldBackend F (modelTag u.graph)) =
      (u.bytes toHalf, { coldBackend F (modelTag u.graph) with
        wcache := some (oneWeight u.key u.computed)
        weightPool := update (fun _ => none) (poolKey u.key u.useFp16)
          (some (u.bytes toHalf)) }) := by
  have absent : (WeightCache.reset true).weights[u.key]? = none := ExtTreeMap.getElem?_empty
  have computed : prepacked u.key u.computed (coldBackend F (modelTag u.graph)) =
      (u.computed, { coldBackend F (modelTag u.graph) with
        wcache := some (oneWeight u.key u.computed) }) := by
    simp only [prepacked, coldBackend, absent]
    rfl
  unfold uploadCached
  dsimp only
  rw [← Upload.key, computed]
  rfl

theorem saveCaches_oneWeight [DecidableEq F] (tag key : Str) (data : HostBuffer)
    (weightPool : Str → Option HostBuffer) :
    (saveCaches codec [] true { coldBackend F tag with
        wcache := some (oneWeight key data), weightPool } fun _ => none).2 =
      update (fun _ => none) (str "cache")
        (some (codec.cacheEncode (oneWeightDoc tag key data))) := rfl

/-- A backend that has loaded one weight from its cache file. -/
def warmBackend (codec : CacheCodec F) (tag key : Str) (data : HostBuffer) : Backend F where
  cacheLoaded := true
  cacheFile := str "cache"
  cacheDoc := oneWeightDoc tag key data
  loadedBytes := some (codec.cacheEncode (oneWeightDoc tag key data))
  wcache := some (WeightCache.loadFrom ((oneWeight key data).writeInto {}))

theorem loadCache_warm (tag key : Str) (data : HostBuffer) :
    loadCache codec (update (fun _ => none) (str "cache")
        (some (codec.cacheEncode (oneWeightDoc tag key data)))) {} onFile tag {} =
      warmBackend codec tag key data := by
  have matching : docMatches {} tag (oneWeightDoc tag key data) = true := by
    simp [docMatches, oneWeightDoc]
  have found : (oneWeightDoc tag key data).findVariant {} =
      some ((oneWeight key data).writeInto {}) := rfl
  unfold loadCache
  rw [if_neg Bool.false_ne_true]
  dsimp only [onFile]
  rw [if_pos (by decide), update_self, bind_some, codec.roundTrip]
  dsimp only
  rw [if_pos matching]
  rfl

theorem uploadCached_warm (u : Upload) (data : HostBuffer) :
    (uploadCached toHalf (modelTag u.graph) u.rawKey u.useFp16 u.computed
        (warmBackend codec (modelTag u.graph) u.key data)).1 =
      uploadWeight toHalf data u.useFp16 := by
  have held : (WeightCache.loadFrom ((oneWeight u.key data).writeInto {})).weights[u.key]? =
      some data := ExtTreeMap.getElem?_insert_self
  have served : (prepacked u.key u.computed (warmBackend codec (modelTag u.graph) u.key data)).1 =
      data := by
    simp only [prepacked, warmBackend, held]
  unfold uploadCached
  dsimp only
  rw [← Upload.key]
  exact congrArg (uploadWeight toHalf · u.useFp16) served

/-- Two sessions that share a cache file, each on a model of its own. -/
def sharedFile (u' u : Upload) : List Step :=
  [.load 0 {} onFile u'.graph, .upload 0 u', .save 0 [] true, .load 1 {} onFile u.graph,
    .upload 1 u]

/-- **The second session is served what the first one packed under the same key.** -/
theorem run_sharedFile [DecidableEq F] (same : u'.key = u.key) :
    World.run codec toHalf {} (sharedFile u' u) =
      [(u', u'.bytes toHalf), (u, uploadWeight toHalf u'.computed u.useFp16)] := by
  have tags := modelTag_eq_of_key same
  have untouched : ∀ (w : World F) b, (w.setBackend 0 b).backends 1 = w.backends 1 :=
    backends_setBackend_of_ne (by decide)
  have warm : (uploadCached toHalf (modelTag u.graph) u.rawKey u.useFp16 u.computed
      (warmBackend codec (modelTag u.graph) u.key u'.computed)).1 = _ :=
    uploadCached_warm u u'.computed
  rw [← same, ← tags] at warm
  rw [sharedFile, World.run, World.run, World.run, World.run, World.run, World.run]
  simp only [World.step, backends_setBackend_self, untouched, files_setBackend, loadCache_cold,
    uploadCached_cold, saveCaches_oneWeight, ← tags, loadCache_warm, warm]
  rfl

/-- A prepacked weight is served what else is in the pool under its key. -/
theorem run_acquired [DecidableEq F] {a : PooledBuffer}
    (same : a.poolKey = poolKey u.key u.useFp16) :
    World.run codec toHalf {} [.acquire 0 a, .upload 0 u] = [(u, a.bytes)] := by
  have held : (Memo.acquire (fun _ => none) a.poolKey a.bytes).2 (poolKey u.key u.useFp16) =
      some a.bytes := by
    rw [← same, Memo.acquire_of_none rfl]
    dsimp only
    rw [update_self]
  simp only [World.run, World.step, backends_setBackend_self, nil_append, append_nil]
  unfold uploadCached
  dsimp only
  rw [← Upload.key, held]

end Entries

/-! ## Transparency -/

/-- **The weight cache is transparent exactly when keys determine what is packed.** -/
theorem transparent_iff [DecidableEq F] :
    Transparent codec toHalf uploads others ↔ KeysDetermine toHalf uploads others := by
  refine ⟨fun transparent => ⟨?_, ?_⟩, fun determine steps within served mem => ?_⟩
  · intro u u' given given' same
    refine transparent (sharedFile u' u) ?_ (u, _) ?_
    · intro s mem
      simp only [sharedFile, mem_cons, not_mem_nil, or_false] at mem
      rcases mem with rfl | rfl | rfl | rfl | rfl
      · trivial
      · exact given'
      · trivial
      · trivial
      · exact given
    · rw [run_sharedFile same]
      exact mem_cons_of_mem _ mem_cons_self
  · intro u a given other same
    refine transparent [.acquire 0 a, .upload 0 u] ?_ (u, _) ?_
    · intro s mem
      simp only [mem_cons, not_mem_nil, or_false] at mem
      rcases mem with rfl | rfl
      · exact other
      · exact given
    · rw [run_acquired same]
      exact mem_cons_self
  · obtain ⟨given, made⟩ := (worldFrom_new codec toHalf).run steps within served mem
    obtain ⟨u, data, givenU, ⟨u', givenU', sameKey, rfl⟩, keys, bytes⟩ | ⟨a, other, key, bytes⟩ := made
    · obtain ⟨key, precision⟩ := poolKey_injective keys
      rw [bytes, ← precision]
      exact determine.packed served.1 u' given givenU' (sameKey.trans key.symm)
    · exact bytes.symm.trans (determine.apart served.1 a given other key)

end Sharing

/-! ## Two models that differ in a bias -/

/-- What a fully connected layer asks for. -/
def gemmUploads (decode : DType → List UInt8 → Float32Bits) (g : Graph) (node : Node)
    (useFp16 : Bool) : List Upload :=
  [⟨g, node.name ++ str "#w", useFp16, gemmWeight decode g node⟩,
    ⟨g, node.name ++ str "#b", useFp16, gemmBias decode g node⟩]

/-- What the fully connected layers of some models ask for. -/
def GemmUploads (decode : DType → List UInt8 → Float32Bits) (models : List Graph) (u : Upload) :
    Prop :=
  ∃ g ∈ models, ∃ node ∈ g.nodes, node.type = .gemm ∧ u ∈ gemmUploads decode g node false

/-- A fully connected layer with one weight and a given bias. -/
def classifier (bias : HostBuffer) : Graph where
  tensors := [{ name := str "x", shape := [1, 1] }, { name := str "w", shape := [1, 1] },
    { name := str "b", shape := [1] }, { name := str "y", shape := [1, 1] }]
  nodes := [{ type := .gemm, name := str "fc", inputs := [0, 1, 2], outputs := [3] }]
  inputs := [0]
  outputs := [3]
  initializers := ((∅ : ExtTreeMap TensorId HostBuffer).insert 1 [0, 0, 128, 63]).insert 2 bias

def plainCodec : CacheCodec CacheDoc := ⟨id, some, fun _ => rfl⟩

def singleLanes (_ : DType) (lane : List UInt8) : Float32Bits := ⟨UInt32.ofNat (Wire.leNat lane)⟩

/-- **Models that agree in node names and operator types share an entry**: the second session gets
the bias of the first model. -/
theorem classifiers_share_bias :
    (classifier [0, 0, 0, 64]).nodes = (classifier [0, 0, 128, 63]).nodes ∧
      ¬ Transparent plainCodec id
        (GemmUploads singleLanes [classifier [0, 0, 0, 64], classifier [0, 0, 128, 63]])
        fun _ => False := by
  refine ⟨rfl, fun transparent => ?_⟩
  let biasOf := fun payload : HostBuffer => Upload.mk (classifier payload) (str "fc#b") false
    (gemmBias singleLanes (classifier payload) ((classifier payload).nodes.headD {}))
  have asked : ∀ payload ∈ [[0, 0, 0, 64], [0, 0, 128, 63]],
      GemmUploads singleLanes [classifier [0, 0, 0, 64], classifier [0, 0, 128, 63]]
        (biasOf payload) := by
    intro payload mem
    refine ⟨classifier payload, mem_map_of_mem mem, _, mem_cons_self, rfl, ?_⟩
    exact mem_cons_of_mem _ mem_cons_self
  have same : (biasOf [0, 0, 0, 64]).key = (biasOf [0, 0, 128, 63]).key :=
    congrArg (weightKey · (str "fc#b")) (modelTag_eq_of_nodes rfl)
  have served := transparent (sharedFile (biasOf [0, 0, 0, 64]) (biasOf [0, 0, 128, 63])) ?_
    (biasOf [0, 0, 128, 63], _) (by
      rw [run_sharedFile same]
      exact mem_cons_of_mem _ mem_cons_self)
  · exact absurd served (by decide)
  · intro s mem
    simp only [sharedFile, mem_cons, not_mem_nil, or_false] at mem
    rcases mem with rfl | rfl | rfl | rfl | rfl
    · trivial
    · exact asked _ mem_cons_self
    · trivial
    · trivial
    · exact asked _ (mem_cons_of_mem _ mem_cons_self)

end Vknn.Vulkan
