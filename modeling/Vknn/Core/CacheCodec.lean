import Vknn.Vulkan.WeightCache

/-!
# The coding of a cache document

A document is written as a tree of maps, arrays and scalars by a library that packs
one item after the other, and read back by name from the tree that the library
unpacks.  A map is announced with the number of its entries, before them.

The library is a parameter.  What is assumed of it is that it unpacks what was
packed, and nothing from no bytes.
-/

namespace Vknn.CacheCodec

open List Nat Std

open Vulkan (CacheDoc CacheVariant Weights Device docMatches kCacheFormat)

/-! ## The library -/

/-- What the library unpacks. -/
inductive MsgObject where
  | positive (n : Nat)
  | negative (i : Int)
  | boolean (b : Bool)
  | str (s : Str)
  | bin (bytes : List UInt8)
  | array (items : List MsgObject)
  | map (entries : List (MsgObject × MsgObject))
  | other

/-- A call that packs. -/
inductive PackCall where
  | uint32 (n : Nat)
  | int32 (i : Int)
  | boolean (b : Bool)
  | str (s : Str)
  | bin (bytes : List UInt8)
  | array (size : Nat)
  | map (size : Nat)
deriving DecidableEq

mutual

/-- Calls that pack one object: an integer by its sign, a list after its length. -/
inductive Packs : List PackCall → MsgObject → Prop where
  | uint32 (n : Nat) : Packs [.uint32 n] (.positive n)
  | int32 {i : Int} (nonneg : 0 ≤ i) : Packs [.int32 i] (.positive i.toNat)
  | int32_neg {i : Int} (below : i < 0) : Packs [.int32 i] (.negative i)
  | boolean (b : Bool) : Packs [.boolean b] (.boolean b)
  | str (s : Str) : Packs [.str s] (.str s)
  | bin (bytes : List UInt8) : Packs [.bin bytes] (.bin bytes)
  | array {calls : List PackCall} {items : List MsgObject} (packed : PacksAll calls items) :
      Packs (.array items.length :: calls) (.array items)
  | map {calls : List PackCall} {entries : List (MsgObject × MsgObject)}
      (packed : PacksEntries calls entries) : Packs (.map entries.length :: calls) (.map entries)

inductive PacksAll : List PackCall → List MsgObject → Prop where
  | nil : PacksAll [] []
  | cons {calls rest : List PackCall} {item : MsgObject} {items : List MsgObject}
      (first : Packs calls item) (later : PacksAll rest items) :
      PacksAll (calls ++ rest) (item :: items)

inductive PacksEntries : List PackCall → List (MsgObject × MsgObject) → Prop where
  | nil : PacksEntries [] []
  | cons {name calls rest : List PackCall} {key value : MsgObject}
      {entries : List (MsgObject × MsgObject)} (first : Packs name key) (second : Packs calls value)
      (later : PacksEntries rest entries) :
      PacksEntries (name ++ calls ++ rest) ((key, value) :: entries)

end

/-- A library that packs and unpacks. -/
structure MsgPack where
  emit : List PackCall → List UInt8
  unpackNext : List UInt8 → Option MsgObject
  unpackNext_nil : unpackNext [] = none

/-- The library unpacks what these calls pack. -/
def MsgPack.Returns (lib : MsgPack) (calls : List PackCall) : Prop :=
  ∀ o, Packs calls o → lib.unpackNext (lib.emit calls) = some o

/-! ## Calls determine what they pack -/

mutual

theorem Packs.determined {calls : List PackCall} {o : MsgObject} (packed : Packs calls o)
    {calls' rest rest' : List PackCall} {o' : MsgObject} (packed' : Packs calls' o')
    (same : calls ++ rest = calls' ++ rest') : o = o' ∧ rest = rest' := by
  cases packed with
  | uint32 n =>
    cases packed' with
    | uint32 m => simpa using same
    | _ => simp at same
  | int32 nonneg =>
    cases packed' with
    | int32 _ =>
      simp only [cons_append, nil_append, List.cons.injEq, PackCall.int32.injEq] at same
      rw [same.1]
      exact ⟨rfl, same.2⟩
    | int32_neg below =>
      simp only [cons_append, nil_append, List.cons.injEq, PackCall.int32.injEq] at same
      omega
    | _ => simp at same
  | int32_neg below =>
    cases packed' with
    | int32 nonneg =>
      simp only [cons_append, nil_append, List.cons.injEq, PackCall.int32.injEq] at same
      omega
    | int32_neg _ => simpa using same
    | _ => simp at same
  | boolean b =>
    cases packed' with
    | boolean c => simpa using same
    | _ => simp at same
  | str s =>
    cases packed' with
    | str t => simpa using same
    | _ => simp at same
  | bin bytes =>
    cases packed' with
    | bin others => simpa using same
    | _ => simp at same
  | array packed =>
    cases packed' with
    | array packed' =>
      simp only [cons_append, List.cons.injEq, PackCall.array.injEq] at same
      obtain ⟨rfl, rfl⟩ := packed.determined packed' same.1 same.2
      exact ⟨rfl, rfl⟩
    | _ => simp at same
  | map packed =>
    cases packed' with
    | map packed' =>
      simp only [cons_append, List.cons.injEq, PackCall.map.injEq] at same
      obtain ⟨rfl, rfl⟩ := packed.determined packed' same.1 same.2
      exact ⟨rfl, rfl⟩
    | _ => simp at same

theorem PacksAll.determined {calls : List PackCall} {items : List MsgObject}
    (packed : PacksAll calls items) {calls' rest rest' : List PackCall} {items' : List MsgObject}
    (packed' : PacksAll calls' items') (count : items.length = items'.length)
    (same : calls ++ rest = calls' ++ rest') : items = items' ∧ rest = rest' := by
  cases packed with
  | nil =>
    cases packed' with
    | nil => exact ⟨rfl, same⟩
    | cons _ _ => simp at count
  | cons first later =>
    cases packed' with
    | nil => simp at count
    | cons first' later' =>
      rw [append_assoc, append_assoc] at same
      obtain ⟨rfl, same⟩ := first.determined first' same
      obtain ⟨rfl, rfl⟩ := later.determined later' (succ.inj count) same
      exact ⟨rfl, rfl⟩

theorem PacksEntries.determined {calls : List PackCall} {entries : List (MsgObject × MsgObject)}
    (packed : PacksEntries calls entries) {calls' rest rest' : List PackCall}
    {entries' : List (MsgObject × MsgObject)} (packed' : PacksEntries calls' entries')
    (count : entries.length = entries'.length) (same : calls ++ rest = calls' ++ rest') :
    entries = entries' ∧ rest = rest' := by
  cases packed with
  | nil =>
    cases packed' with
    | nil => exact ⟨rfl, same⟩
    | cons _ _ _ => simp at count
  | cons first second later =>
    cases packed' with
    | nil => simp at count
    | cons first' second' later' =>
      simp only [append_assoc] at same
      obtain ⟨rfl, same⟩ := first.determined first' same
      obtain ⟨rfl, same⟩ := second.determined second' same
      obtain ⟨rfl, rfl⟩ := later.determined later' (succ.inj count) same
      exact ⟨rfl, rfl⟩

end

theorem Packs.unique {calls : List PackCall} {o o' : MsgObject} (packed : Packs calls o)
    (packed' : Packs calls o') : o = o' :=
  (@Packs.determined calls o packed calls [] [] o' packed' rfl).1

/-! ## Writing -/

def packKey (k : String) : PackCall := .str (Vknn.str k)

def encodeVariant (v : CacheVariant) : List PackCall :=
  [.map 19,
    packKey "precision", .str v.precision,
    packKey "flatLayout", .boolean v.flatLayout,
    packKey "gpuIslandFold", .boolean v.gpuIslandFold,
    packKey "matmulViewFold", .boolean v.matmulViewFold,
    packKey "ropeFusion", .boolean v.ropeFusion,
    packKey "fusedAttention", .boolean v.fusedAttention,
    packKey "kvConcatFold", .boolean v.kvConcatFold,
    packKey "fp32Tensors", .str v.fp32Tensors,
    packKey "winograd", .int32 v.winograd,
    packKey "winogradVariant", .int32 v.winogradVariant,
    packKey "winogradUnit", .int32 v.winogradUnit,
    packKey "directConv3x3", .int32 v.directConv3x3,
    packKey "splitKConv", .int32 v.splitKConv,
    packKey "coopmatGemm", .int32 v.coopmatGemm,
    packKey "kvCacheQuant", .int32 v.kvCacheQuant,
    packKey "pipeline", .bin v.pipeline,
    packKey "weights", .map v.weights.size] ++
  v.weights.toList.flatMap (fun kv => [.str kv.1, .bin kv.2]) ++
  [packKey "tune", .map v.tune.size] ++
  v.tune.toList.flatMap (fun kv => [.str kv.1, .int32 kv.2]) ++
  [packKey "tunelvl", .map v.tuneLevel.size] ++
  v.tuneLevel.toList.flatMap (fun kv => [.str kv.1, .int32 kv.2])

def encodeCalls (doc : CacheDoc) : List PackCall :=
  [.map 8,
    packKey "format", .uint32 doc.format,
    packKey "kernelHash", .str doc.kernelHash,
    packKey "vendorId", .uint32 doc.vendorId,
    packKey "deviceId", .uint32 doc.deviceId,
    packKey "driverVersion", .uint32 doc.driverVersion,
    packKey "pipelineCacheUUID", .bin doc.pipelineCacheUUID,
    packKey "model", .str doc.model,
    packKey "variants", .array doc.variants.length] ++
  doc.variants.flatMap encodeVariant

def cacheEncode (lib : MsgPack) (doc : CacheDoc) : List UInt8 := lib.emit (encodeCalls doc)

/-! ## Reading -/

def isStr : MsgObject → Str → Bool
  | .str s, key => s = key
  | _, _ => false

/-- The value of the first entry with a key. -/
def mapGet : MsgObject → Str → Option MsgObject
  | .map entries, key => (entries.find? fun kv => isStr kv.1 key).map Prod.snd
  | _, _ => none

def getStr (m : MsgObject) (key : String) : Str :=
  match mapGet m (Vknn.str key) with
  | some (.str s) => s
  | _ => []

def getU32 (m : MsgObject) (key : String) : Nat :=
  match mapGet m (Vknn.str key) with
  | some (.positive n) => n % 2 ^ 32
  | _ => 0

/-- An integer of either sign; the library has one kind of object for each. -/
def asI32 : MsgObject → Int
  | .positive n => wrap32 n
  | .negative i => wrap32 i
  | _ => 0

def getI32 (m : MsgObject) (key : String) : Int := ((mapGet m (Vknn.str key)).map asI32).getD 0

def getBool (m : MsgObject) (key : String) (dflt : Bool) : Bool :=
  match mapGet m (Vknn.str key) with
  | some (.boolean b) => b
  | _ => dflt

def getBin (m : MsgObject) (key : String) : List UInt8 :=
  match mapGet m (Vknn.str key) with
  | some (.bin bytes) => bytes
  | _ => []

/-- The entries of a map, if it is one. -/
def getMap (m : MsgObject) (key : String) : List (MsgObject × MsgObject) :=
  match mapGet m (Vknn.str key) with
  | some (.map entries) => entries
  | _ => []

/-- Weights by name; what is not whole numbers of single precision is passed over. -/
def readWeights (entries : List (MsgObject × MsgObject)) : Weights :=
  entries.foldl (fun weights kv => match kv with
    | (.str name, .bin bytes) =>
      if bytes.length % 4 ≠ 0 then weights else weights.insertIfNew name bytes
    | _ => weights) ∅

def readTable (entries : List (MsgObject × MsgObject)) : ExtTreeMap Str Int :=
  entries.foldl (fun table kv => match kv with
    | (.str name, value) => table.insertIfNew name (asI32 value)
    | _ => table) ∅

def readVariant (vo : MsgObject) : CacheVariant where
  precision := getStr vo "precision"
  flatLayout := getBool vo "flatLayout" true
  gpuIslandFold := getBool vo "gpuIslandFold" true
  matmulViewFold := getBool vo "matmulViewFold" true
  ropeFusion := getBool vo "ropeFusion" true
  fusedAttention := getBool vo "fusedAttention" true
  kvConcatFold := getBool vo "kvConcatFold" false
  fp32Tensors := getStr vo "fp32Tensors"
  winograd := getI32 vo "winograd"
  winogradVariant := getI32 vo "winogradVariant"
  winogradUnit := getI32 vo "winogradUnit"
  directConv3x3 := getI32 vo "directConv3x3"
  splitKConv := getI32 vo "splitKConv"
  coopmatGemm := getI32 vo "coopmatGemm"
  kvCacheQuant := getI32 vo "kvCacheQuant"
  pipeline := getBin vo "pipeline"
  weights := readWeights (getMap vo "weights")
  tune := readTable (getMap vo "tune")
  tuneLevel := readTable (getMap vo "tunelvl")

/-- The variants of an array; what is no map is passed over. -/
def readVariants : Option MsgObject → List CacheVariant
  | some (.array items) => items.filterMap fun vo => match vo with
    | .map _ => some (readVariant vo)
    | _ => none
  | _ => []

def readDoc (root : MsgObject) : CacheDoc where
  format := getU32 root "format"
  kernelHash := getStr root "kernelHash"
  vendorId := getU32 root "vendorId"
  deviceId := getU32 root "deviceId"
  driverVersion := getU32 root "driverVersion"
  pipelineCacheUUID := getBin root "pipelineCacheUUID"
  model := getStr root "model"
  variants := readVariants (mapGet root (Vknn.str "variants"))

/-- Read a document into the caller's, and say whether there was one. -/
def cacheDecode (lib : MsgPack) (data : List UInt8) (out : CacheDoc) : Bool × CacheDoc :=
  if data.isEmpty then (false, out)
  else match lib.unpackNext data with
    | some (.map entries) => (true, readDoc (.map entries))
    | _ => (false, out)

/-- The document a session goes on with: that of the file if it was written for the same format,
kernels, device and model, and its own one otherwise. -/
def adoptFile (lib : MsgPack) (device : Device) (modelHash : Str) (bytes : List UInt8)
    (own : CacheDoc) : CacheDoc :=
  let loaded := cacheDecode lib bytes {}
  if loaded.1 && docMatches device modelHash loaded.2 then loaded.2 else own

/-! ## The tree of a document -/

section Trees

def ofInt (i : Int) : MsgObject := if 0 ≤ i then .positive i.toNat else .negative i

def keyObject (k : String) : MsgObject := .str (Vknn.str k)

def weightEntries (weights : List (Str × HostBuffer)) : List (MsgObject × MsgObject) :=
  weights.map fun kv => (.str kv.1, .bin kv.2)

def tableEntries (table : List (Str × Int)) : List (MsgObject × MsgObject) :=
  table.map fun kv => (.str kv.1, ofInt kv.2)

def variantEntries (v : CacheVariant) : List (MsgObject × MsgObject) :=
  [(keyObject "precision", .str v.precision),
    (keyObject "flatLayout", .boolean v.flatLayout),
    (keyObject "gpuIslandFold", .boolean v.gpuIslandFold),
    (keyObject "matmulViewFold", .boolean v.matmulViewFold),
    (keyObject "ropeFusion", .boolean v.ropeFusion),
    (keyObject "fusedAttention", .boolean v.fusedAttention),
    (keyObject "kvConcatFold", .boolean v.kvConcatFold),
    (keyObject "fp32Tensors", .str v.fp32Tensors),
    (keyObject "winograd", ofInt v.winograd),
    (keyObject "winogradVariant", ofInt v.winogradVariant),
    (keyObject "winogradUnit", ofInt v.winogradUnit),
    (keyObject "directConv3x3", ofInt v.directConv3x3),
    (keyObject "splitKConv", ofInt v.splitKConv),
    (keyObject "coopmatGemm", ofInt v.coopmatGemm),
    (keyObject "kvCacheQuant", ofInt v.kvCacheQuant),
    (keyObject "pipeline", .bin v.pipeline),
    (keyObject "weights", .map (weightEntries v.weights.toList)),
    (keyObject "tune", .map (tableEntries v.tune.toList)),
    (keyObject "tunelvl", .map (tableEntries v.tuneLevel.toList))]

def variantObject (v : CacheVariant) : MsgObject := .map (variantEntries v)

def docEntries (doc : CacheDoc) : List (MsgObject × MsgObject) :=
  [(keyObject "format", .positive doc.format),
    (keyObject "kernelHash", .str doc.kernelHash),
    (keyObject "vendorId", .positive doc.vendorId),
    (keyObject "deviceId", .positive doc.deviceId),
    (keyObject "driverVersion", .positive doc.driverVersion),
    (keyObject "pipelineCacheUUID", .bin doc.pipelineCacheUUID),
    (keyObject "model", .str doc.model),
    (keyObject "variants", .array (doc.variants.map variantObject))]

theorem packs_ofInt (i : Int) : Packs [.int32 i] (ofInt i) := by
  unfold ofInt
  split
  · exact .int32 (by assumption)
  · exact .int32_neg (by omega)

theorem PacksEntries.item (k : String) {call : PackCall} {value : MsgObject}
    {rest : List PackCall} {entries : List (MsgObject × MsgObject)} (packed : Packs [call] value)
    (later : PacksEntries rest entries) :
    PacksEntries (packKey k :: call :: rest) ((keyObject k, value) :: entries) :=
  .cons (.str (Vknn.str k)) packed later

theorem PacksEntries.nested (k : String) {n : Nat} {calls rest : List PackCall}
    {inner entries : List (MsgObject × MsgObject)} (size : n = inner.length)
    (packed : PacksEntries calls inner) (later : PacksEntries rest entries) :
    PacksEntries (packKey k :: .map n :: (calls ++ rest))
      ((keyObject k, .map inner) :: entries) := by
  subst size
  exact .cons (.str (Vknn.str k)) (.map packed) later

theorem packs_weightEntries (weights : List (Str × HostBuffer)) :
    PacksEntries (weights.flatMap fun kv => [.str kv.1, .bin kv.2]) (weightEntries weights) := by
  induction weights with
  | nil => exact .nil
  | cons kv weights ih => exact .cons (.str kv.1) (.bin kv.2) ih

theorem packs_tableEntries (table : List (Str × Int)) :
    PacksEntries (table.flatMap fun kv => [.str kv.1, .int32 kv.2]) (tableEntries table) := by
  induction table with
  | nil => exact .nil
  | cons kv table ih => exact .cons (.str kv.1) (packs_ofInt kv.2) ih

/-- **A variant is packed as its tree, with the number of entries announced.** -/
theorem packs_variant (v : CacheVariant) : Packs (encodeVariant v) (variantObject v) := by
  have levels := PacksEntries.nested "tunelvl"
    (by rw [tableEntries, length_map, ExtTreeMap.length_toList])
    (packs_tableEntries v.tuneLevel.toList) .nil
  have tables := PacksEntries.nested "tune"
    (by rw [tableEntries, length_map, ExtTreeMap.length_toList])
    (packs_tableEntries v.tune.toList) levels
  have maps := PacksEntries.nested "weights"
    (by rw [weightEntries, length_map, ExtTreeMap.length_toList])
    (packs_weightEntries v.weights.toList) tables
  have entries := Packs.map
    (.item "precision" (.str v.precision) <| .item "flatLayout" (.boolean v.flatLayout) <|
      .item "gpuIslandFold" (.boolean v.gpuIslandFold) <|
      .item "matmulViewFold" (.boolean v.matmulViewFold) <|
      .item "ropeFusion" (.boolean v.ropeFusion) <|
      .item "fusedAttention" (.boolean v.fusedAttention) <|
      .item "kvConcatFold" (.boolean v.kvConcatFold) <|
      .item "fp32Tensors" (.str v.fp32Tensors) <| .item "winograd" (packs_ofInt v.winograd) <|
      .item "winogradVariant" (packs_ofInt v.winogradVariant) <|
      .item "winogradUnit" (packs_ofInt v.winogradUnit) <|
      .item "directConv3x3" (packs_ofInt v.directConv3x3) <|
      .item "splitKConv" (packs_ofInt v.splitKConv) <|
      .item "coopmatGemm" (packs_ofInt v.coopmatGemm) <|
      .item "kvCacheQuant" (packs_ofInt v.kvCacheQuant) <|
      .item "pipeline" (.bin v.pipeline) maps)
  simpa [encodeVariant, variantObject, variantEntries, append_assoc] using entries

theorem packs_variants (vs : List CacheVariant) :
    PacksAll (vs.flatMap encodeVariant) (vs.map variantObject) := by
  induction vs with
  | nil => exact .nil
  | cons v vs ih => exact .cons (packs_variant v) ih

/-- **A document is packed as its tree.** -/
theorem packs_doc (doc : CacheDoc) : Packs (encodeCalls doc) (.map (docEntries doc)) := by
  have variants := Packs.array (packs_variants doc.variants)
  rw [length_map] at variants
  have last : PacksEntries ([packKey "variants"] ++
      (.array doc.variants.length :: doc.variants.flatMap encodeVariant) ++ [])
      [(keyObject "variants", .array (doc.variants.map variantObject))] :=
    .cons (.str (Vknn.str "variants")) variants .nil
  have entries := Packs.map
    (.item "format" (.uint32 doc.format) <| .item "kernelHash" (.str doc.kernelHash) <|
      .item "vendorId" (.uint32 doc.vendorId) <| .item "deviceId" (.uint32 doc.deviceId) <|
      .item "driverVersion" (.uint32 doc.driverVersion) <|
      .item "pipelineCacheUUID" (.bin doc.pipelineCacheUUID) <|
      .item "model" (.str doc.model) last)
  simpa [encodeCalls, docEntries] using entries

end Trees

/-! ## Reading a tree back -/

def Int32 (i : Int) : Prop := -2 ^ 31 ≤ i ∧ i < 2 ^ 31

/-- The numbers of a variant fit the types they have in the source, and its weights are whole
numbers of single precision. -/
structure VariantFits (v : CacheVariant) : Prop where
  settings : ∀ i ∈ [v.winograd, v.winogradVariant, v.winogradUnit, v.directConv3x3, v.splitKConv,
    v.coopmatGemm, v.kvCacheQuant], Int32 i
  weights : ∀ kv ∈ v.weights.toList, kv.2.length % 4 = 0
  tune : ∀ kv ∈ v.tune.toList, Int32 kv.2
  tuneLevel : ∀ kv ∈ v.tuneLevel.toList, Int32 kv.2

structure Fits (doc : CacheDoc) : Prop where
  format : doc.format < 2 ^ 32
  vendorId : doc.vendorId < 2 ^ 32
  deviceId : doc.deviceId < 2 ^ 32
  driverVersion : doc.driverVersion < 2 ^ 32
  variants : ∀ v ∈ doc.variants, VariantFits v

section Reading

theorem asI32_ofInt {i : Int} (fits : Int32 i) : asI32 (ofInt i) = i := by
  obtain ⟨low, high⟩ := fits
  unfold ofInt
  split
  · rename_i nonneg
    rw [asI32, Int.toNat_of_nonneg nonneg, wrap32_of_fits low high]
  · rw [asI32, wrap32_of_fits low high]

theorem readWeights_eq (weights : Weights) (whole : ∀ kv ∈ weights.toList, kv.2.length % 4 = 0) :
    readWeights (weightEntries weights.toList) = weights := by
  have filled : readWeights (weightEntries weights.toList) =
      Entries.insertNew ∅ weights.toList := by
    rw [readWeights, weightEntries, foldl_map, Entries.insertNew]
    refine foldl_ext _ _ _ fun held kv listed => ?_
    exact if_neg (by rw [whole kv listed]; omega)
  rw [filled, Entries.insertNew_toList]

theorem readTable_eq (table : ExtTreeMap Str Int)
    (fits : ∀ kv ∈ table.toList, Int32 kv.2) :
    readTable (tableEntries table.toList) = table := by
  have filled : readTable (tableEntries table.toList) = Entries.insertNew ∅ table.toList := by
    rw [readTable, tableEntries, foldl_map, Entries.insertNew]
    refine foldl_ext _ _ _ fun held kv listed => ?_
    dsimp only
    rw [asI32_ofInt (fits kv listed)]
  rw [filled, Entries.insertNew_toList]

/-- **A variant is read back from its tree.** -/
theorem readVariant_variantObject {v : CacheVariant} (fits : VariantFits v) :
    readVariant (variantObject v) = v := by
  have weights : readWeights (getMap (variantObject v) "weights") = v.weights :=
    readWeights_eq v.weights fits.weights
  have tune : readTable (getMap (variantObject v) "tune") = v.tune := readTable_eq v.tune fits.tune
  have levels : readTable (getMap (variantObject v) "tunelvl") = v.tuneLevel :=
    readTable_eq v.tuneLevel fits.tuneLevel
  have small := fits.settings
  simp only [forall_mem_cons] at small
  obtain ⟨winograd, winogradVariant, winogradUnit, directConv3x3, splitKConv, coopmatGemm,
    kvCacheQuant, -⟩ := small
  have settings : getI32 (variantObject v) "winograd" = v.winograd ∧
      getI32 (variantObject v) "winogradVariant" = v.winogradVariant ∧
      getI32 (variantObject v) "winogradUnit" = v.winogradUnit ∧
      getI32 (variantObject v) "directConv3x3" = v.directConv3x3 ∧
      getI32 (variantObject v) "splitKConv" = v.splitKConv ∧
      getI32 (variantObject v) "coopmatGemm" = v.coopmatGemm ∧
      getI32 (variantObject v) "kvCacheQuant" = v.kvCacheQuant :=
    ⟨asI32_ofInt winograd, asI32_ofInt winogradVariant, asI32_ofInt winogradUnit,
      asI32_ofInt directConv3x3, asI32_ofInt splitKConv, asI32_ofInt coopmatGemm,
      asI32_ofInt kvCacheQuant⟩
  obtain ⟨winograd, winogradVariant, winogradUnit, directConv3x3, splitKConv, coopmatGemm,
    kvCacheQuant⟩ := settings
  rw [readVariant, weights, tune, levels, winograd, winogradVariant, winogradUnit, directConv3x3,
    splitKConv, coopmatGemm, kvCacheQuant]
  rfl

theorem readVariants_eq {vs : List CacheVariant} (fits : ∀ v ∈ vs, VariantFits v) :
    readVariants (some (.array (vs.map variantObject))) = vs := by
  induction vs with
  | nil => rfl
  | cons v vs ih =>
    have rest := ih fun w listed => fits w (mem_cons_of_mem v listed)
    have first := readVariant_variantObject (fits v mem_cons_self)
    have split : readVariants (some (.array ((v :: vs).map variantObject))) =
        readVariant (variantObject v) :: readVariants (some (.array (vs.map variantObject))) := rfl
    rw [split, first, rest]

/-- **A document is read back from its tree.** -/
theorem readDoc_docEntries {doc : CacheDoc} (fits : Fits doc) :
    readDoc (.map (docEntries doc)) = doc := by
  have variants : readVariants (mapGet (.map (docEntries doc)) (Vknn.str "variants")) =
      doc.variants := readVariants_eq fits.variants
  have format : getU32 (.map (docEntries doc)) "format" = doc.format := mod_eq_of_lt fits.format
  have vendorId : getU32 (.map (docEntries doc)) "vendorId" = doc.vendorId :=
    mod_eq_of_lt fits.vendorId
  have deviceId : getU32 (.map (docEntries doc)) "deviceId" = doc.deviceId :=
    mod_eq_of_lt fits.deviceId
  have driverVersion : getU32 (.map (docEntries doc)) "driverVersion" = doc.driverVersion :=
    mod_eq_of_lt fits.driverVersion
  rw [readDoc, variants, format, vendorId, deviceId, driverVersion]
  rfl

end Reading

/-! ## The codec -/

section Codec

variable (lib : MsgPack) (out : CacheDoc)

def HoldsMap (data : List UInt8) : Prop :=
  data ≠ [] ∧ ∃ entries, lib.unpackNext data = some (.map entries)

theorem cacheDecode_of_map {data : List UInt8} {entries : List (MsgObject × MsgObject)}
    (some_ : data ≠ []) (unpacked : lib.unpackNext data = some (.map entries)) :
    cacheDecode lib data out = (true, readDoc (.map entries)) := by
  rw [cacheDecode, if_neg (by simpa using some_), unpacked]

theorem cacheDecode_of_no_map {data : List UInt8} (no_map : ¬ HoldsMap lib data) :
    cacheDecode lib data out = (false, out) := by
  unfold cacheDecode
  by_cases empty : data = []
  · rw [empty]
    rfl
  · rw [if_neg (by simpa using empty)]
    split
    · rename_i entries unpacked
      exact absurd ⟨empty, entries, unpacked⟩ no_map
    · rfl

theorem cacheDecode_cacheEncode {doc : CacheDoc} (fits : Fits doc)
    (returns : lib.Returns (encodeCalls doc)) :
    cacheDecode lib (cacheEncode lib doc) out = (true, doc) := by
  have unpacked := returns _ (packs_doc doc)
  have some_ : cacheEncode lib doc ≠ [] := by
    intro empty
    rw [← cacheEncode, empty, lib.unpackNext_nil] at unpacked
    cases unpacked
  rw [cacheDecode_of_map lib out some_ unpacked, readDoc_docEntries fits]

end Codec

/-! ## A document of a later format -/

def smallPack : PackCall → List UInt8
  | .uint32 n => if n < 128 then [UInt8.ofNat n] else [0xcc, UInt8.ofNat n]
  | .int32 i => if 0 ≤ i then [UInt8.ofNat i.toNat] else [0xd0, UInt8.ofNat (256 + i).toNat]
  | .boolean b => if b then [0xc3] else [0xc2]
  | .str s => UInt8.ofNat (0xa0 + s.length) :: s
  | .bin bytes => 0xc4 :: UInt8.ofNat bytes.length :: bytes
  | .array n => [UInt8.ofNat (0x90 + n)]
  | .map n => [UInt8.ofNat (0x80 + n)]

/-- A library that knows the bytes of one document. -/
def libraryOf (doc : CacheDoc) : MsgPack where
  emit calls := calls.flatMap smallPack
  unpackNext bytes :=
    if bytes = (encodeCalls doc).flatMap smallPack then some (.map (docEntries doc)) else none
  unpackNext_nil := if_neg (by simp [encodeCalls, smallPack])

theorem libraryOf_returns (doc : CacheDoc) : (libraryOf doc).Returns (encodeCalls doc) := by
  intro o packed
  rw [packed.unique (packs_doc doc)]
  exact if_pos rfl

/-- A document of a format that is not the current one. -/
def laterDoc : CacheDoc := { format := 3, kernelHash := str "k" }

end Vknn.CacheCodec
