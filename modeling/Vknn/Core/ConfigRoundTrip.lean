import Vknn.Core.ConfigReads

/-!
# Reading a configuration back

Numbers, truth values and names are read back as they were.  A string is read back when it
has no quote and no backslash; and since the writer prints strings as they are, only then.
Of the hints, the two with three modes are read back when they are one of the three.
-/

namespace Vknn.ConfigJson

open JsonParser List

/-! ## Entries of an object -/

variable {dst k s : Str} {v : JsonValue} {c : Config}

variable {es : List (Str × JsonValue)} {h : Nat} {mode : JsonValue → CInt}

theorem get_of_mem (once : (es.map Prod.fst).Nodup)
    (mem : (k, v) ∈ es) : (JsonValue.object es.reverse).get k = some v := by
  have inside : (k, v) ∈ es.reverse := mem_reverse.mpr mem
  change (es.reverse.find? fun e => e.1 = k).map Prod.snd = some v
  cases found : es.reverse.find? (fun e => e.1 = k) with
  | none =>
    have other := find?_eq_none.mp found _ inside
    rw [decide_eq_true_eq] at other
    exact absurd rfl other
  | some e =>
    have key := find?_some found
    have among := mem_reverse.mp (mem_of_find?_eq_some found)
    rw [inj_on_of_nodup_map once among mem (of_decide_eq_true key)]
    rfl

theorem get_of_not_mem (absent : k ∉ es.map Prod.fst) :
    (JsonValue.object es.reverse).get k = none := by
  change (es.reverse.find? fun e => e.1 = k).map Prod.snd = none
  rw [find?_eq_none.mpr]
  · rfl
  · intro e mem
    rw [decide_eq_true_eq]
    rintro rfl
    exact absent (mem_map_of_mem (mem_reverse.mp mem))

def keys : List Str := (entries (plainFields .null)).map Prod.fst

theorem keys_nodup : keys.Nodup := by decide

theorem entry_get (i : Nat)
    (here : (entries c)[i]? = some (k, v)) :
    (JsonValue.object (entries c).reverse).get k = some v :=
  get_of_mem (show ((entries c).map Prod.fst).Nodup from keys_nodup) (mem_of_getElem? here)

theorem entry_none (absent : k ∉ keys) : (JsonValue.object (entries c).reverse).get k = none :=
  get_of_not_mem (show k ∉ (entries c).map Prod.fst from absent)

/-! ## Hints -/

theorem setFrom_eq
    {j : JsonValue} (found : v.get k = some j) : setFrom v k h mode c = c.setHint h (mode j) := by
  unfold setFrom
  rw [found]

theorem setFrom_none
    (absent : v.get k = none) : setFrom v k h mode c = c := by
  unfold setFrom
  rw [absent]

theorem hintFields_eq (v : JsonValue) (c : Config) :
    ∃ hints, hintFields v c = { c with hints := hints } := by
  have one : ∀ (k : Str) (h : Nat) (mode : JsonValue → CInt) (d : Config),
      (∃ hints, d = { c with hints := hints }) →
      ∃ hints, setFrom v k h mode d = { c with hints := hints } := by
    rintro k h mode _ ⟨hints, rfl⟩
    unfold setFrom
    split
    · exact ⟨_, rfl⟩
    · exact ⟨hints, rfl⟩
  have all : ∀ d : Config, (∃ hints, d = { c with hints := hints }) →
      ∃ hints, setAll v d = { c with hints := hints } := by
    rintro d same
    unfold setAll
    split
    · rename_i arr _
      generalize arr.zipIdx = es
      induction es generalizing d with
      | nil => exact same
      | cons e es ih =>
        obtain ⟨hints, rfl⟩ := same
        exact ih _ ⟨_, rfl⟩
    · exact same
  unfold hintFields
  refine one _ _ _ _ (one _ _ _ _ (one _ _ _ _ (one _ _ _ _ (one _ _ _ _ (all _ ?_)))))
  exact one _ _ _ _ (one _ _ _ _ (one _ _ _ _ (one _ _ _ _ ⟨c.hints, rfl⟩)))

def modeOf (b : Bool) : CInt := if b then modeOn else modeOff

/-- **The hints that are read back.** -/
theorem hints_read (c : Config) (d : Config) (fresh : d.hints = []) :
    (hintFields (.object (entries c).reverse) d).hints =
      [winogradFromStr (winoStr (c.hint hintWinograd modeAuto)),
        c.hint hintWinogradVariant modeAuto, c.hint hintWinogradUnit modeAuto,
        c.hint hintDirectConv3x3 modeAuto, modeOf c.flatLayout, modeOf c.gpuIslandFold,
        modeAuto, modeAuto, modeAuto, modeAuto, modeAuto, modeAuto,
        winogradFromStr (winoStr c.kvCacheQuantMode)] := by
  have flat := entry_get (c := c) 13 rfl
  have island := entry_get (c := c) 14 rfl
  have winograd := entry_get (c := c) 23 rfl
  have variant := entry_get (c := c) 24 rfl
  have unit := entry_get (c := c) 25 rfl
  have direct := entry_get (c := c) 26 rfl
  have quant := entry_get (c := c) 27 rfl
  have noFlat := entry_none (c := c) (k := str "noFlatOps") (by decide)
  have foldIslands := entry_none (c := c) (k := str "foldGpuIslands") (by decide)
  have list := entry_none (c := c) (k := str "hints") (by decide)
  generalize JsonValue.object (entries c).reverse = v at *
  have unset : ∀ d : Config, setAll v d = d := by
    intro d
    unfold setAll
    rw [list]
  unfold hintFields
  dsimp only
  rw [setFrom_eq flat, setFrom_none noFlat, setFrom_eq island, setFrom_none foldIslands, unset,
    setFrom_eq winograd, setFrom_eq variant, setFrom_eq unit, setFrom_eq direct, setFrom_eq quant]
  simp only [JsonValue.asNum, JsonValue.asStr, toCInt_cast]
  have flag : ∀ b, onOff true (.bool b) = modeOf b := fun b => rfl
  rw [flag, flag]
  generalize winogradFromStr _ = w, c.hint hintWinogradVariant modeAuto = x,
    c.hint hintWinogradUnit modeAuto = y, c.hint hintDirectConv3x3 modeAuto = z,
    modeOf c.flatLayout = f, modeOf c.gpuIslandFold = g, winogradFromStr _ = q
  simp [Config.setHint, fresh, hintFlatLayout, hintGpuIslandFold, hintWinograd,
    hintWinogradVariant, hintWinogradUnit, hintDirectConv3x3, hintKvCacheQuant, List.replicate]

/-! ## Equal in what is written -/

/-- Two configurations agree in every field that is written. -/
structure SameEmitted (c d : Config) : Prop where
  backend : d.backend = c.backend
  fallback : d.fallback = c.fallback
  allowCpuFallback : d.allowCpuFallback = c.allowCpuFallback
  precision : d.precision = c.precision
  priority : d.priority = c.priority
  maxSubmitNodes : d.maxSubmitNodes = c.maxSubmitNodes
  maxSubmitBindings : d.maxSubmitBindings = c.maxSubmitBindings
  decodeChainSteps : d.decodeChainSteps = c.decodeChainSteps
  cacheFile : d.cacheFile = c.cacheFile
  noCache : d.noCache = c.noCache
  tuning : d.tuning = c.tuning
  cpuThreads : d.cpuThreads = c.cpuThreads
  freeWeightsAfterUpload : d.freeWeightsAfterUpload = c.freeWeightsAfterUpload
  flatLayout : d.flatLayout = c.flatLayout
  gpuIslandFold : d.gpuIslandFold = c.gpuIslandFold
  timing : d.timing = c.timing
  profile : d.profile = c.profile
  verbosity : d.verbosity = c.verbosity
  layerDump : d.layerDump = c.layerDump
  layerDumpDir : d.layerDumpDir = c.layerDumpDir
  debugSegments : d.debugSegments = c.debugSegments
  disableVkOps : d.disableVkOps = c.disableVkOps
  dumpTensors : d.dumpTensors = c.dumpTensors
  winograd : d.hint hintWinograd modeAuto = c.hint hintWinograd modeAuto
  winogradVariant : d.hint hintWinogradVariant modeAuto = c.hint hintWinogradVariant modeAuto
  winogradUnit : d.hint hintWinogradUnit modeAuto = c.hint hintWinogradUnit modeAuto
  directConv3x3 : d.hint hintDirectConv3x3 modeAuto = c.hint hintDirectConv3x3 modeAuto
  kvCacheQuant : d.kvCacheQuantMode = c.kvCacheQuantMode

def IsMode (w : CInt) : Prop := w = modeAuto ∨ w = modeOn ∨ w = modeOff

theorem winogradFromStr_winoStr (w : CInt) : winogradFromStr (winoStr w) = w ↔ IsMode w := by
  unfold IsMode winoStr
  split
  · rename_i on
    rw [on]
    decide
  split
  · rename_i off
    rw [off]
    decide
  · rename_i on off
    have auto : winogradFromStr (str "auto") = modeAuto := by decide
    rw [auto]
    constructor
    · exact fun same => Or.inl same.symm
    · rintro (rfl | same | same)
      · rfl
      · exact absurd same on
      · exact absurd same off

theorem modeOf_eq_off (b : Bool) : decide (modeOf b ≠ modeOff) = b := by cases b <;> decide

theorem readS_eq (found : v.get k = some (.string s)) : readS v k dst = s := by
  unfold readS
  rw [found]
  rfl

theorem readB_eq {b dst : Bool} (found : v.get k = some (.bool b)) : readB v k dst = b := by
  unfold readB
  rw [found]
  rfl

theorem readI_eq {n dst : CInt} (found : v.get k = some (.number n.val)) : readI v k dst = n := by
  unfold readI
  rw [found]
  exact toCInt_cast n

theorem readName_eq {α : Type} {named : Str → α} {d : α}
    (found : v.get k = some (.string s)) :
    (match v.get k with
      | some j => named (j.asStr dst)
      | none => d) = named s := by
  rw [found]
  rfl

theorem readFallback_eq {fallback dst : List BackendKind}
    (found : v.get (str "fallback") =
      some (.array (fallback.map fun k => .string (backendName k)))) :
    readFallback v dst = fallback := by
  unfold readFallback
  rw [found]
  dsimp only
  rw [map_map]
  conv_rhs => rw [← map_id fallback]
  refine map_congr_left fun k _ => ?_
  cases k <;> decide

theorem fromJsonString_toJson (plain : PlainTexts c) : fromJsonString (toJson c) =
      hintFields (.object (entries c).reverse) (plainFields (.object (entries c).reverse)) := by
  unfold fromJsonString
  rw [parse_toJson plain]
  rfl

/-- **A configuration of plain texts and modes is read back.** -/
theorem roundTrips_of_plain (plain : PlainTexts c)
    (winograd : IsMode (c.hint hintWinograd modeAuto)) (quant : IsMode c.kvCacheQuantMode) :
    SameEmitted c (fromJsonString (toJson c)) := by
  have whole := fromJsonString_toJson plain
  have hints := hints_read c (plainFields (.object (entries c).reverse)) rfl
  have entry : ∀ (i : Nat) {k : Str} {v : JsonValue}, (entries c)[i]? = some (k, v) →
      (JsonValue.object (entries c).reverse).get k = some v := fun i _ _ here => entry_get i here
  generalize JsonValue.object (entries c).reverse = root at *
  obtain ⟨hs, only⟩ := hintFields_eq root (plainFields root)
  rw [whole, only]
  rw [only] at hints
  dsimp only at hints
  subst hints
  exact {
    backend := by
      refine (readName_eq (entry 0 rfl)).trans ?_
      cases c.backend <;> decide
    fallback := readFallback_eq (entry 1 rfl)
    allowCpuFallback := readB_eq (entry 2 rfl)
    precision := by
      refine (readName_eq (entry 3 rfl)).trans ?_
      cases c.precision <;> decide
    priority := by
      refine (readName_eq (entry 4 rfl)).trans ?_
      cases c.priority <;> decide
    maxSubmitNodes := readI_eq (entry 5 rfl)
    maxSubmitBindings := readI_eq (entry 6 rfl)
    decodeChainSteps := readI_eq (entry 7 rfl)
    cacheFile := readS_eq (entry 8 rfl)
    noCache := readB_eq (entry 9 rfl)
    tuning := by
      refine (readName_eq (entry 10 rfl)).trans ?_
      cases c.tuning <;> decide
    cpuThreads := readI_eq (entry 11 rfl)
    freeWeightsAfterUpload := readB_eq (entry 12 rfl)
    flatLayout := modeOf_eq_off c.flatLayout
    gpuIslandFold := modeOf_eq_off c.gpuIslandFold
    timing := readB_eq (entry 15 rfl)
    profile := readB_eq (entry 16 rfl)
    verbosity := readI_eq (entry 17 rfl)
    layerDump := readB_eq (entry 18 rfl)
    layerDumpDir := readS_eq (entry 19 rfl)
    debugSegments := readB_eq (entry 20 rfl)
    disableVkOps := readS_eq (entry 21 rfl)
    dumpTensors := readS_eq (entry 22 rfl)
    winograd := (winogradFromStr_winoStr _).mpr winograd
    winogradVariant := rfl
    winogradUnit := rfl
    directConv3x3 := rfl
    kvCacheQuant := (winogradFromStr_winoStr _).mpr quant }

/-! ## The text around the free strings -/

open ConfigText (Slot slotsText StartsLine Special Framed)

def linesText (fs : List (Str × Str)) : Str := fs.flatMap fun f => fieldLine f ++ [44, 10]

theorem lines_split (fs gs : List (Str × Str)) (some : gs ≠ []) :
    (str ",\n").intercalate ((fs ++ gs).map fieldLine) =
      linesText fs ++ (str ",\n").intercalate (gs.map fieldLine) := by
  induction fs with
  | nil => rfl
  | cons f fs ih =>
    obtain ⟨g, hs, rest⟩ := exists_cons_of_ne_nil (append_ne_nil_of_right_ne_nil fs some)
    have sep : str ",\n" = [44, 10] := rfl
    rw [linesText, flatMap_cons, ← linesText, append_assoc, ← ih, cons_append, rest,
      map_cons, map_cons, intercalate_cons_cons, append_assoc, ← sep,
      append_assoc]

/-- A free string in the text: behind some lines, and in front of the next one. -/
theorem lines_slot (fs : List (Str × Str)) (k t : Str) (gs : List (Str × Str)) (some : gs ≠ []) :
    (str ",\n").intercalate ((fs ++ (k, quoted t) :: gs).map fieldLine) =
      linesText fs ++ ([32, 32, 34] ++ k ++ [34, 58, 32, 34]) ++
        (t ++ ([34, 44, 10] ++ (str ",\n").intercalate (gs.map fieldLine))) := by
  obtain ⟨g, hs, rfl⟩ := exists_cons_of_ne_nil some
  rw [lines_split fs _ (cons_ne_nil _ _), map_cons, map_cons, intercalate_cons_cons]
  simp [fieldLine, quoted, str]

def fieldsBefore (c : Config) : List (Str × Str) := (fields c).take 8
def fieldsBetween (c : Config) : List (Str × Str) := ((fields c).drop 9).take 10
def fieldDebug (c : Config) : List (Str × Str) := ((fields c).drop 20).take 1
def fieldsAfter (c : Config) : List (Str × Str) := (fields c).drop 23

/-- The free strings, each with the lines in front of it. -/
def slots (c : Config) : List Slot := [
  ⟨[123, 10] ++ linesText (fieldsBefore c), str "cacheFile", c.cacheFile⟩,
  ⟨[34, 44, 10] ++ linesText (fieldsBetween c), str "layerDumpDir", c.layerDumpDir⟩,
  ⟨[34, 44, 10] ++ linesText (fieldDebug c), str "disableVkOps", c.disableVkOps⟩,
  ⟨[34, 44, 10] ++ linesText [], str "dumpTensors", c.dumpTensors⟩]

/-- What stands behind the last of them. -/
def afterSlots (c : Config) : Str :=
  [34, 44, 10] ++ (str ",\n").intercalate ((fieldsAfter c).map fieldLine) ++ str "\n\x7d\n"

theorem toJson_slots (c : Config) : toJson c = slotsText (slots c) (afterSlots c) := by
  have split : fields c = fieldsBefore c ++ (str "cacheFile", quoted c.cacheFile) ::
      (fieldsBetween c ++ (str "layerDumpDir", quoted c.layerDumpDir) ::
        (fieldDebug c ++ (str "disableVkOps", quoted c.disableVkOps) ::
          ([] ++ (str "dumpTensors", quoted c.dumpTensors) :: fieldsAfter c))) := rfl
  have brace : str "\x7b\n" = [123, 10] := rfl
  have after : fieldsAfter c ≠ [] := cons_ne_nil _ _
  unfold toJson
  rw [split, lines_slot _ _ _ _ (by simp), lines_slot _ _ _ _ (by simp),
    lines_slot _ _ _ _ (by simp), lines_slot _ _ _ _ after, brace]
  simp only [slots, slotsText, Slot.head, afterSlots, append_assoc]

def Slashless (fs : List (Str × Str)) : Prop := ∀ f ∈ fs, (92 : UInt8) ∉ fieldLine f

theorem slashless_line {t : Str} (key : (92 : UInt8) ∉ k) (text : (92 : UInt8) ∉ t) :
    (92 : UInt8) ∉ fieldLine (k, t) := by
  simp [fieldLine, str, key, text]

theorem slashless_quoted (key : (92 : UInt8) ∉ k) (text : (92 : UInt8) ∉ s) :
    (92 : UInt8) ∉ fieldLine (k, quoted s) :=
  slashless_line key (by simp [quoted, text])

theorem slashless_intStr (key : (92 : UInt8) ∉ k) (n : Int) :
    (92 : UInt8) ∉ fieldLine (k, intStr n) := by
  refine slashless_line key fun mem => ?_
  have numeric := isNumeric_of_mem_intStr mem
  revert numeric
  decide

theorem slashless_boolStr (key : (92 : UInt8) ∉ k) (b : Bool) :
    (92 : UInt8) ∉ fieldLine (k, boolStr b) :=
  slashless_line key (by cases b <;> decide)

theorem not_mem_intercalate {c : UInt8} {sep : Str} {xs : List Str} (apart : c ∉ sep)
    (each : ∀ x ∈ xs, c ∉ x) : c ∉ sep.intercalate xs := by
  cases xs with
  | nil => exact not_mem_nil
  | cons x xs =>
    rw [intercalate_cons, mem_append, mem_flatMap]
    rintro (first | ⟨y, mem, later⟩)
    · exact each x mem_cons_self first
    · rcases mem_append.mp later with inside | inside
      · exact apart inside
      · exact each y (mem_cons_of_mem _ mem) inside

theorem slashless_fallback (fallback : List BackendKind) :
    (92 : UInt8) ∉ fieldLine (str "fallback", fallbackStr fallback) := by
  refine slashless_line (by decide) ?_
  have inside : (92 : UInt8) ∉ (str ", ").intercalate (fallback.map fun k => quoted (backendName k)) := by
    refine not_mem_intercalate (by decide) fun x mem => ?_
    obtain ⟨k, -, rfl⟩ := mem_map.mp mem
    cases k <;> decide
  simp [fallbackStr, inside]

theorem slashless_fieldsBefore (c : Config) : Slashless (fieldsBefore c) := by
  refine forall_mem_cons.mpr ⟨slashless_quoted (by decide) (by cases c.backend <;> decide), ?_⟩
  refine forall_mem_cons.mpr ⟨slashless_fallback c.fallback, ?_⟩
  refine forall_mem_cons.mpr ⟨slashless_boolStr (by decide) _, ?_⟩
  refine forall_mem_cons.mpr ⟨slashless_quoted (by decide) (by cases c.precision <;> decide), ?_⟩
  refine forall_mem_cons.mpr ⟨slashless_quoted (by decide) (by cases c.priority <;> decide), ?_⟩
  refine forall_mem_cons.mpr ⟨slashless_intStr (by decide) _, ?_⟩
  refine forall_mem_cons.mpr ⟨slashless_intStr (by decide) _, ?_⟩
  exact forall_mem_cons.mpr ⟨slashless_intStr (by decide) _, forall_mem_nil _⟩

theorem slashless_fieldsBetween (c : Config) : Slashless (fieldsBetween c) := by
  refine forall_mem_cons.mpr ⟨slashless_boolStr (by decide) _, ?_⟩
  refine forall_mem_cons.mpr ⟨slashless_quoted (by decide) (by cases c.tuning <;> decide), ?_⟩
  refine forall_mem_cons.mpr ⟨slashless_intStr (by decide) _, ?_⟩
  refine forall_mem_cons.mpr ⟨slashless_boolStr (by decide) _, ?_⟩
  refine forall_mem_cons.mpr ⟨slashless_boolStr (by decide) _, ?_⟩
  refine forall_mem_cons.mpr ⟨slashless_boolStr (by decide) _, ?_⟩
  refine forall_mem_cons.mpr ⟨slashless_boolStr (by decide) _, ?_⟩
  refine forall_mem_cons.mpr ⟨slashless_boolStr (by decide) _, ?_⟩
  refine forall_mem_cons.mpr ⟨slashless_intStr (by decide) _, ?_⟩
  exact forall_mem_cons.mpr ⟨slashless_boolStr (by decide) _, forall_mem_nil _⟩

theorem slashless_fieldsAfter (c : Config) : Slashless (fieldsAfter c) := by
  have mode : ∀ w, (92 : UInt8) ∉ winoStr w := fun w => (plain_winoStr w).2
  refine forall_mem_cons.mpr ⟨slashless_quoted (by decide) (mode _), ?_⟩
  refine forall_mem_cons.mpr ⟨slashless_intStr (by decide) _, ?_⟩
  refine forall_mem_cons.mpr ⟨slashless_intStr (by decide) _, ?_⟩
  refine forall_mem_cons.mpr ⟨slashless_intStr (by decide) _, ?_⟩
  exact forall_mem_cons.mpr ⟨slashless_quoted (by decide) (mode _), forall_mem_nil _⟩

theorem slashless_linesText {fs : List (Str × Str)} (slashless : Slashless fs) :
    (92 : UInt8) ∉ linesText fs := by
  rw [linesText, mem_flatMap]
  rintro ⟨f, mem, inside⟩
  rcases mem_append.mp inside with inside | inside
  · exact slashless f mem inside
  · exact absurd inside (by decide)

theorem startsLine_slot (fs : List (Str × Str)) (k t : Str) (ps : List Slot) (last : Str) :
    StartsLine (slotsText (⟨[34, 44, 10] ++ linesText fs, k, t⟩ :: ps) last) := by
  cases fs with
  | nil => exact ⟨_, rfl⟩
  | cons f fs => exact ⟨_, rfl⟩

theorem startsLine_after (c : Config) : StartsLine (afterSlots c) := ⟨_, rfl⟩

theorem slots_framed (c : Config) : Framed (slots c) (afterSlots c) where
  before := by
    have before := slashless_linesText (slashless_fieldsBefore c)
    have between := slashless_linesText (slashless_fieldsBetween c)
    have debug : (92 : UInt8) ∉ linesText (fieldDebug c) := slashless_linesText
      (forall_mem_cons.mpr ⟨slashless_boolStr (by decide) _, forall_mem_nil _⟩)
    simp only [slots, forall_mem_cons, mem_append, not_or]
    refine ⟨⟨by decide, before⟩, ⟨by decide, between⟩, ⟨by decide, debug⟩, ⟨by decide, by decide⟩, ?_⟩
    exact forall_mem_nil _
  slash := by
    simp only [slots, forall_mem_cons]
    exact ⟨by decide, by decide, by decide, by decide, forall_mem_nil _⟩
  quote := by
    simp only [slots, forall_mem_cons]
    exact ⟨by decide, by decide, by decide, by decide, forall_mem_nil _⟩
  blank := by
    simp only [slots, forall_mem_cons]
    exact ⟨by decide, by decide, by decide, by decide, forall_mem_nil _⟩
  long := by
    simp only [slots, forall_mem_cons]
    exact ⟨by decide, by decide, by decide, by decide, forall_mem_nil _⟩
  foot := by
    have after : (92 : UInt8) ∉ (str ",\n").intercalate ((fieldsAfter c).map fieldLine) := by
      refine not_mem_intercalate (by decide) fun x mem => ?_
      obtain ⟨f, among, rfl⟩ := mem_map.mp mem
      exact slashless_fieldsAfter c f among
    rw [afterSlots, mem_append, mem_append]
    rintro ((start | inside) | ending)
    · exact absurd start (by decide)
    · exact after inside
    · exact absurd ending (by decide)
  lines := by
    intro pre p post split
    rcases pre with - | ⟨a, - | ⟨b, - | ⟨d, - | ⟨e, pre⟩⟩⟩⟩
    · cases split
      exact startsLine_slot _ _ _ _ _
    · cases split
      exact startsLine_slot _ _ _ _ _
    · cases split
      exact startsLine_slot _ _ _ _ _
    · cases split
      exact startsLine_after c
    · have impossible := congrArg List.length split
      simp [slots] at impossible

/-! ## The round trip -/

theorem texts_read (json : Str) :
    (fromJsonString json).cacheFile = readS (parse json) (str "cacheFile") [] ∧
    (fromJsonString json).layerDumpDir = readS (parse json) (str "layerDumpDir") (str "vknn_dump") ∧
    (fromJsonString json).disableVkOps = readS (parse json) (str "disableVkOps") [] ∧
    (fromJsonString json).dumpTensors = readS (parse json) (str "dumpTensors") [] := by
  unfold fromJsonString
  split
  · obtain ⟨hs, only⟩ := hintFields_eq (parse json) (plainFields (parse json))
    rw [fromObject, only]
    exact ⟨rfl, rfl, rfl, rfl⟩
  · rename_i kind
    have none : ∀ k, (parse json).get k = none := by
      intro k
      cases value : parse json with
      | object obj =>
        rw [value] at kind
        exact absurd rfl kind
      | _ => rfl
    simp [readS, none]

/-- A string that is read and is not the default is in the text. -/
theorem get_of_readS (read : readS v k dst = s) (other : dst ≠ s) : v.get k = some (.string s) := by
  unfold readS at read
  split at read
  · rename_i j found
    rw [found]
    cases j with
    | string t => rw [← read]; rfl
    | _ => exact absurd read other
  · exact absurd read other

/-- **Where the free strings are read back, they are plain.** -/
theorem plain_of_roundTrips (same : SameEmitted c (fromJsonString (toJson c))) : PlainTexts c := by
  obtain ⟨cacheFile, layerDumpDir, disableVkOps, dumpTensors⟩ := texts_read (toJson c)
  rw [same.cacheFile] at cacheFile
  rw [same.layerDumpDir] at layerDumpDir
  rw [same.disableVkOps] at disableVkOps
  rw [same.dumpTensors] at dumpTensors
  have closed : (toJson c).getLast? ≠ some 92 := by
    have last : (str "\n\x7d\n").getLast? = some 10 := by decide
    unfold toJson
    rw [getLast?_append, last, Option.some_or]
    decide
  have entry : ∀ {k s dst : Str}, k ≠ [] → Plain dst → s = readS (parse (toJson c)) k dst →
      Special s → StringEntry (slotsText (slots c) (afterSlots c)) k s := by
    intro k s dst named plain read special
    rw [← toJson_slots]
    refine parse_string closed named (get_of_readS read.symm ?_)
    rintro rfl
    exact plain_iff.mp plain special
  have distinct : ((slots c).map Slot.name).Nodup :=
    show [str "cacheFile", str "layerDumpDir", str "disableVkOps", str "dumpTensors"].Nodup by decide
  have plain := ConfigText.no_special (slots_framed c)
    (fun p mem q among name =>
      congrArg Slot.text (inj_on_of_nodup_map distinct mem among name))
    (by
      simp only [slots, forall_mem_cons]
      refine ⟨entry (by decide) (by decide) cacheFile, entry (by decide) (by decide) layerDumpDir,
        entry (by decide) (by decide) disableVkOps, entry (by decide) (by decide) dumpTensors, ?_⟩
      exact forall_mem_nil _)
  simp only [slots, forall_mem_cons, ← plain_iff] at plain
  exact ⟨plain.1, plain.2.1, plain.2.2.1, plain.2.2.2.1⟩

/-- **When the round trip of a configuration holds**: the four free strings have no quote and no
backslash, and the hints with three modes are one of the three. -/
theorem configRoundTrips_iff (c : Config) : SameEmitted c (fromJsonString (toJson c)) ↔
      (Plain c.cacheFile ∧ Plain c.layerDumpDir ∧ Plain c.disableVkOps ∧ Plain c.dumpTensors) ∧
      IsMode (c.hint hintWinograd modeAuto) ∧ IsMode c.kvCacheQuantMode := by
  constructor
  · intro same
    have plain := plain_of_roundTrips same
    have hints := hints_read c (plainFields (.object (entries c).reverse)) rfl
    have winograd := same.winograd
    have quant := same.kvCacheQuant
    rw [fromJsonString_toJson plain, Config.hint, hints] at winograd
    rw [fromJsonString_toJson plain, Config.kvCacheQuantMode, Config.hint, hints] at quant
    refine ⟨⟨plain.cacheFile, plain.layerDumpDir, plain.disableVkOps, plain.dumpTensors⟩, ?_, ?_⟩
    · exact (winogradFromStr_winoStr _).mp winograd
    · exact (winogradFromStr_winoStr _).mp quant
  · rintro ⟨⟨cacheFile, layerDumpDir, disableVkOps, dumpTensors⟩, winograd, quant⟩
    exact roundTrips_of_plain ⟨cacheFile, layerDumpDir, disableVkOps, dumpTensors⟩ winograd quant

/-- A path with backslashes is read back without them. -/
theorem roundTrip_loses_backslash : ¬ ∀ c : Config, SameEmitted c (fromJsonString (toJson c)) := by
  intro all
  have same := (all { cacheFile := str "C:\\cache.bin" }).cacheFile
  revert same
  decide +kernel

end Vknn.ConfigJson
