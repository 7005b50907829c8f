import Vknn.Core.Json
import Vknn.Session.State

/-!
# Configurations as text

The writer prints a configuration as a JSON object, one line for each field; the reader lays
the keys it finds over the defaults.  Conv and GPU-pass knobs live in a vector of hints that
grows when a hint is set; the writer prints what they resolve to.

Strings are printed between quotes as they are.
-/

namespace Vknn.ConfigJson

/-! ## Knobs -/

inductive Precision where
  | low | normal | high
deriving DecidableEq, Repr

inductive Priority where
  | low | normal | high
deriving DecidableEq, Repr

inductive Tuning where
  | none | fast | heavy
deriving DecidableEq, Repr

abbrev CInt := {n : Int // -2 ^ 31 ≤ n ∧ n < 2 ^ 31}

/-- A double-precision number cut to a 32-bit integer.  Where it does not fit the source says nothing,
and the least integer is what the usual hardware gives. -/
def toCInt (x : ℚ) : CInt :=
  let n := if 0 ≤ x then ⌊x⌋ else ⌈x⌉
  if fits : -2 ^ 31 ≤ n ∧ n < 2 ^ 31 then ⟨n, fits⟩ else ⟨-2 ^ 31, by decide⟩

def hintWinograd : Nat := 0
def hintWinogradVariant : Nat := 1
def hintWinogradUnit : Nat := 2
def hintDirectConv3x3 : Nat := 3
def hintFlatLayout : Nat := 4
def hintGpuIslandFold : Nat := 5
def hintKvCacheQuant : Nat := 12

/-- The values of the hints with three modes. -/
def modeAuto : CInt := ⟨0, by decide⟩
def modeOn : CInt := ⟨1, by decide⟩
def modeOff : CInt := ⟨2, by decide⟩

/-- A configuration, with the fields that are written. -/
structure Config where
  backend : BackendKind := .vulkan
  fallback : List BackendKind := [.cpu]
  allowCpuFallback : Bool := true
  precision : Precision := .low
  priority : Priority := .normal
  maxSubmitNodes : CInt := ⟨500, by decide⟩
  maxSubmitBindings : CInt := ⟨1024, by decide⟩
  decodeChainSteps : CInt := ⟨1, by decide⟩
  cacheFile : Str := []
  noCache : Bool := false
  tuning : Tuning := .fast
  cpuThreads : CInt := ⟨4, by decide⟩
  freeWeightsAfterUpload : Bool := true
  timing : Bool := false
  profile : Bool := false
  verbosity : CInt := ⟨1, by decide⟩
  layerDump : Bool := false
  layerDumpDir : Str := str "vknn_dump"
  debugSegments : Bool := false
  disableVkOps : Str := []
  dumpTensors : Str := []
  hints : List CInt := []
deriving DecidableEq

namespace Config

/-- Set a hint, after growing the vector with zeros if needed. -/
def setHint (c : Config) (h : Nat) (value : CInt) : Config :=
  let grown := if c.hints.length ≤ h then
    c.hints ++ List.replicate (h + 1 - c.hints.length) modeAuto else c.hints
  { c with hints := grown.set h value }

/-- A hint, or the given value where it was never set. -/
def hint (c : Config) (h : Nat) (dflt : CInt) : CInt := c.hints.getD h dflt

def flatLayout (c : Config) : Bool := c.hint hintFlatLayout modeOn ≠ modeOff

def gpuIslandFold (c : Config) : Bool := c.hint hintGpuIslandFold modeOn ≠ modeOff

def kvCacheQuantMode (c : Config) : CInt := c.hint hintKvCacheQuant modeOff

end Config

/-! ## Names -/

def backendName : BackendKind → Str
  | .vulkan => str "VULKAN"
  | .cpu => str "CPU"

def backendFromStr (s : Str) : BackendKind :=
  if s = str "VULKAN" ∨ s = str "vulkan" then .vulkan else .cpu

def precStr : Precision → Str
  | .normal => str "normal"
  | .high => str "high"
  | .low => str "low"

def precisionFromStr (s : Str) : Precision :=
  if s = str "low" ∨ s = str "fp16" ∨ s = str "FP16" then .low
  else if s = str "normal" ∨ s = str "mixed" then .normal
  else if s = str "high" ∨ s = str "fp32" ∨ s = str "FP32" then .high
  else .low

def priorityStr : Priority → Str
  | .low => str "low"
  | .high => str "high"
  | .normal => str "normal"

def priorityFromStr (s : Str) : Priority :=
  if s = str "low" then .low else if s = str "high" then .high else .normal

def tuningStr : Tuning → Str
  | .none => str "none"
  | .heavy => str "heavy"
  | .fast => str "fast"

def tuningFromStr (s : Str) : Tuning :=
  if s = str "none" ∨ s = str "off" then .none
  else if s = str "heavy" ∨ s = str "thorough" then .heavy
  else .fast

def winoStr (w : CInt) : Str :=
  if w = modeOn then str "on" else if w = modeOff then str "off" else str "auto"

def winogradFromStr (s : Str) : CInt :=
  if s = str "on" then modeOn else if s = str "off" then modeOff else modeAuto

/-! ## Writing -/

def quoted (s : Str) : Str := 34 :: (s ++ [34])

def boolStr (b : Bool) : Str := if b then str "true" else str "false"

def fallbackStr (fallback : List BackendKind) : Str :=
  91 :: ((str ", ").intercalate (fallback.map fun k => quoted (backendName k)) ++ [93])

/-- The fields that are written: key and text. -/
def fields (c : Config) : List (Str × Str) := [
  (str "backend", quoted (backendName c.backend)),
  (str "fallback", fallbackStr c.fallback),
  (str "allowCpuFallback", boolStr c.allowCpuFallback),
  (str "precision", quoted (precStr c.precision)),
  (str "priority", quoted (priorityStr c.priority)),
  (str "maxSubmitNodes", intStr c.maxSubmitNodes.val),
  (str "maxSubmitBindings", intStr c.maxSubmitBindings.val),
  (str "decodeChainSteps", intStr c.decodeChainSteps.val),
  (str "cacheFile", quoted c.cacheFile),
  (str "noCache", boolStr c.noCache),
  (str "tuning", quoted (tuningStr c.tuning)),
  (str "cpuThreads", intStr c.cpuThreads.val),
  (str "freeWeightsAfterUpload", boolStr c.freeWeightsAfterUpload),
  (str "flatLayout", boolStr c.flatLayout),
  (str "gpuIslandFold", boolStr c.gpuIslandFold),
  (str "timing", boolStr c.timing),
  (str "profile", boolStr c.profile),
  (str "verbosity", intStr c.verbosity.val),
  (str "layerDump", boolStr c.layerDump),
  (str "layerDumpDir", quoted c.layerDumpDir),
  (str "debugSegments", boolStr c.debugSegments),
  (str "disableVkOps", quoted c.disableVkOps),
  (str "dumpTensors", quoted c.dumpTensors),
  (str "winograd", quoted (winoStr (c.hint hintWinograd modeAuto))),
  (str "winogradVariant", intStr (c.hint hintWinogradVariant modeAuto).val),
  (str "winogradUnit", intStr (c.hint hintWinogradUnit modeAuto).val),
  (str "directConv3x3", intStr (c.hint hintDirectConv3x3 modeAuto).val),
  (str "kvCacheQuant", quoted (winoStr c.kvCacheQuantMode))]

/-- The line of a field, without what ends it. -/
def fieldLine (f : Str × Str) : Str := str "  \"" ++ f.1 ++ str "\": " ++ f.2

def toJson (c : Config) : Str :=
  str "\x7b\n" ++ (str ",\n").intercalate ((fields c).map fieldLine) ++ str "\n\x7d\n"

/-! ## Reading -/

section Reading

variable (v : JsonValue)

/-- A string, a truth value, an integer under a key, or else what is there. -/
def readS (k : Str) (dst : Str) : Str :=
  match v.get k with
  | some j => j.asStr dst
  | none => dst

def readB (k : Str) (dst : Bool) : Bool :=
  match v.get k with
  | some j => j.asBool dst
  | none => dst

def readI (k : Str) (dst : CInt) : CInt :=
  match v.get k with
  | some j => toCInt (j.asNum (dst.val : ℚ))
  | none => dst

def readFallback (dst : List BackendKind) : List BackendKind :=
  match v.get (str "fallback") with
  | some (.array arr) => arr.map fun e => backendFromStr (e.asStr [])
  | some _ => []
  | none => dst

/-- Set a hint from the value under a key, if there is one. -/
def setFrom (k : Str) (h : Nat) (mode : JsonValue → CInt) (c : Config) : Config :=
  match v.get k with
  | some j => c.setHint h (mode j)
  | none => c

def onOff (d : Bool) (j : JsonValue) : CInt := if j.asBool d then modeOn else modeOff

def setAll (c : Config) : Config :=
  match v.get (str "hints") with
  | some (.array arr) => (arr.zipIdx).foldl (fun c e => c.setHint e.2 (toCInt (e.1.asNum 0))) c
  | _ => c

/-- The fields of an object, laid over the defaults. -/
def plainFields : Config :=
  let d : Config := {}
  { backend := match v.get (str "backend") with
      | some j => backendFromStr (j.asStr (str "VULKAN"))
      | none => d.backend
    fallback := readFallback v d.fallback
    allowCpuFallback := readB v (str "allowCpuFallback") d.allowCpuFallback
    precision := match v.get (str "precision") with
      | some j => precisionFromStr (j.asStr (str "fp16"))
      | none => d.precision
    priority := match v.get (str "priority") with
      | some j => priorityFromStr (j.asStr (str "normal"))
      | none => d.priority
    maxSubmitNodes := readI v (str "maxSubmitNodes") d.maxSubmitNodes
    maxSubmitBindings := readI v (str "maxSubmitBindings") d.maxSubmitBindings
    decodeChainSteps := readI v (str "decodeChainSteps") d.decodeChainSteps
    cacheFile := readS v (str "cacheFile") d.cacheFile
    noCache := readB v (str "noCache") d.noCache
    tuning := match v.get (str "tuning") with
      | some j => tuningFromStr (j.asStr (str "fast"))
      | none => d.tuning
    cpuThreads := readI v (str "cpuThreads") d.cpuThreads
    freeWeightsAfterUpload := readB v (str "freeWeightsAfterUpload") d.freeWeightsAfterUpload
    timing := readB v (str "timing") d.timing
    profile := readB v (str "profile") d.profile
    verbosity := readI v (str "verbosity") d.verbosity
    layerDump := readB v (str "layerDump") d.layerDump
    layerDumpDir := readS v (str "layerDumpDir") d.layerDumpDir
    debugSegments := readB v (str "debugSegments") d.debugSegments
    disableVkOps := readS v (str "disableVkOps") d.disableVkOps
    dumpTensors := readS v (str "dumpTensors") d.dumpTensors }

/-- The hints of an object, each under its own key or in one list. -/
def hintFields (c : Config) : Config :=
  let c := setFrom v (str "flatLayout") hintFlatLayout (onOff true) c
  let c := setFrom v (str "noFlatOps") hintFlatLayout
    (fun j => if j.asBool false then modeOff else modeOn) c
  let c := setFrom v (str "gpuIslandFold") hintGpuIslandFold (onOff true) c
  let c := setFrom v (str "foldGpuIslands") hintGpuIslandFold (onOff true) c
  let c := setAll v c
  let c := setFrom v (str "winograd") hintWinograd
    (fun j => winogradFromStr (j.asStr (str "auto"))) c
  let c := setFrom v (str "winogradVariant") hintWinogradVariant (fun j => toCInt (j.asNum 0)) c
  let c := setFrom v (str "winogradUnit") hintWinogradUnit (fun j => toCInt (j.asNum 0)) c
  let c := setFrom v (str "directConv3x3") hintDirectConv3x3 (fun j => toCInt (j.asNum 0)) c
  setFrom v (str "kvCacheQuant") hintKvCacheQuant
    (fun j => winogradFromStr (j.asStr (str "auto"))) c

def fromObject : Config := hintFields v (plainFields v)

end Reading

/-- The configuration a text stands for. -/
def fromJsonString (json : Str) : Config :=
  if (JsonParser.parse json).isObject then fromObject (JsonParser.parse json) else {}

end Vknn.ConfigJson
