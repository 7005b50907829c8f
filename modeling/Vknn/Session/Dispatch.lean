import Vknn.Session.Bind

/-!
# Choosing a plan

A session with several plans finds the one a run is for by a key: the text of the
names and shapes of a plan's inputs.  The key of a plan is built from its planned
shapes; the key of a run is built from the shapes the caller gives, and adopts a
planned shape where the caller gives none.

The key reads the first entry that names an input and has a shape.  Binding goes
by its own rule: entries are bound in order under a looser check, so the last one
stays.  The main result says when the two agree, and that keys tell plans with
different planned inputs apart as long as no name spells out a part of a key.
-/

namespace Vknn.Session

open List

/-! ## Keys -/

/-- The text of a list of named shapes: name, equals sign and shape, between semicolons. -/
abbrev keyText (entries : List (Str × Shape)) : Str := Delimited.text 61 59 shapeStr entries

def inputNames (g : Graph) : List Str := g.inputs.map fun id => (g.desc id).name

/-- The named shapes a graph is planned for. -/
def plannedInputs (g : Graph) : List (Str × Shape) :=
  g.inputs.map fun id => ((g.desc id).name, (g.desc id).shape)

def shapeKey (g : Graph) : Str := keyText (plannedInputs g)

/-- Whether the sole entry of a run stands for the sole input of a graph. -/
def positional (g : Graph) (inputs : List IOTensor) (allowPositional : Bool) : Bool :=
  match g.inputs, inputs with
  | [_], [io] => allowPositional || io.name.isEmpty
  | _, _ => false

/-- The shape a run gives an input: that of the first entry for it that has one, else the
planned one. -/
def wantedShape (d : TensorDesc) (inputs : List IOTensor) (singleBind : Bool) : Shape :=
  match inputs.find? fun io => (io.name = d.name || singleBind) && !io.shape.isEmpty with
  | some io => io.shape
  | none => d.shape

/-- The shapes a run gives the inputs of a graph. -/
def wantedShapes (g : Graph) (inputs : List IOTensor) (allowPositional : Bool) : List Shape :=
  g.inputs.map fun id => wantedShape (g.desc id) inputs (positional g inputs allowPositional)

/-- The key of a run over the inputs of a graph. -/
def runShapeKey (g : Graph) (inputs : List IOTensor) (allowPositional : Bool) : Str :=
  keyText ((inputNames g).zip (wantedShapes g inputs allowPositional))

/-! ## Selection -/

/-- Whether every plan exposes the input names of the first, in the same order. -/
def bucketsShareInputNames : List PlanBucket → Bool
  | [] => true
  | b0 :: rest => rest.all fun b => inputNames b.graph = inputNames b0.graph

/-- Whether every named entry of a run is an input of a graph. -/
def runInputsBind (g : Graph) (inputs : List IOTensor) (allowPositional : Bool) : Bool :=
  let singleBind := g.inputs.length = 1 && inputs.length = 1
  inputs.all fun io =>
    io.name.isEmpty || (inputNames g).contains io.name || (singleBind && allowPositional)

/-- Whether some entry of a run binds an input of a graph. -/
def runBindsAny (g : Graph) (inputs : List IOTensor) : Bool :=
  positional g inputs false ||
    inputs.any fun io => !io.name.isEmpty && (inputNames g).contains io.name

def selectBucket (s : Session) (inputs : List IOTensor) : Option Nat :=
  if s.buckets.length ≤ 1 then some 0
  else if bucketsShareInputNames s.buckets then
    match s.buckets with
    | [] => none
    | b0 :: _ => s.buckets.findIdx? fun b => b.key = runShapeKey b0.graph inputs true
  else
    s.buckets.findIdx? fun b =>
      runInputsBind b.graph inputs false && runBindsAny b.graph inputs &&
        b.key = runShapeKey b.graph inputs false

/-- Whether a link feeds a tensor of a plan. -/
def linkedInput (s : Session) (bucket : Nat) (id : TensorId) : Bool :=
  s.links.any fun link => link.bucket = bucket && link.inId = id

/-- A run selects a plan, and its entries are all bound there. -/
structure Dispatched (decode : DType → List UInt8 → Float32Bits) (s : Session)
    (inputs : List IOTensor) (i : Nat) (b : PlanBucket) (pool : Pool) : Prop where
  selected : selectBucket s inputs = some i
  plan : s.buckets[i]? = some b
  bound : bindInputs decode b (s.linkedInput i) inputs (clearFds b.graph.inputs b.pool) =
    (.ok, pool)

/-- Each plan is found by the key of its own graph. -/
def Keyed (s : Session) : Prop := ∀ b ∈ s.buckets, b.key = shapeKey b.graph

/-- Every input of a plan has the shape it was planned for. -/
def ShapesPlanned (b : PlanBucket) (pool : Pool) : Prop :=
  ∀ id ∈ b.graph.inputs, (pool id).shape = (b.graph.desc id).shape

/-! ## Plans as they are built -/

/-- A freshly built plan: its key is that of its graph, each runtime tensor has the shape of its
descriptor, and the storage of a constant where the host holds one. -/
def buildBucket (cfg : Config) (g : Graph) (segments : List CompiledSegment)
    (constants : Std.ExtTreeMap TensorId (DType × HostBuffer)) : PlanBucket where
  key := shapeKey g
  graph := g
  segments := segments
  ioGpuConvert := cfg.backend ≠ .cpu && segments.all fun seg => seg.backend ≠ .cpu
  pool := fun id =>
    match constants[id]? with
    | some (dtype, host) => { shape := (g.desc id).shape, dtype, host, hostValid := true }
    | none => { shape := (g.desc id).shape, dtype := (g.desc id).dtype }

theorem keyed_opened {cfg : Config} {buckets : List PlanBucket}
    (built : ∀ b ∈ buckets, ∃ g segments constants, b = buildBucket cfg g segments constants) :
    Keyed (opened cfg buckets) := by
  intro b mem
  obtain ⟨g, segments, constants, rfl⟩ := built b mem
  rfl

/-! ## Keys tell plans apart -/

theorem text_injective_of_sameNames {entries entries' : List (Str × Shape)}
    (names : entries.map Prod.fst = entries'.map Prod.fst)
    (same : keyText entries = keyText entries') : entries = entries' :=
  Delimited.text_injective_of_labels prefixFree_shapeStr names same

theorem map_fst_plannedInputs (g : Graph) : (plannedInputs g).map Prod.fst = inputNames g := by
  rw [plannedInputs, map_map]
  rfl

theorem map_snd_plannedInputs (g : Graph) :
    (plannedInputs g).map Prod.snd = g.inputs.map fun id => (g.desc id).shape := by
  rw [plannedInputs, map_map]
  rfl

/-- A name that spells out no part of a key: an equals sign, a shape and a semicolon. -/
abbrev PlainName (name : Str) : Prop := Delimited.Plain 61 59 shapeStr name

/-- **Plans with different planned inputs have different keys**, if they expose the same names or
if their names are plain. -/
theorem shapeKey_injective {g g' : Graph}
    (readable : inputNames g = inputNames g' ∨
      ∀ name ∈ inputNames g ++ inputNames g', PlainName name)
    (same : shapeKey g = shapeKey g') : plannedInputs g = plannedInputs g' := by
  rcases readable with names | plain
  · refine text_injective_of_sameNames ?_ same
    rw [map_fst_plannedInputs, map_fst_plannedInputs, names]
  · have plainOf : ∀ h : Graph, (∀ name ∈ inputNames h, PlainName name) →
        ∀ e ∈ plannedInputs h, PlainName e.1 := by
      intro h plain e mem
      refine plain e.1 ?_
      rw [← map_fst_plannedInputs]
      exact mem_map_of_mem mem
    exact Delimited.text_injective_of_plain prefixFree_shapeStr (by decide) shapeStr_unmarked
      (plainOf g fun name mem => plain name (mem_append_left _ mem))
      (plainOf g' fun name mem => plain name (mem_append_right _ mem)) same

/-! ## What a selection says about the shapes -/

/-- The graph whose inputs the key of a run is built over: the first plan's where all plans
expose its names, else the plan's own. -/
def keyGraph (s : Session) (b : PlanBucket) : Graph :=
  if bucketsShareInputNames s.buckets then (s.buckets.headD b).graph else b.graph

/-- The shapes the key of a run gives the inputs of a plan. -/
def keyedShapes (s : Session) (b : PlanBucket) (inputs : List IOTensor) : List Shape :=
  wantedShapes (keyGraph s b) inputs (bucketsShareInputNames s.buckets)

variable {s : Session} {b : PlanBucket}

theorem inputNames_keyGraph (mem : b ∈ s.buckets) :
    inputNames (keyGraph s b) = inputNames b.graph := by
  unfold keyGraph
  split
  · rename_i shared
    cases buckets : s.buckets with
    | nil => rfl
    | cons b0 rest =>
      rw [buckets] at shared mem
      rcases mem_cons.mp mem with rfl | later
      · rfl
      · have same := all_eq_true.mp shared b later
        exact (of_decide_eq_true same).symm
  · rfl

/-- **A selected plan is planned for the shapes of the key.** -/
theorem keyedShapes_of_selected {inputs : List IOTensor} {i : Nat}
    (multi : 1 < s.buckets.length) (keyed : Keyed s) (selected : selectBucket s inputs = some i)
    (plan : s.buckets[i]? = some b) :
    keyedShapes s b inputs = b.graph.inputs.map fun id => (b.graph.desc id).shape := by
  have mem := mem_of_getElem? plan
  have matched : b.key = runShapeKey (keyGraph s b) inputs (bucketsShareInputNames s.buckets) := by
    rw [selectBucket, if_neg (not_le.mpr multi)] at selected
    split at selected
    · rename_i shared
      rw [keyGraph, shared, if_pos rfl]
      cases buckets : s.buckets with
      | nil =>
        rw [buckets] at multi
        cases multi
      | cons b0 rest =>
        rw [buckets] at selected plan
        obtain ⟨small, holds, _⟩ := findIdx?_eq_some_iff_getElem.mp selected
        rw [getElem?_eq_getElem small] at plan
        obtain rfl := Option.some.inj plan
        exact of_decide_eq_true holds
    · rename_i apart
      rw [Bool.not_eq_true] at apart
      rw [keyGraph, apart, if_neg Bool.false_ne_true]
      obtain ⟨small, holds, _⟩ := findIdx?_eq_some_iff_getElem.mp selected
      rw [getElem?_eq_getElem small] at plan
      obtain rfl := Option.some.inj plan
      rw [Bool.and_eq_true] at holds
      exact of_decide_eq_true holds.2
  have lengths : (inputNames (keyGraph s b)).length = (keyedShapes s b inputs).length := by
    simp [inputNames, keyedShapes, wantedShapes]
  have texts : keyText (plannedInputs b.graph) =
      keyText ((inputNames (keyGraph s b)).zip (keyedShapes s b inputs)) := by
    rw [← shapeKey, ← keyed b mem, matched]
    rfl
  have entries := text_injective_of_sameNames (by
    rw [map_fst_plannedInputs, map_fst_zip lengths.le, inputNames_keyGraph mem]) texts
  rw [← map_snd_plannedInputs, entries, map_snd_zip lengths.ge]

/-! ## When a dispatched run is sound -/

/-- The entries of a run agree with its key on a plan: the last entry bound to an input has no
shape or the shape in the key, and an input no entry is bound to still has its planned shape. -/
def Agreeing (s : Session) (b : PlanBucket) (inputs : List IOTensor) : Prop :=
  ∀ e ∈ b.graph.inputs.zip (keyedShapes s b inputs),
    match lastEntry b.graph inputs e.1 with
    | some io => io.shape = [] ∨ io.shape = e.2
    | none => (b.pool e.1).shape = (b.graph.desc e.1).shape

theorem boundShape_eq_iff (g : Graph) (id : TensorId) (io : IOTensor) :
    boundShape g id io = (g.desc id).shape ↔ io.shape = [] ∨ io.shape = (g.desc id).shape := by
  unfold boundShape
  cases shape : io.shape with
  | nil => simp
  | cons d s => simp

theorem shape_clearFds (ids : List TensorId) (pool : Pool) (id : TensorId) :
    (clearFds ids pool id).shape = (pool id).shape := by
  unfold clearFds
  split
  · rfl
  · rfl

/-- **A dispatched run binds the planned shapes exactly when its entries agree with its key.** -/
theorem shapesPlanned_iff {decode : DType → List UInt8 → Float32Bits}
    {inputs : List IOTensor} {i : Nat} {pool : Pool}
    (multi : 1 < s.buckets.length) (keyed : Keyed s)
    (dispatched : Dispatched decode s inputs i b pool) :
    ShapesPlanned b pool ↔ Agreeing s b inputs := by
  have bound : (bindInputs decode b (s.linkedInput i) inputs
      (clearFds b.graph.inputs b.pool)).1 = .ok := by rw [dispatched.bound]
  have shapes : ∀ id, (pool id).shape = match lastEntry b.graph inputs id with
      | some io => boundShape b.graph id io
      | none => (b.pool id).shape := by
    intro id
    have left := shape_bindInputs decode b (s.linkedInput i) id inputs _ bound
    rw [dispatched.bound, shape_clearFds] at left
    exact left
  have pairs : b.graph.inputs.zip (keyedShapes s b inputs) =
      b.graph.inputs.map fun id => (id, (b.graph.desc id).shape) := by
    rw [keyedShapes_of_selected multi keyed dispatched.selected dispatched.plan]
    simpa using zip_map' (f := id) (g := fun id => (b.graph.desc id).shape)
      (l := b.graph.inputs)
  unfold ShapesPlanned Agreeing
  rw [pairs, forall_mem_map]
  refine forall₂_congr fun id _ => ?_
  rw [shapes]
  cases lastEntry b.graph inputs id with
  | none => rfl
  | some io => exact boundShape_eq_iff b.graph id io

/-- **Dispatch is sound for the runs whose entries agree with their key, and for no others; and
plans with different planned inputs have different keys** where the names are the same or
plain. -/
theorem dispatch_sound_iff (decode : DType → List UInt8 → Float32Bits) {s : Session}
    (multi : 1 < s.buckets.length) (keyed : Keyed s) :
    (∀ inputs i b pool, Dispatched decode s inputs i b pool →
      (ShapesPlanned b pool ↔ Agreeing s b inputs)) ∧
    ∀ b ∈ s.buckets, ∀ b' ∈ s.buckets,
      (inputNames b.graph = inputNames b'.graph ∨
        ∀ name ∈ inputNames b.graph ++ inputNames b'.graph, PlainName name) →
      plannedInputs b.graph ≠ plannedInputs b'.graph → b.key ≠ b'.key := by
  refine ⟨fun inputs i b pool dispatched => shapesPlanned_iff multi keyed dispatched, ?_⟩
  intro b mem b' mem' readable differ same
  rw [keyed b mem, keyed b' mem'] at same
  exact differ (shapeKey_injective readable same)

/-! ## A run that binds another shape -/

/-- Dispatch is sound: a dispatched run binds the planned shapes, and plans with different
planned inputs have different keys. -/
def DispatchSound (decode : DType → List UInt8 → Float32Bits) (s : Session) : Prop :=
  (∀ inputs i b pool, Dispatched decode s inputs i b pool → ShapesPlanned b pool) ∧
  ∀ b ∈ s.buckets, ∀ b' ∈ s.buckets,
    plannedInputs b.graph ≠ plannedInputs b'.graph → b.key ≠ b'.key

def oneInput (shape : Shape) : Graph where
  tensors := [{ name := str "x", shape, isInput := true }]
  tensorByName := (∅ : Std.ExtTreeMap Str TensorId).insert (str "x") 0
  inputs := [0]

def onHost : Config := { backend := .cpu }

/-- A host session with one graph at two channel counts. -/
def twoSizes : Session :=
  opened onHost
    [buildBucket onHost (oneInput [1, 1, 2, 2]) [] ∅,
      buildBucket onHost (oneInput [1, 8, 2, 2]) [] ∅]

theorem keyed_twoSizes : Keyed twoSizes := by
  refine keyed_opened fun b mem => ?_
  rcases mem_cons.mp mem with rfl | later
  · exact ⟨_, _, _, rfl⟩
  · obtain rfl := mem_singleton.mp later
    exact ⟨_, _, _, rfl⟩

theorem dispatch_twoSizes :
    (∀ inputs i b pool, Dispatched (fun _ _ => ⟨0⟩) twoSizes inputs i b pool →
      (ShapesPlanned b pool ↔ Agreeing twoSizes b inputs)) ∧
    ∀ b ∈ twoSizes.buckets, ∀ b' ∈ twoSizes.buckets,
      (inputNames b.graph = inputNames b'.graph ∨
        ∀ name ∈ inputNames b.graph ++ inputNames b'.graph, PlainName name) →
      plannedInputs b.graph ≠ plannedInputs b'.graph → b.key ≠ b'.key :=
  dispatch_sound_iff (fun _ _ => ⟨0⟩) (by decide) keyed_twoSizes

/-- Two entries for one input: the shape of a plan, then another of the same padded size. -/
def doubledEntry : List IOTensor :=
  [{ name := str "x", shape := [1, 1, 2, 2] }, { name := str "x", shape := [1, 2, 2, 2] }]

/-- **The second entry replaces the shape the key was built from.** -/
theorem doubledEntry_unsound : ¬ DispatchSound (fun _ _ => ⟨0⟩) twoSizes := by
  intro sound
  have first : twoSizes.buckets[0]? = some (buildBucket onHost (oneInput [1, 1, 2, 2]) [] ∅) := rfl
  have bound : (bindInputs (fun _ _ => ⟨0⟩) (buildBucket onHost (oneInput [1, 1, 2, 2]) [] ∅)
      (twoSizes.linkedInput 0) doubledEntry
      (clearFds [0] (buildBucket onHost (oneInput [1, 1, 2, 2]) [] ∅).pool)).1 = .ok := by
    decide
  have planned := sound.1 doubledEntry 0 _ _
    ⟨by decide, first, Prod.ext bound rfl⟩ 0 mem_cons_self
  exact absurd planned (by decide)

end Vknn.Session
