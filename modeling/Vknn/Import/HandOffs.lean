import Vknn.Import.FuseBucketBoundaries
import Vknn.Import.OnnxWalk

/-!
# What a merged graph takes in

Whether two graphs are chained depends on what one offers under a name and what the other
takes in under it.  A merge takes the hand-off away from what the consumer takes in, adds
the inputs of the producer, and hides every name that another tensor of the producer has.
-/

namespace Vknn.Import.BucketFusion

open List Function

/-! ## Names of a graph -/

/-- The shape of what a graph takes in under a name. -/
def taken (g : Graph) (x : Str) : Option Shape :=
  if g.find x ≠ kNoTensor ∧ g.find x ∈ g.inputs then some (g.desc (g.find x)).shape else none

/-- The shape of what a graph finds under a name. -/
def offered (g : Graph) (x : Str) : Option Shape :=
  if g.find x = kNoTensor then none else some (g.desc (g.find x)).shape

/-- The shape of a tensor that has a name. -/
def shapeNamed (g : Graph) (x : Str) (si : TensorId) : Option Shape :=
  if (g.desc si).name = x ∧ x ≠ [] then some (g.desc si).shape else none

/-- The shape of the first input that has a name. -/
def firstInput (g : Graph) (x : Str) : Option Shape := g.inputs.findSome? (shapeNamed g x)

/-- A tensor of the producer that comes along under a name and is no input. -/
def Hides (src : Graph) (boundary x : Str) : Prop :=
  x ≠ [] ∧ ∃ t ∈ tensorIds src, t ∉ src.inputs ∧ (src.desc t).name ≠ boundary ∧ (src.desc t).name = x

def FeedsItself (g : Graph) (x : Str) : Prop := ∃ s, offered g x = some s ∧ firstInput g x = some s

def InTable (g : Graph) (t : TensorId) : Prop := 0 ≤ t ∧ t < (g.tensors.length : Int)

/-- The name index finds tensors of the table by their names, and inputs and outputs are in the
table. -/
structure Sound (g : Graph) : Prop where
  found : ∀ x, g.find x ≠ kNoTensor → x ≠ [] ∧ InTable g (g.find x) ∧ (g.desc (g.find x)).name = x
  inputs : ∀ si ∈ g.inputs, InTable g si
  outputs : ∀ ao ∈ g.outputs, InTable g ao

theorem takesIn_iff {g : Graph} {x : Str} {s : Shape} :
    takesIn g x s = true ↔ taken g x = some s := by
  unfold takesIn taken
  by_cases present : g.find x = kNoTensor <;> by_cases mem : g.find x ∈ g.inputs <;>
    simp [present, mem]

theorem handsOff_iff {producer consumer : Graph} {x : Str} : handsOff producer consumer x = true ↔
      ∃ s, offered producer x = some s ∧ taken consumer x = some s := by
  unfold handsOff offered
  by_cases present : producer.find x = kNoTensor
  · simp [present]
  · simp only [present, ne_eq, not_false_eq_true, decide_true, Bool.true_and, takesIn_iff, if_false,
      Option.some.injEq, exists_eq_left']

variable {g src dst : Graph} {x boundary : Str}

theorem find_eq (g : Graph) (x : Str) : g.find x = g.tensorByName[x]?.getD kNoTensor := rfl

theorem find_addTensor (g : Graph) (d : TensorDesc) (x : Str) :
    (g.addTensor d).1.find x = if x = d.name ∧ x ≠ [] then (g.tensors.length : Int) else g.find x := by
  by_cases named : d.name = []
  · have same : (g.addTensor d).1.tensorByName = g.tensorByName := if_pos named
    rw [if_neg fun here => here.2 (here.1.trans named), find_eq, same, find_eq]
  · rw [find_eq, Onnx.addTensor_index named, Std.ExtTreeMap.getElem?_insert]
    by_cases same : x = d.name
    · rw [if_pos (by rw [same]; exact Std.ReflCmp.compare_self), if_pos ⟨same, same ▸ named⟩]
      rfl
    · rw [if_neg, if_neg fun here => same here.1, find_eq]
      rw [Std.LawfulEqCmp.compare_eq_iff_eq]
      exact fun here => same here.symm

variable {t : TensorId} {st : MergeState}

theorem InTable.ne_none (inside : InTable g t) : t ≠ kNoTensor := by
  rintro rfl
  exact absurd inside.1 (by decide)

theorem length_addTensor (g : Graph) (d : TensorDesc) :
    (g.addTensor d).1.tensors.length = g.tensors.length + 1 := length_append

theorem InTable.addTensor (inside : InTable g t) (d : TensorDesc) :
    InTable (g.addTensor d).1 t := by
  refine ⟨inside.1, inside.2.trans ?_⟩
  rw [length_addTensor]
  exact_mod_cast g.tensors.length.lt_succ_self

theorem inTable_new (g : Graph) (d : TensorDesc) :
    InTable (g.addTensor d).1 (g.tensors.length : Int) := by
  refine ⟨Int.natCast_nonneg _, ?_⟩
  rw [length_addTensor]
  exact_mod_cast g.tensors.length.lt_succ_self

theorem desc_addTensor_old (inside : InTable g t) (d : TensorDesc) :
    (g.addTensor d).1.desc t = g.desc t := by
  rw [Onnx.desc_addTensor, if_neg inside.2.ne]

/-- The new tensor is found, and the others as before. -/
theorem Sound.found_addTensor (sound : Sound g) (d : TensorDesc) {x : Str}
    (present : (g.addTensor d).1.find x ≠ kNoTensor) :
    x ≠ [] ∧ InTable (g.addTensor d).1 ((g.addTensor d).1.find x) ∧
      ((g.addTensor d).1.desc ((g.addTensor d).1.find x)).name = x := by
  rw [find_addTensor] at present ⊢
  split at present
  · rename_i here
    rw [if_pos here]
    refine ⟨here.2, inTable_new g d, ?_⟩
    rw [Onnx.desc_addTensor, if_pos rfl, here.1]
  · rename_i other
    rw [if_neg other]
    obtain ⟨named, inside, name⟩ := sound.found x present
    exact ⟨named, inside.addTensor d, (congrArg _ (desc_addTensor_old inside d)).trans name⟩

theorem Sound.addInternal (sound : Sound g) (d : TensorDesc) : Sound (g.addTensor d).1 where
  found _ := sound.found_addTensor d
  inputs si mem := (sound.inputs si mem).addTensor d
  outputs ao mem := (sound.outputs ao mem).addTensor d

theorem taken_addInternal (sound : Sound g) (d : TensorDesc) (x : Str) :
    taken (g.addTensor d).1 x = if x = d.name ∧ x ≠ [] then none else taken g x := by
  unfold taken
  rw [find_addTensor]
  by_cases here : x = d.name ∧ x ≠ []
  · rw [if_pos here, if_pos here, if_neg fun both => ?_]
    exact lt_irrefl _ (sound.inputs _ both.2).2
  · rw [if_neg here, if_neg here]
    by_cases present : g.find x = kNoTensor
    · rw [if_neg fun both => both.1 present, if_neg fun both => both.1 present]
    · rw [desc_addTensor_old (sound.found x present).2.1]
      rfl

/-- A graph with one more input at its end. -/
def addInput (g : Graph) (d : TensorDesc) : Graph :=
  { (g.addTensor d).1 with inputs := g.inputs ++ [(g.tensors.length : Int)] }

theorem Sound.addInput (sound : Sound g) (d : TensorDesc) : Sound (addInput g d) where
  found _ := sound.found_addTensor d
  inputs si mem := by
    rcases mem_append.mp mem with old | new
    · exact (sound.inputs si old).addTensor d
    · rw [mem_singleton.mp new]
      exact inTable_new g d
  outputs ao mem := (sound.outputs ao mem).addTensor d

theorem taken_addInput (sound : Sound g) (d : TensorDesc) (x : Str) :
    taken (addInput g d) x = if x = d.name ∧ x ≠ [] then some d.shape else taken g x := by
  have find : (addInput g d).find x =
      if x = d.name ∧ x ≠ [] then (g.tensors.length : Int) else g.find x := find_addTensor g d x
  have desc : ∀ t, (addInput g d).desc t = if t = (g.tensors.length : Int) then d else g.desc t :=
    Onnx.desc_addTensor g d
  have inputs : (addInput g d).inputs = g.inputs ++ [(g.tensors.length : Int)] := rfl
  unfold taken
  rw [find, inputs, desc]
  by_cases here : x = d.name ∧ x ≠ []
  · rw [if_pos here, if_pos here, if_pos rfl, if_pos ⟨(inTable_new g d).ne_none, by simp⟩]
  · rw [if_neg here, if_neg here]
    by_cases present : g.find x = kNoTensor
    · rw [if_neg fun both => both.1 present, if_neg fun both => both.1 present]
    · have old := (sound.found x present).2.1
      have mem : g.find x ∈ g.inputs ++ [(g.tensors.length : Int)] ↔ g.find x ∈ g.inputs := by
        rw [mem_append, mem_singleton, or_iff_left old.2.ne]
      rw [if_neg old.2.ne]
      exact if_congr (and_congr_right fun _ => mem) rfl rfl

/-! ## The boundary -/

theorem openBoundary_find (src dst : Graph) (boundary x : Str) :
    (openBoundary src dst boundary).dst.find x = dst.find x := by
  unfold openBoundary Graph.find
  dsimp only
  rw [Onnx.updateDesc_tensorByName]

theorem openBoundary_name (src dst : Graph) (boundary : Str) (t : TensorId) :
    ((openBoundary src dst boundary).dst.desc t).name = (dst.desc t).name :=
  Onnx.desc_updateDesc dst (dst.find boundary) (f := notInput) (fun _ => rfl) t

theorem desc_updateDesc_shape {f : TensorDesc → TensorDesc} (keeps : ∀ d, (f d).shape = d.shape)
    (g : Graph) (id t : TensorId) : ((g.updateDesc id f).desc t).shape = (g.desc t).shape := by
  unfold Graph.updateDesc
  split
  · unfold Graph.desc
    split
    · dsimp only
      rw [getD_eq_getElem?_getD, getD_eq_getElem?_getD, getElem?_modify]
      cases g.tensors[t.toNat]? with
      | none => rfl
      | some d =>
        change (if id.toNat = t.toNat then f d else d).shape = d.shape
        split
        · exact keeps d
        · rfl
    · rfl
  · rfl

theorem openBoundary_shape (src dst : Graph) (boundary : Str) (t : TensorId) :
    ((openBoundary src dst boundary).dst.desc t).shape = (dst.desc t).shape :=
  desc_updateDesc_shape (f := notInput) (fun _ => rfl) dst (dst.find boundary) t

theorem mem_openBoundary_inputs :
    t ∈ (openBoundary src dst boundary).dst.inputs ↔ t ∈ dst.inputs ∧ t ≠ dst.find boundary := by
  have kept : (dst.updateDesc (dst.find boundary) notInput).inputs = dst.inputs :=
    (Onnx.updateDesc_grown dst _ (f := notInput) fun _ => rfl).inputs
  unfold openBoundary dropFromList
  dsimp only
  rw [kept, mem_filter, decide_eq_true_eq]

theorem openBoundary_outputs (src dst : Graph) (boundary : Str) :
    (openBoundary src dst boundary).dst.outputs = dst.outputs :=
  (Onnx.updateDesc_grown dst (dst.find boundary) (f := notInput) fun _ => rfl).outputs

theorem inTable_openBoundary : InTable (openBoundary src dst boundary).dst t ↔ InTable dst t := by
  unfold InTable openBoundary
  dsimp only
  rw [Onnx.updateDesc_length]

theorem sound_openBoundary (sound : Sound dst) (src : Graph) (boundary : Str) :
    Sound (openBoundary src dst boundary).dst where
  found x present := by
    rw [openBoundary_find] at present ⊢
    obtain ⟨named, inside, name⟩ := sound.found x present
    exact ⟨named, inTable_openBoundary.mpr inside, (openBoundary_name ..).trans name⟩
  inputs si mem := inTable_openBoundary.mpr (sound.inputs si (mem_openBoundary_inputs.mp mem).1)
  outputs ao mem := by
    rw [openBoundary_outputs] at mem
    exact inTable_openBoundary.mpr (sound.outputs ao mem)

/-- The consumer no longer takes in the hand-off, and the rest as before. -/
theorem taken_openBoundary (sound : Sound dst) (src : Graph) (boundary x : Str) :
    taken (openBoundary src dst boundary).dst x = if x = boundary then none else taken dst x := by
  unfold taken
  rw [openBoundary_find, openBoundary_shape]
  by_cases same : x = boundary
  · rw [if_pos same, same, if_neg fun both => (mem_openBoundary_inputs.mp both.2).2 rfl]
  · rw [if_neg same]
    refine if_congr (and_congr_right fun present => ?_) rfl rfl
    rw [mem_openBoundary_inputs, and_iff_left]
    intro meet
    have name := (sound.found x present).2.2
    have other := (sound.found boundary (meet ▸ present)).2.2
    exact same (name.symm.trans (meet ▸ other))

/-! ## The inputs of the producer -/

theorem sound_mergeInput (sound : Sound st.dst) (src : Graph) (si : TensorId) :
    Sound (mergeInput src st si).dst := by
  unfold mergeInput
  dsimp only
  split
  · exact sound
  · exact sound.addInput _

/-- The consumer takes in the name of an input, if it did not before. -/
theorem taken_mergeInput (sound : Sound st.dst) (src : Graph) (si : TensorId)
    (x : Str) : taken (mergeInput src st si).dst x = (taken st.dst x).or (shapeNamed src x si) := by
  unfold mergeInput shapeNamed
  dsimp only
  split
  · rename_i existing
    by_cases same : (src.desc si).name = x ∧ x ≠ []
    · have already : taken st.dst x = some (st.dst.desc (st.dst.find x)).shape := by
        rw [same.1] at existing
        exact if_pos existing
      rw [already]
      rfl
    · rw [if_neg same, Option.or_none]
  · rename_i absent
    change taken (addInput st.dst _) x = _
    rw [taken_addInput sound]
    by_cases same : (src.desc si).name = x ∧ x ≠ []
    · have fresh : taken st.dst x = none := by
        rw [same.1] at absent
        exact if_neg absent
      rw [if_pos same, if_pos ⟨same.1.symm, same.2⟩, fresh, Option.none_or]
    · rw [if_neg same, if_neg fun here => same ⟨here.1.symm, here.2⟩, Option.or_none]

theorem sound_mergeInputs (sound : Sound st.dst) (src : Graph)
    (inputs : List TensorId) : Sound (inputs.foldl (mergeInput src) st).dst := by
  induction inputs generalizing st with
  | nil => exact sound
  | cons si inputs ih => exact ih (sound_mergeInput sound src si)

theorem taken_mergeInputs (sound : Sound st.dst) (src : Graph)
    (inputs : List TensorId) (x : Str) : taken (inputs.foldl (mergeInput src) st).dst x =
      (taken st.dst x).or (inputs.findSome? (shapeNamed src x)) := by
  induction inputs generalizing st with
  | nil => rw [foldl_nil, findSome?_nil, Option.or_none]
  | cons si inputs ih =>
    rw [foldl_cons, ih (sound_mergeInput sound src si), taken_mergeInput sound, Option.or_assoc,
      findSome?_cons]
    cases shapeNamed src x si <;> rfl

/-- An input has a place afterwards, and everything that had one. -/
theorem remap_mergeInputs {inputs : List TensorId} :
    ((inputs.foldl (mergeInput src) st).remap t).isSome = true ↔
      (st.remap t).isSome = true ∨ t ∈ inputs := by
  induction inputs generalizing st with
  | nil => simp
  | cons si inputs ih =>
    have step : ((mergeInput src st si).remap t).isSome = true ↔
        (st.remap t).isSome = true ∨ t = si := by
      have placed : ∃ place, (mergeInput src st si).remap = update st.remap si (some place) := by
        unfold mergeInput
        dsimp only
        split
        · exact ⟨_, rfl⟩
        · exact ⟨_, rfl⟩
      obtain ⟨place, placed⟩ := placed
      rw [placed]
      by_cases same : t = si
      · rw [same, update_self]
        simp
      · rw [update_of_ne same]
        simp [same]
    rw [foldl_cons, ih, step, mem_cons, or_assoc]

/-! ## The other tensors of the producer -/

theorem sound_mergeTensor (sound : Sound st.dst) (src : Graph) (t : TensorId) :
    Sound (mergeTensor src st t).dst := by
  unfold mergeTensor
  split
  · exact sound
  · have added := sound.addInternal { src.desc t with isInput := false, isOutput := false }
    dsimp only
    split
    · exact ⟨added.found, added.inputs, added.outputs⟩
    · exact added

theorem taken_mergeTensor (sound : Sound st.dst) (src : Graph) (t : TensorId)
    (x : Str) : taken (mergeTensor src st t).dst x =
      if st.remap t = none ∧ (src.desc t).name = x ∧ x ≠ [] then none else taken st.dst x := by
  unfold mergeTensor
  by_cases placed : (st.remap t).isSome = true
  · rw [if_pos placed, if_neg fun here => ?_]
    rw [here.1] at placed
    cases placed
  · have missing : st.remap t = none := by simpa using placed
    have added := taken_addInternal sound { src.desc t with isInput := false, isOutput := false } x
    have same : ∀ payload, taken { (st.dst.addTensor { src.desc t with
        isInput := false, isOutput := false }).1 with initializers := payload } x =
          taken (st.dst.addTensor { src.desc t with isInput := false, isOutput := false }).1 x :=
      fun _ => rfl
    rw [if_neg placed]
    dsimp only
    split
    · exact (same _).trans (added.trans (if_congr (by simp [missing, eq_comm]) rfl rfl))
    · exact added.trans (if_congr (by simp [missing, eq_comm]) rfl rfl)

theorem remap_mergeTensor {other : TensorId} (apart : other ≠ t) :
    (mergeTensor src st t).remap other = st.remap other := by
  unfold mergeTensor
  split
  · rfl
  · exact update_of_ne apart _ _

theorem sound_mergeTensors (sound : Sound st.dst) (src : Graph)
    (ts : List TensorId) : Sound (ts.foldl (mergeTensor src) st).dst := by
  induction ts generalizing st with
  | nil => exact sound
  | cons t ts ih => exact ih (sound_mergeTensor sound src t)

theorem taken_mergeTensors (sound : Sound st.dst) (src : Graph)
    {ts : List TensorId} (once : ts.Nodup) (x : Str) :
    taken (ts.foldl (mergeTensor src) st).dst x =
      if x ≠ [] ∧ ∃ t ∈ ts, st.remap t = none ∧ (src.desc t).name = x then none
      else taken st.dst x := by
  induction ts generalizing st with
  | nil => simp
  | cons t ts ih =>
    obtain ⟨fresh, once⟩ := nodup_cons.mp once
    rw [foldl_cons, ih (sound_mergeTensor sound src t) once, taken_mergeTensor sound]
    have rest : ∀ t' ∈ ts, (mergeTensor src st t).remap t' = st.remap t' := by
      intro t' mem
      refine remap_mergeTensor ?_
      rintro rfl
      exact fresh mem
    by_cases later : x ≠ [] ∧ ∃ t' ∈ ts, st.remap t' = none ∧ (src.desc t').name = x
    · obtain ⟨named, t', mem, missing, name⟩ := later
      rw [if_pos ⟨named, t', mem, (rest t' mem).trans missing, name⟩,
        if_pos ⟨named, t', mem_cons_of_mem _ mem, missing, name⟩]
    · rw [if_neg ?_]
      · refine if_congr ⟨?_, ?_⟩ rfl rfl
        · rintro ⟨missing, name, named⟩
          exact ⟨named, t, mem_cons_self, missing, name⟩
        · rintro ⟨named, t', mem, missing, name⟩
          rcases mem_cons.mp mem with rfl | inside
          · exact ⟨missing, name, named⟩
          · exact absurd ⟨named, t', inside, missing, name⟩ later
      · rintro ⟨named, t', mem, missing, name⟩
        exact later ⟨named, t', mem, (rest t' mem).symm.trans missing, name⟩

/-! ## The merged graph -/

theorem mem_tensorIds : t ∈ tensorIds g ↔ InTable g t := by
  unfold tensorIds InTable
  rw [mem_map]
  constructor
  · rintro ⟨n, mem, rfl⟩
    have small := mem_range.mp mem
    exact ⟨Int.natCast_nonneg n, by exact_mod_cast small⟩
  · rintro ⟨low, high⟩
    obtain ⟨n, rfl⟩ := Int.eq_ofNat_of_zero_le low
    have small : n < g.tensors.length := by exact_mod_cast high
    exact ⟨n, mem_range.mpr small, rfl⟩

theorem nodup_tensorIds (g : Graph) : (tensorIds g).Nodup :=
  nodup_range.map fun _ _ same => Int.ofNat.inj same

theorem sound_mergeProducerInto (sound : Sound dst) (src : Graph) (boundary : Str) :
    Sound (mergeProducerInto src dst boundary) := by
  unfold mergeProducerInto
  split
  · exact sound
  · have merged := sound_mergeTensors (sound_mergeInputs (sound_openBoundary sound src boundary) src
      src.inputs) src (tensorIds src)
    exact ⟨merged.found, merged.inputs, merged.outputs⟩

open Classical in
/-- **What the merged graph takes in.** -/
theorem taken_mergeProducerInto (sound : Sound dst) (makes : src.find boundary ≠ kNoTensor)
    (takes : dst.find boundary ≠ kNoTensor) (x : Str) :
    taken (mergeProducerInto src dst boundary) x = if Hides src boundary x then none
      else (if x = boundary then none else taken dst x).or (firstInput src x) := by
  have opened := sound_openBoundary sound src boundary
  have missing : ∀ t ∈ tensorIds src,
      ((src.inputs.foldl (mergeInput src) (openBoundary src dst boundary)).remap t = none ↔
        t ∉ src.inputs ∧ (src.desc t).name ≠ boundary) := by
    intro t inside
    have here := mem_tensorIds.mp inside
    rw [← Option.not_isSome_iff_eq_none, remap_mergeInputs, not_or, and_comm]
    refine and_congr_right fun _ => ?_
    unfold openBoundary
    dsimp only
    simp [here.1, here.2]
  unfold mergeProducerInto
  rw [if_neg fun either => either.elim makes takes]
  change taken (mergedTensors src dst boundary).dst x = _
  unfold mergedTensors
  rw [taken_mergeTensors (sound_mergeInputs opened src src.inputs) src (nodup_tensorIds src),
    taken_mergeInputs opened, taken_openBoundary sound]
  refine if_congr (and_congr_right fun _ => exists_congr fun t => and_congr_right fun inside => ?_)
    rfl rfl
  rw [missing t inside, and_assoc]

/-! ## What a merge leaves alone -/

/-- A graph with more tensors, of which some may be inputs. -/
structure Grew (g g' : Graph) : Prop where
  table : ∀ t, InTable g t → InTable g' t
  desc : ∀ t, InTable g t → g'.desc t = g.desc t
  inputs : ∀ t, InTable g t → (t ∈ g'.inputs ↔ t ∈ g.inputs)
  outputs : g'.outputs = g.outputs

theorem Grew.refl (g : Graph) : Grew g g := ⟨fun _ h => h, fun _ _ => rfl, fun _ _ => Iff.rfl, rfl⟩

theorem Grew.trans {g g' g'' : Graph} (first : Grew g g') (second : Grew g' g'') : Grew g g'' where
  table t inside := second.table t (first.table t inside)
  desc t inside := (second.desc t (first.table t inside)).trans (first.desc t inside)
  inputs t inside := (second.inputs t (first.table t inside)).trans (first.inputs t inside)
  outputs := second.outputs.trans first.outputs

theorem grew_addTensor (g : Graph) (d : TensorDesc) : Grew g (g.addTensor d).1 where
  table _ inside := inside.addTensor d
  desc _ inside := desc_addTensor_old inside d
  inputs _ _ := Iff.rfl
  outputs := rfl

theorem grew_addInput (g : Graph) (d : TensorDesc) : Grew g (addInput g d) where
  table _ inside := inside.addTensor d
  desc _ inside := desc_addTensor_old inside d
  inputs t inside := by
    change t ∈ g.inputs ++ [(g.tensors.length : Int)] ↔ _
    rw [mem_append, mem_singleton, or_iff_left inside.2.ne]
  outputs := rfl

theorem grew_mergeInput (src : Graph) (st : MergeState) (si : TensorId) :
    Grew st.dst (mergeInput src st si).dst := by
  unfold mergeInput
  dsimp only
  split
  · exact Grew.refl _
  · exact grew_addInput _ _

theorem grew_mergeTensor (src : Graph) (st : MergeState) (t : TensorId) :
    Grew st.dst (mergeTensor src st t).dst := by
  unfold mergeTensor
  split
  · exact Grew.refl _
  · have grew := grew_addTensor st.dst { src.desc t with isInput := false, isOutput := false }
    dsimp only
    split
    · exact ⟨grew.table, grew.desc, grew.inputs, grew.outputs⟩
    · exact grew

theorem grew_foldl {ι : Type} {f : MergeState → ι → MergeState}
    (grows : ∀ st i, Grew st.dst (f st i).dst) (l : List ι) (st : MergeState) :
    Grew st.dst (l.foldl f st).dst := by
  induction l generalizing st with
  | nil => exact Grew.refl _
  | cons i l ih => exact (grows st i).trans (ih (f st i))

theorem grew_mergedTensors (src dst : Graph) (boundary : Str) :
    Grew (openBoundary src dst boundary).dst (mergedTensors src dst boundary).dst :=
  (grew_foldl (grew_mergeInput src) _ _).trans (grew_foldl (grew_mergeTensor src) _ _)

/-- The names and shapes of what the consumer gives out stay. -/
theorem outputs_mergeProducerInto (sound : Sound dst) (src : Graph) (boundary : Str) :
    (mergeProducerInto src dst boundary).outputs = dst.outputs ∧ ∀ ao ∈ dst.outputs,
        ((mergeProducerInto src dst boundary).desc ao).name = (dst.desc ao).name ∧
        ((mergeProducerInto src dst boundary).desc ao).shape = (dst.desc ao).shape := by
  unfold mergeProducerInto
  split
  · exact ⟨rfl, fun _ _ => ⟨rfl, rfl⟩⟩
  · have grew := grew_mergedTensors src dst boundary
    refine ⟨grew.outputs.trans (openBoundary_outputs ..), fun ao mem => ?_⟩
    have inside : InTable (openBoundary src dst boundary).dst ao :=
      inTable_openBoundary.mpr (sound.outputs ao mem)
    have desc := grew.desc ao inside
    exact ⟨(congrArg TensorDesc.name desc).trans (openBoundary_name ..),
      (congrArg TensorDesc.shape desc).trans (openBoundary_shape ..)⟩

/-! ## The first input of a name -/

/-- When every tensor of a name is an input, the index finds the first of them. -/
def IndexesInputs (g : Graph) (x : Str) : Prop :=
  x ≠ [] → (∀ t, InTable g t → (g.desc t).name = x → t ∈ g.inputs) → firstInput g x = taken g x

/-- A sound graph whose name index finds inputs that nothing hides. -/
structure Indexed (g : Graph) : Prop extends Sound g where
  indexes : ∀ x, IndexesInputs g x

theorem findSome?_filter_congr {α β : Type} {f f' : α → Option β} {p : α → Bool} {l : List α}
    (kept : ∀ a ∈ l, p a = true → f' a = f a) (dropped : ∀ a ∈ l, p a = false → f a = none) :
    (l.filter p).findSome? f' = l.findSome? f := by
  induction l with
  | nil => rfl
  | cons a l ih =>
    have rest := ih (fun b mem => kept b (mem_cons_of_mem _ mem))
      fun b mem => dropped b (mem_cons_of_mem _ mem)
    cases keeps : p a with
    | true =>
      rw [filter_cons_of_pos keeps, findSome?_cons, findSome?_cons,
        kept a mem_cons_self keeps, rest]
    | false =>
      rw [filter_cons_of_neg (by simp [keeps]), findSome?_cons, dropped a mem_cons_self keeps, rest]

theorem findSome?_congr {α β : Type} {f f' : α → Option β} {l : List α}
    (same : ∀ a ∈ l, f' a = f a) : l.findSome? f' = l.findSome? f := by
  have whole : l.filter (fun _ => true) = l := filter_true l
  rw [← findSome?_filter_congr (p := fun _ => true) (fun a mem _ => same a mem)
    fun _ _ => nofun, whole]

theorem firstInput_openBoundary (other : x ≠ boundary) (named : ∀ y, dst.find y ≠ kNoTensor →
    (dst.desc (dst.find y)).name = y) (takes : dst.find boundary ≠ kNoTensor) :
    firstInput (openBoundary src dst boundary).dst x = firstInput dst x := by
  have shape : ∀ si, shapeNamed (openBoundary src dst boundary).dst x si = shapeNamed dst x si := by
    intro si
    unfold shapeNamed
    rw [openBoundary_name, openBoundary_shape]
  have inputs : (openBoundary src dst boundary).dst.inputs =
      dst.inputs.filter fun si => si ≠ dst.find boundary := by
    unfold openBoundary dropFromList
    dsimp only
    rw [(Onnx.updateDesc_grown dst _ (f := notInput) fun _ => rfl).inputs]
  unfold firstInput
  rw [inputs]
  refine findSome?_filter_congr (fun si _ _ => shape si) fun si _ dropped => ?_
  have same : si = dst.find boundary := by simpa using dropped
  rw [same, shapeNamed, if_neg fun here => other ?_]
  rw [← here.1, named boundary takes]

theorem firstInput_addTensor (sound : Sound g) (d : TensorDesc) (x : Str) :
    firstInput (g.addTensor d).1 x = firstInput g x := by
  refine findSome?_congr fun si mem => ?_
  unfold shapeNamed
  rw [desc_addTensor_old (sound.inputs si mem)]

theorem firstInput_addInput (sound : Sound g) (d : TensorDesc) (x : Str) :
    firstInput (addInput g d) x =
      (firstInput g x).or (if d.name = x ∧ x ≠ [] then some d.shape else none) := by
  have old : g.inputs.findSome? (shapeNamed (addInput g d) x) = firstInput g x :=
    firstInput_addTensor sound d x
  have new : (addInput g d).desc (g.tensors.length : Int) = d :=
    (Onnx.desc_addTensor g d _).trans (if_pos rfl)
  change (g.inputs ++ [(g.tensors.length : Int)]).findSome? (shapeNamed (addInput g d) x) = _
  rw [findSome?_append, old, findSome?_singleton, shapeNamed, new]

/-! ## Building a graph -/

theorem indexed_empty : Indexed {} where
  found _ present := absurd (congrArg (·.getD kNoTensor) Std.ExtTreeMap.getElem?_empty) present
  inputs _ := nofun
  outputs _ := nofun
  indexes _ _ _ := rfl

/-- A tensor that is no input keeps the index in step with the inputs. -/
theorem Indexed.addInternal (indexed : Indexed g) (d : TensorDesc) : Indexed (g.addTensor d).1 where
  toSound := indexed.toSound.addInternal d
  indexes x named inputs := by
    have grew := grew_addTensor g d
    have other : d.name ≠ x := by
      rintro rfl
      have read := inputs _ (inTable_new g d) ((congrArg _ (Onnx.desc_addTensor g d _)).trans
        (by rw [if_pos rfl]))
      exact lt_irrefl _ (indexed.inputs _ read).2
    rw [firstInput_addTensor indexed.toSound, taken_addInternal indexed.toSound,
      if_neg fun here => other here.1.symm]
    exact indexed.indexes x named fun t inside name => (grew.inputs t inside).mp
      (inputs t (grew.table t inside) ((congrArg _ (grew.desc t inside)).trans name))

/-- An input of a new name keeps the index in step with the inputs. -/
theorem Indexed.addInput (indexed : Indexed g) (d : TensorDesc) (fresh : taken g d.name = none) :
    Indexed (addInput g d) where
  toSound := indexed.toSound.addInput d
  indexes x named inputs := by
    have grew := grew_addInput g d
    have before := indexed.indexes x named fun t inside name => (grew.inputs t inside).mp
      (inputs t (grew.table t inside) ((congrArg _ (grew.desc t inside)).trans name))
    rw [firstInput_addInput indexed.toSound, taken_addInput indexed.toSound, before]
    by_cases same : d.name = x
    · rw [if_pos ⟨same, named⟩, if_pos ⟨same.symm, named⟩, ← same, fresh, Option.none_or]
    · rw [if_neg fun here => same here.1, if_neg fun here => same here.1.symm, Option.or_none]

theorem Indexed.setBody (indexed : Indexed g) (nodes : List Node) {outputs : List TensorId}
    (inside : ∀ ao ∈ outputs, InTable g ao) : Indexed { g with nodes, outputs } where
  found := indexed.found
  inputs := indexed.inputs
  outputs := inside
  indexes := indexed.indexes

/-! ## The index after a merge -/

/-- Adding inputs keeps the index in step with them. -/
theorem indexes_mergeInputs (sound : Sound st.dst) (src : Graph)
    (inputs : List TensorId) (agree : firstInput st.dst x = taken st.dst x) :
    firstInput (inputs.foldl (mergeInput src) st).dst x =
      taken (inputs.foldl (mergeInput src) st).dst x := by
  induction inputs generalizing st with
  | nil => exact agree
  | cons si inputs ih =>
    refine ih (sound_mergeInput sound src si) ?_
    rw [taken_mergeInput sound]
    unfold mergeInput
    dsimp only
    split
    · rename_i existing
      rw [agree]
      by_cases same : (src.desc si).name = x ∧ x ≠ []
      · have already : taken st.dst x = some (st.dst.desc (st.dst.find x)).shape := by
          rw [same.1] at existing
          exact if_pos existing
        rw [already]
        rfl
      · rw [shapeNamed, if_neg same, Option.or_none]
    · change firstInput (addInput st.dst _) x = _
      rw [firstInput_addInput sound, agree]
      rfl

theorem firstInput_mergeTensors (sound : Sound st.dst) (src : Graph)
    (ts : List TensorId) (x : Str) :
    firstInput (ts.foldl (mergeTensor src) st).dst x = firstInput st.dst x := by
  induction ts generalizing st with
  | nil => rfl
  | cons t ts ih =>
    rw [foldl_cons, ih (sound_mergeTensor sound src t)]
    unfold mergeTensor
    split
    · rfl
    · have same := firstInput_addTensor sound
        { src.desc t with isInput := false, isOutput := false } x
      dsimp only
      split
      · exact same
      · exact same

/-- A tensor without a place gets one that is no input. -/
theorem exists_mergedTensor (sound : Sound st.dst) {ts : List TensorId}
    (once : ts.Nodup) (mem : t ∈ ts) (missing : st.remap t = none) :
    ∃ id, InTable (ts.foldl (mergeTensor src) st).dst id ∧
      ((ts.foldl (mergeTensor src) st).dst.desc id).name = (src.desc t).name ∧
      id ∉ (ts.foldl (mergeTensor src) st).dst.inputs := by
  induction ts generalizing st with
  | nil => cases mem
  | cons t' ts ih =>
    obtain ⟨fresh, once⟩ := nodup_cons.mp once
    rcases mem_cons.mp mem with rfl | later
    · have grew := grew_foldl (grew_mergeTensor src) ts (mergeTensor src st t)
      have added : InTable (mergeTensor src st t).dst (st.dst.tensors.length : Int) ∧
          ((mergeTensor src st t).dst.desc (st.dst.tensors.length : Int)).name = (src.desc t).name ∧
          (st.dst.tensors.length : Int) ∉ (mergeTensor src st t).dst.inputs := by
        have unread : (st.dst.tensors.length : Int) ∉ st.dst.inputs :=
          fun here => lt_irrefl _ (sound.inputs _ here).2
        have inside := inTable_new st.dst { src.desc t with isInput := false, isOutput := false }
        have name := congrArg TensorDesc.name ((Onnx.desc_addTensor st.dst
          { src.desc t with isInput := false, isOutput := false } _).trans (if_pos rfl))
        unfold mergeTensor
        rw [if_neg (by simp [missing])]
        dsimp only
        split
        · exact ⟨inside, name, unread⟩
        · exact ⟨inside, name, unread⟩
      obtain ⟨inside, name, unread⟩ := added
      refine ⟨_, grew.table _ inside, ?_, fun read => unread ((grew.inputs _ inside).mp read)⟩
      exact (congrArg TensorDesc.name (grew.desc _ inside)).trans name
    · refine ih (sound_mergeTensor sound src t') once later ?_
      rw [remap_mergeTensor, missing]
      rintro rfl
      exact fresh later

/-- **A merge keeps the index in step with the inputs.** -/
theorem indexed_mergeProducerInto (indexed : Indexed dst) (src : Graph) (boundary : Str) :
    Indexed (mergeProducerInto src dst boundary) := by
  refine ⟨sound_mergeProducerInto indexed.toSound src boundary, fun x named inputs => ?_⟩
  by_cases either : src.find boundary = kNoTensor ∨ dst.find boundary = kNoTensor
  · unfold mergeProducerInto at inputs ⊢
    rw [if_pos either] at inputs ⊢
    exact indexed.indexes x named inputs
  · obtain ⟨makes, takes⟩ := not_or.mp either
    have sound := sound_openBoundary indexed.toSound src boundary
    have grew := grew_mergedTensors src dst boundary
    have same : mergeProducerInto src dst boundary = { (mergedTensors src dst boundary).dst with
          nodes := src.nodes.map (copyNode (mergedTensors src dst boundary).remap) ++
            (mergedTensors src dst boundary).dst.nodes } := by
      unfold mergeProducerInto
      rw [if_neg either]
    have old : ∀ t, InTable dst t → (dst.desc t).name = x →
        t ∈ (openBoundary src dst boundary).dst.inputs := by
      intro t inside name
      have inside' : InTable (openBoundary src dst boundary).dst t :=
        inTable_openBoundary.mpr inside
      refine (grew.inputs t inside').mp ?_
      rw [same] at inputs
      refine inputs t (grew.table t inside') ?_
      exact (congrArg TensorDesc.name (grew.desc t inside')).trans
        ((openBoundary_name ..).trans name)
    have other : x ≠ boundary := by
      rintro rfl
      obtain ⟨-, inside, name⟩ := indexed.found x takes
      exact (mem_openBoundary_inputs.mp (old _ inside name)).2 rfl
    have visible : ¬Hides src boundary x := by
      rintro ⟨-, t, inside, unread, apart, name⟩
      have missing : (src.inputs.foldl (mergeInput src) (openBoundary src dst boundary)).remap t =
          none := by
        rw [← Option.not_isSome_iff_eq_none, remap_mergeInputs, not_or]
        refine ⟨?_, unread⟩
        unfold openBoundary
        dsimp only
        rw [if_neg fun here => apart here.2.2]
        nofun
      obtain ⟨id, place, called, hidden⟩ := exists_mergedTensor
        (sound_mergeInputs sound src src.inputs) (nodup_tensorIds src) inside missing
      rw [same] at inputs
      exact hidden (inputs id place (called.trans name))
    have start : firstInput (openBoundary src dst boundary).dst x =
        taken (openBoundary src dst boundary).dst x := by
      rw [firstInput_openBoundary other (fun y present => (indexed.found y present).2.2) takes,
        taken_openBoundary indexed.toSound, if_neg other]
      exact indexed.indexes x named fun t inside name =>
        (mem_openBoundary_inputs.mp (old t inside name)).1
    have joined := indexes_mergeInputs sound src src.inputs start
    have first : firstInput (mergeProducerInto src dst boundary) x =
        firstInput (src.inputs.foldl (mergeInput src) (openBoundary src dst boundary)).dst x := by
      rw [same]
      exact firstInput_mergeTensors (sound_mergeInputs sound src src.inputs) src (tensorIds src) x
    rw [first, joined, taken_mergeInputs sound, taken_openBoundary indexed.toSound,
      taken_mergeProducerInto indexed.toSound makes takes, if_neg visible]
    rfl

end Vknn.Import.BucketFusion
