import Vknn.Cpu.Execution
import Vknn.Import.FoldMovementChains

/-!
# What composed maps read

The map of a movement node says which input element each output element is copied
from.  Composing the map of a producer with the parameters of a consumer says which
element of the producer's input the consumer would have read through it.  The
consumer that carries the composed map therefore computes what it computed before.
-/

namespace Vknn.Import

open List RowMajor

variable {floatInts : FloatInts} {g : Graph} {α : Type} {K : Cpu.Kernels α}

theorem movementEligible_eq (nd : Node) : movementEligible nd = Cpu.plainMover nd := rfl

/-- What an eligible node is made of. -/
structure Mover (nd : Node) (source output : TensorId) : Prop where
  type : nd.type = .transpose ∨ nd.type = .slice
  inputs : ∃ rest, nd.inputs = source :: rest
  outputs : nd.outputs = [output]
  sourcePresent : source ≠ kNoTensor
  outputPresent : output ≠ kNoTensor
  residual : nd.fusedResidual = kNoTensor

variable {nd : Node} {e : TensorId → List α} {shape : Shape} {m : MovementMap}

theorem mover_of_eligible (eligible : movementEligible nd = true) :
    Mover nd (nd.inputs.headD kNoTensor) (nd.outputs.headD kNoTensor) := by
  simp only [movementEligible, Bool.and_eq_true, Bool.or_eq_true, decide_eq_true_eq, ne_eq,
    decide_not, Bool.not_eq_true', decide_eq_false_iff_not] at eligible
  obtain ⟨⟨⟨⟨⟨⟨⟨type, one⟩, output⟩, nonempty⟩, source⟩, -⟩, -⟩, residual⟩ := eligible
  refine ⟨type, ?_, ?_, source, output, residual⟩
  · cases shape : nd.inputs with
    | nil => simp [shape] at nonempty
    | cons a rest => exact ⟨rest, rfl⟩
  · obtain ⟨a, only⟩ := length_eq_one_iff.mp one
    rw [only]
    rfl

/-! ## Parameters known ahead -/

def Constant (g : Graph) (t : TensorId) : Prop :=
  g.isInitializer t = true ∧ (g.desc t).dtype = .int64

/-- Every operand after the first is absent or a constant of 64-bit integers. -/
def StaticParams (g : Graph) (nd : Node) : Prop :=
  ∀ t ∈ nd.inputs.tail, t = kNoTensor ∨ Constant g t

/-- The constants of a graph hold their data. -/
def Loaded (K : Cpu.Kernels α) (g : Graph) (e : TensorId → List α) : Prop :=
  ∀ t hb, g.initializers[t]? = some hb → (g.desc t).dtype = .int64 → K.ints (e t) = hostInts hb

theorem readParamList_eq (floatInts : FloatInts) (static : StaticParams g nd)
    (loaded : Loaded K g e) (attr : Str) {idx : Nat} (later : 0 < idx) :
    Cpu.readParamList K nd e attr idx = readI64Param floatInts g nd attr idx := by
  unfold Cpu.readParamList readI64Param
  dsimp only
  split
  · rfl
  · split
    · rename_i here
      have inside : idx < nd.inputs.length := here.1.trans_le nd.pwCoreInputs_le
      have mem : nd.inputs.getD idx kNoTensor ∈ nd.inputs.tail := by
        rw [getD_eq_getElem?_getD, getElem?_eq_getElem inside, Option.getD_some]
        have shifted : nd.inputs.tail[idx - 1]? = some nd.inputs[idx] := by
          rw [getElem?_tail, Nat.sub_add_cancel later, getElem?_eq_getElem inside]
        exact mem_of_getElem? shifted
      rcases static _ mem with absent | ⟨isConst, wide⟩
      · exact absurd absent here.2
      · obtain ⟨hb, held⟩ : ∃ hb, g.initializers[nd.inputs.getD idx kNoTensor]? = some hb :=
          Option.isSome_iff_exists.mp (by
            rw [← Std.ExtTreeMap.contains_eq_isSome_getElem?]
            exact isConst)
        rw [held, loaded _ hb held wide]
        exact (if_pos wide).symm
    · rfl

theorem sliceParams_eq (static : StaticParams g nd)
    (loaded : Loaded K g e) : Cpu.sliceParams K nd e = staticSliceParams floatInts g nd := by
  unfold Cpu.sliceParams staticSliceParams
  simp only [readParamList_eq floatInts static loaded _ (Nat.succ_pos _)]

/-- With a positive step, the pass and the kernel clamp a start alike. -/
theorem resolveSliceAxis_start {dim : Int} (raw last : Int) {step : Int} (some : 0 < dim)
    (forward : 0 < step) : (Cpu.resolveSliceAxis dim raw last step).start =
      max 0 (min (if raw < 0 then raw + dim else raw) dim) := by
  unfold Cpu.resolveSliceAxis
  rw [if_neg (by omega)]
  dsimp only
  rw [if_pos forward]
  dsimp only
  split
  · split
    · omega
    · rfl
  · rfl

variable {p : Cpu.SliceParams} {axes : List (Int × Int)} {nodes : List Node} {t : TensorId}
  {i : Nat}

/-- The begins and steps of the pass are those of the kernel, and the steps are positive. -/
theorem sliceSteps_eq (positive : ∀ d ∈ shape, 0 < d)
    (found : sliceSteps p shape = some axes) :
    (∀ entry ∈ p.entries shape.length, 0 < entry.step) ∧
      axes = (Cpu.sliceWalks p shape).map fun w => (w.start, w.step) := by
  unfold sliceSteps at found
  dsimp only at found
  split at found
  · cases found
  rename_i forward
  have forward : ∀ entry ∈ p.entries shape.length, 0 < entry.step := by
    intro entry mem
    by_contra backward
    exact forward (any_eq_true.mpr ⟨entry, mem, by simpa using backward⟩)
  refine ⟨forward, ?_⟩
  rw [← Option.some.inj found]
  unfold Cpu.sliceWalks
  have start : shape.map (fun _ => ((0 : Int), (1 : Int))) =
      (shape.map fun d => (⟨0, 1, d⟩ : Cpu.SliceWalk)).map fun w => (w.start, w.step) := by
    rw [map_map]
    rfl
  rw [start]
  have length : (shape.map fun d => (⟨0, 1, d⟩ : Cpu.SliceWalk)).length = shape.length :=
    length_map _
  generalize shape.map (fun d => (⟨0, 1, d⟩ : Cpu.SliceWalk)) = walks at length
  generalize p.entries shape.length = entries at forward
  induction entries generalizing walks with
  | nil => rfl
  | cons entry entries ih =>
    have step := forward entry mem_cons_self
    rw [foldl_cons, foldl_cons]
    rw [← ih _ (by rw [length_set]; exact length)
      fun e mem => forward e (mem_cons_of_mem _ mem), map_set]
    congr 1
    by_cases inside : entry.axis < shape.length
    · have some := positive _ (getElem_mem inside)
      rw [getD_eq_getElem?_getD, getElem?_eq_getElem inside, Option.getD_some]
      rw [resolveSliceAxis_start _ _ some step]
    · rw [set_eq_of_length_le (by rw [length_map, length]; omega),
        set_eq_of_length_le (by rw [length_map, length]; omega)]

/-! ## What a plain mover reads -/

/-- The output shape of a plain mover is the one shape inference gives it, and its permutation is
one. -/
structure Shaped (floatInts : FloatInts) (g : Graph) (nd : Node) : Prop where
  transpose : nd.type = .transpose → Cpu.Permutes (Cpu.transposePerm (nd.attr.getints (str "perm"))
      (g.desc (nd.inputs.headD kNoTensor)).shape.length) ∧
    (g.desc (nd.outputs.headD kNoTensor)).shape = Cpu.transposeShape (nd.attr.getints (str "perm"))
        (g.desc (nd.inputs.headD kNoTensor)).shape
  slice : nd.type = .slice → StaticParams g nd → (g.desc (nd.outputs.headD kNoTensor)).shape =
      Cpu.sliceShape (staticSliceParams floatInts g nd) (g.desc (nd.inputs.headD kNoTensor)).shape

/-- A plain mover as a gather: the terms it adds up, and the coordinates they lead to. -/
structure Gathers (K : Cpu.Kernels α) (floatInts : FloatInts) (g : Graph) (nd : Node)
    (fs : List (Int → Int)) (source : List Int → List Int) : Prop where
  run : ∀ e, Loaded K g e → Cpu.runMover K g nd e =
    Cpu.gather K.zero (g.desc (nd.outputs.headD kNoTensor)).shape fs 0
      (e (nd.inputs.headD kNoTensor))
  leads : Cpu.Leads (g.desc (nd.outputs.headD kNoTensor)).shape
    (g.desc (nd.inputs.headD kNoTensor)).shape fs source
  through : ∀ m m', throughNode floatInts g nd (g.desc (nd.inputs.headD kNoTensor)).shape m =
      some m' → m.stride.length = (g.desc (nd.inputs.headD kNoTensor)).shape.length →
    ∀ cs, cs.length = (g.desc (nd.inputs.headD kNoTensor)).shape.length →
      m'.base + dot cs m'.stride = m.base + dot (source cs) m.stride

/-- **A transposition gathers.** -/
theorem gathers_transpose (type : nd.type = .transpose)
    (plain : nd.attr.has (str "view_stride") = false) (shaped : Shaped floatInts g nd) :
    ∃ fs source, Gathers K floatInts g nd fs source := by
  obtain ⟨permutes, out⟩ := shaped.transpose type
  have leads := Cpu.leads_transpose permutes
  rw [← out] at leads
  refine ⟨_, _, ⟨fun e _ => ?_, leads, fun m m' found length cs sameRank => ?_⟩⟩
  · unfold Cpu.runMover
    dsimp only
    rw [plain, if_neg Bool.false_ne_true, if_pos type, Cpu.transpose, out]
  · unfold throughNode at found
    rw [if_pos type] at found
    dsimp only at found
    split at found
    · have made := Option.some.inj found
      obtain ⟨permutation, -⟩ := permutes
      rw [Cpu.length_transposePerm] at permutation
      rw [← made]
      dsimp only
      rw [Cpu.transposeSource, dot_unpermute (sameRank.trans length.symm)
        (by rw [length]; exact permutation), map_map]
      rfl
    · cases found

/-- **A slice whose parameters are constant gathers.** -/
theorem gathers_slice (type : nd.type = .slice)
    (plain : nd.attr.has (str "view_stride") = false) (shaped : Shaped floatInts g nd)
    (static : StaticParams g nd)
    (positive : ∀ d ∈ (g.desc (nd.inputs.headD kNoTensor)).shape, 0 < d) {m₀ m₁ : MovementMap}
    (ok : throughNode floatInts g nd (g.desc (nd.inputs.headD kNoTensor)).shape m₀ = some m₁) :
    ∃ fs source, Gathers K floatInts g nd fs source := by
  have out := shaped.slice type static
  have other : nd.type ≠ .transpose := by
    rw [type]
    decide
  -- The pass found the begins and steps, so they are those of the kernel.
  obtain ⟨axes, found⟩ : ∃ axes, sliceSteps (staticSliceParams floatInts g nd)
      (g.desc (nd.inputs.headD kNoTensor)).shape = some axes := by
    unfold throughNode at ok
    rw [if_neg other, if_pos type] at ok
    dsimp only at ok
    split at ok
    · cases ok
    · split at ok
      · exact ⟨_, ‹_›⟩
      · cases ok
  obtain ⟨forward, same⟩ := sliceSteps_eq positive found
  have leads := Cpu.leads_slice (Cpu.stays_sliceWalks positive forward)
  rw [← Cpu.sliceShape, ← out] at leads
  refine ⟨_, _, ⟨fun e loaded => ?_, leads, fun m m' made length cs sameRank => ?_⟩⟩
  · unfold Cpu.runMover
    dsimp only
    rw [plain, if_neg Bool.false_ne_true, if_neg other, sliceParams_eq static loaded, Cpu.slice,
      out]
  · unfold throughNode at made
    rw [if_neg other, if_pos type] at made
    dsimp only at made
    rw [found] at made
    split at made
    · cases made
    · have ranks : axes.length = m.stride.length := by
        rw [same, length_map, length]
        exact (Cpu.stays_sliceWalks positive forward).length_eq
      rw [← Option.some.inj made]
      dsimp only
      rw [Cpu.sliceSource, ← same, dot_stepped ranks (sameRank.trans length.symm), Int.add_assoc]

/-! ## When maps compose -/

theorem length_sliceSteps
    (found : sliceSteps p shape = some axes) : axes.length = shape.length := by
  unfold sliceSteps at found
  dsimp only at found
  split at found
  · cases found
  · rw [← Option.some.inj found]
    have start : (shape.map fun _ => ((0 : Int), (1 : Int))).length = shape.length := length_map _
    generalize shape.map (fun _ => ((0 : Int), (1 : Int))) = axes at start
    generalize p.entries shape.length = entries
    induction entries generalizing axes with
    | nil => exact start
    | cons entry entries ih => exact ih _ (by rw [length_set]; exact start)

theorem length_throughNode {m' : MovementMap}
    (found : throughNode floatInts g nd shape m = some m')
    (length : m.stride.length = shape.length) : m'.stride.length = shape.length := by
  unfold throughNode at found
  dsimp only at found
  split at found
  · split at found
    · rw [← Option.some.inj found]
      simp
    · cases found
  · split at found
    · split at found
      · cases found
      · split at found
        · rename_i axes steps
          rw [← Option.some.inj found]
          simp [length, length_sliceSteps steps]
        · cases found
    · cases found

/-- Whether a node can be composed does not depend on the map it is composed with. -/
theorem throughNode_isSome (m' : MovementMap)
    (found : (throughNode floatInts g nd shape m).isSome) :
    (throughNode floatInts g nd shape m').isSome := by
  unfold throughNode at found ⊢
  dsimp only at found ⊢
  split
  · rename_i type
    rw [if_pos type] at found
    split
    · rfl
    · rename_i bad
      rw [if_neg bad] at found
      exact found
  · rename_i type
    rw [if_neg type] at found
    split
    · rename_i type'
      rw [if_pos type'] at found
      split
      · rename_i none
        rw [if_pos none] at found
        exact found
      · rename_i some
        rw [if_neg some] at found
        split
        · rfl
        · rename_i none
          rw [none] at found
          exact found
    · rename_i type'
      rw [if_neg type'] at found
      exact found

/-! ## The map of a node is what its kernel gathers -/

def Sized (g : Graph) : Prop := ∀ t, ∀ d ∈ (g.desc t).shape, 0 ≤ d

theorem sized_of_tensors (sizes : ∀ d ∈ g.tensors, ∀ n ∈ d.shape, 0 ≤ n) : Sized g := by
  intro t n mem
  unfold Graph.desc at mem
  split at mem
  · rw [getD_eq_getElem?_getD] at mem
    cases found : g.tensors[t.toNat]? with
    | none =>
      rw [found] at mem
      cases mem
    | some d =>
      rw [found] at mem
      exact sizes d (mem_of_getElem? found) n mem
  · cases mem

/-- What the shapes on both sides of a node with a map are. -/
structure MapShapes (g : Graph) (nd : Node) : Prop where
  input : Cpu.Solid (g.desc (nd.inputs.headD kNoTensor)).shape
  output : Cpu.Solid (g.desc (nd.outputs.headD kNoTensor)).shape
  rank : (g.desc (nd.outputs.headD kNoTensor)).shape.length =
    (g.desc (nd.inputs.headD kNoTensor)).shape.length

/-- A node has a map when the shapes on both sides have elements and as many axes; it is then
either the one the node carries, or that of its own parameters. -/
theorem movementMapOf_eq_some_iff : movementMapOf floatInts g nd = some m ↔
      ((g.desc (nd.inputs.headD kNoTensor)).shape.length ≠ 0 ∧
        (g.desc (nd.outputs.headD kNoTensor)).shape.length =
          (g.desc (nd.inputs.headD kNoTensor)).shape.length ∧
        0 < numElements (g.desc (nd.inputs.headD kNoTensor)).shape ∧
        0 < numElements (g.desc (nd.outputs.headD kNoTensor)).shape) ∧
      ((nd.attr.has (str "view_stride") = true ∧
          m = ⟨nd.attr.getints (str "view_stride"), nd.attr.geti (str "view_base") 0⟩ ∧
          m.stride.length = (g.desc (nd.inputs.headD kNoTensor)).shape.length) ∨
        (nd.attr.has (str "view_stride") = false ∧
          throughNode floatInts g nd (g.desc (nd.inputs.headD kNoTensor)).shape
            ⟨Cpu.rowStridesOf (g.desc (nd.inputs.headD kNoTensor)).shape, 0⟩ = some m)) := by
  unfold movementMapOf
  dsimp only
  split
  · rename_i refused
    constructor
    · intro found
      cases found
    · rintro ⟨⟨axes, rank, some, someOut⟩, -⟩
      rcases refused with none | other | none | none
      · exact absurd none axes
      · exact absurd rank other
      · omega
      · omega
  · rename_i shapes
    simp only [not_or, not_not, not_le] at shapes
    cases stamped : nd.attr.has (str "view_stride") with
    | true =>
      rw [if_pos rfl]
      constructor
      · intro found
        split at found
        · rename_i length
          rw [← Option.some.inj found]
          exact ⟨shapes, Or.inl ⟨rfl, rfl, length⟩⟩
        · cases found
      · rintro ⟨-, ⟨-, rfl, length⟩ | ⟨plain, -⟩⟩
        · rw [if_pos length]
        · exact absurd plain.symm Bool.false_ne_true
    | false =>
      rw [if_neg Bool.false_ne_true]
      constructor
      · intro found
        exact ⟨shapes, Or.inr ⟨rfl, found⟩⟩
      · rintro ⟨-, ⟨carried, -⟩ | ⟨-, own⟩⟩
        · exact absurd carried Bool.false_ne_true
        · exact own

theorem length_movementMapOf
    (found : movementMapOf floatInts g nd = some m) :
    m.stride.length = (g.desc (nd.inputs.headD kNoTensor)).shape.length := by
  obtain ⟨-, ⟨-, -, length⟩ | ⟨-, own⟩⟩ := movementMapOf_eq_some_iff.mp found
  · exact length
  · exact length_throughNode own (length_strides _)

/-- The shapes on both sides of a node with a map. -/
theorem mapShapes_of_map (sized : Sized g)
    (found : movementMapOf floatInts g nd = some m) : MapShapes g nd := by
  obtain ⟨⟨axes, rank, some, someOut⟩, -⟩ := movementMapOf_eq_some_iff.mp found
  have nonempty : (g.desc (nd.inputs.headD kNoTensor)).shape ≠ [] := fun none =>
    axes (by rw [none]; rfl)
  have nonemptyOut : (g.desc (nd.outputs.headD kNoTensor)).shape ≠ [] := fun none =>
    axes (by rw [← rank, none]; rfl)
  exact ⟨.of_numElements nonempty (sized _) some, .of_numElements nonemptyOut (sized _) someOut,
    rank⟩

/-- **A plain mover with a map gathers**, when its parameters are constant. -/
theorem gathers_of_map (sized : Sized g)
    (eligible : movementEligible nd = true) (plain : nd.attr.has (str "view_stride") = false)
    (shaped : Shaped floatInts g nd) (static : StaticParams g nd)
    (found : movementMapOf floatInts g nd = some m) :
    ∃ fs source, Gathers K floatInts g nd fs source := by
  have shapes := mapShapes_of_map sized found
  obtain ⟨-, carried | ⟨-, own⟩⟩ := movementMapOf_eq_some_iff.mp found
  · rw [plain] at carried
    exact absurd carried.1 Bool.false_ne_true
  · rcases (mover_of_eligible eligible).type with type | type
    · exact gathers_transpose type plain shaped
    · exact gathers_slice type plain shaped static shapes.input.positive own

/-- **A node with a map is the strided gather of its map.** -/
theorem runMover_eq_view (sized : Sized g)
    (eligible : movementEligible nd = true)
    (shaped : nd.attr.has (str "view_stride") = false → Shaped floatInts g nd)
    (static : StaticParams g nd) (found : movementMapOf floatInts g nd = some m)
    (loaded : Loaded K g e) :
    Cpu.runMover K g nd e = Cpu.runViewGather K.zero (g.desc (nd.outputs.headD kNoTensor)).shape
      m.stride m.base (e (nd.inputs.headD kNoTensor)) := by
  have shapes := mapShapes_of_map sized found
  obtain ⟨-, ⟨carried, rfl, -⟩ | ⟨plain, own⟩⟩ := movementMapOf_eq_some_iff.mp found
  · unfold Cpu.runMover
    dsimp only
    rw [if_pos carried]
  · obtain ⟨fs, source, gathers⟩ := gathers_of_map (K := K) sized eligible plain (shaped plain)
      static found
    rw [gathers.run e loaded, Cpu.runViewGather]
    refine Cpu.gather_congr K.zero shapes.output fun cs inside => ?_
    have through := gathers.through _ m own (length_strides _) cs
      (inside.length_eq.trans shapes.rank)
    rw [terms_mul, through, gathers.leads.position cs inside]
    rfl

/-! ## Reading through a stamped map -/

theorem stamp_has (nd : Node) (source : TensorId) (m : MovementMap) {k : Str}
    (stride : str "view_stride" ≠ k) (base : str "view_base" ≠ k) :
    (stamp nd source m).attr.has k = nd.attr.has k := by
  have apartStride : compare (str "view_stride") k ≠ .eq := fun same =>
    stride (Std.LawfulEqCmp.eq_of_compare same)
  have apartBase : compare (str "view_base") k ≠ .eq := fun same =>
    base (Std.LawfulEqCmp.eq_of_compare same)
  rw [stamp, Attributes.has, Std.ExtTreeMap.contains_insert, Std.ExtTreeMap.contains_insert,
    beq_eq_false_iff_ne.mpr apartBase, beq_eq_false_iff_ne.mpr apartStride, Bool.false_or,
    Bool.false_or]
  rfl

@[simp] theorem stamp_has_stride (nd : Node) (source : TensorId) (m : MovementMap) :
    (stamp nd source m).attr.has (str "view_stride") = true := by
  simp [stamp, Attributes.has, Std.ExtTreeMap.contains_insert]

@[simp] theorem stamp_stride (nd : Node) (source : TensorId) (m : MovementMap) :
    (stamp nd source m).attr.getints (str "view_stride") = m.stride := by
  have other : compare (str "view_base") (str "view_stride") ≠ .eq := by decide
  rw [stamp, Attributes.getints, Std.ExtTreeMap.getElem?_insert, if_neg other,
    Std.ExtTreeMap.getElem?_insert_self]

@[simp] theorem stamp_base (nd : Node) (source : TensorId) (m : MovementMap) :
    (stamp nd source m).attr.geti (str "view_base") 0 = m.base := by
  simp [stamp, Attributes.geti]

theorem movementEligible_stamp (eligible : movementEligible nd = true)
    {source : TensorId} (present : source ≠ kNoTensor) (m : MovementMap) :
    movementEligible (stamp nd source m) = true := by
  obtain ⟨rest, inputs⟩ := (mover_of_eligible eligible).inputs
  have steps : (stamp nd source m).attr.has (str "pw_steps") = nd.attr.has (str "pw_steps") :=
    stamp_has nd source m (by decide) (by decide)
  have outs : (stamp nd source m).attr.has (str "pw_outs") = nd.attr.has (str "pw_outs") :=
    stamp_has nd source m (by decide) (by decide)
  have newInputs : (stamp nd source m).inputs = source :: rest := by
    rw [stamp, inputs]
    rfl
  unfold movementEligible at eligible ⊢
  rw [steps, outs, newInputs]
  rw [inputs] at eligible
  simp only [Bool.and_eq_true] at eligible ⊢
  obtain ⟨⟨⟨⟨⟨kind, nonempty⟩, -⟩, noSteps⟩, noOuts⟩, residual⟩ := eligible
  exact ⟨⟨⟨⟨⟨kind, nonempty⟩, decide_eq_true present⟩, noSteps⟩, noOuts⟩, residual⟩

/-- **The consumer with the composed map computes what it computed from the producer's output.** -/
theorem runMover_stamp {P : Node} {pm fm : MovementMap} (sized : Sized g)
    (eligibleP : movementEligible P = true) (eligible : movementEligible nd = true)
    (plain : nd.attr.has (str "view_stride") = false)
    (meet : P.outputs.headD kNoTensor = nd.inputs.headD kNoTensor)
    (shapedP : P.attr.has (str "view_stride") = false → Shaped floatInts g P)
    (shaped : Shaped floatInts g nd) (staticP : StaticParams g P) (static : StaticParams g nd)
    (foundP : movementMapOf floatInts g P = some pm) (found : movementMapOf floatInts g nd = some fm)
    (rank : pm.stride.length = (g.desc (nd.inputs.headD kNoTensor)).shape.length)
    (composed : throughNode floatInts g nd (g.desc (nd.inputs.headD kNoTensor)).shape pm = some m)
    (loaded : Loaded K g e)
    (made : e (nd.inputs.headD kNoTensor) = Cpu.runMover K g P e) :
    Cpu.runMover K g (stamp nd (P.inputs.headD kNoTensor) m) e = Cpu.runMover K g nd e := by
  have shapes := mapShapes_of_map sized found
  obtain ⟨fs, source, gathers⟩ := gathers_of_map (K := K) sized eligible plain shaped static found
  obtain ⟨rest, inputs⟩ := (mover_of_eligible eligible).inputs
  have stamped : Cpu.runMover K g (stamp nd (P.inputs.headD kNoTensor) m) e =
      Cpu.runViewGather K.zero (g.desc (nd.outputs.headD kNoTensor)).shape m.stride m.base
        (e (P.inputs.headD kNoTensor)) := by
    have input : (stamp nd (P.inputs.headD kNoTensor) m).inputs.headD kNoTensor =
        P.inputs.headD kNoTensor := by
      rw [stamp, inputs]
      rfl
    unfold Cpu.runMover
    dsimp only
    rw [if_pos (stamp_has_stride _ _ _), stamp_stride, stamp_base, input]
    rfl
  rw [stamped, gathers.run e loaded, made,
    runMover_eq_view sized eligibleP shapedP staticP foundP loaded, meet, Cpu.runViewGather]
  refine Cpu.gather_congr K.zero shapes.output fun cs inside => ?_
  have through := gathers.through pm m composed rank cs (inside.length_eq.trans shapes.rank)
  rw [terms_mul, through, gathers.leads.position cs inside, Int.zero_add,
    Cpu.runViewGather, Cpu.readAt_gather K.zero shapes.input _ _ _ (gathers.leads.inside cs inside),
    terms_mul]

/-! ## Producers -/

/-- A node that the producer table names writes the tensor. -/
theorem writes_of_producerOf
    (writer : producerOf g nodes t = some i) :
    ∃ n, nodes[i]? = some n ∧ t ∈ Cpu.writesOf n := by
  unfold producerOf at writer
  split at writer
  · obtain ⟨⟨small, present, mem⟩, -⟩ := (Graph.producer_eq_some_iff _ t i).mp writer
    have small : i < nodes.length := small
    have mem : t ∈ (nodes.getD i {}).outputs := mem
    rw [getD_eq_getElem?_getD, getElem?_eq_getElem small, Option.getD_some] at mem
    exact ⟨nodes[i], getElem?_eq_getElem small, Cpu.mem_writesOf.mpr ⟨mem, present⟩⟩
  · cases writer

/-- In an ordered program a tensor is written before it is read. -/
theorem written_before (ordered : Cpu.signature.Ordered nodes) {j : Nat}
    {a b : Node} (writer : nodes[i]? = some a) (written : t ∈ Cpu.writesOf a)
    (reader : nodes[j]? = some b) (read : t ∈ Cpu.readsOf b) : i < j := by
  obtain ⟨small, atWriter⟩ := List.getElem?_eq_some_iff.mp writer
  obtain ⟨small', atReader⟩ := List.getElem?_eq_some_iff.mp reader
  rcases Nat.lt_trichotomy i j with before | same | after
  · exact before
  · subst same
    obtain rfl := atWriter.symm.trans atReader
    exact absurd read (ordered.self a (mem_of_getElem? writer) t written)
  · have apart := pairwise_iff_getElem.mp ordered.before j i small' small after
    rw [atWriter, atReader] at apart
    exact absurd read (apart t written).1

end Vknn.Import
