import Vknn.Import.FloatCastStorage

/-!
# When removing casts is sound

Whatever happens, the pass removes the casts that are redundant in the graph it is given,
and every node reads through the removed casts: an operand that was the result of one is the
tensor at the beginning of the chain.  A removed cast whose operand holds integers was no
copy.  A residual or a bias that was the result of a removed cast still is, and nobody makes
it any more.  Where neither happens, nothing changes.
-/

namespace Vknn.Import

open List
open Dataflow (Machine redirect redirect_gone redirect_of_ne)
open Cpu (LaneOperators Lanes perform renameNode signature writesOf)

variable {g : Graph} {F : Type}

/-! ## What it is to be sound -/

/-- A tensor that is there: it comes from outside, or one of the nodes makes it. -/
def Available (g : Graph) (nodes : List Node) (t : TensorId) : Prop :=
  External g t ∨ ∃ n ∈ nodes, t ∈ writesOf n

instance (g : Graph) (nodes : List Node) (t : TensorId) : Decidable (Available g nodes t) :=
  inferInstanceAs (Decidable (External g t ∨ ∃ n ∈ nodes, t ∈ writesOf n))

/-- A graph whose casts may be removed, and whose outputs are there. -/
structure FloatCastInput (g : Graph) : Prop extends FloatCastReady g where
  outputs : ∀ t ∈ g.outputs, t ≠ kNoTensor → Available g g.nodes t

variable (K : LaneOperators F) (g : Graph) (e : TensorId → Lanes F)

/-- What the tensors hold after a run of the graph. -/
def ran (t : TensorId) : Lanes F := perform K.toOperators g g.nodes e t

/-- An edge before and after the pass: both are absent, or the tensor that is read afterwards is
there and holds what was read before. -/
structure SameEdge (t t' : TensorId) : Prop where
  absent : t' = kNoTensor ↔ t = kNoTensor
  there : t ≠ kNoTensor → Available g (eliminateFloatCast g).nodes t'
  value : t ≠ kNoTensor → ran K (eliminateFloatCast g) e t' = ran K g e t

/-- What it is for the pass to be sound, in one run: every removed cast read numbers and gave what it
read, and every operand, residual and bias of a node that is left, and every graph output, is an
existing tensor with the same values. -/
structure CastsSound : Prop where
  identity : ∀ i ∈ (castRun g).remove, ∀ c, g.nodes[i]? = some c →
    (ran K g e (c.inputs.headD kNoTensor)).isInt = false ∧
    ran K g e (c.outputs.headD kNoTensor) = ran K g e (c.inputs.headD kNoTensor)
  edges : List.Forall₂ (fun nd nd' => List.Forall₂ (SameEdge K g e) nd.reads nd'.reads)
    (keptFrom (castRun g).remove 0 g.nodes) (eliminateFloatCast g).nodes
  outputs : ∀ t ∈ g.outputs, SameEdge K g e t t

variable {K g e}

/-! ## Redundant casts -/

/-- A redundant cast, taken apart. -/
structure RedundantCast (g : Graph) (c : Node) (input out : TensorId) : Prop where
  type : c.type = .cast
  inputs : c.inputs = [input]
  outputs : c.outputs = [out]
  present : input ≠ kNoTensor
  float : Cpu.onnxToIsFloat (c.attr.geti (str "to") 1) = true
  marked : markedFloat g input = true
  inner : out ∉ g.outputs

theorem redundantCast_iff {c : Node} : redundantCast g c = true ↔
    RedundantCast g c (c.inputs.headD kNoTensor) (c.outputs.headD kNoTensor) := by
  have single : ∀ ts : List TensorId, ts = [ts.headD kNoTensor] ↔ ts.length = 1 := by
    intro ts
    match ts with
    | [] => simp
    | [t] => simp
    | t :: u :: rest => simp
  simp only [redundantCast, Bool.and_eq_true, decide_eq_true_eq, Bool.not_eq_true',
    contains_eq_mem, decide_eq_false_iff_not]
  constructor
  · rintro ⟨⟨⟨⟨⟨⟨type, one⟩, one'⟩, present⟩, float⟩, marked⟩, inner⟩
    exact ⟨type, (single _).mpr one, (single _).mpr one', present, float, marked, inner⟩
  · intro cast
    exact ⟨⟨⟨⟨⟨⟨cast.type, (single _).mp cast.inputs⟩, (single _).mp cast.outputs⟩, cast.present⟩,
      cast.float⟩, cast.marked⟩, cast.inner⟩

variable {c : Node} {input out : TensorId}

theorem RedundantCast.out_present (cast : RedundantCast g c input out) (ready : FloatCastReady g)
    (mem : c ∈ g.nodes) : out ≠ kNoTensor := by
  rintro rfl
  exact (ready.casts c mem cast.type).1 (by simp [cast.outputs])

theorem RedundantCast.written (cast : RedundantCast g c input out) (ready : FloatCastReady g)
    (mem : c ∈ g.nodes) : out ∈ writesOf c :=
  Cpu.mem_writesOf.mpr ⟨by simp [cast.outputs], cast.out_present ready mem⟩

theorem RedundantCast.marked_out (cast : RedundantCast g c input out) (ready : FloatCastReady g)
    (mem : c ∈ g.nodes) : markedFloat g out = true := by
  rw [markedFloat, marks_written ready mem (cast.written ready mem),
    outputMark_any (by rw [cast.type]; decide), cast.type]
  exact cast.float

theorem RedundantCast.value (cast : RedundantCast g c input out)
    (bare : c.attr.has (str "pw_steps") = false) (e : TensorId → Lanes F) :
    (Cpu.operatorMachine K.toOperators g).value c e out = (e input).toFloats K.widen := by
  have other : Cpu.plainIdentity c = false := by simp [Cpu.plainIdentity, cast.type]
  have operand : Cpu.tensorOf e input = some (e input) := if_neg cast.present
  change (Cpu.runOperator K.toOperators g c e).getD (c.outputs.idxOf out) K.unset = _
  rw [Cpu.runOperator, if_neg (by rw [other]; exact Bool.false_ne_true), cast.inputs, map_cons,
    operand, K.floatCast (Cpu.operation g c) (e input) _ _ _ cast.type bare cast.float, cast.outputs]
  simp

/-! ## Reading through casts -/

def readThrough (σ : TensorId → TensorId) (nn : Node) : Node := { nn with inputs := nn.inputs.map σ }

theorem rewireInputs_readThrough (gone kept : TensorId) (σ : TensorId → TensorId) (nn : Node) :
    rewireInputs gone kept (readThrough σ nn) =
      readThrough (fun t => redirect gone kept (σ t)) nn := by
  simp [rewireInputs, readThrough, Function.comp_def]

theorem headD_map {σ : TensorId → TensorId} (absent : σ kNoTensor = kNoTensor) (ts : List TensorId) :
    (ts.map σ).headD kNoTensor = σ (ts.headD kNoTensor) := by
  cases ts with
  | nil => exact absent.symm
  | cons t rest => rfl

def GoneTensor (g : Graph) (st : CastState) (t : TensorId) : Prop :=
  ∃ j ∈ st.remove, ∃ c, g.nodes[j]? = some c ∧ t = c.outputs.headD kNoTensor

/-- What holds before a position is visited: the redundant casts so far are removed, and every node
reads through them. -/
structure CastInv (g : Graph) (σ : TensorId → TensorId) (st : CastState) (i : Nat) : Prop where
  nodes : st.nodes = g.nodes.map (readThrough σ)
  remove : ∀ j, j ∈ st.remove ↔ j < i ∧ ∃ c, g.nodes[j]? = some c ∧ redundantCast g c = true
  absent : ∀ t, σ t = kNoTensor ↔ t = kNoTensor
  marked : ∀ t, markedFloat g (σ t) = markedFloat g t

/-- What holds besides, when the removed casts are copies and feed operands only. -/
structure CastRuns (K : LaneOperators F) (g : Graph) (e : TensorId → Lanes F)
    (σ : TensorId → TensorId) (st : CastState) : Prop where
  ordered : signature.Ordered (keptFrom st.remove 0 st.nodes)
  fed : signature.Fed (fun t => ¬ External g t) (keptFrom st.remove 0 st.nodes)
  fresh : ∀ t, ¬ GoneTensor g st (σ t)
  through : ∀ t, ran K g e (σ t) = ran K g e t
  runs : ∀ t, ¬ GoneTensor g st t →
    perform K.toOperators g (keptFrom st.remove 0 st.nodes) e t = ran K g e t

/-- Whether a cast goes does not change while the nodes read through others. -/
theorem redundantCast_readThrough {σ : TensorId → TensorId}
    (absent : ∀ t, σ t = kNoTensor ↔ t = kNoTensor)
    (marked : ∀ t, markedFloat g (σ t) = markedFloat g t) (c : Node) :
    redundantCast g (readThrough σ c) = redundantCast g c := by
  have head := headD_map ((absent kNoTensor).mpr rfl) c.inputs
  have present : decide (σ (c.inputs.headD kNoTensor) ≠ kNoTensor) =
      decide (c.inputs.headD kNoTensor ≠ kNoTensor) :=
    decide_eq_decide.mpr (not_congr (absent _))
  unfold redundantCast
  change (_ && decide ((c.inputs.map σ).length = 1) && _ &&
    decide ((c.inputs.map σ).headD kNoTensor ≠ kNoTensor) && _ &&
    markedFloat g ((c.inputs.map σ).headD kNoTensor) && _) = _
  rw [length_map, head, present, marked]
  rfl

theorem RedundantCast.readThrough {σ : TensorId → TensorId} (cast : RedundantCast g c input out)
    (absent : ∀ t, σ t = kNoTensor ↔ t = kNoTensor)
    (marked : ∀ t, markedFloat g (σ t) = markedFloat g t) :
    RedundantCast g (readThrough σ c) (σ input) out where
  type := cast.type
  inputs := by rw [Vknn.Import.readThrough, cast.inputs]; rfl
  outputs := cast.outputs
  present := mt (absent input).mp cast.present
  float := cast.float
  marked := (marked input).trans cast.marked
  inner := cast.inner

/-! ## Which casts go -/

variable {σ : TensorId → TensorId} {st : CastState} {i : Nat}

theorem castInv_start : CastInv g id { nodes := g.nodes } 0 where
  nodes := by
    change g.nodes = g.nodes.map fun nn => { nn with inputs := nn.inputs.map id }
    simp
  remove j := by simp
  absent _ := Iff.rfl
  marked _ := rfl

/-- The names at the next position: the result of a redundant cast becomes its operand. -/
def nextNames (g : Graph) (σ : TensorId → TensorId) (c : Node) : TensorId → TensorId :=
  if redundantCast g c then fun t =>
    redirect (c.outputs.headD kNoTensor) (σ (c.inputs.headD kNoTensor)) (σ t)
  else σ

/-- **Visiting a position keeps what holds.** -/
theorem castInv_step (ready : FloatCastReady g) (inv : CastInv g σ st i) (here : g.nodes[i]? = some c) :
    CastInv g (nextNames g σ c) (castStep g st i) (i + 1) ∧
    (castStep g st i).remove = if redundantCast g c then i :: st.remove else st.remove := by
  have mem : c ∈ g.nodes := mem_of_getElem? here
  have there : st.nodes[i]? = some (readThrough σ c) := by
    rw [inv.nodes, getElem?_map, here]
    rfl
  have next : ∀ j (dead : List Nat), (j ∈ dead ↔ (j = i ∧ redundantCast g c = true) ∨ j ∈ st.remove) →
      (j ∈ dead ↔ j < i + 1 ∧ ∃ c, g.nodes[j]? = some c ∧ redundantCast g c = true) := by
    intro j dead listed
    rw [listed, inv.remove j]
    constructor
    · rintro (⟨rfl, redundant⟩ | ⟨before, rest⟩)
      · exact ⟨Nat.lt_succ_self _, c, here, redundant⟩
      · exact ⟨Nat.lt_succ_of_lt before, rest⟩
    · rintro ⟨before, c', found, redundant⟩
      rcases Nat.lt_succ_iff_lt_or_eq.mp before with earlier | rfl
      · exact Or.inr ⟨earlier, c', found, redundant⟩
      · obtain rfl := Option.some.inj (here.symm.trans found)
        exact Or.inl ⟨rfl, redundant⟩
  unfold castStep nextNames
  rw [there]
  dsimp only
  rw [redundantCast_readThrough inv.absent inv.marked]
  cases redundant : redundantCast g c with
  | false =>
    refine ⟨⟨inv.nodes, fun j => next j _ ?_, inv.absent, inv.marked⟩, rfl⟩
    simp [redundant]
  | true =>
    have cast := redundantCast_iff.mp redundant
    have present := cast.out_present ready mem
    have head := headD_map ((inv.absent kNoTensor).mpr rfl) c.inputs
    have kept : σ (c.inputs.headD kNoTensor) ≠ kNoTensor := mt (inv.absent _).mp cast.present
    refine ⟨⟨?_, fun j => next j _ ?_, fun t => ?_, fun t => ?_⟩, rfl⟩
    · change st.nodes.map (rewireInputs (c.outputs.headD kNoTensor)
        ((c.inputs.map σ).headD kNoTensor)) = _
      rw [head, inv.nodes, map_map]
      exact map_congr_left fun n _ => rewireInputs_readThrough _ _ σ n
    · simp [redundant]
    · have same := Cpu.redirect_ne_none present kept (σ t)
      exact (not_iff_not.mp same).trans (inv.absent t)
    · change markedFloat g (redirect _ _ (σ t)) = _
      by_cases goes : σ t = c.outputs.headD kNoTensor
      · rw [goes, redirect_gone, inv.marked, cast.marked, ← inv.marked t, goes,
          cast.marked_out ready mem]
      · rw [redirect_of_ne goes, inv.marked]

/-! ## Where every removed cast is a copy -/

/-- Redundant casts read numbers, and no residual and no bias of another node is the result of one. -/
structure CastsHarmless (K : LaneOperators F) (g : Graph) (e : TensorId → Lanes F) : Prop where
  numbers : ∀ c ∈ g.nodes, redundantCast g c = true →
    (ran K g e (c.inputs.headD kNoTensor)).isInt = false
  operands : ∀ c ∈ g.nodes, redundantCast g c = true → ∀ n ∈ g.nodes, redundantCast g n = false →
    n.fusedResidual ≠ c.outputs.headD kNoTensor ∧ n.fusedBias ≠ c.outputs.headD kNoTensor

/-- A redundant cast that reads numbers gives what it reads. -/
theorem RedundantCast.copies (cast : RedundantCast g c input out) (ready : FloatCastReady g)
    (mem : c ∈ g.nodes) (number : (ran K g e input).isInt = false) :
    ran K g e out = ran K g e input := by
  have bare := (ready.casts c mem cast.type).2.2.2
  have solved := Machine.solved_run (M := Cpu.operatorMachine K.toOperators g) ready.ordered
    e c mem out (cast.written ready mem)
  refine solved.trans ((cast.value bare _).trans ?_)
  exact (Lanes.toFloats_eq_self_iff K.widen _).mpr number

theorem castRuns_start (ready : FloatCastReady g) : CastRuns K g e id { nodes := g.nodes } := by
  have live : keptFrom [] 0 g.nodes = g.nodes := keptFrom_nil 0 g.nodes
  have none : ∀ t, ¬ GoneTensor g { nodes := g.nodes } t := by
    rintro t ⟨j, mem, -⟩
    cases mem
  refine ⟨?_, ?_, none, fun _ => rfl, fun t _ => ?_⟩
  · rw [live]
    exact ready.ordered
  · rw [live]
    exact ready.fed
  · rw [live]
    rfl

/-- The nodes that are left around a redundant cast. -/
theorem castStep_split (inv : CastInv g σ st i) (here : g.nodes[i]? = some c)
    (redundant : redundantCast g c = true) : ∃ front back,
      keptFrom st.remove 0 st.nodes = front ++ readThrough σ c :: back ∧
      keptFrom (castStep g st i).remove 0 (castStep g st i).nodes = (front ++ back).map
          (rewireInputs (c.outputs.headD kNoTensor) (σ (c.inputs.headD kNoTensor))) ∧
      ∀ n ∈ front ++ back, ∃ n' ∈ g.nodes, n = readThrough σ n' := by
  have there : st.nodes[i]? = some (readThrough σ c) := by
    rw [inv.nodes, getElem?_map, here]
    rfl
  have alive : i ∉ st.remove := fun gone => lt_irrefl i ((inv.remove i).mp gone).1
  obtain ⟨front, back, before, after⟩ := keptFrom_drop there alive
  refine ⟨front, back, before, ?_, fun n mem => ?_⟩
  · rw [← after, ← keptFrom_map]
    unfold castStep
    rw [there]
    dsimp only
    rw [redundantCast_readThrough inv.absent inv.marked, if_pos redundant]
    rw [← headD_map ((inv.absent kNoTensor).mpr rfl) c.inputs]
    rfl
  · rw [← after] at mem
    obtain ⟨j, found, -⟩ := mem_keptFrom.mp mem
    rw [inv.nodes, getElem?_map] at found
    obtain ⟨n', original, rfl⟩ := Option.map_eq_some_iff.mp found
    exact ⟨n', mem_of_getElem? original, rfl⟩

/-- **Visiting a position keeps what the tensors hold.** -/
theorem castRuns_step (ready : FloatCastReady g) (harmless : CastsHarmless K g e)
    (inv : CastInv g σ st i) (runs : CastRuns K g e σ st) (here : g.nodes[i]? = some c) :
    CastRuns K g e (nextNames g σ c) (castStep g st i) := by
  have mem : c ∈ g.nodes := mem_of_getElem? here
  have removed := (castInv_step ready inv here).2
  have there : st.nodes[i]? = some (readThrough σ c) := by
    rw [inv.nodes, getElem?_map, here]
    rfl
  cases redundant : redundantCast g c with
  | false =>
    have same : castStep g st i = st := by
      unfold castStep
      rw [there]
      dsimp only
      rw [redundantCast_readThrough inv.absent inv.marked, redundant]
      rfl
    rw [nextNames, redundant, same]
    exact runs
  | true =>
    have cast := redundantCast_iff.mp redundant
    have through := cast.readThrough inv.absent inv.marked
    have present := cast.out_present ready mem
    have bare := (ready.casts c mem cast.type).2.2.2
    have number := harmless.numbers c mem redundant
    have copied := cast.copies ready mem number
    obtain ⟨front, back, before, after, origin⟩ := castStep_split inv here redundant
    rw [redundant, if_pos rfl] at removed
    have names : nextNames g σ c = fun t => redirect (c.outputs.headD kNoTensor)
        (σ (c.inputs.headD kNoTensor)) (σ t) := by
      rw [nextNames, if_pos redundant]
    rw [names]
    clear names
    generalize c.inputs.headD kNoTensor = input at *
    generalize output : c.outputs.headD kNoTensor = out at *
    have gone : ∀ t, GoneTensor g (castStep g st i) t ↔ t = out ∨ GoneTensor g st t := by
      intro t
      unfold GoneTensor
      rw [removed]
      constructor
      · rintro ⟨j, listed, c', found, rfl⟩
        rcases mem_cons.mp listed with rfl | old
        · obtain rfl := Option.some.inj (here.symm.trans found)
          exact Or.inl output
        · exact Or.inr ⟨j, old, c', found, rfl⟩
      · rintro (rfl | ⟨j, old, rest⟩)
        · exact ⟨i, mem_cons_self, c, here, output.symm⟩
        · exact ⟨j, mem_cons_of_mem _ old, rest⟩
    have drops : signature.Drops front (readThrough σ c) back (σ input) out out (σ input) := by
      refine ⟨before ▸ runs.ordered, ⟨?_, ?_⟩, Or.inl ⟨rfl, rfl⟩⟩
      · refine Cpu.mem_readsOf_of_input ?_ through.present
        rw [through.inputs]
        exact mem_singleton_self _
      · change (readThrough σ c).outputs.filter (· ≠ kNoTensor) = _
        rw [through.outputs, filter_cons_of_pos (by simp [present]), filter_nil]
    -- Away from the cast, reading its operand for its result is renaming.
    have renamed : ∀ n ∈ front ++ back, out ∉ n.outputs ∧
        rewireInputs out (σ input) n = renameNode out (σ input) n := by
      intro n inside
      have absent : out ∉ n.outputs := fun again =>
        drops.result_once inside (Cpu.mem_writesOf.mpr ⟨again, present⟩)
      refine ⟨absent, ?_⟩
      obtain ⟨n', mem', rfl⟩ := origin n inside
      have edges : n'.fusedResidual ≠ out ∧ n'.fusedBias ≠ out := by
        cases other : redundantCast g n' with
        | false => exact output ▸ harmless.operands c mem redundant n' mem' other
        | true =>
          obtain ⟨-, residual, bias, -⟩ := ready.casts n' mem' (redundantCast_iff.mp other).type
          rw [residual, bias]
          exact ⟨present.symm, present.symm⟩
      rw [renameNode_of_not_written absent]
      change _ = { rewireInputs out (σ input) (readThrough σ n') with
        fusedResidual := redirect out (σ input) n'.fusedResidual
        fusedBias := redirect out (σ input) n'.fusedBias }
      rw [redirect_of_ne edges.1, redirect_of_ne edges.2]
      rfl
    rw [map_congr_left fun n inside => (renamed n inside).2] at after
    have renames : ∀ n ∈ front ++ back, signature.Renames (redirect out (σ input)) n
        (renameNode out (σ input) n) :=
      fun n _ => Cpu.renames_renameNode present through.present n
    -- The operand holds what it held, so the cast that is left is a copy, too.
    have value : ∀ t, ¬ GoneTensor g st t → perform K.toOperators g
        (front ++ readThrough σ c :: back) e t = ran K g e t := before ▸ runs.runs
    have held := value _ (runs.fresh input)
    have here' : perform K.toOperators g ((front ++ back).map (renameNode out (σ input))) e =
        perform K.toOperators g
          (keptFrom (castStep g st i).remove 0 (castStep g st i).nodes) e := by rw [after]
    refine ⟨?_, ?_, ?_, ?_, ?_⟩
    · rw [after]
      exact drops.ordered_map renames
    · rw [after]
      exact drops.fed_map renames (before ▸ runs.fed)
    · intro t goes
      rw [gone] at goes
      by_cases same : σ t = out
      · rw [same, redirect_gone] at goes
        rcases goes with cycle | old
        · exact drops.source_ne cycle
        · exact runs.fresh input old
      · rw [redirect_of_ne same] at goes
        rcases goes with again | old
        · exact same again
        · exact runs.fresh t old
    · intro t
      by_cases same : σ t = out
      · calc ran K g e (redirect out (σ input) (σ t))
            = ran K g e (σ input) := by rw [same, redirect_gone]
          _ = ran K g e input := runs.through input
          _ = ran K g e out := copied.symm
          _ = ran K g e (σ t) := by rw [same]
          _ = ran K g e t := runs.through t
      · rw [redirect_of_ne same]
        exact runs.through t
    · intro t stays
      rw [gone, not_or] at stays
      rw [← here']
      refine Eq.trans ?_ (value t stays.2)
      refine Machine.run_drops (M := Cpu.operatorMachine K.toOperators g) drops renames ?_
        (fun n inside e t written => value_renameNode drops present through.present
          (Or.inr (renamed n inside).1) inside K.toOperators e written) stays.1
      refine (through.value bare _).trans ?_
      refine (Lanes.toFloats_eq_self_iff K.widen _).mpr ?_
      change (perform K.toOperators g (front ++ readThrough σ c :: back) e (σ input)).isInt = false
      rw [held, runs.through]
      exact number

/-! ## The pass -/

/-- **What the pass does**, whether or not it is sound: it removes the casts that are redundant in the
graph it is given, and the other nodes read through them. -/
theorem castInv_all (ready : FloatCastReady g) : ∃ σ, CastInv g σ (castRun g) g.nodes.length ∧
    (CastsHarmless K g e → CastRuns K g e σ (castRun g)) := by
  have upTo : ∀ n ≤ g.nodes.length, ∃ σ,
      CastInv g σ ((List.range n).foldl (castStep g) { nodes := g.nodes }) n ∧
      (CastsHarmless K g e →
        CastRuns K g e σ ((List.range n).foldl (castStep g) { nodes := g.nodes })) := by
    intro n
    induction n with
    | zero => exact fun _ => ⟨id, castInv_start, fun _ => castRuns_start ready⟩
    | succ n ih =>
      intro small
      obtain ⟨σ, inv, runs⟩ := ih (Nat.le_of_succ_le small)
      have here : g.nodes[n]? = some (g.nodes[n]) := getElem?_eq_getElem small
      rw [range_succ, foldl_append, foldl_cons, foldl_nil]
      exact ⟨_, (castInv_step ready inv here).1,
        fun harmless => castRuns_step ready harmless inv (runs harmless) here⟩
  exact upTo g.nodes.length le_rfl

theorem CastInv.mem_remove (inv : CastInv g σ (castRun g) g.nodes.length) {j : Nat} {n : Node}
    (found : g.nodes[j]? = some n) : j ∈ (castRun g).remove ↔ redundantCast g n = true := by
  rw [inv.remove]
  constructor
  · rintro ⟨-, n', found', redundant⟩
    rwa [Option.some.inj (found.symm.trans found')]
  · exact fun redundant => ⟨(List.getElem?_eq_some_iff.mp found).1, n, found, redundant⟩

theorem CastInv.result (inv : CastInv g σ (castRun g) g.nodes.length) :
    (eliminateFloatCast g).nodes = (keptFrom (castRun g).remove 0 g.nodes).map (readThrough σ) := by
  change keptFrom (castRun g).remove 0 (castRun g).nodes = _
  rw [inv.nodes, keptFrom_map]

/-- **Harmless casts are removed soundly.** -/
theorem sound_of_harmless (input : FloatCastInput g) (harmless : CastsHarmless K g e) :
    CastsSound K g e := by
  have ready := input.toFloatCastReady
  obtain ⟨σ, inv, runs⟩ := castInv_all (K := K) (e := e) ready
  have runs := runs harmless
  have result := inv.result
  have fed : signature.Fed (fun t => ¬ External g t) (eliminateFloatCast g).nodes := runs.fed
  have after : ∀ t, ¬ GoneTensor g (castRun g) t → ran K (eliminateFloatCast g) e t = ran K g e t :=
    runs.runs
  -- What a node that is left reads is there.
  have read : ∀ nd ∈ (eliminateFloatCast g).nodes, ∀ t ∈ nd.reads, t ≠ kNoTensor →
      Available g (eliminateFloatCast g).nodes t := by
    intro nd mem t listed present
    by_cases outside : External g t
    · exact Or.inl outside
    · exact Or.inr (fed nd mem t (Cpu.mem_readsOf.mpr ⟨listed, present⟩) outside)
  refine ⟨fun i removed c here => ?_, ?_, fun t output => ?_⟩
  · have redundant := (inv.mem_remove here).mp removed
    have mem := mem_of_getElem? here
    have number := harmless.numbers c mem redundant
    exact ⟨number, (redundantCast_iff.mp redundant).copies ready mem number⟩
  · rw [result, forall₂_map_right_iff, forall₂_same]
    intro nd left
    obtain ⟨j, found, alive⟩ := mem_keptFrom.mp left
    have mem := mem_of_getElem? found
    have among : readThrough σ nd ∈ (eliminateFloatCast g).nodes := by
      rw [result]
      exact mem_map_of_mem left
    have other : redundantCast g nd = false := by
      rw [← Bool.not_eq_true]
      exact mt (inv.mem_remove found).mpr alive
    have edge : ∀ t ∈ [nd.fusedResidual, nd.fusedBias], SameEdge K g e t t := by
      intro t listed
      have stays : ¬ GoneTensor g (castRun g) t := by
        rintro ⟨i, removed, c, here, rfl⟩
        have edges := harmless.operands c (mem_of_getElem? here)
          ((inv.mem_remove here).mp removed) nd mem other
        simp only [mem_cons, not_mem_nil, or_false] at listed
        rcases listed with same | same
        · exact edges.1 same.symm
        · exact edges.2 same.symm
      refine ⟨Iff.rfl, read _ among t (mem_append_right _ ?_), fun _ => after t stays⟩
      exact listed
    refine rel_append ?_ ?_
    · change List.Forall₂ _ nd.inputs (nd.inputs.map σ)
      rw [forall₂_map_right_iff, forall₂_same]
      intro t listed
      refine ⟨inv.absent t, fun present => ?_, fun _ => ?_⟩
      · exact read _ among (σ t) (mem_append_left _ (mem_map_of_mem listed))
          (mt (inv.absent t).mp present)
      · exact (after _ (runs.fresh t)).trans (runs.through t)
    · exact forall₂_same.mpr edge
  · have stays : ¬ GoneTensor g (castRun g) t := by
      rintro ⟨i, removed, c, here, rfl⟩
      exact (redundantCast_iff.mp ((inv.mem_remove here).mp removed)).inner output
    refine ⟨Iff.rfl, fun present => ?_, fun _ => after t stays⟩
    rcases input.outputs t output present with outside | ⟨n, mem, written⟩
    · exact Or.inl outside
    · refine Or.inr ⟨readThrough σ n, ?_, written⟩
      obtain ⟨j, found⟩ := mem_iff_getElem?.mp mem
      rw [result]
      refine mem_map_of_mem (mem_keptFrom.mpr ⟨j, found, fun removed => stays ?_⟩)
      refine ⟨j, removed, n, found, ?_⟩
      have cast := redundantCast_iff.mp ((inv.mem_remove found).mp removed)
      have listed := (Cpu.mem_writesOf.mp written).1
      rw [cast.outputs] at listed
      exact mem_singleton.mp listed

/-- **A sound removal is one of harmless casts.** -/
theorem harmless_of_sound (input : FloatCastInput g) (sound : CastsSound K g e) :
    CastsHarmless K g e := by
  have ready := input.toFloatCastReady
  obtain ⟨σ, inv, -⟩ := castInv_all (K := K) (e := e) ready
  have result := inv.result
  constructor
  · intro c mem redundant
    obtain ⟨i, here⟩ := mem_iff_getElem?.mp mem
    exact (sound.identity i ((inv.mem_remove here).mpr redundant) c here).1
  · intro c mem redundant n mem' other
    obtain ⟨i, here⟩ := mem_iff_getElem?.mp mem
    obtain ⟨j, there⟩ := mem_iff_getElem?.mp mem'
    have cast := redundantCast_iff.mp redundant
    have written := cast.written ready mem
    have left : n ∈ keptFrom (castRun g).remove 0 g.nodes := by
      refine mem_keptFrom.mpr ⟨j, there, ?_⟩
      rw [inv.mem_remove there, other]
      exact Bool.false_ne_true
    -- Nobody who is left writes the result of a removed cast.
    have lost : ¬ Available g (eliminateFloatCast g).nodes (c.outputs.headD kNoTensor) := by
      rintro (outside | ⟨m, among, written'⟩)
      · exact (ready.made c mem _ written).1 outside
      · rw [result] at among
        obtain ⟨m', left', rfl⟩ := mem_map.mp among
        obtain ⟨k, found, alive⟩ := mem_keptFrom.mp left'
        have apart : i ≠ k := by
          rintro rfl
          exact alive ((inv.mem_remove here).mpr redundant)
        exact ready.ordered.once here found apart written written'
    have edges := sound.edges
    rw [result, forall₂_map_right_iff, forall₂_same] at edges
    have both : List.Forall₂ (SameEdge K g e) (n.inputs ++ [n.fusedResidual, n.fusedBias])
        (n.inputs.map σ ++ [n.fusedResidual, n.fusedBias]) := edges n left
    have tail := forall₂_drop_append _ _ _ both
    rw [length_map, drop_left, forall₂_same] at tail
    have apart : ∀ t ∈ [n.fusedResidual, n.fusedBias], t ≠ c.outputs.headD kNoTensor := by
      rintro t listed rfl
      exact lost ((tail _ listed).there (cast.out_present ready mem))
    exact ⟨apart _ mem_cons_self, apart _ (mem_cons_of_mem _ mem_cons_self)⟩

/-- A sum of integers that is cast to numbers. -/
def countedSum : Graph where
  tensors := [{ name := str "x", shape := [4], dtype := .int64, isInput := true },
    { name := str "sum", shape := [1] }, { name := str "cast", shape := [1] },
    { name := str "y", shape := [1], isOutput := true }]
  nodes := [{ type := .reduce, inputs := [0], outputs := [1], subOp := 1 },
    { type := .cast, inputs := [1], outputs := [2] },
    { type := .unary, inputs := [2], outputs := [3] }]
  inputs := [0]
  outputs := [3]

/-- A cast of numbers that a residual reads. -/
def castResidual : Graph where
  tensors := [{ name := str "x", shape := [4], isInput := true }, { name := str "cast", shape := [4] },
    { name := str "y", shape := [4], isOutput := true }]
  nodes := [{ type := .cast, inputs := [0], outputs := [1] },
    { type := .conv, inputs := [0], outputs := [2], fusedResidual := 1 }]
  inputs := [0]
  outputs := [2]

def castChain : Graph where
  tensors := [{ name := str "x", shape := [4], isInput := true }, { name := str "a", shape := [4] },
    { name := str "b", shape := [4], dtype := .float16 },
    { name := str "y", shape := [4], isOutput := true }]
  nodes := [{ type := .cast, inputs := [0], outputs := [1] },
    { type := .cast, inputs := [1], outputs := [2] },
    { type := .add, inputs := [1, 2], outputs := [3] }]
  inputs := [0]
  outputs := [3]

theorem floatCastInput_countedSum : FloatCastInput countedSum :=
  ⟨⟨by decide, by decide, by decide, by decide, by decide⟩,
    by decide⟩

theorem floatCastInput_castResidual : FloatCastInput castResidual :=
  ⟨⟨by decide, by decide, by decide, by decide, by decide⟩,
    by decide⟩

theorem floatCastInput_castChain : FloatCastInput castChain :=
  ⟨⟨by decide, by decide, by decide, by decide, by decide⟩,
    by decide⟩

end Vknn.Import
