import Vknn.Import.EliminateFloatCast
import Vknn.Import.IdentityCopies
import Mathlib.Data.List.Induction

/-!
# Tensors that are marked as numbers and hold integers

On an ordered graph the walk computes, for each tensor that a node makes, a mark from the
final marks of what the node reads.  The marks and the storage can then be compared node by
node.  They part at four kinds of nodes: a reduction that keeps integers, an operator on a
mixed pair, a constant that is made from a shape marked as numbers, and a tensor bound from
outside.  Nodes that keep the storage of what they read pass such a tensor on.
-/

namespace Vknn.Import

open List Cpu Dataflow

/-- A graph the pass is run on: the nodes are in order, what they read is there, they write no
constant and no graph input, and a cast has one result, no epilogue and no fused operand. -/
structure FloatCastReady (g : Graph) : Prop where
  ordered : signature.Ordered g.nodes
  fed : signature.Fed (fun t => ¬ External g t) g.nodes
  made : ∀ nd ∈ g.nodes, ∀ t ∈ writesOf nd, ¬ External g t ∧ (g.desc t).isInitializer = false
  inTable : ∀ nd ∈ g.nodes, ∀ t ∈ writesOf nd, 0 ≤ t ∧ t < g.tensors.length
  casts : ∀ nd ∈ g.nodes, nd.type = .cast → kNoTensor ∉ nd.outputs ∧
    nd.fusedResidual = kNoTensor ∧ nd.fusedBias = kNoTensor ∧ nd.attr.has (str "pw_steps") = false

variable {g : Graph}

/-! ## Marks before the walk -/

variable {dt : TypeMarks} {t : TensorId} {d : DType} {n nd : Node}

variable {id : TensorId} {k : Nat} {dt' : TypeMarks}

theorem setKnown_of_ne (other : t ≠ id) : setKnown g dt id d t = dt t := by
  unfold setKnown
  split
  · exact Function.update_of_ne other _ _
  · rfl

theorem setKnown_self
    (inside : 0 ≤ id ∧ id < g.tensors.length) : setKnown g dt id d id = some d := by
  rw [setKnown, if_pos inside, Function.update_self]

theorem foldl_of_leaves {ι : Type} {ids : List ι} {f : TypeMarks → ι → TypeMarks}
    (leaves : ∀ dt, ∀ i ∈ ids, f dt i t = dt t) (dt : TypeMarks) :
    ids.foldl f dt t = dt t := by
  induction ids generalizing dt with
  | nil => rfl
  | cons i ids ih =>
    rw [foldl_cons, ih fun dt j mem => leaves dt j (mem_cons_of_mem _ mem)]
    exact leaves dt i mem_cons_self

/-- A tensor that is neither a constant nor a graph input is not marked before the walk. -/
theorem seedMarks_eq_none (constant : (g.desc t).isInitializer = false)
    (input : t ∉ g.inputs) : seedMarks g t = none := by
  unfold seedMarks
  rw [foldl_of_leaves fun dt id mem => ?_, foldl_of_leaves fun dt k _ => ?_]
  · split
    · rename_i seeded
      refine setKnown_of_ne fun same => ?_
      rw [← same, constant] at seeded
      cases seeded
    · rfl
  · refine setKnown_of_ne fun same => input ?_
    rw [same]
    exact mem

/-! ## The walk as a run -/

/-- The mark that a node gives one of its outputs. -/
def outputMark (nd : Node) (dt : TypeMarks) (t : TensorId) : Option DType :=
  if nd.type = .topK then
    match if t = nd.outputs.headD kNoTensor then knownAt dt (nd.inputs.headD kNoTensor) else none with
    | some d => some d
    | none => if 1 < nd.outputs.length ∧ t = nd.outputs.getD 1 kNoTensor then some .int64 else none
  else resultMark dt nd

theorem getD_mem_of_ne {ts : List TensorId} (present : ts.getD k kNoTensor ≠ kNoTensor) :
    ts.getD k kNoTensor ∈ ts := by
  rw [getD_eq_getElem?_getD] at present ⊢
  cases found : ts[k]? with
  | none =>
    rw [found] at present
    exact absurd rfl present
  | some t => exact mem_of_getElem? found

/-- The mark of an operand depends on what the node reads. -/
theorem knownAt_congr
    (agree : ∀ t ∈ readsOf nd, dt t = dt' t) (k : Nat) :
    knownAt dt (nd.inputs.getD k kNoTensor) = knownAt dt' (nd.inputs.getD k kNoTensor) := by
  unfold knownAt
  split
  · rfl
  · rename_i present
    exact agree _ (mem_readsOf_of_input (getD_mem_of_ne present) present)

theorem outputMark_congr
    (agree : ∀ t ∈ readsOf nd, dt t = dt' t) (t : TensorId) :
    outputMark nd dt t = outputMark nd dt' t := by
  have first := knownAt_congr agree 0
  have primary := knownAt_congr agree (if nd.type = .where then 1 else 0)
  rw [← headD_eq_getD] at first
  unfold outputMark resultMark primaryInput
  rw [first, primary]

def markMachine : Machine Node TensorId (Option DType) where
  toSignature := signature
  value := outputMark
  depends _ _ _ agree t _ := outputMark_congr agree t

theorem setKnown_output {o : TensorId}
    (inside : o ≠ kNoTensor → 0 ≤ o ∧ o < g.tensors.length) :
    setKnown g dt o d t = if t ≠ kNoTensor ∧ t = o then some d else dt t := by
  by_cases same : t = o
  · subst same
    by_cases present : t = kNoTensor
    · rw [if_neg (fun here => here.1 present), setKnown, if_neg]
      rw [present]
      exact fun within => absurd within.1 (by decide)
    · rw [if_pos ⟨present, rfl⟩, setKnown_self (inside present)]
  · rw [if_neg (fun here => same here.2), setKnown_of_ne same]

/-- Marking the outputs of a list one after another. -/
theorem foldl_setKnown {os : List TensorId}
    (inside : ∀ o ∈ os, o ≠ kNoTensor → 0 ≤ o ∧ o < g.tensors.length) :
    os.foldl (fun dt o => setKnown g dt o d) dt t =
      if t ≠ kNoTensor ∧ t ∈ os then some d else dt t := by
  induction os generalizing dt with
  | nil => simp
  | cons o os ih =>
    rw [foldl_cons, ih fun o mem => inside o (mem_cons_of_mem _ mem),
      setKnown_output (inside o mem_cons_self)]
    by_cases absent : t = kNoTensor <;> by_cases here : t = o <;> by_cases later : t ∈ os <;>
      simp only [absent, here, later, mem_cons] <;> simp_all

/-- **Marking a node is one step of that machine**, on tensors that are not marked yet. -/
theorem markNode_eq_step
    (fresh : ∀ t ∈ writesOf nd, dt t = none)
    (inside : ∀ t ∈ writesOf nd, 0 ≤ t ∧ t < g.tensors.length)
    (apart : ∀ t ∈ writesOf nd, t ∉ readsOf nd) :
    markNode g dt nd = markMachine.step dt nd := by
  have listed : ∀ o ∈ nd.outputs, o ≠ kNoTensor → 0 ≤ o ∧ o < g.tensors.length :=
    fun o mem present => inside o (mem_writesOf.mpr ⟨mem, present⟩)
  have getD_inside : ∀ k, nd.outputs.getD k kNoTensor ≠ kNoTensor →
      0 ≤ nd.outputs.getD k kNoTensor ∧ nd.outputs.getD k kNoTensor < g.tensors.length :=
    fun k present => listed _ (getD_mem_of_ne present) present
  funext t
  unfold Machine.step
  change markNode g dt nd t = if t ∈ writesOf nd then outputMark nd dt t else dt t
  unfold markNode outputMark
  by_cases empty : nd.outputs = []
  · rw [if_pos (by rw [empty]; rfl), if_neg fun written => ?_]
    have mem := (mem_writesOf.mp written).1
    rw [empty] at mem
    cases mem
  rw [if_neg (by simpa using empty)]
  by_cases top : nd.type = .topK
  · rw [if_pos top, if_pos top]
    -- The second output is marked first, and is not what the node reads.
    have operand : knownAt (if 1 < nd.outputs.length then
        setKnown g dt (nd.outputs.getD 1 kNoTensor) .int64 else dt) (nd.inputs.headD kNoTensor) =
        knownAt dt (nd.inputs.headD kNoTensor) := by
      unfold knownAt
      split
      · rfl
      · rename_i present
        split
        · refine setKnown_of_ne fun same => ?_
          have read := mem_readsOf_of_input (headD_mem present) present
          refine apart _ (mem_writesOf.mpr ⟨?_, present⟩) read
          rw [same]
          exact getD_mem_of_ne (same ▸ present)
        · rfl
    have second : (if 1 < nd.outputs.length then
        setKnown g dt (nd.outputs.getD 1 kNoTensor) .int64 else dt) t =
        if t ≠ kNoTensor ∧ 1 < nd.outputs.length ∧ t = nd.outputs.getD 1 kNoTensor then some .int64
        else dt t := by
      by_cases more : 1 < nd.outputs.length
      · rw [if_pos more, setKnown_output (getD_inside 1)]
        simp [more]
      · simp [more]
    have headInside : nd.outputs.headD kNoTensor ≠ kNoTensor →
        0 ≤ nd.outputs.headD kNoTensor ∧ nd.outputs.headD kNoTensor < g.tensors.length := by
      have inside := getD_inside 0
      rwa [← headD_eq_getD] at inside
    have written_iff : t ∈ writesOf nd ↔ t ∈ nd.outputs ∧ t ≠ kNoTensor := mem_writesOf
    have headListed : t ≠ kNoTensor → t = nd.outputs.headD kNoTensor → t ∈ nd.outputs := by
      rintro present rfl
      exact headD_mem present
    have secondListed : t ≠ kNoTensor → t = nd.outputs.getD 1 kNoTensor → t ∈ nd.outputs := by
      rintro present rfl
      exact getD_mem_of_ne present
    have unmarked := fresh t
    rw [operand]
    generalize nd.outputs.headD kNoTensor = o at headInside headListed ⊢
    generalize nd.outputs.getD 1 kNoTensor = o' at second secondListed ⊢
    cases knownAt dt (nd.inputs.headD kNoTensor) with
    | none =>
      dsimp only
      rw [second]
      grind
    | some d =>
      dsimp only
      rw [setKnown_output headInside, second]
      grind
  · rw [if_neg top, if_neg top]
    by_cases written : t ∈ writesOf nd
    · obtain ⟨mem, present⟩ := mem_writesOf.mp written
      rw [if_pos written]
      cases resultMark dt nd with
      | none => exact fresh t written
      | some out =>
        dsimp only
        rw [foldl_setKnown listed, if_pos ⟨present, mem⟩]
    · rw [if_neg written]
      cases resultMark dt nd with
      | none => rfl
      | some out =>
        dsimp only
        rw [foldl_setKnown listed, if_neg fun here => written (mem_writesOf.mpr here.symm)]

/-- The walk over ordered nodes is a run, from marks of none of their outputs. -/
theorem foldl_markNode {nodes : List Node} (ordered : signature.Ordered nodes)
    (inside : ∀ nd ∈ nodes, ∀ t ∈ writesOf nd, 0 ≤ t ∧ t < g.tensors.length)
    (fresh : ∀ nd ∈ nodes, ∀ t ∈ writesOf nd, dt t = none) :
    nodes.foldl (markNode g) dt = markMachine.run nodes dt := by
  induction nodes generalizing dt with
  | nil => rfl
  | cons nd nodes ih =>
    obtain ⟨later, rest⟩ := pairwise_cons.mp ordered.before
    rw [foldl_cons, Machine.run_cons,
      markNode_eq_step (fresh nd mem_cons_self) (inside nd mem_cons_self)
        (ordered.self nd mem_cons_self)]
    refine ih ⟨rest, fun n mem => ordered.self n (mem_cons_of_mem _ mem)⟩
      (fun n mem => inside n (mem_cons_of_mem _ mem)) fun n mem t written => ?_
    rw [Machine.step_frame _ (later n mem t written).2]
    exact fresh n (mem_cons_of_mem _ mem) t written

/-- **The mark of a tensor that a node makes** comes from the final marks of what the node reads. -/
theorem marks_written (ready : FloatCastReady g) (mem : n ∈ g.nodes)
    (written : t ∈ writesOf n) : marks g t = outputMark n (marks g) t := by
  have run : marks g = markMachine.run g.nodes (seedMarks g) := by
    refine foldl_markNode ready.ordered ready.inTable fun n inside t made => ?_
    obtain ⟨outside, table⟩ := ready.made n inside t made
    exact seedMarks_eq_none table fun input => outside (Or.inl input)
  have solved := Machine.solved_run (M := markMachine) ready.ordered (seedMarks g)
  rw [← run] at solved
  exact solved n mem t written

/-! ## Storage -/

section Storage

variable (g) (s : TensorId → Bool)

/-- Whether an operand is marked as numbers. -/
def operandMarked (n : Node) (k : Nat) : Bool :=
  (knownAt (marks g) (n.inputs.getD k kNoTensor)).any isFloat

def operandInts (n : Node) : List (Option Bool) := n.inputs.map (tensorOf (storesInt g s))

/-- The first output of a node is marked as numbers and holds integers, and not because the first
operand does: a reduction keeps the integers it is given, a constant holds integers while its
shape is marked as numbers, and arithmetic on a mixed pair, whose primary operand is marked as
numbers, gives integers. -/
def misreads (n : Node) : Bool :=
  let int := intAt (operandInts g s n)
  match n.type with
  | .reduce => int 0 && n.subOp ≠ reduceMean && n.subOp ≠ reduceL2
  | .constant => operandMarked g n 0 && valueKind n.attr ≠ .floats
  | .constantOfShape => operandMarked g n 0 && valueKind n.attr = .ints
  | .range => operandMarked g n 0 && int 0 && int 1 && int 2
  | .binary => operandMarked g n 0 && (int 0 || (int 1 && n.subOp ≠ binaryPow))
  | .where => operandMarked g n 1 && (int 1 || int 2)
  | .concat =>
    operandMarked g n 0 &&
      (coreOperands (operation g n) (operandInts g s n)).any fun o => o.getD false
  | t => mixesStorage t && operandMarked g n 0 && (int 0 || int 1)

/-- Whether a node hands the storage of its first operand to an output. -/
def carries (n : Node) (k : Nat) : Bool :=
  (keepsStorage n.type && k = 0) || n.type = .split || (n.type = .topK && k = 0)

/-- A tensor that is marked as numbers and holds integers, and where it comes from. -/
inductive Misread : TensorId → Prop where
  | bound {t : TensorId} (outside : ∀ n ∈ g.nodes, t ∉ writesOf n)
      (marked : markedFloat g t = true) (int : s t = true) : Misread t
  | made {n : Node} {t : TensorId} (mem : n ∈ g.nodes) (written : t ∈ writesOf n)
      (first : n.outputs.idxOf t = 0) (mixed : misreads g s n = true) : Misread t
  | carried {n : Node} {t : TensorId} (mem : n ∈ g.nodes) (written : t ∈ writesOf n)
      (carries : carries n (n.outputs.idxOf t) = true)
      (present : n.inputs.headD kNoTensor ≠ kNoTensor)
      (operand : Misread (n.inputs.headD kNoTensor)) : Misread t

end Storage

variable {s : TensorId → Bool}

theorem storesInt_written (ready : FloatCastReady g) (mem : n ∈ g.nodes)
    (written : t ∈ writesOf n) : storesInt g s t =
      (outputStorage (operation g n) (operandInts g s n)).getD (n.outputs.idxOf t) false :=
  storage_written ready.ordered s mem written

theorem getD_singleton_iff {b : Bool} : [b].getD k false = true ↔ k = 0 ∧ b = true := by
  cases k <;> simp

theorem outputMark_any (other : n.type ≠ .topK) (t : TensorId) :
    (outputMark n (marks g) t).any isFloat = match n.type with
      | .shape | .equal | .or | .xor | .not | .argMax | .argMin => false
      | .cast => onnxToIsFloat (n.attr.geti (str "to") 1)
      | .where => operandMarked g n 1
      | type => floatResult type || operandMarked g n 0 := by
  rw [outputMark, if_neg other]
  cases type : n.type
  all_goals simp only [resultMark, type, floatResult, operandMarked, primaryInput]
  all_goals first | rfl | skip
  cases onnxToIsFloat (n.attr.geti (str "to") 1) <;> rfl

/-- The mark of the values and of the indices of a selection. -/
theorem outputMark_topK (top : n.type = .topK) (listed : t ∈ n.outputs) :
    (outputMark n (marks g) t).any isFloat = (decide (n.outputs.idxOf t = 0) && operandMarked g n 0) := by
  have head : t = n.outputs.headD kNoTensor ↔ n.outputs.idxOf t = 0 := by
    cases shape : n.outputs with
    | nil =>
      rw [shape] at listed
      cases listed
    | cons o rest =>
      rw [headD_cons, idxOf_cons]
      by_cases same : o = t
      · simp [same]
      · simp [beq_false_of_ne same, Ne.symm same]
  rw [outputMark, if_pos top, operandMarked, ← headD_eq_getD]
  by_cases first : n.outputs.idxOf t = 0
  · rw [if_pos (head.mpr first)]
    cases knownAt (marks g) (n.inputs.headD kNoTensor) with
    | some d => simp [first]
    | none =>
      dsimp only
      split <;> simp [isFloat]
  · rw [if_neg (mt head.mp first)]
    dsimp only
    split <;> simp [first, isFloat]

/-- **When an output is marked as numbers and holds integers.** -/
theorem output_misread_iff (ready : FloatCastReady g) (mem : n ∈ g.nodes)
    (written : t ∈ writesOf n) :
    (markedFloat g t = true ∧ storesInt g s t = true) ↔
      (n.outputs.idxOf t = 0 ∧ misreads g s n = true) ∨
      (carries n (n.outputs.idxOf t) = true ∧ operandMarked g n 0 = true ∧
        intAt (operandInts g s n) 0 = true) := by
  have listed := (mem_writesOf.mp written).1
  have small := idxOf_lt_length_of_mem listed
  rw [markedFloat, marks_written ready mem written, storesInt_written ready mem written]
  by_cases top : n.type = .topK
  · rw [outputMark_topK top listed]
    generalize n.outputs.idxOf t = k
    simp only [outputStorage, operation, top, misreads, carries, keepsStorage, mixesStorage]
    cases k with
    | zero => simp
    | succ k => simp
  · rw [outputMark_any top]
    generalize n.outputs.idxOf t = k at small ⊢
    cases type : n.type
    case cast =>
      -- A cast to numbers is none to integers.
      simp only [outputStorage, operation, type, misreads, carries, keepsStorage,
        mixesStorage, getD_singleton_iff]
      cases float : onnxToIsFloat (n.attr.geti (str "to") 1)
      · simp
      · simp [castsToInteger_of_float float]
    all_goals
      simp only [outputStorage, operation, type, misreads, carries, keepsStorage,
        mixesStorage, floatResult, getD_singleton_iff]
    all_goals grind

/-! ## Where such tensors come from -/

/-- A present operand is marked and stored as its tensor is. -/
theorem operand_of_present (present : n.inputs.headD kNoTensor ≠ kNoTensor) :
    operandMarked g n 0 = markedFloat g (n.inputs.headD kNoTensor) ∧
    intAt (operandInts g s n) 0 = storesInt g s (n.inputs.headD kNoTensor) := by
  cases shape : n.inputs with
  | nil => exact absurd (by rw [shape]; rfl) present
  | cons p rest =>
    rw [shape] at present
    have there : p ≠ kNoTensor := present
    simp [operandMarked, markedFloat, knownAt, operandInts, intAt, tensorOf, shape, there]

theorem present_of_operandInt (int : intAt (operandInts g s n) 0 = true) :
    n.inputs.headD kNoTensor ≠ kNoTensor := by
  cases shape : n.inputs with
  | nil => simp [operandInts, intAt, shape] at int
  | cons p rest =>
    rintro absent
    have absent' : p = kNoTensor := absent
    simp [operandInts, intAt, tensorOf, shape, absent'] at int

theorem storesInt_unwritten (outside : ∀ n ∈ g.nodes, t ∉ writesOf n) : storesInt g s t = s t :=
  Machine.run_frame (operatorMachine storageOperators g) outside s

/-- **Tensors marked as numbers that hold integers** are those that the rules derive. -/
theorem misread_iff (ready : FloatCastReady g) (t : TensorId) :
    Misread g s t ↔ markedFloat g t = true ∧ storesInt g s t = true := by
  constructor
  · intro derived
    induction derived with
    | bound outside marked int => exact ⟨marked, (storesInt_unwritten outside).trans int⟩
    | made mem written first mixed =>
      exact (output_misread_iff ready mem written).mpr (Or.inl ⟨first, mixed⟩)
    | carried mem written carries present _ ih =>
      obtain ⟨marked, int⟩ := operand_of_present (s := s) present
      exact (output_misread_iff ready mem written).mpr
        (Or.inr ⟨carries, marked.trans ih.1, int.trans ih.2⟩)
  · -- By the position of the node that makes the tensor: what that reads was made before.
    have upTo : ∀ front back, g.nodes = front ++ back → ∀ t, (∀ n ∈ back, t ∉ writesOf n) →
        markedFloat g t = true ∧ storesInt g s t = true → Misread g s t := by
      intro front
      induction front using List.reverseRecOn with
      | nil =>
        intro back split t untouched holds
        have outside : ∀ n ∈ g.nodes, t ∉ writesOf n := by
          rw [split]
          exact untouched
        exact .bound outside holds.1 ((storesInt_unwritten outside).symm.trans holds.2)
      | append_singleton front n ih =>
        intro back split t untouched holds
        have split' : g.nodes = front ++ (n :: back) := by
          rw [split, append_assoc, singleton_append]
        by_cases written : t ∈ writesOf n
        · have mem : n ∈ g.nodes := by
            rw [split']
            exact mem_append_right _ mem_cons_self
          rcases (output_misread_iff ready mem written).mp holds with ⟨first, mixed⟩ | carried
          · exact .made mem written first mixed
          · obtain ⟨carries, marked, int⟩ := carried
            have present := present_of_operandInt int
            obtain ⟨marked', int'⟩ := operand_of_present (s := s) present
            have read := mem_readsOf_of_input (headD_mem present) present
            refine .carried mem written carries present (ih (n :: back) split' _ ?_
              ⟨marked' ▸ marked, int' ▸ int⟩)
            intro m later again
            have before := ready.ordered.before
            rw [split', pairwise_append, pairwise_cons] at before
            rcases mem_cons.mp later with rfl | inBack
            · exact ready.ordered.self m mem _ again read
            · exact (before.2.1.1 m inBack _ again).1 read
        · refine ih (n :: back) split' t (fun m later => ?_) holds
          rcases mem_cons.mp later with rfl | inBack
          · exact written
          · exact untouched m inBack
    exact upTo g.nodes [] (append_nil _).symm t fun n mem => nomatch mem

end Vknn.Import
