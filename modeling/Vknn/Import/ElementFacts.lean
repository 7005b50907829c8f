import Vknn.Import.IntegerElements
import Vknn.Lib.Founded

/-!
# The resolver answers the recursive definition

The fact of a tensor is defined by recursion over its producers.  On an acyclic graph the
definition has one solution, and the walk finds it: a tensor that the walk waits for is
never asked again, because each pending tensor depends on the one on top.  What the walk
remembers is always the solution, so it does not matter which queries came before.
-/

namespace Vknn.Import

open Relation List Function
open ElementFactResolver (answers examine inspect visit walk walkStep)

/-! ## The recursive definition -/

/-- The node that writes a tensor, the last one when several do. -/
def lastWriter (g : Graph) (t : TensorId) : Option Node :=
  g.nodes.reverse.find? fun n => n.outputs.contains t

/-- A tensor that is declared, not computed. -/
def declaredSource (g : Graph) (t : TensorId) : Bool :=
  (g.desc t).isInput || (g.desc t).isInitializer || g.isInitializer t

/-- What a rule says, from the facts of the operands it reads. -/
def ElementRule.value (F : TensorId → Bool) (rule : ElementRule) (n : Node) : Bool :=
  match rule.kind with
  | .holds => true
  | .lacks => false
  | .anyOperand => (askedOperands rule n).any F
  | .everyOperand => !(askedOperands rule n).isEmpty && (askedOperands rule n).all F

/-- The fact of a tensor, from the facts of what its producer reads. -/
def elementFact (g : Graph) (fact : ElementFact) (F : TensorId → Bool) (t : TensorId) : Bool :=
  validTensor g t && (labelHolds fact (g.desc t) || (!declaredSource g t &&
    (lastWriter g t).any fun n => (elementRule fact n t).value F n))

/-- An operand of a node feeds each result of the node. -/
def Feeds (g : Graph) (o t : TensorId) : Prop :=
  ∃ n ∈ g.nodes, o ∈ n.inputs ∧ t ∈ n.outputs ∧ t ≠ kNoTensor

/-- No tensor feeds itself, directly or through others. -/
def Acyclic (g : Graph) : Prop := ∀ t, ¬TransGen (Feeds g) t t

variable {g : Graph} {fact : ElementFact}

/-! ## Producers -/

theorem enterProducer_length (producers : List Int) (i : Nat) (outputs : List TensorId) :
    (enterProducer producers i outputs).length = producers.length := by
  unfold enterProducer
  induction outputs generalizing producers with
  | nil => rfl
  | cons o outputs ih =>
    rw [foldl_cons, ih]
    split
    · exact length_set
    · rfl

/-- Entering a node changes the entries of its outputs. -/
theorem enterProducer_getD {producers : List Int} {t : TensorId} (low : 0 ≤ t)
    (high : t < producers.length) (i : Nat) (outputs : List TensorId) :
    (enterProducer producers i outputs).getD t.toNat kNoTensorProducer =
      if t ∈ outputs then (i : Int) else producers.getD t.toNat kNoTensorProducer := by
  unfold enterProducer
  induction outputs generalizing producers with
  | nil => simp
  | cons o outputs ih =>
    rw [foldl_cons]
    by_cases inside : 0 ≤ o ∧ o < producers.length
    · rw [if_pos inside, ih (by rw [length_set]; exact high)]
      by_cases later : t ∈ outputs
      · rw [if_pos later, if_pos (mem_cons_of_mem _ later)]
      · rw [if_neg later]
        by_cases same : t = o
        · subst same
          rw [if_pos mem_cons_self, getD_eq_getElem?_getD,
            getElem?_set_self ((Int.toNat_lt low).mpr high), Option.getD_some]
        · have apart : o.toNat ≠ t.toNat := fun meet => same (by
            rw [← Int.toNat_of_nonneg low, ← Int.toNat_of_nonneg inside.1, meet])
          rw [if_neg (by simp [same, later]), getD_eq_getElem?_getD,
            getElem?_set_ne apart, ← getD_eq_getElem?_getD]
    · rw [if_neg inside, ih high]
      have other : t ≠ o := by
        rintro rfl
        exact inside ⟨low, high⟩
      simp only [mem_cons, other, false_or]

/-- **The producer table names the last writer of each tensor.** -/
theorem tensorProducers_getD {t : TensorId} (valid : validTensor g t = true) :
    let i := (tensorProducers g).getD t.toNat kNoTensorProducer
    (lastWriter g t = if i = kNoTensorProducer then none else g.nodes[i.toNat]?) ∧
      (i = kNoTensorProducer ∨ 0 ≤ i ∧ i.toNat < g.nodes.length) := by
  simp only [validTensor, Bool.and_eq_true, decide_eq_true_eq] at valid
  obtain ⟨low, high⟩ := valid
  unfold tensorProducers lastWriter
  generalize g.tensors.length = size at high
  generalize g.nodes = nodes
  suffices table : ((nodes.zipIdx.foldl (fun producers entry =>
      enterProducer producers entry.2 entry.1.outputs)
        (List.replicate size kNoTensorProducer)).length = size) ∧
      let i := (nodes.zipIdx.foldl (fun producers entry =>
        enterProducer producers entry.2 entry.1.outputs)
          (List.replicate size kNoTensorProducer)).getD t.toNat kNoTensorProducer
      (nodes.reverse.find? (fun n => n.outputs.contains t) =
        if i = kNoTensorProducer then none else nodes[i.toNat]?) ∧
      (i = kNoTensorProducer ∨ 0 ≤ i ∧ i.toNat < nodes.length) from table.2
  induction nodes using List.reverseRecOn with
  | nil =>
    have empty : (List.replicate size kNoTensorProducer).getD t.toNat kNoTensorProducer =
        kNoTensorProducer := by
      rw [getD_eq_getElem?_getD, getElem?_replicate]
      split <;> rfl
    refine ⟨length_replicate, ?_, Or.inl empty⟩
    rw [zipIdx_nil, foldl_nil, empty, if_pos rfl]
    rfl
  | append_singleton nodes n ih =>
    obtain ⟨length, found, known⟩ := ih
    rw [zipIdx_append, foldl_append, zipIdx_singleton, foldl_cons, foldl_nil]
    generalize nodes.zipIdx.foldl (fun producers entry =>
      enterProducer producers entry.2 entry.1.outputs)
        (List.replicate size kNoTensorProducer) = producers at length found known ⊢
    refine ⟨(enterProducer_length ..).trans length, ?_⟩
    rw [enterProducer_getD low (by rw [length]; exact high), reverse_append,
      reverse_singleton, singleton_append, find?_cons]
    by_cases written : t ∈ n.outputs
    · rw [if_pos written]
      simp [written, kNoTensorProducer]
    · rw [if_neg written]
      have missing : n.outputs.contains t = false := by simpa using written
      rw [missing]
      refine ⟨found.trans ?_, known.imp_right fun inside => ?_⟩
      · rcases known with none | inside
        · rw [if_pos none, if_pos none]
        · rw [getElem?_append_left inside.2]
      · rw [length_append]
        omega

variable {n : Node} {rule : ElementRule} {o : TensorId} {operands : List TensorId}

theorem mem_of_lastWriter {t : TensorId} (writer : lastWriter g t = some n) :
    n ∈ g.nodes ∧ t ∈ n.outputs := by
  unfold lastWriter at writer
  have mem := mem_of_find?_eq_some writer
  have writes := find?_some writer
  exact ⟨mem_reverse.mp mem, by simpa using writes⟩

/-! ## One solution -/

theorem validTensor_ne_none {t : TensorId} (valid : validTensor g t = true) : t ≠ kNoTensor := by
  rintro rfl
  simp [validTensor, kNoTensor] at valid

theorem mem_of_mem_askedOperands
    (asked : o ∈ askedOperands rule n) : o ∈ n.inputs := by
  obtain ⟨entry, mem, rfl⟩ := mem_map.mp asked
  exact mem_of_mem_take (fst_mem_of_mem_zipIdx (mem_filter.mp mem).1)

theorem feeds_of_asked {t : TensorId}
    (valid : validTensor g t = true) (writer : lastWriter g t = some n)
    (asked : o ∈ askedOperands rule n) : Feeds g o t := by
  obtain ⟨mem, written⟩ := mem_of_lastWriter writer
  exact ⟨n, mem, mem_of_mem_askedOperands asked, written, validTensor_ne_none valid⟩

theorem ElementRule.value_congr {F G : TensorId → Bool}
    (agree : ∀ o ∈ askedOperands rule n, F o = G o) : rule.value F n = rule.value G n := by
  have any : (askedOperands rule n).any F = (askedOperands rule n).any G := by
    rw [Bool.eq_iff_iff, any_eq_true, any_eq_true]
    refine exists_congr fun o => and_congr_right fun asked => ?_
    rw [agree o asked]
  have all : (askedOperands rule n).all F = (askedOperands rule n).all G := by
    rw [Bool.eq_iff_iff, all_eq_true, all_eq_true]
    refine forall₂_congr fun o asked => ?_
    rw [agree o asked]
  unfold ElementRule.value
  rw [any, all]

/-- The definition of the fact looks at what feeds a tensor. -/
theorem along_elementFact : Founded.Along (Feeds g) (elementFact g fact) := by
  intro F G t agree
  unfold elementFact
  by_cases valid : validTensor g t = true
  · cases writer : lastWriter g t with
    | none => rfl
    | some n =>
      rw [Option.any_some, Option.any_some, ElementRule.value_congr fun o asked =>
        agree o (feeds_of_asked valid writer asked)]
  · rw [Bool.eq_false_of_not_eq_true valid, Bool.false_and, Bool.false_and]

/-- **An acyclic graph is well-founded.** -/
theorem wellFounded_feeds (acyclic : Acyclic g) : WellFounded (Feeds g) := by
  refine Founded.wellFounded_of_acyclic acyclic fun t => ?_
  refine (finite_toSet (g.nodes.flatMap Node.inputs)).subset fun o before => ?_
  obtain ⟨next, ⟨n, mem, read, -⟩, -⟩ := TransGen.head'_iff.mp before
  exact mem_flatMap.mpr ⟨n, mem, read⟩

/-- **The recursive definition has one solution on an acyclic graph.** -/
theorem existsUnique_elementFact (acyclic : Acyclic g) :
    ∃! F, Founded.Solves (elementFact g fact) F :=
  Founded.existsUnique_solves (wellFounded_feeds acyclic) along_elementFact

theorem lacks_of_invalid {F : TensorId → Bool} (solved : Founded.Solves (elementFact g fact) F)
    {t : TensorId} (outside : validTensor g t = false) : F t = false := by
  rw [solved t, elementFact, outside, Bool.false_and]

/-! ## One look at a tensor -/

/-- The answer of a visit, from the facts of the operands it asks. -/
def Visit.value (F : TensorId → Bool) : Visit → Bool
  | .settled fact => fact
  | .asks operands everyOperand =>
    if everyOperand then !operands.isEmpty && operands.all F else operands.any F

variable {r : ElementFactResolver}

/-- A visit asks what the recursive definition asks. -/
theorem visit_value (own : r.producers = tensorProducers r.graph) {t : TensorId}
    (valid : validTensor r.graph t = true) (F : TensorId → Bool) :
    (r.visit t).value F = elementFact r.graph r.fact F t := by
  obtain ⟨writer, known⟩ := tensorProducers_getD valid
  unfold elementFact visit
  rw [own, valid, Bool.true_and]
  dsimp only
  rw [writer]
  generalize (tensorProducers r.graph).getD t.toNat kNoTensorProducer = i at known ⊢
  by_cases label : labelHolds r.fact (r.graph.desc t) = true
  · rw [if_pos label, label]
    rfl
  · rw [if_neg label, Bool.eq_false_of_not_eq_true label, Bool.false_or]
    by_cases source : declaredSource r.graph t = true
    · rw [if_pos (by rw [← declaredSource, source, Bool.true_or]), source]
      rfl
    · have computed := Bool.eq_false_of_not_eq_true source
      rw [← declaredSource, computed, Bool.false_or, Bool.not_false, Bool.true_and]
      rcases known with none | ⟨-, small⟩
      · rw [if_pos (decide_eq_true none), if_pos none]
        rfl
      · by_cases none : i = kNoTensorProducer
        · rw [if_pos (decide_eq_true none), if_pos none]
          rfl
        · rw [if_neg (by simpa using none), if_neg none, getD_eq_getElem?_getD,
            getElem?_eq_getElem small, Option.getD_some, Option.any_some]
          unfold ElementRule.value
          cases (elementRule r.fact r.graph.nodes[i.toNat] t).kind <;> rfl

theorem feeds_of_visit (own : r.producers = tensorProducers r.graph) {t : TensorId}
    (valid : validTensor r.graph t = true) {everyOperand : Bool}
    (visited : r.visit t = .asks operands everyOperand) (asked : o ∈ operands) :
    Feeds r.graph o t := by
  obtain ⟨writer, known⟩ := tensorProducers_getD valid
  unfold visit at visited
  rw [own] at visited
  dsimp only at visited
  generalize (tensorProducers r.graph).getD t.toNat kNoTensorProducer = i at writer known visited
  split at visited
  · cases visited
  · split at visited
    · cases visited
    · rename_i computed
      have there : i ≠ kNoTensorProducer := fun none => computed (by simp [none])
      rcases known with none | ⟨-, small⟩
      · exact absurd none there
      · rw [if_neg there, getElem?_eq_getElem small] at writer
        rw [getD_eq_getElem?_getD, getElem?_eq_getElem small, Option.getD_some] at visited
        split at visited
        · cases visited
        · cases visited
        all_goals
          cases visited
          exact feeds_of_asked valid writer asked

/-! ## The walk -/

/-- The memory holds answers of the solution. -/
structure Remembers (F : TensorId → Bool) (m : TensorId → Resolution) : Prop where
  holds : ∀ t, m t = .holds → F t = true
  lacks : ∀ t, m t = .lacks → F t = false

variable {F : TensorId → Bool} {m m' : TensorId → Resolution}

theorem Remembers.pending (remembers : Remembers F m) (t : TensorId) :
    Remembers F (update m t .pending) where
  holds x here := by
    by_cases same : x = t
    · rw [same, update_self] at here
      cases here
    · rw [update_of_ne same] at here
      exact remembers.holds x here
  lacks x here := by
    by_cases same : x = t
    · rw [same, update_self] at here
      cases here
    · rw [update_of_ne same] at here
      exact remembers.lacks x here

theorem Remembers.resolve (remembers : Remembers F m) {t : TensorId} {answer : Bool}
    (right : F t = answer) : Remembers F (update m t (.ofBool answer)) where
  holds x here := by
    by_cases same : x = t
    · rw [same, update_self] at here
      rw [same, right]
      cases answer with
      | true => rfl
      | false => cases here
    · rw [update_of_ne same] at here
      exact remembers.holds x here
  lacks x here := by
    by_cases same : x = t
    · rw [same, update_self] at here
      rw [same, right]
      cases answer with
      | true => cases here
      | false => rfl
    · rw [update_of_ne same] at here
      exact remembers.lacks x here

/-- What the walk leaves behind once a tensor is resolved: its answer, and the marks of the tensors
that wait below it. -/
structure Answered (F : TensorId → Bool) (t : TensorId) (m m' : TensorId → Resolution) : Prop where
  remembers : Remembers F m'
  answer : m' t = .ofBool (F t)
  waiting : ∀ x, x ≠ t → (m' x = .pending ↔ m x = .pending)

theorem ofBool_ne_pending (answer : Bool) : Resolution.ofBool answer ≠ .pending := by
  cases answer <;> nofun

theorem Remembers.answered (remembers : Remembers F m) {t : TensorId} {answer : Bool}
    (right : F t = answer) : Answered F t m (update m t (.ofBool answer)) where
  remembers := remembers.resolve right
  answer := by rw [update_self, right]
  waiting x other := by rw [update_of_ne other]

def Turns (r : ElementFactResolver) (w w' : Walk) : Prop := ∃ k, r.walkStep^[k] w = w'

theorem Turns.trans {a b c : Walk} (first : Turns r a b) (second : Turns r b c) : Turns r a c := by
  obtain ⟨j, rfl⟩ := first
  obtain ⟨k, rfl⟩ := second
  exact ⟨k + j, iterate_add_apply _ k j a⟩

theorem Turns.once (w : Walk) : Turns r w (r.walkStep w) := ⟨1, rfl⟩

def operandResolution (r : ElementFactResolver) (m : TensorId → Resolution) (o : TensorId) :
    Resolution :=
  if validTensor r.graph o then m o else .lacks

theorem inspect_pass {everyOperand : Bool}
    (same : operandResolution r m o = .ofBool everyOperand) (rest : List TensorId) (i : Nat) :
    r.inspect m everyOperand (o :: rest) i = r.inspect m everyOperand rest (i + 1) := by
  rw [inspect, ← operandResolution, same]
  cases everyOperand <;> rfl

theorem inspect_decide {everyOperand : Bool}
    (other : operandResolution r m o = .ofBool (!everyOperand)) (rest : List TensorId) (i : Nat) :
    r.inspect m everyOperand (o :: rest) i = .decided (!everyOperand) := by
  rw [inspect, ← operandResolution, other]
  cases everyOperand <;> rfl

theorem inspect_defer {everyOperand : Bool}
    (unresolved : operandResolution r m o = .unresolved) (rest : List TensorId) (i : Nat) :
    r.inspect m everyOperand (o :: rest) i = .deferred o i := by
  rw [inspect, ← operandResolution, unresolved]

theorem value_of_passed {everyOperand : Bool}
    (passed : ∀ o ∈ operands, F o = everyOperand) :
    (Visit.asks operands everyOperand).value F = (everyOperand && !operands.isEmpty) := by
  cases everyOperand with
  | true =>
    have all : operands.all F = true := all_eq_true.mpr passed
    rw [Visit.value, if_pos rfl, all, Bool.and_true, Bool.true_and]
  | false =>
    have any : operands.any F = false := any_eq_false.mpr fun o mem => by simp [passed o mem]
    rw [Visit.value, if_neg Bool.false_ne_true, any, Bool.false_and]

theorem value_of_decided {everyOperand : Bool}
    (mem : o ∈ operands) (other : F o = !everyOperand) :
    (Visit.asks operands everyOperand).value F = !everyOperand := by
  cases everyOperand with
  | true =>
    have all : operands.all F = false := all_eq_false.mpr ⟨o, mem, by simp [other]⟩
    rw [Visit.value, if_pos rfl, all, Bool.and_false, Bool.not_true]
  | false =>
    have any : operands.any F = true := any_eq_true.mpr ⟨o, mem, other⟩
    rw [Visit.value, if_neg Bool.false_ne_true, any, Bool.not_false]

/-- The walk comes back to what waits below a tensor, with the tensor's answer. -/
def Returns (r : ElementFactResolver) (F : TensorId → Bool) (t : TensorId) : Prop :=
  ∀ m rest, Remembers F m → (∀ x, m x = .pending → TransGen (Feeds r.graph) t x) →
    ∃ m', Turns r ⟨m, { tensor := t } :: rest⟩ ⟨m', rest⟩ ∧ Answered F t m m'

/-- The operands of a pending tensor, of which the first ones are passed. -/
structure Examining (r : ElementFactResolver) (F : TensorId → Bool) (t : TensorId)
    (everyOperand : Bool) (done remaining : List TensorId) (m : TensorId → Resolution) : Prop where
  right : F t = (Visit.asks (done ++ remaining) everyOperand).value F
  passed : ∀ o ∈ done, F o = everyOperand
  returns : ∀ o ∈ remaining, validTensor r.graph o = true → Returns r F o
  absent : ∀ o ∈ remaining, validTensor r.graph o = false → F o = false
  feeds : ∀ o ∈ remaining, Feeds r.graph o t
  here : m t = .pending
  remembers : Remembers F m
  below : ∀ x, m x = .pending → ReflTransGen (Feeds r.graph) t x

/-- The walk state that looks at the remaining operands. -/
def examined (r : ElementFactResolver) (t : TensorId) (everyOperand : Bool)
    (done remaining : List TensorId) (m : TensorId → Resolution) (rest : List PendingTensor) : Walk :=
  r.examine m ⟨t, done ++ remaining, done.length, everyOperand⟩ rest

variable {t : TensorId} {everyOperand : Bool} {done remaining : List TensorId}

/-- A passed operand joins those that were passed before. -/
theorem examined_pass (same : operandResolution r m o = .ofBool everyOperand)
    (rest : List PendingTensor) :
    examined r t everyOperand done (o :: remaining) m rest =
      examined r t everyOperand (done ++ [o]) remaining m rest := by
  have first : (done ++ o :: remaining).drop done.length = o :: remaining := drop_left
  have second : ((done ++ [o]) ++ remaining).drop (done ++ [o]).length = remaining := drop_left
  unfold examined examine
  dsimp only
  rw [first, second, inspect_pass same, length_append, length_singleton,
    append_assoc, singleton_append]

theorem examined_decide
    (other : operandResolution r m o = .ofBool (!everyOperand)) (rest : List PendingTensor) :
    examined r t everyOperand done (o :: remaining) m rest =
      ⟨update m t (.ofBool (!everyOperand)), rest⟩ := by
  have first : (done ++ o :: remaining).drop done.length = o :: remaining := drop_left
  unfold examined examine
  dsimp only
  rw [first, inspect_decide other]

theorem examined_defer (unresolved : operandResolution r m o = .unresolved)
    (rest : List PendingTensor) :
    examined r t everyOperand done (o :: remaining) m rest =
      ⟨m, { tensor := o } :: ⟨t, done ++ o :: remaining, done.length, everyOperand⟩ :: rest⟩ := by
  have first : (done ++ o :: remaining).drop done.length = o :: remaining := drop_left
  unfold examined examine
  dsimp only
  rw [first, inspect_defer unresolved]

theorem walkStep_pending (here : m t = .pending) (rest : List PendingTensor) :
    r.walkStep ⟨m, ⟨t, done ++ remaining, done.length, everyOperand⟩ :: rest⟩ =
      examined r t everyOperand done remaining m rest := by
  unfold walkStep
  dsimp only
  rw [here]
  rfl

/-- **The look at the operands ends with the tensor's answer.**  By induction on the operands that
remain; an operand that is not resolved is resolved first, and then counts as its fact. -/
theorem examined_returns (acyclic : Acyclic r.graph) (rest : List PendingTensor)
    (state : Examining r F t everyOperand done remaining m) :
    ∃ m', Turns r (examined r t everyOperand done remaining m rest) ⟨m', rest⟩ ∧ Answered F t m m' := by
  induction remaining generalizing done m with
  | nil =>
    have answer : F t = (everyOperand && !done.isEmpty) := by
      rw [state.right, append_nil, value_of_passed state.passed]
    refine ⟨_, ⟨0, ?_⟩, state.remembers.answered answer⟩
    have none : (done ++ []).drop done.length = [] := drop_left
    unfold examined examine
    dsimp only
    rw [none, append_nil]
    rfl
  | cons o remaining ih =>
    -- Once the operand is resolved it is passed, or it settles the answer.
    have resolved : ∀ m, Examining r F t everyOperand done (o :: remaining) m →
        operandResolution r m o = .ofBool (F o) →
        ∃ m', Turns r (examined r t everyOperand done (o :: remaining) m rest) ⟨m', rest⟩ ∧
          Answered F t m m' := by
      intro m state known
      by_cases same : F o = everyOperand
      · rw [same] at known
        rw [examined_pass known]
        refine ih
          { state with
            right := ?_
            passed := ?_
            returns := fun x mem => state.returns x (mem_cons_of_mem _ mem)
            absent := fun x mem => state.absent x (mem_cons_of_mem _ mem)
            feeds := fun x mem => state.feeds x (mem_cons_of_mem _ mem) }
        · rw [append_assoc, singleton_append]
          exact state.right
        · intro x mem
          rcases mem_append.mp mem with before | last
          · exact state.passed x before
          · rw [mem_singleton.mp last, same]
      · have other : F o = !everyOperand := Bool.eq_not.mpr same
        rw [other] at known
        refine ⟨_, ⟨0, examined_decide known rest⟩, state.remembers.answered ?_⟩
        rw [state.right]
        exact value_of_decided (mem_append_right _ mem_cons_self) other
    by_cases valid : validTensor r.graph o = true
    · have reading : ∀ m, operandResolution r m o = m o := fun m => if_pos valid
      cases now : m o with
      | holds =>
        refine resolved m state ?_
        rw [reading, now, state.remembers.holds o now]
        rfl
      | lacks =>
        refine resolved m state ?_
        rw [reading, now, state.remembers.lacks o now]
        rfl
      | pending =>
        -- The operand would wait for the tensor that it feeds.
        have cycle := TransGen.head' (state.feeds o mem_cons_self) (state.below o now)
        exact absurd cycle (acyclic o)
      | unresolved =>
        have unlike : t ≠ o := by
          rintro rfl
          cases state.here.symm.trans now
        have fresh : ∀ x, m x = .pending → TransGen (Feeds r.graph) o x := fun x waits =>
          TransGen.head' (state.feeds o mem_cons_self) (state.below x waits)
        obtain ⟨m', turns, answered⟩ := state.returns o mem_cons_self valid m
          (⟨t, done ++ o :: remaining, done.length, everyOperand⟩ :: rest) state.remembers fresh
        have here := (answered.waiting t unlike).mpr state.here
        have still : ∀ x, m' x = .pending → m x = .pending := by
          intro x waits
          by_cases same : x = o
          · rw [same, answered.answer] at waits
            exact absurd waits (ofBool_ne_pending _)
          · exact (answered.waiting x same).mp waits
        obtain ⟨m'', turns', answered'⟩ := resolved m'
          { state with
            here := here
            remembers := answered.remembers
            below := fun x waits => state.below x (still x waits) }
          ((reading m').trans answered.answer)
        refine ⟨m'', ?_, answered'.remembers, answered'.answer, fun x other => ?_⟩
        · rw [examined_defer ((reading m).trans now)]
          refine turns.trans ((Turns.once _).trans ?_)
          rw [walkStep_pending here]
          exact turns'
        · refine (answered'.waiting x other).trans ⟨still x, fun waits => ?_⟩
          refine (answered.waiting x ?_).mpr waits
          rintro rfl
          cases now.symm.trans waits
    · have invalid := Bool.eq_false_of_not_eq_true valid
      refine resolved m state ?_
      rw [operandResolution, if_neg valid, state.absent o mem_cons_self invalid]
      rfl

/-- **Every tensor is resolved to its fact.**  By induction along what feeds a tensor. -/
theorem returns (own : r.producers = tensorProducers r.graph) (acyclic : Acyclic r.graph)
    (solved : Founded.Solves (elementFact r.graph r.fact) F)
    (valid : validTensor r.graph t = true) : Returns r F t := by
  induction t using (wellFounded_feeds acyclic).induction with
  | _ t ih =>
    intro m rest remembers below
    have right : F t = (r.visit t).value F := (solved t).trans (visit_value own valid F).symm
    have turn := Turns.once (r := r) ⟨m, { tensor := t } :: rest⟩
    cases now : m t with
    | holds =>
      refine ⟨m, ?_, remembers, ?_, fun _ _ => Iff.rfl⟩
      · simpa only [walkStep, now] using turn
      · rw [now, remembers.holds t now]
        rfl
    | lacks =>
      refine ⟨m, ?_, remembers, ?_, fun _ _ => Iff.rfl⟩
      · simpa only [walkStep, now] using turn
      · rw [now, remembers.lacks t now]
        rfl
    | pending => exact absurd (below t now) (acyclic t)
    | unresolved =>
      cases visited : r.visit t with
      | settled answer =>
        rw [visited] at right
        have right : F t = answer := right
        refine ⟨_, ?_, remembers.answered right⟩
        simpa only [walkStep, now, visited] using turn
      | asks operands everyOperand =>
        rw [visited] at right
        have feeds : ∀ o ∈ operands, Feeds r.graph o t :=
          fun o asked => feeds_of_visit own valid visited asked
        have state : Examining r F t everyOperand [] operands
            (update m t .pending) :=
          { right := right
            passed := fun o mem => nomatch mem
            returns := fun o asked inside => ih o (feeds o asked) inside
            absent := fun o _ outside => lacks_of_invalid solved outside
            feeds := feeds
            here := update_self ..
            remembers := remembers.pending t
            below := fun x waits => by
              by_cases same : x = t
              · rw [same]
              · rw [update_of_ne same] at waits
                exact (below x waits).to_reflTransGen }
        obtain ⟨m', turns, answered⟩ := examined_returns acyclic rest state
        refine ⟨m', ?_, answered.remembers, answered.answer, fun x other => ?_⟩
        · refine (Turns.once _).trans ?_
          simp only [walkStep, now, visited]
          exact turns
        · rw [answered.waiting x other, update_of_ne other]

/-! ## Queries -/

/-- Turns that empty the stack are found with enough fuel. -/
theorem walk_of_turns {w : Walk} {m : TensorId → Resolution} (turns : Turns r w ⟨m, []⟩) :
    ∃ n, ∀ fuel, n ≤ fuel → r.walk fuel w = some ⟨m, []⟩ := by
  obtain ⟨k, reached⟩ := turns
  refine ⟨k, fun fuel enough => ?_⟩
  induction k generalizing w fuel with
  | zero =>
    have done : w = ⟨m, []⟩ := reached
    rw [done]
    cases fuel <;> rfl
  | succ k ih =>
    obtain ⟨more, rfl⟩ := Nat.exists_eq_add_of_le' enough
    rw [← Nat.add_assoc, walk]
    split
    · rename_i empty
      -- A turn on an empty stack changes nothing.
      have still : r.walkStep w = w := by
        unfold walkStep
        rw [List.isEmpty_iff.mp empty]
      rw [← reached, iterate_fixed still]
    · exact ih reached _ (Nat.le_add_left k more)

/-- A resolver between queries: nothing is pending, and the memory is right. -/
structure Ready (F : TensorId → Bool) (r : ElementFactResolver) : Prop where
  own : r.producers = tensorProducers r.graph
  acyclic : Acyclic r.graph
  solved : Founded.Solves (elementFact r.graph r.fact) F
  remembers : Remembers F r.resolution
  idle : ∀ x, r.resolution x ≠ .pending

/-- **A query ends, answers the fact, and leaves the resolver ready.** -/
theorem Ready.holds (ready : Ready F r) (t : TensorId) :
    ∃ r', Ready F r' ∧ ∃ n, ∀ fuel, n ≤ fuel → r.holds fuel t = some (F t, r') := by
  by_cases valid : validTensor r.graph t = true
  · obtain ⟨m', turns, answered⟩ := returns ready.own ready.acyclic ready.solved valid r.resolution []
      ready.remembers fun x waits => absurd waits (ready.idle x)
    obtain ⟨n, found⟩ := walk_of_turns turns
    refine ⟨{ r with resolution := m' }, ⟨ready.own, ready.acyclic, ready.solved,
      answered.remembers, fun x waits => ?_⟩, n, fun fuel enough => ?_⟩
    · by_cases same : x = t
      · rw [same] at waits
        exact ofBool_ne_pending _ (answered.answer.symm.trans waits)
      · exact ready.idle x ((answered.waiting x same).mp waits)
    · have answer : decide (m' t = .holds) = F t := by
        rw [answered.answer]
        cases F t <;> rfl
      rw [ElementFactResolver.holds, if_pos valid, found fuel enough, ← answer]
      rfl
  · refine ⟨r, ready, 0, fun fuel _ => ?_⟩
    rw [ElementFactResolver.holds, if_neg valid,
      lacks_of_invalid ready.solved (Bool.eq_false_of_not_eq_true valid)]

/-- **Queries on one resolver answer the facts,** in any order and number. -/
theorem Ready.answers (ready : Ready F r) (tensors : List TensorId) :
    ∃ n, ∀ fuel, n ≤ fuel → r.answers fuel tensors = some (tensors.map F) := by
  induction tensors generalizing r with
  | nil => exact ⟨0, fun fuel _ => rfl⟩
  | cons t tensors ih =>
    obtain ⟨r', ready', n, first⟩ := ready.holds t
    obtain ⟨n', rest⟩ := ih ready'
    refine ⟨max n n', fun fuel enough => ?_⟩
    rw [answers, first fuel (le_trans (le_max_left ..) enough)]
    change (r'.answers fuel tensors).bind _ = _
    rw [rest fuel (le_trans (le_max_right ..) enough)]
    rfl

theorem ready_new (acyclic : Acyclic g) (solved : Founded.Solves (elementFact g fact) F) :
    Ready F (elementFactResolver g fact) where
  own := rfl
  acyclic := acyclic
  solved := solved
  remembers := ⟨fun _ => nofun, fun _ => nofun⟩
  idle _ := nofun

end Vknn.Import
