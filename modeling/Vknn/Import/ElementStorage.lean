import Vknn.Import.ElementFacts
import Vknn.Cpu.Storage

/-!
# Tensors that are said to be stored as 64-bit integers

The storage rules follow what the kernels do: where a rule settles the fact, or finds it in an
operand, the kernel stores integers.  A declared label is believed.  So a tensor that is said to
be stored as 64-bit integers is stored so whenever the labels among what it is computed from are
true; and a kernel that stores numbers under such a label shows that they have to be.
-/

namespace Vknn.Import

open Relation
open Cpu (Lanes intAt operation outputStorage perform tensorOf writesOf)

variable {g : Graph} {n : Node} {F s : TensorId → Bool}

/-! ## Operands -/

/-- How many results an operator of a storage rule defines. -/
def definedResults (n : Node) : Nat :=
  match n.type with
  | .split => n.outputs.length
  | .topK => 2
  | _ => 1

/-- Nodes list the operands and the results that their operators define, each result once. -/
structure ListsAsDefined (g : Graph) : Prop where
  once : ∀ n ∈ g.nodes, (writesOf n).Nodup
  results : ∀ n ∈ g.nodes, ∀ t ∈ n.outputs, (elementRule .int64Storage n t).kind ≠ .lacks →
    n.outputs.idxOf t < definedResults n
  range : ∀ n ∈ g.nodes, n.type = .range → 3 ≤ n.inputs.length

def heldOperands (s : TensorId → Bool) (n : Node) : List (Option Bool) := n.inputs.map (tensorOf s)

/-- The operands of which a fact speaks hold integers. -/
def Stored (F s : TensorId → Bool) (operands : List TensorId) : Prop :=
  ∀ o ∈ operands, F o = true → o ≠ kNoTensor ∧ s o = true

variable {i : Nat} {o t : TensorId} {rule : ElementRule}

theorem intAt_of_held (here : n.inputs[i]? = some o)
    (held : o ≠ kNoTensor ∧ s o = true) : intAt (heldOperands s n) i = true := by
  rw [intAt, heldOperands, List.getD_eq_getElem?_getD, List.getElem?_map, here]
  simp [tensorOf, held.1, held.2]

/-- An operand that a rule reads stands in a slot that the rule names. -/
theorem slot_of_asked (asked : o ∈ askedOperands rule n) :
    ∃ i, n.inputs[i]? = some o ∧ (rule.everyCoreOperand = true ∨
      i < kMaskedOperandSlots ∧ rule.operandMask &&& operandSlotBit i ≠ 0) := by
  obtain ⟨⟨o, i⟩, mem, rfl⟩ := List.mem_map.mp asked
  obtain ⟨inside, named⟩ := List.mem_filter.mp mem
  have here := List.mem_zipIdx_iff_getElem?.mp inside
  rw [List.getElem?_take] at here
  split at here
  · exact ⟨i, here, by simpa using named⟩
  · cases here

theorem asked_of_slot (bare : n.attr.has (str "pw_steps") = false)
    (here : n.inputs[i]? = some o) (small : i < kMaskedOperandSlots)
    (named : rule.operandMask &&& operandSlotBit i ≠ 0) : o ∈ askedOperands rule n := by
  have core : n.pwCoreInputs = n.inputs.length := by
    unfold Node.pwCoreInputs
    rw [bare]
    rfl
  refine List.mem_map.mpr ⟨(o, i), List.mem_filter.mpr ⟨?_, ?_⟩, rfl⟩
  · rw [core, List.take_length]
    exact List.mem_zipIdx_iff_getElem?.mpr here
  · simp [small, named]

/-! ## Rules -/

theorem slots_leading : ∀ i < kMaskedOperandSlots, kLeading &&& operandSlotBit i ≠ 0 → i = 0 := by
  decide

theorem slots_both : ∀ i < kMaskedOperandSlots, kBothSides &&& operandSlotBit i ≠ 0 →
    i = 0 ∨ i = 1 := by
  decide

theorem slots_values : ∀ i < kMaskedOperandSlots,
    (operandSlotBit 1 ||| kThirdOperand) &&& operandSlotBit i ≠ 0 → i = 1 ∨ i = 2 := by
  decide

theorem slots_three : ∀ i < 3, (kBothSides ||| kThirdOperand) &&& operandSlotBit i ≠ 0 := by decide

/-- A rule that asks any of some operands finds one that holds integers. -/
theorem intAt_of_any {mask : Nat} (value : (anyOperandRule mask).value F n = true)
    (stored : Stored F s (askedOperands (anyOperandRule mask) n)) :
    ∃ i < kMaskedOperandSlots, mask &&& operandSlotBit i ≠ 0 ∧
      intAt (heldOperands s n) i = true := by
  obtain ⟨o, asked, fact⟩ := List.any_eq_true.mp value
  obtain ⟨i, here, every | ⟨small, named⟩⟩ := slot_of_asked asked
  · cases every
  · exact ⟨i, small, named, intAt_of_held here (stored o asked fact)⟩

theorem leading_int (value : (anyOperandRule kLeading).value F n = true)
    (stored : Stored F s (askedOperands (anyOperandRule kLeading) n)) :
    intAt (heldOperands s n) 0 = true := by
  obtain ⟨i, small, named, int⟩ := intAt_of_any value stored
  rwa [slots_leading i small named] at int

theorem both_int (value : (anyOperandRule kBothSides).value F n = true)
    (stored : Stored F s (askedOperands (anyOperandRule kBothSides) n)) :
    intAt (heldOperands s n) 0 = true ∨ intAt (heldOperands s n) 1 = true := by
  obtain ⟨i, small, named, int⟩ := intAt_of_any value stored
  rcases slots_both i small named with rfl | rfl
  · exact Or.inl int
  · exact Or.inr int

theorem values_int (value : (anyOperandRule (operandSlotBit 1 ||| kThirdOperand)).value F n = true)
    (stored : Stored F s (askedOperands (anyOperandRule (operandSlotBit 1 ||| kThirdOperand)) n)) :
    intAt (heldOperands s n) 1 = true ∨ intAt (heldOperands s n) 2 = true := by
  obtain ⟨i, small, named, int⟩ := intAt_of_any value stored
  rcases slots_values i small named with rfl | rfl
  · exact Or.inl int
  · exact Or.inr int

theorem core_int (bare : n.attr.has (str "pw_steps") = false)
    (value : anyCoreOperandRule.value F n = true)
    (stored : Stored F s (askedOperands anyCoreOperandRule n)) :
    (Cpu.coreOperands (operation g n) (heldOperands s n)).any (fun o => o.getD false) = true := by
  obtain ⟨o, asked, fact⟩ := List.any_eq_true.mp value
  obtain ⟨present, int⟩ := stored o asked fact
  have all : Cpu.coreOperands (operation g n) (heldOperands s n) = heldOperands s n := by
    unfold Cpu.coreOperands Node.pwCoreInputs operation
    dsimp only
    rw [bare, if_neg Bool.false_ne_true, List.length_map, List.take_length]
  rw [all]
  refine List.any_eq_true.mpr ⟨some true, ?_, rfl⟩
  refine List.mem_map.mpr ⟨o, mem_of_mem_askedOperands asked, ?_⟩
  rw [tensorOf, if_neg present, int]

theorem range_int (bare : n.attr.has (str "pw_steps") = false) (three : 3 ≤ n.inputs.length)
    (kind : rule.kind = .everyOperand)
    (mask : rule.operandMask = (kBothSides ||| kThirdOperand)) (value : rule.value F n = true)
    (stored : Stored F s (askedOperands rule n)) (small : i < 3) :
    intAt (heldOperands s n) i = true := by
  have here : n.inputs[i]? = some n.inputs[i] := List.getElem?_eq_getElem (by omega)
  have named : rule.operandMask &&& operandSlotBit i ≠ 0 := by
    rw [mask]
    exact slots_three i small
  have asked := asked_of_slot bare here (small.trans (by decide)) named
  unfold ElementRule.value at value
  rw [kind] at value
  have all := List.all_eq_true.mp (Bool.and_eq_true_iff.mp value).2
  exact intAt_of_held here (stored _ asked (all _ asked))

/-- The indices of a selection are its second result. -/
theorem idxOf_indices (once : (writesOf n).Nodup) (present : t ≠ kNoTensor)
    (indices : selectsIndices n t = true) : n.outputs.idxOf t = 1 := by
  simp only [selectsIndices, Bool.and_eq_true, decide_eq_true_eq] at indices
  obtain ⟨more, second⟩ := indices
  match outputs : n.outputs with
  | [] => simp [outputs] at more
  | [_] => simp [outputs] at more
  | o :: p :: rest =>
    have there : p = t := by simpa [outputs] using second
    subst there
    have apart : o ≠ p := by
      rintro rfl
      rw [writesOf, outputs, List.filter_cons_of_pos (by simpa using present),
        List.filter_cons_of_pos (by simpa using present)] at once
      exact (List.nodup_cons.mp once).1 List.mem_cons_self
    rw [List.idxOf_cons_ne _ apart, List.idxOf_cons_self]

theorem getD_result {b : Bool} {k : Nat} (first : k < 1) (int : b = true) :
    [b].getD k false = true := by
  obtain rfl : k = 0 := by omega
  exact int

theorem castsToInteger_of_target {target : Int}
    (integer : isIntegerElementType target = true ∨ target = kOnnxBool) :
    Cpu.castsToInteger target = true := by
  rcases integer with listed | rfl
  · have mem : target ∈ [2, 3, 4, 5, 6, 7, 12, 13] := List.contains_iff_mem.mp listed
    exact List.contains_iff_mem.mpr (List.mem_append_left [9] mem)
  · rfl

theorem valueKind_of_integer (integer : integerValueAttribute n = true) :
    Cpu.valueKind n.attr = .ints := by
  unfold integerValueAttribute at integer
  unfold Cpu.valueKind
  cases found : n.attr.map[str "value"]? with
  | none =>
    rw [found] at integer
    cases integer
  | some value =>
    rw [found] at integer
    exact of_decide_eq_true integer

theorem notMean_of_integer (integer : integerReduction n = true) :
    (decide (n.subOp ≠ Cpu.reduceMean) && decide (n.subOp ≠ Cpu.reduceL2)) = true := by
  have mem : n.subOp ∈ [1, 2, 3, 4] := List.contains_iff_mem.mp integer
  simp only [List.mem_cons, List.not_mem_nil, or_false] at mem
  rcases mem with same | same | same | same <;> rw [same] <;> rfl

/-- **A kernel stores integers where the rule of its operator says so.** -/
theorem stored_of_rule (bare : n.attr.has (str "pw_steps") = false)
    (present : t ≠ kNoTensor) (once : (writesOf n).Nodup)
    (position : (int64StorageRule n t).kind ≠ .lacks → n.outputs.idxOf t < definedResults n)
    (range : n.type = .range → 3 ≤ n.inputs.length)
    (value : (int64StorageRule n t).value F n = true)
    (stored : Stored F s (askedOperands (int64StorageRule n t) n)) :
    (outputStorage (operation g n) (heldOperands s n)).getD (n.outputs.idxOf t) false = true := by
  have speaks : (int64StorageRule n t).kind ≠ .lacks := by
    intro lacks
    simp [ElementRule.value, lacks] at value
  have position := position speaks
  have empty : ElementRule.value F {} n = true → False := nofun
  unfold int64StorageRule at value stored
  unfold definedResults at position
  cases type : n.type
  case topK =>
    simp only [type] at value stored position
    simp only [outputStorage, operation, type]
    by_cases indices : selectsIndices n t = true
    · rw [idxOf_indices once present indices]
      rfl
    · rw [if_neg indices] at value stored
      have int := leading_int value stored
      rcases (by omega : n.outputs.idxOf t = 0 ∨ n.outputs.idxOf t = 1) with first | second
      · rw [first]
        exact int
      · rw [second]
        rfl
  case split =>
    simp only [type] at value stored position
    have int := leading_int value stored
    simp only [outputStorage, operation, type]
    rw [List.getD_eq_getElem?_getD, List.getElem?_map, List.getElem?_map,
      List.getElem?_eq_getElem position]
    exact int
  case cast =>
    simp only [type] at value position
    simp only [outputStorage, operation, type]
    refine getD_result position ?_
    split at value
    · rename_i integer
      simp only [Bool.or_eq_true, decide_eq_true_eq] at integer
      exact castsToInteger_of_target integer
    · exact (empty value).elim
  case shape | argMax | argMin =>
    simp only [type] at position
    simp only [outputStorage, operation, type]
    exact getD_result position rfl
  case constant | constantOfShape =>
    simp only [type] at value position
    simp only [outputStorage, operation, type]
    refine getD_result position ?_
    split at value
    · rename_i integer
      rw [valueKind_of_integer integer]
      rfl
    · exact (empty value).elim
  case reduce =>
    simp only [type] at value stored position
    simp only [outputStorage, operation, type]
    refine getD_result position ?_
    by_cases integer : integerReduction n = true
    · rw [if_pos integer] at value stored
      have int := leading_int value stored
      simp only [int, Bool.true_and]
      exact notMean_of_integer integer
    · rw [if_neg integer] at value
      exact (empty value).elim
  case binary =>
    simp only [type] at value stored position
    simp only [outputStorage, operation, type]
    refine getD_result position ?_
    by_cases power : n.subOp = kBinaryPow
    · rw [if_pos power] at value stored
      rw [leading_int value stored, Bool.true_or]
    · rw [if_neg power] at value stored
      have other : n.subOp ≠ Cpu.binaryPow := power
      rcases both_int value stored with first | second
      · rw [first, Bool.true_or]
      · rw [second, decide_eq_true other, Bool.and_self, Bool.or_true]
  case concat =>
    simp only [type] at value stored position
    have int := core_int (g := g) bare value stored
    simp only [outputStorage, operation, type]
    exact getD_result position int
  case «where» =>
    simp only [type] at value stored position
    simp only [outputStorage, operation, type]
    refine getD_result position ?_
    rcases values_int value stored with first | second
    · rw [first, Bool.true_or]
    · rw [second, Bool.or_true]
  case range =>
    simp only [type] at value stored position
    simp only [outputStorage, operation, type]
    refine getD_result position ?_
    have int := fun i small => range_int (i := i) bare (range type) rfl rfl value stored small
    rw [int 0 (by decide), int 1 (by decide), int 2 (by decide)]
    rfl
  case add | mod | bitShift | bitwiseAnd | bitwiseOr | bitwiseXor =>
    simp only [type] at value stored position
    simp only [outputStorage, operation, type, Cpu.keepsStorage, Cpu.mixesStorage,
      Bool.false_eq_true, if_false, if_true]
    refine getD_result position ?_
    rcases both_int value stored with first | second
    · rw [first, Bool.true_or]
    · rw [second, Bool.or_true]
  case convertLayout | convertDtype | identity | reshape | flatten | squeeze | unsqueeze | slice |
      transpose | expand | tile | gather | scatterND | bitwiseNot =>
    simp only [type] at value stored position
    simp only [outputStorage, operation, type, Cpu.keepsStorage, if_true]
    exact getD_result position (leading_int value stored)
  all_goals
    simp only [type] at value
    exact (empty value).elim

/-! ## Runs -/

/-- Whether each tensor holds integers after the nodes have run in some order. -/
def storesIntIn (g : Graph) (order : List Node) (s : TensorId → Bool) : TensorId → Bool :=
  perform Cpu.storageOperators g order s

/-- The tensors declared as 64-bit integers from which a tensor is computed, itself among them, do
hold integers. -/
def LabelsTrue (g : Graph) (held : TensorId → Bool) (t : TensorId) : Prop :=
  ∀ x, ReflTransGen (Feeds g) x t → validTensor g x = true → (g.desc x).dtype = .int64 →
    held x = true

/-- **A tensor said to be stored as integers is stored so,** when the labels are true.  By induction
along what feeds a tensor. -/
theorem stored_of_elementFact (acyclic : Acyclic g) (defined : ListsAsDefined g) {order : List Node}
    (perm : order.Perm g.nodes) (ordered : Cpu.signature.Ordered order)
    (solved : Founded.Solves (elementFact g .int64Storage) F) (s : TensorId → Bool)
    (labels : LabelsTrue g (storesIntIn g order s) t) (fact : F t = true) :
    storesIntIn g order s t = true := by
  induction t using (wellFounded_feeds acyclic).induction with
  | _ t ih =>
    rw [solved t] at fact
    obtain ⟨valid, origin⟩ := Bool.and_eq_true_iff.mp fact
    rcases Bool.or_eq_true_iff.mp origin with label | computed
    · exact labels t .refl valid (of_decide_eq_true label)
    · obtain ⟨-, made⟩ := Bool.and_eq_true_iff.mp computed
      cases writer : lastWriter g t with
      | none =>
        rw [writer] at made
        cases made
      | some n =>
        rw [writer, Option.any_some] at made
        obtain ⟨mem, listed⟩ := mem_of_lastWriter writer
        have present := validTensor_ne_none valid
        have written : t ∈ writesOf n := Cpu.mem_writesOf.mpr ⟨listed, present⟩
        have stores := Cpu.storage_written (g := g) ordered s (perm.mem_iff.mpr mem) written
        refine stores.trans ?_
        by_cases hosts : n.attr.has (str "pw_steps") = true
        · rw [elementRule, if_pos hosts] at made
          cases made
        · have rule : elementRule .int64Storage n t = int64StorageRule n t := if_neg hosts
          have results := defined.results n mem t listed
          rw [rule] at made results
          refine stored_of_rule (F := F) (Bool.eq_false_of_not_eq_true hosts) present
            (defined.once n mem) results (defined.range n mem) made fun o asked holds => ?_
          have feeds : Feeds g o t := feeds_of_asked valid writer asked
          have inside : validTensor g o = true := by
            by_contra outside
            rw [lacks_of_invalid solved (Bool.eq_false_of_not_eq_true outside)] at holds
            cases holds
          exact ⟨validTensor_ne_none inside,
            ih o feeds (fun x before => labels x (before.tail feeds)) holds⟩

/-! ## The resolver is right -/

/-- What the resolver is for.  It answers the one solution of the recursive definition, whatever it
was asked before.  And in whatever order the nodes run, kernels store integers in the tensors
that it says are stored so, as far as `labels` is asked of what the run leaves. -/
structure ResolverRight (labels : (TensorId → Bool) → TensorId → Prop) (g : Graph) : Prop where
  solution : ∀ fact, ∃! F, Founded.Solves (elementFact g fact) F
  answers : ∀ fact F, Founded.Solves (elementFact g fact) F → ∀ tensors, ∃ n, ∀ fuel, n ≤ fuel →
    (elementFactResolver g fact).answers fuel tensors = some (tensors.map F)
  resolves : ∀ fact F, Founded.Solves (elementFact g fact) F → ∃ n, ∀ fuel, n ≤ fuel →
    resolveElementFact fuel g fact = some ((List.range g.tensors.length).map fun t : Nat => F t)
  stores : ∀ F, Founded.Solves (elementFact g .int64Storage) F → ∀ (N : Type)
    (K : Cpu.LaneOperators N) (order : List Node) (e : TensorId → Lanes N),
      order.Perm g.nodes → Cpu.signature.Ordered order → ∀ t, F t = true →
      labels (fun x => (perform K.toOperators g order e x).isInt) t →
      (perform K.toOperators g order e t).isInt = true

theorem isInt_run {N : Type} (K : Cpu.LaneOperators N) (order : List Node)
    (e : TensorId → Lanes N) (t : TensorId) :
    (perform K.toOperators g order e t).isInt = storesIntIn g order (fun x => (e x).isInt) t :=
  Cpu.perform_map (L := Cpu.storageOperators) K.unset_isInt K.storage order e t

/-- A graph is acyclic when results stand after operands in the table. -/
theorem acyclic_of_rising
    (rising : ∀ n ∈ g.nodes, ∀ o ∈ n.inputs, ∀ t ∈ n.outputs, t ≠ kNoTensor → o < t) : Acyclic g := by
  intro t cycle
  have less : ∀ o t, TransGen (Feeds g) o t → o < t := by
    intro o t path
    induction path with
    | single step =>
      obtain ⟨n, mem, read, written, present⟩ := step
      exact rising n mem _ read _ written present
    | tail _ step ih =>
      obtain ⟨n, mem, read, written, present⟩ := step
      exact ih.trans (rising n mem _ read _ written present)
  exact lt_irrefl t (less t t cycle)

/-- An absolute value of integers whose result is declared as integers too. -/
def labelledAbs : Graph where
  tensors := [{ name := str "x", dtype := .int64, isInput := true },
    { name := str "y", dtype := .int64, isOutput := true }]
  nodes := [{ type := .unary, name := str "abs", subOp := kUnaryAbs, inputs := [0], outputs := [1] }]
  inputs := [0]
  outputs := [1]

theorem acyclic_labelledAbs : Acyclic labelledAbs := acyclic_of_rising (by decide)

theorem listsAsDefined_labelledAbs : ListsAsDefined labelledAbs := ⟨by decide, by decide, by decide⟩

def doubledShape : Graph where
  tensors := [{ name := str "x", isInput := true }, { name := str "extents" },
    { name := str "y", isOutput := true }]
  nodes := [{ type := .shape, name := str "shape", inputs := [0], outputs := [1] },
    { type := .add, name := str "double", inputs := [1, 1], outputs := [2] }]
  inputs := [0]
  outputs := [2]

end Vknn.Import
