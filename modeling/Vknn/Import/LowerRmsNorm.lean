import Vknn.Cpu.ArithmeticOperators
import Vknn.Cpu.SortedRuns
import Vknn.Import.Absorption
import Vknn.Import.DequantizeGraph

/-!
# Normalizations by the root mean square

Seven nodes that square a tensor, take the mean along the last axis, add a constant, take the
root and its reciprocal, multiply the tensor by that and the product by a constant gain become one
node.  What they pass to each other has to be read by the next of them alone.

The pass reads the axis from the reduction, and compares the exponent and a numerator with
numbers up to a tolerance.  It looks neither at the shapes of the constants, nor at whether the
reduction keeps the axis, nor at what a fusion has attached to a node.
-/

namespace Vknn.Import.RmsNorm

open Cpu Qdq List
open Cpu.Gemm (Held)

/-! ## The pass -/

section Pass

variable (floats : InitFloats) (floatInts : FloatInts) (g : Graph)

/-- The one node that reads a tensor as an operand, if the tensor is no graph output. -/
def uniqueConsumer (t : TensorId) : Option Nat :=
  if t ∈ g.outputs ∨ t = kNoTensor then none
  else match readersOf g t with
    | [i] => some i
    | _ => none

/-- The number of a constant that holds a single one. -/
def constScalar (t : TensorId) : Option Float32Bits :=
  if t = kNoTensor then none
  else match payloadOf floats g t with
    | some [v] => some v
    | _ => none

def kTolerance : Float32Bits := ⟨0x358637BD⟩
def kOne : Float32Bits := ⟨0x3F800000⟩
def kTwo : Float32Bits := ⟨0x40000000⟩

/-- Whether a number is not farther from another than the tolerance; a NaN is not. -/
def near (target v : Float32Bits) : Bool :=
  isNan v.bits.toNat ||
    (FiniteFloat v && |floatValue (castFloat (floatValue v - floatValue target))| ≤ floatValue kTolerance)

/-- The first result of the node at a position. -/
def result (i : Nat) : TensorId := (g.node i).outputs.headD kNoTensor

def otherOperand (t : TensorId) (n : Node) : TensorId :=
  if n.inputs.getD 0 kNoTensor = t then n.inputs.getD 1 kNoTensor
  else if n.inputs.getD 1 kNoTensor = t then n.inputs.getD 0 kNoTensor
  else kNoTensor

def isMean (rm : Node) : Bool :=
  rm.type = .reduce && rm.subOp = reduceMean && !rm.inputs.isEmpty && !rm.outputs.isEmpty

def isSquare (pow : Node) : Bool :=
  pow.type = .binary && pow.subOp = binaryPow && 2 ≤ pow.inputs.length &&
    (constScalar floats g (pow.inputs.getD 1 kNoTensor)).any (near kTwo)

/-- Whether a reduction is along the last axis of a tensor alone. -/
def reducesLast (rm : Node) (x : TensorId) : Bool :=
  let rank := (g.desc x).shape.length
  let axes := readI64Param floatInts g rm (str "axes") 1
  rank ≠ 0 && axes.length = 1 &&
    (if axes.headD 0 < 0 then axes.headD 0 + rank else axes.headD 0) = (rank : Int) - 1

def addsConstant (m : TensorId) (add : Node) : Bool :=
  add.type = .add && add.inputs.length = 2 && (constScalar floats g (otherOperand m add)).isSome

def takesRoot (a : TensorId) (sq : Node) : Bool :=
  sq.type = .unary && sq.subOp = unarySqrt && !sq.inputs.isEmpty && sq.inputs.headD kNoTensor = a

/-- A reciprocal, or a quotient of a constant one. -/
def takesReciprocal (s : TensorId) (rc : Node) : Bool :=
  if rc.type = .unary && rc.subOp = unaryReciprocal then
    !rc.inputs.isEmpty && rc.inputs.headD kNoTensor = s
  else rc.type = .binary && rc.subOp = binaryDiv && rc.inputs.length = 2 &&
    rc.inputs.getD 1 kNoTensor = s &&
    (constScalar floats g (rc.inputs.getD 0 kNoTensor)).any (near kOne)

def multiplies (x r : TensorId) (n : Node) : Bool :=
  n.type = .binary && n.subOp = binaryMul && n.inputs.length = 2 &&
    ((n.inputs.getD 0 kNoTensor = x && n.inputs.getD 1 kNoTensor = r) ||
      (n.inputs.getD 1 kNoTensor = x && n.inputs.getD 0 kNoTensor = r))

def scales (nrm : TensorId) (n : Node) : Bool :=
  n.type = .binary && n.subOp = binaryMul && n.inputs.length = 2 &&
    otherOperand nrm n ≠ kNoTensor && g.isInitializer (otherOperand nrm n)

/-- The one reader of a tensor, if it is a node as wanted. -/
def nextNode (t : TensorId) (wanted : Node → Bool) : Option Nat :=
  (uniqueConsumer g t).filter fun i => wanted (g.node i)

/-- The positions of the seven nodes. -/
structure Chain where
  pow : Nat
  mean : Nat
  add : Nat
  sqrt : Nat
  recip : Nat
  mul : Nat
  scale : Nat
deriving DecidableEq

/-- The chain whose mean is at a position. -/
def matchChain (i : Nat) : Option Chain :=
  let rm := g.node i
  let p := rm.inputs.headD kNoTensor
  if !isMean rm then none
  else
    ((g.producer[p]?).filter fun k => uniqueConsumer g p = some i && isSquare floats g (g.node k)).bind
      fun pow =>
    let x := (g.node pow).inputs.headD kNoTensor
    if !reducesLast floatInts g rm x then none
    else
      (nextNode g (result g i) (addsConstant floats g (result g i))).bind fun add =>
      (nextNode g (result g add) (takesRoot (result g add))).bind fun sqrt =>
      (nextNode g (result g sqrt) (takesReciprocal floats g (result g sqrt))).bind fun recip =>
      (nextNode g (result g recip) (multiplies x (result g recip))).bind fun mul =>
      (nextNode g (result g mul) (scales g (result g mul))).bind fun scale =>
      some ⟨pow, i, add, sqrt, recip, mul, scale⟩

namespace Chain

variable (c : Chain)

def positions : List Nat := [c.pow, c.mean, c.add, c.sqrt, c.recip, c.mul, c.scale]

/-- The positions of the nodes whose results are given up. -/
def inner : List Nat := [c.pow, c.mean, c.add, c.sqrt, c.recip, c.mul]

/-- The tensor that is normalized, and the constants. -/
def x : TensorId := (g.node c.pow).inputs.headD kNoTensor
def exponent : TensorId := (g.node c.pow).inputs.getD 1 kNoTensor
def epsilon : TensorId := otherOperand (result g c.mean) (g.node c.add)
def numerator : TensorId := (g.node c.recip).inputs.getD 0 kNoTensor
def gamma : TensorId := otherOperand (result g c.mul) (g.node c.scale)

end Chain

def rmsNode (c : Chain) : Node where
  type := .rmsNorm
  name := (if (g.node c.scale).name.isEmpty then (g.node c.mean).name else (g.node c.scale).name) ++
    str "#rmsnorm"
  inputs := [c.x g, c.gamma g]
  outputs := [result g c.scale]
  attr := ⟨(∅ : Std.ExtTreeMap Str Attr).insert (str "epsilon")
    { kind := .float, f := (constScalar floats g (c.epsilon g)).getD ⟨0⟩ }⟩

/-- The nodes that are added, and the positions of those that go. -/
structure Staged where
  added : List Node := []
  remove : List Nat := []

def normStep (st : Staged) (i : Nat) : Staged :=
  match matchChain floats floatInts g i with
  | none => st
  | some c =>
    if c.positions.any (st.remove.contains ·) then st
    else { added := st.added ++ [rmsNode floats g c], remove := st.remove ++ c.positions }

/-- Make the chains one node each; the graph stays as it is where there are none. -/
def lowerRMSNorm : Except Error Graph :=
  let st := (List.range g.nodes.length).foldl (normStep floats floatInts g) {}
  if st.added = [] then .ok g
  else Graph.topoSort { g with nodes := keptFrom st.remove 0 g.nodes ++ st.added }

end Pass

/-! ## Chains -/

variable {floats : InitFloats} {floatInts : FloatInts} {g : Graph} {c : Chain}

/-- A tensor is read by the node at a position, and by nothing else. -/
structure ReadOnce (g : Graph) (t : TensorId) (k : Nat) : Prop where
  present : t ≠ kNoTensor
  inside : t ∉ g.outputs
  here : ∃ n, g.nodes[k]? = some n ∧ t ∈ n.inputs
  only : ∀ {j n}, g.nodes[j]? = some n → t ∈ n.inputs → j = k
  once : (readersOf g t).length = 1

variable {t : TensorId} {i k : Nat} {n : Node}

theorem readOnce_of_unique (unique : uniqueConsumer g t = some k) : ReadOnce g t k := by
  unfold uniqueConsumer at unique
  split at unique
  · cases unique
  · rename_i inner
    rw [not_or] at inner
    split at unique
    · rename_i i readers
      obtain rfl := Option.some.inj unique
      have mem : i ∈ readersOf g t := readers ▸ mem_singleton_self i
      obtain ⟨⟨n, j⟩, listed, inside⟩ := mem_flatMap.mp mem
      obtain ⟨s, operand, rfl⟩ := mem_map.mp inside
      obtain ⟨read, same⟩ := mem_filter.mp operand
      obtain rfl := of_decide_eq_true same
      refine ⟨inner.2, inner.1, ⟨n, mem_zipIdx_iff_getElem?.mp listed, read⟩,
        fun there other => ?_, by rw [readers, length_singleton]⟩
      have reader := mem_readersOf there other
      rwa [readers, mem_singleton] at reader
    · cases unique

theorem nextNode_eq_some {wanted : Node → Bool}
    (found : nextNode g t wanted = some k) :
    uniqueConsumer g t = some k ∧ wanted (g.node k) = true :=
  Option.filter_eq_some_iff.mp found

/-- What is known of a chain that is found. -/
structure Matched (floats : InitFloats) (floatInts : FloatInts) (g : Graph) (c : Chain) : Prop where
  mean : isMean (g.node c.mean) = true
  made : g.producer[(g.node c.mean).inputs.headD kNoTensor]? = some c.pow
  squared : uniqueConsumer g ((g.node c.mean).inputs.headD kNoTensor) = some c.mean
  pow : isSquare floats g (g.node c.pow) = true
  last : reducesLast floatInts g (g.node c.mean) (c.x g) = true
  averaged : uniqueConsumer g (result g c.mean) = some c.add
  add : addsConstant floats g (result g c.mean) (g.node c.add) = true
  added : uniqueConsumer g (result g c.add) = some c.sqrt
  sqrt : takesRoot (result g c.add) (g.node c.sqrt) = true
  rooted : uniqueConsumer g (result g c.sqrt) = some c.recip
  recip : takesReciprocal floats g (result g c.sqrt) (g.node c.recip) = true
  inverted : uniqueConsumer g (result g c.recip) = some c.mul
  mul : multiplies (c.x g) (result g c.recip) (g.node c.mul) = true
  multiplied : uniqueConsumer g (result g c.mul) = some c.scale
  scale : scales g (result g c.mul) (g.node c.scale) = true

theorem matched_of_matchChain (found : matchChain floats floatInts g i = some c) :
    Matched floats floatInts g c := by
  unfold matchChain at found
  dsimp only at found
  split at found
  · cases found
  rename_i mean
  obtain ⟨pow, squared, found⟩ := Option.bind_eq_some_iff.mp found
  obtain ⟨made, square⟩ := Option.filter_eq_some_iff.mp squared
  rw [Bool.and_eq_true, decide_eq_true_eq] at square
  split at found
  · cases found
  rename_i last
  obtain ⟨add, adds, found⟩ := Option.bind_eq_some_iff.mp found
  obtain ⟨sqrt, roots, found⟩ := Option.bind_eq_some_iff.mp found
  obtain ⟨recip, inverts, found⟩ := Option.bind_eq_some_iff.mp found
  obtain ⟨mul, multiplies_, found⟩ := Option.bind_eq_some_iff.mp found
  obtain ⟨scale, scales_, found⟩ := Option.bind_eq_some_iff.mp found
  obtain rfl := Option.some.inj found
  rw [Bool.not_eq_true', Bool.not_eq_false] at mean last
  exact ⟨mean, made, square.1, square.2, last, (nextNode_eq_some adds).1, (nextNode_eq_some adds).2,
    (nextNode_eq_some roots).1, (nextNode_eq_some roots).2, (nextNode_eq_some inverts).1,
    (nextNode_eq_some inverts).2, (nextNode_eq_some multiplies_).1, (nextNode_eq_some multiplies_).2,
    (nextNode_eq_some scales_).1, (nextNode_eq_some scales_).2⟩

def chainOperator (type : OpType) : Bool :=
  type = .reduce || type = .binary || type = .add || type = .unary

/-- A graph as the importer has it: its nodes can be run in their order and write no constant, and
the operators of a chain have one result. -/
structure Standing (g : Graph) : Prop where
  ordered : signature.Ordered g.nodes
  constants : ∀ n ∈ g.nodes, ∀ t ∈ writesOf n, ¬ g.isInitializer t
  single : ∀ n ∈ g.nodes, chainOperator n.type = true →
    n.outputs = [n.outputs.headD kNoTensor] ∧ n.outputs.headD kNoTensor ≠ kNoTensor

theorem node_of_getElem? (here : g.nodes[k]? = some n) : g.node k = n := by
  rw [Graph.node, getD_eq_getElem?_getD, here, Option.getD_some]

/-- A position of a chain: the node is there, is an operator of a chain, and has one result. -/
structure Stands (g : Graph) (k : Nat) : Prop where
  here : g.nodes[k]? = some (g.node k)
  outputs : (g.node k).outputs = [result g k]
  present : result g k ≠ kNoTensor

theorem Standing.stands (standing : Standing g) (there : g.nodes[k]? = some n)
    (type : chainOperator (g.node k).type = true) : Stands g k := by
  obtain rfl := node_of_getElem? there
  obtain ⟨outputs, present⟩ := standing.single _ (mem_of_getElem? there) type
  exact ⟨there, outputs, present⟩

theorem Stands.writes (stands : Stands g k) : writesOf (g.node k) = [result g k] := by
  rw [writesOf, stands.outputs]
  exact filter_eq_self.mpr (by simpa using stands.present)

theorem Stands.written (stands : Stands g k) : result g k ∈ writesOf (g.node k) := by
  rw [stands.writes]
  exact mem_singleton_self _

theorem Standing.before (standing : Standing g) {j : Nat} (stands : Stands g j)
    (reader : ReadOnce g (result g j) k) : j < k := by
  obtain ⟨n, there, listed⟩ := reader.here
  by_contra late
  exact standing.ordered.read_before (not_lt.mp late) there stands.here stands.written
    (mem_readsOf_of_input listed stands.present)

/-! ## What the operators of a chain are -/

theorem type_of_isMean {rm : Node} (mean : isMean rm = true) : rm.type = .reduce ∧
    rm.subOp = reduceMean ∧ ∃ p more, rm.inputs = p :: more := by
  simp only [isMean, Bool.and_eq_true, decide_eq_true_eq, Bool.not_eq_true',
    isEmpty_eq_false_iff] at mean
  obtain ⟨⟨⟨type, sub⟩, operand⟩, -⟩ := mean
  obtain ⟨p, more, inputs⟩ := exists_cons_of_ne_nil operand
  exact ⟨type, sub, p, more, inputs⟩

theorem inputs_of_length (two : n.inputs.length = 2) :
    n.inputs = [n.inputs.getD 0 kNoTensor, n.inputs.getD 1 kNoTensor] := by
  obtain ⟨a, b, inputs⟩ := length_eq_two.mp two
  rw [inputs]
  rfl

theorem type_of_isSquare (square : isSquare floats g n = true) : n.type = .binary ∧
    n.subOp = binaryPow ∧ (∃ more, n.inputs = n.inputs.headD kNoTensor ::
      n.inputs.getD 1 kNoTensor :: more) ∧
    ∃ v, constScalar floats g (n.inputs.getD 1 kNoTensor) = some v ∧ near kTwo v = true := by
  simp only [isSquare, Bool.and_eq_true, decide_eq_true_eq, Option.any_eq_true] at square
  obtain ⟨⟨⟨type, sub⟩, two⟩, constant⟩ := square
  refine ⟨type, sub, ?_, constant⟩
  match inputs : n.inputs, two with
  | a :: b :: more, _ => exact ⟨more, rfl⟩

theorem type_of_addsConstant {m : TensorId} (adds : addsConstant floats g m n = true) :
    n.type = .add ∧ n.inputs.length = 2 ∧ ∃ v, constScalar floats g (otherOperand m n) = some v := by
  simp only [addsConstant, Bool.and_eq_true, decide_eq_true_eq, Option.isSome_iff_exists] at adds
  exact ⟨adds.1.1, adds.1.2, adds.2⟩

theorem type_of_takesRoot {a : TensorId} (roots : takesRoot a n = true) :
    n.type = .unary ∧ n.subOp = unarySqrt ∧ ∃ more, n.inputs = a :: more := by
  simp only [takesRoot, Bool.and_eq_true, decide_eq_true_eq, Bool.not_eq_true',
    isEmpty_eq_false_iff] at roots
  obtain ⟨⟨⟨type, sub⟩, operand⟩, same⟩ := roots
  obtain ⟨b, more, inputs⟩ := exists_cons_of_ne_nil operand
  rw [inputs, headD_cons] at same
  exact ⟨type, sub, more, same ▸ inputs⟩

/-- A node that takes a reciprocal, in either spelling. -/
inductive Inverts (floats : InitFloats) (g : Graph) (s : TensorId) (n : Node) : Prop
  | reciprocal (type : n.type = .unary) (sub : n.subOp = unaryReciprocal) {more : List TensorId}
      (inputs : n.inputs = s :: more)
  | quotient (type : n.type = .binary) (sub : n.subOp = binaryDiv)
      (inputs : n.inputs = [n.inputs.getD 0 kNoTensor, s]) {v : Float32Bits}
      (constant : constScalar floats g (n.inputs.getD 0 kNoTensor) = some v) (one : near kOne v = true)

theorem inverts_of_takesReciprocal {s : TensorId}
    (takes : takesReciprocal floats g s n = true) : Inverts floats g s n := by
  unfold takesReciprocal at takes
  split at takes
  · rename_i type
    simp only [Bool.and_eq_true, decide_eq_true_eq, Bool.not_eq_true',
      isEmpty_eq_false_iff] at type takes
    obtain ⟨b, more, inputs⟩ := exists_cons_of_ne_nil takes.1
    rw [inputs, headD_cons] at takes
    exact .reciprocal type.1 type.2 (takes.2 ▸ inputs)
  · simp only [Bool.and_eq_true, decide_eq_true_eq, Option.any_eq_true] at takes
    obtain ⟨⟨⟨⟨type, sub⟩, two⟩, second⟩, v, constant, one⟩ := takes
    have inputs := inputs_of_length two
    rw [second] at inputs
    exact .quotient type sub inputs constant one

theorem type_of_multiplies {x r : TensorId} (mul : multiplies x r n = true) :
    n.type = .binary ∧ n.subOp = binaryMul ∧ (n.inputs = [x, r] ∨ n.inputs = [r, x]) := by
  simp only [multiplies, Bool.and_eq_true, Bool.or_eq_true, decide_eq_true_eq] at mul
  obtain ⟨⟨⟨type, sub⟩, two⟩, either⟩ := mul
  have inputs := inputs_of_length two
  refine ⟨type, sub, ?_⟩
  rcases either with ⟨first, second⟩ | ⟨second, first⟩
  · exact .inl (by rw [first, second] at inputs; exact inputs)
  · exact .inr (by rw [first, second] at inputs; exact inputs)

/-- Where another operand is found, the two are the operands, in one order or the other. -/
theorem inputs_of_otherOperand (two : n.inputs.length = 2)
    (found : otherOperand t n ≠ kNoTensor) :
    n.inputs = [t, otherOperand t n] ∨ n.inputs = [otherOperand t n, t] := by
  have inputs := inputs_of_length two
  unfold otherOperand at found ⊢
  split
  · rename_i first
    exact .inl (by rw [first] at inputs; exact inputs)
  · rename_i first
    rw [if_neg first] at found
    split
    · rename_i second
      exact .inr (by rw [second] at inputs; exact inputs)
    · rename_i second
      rw [if_neg second] at found
      exact absurd rfl found

theorem present_of_constScalar {v : Float32Bits}
    (constant : constScalar floats g t = some v) :
    t ≠ kNoTensor ∧ payloadOf floats g t = some [v] := by
  unfold constScalar at constant
  split at constant
  · cases constant
  · rename_i present
    split at constant
    · rename_i payload
      obtain rfl := Option.some.inj constant
      exact ⟨present, payload⟩
    · cases constant

theorem type_of_scales (scale : scales g t n = true) : n.type = .binary ∧ n.subOp = binaryMul ∧
      (n.inputs = [t, otherOperand t n] ∨ n.inputs = [otherOperand t n, t]) ∧
      otherOperand t n ≠ kNoTensor ∧ g.isInitializer (otherOperand t n) := by
  simp only [scales, Bool.and_eq_true, decide_eq_true_eq] at scale
  obtain ⟨⟨⟨⟨type, sub⟩, two⟩, present⟩, constant⟩ := scale
  exact ⟨type, sub, inputs_of_otherOperand two present, present, constant⟩

/-! ## Where a chain stands -/

/-- The seven nodes of a chain are there, and each result but the last is read by the next alone. -/
structure Laid (g : Graph) (c : Chain) : Prop where
  stands : ∀ k ∈ c.positions, Stands g k
  input : (g.node c.mean).inputs.headD kNoTensor = result g c.pow
  links : ∀ p ∈ c.inner.zip c.positions.tail, ReadOnce g (result g p.1) p.2

theorem Standing.laid (standing : Standing g) (matched : Matched floats floatInts g c) :
    Laid g c := by
  have there : ∀ {t : TensorId} {k}, uniqueConsumer g t = some k → ∃ n, g.nodes[k]? = some n :=
    fun unique => (readOnce_of_unique unique).here.imp fun _ here => here.1
  obtain ⟨P, atPow, written⟩ := (producer_iff standing.ordered).mp matched.made
  obtain ⟨square, -⟩ := type_of_isSquare matched.pow
  obtain ⟨mean, -⟩ := type_of_isMean matched.mean
  obtain ⟨add, -⟩ := type_of_addsConstant matched.add
  obtain ⟨root, -⟩ := type_of_takesRoot matched.sqrt
  obtain ⟨mul, -⟩ := type_of_multiplies matched.mul
  obtain ⟨scale, -⟩ := type_of_scales matched.scale
  have inverse : (g.node c.recip).type = .unary ∨ (g.node c.recip).type = .binary := by
    cases inverts_of_takesReciprocal matched.recip with
    | reciprocal type _ _ => exact .inl type
    | quotient type _ _ _ _ => exact .inr type
  have stands : ∀ k ∈ c.positions, Stands g k := by
    have at_ : ∀ {k} {n : Node}, g.nodes[k]? = some n → chainOperator (g.node k).type = true →
        Stands g k := standing.stands
    obtain ⟨n₁, here₁⟩ := there matched.squared
    obtain ⟨n₂, here₂⟩ := there matched.averaged
    obtain ⟨n₃, here₃⟩ := there matched.added
    obtain ⟨n₄, here₄⟩ := there matched.rooted
    obtain ⟨n₅, here₅⟩ := there matched.inverted
    obtain ⟨n₆, here₆⟩ := there matched.multiplied
    simp only [Chain.positions, forall_mem_cons]
    refine ⟨at_ atPow ?_, at_ here₁ ?_, at_ here₂ ?_, at_ here₃ ?_, at_ here₄ ?_, at_ here₅ ?_,
      at_ here₆ ?_, fun _ mem => absurd mem not_mem_nil⟩
    · rw [square]; rfl
    · rw [mean]; rfl
    · rw [add]; rfl
    · rw [root]; rfl
    · rcases inverse with type | type <;> rw [type] <;> rfl
    · rw [mul]; rfl
    · rw [scale]; rfl
  have input : (g.node c.mean).inputs.headD kNoTensor = result g c.pow := by
    have single := (stands c.pow mem_cons_self).writes
    rw [node_of_getElem? atPow] at single
    rw [single, mem_singleton] at written
    exact written
  refine ⟨stands, input, ?_⟩
  have squared := matched.squared
  rw [input] at squared
  simp only [Chain.inner, Chain.positions, tail_cons, zip_cons_cons, zip_nil_left, forall_mem_cons]
  exact ⟨readOnce_of_unique squared, readOnce_of_unique matched.averaged,
    readOnce_of_unique matched.added, readOnce_of_unique matched.rooted,
    readOnce_of_unique matched.inverted, readOnce_of_unique matched.multiplied,
    fun _ mem => absurd mem not_mem_nil⟩

/-- The positions ascend. -/
structure Ascends (c : Chain) : Prop where
  mean : c.pow < c.mean
  add : c.mean < c.add
  sqrt : c.add < c.sqrt
  recip : c.sqrt < c.recip
  mul : c.recip < c.mul
  scale : c.mul < c.scale

theorem Laid.ascends (laid : Laid g c) (standing : Standing g) : Ascends c := by
  have next : ∀ p ∈ c.inner.zip c.positions.tail, p.1 < p.2 := by
    intro p mem
    refine standing.before (laid.stands p.1 ?_) (laid.links p mem)
    have inner := (of_mem_zip mem).1
    simp only [Chain.inner, mem_cons, not_mem_nil, or_false] at inner
    simp only [Chain.positions, mem_cons, not_mem_nil, or_false]
    tauto
  simp only [Chain.inner, Chain.positions, tail_cons, zip_cons_cons, zip_nil_left,
    forall_mem_cons] at next
  obtain ⟨mean, add, sqrt, recip, mul, scale, -⟩ := next
  exact ⟨mean, add, sqrt, recip, mul, scale⟩

/-- A result of a chain that its one node does not have is one that is given up. -/
theorem Laid.inner (laid : Laid g c) {k : Nat} (inside : k ∈ c.positions) {m : Node}
    (there : g.nodes[k]? = some m) {t : TensorId} (made : t ∈ writesOf m)
    (unwritten : t ∉ writesOf (rmsNode floats g c)) : t = result g k ∧ k ∈ c.inner := by
  have stands := laid.stands k inside
  obtain rfl := node_of_getElem? there
  obtain rfl : t = result g k := by
    have single := stands.writes
    exact mem_singleton.mp (single ▸ made)
  refine ⟨rfl, ?_⟩
  simp only [Chain.positions, Chain.inner, mem_cons, not_mem_nil, or_false] at inside ⊢
  rcases inside with h | h | h | h | h | h | rfl <;> try tauto
  exact absurd (mem_writesOf.mpr ⟨mem_singleton_self _, stands.present⟩ :
    result g c.scale ∈ writesOf (rmsNode floats g c)) unwritten

theorem Laid.readOnce (laid : Laid g c) (inner : k ∈ c.inner) :
    ∃ k' ∈ c.positions, ReadOnce g (result g k) k' := by
  have each : ∀ k ∈ c.inner, ∃ k' ∈ c.positions, (k, k') ∈ c.inner.zip c.positions.tail := by
    simp [Chain.inner, Chain.positions]
  obtain ⟨k', inside, link⟩ := each k inner
  exact ⟨k', inside, laid.links _ link⟩

theorem Laid.not_output (laid : Laid g c) {k : Nat} (inside : k ∈ c.positions) {m : Node}
    (there : g.nodes[k]? = some m) {t : TensorId} (made : t ∈ writesOf m)
    (unwritten : t ∉ writesOf (rmsNode floats g c)) : t ∉ g.outputs := by
  obtain ⟨rfl, inner⟩ := laid.inner inside there made unwritten
  obtain ⟨_, _, once⟩ := laid.readOnce inner
  exact once.inside

/-- The tensor that is normalized is read by two of the nodes. -/
theorem Matched.reads_x (matched : Matched floats floatInts g c) : c.x g ≠ kNoTensor ∧
    c.x g ∈ (g.node c.pow).inputs ∧ c.x g ∈ (g.node c.mul).inputs := by
  obtain ⟨-, -, ⟨more, inputs⟩, -⟩ := type_of_isSquare matched.pow
  obtain ⟨-, -, either⟩ := type_of_multiplies matched.mul
  refine ⟨fun absent => ?_, ?_, ?_⟩
  · have last := matched.last
    rw [reducesLast, absent] at last
    simp [Graph.desc, kNoTensor] at last
  · rw [inputs]
    exact mem_cons_self
  · rcases either with inputs | inputs <;> rw [inputs] <;> simp

theorem Matched.reads_gamma (matched : Matched floats floatInts g c) :
    c.gamma g ≠ kNoTensor ∧ g.isInitializer (c.gamma g) ∧ c.gamma g ∈ (g.node c.scale).inputs := by
  obtain ⟨-, -, either, present, constant⟩ := type_of_scales matched.scale
  refine ⟨present, constant, ?_⟩
  rw [Chain.gamma]
  rcases either with inputs | inputs <;> rw [inputs] <;> simp

/-! ## The whole pass -/

/-- The positions of a chain, and what takes their place. -/
def group (floats : InitFloats) (g : Graph) (c : Chain) : Dataflow.Group Node :=
  ⟨c.positions, c.scale, rmsNode floats g c⟩

/-- Chains that have been staged. -/
structure StagedChains (floats : InitFloats) (floatInts : FloatInts) (g : Graph) (st : Staged)
    (chains : List Chain) : Prop where
  added : st.added = chains.map (rmsNode floats g)
  remove : st.remove = chains.flatMap Chain.positions
  found : ∀ c ∈ chains, ∃ i, matchChain floats floatInts g i = some c
  apart : chains.Pairwise fun c c' => ∀ k ∈ c.positions, k ∉ c'.positions

theorem StagedChains.step {st : Staged} {chains : List Chain}
    (staged : StagedChains floats floatInts g st chains) (i : Nat) :
    ∃ chains, StagedChains floats floatInts g (normStep floats floatInts g st i) chains := by
  unfold normStep
  split
  · exact ⟨chains, staged⟩
  · rename_i c found
    split
    · exact ⟨chains, staged⟩
    · rename_i free
      refine ⟨chains ++ [c], ?_, ?_, fun d mem => ?_, ?_⟩
      · rw [staged.added, map_append]
        rfl
      · rw [staged.remove, flatMap_append]
        simp
      · rcases mem_append.mp mem with old | new
        · exact staged.found d old
        · exact ⟨i, mem_singleton.mp new ▸ found⟩
      · refine pairwise_append.mpr ⟨staged.apart, pairwise_singleton _ _, ?_⟩
        intro d old e new k inside inside'
        obtain rfl := mem_singleton.mp new
        refine free (any_eq_true.mpr ⟨k, inside', contains_iff_mem.mpr ?_⟩)
        rw [staged.remove]
        exact mem_flatMap.mpr ⟨d, old, inside⟩

theorem staged_run (floats : InitFloats) (floatInts : FloatInts) (g : Graph) (positions : List Nat) :
    ∃ chains, StagedChains floats floatInts g
      (positions.foldl (normStep floats floatInts g) {}) chains := by
  have all : ∀ (st : Staged) chains, StagedChains floats floatInts g st chains →
      ∃ chains, StagedChains floats floatInts g
        (positions.foldl (normStep floats floatInts g) st) chains := by
    induction positions with
    | nil => exact fun st chains staged => ⟨chains, staged⟩
    | cons i positions ih =>
      intro st chains staged
      obtain ⟨chains', staged'⟩ := staged.step i
      exact ih _ chains' staged'
  exact all {} [] ⟨rfl, rfl, fun c mem => absurd mem not_mem_nil, List.Pairwise.nil⟩

/-- No residual and no bias of any node is a result that a chain gives up. -/
def Alone (g : Graph) (c : Chain) : Prop :=
  ∀ n ∈ g.nodes, ∀ k ∈ c.inner, n.fusedResidual ≠ result g k ∧ n.fusedBias ≠ result g k

instance (g : Graph) (c : Chain) : Decidable (Alone g c) :=
  inferInstanceAs (Decidable (∀ n ∈ g.nodes, ∀ k ∈ c.inner, _))

theorem reads_rmsNode (read : t ∈ readsOf (rmsNode floats g c)) : t = c.x g ∨ t = c.gamma g := by
  obtain ⟨mem, present⟩ := mem_readsOf.mp read
  simpa [Node.reads, rmsNode, present] using mem

/-- **The chains that are staged may be replaced.** -/
theorem groups (standing : Standing g) {st : Staged} {chains : List Chain}
    (staged : StagedChains floats floatInts g st chains) (alone : ∀ c ∈ chains, Alone g c) :
    Dataflow.Groups signature g.nodes (chains.map (group floats g)) := by
  have matched : ∀ c ∈ chains, Matched floats floatInts g c := fun c mem =>
    (staged.found c mem).elim fun _ => matched_of_matchChain
  have laid : ∀ c ∈ chains, Laid g c := fun c mem => standing.laid (matched c mem)
  have inRange : ∀ c ∈ chains, ∀ k ∈ c.positions, g.nodes[k]? = some (g.node k) :=
    fun c mem k inside => ((laid c mem).stands k inside).here
  have atScale : ∀ c : Chain, c.scale ∈ c.positions := fun c => by simp [Chain.positions]
  have atPow : ∀ c : Chain, c.pow ∈ c.positions := fun c => by simp [Chain.positions]
  have overGroups : ∀ {P : Dataflow.Group Node → Prop}, (∀ c ∈ chains, P (group floats g c)) →
      ∀ G ∈ chains.map (group floats g), P G := by
    intro P holds G mem
    obtain ⟨c, inside, rfl⟩ := mem_map.mp mem
    exact holds c inside
  refine ⟨overGroups fun c _ => atScale c, overGroups fun c mem k inside => ?_, ?_,
    overGroups fun c mem t read => ?_, overGroups fun c mem t written => ?_,
    fun t lost => ?_⟩
  · exact (List.getElem?_eq_some_iff.mp (inRange c mem k inside)).1
  · exact pairwise_map.mpr staged.apart
  · have ascends := (laid c mem).ascends standing
    rcases reads_rmsNode read with rfl | rfl
    · obtain ⟨present, listed, -⟩ := (matched c mem).reads_x
      refine .inl ⟨c.pow, g.node c.pow, ?_, inRange c mem _ (atPow c),
        mem_readsOf_of_input listed present⟩
      obtain ⟨_, _, _, _, _, _⟩ := ascends
      change c.pow ≤ c.scale
      omega
    · obtain ⟨present, -, listed⟩ := (matched c mem).reads_gamma
      exact .inl ⟨c.scale, g.node c.scale, le_rfl, inRange c mem _ (atScale c),
        mem_readsOf_of_input listed present⟩
  · obtain rfl := writes_single (rfl : (rmsNode floats g c).outputs = [result g c.scale]) written
    exact ⟨c.scale, g.node c.scale, atScale c, le_rfl, inRange c mem _ (atScale c),
      ((laid c mem).stands _ (atScale c)).written⟩
  · obtain ⟨G, inside, unwritten, k, m, inGroup, at_, made⟩ := lost
    obtain ⟨c, mem, rfl⟩ := mem_map.mp inside
    have stands := (laid c mem).stands k inGroup
    obtain ⟨rfl, inner⟩ := @Laid.inner floats _ _ (laid c mem) _ inGroup _ at_ _ made unwritten
    obtain ⟨k', inside', once⟩ := (laid c mem).readOnce inner
    refine ⟨fun {j n} there read => ?_, overGroups fun d mem' read => ?_⟩
    · obtain ⟨listed, -⟩ := mem_readsOf.mp read
      rw [Node.reads, mem_append] at listed
      rcases listed with operand | side
      · rw [once.only there operand]
        exact Dataflow.mem_taken.mpr ⟨_, inside, inside'⟩
      · obtain ⟨residual, bias⟩ := alone c mem n (mem_of_getElem? there) k inner
        rw [mem_cons, mem_singleton] at side
        exact side.elim (fun same => absurd same.symm residual) fun same => absurd same.symm bias
    · rcases reads_rmsNode read with same | same
      · obtain ⟨-, first, second⟩ := (matched d mem').reads_x
        rw [← same] at first second
        have ascends := (laid d mem').ascends standing
        have one := once.only (inRange d mem' _ (atPow d)) first
        have two := once.only (inRange d mem' d.mul (by simp [Chain.positions])) second
        obtain ⟨_, _, _, _, _, _⟩ := ascends
        omega
      · obtain ⟨-, constant, -⟩ := (matched d mem').reads_gamma
        rw [← same] at constant
        exact standing.constants _ (mem_of_getElem? stands.here) _ stands.written constant

/-! ## What a chain computes -/

section Exact

variable {R : Type} (ar : Arithmetic R)

/-- The constants of a graph hold what the pass reads of them, and as many elements as their shapes
say. -/
def Constants (floats : InitFloats) (floatInts : FloatInts) (g : Graph)
    (e : TensorId → Option (Held R)) : Prop :=
  ∀ (t : TensorId) payload, g.initializers[t]? = some payload → ∃ X, e t = some X ∧ Sized X ∧
    X.shape = (g.desc t).shape ∧ X.elems = (floats (g.desc t) payload).map ar.number ∧
    ar.ints X.elems = if (g.desc t).dtype = .int64 then hostInts payload
      else floatInts (g.desc t) payload

/-- A chain that may become one node. -/
structure Suited (floats : InitFloats) (g : Graph) (c : Chain) : Prop where
  exponent : constScalar floats g (c.exponent g) = some kTwo
  exponentRank : (g.desc (c.exponent g)).shape.length ≤ (g.desc (c.x g)).shape.length
  epsilonRank : (g.desc (c.epsilon g)).shape.length ≤ (g.desc (c.x g)).shape.length
  numerator : (g.node c.recip).type = .binary → constScalar floats g (c.numerator g) = some kOne ∧
      (g.desc (c.numerator g)).shape.length ≤ (g.desc (c.x g)).shape.length
  kept : (g.node c.mean).attr.geti (str "keepdims") 1 ≠ 0 ∨
    ∀ d ∈ (g.desc (c.x g)).shape.dropLast, d = 1
  columns : RowMajor.size (g.desc (c.gamma g)).shape = (g.desc (c.x g)).shape.getLastD 1
  ones : ∀ d ∈ (g.desc (c.gamma g)).shape.dropLast, d = 1
  gammaRank : (g.desc (c.gamma g)).shape.length ≤ (g.desc (c.x g)).shape.length
  idle : (g.node c.add).fusedAct = .none
  steps : ∀ k ∈ c.positions, (g.node k).attr.has (str "pw_steps") = false
  alone : Alone g c

variable {ar} {E : TensorId → Option (Held R)}

theorem Constants.single (constants : Constants ar floats floatInts g E) {t : TensorId}
    {v : Float32Bits} (scalar : constScalar floats g t = some v) :
    ∃ U, E t = some U ∧ Single U (ar.number v) ∧ U.shape = (g.desc t).shape := by
  obtain ⟨-, payload⟩ := present_of_constScalar scalar
  rw [payloadOf, Option.map_eq_some_iff] at payload
  obtain ⟨bytes, here, numbers⟩ := payload
  obtain ⟨U, held, sized, shape, elems, -⟩ := constants t bytes here
  rw [numbers] at elems
  exact ⟨U, held, single_of_elems sized elems, shape⟩

/-- No node writes a constant, so that a run has what was there before. -/
theorem Constants.run {V : Operators (Option (Held R))} {e : TensorId → Option (Held R)}
    (constants : Constants ar floats floatInts g e)
    (kept : ∀ n ∈ g.nodes, ∀ t ∈ writesOf n, ¬ g.isInitializer t) :
    Constants ar floats floatInts g (perform V g g.nodes e) := by
  intro t payload here
  have constant : g.isInitializer t :=
    Std.ExtTreeMap.contains_eq_isSome_getElem?.trans (Option.isSome_of_eq_some here)
  rw [perform, Dataflow.Machine.run_frame _ fun n mem written => kept n mem t written constant]
  exact constants t payload here

theorem axis_of_reducesLast {rm : Node} {x : TensorId}
    (last : reducesLast floatInts g rm x = true) : ∃ lead n a, (g.desc x).shape = lead ++ [n] ∧
      readI64Param floatInts g rm (str "axes") 1 = [a] ∧ IsLast lead.length a := by
  simp only [reducesLast, Bool.and_eq_true, decide_eq_true_eq] at last
  obtain ⟨⟨some_, one⟩, behind⟩ := last
  obtain ⟨a, axes⟩ := length_eq_one_iff.mp one
  rcases eq_nil_or_concat (g.desc x).shape with none_ | ⟨lead, n, split⟩
  · exact absurd (by rw [none_]; rfl) some_
  · rw [concat_eq_append] at split
    refine ⟨lead, n, a, split, axes, ?_⟩
    rw [axes, split, length_append, length_singleton, headD_cons] at behind
    rw [IsLast]
    push_cast at behind ⊢
    split at behind <;> rename_i low <;> simp only [low, if_true, if_false] <;> omega

/-- The reduction runs along the axes that the pass reads. -/
theorem axesOperand_eq (constants : Constants ar floats floatInts g E) {rm : Node} {p : TensorId}
    {more : List TensorId} (inputs : rm.inputs = p :: more) {a : Int}
    (axes : readI64Param floatInts g rm (str "axes") 1 = [a]) :
    axesOperand ar rm.attr ((more.map (tensorOf E)).headD none) = some [a] := by
  unfold readI64Param at axes
  dsimp only at axes
  unfold axesOperand
  split at axes
  · rename_i listed
    rw [if_pos listed, axes]
  · rename_i listed
    rw [if_neg listed]
    split at axes
    · rename_i operand
      cases more with
      | nil =>
        have few := operand.1.trans_le rm.pwCoreInputs_le
        rw [inputs] at few
        simp at few
      | cons t more =>
        have second : rm.inputs.getD 1 kNoTensor = t := by rw [inputs]; rfl
        rw [second] at operand axes
        split at axes
        · rename_i payload here
          obtain ⟨A, held, -, -, -, ints⟩ := constants t payload here
          rw [map_cons, headD_cons, tensorOf_present operand.2, held]
          change (some A).map _ = _
          rw [Option.map_some, ints, axes]
        · cases axes
    · cases axes

variable [Field R] (rest : Operators (Option (Held R)))

/-- What the arithmetic has to know of the constants that the pass looks for. -/
structure Lawful (ar : Arithmetic R) : Prop where
  one : ar.number kOne = 1
  square : ∀ v, ar.pow v (ar.number kTwo) = v * v
  idle : ∀ lo hi v, ar.act .none lo hi v = v

/-- What a chain computes from, and that it is computed. -/
structure Runs (ar : Arithmetic R) (rest : Operators (Option (Held R))) (floats : InitFloats)
    (floatInts : FloatInts) (g : Graph) (c : Chain) (E : TensorId → Option (Held R)) : Prop where
  matched : Matched floats floatInts g c
  laid : Laid g c
  suited : Suited floats g c
  lawful : Lawful ar
  constants : Constants ar floats floatInts g E
  solved : (operatorMachine (arithmeticOperators ar rest) g).Solved g.nodes E

namespace Runs

variable {rest} (runs : Runs ar rest floats floatInts g c E)
include runs

theorem plain {k : Nat} (inside : k ∈ c.positions) : Plain (g.node k) (result g k) :=
  ⟨(runs.laid.stands k inside).outputs, runs.suited.steps k inside⟩

theorem value {k : Nat} (inside : k ∈ c.positions) : E (result g k) =
    (operatorMachine (arithmeticOperators ar rest) g).value (g.node k) E (result g k) := by
  have stands := runs.laid.stands k inside
  exact runs.solved _ (mem_of_getElem? stands.here) _ stands.written

theorem pow : ∃ U, Single U (ar.number kTwo) ∧ U.shape = (g.desc (c.exponent g)).shape ∧
    E (result g c.pow) = (E (c.x g)).bind fun X => elementwise ar.pow X U := by
  obtain ⟨type, sub, ⟨more, inputs⟩, -⟩ := type_of_isSquare runs.matched.pow
  have scalar := runs.suited.exponent
  obtain ⟨U, held, single, shape⟩ := runs.constants.single scalar
  have inside : c.pow ∈ c.positions := mem_cons_self
  refine ⟨U, single, shape, ?_⟩
  rw [runs.value inside, value_binary ar rest (runs.plain inside) type inputs runs.matched.reads_x.1
    (present_of_constScalar scalar).1]
  change ((E (c.x g)).bind fun X => (E (c.exponent g)).bind _) = _
  rw [held, sub]
  rfl

theorem mean {a : Int}
    (axes : readI64Param floatInts g (g.node c.mean) (str "axes") 1 = [a]) :
    E (result g c.mean) = (E (result g c.pow)).map
      (meanAlong [a] ((g.node c.mean).attr.geti (str "keepdims") 1 ≠ 0)) := by
  obtain ⟨type, sub, p, more, inputs⟩ := type_of_isMean runs.matched.mean
  have inside : c.mean ∈ c.positions := by simp [Chain.positions]
  have first : p = result g c.pow := by
    have input := runs.laid.input
    rwa [inputs] at input
  rw [runs.value inside, value_mean ar rest (runs.plain inside) type sub inputs
    (first ▸ (runs.laid.stands c.pow mem_cons_self).present),
    axesOperand_eq runs.constants inputs axes, first]
  cases E (result g c.pow) <;> rfl

theorem add : ∃ v C, constScalar floats g (c.epsilon g) = some v ∧ Single C (ar.number v) ∧
    C.shape = (g.desc (c.epsilon g)).shape ∧
    E (result g c.add) = (E (result g c.mean)).bind fun M => elementwise (· + ·) M C := by
  obtain ⟨type, two, v, scalar⟩ := type_of_addsConstant runs.matched.add
  obtain ⟨present, -⟩ := present_of_constScalar scalar
  obtain ⟨C, held, single, shape⟩ := runs.constants.single scalar
  have inside : c.add ∈ c.positions := by simp [Chain.positions]
  have read := (runs.laid.stands c.mean (by simp [Chain.positions])).present
  have idle : ∀ Z : Held R, mapped (ar.act (g.node c.add).fusedAct (g.node c.add).actLo
      (g.node c.add).actHi) Z = Z := by
    intro Z
    rw [runs.suited.idle, mapped, funext (runs.lawful.idle _ _), map_id']
  refine ⟨v, C, scalar, single, shape, ?_⟩
  rw [runs.value inside]
  rcases inputs_of_otherOperand two present with inputs | inputs
  · rw [value_add ar rest (runs.plain inside) type inputs read present, held]
    simp only [Option.bind_some, funext idle, Option.map_id']
  · rw [value_add ar rest (runs.plain inside) type inputs present read, held]
    simp only [Option.bind_some, funext idle, Option.map_id',
      elementwise_comm (f := (· + ·)) add_comm C]

theorem sqrt : E (result g c.sqrt) = (E (result g c.add)).map (mapped ar.sqrt) := by
  obtain ⟨type, sub, more, inputs⟩ := type_of_takesRoot runs.matched.sqrt
  have inside : c.sqrt ∈ c.positions := by simp [Chain.positions]
  have read := (runs.laid.stands c.add (by simp [Chain.positions])).present
  rw [runs.value inside, value_unary ar rest (runs.plain inside) type inputs read, sub]
  rfl

theorem recip {lead : Shape} (low : ∀ d ∈ lead, 0 ≤ d)
    (rank : (g.desc (c.x g)).shape.length = lead.length + 1) :
    ∃ inverse : Held R → Option (Held R), Reciprocal lead inverse ∧
      E (result g c.recip) = (E (result g c.sqrt)).bind inverse := by
  have inside : c.recip ∈ c.positions := by simp [Chain.positions]
  have read := (runs.laid.stands c.sqrt (by simp [Chain.positions])).present
  cases inverts_of_takesReciprocal runs.matched.recip with
  | reciprocal type sub inputs =>
    refine ⟨fun M => some (mapped (fun v => 1 / v) M), fun M F rows => ⟨_, rfl, rows.mapped _⟩, ?_⟩
    rw [runs.value inside, value_unary ar rest (runs.plain inside) type inputs read, sub]
    cases E (result g c.sqrt) <;> rfl
  | quotient type sub inputs constant near =>
    obtain ⟨scalar, narrow⟩ := runs.suited.numerator type
    obtain ⟨O, held, single, shape⟩ := runs.constants.single scalar
    rw [runs.lawful.one] at single
    refine ⟨elementwise (· / ·) O, fun M F rows => ?_, ?_⟩
    · exact rows.combine_left low single (by rw [shape]; exact narrow.trans_eq rank) _
    · rw [runs.value inside, value_binary ar rest (runs.plain inside) type inputs
        (present_of_constScalar constant).1 read]
      change (E (c.numerator g)).bind _ = _
      rw [held, sub]
      rfl

theorem mul : E (result g c.mul) = (E (c.x g)).bind fun X =>
    (E (result g c.recip)).bind fun Y => elementwise (· * ·) X Y := by
  obtain ⟨type, sub, either⟩ := type_of_multiplies runs.matched.mul
  have inside : c.mul ∈ c.positions := by simp [Chain.positions]
  have read := (runs.laid.stands c.recip (by simp [Chain.positions])).present
  have present := runs.matched.reads_x.1
  rw [runs.value inside]
  rcases either with inputs | inputs
  · rw [value_binary ar rest (runs.plain inside) type inputs present read, sub]
    rfl
  · rw [value_binary ar rest (runs.plain inside) type inputs read present, sub, Option.bind_comm]
    exact congrArg _ (funext fun X => congrArg _ (funext fun Y => elementwise_comm mul_comm Y X))

theorem scale : E (result g c.scale) = (E (result g c.mul)).bind fun N =>
    (E (c.gamma g)).bind fun G => elementwise (· * ·) N G := by
  obtain ⟨type, sub, either, present, -⟩ := type_of_scales runs.matched.scale
  have inside : c.scale ∈ c.positions := by simp [Chain.positions]
  have read := (runs.laid.stands c.mul (by simp [Chain.positions])).present
  rw [runs.value inside]
  rcases either with inputs | inputs
  · rw [value_binary ar rest (runs.plain inside) type inputs read present, sub]
    rfl
  · rw [value_binary ar rest (runs.plain inside) type inputs present read, sub, Option.bind_comm]
    exact congrArg _ (funext fun X => congrArg _ (funext fun Y => elementwise_comm mul_comm Y X))

theorem gamma {lead : Shape} {n : Int} (split : (g.desc (c.x g)).shape = lead ++ [n]) :
    ∃ G, E (c.gamma g) = some G ∧ Gain lead n G := by
  obtain ⟨-, constant, -⟩ := runs.matched.reads_gamma
  obtain ⟨payload, here⟩ := Option.isSome_iff_exists.mp
    ((Std.ExtTreeMap.contains_eq_isSome_getElem? (t := g.initializers)).symm.trans constant)
  obtain ⟨G, held, -, shape, -⟩ := runs.constants _ _ here
  obtain ⟨columns, ones, rank⟩ :=
    And.intro runs.suited.columns (And.intro runs.suited.ones runs.suited.gammaRank)
  rw [split] at columns rank
  rw [getLastD_concat] at columns
  rw [length_append, length_singleton] at rank
  exact ⟨G, held, by rw [shape]; exact columns, by rw [shape]; exact ones, by rw [shape]; exact rank⟩

/-- **What a chain computes is what its one node does**, where the tensor it normalizes has the
shape that its graph says. -/
theorem fused (shaped : ∀ X, E (c.x g) = some X → X.shape = (g.desc (c.x g)).shape ∧ Sized X) :
    (operatorMachine (arithmeticOperators ar rest) g).value (rmsNode floats g c) E
      (result g c.scale) = E (result g c.scale) := by
  obtain ⟨lead, n, a, split, axes, last⟩ := axis_of_reducesLast runs.matched.last
  obtain ⟨U, exponent, exponentShape, pow⟩ := runs.pow
  obtain ⟨v, C, number, epsilon, epsilonShape, add⟩ := runs.add
  obtain ⟨G, held, gain⟩ := runs.gamma split
  have steps : (rmsNode floats g c).attr.has (str "pw_steps") = false := by
    rw [Attributes.has_eq, rmsNode, Attributes.lookup_insert, if_neg (by decide)]
    rfl
  have eps : (rmsNode floats g c).attr.getf (str "epsilon") kDefaultEpsilon = v := by
    rw [Attributes.getf, rmsNode, Attributes.lookup_insert, if_pos rfl, number]
    rfl
  rw [value_rmsNorm ar rest ⟨rfl, steps⟩ rfl rfl runs.matched.reads_x.1 runs.matched.reads_gamma.1, eps]
  rw [runs.scale, runs.mul]
  cases input : E (c.x g) with
  | none => rfl
  | some X =>
    obtain ⟨shape, sized⟩ := shaped X input
    have low : ∀ d ∈ lead, 0 ≤ d := fun d mem =>
      sized.dims d (by rw [shape, split]; exact mem_append_left _ mem)
    have rank : (g.desc (c.x g)).shape.length = lead.length + 1 := by
      rw [split, length_append, length_singleton]
    obtain ⟨inverse, reciprocal, inverted⟩ := runs.recip low rank
    have kept : decide ((g.node c.mean).attr.geti (str "keepdims") 1 ≠ 0) = true ∨
        ∀ d ∈ lead, d = 1 := by
      refine runs.suited.kept.imp decide_eq_true fun ones => ?_
      rwa [split, dropLast_concat] at ones
    have narrow : ∀ {W : Held R} {t}, W.shape = (g.desc t).shape →
        (g.desc t).shape.length ≤ (g.desc (c.x g)).shape.length →
          W.shape.length ≤ lead.length + 1 := by
      intro W t same low
      rw [same]
      exact low.trans_eq rank
    have whole := rmsChain_eq ar sized (shape.trans split) last kept exponent
      (narrow exponentShape runs.suited.exponentRank) runs.lawful.square epsilon
      (narrow epsilonShape runs.suited.epsilonRank) reciprocal gain
    rw [held, Option.bind_some, Option.map_some, ← whole, Option.bind_some, inverted, runs.sqrt, add,
      runs.mean axes, pow, input, Option.bind_some]
    simp only [rmsChain, Option.bind_eq_bind, Option.bind_some]
    cases elementwise ar.pow X U with
    | none => rfl
    | some P =>
      simp only [Option.map_some, Option.bind_some]
      cases elementwise (· + ·) (meanAlong [a] _ P) C with
      | none => rfl
      | some A =>
        simp only [Option.map_some, Option.bind_some]
        cases inverse (mapped ar.sqrt A) <;> rfl

end Runs

/-- The shapes of a run: what a chain normalizes has the shape that the graph says. -/
def Shaped (floats : InitFloats) (floatInts : FloatInts) (g : Graph)
    (E : TensorId → Option (Held R)) : Prop :=
  ∀ i c, matchChain floats floatInts g i = some c →
    ∀ X, E (c.x g) = some X → X.shape = (g.desc (c.x g)).shape ∧ Sized X

/-- A tensor that a graph still names. -/
def Named (g : Graph) (t : TensorId) : Prop :=
  t ∈ g.outputs ∨ ∃ n ∈ g.nodes, t ∈ readsOf n ∨ t ∈ writesOf n

/-- **The pass keeps the value of every tensor that is still named**, and none that is named is
left without the node that computed it, where every chain is suited. -/
theorem lowerRMSNorm_exact (lawful : Lawful ar) (standing : Standing g)
    {e : TensorId → Option (Held R)} (constants : Constants ar floats floatInts g e)
    (shaped : Shaped floats floatInts g (perform (arithmeticOperators ar rest) g g.nodes e))
    (suited : ∀ i c, matchChain floats floatInts g i = some c → Suited floats g c) :
    ∃ g', lowerRMSNorm floats floatInts g = .ok g' ∧ g'.inputs = g.inputs ∧
      g'.outputs = g.outputs ∧ ∀ t, Named g' t →
        ((∃ n ∈ g.nodes, t ∈ writesOf n) → ∃ n ∈ g'.nodes, t ∈ writesOf n) ∧
        perform (arithmeticOperators ar rest) g' g'.nodes e t =
          perform (arithmeticOperators ar rest) g g.nodes e t := by
  obtain ⟨chains, staged⟩ := staged_run floats floatInts g (List.range g.nodes.length)
  rw [lowerRMSNorm]
  generalize (List.range g.nodes.length).foldl (normStep floats floatInts g) {} = st at staged
  by_cases none_ : st.added = []
  · rw [if_pos none_]
    exact ⟨g, rfl, rfl, rfl, fun t _ => ⟨id, rfl⟩⟩
  rw [if_neg none_]
  have fits : ∀ c ∈ chains, Matched floats floatInts g c ∧ Suited floats g c ∧
      ∃ i, matchChain floats floatInts g i = some c := fun c mem =>
    (staged.found c mem).elim fun i found =>
      ⟨matched_of_matchChain found, suited i c found, i, found⟩
  have good := groups standing staged fun c mem => (fits c mem).2.1.alone
  have taken : Dataflow.taken (chains.map (group floats g)) = st.remove := by
    rw [staged.remove, Dataflow.taken, flatMap_map]
    rfl
  have nodes : (chains.map (group floats g)).map Dataflow.Group.node = st.added := by
    rw [staged.added, map_map]
    rfl
  have perm : (keptFrom st.remove 0 g.nodes ++ st.added).Perm
      (Dataflow.regrouped g.nodes (chains.map (group floats g))) := by
    rw [keptFrom_eq_contracted, ← taken, ← nodes]
    exact good.perm.symm
  obtain ⟨sorted, success, sortedPerm, sortedOrdered⟩ :=
    @topoSort_ordered { g with nodes := keptFrom st.remove 0 g.nodes ++ st.added } _
      (good.ordered standing.ordered) perm
  have same : ∀ n, n ∈ sorted ↔ n ∈ Dataflow.regrouped g.nodes (chains.map (group floats g)) :=
    fun n => sortedPerm.mem_iff
  refine ⟨_, success, rfl, rfl, fun t named => ?_⟩
  have still : ¬ Dataflow.GivenUp signature g.nodes (chains.map (group floats g)) t := by
    rcases named with output | ⟨n, mem, named⟩
    · rintro ⟨G, inside, unwritten, k, m, inGroup, at_, made⟩
      obtain ⟨c, mem, rfl⟩ := mem_map.mp inside
      exact @Laid.not_output floats _ _ (standing.laid (fits c mem).1) _ inGroup _ at_ _ made
        unwritten output
    · exact good.closed standing.ordered ((same n).mp mem) named
  refine ⟨fun ⟨n, mem, written⟩ => ?_, ?_⟩
  · obtain ⟨n', inside, made⟩ := good.covered mem written still
    exact ⟨n', (same n').mpr inside, made⟩
  have run := good.run (M := operatorMachine (arithmeticOperators ar rest) g) standing.ordered
    (e := e) fun G inside t written => by
      obtain ⟨c, mem, rfl⟩ := mem_map.mp inside
      obtain ⟨matched, suited, i, found⟩ := fits c mem
      obtain rfl := writes_single (rfl : (rmsNode floats g c).outputs = [result g c.scale]) written
      refine Runs.fused ⟨matched, standing.laid matched, suited, lawful, ?_,
        Dataflow.Machine.solved_run standing.ordered e⟩ (shaped i c found)
      exact constants.run standing.constants
  exact (congrFun (Dataflow.Machine.run_perm (good.ordered standing.ordered) sortedOrdered same e)
    t).trans (run t still).symm

end Exact

/-! ## A gain for each row -/

/-- Rational arithmetic, exact where it is used: squares, and the root of one. -/
def unitArithmetic : Arithmetic ℚ where
  number := floatValue
  sqrt v := v
  pow v e := if e = 2 then v * v else v
  max := max
  min := min
  unary _ _ _ v := v
  act _ _ _ v := v
  ints := List.map Rat.floor

def listed : FloatInts := fun d payload =>
  (plainFloats d payload).map fun v => Rat.floor (floatValue v)

/-- A normalization of two rows of two, with a gain of some shape. -/
def normalized (gain : Shape) : Graph where
  tensors := [{ name := str "x", shape := [2, 2] },
    { name := str "two", shape := [], isInitializer := true },
    { name := str "eps", shape := [], isInitializer := true },
    { name := str "gamma", shape := gain, isInitializer := true },
    { name := str "p" }, { name := str "m" }, { name := str "a" }, { name := str "s" },
    { name := str "r" }, { name := str "n" }, { name := str "y", shape := [2, 2] }]
  nodes := [
    { type := .binary, subOp := binaryPow, inputs := [0, 1], outputs := [4] },
    { type := .reduce, subOp := reduceMean, inputs := [4], outputs := [5],
      attr := ⟨(∅ : Std.ExtTreeMap Str Attr).insert (str "axes") { kind := .ints, ints := [-1] }⟩ },
    { type := .add, inputs := [5, 2], outputs := [6] },
    { type := .unary, subOp := unarySqrt, inputs := [6], outputs := [7] },
    { type := .unary, subOp := unaryReciprocal, inputs := [7], outputs := [8] },
    { type := .binary, subOp := binaryMul, inputs := [0, 8], outputs := [9] },
    { type := .binary, subOp := binaryMul, inputs := [9, 3], outputs := [10] }]
  inputs := [0]
  outputs := [10]
  initializers := (((∅ : Std.ExtTreeMap TensorId HostBuffer).insert 1 [0, 0, 0, 0x40]).insert 2
    [0, 0, 0, 0]).insert 3 [0, 0, 0x80, 0x3F, 0, 0, 0, 0x40]

/-- Rows of ones, and the gains one and two. -/
def rowsOfOnes (gain : Shape) (t : TensorId) : Option (Held ℚ) :=
  if t = 0 then some ⟨[2, 2], [1, 1, 1, 1]⟩
  else if t = 1 then some ⟨[], [2]⟩
  else if t = 2 then some ⟨[], [0]⟩
  else if t = 3 then some ⟨gain, [1, 2]⟩
  else none

def leftOpen : Operators (Option (Held ℚ)) := ⟨none, fun _ _ _ _ => []⟩

/-- What a graph computes from rows of ones. -/
def computed (gain : Shape) (g : Graph) : Option (Shape × List ℚ) :=
  (perform (arithmeticOperators unitArithmetic leftOpen) g g.nodes (rowsOfOnes gain) 10).map
    fun X => (X.shape, X.elems)

/-- **A gain for each row** becomes one for each column. -/
theorem gain_of_rows_moves : computed [2, 1] (normalized [2, 1]) = some ([2, 2], [1, 1, 2, 2]) ∧
    (lowerRMSNorm plainFloats listed (normalized [2, 1])).toOption.map (computed [2, 1]) =
      some (some ([2, 2], [1, 2, 1, 2])) := by
  decide +kernel

theorem match_normalized {c : Chain}
    (found : matchChain plainFloats listed (normalized [2]) i = some c) :
    c = ⟨0, 1, 2, 3, 4, 5, 6⟩ := by
  have each : ∀ i < 7, ∀ c ∈ matchChain plainFloats listed (normalized [2]) i,
      c = ⟨0, 1, 2, 3, 4, 5, 6⟩ := by
    decide +kernel
  by_cases inside : i < 7
  · exact each i inside c found
  · have beyond : ((normalized [2]).node i) = {} := by
      rw [Graph.node, getD_eq_getElem?_getD, getElem?_eq_none (Nat.le_of_not_lt inside)]
      rfl
    unfold matchChain at found
    rw [beyond] at found
    cases found

theorem normalized_standing : Standing (normalized [2]) := by refine ⟨?_, ?_, ?_⟩ <;> decide

theorem normalized_constants :
    Constants unitArithmetic plainFloats listed (normalized [2]) (rowsOfOnes [2]) := by
  intro t payload here
  simp only [normalized, Std.ExtTreeMap.getElem?_insert] at here
  split_ifs at here
  on_goal 4 => cases here
  all_goals
    rename_i same
    obtain rfl := Std.LawfulEqCmp.compare_eq_iff_eq.mp same
    obtain rfl := Option.some.inj here
    exact ⟨_, rfl, ⟨by decide, rfl⟩, rfl, by decide +kernel, by decide +kernel⟩

theorem normalized_suited {c : Chain}
    (found : matchChain plainFloats listed (normalized [2]) i = some c) :
    Suited plainFloats (normalized [2]) c := by
  obtain rfl := match_normalized found
  refine ⟨?_, ?_, ?_, ?_, ?_, ?_, ?_, ?_, ?_, ?_, ?_⟩ <;> decide

/-- A gain for each column stays one. -/
theorem gain_of_columns_exact : ∃ g', lowerRMSNorm plainFloats listed (normalized [2]) = .ok g' ∧
      g'.inputs = (normalized [2]).inputs ∧ g'.outputs = (normalized [2]).outputs ∧
      ∀ t, Named g' t →
        ((∃ n ∈ (normalized [2]).nodes, t ∈ writesOf n) → ∃ n ∈ g'.nodes, t ∈ writesOf n) ∧
        perform (arithmeticOperators unitArithmetic leftOpen) g' g'.nodes (rowsOfOnes [2]) t =
          perform (arithmeticOperators unitArithmetic leftOpen) (normalized [2])
            (normalized [2]).nodes (rowsOfOnes [2]) t := by
  refine lowerRMSNorm_exact leftOpen ⟨by decide +kernel, fun v => ?_, fun _ _ _ => rfl⟩
    normalized_standing normalized_constants ?_ fun _ _ => normalized_suited
  · have two : unitArithmetic.number kTwo = 2 := by decide +kernel
    rw [two]
    change (if (2 : ℚ) = 2 then v * v else v) = v * v
    exact if_pos rfl
  · intro i c found X held
    obtain rfl := match_normalized found
    rw [perform, Dataflow.Machine.run_frame _ (by decide)] at held
    obtain rfl : (⟨[2, 2], [1, 1, 1, 1]⟩ : Held ℚ) = X := Option.some.inj held
    exact ⟨rfl, by decide, rfl⟩

end Vknn.Import.RmsNorm
