import Vknn.Core.ConvSum

/-!
# One-dimensional convolutions

A convolution whose constant weight has rank 3 is given two-dimensional attributes, and the
weight a last extent of 1.  The rank of the weight is how such a convolution is recognized,
and the weight is reshaped where it stands: once one convolution has been treated, another
one with the same weight is not recognized any more, and whatever else reads the weight
finds the new shape.

So the pass does what it is for exactly in graphs whose one-dimensional convolutions have
constant weights, each weight for one of them alone, but for later ones that carry no lists
and need no change.
-/

namespace Vknn.Import.Conv1d

open ConvSum List
open Attributes (geti getints gets)

/-! ## The pass -/

/-- Give an integer list the entry of a second dimension. -/
def extendAttr (attr : Attributes) (key : Str) (oneD : Nat) (fill : Int) : Attributes :=
  match attr.map[key]? with
  | none => attr
  | some a =>
    if a.ints.length ≠ oneD then attr
    else ⟨attr.map.insert key { a with ints := extended oneD fill a.ints }⟩

def weightOf (n : Node) : TensorId := n.inputs.getD 1 kNoTensor

/-- The attributes of a convolution in two dimensions. -/
def extendConv (n : Node) : Node :=
  let attr := extendAttr n.attr (str "strides") 1 1
  let attr := extendAttr attr (str "dilations") 1 1
  let attr := extendAttr attr (str "kernel_shape") 1 1
  { n with attr := extendAttr attr (str "pads") 2 0 }

/-- A convolution that the pass treats. -/
def isConv1d (g : Graph) (n : Node) : Bool :=
  n.type = .conv && 2 ≤ n.inputs.length && weightOf n ≠ kNoTensor &&
    g.isInitializer (weightOf n) && (g.desc (weightOf n)).shape.length = 3

def widen (g : Graph) (t : TensorId) : Graph :=
  { g with tensors := g.tensors.modify t.toNat fun d => { d with shape := d.shape ++ [1] } }

def normalizeStep (g : Graph) (i : Nat) : Graph :=
  let n := g.nodes.getD i {}
  if isConv1d g n then { widen g (weightOf n) with nodes := g.nodes.set i (extendConv n) } else g

def normalizeConv1d (g : Graph) : Graph := (List.range g.nodes.length).foldl normalizeStep g

/-! ## Attributes -/

section Attributes

variable (attr : Attributes) (key : Str) (oneD : Nat) (fill : Int)

/-- What is stored under a key after a list has been extended. -/
theorem get_extendAttr (k : Str) : (extendAttr attr key oneD fill).map[k]? =
    if k = key then attr.map[k]?.map fun a => { a with ints := extended oneD fill a.ints }
    else attr.map[k]? := by
  unfold extendAttr
  cases here : attr.map[key]? with
  | none =>
    by_cases same : k = key
    · rw [if_pos same, same, here]
      rfl
    · rw [if_neg same]
  | some a =>
    dsimp only
    by_cases other : a.ints.length ≠ oneD
    · rw [if_pos other]
      by_cases same : k = key
      · rw [if_pos same, same, here, Option.map_some, extended, if_pos other]
      · rw [if_neg same]
    · rw [if_neg other, Std.ExtTreeMap.getElem?_insert]
      by_cases same : k = key
      · rw [if_pos same, if_pos (same ▸ Std.ReflCmp.compare_self), same, here]
        rfl
      · rw [if_neg same, if_neg fun equal => same (Std.LawfulEqCmp.compare_eq_iff_eq.mp equal).symm]

theorem getints_extendAttr (k : Str) (notFill : oneD ≠ 0) :
    (extendAttr attr key oneD fill).getints k =
      if k = key then extended oneD fill (attr.getints k) else attr.getints k := by
  rw [getints, get_extendAttr, getints]
  by_cases same : k = key
  · rw [if_pos same, if_pos same]
    cases attr.map[k]? with
    | none => exact (if_pos notFill.symm).symm
    | some a => rfl
  · rw [if_neg same, if_neg same]

theorem gets_extendAttr (k d : Str) : (extendAttr attr key oneD fill).gets k d = attr.gets k d := by
  rw [gets, get_extendAttr, gets]
  split_ifs
  · cases attr.map[k]? <;> rfl
  · rfl

theorem geti_extendAttr (k : Str) (d : Int) :
    (extendAttr attr key oneD fill).geti k d = attr.geti k d := by
  rw [geti, get_extendAttr, geti]
  split_ifs
  · cases attr.map[k]? <;> rfl
  · rfl

end Attributes

theorem widened_extendConv (n : Node) : Widened n.attr (extendConv n).attr := by
  constructor <;> simp [extendConv, getints_extendAttr, gets_extendAttr, geti_extendAttr, str]

/-! ## What the pass has done after some nodes -/

variable {g g' : Graph} {n : Node} {t : TensorId} {i j : Nat}

theorem desc_widen (inside : (g.desc t).shape ≠ []) (u : TensorId) : (widen g t).desc u =
      if u = t then { g.desc u with shape := (g.desc u).shape ++ [1] } else g.desc u := by
  have low : 0 ≤ t := by
    by_contra negative
    exact inside (by rw [Graph.desc, if_neg negative])
  unfold Graph.desc widen
  by_cases lowU : 0 ≤ u
  · rw [if_pos lowU, if_pos lowU, getD_eq_getElem?_getD, getD_eq_getElem?_getD]
    by_cases same : u = t
    · obtain rfl := same
      rw [getElem?_modify_eq, if_pos rfl]
      cases here : g.tensors[u.toNat]? with
      | none =>
        refine absurd ?_ inside
        rw [Graph.desc, if_pos lowU, getD_eq_getElem?_getD, here]
        rfl
      | some d => rfl
    · rw [getElem?_modify_ne _ _ (fun place => same (by
        rw [← Int.toNat_of_nonneg lowU, ← place, Int.toNat_of_nonneg low])), if_neg same]
  · rw [if_neg lowU, if_neg lowU, if_neg fun same : u = t => lowU (same ▸ low)]

/-- A convolution that no earlier one has taken the weight from. -/
def First (g : Graph) (i : Nat) (n : Node) : Prop :=
  ∀ j < i, ∀ m, g.nodes[j]? = some m → isConv1d g m → weightOf m ≠ weightOf n

/-- The weight of a convolution among the first `j` nodes. -/
def Taken (g : Graph) (j : Nat) (t : TensorId) : Prop :=
  ∃ i < j, ∃ m, g.nodes[i]? = some m ∧ isConv1d g m ∧ weightOf m = t

theorem not_taken_iff (g : Graph) (i : Nat) (n : Node) :
    ¬ Taken g i (weightOf n) ↔ First g i n := by
  constructor
  · exact fun free j low m here conv same => free ⟨j, low, m, here, conv, same⟩
  · rintro first ⟨j, low, m, here, conv, same⟩
    exact first j low m here conv same

theorem isConv1d_iff (g : Graph) (n : Node) : isConv1d g n ↔ n.type = .conv ∧
    2 ≤ n.inputs.length ∧ weightOf n ≠ kNoTensor ∧ g.isInitializer (weightOf n) ∧
      (g.desc (weightOf n)).shape.length = 3 := by
  simp [isConv1d, and_assoc]

/-- The graph after the first `j` nodes. -/
structure After (g : Graph) (j : Nat) (g' : Graph) : Prop where
  constants : g'.initializers = g.initializers
  taken : ∀ t, Taken g j t → (g'.desc t).shape = (g.desc t).shape ++ [1]
  free : ∀ t, ¬ Taken g j t → g'.desc t = g.desc t
  treated : ∀ i n, g.nodes[i]? = some n → i < j → isConv1d g n → First g i n →
    g'.nodes[i]? = some (extendConv n)
  kept : ∀ i n, g.nodes[i]? = some n → ¬ (i < j ∧ isConv1d g n ∧ First g i n) →
    g'.nodes[i]? = some n

theorem After.start (g : Graph) : After g 0 g where
  constants := rfl
  taken _ := by
    rintro ⟨i, low, -⟩
    exact absurd low (Nat.not_lt_zero i)
  free _ _ := rfl
  treated i _ _ low := absurd low (Nat.not_lt_zero i)
  kept _ _ here _ := here

/-- The pass recognizes the convolutions whose weight it has not reshaped. -/
theorem After.isConv1d_iff (after : After g j g') (n : Node) :
    isConv1d g' n ↔ isConv1d g n ∧ First g j n := by
  rw [Conv1d.isConv1d_iff, Conv1d.isConv1d_iff, Graph.isInitializer, after.constants,
    ← Graph.isInitializer]
  by_cases taken : Taken g j (weightOf n)
  · have reshaped := after.taken _ taken
    obtain ⟨i, low, m, here, conv, same⟩ := id taken
    have rank := ((Conv1d.isConv1d_iff g m).mp conv).2.2.2.2
    rw [same] at rank
    rw [reshaped, length_append, rank, ← not_taken_iff]
    simp [taken]
  · rw [after.free _ taken]
    exact ⟨fun all => ⟨all, (not_taken_iff g j n).mp taken⟩, And.left⟩

theorem taken_succ (here : g.nodes[j]? = some n) (t : TensorId) :
    Taken g (j + 1) t ↔ Taken g j t ∨ isConv1d g n ∧ weightOf n = t := by
  constructor
  · rintro ⟨i, low, m, at_, conv, same⟩
    rcases Nat.lt_succ_iff_lt_or_eq.mp low with earlier | rfl
    · exact .inl ⟨i, earlier, m, at_, conv, same⟩
    · obtain rfl := Option.some.inj (here.symm.trans at_)
      exact .inr ⟨conv, same⟩
  · rintro (⟨i, low, rest⟩ | ⟨conv, same⟩)
    · exact ⟨i, Nat.lt_succ_of_lt low, rest⟩
    · exact ⟨j, Nat.lt_succ_self j, n, here, conv, same⟩

/-- **One node.** -/
theorem After.step (after : After g j g') (here : g.nodes[j]? = some n) :
    After g (j + 1) (normalizeStep g' j) := by
  have same : g'.nodes.getD j {} = n := by
    rw [getD_eq_getElem?_getD, after.kept j n here fun all => absurd all.1 (Nat.lt_irrefl j)]
    rfl
  rw [normalizeStep, same]
  by_cases conv : isConv1d g' n
  · obtain ⟨original, first⟩ := (after.isConv1d_iff n).mp conv
    have notYet := (not_taken_iff g j n).mpr first
    have rank := ((Conv1d.isConv1d_iff g n).mp original).2.2.2.2
    have inside : (g'.desc (weightOf n)).shape ≠ [] := by
      rw [after.free _ notYet]
      exact fun none_ => by rw [none_] at rank; cases rank
    have lowJ : j < g'.nodes.length := by
      by_contra high
      have := after.kept j n here fun all => absurd all.1 (Nat.lt_irrefl j)
      rw [getElem?_eq_none (not_lt.mp high)] at this
      cases this
    rw [if_pos conv]
    refine ⟨after.constants, fun t taken => ?_, fun t free => ?_, fun i m at_ low convM firstM => ?_,
      fun i m at_ other => ?_⟩
    · change ((widen g' (weightOf n)).desc t).shape = _
      rw [desc_widen inside]
      rcases (taken_succ here t).mp taken with before | ⟨-, rfl⟩
      · rw [if_neg (fun equal : t = weightOf n => notYet (equal ▸ before)), after.taken t before]
      · rw [if_pos rfl, after.free _ notYet]
    · change (widen g' (weightOf n)).desc t = _
      rw [taken_succ here, not_or] at free
      rw [desc_widen inside, if_neg (fun equal => free.2 ⟨original, equal.symm⟩),
        after.free t free.1]
    · rcases Nat.lt_succ_iff_lt_or_eq.mp low with earlier | rfl
      · rw [getElem?_set_ne (by omega)]
        exact after.treated i m at_ earlier convM firstM
      · obtain rfl := Option.some.inj (here.symm.trans at_)
        exact getElem?_set_self lowJ
    · by_cases this : i = j
      · obtain rfl := this
        obtain rfl := Option.some.inj (here.symm.trans at_)
        exact absurd ⟨Nat.lt_succ_self i, original, first⟩ other
      · rw [getElem?_set_ne (Ne.symm this)]
        exact after.kept i m at_ fun all => other ⟨Nat.lt_succ_of_lt all.1, all.2⟩
  · rw [if_neg conv]
    have notFirst : ¬ (isConv1d g n ∧ First g j n) := fun both =>
      conv ((after.isConv1d_iff n).mpr both)
    have sameTaken : ∀ t, Taken g (j + 1) t ↔ Taken g j t := fun t => by
      rw [taken_succ here]
      refine or_iff_left_of_imp fun now => ?_
      by_contra free
      obtain ⟨original, rfl⟩ := now
      exact notFirst ⟨original, (not_taken_iff g j n).mp free⟩
    refine ⟨after.constants, fun t taken => after.taken t ((sameTaken t).mp taken),
      fun t free => after.free t fun taken => free ((sameTaken t).mpr taken),
      fun i m at_ low convM firstM => ?_, fun i m at_ other => after.kept i m at_ fun all =>
        other ⟨Nat.lt_succ_of_lt all.1, all.2⟩⟩
    rcases Nat.lt_succ_iff_lt_or_eq.mp low with earlier | rfl
    · exact after.treated i m at_ earlier convM firstM
    · obtain rfl := Option.some.inj (here.symm.trans at_)
      exact absurd ⟨convM, firstM⟩ notFirst

/-- **The whole pass.** -/
theorem after_normalizeConv1d (g : Graph) : After g g.nodes.length (normalizeConv1d g) := by
  have upTo : ∀ j ≤ g.nodes.length, After g j ((List.range j).foldl normalizeStep g) := by
    intro j
    induction j with
    | zero => exact fun _ => After.start g
    | succ j ih =>
      intro low
      rw [range_succ, foldl_append, foldl_cons, foldl_nil]
      exact (ih (by omega)).step (getElem?_eq_getElem (by omega))
  exact upTo _ (le_refl _)

/-! ## What it is for -/

/-- A one-dimensional convolution: its weight has rank 3, and each list of its attributes is absent
or has one dimension. -/
structure IsOneDim (g : Graph) (n : Node) : Prop where
  conv : n.type = .conv
  operands : 2 ≤ n.inputs.length
  weight : weightOf n ≠ kNoTensor
  rank : (g.desc (weightOf n)).shape.length = 3
  lists : OneDim n.attr

/-- The tensors a node reads, but for the weight of a convolution. -/
def otherReads (n : Node) : List TensorId :=
  if n.type = .conv ∧ 2 ≤ n.inputs.length then
    n.inputs.eraseIdx 1 ++ [n.fusedResidual, n.fusedBias]
  else n.reads

/-- A convolution in two dimensions that adds up what one in one dimension does. -/
structure Converted (g g' : Graph) (n n' : Node) : Prop where
  rest : n' = { n with attr := n'.attr }
  lists : TwoDim n'.attr
  weight : ∃ m c k, (g.desc (weightOf n)).shape = [m, c, k] ∧
    (g'.desc (weightOf n')).shape = [m, c, k, 1] ∧
      ∀ (R : Type) [CommSemiring R] (o : Operands R) (len : Int),
        (conv2d o n'.attr k 1 len 1).map (fun r => (r.1, fun i oc l => r.2 i oc l 0)) =
          (conv1d o n.attr k len).map fun r => ((r.1, 1), r.2)

/-- Every one-dimensional convolution has become one in two dimensions. -/
def Complete (g g' : Graph) : Prop :=
  ∀ (i : Nat) n, g.nodes[i]? = some n → IsOneDim g n → ∃ n', g'.nodes[i]? = some n' ∧ Converted g g' n n'

/-- Whatever else is read, or is an output, has the shape it had. -/
structure Local (g g' : Graph) : Prop where
  reads : ∀ n ∈ g.nodes, ∀ t ∈ otherReads n, (g'.desc t).shape = (g.desc t).shape
  outputs : ∀ t ∈ g.outputs, (g'.desc t).shape = (g.desc t).shape

/-- Attributes without any of the lists. -/
structure NoLists (attr : Attributes) : Prop where
  strides : attr.getints (str "strides") = []
  dilations : attr.getints (str "dilations") = []
  kernel : attr.getints (str "kernel_shape") = []
  pads : attr.getints (str "pads") = []

/-- Graphs that the pass suits: the weight of a one-dimensional convolution is constant, and no
earlier convolution has it, unless there are no lists to extend; what a treated convolution has for
a weight is read nowhere else. -/
structure Suited (g : Graph) : Prop where
  constant : ∀ (i : Nat) n, g.nodes[i]? = some n → IsOneDim g n → g.isInitializer (weightOf n)
  alone : ∀ (i : Nat) n, g.nodes[i]? = some n → IsOneDim g n → First g i n ∨ NoLists n.attr
  unread : ∀ m ∈ g.nodes, isConv1d g m → ∀ n ∈ g.nodes, weightOf m ∉ otherReads n
  inner : ∀ m ∈ g.nodes, isConv1d g m → weightOf m ∉ g.outputs

theorem IsOneDim.recognized (oneDim : IsOneDim g n) (constant : g.isInitializer (weightOf n)) :
    isConv1d g n :=
  (Conv1d.isConv1d_iff g n).mpr
    ⟨oneDim.conv, oneDim.operands, oneDim.weight, constant, oneDim.rank⟩

/-- Attributes without lists are widened as they are. -/
theorem NoLists.widened {attr : Attributes} (none_ : NoLists attr) : Widened attr attr := by
  refine ⟨?_, ?_, ?_, ?_, rfl, rfl⟩
  · rw [none_.strides]
    rfl
  · rw [none_.dilations]
    rfl
  · rw [none_.kernel]
    rfl
  · rw [none_.pads]
    rfl

/-- A list of one dimension at most, and of two if there is one, is absent. -/
theorem noLists_of_both {attr : Attributes} (one : OneDim attr) (two : TwoDim attr) :
    NoLists attr := by
  refine ⟨?_, ?_, ?_, ?_⟩
  · refine two.strides.resolve_right fun size => ?_
    have := one.strides
    omega
  · refine two.dilations.resolve_right fun size => ?_
    have := one.dilations
    omega
  · refine two.kernel.resolve_right fun size => ?_
    have := one.kernel
    omega
  · refine one.pads.resolve_right fun size => ?_
    rcases two.pads with none_ | four
    · rw [none_] at size
      cases size
    · omega

theorem taken_length (t : TensorId) :
    Taken g g.nodes.length t ↔ ∃ m ∈ g.nodes, isConv1d g m ∧ weightOf m = t := by
  constructor
  · rintro ⟨i, -, m, here, conv, same⟩
    exact ⟨m, mem_of_getElem? here, conv, same⟩
  · rintro ⟨m, mem, conv, same⟩
    obtain ⟨i, low, rfl⟩ := mem_iff_getElem.mp mem
    exact ⟨i, low, _, getElem?_eq_getElem low, conv, same⟩

/-- A tensor keeps its shape exactly when it is no treated convolution's weight. -/
theorem shape_kept_iff (g : Graph) (t : TensorId) :
    ((normalizeConv1d g).desc t).shape = (g.desc t).shape ↔
      ∀ m ∈ g.nodes, isConv1d g m → weightOf m ≠ t := by
  have after := after_normalizeConv1d g
  constructor
  · intro same m mem conv here
    rw [after.taken t ((taken_length t).mpr ⟨m, mem, conv, here⟩)] at same
    exact absurd (congrArg List.length same) (by simp)
  · intro none_
    refine congrArg TensorDesc.shape (after.free t fun taken => ?_)
    obtain ⟨m, mem, conv, here⟩ := (taken_length t).mp taken
    exact none_ m mem conv here

/-- **A convolution is converted exactly when its weight is constant and it is the first to have it**,
or has no lists. -/
theorem converted_iff (here : g.nodes[i]? = some n) (oneDim : IsOneDim g n) :
    (∃ n', (normalizeConv1d g).nodes[i]? = some n' ∧ Converted g (normalizeConv1d g) n n') ↔
      g.isInitializer (weightOf n) ∧ (First g i n ∨ NoLists n.attr) := by
  have after := after_normalizeConv1d g
  have mem := mem_of_getElem? here
  have low : i < g.nodes.length := (List.getElem?_eq_some_iff.mp here).1
  constructor
  · rintro ⟨n', here', converted⟩
    obtain ⟨m, c, k, shape, shape', -⟩ := converted.weight
    have sameWeight : weightOf n' = weightOf n := by
      rw [converted.rest]
      rfl
    rw [sameWeight] at shape'
    have constant : g.isInitializer (weightOf n) := by
      by_contra other
      have kept := (shape_kept_iff g (weightOf n)).mpr fun m' _ conv equal =>
        other (equal ▸ ((Conv1d.isConv1d_iff g m').mp conv).2.2.2.1)
      rw [shape', shape] at kept
      cases kept
    refine ⟨constant, ?_⟩
    by_contra neither
    rw [not_or] at neither
    rw [after.kept i n here fun all => neither.1 all.2.2, Option.some.injEq] at here'
    exact neither.2 (noLists_of_both oneDim.lists (here' ▸ converted.lists))
  · rintro ⟨constant, alone⟩
    have conv := oneDim.recognized constant
    obtain ⟨m, c, k, shape⟩ := length_eq_three.mp oneDim.rank
    have reshaped := after.taken _ ((taken_length _).mpr ⟨n, mem, conv, rfl⟩)
    rw [shape] at reshaped
    by_cases first : First g i n
    · have widened := widened_extendConv n
      exact ⟨extendConv n, after.treated i n here low conv first, rfl,
        widened.twoDim oneDim.lists, m, c, k, shape, reshaped,
        fun R _ o len => widened.conv2d_eq oneDim.lists o k len⟩
    · have widened := (alone.resolve_left first).widened
      exact ⟨n, after.kept i n here fun all => first all.2.2, rfl,
        widened.twoDim oneDim.lists, m, c, k, shape, reshaped,
        fun R _ o len => widened.conv2d_eq oneDim.lists o k len⟩

/-- **The pass is complete and local exactly on the graphs it suits.** -/
theorem normalizeConv1d_suited_iff (g : Graph) :
    Complete g (normalizeConv1d g) ∧ Local g (normalizeConv1d g) ↔ Suited g := by
  constructor
  · rintro ⟨complete, local_⟩
    refine ⟨fun i n here oneDim => ((converted_iff here oneDim).mp (complete i n here oneDim)).1,
      fun i n here oneDim => ((converted_iff here oneDim).mp (complete i n here oneDim)).2,
      fun m mem conv n memN read => ?_, fun m mem conv out => ?_⟩
    · exact (shape_kept_iff g _).mp (local_.reads n memN _ read) m mem conv rfl
    · exact (shape_kept_iff g _).mp (local_.outputs _ out) m mem conv rfl
  · intro suited
    refine ⟨fun i n here oneDim => (converted_iff here oneDim).mpr
      ⟨suited.constant i n here oneDim, suited.alone i n here oneDim⟩,
      fun n mem t read => (shape_kept_iff g t).mpr fun m memM conv same => ?_,
      fun t out => (shape_kept_iff g t).mpr fun m memM conv same => ?_⟩
    · exact suited.unread m memM conv n mem (same ▸ read)
    · exact suited.inner m memM conv (same ▸ out)

/-- Two convolutions of stride 2 with one weight, `w`. -/
def sharedWeight : Graph where
  tensors := [{ name := str "x", shape := [1, 1, 8] }, { name := str "w", shape := [1, 1, 3] },
    { name := str "a" }, { name := str "b" }]
  nodes := [strided 2, strided 3]
  initializers := (∅ : Std.ExtTreeMap TensorId HostBuffer).insert 1 []
where
  /-- One of them. -/
  strided (out : TensorId) : Node :=
    { type := .conv, inputs := [0, 1], outputs := [out],
      attr := ⟨(∅ : Std.ExtTreeMap Str Attr).insert (str "strides")
        ({ kind := .ints, ints := [2] } : Attr)⟩ }

theorem strided_getints (out : TensorId) (key : Str) :
    (sharedWeight.strided out).attr.getints key = if key = str "strides" then [2] else [] := by
  rw [sharedWeight.strided, getints, Std.ExtTreeMap.getElem?_insert]
  by_cases same : key = str "strides"
  · rw [if_pos same, if_pos (same ▸ Std.ReflCmp.compare_self)]
  · rw [if_neg same, if_neg fun equal => same (Std.LawfulEqCmp.compare_eq_iff_eq.mp equal).symm]
    rfl

theorem strided_isConv1d (out : TensorId) : isConv1d sharedWeight (sharedWeight.strided out) := by
  refine (isConv1d_iff _ _).mpr
    ⟨rfl, le_refl 2, (by decide : (1 : TensorId) ≠ kNoTensor), ?_, rfl⟩
  exact Std.ExtTreeMap.contains_insert_self

theorem strided_oneDim (out : TensorId) : IsOneDim sharedWeight (sharedWeight.strided out) := by
  refine ⟨rfl, le_refl 2, (by decide : (1 : TensorId) ≠ kNoTensor), rfl, ?_⟩
  constructor <;> simp [strided_getints, str]

/-- The second of two convolutions with one weight keeps its one-dimensional stride. -/
theorem sharedWeight_incomplete : IsOneDim sharedWeight (sharedWeight.strided 3) ∧
      ¬ Complete sharedWeight (normalizeConv1d sharedWeight) := by
  refine ⟨strided_oneDim 3, fun complete => ?_⟩
  have here : sharedWeight.nodes[1]? = some (sharedWeight.strided 3) := rfl
  rcases ((converted_iff here (strided_oneDim 3)).mp (complete 1 _ here (strided_oneDim 3))).2 with
    first | none_
  · exact first 0 Nat.zero_lt_one (sharedWeight.strided 2) rfl (strided_isConv1d 2) rfl
  · have strides := none_.strides
    rw [strided_getints, if_pos rfl] at strides
    cases strides

end Vknn.Import.Conv1d
