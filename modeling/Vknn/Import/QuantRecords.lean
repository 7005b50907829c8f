import Vknn.Import.QuantSites

/-!
# What a node says about its packed weight

A packed weight is read through its node: the node's attributes give the format and the view,
and name the tensors with the scales, the outlier columns and the codebook.  The numbers of
these tensors are a matter of one graph, so two graphs are compared by the bytes they name.
-/

namespace Vknn.Import.Quantize

open List

/-! ## The record of a weight -/

/-- The attributes that name the tensors beside a packed weight, as the run time reads them. -/
def sideKeys (format nOut : Int) : List Str :=
  [kWqScales] ++ (if 0 < nOut then [kWqOidx, kWqOval] else []) ++
    (if format = kWqFormatLut4 then [kWqLut] else [])

def bytesOf (g : Graph) (t : TensorId) : HostBuffer := g.initializers[t]?.getD []

/-- What a bucket holds of a packed weight: the attributes of its node, the payload, and the bytes
of the scales, the outlier columns and the codebook. -/
@[ext] structure QuantRecord where
  format : Int
  k : Int
  n : Int
  group : Int
  nOut : Int
  layout : Int
  dtype : DType
  payload : HostBuffer
  sides : List HostBuffer
deriving DecidableEq

/-- The tensors beside the packed weight of a node. -/
def sideIds (nd : Node) : List TensorId :=
  (sideKeys (nd.attr.geti kWq 0) (nd.attr.geti kWqNOut 0)).map fun key =>
    nd.attr.geti key kNoTensor

/-- The record of a weight at a node; nothing where the node's weight is not packed. -/
def record (g : Graph) (i : Nat) (w : TensorId) : Option QuantRecord :=
  let nd := g.nodes.getD i {}
  if nd.attr.has kWq then
    some
      { format := nd.attr.geti kWq 0
        k := nd.attr.geti kWqK 0
        n := nd.attr.geti kWqN 0
        group := nd.attr.geti kWqGroup 1
        nOut := nd.attr.geti kWqNOut 0
        layout := nd.attr.geti kWqLayout 0
        dtype := (g.desc w).dtype
        payload := bytesOf g w
        sides := (sideIds nd).map (bytesOf g) }
  else none

variable {g g' : Graph} {s : QuantSite} {nd : Node}

/-- A record depends on the node, on the weight and on the tensors beside it. -/
theorem record_congr {i : Nat} {w : TensorId} (node : g'.nodes[i]? = g.nodes[i]?)
    (dtype : (g'.desc w).dtype = (g.desc w).dtype) (payload : bytesOf g' w = bytesOf g w)
    (sides : ∀ t ∈ sideIds (g.nodes.getD i {}), bytesOf g' t = bytesOf g t) :
    record g' i w = record g i w := by
  have same : g'.nodes.getD i {} = g.nodes.getD i {} := by
    rw [getD_eq_getElem?_getD, node, getD_eq_getElem?_getD]
  unfold record
  dsimp only
  rw [same, dtype, payload, map_congr_left sides]

theorem getD_of_node {i : Nat} (node : g.nodes[i]? = some nd) : g.nodes.getD i {} = nd := by
  rw [getD_eq_getElem?_getD, node, Option.getD_some]

/-! ## Attributes -/

theorem setInts_cons (attr : Attributes) (e : Str × Int) (rest : List (Str × Int)) :
    setInts attr (e :: rest) =
      setInts { map := attr.map.insert e.1 { kind := .int, i := e.2 } } rest := rfl

variable {entries : List (Str × Int)} {e : Str × Int}

theorem getElem?_setInts_of_notMem {key : Str}
    (absent : key ∉ entries.map Prod.fst) (attr : Attributes) :
    (setInts attr entries).map[key]? = attr.map[key]? := by
  induction entries generalizing attr with
  | nil => rfl
  | cons e rest ih =>
    rw [map_cons, mem_cons, not_or] at absent
    rw [setInts_cons, ih absent.2, Std.ExtTreeMap.getElem?_insert, if_neg]
    rw [Std.LawfulEqCmp.compare_eq_iff_eq]
    exact fun same => absent.1 same.symm

theorem getElem?_setInts_of_mem
    (apart : (entries.map Prod.fst).Nodup) (mem : e ∈ entries) (attr : Attributes) :
    (setInts attr entries).map[e.1]? = some { kind := .int, i := e.2 } := by
  induction entries generalizing attr with
  | nil => cases mem
  | cons first rest ih =>
    rw [map_cons, nodup_cons] at apart
    rw [setInts_cons]
    rcases mem_cons.mp mem with rfl | later
    · rw [getElem?_setInts_of_notMem apart.1, Std.ExtTreeMap.getElem?_insert_self]
    · exact ih apart.2 later _

theorem geti_setInts
    (apart : (entries.map Prod.fst).Nodup) (mem : e ∈ entries) (attr : Attributes) (d : Int) :
    (setInts attr entries).geti e.1 d = e.2 := by
  rw [Attributes.geti, getElem?_setInts_of_mem apart mem]

theorem has_setInts
    (apart : (entries.map Prod.fst).Nodup) (mem : e ∈ entries) (attr : Attributes) :
    (setInts attr entries).has e.1 = true := by
  rw [Attributes.has, Std.ExtTreeMap.contains_eq_isSome_getElem?,
    getElem?_setInts_of_mem apart mem, Option.isSome_some]

theorem keys_nodup (format nOut : Int) :
    ([kWq, kWqK, kWqN, kWqGroup, kWqNOut, kWqLayout] ++ sideKeys format nOut).Nodup := by
  unfold sideKeys
  split <;> split <;> decide

/-! ## New constants -/

theorem bytesOf_insert (g : Graph) (t u : TensorId) (hb : HostBuffer) :
    bytesOf (setPayload g t hb) u = if u = t then hb else bytesOf g u := by
  unfold bytesOf setPayload
  rw [Std.ExtTreeMap.getElem?_insert]
  by_cases same : u = t
  · rw [if_pos (Std.LawfulEqCmp.compare_eq_iff_eq.mpr same.symm), if_pos same, Option.getD_some]
  · rw [if_neg fun eq => same (Std.LawfulEqCmp.compare_eq_iff_eq.mp eq).symm, if_neg same]

theorem addConstant_eq (g : Graph) (d : TensorDesc) (hb : HostBuffer) :
    addConstant g d hb = (setPayload (g.addTensor d).1 g.tensors.length hb, (g.tensors.length : Int)) :=
  rfl

theorem bytesOf_addConstant (g : Graph) (d : TensorDesc) (hb : HostBuffer) (t : TensorId) :
    bytesOf (addConstant g d hb).1 t = if t = (g.tensors.length : Int) then hb else bytesOf g t :=
  bytesOf_insert (g.addTensor d).1 _ t hb

theorem desc_addConstant (g : Graph) (d : TensorDesc) (hb : HostBuffer) (t : TensorId) :
    (addConstant g d hb).1.desc t = if t = (g.tensors.length : Int) then d else g.desc t :=
  Onnx.desc_addTensor g d t

theorem length_addConstant (g : Graph) (d : TensorDesc) (hb : HostBuffer) :
    (addConstant g d hb).1.tensors.length = g.tensors.length + 1 := length_append

/-- What making the side tensors leaves as it was, and what it makes. -/
structure MadeSides (g : Graph) (sides : List Side) (g' : Graph) (made : List (Str × TensorId)) :
    Prop where
  size : g'.tensors.length = g.tensors.length + sides.length
  nodes : g'.nodes = g.nodes
  outputs : g'.outputs = g.outputs
  kept : ∀ t : TensorId, t < g.tensors.length → bytesOf g' t = bytesOf g t
  desc : ∀ t : TensorId, t < g.tensors.length → g'.desc t = g.desc t
  keys : made.map Prod.fst = sides.map Prod.fst
  fresh : ∀ e ∈ made, (g.tensors.length : Int) ≤ e.2 ∧ e.2 < (g'.tensors.length : Int)
  bytes : (made.map fun e => bytesOf g' e.2) = sides.map fun side => side.2.2

theorem madeSides (g : Graph) (sides : List Side) :
    MadeSides g sides (addSides g sides).1 (addSides g sides).2 := by
  induction sides generalizing g with
  | nil => exact ⟨rfl, rfl, rfl, fun _ _ => rfl, fun _ _ => rfl, rfl, by simp [addSides], rfl⟩
  | cons side rest ih =>
    obtain ⟨key, d, hb⟩ := side
    have next := ih (addConstant g d hb).1
    have grown := length_addConstant g d hb
    have size := next.size
    rw [grown] at size
    have new : ((addConstant g d hb).2 : Int) < (addConstant g d hb).1.tensors.length := by
      rw [grown]
      change (g.tensors.length : Int) < _
      exact_mod_cast g.tensors.length.lt_succ_self
    have old {t : TensorId} (inside : t < (g.tensors.length : Int)) :
        t < ((addConstant g d hb).1.tensors.length : Int) := inside.trans new
    refine ⟨?_, next.nodes, next.outputs, fun t inside => ?_, fun t inside => ?_, ?_, ?_, ?_⟩
    · rw [length_cons]
      exact size.trans (by omega)
    · exact (next.kept t (old inside)).trans
        ((bytesOf_addConstant g d hb t).trans (if_neg inside.ne))
    · exact (next.desc t (old inside)).trans
        ((desc_addConstant g d hb t).trans (if_neg inside.ne))
    · exact congrArg (key :: ·) next.keys
    · intro e mem
      rcases mem_cons.mp mem with rfl | later
      · refine ⟨le_refl (g.tensors.length : Int), ?_⟩
        change (g.tensors.length : Int) < _
        change _ = _ at size
        have := size
        exact_mod_cast (show g.tensors.length < (addSides (addConstant g d hb).1 rest).1.tensors.length by omega)
      · have both := next.fresh e later
        rw [grown] at both
        push_cast at both
        exact ⟨by linarith [both.1], both.2⟩
    · refine congrArg₂ List.cons ?_ next.bytes
      exact (next.kept _ new).trans ((bytesOf_addConstant g d hb _).trans (if_pos rfl))

end Vknn.Import.Quantize
