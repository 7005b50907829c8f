import Vknn.Cpu.AxisSlice
import Vknn.Cpu.Execution
import Vknn.Import.PassesUtil

/-!
# Gathers that are slices

A gather whose indices are a constant ascending run of places on its axis becomes a slice.  The
pass reads the indices out of the bytes of the constant; the kernel reads them as it runs, 64-bit
integers as they are and every other constant as numbers.

Both kernels copy the same rows, so the slice has the shape and the elements of the gather.
-/

namespace Vknn

open AxisPieces List RowMajor

/-! ## The kernels -/

namespace Cpu

variable {α : Type} (K : Kernels α)

/-- The axis of a gather, clamped to the rank. -/
def gatherAxis (nd : Node) (rank : Nat) : Nat :=
  (max 0 (min (axisOf (nd.attr.geti (str "axis") 0) rank) (rank - 1))).toNat

/-- For each block and each index one row. -/
def copyRows (zero : α) (outer axisSize inner : Int) (idx : List Int) (X : List α) : List α :=
  (Ranges.points (0, outer)).flatMap fun o => idx.flatMap fun ik =>
    let src := if ik < 0 then ik + axisSize else ik
    (Ranges.points (0, inner)).map fun j => readAt zero X ((o * axisSize + src) * inner + j)

/-- The kernel of a gather; an index out of range is an error. -/
def gatherCpu (nd : Node) (shape idxShape : Shape) (idx : List Int) (X : List α) :
    Option (Shape × List α) :=
  let axis := gatherAxis nd shape.length
  let axisSize := if shape = [] then 1 else shape.getD axis 0
  let scalarIndex := idxShape = [] ∨ nd.attr.geti (str "idx_scalar") 0 ≠ 0
  let outShape := shape.take axis ++ (if scalarIndex then [] else idxShape) ++ shape.drop (axis + 1)
  if ∃ ik ∈ idx, ik < -axisSize ∨ axisSize ≤ ik then none
  else some (if outShape = [] then [1] else outShape,
    copyRows K.zero (size (shape.take axis)) axisSize (size (shape.drop (axis + 1))) idx X)

/-- The indices that a gather reads from a constant. -/
def constantIndices (floatInts : Import.FloatInts) (d : TensorDesc) (hb : HostBuffer) : List Int :=
  (if d.dtype = .int64 then Import.hostInts hb else floatInts d hb).take (size d.shape).toNat

/-- The kernel of a slice; `view` is what a folded movement chain gives. -/
def sliceCpu (nd : Node) (e : TensorId → List α) (view : Shape × List α) (shape : Shape)
    (X : List α) : Shape × List α :=
  if nd.attr.has (str "view_stride") then view
  else (sliceShape (sliceParams K nd e) shape, slice K.zero (sliceParams K nd e) shape X)

end Cpu

/-! ## The pass -/

namespace Import

/-- The 32-bit integers a buffer holds. -/
def hostInts32 (hb : HostBuffer) : List Int :=
  (List.range (hb.length / 4)).map fun (k : Nat) => Wire.leInt 4 ((hb.drop (4 * k)).take 4)

def wrapped (extent v : Int) : Int := if v < 0 then v + extent else v

/-- Whether the values are an ascending run of places on an axis. -/
def contiguous (extent : Int) (vals : List Int) : Bool :=
  vals.zipIdx.all fun (v, k) => decide (wrapped extent v = vals.headD 0 + (k : Nat)) &&
    decide (0 ≤ wrapped extent v) && decide (wrapped extent v < extent)

def withInts (a : Attributes) (name : String) (v : List Int) : Attributes :=
  ⟨a.map.insert (str name) { kind := .ints, ints := v }⟩

/-- The slice that a gather becomes. -/
def foldGather (g : Graph) (nd : Node) : Option Node := do
  let data := nd.inputs.getD 0 kNoTensor
  let idx := nd.inputs.getD 1 kNoTensor
  guard (nd.type = .gather ∧ 2 ≤ nd.inputs.length ∧ data ≠ kNoTensor ∧ idx ≠ kNoTensor)
  guard (!nd.attr.has (str "idx_scalar") && !nd.attr.has (str "pw_steps"))
  guard (g.isInitializer idx && !g.isInitializer data)
  let id := g.desc idx
  guard (id.shape.length = 1 ∧ (id.dtype = .int32 ∨ id.dtype = .int64))
  let ds := (g.desc data).shape
  let axis := Cpu.axisOf (nd.attr.geti (str "axis") 0) ds.length
  guard (ds ≠ [] ∧ 0 ≤ axis ∧ axis < ds.length)
  let payload ← g.initializers[idx]?
  let count := id.shape.headD 0
  guard (payload ≠ [] ∧ 1 ≤ count)
  guard (count * (if id.dtype = .int64 then 8 else 4) ≤ payload.length)
  let vals := (if id.dtype = .int64 then hostInts payload else hostInts32 payload).take count.toNat
  let extent := ds.getD axis.toNat 0
  let start := wrapped extent (vals.headD 0)
  guard (contiguous extent vals ∧ 0 ≤ start ∧ start + count ≤ extent)
  let attr := withInts nd.attr "starts" [start]
  let attr := withInts (withInts attr "ends" [start + count]) "axes" [axis]
  some { nd with type := .slice, inputs := [data], attr := withInts attr "steps" [1] }

def foldGatherToSlice (g : Graph) : Graph :=
  { g with nodes := g.nodes.map fun nd => (foldGather g nd).getD nd }

end Import

/-! ## Runs of indices -/

namespace Import

variable {extent : Int} {vals : List Int}

theorem wrapped_of_contiguous (run : contiguous extent vals = true) :
    vals.map (wrapped extent) = (List.range vals.length).map (fun k : Nat => vals.headD 0 + k) ∧
      ∀ v ∈ vals, 0 ≤ wrapped extent v ∧ wrapped extent v < extent := by
  rw [contiguous, all_eq_true] at run
  have each : ∀ k (small : k < vals.length), wrapped extent vals[k] = vals.headD 0 + k ∧
      0 ≤ wrapped extent vals[k] ∧ wrapped extent vals[k] < extent := by
    intro k small
    have listed := run (vals[k], k) (mem_zipIdx_iff_getElem?.mpr (getElem?_eq_getElem small))
    simpa [and_assoc] using listed
  refine ⟨ext_getElem (by simp) fun k small _ => ?_, fun v mem => ?_⟩
  · rw [getElem_map, getElem_map, getElem_range]
    exact (each k (by simpa using small)).1
  · obtain ⟨k, small, rfl⟩ := getElem_of_mem mem
    exact (each k small).2

end Import

namespace Cpu

variable {α : Type} {e : Nat} {pre post : Shape} {idx : List Int}

/-- Tensors that are the same piece are the same. -/
theorem IsPiece.unique {axis : Nat} {start size : Int} {shape : Shape} {X : List α}
    {Y Z : Shape × List α} (first : IsPiece axis start size shape X Y)
    (second : IsPiece axis start size shape X Z) (dims : ∀ d ∈ shape.set axis size, 0 ≤ d) :
    Y = Z := by
  refine Prod.ext (first.dims.trans second.dims.symm) (ext_getElem? fun i => ?_)
  have count := first.count.trans second.count.symm
  by_cases inside : i < Y.2.length
  · have room : (i : Int) < RowMajor.size (shape.set axis size) := by
      rw [← first.count]
      exact_mod_cast inside
    obtain ⟨cs, within, here⟩ := exists_coords
      (positive_of_size_pos dims (by omega)) (Int.natCast_nonneg i) room
    have one := first.elements cs within
    rw [← second.elements cs within, here, Int.toNat_natCast] at one
    exact one
  · rw [getElem?_eq_none (by omega), getElem?_eq_none (by omega)]

/-- The rows of a run of indices are a segment. -/
theorem copyRows_run (zero : α) (outer extent inner : Int) {start n : Nat}
    (run : idx.map (Import.wrapped extent) = (List.range n).map fun k : Nat => (start : Int) + k)
    (X : List α) :
    copyRows zero outer extent inner idx X = copySegment zero outer extent inner start n X := by
  rw [copyRows, copySegment]
  refine flatMap_congr fun o _ => ?_
  have rows := congrArg (List.flatMap fun src => (Ranges.points (0, inner)).map fun j =>
    readAt zero X ((o * extent + src) * inner + j)) run
  rw [flatMap_map, flatMap_map] at rows
  refine rows.trans ?_
  simp only [Ranges.points, Int.sub_zero, Int.toNat_natCast, Int.zero_add, flatMap_map, map_map,
    Int.add_assoc]

/-- The lists of a slice of one axis may end with its step. -/
theorem slice_step (zero : α) (s t a : Int) (shape : Shape) (X : List α) :
    (sliceShape ⟨[s], [t], [a], [1]⟩ shape, slice zero ⟨[s], [t], [a], [1]⟩ shape X) =
      (sliceShape ⟨[s], [t], [a], []⟩ shape, slice zero ⟨[s], [t], [a], []⟩ shape X) := by
  have entries : (SliceParams.mk [s] [t] [a] [1]).entries shape.length =
      (SliceParams.mk [s] [t] [a] []).entries shape.length := by
    refine filterMap_congr fun k mem => ?_
    obtain rfl : k = 0 := by simpa using mem
    rfl
  rw [slice, slice, sliceShape, sliceShape, sliceWalks, sliceWalks, entries]

/-- **A gather of a run of indices is a slice.** -/
theorem gatherCpu_run (K : Kernels α) {nd : Node} {start n : Nat}
    (front : ∀ d ∈ pre, 0 ≤ d) (back : ∀ d ∈ post, 0 ≤ d) (room : start + n ≤ e)
    (word : toInt32 pre.length = pre.length)
    (axis : gatherAxis nd (pre.length + 1 + post.length) = pre.length)
    (array : nd.attr.geti (str "idx_scalar") 0 = 0)
    (run : idx.map (Import.wrapped e) = (List.range n).map fun k : Nat => (start : Int) + k)
    (inside : ∀ v ∈ idx, 0 ≤ Import.wrapped e v ∧ Import.wrapped e v < e) {X : List α}
    (counted : (X.length : Int) = size (pre ++ (e : Int) :: post)) :
    gatherCpu K nd (pre ++ (e : Int) :: post) [(n : Int)] idx X =
      some (sliceShape (axisSlice pre.length start n) (pre ++ (e : Int) :: post),
        slice K.zero (axisSlice pre.length start n) (pre ++ (e : Int) :: post) X) := by
  have lead : (pre ++ (e : Int) :: post).take pre.length = pre := by simp
  have tail : (pre ++ (e : Int) :: post).drop (pre.length + 1) = post := by simp
  have rank : (pre ++ (e : Int) :: post).length = pre.length + 1 + post.length := by
    simp only [length_append, length_cons]
    omega
  have total := (counted_around front back).mp counted
  have valid : ¬∃ ik ∈ idx, ik < -(e : Int) ∨ (e : Int) ≤ ik := by
    rintro ⟨ik, mem, out⟩
    have bounds := inside ik mem
    unfold Import.wrapped at bounds
    split at bounds <;> omega
  have piece := slice_piece K.zero front back word room total
  have some_ : ¬(pre ++ (e : Int) :: post = []) := by simp
  have kept : ¬([(n : Int)] = [] ∨ nd.attr.geti (str "idx_scalar") 0 ≠ 0) := by simp [array]
  have filled : ¬(pre ++ [(n : Int)] ++ post = []) := by simp
  rw [gatherCpu, rank, axis, getD_around, lead, tail, if_neg some_, if_neg valid, if_neg kept,
    if_neg filled, copyRows_run _ _ _ _ run]
  refine congrArg some (IsPiece.unique ((isPiece_iff front back start n X _).mpr ⟨by simp, ?_⟩) piece ?_)
  · have outer := Int.toNat_of_nonneg (size_nonneg front)
    have inner := Int.toNat_of_nonneg (size_nonneg back)
    rw [← outer, ← inner]
    exact piece_copySegment K.zero room total
  · rw [set_around]
    intro d mem
    rcases mem_append.mp mem with inPre | mem
    · exact front d inPre
    · rcases mem_cons.mp mem with rfl | inPost
      · exact Int.natCast_nonneg n
      · exact back d inPost

end Cpu

/-! ## The slices of the pass -/

namespace Import

variable {α : Type} {g : Graph} {nd nd' : Node}

theorem length_hostInts (hb : HostBuffer) : (hostInts hb).length = hb.length / 8 := by
  rw [hostInts, length_map, length_range]

theorem getints_withInts (a : Attributes) (name key : String) (v : List Int) :
    (withInts a name v).getints (str key) =
      if str key = str name then v else a.getints (str key) := by
  unfold withInts Attributes.getints
  rw [Attributes.lookup_insert]
  by_cases same : str key = str name
  · rw [if_pos same, if_pos same]
  · rw [if_neg same, if_neg same]

theorem has_withInts (a : Attributes) (name key : String) (v : List Int) :
    (withInts a name v).has (str key) = (decide (str key = str name) || a.has (str key)) := by
  rw [Attributes.has_eq, Attributes.has_eq, withInts, Attributes.lookup_insert]
  split <;> simp [*]

/-- The parameters of the slice that a gather becomes. -/
theorem sliceParams_withInts (K : Cpu.Kernels α) (env : TensorId → List α) (made : Node)
    (attr : Attributes) {s t a : Int} (set : made.attr = withInts (withInts (withInts
      (withInts attr "starts" [s]) "ends" [t]) "axes" [a]) "steps" [1]) :
    Cpu.sliceParams K made env = ⟨[s], [t], [a], [1]⟩ := by
  unfold Cpu.sliceParams Cpu.readParamList
  rw [set]
  simp +decide [getints_withInts]

theorem axis_of_inside {shape : Shape} {pre post : Shape} {e : Int} {a : Nat}
    (cut : shape = pre ++ e :: post) (front : pre.length = a)
    (here : Cpu.axisOf (nd.attr.geti (str "axis") 0) shape.length = (a : Int)) :
    Cpu.gatherAxis nd (pre.length + 1 + post.length) = pre.length := by
  have rank : shape.length = pre.length + 1 + post.length := by
    rw [cut, length_append, length_cons]
    omega
  rw [Cpu.gatherAxis, ← rank, here]
  omega

/-- **Every gather that the pass rewrites reads what its slice reads**: the shape and the elements
are the same, on every input whose shape agrees with the extents that are known. -/
theorem foldGatherToSlice_exact (K : Cpu.Kernels α) (floatInts : FloatInts)
    (env : TensorId → List α) (view : Shape × List α) {k : Nat} (found : g.nodes[k]? = some nd)
    (after : (foldGatherToSlice g).nodes[k]? = some nd') (changed : nd' ≠ nd)
    (stored : ∀ t, g.isInitializer t = true → (g.desc t).dtype ≠ .int32)
    (plain : nd.attr.has (str "view_stride") = false) {shape : Shape}
    (agrees : List.Forall₂ (fun d x : Int => 0 < d → x = d)
      (g.desc (nd.inputs.getD 0 kNoTensor)).shape shape)
    (dims : ∀ d ∈ shape, 0 ≤ d) (rank : shape.length < 2 ^ 31) {X : List α}
    (counted : (X.length : Int) = size shape) :
    Cpu.gatherCpu K nd shape (g.desc (nd.inputs.getD 1 kNoTensor)).shape
        (Cpu.constantIndices floatInts (g.desc (nd.inputs.getD 1 kNoTensor))
          (g.initializers[nd.inputs.getD 1 kNoTensor]?.getD [])) X =
      some (Cpu.sliceCpu K nd' env view shape X) := by
  obtain folded : foldGather g nd = some nd' := by
    rw [foldGatherToSlice, getElem?_map, found, Option.map_some, Option.some.injEq] at after
    cases folded : foldGather g nd with
    | none => exact absurd after.symm (by rw [folded]; exact changed)
    | some s => rw [← after, folded, Option.getD_some]
  simp only [foldGather, bind, Option.bind_eq_some_iff, Option.guard_eq_some', Option.some.injEq]
    at folded
  obtain ⟨_, -, _, extras, _, init, _, ⟨one, kind⟩, _, ⟨-, low, high⟩, payload, held, _, ⟨-, more⟩,
    _, room, _, ⟨run, -, fits⟩, result⟩ := folded
  generalize nd.inputs.getD 1 kNoTensor = idx at *
  generalize (g.desc (nd.inputs.getD 0 kNoTensor)).shape = ds at *
  rw [Bool.and_eq_true] at extras init
  have label := kind.resolve_left (stored idx init.1)
  obtain ⟨count, one⟩ := length_eq_one_iff.mp one
  rw [one, headD_cons] at more room run fits result
  obtain ⟨n, rfl⟩ := Int.eq_ofNat_of_zero_le (by omega : 0 ≤ count)
  obtain ⟨a, here⟩ := Int.eq_ofNat_of_zero_le low
  rw [if_pos label] at room run fits result
  simp only [here, Int.toNat_natCast] at run fits result
  -- the indices, and what they wrap to
  have values : Cpu.constantIndices floatInts (g.desc idx) payload = (hostInts payload).take n := by
    rw [Cpu.constantIndices, if_pos label, one]
    simp [size]
  have length : ((hostInts payload).take n).length = n := by
    rw [length_take, length_hostInts]
    omega
  rw [held, Option.getD_some, values, one]
  generalize (hostInts payload).take n = vals at run fits result length
  obtain ⟨places, inside⟩ := wrapped_of_contiguous run
  rw [length] at places
  obtain ⟨v, vs, rfl⟩ := exists_cons_of_length_pos (by omega : 0 < vals.length)
  have first : wrapped (ds.getD a 0) v = v := by
    have heads := congrArg (·.headD 0) places
    obtain ⟨m, rfl⟩ := Nat.exists_eq_add_of_le' (by omega : 1 ≤ n)
    simpa [range_succ_eq_map] using heads
  have place := inside v mem_cons_self
  rw [headD_cons] at places fits result
  rw [first] at place fits result
  obtain ⟨start, rfl⟩ := Int.eq_ofNat_of_zero_le place.1
  -- the shape, cut at the axis
  have same := agrees.length_eq
  have within : a < shape.length := by omega
  obtain ⟨pre, post, e, front, cut, before, behind⟩ := Cpu.exists_around a within dims
  have axis := axis_of_inside cut front (same ▸ here)
  have extent : ds.getD a 0 = e := by
    have axisHere : a < ds.length := by omega
    have pair : 0 < ds[a] → shape[a] = ds[a] := (forall₂_iff_get.mp agrees).2 a axisHere within
    have there : shape.getD a 0 = e := by rw [cut, ← front, Cpu.getD_around]
    rw [getD_eq_getElem?_getD, getElem?_eq_getElem axisHere, Option.getD_some] at place ⊢
    rw [getD_eq_getElem?_getD, getElem?_eq_getElem within, Option.getD_some] at there
    exact (pair (by omega)).symm.trans there
  rw [extent] at places inside fits
  rw [cut, Cpu.gatherCpu_run K before behind (by omega) ?_ axis ?_ places inside (cut ▸ counted)]
  · have unmarked : nd'.attr.has (str "view_stride") = false := by
      rw [← result]
      simp +decide [has_withInts, plain]
    rw [Cpu.sliceCpu, unmarked, if_neg Bool.false_ne_true,
      sliceParams_withInts K env nd' nd.attr (by rw [← result]), Cpu.slice_step, ← front]
    rfl
  · rw [Cpu.toInt32, Int.bmod_eq_emod]
    split <;> omega
  · have absent := extras.1
    rw [Attributes.has_eq, Bool.not_eq_true', Option.isSome_eq_false_iff, Option.isNone_iff_eq_none]
      at absent
    rw [Attributes.geti, absent]

/-- The last two of three rows, by their indices `1` and `-1`. -/
def rowsGather : Graph where
  tensors := [{ shape := [3, 2] }, { shape := [2], dtype := .int64 }, {}]
  nodes := [{ type := .gather, inputs := [0, 1], outputs := [2] }]
  initializers := (∅ : Std.ExtTreeMap TensorId HostBuffer).insert 1
    (1 :: List.replicate 7 0 ++ List.replicate 8 255)

def integers : Cpu.Kernels Int := ⟨⟨0, (· * ·), (· + ·)⟩, id, fun _ _ _ _ => [], fun _ _ _ _ => []⟩

theorem foldGatherToSlice_exact_rows : let X : List Int := [1, 2, 3, 4, 5, 6]
    let nd := rowsGather.nodes.headD {}
    let nd' := (foldGatherToSlice rowsGather).nodes.headD {}
    Cpu.gatherCpu integers nd [3, 2] [2] (Cpu.constantIndices (fun _ _ => [])
        (rowsGather.desc 1) (rowsGather.initializers[(1 : TensorId)]?.getD [])) X =
      some (Cpu.sliceCpu integers nd' (fun _ => []) ([], []) [3, 2] X) := by
  refine foldGatherToSlice_exact (g := rowsGather) integers (fun _ _ => []) (fun _ => []) ([], [])
    (k := 0) rfl rfl (by decide) ?_ (by decide)
    (.cons (fun _ => rfl) (.cons (fun _ => rfl) .nil)) (by decide) (by decide) rfl
  intro t constant
  obtain rfl : 1 = t := by simpa [Graph.isInitializer, rowsGather] using constant
  decide

end Import

end Vknn
